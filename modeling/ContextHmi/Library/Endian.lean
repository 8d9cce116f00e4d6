import ContextHmi.Library.Bytes

/-!
# Numbers as bytes, least significant first

* `get_put` : a number that fits is read back;
* `put_get` : so are the bytes.
-/

namespace Endian

/-- The low `n` bytes of a number. -/
def put : Nat → Nat → Bytes
  | 0, _ => []
  | n + 1, v => UInt8.ofNat v :: put n (v / 256)

/-- The number some bytes are. -/
def get : Bytes → Nat
  | [] => 0
  | b :: s => b.toNat + 256 * get s

@[simp] theorem length_put (n v : Nat) : (put n v).length = n := by
  induction n generalizing v with
  | zero => rfl
  | succ n ih => rw [put, List.length_cons, ih]

/-- **A number that fits is read back.** -/
theorem get_put {n v : Nat} (hv : v < 256 ^ n) : get (put n v) = v := by
  induction n generalizing v with
  | zero =>
    rw [Nat.pow_zero] at hv
    rw [put, get]
    omega
  | succ n ih =>
    rw [Nat.pow_succ] at hv
    rw [put, get, ih (by omega), UInt8.toNat_ofNat']
    omega

theorem get_lt (s : Bytes) : get s < 256 ^ s.length := by
  induction s with
  | nil => exact Nat.one_pos
  | cons b s ih =>
    have hb := b.toNat_lt
    rw [get, List.length_cons, Nat.pow_succ]
    omega

/-- **Bytes are read back.** -/
theorem put_get (s : Bytes) : put s.length (get s) = s := by
  induction s with
  | nil => rfl
  | cons b s ih =>
    have hb := b.toNat_lt
    have hlow : UInt8.ofNat (b.toNat + 256 * get s) = b := by
      apply UInt8.toNat_inj.mp
      rw [UInt8.toNat_ofNat']
      omega
    have hrest : (b.toNat + 256 * get s) / 256 = get s := by omega
    rw [get, List.length_cons, put, hlow, hrest, ih]

theorem put_of_get {n v : Nat} {s : Bytes} (hs : s.length = n) (h : get s = v) : s = put n v := by
  rw [← hs, ← h, put_get]

end Endian
