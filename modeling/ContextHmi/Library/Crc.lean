import ContextHmi.Library.Bytes

/-!
# Cyclic redundancy checks

The reflected check of 32 bits, bit by bit, for any polynomial. A byte is one linear map of the state
after its exclusive or with the byte; where the polynomial has its top bit, the map has no kernel.

* `update_word`        : up to four bytes act as the word they are, all at once;
* `update_ne_of_burst` : a change within four consecutive bytes changes the check.
-/

namespace Crc

/-- One bit: the state moves down, and the polynomial is added where the low bit was set. -/
def bit (poly state : BitVec 32) : BitVec 32 :=
  (state >>> 1) ^^^ (poly &&& (0 - (state &&& 1)))

def bits (poly : BitVec 32) : Nat → BitVec 32 → BitVec 32
  | 0, state => state
  | n + 1, state => bits poly n (bit poly state)

/-- The eight bits of a byte. -/
def byte (poly state : BitVec 32) (b : UInt8) : BitVec 32 :=
  bits poly 8 (state ^^^ b.toBitVec.setWidth 32)

def update (poly : BitVec 32) (state : BitVec 32) (data : Bytes) : BitVec 32 :=
  data.foldl (byte poly) state

variable {poly : BitVec 32}

theorem bit_eq (poly state : BitVec 32) :
    bit poly state = if state.getLsbD 0 then (state >>> 1) ^^^ poly else state >>> 1 := by
  have hlow : state &&& 1 = BitVec.setWidth 32 (BitVec.ofBool (state.getLsbD 0)) :=
    BitVec.and_one_eq_setWidth_ofBool_getLsbD
  rw [bit, hlow]
  cases state.getLsbD 0 with
  | false =>
    have hmask : (0 : BitVec 32) - BitVec.setWidth 32 (BitVec.ofBool false) = 0#32 := by decide
    rw [hmask, BitVec.and_zero, BitVec.xor_zero, if_neg Bool.false_ne_true]
  | true =>
    have hmask : (0 : BitVec 32) - BitVec.setWidth 32 (BitVec.ofBool true) = BitVec.allOnes 32 := by
      decide
    rw [hmask, BitVec.and_allOnes, if_pos rfl]

/-! ### The map of a byte -/

theorem bit_xor (a b : BitVec 32) : bit poly (a ^^^ b) = bit poly a ^^^ bit poly b := by
  simp only [bit_eq, BitVec.getLsbD_xor, BitVec.ushiftRight_xor_distrib]
  cases a.getLsbD 0 with
  | false =>
    cases b.getLsbD 0 with
    | false => rfl
    | true => exact BitVec.xor_assoc _ _ _
  | true =>
    cases b.getLsbD 0 with
    | false =>
      show a >>> 1 ^^^ b >>> 1 ^^^ poly = a >>> 1 ^^^ poly ^^^ b >>> 1
      rw [BitVec.xor_assoc, BitVec.xor_comm (b >>> 1), BitVec.xor_assoc]
    | true =>
      show a >>> 1 ^^^ b >>> 1 = a >>> 1 ^^^ poly ^^^ (b >>> 1 ^^^ poly)
      rw [BitVec.xor_comm (b >>> 1) poly, BitVec.xor_assoc, ← BitVec.xor_assoc poly poly,
        BitVec.xor_self, BitVec.zero_xor]

theorem bits_xor (n : Nat) (a b : BitVec 32) :
    bits poly n (a ^^^ b) = bits poly n a ^^^ bits poly n b := by
  induction n generalizing a b with
  | zero => rfl
  | succ n ih => rw [bits, bit_xor, ih, bits, bits]

theorem xor_eq_zero_iff {a b : BitVec 32} : a ^^^ b = 0#32 ↔ a = b := by
  constructor
  · intro h
    have hcancel : a ^^^ b ^^^ b = b := by rw [h, BitVec.zero_xor]
    rwa [BitVec.xor_assoc, BitVec.xor_self, BitVec.xor_zero] at hcancel
  · intro h
    rw [h]
    exact BitVec.xor_self

/-- Nothing but zero is mapped to zero: the top bit says whether the polynomial was added. -/
theorem bit_eq_zero (hpoly : poly.getLsbD 31 = true) {state : BitVec 32}
    (h : bit poly state = 0#32) : state = 0#32 := by
  rw [bit_eq] at h
  cases hlow : state.getLsbD 0 with
  | true =>
    rw [hlow, if_pos rfl] at h
    have htop : (state >>> 1 ^^^ poly).getLsbD 31 = false := by
      rw [h]
      rfl
    rw [BitVec.getLsbD_xor, hpoly, BitVec.getLsbD_ushiftRight,
      BitVec.getLsbD_of_ge _ _ (by omega)] at htop
    cases htop
  | false =>
    rw [hlow, if_neg Bool.false_ne_true] at h
    apply BitVec.eq_of_getLsbD_eq
    intro i hi
    cases i with
    | zero => simpa using hlow
    | succ i =>
      have hbit := congrArg (BitVec.getLsbD · i) h
      simpa [Nat.add_comm] using hbit

theorem bits_eq_zero (hpoly : poly.getLsbD 31 = true) {n : Nat} {state : BitVec 32}
    (h : bits poly n state = 0#32) : state = 0#32 := by
  induction n generalizing state with
  | zero => exact h
  | succ n ih => exact bit_eq_zero hpoly (ih h)

theorem bits_injective (hpoly : poly.getLsbD 31 = true) {n : Nat} {a b : BitVec 32}
    (h : bits poly n a = bits poly n b) : a = b := by
  rw [← xor_eq_zero_iff, ← bits_xor] at h
  exact xor_eq_zero_iff.mp (bits_eq_zero hpoly h)

theorem bits_add (m n : Nat) (state : BitVec 32) :
    bits poly (m + n) state = bits poly n (bits poly m state) := by
  induction m generalizing state with
  | zero => rw [Nat.zero_add]; rfl
  | succ m ih => rw [Nat.succ_add]; exact ih (bit poly state)

theorem update_injective (hpoly : poly.getLsbD 31 = true) (data : Bytes) {a b : BitVec 32}
    (h : update poly a data = update poly b data) : a = b := by
  induction data generalizing a b with
  | nil => exact h
  | cons c data ih =>
    have hbyte := bits_injective hpoly (ih h)
    have hcancel := congrArg (· ^^^ c.toBitVec.setWidth 32) hbyte
    simpa [BitVec.xor_assoc] using hcancel

/-! ### Four bytes at once -/

/-- The first bytes of a word, least significant first. -/
def word : Bytes → BitVec 32
  | [] => 0
  | b :: data => b.toBitVec.setWidth 32 ^^^ (word data <<< 8)

theorem getLsbD_word {data : Bytes} {i : Nat} (hi : 8 * data.length ≤ i) :
    (word data).getLsbD i = false := by
  induction data generalizing i with
  | nil => simp [word]
  | cons b data ih =>
    rw [List.length_cons] at hi
    have hrest := ih (i := i - 8) (by omega)
    have hbyte : b.toBitVec.getLsbD i = false := BitVec.getLsbD_of_ge _ _ (by omega)
    rw [word, BitVec.getLsbD_xor, BitVec.getLsbD_setWidth, BitVec.getLsbD_shiftLeft, hrest, hbyte]
    simp

theorem bit_shiftLeft {y : BitVec 32} (hy : ∀ i, 24 ≤ i → y.getLsbD i = false) {n : Nat}
    (hn : n < 8) : bit poly (y <<< (n + 1)) = y <<< n := by
  have hlow : (y <<< (n + 1)).getLsbD 0 = false := by simp
  rw [bit_eq, hlow, if_neg Bool.false_ne_true]
  apply BitVec.eq_of_getLsbD_eq
  intro i hi
  rw [BitVec.getLsbD_ushiftRight, BitVec.getLsbD_shiftLeft, BitVec.getLsbD_shiftLeft]
  by_cases htop : i = 31
  · subst htop
    rw [hy (31 - n) (by omega)]
    simp
  · have hindex : 1 + i - (n + 1) = i - n := by omega
    rw [hindex]
    have h₁ : decide (1 + i < 32) = true := decide_eq_true (by omega)
    have h₂ : decide (i < 32) = true := decide_eq_true hi
    have h₃ : decide (1 + i < n + 1) = decide (i < n) := by
      rw [decide_eq_decide]
      omega
    rw [h₁, h₂, h₃]

theorem bits_shiftLeft {y : BitVec 32} (hy : ∀ i, 24 ≤ i → y.getLsbD i = false) {n : Nat}
    (hn : n ≤ 8) : bits poly n (y <<< n) = y := by
  induction n with
  | zero => exact BitVec.shiftLeft_zero _
  | succ n ih => rw [bits, bit_shiftLeft hy (by omega), ih (by omega)]

/-- **Up to four bytes act as the word they are.** -/
theorem update_word {data : Bytes} (hdata : data.length ≤ 4) (state : BitVec 32) :
    update poly state data = bits poly (8 * data.length) (state ^^^ word data) := by
  induction data generalizing state with
  | nil => exact (BitVec.xor_zero).symm
  | cons b data ih =>
    rw [List.length_cons] at hdata
    have hclear : ∀ i, 24 ≤ i → (word data).getLsbD i = false := fun i hi =>
      getLsbD_word (by omega)
    have hsteps : 8 * (b :: data).length = 8 + 8 * data.length := by
      rw [List.length_cons]
      omega
    show update poly (byte poly state b) data = _
    rw [ih (by omega), hsteps, bits_add, byte, word, ← BitVec.xor_assoc,
      bits_xor 8 (state ^^^ b.toBitVec.setWidth 32), bits_shiftLeft hclear le_rfl]

theorem word_injective {data data' : Bytes} (hlength : data.length = data'.length)
    (hdata : data.length ≤ 4) (h : word data = word data') : data = data' := by
  induction data generalizing data' with
  | nil => exact (List.eq_nil_of_length_eq_zero hlength.symm).symm
  | cons b data ih =>
    cases data' with
    | nil => cases hlength
    | cons b' data' =>
      rw [List.length_cons] at hdata
      rw [List.length_cons, List.length_cons, Nat.succ.injEq] at hlength
      rw [word, word] at h
      have hbyte : b = b' := by
        apply UInt8.toBitVec_inj.mp
        apply BitVec.eq_of_getLsbD_eq
        intro i hi
        have hbit := congrArg (BitVec.getLsbD · i) h
        simp only [BitVec.getLsbD_xor, BitVec.getLsbD_setWidth, BitVec.getLsbD_shiftLeft] at hbit
        simpa [hi, (by omega : i < 32)] using hbit
      have hrest : word data = word data' := by
        subst hbyte
        apply BitVec.eq_of_getLsbD_eq
        intro i hi
        by_cases hsmall : i < 24
        · have hbit := congrArg (BitVec.getLsbD · (i + 8)) h
          simp only [BitVec.getLsbD_xor, BitVec.getLsbD_shiftLeft] at hbit
          simpa [(by omega : i + 8 < 32)] using hbit
        · rw [getLsbD_word (by omega), getLsbD_word (by omega)]
      rw [hbyte, ih hlength (by omega) hrest]

/-- **A change within four consecutive bytes changes the check**, whatever stands before and after. -/
theorem update_ne_of_burst (hpoly : poly.getLsbD 31 = true) (state : BitVec 32)
    {before burst burst' after : Bytes} (hlength : burst.length = burst'.length)
    (hburst : burst.length ≤ 4) (hne : burst ≠ burst') :
    update poly state (before ++ burst ++ after) ≠ update poly state (before ++ burst' ++ after) := by
  intro h
  simp only [update, List.foldl_append] at h
  generalize hstart : before.foldl (byte poly) state = start at h
  have hsame : update poly start burst = update poly start burst' := update_injective hpoly after h
  have hburst' : burst'.length ≤ 4 := by omega
  rw [update_word hburst, update_word hburst', hlength] at hsame
  have hwords := bits_injective hpoly hsame
  have hcancel := congrArg (start ^^^ ·) hwords
  simp only [← BitVec.xor_assoc, BitVec.xor_self, BitVec.zero_xor] at hcancel
  exact hne (word_injective hlength hburst hcancel)

end Crc
