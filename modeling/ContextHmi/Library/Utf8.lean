import ContextHmi.Library.Bytes

/-!
# UTF-8

A well-formed sequence of one character (`Char`: no overlong form, no surrogate, nothing above
U+10FFFF) and a well-formed text (`Text`). `encode` is the sequence of a code point.

* `text_append`, `text_of_ascii` : texts compose, ASCII bytes are text;
* `encode_char`                  : the encoding of a scalar value is one well-formed sequence.
-/

namespace Utf8

/-- A continuation byte. -/
def isCont (b : UInt8) : Bool := 0x80 ≤ b && b ≤ 0xbf

/-- The first byte of a two-byte sequence. -/
def wide2 (a : UInt8) : Bool := 0xc2 ≤ a && a ≤ 0xdf

/-- The first two bytes of a three-byte sequence. -/
def wide3 (a b : UInt8) : Bool :=
  (a == 0xe0 && 0xa0 ≤ b && b ≤ 0xbf) || (0xe1 ≤ a && a ≤ 0xec && isCont b) ||
    (a == 0xed && 0x80 ≤ b && b ≤ 0x9f) || (0xee ≤ a && a ≤ 0xef && isCont b)

/-- The first two bytes of a four-byte sequence. -/
def wide4 (a b : UInt8) : Bool :=
  (a == 0xf0 && 0x90 ≤ b && b ≤ 0xbf) || (0xf1 ≤ a && a ≤ 0xf3 && isCont b) ||
    (a == 0xf4 && 0x80 ≤ b && b ≤ 0x8f)

/-- One well-formed sequence. -/
inductive Char : Bytes → Prop where
  | one {a : UInt8} : a < 0x80 → Char [a]
  | two {a b : UInt8} : wide2 a = true → isCont b = true → Char [a, b]
  | three {a b c : UInt8} : wide3 a b = true → isCont c = true → Char [a, b, c]
  | four {a b c d : UInt8} : wide4 a b = true → isCont c = true → isCont d = true →
      Char [a, b, c, d]

/-- A well-formed text. -/
inductive Text : Bytes → Prop where
  | nil : Text []
  | cons {c s : Bytes} : Char c → Text s → Text (c ++ s)

theorem text_append {s t : Bytes} (hs : Text s) (ht : Text t) : Text (s ++ t) := by
  induction hs with
  | nil => exact ht
  | cons hc _ ih =>
    rw [List.append_assoc]
    exact .cons hc ih

theorem text_of_char {c : Bytes} (h : Char c) : Text c := by
  simpa using Text.cons h .nil

theorem text_of_ascii {s : Bytes} (h : ∀ c ∈ s, c < 0x80) : Text s := by
  induction s with
  | nil => exact .nil
  | cons a s ih =>
    exact .cons (.one (h a List.mem_cons_self)) (ih fun c hc => h c (List.mem_cons_of_mem _ hc))

theorem text_bytes {s : String} (h : (bytes s).all (· < 0x80) = true) : Text (bytes s) :=
  text_of_ascii fun c hc => by simpa using List.all_eq_true.mp h c hc

theorem not_lt_of_isCont {b : UInt8} : isCont b = true → ¬ b < 0x80 := by
  revert b
  exact fun {b} => Bytes.forall_byte (p := fun b => isCont b = true → ¬ b < 0x80) (by decide +kernel) b

theorem not_lt_of_wide2 {a : UInt8} : wide2 a = true → ¬ a < 0x80 :=
  Bytes.forall_byte (p := fun a => wide2 a = true → ¬ a < 0x80) (by decide +kernel) a

theorem wide3_lead {a b : UInt8} (h : wide3 a b = true) : (¬ a < 0x80) ∧ wide2 a = false ∧ isCont b = true := by
  simp only [wide3, wide2, isCont, Bool.or_eq_true, Bool.and_eq_true, decide_eq_true_eq, beq_iff_eq,
    UInt8.le_iff_toNat_le, UInt8.lt_iff_toNat_lt, ← UInt8.toNat_inj] at h ⊢
  refine ⟨?_, ?_, ?_⟩
  · simp at h ⊢; omega
  · simp at h ⊢; omega
  · simp at h ⊢; omega

theorem wide4_bytes {a b : UInt8} (h : wide4 a b = true) : (¬ a < 0x80) ∧ isCont b = true := by
  simp only [wide4, isCont, Bool.or_eq_true, Bool.and_eq_true, decide_eq_true_eq, beq_iff_eq,
    UInt8.le_iff_toNat_le, UInt8.lt_iff_toNat_lt, ← UInt8.toNat_inj] at h ⊢
  refine ⟨?_, ?_⟩
  · simp at h ⊢; omega
  · simp at h ⊢; omega

theorem ascii_or_wide {c : Bytes} (h : Char c) :
    (∃ a, c = [a] ∧ a < 0x80) ∨ ∀ b ∈ c, ¬ b < 0x80 := by
  cases h with
  | one ha => exact .inl ⟨_, rfl, ha⟩
  | two ha hb =>
    right
    simp only [List.forall_mem_cons, List.not_mem_nil, false_implies, implies_true, and_true]
    exact ⟨not_lt_of_wide2 ha, not_lt_of_isCont hb⟩
  | three hab hc =>
    obtain ⟨ha, -, hb⟩ := wide3_lead hab
    right
    simp only [List.forall_mem_cons, List.not_mem_nil, false_implies, implies_true, and_true]
    exact ⟨ha, not_lt_of_isCont hb, not_lt_of_isCont hc⟩
  | four hab hc hd =>
    obtain ⟨ha, hb⟩ := wide4_bytes hab
    right
    simp only [List.forall_mem_cons, List.not_mem_nil, false_implies, implies_true, and_true]
    exact ⟨ha, not_lt_of_isCont hb, not_lt_of_isCont hc, not_lt_of_isCont hd⟩

/-! ### Encoding a code point -/

/-- The UTF-8 bytes of a code point below 2^21. -/
def encode (cp : Nat) : Bytes :=
  if cp < 0x80 then [UInt8.ofNat cp]
  else if cp < 0x800 then [UInt8.ofNat (0xc0 + cp / 64), UInt8.ofNat (0x80 + cp % 64)]
  else if cp < 0x10000 then
    [UInt8.ofNat (0xe0 + cp / 4096), UInt8.ofNat (0x80 + cp / 64 % 64), UInt8.ofNat (0x80 + cp % 64)]
  else
    [UInt8.ofNat (0xf0 + cp / 262144), UInt8.ofNat (0x80 + cp / 4096 % 64),
      UInt8.ofNat (0x80 + cp / 64 % 64), UInt8.ofNat (0x80 + cp % 64)]

theorem isCont_ofNat (n : Nat) : isCont (UInt8.ofNat (0x80 + n % 64)) = true := by
  simp only [isCont, Bool.and_eq_true, decide_eq_true_eq, UInt8.le_iff_toNat_le, UInt8.toNat_ofNat']
  simp
  omega

/-- The encoding of a scalar value (no surrogate, at most U+10FFFF) is one sequence. -/
theorem encode_char {cp : Nat} (hmax : cp ≤ 0x10ffff) (hsur : ¬ (0xd800 ≤ cp ∧ cp ≤ 0xdfff)) :
    Char (encode cp) := by
  unfold encode
  split_ifs with h1 h2 h3
  · refine .one ?_
    simp only [UInt8.lt_iff_toNat_lt, UInt8.toNat_ofNat']
    simp
    omega
  · refine .two ?_ (isCont_ofNat _)
    simp only [wide2, Bool.and_eq_true, decide_eq_true_eq, UInt8.le_iff_toNat_le, UInt8.toNat_ofNat']
    simp
    omega
  · refine .three ?_ (isCont_ofNat _)
    simp only [wide3, isCont, Bool.or_eq_true, Bool.and_eq_true, decide_eq_true_eq, beq_iff_eq,
      UInt8.le_iff_toNat_le, UInt8.toNat_ofNat', ← UInt8.toNat_inj]
    simp
    omega
  · refine .four ?_ (isCont_ofNat _) (isCont_ofNat _)
    simp only [wide4, isCont, Bool.or_eq_true, Bool.and_eq_true, decide_eq_true_eq, beq_iff_eq,
      UInt8.le_iff_toNat_le, UInt8.toNat_ofNat', ← UInt8.toNat_inj]
    simp
    omega

end Utf8
