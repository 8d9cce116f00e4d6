import Mathlib.Data.List.Sort
import Mathlib.Data.List.Nodup
import Mathlib.Tactic

/-!
# Byte strings

A `std::string` is a sequence of bytes: its length, its order and its character classes are those of
its bytes in the "C" locale, whatever text they spell. `bytes` turns a literal into its UTF-8 bytes.

* `bytes_inj`      : distinct literals are distinct byte strings;
* `ble_total`, `ble_trans`, `ble_antisymm` : the byte-wise order is a total order;
* `decimal_eq`     : the decimal text of a number, digit by digit.
-/

/-- The contents of a byte string, `std::string`. -/
abbrev Bytes := List UInt8

/-- The UTF-8 bytes of a literal. -/
def bytes (s : String) : Bytes := s.toByteArray.data.toList

instance Bytes.instCoe : Coe String (List UInt8) := ⟨bytes⟩

instance Bytes.instLawfulBEq : LawfulBEq Bytes := inferInstance

theorem bytes_inj {a b : String} : bytes a = bytes b ↔ a = b := by
  constructor
  · intro h
    have hb : a.toByteArray = b.toByteArray := by
      cases ha : a.toByteArray
      cases hb : b.toByteArray
      simp only [bytes, ha, hb] at h
      rw [Array.toList_inj.mp h]
    exact String.toByteArray_inj.mp hb
  · rintro rfl
    rfl

@[simp] theorem bytes_eq_bytes (a b : String) : (bytes a = bytes b) = (a = b) :=
  propext bytes_inj

@[simp] theorem bytes_beq_bytes (a b : String) : (bytes a == bytes b) = decide (a = b) := by
  by_cases h : a = b <;> simp [h]

@[simp] theorem bytes_eq_nil (s : String) : (bytes s = []) = (s = "") :=
  propext (bytes_inj (b := ""))

@[simp] theorem nil_eq_bytes (s : String) : ([] = bytes s) = ("" = s) :=
  propext (bytes_inj (a := ""))

namespace Bytes

/-! ### Character classes ("C" locale) -/

/-- `std::iscntrl`. -/
def isCntrl (c : UInt8) : Bool := c < 0x20 || c == 0x7f

def isDigit (c : UInt8) : Bool := 0x30 ≤ c && c ≤ 0x39

def isUpper (c : UInt8) : Bool := 0x41 ≤ c && c ≤ 0x5a

def isLower (c : UInt8) : Bool := 0x61 ≤ c && c ≤ 0x7a

/-- `std::isalnum`. -/
def isAlnum (c : UInt8) : Bool := isLower c || isUpper c || isDigit c

/-- `std::isspace`: blank, tab, line feed, vertical tab, form feed, carriage return. -/
def isSpace (c : UInt8) : Bool := c == 0x20 || (0x09 ≤ c && c ≤ 0x0d)

/-- `std::tolower`. -/
def toLower (c : UInt8) : UInt8 := if isUpper c then c + 0x20 else c

/-- A fact about every byte is a fact about the 256 of them. -/
theorem forall_byte {p : UInt8 → Prop} (h : ∀ n : Fin 256, p (UInt8.ofFin n)) (c : UInt8) : p c :=
  h c.toFin

theorem toLower_toLower (c : UInt8) : toLower (toLower c) = toLower c := by
  revert c
  exact forall_byte (by decide +kernel)

theorem isAlnum_toLower (c : UInt8) : isAlnum (toLower c) = isAlnum c := by
  revert c
  exact forall_byte (by decide +kernel)

theorem isAlnum_of_isSpace (c : UInt8) : isSpace c = true → isAlnum c = false := by
  revert c
  exact forall_byte (by decide +kernel)

/-- Every byte lowered. -/
def lower (s : Bytes) : Bytes := s.map toLower

/-! ### The byte-wise order -/

/-- `a <= b` for `std::string`: bytes compare unsigned, a proper prefix comes first. -/
def ble : Bytes → Bytes → Bool
  | [], _ => true
  | _ :: _, [] => false
  | a :: as, b :: bs => if a = b then ble as bs else a < b

theorem ble_refl (a : Bytes) : ble a a = true := by
  induction a with
  | nil => rfl
  | cons c a ih => simpa [ble] using ih

theorem ble_total (a b : Bytes) : ble a b = true ∨ ble b a = true := by
  induction a generalizing b with
  | nil => exact .inl rfl
  | cons c a ih =>
    cases b with
    | nil => exact .inr rfl
    | cons d b =>
      by_cases h : c = d
      · subst h
        simpa [ble] using ih b
      · have h' : ¬ d = c := fun e => h e.symm
        simp only [ble, h, h', if_false, decide_eq_true_eq]
        exact UInt8.lt_or_lt_of_ne h

theorem ble_trans {a b c : Bytes} (hab : ble a b = true) (hbc : ble b c = true) : ble a c = true := by
  induction a generalizing b c with
  | nil => rfl
  | cons x a ih =>
    cases b with
    | nil => simp [ble] at hab
    | cons y b =>
      cases c with
      | nil => simp [ble] at hbc
      | cons z c =>
        by_cases hxy : x = y
        · subst hxy
          by_cases hxz : x = z
          · subst hxz
            simp only [ble, if_true] at hab hbc ⊢
            exact ih hab hbc
          · simpa [ble, hxz] using hbc
        · simp only [ble, hxy, if_false, decide_eq_true_eq] at hab
          have hxz : x < z := by
            by_cases hyz : y = z
            · exact hyz ▸ hab
            · simp only [ble, hyz, if_false, decide_eq_true_eq] at hbc
              exact UInt8.lt_trans hab hbc
          have hne : x ≠ z := UInt8.ne_of_lt hxz
          simp [ble, hne, hxz]

theorem ble_antisymm {a b : Bytes} (hab : ble a b = true) (hba : ble b a = true) : a = b := by
  induction a generalizing b with
  | nil =>
    cases b with
    | nil => rfl
    | cons d b => simp [ble] at hba
  | cons c a ih =>
    cases b with
    | nil => simp [ble] at hab
    | cons d b =>
      by_cases h : c = d
      · subst h
        simp only [ble, if_true] at hab hba
        rw [ih hab hba]
      · have h' : ¬ d = c := fun e => h e.symm
        simp only [ble, h, h', if_false, decide_eq_true_eq] at hab hba
        exact absurd hba (UInt8.lt_asymm hab)

/-! ### Sorting -/

variable {α : Type}

/-- Records in the order of a string they carry, as `std::sort` leaves them. -/
def sortBy (key : α → Bytes) (l : List α) : List α :=
  l.insertionSort fun a b => ble (key a) (key b) = true

theorem sortBy_perm (key : α → Bytes) (l : List α) : (sortBy key l).Perm l :=
  List.perm_insertionSort _ l

@[simp] theorem mem_sortBy {key : α → Bytes} {l : List α} {a : α} : a ∈ sortBy key l ↔ a ∈ l :=
  (sortBy_perm key l).mem_iff

@[simp] theorem length_sortBy (key : α → Bytes) (l : List α) : (sortBy key l).length = l.length :=
  (sortBy_perm key l).length_eq

theorem nodup_sortBy {key : α → Bytes} {l : List α} (h : (l.map key).Nodup) :
    ((sortBy key l).map key).Nodup :=
  (((sortBy_perm key l).map key).nodup_iff).mpr h

theorem pairwise_sortBy (key : α → Bytes) (l : List α) :
    (sortBy key l).Pairwise fun a b => ble (key a) (key b) = true := by
  have htotal : Std.Total fun a b : α => ble (key a) (key b) = true :=
    ⟨fun a b => ble_total (key a) (key b)⟩
  have htrans : IsTrans α fun a b => ble (key a) (key b) = true :=
    ⟨fun a b c => ble_trans⟩
  exact List.pairwise_insertionSort _ l

theorem sortBy_keys {β : Type} {key : α → Bytes} {key' : β → Bytes} {l : List α} {l' : List β}
    (h : (l.map key).Perm (l'.map key')) : (sortBy key l).map key = (sortBy key' l').map key' := by
  have hperm : ((sortBy key l).map key).Perm ((sortBy key' l').map key') :=
    ((sortBy_perm key l).map key).trans (h.trans ((sortBy_perm key' l').map key').symm)
  exact hperm.eq_of_pairwise (fun a b _ _ => ble_antisymm)
    (List.pairwise_map.mpr (pairwise_sortBy key l)) (List.pairwise_map.mpr (pairwise_sortBy key' l'))

theorem sortBy_eq_of_perm {key : α → Bytes} {l l' : List α} (h : l.Perm l')
    (hl : (l.map key).Nodup) : sortBy key l = sortBy key l' := by
  have hperm : (sortBy key l).Perm (sortBy key l') :=
    (sortBy_perm key l).trans (h.trans (sortBy_perm key l').symm)
  refine hperm.eq_of_pairwise (fun a b ha hb hab hba => ?_) (pairwise_sortBy key l)
    (pairwise_sortBy key l')
  exact List.inj_on_of_nodup_map hl (mem_sortBy.mp ha) (h.mem_iff.mpr (mem_sortBy.mp hb))
    (ble_antisymm hab hba)

theorem sortBy_map {β : Type} {key : α → Bytes} {key' : β → Bytes} {f : α → β} {l : List α}
    (h : ∀ a ∈ l, key' (f a) = key a) : sortBy key' (l.map f) = (sortBy key l).map f := by
  refine (List.map_insertionSort _ _ _ _ fun a ha b hb => ?_).symm
  rw [h a ha, h b hb]

theorem sortBy_forall₂ {β : Type} {R : α → β → Prop} {key : α → Bytes} {key' : β → Bytes}
    {l : List α} {l' : List β} (h : List.Forall₂ R l l') (hkey : ∀ a b, R a b → key' b = key a) :
    List.Forall₂ R (sortBy key l) (sortBy key' l') := by
  obtain ⟨pairs, hpairs, rfl, rfl⟩ : ∃ pairs : List (α × β), (∀ p ∈ pairs, R p.1 p.2) ∧
      l = pairs.map Prod.fst ∧ l' = pairs.map Prod.snd := by
    induction h with
    | nil => exact ⟨[], List.forall_mem_nil _, rfl, rfl⟩
    | cons hR _ ih =>
      obtain ⟨pairs, hpairs, rfl, rfl⟩ := ih
      exact ⟨(_, _) :: pairs, List.forall_mem_cons.mpr ⟨hR, hpairs⟩, rfl, rfl⟩
  have hfst : sortBy key (pairs.map Prod.fst) = (sortBy (fun p => key p.1) pairs).map Prod.fst :=
    sortBy_map fun _ _ => rfl
  have hsnd : sortBy key' (pairs.map Prod.snd) = (sortBy (fun p => key p.1) pairs).map Prod.snd :=
    sortBy_map fun p hp => hkey p.1 p.2 (hpairs p hp)
  rw [hfst, hsnd, List.forall₂_map_left_iff, List.forall₂_map_right_iff, List.forall₂_same]
  exact fun p hp => hpairs p (mem_sortBy.mp hp)

/-! ### Decimal text -/

def digit (d : Nat) : UInt8 := 0x30 + UInt8.ofNat d

/-- The digits of `n`, prepended to `acc`; `fuel` bounds their number. -/
def decimalOnto : Nat → Nat → Bytes → Bytes
  | 0, _, acc => acc
  | fuel + 1, n, acc =>
    if n < 10 then digit n :: acc else decimalOnto fuel (n / 10) (digit (n % 10) :: acc)

/-- `std::to_string` of an unsigned number. -/
def decimal (n : Nat) : Bytes := decimalOnto (n + 1) n []

theorem decimalOnto_append (fuel n : Nat) (acc : Bytes) :
    decimalOnto fuel n acc = decimalOnto fuel n [] ++ acc := by
  induction fuel generalizing n acc with
  | zero => rfl
  | succ fuel ih =>
    simp only [decimalOnto]
    split
    · rfl
    · rw [ih, ih (n / 10) [digit (n % 10)], List.append_assoc]
      rfl

theorem decimalOnto_fuel {f g n : Nat} (hf : n < f) (hg : n < g) (acc : Bytes) :
    decimalOnto f n acc = decimalOnto g n acc := by
  induction f generalizing g n acc with
  | zero => omega
  | succ f ih =>
    cases g with
    | zero => omega
    | succ g =>
      simp only [decimalOnto]
      split
      · rfl
      · exact ih (by omega) (by omega) _

theorem decimal_eq (n : Nat) :
    decimal n = if n < 10 then [digit n] else decimal (n / 10) ++ [digit (n % 10)] := by
  unfold decimal
  rw [decimalOnto]
  split
  · rfl
  · rw [decimalOnto_append, decimalOnto_fuel (g := n / 10 + 1) (by omega) (by omega)]

theorem decimal_ne_nil (n : Nat) : decimal n ≠ [] := by
  rw [decimal_eq]
  split <;> simp

theorem digit_injective {d e : Nat} (hd : d < 10) (he : e < 10) (h : digit d = digit e) : d = e := by
  have hnat := congrArg UInt8.toNat h
  simp [digit] at hnat
  omega

/-- **Decimal text determines the number.** -/
theorem decimal_injective {n m : Nat} (h : decimal n = decimal m) : n = m := by
  induction n using Nat.strong_induction_on generalizing m with
  | _ n ih =>
    rw [decimal_eq n, decimal_eq m] at h
    split at h <;> split at h
    · exact digit_injective ‹_› ‹_› (List.head_eq_of_cons_eq h)
    · exact absurd (List.append_eq_singleton_iff.mp h.symm) (by simp [decimal_ne_nil])
    · exact absurd (List.append_eq_singleton_iff.mp h) (by simp [decimal_ne_nil])
    · obtain ⟨htens, hones⟩ := List.append_inj' h rfl
      have hdigit := digit_injective (Nat.mod_lt _ (by omega)) (Nat.mod_lt _ (by omega))
        (List.head_eq_of_cons_eq hones)
      have hquot := ih (n / 10) (by omega) htens
      omega

theorem digit_isDigit {d : Nat} (h : d < 10) : isDigit (digit d) = true := by
  revert d; decide +kernel

theorem decimal_isDigit (n : Nat) : ∀ c ∈ decimal n, isDigit c = true := by
  induction n using Nat.strong_induction_on with
  | _ n ih =>
    rw [decimal_eq]
    split
    · intro c hc
      rw [List.mem_singleton] at hc
      exact hc ▸ digit_isDigit (by assumption)
    · intro c hc
      rcases List.mem_append.mp hc with hc | hc
      · exact ih (n / 10) (by omega) c hc
      · rw [List.mem_singleton] at hc
        exact hc ▸ digit_isDigit (Nat.mod_lt _ (by decide))

end Bytes
