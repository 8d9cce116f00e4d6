import ContextHmi.Json.Text
import ContextHmi.Library.Outcome

/-!
# What can be serialized

`dump()` throws on a string that is not UTF-8 and on nothing else.

* `dumpEscaped_isOk_iff` : a string is escaped exactly when it is UTF-8;
* `dump_isOk_iff`        : a value is serialized exactly when its strings and keys are.
-/

namespace Utf8

theorem le_of_wide4 {a b : UInt8} (h : wide4 a b = true) : 0xf0 ≤ a.toNat := by
  simp only [wide4, isCont, Bool.or_eq_true, Bool.and_eq_true, decide_eq_true_eq, beq_iff_eq,
    UInt8.le_iff_toNat_le, ← UInt8.toNat_inj] at h
  simp at h
  omega

theorem le_of_wide3 {a b : UInt8} (h : wide3 a b = true) : a.toNat ≤ 0xef := by
  simp only [wide3, isCont, Bool.or_eq_true, Bool.and_eq_true, decide_eq_true_eq, beq_iff_eq,
    UInt8.le_iff_toNat_le, ← UInt8.toNat_inj] at h
  simp at h
  omega

theorem le_of_wide2 {a : UInt8} (h : wide2 a = true) : a.toNat ≤ 0xdf := by
  simp only [wide2, Bool.and_eq_true, decide_eq_true_eq, UInt8.le_iff_toNat_le] at h
  simp at h
  omega

theorem wide4_lead {a b : UInt8} (h : wide4 a b = true) :
    (¬ a < 0x80) ∧ wide2 a = false ∧ wide3 a b = false := by
  have hlead := le_of_wide4 h
  refine ⟨?_, ?_, ?_⟩
  · simp only [UInt8.lt_iff_toNat_lt]
    simp
    omega
  · by_contra hwide
    have hle := le_of_wide2 (Bool.not_eq_false _ ▸ hwide)
    omega
  · by_contra hwide
    have hle := le_of_wide3 (Bool.not_eq_false _ ▸ hwide)
    omega

end Utf8

namespace ContextHmi.Json

open Outcome

/-! ### Strings -/

theorem dumpEscaped_ascii {a : UInt8} (ha : a < 0x80) (s : Bytes) :
    dumpEscaped (a :: s) = (escapeAscii a ++ ·) <$> dumpEscaped s := by
  rw [dumpEscaped.eq_def]
  simp only [ha, if_true]

theorem dumpEscaped_wide2 {a b : UInt8} (ha : Utf8.wide2 a = true) (hb : Utf8.isCont b = true)
    (s : Bytes) : dumpEscaped (a :: b :: s) = ([a, b] ++ ·) <$> dumpEscaped s := by
  rw [dumpEscaped.eq_def]
  simp only [Utf8.not_lt_of_wide2 ha, if_false, ha, hb, Bool.and_self, if_true]

theorem dumpEscaped_wide3 {a b c : UInt8} (hab : Utf8.wide3 a b = true) (hc : Utf8.isCont c = true)
    (s : Bytes) : dumpEscaped (a :: b :: c :: s) = ([a, b, c] ++ ·) <$> dumpEscaped s := by
  obtain ⟨hascii, hwide2, -⟩ := Utf8.wide3_lead hab
  rw [dumpEscaped.eq_def]
  simp only [hascii, hwide2, Bool.false_and, Bool.false_eq_true, if_false, hab, hc, Bool.and_self, if_true]

theorem dumpEscaped_wide4 {a b c d : UInt8} (hab : Utf8.wide4 a b = true)
    (hc : Utf8.isCont c = true) (hd : Utf8.isCont d = true) (s : Bytes) :
    dumpEscaped (a :: b :: c :: d :: s) = ([a, b, c, d] ++ ·) <$> dumpEscaped s := by
  obtain ⟨hascii, hwide2, hwide3⟩ := Utf8.wide4_lead hab
  rw [dumpEscaped.eq_def]
  simp only [hascii, hwide2, hwide3, Bool.false_and, Bool.false_eq_true, if_false, hab, hc, hd,
    Bool.and_self, if_true]

theorem dumpEscaped_char {c : Bytes} (hc : Utf8.Char c) (s : Bytes) :
    ∃ e, dumpEscaped (c ++ s) = (e ++ ·) <$> dumpEscaped s := by
  cases hc with
  | one ha => exact ⟨_, dumpEscaped_ascii ha s⟩
  | two ha hb => exact ⟨_, dumpEscaped_wide2 ha hb s⟩
  | three hab hc => exact ⟨_, dumpEscaped_wide3 hab hc s⟩
  | four hab hc hd => exact ⟨_, dumpEscaped_wide4 hab hc hd s⟩

theorem text_of_dumpEscaped {s t : Bytes} (h : dumpEscaped s = .ok t) : Utf8.Text s := by
  induction s using dumpEscaped.induct generalizing t with
  | case1 => exact .nil
  | case2 a s ha ih =>
    rw [dumpEscaped_ascii ha, map_eq_ok] at h
    obtain ⟨_, hs, -⟩ := h
    exact .cons (.one ha) (ih hs)
  | case3 a ha => simp [dumpEscaped, ha] at h
  | case4 a ha b s hwide ih =>
    rw [Bool.and_eq_true] at hwide
    rw [dumpEscaped_wide2 hwide.1 hwide.2, map_eq_ok] at h
    obtain ⟨_, hs, -⟩ := h
    exact .cons (.two hwide.1 hwide.2) (ih hs)
  | case5 a ha b hwide => simp [dumpEscaped, ha, hwide] at h
  | case6 a ha b hwide c s hwide' ih =>
    rw [Bool.and_eq_true] at hwide'
    rw [dumpEscaped_wide3 hwide'.1 hwide'.2, map_eq_ok] at h
    obtain ⟨_, hs, -⟩ := h
    exact .cons (.three hwide'.1 hwide'.2) (ih hs)
  | case7 a ha b hwide c hwide' => simp [dumpEscaped, ha, hwide, hwide'] at h
  | case8 a ha b hwide c hwide' d s hwide'' ih =>
    rw [Bool.and_eq_true, Bool.and_eq_true] at hwide''
    obtain ⟨⟨hab, hc⟩, hd⟩ := hwide''
    rw [dumpEscaped_wide4 hab hc hd, map_eq_ok] at h
    obtain ⟨_, hs, -⟩ := h
    exact .cons (.four hab hc hd) (ih hs)
  | case9 a ha b hwide c hwide' d s hwide'' => simp [dumpEscaped, ha, hwide, hwide', hwide''] at h

/-- **A string is escaped exactly when it is UTF-8.** -/
theorem dumpEscaped_isOk_iff {s : Bytes} : (∃ t, dumpEscaped s = .ok t) ↔ Utf8.Text s := by
  constructor
  · rintro ⟨t, h⟩
    exact text_of_dumpEscaped h
  · intro h
    induction h with
    | nil => exact ⟨[], rfl⟩
    | cons hc _ ih =>
      obtain ⟨t, ht⟩ := ih
      obtain ⟨e, he⟩ := dumpEscaped_char hc _
      exact ⟨e ++ t, by rw [he, ht, ok_map]⟩

theorem dumpString_isOk_iff {s : Bytes} : (∃ t, dumpString s = .ok t) ↔ Utf8.Text s := by
  rw [← dumpEscaped_isOk_iff, dumpString]
  constructor
  · rintro ⟨t, h⟩
    obtain ⟨e, he, -⟩ := map_eq_ok.mp h
    exact ⟨e, he⟩
  · rintro ⟨e, he⟩
    exact ⟨_, map_eq_ok.mpr ⟨e, he, rfl⟩⟩

/-! ### Values -/

/-- Every string and key of the value is UTF-8. -/
inductive IsText : Json → Prop where
  | null : IsText .null
  | bool (b : Bool) : IsText (.bool b)
  | int (i : Int64) : IsText (.int i)
  | uint (n : UInt64) : IsText (.uint n)
  | float (x : Float) : IsText (.float x)
  | str {s : Bytes} : Utf8.Text s → IsText (.str s)
  | arr {items : List Json} : (∀ j ∈ items, IsText j) → IsText (.arr items)
  | obj {fields : List (Bytes × Json)} : (∀ f ∈ fields, Utf8.Text f.1) →
      (∀ f ∈ fields, IsText f.2) → IsText (.obj fields)

theorem isText_str {s : Bytes} : (Json.str s).IsText ↔ Utf8.Text s :=
  ⟨fun h => by cases h; assumption, .str⟩

theorem isText_obj {fields : List (Bytes × Json)} :
    (Json.obj fields).IsText ↔ ∀ f ∈ fields, Utf8.Text f.1 ∧ f.2.IsText := by
  constructor
  · intro h
    cases h with
    | obj hkeys hvalues => exact fun f hf => ⟨hkeys f hf, hvalues f hf⟩
  · exact fun h => .obj (fun f hf => (h f hf).1) fun f hf => (h f hf).2

theorem isText_strings {l : List Bytes} (h : ∀ s ∈ l, Utf8.Text s) : (strings l).IsText := by
  refine .arr ?_
  intro j hj
  obtain ⟨s, hs, rfl⟩ := List.mem_map.mp hj
  exact .str (h s hs)

theorem isText_object {l : List (Bytes × Json)} (h : ∀ f ∈ l, Utf8.Text f.1 ∧ f.2.IsText) :
    (object l).IsText := by
  exact isText_obj.mpr fun f hf => h f (mem_fields_object hf)

theorem IsText.setField {j v : Json} {k : Bytes} (hj : j.IsText) (hk : Utf8.Text k)
    (hv : v.IsText) : (j.setField k v).IsText := by
  cases j with
  | obj fields =>
    refine isText_obj.mpr ?_
    intro f hf
    rcases Assoc.mem_insertSorted hf with rfl | hf
    · exact ⟨hk, hv⟩
    · exact isText_obj.mp hj f hf
  | null => exact isText_obj.mpr (List.forall_mem_singleton.mpr ⟨hk, hv⟩)
  | _ => exact hj

variable [Platform]

theorem dumpItems_isOk_iff {items : List Json} :
    (∃ t, dumpItems items = .ok t) ↔ ∀ j ∈ items, ∃ t, j.dump = .ok t := by
  induction items with
  | nil => simp [dumpItems]
  | cons j items ih =>
    rw [List.forall_mem_cons, ← ih]
    simp only [dumpItems, bind_eq_ok, pure_eq_ok]
    constructor
    · rintro ⟨_, head, hhead, tail, htail, -⟩
      exact ⟨⟨head, hhead⟩, tail, htail⟩
    · rintro ⟨⟨head, hhead⟩, tail, htail⟩
      exact ⟨_, head, hhead, tail, htail, rfl⟩

theorem dumpFields_isOk_iff {fields : List (Bytes × Json)} :
    (∃ t, dumpFields fields = .ok t) ↔
      ∀ f ∈ fields, Utf8.Text f.1 ∧ ∃ t, f.2.dump = .ok t := by
  induction fields with
  | nil => simp [dumpFields]
  | cons f fields ih =>
    obtain ⟨k, v⟩ := f
    rw [List.forall_mem_cons, ← ih, ← dumpString_isOk_iff]
    simp only [dumpFields, bind_eq_ok, pure_eq_ok]
    constructor
    · rintro ⟨_, key, hkey, head, hhead, tail, htail, -⟩
      exact ⟨⟨⟨key, hkey⟩, head, hhead⟩, tail, htail⟩
    · rintro ⟨⟨⟨key, hkey⟩, head, hhead⟩, tail, htail⟩
      exact ⟨_, key, hkey, head, hhead, tail, htail, rfl⟩

theorem dump_arr_isOk_iff {items : List Json} :
    (∃ t, (Json.arr items).dump = .ok t) ↔ ∀ j ∈ items, ∃ t, j.dump = .ok t := by
  cases items with
  | nil => simp [dump]
  | cons j items =>
    rw [List.forall_mem_cons, ← dumpItems_isOk_iff]
    simp only [dump, bind_eq_ok, pure_eq_ok]
    constructor
    · rintro ⟨_, head, hhead, tail, htail, -⟩
      exact ⟨⟨head, hhead⟩, tail, htail⟩
    · rintro ⟨⟨head, hhead⟩, tail, htail⟩
      exact ⟨_, head, hhead, tail, htail, rfl⟩

theorem dump_obj_isOk_iff {fields : List (Bytes × Json)} :
    (∃ t, (Json.obj fields).dump = .ok t) ↔
      ∀ f ∈ fields, Utf8.Text f.1 ∧ ∃ t, f.2.dump = .ok t := by
  cases fields with
  | nil => simp [dump]
  | cons f fields =>
    obtain ⟨k, v⟩ := f
    rw [List.forall_mem_cons, ← dumpFields_isOk_iff, ← dumpString_isOk_iff]
    simp only [dump, bind_eq_ok, pure_eq_ok]
    constructor
    · rintro ⟨_, key, hkey, head, hhead, tail, htail, -⟩
      exact ⟨⟨⟨key, hkey⟩, head, hhead⟩, tail, htail⟩
    · rintro ⟨⟨⟨key, hkey⟩, head, hhead⟩, tail, htail⟩
      exact ⟨_, key, hkey, head, hhead, tail, htail, rfl⟩

/-- **A value is serialized exactly when its strings are UTF-8.** -/
theorem dump_isOk_iff {j : Json} : (∃ t, j.dump = .ok t) ↔ j.IsText := by
  induction j using Json.induction with
  | null => exact ⟨fun _ => .null, fun _ => ⟨_, rfl⟩⟩
  | bool b => exact ⟨fun _ => .bool b, fun _ => ⟨_, rfl⟩⟩
  | int i => exact ⟨fun _ => .int i, fun _ => ⟨_, rfl⟩⟩
  | uint n => exact ⟨fun _ => .uint n, fun _ => ⟨_, rfl⟩⟩
  | float x => exact ⟨fun _ => .float x, fun _ => ⟨_, rfl⟩⟩
  | str s =>
    have hdump : (∃ t, (Json.str s).dump = .ok t) ↔ Utf8.Text s := dumpString_isOk_iff
    rw [hdump]
    exact ⟨.str, fun h => by cases h; assumption⟩
  | arr items ih =>
    rw [dump_arr_isOk_iff]
    constructor
    · exact fun h => .arr fun j hj => (ih j hj).mp (h j hj)
    · intro h
      cases h with
      | arr hitems => exact fun j hj => (ih j hj).mpr (hitems j hj)
  | obj fields ih =>
    rw [dump_obj_isOk_iff]
    constructor
    · exact fun h => .obj (fun f hf => (h f hf).1) fun f hf => (ih f hf).mp (h f hf).2
    · intro h
      cases h with
      | obj hkeys hvalues => exact fun f hf => ⟨hkeys f hf, (ih f hf).mpr (hvalues f hf)⟩

end ContextHmi.Json
