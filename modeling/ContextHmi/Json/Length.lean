import ContextHmi.Json.Serialize

/-!
# Lengths of serialized values

Taking elements or members out of a value, or putting shorter ones in their place, does not make its
serialization longer.

* `Shorter`                       : the serialization of a value bounds that of another;
* `shorter_arr`, `shorter_object` : arrays and objects, element by element.
-/

namespace ContextHmi.Json

open Outcome

variable [Platform]

/-- Where `j` is serialized, `j'` is too, in no more bytes. -/
def Shorter (j' j : Json) : Prop :=
  ∀ t, j.dump = .ok t → ∃ t', j'.dump = .ok t' ∧ t'.length ≤ t.length

theorem Shorter.refl (j : Json) : Shorter j j := fun t ht => ⟨t, ht, le_rfl⟩

theorem Shorter.trans {a b c : Json} (hab : Shorter a b) (hbc : Shorter b c) : Shorter a c := by
  intro t ht
  obtain ⟨s, hs, hle⟩ := hbc t ht
  obtain ⟨r, hr, hle'⟩ := hab s hs
  exact ⟨r, hr, hle'.trans hle⟩

theorem shorter_bool {b b' : Bool} (h : b = true → b' = true) : Shorter (.bool b') (.bool b) := by
  intro t ht
  cases ht
  refine ⟨_, rfl, ?_⟩
  cases b
  · cases b'
    · exact le_rfl
    · decide
  · rw [h rfl]

/-! ### Arrays -/

theorem dumpItems_cons {j : Json} {items : List Json} {t : Bytes} :
    dumpItems (j :: items) = .ok t ↔ ∃ head, j.dump = .ok head ∧
      ∃ tail, dumpItems items = .ok tail ∧ 0x2c :: head ++ tail = t := by
  simp only [dumpItems, bind_eq_ok, pure_eq_ok]

theorem dump_arr_cons {j : Json} {items : List Json} {t : Bytes} :
    (Json.arr (j :: items)).dump = .ok t ↔
      ∃ s, dumpItems (j :: items) = .ok s ∧ 0x5b :: s.tail ++ [0x5d] = t := by
  simp only [dumpItems_cons, dump, bind_eq_ok, pure_eq_ok]
  constructor
  · rintro ⟨head, hhead, tail, htail, rfl⟩
    exact ⟨_, ⟨head, hhead, tail, htail, rfl⟩, rfl⟩
  · rintro ⟨_, ⟨head, hhead, tail, htail, rfl⟩, rfl⟩
    exact ⟨head, hhead, tail, htail, rfl⟩

theorem dumpItems_shorter {items' items : List Json} (h : items'.SublistForall₂ Shorter items) :
    ∀ t, dumpItems items = .ok t → ∃ t', dumpItems items' = .ok t' ∧ t'.length ≤ t.length := by
  induction h with
  | nil => exact fun t _ => ⟨[], rfl, Nat.zero_le _⟩
  | cons hhead _ ih =>
    intro t ht
    obtain ⟨head, hdump, tail, hrest, rfl⟩ := dumpItems_cons.mp ht
    obtain ⟨head', hdump', hle⟩ := hhead head hdump
    obtain ⟨tail', hrest', hle'⟩ := ih tail hrest
    refine ⟨_, dumpItems_cons.mpr ⟨head', hdump', tail', hrest', rfl⟩, ?_⟩
    simp only [List.cons_append, List.length_cons, List.length_append]
    omega
  | cons_right _ ih =>
    intro t ht
    obtain ⟨head, -, tail, hrest, rfl⟩ := dumpItems_cons.mp ht
    obtain ⟨tail', hrest', hle⟩ := ih tail hrest
    refine ⟨tail', hrest', ?_⟩
    simp only [List.cons_append, List.length_cons, List.length_append]
    omega

theorem length_dump_arr {items : List Json} {t : Bytes} (h : (Json.arr items).dump = .ok t) :
    2 ≤ t.length := by
  cases items with
  | nil =>
    cases h
    exact le_rfl
  | cons j items =>
    obtain ⟨s, -, rfl⟩ := dump_arr_cons.mp h
    simp

/-- **An array of fewer or shorter elements** is shorter. -/
theorem shorter_arr {items' items : List Json} (h : items'.SublistForall₂ Shorter items) :
    Shorter (.arr items') (.arr items) := by
  intro t ht
  cases items' with
  | nil => exact ⟨_, rfl, length_dump_arr ht⟩
  | cons j' items' =>
    cases items with
    | nil => cases h
    | cons j items =>
      obtain ⟨s, hs, rfl⟩ := dump_arr_cons.mp ht
      obtain ⟨s', hs', hle⟩ := dumpItems_shorter h s hs
      refine ⟨_, dump_arr_cons.mpr ⟨s', hs', rfl⟩, ?_⟩
      simp only [List.cons_append, List.length_cons, List.length_append, List.length_tail,
        List.length_nil]
      omega

theorem shorter_arr_of_sublist {items' items : List Json} (h : items'.Sublist items) :
    Shorter (.arr items') (.arr items) := by
  have : Std.Refl Shorter := ⟨Shorter.refl⟩
  exact shorter_arr h.sublistForall₂

theorem dumpItems_perm {items' items : List Json} (h : items'.Perm items) :
    ∀ t, dumpItems items = .ok t → ∃ t', dumpItems items' = .ok t' ∧ t'.length = t.length := by
  induction h with
  | nil => exact fun t ht => ⟨t, ht, rfl⟩
  | cons j _ ih =>
    intro t ht
    obtain ⟨head, hhead, tail, htail, rfl⟩ := dumpItems_cons.mp ht
    obtain ⟨tail', htail', hlength⟩ := ih tail htail
    refine ⟨_, dumpItems_cons.mpr ⟨head, hhead, tail', htail', rfl⟩, ?_⟩
    simp only [List.cons_append, List.length_cons, List.length_append, hlength]
  | swap i j items =>
    intro t ht
    obtain ⟨first, hfirst, rest, hrest, rfl⟩ := dumpItems_cons.mp ht
    obtain ⟨second, hsecond, tail, htail, rfl⟩ := dumpItems_cons.mp hrest
    refine ⟨_, dumpItems_cons.mpr ⟨second, hsecond, _, dumpItems_cons.mpr ⟨first, hfirst, tail,
      htail, rfl⟩, rfl⟩, ?_⟩
    simp only [List.cons_append, List.length_cons, List.length_append]
    omega
  | trans _ _ ih ih' =>
    intro t ht
    obtain ⟨s, hs, hle⟩ := ih' t ht
    obtain ⟨r, hr, hle'⟩ := ih s hs
    exact ⟨r, hr, hle'.trans hle⟩

theorem shorter_arr_of_perm {items' items : List Json} (h : items'.Perm items) :
    Shorter (.arr items') (.arr items) := by
  intro t ht
  cases items with
  | nil =>
    rw [List.perm_nil.mp h]
    exact ⟨t, ht, le_rfl⟩
  | cons j items =>
    obtain ⟨s, hs, rfl⟩ := dump_arr_cons.mp ht
    obtain ⟨s', hs', hlength⟩ := dumpItems_perm h s hs
    cases items' with
    | nil => exact absurd h.length_eq (Nat.succ_ne_zero _).symm
    | cons j' items' =>
      refine ⟨_, dump_arr_cons.mpr ⟨s', hs', rfl⟩, ?_⟩
      simp only [List.cons_append, List.length_cons, List.length_append, List.length_tail,
        List.length_nil, hlength, le_refl]

theorem shorter_strings {l' l : List Bytes} (h : l'.Sublist l) :
    Shorter (strings l') (strings l) :=
  shorter_arr_of_sublist (h.map _)

/-! ### Objects -/

/-- A member of the same key, and shorter. -/
def ShorterField (f' f : Bytes × Json) : Prop := f'.1 = f.1 ∧ Shorter f'.2 f.2

theorem dumpFields_cons {k : Bytes} {v : Json} {fields : List (Bytes × Json)} {t : Bytes} :
    dumpFields ((k, v) :: fields) = .ok t ↔ ∃ key, dumpString k = .ok key ∧
      ∃ head, v.dump = .ok head ∧ ∃ tail, dumpFields fields = .ok tail ∧
        0x2c :: key ++ 0x3a :: head ++ tail = t := by
  simp only [dumpFields, bind_eq_ok, pure_eq_ok]

theorem dump_obj_cons {f : Bytes × Json} {fields : List (Bytes × Json)} {t : Bytes} :
    (Json.obj (f :: fields)).dump = .ok t ↔
      ∃ s, dumpFields (f :: fields) = .ok s ∧ 0x7b :: s.tail ++ [0x7d] = t := by
  obtain ⟨k, v⟩ := f
  simp only [dumpFields_cons, dump, bind_eq_ok, pure_eq_ok]
  constructor
  · rintro ⟨key, hkey, head, hhead, tail, htail, rfl⟩
    exact ⟨_, ⟨key, hkey, head, hhead, tail, htail, rfl⟩, rfl⟩
  · rintro ⟨_, ⟨key, hkey, head, hhead, tail, htail, rfl⟩, rfl⟩
    exact ⟨key, hkey, head, hhead, tail, htail, rfl⟩

theorem dumpFields_shorter {fields' fields : List (Bytes × Json)}
    (h : fields'.SublistForall₂ ShorterField fields) :
    ∀ t, dumpFields fields = .ok t → ∃ t', dumpFields fields' = .ok t' ∧ t'.length ≤ t.length := by
  induction h with
  | nil => exact fun t _ => ⟨[], rfl, Nat.zero_le _⟩
  | @cons f' f _ _ hhead _ ih =>
    intro t ht
    obtain ⟨key, hkey, head, hdump, tail, hrest, rfl⟩ := dumpFields_cons.mp ht
    obtain ⟨head', hdump', hle⟩ := hhead.2 head hdump
    obtain ⟨tail', hrest', hle'⟩ := ih tail hrest
    refine ⟨_, dumpFields_cons.mpr ⟨key, hhead.1 ▸ hkey, head', hdump', tail', hrest', rfl⟩, ?_⟩
    simp only [List.cons_append, List.length_cons, List.length_append]
    omega
  | cons_right _ ih =>
    intro t ht
    obtain ⟨key, -, head, -, tail, hrest, rfl⟩ := dumpFields_cons.mp ht
    obtain ⟨tail', hrest', hle⟩ := ih tail hrest
    refine ⟨tail', hrest', ?_⟩
    simp only [List.cons_append, List.length_cons, List.length_append]
    omega

theorem length_dump_obj {fields : List (Bytes × Json)} {t : Bytes}
    (h : (Json.obj fields).dump = .ok t) : 2 ≤ t.length := by
  cases fields with
  | nil =>
    cases h
    exact le_rfl
  | cons f fields =>
    obtain ⟨s, -, rfl⟩ := dump_obj_cons.mp h
    simp

/-- **An object of fewer or shorter members** is shorter. -/
theorem shorter_obj {fields' fields : List (Bytes × Json)}
    (h : fields'.SublistForall₂ ShorterField fields) : Shorter (.obj fields') (.obj fields) := by
  intro t ht
  cases fields' with
  | nil => exact ⟨_, rfl, length_dump_obj ht⟩
  | cons f' fields' =>
    cases fields with
    | nil => cases h
    | cons f fields =>
      obtain ⟨s, hs, rfl⟩ := dump_obj_cons.mp ht
      obtain ⟨s', hs', hle⟩ := dumpFields_shorter h s hs
      refine ⟨_, dump_obj_cons.mpr ⟨s', hs', rfl⟩, ?_⟩
      simp only [List.cons_append, List.length_cons, List.length_append, List.length_tail,
        List.length_nil]
      omega

omit [Platform] in
theorem forall₂_insertSorted {R : Json → Json → Prop} {k : Bytes} {v' v : Json}
    {l' l : List (Bytes × Json)} (hv : R v' v)
    (h : List.Forall₂ (fun f' f => f'.1 = f.1 ∧ R f'.2 f.2) l' l) :
    List.Forall₂ (fun f' f => f'.1 = f.1 ∧ R f'.2 f.2) (Assoc.insertSorted Bytes.ble k v' l')
      (Assoc.insertSorted Bytes.ble k v l) := by
  induction h with
  | nil => exact .cons ⟨rfl, hv⟩ .nil
  | @cons f' f _ _ hhead htail ih =>
    obtain ⟨k', w'⟩ := f'
    obtain ⟨k'', w⟩ := f
    obtain ⟨rfl, hw⟩ := hhead
    unfold Assoc.insertSorted
    split_ifs
    · exact .cons ⟨rfl, hv⟩ htail
    · exact .cons ⟨rfl, hv⟩ (.cons ⟨rfl, hw⟩ htail)
    · exact .cons ⟨rfl, hw⟩ ih

theorem shorter_object {l' l : List (Bytes × Json)} (h : List.Forall₂ ShorterField l' l) :
    Shorter (object l') (object l) := by
  refine shorter_obj (List.sublistForall₂_iff.mpr ⟨ofFields l, ?_, .refl _⟩)
  induction h with
  | nil => exact .nil
  | @cons f' f _ _ hhead _ ih =>
    obtain ⟨k', w'⟩ := f'
    obtain ⟨k, w⟩ := f
    obtain ⟨rfl, hw⟩ := hhead
    exact forall₂_insertSorted hw ih

end ContextHmi.Json
