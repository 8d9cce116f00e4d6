import Mathlib.Data.List.Nodup
import Mathlib.Data.List.Pairwise
import Mathlib.Tactic

/-!
# Maps as lists of pairs

`find?` reads the first pair of a key. `insert` keeps the order of first insertion, as an unordered
map is filled; `insertSorted` keeps the keys in ascending order, as an ordered map holds them.

* `find?_insert_self`, `find?_insert_ne` and the same for `insertSorted` : what a map holds after an
  assignment;
* `find?_eq_some_iff` : with distinct keys, the pairs of the list are the bindings of the map;
* `insertSorted_sorted` : an ordered map stays ordered;
* `insertSorted_comm`   : assignments to two keys commute;
* `map_eq_of_keys`      : records that are replaced by those of another list, key by key.
-/

namespace Assoc

variable {κ α β : Type} [DecidableEq κ]

/-- The value of a key, if it has one. -/
def find? (k : κ) : List (κ × α) → Option α
  | [] => none
  | (k', v) :: rest => if k' = k then some v else find? k rest

/-- Assign a key: in place where it is bound, at the end where it is not. -/
def insert (k : κ) (v : α) : List (κ × α) → List (κ × α)
  | [] => [(k, v)]
  | (k', v') :: rest => if k' = k then (k, v) :: rest else (k', v') :: insert k v rest

/-- Assign a key of a map kept in ascending order. -/
def insertSorted (le : κ → κ → Bool) (k : κ) (v : α) : List (κ × α) → List (κ × α)
  | [] => [(k, v)]
  | (k', v') :: rest =>
    if k' = k then (k, v) :: rest
    else if le k k' then (k, v) :: (k', v') :: rest
    else (k', v') :: insertSorted le k v rest

/-- Drop a key. -/
def erase (k : κ) : List (κ × α) → List (κ × α)
  | [] => []
  | (k', v') :: rest => if k' = k then rest else (k', v') :: erase k rest

/-- What an ordered map asks of its key comparison. -/
structure TotalOrder (le : κ → κ → Bool) : Prop where
  total : ∀ a b, le a b = true ∨ le b a = true
  trans : ∀ {a b c}, le a b = true → le b c = true → le a c = true
  antisymm : ∀ {a b}, le a b = true → le b a = true → a = b

/-- The keys in ascending order, each once. -/
def Sorted (le : κ → κ → Bool) (l : List (κ × α)) : Prop :=
  l.Pairwise fun a b => le a.1 b.1 = true ∧ a.1 ≠ b.1

@[simp] theorem find?_nil (k : κ) : find? k ([] : List (κ × α)) = none := rfl

@[simp] theorem find?_cons (k k' : κ) (v : α) (l : List (κ × α)) :
    find? k ((k', v) :: l) = if k' = k then some v else find? k l := rfl

theorem find?_mem {k : κ} {v : α} {l : List (κ × α)} (h : find? k l = some v) : (k, v) ∈ l := by
  induction l with
  | nil => simp at h
  | cons p l ih =>
    obtain ⟨k', v'⟩ := p
    rw [find?_cons] at h
    split_ifs at h with hk
    · obtain rfl := Option.some.inj h
      simp [hk]
    · exact List.mem_cons_of_mem _ (ih h)

theorem find?_eq_none_iff {k : κ} {l : List (κ × α)} : find? k l = none ↔ k ∉ l.map Prod.fst := by
  induction l with
  | nil => simp
  | cons p l ih =>
    obtain ⟨k', v'⟩ := p
    rw [find?_cons]
    by_cases hk : k' = k
    · simp [hk]
    · have hk' : ¬ k = k' := fun e => hk e.symm
      simp [hk, hk', ih]

theorem find?_eq_some_iff {k : κ} {v : α} {l : List (κ × α)} (hl : (l.map Prod.fst).Nodup) :
    find? k l = some v ↔ (k, v) ∈ l := by
  refine ⟨find?_mem, fun hmem => ?_⟩
  induction l with
  | nil => simp at hmem
  | cons p l ih =>
    obtain ⟨k', v'⟩ := p
    rw [List.map_cons, List.nodup_cons] at hl
    rw [find?_cons]
    rcases List.mem_cons.mp hmem with h | h
    · cases h
      simp
    · have hmem : k ∈ l.map Prod.fst := List.mem_map_of_mem (f := Prod.fst) h
      have hk : k' ≠ k := fun e => hl.1 (e ▸ hmem)
      rw [if_neg hk]
      exact ih hl.2 h

theorem find?_append (k : κ) (l l' : List (κ × α)) :
    find? k (l ++ l') = (find? k l).or (find? k l') := by
  induction l with
  | nil => rfl
  | cons p l ih =>
    obtain ⟨k', v'⟩ := p
    simp only [List.cons_append, find?_cons, ih]
    split <;> rfl

theorem find?_mapKey (f : κ → α → β) (k : κ) (l : List (κ × α)) :
    find? k (l.map fun p => (p.1, f p.1 p.2)) = (find? k l).map (f k) := by
  induction l with
  | nil => rfl
  | cons p l ih =>
    obtain ⟨k', v'⟩ := p
    simp only [List.map_cons, find?_cons, ih]
    by_cases h : k' = k
    · subst h
      rw [if_pos rfl, if_pos rfl, Option.map_some]
    · rw [if_neg h, if_neg h]

theorem erase_mapKey (f : κ → α → β) (k : κ) (l : List (κ × α)) :
    erase k (l.map fun p => (p.1, f p.1 p.2)) = (erase k l).map fun p => (p.1, f p.1 p.2) := by
  induction l with
  | nil => rfl
  | cons p l ih =>
    obtain ⟨k', v'⟩ := p
    simp only [List.map_cons, erase, ih]
    by_cases h : k' = k
    · rw [if_pos h, if_pos h]
    · rw [if_neg h, if_neg h, List.map_cons]

theorem insert_mapKey (f : κ → α → β) (k : κ) (v : α) (l : List (κ × α)) :
    insert k (f k v) (l.map fun p => (p.1, f p.1 p.2)) =
      (insert k v l).map fun p => (p.1, f p.1 p.2) := by
  induction l with
  | nil => rfl
  | cons p l ih =>
    obtain ⟨k', v'⟩ := p
    simp only [List.map_cons, insert, ih]
    by_cases h : k' = k
    · rw [if_pos h, if_pos h, List.map_cons]
    · rw [if_neg h, if_neg h, List.map_cons]

/-! ### Unordered maps -/

@[simp] theorem find?_insert_self (k : κ) (v : α) (l : List (κ × α)) :
    find? k (insert k v l) = some v := by
  induction l with
  | nil => simp [insert]
  | cons p l ih =>
    obtain ⟨k', v'⟩ := p
    simp only [insert]
    split_ifs with h
    · simp
    · simp [h, ih]

theorem find?_insert_ne {k k' : κ} (h : k' ≠ k) (v : α) (l : List (κ × α)) :
    find? k (insert k' v l) = find? k l := by
  induction l with
  | nil => simp [insert, h]
  | cons p l ih =>
    obtain ⟨k₂, v₂⟩ := p
    simp only [insert]
    split_ifs with h₂
    · simp [h, h₂]
    · simp [ih]

theorem mem_insert {k : κ} {v : α} {l : List (κ × α)} {p : κ × α} (h : p ∈ insert k v l) :
    p = (k, v) ∨ p ∈ l := by
  induction l with
  | nil => exact .inl (by simpa [insert] using h)
  | cons q l ih =>
    obtain ⟨k', v'⟩ := q
    simp only [insert] at h
    split_ifs at h with hk
    · rcases List.mem_cons.mp h with h | h
      · exact .inl h
      · exact .inr (List.mem_cons_of_mem _ h)
    · rcases List.mem_cons.mp h with h | h
      · exact .inr (h ▸ List.mem_cons_self)
      · exact (ih h).imp id (List.mem_cons_of_mem _)

theorem mem_erase {k : κ} {l : List (κ × α)} {p : κ × α}
    (h : p ∈ erase k l) : p ∈ l := by
  induction l with
  | nil => exact h
  | cons q l ih =>
    obtain ⟨k', v⟩ := q
    unfold erase at h
    split_ifs at h
    · exact List.mem_cons_of_mem _ h
    · rcases List.mem_cons.mp h with rfl | h
      · exact List.mem_cons_self
      · exact List.mem_cons_of_mem _ (ih h)

theorem find?_erase_ne {k k' : κ} (h : k ≠ k') (l : List (κ × α)) :
    find? k (erase k' l) = find? k l := by
  induction l with
  | nil => rfl
  | cons q l ih =>
    obtain ⟨k₀, v⟩ := q
    unfold erase
    split_ifs with h₀
    · rw [find?_cons, if_neg fun e => h (e.symm.trans h₀)]
    · rw [find?_cons, find?_cons, ih]

theorem keys_erase (k : κ) (l : List (κ × α)) :
    (erase k l).map Prod.fst = (l.map Prod.fst).erase k := by
  induction l with
  | nil => rfl
  | cons q l ih =>
    obtain ⟨k', v⟩ := q
    unfold erase
    by_cases h : k' = k
    · simp [h]
    · simp [h, ih]

theorem nodup_erase (k : κ) {l : List (κ × α)} (hl : (l.map Prod.fst).Nodup) :
    ((erase k l).map Prod.fst).Nodup := by
  rw [keys_erase]
  exact hl.erase k

theorem length_erase {k : κ} {v : α} {l : List (κ × α)} (h : find? k l = some v) :
    (erase k l).length + 1 = l.length := by
  have hmem : k ∈ l.map Prod.fst := List.mem_map_of_mem (find?_mem h)
  have hlength := List.length_erase_add_one hmem
  rwa [← keys_erase, List.length_map, List.length_map] at hlength

theorem find?_erase_self {k : κ} {l : List (κ × α)} (hl : (l.map Prod.fst).Nodup) :
    find? k (erase k l) = none := by
  rw [find?_eq_none_iff, keys_erase, hl.mem_erase_iff]
  exact fun h => h.1 rfl

theorem keys_insert (k : κ) (v : α) (l : List (κ × α)) :
    (insert k v l).map Prod.fst =
      if k ∈ l.map Prod.fst then l.map Prod.fst else l.map Prod.fst ++ [k] := by
  induction l with
  | nil => simp [insert]
  | cons p l ih =>
    obtain ⟨k', v'⟩ := p
    simp only [insert]
    by_cases h : k' = k
    · simp [h]
    · have h' : ¬ k = k' := fun e => h e.symm
      simp only [h, if_false, List.map_cons, ih, List.mem_cons, h', false_or]
      split <;> rfl

theorem nodup_insert (k : κ) (v : α) {l : List (κ × α)} (hl : (l.map Prod.fst).Nodup) :
    ((insert k v l).map Prod.fst).Nodup := by
  rw [keys_insert]
  split_ifs with h
  · exact hl
  · exact List.nodup_append.mpr ⟨hl, by simp, fun a ha b hb e => h (by simp_all)⟩

theorem insert_of_notMem {k : κ} (v : α) {l : List (κ × α)} (h : k ∉ l.map Prod.fst) :
    insert k v l = l ++ [(k, v)] := by
  induction l with
  | nil => rfl
  | cons p l ih =>
    obtain ⟨k', v'⟩ := p
    simp only [List.map_cons, List.mem_cons, not_or] at h
    simp only [insert, if_neg (fun e : k' = k => h.1 e.symm), ih h.2, List.cons_append]

/-- Fill a map from a list: each element under the key it names, if it names one. -/
def fill (slot : α → Option κ) (m : List (κ × α)) (l : List α) : List (κ × α) :=
  l.foldl (fun m a => match slot a with
    | some k => insert k a m
    | none => m) m

theorem find?_fill_of_forall_ne {slot : α → Option κ} {k : κ} {l : List α} (m : List (κ × α))
    (h : ∀ a ∈ l, slot a ≠ some k) : find? k (fill slot m l) = find? k m := by
  induction l generalizing m with
  | nil => rfl
  | cons a l ih =>
    have hl := ih (match slot a with | some k => insert k a m | none => m)
      fun b hb => h b (List.mem_cons_of_mem _ hb)
    refine hl.trans ?_
    cases ha : slot a with
    | none => rfl
    | some k' =>
      have hne : k' ≠ k := fun e => h a List.mem_cons_self (by rw [ha, e])
      exact find?_insert_ne hne a m

theorem find?_fill {slot : α → Option κ} {k : κ} {a : α} {l : List α} (m : List (κ × α))
    (hmem : a ∈ l) (hslot : slot a = some k) (honly : ∀ b ∈ l, slot b = some k → b = a) :
    find? k (fill slot m l) = some a := by
  induction l generalizing m with
  | nil => cases hmem
  | cons b l ih =>
    by_cases hl : ∃ c ∈ l, slot c = some k
    · obtain ⟨c, hc, hslotc⟩ := hl
      obtain rfl := honly c (List.mem_cons_of_mem _ hc) hslotc
      exact ih _ hc fun d hd => honly d (List.mem_cons_of_mem _ hd)
    · have hba : b = a := by
        rcases List.mem_cons.mp hmem with rfl | hmem
        · rfl
        · exact absurd ⟨a, hmem, hslot⟩ hl
      subst hba
      have hrest : find? k (fill slot (insert k b m) l) = find? k (insert k b m) :=
        find?_fill_of_forall_ne _ fun c hc e => hl ⟨c, hc, e⟩
      rw [find?_insert_self] at hrest
      rw [← hrest]
      simp only [fill, List.foldl_cons, hslot]

/-- Every entry of a list is put, in order. -/
def insertAll (f : α → β) (l : List (κ × α)) (m : List (κ × β)) : List (κ × β) :=
  l.foldl (fun m p => insert p.1 (f p.2) m) m

theorem find?_insertAll (f : α → β) {k : κ} {l : List (κ × α)} (hl : (l.map Prod.fst).Nodup)
    (m : List (κ × β)) :
    find? k (insertAll f l m) = ((find? k l).map f).or (find? k m) := by
  induction l generalizing m with
  | nil => rfl
  | cons p l ih =>
    obtain ⟨k', v⟩ := p
    rw [List.map_cons, List.nodup_cons] at hl
    show find? k (insertAll f l (insert k' (f v) m)) = _
    rw [ih hl.2, find?_cons]
    by_cases hk : k' = k
    · subst hk
      rw [find?_eq_none_iff.mpr hl.1, if_pos rfl, find?_insert_self]
      rfl
    · rw [if_neg hk, find?_insert_ne hk]

theorem mem_insertAll {f : α → β} {l : List (κ × α)} {m : List (κ × β)} {p : κ × β}
    (h : p ∈ insertAll f l m) : p ∈ m ∨ ∃ q ∈ l, p = (q.1, f q.2) := by
  induction l generalizing m with
  | nil => exact .inl h
  | cons q l ih =>
    rcases ih h with hm | ⟨r, hr, rfl⟩
    · rcases mem_insert hm with rfl | hm
      · exact .inr ⟨q, List.mem_cons_self, rfl⟩
      · exact .inl hm
    · exact .inr ⟨r, List.mem_cons_of_mem _ hr, rfl⟩

theorem mem_fill {slot : α → Option κ} {m : List (κ × α)} {l : List α} {p : κ × α}
    (h : p ∈ fill slot m l) : p ∈ m ∨ p.2 ∈ l ∧ slot p.2 = some p.1 := by
  induction l generalizing m with
  | nil => exact .inl h
  | cons a l ih =>
    rcases ih h with hm | ⟨hl, hslot⟩
    · cases ha : slot a with
      | none =>
        simp only [ha] at hm
        exact .inl hm
      | some k =>
        simp only [ha] at hm
        rcases mem_insert hm with rfl | hm
        · exact .inr ⟨List.mem_cons_self, ha⟩
        · exact .inl hm
    · exact .inr ⟨List.mem_cons_of_mem _ hl, hslot⟩

/-! ### Ordered maps -/

variable {le : κ → κ → Bool}

@[simp] theorem find?_insertSorted_self (k : κ) (v : α) (l : List (κ × α)) :
    find? k (insertSorted le k v l) = some v := by
  induction l with
  | nil => simp [insertSorted]
  | cons p l ih =>
    obtain ⟨k', v'⟩ := p
    simp only [insertSorted]
    split_ifs with h h'
    · simp
    · simp
    · simp [h, ih]

theorem find?_insertSorted_ne {k k' : κ} (h : k' ≠ k) (v : α) (l : List (κ × α)) :
    find? k (insertSorted le k' v l) = find? k l := by
  induction l with
  | nil => simp [insertSorted, h]
  | cons p l ih =>
    obtain ⟨k₂, v₂⟩ := p
    simp only [insertSorted]
    split_ifs with h₂ h₃
    · simp [h, h₂]
    · simp [h]
    · simp [ih]

theorem find?_insertSorted (k k' : κ) (v : α) (l : List (κ × α)) :
    find? k (insertSorted le k' v l) = if k' = k then some v else find? k l := by
  split_ifs with h
  · subst h
    simp
  · exact find?_insertSorted_ne h v l

theorem mem_insertSorted {k : κ} {v : α} {l : List (κ × α)} {p : κ × α}
    (h : p ∈ insertSorted le k v l) : p = (k, v) ∨ p ∈ l := by
  induction l with
  | nil => exact .inl (by simpa [insertSorted] using h)
  | cons q l ih =>
    obtain ⟨k', v'⟩ := q
    simp only [insertSorted] at h
    split_ifs at h with hk hle
    · rcases List.mem_cons.mp h with h | h
      · exact .inl h
      · exact .inr (List.mem_cons_of_mem _ h)
    · rcases List.mem_cons.mp h with h | h
      · exact .inl h
      · exact .inr h
    · rcases List.mem_cons.mp h with h | h
      · exact .inr (h ▸ List.mem_cons_self)
      · exact (ih h).imp id (List.mem_cons_of_mem _)

theorem insertSorted_sorted (hle : TotalOrder le) (k : κ) (v : α) {l : List (κ × α)}
    (hl : Sorted le l) : Sorted le (insertSorted le k v l) := by
  induction l with
  | nil => exact List.pairwise_singleton _ _
  | cons p l ih =>
    obtain ⟨k', v'⟩ := p
    obtain ⟨hhead, htail⟩ := List.pairwise_cons.mp hl
    simp only [insertSorted]
    split_ifs with hk hbelow
    · subst hk
      exact List.pairwise_cons.mpr ⟨hhead, htail⟩
    · refine List.pairwise_cons.mpr ⟨fun q hq => ?_, hl⟩
      rcases List.mem_cons.mp hq with rfl | hq
      · exact ⟨hbelow, fun e => hk e.symm⟩
      · refine ⟨hle.trans hbelow (hhead q hq).1, fun e => hk ?_⟩
        -- `k` cannot come back behind `k'`, which every later key lies above
        have hback : le k' k = true := (show k = q.1 from e) ▸ (hhead q hq).1
        exact hle.antisymm hback hbelow
    · refine List.pairwise_cons.mpr ⟨fun q hq => ?_, ih htail⟩
      rcases mem_insertSorted hq with rfl | hq
      · exact ⟨(hle.total k' k).resolve_right hbelow, hk⟩
      · exact hhead q hq

theorem insertSorted_of_find? (hle : TotalOrder le) {k : κ} {v : α} {l : List (κ × α)}
    (hl : Sorted le l) (h : find? k l = some v) : insertSorted le k v l = l := by
  induction l with
  | nil => simp at h
  | cons p l ih =>
    obtain ⟨k', v'⟩ := p
    obtain ⟨hhead, htail⟩ := List.pairwise_cons.mp hl
    rw [find?_cons] at h
    simp only [insertSorted]
    split_ifs at h ⊢ with hk hbelow
    · obtain rfl := Option.some.inj h
      rw [hk]
    · -- the key comes behind `k'`
      have hback : le k' k = true := (hhead _ (find?_mem h)).1
      exact absurd (hle.antisymm hback hbelow) hk
    · rw [ih htail h]

theorem erase_insertSorted {k : κ} (v : α) {l : List (κ × α)} (h : find? k l = none) :
    erase k (insertSorted le k v l) = l := by
  induction l with
  | nil => simp [insertSorted, erase]
  | cons p l ih =>
    obtain ⟨k', v'⟩ := p
    rw [find?_cons] at h
    split_ifs at h with hk
    rw [insertSorted, if_neg hk]
    split
    · simp [erase]
    · rw [erase, if_neg hk, ih h]

theorem insertSorted_insertSorted (k : κ) (v w : α) (l : List (κ × α)) :
    insertSorted le k v (insertSorted le k w l) = insertSorted le k v l := by
  induction l with
  | nil => simp [insertSorted]
  | cons p l ih =>
    obtain ⟨k', v'⟩ := p
    simp only [insertSorted]
    split_ifs with h h'
    · simp [insertSorted]
    · simp [insertSorted]
    · simp only [insertSorted, if_neg h, if_neg h', ih]

theorem insertSorted_comm (hle : TotalOrder le) {k k' : κ} (hne : k ≠ k') (v v' : α)
    (l : List (κ × α)) :
    insertSorted le k v (insertSorted le k' v' l) =
      insertSorted le k' v' (insertSorted le k v l) := by
  have hasymm : le k k' = true → ¬ le k' k = true := fun h h' => hne (hle.antisymm h h')
  have hasymm' : ¬ le k k' = true → le k' k = true := fun h => (hle.total k k').resolve_left h
  induction l with
  | nil =>
    simp only [insertSorted, if_neg hne, if_neg hne.symm]
    by_cases h : le k k' = true
    · rw [if_pos h, if_neg (hasymm h)]
    · rw [if_neg h, if_pos (hasymm' h)]
  | cons p l ih =>
    obtain ⟨m, w⟩ := p
    by_cases hm : m = k
    · subst hm
      simp only [insertSorted, if_neg hne, if_true]
      by_cases h : le k' m = true
      · have hnot : ¬ le m k' = true := fun e => hasymm e h
        simp [insertSorted, h, hne.symm, hnot]
      · simp [insertSorted, h]
    · by_cases hm' : m = k'
      · subst hm'
        simp only [insertSorted, if_neg hm, if_true]
        by_cases h : le k m = true
        · simp [insertSorted, h, hne, hasymm h]
        · simp [insertSorted, h]
      · simp only [insertSorted, if_neg hm, if_neg hm']
        by_cases hk : le k m = true
        · by_cases hk' : le k' m = true
          · simp only [hk, hk', if_true, insertSorted, if_neg hm, if_neg hm', if_neg hne,
              if_neg hne.symm]
            by_cases h : le k k' = true
            · rw [if_pos h, if_neg (hasymm h)]
            · rw [if_neg h, if_pos (hasymm' h)]
          · have hback : ¬ le k' k = true := fun e => hk' (hle.trans e hk)
            simp [insertSorted, hk, hk', hm, hm', hne, hback]
        · by_cases hk' : le k' m = true
          · have hback : ¬ le k k' = true := fun e => hk (hle.trans e hk')
            simp [insertSorted, hk, hk', hm, hm', hne.symm, hback]
          · simp [insertSorted, hk, hk', hm, hm', ih]

theorem insertSorted_append {k : κ} (hle : TotalOrder le) (v : α) {l : List (κ × α)}
    (h : ∀ p ∈ l, le p.1 k = true ∧ p.1 ≠ k) : insertSorted le k v l = l ++ [(k, v)] := by
  induction l with
  | nil => rfl
  | cons p l ih =>
    obtain ⟨k', v'⟩ := p
    obtain ⟨hbelow, hne⟩ := h (k', v') List.mem_cons_self
    have hnot : ¬ le k k' = true := fun e => hne (hle.antisymm hbelow e)
    simp only [insertSorted, if_neg hne, if_neg hnot, List.cons_append]
    rw [ih fun q hq => h q (List.mem_cons_of_mem _ hq)]

omit [DecidableEq κ] in
theorem nodup_of_sorted {l : List (κ × α)} (h : Sorted le l) : (l.map Prod.fst).Nodup :=
  List.pairwise_map.mpr (h.imp fun hab => hab.2)

theorem ext_of_find? (hle : TotalOrder le) {l l' : List (κ × α)} (h : Sorted le l)
    (h' : Sorted le l') (hfind : ∀ k, find? k l = find? k l') : l = l' := by
  have hnodup := nodup_of_sorted h
  have hnodup' := nodup_of_sorted h'
  have hperm : l.Perm l' := by
    rw [List.perm_ext_iff_of_nodup hnodup.of_map hnodup'.of_map]
    intro p
    rw [← find?_eq_some_iff hnodup, ← find?_eq_some_iff hnodup', hfind]
  refine hperm.eq_of_pairwise (fun p q _ _ hpq hqp => ?_) h h'
  exact absurd (hle.antisymm hpq.1 hqp.1) hpq.2

/-! ### Records that carry their key -/

theorem findKey_eq_some_iff (key : α → κ) {l : List α} (hl : (l.map key).Nodup) {k : κ} {a : α} :
    l.find? (fun x => key x = k) = some a ↔ a ∈ l ∧ key a = k := by
  constructor
  · intro h
    exact ⟨List.mem_of_find?_eq_some h, by simpa using List.find?_some h⟩
  · rintro ⟨hmem, rfl⟩
    cases h : l.find? fun x => decide (key x = key a) with
    | none => exact (List.find?_eq_none.mp h a hmem (decide_eq_true rfl)).elim
    | some b =>
      have hb : key b = key a := by simpa using List.find?_some h
      rw [List.inj_on_of_nodup_map hl (List.mem_of_find?_eq_some h) hmem hb]

theorem findKey_perm (key : α → κ) {l l' : List α} (h : l.Perm l') (hl : (l.map key).Nodup) (k : κ) :
    l.find? (fun x => key x = k) = l'.find? fun x => key x = k := by
  apply Option.ext
  intro a
  rw [findKey_eq_some_iff key hl, findKey_eq_some_iff key ((h.map key).nodup_iff.mp hl), h.mem_iff]

omit [DecidableEq κ] in
/-- Records of another list with the same keys take the place of those of this one. -/
theorem map_eq_of_keys (key : α → κ) {l l' : List α} (hkeys : l.map key = l'.map key) {g : α → α}
    (hg : ∀ a ∈ l, ∀ b ∈ l', key a = key b → g a = b) : l.map g = l' := by
  induction l generalizing l' with
  | nil => exact (List.map_eq_nil_iff.mp hkeys.symm).symm
  | cons a l ih =>
    cases l' with
    | nil => cases hkeys
    | cons b l' =>
      obtain ⟨hhead, htail⟩ := List.cons.inj hkeys
      rw [List.map_cons, hg a List.mem_cons_self b List.mem_cons_self hhead,
        ih htail fun x hx y hy => hg x (List.mem_cons_of_mem _ hx) y (List.mem_cons_of_mem _ hy)]

omit [DecidableEq κ] in
/-- Lists with the same distinct keys, where every record has its like, are alike in order. -/
theorem forall₂_of_keys (key : α → κ) {R : α → α → Prop} {l l' : List α}
    (hkeys : l.map key = l'.map key) (hl' : (l'.map key).Nodup)
    (h : ∀ a ∈ l, ∃ b ∈ l', key a = key b ∧ R a b) : List.Forall₂ R l l' := by
  have hall : ∀ a ∈ l, ∀ b ∈ l', key a = key b → R a b := by
    intro a ha b hb hkey
    obtain ⟨b', hb', hkey', hR⟩ := h a ha
    rwa [List.inj_on_of_nodup_map hl' hb hb' (hkey.symm.trans hkey')]
  clear h hl'
  induction l generalizing l' with
  | nil => rw [List.map_eq_nil_iff.mp hkeys.symm]; exact .nil
  | cons a l ih =>
    cases l' with
    | nil => cases hkeys
    | cons b l' =>
      obtain ⟨hhead, htail⟩ := List.cons.inj hkeys
      refine .cons (hall a List.mem_cons_self b List.mem_cons_self hhead) (ih htail ?_)
      exact fun x hx y hy => hall x (List.mem_cons_of_mem _ hx) y (List.mem_cons_of_mem _ hy)

theorem findKey_isSome_iff (key : α → κ) {l : List α} {k : κ} :
    (l.find? fun x => key x = k).isSome = true ↔ k ∈ l.map key := by
  simp [List.find?_isSome]

end Assoc
