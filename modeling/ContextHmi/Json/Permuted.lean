import ContextHmi.Json.Length

/-!
# The same document in another order

`Canonical` is what every value of the JSON library is: the members of an object are listed in key
order. `Permuted` relates the values that differ in the order of their arrays, at any depth.

* `ext_of_find?`       : an object is determined by what it holds;
* `Permuted.find?`     : the members of a permuted object;
* `Permuted.shorter`   : a permuted value is serialized in no more bytes.
-/

namespace ContextHmi.Json

open Outcome

/-! ### Objects as maps -/

/-- Every object inside the value lists its members in key order. -/
inductive Canonical : Json → Prop
  | null : Canonical .null
  | bool (b : Bool) : Canonical (.bool b)
  | int (i : Int64) : Canonical (.int i)
  | uint (n : UInt64) : Canonical (.uint n)
  | float (x : Float) : Canonical (.float x)
  | str (s : Bytes) : Canonical (.str s)
  | arr {items : List Json} : (∀ j ∈ items, Canonical j) → Canonical (.arr items)
  | obj {fields : List (Bytes × Json)} : Assoc.Sorted Bytes.ble fields →
      (∀ f ∈ fields, Canonical f.2) → Canonical (.obj fields)

theorem Canonical.ordered {j : Json} (h : j.Canonical) : j.Ordered := by
  cases h with
  | obj hsorted => exact hsorted
  | _ => trivial

theorem Canonical.items {j : Json} (h : j.Canonical) : ∀ i ∈ j.items, i.Canonical := by
  cases h with
  | arr hitems => exact hitems
  | _ => exact List.forall_mem_nil _

theorem Canonical.find? {j v : Json} {k : Bytes} (h : j.Canonical) (hv : j.find? k = some v) :
    v.Canonical := by
  cases h with
  | obj _ hfields => exact hfields _ (Assoc.find?_mem hv)
  | _ => cases hv

theorem canonical_object {l : List (Bytes × Json)} (h : ∀ f ∈ l, f.2.Canonical) :
    (object l).Canonical :=
  .obj (ordered_object l) fun _ hf => h _ (mem_fields_object hf)

theorem ext_of_find? {j j' : Json} (hj : j.isObject = true) (hj' : j'.isObject = true)
    (h : j.Ordered) (h' : j'.Ordered) (hfind : ∀ k, j.find? k = j'.find? k) : j = j' := by
  cases j with
  | obj fields =>
    cases j' with
    | obj fields' => exact congrArg Json.obj (Assoc.ext_of_find? Bytes.ble_order h h' hfind)
    | _ => cases hj'
  | _ => cases hj

/-! ### Arrays in another order -/

/-- The same value, with the arrays inside it in any order. -/
inductive Permuted : Json → Json → Prop
  | refl (j : Json) : Permuted j j
  | arr {items moved items' : List Json} : items.Perm moved → moved.length = items'.length →
      (∀ p ∈ moved.zip items', Permuted p.1 p.2) → Permuted (.arr items) (.arr items')
  | obj {fields fields' : List (Bytes × Json)} : fields.length = fields'.length →
      (∀ p ∈ fields.zip fields', p.2.1 = p.1.1) →
      (∀ p ∈ fields.zip fields', Permuted p.1.2 p.2.2) → Permuted (.obj fields) (.obj fields')

/-- A member keeps its key, and its value is permuted. -/
def PermutedField (f f' : Bytes × Json) : Prop := f'.1 = f.1 ∧ Permuted f.2 f'.2

theorem Permuted.of_arr {items : List Json} {j' : Json} (h : Permuted (.arr items) j') :
    ∃ moved items', j' = .arr items' ∧ items.Perm moved ∧ List.Forall₂ Permuted moved items' := by
  cases h with
  | refl => exact ⟨items, items, rfl, .refl _, List.forall₂_same.mpr fun j _ => .refl j⟩
  | arr hperm hlength hzip =>
    exact ⟨_, _, rfl, hperm, List.forall₂_iff_zip.mpr ⟨hlength, fun hmem => hzip _ hmem⟩⟩

theorem Permuted.of_obj {fields : List (Bytes × Json)} {j' : Json} (h : Permuted (.obj fields) j') :
    ∃ fields', j' = .obj fields' ∧ List.Forall₂ PermutedField fields fields' := by
  cases h with
  | refl => exact ⟨fields, rfl, List.forall₂_same.mpr fun f _ => ⟨rfl, .refl f.2⟩⟩
  | obj hlength hkeys hzip =>
    exact ⟨_, rfl, List.forall₂_iff_zip.mpr ⟨hlength, fun hmem => ⟨hkeys _ hmem, hzip _ hmem⟩⟩⟩

theorem Permuted.eq_str {s : Bytes} {j' : Json} (h : Permuted (.str s) j') : j' = .str s := by
  cases h with
  | refl => rfl

theorem Permuted.isObject {j j' : Json} (h : Permuted j j') : j'.isObject = j.isObject := by
  cases h <;> rfl

theorem Permuted.eq_of_number {j j' : Json} (h : Permuted j j') (hj : j.isNumber = true) :
    j' = j := by
  cases h with
  | refl => rfl
  | _ => cases hj

theorem keys_of_permuted {fields fields' : List (Bytes × Json)}
    (h : List.Forall₂ PermutedField fields fields') :
    fields'.map Prod.fst = fields.map Prod.fst := by
  induction h with
  | nil => rfl
  | cons hf _ ih => rw [List.map_cons, List.map_cons, ih, hf.1]

theorem Permuted.keys {j j' : Json} (h : Permuted j j') : j'.keys = j.keys := by
  cases j with
  | obj fields =>
    obtain ⟨fields', rfl, hfields⟩ := h.of_obj
    exact keys_of_permuted hfields
  | arr items =>
    obtain ⟨_, _, rfl, -, -⟩ := h.of_arr
    rfl
  | _ =>
    cases h
    rfl

theorem Permuted.find? {j j' : Json} (h : Permuted j j') (k : Bytes) :
    Option.Rel Permuted (j.find? k) (j'.find? k) := by
  cases j with
  | obj fields =>
    obtain ⟨fields', rfl, hfields⟩ := h.of_obj
    clear h
    show Option.Rel Permuted (Assoc.find? k fields) (Assoc.find? k fields')
    induction hfields with
    | nil => exact .none
    | @cons f f' _ _ hf _ ih =>
      obtain ⟨l, v⟩ := f
      obtain ⟨l', v'⟩ := f'
      obtain ⟨rfl, hv⟩ := hf
      rw [Assoc.find?_cons, Assoc.find?_cons]
      split
      · exact .some hv
      · exact ih
  | arr items =>
    obtain ⟨_, _, rfl, -, -⟩ := h.of_arr
    exact .none
  | _ =>
    cases h
    exact .none

theorem Permuted.find?_some {j j' v : Json} {k : Bytes} (h : Permuted j j')
    (hv : j.find? k = some v) : ∃ v', j'.find? k = some v' ∧ Permuted v v' := by
  have hrel := h.find? k
  rw [hv] at hrel
  cases hfind : j'.find? k with
  | none =>
    rw [hfind] at hrel
    cases hrel
  | some v' =>
    rw [hfind] at hrel
    cases hrel with
    | some hv => exact ⟨v', rfl, hv⟩

theorem Permuted.find?_of_some {j j' v' : Json} {k : Bytes} (h : Permuted j j')
    (hv : j'.find? k = some v') : ∃ v, j.find? k = some v ∧ Permuted v v' := by
  have hrel := h.find? k
  rw [hv] at hrel
  cases hfind : j.find? k with
  | none =>
    rw [hfind] at hrel
    cases hrel
  | some v =>
    rw [hfind] at hrel
    cases hrel with
    | some hv => exact ⟨v, rfl, hv⟩

theorem Permuted.find?_str {j j' : Json} {k s : Bytes} (h : Permuted j j')
    (hv : j.find? k = some (.str s)) : j'.find? k = some (.str s) := by
  obtain ⟨v', hv', hperm⟩ := h.find?_some hv
  rw [hv', hperm.eq_str]

/-- Induction on how a value is permuted, with the elements and members side by side. -/
theorem Permuted.induction {motive : Json → Json → Prop}
    (refl : ∀ j, motive j j)
    (arr : ∀ {items moved items' : List Json}, items.Perm moved →
      List.Forall₂ motive moved items' → motive (.arr items) (.arr items'))
    (obj : ∀ {fields fields' : List (Bytes × Json)},
      List.Forall₂ (fun f f' => f'.1 = f.1 ∧ motive f.2 f'.2) fields fields' →
        motive (.obj fields) (.obj fields')) {j j' : Json} (h : Permuted j j') : motive j j' := by
  induction h with
  | refl j => exact refl j
  | arr hperm hlength _ ih =>
    exact arr hperm (List.forall₂_iff_zip.mpr ⟨hlength, fun hmem => ih _ hmem⟩)
  | obj hlength hkeys _ ih =>
    exact obj (List.forall₂_iff_zip.mpr ⟨hlength, fun hmem => ⟨hkeys _ hmem, ih _ hmem⟩⟩)

theorem Permuted.canonical {j j' : Json} (h : Permuted j j') : j.Canonical → j'.Canonical := by
  refine Permuted.induction (motive := fun j j' => j.Canonical → j'.Canonical) (fun _ => id)
    (fun {items moved items'} hperm hitems hj => ?_) (fun {fields fields'} hfields hj => ?_) h
  · refine .arr fun j' hj' => ?_
    obtain ⟨i, hi, hcanonical⟩ := forall₂_mem_right hitems hj'
    exact hcanonical (hj.items _ (hperm.mem_iff.mpr hi))
  · have hkeys : fields.map Prod.fst = fields'.map Prod.fst :=
      forall₂_map_eq (fun f f' hf => hf.1.symm) hfields
    refine .obj ?_ fun f' hf' => ?_
    · have hsorted : (fields.map Prod.fst).Pairwise fun a b => Bytes.ble a b = true ∧ a ≠ b :=
        List.pairwise_map.mpr hj.ordered
      rw [hkeys] at hsorted
      exact List.pairwise_map.mp hsorted
    · obtain ⟨f, hf, -, hcanonical⟩ := forall₂_mem_right hfields hf'
      cases hj with
      | obj _ hvalues => exact hcanonical (hvalues f hf)

theorem Permuted.shorter [Platform] {j j' : Json} (h : Permuted j j') : Shorter j' j := by
  refine Permuted.induction (motive := fun j j' => Shorter j' j) Shorter.refl
    (fun {items moved items'} hperm hitems => ?_) (fun {fields fields'} hfields => ?_) h
  · have hshorter : Shorter (.arr items') (.arr moved) :=
      shorter_arr (List.sublistForall₂_iff.mpr ⟨moved, hitems.flip, .refl _⟩)
    exact hshorter.trans (shorter_arr_of_perm hperm.symm)
  · exact shorter_obj (List.sublistForall₂_iff.mpr ⟨fields, hfields.flip, .refl _⟩)

end ContextHmi.Json
