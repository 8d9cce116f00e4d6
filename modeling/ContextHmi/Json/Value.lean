import ContextHmi.Library.Bytes
import ContextHmi.Library.AssocMap

/-!
# JSON values

The value type of the JSON library the service is built on, with the three number kinds it keeps
apart (signed, unsigned, binary64) and objects as ordered maps. `eqv` is its `operator==`, which
compares numbers across kinds: an unsigned number is read as signed next to a signed one, and both
are rounded to binary64 next to a float. It is not transitive.

Accessors that throw return `Except Error`; the exceptions the service raises itself carry the code
and the text of the source.

* `find?_object`, `find?_setField` : what an object built field by field holds;
* `Plain.eq_of_eqv` : on values without numbers, `==` is equality.
-/

namespace ContextHmi

/-- An exception of the JSON library. -/
inductive JsonFault where
  /-- `type_error` 302, 304, 306: a value of another type. -/
  | type
  /-- `out_of_range` 403, 401: a missing key or index. -/
  | missing
  /-- `type_error` 316: a string that is not UTF-8 cannot be serialized. -/
  | utf8
  /-- `parse_error`. -/
  | parse
  /-- `out_of_range` 406: a number beyond binary64 cannot be parsed. -/
  | overflow
  deriving DecidableEq

/-- What a call can throw. -/
inductive Error where
  /-- `DomainError`. -/
  | domain (code details : Bytes)
  /-- `InferenceError`. -/
  | inference (code message : Bytes)
  /-- `ImportError`. -/
  | importing (code path message : Bytes)
  /-- `std::runtime_error`, `std::invalid_argument`. -/
  | runtime (message : Bytes)
  /-- `std::out_of_range` of a map's `at`. -/
  | absent
  | json (fault : JsonFault)
  /-- An `InferenceError` with the text of an exception of the JSON library. -/
  | rethrown (code : Bytes) (fault : JsonFault)
  deriving DecidableEq

abbrev Result := Except Error

/-- `nlohmann::json`. -/
inductive Json where
  | null
  | bool (b : Bool)
  | int (i : Int64)
  | uint (n : UInt64)
  | float (x : Float)
  | str (s : Bytes)
  | arr (items : List Json)
  | obj (fields : List (Bytes × Json))
  deriving Inhabited

theorem Bytes.ble_order : Assoc.TotalOrder Bytes.ble :=
  ⟨Bytes.ble_total, Bytes.ble_trans, Bytes.ble_antisymm⟩

namespace Json

/-- Induction on a value, with the values inside an array or an object as hypotheses. -/
@[elab_as_elim] theorem induction {motive : Json → Prop} (null : motive .null)
    (bool : ∀ b, motive (.bool b)) (int : ∀ i, motive (.int i)) (uint : ∀ n, motive (.uint n))
    (float : ∀ x, motive (.float x)) (str : ∀ s, motive (.str s))
    (arr : ∀ items, (∀ j ∈ items, motive j) → motive (.arr items))
    (obj : ∀ fields, (∀ f ∈ fields, motive f.2) → motive (.obj fields)) (j : Json) : motive j :=
  @Json.rec motive (fun items => ∀ j ∈ items, motive j) (fun fields => ∀ f ∈ fields, motive f.2)
    (fun f => motive f.2) null bool int uint float str arr obj
    (List.forall_mem_nil _)
    (fun _ _ hj hjs i hi => by
      rcases List.mem_cons.mp hi with rfl | hi
      · exact hj
      · exact hjs i hi)
    (List.forall_mem_nil _)
    (fun _ _ hf hfs g hg => by
      rcases List.mem_cons.mp hg with rfl | hg
      · exact hf
      · exact hfs g hg)
    (fun _ _ h => h) j

/-! ### Numbers -/

/-- `static_cast<double>` of a signed number. -/
def ofInt64 (i : Int64) : Float := .ofModel (.ofInt i.toInt)

/-- `static_cast<double>` of an unsigned number. -/
def ofUInt64 (n : UInt64) : Float := n.toFloat

/-- `operator==` on the numbers, across their kinds; `false` on anything else. -/
def numberEqv : Json → Json → Bool
  | .int a, .int b => a == b
  | .uint a, .uint b => a == b
  | .float a, .float b => a == b
  | .int a, .float b => ofInt64 a == b
  | .float a, .int b => a == ofInt64 b
  | .uint a, .float b => ofUInt64 a == b
  | .float a, .uint b => a == ofUInt64 b
  | .uint a, .int b => a.toInt64 == b
  | .int a, .uint b => a == b.toInt64
  | _, _ => false

mutual

/-- `operator==`. -/
def eqv : Json → Json → Bool
  | .null, .null => true
  | .bool a, .bool b => a == b
  | .str a, .str b => a == b
  | .arr xs, .arr ys => eqvItems xs ys
  | .obj xs, .obj ys => eqvFields xs ys
  | a, b => numberEqv a b

def eqvItems : List Json → List Json → Bool
  | [], [] => true
  | x :: xs, y :: ys => eqv x y && eqvItems xs ys
  | _, _ => false

def eqvFields : List (Bytes × Json) → List (Bytes × Json) → Bool
  | [], [] => true
  | (k, x) :: xs, (l, y) :: ys => k == l && eqv x y && eqvFields xs ys
  | _, _ => false

end

/-! ### Types -/

def isObject : Json → Bool
  | .obj _ => true
  | _ => false

def isArray : Json → Bool
  | .arr _ => true
  | _ => false

def isString : Json → Bool
  | .str _ => true
  | _ => false

/-- A string whose bytes have a property. -/
def isStringWith (p : Bytes → Bool) : Json → Bool
  | .str s => p s
  | _ => false

def isBoolean : Json → Bool
  | .bool _ => true
  | _ => false

/-- `is_number_unsigned`. -/
def isNumberUnsigned : Json → Bool
  | .uint _ => true
  | _ => false

/-- `is_number_integer`: signed or unsigned. -/
def isNumberInteger : Json → Bool
  | .int _ | .uint _ => true
  | _ => false

def isNumber : Json → Bool
  | .int _ | .uint _ | .float _ => true
  | _ => false

/-- `size()`: the elements of an array or an object, none for null, one for a scalar. -/
def size : Json → Nat
  | .null => 0
  | .arr items => items.length
  | .obj fields => fields.length
  | _ => 1

/-- `empty()`. -/
def isEmpty (j : Json) : Bool := j.size == 0

/-! ### Members -/

/-- The member of a key, if the value is an object that has it. -/
def find? (j : Json) (key : Bytes) : Option Json :=
  match j with
  | .obj fields => Assoc.find? key fields
  | _ => none

/-- `contains(key)`. -/
def contains (j : Json) (key : Bytes) : Bool := (j.find? key).isSome

/-- `contains(key) && p(at(key))`. -/
def has (j : Json) (key : Bytes) (p : Json → Bool) : Bool := (j.find? key).any p

/-- `!contains(key) || p(at(key))`. -/
def hasOptional (j : Json) (key : Bytes) (p : Json → Bool) : Bool := (j.find? key).all p

/-- `at(key)`. -/
def atKey (j : Json) (key : Bytes) : Result Json :=
  match j with
  | .obj fields => match Assoc.find? key fields with
    | some v => .ok v
    | none => .error (.json .missing)
  | _ => .error (.json .type)

/-- The elements of an array, `at(key)` of it being iterated. -/
def items : Json → List Json
  | .arr items => items
  | _ => []

/-- What a range-based `for` visits. -/
def elements : Json → List Json
  | .null => []
  | .arr items => items
  | .obj fields => fields.map Prod.snd
  | j => [j]

/-- The members of an object, `items()`. -/
def fields : Json → List (Bytes × Json)
  | .obj fields => fields
  | _ => []

/-- `at(index)` of an array. -/
def atIndex (j : Json) (i : Nat) : Result Json :=
  match j with
  | .arr items => match items[i]? with
    | some v => .ok v
    | none => .error (.json .missing)
  | _ => .error (.json .type)

/-- `get<std::string>()`. -/
def getString : Json → Result Bytes
  | .str s => .ok s
  | _ => .error (.json .type)

/-- `get<bool>()`. -/
def getBool : Json → Result Bool
  | .bool b => .ok b
  | _ => .error (.json .type)

/-- `get<std::uint64_t>()`. -/
def getUInt64 : Json → Result UInt64
  | .uint n => .ok n
  | .int i => .ok i.toUInt64
  | .float x => .ok x.toUInt64
  | _ => .error (.json .type)

/-- `value(key, default)` with a default of type `Json`. -/
def value (j : Json) (key : Bytes) (default : Json) : Result Json :=
  match j with
  | .obj fields => .ok ((Assoc.find? key fields).getD default)
  | _ => .error (.json .type)

/-- `value(key, "...")`. -/
def valueString (j : Json) (key default : Bytes) : Result Bytes :=
  match j with
  | .obj fields => match Assoc.find? key fields with
    | some v => v.getString
    | none => .ok default
  | _ => .error (.json .type)

/-- `value(key, true)`, `value(key, false)`. -/
def valueBool (j : Json) (key : Bytes) (default : Bool) : Result Bool :=
  match j with
  | .obj fields => match Assoc.find? key fields with
    | some v => v.getBool
    | none => .ok default
  | _ => .error (.json .type)

/-! ### Building -/

/-- The fields of an initializer list, in key order; the first of a repeated key counts. -/
def ofFields : List (Bytes × Json) → List (Bytes × Json)
  | [] => []
  | (k, v) :: rest => Assoc.insertSorted Bytes.ble k v (ofFields rest)

/-- `Json{{key, value}, ...}`. -/
def object (l : List (Bytes × Json)) : Json := .obj (ofFields l)

/-- `j[key] = v` on an object; null becomes an object first. -/
def setField (j : Json) (key : Bytes) (v : Json) : Json :=
  match j with
  | .obj fields => .obj (Assoc.insertSorted Bytes.ble key v fields)
  | .null => .obj [(key, v)]
  | j => j

/-- `j[key] = v` where there is a value. -/
def setOptional (j : Json) (key : Bytes) (v : Option Json) : Json :=
  match v with
  | some v => j.setField key v
  | none => j

/-- `j[key] = v` for each pair in turn. -/
def setFields (j : Json) (l : List (Bytes × Json)) : Json :=
  l.foldl (fun j p => j.setField p.1 p.2) j

/-- `j.erase(key)`. -/
def eraseField (j : Json) (key : Bytes) : Json :=
  match j with
  | .obj fields => .obj (Assoc.erase key fields)
  | j => j

/-- A json array of strings. -/
def strings (l : List Bytes) : Json := .arr (l.map .str)

theorem strings_injective : Function.Injective Json.strings := by
  intro a b h
  have hmap : a.map Json.str = b.map Json.str := by simpa [Json.strings] using h
  exact List.map_injective_iff.mpr (fun x y hxy => by simpa using hxy) hmap

theorem strings_inj {a b : List Bytes} : Json.strings a = Json.strings b ↔ a = b :=
  strings_injective.eq_iff

@[simp] theorem find?_obj (fields : List (Bytes × Json)) (k : Bytes) :
    (Json.obj fields).find? k = Assoc.find? k fields := rfl

theorem find?_ofFields (l : List (Bytes × Json)) (k : Bytes) :
    Assoc.find? k (ofFields l) = Assoc.find? k l := by
  induction l with
  | nil => rfl
  | cons p l ih =>
    obtain ⟨k', v⟩ := p
    rw [ofFields, Assoc.find?_insertSorted, ih, Assoc.find?_cons]

@[simp] theorem find?_object (l : List (Bytes × Json)) (k : Bytes) :
    (object l).find? k = Assoc.find? k l := find?_ofFields l k

theorem mem_fields_object {l : List (Bytes × Json)} {f : Bytes × Json}
    (h : f ∈ (object l).fields) : f ∈ l := by
  change f ∈ ofFields l at h
  induction l with
  | nil => exact h
  | cons p l ih =>
    rcases Assoc.mem_insertSorted h with rfl | h
    · exact List.mem_cons_self
    · exact List.mem_cons_of_mem p (ih h)

@[simp] theorem isObject_object (l : List (Bytes × Json)) : (object l).isObject = true := by
  simp [object, isObject]

theorem find?_setField {j : Json} (hj : j.isObject = true) (k k' : Bytes) (v : Json) :
    (j.setField k' v).find? k = if k' = k then some v else j.find? k := by
  cases j with
  | obj fields => exact Assoc.find?_insertSorted k k' v fields
  | _ => simp [isObject] at hj

theorem find?_setField_ne (j : Json) {k k' : Bytes} (h : k' ≠ k) (v : Json) :
    (j.setField k' v).find? k = j.find? k := by
  cases j with
  | obj fields => exact Assoc.find?_insertSorted_ne h v fields
  | null => simp [setField, find?, h]
  | _ => rfl

theorem find?_eraseField_ne (j : Json) {k k' : Bytes} (h : k' ≠ k) :
    (j.eraseField k').find? k = j.find? k := by
  cases j with
  | obj fields => exact Assoc.find?_erase_ne (Ne.symm h) fields
  | _ => rfl

@[simp] theorem isObject_setField {j : Json} (hj : j.isObject = true) (k : Bytes) (v : Json) :
    (j.setField k v).isObject = true := by
  cases j <;> simp_all [isObject, setField]

@[simp] theorem isObject_setOptional {j : Json} (hj : j.isObject = true) (k : Bytes)
    (v : Option Json) : (j.setOptional k v).isObject = true := by
  cases v with
  | none => exact hj
  | some v => exact isObject_setField hj k v

theorem eraseField_setField {j : Json} {k : Bytes} (h : j.find? k = none) {v : Json}
    (hj : j.isObject = true) : (j.setField k v).eraseField k = j := by
  cases j with
  | obj fields => exact congrArg Json.obj (Assoc.erase_insertSorted v h)
  | _ => simp [isObject] at hj

theorem setField_setField (j : Json) (k : Bytes) (v w : Json) :
    (j.setField k w).setField k v = j.setField k v := by
  cases j with
  | obj fields => exact congrArg Json.obj (Assoc.insertSorted_insertSorted k v w fields)
  | null => simp [setField, Assoc.insertSorted]
  | _ => rfl

theorem setField_comm {j : Json} (hj : j.isObject = true) {k k' : Bytes} (h : k ≠ k')
    (v v' : Json) : (j.setField k' v').setField k v = (j.setField k v).setField k' v' := by
  cases j with
  | obj fields => exact congrArg Json.obj (Assoc.insertSorted_comm Bytes.ble_order h v v' fields)
  | _ => simp [isObject] at hj

theorem find?_setOptional {j : Json} (hj : j.isObject = true) (k k' : Bytes) (v : Option Json) :
    (j.setOptional k' v).find? k = if k' = k then v.or (j.find? k) else j.find? k := by
  cases v with
  | none => simp [setOptional]
  | some v => simp [setOptional, find?_setField hj]

/-! ### Keys -/

/-- The keys of an object. -/
def keys (j : Json) : List Bytes := j.fields.map Prod.fst

theorem mem_keys_ofFields {l : List (Bytes × Json)} {k : Bytes}
    (h : k ∈ (ofFields l).map Prod.fst) : k ∈ l.map Prod.fst := by
  induction l with
  | nil => exact h
  | cons p l ih =>
    obtain ⟨q, hq, rfl⟩ := List.mem_map.mp h
    rcases Assoc.mem_insertSorted hq with rfl | hq
    · exact List.mem_cons_self
    · exact List.mem_cons_of_mem _ (ih (List.mem_map_of_mem hq))

theorem mem_keys_object {l : List (Bytes × Json)} {k : Bytes} (h : k ∈ (object l).keys) :
    k ∈ l.map Prod.fst := mem_keys_ofFields h

theorem mem_keys_setField {j : Json} (hj : j.isObject = true) {k k' : Bytes} {v : Json}
    (h : k ∈ (j.setField k' v).keys) : k = k' ∨ k ∈ j.keys := by
  cases j with
  | obj fields =>
    obtain ⟨p, hp, rfl⟩ := List.mem_map.mp h
    rcases Assoc.mem_insertSorted hp with rfl | hp
    · exact .inl rfl
    · exact .inr (List.mem_map_of_mem hp)
  | _ => simp [isObject] at hj

theorem mem_keys_setOptional {j : Json} (hj : j.isObject = true) {k k' : Bytes} {v : Option Json}
    (h : k ∈ (j.setOptional k' v).keys) : k = k' ∨ k ∈ j.keys := by
  cases v with
  | none => exact .inr h
  | some v => exact mem_keys_setField hj h

/-- The keys of an object are in order, as every object of the source holds them. -/
def Ordered : Json → Prop
  | .obj fields => Assoc.Sorted Bytes.ble fields
  | _ => True

theorem ordered_object (l : List (Bytes × Json)) : (object l).Ordered := by
  show Assoc.Sorted Bytes.ble (ofFields l)
  induction l with
  | nil => exact List.Pairwise.nil
  | cons p l ih => exact Assoc.insertSorted_sorted Bytes.ble_order _ _ ih

theorem Ordered.setField {j : Json} (h : j.Ordered) (k : Bytes) (v : Json) :
    (j.setField k v).Ordered := by
  cases j with
  | obj fields => exact Assoc.insertSorted_sorted Bytes.ble_order k v h
  | null => exact List.pairwise_singleton _ _
  | _ => exact h

theorem Ordered.setField_eq {j : Json} (h : j.Ordered) {k : Bytes} {v : Json}
    (hfind : j.find? k = some v) : j.setField k v = j := by
  cases j with
  | obj fields => exact congrArg Json.obj (Assoc.insertSorted_of_find? Bytes.ble_order h hfind)
  | _ => cases hfind

@[simp] theorem isObject_setFields {j : Json} (hj : j.isObject = true) (l : List (Bytes × Json)) :
    (j.setFields l).isObject = true := by
  induction l generalizing j with
  | nil => exact hj
  | cons p l ih => exact ih (isObject_setField hj p.1 p.2)

theorem find?_setFields {j : Json} (hj : j.isObject = true) (l : List (Bytes × Json)) (k : Bytes) :
    (j.setFields l).find? k = (Assoc.find? k l.reverse).or (j.find? k) := by
  induction l generalizing j with
  | nil => rfl
  | cons p l ih =>
    obtain ⟨k', v⟩ := p
    have hstep : (j.setFields ((k', v) :: l)) = (j.setField k' v).setFields l := rfl
    rw [hstep, ih (isObject_setField hj k' v), find?_setField hj, List.reverse_cons,
      Assoc.find?_append]
    by_cases hk : k' = k <;> cases Assoc.find? k l.reverse <;> simp [hk]

theorem atKey_eq_ok {j v : Json} {k : Bytes} : j.atKey k = .ok v ↔ j.find? k = some v := by
  cases j with
  | obj fields =>
    simp only [atKey, find?]
    cases Assoc.find? k fields <;> simp
  | _ => simp [atKey, find?]

theorem isStringWith_eq_true {p : Bytes → Bool} {j : Json} :
    j.isStringWith p = true ↔ ∃ s, j = .str s ∧ p s = true := by
  cases j <;> simp [isStringWith]

theorem isObject_of_find? {j v : Json} {k : Bytes} (h : j.find? k = some v) :
    j.isObject = true := by
  cases j <;> simp_all [find?, isObject]

theorem has_eq_true {j : Json} {k : Bytes} {p : Json → Bool} :
    j.has k p = true ↔ ∃ v, j.find? k = some v ∧ p v = true := by
  rw [has, Option.any_eq_true]

theorem has_string {j : Json} {k s : Bytes} :
    j.has k (isStringWith (· == s)) = true ↔ j.find? k = some (.str s) := by
  rw [has_eq_true]
  constructor
  · rintro ⟨v, hv, hstring⟩
    obtain ⟨t, rfl, ht⟩ := isStringWith_eq_true.mp hstring
    rw [hv, beq_iff_eq.mp ht]
  · intro h
    exact ⟨_, h, by simp [isStringWith]⟩

theorem hasOptional_eq_true {j : Json} {k : Bytes} {p : Json → Bool} :
    j.hasOptional k p = true ↔ ∀ v, j.find? k = some v → p v = true := by
  unfold hasOptional
  cases j.find? k <;> simp

theorem contains_eq_true {j : Json} {k : Bytes} : j.contains k = true ↔ ∃ v, j.find? k = some v :=
  Option.isSome_iff_exists

theorem contains_eq_false {j : Json} {k : Bytes} : j.contains k = false ↔ j.find? k = none := by
  simp [contains]

theorem valueString_of_find? {j : Json} {k s : Bytes} (h : j.find? k = some (.str s))
    (d : Bytes) : j.valueString k d = .ok s := by
  cases j <;> simp_all [find?, valueString, getString]

theorem valueString_of_none {j : Json} {k : Bytes} (hj : j.isObject = true)
    (h : j.find? k = none) (d : Bytes) : j.valueString k d = .ok d := by
  cases j <;> simp_all [find?, valueString, isObject]

theorem valueBool_of_find? {j : Json} {k : Bytes} {b : Bool} (h : j.find? k = some (.bool b))
    (d : Bool) : j.valueBool k d = .ok b := by
  cases j <;> simp_all [find?, valueBool, getBool]

theorem value_of_find? {j v : Json} {k : Bytes} (h : j.find? k = some v) (d : Json) :
    j.value k d = .ok v := by
  cases j <;> simp_all [find?, value]

/-! ### Values without numbers -/

/-- No number occurs in the value. -/
inductive Plain : Json → Prop where
  | null : Plain .null
  | bool (b : Bool) : Plain (.bool b)
  | str (s : Bytes) : Plain (.str s)
  | arr {items : List Json} : (∀ j ∈ items, Plain j) → Plain (.arr items)
  | obj {fields : List (Bytes × Json)} : (∀ f ∈ fields, Plain f.2) → Plain (.obj fields)

theorem eqvItems_iff {xs ys : List Json} :
    eqvItems xs ys = true ↔ List.Forall₂ (fun x y => x.eqv y = true) xs ys := by
  induction xs generalizing ys with
  | nil => cases ys <;> simp [eqvItems]
  | cons x xs ih => cases ys <;> simp [eqvItems, ih]

theorem eqvFields_iff {xs ys : List (Bytes × Json)} :
    eqvFields xs ys = true ↔ List.Forall₂ (fun x y => x.1 = y.1 ∧ x.2.eqv y.2 = true) xs ys := by
  induction xs generalizing ys with
  | nil => cases ys <;> simp [eqvFields]
  | cons x xs ih => cases ys <;> simp [eqvFields, ih]

theorem Plain.eq_of_eqv {a b : Json} (ha : a.Plain) (h : a.eqv b = true) : a = b := by
  induction ha generalizing b with
  | null => cases b <;> simp_all [eqv, numberEqv]
  | bool x => cases b <;> simp_all [eqv, numberEqv]
  | str s => cases b <;> simp_all [eqv, numberEqv]
  | @arr items _ ih =>
    cases b with
    | arr items' =>
      rw [eqv, eqvItems_iff] at h
      rw [Json.arr.injEq]
      clear * - h ih
      induction h with
      | nil => rfl
      | cons hab _ ih' =>
        rw [List.forall_mem_cons] at ih
        rw [ih.1 hab, ih' ih.2]
    | _ => simp [eqv, numberEqv] at h
  | @obj fields _ ih =>
    cases b with
    | obj fields' =>
      rw [eqv, eqvFields_iff] at h
      rw [Json.obj.injEq]
      clear * - h ih
      induction h with
      | nil => rfl
      | cons hab _ ih' =>
        rw [List.forall_mem_cons] at ih
        rw [Prod.ext hab.1 (ih.1 hab.2), ih' ih.2]
    | _ => simp [eqv, numberEqv] at h

theorem Plain.eqv_self {a : Json} (ha : a.Plain) : a.eqv a = true := by
  induction ha with
  | null => rfl
  | bool x => simp [eqv]
  | str s => simp [eqv]
  | arr _ ih => rw [eqv, eqvItems_iff, List.forall₂_same]; exact ih
  | obj _ ih => rw [eqv, eqvFields_iff, List.forall₂_same]; exact fun f hf => ⟨rfl, ih f hf⟩

theorem Plain.setField {j v : Json} (hj : j.Plain) (hv : v.Plain) (k : Bytes) :
    (j.setField k v).Plain := by
  cases hj with
  | obj h =>
    refine .obj fun f hf => ?_
    rcases Assoc.mem_insertSorted hf with rfl | hf
    · exact hv
    · exact h f hf
  | null => exact .obj (by simpa using hv)
  | bool b => exact .bool b
  | str s => exact .str s
  | arr h => exact .arr h

theorem plain_object {l : List (Bytes × Json)} (h : ∀ f ∈ l, f.2.Plain) : (object l).Plain := by
  refine .obj ?_
  induction l with
  | nil => exact List.forall_mem_nil _
  | cons p l ih =>
    rw [List.forall_mem_cons] at h
    intro f hf
    rcases Assoc.mem_insertSorted hf with rfl | hf
    · exact h.1
    · exact ih h.2 f hf

theorem plain_strings (l : List Bytes) : (strings l).Plain := by
  refine .arr fun j hj => ?_
  obtain ⟨s, -, rfl⟩ := List.mem_map.mp hj
  exact .str s

theorem find?_of_eqv {a b v : Json} {k : Bytes} (h : a.eqv b = true) (hv : a.find? k = some v) :
    ∃ w, b.find? k = some w ∧ v.eqv w = true := by
  cases a with
  | obj fields =>
    cases b with
    | obj fields' =>
      rw [eqv, eqvFields_iff] at h
      rw [find?_obj] at hv ⊢
      induction h with
      | nil => cases hv
      | @cons p q _ _ hpq _ ih =>
        obtain ⟨k', w⟩ := q
        obtain ⟨k', u⟩ := p
        obtain ⟨rfl, huw⟩ := hpq
        rw [Assoc.find?_cons] at hv ⊢
        by_cases hk : k' = k
        · rw [if_pos hk] at hv ⊢
          exact ⟨w, rfl, Option.some.inj hv ▸ huw⟩
        · rw [if_neg hk] at hv ⊢
          exact ih hv
    | _ => simp [eqv, numberEqv] at h
  | _ => simp [find?] at hv

end Json

end ContextHmi
