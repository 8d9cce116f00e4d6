import ContextHmi.Json.Text

/-!
# The grammar of JSON

The texts that are JSON, with how deep their arrays and objects nest, and the values that nest at most
so deep.
-/

namespace ContextHmi.Json

namespace Grammar

def IsHex (c : UInt8) : Prop := (hexValue c).isSome

/-- What stands between the quotes of a string: characters other than a quote, a backslash and the
control characters, and escapes. -/
inductive Characters : Bytes → Prop where
  | nil : Characters []
  | plain {c s : Bytes} : Utf8.Char c → (∀ b ∈ c, 0x20 ≤ b ∧ b ≠ 0x22 ∧ b ≠ 0x5c) → Characters s →
      Characters (c ++ s)
  | escape {e : UInt8} {s : Bytes} : (shortEscape e).isSome → Characters s →
      Characters (0x5c :: e :: s)
  | unicode {h₁ h₂ h₃ h₄ : UInt8} {s : Bytes} : IsHex h₁ → IsHex h₂ → IsHex h₃ → IsHex h₄ →
      Characters s → Characters (0x5c :: 0x75 :: h₁ :: h₂ :: h₃ :: h₄ :: s)

def quote (s : Bytes) : Bytes := 0x22 :: (s ++ [0x22])

def Digits (s : Bytes) : Prop := s ≠ [] ∧ ∀ c ∈ s, Bytes.isDigit c = true

/-- A minus sign or none, digits that start with a zero only alone, a fraction or none, an exponent
or none. -/
inductive Number : Bytes → Prop where
  | mk {sign whole fraction exponent : Bytes} : sign = [] ∨ sign = [0x2d] →
      Digits whole → (whole.head? = some 0x30 → whole = [0x30]) →
      (fraction = [] ∨ ∃ digits, Digits digits ∧ fraction = 0x2e :: digits) →
      (exponent = [] ∨ ∃ e plus digits, (e = 0x65 ∨ e = 0x45) ∧
        (plus = [] ∨ plus = [0x2b] ∨ plus = [0x2d]) ∧ Digits digits ∧ exponent = e :: (plus ++ digits)) →
      Number (sign ++ whole ++ fraction ++ exponent)

def Blank (s : Bytes) : Prop := ∀ c ∈ s, isBlank c = true

inductive Part where
  | value
  | elements
  | members

/-- The texts of a value, of the elements of an array and of the members of an object, with how deep
they nest. -/
inductive Derives : Part → Nat → Bytes → Prop where
  | literalTrue : Derives .value 0 (bytes "true")
  | literalFalse : Derives .value 0 (bytes "false")
  | literalNull : Derives .value 0 (bytes "null")
  | number {s : Bytes} : Number s → Derives .value 0 s
  | string {s : Bytes} : Characters s → Derives .value 0 (quote s)
  | emptyArray {w : Bytes} : Blank w → Derives .value 1 (0x5b :: (w ++ [0x5d]))
  | array {n : Nat} {s : Bytes} : Derives .elements n s → Derives .value (n + 1) (0x5b :: (s ++ [0x5d]))
  | emptyObject {w : Bytes} : Blank w → Derives .value 1 (0x7b :: (w ++ [0x7d]))
  | object {n : Nat} {s : Bytes} : Derives .members n s → Derives .value (n + 1) (0x7b :: (s ++ [0x7d]))
  | element {n : Nat} {w v w' : Bytes} : Blank w → Derives .value n v → Blank w' →
      Derives .elements n (w ++ v ++ w')
  | elements {m n : Nat} {s w v w' : Bytes} : Derives .elements m s → Blank w → Derives .value n v →
      Blank w' → Derives .elements (max m n) (s ++ [0x2c] ++ (w ++ v ++ w'))
  | member {n : Nat} {w k w' u v u' : Bytes} : Blank w → Characters k → Blank w' → Blank u →
      Derives .value n v → Blank u' →
      Derives .members n (w ++ quote k ++ w' ++ [0x3a] ++ (u ++ v ++ u'))
  | members {m n : Nat} {s w k w' u v u' : Bytes} : Derives .members m s → Blank w → Characters k →
      Blank w' → Blank u → Derives .value n v → Blank u' →
      Derives .members (max m n) (s ++ [0x2c] ++ (w ++ quote k ++ w' ++ [0x3a] ++ (u ++ v ++ u')))

/-- A JSON text: a value between blanks. -/
inductive IsText : Nat → Bytes → Prop where
  | mk {n : Nat} {w v w' : Bytes} : Blank w → Derives .value n v → Blank w' → IsText n (w ++ v ++ w')

end Grammar

/-- The arrays and objects of a value nest at most `n` deep. -/
inductive NestsWithin : Nat → Json → Prop where
  | scalar {n : Nat} {j : Json} : j.isArray = false → j.isObject = false → NestsWithin n j
  | arr {n : Nat} {items : List Json} : (∀ j ∈ items, NestsWithin n j) → NestsWithin (n + 1) (.arr items)
  | obj {n : Nat} {fields : List (Bytes × Json)} : (∀ f ∈ fields, NestsWithin n f.2) →
      NestsWithin (n + 1) (.obj fields)

end ContextHmi.Json
