import ContextHmi.Json.Value
import ContextHmi.Library.Utf8

/-!
# JSON text

`dump()` and `parse()` of the JSON library: the compact serializer, which escapes strings and
refuses those that are not UTF-8, the lexer, and the parser as the machine that builds the value
token by token, with the nesting depth its callback sees.

Two things the C++ implementation fixes and the source leaves open are gathered in `Platform`: the
shortest decimal text of a finite binary64 number, and the order in which an unordered map is
iterated.
-/

namespace ContextHmi

/-- What the C++ implementation fixes. -/
class Platform where
  /-- The text of a finite binary64 number (`to_chars` of the JSON library, Grisu2). -/
  toChars : Float → Bytes
  /-- The iteration order of an `std::unordered_map` whose keys were inserted in the given order. -/
  bucketOrder : List Bytes → List Bytes
  bucketOrder_perm : ∀ keys, (bucketOrder keys).Perm keys

namespace Json

/-! ### Serializing -/

def hexDigit (d : Nat) : UInt8 := if d < 10 then 0x30 + UInt8.ofNat d else 0x57 + UInt8.ofNat d

/-- An ASCII byte inside a string: the short escapes, `\u00xx` for the other control characters. -/
def escapeAscii (c : UInt8) : Bytes :=
  if c = 0x08 then [0x5c, 0x62]
  else if c = 0x09 then [0x5c, 0x74]
  else if c = 0x0a then [0x5c, 0x6e]
  else if c = 0x0c then [0x5c, 0x66]
  else if c = 0x0d then [0x5c, 0x72]
  else if c = 0x22 then [0x5c, 0x22]
  else if c = 0x5c then [0x5c, 0x5c]
  else if c ≤ 0x1f then
    [0x5c, 0x75, 0x30, 0x30, hexDigit (c.toNat / 16), hexDigit (c.toNat % 16)]
  else [c]

/-- `dump_escaped`. -/
def dumpEscaped : Bytes → Result Bytes
  | [] => .ok []
  | a :: s =>
    if a < 0x80 then (escapeAscii a ++ ·) <$> dumpEscaped s
    else match s with
      | [] => .error (.json .utf8)
      | b :: s =>
        if Utf8.wide2 a && Utf8.isCont b then ([a, b] ++ ·) <$> dumpEscaped s
        else match s with
          | [] => .error (.json .utf8)
          | c :: s =>
            if Utf8.wide3 a b && Utf8.isCont c then ([a, b, c] ++ ·) <$> dumpEscaped s
            else match s with
              | [] => .error (.json .utf8)
              | d :: s =>
                if Utf8.wide4 a b && Utf8.isCont c && Utf8.isCont d then
                  ([a, b, c, d] ++ ·) <$> dumpEscaped s
                else .error (.json .utf8)

/-- `dump_integer`. -/
def dumpInteger (i : Int) : Bytes :=
  if i < 0 then 0x2d :: Bytes.decimal i.natAbs else Bytes.decimal i.natAbs

def dumpString (s : Bytes) : Result Bytes := (fun t => 0x22 :: t ++ [0x22]) <$> dumpEscaped s

variable [Platform]

/-- `dump_float`. -/
def dumpFloat (x : Float) : Bytes := if x.isFinite then Platform.toChars x else "null"

mutual

/-- `dump()`. -/
def dump : Json → Result Bytes
  | .null => .ok "null"
  | .bool b => .ok (if b then "true" else "false")
  | .int i => .ok (dumpInteger i.toInt)
  | .uint n => .ok (dumpInteger n.toNat)
  | .float x => .ok (dumpFloat x)
  | .str s => dumpString s
  | .arr [] => .ok [0x5b, 0x5d]
  | .arr (j :: js) => do
    let head ← dump j
    let tail ← dumpItems js
    return 0x5b :: head ++ tail ++ [0x5d]
  | .obj [] => .ok [0x7b, 0x7d]
  | .obj ((k, v) :: fs) => do
    let key ← dumpString k
    let head ← dump v
    let tail ← dumpFields fs
    return 0x7b :: key ++ 0x3a :: head ++ tail ++ [0x7d]

/-- The elements after the first, each behind a comma. -/
def dumpItems : List Json → Result Bytes
  | [] => .ok []
  | j :: js => do
    let head ← dump j
    let tail ← dumpItems js
    return 0x2c :: head ++ tail

/-- The members after the first, each behind a comma. -/
def dumpFields : List (Bytes × Json) → Result Bytes
  | [] => .ok []
  | (k, v) :: fs => do
    let key ← dumpString k
    let head ← dump v
    let tail ← dumpFields fs
    return 0x2c :: key ++ 0x3a :: head ++ tail

end

/-! ### Scanning -/

inductive Token where
  | beginArray
  | endArray
  | beginObject
  | endObject
  | nameSeparator
  | valueSeparator
  | literalTrue
  | literalFalse
  | literalNull
  | string (s : Bytes)
  | unsigned (n : UInt64)
  | integer (i : Int64)
  | float (x : Float)
  | endOfInput
  | parseError

def hexValue (c : UInt8) : Option Nat :=
  if 0x30 ≤ c ∧ c ≤ 0x39 then some (c.toNat - 0x30)
  else if 0x41 ≤ c ∧ c ≤ 0x46 then some (c.toNat - 0x37)
  else if 0x61 ≤ c ∧ c ≤ 0x66 then some (c.toNat - 0x57)
  else none

/-- `get_codepoint`: the four hexadecimal digits after `\u`. -/
def codepoint (a b c d : UInt8) : Option Nat := do
  let a ← hexValue a
  let b ← hexValue b
  let c ← hexValue c
  let d ← hexValue d
  return a * 4096 + b * 256 + c * 16 + d

/-- The byte a short escape stands for. -/
def shortEscape (c : UInt8) : Option UInt8 :=
  if c = 0x22 then some 0x22
  else if c = 0x5c then some 0x5c
  else if c = 0x2f then some 0x2f
  else if c = 0x62 then some 0x08
  else if c = 0x66 then some 0x0c
  else if c = 0x6e then some 0x0a
  else if c = 0x72 then some 0x0d
  else if c = 0x74 then some 0x09
  else none

/-- Put bytes before the contents of a scanned string. -/
def push (s : Bytes) (scanned : Option (Bytes × Bytes)) : Option (Bytes × Bytes) :=
  scanned.map fun p => (s ++ p.1, p.2)

/-- `scan_string`, after the opening quote: the contents and what follows the closing quote. -/
def scanString : Bytes → Option (Bytes × Bytes)
  | [] => none
  | a :: s =>
    if a = 0x22 then some ([], s)
    else if a = 0x5c then match s with
      | [] => none
      | e :: s =>
        if e = 0x75 then match s with
          | h₁ :: h₂ :: h₃ :: h₄ :: s => match codepoint h₁ h₂ h₃ h₄ with
            | none => none
            | some cp =>
              if 0xd800 ≤ cp ∧ cp ≤ 0xdbff then match s with
                | u₁ :: u₂ :: l₁ :: l₂ :: l₃ :: l₄ :: s =>
                  if u₁ = 0x5c ∧ u₂ = 0x75 then match codepoint l₁ l₂ l₃ l₄ with
                    | none => none
                    | some low =>
                      if 0xdc00 ≤ low ∧ low ≤ 0xdfff then
                        push (Utf8.encode ((cp - 0xd800) * 1024 + (low - 0xdc00) + 0x10000))
                          (scanString s)
                      else none
                  else none
                | _ => none
              else if 0xdc00 ≤ cp ∧ cp ≤ 0xdfff then none
              else push (Utf8.encode cp) (scanString s)
          | _ => none
        else match shortEscape e with
          | none => none
          | some c => push [c] (scanString s)
    else if a < 0x20 then none
    else if a < 0x80 then push [a] (scanString s)
    else match s with
      | [] => none
      | b :: s =>
        if Utf8.wide2 a && Utf8.isCont b then push [a, b] (scanString s)
        else match s with
          | [] => none
          | c :: s =>
            if Utf8.wide3 a b && Utf8.isCont c then push [a, b, c] (scanString s)
            else match s with
              | [] => none
              | d :: s =>
                if Utf8.wide4 a b && Utf8.isCont c && Utf8.isCont d then
                  push [a, b, c, d] (scanString s)
                else none

/-- The number a string of digits spells. -/
def natOf (digits : Bytes) : Nat := digits.foldl (fun n c => n * 10 + (c.toNat - 0x30)) 0

/-- The digits at the front, and the rest. -/
def spanDigits (s : Bytes) : Bytes × Bytes := (s.takeWhile Bytes.isDigit, s.dropWhile Bytes.isDigit)

/-- `strtod` of a scanned number: the nearest binary64, ties to even. -/
def strtod (negative : Bool) (mantissa : Nat) (exponent : Int) : Float :=
  let x := Float.ofScientific mantissa (exponent < 0) exponent.natAbs
  if negative then -x else x

/-- The digits before the point: a single zero, or digits that start with another. -/
def scanWhole (s : Bytes) : Option (Bytes × Bytes) :=
  match s with
  | [] => none
  | c :: rest =>
    if c = 0x30 then some ([c], rest)
    else if Bytes.isDigit c then some (spanDigits s)
    else none

/-- The digits after a point, if there is one. -/
def scanFraction (s : Bytes) : Option (Option Bytes × Bytes) :=
  match s with
  | 0x2e :: rest =>
    let (digits, rest) := spanDigits rest
    if digits.isEmpty then none else some (some digits, rest)
  | _ => some (none, s)

/-- The exponent, if there is one. -/
def scanExponent (s : Bytes) : Option (Option Int × Bytes) :=
  match s with
  | c :: rest =>
    if c = 0x65 ∨ c = 0x45 then
      let (negative, rest) := match rest with
        | d :: tail => if d = 0x2d then (true, tail) else if d = 0x2b then (false, tail) else (false, rest)
        | [] => (false, rest)
      let (digits, rest) := spanDigits rest
      if digits.isEmpty then none
      else some (some (if negative then -(natOf digits : Int) else natOf digits), rest)
    else some (none, s)
  | [] => some (none, s)

/-- The token of a scanned number: an integer of either kind where it fits, else binary64. -/
def numberToken (negative : Bool) (whole : Bytes) (fraction : Option Bytes) (exponent : Option Int) :
    Token :=
  let x := strtod negative (natOf (whole ++ fraction.getD []))
    (exponent.getD 0 - ((fraction.getD []).length : Int))
  match fraction, exponent with
  | none, none =>
    let n := natOf whole
    if negative then
      if n ≤ 2 ^ 63 then .integer (Int64.ofInt (-(n : Int))) else .float x
    else if n < 2 ^ 64 then .unsigned (UInt64.ofNat n) else .float x
  | _, _ => .float x

/-- `scan_number`. -/
def scanNumber (s : Bytes) : Option (Token × Bytes) := do
  let (negative, s) := match s with
    | 0x2d :: rest => (true, rest)
    | _ => (false, s)
  let (whole, s) ← scanWhole s
  let (fraction, s) ← scanFraction s
  let (exponent, s) ← scanExponent s
  return (numberToken negative whole fraction exponent, s)

def isBlank (c : UInt8) : Bool := c == 0x20 || c == 0x09 || c == 0x0a || c == 0x0d

/-- `scan_literal`, after its first letter. -/
def scanLiteral (letters : Bytes) (token : Token) (s : Bytes) : Token × Bytes :=
  if letters.isPrefixOf s then (token, s.drop letters.length) else (.parseError, [])

/-- The token that starts with `c`. A null byte ends the input. -/
def tokenAt (c : UInt8) (s : Bytes) : Token × Bytes :=
  if c = 0x5b then (.beginArray, s)
  else if c = 0x5d then (.endArray, s)
  else if c = 0x7b then (.beginObject, s)
  else if c = 0x7d then (.endObject, s)
  else if c = 0x3a then (.nameSeparator, s)
  else if c = 0x2c then (.valueSeparator, s)
  else if c = 0x74 then scanLiteral "rue" .literalTrue s
  else if c = 0x66 then scanLiteral "alse" .literalFalse s
  else if c = 0x6e then scanLiteral "ull" .literalNull s
  else if c = 0x22 then match scanString s with
    | some (text, rest) => (.string text, rest)
    | none => (.parseError, [])
  else if c = 0x2d ∨ Bytes.isDigit c then match scanNumber (c :: s) with
    | some r => r
    | none => (.parseError, [])
  else if c = 0x00 then (.endOfInput, [])
  else (.parseError, [])

/-- `scan()`. -/
def nextToken (s : Bytes) : Token × Bytes :=
  match s.dropWhile isBlank with
  | [] => (.endOfInput, [])
  | c :: rest => tokenAt c rest

/-- The tokens of a text up to its end or its first scanning error; `fuel` bounds their number. -/
def tokens : Nat → Bytes → List Token
  | 0, _ => []
  | fuel + 1, s =>
    match nextToken s with
    | (.endOfInput, _) => [.endOfInput]
    | (.parseError, _) => [.parseError]
    | (token, rest) => token :: tokens fuel rest

/-! ### Parsing -/

/-- A container under construction; an object between members, or waiting for a member's value. -/
inductive Frame where
  | array (items : List Json)
  | object (fields : List (Bytes × Json))
  | member (fields : List (Bytes × Json)) (key : Bytes)

/-- What the parser expects next, inside the containers of the stack. -/
inductive Parser where
  | value (stack : List Frame)
  | element (stack : List Frame)
  | firstKey (stack : List Frame)
  | key (stack : List Frame)
  | colon (stack : List Frame)
  | after (stack : List Frame)
  | done (j : Json)
  | finished (j : Json)

/-- The scalar a token is. -/
def scalar : Token → Option Json
  | .literalTrue => some (.bool true)
  | .literalFalse => some (.bool false)
  | .literalNull => some .null
  | .string s => some (.str s)
  | .unsigned n => some (.uint n)
  | .integer i => some (.int i)
  | .float x => if x.isFinite then some (.float x) else none
  | _ => none

/-- What is thrown at a token that starts no value. -/
def scalarFault : Token → JsonFault
  | .float _ => .overflow
  | _ => .parse

/-- Hand a finished value to the innermost container. -/
def deliver (j : Json) : List Frame → Parser
  | .array items :: stack => .after (.array (items ++ [j]) :: stack)
  | .member fields key :: stack => .after (.object (Assoc.insertSorted Bytes.ble key j fields) :: stack)
  | .object fields :: stack => .after (.object fields :: stack)
  | [] => .done j

/-- A nesting limit and the exception its callback throws. -/
structure DepthLimit where
  limit : Nat
  error : Error

/-- The callback at an event inside `stack`. -/
def checkDepth (limit : Option DepthLimit) (stack : List Frame) : Result Unit :=
  match limit with
  | some l => if l.limit < stack.length then .error l.error else .ok ()
  | none => .ok ()

/-- The start of a value inside `stack`. -/
def startValue (limit : Option DepthLimit) (stack : List Frame) (token : Token) : Result Parser := do
  match token with
  | .beginArray =>
    checkDepth limit stack
    return .element (.array [] :: stack)
  | .beginObject =>
    checkDepth limit stack
    return .firstKey (.object [] :: stack)
  | token => match scalar token with
    | some j =>
      checkDepth limit stack
      return deliver j stack
    | none => .error (.json (scalarFault token))

/-- A member's key. -/
def startMember (limit : Option DepthLimit) (stack : List Frame) (token : Token) : Result Parser :=
  match token, stack with
  | .string k, .object fields :: rest => do
    checkDepth limit stack
    return .colon (.member fields k :: rest)
  | _, _ => .error (.json .parse)

/-- One token. -/
def step (limit : Option DepthLimit) : Parser → Token → Result Parser
  | .value stack, token => startValue limit stack token
  | .element (.array items :: stack), .endArray => .ok (deliver (.arr items) stack)
  | .element stack, token => startValue limit stack token
  | .firstKey (.object fields :: stack), .endObject => .ok (deliver (.obj fields) stack)
  | .firstKey stack, token => startMember limit stack token
  | .key stack, token => startMember limit stack token
  | .colon stack, .nameSeparator => .ok (.value stack)
  | .after (.array items :: stack), .valueSeparator => .ok (.value (.array items :: stack))
  | .after (.array items :: stack), .endArray => .ok (deliver (.arr items) stack)
  | .after (.object fields :: stack), .valueSeparator => .ok (.key (.object fields :: stack))
  | .after (.object fields :: stack), .endObject => .ok (deliver (.obj fields) stack)
  | .done j, .endOfInput => .ok (.finished j)
  | _, _ => .error (.json .parse)

/-- The text after a byte order mark. -/
def skipBom (s : Bytes) : Bytes :=
  match s with
  | 0xef :: 0xbb :: 0xbf :: rest => rest
  | _ => s

/-- `Json::parse(text, callback)`. -/
def parse (limit : Option DepthLimit) (text : Bytes) : Result Json := do
  match ← (tokens (text.length + 1) (skipBom text)).foldlM (step limit) (.value []) with
  | .finished j => return j
  | _ => .error (.json .parse)

end Json

end ContextHmi
