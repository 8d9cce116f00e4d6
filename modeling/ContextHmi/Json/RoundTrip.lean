import ContextHmi.Json.Parsing
import ContextHmi.Json.Permuted

/-!
# What is written is read back

The text `dump()` makes of a value, given to the lexer and the parser again. An integer that is not
negative comes back as an unsigned one and a number that is not finite as `null`; nothing else changes.

* `lexed_dump`      : a serialized value is its tokens, whatever follows;
* `foldlM_tokensOf` : what the parser makes of them, and how deep its callback lets them nest;
* `parse_dump`      : a serialized value is read back, or the callback throws;
* `eqv_reread_iff`  : what comes back equals the value unless one of its numbers is not finite.
-/

namespace ContextHmi.Json

open Outcome

/-! ### Strings -/

theorem codepoint_control {a : UInt8} : a ≤ 0x1f →
    codepoint 0x30 0x30 (hexDigit (a.toNat / 16)) (hexDigit (a.toNat % 16)) = some a.toNat ∧
      Utf8.encode a.toNat = [a] :=
  Bytes.forall_byte (p := fun a => a ≤ 0x1f →
    codepoint 0x30 0x30 (hexDigit (a.toNat / 16)) (hexDigit (a.toNat % 16)) = some a.toNat ∧
      Utf8.encode a.toNat = [a]) (by decide +kernel) a

theorem scanString_short {e c : UInt8} (h : shortEscape e = some c) (s : Bytes) :
    scanString (0x5c :: e :: s) = push [c] (scanString s) := by
  have hunicode : e ≠ 0x75 := by
    rintro rfl
    cases h
  rw [scanString.eq_def]
  simp [hunicode, h]

theorem scanString_control {a : UInt8} (ha : a ≤ 0x1f) (s : Bytes) :
    scanString (0x5c :: 0x75 :: 0x30 :: 0x30 :: hexDigit (a.toNat / 16) :: hexDigit (a.toNat % 16) :: s) =
      push [a] (scanString s) := by
  obtain ⟨hcode, hencode⟩ := codepoint_control ha
  have hsmall : a.toNat ≤ 0x1f := UInt8.le_iff_toNat_le.mp ha
  rw [scanString.eq_def]
  simp only [hcode, hencode, show (0x5c : UInt8) ≠ 0x22 by decide, if_false, if_true]
  rw [if_neg (by omega), if_neg (by omega)]

theorem scanString_plain {a : UInt8} (hquote : a ≠ 0x22) (hslash : a ≠ 0x5c) (hcontrol : ¬ a < 0x20)
    (hascii : a < 0x80) (s : Bytes) : scanString (a :: s) = push [a] (scanString s) := by
  rw [scanString.eq_def]
  simp [hquote, hslash, hcontrol, hascii]

theorem scanString_escapeAscii {a : UInt8} (ha : a < 0x80) (s : Bytes) :
    scanString (escapeAscii a ++ s) = push [a] (scanString s) := by
  unfold escapeAscii
  split_ifs with h1 h2 h3 h4 h5 h6 h7 h8
  · exact h1 ▸ scanString_short rfl s
  · exact h2 ▸ scanString_short rfl s
  · exact h3 ▸ scanString_short rfl s
  · exact h4 ▸ scanString_short rfl s
  · exact h5 ▸ scanString_short rfl s
  · obtain rfl := h6
    exact scanString_short rfl s
  · obtain rfl := h7
    exact scanString_short rfl s
  · exact scanString_control h8 s
  · refine scanString_plain h6 h7 ?_ ha s
    rw [UInt8.le_iff_toNat_le] at h8
    rw [UInt8.lt_iff_toNat_lt]
    simp at h8 ⊢
    omega

theorem plain_of_wide {a : UInt8} : ¬ a < 0x80 → a ≠ 0x22 ∧ a ≠ 0x5c ∧ ¬ a < 0x20 :=
  Bytes.forall_byte (p := fun a => ¬ a < 0x80 → a ≠ 0x22 ∧ a ≠ 0x5c ∧ ¬ a < 0x20)
    (by decide +kernel) a

theorem scanString_wide2 {a b : UInt8} (ha : Utf8.wide2 a = true) (hb : Utf8.isCont b = true)
    (s : Bytes) : scanString (a :: b :: s) = push [a, b] (scanString s) := by
  have hascii := Utf8.not_lt_of_wide2 ha
  obtain ⟨hquote, hslash, hcontrol⟩ := plain_of_wide hascii
  rw [scanString.eq_def]
  simp [hquote, hslash, hcontrol, hascii, ha, hb]

theorem scanString_wide3 {a b c : UInt8} (hab : Utf8.wide3 a b = true) (hc : Utf8.isCont c = true)
    (s : Bytes) : scanString (a :: b :: c :: s) = push [a, b, c] (scanString s) := by
  obtain ⟨hascii, hwide2, -⟩ := Utf8.wide3_lead hab
  obtain ⟨hquote, hslash, hcontrol⟩ := plain_of_wide hascii
  rw [scanString.eq_def]
  simp [hquote, hslash, hcontrol, hascii, hwide2, hab, hc]

theorem scanString_wide4 {a b c d : UInt8} (hab : Utf8.wide4 a b = true)
    (hc : Utf8.isCont c = true) (hd : Utf8.isCont d = true) (s : Bytes) :
    scanString (a :: b :: c :: d :: s) = push [a, b, c, d] (scanString s) := by
  obtain ⟨hascii, hwide2, hwide3⟩ := Utf8.wide4_lead hab
  obtain ⟨hquote, hslash, hcontrol⟩ := plain_of_wide hascii
  rw [scanString.eq_def]
  simp [hquote, hslash, hcontrol, hascii, hwide2, hwide3, hab, hc, hd]

/-- **An escaped string is read back.** -/
theorem scanString_dumpEscaped {s t : Bytes} (h : dumpEscaped s = .ok t) (rest : Bytes) :
    scanString (t ++ 0x22 :: rest) = some (s, rest) := by
  have hpush : ∀ {c s : Bytes} {scanned : Option (Bytes × Bytes)}, scanned = some (s, rest) →
      push c scanned = some (c ++ s, rest) := by
    intro c s scanned hscanned
    rw [hscanned]
    rfl
  have htext := text_of_dumpEscaped h
  induction htext generalizing t with
  | nil =>
    obtain rfl := Except.ok.inj h
    rw [List.nil_append, scanString.eq_def]
    rfl
  | cons hc _ ih =>
    cases hc with
    | one ha =>
      rw [List.singleton_append, dumpEscaped_ascii ha, map_eq_ok] at h
      obtain ⟨t', ht', rfl⟩ := h
      rw [List.append_assoc, scanString_escapeAscii ha]
      exact hpush (ih ht')
    | two ha hb =>
      rw [List.cons_append, List.singleton_append, dumpEscaped_wide2 ha hb, map_eq_ok] at h
      obtain ⟨t', ht', rfl⟩ := h
      show scanString (_ :: _ :: (t' ++ 0x22 :: rest)) = _
      rw [scanString_wide2 ha hb]
      exact hpush (ih ht')
    | three hab hc =>
      rw [List.cons_append, List.cons_append, List.singleton_append, dumpEscaped_wide3 hab hc,
        map_eq_ok] at h
      obtain ⟨t', ht', rfl⟩ := h
      show scanString (_ :: _ :: _ :: (t' ++ 0x22 :: rest)) = _
      rw [scanString_wide3 hab hc]
      exact hpush (ih ht')
    | four hab hc hd =>
      rw [List.cons_append, List.cons_append, List.cons_append, List.singleton_append,
        dumpEscaped_wide4 hab hc hd, map_eq_ok] at h
      obtain ⟨t', ht', rfl⟩ := h
      show scanString (_ :: _ :: _ :: _ :: (t' ++ 0x22 :: rest)) = _
      rw [scanString_wide4 hab hc hd]
      exact hpush (ih ht')

/-! ### Numbers -/

/-- What follows cannot continue a number. -/
def EndsNumber (rest : Bytes) : Prop :=
  ∀ c ∈ rest.head?, Bytes.isDigit c = false ∧ c ≠ 0x2e ∧ c ≠ 0x65 ∧ c ≠ 0x45

theorem endsNumber_nil : EndsNumber [] := by
  intro c hc
  cases hc

theorem endsNumber_cons {c : UInt8} {s : Bytes}
    (h : Bytes.isDigit c = false ∧ c ≠ 0x2e ∧ c ≠ 0x65 ∧ c ≠ 0x45) : EndsNumber (c :: s) := by
  intro c' hc'
  obtain rfl := Option.some.inj hc'
  exact h

theorem natOf_append (s t : Bytes) :
    natOf (s ++ t) = t.foldl (fun n c => n * 10 + (c.toNat - 0x30)) (natOf s) := List.foldl_append

/-- **A decimal text spells its number.** -/
theorem natOf_decimal (n : Nat) : natOf (Bytes.decimal n) = n := by
  have hdigit : ∀ {d : Nat}, d < 10 → (Bytes.digit d).toNat - 0x30 = d := by
    intro d hd
    simp [Bytes.digit]
    omega
  induction n using Nat.strong_induction_on with
  | _ n ih =>
    rw [Bytes.decimal_eq]
    by_cases hsmall : n < 10
    · rw [if_pos hsmall]
      show 0 * 10 + ((Bytes.digit n).toNat - 0x30) = n
      rw [hdigit hsmall]
      omega
    · rw [if_neg hsmall, natOf_append, ih (n / 10) (by omega)]
      show n / 10 * 10 + ((Bytes.digit (n % 10)).toNat - 0x30) = n
      rw [hdigit (Nat.mod_lt _ (by decide))]
      omega

theorem decimal_head (n : Nat) :
    Bytes.decimal n = [0x30] ∨ ∃ c s, Bytes.decimal n = c :: s ∧ c ≠ 0x30 := by
  induction n using Nat.strong_induction_on with
  | _ n ih =>
    rw [Bytes.decimal_eq]
    by_cases hsmall : n < 10
    · rw [if_pos hsmall]
      by_cases hzero : n = 0
      · rw [hzero]
        exact .inl rfl
      · refine .inr ⟨_, [], rfl, ?_⟩
        intro h
        exact hzero (Bytes.digit_injective (e := 0) hsmall (by decide) h)
    · rw [if_neg hsmall]
      right
      rcases ih (n / 10) (by omega) with hone | ⟨c, s, hc, hne⟩
      · have hzero : n / 10 = 0 := Bytes.decimal_injective (hone.trans (by decide))
        omega
      · exact ⟨c, _, by rw [hc, List.cons_append], hne⟩

theorem spanDigits_append {digits rest : Bytes} (hdigits : ∀ c ∈ digits, Bytes.isDigit c = true)
    (hrest : EndsNumber rest) : spanDigits (digits ++ rest) = (digits, rest) := by
  have hnone : rest.takeWhile Bytes.isDigit = [] ∧ rest.dropWhile Bytes.isDigit = rest := by
    cases rest with
    | nil => exact ⟨rfl, rfl⟩
    | cons c rest =>
      have hc := (hrest c rfl).1
      exact ⟨List.takeWhile_cons_of_neg (by simp [hc]), List.dropWhile_cons_of_neg (by simp [hc])⟩
  rw [spanDigits, List.takeWhile_append_of_pos hdigits, List.dropWhile_append_of_pos hdigits,
    hnone.1, hnone.2, List.append_nil]

theorem scanWhole_decimal (n : Nat) {rest : Bytes} (hrest : EndsNumber rest) :
    scanWhole (Bytes.decimal n ++ rest) = some (Bytes.decimal n, rest) := by
  rcases decimal_head n with hzero | ⟨c, s, hc, hne⟩
  · rw [hzero]
    rfl
  · have hdigit : Bytes.isDigit c = true :=
      Bytes.decimal_isDigit n c (hc ▸ List.mem_cons_self)
    have hspan := spanDigits_append (Bytes.decimal_isDigit n) hrest
    rw [hc, List.cons_append] at hspan ⊢
    rw [scanWhole, if_neg hne, if_pos hdigit, hspan]

theorem scanFraction_none {rest : Bytes} (hrest : EndsNumber rest) :
    scanFraction rest = some (none, rest) := by
  unfold scanFraction
  split
  · exact absurd rfl (hrest _ rfl).2.1
  · rfl

theorem scanExponent_none {rest : Bytes} (hrest : EndsNumber rest) :
    scanExponent rest = some (none, rest) := by
  cases rest with
  | nil => rfl
  | cons c rest =>
    obtain ⟨-, -, hlower, hupper⟩ := hrest c rfl
    simp only [scanExponent]
    rw [if_neg (not_or.mpr ⟨hlower, hupper⟩)]

/-- The token of an integer's text. -/
def integerToken (i : Int) : Token :=
  if i < 0 then .integer (Int64.ofInt i) else .unsigned (UInt64.ofNat i.natAbs)

/-- `scan_number` after the sign. -/
def scanUnsigned (negative : Bool) (s : Bytes) : Option (Token × Bytes) := do
  let (whole, s) ← scanWhole s
  let (fraction, s) ← scanFraction s
  let (exponent, s) ← scanExponent s
  return (numberToken negative whole fraction exponent, s)

theorem scanNumber_minus (s : Bytes) : scanNumber (0x2d :: s) = scanUnsigned true s := rfl

theorem scanNumber_digit {c : UInt8} (hc : Bytes.isDigit c = true) (s : Bytes) :
    scanNumber (c :: s) = scanUnsigned false (c :: s) := by
  have hminus : c ≠ 0x2d := by
    rintro rfl
    cases hc
  unfold scanNumber
  split
  rename_i sign digits hsign
  split at hsign
  · rename_i heq
    exact absurd (List.cons.inj heq).1 hminus
  · obtain ⟨rfl, rfl⟩ := Prod.mk.inj hsign
    rfl

theorem scanUnsigned_decimal (negative : Bool) (n : Nat) {rest : Bytes} (hrest : EndsNumber rest) :
    scanUnsigned negative (Bytes.decimal n ++ rest) =
      some (numberToken negative (Bytes.decimal n) none none, rest) := by
  simp only [scanUnsigned, scanWhole_decimal n hrest, scanFraction_none hrest,
    scanExponent_none hrest, Option.bind_eq_bind, Option.bind_some, Option.pure_def]

/-- **The text of an integer that one of the two kinds holds is read back.** -/
theorem scanNumber_dumpInteger {i : Int} (hlow : -2 ^ 63 ≤ i) (hhigh : i < 2 ^ 64) {rest : Bytes}
    (hrest : EndsNumber rest) :
    scanNumber (dumpInteger i ++ rest) = some (integerToken i, rest) := by
  unfold dumpInteger integerToken
  by_cases hneg : i < 0
  · have htoken : numberToken true (Bytes.decimal i.natAbs) none none = .integer (Int64.ofInt i) := by
      unfold numberToken
      simp only [natOf_decimal]
      rw [if_pos trivial, if_pos (by omega), show (-(i.natAbs : Int)) = i by omega]
    rw [if_pos hneg, if_pos hneg, List.cons_append, scanNumber_minus, scanUnsigned_decimal _ _ hrest,
      htoken]
  · have htoken : numberToken false (Bytes.decimal i.natAbs) none none =
        .unsigned (UInt64.ofNat i.natAbs) := by
      unfold numberToken
      simp only [natOf_decimal]
      rw [if_neg Bool.false_ne_true, if_pos (by omega)]
    have hunsigned : scanNumber (Bytes.decimal i.natAbs ++ rest) =
        scanUnsigned false (Bytes.decimal i.natAbs ++ rest) := by
      have hdigits := Bytes.decimal_isDigit i.natAbs
      cases hdecimal : Bytes.decimal i.natAbs with
      | nil => exact absurd hdecimal (Bytes.decimal_ne_nil _)
      | cons c s =>
        rw [hdecimal] at hdigits
        exact scanNumber_digit (hdigits c List.mem_cons_self) _
    rw [if_neg hneg, if_neg hneg, hunsigned, scanUnsigned_decimal _ _ hrest, htoken]

/-! ### Tokens -/

/-- A token of the text's own, neither its end nor an error. -/
def Token.Proper (token : Token) : Prop := token ≠ .endOfInput ∧ token ≠ .parseError

/-- The lexer stops at such a token. -/
def Token.ends : Token → Bool
  | .endOfInput => true
  | .parseError => true
  | _ => false

theorem Token.Proper.of_ends {token : Token} (h : token.ends = false) : token.Proper := by
  refine ⟨?_, ?_⟩
  · rintro rfl
    cases h
  · rintro rfl
    cases h

/-- The lexer takes these tokens off the text and leaves the rest. -/
inductive Lexed : Bytes → List Token → Bytes → Prop where
  | nil (s : Bytes) : Lexed s [] s
  | cons {s t rest : Bytes} {token : Token} {ts : List Token} : nextToken s = (token, t) →
      token.Proper → t.length < s.length → Lexed t ts rest → Lexed s (token :: ts) rest

namespace Lexed
variable {s t rest : Bytes} {ts ts' : List Token}

theorem append (h : Lexed s ts t) (h' : Lexed t ts' rest) : Lexed s (ts ++ ts') rest := by
  induction h with
  | nil => exact h'
  | cons hnext hproper hless _ ih => exact .cons hnext hproper hless (ih h')

theorem single {token : Token} (hnext : nextToken s = (token, rest)) (hproper : token.Proper)
    (hless : rest.length < s.length) : Lexed s [token] rest := .cons hnext hproper hless (.nil rest)

theorem length_le (h : Lexed s ts rest) : ts.length + rest.length ≤ s.length := by
  induction h with
  | nil => simp
  | cons _ _ hless _ ih =>
    rw [List.length_cons]
    omega

theorem tokens (h : Lexed s ts rest) (fuel : Nat) :
    Json.tokens (ts.length + fuel) s = ts ++ Json.tokens fuel rest := by
  induction h with
  | nil => rw [List.length_nil, Nat.zero_add, List.nil_append]
  | @cons s t rest token ts hnext hproper _ _ ih =>
    rw [List.length_cons, Nat.add_right_comm, Json.tokens, hnext, List.cons_append, ← ih]
    split
    · rename_i heq
      exact absurd (Prod.mk.inj heq).1 hproper.1
    · rename_i heq
      exact absurd (Prod.mk.inj heq).1 hproper.2
    · rename_i heq
      obtain ⟨rfl, rfl⟩ := Prod.mk.inj heq
      rfl

end Lexed

theorem nextToken_cons {c : UInt8} (hc : isBlank c = false) (s : Bytes) :
    nextToken (c :: s) = tokenAt c s := by
  rw [nextToken, List.dropWhile_cons_of_neg (by simp [hc])]

theorem number_start {c : UInt8} : c = 0x2d ∨ Bytes.isDigit c = true →
    isBlank c = false ∧ c ≠ 0x5b ∧ c ≠ 0x5d ∧ c ≠ 0x7b ∧ c ≠ 0x7d ∧ c ≠ 0x3a ∧ c ≠ 0x2c ∧ c ≠ 0x74 ∧
      c ≠ 0x66 ∧ c ≠ 0x6e ∧ c ≠ 0x22 :=
  Bytes.forall_byte (p := fun c => c = 0x2d ∨ Bytes.isDigit c = true →
    isBlank c = false ∧ c ≠ 0x5b ∧ c ≠ 0x5d ∧ c ≠ 0x7b ∧ c ≠ 0x7d ∧ c ≠ 0x3a ∧ c ≠ 0x2c ∧ c ≠ 0x74 ∧
      c ≠ 0x66 ∧ c ≠ 0x6e ∧ c ≠ 0x22) (by decide +kernel) c

theorem start_of_scanNumber {s : Bytes} {r : Token × Bytes} (h : scanNumber s = some r) :
    ∃ c t, s = c :: t ∧ (c = 0x2d ∨ Bytes.isDigit c = true) := by
  cases s with
  | nil => cases h
  | cons c t =>
    refine ⟨c, t, rfl, ?_⟩
    by_contra hnot
    obtain ⟨hminus, hdigit⟩ := not_or.mp hnot
    have hzero : c ≠ 0x30 := by
      rintro rfl
      exact hdigit rfl
    unfold scanNumber at h
    split at h
    rename_i sign digits hsign
    split at hsign
    · rename_i heq
      exact hminus (List.cons.inj heq).1
    · obtain ⟨rfl, rfl⟩ := Prod.mk.inj hsign
      rw [scanWhole, if_neg hzero, if_neg hdigit] at h
      cases h

theorem nextToken_number {s : Bytes} {r : Token × Bytes} (h : scanNumber s = some r) :
    nextToken s = r := by
  obtain ⟨c, t, rfl, hc⟩ := start_of_scanNumber h
  obtain ⟨hblank, h1, h2, h3, h4, h5, h6, h7, h8, h9, h10⟩ := number_start hc
  rw [nextToken_cons hblank, tokenAt, if_neg h1, if_neg h2, if_neg h3, if_neg h4, if_neg h5,
    if_neg h6, if_neg h7, if_neg h8, if_neg h9, if_neg h10, if_pos hc, h]

theorem nextToken_string {t : Bytes} {s rest : Bytes} (h : scanString t = some (s, rest)) :
    nextToken (0x22 :: t) = (.string s, rest) := by
  rw [nextToken_cons (by decide), tokenAt]
  simp only [show ¬ (0x22 : UInt8) = 0x5b by decide, show ¬ (0x22 : UInt8) = 0x5d by decide,
    show ¬ (0x22 : UInt8) = 0x7b by decide, show ¬ (0x22 : UInt8) = 0x7d by decide,
    show ¬ (0x22 : UInt8) = 0x3a by decide, show ¬ (0x22 : UInt8) = 0x2c by decide,
    show ¬ (0x22 : UInt8) = 0x74 by decide, show ¬ (0x22 : UInt8) = 0x66 by decide,
    show ¬ (0x22 : UInt8) = 0x6e by decide, if_false, if_true, h]

/-! ### The tokens of a value -/

mutual

/-- The tokens of a value's text. -/
def tokensOf : Json → List Token
  | .null => [.literalNull]
  | .bool b => [if b then .literalTrue else .literalFalse]
  | .int i => [integerToken i.toInt]
  | .uint n => [integerToken n.toNat]
  | .float x => [if x.isFinite then .float x else .literalNull]
  | .str s => [.string s]
  | .arr [] => [.beginArray, .endArray]
  | .arr (j :: js) => .beginArray :: (tokensOf j ++ tokensOfItems js ++ [.endArray])
  | .obj [] => [.beginObject, .endObject]
  | .obj ((k, v) :: fs) =>
    .beginObject :: .string k :: .nameSeparator :: (tokensOf v ++ tokensOfFields fs ++ [.endObject])

def tokensOfItems : List Json → List Token
  | [] => []
  | j :: js => .valueSeparator :: (tokensOf j ++ tokensOfItems js)

def tokensOfFields : List (Bytes × Json) → List Token
  | [] => []
  | (k, v) :: fs => .valueSeparator :: .string k :: .nameSeparator :: (tokensOf v ++ tokensOfFields fs)

end

mutual

/-- The binary64 numbers of a value. -/
def floats : Json → List Float
  | .float x => [x]
  | .arr items => floatsOfItems items
  | .obj fields => floatsOfFields fields
  | _ => []

def floatsOfItems : List Json → List Float
  | [] => []
  | j :: js => floats j ++ floatsOfItems js

def floatsOfFields : List (Bytes × Json) → List Float
  | [] => []
  | (_, v) :: fs => floats v ++ floatsOfFields fs

end

theorem floatsOfItems_eq (items : List Json) : floatsOfItems items = items.flatMap floats := by
  induction items with
  | nil => rfl
  | cons j js ih => rw [floatsOfItems, ih, List.flatMap_cons]

theorem floatsOfFields_eq (fields : List (Bytes × Json)) :
    floatsOfFields fields = fields.flatMap fun f => floats f.2 := by
  induction fields with
  | nil => rfl
  | cons f fs ih => rw [floatsOfFields, ih, List.flatMap_cons]

theorem lexed_word {word rest : Bytes} {token : Token} (h : nextToken (word ++ rest) = (token, rest))
    (hproper : token.Proper) (hword : word ≠ []) : Lexed (word ++ rest) [token] rest := by
  refine .single h hproper ?_
  have hlength := List.length_pos_of_ne_nil hword
  rw [List.length_append]
  omega

theorem lexed_punctuation (c : UInt8) (token : Token) (hproper : token.Proper) (rest : Bytes)
    (h : nextToken (c :: rest) = (token, rest)) : Lexed (c :: rest) [token] rest :=
  @lexed_word [c] _ _ h hproper (List.cons_ne_nil _ _)

theorem lexed_string {k key : Bytes} (h : dumpString k = .ok key) (rest : Bytes) :
    Lexed (key ++ rest) [.string k] rest := by
  obtain ⟨e, he, rfl⟩ := map_eq_ok.mp h
  have hscan := scanString_dumpEscaped he rest
  have hnext : nextToken (0x22 :: e ++ [0x22] ++ rest) = (.string k, rest) := by
    rw [List.append_assoc]
    exact nextToken_string hscan
  exact lexed_word hnext (.of_ends rfl) (List.cons_ne_nil _ _)

theorem lexed_key {k key : Bytes} (h : dumpString k = .ok key) (rest : Bytes) :
    Lexed (key ++ 0x3a :: rest) [.string k, .nameSeparator] rest :=
  (lexed_string h _).append (lexed_punctuation 0x3a .nameSeparator (.of_ends rfl) rest rfl)

theorem endsNumber_closing {c : UInt8} (hc : c = 0x2c ∨ c = 0x5d ∨ c = 0x7d) (rest : Bytes) :
    EndsNumber (c :: rest) := by
  apply endsNumber_cons
  rcases hc with rfl | rfl | rfl <;> decide

theorem integerToken_proper (i : Int) : (integerToken i).Proper := by
  unfold integerToken
  split_ifs
  · exact .of_ends rfl
  · exact .of_ends rfl

theorem dumpInteger_ne_nil (i : Int) : dumpInteger i ≠ [] := by
  unfold dumpInteger
  split_ifs
  · exact List.cons_ne_nil _ _
  · exact Bytes.decimal_ne_nil _

theorem lexed_dumpInteger {i : Int} (hlow : -2 ^ 63 ≤ i) (hhigh : i < 2 ^ 64) {rest : Bytes}
    (hrest : EndsNumber rest) : Lexed (dumpInteger i ++ rest) [integerToken i] rest :=
  lexed_word (nextToken_number (scanNumber_dumpInteger hlow hhigh hrest)) (integerToken_proper i)
    (dumpInteger_ne_nil i)

section Lexing
variable [Platform]

/-- The text of a finite number is read back as that number, whatever follows it. -/
def ReadsBack (x : Float) : Prop :=
  ∀ rest, EndsNumber rest → scanNumber (Platform.toChars x ++ rest) = some (.float x, rest)

/-- So are those of the finite numbers of a value. -/
def FloatsReadBack (j : Json) : Prop := ∀ x ∈ j.floats, x.isFinite = true → ReadsBack x

theorem floatsReadBack_arr {items : List Json} :
    (Json.arr items).FloatsReadBack ↔ ∀ j ∈ items, j.FloatsReadBack := by
  simp only [FloatsReadBack, floats, floatsOfItems_eq, List.mem_flatMap]
  constructor
  · exact fun h j hj x hx => h x ⟨j, hj, hx⟩
  · exact fun h x ⟨j, hj, hx⟩ => h j hj x hx

theorem floatsReadBack_obj {fields : List (Bytes × Json)} :
    (Json.obj fields).FloatsReadBack ↔ ∀ f ∈ fields, f.2.FloatsReadBack := by
  simp only [FloatsReadBack, floats, floatsOfFields_eq, List.mem_flatMap]
  constructor
  · exact fun h f hf x hx => h x ⟨f, hf, hx⟩
  · exact fun h x ⟨f, hf, hx⟩ => h f hf x hx

/-- The text of a value is its tokens. -/
def LexesAs (j : Json) : Prop :=
  ∀ t, j.dump = .ok t → ∀ rest, EndsNumber rest → Lexed (t ++ rest) j.tokensOf rest

theorem dumpItems_head {items : List Json} {t : Bytes} (h : dumpItems items = .ok t) (rest : Bytes) :
    EndsNumber (t ++ 0x5d :: rest) := by
  cases items with
  | nil =>
    obtain rfl := Except.ok.inj h
    exact endsNumber_closing (.inr (.inl rfl)) rest
  | cons j js =>
    simp only [dumpItems, bind_eq_ok, pure_eq_ok] at h
    obtain ⟨head, -, tail, -, rfl⟩ := h
    exact endsNumber_closing (.inl rfl) _

theorem dumpFields_head {fields : List (Bytes × Json)} {t : Bytes} (h : dumpFields fields = .ok t)
    (rest : Bytes) : EndsNumber (t ++ 0x7d :: rest) := by
  cases fields with
  | nil =>
    obtain rfl := Except.ok.inj h
    exact endsNumber_closing (.inr (.inr rfl)) rest
  | cons f fs =>
    simp only [dumpFields, bind_eq_ok, pure_eq_ok] at h
    obtain ⟨key, -, head, -, tail, -, rfl⟩ := h
    exact endsNumber_closing (.inl rfl) _

theorem lexed_dumpItems {items : List Json} (hitems : ∀ j ∈ items, j.LexesAs) {t : Bytes}
    (h : dumpItems items = .ok t) (rest : Bytes) :
    Lexed (t ++ 0x5d :: rest) (tokensOfItems items) (0x5d :: rest) := by
  induction items generalizing t with
  | nil =>
    obtain rfl := Except.ok.inj h
    exact .nil _
  | cons j js ih =>
    rw [List.forall_mem_cons] at hitems
    simp only [dumpItems, bind_eq_ok, pure_eq_ok] at h
    obtain ⟨head, hhead, tail, htail, rfl⟩ := h
    have hcomma := lexed_punctuation 0x2c .valueSeparator (.of_ends rfl)
      (head ++ (tail ++ 0x5d :: rest)) rfl
    have hvalue := hitems.1 head hhead _ (dumpItems_head htail rest)
    rw [List.cons_append, List.cons_append, List.append_assoc, tokensOfItems, ← List.singleton_append]
    exact hcomma.append (hvalue.append (ih hitems.2 htail))

theorem lexed_dumpFields {fields : List (Bytes × Json)} (hfields : ∀ f ∈ fields, f.2.LexesAs)
    {t : Bytes} (h : dumpFields fields = .ok t) (rest : Bytes) :
    Lexed (t ++ 0x7d :: rest) (tokensOfFields fields) (0x7d :: rest) := by
  induction fields generalizing t with
  | nil =>
    obtain rfl := Except.ok.inj h
    exact .nil _
  | cons f fs ih =>
    obtain ⟨k, v⟩ := f
    rw [List.forall_mem_cons] at hfields
    simp only [dumpFields, bind_eq_ok, pure_eq_ok] at h
    obtain ⟨key, hkey, head, hhead, tail, htail, rfl⟩ := h
    have hcomma := lexed_punctuation 0x2c .valueSeparator (.of_ends rfl)
      (key ++ 0x3a :: (head ++ (tail ++ 0x7d :: rest))) rfl
    have hvalue := hfields.1 head hhead _ (dumpFields_head htail rest)
    have hall := hcomma.append ((lexed_key hkey _).append (hvalue.append (ih hfields.2 htail)))
    simpa [tokensOfFields] using hall

/-- **The text of a value is its tokens, whatever follows.** -/
theorem lexed_dump {j : Json} (hfloats : j.FloatsReadBack) : j.LexesAs := by
  induction j using Json.induction with
  | null =>
    intro t h rest _
    obtain rfl := Except.ok.inj h
    exact lexed_word rfl (.of_ends rfl) (by decide)
  | bool b =>
    intro t h rest _
    obtain rfl := Except.ok.inj h
    cases b
    · exact lexed_word rfl (.of_ends rfl) (by decide)
    · exact lexed_word rfl (.of_ends rfl) (by decide)
  | int i =>
    intro t h rest hrest
    obtain rfl := Except.ok.inj h
    have hlow := i.le_toInt
    have hhigh := i.toInt_lt
    exact lexed_dumpInteger hlow (by omega) hrest
  | uint n =>
    intro t h rest hrest
    obtain rfl := Except.ok.inj h
    have hlt := n.toNat_lt
    exact lexed_dumpInteger (by omega) (by omega) hrest
  | float x =>
    intro t h rest hrest
    obtain rfl := Except.ok.inj h
    unfold dumpFloat tokensOf
    by_cases hfinite : x.isFinite = true
    · rw [if_pos hfinite, if_pos hfinite]
      have hscan := hfloats x (List.mem_singleton_self x) hfinite
      have hne : Platform.toChars x ≠ [] := by
        intro hnil
        have hend := hscan [] endsNumber_nil
        rw [hnil] at hend
        cases hend
      exact lexed_word (nextToken_number (hscan rest hrest)) (.of_ends rfl) hne
    · rw [if_neg hfinite, if_neg hfinite]
      exact lexed_word rfl (.of_ends rfl) (by decide)
  | str s =>
    intro t h rest _
    exact lexed_string h rest
  | arr items ih =>
    have hitems : ∀ j ∈ items, j.LexesAs := fun j hj => ih j hj (floatsReadBack_arr.mp hfloats j hj)
    intro t h rest _
    cases items with
    | nil =>
      obtain rfl := Except.ok.inj h
      exact (lexed_punctuation 0x5b .beginArray (.of_ends rfl) _ rfl).append
        (lexed_punctuation 0x5d .endArray (.of_ends rfl) rest rfl)
    | cons j js =>
      rw [List.forall_mem_cons] at hitems
      simp only [dump, bind_eq_ok, pure_eq_ok] at h
      obtain ⟨head, hhead, tail, htail, rfl⟩ := h
      have hopen := lexed_punctuation 0x5b .beginArray (.of_ends rfl)
        (head ++ (tail ++ 0x5d :: rest)) rfl
      have hfirst := hitems.1 head hhead _ (dumpItems_head htail rest)
      have hothers := lexed_dumpItems hitems.2 htail rest
      have hclose := lexed_punctuation 0x5d .endArray (.of_ends rfl) rest rfl
      have hall := hopen.append ((hfirst.append hothers).append hclose)
      simpa [tokensOf] using hall
  | obj fields ih =>
    have hfields : ∀ f ∈ fields, f.2.LexesAs :=
      fun f hf => ih f hf (floatsReadBack_obj.mp hfloats f hf)
    intro t h rest _
    cases fields with
    | nil =>
      obtain rfl := Except.ok.inj h
      exact (lexed_punctuation 0x7b .beginObject (.of_ends rfl) _ rfl).append
        (lexed_punctuation 0x7d .endObject (.of_ends rfl) rest rfl)
    | cons f fs =>
      obtain ⟨k, v⟩ := f
      rw [List.forall_mem_cons] at hfields
      simp only [dump, bind_eq_ok, pure_eq_ok] at h
      obtain ⟨key, hkey, head, hhead, tail, htail, rfl⟩ := h
      have hopen := lexed_punctuation 0x7b .beginObject (.of_ends rfl)
        (key ++ 0x3a :: (head ++ (tail ++ 0x7d :: rest))) rfl
      have hfirst := hfields.1 head hhead _ (dumpFields_head htail rest)
      have hothers := lexed_dumpFields hfields.2 htail rest
      have hclose := lexed_punctuation 0x7d .endObject (.of_ends rfl) rest rfl
      have hall := hopen.append ((lexed_key hkey _).append ((hfirst.append hothers).append hclose))
      simpa [tokensOf] using hall

end Lexing

/-! ### What the parser makes of them -/

mutual

/-- The value as it is read back: an integer that is not negative is unsigned, a number that is not
finite is `null`. -/
def reread : Json → Json
  | .int i => if i.toInt < 0 then .int i else .uint (UInt64.ofNat i.toInt.natAbs)
  | .float x => if x.isFinite then .float x else .null
  | .arr items => .arr (rereadItems items)
  | .obj fields => .obj (rereadFields fields)
  | j => j

def rereadItems : List Json → List Json
  | [] => []
  | j :: js => reread j :: rereadItems js

def rereadFields : List (Bytes × Json) → List (Bytes × Json)
  | [] => []
  | (k, v) :: fs => (k, reread v) :: rereadFields fs

end

mutual

/-- How deep the callback is called: the containers around the innermost value or key. -/
def depth : Json → Nat
  | .arr items => depthOfItems items
  | .obj fields => depthOfFields fields
  | _ => 0

def depthOfItems : List Json → Nat
  | [] => 0
  | j :: js => max (depth j + 1) (depthOfItems js)

def depthOfFields : List (Bytes × Json) → Nat
  | [] => 0
  | (_, v) :: fs => max (depth v + 1) (depthOfFields fs)

end

/-- What the callback says to an event inside `n` containers. -/
def within (limit : Option DepthLimit) (n : Nat) : Result Unit :=
  match limit with
  | some l => if l.limit < n then .error l.error else .ok ()
  | none => .ok ()

theorem within_bind_within {β : Type} (limit : Option DepthLimit) (m n : Nat) (f : Result β) :
    (within limit m >>= fun _ => within limit n >>= fun _ => f) =
      within limit (max m n) >>= fun _ => f := by
  cases limit with
  | none => rfl
  | some l =>
    simp only [within, lt_max_iff]
    by_cases hm : l.limit < m
    · simp only [if_pos hm, if_pos (Or.inl hm)]
      rfl
    · by_cases hn : l.limit < n
      · simp only [if_neg hm, if_pos hn, if_pos (Or.inr hn)]
        rfl
      · simp only [if_neg hm, if_neg hn, if_neg (not_or.mpr ⟨hm, hn⟩)]
        rfl

/-- The parser takes the next token for the start of a value inside `stack`. -/
def Starts (limit : Option DepthLimit) (p : Parser) (stack : List Frame) : Prop :=
  ∀ token, token ≠ .endArray → step limit p token = startValue limit stack token

theorem starts_value (limit : Option DepthLimit) (stack : List Frame) :
    Starts limit (.value stack) stack := by
  intro token _
  rfl

theorem starts_element (limit : Option DepthLimit) (items : List Json) (stack : List Frame) :
    Starts limit (.element (.array items :: stack)) (.array items :: stack) := by
  intro token htoken
  cases token <;> first | rfl | exact absurd rfl htoken

section Parsing
variable {limit : Option DepthLimit}

/-- What the parser makes of a value's tokens. -/
def ParsesAs (limit : Option DepthLimit) (j : Json) : Prop :=
  ∀ p stack, Starts limit p stack → ∀ ts,
    (j.tokensOf ++ ts).foldlM (step limit) p =
      within limit (stack.length + j.depth) >>= fun _ =>
        ts.foldlM (step limit) (deliver j.reread stack)

theorem parsesAs_scalar {j : Json} {token : Token} (htokens : j.tokensOf = [token])
    (hdepth : j.depth = 0) (hscalar : scalar token = some j.reread) : ParsesAs limit j := by
  intro p stack hp ts
  have hend : token ≠ .endArray := by
    rintro rfl
    cases hscalar
  have hstart : startValue limit stack token =
      within limit stack.length >>= fun _ => pure (deliver j.reread stack) := by
    unfold startValue
    split
    · cases hscalar
    · cases hscalar
    · rw [hscalar]
      rfl
  rw [htokens, hdepth, List.singleton_append, List.foldlM_cons, hp token hend, hstart, bind_assoc]
  rfl

theorem parses_items {items : List Json} (hitems : ∀ j ∈ items, ParsesAs limit j) (done : List Json)
    (stack : List Frame) (ts : List Token) :
    (within limit stack.length >>= fun _ =>
      (tokensOfItems items ++ ts).foldlM (step limit) (.after (.array done :: stack))) =
      within limit (stack.length + depthOfItems items) >>= fun _ =>
        ts.foldlM (step limit) (.after (.array (done ++ rereadItems items) :: stack)) := by
  induction items generalizing done with
  | nil =>
    rw [rereadItems, List.append_nil]
    rfl
  | cons j js ih =>
    rw [List.forall_mem_cons] at hitems
    have hvalue := hitems.1 _ _ (starts_value limit (.array done :: stack)) (tokensOfItems js ++ ts)
    have hdelivered : deliver j.reread (.array done :: stack) =
        .after (.array (done ++ [j.reread]) :: stack) := rfl
    rw [hdelivered, List.length_cons] at hvalue
    have hmax : max (max stack.length (stack.length + 1 + j.depth)) (stack.length + depthOfItems js) =
        stack.length + depthOfItems (j :: js) := by
      rw [depthOfItems]
      omega
    calc (within limit stack.length >>= fun _ =>
          (tokensOfItems (j :: js) ++ ts).foldlM (step limit) (.after (.array done :: stack)))
        = within limit stack.length >>= fun _ => (j.tokensOf ++ (tokensOfItems js ++ ts)).foldlM
            (step limit) (.value (.array done :: stack)) := by
          rw [tokensOfItems, List.cons_append, List.append_assoc]
          rfl
      _ = within limit (max stack.length (stack.length + 1 + j.depth)) >>= fun _ =>
            within limit stack.length >>= fun _ => (tokensOfItems js ++ ts).foldlM (step limit)
              (.after (.array (done ++ [j.reread]) :: stack)) := by
          rw [hvalue, within_bind_within, within_bind_within, Nat.max_assoc, Nat.max_comm _ stack.length,
            ← Nat.max_assoc, Nat.max_self]
      _ = _ := by
          rw [ih hitems.2, within_bind_within, hmax, rereadItems, List.append_assoc,
            List.singleton_append]

/-- A key above those of the members so far. -/
def Above (done : List (Bytes × Json)) (k : Bytes) : Prop :=
  ∀ p ∈ done, Bytes.ble p.1 k = true ∧ p.1 ≠ k

theorem parses_member {v : Json} (hv : ParsesAs limit v) {k : Bytes} {done : List (Bytes × Json)}
    (hk : Above done k) (p : Parser) (stack : List Frame)
    (hp : step limit p (.string k) = startMember limit (.object done :: stack) (.string k))
    (ts : List Token) :
    ((.string k :: .nameSeparator :: (v.tokensOf ++ ts)).foldlM (step limit) p) =
      within limit (stack.length + 1 + v.depth) >>= fun _ =>
        ts.foldlM (step limit) (.after (.object (done ++ [(k, v.reread)]) :: stack)) := by
  have hvalue := hv _ _ (starts_value limit (.member done k :: stack)) ts
  have hdelivered : deliver v.reread (.member done k :: stack) =
      .after (.object (done ++ [(k, v.reread)]) :: stack) := by
    show Parser.after (.object (Assoc.insertSorted Bytes.ble k v.reread done) :: stack) = _
    rw [Assoc.insertSorted_append Bytes.ble_order _ hk]
  rw [hdelivered, List.length_cons] at hvalue
  calc ((.string k :: .nameSeparator :: (v.tokensOf ++ ts)).foldlM (step limit) p)
      = within limit (stack.length + 1) >>= fun _ =>
          (v.tokensOf ++ ts).foldlM (step limit) (.value (.member done k :: stack)) := by
        rw [List.foldlM_cons, hp]
        show (within limit (stack.length + 1) >>= fun _ => _) >>= _ = _
        rw [bind_assoc]
        rfl
    _ = _ := by
        rw [hvalue, within_bind_within, Nat.max_eq_right (Nat.le_add_right _ _)]

theorem parses_fields {fields : List (Bytes × Json)} (hfields : ∀ f ∈ fields, ParsesAs limit f.2)
    (hsorted : Assoc.Sorted Bytes.ble fields) (done : List (Bytes × Json))
    (hdone : ∀ f ∈ fields, Above done f.1) (stack : List Frame) (ts : List Token) :
    (within limit stack.length >>= fun _ =>
      (tokensOfFields fields ++ ts).foldlM (step limit) (.after (.object done :: stack))) =
      within limit (stack.length + depthOfFields fields) >>= fun _ =>
        ts.foldlM (step limit) (.after (.object (done ++ rereadFields fields) :: stack)) := by
  induction fields generalizing done with
  | nil =>
    rw [rereadFields, List.append_nil]
    rfl
  | cons f fs ih =>
    obtain ⟨k, v⟩ := f
    rw [List.forall_mem_cons] at hfields hdone
    obtain ⟨hbelow, hrest⟩ := List.pairwise_cons.mp hsorted
    have hmember := parses_member hfields.1 hdone.1 (.key (.object done :: stack)) stack rfl
      (tokensOfFields fs ++ ts)
    have hnext : ∀ g ∈ fs, Above (done ++ [(k, v.reread)]) g.1 := by
      intro g hg
      refine List.forall_mem_append.mpr ⟨hdone.2 g hg, List.forall_mem_singleton.mpr ?_⟩
      exact hbelow g hg
    have hmax : max (max stack.length (stack.length + 1 + v.depth)) (stack.length + depthOfFields fs) =
        stack.length + depthOfFields ((k, v) :: fs) := by
      rw [depthOfFields]
      omega
    calc (within limit stack.length >>= fun _ =>
          (tokensOfFields ((k, v) :: fs) ++ ts).foldlM (step limit) (.after (.object done :: stack)))
        = within limit stack.length >>= fun _ =>
            (.string k :: .nameSeparator :: (v.tokensOf ++ (tokensOfFields fs ++ ts))).foldlM
              (step limit) (.key (.object done :: stack)) := by
          rw [tokensOfFields, List.cons_append, List.cons_append, List.cons_append, List.append_assoc]
          rfl
      _ = within limit (max stack.length (stack.length + 1 + v.depth)) >>= fun _ =>
            within limit stack.length >>= fun _ => (tokensOfFields fs ++ ts).foldlM (step limit)
              (.after (.object (done ++ [(k, v.reread)]) :: stack)) := by
          rw [hmember, within_bind_within, within_bind_within, Nat.max_assoc,
            Nat.max_comm _ stack.length, ← Nat.max_assoc, Nat.max_self]
      _ = _ := by
          rw [ih hfields.2 hrest _ hnext, within_bind_within, hmax, rereadFields, List.append_assoc,
            List.singleton_append]

theorem parsesAs_int (i : Int64) : ParsesAs limit (.int i) := by
  apply parsesAs_scalar (show tokensOf (.int i) = [integerToken i.toInt] from rfl) rfl
  unfold integerToken reread
  by_cases hneg : i.toInt < 0
  · rw [if_pos hneg, if_pos hneg, Int64.ofInt_toInt]
    rfl
  · rw [if_neg hneg, if_neg hneg]
    rfl

theorem parsesAs_uint (n : UInt64) : ParsesAs limit (.uint n) := by
  apply parsesAs_scalar (show tokensOf (.uint n) = [integerToken n.toNat] from rfl) rfl
  have hsame : integerToken n.toNat = .unsigned n := by
    unfold integerToken
    rw [if_neg (by omega), Int.natAbs_natCast, UInt64.ofNat_toNat]
  rw [hsame]
  rfl

theorem parsesAs_float (x : Float) : ParsesAs limit (.float x) := by
  by_cases hfinite : x.isFinite = true
  · have htokens : tokensOf (.float x) = [.float x] := by rw [tokensOf, if_pos hfinite]
    apply parsesAs_scalar htokens
    · rfl
    · rw [scalar, reread, if_pos hfinite, if_pos hfinite]
  · have htokens : tokensOf (.float x) = [.literalNull] := by rw [tokensOf, if_neg hfinite]
    apply parsesAs_scalar htokens
    · rfl
    · rw [scalar, reread, if_neg hfinite]

theorem parsesAs_arr {items : List Json} (hitems : ∀ j ∈ items, ParsesAs limit j) :
    ParsesAs limit (.arr items) := by
  intro p stack hp ts
  have hopen : step limit p .beginArray =
      within limit stack.length >>= fun _ => pure (.element (.array [] :: stack)) :=
    hp .beginArray (by intro h; cases h)
  cases items with
  | nil =>
    rw [tokensOf, List.cons_append, List.foldlM_cons, hopen, bind_assoc]
    rfl
  | cons j js =>
    rw [List.forall_mem_cons] at hitems
    have hfirst := hitems.1 _ _ (starts_element limit [] stack)
      (tokensOfItems js ++ (.endArray :: ts))
    have hothers := parses_items hitems.2 [j.reread] stack (.endArray :: ts)
    have hdelivered : deliver j.reread (.array [] :: stack) = .after (.array [j.reread] :: stack) :=
      rfl
    rw [hdelivered, List.length_cons] at hfirst
    have hmax : max (max stack.length (stack.length + 1 + j.depth))
        (stack.length + depthOfItems js) = stack.length + (Json.arr (j :: js)).depth := by
      rw [depth, depthOfItems]
      omega
    calc ((Json.arr (j :: js)).tokensOf ++ ts).foldlM (step limit) p
        = within limit stack.length >>= fun _ =>
            (j.tokensOf ++ (tokensOfItems js ++ (.endArray :: ts))).foldlM (step limit)
              (.element (.array [] :: stack)) := by
          rw [tokensOf, List.cons_append, List.foldlM_cons, hopen, bind_assoc]
          simp only [List.append_assoc, List.singleton_append]
          rfl
      _ = within limit (max stack.length (stack.length + 1 + j.depth)) >>= fun _ =>
            within limit stack.length >>= fun _ =>
              (tokensOfItems js ++ (.endArray :: ts)).foldlM (step limit)
                (.after (.array [j.reread] :: stack)) := by
          rw [hfirst, within_bind_within, within_bind_within, Nat.max_assoc,
            Nat.max_comm _ stack.length, ← Nat.max_assoc, Nat.max_self]
      _ = _ := by
          rw [hothers, within_bind_within, hmax]
          rfl

theorem parsesAs_obj {fields : List (Bytes × Json)} (hsorted : Assoc.Sorted Bytes.ble fields)
    (hfields : ∀ f ∈ fields, ParsesAs limit f.2) : ParsesAs limit (.obj fields) := by
  intro p stack hp ts
  have hopen : step limit p .beginObject =
      within limit stack.length >>= fun _ => pure (.firstKey (.object [] :: stack)) :=
    hp .beginObject (by intro h; cases h)
  cases fields with
  | nil =>
    rw [tokensOf, List.cons_append, List.foldlM_cons, hopen, bind_assoc]
    rfl
  | cons f fs =>
    obtain ⟨k, v⟩ := f
    rw [List.forall_mem_cons] at hfields
    obtain ⟨hbelow, hrest⟩ := List.pairwise_cons.mp hsorted
    have hfirst := parses_member hfields.1 (List.forall_mem_nil _ : Above [] k)
      (.firstKey (.object [] :: stack)) stack rfl (tokensOfFields fs ++ (.endObject :: ts))
    have hothers := parses_fields hfields.2 hrest [(k, v.reread)]
      (fun g hg => List.forall_mem_singleton.mpr (hbelow g hg)) stack (.endObject :: ts)
    have hmax : max (max stack.length (stack.length + 1 + v.depth))
        (stack.length + depthOfFields fs) = stack.length + (Json.obj ((k, v) :: fs)).depth := by
      rw [depth, depthOfFields]
      omega
    calc ((Json.obj ((k, v) :: fs)).tokensOf ++ ts).foldlM (step limit) p
        = within limit stack.length >>= fun _ =>
            (.string k :: .nameSeparator :: (v.tokensOf ++
              (tokensOfFields fs ++ (.endObject :: ts)))).foldlM (step limit)
              (.firstKey (.object [] :: stack)) := by
          rw [tokensOf, List.cons_append, List.foldlM_cons, hopen, bind_assoc]
          simp only [List.cons_append, List.append_assoc, List.nil_append]
          rfl
      _ = within limit (max stack.length (stack.length + 1 + v.depth)) >>= fun _ =>
            within limit stack.length >>= fun _ =>
              (tokensOfFields fs ++ (.endObject :: ts)).foldlM (step limit)
                (.after (.object [(k, v.reread)] :: stack)) := by
          rw [hfirst, List.nil_append, within_bind_within, within_bind_within, Nat.max_assoc,
            Nat.max_comm _ stack.length, ← Nat.max_assoc, Nat.max_self]
      _ = _ := by
          rw [hothers, within_bind_within, hmax]
          rfl

/-- **What the parser makes of a value's tokens.** -/
theorem foldlM_tokensOf {j : Json} (hj : j.Canonical) : ParsesAs limit j := by
  induction j using Json.induction with
  | null => exact parsesAs_scalar rfl rfl rfl
  | bool b =>
    cases b
    · exact parsesAs_scalar rfl rfl rfl
    · exact parsesAs_scalar rfl rfl rfl
  | int i => exact parsesAs_int i
  | uint n => exact parsesAs_uint n
  | float x => exact parsesAs_float x
  | str s => exact parsesAs_scalar rfl rfl rfl
  | arr items ih =>
    cases hj with
    | arr hitems => exact parsesAs_arr fun j hj => ih j hj (hitems j hj)
  | obj fields ih =>
    cases hj with
    | obj hsorted hfields => exact parsesAs_obj hsorted fun f hf => ih f hf (hfields f hf)

end Parsing

/-! ### The round trip -/

theorem skipBom_of_lexed {s rest : Bytes} {token : Token} {ts : List Token}
    (h : Lexed s (token :: ts) rest) : skipBom s = s := by
  unfold skipBom
  split
  · rename_i tail
    cases h with
    | cons hnext hproper _ _ => exact absurd (congrArg Prod.fst hnext).symm hproper.2
  · rfl

theorem tokensOf_ne_nil (j : Json) : ∃ token ts, j.tokensOf = token :: ts := by
  cases j with
  | arr items => cases items <;> exact ⟨_, _, rfl⟩
  | obj fields =>
    cases fields with
    | nil => exact ⟨_, _, rfl⟩
    | cons f fs => exact ⟨_, _, rfl⟩
  | _ => exact ⟨_, _, rfl⟩

section RoundTrip
variable [Platform] {limit : Option DepthLimit}

theorem parse_append (limit : Option DepthLimit) {j : Json} (hj : j.Canonical)
    (hfloats : j.FloatsReadBack) {t : Bytes} (h : j.dump = .ok t) {rest : Bytes} (hrest : EndsNumber rest) :
    ∃ fuel, 0 < fuel ∧ parse limit (t ++ rest) = within limit j.depth >>= fun _ =>
      (tokens fuel rest).foldlM (step limit) (.done j.reread) >>= fun p => match p with
        | .finished v => .ok v
        | _ => .error (.json .parse) := by
  have hlexed := lexed_dump hfloats t h rest hrest
  have hlength := hlexed.length_le
  have htokens := hlexed.tokens ((t ++ rest).length + 1 - j.tokensOf.length)
  rw [Nat.add_sub_cancel' (by omega)] at htokens
  refine ⟨(t ++ rest).length + 1 - j.tokensOf.length, by omega, ?_⟩
  have hbom : skipBom (t ++ rest) = t ++ rest := by
    obtain ⟨token, ts, hts⟩ := tokensOf_ne_nil j
    rw [hts] at hlexed
    exact skipBom_of_lexed hlexed
  have hparse := foldlM_tokensOf hj (.value []) [] (starts_value limit [])
  rw [parse, hbom, htokens, hparse, List.length_nil, Nat.zero_add, bind_assoc]
  rfl

/-- **A serialized value is read back, or the callback throws.** -/
theorem parse_dump {j : Json} (hj : j.Canonical) (hfloats : j.FloatsReadBack) {t : Bytes}
    (h : j.dump = .ok t) : parse limit t = within limit j.depth >>= fun _ => .ok j.reread := by
  obtain ⟨fuel, hfuel, hparse⟩ := parse_append limit hj hfloats h endsNumber_nil
  cases fuel with
  | zero => omega
  | succ fuel =>
    rw [List.append_nil] at hparse
    rw [hparse]
    rfl

theorem parse_append_error {j : Json} (hj : j.Canonical) (hfloats : j.FloatsReadBack) {t : Bytes}
    (h : j.dump = .ok t) {rest tail : Bytes} (hrest : EndsNumber rest)
    (herror : nextToken rest = (.parseError, tail)) : ∃ e, parse limit (t ++ rest) = .error e := by
  obtain ⟨fuel, hfuel, hparse⟩ := parse_append limit hj hfloats h hrest
  cases fuel with
  | zero => omega
  | succ fuel =>
    rw [tokens, herror] at hparse
    rw [hparse]
    cases within limit j.depth with
    | error e => exact ⟨e, rfl⟩
    | ok u => exact ⟨_, rfl⟩

end RoundTrip

/-! ### What comes back -/

theorem beq_self_of_isFinite {x : Float} (h : x.isFinite = true) : (x == x) = true := by
  have hmodel : ∀ u : Float.Model.UnpackedFloat, u.isFinite = true → u.beq u = true := by
    intro u hu
    cases u with
    | notANumber => cases hu
    | infinity s => cases hu
    | zero s => rfl
    | finite s m e h =>
      have hself : (compare e e).then (compare m m) = .eq := by
        rw [Std.compare_self, Std.compare_self]
        rfl
      cases s with
      | positive => exact congrArg (fun o => some o == some Ordering.eq) hself
      | negative => exact congrArg (fun o => some o.swap == some Ordering.eq) hself
  exact hmodel _ h

/-- Every number of the value is finite. -/
def Finite (j : Json) : Prop := ∀ x ∈ j.floats, x.isFinite = true

theorem finite_arr {items : List Json} : (Json.arr items).Finite ↔ ∀ j ∈ items, j.Finite := by
  simp only [Finite, floats, floatsOfItems_eq, List.mem_flatMap]
  exact ⟨fun h j hj x hx => h x ⟨j, hj, hx⟩, fun h x ⟨j, hj, hx⟩ => h j hj x hx⟩

theorem finite_obj {fields : List (Bytes × Json)} :
    (Json.obj fields).Finite ↔ ∀ f ∈ fields, f.2.Finite := by
  simp only [Finite, floats, floatsOfFields_eq, List.mem_flatMap]
  exact ⟨fun h f hf x hx => h x ⟨f, hf, hx⟩, fun h x ⟨f, hf, hx⟩ => h f hf x hx⟩

theorem Finite.eqv_self {j : Json} (h : j.Finite) : j.eqv j = true := by
  induction j using Json.induction with
  | null => rfl
  | bool b => exact beq_self_eq_true b
  | int i => exact beq_self_eq_true i
  | uint n => exact beq_self_eq_true n
  | float x => exact beq_self_of_isFinite (h x (List.mem_singleton_self x))
  | str s => exact beq_self_eq_true s
  | arr items ih =>
    have hitems := finite_arr.mp h
    clear h
    show eqvItems items items = true
    induction items with
    | nil => rfl
    | cons j js ihs =>
      rw [List.forall_mem_cons] at ih hitems
      rw [eqvItems, ih.1 hitems.1, ihs ih.2 hitems.2]
      rfl
  | obj fields ih =>
    have hfields := finite_obj.mp h
    clear h
    show eqvFields fields fields = true
    induction fields with
    | nil => rfl
    | cons f fs ihs =>
      rw [List.forall_mem_cons] at ih hfields
      rw [eqvFields, ih.1 hfields.1, ihs ih.2 hfields.2, beq_self_eq_true]
      rfl

theorem eqvItems_reread {items : List Json}
    (h : ∀ j ∈ items, j.eqv j.reread = true ↔ j.Finite) :
    eqvItems items (rereadItems items) = true ↔ ∀ j ∈ items, j.Finite := by
  induction items with
  | nil => exact ⟨fun _ => List.forall_mem_nil _, fun _ => rfl⟩
  | cons j js ih =>
    rw [List.forall_mem_cons] at h ⊢
    rw [rereadItems, eqvItems, Bool.and_eq_true, h.1, ih h.2]

theorem eqvFields_reread {fields : List (Bytes × Json)}
    (h : ∀ f ∈ fields, f.2.eqv f.2.reread = true ↔ f.2.Finite) :
    eqvFields fields (rereadFields fields) = true ↔ ∀ f ∈ fields, f.2.Finite := by
  induction fields with
  | nil => exact ⟨fun _ => List.forall_mem_nil _, fun _ => rfl⟩
  | cons f fs ih =>
    rw [List.forall_mem_cons] at h ⊢
    rw [rereadFields, eqvFields, Bool.and_eq_true, Bool.and_eq_true, h.1, ih h.2, beq_self_eq_true]
    simp only [true_and]

/-- **What comes back equals the value exactly where its numbers are finite.** -/
theorem eqv_reread_iff {j : Json} : j.eqv j.reread = true ↔ j.Finite := by
  have hnone : ∀ {j : Json}, j.floats = [] → j.Finite := by
    intro j hj x hx
    rw [hj] at hx
    cases hx
  induction j using Json.induction with
  | null => exact ⟨fun _ => hnone rfl, fun _ => rfl⟩
  | bool b => exact ⟨fun _ => hnone rfl, fun _ => beq_self_eq_true b⟩
  | int i =>
    refine ⟨fun _ => hnone rfl, fun _ => ?_⟩
    unfold reread
    by_cases hneg : i.toInt < 0
    · rw [if_pos hneg]
      exact beq_self_eq_true i
    · rw [if_neg hneg]
      show (i == (UInt64.ofNat i.toInt.natAbs).toInt64) = true
      rw [beq_iff_eq, UInt64.toInt64_ofNat', ← Int64.ofInt_eq_ofNat,
        show ((i.toInt.natAbs : Nat) : Int) = i.toInt by omega, Int64.ofInt_toInt]
  | uint n => exact ⟨fun _ => hnone rfl, fun _ => beq_self_eq_true n⟩
  | float x =>
    rw [show (Json.float x).Finite ↔ x.isFinite = true from List.forall_mem_singleton]
    unfold reread
    by_cases hfinite : x.isFinite = true
    · rw [if_pos hfinite]
      exact ⟨fun _ => hfinite, fun _ => beq_self_of_isFinite hfinite⟩
    · rw [if_neg hfinite]
      exact ⟨fun h => (by cases h), fun h => absurd h hfinite⟩
  | str s => exact ⟨fun _ => hnone rfl, fun _ => beq_self_eq_true s⟩
  | arr items ih =>
    rw [finite_arr]
    exact eqvItems_reread ih
  | obj fields ih =>
    rw [finite_obj]
    exact eqvFields_reread ih

end ContextHmi.Json
