import ContextHmi.Json.Cut
import ContextHmi.Json.Grammar
import ContextHmi.Runtime.Loading

/-!
# The nesting guard

`inspect_json_shape` reads a text without its grammar. On the texts that are JSON it tells those that
nest at most 32 deep from the others, and on the texts it lets pass the parser never opens more than 32
containers.

* `passes_of_derives`   : what the scanner makes of each part of a JSON text;
* `inspect_nextToken`   : what it makes of what the lexer takes for a token;
* `parse_nestsWithin`   : a value parsed after the guard nests at most 32 deep;
* `nesting_guard_exact` : all of it, for the request bodies and the model files.
-/

namespace ContextHmi.Runtime

open Outcome Json Json.Grammar

/-! ### The scanner on a part of a text -/

/-- A byte that changes nothing outside strings. -/
def Plain (c : UInt8) : Prop := c ≠ 0x22 ∧ c ≠ 0x7b ∧ c ≠ 0x5b ∧ c ≠ 0x7d ∧ c ≠ 0x5d

instance Plain.instDecidable (c : UInt8) : Decidable (Plain c) := by
  unfold Plain
  infer_instance

theorem plain_of_all {s : Bytes} (h : (s.all fun c => decide (Plain c)) = true) :
    ∀ c ∈ s, Plain c := fun c hc => of_decide_eq_true (List.all_eq_true.mp h c hc)

theorem inspectFrom_plain {s : Bytes} (hs : ∀ c ∈ s, Plain c) (depth : Nat) (rest : Bytes) :
    inspectFrom depth false false (s ++ rest) = inspectFrom depth false false rest := by
  induction s with
  | nil => rfl
  | cons c s ih =>
    rw [List.forall_mem_cons] at hs
    obtain ⟨⟨hquote, hbrace, hbracket, hbrace', hbracket'⟩, hs⟩ := hs
    rw [List.cons_append, inspectFrom, if_neg Bool.false_ne_true, if_neg hquote,
      if_neg (not_or.mpr ⟨hbrace, hbracket⟩), if_neg (not_or.mpr ⟨hbrace', hbracket'⟩), ih hs]

theorem inspectFrom_open {c : UInt8} (hc : c = 0x7b ∨ c = 0x5b) (depth : Nat) (rest : Bytes) :
    inspectFrom depth false false (c :: rest) =
      if 32 < depth + 1 then .tooDeep else inspectFrom (depth + 1) false false rest := by
  have hquote : c ≠ 0x22 := by
    rcases hc with rfl | rfl <;> decide
  rw [inspectFrom, if_neg Bool.false_ne_true, if_neg hquote, if_pos hc]

theorem inspectFrom_close {c : UInt8} (hc : c = 0x7d ∨ c = 0x5d) (depth : Nat) (rest : Bytes) :
    inspectFrom depth false false (c :: rest) =
      if depth = 0 then .incomplete else inspectFrom (depth - 1) false false rest := by
  have hquote : c ≠ 0x22 := by
    rcases hc with rfl | rfl <;> decide
  have hopen : ¬ (c = 0x7b ∨ c = 0x5b) := by
    rcases hc with rfl | rfl <;> decide
  rw [inspectFrom, if_neg Bool.false_ne_true, if_neg hquote, if_neg hopen, if_pos hc]

theorem inspectFrom_quote (depth : Nat) (rest : Bytes) :
    inspectFrom depth false false (0x22 :: rest) = inspectFrom depth true false rest := by
  rw [inspectFrom, if_neg Bool.false_ne_true, if_pos rfl]

theorem inspectFrom_quoted {s : Bytes} (hs : ∀ c ∈ s, c ≠ 0x22 ∧ c ≠ 0x5c) (depth : Nat)
    (rest : Bytes) : inspectFrom depth true false (s ++ rest) = inspectFrom depth true false rest := by
  induction s with
  | nil => rfl
  | cons c s ih =>
    rw [List.forall_mem_cons] at hs
    obtain ⟨⟨hquote, hslash⟩, hs⟩ := hs
    rw [List.cons_append, inspectFrom, if_pos rfl, if_neg Bool.false_ne_true, if_neg hslash,
      decide_eq_true hquote, ih hs]

theorem inspectFrom_escaped (depth : Nat) (e : UInt8) (rest : Bytes) :
    inspectFrom depth true false (0x5c :: e :: rest) = inspectFrom depth true false rest := by
  rw [inspectFrom, if_pos rfl, if_neg Bool.false_ne_true, if_pos rfl, inspectFrom, if_pos rfl,
    if_pos rfl]

theorem inspectFrom_unquote (depth : Nat) (rest : Bytes) :
    inspectFrom depth true false (0x22 :: rest) = inspectFrom depth false false rest := by
  rw [inspectFrom, if_pos rfl, if_neg Bool.false_ne_true, if_neg (by decide)]
  rfl

theorem isHex_ordinary {c : UInt8} : IsHex c → c ≠ 0x22 ∧ c ≠ 0x5c := by
  intro h
  refine ⟨?_, ?_⟩
  · rintro rfl
    exact Bool.false_ne_true h
  · rintro rfl
    exact Bool.false_ne_true h

theorem inspectFrom_characters {s : Bytes} (hs : Characters s) (depth : Nat) (rest : Bytes) :
    inspectFrom depth true false (s ++ 0x22 :: rest) = inspectFrom depth false false rest := by
  induction hs with
  | nil => exact inspectFrom_unquote depth rest
  | plain _ hordinary _ ih =>
    rw [List.append_assoc, inspectFrom_quoted fun c hc => (hordinary c hc).2, ih]
  | escape _ _ ih =>
    rw [List.cons_append, List.cons_append, inspectFrom_escaped, ih]
  | @unicode h₁ h₂ h₃ h₄ s hh₁ hh₂ hh₃ hh₄ _ ih =>
    have hdigits : ∀ c ∈ [h₁, h₂, h₃, h₄], c ≠ 0x22 ∧ c ≠ 0x5c := by
      simp only [List.forall_mem_cons, List.not_mem_nil, false_implies, implies_true, and_true]
      exact ⟨isHex_ordinary hh₁, isHex_ordinary hh₂, isHex_ordinary hh₃, isHex_ordinary hh₄⟩
    have hfour : 0x5c :: 0x75 :: h₁ :: h₂ :: h₃ :: h₄ :: s ++ 0x22 :: rest =
        0x5c :: 0x75 :: ([h₁, h₂, h₃, h₄] ++ (s ++ 0x22 :: rest)) := rfl
    rw [hfour, inspectFrom_escaped, inspectFrom_quoted hdigits, ih]

/-- The scanner gets past `s`, which nests `n` deep, unless that is too deep where it stands. -/
def Passes (n : Nat) (s : Bytes) : Prop :=
  ∀ depth ≤ 32, ∀ rest, inspectFrom depth false false (s ++ rest) =
    if depth + n ≤ 32 then inspectFrom depth false false rest else .tooDeep

theorem passes_plain {s : Bytes} (hs : ∀ c ∈ s, Plain c) : Passes 0 s := by
  intro depth hdepth rest
  rw [inspectFrom_plain hs, Nat.add_zero, if_pos hdepth]

theorem Passes.append {m n : Nat} {s t : Bytes} (hs : Passes m s) (ht : Passes n t) :
    Passes (max m n) (s ++ t) := by
  intro depth hdepth rest
  rw [List.append_assoc, hs depth hdepth]
  by_cases hm : depth + m ≤ 32
  · rw [if_pos hm, ht depth hdepth]
    by_cases hn : depth + n ≤ 32
    · rw [if_pos hn, if_pos (by omega)]
    · rw [if_neg hn, if_neg (by omega)]
  · rw [if_neg hm, if_neg (by omega)]

theorem Passes.append_plain {n : Nat} {s t : Bytes} (hs : Passes n s) (ht : ∀ c ∈ t, Plain c) :
    Passes n (s ++ t) := by
  have h := hs.append (passes_plain ht)
  rwa [Nat.max_zero] at h

theorem Passes.plain_append {n : Nat} {s t : Bytes} (hs : ∀ c ∈ s, Plain c) (ht : Passes n t) :
    Passes n (s ++ t) := by
  have h := (passes_plain hs).append ht
  rwa [Nat.zero_max] at h

theorem Passes.container {n : Nat} {s : Bytes} {c c' : UInt8} (hs : Passes n s)
    (hc : c = 0x7b ∨ c = 0x5b) (hc' : c' = 0x7d ∨ c' = 0x5d) : Passes (n + 1) (c :: (s ++ [c'])) := by
  intro depth hdepth rest
  rw [List.cons_append, List.append_assoc, inspectFrom_open hc]
  by_cases hopen : 32 < depth + 1
  · rw [if_pos hopen, if_neg (by omega)]
  · rw [if_neg hopen, hs (depth + 1) (by omega)]
    by_cases hn : depth + 1 + n ≤ 32
    · rw [if_pos hn, if_pos (by omega), List.singleton_append, inspectFrom_close hc',
        if_neg (Nat.succ_ne_zero depth), Nat.add_sub_cancel]
    · rw [if_neg hn, if_neg (by omega)]

theorem passes_quote {s : Bytes} (hs : Characters s) : Passes 0 (quote s) := by
  intro depth hdepth rest
  rw [quote, List.cons_append, List.append_assoc, inspectFrom_quote, List.singleton_append,
    inspectFrom_characters hs, Nat.add_zero, if_pos hdepth]

theorem plain_of_isBlank {c : UInt8} : isBlank c = true → Plain c :=
  Bytes.forall_byte (p := fun c => isBlank c = true → Plain c) (by decide +kernel) c

theorem plain_of_isDigit {c : UInt8} : Bytes.isDigit c = true → Plain c :=
  Bytes.forall_byte (p := fun c => Bytes.isDigit c = true → Plain c) (by decide +kernel) c

theorem plain_of_blank {s : Bytes} (h : Blank s) : ∀ c ∈ s, Plain c :=
  fun c hc => plain_of_isBlank (h c hc)

theorem plain_of_number {s : Bytes} (h : Number s) : ∀ c ∈ s, Plain c := by
  obtain ⟨hsign, hwhole, -, hfraction, hexponent⟩ := h
  simp only [List.forall_mem_append]
  refine ⟨⟨⟨?_, fun c hc => plain_of_isDigit (hwhole.2 c hc)⟩, ?_⟩, ?_⟩
  · rcases hsign with rfl | rfl <;> exact plain_of_all (by decide)
  · rcases hfraction with rfl | ⟨digits, hdigits, rfl⟩
    · exact List.forall_mem_nil _
    · exact List.forall_mem_cons.mpr ⟨by decide, fun c hc => plain_of_isDigit (hdigits.2 c hc)⟩
  · rcases hexponent with rfl | ⟨e, plus, digits, he, hplus, hdigits, rfl⟩
    · exact List.forall_mem_nil _
    · rw [List.forall_mem_cons, List.forall_mem_append]
      refine ⟨?_, ?_, fun c hc => plain_of_isDigit (hdigits.2 c hc)⟩
      · rcases he with rfl | rfl <;> decide
      · rcases hplus with rfl | rfl | rfl <;> exact plain_of_all (by decide)

/-- **What the scanner makes of each part of a JSON text.** -/
theorem passes_of_derives {part : Part} {n : Nat} {s : Bytes} (h : Derives part n s) : Passes n s := by
  induction h with
  | literalTrue => exact passes_plain (plain_of_all (by decide))
  | literalFalse => exact passes_plain (plain_of_all (by decide))
  | literalNull => exact passes_plain (plain_of_all (by decide))
  | number hs => exact passes_plain (plain_of_number hs)
  | string hs => exact passes_quote hs
  | emptyArray hw => exact (passes_plain (plain_of_blank hw)).container (.inr rfl) (.inr rfl)
  | array _ ih => exact ih.container (.inr rfl) (.inr rfl)
  | emptyObject hw => exact (passes_plain (plain_of_blank hw)).container (.inl rfl) (.inl rfl)
  | object _ ih => exact ih.container (.inl rfl) (.inl rfl)
  | element hw _ hw' ih =>
    exact (Passes.plain_append (plain_of_blank hw) ih).append_plain (plain_of_blank hw')
  | elements _ hw _ hw' ihs ihv =>
    exact (ihs.append_plain (plain_of_all (by decide))).append
      ((Passes.plain_append (plain_of_blank hw) ihv).append_plain (plain_of_blank hw'))
  | member hw hk hw' hu _ hu' ih =>
    have hkey := ((Passes.plain_append (plain_of_blank hw) (passes_quote hk)).append_plain
      (plain_of_blank hw')).append_plain (t := [0x3a]) (plain_of_all (by decide))
    have hvalue := (Passes.plain_append (plain_of_blank hu) ih).append_plain (plain_of_blank hu')
    have hmember := hkey.append hvalue
    rwa [Nat.zero_max] at hmember
  | members _ hw hk hw' hu _ hu' ihs ihv =>
    have hkey := ((Passes.plain_append (plain_of_blank hw) (passes_quote hk)).append_plain
      (plain_of_blank hw')).append_plain (t := [0x3a]) (plain_of_all (by decide))
    have hvalue := (Passes.plain_append (plain_of_blank hu) ihv).append_plain (plain_of_blank hu')
    have hmember := hkey.append hvalue
    rw [Nat.zero_max] at hmember
    exact (ihs.append_plain (plain_of_all (by decide))).append hmember

theorem inspectJsonShape_of_isText {n : Nat} {s : Bytes} (h : Grammar.IsText n s) :
    inspectJsonShape s = if n ≤ 32 then .ok else .tooDeep := by
  obtain ⟨hw, hv, hw'⟩ := h
  have hpasses := (Passes.plain_append (plain_of_blank hw) (passes_of_derives hv)).append_plain
    (plain_of_blank hw')
  have hall := hpasses 0 (Nat.zero_le _) []
  rwa [List.append_nil, Nat.zero_add] at hall

/-! ### The scanner on what the lexer takes -/

theorem push_eq_some {s text rest : Bytes} {scanned : Option (Bytes × Bytes)}
    (h : push s scanned = some (text, rest)) : ∃ t, scanned = some (t, rest) := by
  obtain ⟨⟨t, r⟩, ht, heq⟩ := Option.map_eq_some_iff.mp h
  obtain ⟨-, rfl⟩ := Prod.mk.inj heq
  exact ⟨t, ht⟩

theorem inspectFrom_codepoint {a b c d : UInt8} {cp : Nat} (h : codepoint a b c d = some cp)
    (depth : Nat) (rest : Bytes) :
    inspectFrom depth true false (a :: b :: c :: d :: rest) = inspectFrom depth true false rest := by
  simp only [codepoint, Option.bind_eq_bind, Option.bind_eq_some_iff] at h
  obtain ⟨_, ha, _, hb, _, hc, _, hd, -⟩ := h
  have hdigits : ∀ x ∈ [a, b, c, d], x ≠ 0x22 ∧ x ≠ 0x5c := by
    simp only [List.forall_mem_cons, List.not_mem_nil, false_implies, implies_true, and_true]
    exact ⟨isHex_ordinary (Option.isSome_of_eq_some ha), isHex_ordinary (Option.isSome_of_eq_some hb),
      isHex_ordinary (Option.isSome_of_eq_some hc), isHex_ordinary (Option.isSome_of_eq_some hd)⟩
  exact inspectFrom_quoted hdigits depth rest

theorem ordinary_of_wide {c : UInt8} (h : ¬ c < 0x80) : c ≠ 0x22 ∧ c ≠ 0x5c := by
  refine ⟨?_, ?_⟩
  · rintro rfl
    exact h (by decide)
  · rintro rfl
    exact h (by decide)

theorem inspectFrom_wide {s : Bytes} (hs : ∀ c ∈ s, ¬ c < 0x80) (depth : Nat) (rest : Bytes) :
    inspectFrom depth true false (s ++ rest) = inspectFrom depth true false rest :=
  inspectFrom_quoted (fun c hc => ordinary_of_wide (hs c hc)) depth rest

/-- **The scanner leaves a string where the lexer does.** -/
theorem inspectFrom_scanString {s text rest : Bytes} (h : scanString s = some (text, rest))
    (depth : Nat) : inspectFrom depth true false s = inspectFrom depth false false rest := by
  fun_induction scanString s generalizing text rest
  case case2 =>
    obtain ⟨-, rfl⟩ := Prod.mk.inj (Option.some.inj h)
    exact inspectFrom_unquote _ _
  case case6 hcp _ _ _ _ _ _ _ _ hescape _ hlow _ _ ih =>
    obtain ⟨_, hrest⟩ := push_eq_some h
    rw [inspectFrom_escaped, inspectFrom_codepoint hcp, hescape.1, hescape.2, inspectFrom_escaped,
      inspectFrom_codepoint hlow, ih hrest]
  case case11 hcp _ _ _ ih =>
    obtain ⟨_, hrest⟩ := push_eq_some h
    rw [inspectFrom_escaped, inspectFrom_codepoint hcp, ih hrest]
  case case14 ih =>
    obtain ⟨_, hrest⟩ := push_eq_some h
    rw [inspectFrom_escaped, ih hrest]
  case case16 hquote hslash _ _ ih =>
    obtain ⟨_, hrest⟩ := push_eq_some h
    rw [← ih hrest]
    exact inspectFrom_quoted (s := [_]) (List.forall_mem_singleton.mpr ⟨hquote, hslash⟩) _ _
  case case18 hwide _ _ hchar ih =>
    obtain ⟨_, hrest⟩ := push_eq_some h
    rw [Bool.and_eq_true] at hchar
    rw [← ih hrest]
    refine inspectFrom_wide (s := [_, _]) ?_ _ _
    simp only [List.forall_mem_cons, List.not_mem_nil, false_implies, implies_true, and_true]
    exact ⟨hwide, Utf8.not_lt_of_isCont hchar.2⟩
  case case20 hwide _ _ _ _ hchar ih =>
    obtain ⟨_, hrest⟩ := push_eq_some h
    rw [Bool.and_eq_true] at hchar
    rw [← ih hrest]
    refine inspectFrom_wide (s := [_, _, _]) ?_ _ _
    simp only [List.forall_mem_cons, List.not_mem_nil, false_implies, implies_true, and_true]
    exact ⟨hwide, Utf8.not_lt_of_isCont (Utf8.wide3_lead hchar.1).2.2, Utf8.not_lt_of_isCont hchar.2⟩
  case case22 hwide _ _ _ _ _ _ hchar ih =>
    obtain ⟨_, hrest⟩ := push_eq_some h
    rw [Bool.and_eq_true, Bool.and_eq_true] at hchar
    rw [← ih hrest]
    refine inspectFrom_wide (s := [_, _, _, _]) ?_ _ _
    simp only [List.forall_mem_cons, List.not_mem_nil, false_implies, implies_true, and_true]
    exact ⟨hwide, Utf8.not_lt_of_isCont (Utf8.wide4_bytes hchar.1.1).2,
      Utf8.not_lt_of_isCont hchar.1.2, Utf8.not_lt_of_isCont hchar.2⟩
  all_goals cases h

/-- Nothing but plain bytes stands between `s` and the rest of it. -/
def Took (s rest : Bytes) : Prop := ∃ front, s = front ++ rest ∧ ∀ c ∈ front, Plain c

namespace Took

theorem refl (s : Bytes) : Took s s := ⟨[], rfl, List.forall_mem_nil _⟩

theorem cons {c : UInt8} {s rest : Bytes} (hc : Plain c) (h : Took s rest) : Took (c :: s) rest := by
  obtain ⟨front, rfl, hfront⟩ := h
  exact ⟨c :: front, rfl, List.forall_mem_cons.mpr ⟨hc, hfront⟩⟩

theorem dropWhile {p : UInt8 → Bool} (hp : ∀ c, p c = true → Plain c) (s : Bytes) :
    Took s (s.dropWhile p) := by
  refine ⟨s.takeWhile p, (List.takeWhile_append_dropWhile).symm, fun c hc => hp c ?_⟩
  exact List.all_eq_true.mp List.all_takeWhile c hc

theorem inspectFrom {s rest : Bytes} (h : Took s rest) (depth : Nat) :
    Runtime.inspectFrom depth false false s = Runtime.inspectFrom depth false false rest := by
  obtain ⟨front, rfl, hfront⟩ := h
  exact inspectFrom_plain hfront depth rest

end Took

theorem plain_of_isNumberByte {c : UInt8} : IsNumberByte c → Plain c :=
  Bytes.forall_byte (p := fun c => IsNumberByte c → Plain c) (by decide +kernel) c

theorem took_scanNumber {s rest : Bytes} {token : Token} (h : scanNumber s = some (token, rest)) :
    Took s rest := by
  obtain ⟨front, hfront, hbytes⟩ := consumed_scanNumber h
  exact ⟨front, hfront, fun c hc => plain_of_isNumberByte (hbytes c hc)⟩

/-- What the scanner does after a token. -/
def inspectToken (depth : Nat) (token : Token) (rest : Bytes) : JsonShape :=
  match token with
  | .beginArray | .beginObject =>
    if 32 < depth + 1 then .tooDeep else inspectFrom (depth + 1) false false rest
  | .endArray | .endObject =>
    if depth = 0 then .incomplete else inspectFrom (depth - 1) false false rest
  | _ => inspectFrom depth false false rest

theorem inspectToken_number {s rest : Bytes} {token : Token}
    (h : scanNumber s = some (token, rest)) (depth : Nat) :
    inspectToken depth token rest = inspectFrom depth false false rest := by
  have hnumber : ∀ negative whole fraction exponent,
      inspectToken depth (numberToken negative whole fraction exponent) rest =
        inspectFrom depth false false rest := by
    intro negative whole fraction exponent
    unfold numberToken
    simp only
    split
    · split_ifs <;> rfl
    · rfl
  simp only [scanNumber, Option.bind_eq_bind, Option.bind_eq_some_iff, Option.pure_def,
    Option.some.injEq, Prod.mk.injEq] at h
  obtain ⟨_, -, _, -, _, -, rfl, -⟩ := h
  exact hnumber _ _ _ _

/-- The token is one of the text's own. -/
def Scanned (token : Token) : Prop := token ≠ .endOfInput ∧ token ≠ .parseError

theorem inspect_tokenAt {c : UInt8} {s rest : Bytes} {token : Token}
    (h : tokenAt c s = (token, rest)) (htoken : Scanned token) (depth : Nat) :
    inspectFrom depth false false (c :: s) = inspectToken depth token rest := by
  have hliteral : ∀ {letters : Bytes} {t : Token}, (∀ b ∈ letters, Plain b) →
      scanLiteral letters t s = (token, rest) → t = token ∧ Took s rest := by
    intro letters t hletters hscan
    unfold scanLiteral at hscan
    by_cases hprefix : letters.isPrefixOf s = true
    · rw [if_pos hprefix] at hscan
      obtain ⟨htoken, rfl⟩ := Prod.mk.inj hscan
      obtain ⟨tail, rfl⟩ := List.isPrefixOf_iff_prefix.mp hprefix
      exact ⟨htoken, letters, by rw [List.drop_left' rfl], hletters⟩
    · rw [if_neg hprefix] at hscan
      exact absurd (Prod.mk.inj hscan).1.symm htoken.2
  unfold tokenAt at h
  by_cases h₁ : c = 0x5b
  · rw [if_pos h₁] at h
    obtain ⟨rfl, rfl⟩ := Prod.mk.inj h
    exact inspectFrom_open (.inr h₁) depth s
  rw [if_neg h₁] at h
  by_cases h₂ : c = 0x5d
  · rw [if_pos h₂] at h
    obtain ⟨rfl, rfl⟩ := Prod.mk.inj h
    exact inspectFrom_close (.inr h₂) depth s
  rw [if_neg h₂] at h
  by_cases h₃ : c = 0x7b
  · rw [if_pos h₃] at h
    obtain ⟨rfl, rfl⟩ := Prod.mk.inj h
    exact inspectFrom_open (.inl h₃) depth s
  rw [if_neg h₃] at h
  by_cases h₄ : c = 0x7d
  · rw [if_pos h₄] at h
    obtain ⟨rfl, rfl⟩ := Prod.mk.inj h
    exact inspectFrom_close (.inl h₄) depth s
  rw [if_neg h₄] at h
  by_cases h₅ : c = 0x3a
  · rw [if_pos h₅] at h
    obtain ⟨rfl, rfl⟩ := Prod.mk.inj h
    exact (Took.cons (h₅ ▸ by decide) (.refl s)).inspectFrom depth
  rw [if_neg h₅] at h
  by_cases h₆ : c = 0x2c
  · rw [if_pos h₆] at h
    obtain ⟨rfl, rfl⟩ := Prod.mk.inj h
    exact (Took.cons (h₆ ▸ by decide) (.refl s)).inspectFrom depth
  rw [if_neg h₆] at h
  by_cases h₇ : c = 0x74
  · rw [if_pos h₇] at h
    obtain ⟨rfl, htook⟩ := hliteral (plain_of_all (by decide)) h
    exact (Took.cons (h₇ ▸ by decide) htook).inspectFrom depth
  rw [if_neg h₇] at h
  by_cases h₈ : c = 0x66
  · rw [if_pos h₈] at h
    obtain ⟨rfl, htook⟩ := hliteral (plain_of_all (by decide)) h
    exact (Took.cons (h₈ ▸ by decide) htook).inspectFrom depth
  rw [if_neg h₈] at h
  by_cases h₉ : c = 0x6e
  · rw [if_pos h₉] at h
    obtain ⟨rfl, htook⟩ := hliteral (plain_of_all (by decide)) h
    exact (Took.cons (h₉ ▸ by decide) htook).inspectFrom depth
  rw [if_neg h₉] at h
  by_cases hquote : c = 0x22
  · rw [if_pos hquote] at h
    subst hquote
    cases hscan : scanString s with
    | none =>
      rw [hscan] at h
      exact absurd (Prod.mk.inj h).1.symm htoken.2
    | some r =>
      rw [hscan] at h
      obtain ⟨rfl, rfl⟩ := Prod.mk.inj h
      rw [inspectFrom_quote, inspectFrom_scanString hscan]
      rfl
  rw [if_neg hquote] at h
  by_cases hnumber : c = 0x2d ∨ Bytes.isDigit c = true
  · rw [if_pos hnumber] at h
    cases hscan : scanNumber (c :: s) with
    | none =>
      rw [hscan] at h
      exact absurd (Prod.mk.inj h).1.symm htoken.2
    | some r =>
      rw [hscan] at h
      obtain rfl : r = (token, rest) := h
      rw [(took_scanNumber hscan).inspectFrom, inspectToken_number hscan]
  rw [if_neg hnumber] at h
  by_cases hnull : c = 0x00
  · rw [if_pos hnull] at h
    exact absurd (Prod.mk.inj h).1.symm htoken.1
  · rw [if_neg hnull] at h
    exact absurd (Prod.mk.inj h).1.symm htoken.2

/-- **What the scanner makes of what the lexer takes for a token.** -/
theorem inspect_nextToken {s rest : Bytes} {token : Token} (h : nextToken s = (token, rest))
    (htoken : Scanned token) (depth : Nat) :
    inspectFrom depth false false s = inspectToken depth token rest := by
  have hblank : Took s (s.dropWhile isBlank) := .dropWhile (fun _ => plain_of_isBlank) s
  rw [hblank.inspectFrom]
  unfold nextToken at h
  cases hs : s.dropWhile isBlank with
  | nil =>
    rw [hs] at h
    exact absurd (Prod.mk.inj h).1.symm htoken.1
  | cons c tail =>
    rw [hs] at h
    exact inspect_tokenAt h htoken depth

/-! ### The parser behind the guard -/

/-- The values inside a container under construction. -/
def heldValues : Frame → List Json
  | .array items => items
  | .object fields => fields.map Prod.snd
  | .member fields _ => fields.map Prod.snd

/-- Every container under construction is within the limit, and so is what it holds. -/
def HeldWithin (limit : Nat) : List Frame → Prop
  | [] => True
  | frame :: stack => stack.length + 1 ≤ limit ∧
      (∀ j ∈ heldValues frame, NestsWithin (limit - (stack.length + 1)) j) ∧ HeldWithin limit stack

/-- The containers a parser is inside of. -/
def stackOf : Parser → List Frame
  | .value stack | .element stack | .firstKey stack | .key stack | .colon stack | .after stack => stack
  | .done _ | .finished _ => []

/-- The parser within the limit. -/
def WithinLimit (limit : Nat) : Parser → Prop
  | .done j | .finished j => NestsWithin limit j
  | p => HeldWithin limit (stackOf p)

variable {limit : Nat}

theorem deliver_withinLimit {j : Json} {stack : List Frame} (hj : NestsWithin (limit - stack.length) j)
    (hstack : HeldWithin limit stack) :
    WithinLimit limit (deliver j stack) ∧ (stackOf (deliver j stack)).length = stack.length := by
  cases stack with
  | nil => exact ⟨hj, rfl⟩
  | cons frame stack =>
    obtain ⟨hroom, hvalues, hrest⟩ := hstack
    rw [List.length_cons] at hj
    cases frame with
    | array items =>
      refine ⟨⟨hroom, ?_, hrest⟩, rfl⟩
      intro i hi
      rcases List.mem_append.mp hi with hi | hi
      · exact hvalues i hi
      · rw [List.mem_singleton.mp hi]
        exact hj
    | member fields key =>
      refine ⟨⟨hroom, ?_, hrest⟩, rfl⟩
      intro i hi
      obtain ⟨f, hf, rfl⟩ := List.mem_map.mp hi
      rcases Assoc.mem_insertSorted hf with rfl | hf
      · exact hj
      · exact hvalues _ (List.mem_map_of_mem hf)
    | object fields => exact ⟨⟨hroom, hvalues, hrest⟩, rfl⟩

theorem array_nestsWithin {items : List Json} {stack : List Frame}
    (h : HeldWithin limit (.array items :: stack)) :
    NestsWithin (limit - stack.length) (.arr items) ∧ HeldWithin limit stack := by
  obtain ⟨hroom, hvalues, hrest⟩ := h
  have hsucc : limit - stack.length = limit - (stack.length + 1) + 1 := by omega
  rw [hsucc]
  exact ⟨.arr hvalues, hrest⟩

theorem object_nestsWithin {fields : List (Bytes × Json)} {stack : List Frame}
    (h : HeldWithin limit (.object fields :: stack)) :
    NestsWithin (limit - stack.length) (.obj fields) ∧ HeldWithin limit stack := by
  obtain ⟨hroom, hvalues, hrest⟩ := h
  have hsucc : limit - stack.length = limit - (stack.length + 1) + 1 := by omega
  rw [hsucc]
  exact ⟨.obj fun f hf => hvalues _ (List.mem_map_of_mem hf), hrest⟩

/-- The scanner has let the parser come this far. -/
structure Guarded (p : Parser) (rest : Bytes) : Prop where
  within : WithinLimit 32 p
  shape : inspectFrom (stackOf p).length false false rest = .ok

theorem startValue_guarded {callback : Option DepthLimit} {stack : List Frame} {token : Token}
    {rest : Bytes} {p : Parser} (h : startValue callback stack token = .ok p) (hstack : HeldWithin 32 stack)
    (hshape : inspectToken stack.length token rest = .ok) : Guarded p rest := by
  have hscalar : ∀ {j : Json}, scalar token = some j → NestsWithin (32 - stack.length) j ∧
      inspectToken stack.length token rest = inspectFrom stack.length false false rest := by
    intro j hj
    cases token <;> simp [scalar] at hj
    case literalTrue => exact ⟨hj ▸ .scalar rfl rfl, rfl⟩
    case literalFalse => exact ⟨hj ▸ .scalar rfl rfl, rfl⟩
    case literalNull => exact ⟨hj ▸ .scalar rfl rfl, rfl⟩
    case string s => exact ⟨hj ▸ .scalar rfl rfl, rfl⟩
    case unsigned n => exact ⟨hj ▸ .scalar rfl rfl, rfl⟩
    case integer i => exact ⟨hj ▸ .scalar rfl rfl, rfl⟩
    case float x => exact ⟨hj.2 ▸ .scalar rfl rfl, rfl⟩
  -- Where a container starts, the scanner has checked that there is room for it.
  have hroom : ∀ {x : JsonShape}, (if 32 < stack.length + 1 then JsonShape.tooDeep else x) = .ok →
      stack.length + 1 ≤ 32 ∧ x = .ok := by
    intro x hx
    by_cases hdeep : 32 < stack.length + 1
    · rw [if_pos hdeep] at hx
      cases hx
    · rw [if_neg hdeep] at hx
      exact ⟨by omega, hx⟩
  unfold startValue at h
  split at h
  · simp only [bind_eq_ok, pure_eq_ok] at h
    obtain ⟨-, -, rfl⟩ := h
    obtain ⟨hle, hrest⟩ := hroom hshape
    exact ⟨⟨hle, List.forall_mem_nil _, hstack⟩, hrest⟩
  · simp only [bind_eq_ok, pure_eq_ok] at h
    obtain ⟨-, -, rfl⟩ := h
    obtain ⟨hle, hrest⟩ := hroom hshape
    exact ⟨⟨hle, List.forall_mem_nil _, hstack⟩, hrest⟩
  · split at h
    · rename_i j hj
      simp only [bind_eq_ok, pure_eq_ok] at h
      obtain ⟨-, -, rfl⟩ := h
      obtain ⟨hnests, hsame⟩ := hscalar hj
      obtain ⟨hwithin, hlength⟩ := deliver_withinLimit hnests hstack
      rw [hsame] at hshape
      exact ⟨hwithin, hlength ▸ hshape⟩
    · cases h

theorem startMember_guarded {callback : Option DepthLimit} {stack : List Frame} {token : Token}
    {rest : Bytes} {p : Parser} (h : startMember callback stack token = .ok p) (hstack : HeldWithin 32 stack)
    (hshape : inspectToken stack.length token rest = .ok) : Guarded p rest := by
  unfold startMember at h
  split at h
  · simp only [bind_eq_ok, pure_eq_ok] at h
    obtain ⟨-, -, rfl⟩ := h
    exact ⟨hstack, hshape⟩
  · cases h

theorem close_guarded {j : Json} {frame : Frame} {stack : List Frame} {rest : Bytes}
    (hj : NestsWithin (32 - stack.length) j ∧ HeldWithin 32 stack)
    (hshape : inspectToken (frame :: stack).length .endArray rest = .ok) :
    Guarded (deliver j stack) rest := by
  obtain ⟨hwithin, hlength⟩ := deliver_withinLimit hj.1 hj.2
  exact ⟨hwithin, hlength ▸ hshape⟩

/-- **A token read behind the guard.** -/
theorem step_guarded {callback : Option DepthLimit} {p p' : Parser} {token : Token} {rest : Bytes}
    (h : step callback p token = .ok p') (hp : WithinLimit 32 p)
    (hshape : inspectToken (stackOf p).length token rest = .ok) : Guarded p' rest := by
  unfold step at h
  split at h
  · exact startValue_guarded h hp hshape
  · obtain rfl := Except.ok.inj h
    exact close_guarded (array_nestsWithin hp) hshape
  · exact startValue_guarded h hp hshape
  · obtain rfl := Except.ok.inj h
    exact close_guarded (object_nestsWithin hp) hshape
  · exact startMember_guarded h hp hshape
  · exact startMember_guarded h hp hshape
  · obtain rfl := Except.ok.inj h
    exact ⟨hp, hshape⟩
  · obtain rfl := Except.ok.inj h
    exact ⟨hp, hshape⟩
  · obtain rfl := Except.ok.inj h
    exact close_guarded (array_nestsWithin hp) hshape
  · obtain rfl := Except.ok.inj h
    exact ⟨hp, hshape⟩
  · obtain rfl := Except.ok.inj h
    exact close_guarded (object_nestsWithin hp) hshape
  · obtain rfl := Except.ok.inj h
    exact ⟨hp, hshape⟩
  · cases h

/-- **A run of the parser behind the guard.** -/
theorem run_withinLimit {callback : Option DepthLimit} {fuel : Nat} {s : Bytes} {p p' : Parser}
    (hp : Guarded p s) (h : (tokens fuel s).foldlM (step callback) p = .ok p') :
    WithinLimit 32 p' := by
  induction fuel generalizing s p with
  | zero =>
    obtain rfl := Except.ok.inj h
    exact hp.within
  | succ fuel ih =>
    -- The last token leaves the text where it is.
    have hlast : ∀ {token : Token}, inspectToken (stackOf p).length token s =
        inspectFrom (stackOf p).length false false s →
        [token].foldlM (step callback) p = .ok p' → WithinLimit 32 p' := by
      intro token hsame hrun
      rw [List.foldlM_cons, bind_eq_ok] at hrun
      obtain ⟨q, hstep, hq⟩ := hrun
      obtain rfl := Except.ok.inj hq
      exact (step_guarded hstep hp.within (hsame.trans hp.shape)).within
    unfold tokens at h
    cases hnext : nextToken s with
    | mk token rest =>
      rw [hnext] at h
      by_cases hend : token = .endOfInput
      · subst hend
        exact hlast rfl h
      by_cases herror : token = .parseError
      · subst herror
        exact hlast rfl h
      · have htokens : (token :: tokens fuel rest).foldlM (step callback) p = .ok p' := by
          cases token <;> first | exact h | exact absurd rfl hend | exact absurd rfl herror
        rw [List.foldlM_cons, bind_eq_ok] at htokens
        obtain ⟨q, hstep, hrun⟩ := htokens
        have hshape := hp.shape
        rw [inspect_nextToken hnext ⟨hend, herror⟩] at hshape
        exact ih (step_guarded hstep hp.within hshape) hrun

theorem took_skipBom (s : Bytes) : Took s (skipBom s) := by
  unfold skipBom
  split
  · exact .cons (by decide) (.cons (by decide) (.cons (by decide) (.refl _)))
  · exact .refl s

/-- **A value parsed after the guard nests at most 32 deep.** -/
theorem parse_nestsWithin {callback : Option DepthLimit} {text : Bytes} {j : Json}
    (hshape : inspectJsonShape text = .ok) (h : Json.parse callback text = .ok j) :
    NestsWithin 32 j := by
  rw [Json.parse, bind_eq_ok] at h
  obtain ⟨p, hrun, hend⟩ := h
  have hstart : Guarded (.value []) (skipBom text) := by
    refine ⟨trivial, ?_⟩
    rw [← (took_skipBom text).inspectFrom]
    exact hshape
  have hp := run_withinLimit hstart hrun
  split at hend
  · rw [pure_eq_ok] at hend
    exact hend ▸ hp
  · cases hend

/-! ### Request bodies -/

/-- A refusal of `parse_body`: status, code and message. -/
structure Refusal where
  status : Nat
  code : Bytes
  message : Error

/-- `parse_body`: the body, or the response it is refused with. -/
def parseBody (maximumBytes : Nat) (body : Bytes) : Except Refusal Json :=
  if maximumBytes = 0 ∨ 1024 * 1024 < maximumBytes ∨ maximumBytes < body.length then
    .error ⟨413, "body_too_large", .runtime "request body exceeds maximum size"⟩
  else match inspectJsonShape body with
    | .tooDeep =>
      .error ⟨400, "json_too_deep", .runtime "request JSON nesting exceeds maximum depth"⟩
    | .incomplete => .error ⟨400, "invalid_json", .runtime "request JSON is incomplete"⟩
    | .ok =>
      match Json.parse none body with
      | .error e => .error ⟨400, "invalid_json", e⟩
      | .ok j =>
        if j.isObject then .ok j
        else .error ⟨400, "invalid_json", .runtime "request JSON must be an object"⟩

theorem parseBody_eq_ok {maximumBytes : Nat} {body : Bytes} {j : Json}
    (h : parseBody maximumBytes body = .ok j) :
    inspectJsonShape body = .ok ∧ Json.parse none body = .ok j := by
  unfold parseBody at h
  split_ifs at h with hsize
  cases hshape : inspectJsonShape body with
  | tooDeep =>
    rw [hshape] at h
    cases h
  | incomplete =>
    rw [hshape] at h
    cases h
  | ok =>
    rw [hshape] at h
    cases hparse : Json.parse none body with
    | error e =>
      rw [hparse] at h
      cases h
    | ok v =>
      rw [hparse] at h
      simp only at h
      split_ifs at h
      exact ⟨rfl, congrArg Except.ok (Except.ok.inj h)⟩

theorem step_throws (p : Parser) (token : Token) :
    Throws (fun e => ∃ fault, e = .json fault) (step none p token) := by
  have hstart : ∀ (stack : List Frame) (token : Token),
      Throws (fun e => ∃ fault, e = .json fault) (startValue none stack token) := by
    intro stack token
    unfold startValue
    split
    · exact throws_of_ok ⟨_, rfl⟩
    · exact throws_of_ok ⟨_, rfl⟩
    · split
      · exact throws_of_ok ⟨_, rfl⟩
      · exact throws_error ⟨_, rfl⟩
  have hmember : ∀ (stack : List Frame) (token : Token),
      Throws (fun e => ∃ fault, e = .json fault) (startMember none stack token) := by
    intro stack token
    unfold startMember
    split
    · exact throws_of_ok ⟨_, rfl⟩
    · exact throws_error ⟨_, rfl⟩
  unfold step
  split
  case h_1 | h_3 => exact hstart _ _
  case h_5 | h_6 => exact hmember _ _
  case h_13 => exact throws_error ⟨_, rfl⟩
  all_goals exact throws_of_ok ⟨_, rfl⟩

theorem parse_throws (text : Bytes) :
    Throws (fun e => ∃ fault, e = .json fault) (Json.parse none text) := by
  unfold Json.parse
  refine throws_bind (throws_foldlM (fun token _ p => step_throws p token) _) ?_
  intro p _
  split
  · exact throws_of_ok ⟨_, rfl⟩
  · exact throws_error ⟨_, rfl⟩

theorem parseBody_ne_incomplete {n : Nat} {body : Bytes} (h : Grammar.IsText n body)
    (maximumBytes : Nat) :
    parseBody maximumBytes body ≠
      .error ⟨400, "invalid_json", .runtime "request JSON is incomplete"⟩ := by
  intro hrefused
  unfold parseBody at hrefused
  split_ifs at hrefused with hsize
  · have hcode := congrArg Refusal.status (Except.error.inj hrefused)
    exact absurd hcode (by decide)
  rw [inspectJsonShape_of_isText h] at hrefused
  by_cases hn : n ≤ 32
  · rw [if_pos hn] at hrefused
    cases hparse : Json.parse none body with
    | error e =>
      rw [hparse] at hrefused
      have hmessage := congrArg Refusal.message (Except.error.inj hrefused)
      obtain ⟨fault, he⟩ := parse_throws body e hparse
      rw [he] at hmessage
      cases hmessage
    | ok j =>
      rw [hparse] at hrefused
      simp only at hrefused
      split_ifs at hrefused
      have hmessage := congrArg Refusal.message (Except.error.inj hrefused)
      simp at hmessage
  · rw [if_neg hn] at hrefused
    have hcode := congrArg Refusal.code (Except.error.inj hrefused)
    simp at hcode

/-! ### Model files -/

theorem nestsWithin_mono {m n : Nat} {j : Json} (h : NestsWithin m j) (hmn : m ≤ n) :
    NestsWithin n j := by
  induction h generalizing n with
  | scalar harray hobject => exact .scalar harray hobject
  | arr _ ih =>
    obtain ⟨k, rfl⟩ : ∃ k, n = k + 1 := ⟨n - 1, by omega⟩
    exact .arr fun j hj => ih j hj (by omega)
  | obj _ ih =>
    obtain ⟨k, rfl⟩ : ∃ k, n = k + 1 := ⟨n - 1, by omega⟩
    exact .obj fun f hf => ih f hf (by omega)

theorem unwrapModel_nestsWithin {document model : Json} (h : unwrapModel document = .ok model)
    (hdocument : NestsWithin 32 document) : NestsWithin 32 model := by
  unfold unwrapModel at h
  split at h
  · obtain rfl := Except.ok.inj h
    exact hdocument
  · rename_i inner hfind
    simp only [bind_eq_ok, pure_eq_ok] at h
    obtain ⟨-, -, -, -, rfl⟩ := h
    cases document with
    | obj fields =>
      cases hdocument with
      | scalar _ hobject => cases hobject
      | obj hfields => exact nestsWithin_mono (hfields _ (Assoc.find?_mem hfind)) (by decide)
    | _ => simp [Json.find?] at hfind

/-- **The nesting guard is exact on JSON**, and what is parsed behind it nests at most 32 deep. -/
theorem nesting_guard_exact [Platform] :
    (∀ n body, Grammar.IsText n body →
      inspectJsonShape body = (if n ≤ 32 then JsonShape.ok else JsonShape.tooDeep) ∧
      checkShape body = (if n ≤ 32 then .ok ()
        else .error (.runtime "model JSON exceeds nesting limit")) ∧
      ∀ maximumBytes, parseBody maximumBytes body ≠
        .error ⟨400, "invalid_json", .runtime "request JSON is incomplete"⟩) ∧
    (∀ body j, inspectJsonShape body = .ok → Json.parse none body = .ok j → NestsWithin 32 j) ∧
    (∀ maximumBytes body j, parseBody maximumBytes body = .ok j → NestsWithin 32 j) ∧
    ∀ body j, loadModelFile body = .ok j → NestsWithin 32 j := by
  refine ⟨?_, fun body j => parse_nestsWithin, ?_, ?_⟩
  · intro n body h
    have hshape := inspectJsonShape_of_isText h
    refine ⟨hshape, ?_, parseBody_ne_incomplete h⟩
    unfold checkShape
    rw [hshape]
    by_cases hn : n ≤ 32
    · rw [if_pos hn, if_pos hn]
    · rw [if_neg hn, if_neg hn]
  · intro maximumBytes body j h
    obtain ⟨hshape, hparse⟩ := parseBody_eq_ok h
    exact parse_nestsWithin hshape hparse
  · intro body j h
    simp only [loadModelFile, bind_eq_ok, pure_eq_ok] at h
    obtain ⟨_, hcheck, document, hparse, model, hunwrap, _, -, rfl⟩ := h
    have hshape : inspectJsonShape body = .ok := by
      unfold checkShape at hcheck
      split at hcheck
      · cases hcheck
      · cases hcheck
      · assumption
    exact unwrapModel_nestsWithin hunwrap (parse_nestsWithin hshape hparse)

/-- A list of a string with a bracket and an escaped quote in it. -/
theorem nesting_guard_exact_sample :
    inspectJsonShape [0x5b, 0x22, 0x5b, 0x5c, 0x22, 0x22, 0x5d] = .ok := by
  have hstring : Characters [0x5b, 0x5c, 0x22] :=
    .plain (c := [0x5b]) (.one (by decide)) (List.forall_mem_singleton.mpr (by decide))
      (.escape (by decide) .nil)
  have htext : Grammar.IsText 1 [0x5b, 0x22, 0x5b, 0x5c, 0x22, 0x22, 0x5d] :=
    @Grammar.IsText.mk _ [] _ [] (List.forall_mem_nil _)
      (.array (@Grammar.Derives.element _ [] _ [] (List.forall_mem_nil _) (.string hstring)
        (List.forall_mem_nil _))) (List.forall_mem_nil _)
  exact ((@nesting_guard_exact samplePlatform).1 1 _ htext).1

end ContextHmi.Runtime
