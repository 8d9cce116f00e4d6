import ContextHmi.Json.RoundTrip

/-!
# Texts that are cut

A serialized value has no control characters. What is left of a literal or a number behind its first
bytes is not JSON where a byte follows that starts no token.

* `consumed_scanNumber` : the lexer takes only bytes of a number for one;
* `dump_printable`      : a serialized value has no control characters;
* `parse_cut_error`     : the rest of a number before such a byte.
-/

namespace ContextHmi.Json

open Outcome

/-! ### Numbers -/

/-- Nothing but bytes with a property stands between `s` and the rest of it. -/
def Consumed (P : UInt8 → Prop) (s rest : Bytes) : Prop := ∃ front, s = front ++ rest ∧ ∀ c ∈ front, P c

namespace Consumed
variable {P : UInt8 → Prop} {s t rest : Bytes}

theorem refl (s : Bytes) : Consumed P s s := ⟨[], rfl, List.forall_mem_nil _⟩

theorem trans (h : Consumed P s t) (h' : Consumed P t rest) : Consumed P s rest := by
  obtain ⟨front, rfl, hfront⟩ := h
  obtain ⟨front', rfl, hfront'⟩ := h'
  exact ⟨front ++ front', (List.append_assoc _ _ _).symm,
    List.forall_mem_append.mpr ⟨hfront, hfront'⟩⟩

theorem cons {c : UInt8} (hc : P c) (h : Consumed P s rest) : Consumed P (c :: s) rest := by
  obtain ⟨front, rfl, hfront⟩ := h
  exact ⟨c :: front, rfl, List.forall_mem_cons.mpr ⟨hc, hfront⟩⟩

theorem dropWhile {p : UInt8 → Bool} (hp : ∀ c, p c = true → P c) (s : Bytes) :
    Consumed P s (s.dropWhile p) := by
  refine ⟨s.takeWhile p, (List.takeWhile_append_dropWhile).symm, fun c hc => hp c ?_⟩
  exact List.all_eq_true.mp List.all_takeWhile c hc

theorem stopped {c : UInt8} {w x : Bytes} (h : Consumed P (w ++ c :: x) rest) (hc : ¬ P c) :
    ∃ w', w' <:+ w ∧ rest = w' ++ c :: x := by
  obtain ⟨front, hsplit, hfront⟩ := h
  rcases List.append_eq_append_iff.mp hsplit with ⟨a, rfl, hrest⟩ | ⟨a, rfl, hrest⟩
  · cases a with
    | nil => exact ⟨[], List.nil_suffix, hrest.symm⟩
    | cons b a =>
      obtain rfl := (List.cons.inj hrest).1
      exact absurd (hfront c (List.mem_append_right _ List.mem_cons_self)) hc
  · exact ⟨a, List.suffix_append _ _, hrest⟩

end Consumed

/-- A byte of a number. -/
def IsNumberByte (c : UInt8) : Prop :=
  Bytes.isDigit c = true ∨ c = 0x2d ∨ c = 0x2b ∨ c = 0x2e ∨ c = 0x65 ∨ c = 0x45

instance IsNumberByte.instDecidable (c : UInt8) : Decidable (IsNumberByte c) := by
  unfold IsNumberByte
  infer_instance

theorem consumed_digits (s : Bytes) : Consumed IsNumberByte s (spanDigits s).2 :=
  .dropWhile (fun _ => .inl) s

theorem consumed_scanWhole {s whole rest : Bytes} (h : scanWhole s = some (whole, rest)) :
    Consumed IsNumberByte s rest := by
  unfold scanWhole at h
  cases s with
  | nil => cases h
  | cons c s =>
    simp only at h
    split_ifs at h with hzero hdigit
    · obtain ⟨-, rfl⟩ := Prod.mk.inj (Option.some.inj h)
      exact .cons (hzero ▸ by decide) (.refl _)
    · obtain ⟨-, rfl⟩ := Prod.mk.inj (Option.some.inj h)
      exact consumed_digits _

theorem consumed_scanFraction {s rest : Bytes} {fraction : Option Bytes}
    (h : scanFraction s = some (fraction, rest)) : Consumed IsNumberByte s rest := by
  unfold scanFraction at h
  split at h
  · simp only at h
    split_ifs at h
    obtain ⟨-, rfl⟩ := Prod.mk.inj (Option.some.inj h)
    exact .cons (by decide) (consumed_digits _)
  · obtain ⟨-, rfl⟩ := Prod.mk.inj (Option.some.inj h)
    exact .refl _

theorem rest_of_guard {α : Type} {p : Prop} [Decidable p] {a x : α} {t rest : Bytes}
    (h : (if p then none else some (a, t)) = some (x, rest)) : t = rest := by
  by_cases hp : p
  · rw [if_pos hp] at h
    cases h
  · rw [if_neg hp] at h
    exact (Prod.mk.inj (Option.some.inj h)).2

theorem consumed_scanExponent {s rest : Bytes} {exponent : Option Int}
    (h : scanExponent s = some (exponent, rest)) : Consumed IsNumberByte s rest := by
  unfold scanExponent at h
  cases s with
  | nil =>
    obtain ⟨-, rfl⟩ := Prod.mk.inj (Option.some.inj h)
    exact .refl _
  | cons c s =>
    simp only at h
    by_cases hc : c = 0x65 ∨ c = 0x45
    · rw [if_pos hc] at h
      have hletter : IsNumberByte c := .inr (.inr (.inr (.inr hc)))
      -- A sign or none before the digits.
      cases s with
      | nil =>
        obtain rfl := rest_of_guard h
        exact .cons hletter (consumed_digits _)
      | cons d tail =>
        simp only at h
        by_cases hminus : d = 0x2d
        · simp only [if_pos hminus] at h
          obtain rfl := rest_of_guard h
          exact .cons hletter (.cons (hminus ▸ by decide) (consumed_digits _))
        · simp only [if_neg hminus] at h
          by_cases hplus : d = 0x2b
          · simp only [if_pos hplus] at h
            obtain rfl := rest_of_guard h
            exact .cons hletter (.cons (hplus ▸ by decide) (consumed_digits _))
          · simp only [if_neg hplus] at h
            obtain rfl := rest_of_guard h
            exact .cons hletter (consumed_digits _)
    · rw [if_neg hc] at h
      obtain ⟨-, rfl⟩ := Prod.mk.inj (Option.some.inj h)
      exact .refl _

/-- **The lexer takes only bytes of a number for one.** -/
theorem consumed_scanNumber {s rest : Bytes} {token : Token}
    (h : scanNumber s = some (token, rest)) : Consumed IsNumberByte s rest := by
  simp only [scanNumber, Option.bind_eq_bind, Option.bind_eq_some_iff, Option.pure_def,
    Option.some.injEq, Prod.mk.injEq] at h
  obtain ⟨⟨whole, s₁⟩, hwhole, ⟨fraction, s₂⟩, hfraction, ⟨exponent, s₃⟩, hexponent, -, rfl⟩ := h
  have hall := ((consumed_scanWhole hwhole).trans (consumed_scanFraction hfraction)).trans
    (consumed_scanExponent hexponent)
  split at hall
  · exact .cons (by decide) hall
  · exact hall

/-! ### Serialized values -/

/-- No control characters. -/
def Printable (s : Bytes) : Prop := ∀ c ∈ s, 0x20 ≤ c

instance Printable.instDecidable (s : Bytes) : Decidable (Printable s) :=
  inferInstanceAs (Decidable (∀ c ∈ s, 0x20 ≤ c))

theorem printable_escapeAscii {a : UInt8} : a < 0x80 → Printable (escapeAscii a) :=
  Bytes.forall_byte (p := fun a => a < 0x80 → ∀ c ∈ escapeAscii a, 0x20 ≤ c) (by decide +kernel) a

theorem printable_of_wide {a : UInt8} : ¬ a < 0x80 → 0x20 ≤ a :=
  Bytes.forall_byte (p := fun a => ¬ a < 0x80 → 0x20 ≤ a) (by decide +kernel) a

theorem printable_of_isCont {a : UInt8} (h : Utf8.isCont a = true) : 0x20 ≤ a :=
  printable_of_wide (Utf8.not_lt_of_isCont h)

theorem printable_append {s t : Bytes} (hs : Printable s) (ht : Printable t) : Printable (s ++ t) :=
  List.forall_mem_append.mpr ⟨hs, ht⟩

theorem printable_cons {c : UInt8} {s : Bytes} (hc : 0x20 ≤ c) (hs : Printable s) :
    Printable (c :: s) := List.forall_mem_cons.mpr ⟨hc, hs⟩

theorem printable_nil : Printable [] := List.forall_mem_nil _

theorem printable_dumpEscaped {s t : Bytes} (h : dumpEscaped s = .ok t) : Printable t := by
  have htext := text_of_dumpEscaped h
  induction htext generalizing t with
  | nil =>
    obtain rfl := Except.ok.inj h
    exact printable_nil
  | cons hc _ ih =>
    cases hc with
    | one ha =>
      rw [List.singleton_append, dumpEscaped_ascii ha, map_eq_ok] at h
      obtain ⟨t', ht', rfl⟩ := h
      exact printable_append (printable_escapeAscii ha) (ih ht')
    | two ha hb =>
      rw [List.cons_append, List.singleton_append, dumpEscaped_wide2 ha hb, map_eq_ok] at h
      obtain ⟨t', ht', rfl⟩ := h
      exact printable_cons (printable_of_wide (Utf8.not_lt_of_wide2 ha))
        (printable_cons (printable_of_isCont hb) (ih ht'))
    | three hab hc =>
      obtain ⟨ha, -, hb⟩ := Utf8.wide3_lead hab
      rw [List.cons_append, List.cons_append, List.singleton_append, dumpEscaped_wide3 hab hc,
        map_eq_ok] at h
      obtain ⟨t', ht', rfl⟩ := h
      exact printable_cons (printable_of_wide ha) (printable_cons (printable_of_isCont hb)
        (printable_cons (printable_of_isCont hc) (ih ht')))
    | four hab hc hd =>
      obtain ⟨ha, hb⟩ := Utf8.wide4_bytes hab
      rw [List.cons_append, List.cons_append, List.cons_append, List.singleton_append,
        dumpEscaped_wide4 hab hc hd, map_eq_ok] at h
      obtain ⟨t', ht', rfl⟩ := h
      exact printable_cons (printable_of_wide ha) (printable_cons (printable_of_isCont hb)
        (printable_cons (printable_of_isCont hc) (printable_cons (printable_of_isCont hd) (ih ht'))))

theorem printable_dumpString {s t : Bytes} (h : dumpString s = .ok t) : Printable t := by
  obtain ⟨e, he, rfl⟩ := map_eq_ok.mp h
  exact printable_append (printable_cons (by decide) (printable_dumpEscaped he)) (by
    intro c hc
    rw [List.mem_singleton.mp hc]
    decide)

theorem printable_of_isNumberByte {c : UInt8} : IsNumberByte c → 0x20 ≤ c :=
  Bytes.forall_byte (p := fun c => IsNumberByte c → 0x20 ≤ c) (by decide +kernel) c

theorem dumpInteger_bytes (i : Int) : ∀ c ∈ dumpInteger i, IsNumberByte c := by
  unfold dumpInteger
  split_ifs
  · exact List.forall_mem_cons.mpr ⟨.inr (.inl rfl), fun c hc => .inl (Bytes.decimal_isDigit _ c hc)⟩
  · exact fun c hc => .inl (Bytes.decimal_isDigit _ c hc)

section
variable [Platform]

theorem toChars_bytes {x : Float} (h : ReadsBack x) : ∀ c ∈ Platform.toChars x, IsNumberByte c := by
  obtain ⟨front, hfront, hbytes⟩ := consumed_scanNumber (h [] endsNumber_nil)
  rw [List.append_nil, List.append_nil] at hfront
  rwa [hfront]

theorem printable_dumpFloat {x : Float} (h : x.isFinite = true → ReadsBack x) :
    Printable (dumpFloat x) := by
  unfold dumpFloat
  split_ifs with hfinite
  · exact fun c hc => printable_of_isNumberByte (toChars_bytes (h hfinite) c hc)
  · decide +kernel

theorem printable_dumpItems {items : List Json}
    (hitems : ∀ j ∈ items, ∀ t, j.dump = .ok t → Printable t) {t : Bytes}
    (h : dumpItems items = .ok t) : Printable t := by
  induction items generalizing t with
  | nil =>
    obtain rfl := Except.ok.inj h
    exact printable_nil
  | cons j js ih =>
    rw [List.forall_mem_cons] at hitems
    simp only [dumpItems, bind_eq_ok, pure_eq_ok] at h
    obtain ⟨head, hhead, tail, htail, rfl⟩ := h
    exact printable_append (printable_cons (by decide) (hitems.1 head hhead)) (ih hitems.2 htail)

theorem printable_dumpFields {fields : List (Bytes × Json)}
    (hfields : ∀ f ∈ fields, ∀ t, f.2.dump = .ok t → Printable t) {t : Bytes}
    (h : dumpFields fields = .ok t) : Printable t := by
  induction fields generalizing t with
  | nil =>
    obtain rfl := Except.ok.inj h
    exact printable_nil
  | cons f fs ih =>
    obtain ⟨k, v⟩ := f
    rw [List.forall_mem_cons] at hfields
    simp only [dumpFields, bind_eq_ok, pure_eq_ok] at h
    obtain ⟨key, hkey, head, hhead, tail, htail, rfl⟩ := h
    exact printable_append (printable_append (printable_cons (by decide) (printable_dumpString hkey))
      (printable_cons (by decide) (hfields.1 head hhead))) (ih hfields.2 htail)

/-- **A serialized value has no control characters.** -/
theorem dump_printable {j : Json} (hfloats : j.FloatsReadBack) {t : Bytes} (h : j.dump = .ok t) :
    Printable t := by
  induction j using Json.induction generalizing t with
  | null =>
    obtain rfl := Except.ok.inj h
    decide +kernel
  | bool b =>
    obtain rfl := Except.ok.inj h
    cases b <;> decide +kernel
  | int i =>
    obtain rfl := Except.ok.inj h
    exact fun c hc => printable_of_isNumberByte (dumpInteger_bytes _ c hc)
  | uint n =>
    obtain rfl := Except.ok.inj h
    exact fun c hc => printable_of_isNumberByte (dumpInteger_bytes _ c hc)
  | float x =>
    obtain rfl := Except.ok.inj h
    exact printable_dumpFloat (hfloats x (List.mem_singleton_self x))
  | str s => exact printable_dumpString h
  | arr items ih =>
    have hitems : ∀ j ∈ items, ∀ t, j.dump = .ok t → Printable t :=
      fun j hj t ht => ih j hj (floatsReadBack_arr.mp hfloats j hj) ht
    cases items with
    | nil =>
      obtain rfl := Except.ok.inj h
      decide +kernel
    | cons j js =>
      rw [List.forall_mem_cons] at hitems
      simp only [dump, bind_eq_ok, pure_eq_ok] at h
      obtain ⟨head, hhead, tail, htail, rfl⟩ := h
      exact printable_append (printable_append (printable_cons (by decide) (hitems.1 head hhead))
        (printable_dumpItems hitems.2 htail)) (by decide +kernel)
  | obj fields ih =>
    have hfields : ∀ f ∈ fields, ∀ t, f.2.dump = .ok t → Printable t :=
      fun f hf t ht => ih f hf (floatsReadBack_obj.mp hfloats f hf) ht
    cases fields with
    | nil =>
      obtain rfl := Except.ok.inj h
      decide +kernel
    | cons f fs =>
      obtain ⟨k, v⟩ := f
      rw [List.forall_mem_cons] at hfields
      simp only [dump, bind_eq_ok, pure_eq_ok] at h
      obtain ⟨key, hkey, head, hhead, tail, htail, rfl⟩ := h
      exact printable_append (printable_append (printable_append (printable_cons (by decide)
        (printable_dumpString hkey)) (printable_cons (by decide) (hfields.1 head hhead)))
        (printable_dumpFields hfields.2 htail)) (by decide +kernel)

theorem dump_start {j : Json} (hfloats : j.FloatsReadBack) {t : Bytes} (h : j.dump = .ok t) :
    (∃ s, t = 0x22 :: s ∨ t = 0x5b :: s ∨ t = 0x7b :: s) ∨
      (t = "null" ∨ t = "true" ∨ t = "false") ∨ ∀ c ∈ t, IsNumberByte c := by
  cases j with
  | null => exact .inr (.inl (.inl (Except.ok.inj h).symm))
  | bool b =>
    obtain rfl := Except.ok.inj h
    cases b
    · exact .inr (.inl (.inr (.inr rfl)))
    · exact .inr (.inl (.inr (.inl rfl)))
  | int i =>
    obtain rfl := Except.ok.inj h
    exact .inr (.inr (dumpInteger_bytes _))
  | uint n =>
    obtain rfl := Except.ok.inj h
    exact .inr (.inr (dumpInteger_bytes _))
  | float x =>
    obtain rfl := Except.ok.inj h
    unfold dumpFloat
    split_ifs with hfinite
    · exact .inr (.inr (toChars_bytes (hfloats x (List.mem_singleton_self x) hfinite)))
    · exact .inr (.inl (.inl rfl))
  | str s =>
    obtain ⟨e, -, rfl⟩ := map_eq_ok.mp h
    exact .inl ⟨_, .inl rfl⟩
  | arr items =>
    cases items with
    | nil =>
      obtain rfl := Except.ok.inj h
      exact .inl ⟨_, .inr (.inl rfl)⟩
    | cons j js =>
      simp only [dump, bind_eq_ok, pure_eq_ok] at h
      obtain ⟨head, -, tail, -, rfl⟩ := h
      exact .inl ⟨_, .inr (.inl rfl)⟩
  | obj fields =>
    cases fields with
    | nil =>
      obtain rfl := Except.ok.inj h
      exact .inl ⟨_, .inr (.inr rfl)⟩
    | cons f fs =>
      obtain ⟨k, v⟩ := f
      simp only [dump, bind_eq_ok, pure_eq_ok] at h
      obtain ⟨key, -, head, -, tail, -, rfl⟩ := h
      exact .inl ⟨_, .inr (.inr rfl)⟩

end

/-! ### What is left of a number -/

def Token.isNumber : Token → Bool
  | .unsigned _ => true
  | .integer _ => true
  | .float _ => true
  | _ => false

theorem scanNumber_isNumber {s rest : Bytes} {token : Token}
    (h : scanNumber s = some (token, rest)) : token.isNumber = true := by
  have hnumber : ∀ negative whole fraction exponent,
      (numberToken negative whole fraction exponent).isNumber = true := by
    intro negative whole fraction exponent
    unfold numberToken
    simp only
    split
    · split_ifs <;> rfl
    · rfl
  simp only [scanNumber, Option.bind_eq_bind, Option.bind_eq_some_iff, Option.pure_def,
    Option.some.injEq, Prod.mk.injEq] at h
  obtain ⟨_, -, _, -, _, -, rfl, -⟩ := h
  exact hnumber _ _ _ _

/-- `F`, a byte that no token starts with. -/
abbrev kOdd : UInt8 := 0x46

/-- The next token of what is left of a number: an error, or a number before such a rest. -/
theorem nextToken_cut {w : Bytes} (hw : ∀ c ∈ w, IsNumberByte c) (x : Bytes) :
    (∃ t, nextToken (w ++ kOdd :: x) = (.parseError, t)) ∨
      ∃ token w', (∀ c ∈ w', IsNumberByte c) ∧ token.isNumber = true ∧
        nextToken (w ++ kOdd :: x) = (token, w' ++ kOdd :: x) := by
  cases w with
  | nil => exact .inl ⟨_, rfl⟩
  | cons c w =>
    have hc := hw c List.mem_cons_self
    by_cases hstart : c = 0x2d ∨ Bytes.isDigit c = true
    · obtain ⟨hblank, h1, h2, h3, h4, h5, h6, h7, h8, h9, h10⟩ := number_start hstart
      have htoken : nextToken (c :: w ++ kOdd :: x) =
          (scanNumber (c :: w ++ kOdd :: x)).getD (.parseError, []) := by
        rw [List.cons_append, nextToken_cons hblank, tokenAt, if_neg h1, if_neg h2, if_neg h3,
          if_neg h4, if_neg h5, if_neg h6, if_neg h7, if_neg h8, if_neg h9, if_neg h10, if_pos hstart]
        cases scanNumber (c :: (w ++ kOdd :: x)) with
        | none => rfl
        | some r => rfl
      rw [htoken]
      cases hscan : scanNumber (c :: w ++ kOdd :: x) with
      | none => exact .inl ⟨_, rfl⟩
      | some r =>
        obtain ⟨token, rest⟩ := r
        obtain ⟨w', hsuffix, rfl⟩ := (consumed_scanNumber hscan).stopped (by decide)
        exact .inr ⟨token, w', fun b hb => hw b (hsuffix.subset hb), scanNumber_isNumber hscan, rfl⟩
    · left
      rw [not_or] at hstart
      rcases hc with hdigit | rfl | rfl | rfl | rfl | rfl
      · exact absurd hdigit hstart.2
      · exact absurd rfl hstart.1
      all_goals exact ⟨_, rfl⟩

theorem startValue_number {limit : Option DepthLimit} {token : Token} {p : Parser}
    (htoken : token.isNumber = true) (h : startValue limit [] token = .ok p) : ∃ j, p = .done j := by
  unfold startValue at h
  split at h
  · cases htoken
  · cases htoken
  · split at h
    · simp only [bind_eq_ok, pure_eq_ok] at h
      obtain ⟨-, -, rfl⟩ := h
      exact ⟨_, rfl⟩
    · cases h

/-- **What is left of a number before such a byte is not JSON.** -/
theorem parse_cut_error (limit : Option DepthLimit) {w : Bytes} (hw : ∀ c ∈ w, IsNumberByte c)
    (x : Bytes) : ∃ e, parse limit (w ++ kOdd :: x) = .error e := by
  have hbom : skipBom (w ++ kOdd :: x) = w ++ kOdd :: x := by
    unfold skipBom
    split
    · rename_i tail heq
      cases w with
      | nil => cases (List.cons.inj heq).1
      | cons c w =>
        obtain rfl := (List.cons.inj heq).1
        exact absurd (hw _ List.mem_cons_self) (by decide)
    · rfl
  obtain ⟨fuel, hfuel⟩ : ∃ fuel, (w ++ kOdd :: x).length = fuel + 1 := by
    rw [List.length_append, List.length_cons]
    exact ⟨w.length + x.length, rfl⟩
  have hdone : ∀ (j : Json) (w' : Bytes), (∀ c ∈ w', IsNumberByte c) →
      ∃ e, (tokens (fuel + 1) (w' ++ kOdd :: x)).foldlM (step limit) (.done j) = .error e := by
    intro j w' hw'
    rcases nextToken_cut hw' x with ⟨t, herror⟩ | ⟨token, w'', -, hnumber, hnext⟩
    · rw [tokens, herror]
      exact ⟨_, rfl⟩
    · rw [tokens, hnext]
      cases token <;> first | exact ⟨_, rfl⟩ | cases hnumber
  rw [parse, hbom, hfuel]
  rcases nextToken_cut hw x with ⟨t, herror⟩ | ⟨token, w', hw', hnumber, hnext⟩
  · rw [tokens, herror]
    exact ⟨_, rfl⟩
  · have htokens : tokens (fuel + 1 + 1) (w ++ kOdd :: x) =
        token :: tokens (fuel + 1) (w' ++ kOdd :: x) := by
      rw [tokens, hnext]
      cases token <;> first | rfl | cases hnumber
    rw [htokens, List.foldlM_cons]
    cases hstep : step limit (.value []) token with
    | error e => exact ⟨e, rfl⟩
    | ok p =>
      obtain ⟨j, rfl⟩ := startValue_number hnumber hstep
      obtain ⟨e, he⟩ := hdone j w' hw'
      refine ⟨e, ?_⟩
      rw [ok_bind, he]
      rfl

end ContextHmi.Json
