import ContextHmi.Json.Serialize

/-!
# What is parsed is text

The lexer refuses strings that are not UTF-8 and decodes escapes to well-formed sequences, so every
string of a parsed value, key or not, can be serialized again.

* `scanString_text` : a scanned string is UTF-8;
* `parse_isText`    : so is every string of a parsed value.
-/

namespace ContextHmi.Json

open Outcome

/-! ### Strings -/

theorem codepoint_le {a b c d : UInt8} {cp : Nat} (h : codepoint a b c d = some cp) :
    cp ≤ 0xffff := by
  have hdigit : ∀ {x : UInt8} {n : Nat}, hexValue x = some n → n ≤ 15 := by
    intro x n hx
    unfold hexValue at hx
    simp only [UInt8.le_iff_toNat_le] at hx
    simp at hx
    split_ifs at hx <;> simp at hx <;> omega
  simp only [codepoint, Option.bind_eq_bind, Option.bind_eq_some_iff, Option.pure_def,
    Option.some.injEq] at h
  obtain ⟨na, ha, nb, hb, nc, hc, nd, hd, rfl⟩ := h
  have hna := hdigit ha
  have hnb := hdigit hb
  have hnc := hdigit hc
  have hnd := hdigit hd
  omega

theorem shortEscape_ascii {c e : UInt8} (h : shortEscape c = some e) : e < 0x80 := by
  unfold shortEscape at h
  split_ifs at h <;> simp at h <;> subst h <;> decide

theorem push_text {c text rest : Bytes} {scanned : Option (Bytes × Bytes)} (hc : Utf8.Text c)
    (ih : ∀ {t r}, scanned = some (t, r) → Utf8.Text t) (h : push c scanned = some (text, rest)) :
    Utf8.Text text := by
  obtain ⟨⟨t, r⟩, ht, heq⟩ := Option.map_eq_some_iff.mp h
  obtain ⟨rfl, rfl⟩ := Prod.mk.inj heq
  exact Utf8.text_append hc (ih ht)

/-- **A scanned string is UTF-8.** -/
theorem scanString_text {s text rest : Bytes} (h : scanString s = some (text, rest)) :
    Utf8.Text text := by
  fun_induction scanString s generalizing text rest
  case case2 =>
    obtain ⟨rfl, rfl⟩ := Prod.mk.inj (Option.some.inj h)
    exact .nil
  case case6 hhigh _ _ _ _ _ hlow _ _ ih =>
    refine push_text (Utf8.text_of_char (Utf8.encode_char ?_ ?_)) ih h <;> omega
  case case11 hcp hhigh hlow _ ih =>
    have hle := codepoint_le hcp
    refine push_text (Utf8.text_of_char (Utf8.encode_char ?_ ?_)) ih h <;> omega
  case case14 hescape _ ih =>
    exact push_text (Utf8.text_of_char (.one (shortEscape_ascii hescape))) ih h
  case case16 hascii ih => exact push_text (Utf8.text_of_char (.one hascii)) ih h
  case case18 hwide ih =>
    rw [Bool.and_eq_true] at hwide
    exact push_text (Utf8.text_of_char (.two hwide.1 hwide.2)) ih h
  case case20 hwide ih =>
    rw [Bool.and_eq_true] at hwide
    exact push_text (Utf8.text_of_char (.three hwide.1 hwide.2)) ih h
  case case22 hwide ih =>
    rw [Bool.and_eq_true, Bool.and_eq_true] at hwide
    exact push_text (Utf8.text_of_char (.four hwide.1.1 hwide.1.2 hwide.2)) ih h
  all_goals cases h

/-! ### Tokens -/

def Token.IsText : Token → Prop
  | .string s => Utf8.Text s
  | _ => True

theorem scanNumber_isText {s rest : Bytes} {token : Token} (h : scanNumber s = some (token, rest)) :
    token.IsText := by
  have hnumber : ∀ {negative whole fraction exponent},
      (numberToken negative whole fraction exponent).IsText := by
    intro negative whole fraction exponent
    unfold numberToken
    simp only
    split
    · split_ifs <;> trivial
    · trivial
  simp only [scanNumber, Option.bind_eq_bind, Option.bind_eq_some_iff, Option.pure_def,
    Option.some.injEq, Prod.mk.injEq] at h
  obtain ⟨_, -, _, -, _, -, rfl, -⟩ := h
  exact hnumber

theorem isText_ite {p : Prop} [Decidable p] {a b : Token × Bytes} (ha : a.1.IsText)
    (hb : b.1.IsText) : (if p then a else b).1.IsText := by
  split_ifs
  · exact ha
  · exact hb

theorem scanLiteral_isText {letters s : Bytes} {token : Token} (h : token.IsText) :
    (scanLiteral letters token s).1.IsText := isText_ite h trivial

theorem tokenAt_isText (c : UInt8) (s : Bytes) : (tokenAt c s).1.IsText := by
  -- One alternative for every first character.
  refine isText_ite trivial (isText_ite trivial (isText_ite trivial (isText_ite trivial
    (isText_ite trivial (isText_ite trivial ?_)))))
  refine isText_ite (scanLiteral_isText trivial) (isText_ite (scanLiteral_isText trivial)
    (isText_ite (scanLiteral_isText trivial) ?_))
  refine isText_ite ?_ (isText_ite ?_ (isText_ite trivial trivial))
  · split
    · rename_i hscan
      exact scanString_text hscan
    · trivial
  · split
    · rename_i hscan
      exact scanNumber_isText hscan
    · trivial

theorem nextToken_isText (s : Bytes) : (nextToken s).1.IsText := by
  unfold nextToken
  split
  · trivial
  · exact tokenAt_isText _ _

theorem tokens_isText (fuel : Nat) (s : Bytes) : ∀ token ∈ tokens fuel s, token.IsText := by
  induction fuel generalizing s with
  | zero => simp [tokens]
  | succ fuel ih =>
    intro token htoken
    unfold tokens at htoken
    split at htoken
    · obtain rfl := List.mem_singleton.mp htoken
      trivial
    · obtain rfl := List.mem_singleton.mp htoken
      trivial
    · rename_i first rest _ _ hnext
      rcases List.mem_cons.mp htoken with rfl | htoken
      · have hfirst := nextToken_isText s
        rwa [hnext] at hfirst
      · exact ih rest token htoken

/-! ### The parser -/

def Frame.IsText : Frame → Prop
  | .array items => ∀ j ∈ items, j.IsText
  | .object fields => ∀ f ∈ fields, Utf8.Text f.1 ∧ f.2.IsText
  | .member fields key => (∀ f ∈ fields, Utf8.Text f.1 ∧ f.2.IsText) ∧ Utf8.Text key

/-- Every string the parser holds is UTF-8. -/
def Parser.IsText : Parser → Prop
  | .value stack | .element stack | .firstKey stack | .key stack | .colon stack | .after stack =>
    ∀ frame ∈ stack, frame.IsText
  | .done j | .finished j => j.IsText

theorem deliver_isText {j : Json} {stack : List Frame} (hj : j.IsText)
    (hstack : ∀ frame ∈ stack, frame.IsText) : (deliver j stack).IsText := by
  cases stack with
  | nil => exact hj
  | cons frame stack =>
    rw [List.forall_mem_cons] at hstack
    obtain ⟨hframe, hrest⟩ := hstack
    cases frame with
    | array items =>
      refine List.forall_mem_cons.mpr ⟨?_, hrest⟩
      intro i hi
      rcases List.mem_append.mp hi with hi | hi
      · exact hframe i hi
      · rw [List.mem_singleton.mp hi]
        exact hj
    | member fields key =>
      refine List.forall_mem_cons.mpr ⟨?_, hrest⟩
      intro f hf
      rcases Assoc.mem_insertSorted hf with rfl | hf
      · exact ⟨hframe.2, hj⟩
      · exact hframe.1 f hf
    | object fields => exact List.forall_mem_cons.mpr ⟨hframe, hrest⟩

theorem startValue_isText {limit : Option DepthLimit} {stack : List Frame} {token : Token}
    {p : Parser} (h : startValue limit stack token = .ok p) (htoken : token.IsText)
    (hstack : ∀ frame ∈ stack, frame.IsText) : p.IsText := by
  have hscalar : ∀ {j : Json}, scalar token = some j → j.IsText := by
    intro j hj
    cases token <;> simp [scalar] at hj
    case literalTrue => exact hj ▸ .bool _
    case literalFalse => exact hj ▸ .bool _
    case literalNull => exact hj ▸ .null
    case string s => exact hj ▸ .str htoken
    case unsigned n => exact hj ▸ .uint _
    case integer i => exact hj ▸ .int _
    case float x => exact hj.2 ▸ .float _
  unfold startValue at h
  split at h
  · simp only [bind_eq_ok, pure_eq_ok] at h
    obtain ⟨-, -, rfl⟩ := h
    exact List.forall_mem_cons.mpr ⟨List.forall_mem_nil _, hstack⟩
  · simp only [bind_eq_ok, pure_eq_ok] at h
    obtain ⟨-, -, rfl⟩ := h
    exact List.forall_mem_cons.mpr ⟨List.forall_mem_nil _, hstack⟩
  · split at h
    · rename_i j hj
      simp only [bind_eq_ok, pure_eq_ok] at h
      obtain ⟨-, -, rfl⟩ := h
      exact deliver_isText (hscalar hj) hstack
    · cases h

theorem startMember_isText {limit : Option DepthLimit} {stack : List Frame} {token : Token}
    {p : Parser} (h : startMember limit stack token = .ok p) (htoken : token.IsText)
    (hstack : ∀ frame ∈ stack, frame.IsText) : p.IsText := by
  unfold startMember at h
  split at h
  · simp only [bind_eq_ok, pure_eq_ok] at h
    obtain ⟨-, -, rfl⟩ := h
    rw [List.forall_mem_cons] at hstack
    exact List.forall_mem_cons.mpr ⟨⟨hstack.1, htoken⟩, hstack.2⟩
  · cases h

theorem array_isText {items : List Json} {stack : List Frame}
    (h : ∀ frame ∈ Frame.array items :: stack, frame.IsText) :
    (Json.arr items).IsText ∧ ∀ frame ∈ stack, frame.IsText := by
  rw [List.forall_mem_cons] at h
  exact ⟨.arr h.1, h.2⟩

theorem object_isText {fields : List (Bytes × Json)} {stack : List Frame}
    (h : ∀ frame ∈ Frame.object fields :: stack, frame.IsText) :
    (Json.obj fields).IsText ∧ ∀ frame ∈ stack, frame.IsText := by
  rw [List.forall_mem_cons] at h
  exact ⟨.obj (fun f hf => (h.1 f hf).1) fun f hf => (h.1 f hf).2, h.2⟩

theorem step_isText {limit : Option DepthLimit} {p p' : Parser} {token : Token}
    (h : step limit p token = .ok p') (hp : p.IsText) (htoken : token.IsText) : p'.IsText := by
  unfold step at h
  split at h
  · exact startValue_isText h htoken hp
  · obtain rfl := Except.ok.inj h
    exact deliver_isText (array_isText hp).1 (array_isText hp).2
  · exact startValue_isText h htoken hp
  · obtain rfl := Except.ok.inj h
    exact deliver_isText (object_isText hp).1 (object_isText hp).2
  · exact startMember_isText h htoken hp
  · exact startMember_isText h htoken hp
  · obtain rfl := Except.ok.inj h
    exact hp
  · obtain rfl := Except.ok.inj h
    exact hp
  · obtain rfl := Except.ok.inj h
    exact deliver_isText (array_isText hp).1 (array_isText hp).2
  · obtain rfl := Except.ok.inj h
    exact hp
  · obtain rfl := Except.ok.inj h
    exact deliver_isText (object_isText hp).1 (object_isText hp).2
  · obtain rfl := Except.ok.inj h
    exact hp
  · cases h

/-- **Every string of a parsed value is UTF-8.** -/
theorem parse_isText {limit : Option DepthLimit} {text : Bytes} {j : Json}
    (h : parse limit text = .ok j) : j.IsText := by
  rw [parse, bind_eq_ok] at h
  obtain ⟨p, hrun, hend⟩ := h
  have hp : p.IsText := by
    have hstart : (Parser.value []).IsText := List.forall_mem_nil _
    exact foldlM_invariant (fun q q' token htoken hq hstep =>
      step_isText hstep hq (tokens_isText _ _ token htoken)) hstart hrun
  split at hend
  · rw [pure_eq_ok] at hend
    exact hend ▸ hp
  · cases hend

end ContextHmi.Json
