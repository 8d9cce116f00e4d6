import ContextHmi.Library.Outcome

/-!
# While loops that can throw

`while (condition) body;` with both parts in `Except`, run on fuel. With a measure that every turn
lowers, the fuel is never used up and the loop has the equation of the source.

* `whileLoop_eq`      : the loop turns once, or stops;
* `whileLoop_rule`    : an invariant of the turns holds after the loop, and the condition is false;
* `whileLoop_ends`    : the loop ends after at most as many turns as its measure;
* `whileLoop_skip`    : where the condition only turns false, the loop gets to any turn at which it
  still holds.
-/

namespace Outcome

variable {ε σ : Type}

/-- `while (condition s) s = body s;`, at most `fuel` turns. -/
def whileLoop (condition : σ → Except ε Bool) (body : σ → Except ε σ) : Nat → σ → Except ε σ
  | 0, s => .ok s
  | fuel + 1, s => do
    let goes ← condition s
    if goes then body s >>= whileLoop condition body fuel else return s

variable {condition : σ → Except ε Bool} {body : σ → Except ε σ} {measure : σ → Nat}

/-- Fuel beyond the measure changes nothing. -/
theorem whileLoop_fuel
    (hbody : ∀ s s', condition s = .ok true → body s = .ok s' → measure s' < measure s) {f g : Nat}
    {s : σ} (hf : measure s < f) (hg : measure s < g) :
    whileLoop condition body f s = whileLoop condition body g s := by
  induction f generalizing g s with
  | zero => omega
  | succ f ih =>
    cases g with
    | zero => omega
    | succ g =>
      unfold whileLoop
      cases hc : condition s with
      | error e => rfl
      | ok goes =>
        cases goes with
        | false => rfl
        | true =>
          cases hb : body s with
          | error e => simp
          | ok s' =>
            have hlt := hbody s s' hc hb
            simpa using ih (by omega) (by omega)

theorem whileLoop_eq
    (hbody : ∀ s s', condition s = .ok true → body s = .ok s' → measure s' < measure s) (s : σ) :
    whileLoop condition body (measure s + 1) s = do
      let goes ← condition s
      if goes then body s >>= fun s' => whileLoop condition body (measure s' + 1) s'
        else return s := by
  conv_lhs => unfold whileLoop
  cases hc : condition s with
  | error e => rfl
  | ok goes =>
    cases goes with
    | false => rfl
    | true =>
      cases hb : body s with
      | error e => simp
      | ok s' =>
        have hlt := hbody s s' hc hb
        simpa using whileLoop_fuel hbody hlt (Nat.lt_succ_self _)

theorem whileLoop_invariant {P : σ → Prop}
    (hstep : ∀ s s', P s → condition s = .ok true → body s = .ok s' → P s') {fuel : Nat} {s t : σ}
    (hs : P s) (h : whileLoop condition body fuel s = .ok t) : P t := by
  induction fuel generalizing s with
  | zero =>
    cases h
    exact hs
  | succ fuel ih =>
    simp only [whileLoop, bind_eq_ok] at h
    obtain ⟨goes, hc, h⟩ := h
    cases goes with
    | false =>
      cases h
      exact hs
    | true =>
      simp only [if_true, bind_eq_ok] at h
      obtain ⟨s', hb, h⟩ := h
      exact ih (hstep s s' hs hc hb) h

/-- A view of the states under which a loop does the same. -/
theorem whileLoop_map {view : σ → σ} (hcondition : ∀ s, condition (view s) = condition s)
    (hbody : ∀ s, body (view s) = view <$> body s) (fuel : Nat) (s : σ) :
    whileLoop condition body fuel (view s) = view <$> whileLoop condition body fuel s := by
  induction fuel generalizing s with
  | zero => rfl
  | succ fuel ih =>
    rw [whileLoop, whileLoop, hcondition, hbody]
    cases condition s with
    | error e => rfl
    | ok goes =>
      cases goes with
      | false => rfl
      | true =>
        cases body s with
        | error e => rfl
        | ok s' => exact ih s'

theorem whileLoop_stops
    (hbody : ∀ s s', condition s = .ok true → body s = .ok s' → measure s' < measure s) {fuel : Nat}
    {s t : σ} (hfuel : measure s < fuel) (h : whileLoop condition body fuel s = .ok t) :
    condition t = .ok false := by
  induction fuel generalizing s with
  | zero => omega
  | succ fuel ih =>
    simp only [whileLoop, bind_eq_ok] at h
    obtain ⟨goes, hc, h⟩ := h
    cases goes with
    | false =>
      cases h
      exact hc
    | true =>
      simp only [if_true, bind_eq_ok] at h
      obtain ⟨s', hb, h⟩ := h
      have hlt := hbody s s' hc hb
      exact ih (by omega) h

/-- The rule of a loop: its invariant holds after it, and its condition does not. -/
theorem whileLoop_rule {P : σ → Prop}
    (hbody : ∀ s s', condition s = .ok true → body s = .ok s' → measure s' < measure s)
    (hstep : ∀ s s', P s → condition s = .ok true → body s = .ok s' → P s') {s t : σ} (hs : P s)
    (h : whileLoop condition body (measure s + 1) s = .ok t) : P t ∧ condition t = .ok false :=
  ⟨whileLoop_invariant hstep hs h, whileLoop_stops hbody (Nat.lt_succ_self _) h⟩

/-! ### Turns -/

/-- `n` turns of a loop. -/
inductive Turns (condition : σ → Except ε Bool) (body : σ → Except ε σ) : Nat → σ → σ → Prop where
  | stay (s : σ) : Turns condition body 0 s s
  | turn {s s' t : σ} {n : Nat} : condition s = .ok true → body s = .ok s' →
      Turns condition body n s' t → Turns condition body (n + 1) s t

/-- The states a loop turns in, as they come. -/
def whileTrace (condition : σ → Except ε Bool) (body : σ → Except ε σ) : Nat → σ → List σ
  | 0, _ => []
  | fuel + 1, s => match condition s with
    | .ok true => s :: match body s with
      | .ok s' => whileTrace condition body fuel s'
      | .error _ => []
    | _ => []

theorem whileTrace_ok {s s' : σ} (hc : condition s = .ok true) (hb : body s = .ok s') (fuel : Nat) :
    whileTrace condition body (fuel + 1) s = s :: whileTrace condition body fuel s' := by
  rw [whileTrace, hc]
  simp only [hb]

theorem whileTrace_error {s : σ} {e : ε} (hc : condition s = .ok true) (hb : body s = .error e)
    (fuel : Nat) : whileTrace condition body (fuel + 1) s = [s] := by
  rw [whileTrace, hc]
  simp only [hb]

/-- Where a loop ends, and with what. -/
inductive Ends (condition : σ → Except ε Bool) (body : σ → Except ε σ) (t : σ) :
    Except ε σ → Prop where
  | done : condition t = .ok false → Ends condition body t (.ok t)
  | conditionThrows {e : ε} : condition t = .error e → Ends condition body t (.error e)
  | bodyThrows {e : ε} : condition t = .ok true → body t = .error e →
      Ends condition body t (.error e)

theorem Turns.invariant {P : σ → Prop}
    (hstep : ∀ s s', P s → condition s = .ok true → body s = .ok s' → P s') {n : Nat} {s t : σ}
    (h : Turns condition body n s t) (hs : P s) : P t := by
  induction h with
  | stay => exact hs
  | turn hc hb _ ih => exact ih (hstep _ _ hs hc hb)

/-- **A loop with a measure ends**, after at most that many turns. -/
theorem whileLoop_ends
    (hbody : ∀ s s', condition s = .ok true → body s = .ok s' → measure s' < measure s) (s : σ) :
    ∃ n t, n ≤ measure s ∧ Turns condition body n s t ∧
      Ends condition body t (whileLoop condition body (measure s + 1) s) := by
  induction hm : measure s using Nat.strong_induction_on generalizing s with
  | _ m ih =>
    subst hm
    rw [whileLoop_eq hbody]
    cases hc : condition s with
    | error e => exact ⟨0, s, Nat.zero_le _, .stay s, .conditionThrows hc⟩
    | ok goes =>
      cases goes with
      | false => exact ⟨0, s, Nat.zero_le _, .stay s, .done hc⟩
      | true =>
        cases hb : body s with
        | error e => exact ⟨0, s, Nat.zero_le _, .stay s, .bodyThrows hc hb⟩
        | ok s' =>
          have hlt := hbody s s' hc hb
          obtain ⟨n, t, hn, hturns, hends⟩ := ih (measure s') hlt s' rfl
          exact ⟨n + 1, t, by omega, .turn hc hb hturns, hends⟩

/-! ### Conditions that only turn false -/

/-- `t` is where the body leads from `s`, whatever the condition says. -/
inductive Leads (body : σ → Except ε σ) : σ → σ → Prop where
  | stay (s : σ) : Leads body s s
  | turn {s s' t : σ} : body s = .ok s' → Leads body s' t → Leads body s t

theorem Leads.trans {s t u : σ} (h : Leads body s t) (h' : Leads body t u) : Leads body s u := by
  induction h with
  | stay => exact h'
  | turn hb _ ih => exact .turn hb (ih h')

theorem Leads.invariant {P : σ → Prop} (hstep : ∀ s s', P s → body s = .ok s' → P s') {s t : σ}
    (h : Leads body s t) (hs : P s) : P t := by
  induction h with
  | stay => exact hs
  | turn hb _ ih => exact ih (hstep _ _ hs hb)

/-- A turn does not make the condition true. -/
def Antitone (condition : σ → Except ε Bool) (body : σ → Except ε σ) : Prop :=
  ∀ s s' b, body s = .ok s' → condition s = .ok b → ∃ b', condition s' = .ok b' ∧ (b' = true → b = true)

theorem Leads.antitone (hanti : Antitone condition body) {s t : σ} (h : Leads body s t) {b : Bool}
    (hb : condition s = .ok b) : ∃ b', condition t = .ok b' ∧ (b' = true → b = true) := by
  induction h generalizing b with
  | stay => exact ⟨b, hb, id⟩
  | turn hbody _ ih =>
    obtain ⟨b', hb', himp⟩ := hanti _ _ b hbody hb
    obtain ⟨b'', hb'', himp'⟩ := ih hb'
    exact ⟨b'', hb'', fun h => himp (himp' h)⟩

/-- **A loop and a place its turns lead to**: it gets there while the condition holds there, and ends
before or at it otherwise. -/
theorem whileLoop_skip (hanti : Antitone condition body)
    (hbody : ∀ s s', condition s = .ok true → body s = .ok s' → measure s' < measure s) {s t : σ}
    (h : Leads body s t) {b : Bool} (hb : condition s = .ok b) :
    (condition t = .ok true ∧ whileLoop condition body (measure s + 1) s =
      whileLoop condition body (measure t + 1) t) ∨
    (condition t = .ok false ∧ ∃ u, Leads body s u ∧ Leads body u t ∧
      whileLoop condition body (measure s + 1) s = .ok u) := by
  induction h generalizing b with
  | stay s =>
    cases b with
    | true => exact .inl ⟨hb, rfl⟩
    | false =>
      refine .inr ⟨hb, s, .stay s, .stay s, ?_⟩
      rw [whileLoop_eq hbody, hb]
      rfl
  | @turn s s' t hturn hrest ih =>
    obtain ⟨b', hb', himp⟩ := hanti s s' b hturn hb
    cases b with
    | true =>
      have hskip : whileLoop condition body (measure s + 1) s =
          whileLoop condition body (measure s' + 1) s' := by
        rw [whileLoop_eq hbody, hb, ok_bind, if_pos rfl, hturn, ok_bind]
      rw [hskip]
      rcases ih hb' with hgoes | ⟨hstops, u, hsu, hut, hloop⟩
      · exact .inl hgoes
      · exact .inr ⟨hstops, u, .turn hturn hsu, hut, hloop⟩
    | false =>
      obtain ⟨b'', hb'', himp'⟩ := hrest.antitone hanti hb'
      have hfalse : b'' = false := by
        by_contra htrue
        rw [Bool.not_eq_false] at htrue
        exact Bool.false_ne_true (himp (himp' htrue))
      refine .inr ⟨hfalse ▸ hb'', s, .stay s, .turn hturn hrest, ?_⟩
      rw [whileLoop_eq hbody, hb]
      rfl

end Outcome
