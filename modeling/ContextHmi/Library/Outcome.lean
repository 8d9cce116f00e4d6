import Mathlib.Data.List.Forall2
import Mathlib.Tactic

/-!
# Calls that return or throw

Rules for reading a successful run of an `Except` program backwards: what each of its steps returned.

* `bind_eq_ok`, `map_eq_ok`, `throwIf_eq_ok` : one step;
* `mapM_eq_ok`        : a loop that collects one result an element;
* `foldlM_invariant`  : an invariant of a loop that threads a state;
* `Throws`, `throws_bind` : what the exceptions of a call can be;
* `Matches`, `matches_bind` : two calls that return related values or throw the same exception.
-/

namespace Outcome

variable {ε α β γ : Type}

/-- `if (bad) throw e;` -/
def throwIf (bad : Prop) [Decidable bad] (e : ε) : Except ε Unit := if bad then .error e else .ok ()

@[simp] theorem throwIf_eq_ok {bad : Prop} [Decidable bad] {e : ε} {u : Unit} :
    throwIf bad e = .ok u ↔ ¬ bad := by
  by_cases h : bad <;> simp [throwIf, h]

theorem throwIf_of_not {bad : Prop} [Decidable bad] (e : ε) (h : ¬ bad) : throwIf bad e = .ok () :=
  if_neg h

theorem throwIf_of {bad : Prop} [Decidable bad] (e : ε) (h : bad) : throwIf bad e = .error e :=
  if_pos h

theorem bind_eq_ok {x : Except ε α} {f : α → Except ε β} {b : β} :
    (x >>= f) = .ok b ↔ ∃ a, x = .ok a ∧ f a = .ok b := by
  cases x with
  | error e => exact ⟨fun h => (by cases h), fun ⟨_, h, _⟩ => by cases h⟩
  | ok a => exact ⟨fun h => ⟨a, rfl, h⟩, fun ⟨_, h, h'⟩ => by cases h; exact h'⟩

theorem throwIf_bind_eq_ok {bad : Prop} [Decidable bad] {e : ε} {f : Unit → Except ε β} {b : β} :
    (throwIf bad e >>= f) = .ok b ↔ ¬ bad ∧ f () = .ok b := by
  rw [bind_eq_ok]
  constructor
  · rintro ⟨_, h, hf⟩
    exact ⟨throwIf_eq_ok.mp h, hf⟩
  · rintro ⟨h, hf⟩
    exact ⟨(), throwIf_eq_ok.mpr h, hf⟩

theorem map_eq_ok {f : α → β} {x : Except ε α} {b : β} :
    f <$> x = .ok b ↔ ∃ a, x = .ok a ∧ f a = b := by
  cases x with
  | error e => exact ⟨fun h => (by cases h), fun ⟨_, h, _⟩ => by cases h⟩
  | ok a => exact ⟨fun h => ⟨a, rfl, by cases h; rfl⟩, fun ⟨_, h, h'⟩ => by cases h; exact h' ▸ rfl⟩

@[simp] theorem pure_eq_ok {a b : α} : (pure a : Except ε α) = .ok b ↔ a = b :=
  ⟨fun h => by cases h; rfl, fun h => h ▸ rfl⟩

@[simp] theorem ok_bind (a : α) (f : α → Except ε β) : (Except.ok a >>= f) = f a := rfl

@[simp] theorem error_bind (e : ε) (f : α → Except ε β) :
    ((Except.error e : Except ε α) >>= f) = .error e := rfl

@[simp] theorem ok_map (a : α) (f : α → β) : (f <$> (Except.ok a : Except ε α)) = .ok (f a) := rfl

theorem mapError_eq_ok {ε' : Type} {f : ε → ε'} {x : Except ε α} {a : α} :
    x.mapError f = .ok a ↔ x = .ok a := by
  cases x <;> simp [Except.mapError]

theorem eq_ok_of_isSome {x : Except ε α} (h : x.toOption.isSome = true) (d : α) :
    x = .ok (x.toOption.getD d) := by
  cases x with
  | error e => cases h
  | ok a => rfl

theorem eq_ok_unit {x : Except ε Unit} (h : x.toOption.isSome = true) : x = .ok () :=
  eq_ok_of_isSome h ()

theorem exists_ok_of_any {x : Except ε α} (p : α → Bool) (h : x.toOption.any p = true) :
    ∃ a, x = .ok a ∧ p a = true := by
  cases x with
  | error e => cases h
  | ok a => exact ⟨a, rfl, h⟩

/-- The call throws what passes a test. -/
def throwsWith (p : ε → Bool) : Except ε α → Bool
  | .error e => p e
  | .ok _ => false

theorem eq_error_of_throwsWith [DecidableEq ε] {x : Except ε α} {e : ε}
    (h : throwsWith (fun e' => e' = e) x = true) : x = .error e := by
  cases x with
  | error e' => rw [of_decide_eq_true h]
  | ok a => cases h

theorem toOption_ok (a : α) : (Except.ok a : Except ε α).toOption = some a := rfl

/-! ### Loops -/

section Forall₂
variable {R : α → β → Prop} {l : List α} {l' : List β}

theorem forall₂_mem_left (h : List.Forall₂ R l l') {a : α} (ha : a ∈ l) : ∃ b ∈ l', R a b := by
  induction h with
  | nil => cases ha
  | cons hR _ ih =>
    rcases List.mem_cons.mp ha with rfl | ha
    · exact ⟨_, List.mem_cons_self, hR⟩
    · obtain ⟨b, hb, hab⟩ := ih ha
      exact ⟨b, List.mem_cons_of_mem _ hb, hab⟩

theorem forall₂_mem_right (h : List.Forall₂ R l l') {b : β} (hb : b ∈ l') : ∃ a ∈ l, R a b :=
  forall₂_mem_left h.flip hb

theorem forall₂_map_eq {f : α → γ} {g : β → γ} (hfg : ∀ a b, R a b → f a = g b)
    (h : List.Forall₂ R l l') : l.map f = l'.map g := by
  induction h with
  | nil => rfl
  | cons hR _ ih => rw [List.map_cons, List.map_cons, hfg _ _ hR, ih]

end Forall₂

theorem mapM_eq_ok {f : α → Except ε β} {l : List α} {out : List β} :
    l.mapM f = .ok out ↔ List.Forall₂ (fun a b => f a = .ok b) l out := by
  induction l generalizing out with
  | nil =>
    simp only [List.mapM_nil, pure_eq_ok, List.forall₂_nil_left_iff]
    exact eq_comm
  | cons a l ih =>
    simp only [List.mapM_cons, bind_eq_ok, pure_eq_ok, ih, List.forall₂_cons_left_iff]
    constructor
    · rintro ⟨b, hb, bs, hbs, rfl⟩
      exact ⟨b, bs, hb, hbs, rfl⟩
    · rintro ⟨b, bs, hb, hbs, rfl⟩
      exact ⟨b, hb, bs, hbs, rfl⟩

theorem mapM_pair_eq_ok {f : α → Except ε β} {l : List α} {rows : List (α × β)} :
    l.mapM (fun a => (fun b => (a, b)) <$> f a) = .ok rows ↔
      rows.map Prod.fst = l ∧ ∀ row ∈ rows, f row.1 = .ok row.2 := by
  rw [mapM_eq_ok]
  induction l generalizing rows with
  | nil =>
    rw [List.forall₂_nil_left_iff]
    constructor
    · rintro rfl
      simp
    · rintro ⟨h, -⟩
      exact List.map_eq_nil_iff.mp h
  | cons a l ih =>
    rw [List.forall₂_cons_left_iff]
    constructor
    · rintro ⟨row, rows, hrow, hrows, rfl⟩
      obtain ⟨b, hb, rfl⟩ := map_eq_ok.mp hrow
      obtain ⟨hfst, hall⟩ := ih.mp hrows
      exact ⟨by rw [List.map_cons, hfst], by simpa using And.intro hb hall⟩
    · rintro ⟨hfst, hall⟩
      cases rows with
      | nil => cases hfst
      | cons row rows =>
        obtain ⟨rfl, hrest⟩ := List.cons.inj hfst
        rw [List.forall_mem_cons] at hall
        exact ⟨row, rows, map_eq_ok.mpr ⟨row.2, hall.1, rfl⟩, ih.mpr ⟨hrest, hall.2⟩, rfl⟩

theorem forM_eq_ok {f : α → Except ε Unit} {l : List α} {u : Unit} :
    forM l f = .ok u ↔ ∀ a ∈ l, f a = .ok () := by
  induction l with
  | nil => simp [List.forM_nil]
  | cons a l ih =>
    rw [List.forM_cons, bind_eq_ok, List.forall_mem_cons]
    constructor
    · rintro ⟨_, ha, hl⟩
      exact ⟨ha, ih.mp hl⟩
    · rintro ⟨ha, hl⟩
      exact ⟨(), ha, ih.mpr hl⟩

theorem mapM_eq_map {f : α → Except ε β} {g : α → β} {l : List α}
    (h : ∀ a ∈ l, f a = .ok (g a)) : l.mapM f = .ok (l.map g) := by
  rw [mapM_eq_ok, List.forall₂_map_right_iff, List.forall₂_same]
  exact h

theorem mapM_eq_ok_iff {f : α → Except ε β} {P : α → Prop} {g : α → β}
    (h : ∀ a b, f a = .ok b ↔ P a ∧ b = g a) {l : List α} {out : List β} :
    l.mapM f = .ok out ↔ (∀ a ∈ l, P a) ∧ out = l.map g := by
  induction l generalizing out with
  | nil =>
    simp only [List.mapM_nil, pure_eq_ok, List.not_mem_nil, false_implies, implies_true, true_and,
      List.map_nil]
    exact eq_comm
  | cons a l ih =>
    simp only [List.mapM_cons, bind_eq_ok, pure_eq_ok, h, ih, List.forall_mem_cons, List.map_cons]
    constructor
    · rintro ⟨b, ⟨ha, rfl⟩, bs, ⟨hl, rfl⟩, rfl⟩
      exact ⟨⟨ha, hl⟩, rfl⟩
    · rintro ⟨⟨ha, hl⟩, rfl⟩
      exact ⟨_, ⟨ha, rfl⟩, _, ⟨hl, rfl⟩, rfl⟩

theorem exists_mapM {f : α → Except ε β} {l : List α} (h : ∀ a ∈ l, ∃ b, f a = .ok b) :
    ∃ out, l.mapM f = .ok out := by
  induction l with
  | nil => exact ⟨[], rfl⟩
  | cons a l ih =>
    obtain ⟨⟨b, hb⟩, hl⟩ := List.forall_mem_cons.mp h
    obtain ⟨out, hout⟩ := ih hl
    exact ⟨b :: out, by rw [List.mapM_cons, hb, hout]; rfl⟩

theorem foldlM_isOk_iff {f : γ → α → Except ε γ} {P : α → Prop} {l : List α}
    (h : ∀ a ∈ l, ∀ c, (∃ c', f c a = .ok c') ↔ P a) (c : γ) :
    (∃ c', l.foldlM f c = .ok c') ↔ ∀ a ∈ l, P a := by
  induction l generalizing c with
  | nil => simp [pure, Except.pure]
  | cons a l ih =>
    obtain ⟨ha, hl⟩ := List.forall_mem_cons.mp h
    rw [List.foldlM_cons, List.forall_mem_cons, ← ha c]
    constructor
    · rintro ⟨c', hc'⟩
      obtain ⟨d, hd, hrest⟩ := bind_eq_ok.mp hc'
      exact ⟨⟨d, hd⟩, (ih hl d).mp ⟨c', hrest⟩⟩
    · rintro ⟨⟨d, hd⟩, hrest⟩
      obtain ⟨c', hc'⟩ := (ih hl d).mpr hrest
      exact ⟨c', bind_eq_ok.mpr ⟨d, hd, hc'⟩⟩

theorem mapM_isOk_iff {f : α → Except ε β} {l : List α} :
    (∃ out, l.mapM f = .ok out) ↔ ∀ a ∈ l, ∃ b, f a = .ok b := by
  constructor
  · rintro ⟨out, hout⟩ a ha
    obtain ⟨b, -, hb⟩ := forall₂_mem_left (mapM_eq_ok.mp hout) ha
    exact ⟨b, hb⟩
  · exact exists_mapM

/-- A loop over a state keeps what every turn keeps. -/
theorem foldlM_invariant {f : γ → α → Except ε γ} {P : γ → Prop} {l : List α}
    (hstep : ∀ s s' a, a ∈ l → P s → f s a = .ok s' → P s') {s s' : γ} (hs : P s)
    (h : l.foldlM f s = .ok s') : P s' := by
  induction l generalizing s with
  | nil =>
    simp only [List.foldlM_nil, pure_eq_ok] at h
    exact h ▸ hs
  | cons a l ih =>
    simp only [List.foldlM_cons, bind_eq_ok] at h
    obtain ⟨t, ht, h⟩ := h
    exact ih (fun s s' b hb => hstep s s' b (List.mem_cons_of_mem _ hb))
      (hstep s t a List.mem_cons_self hs ht) h

/-- In a loop whose turns only add to a state, what a turn leaves is still there at the end. -/
theorem foldlM_mem {f : γ → α → Except ε γ} {R : γ → γ → Prop} (hrefl : ∀ s, R s s)
    (htrans : ∀ {s t u}, R s t → R t u → R s u) {l : List α}
    (hstep : ∀ s s' a, f s a = .ok s' → R s s') {s s' : γ} (h : l.foldlM f s = .ok s') :
    R s s' ∧ ∀ a ∈ l, ∃ t t', f t a = .ok t' ∧ R t' s' := by
  induction l generalizing s with
  | nil =>
    simp only [List.foldlM_nil, pure_eq_ok] at h
    exact ⟨h ▸ hrefl s, by simp⟩
  | cons a l ih =>
    simp only [List.foldlM_cons, bind_eq_ok] at h
    obtain ⟨t, ht, h⟩ := h
    obtain ⟨hR, hall⟩ := ih h
    refine ⟨htrans (hstep s t a ht) hR, fun b hb => ?_⟩
    rcases List.mem_cons.mp hb with rfl | hb
    · exact ⟨s, t, ht, hR⟩
    · exact hall b hb

/-! ### Exceptions -/

/-- Every exception of the call meets `E`. -/
def Throws (E : ε → Prop) (x : Except ε α) : Prop := ∀ e, x = .error e → E e

section Throws
variable {E : ε → Prop}

@[simp] theorem throws_ok (a : α) : Throws E (.ok a : Except ε α) := fun _ h => by cases h

@[simp] theorem throws_pure (a : α) : Throws E (pure a : Except ε α) := throws_ok a

theorem throws_error {e : ε} (h : E e) : Throws E (.error e : Except ε α) := by
  intro e' he
  exact Except.error.inj he ▸ h

theorem throws_of_ok {x : Except ε α} (h : ∃ a, x = .ok a) : Throws E x := by
  obtain ⟨a, rfl⟩ := h
  exact throws_ok a

theorem throws_throwIf {bad : Prop} [Decidable bad] {e : ε} (h : E e) : Throws E (throwIf bad e) := by
  by_cases hbad : bad
  · rw [throwIf_of e hbad]
    exact throws_error h
  · rw [throwIf_of_not e hbad]
    exact throws_ok ()

theorem throws_bind {x : Except ε α} {f : α → Except ε β} (hx : Throws E x)
    (hf : ∀ a, x = .ok a → Throws E (f a)) : Throws E (x >>= f) := by
  cases x with
  | error e => exact throws_error (hx e rfl)
  | ok a => exact hf a rfl

/-- Behind a step that only throws what is allowed, what it returns counts. -/
theorem throws_bind_iff {x : Except ε α} {f : α → Except ε β} (hx : Throws E x) :
    Throws E (x >>= f) ↔ ∀ a, x = .ok a → Throws E (f a) := by
  refine ⟨fun h a ha => ?_, throws_bind hx⟩
  rwa [ha, ok_bind] at h

theorem throws_bind_iff_of_not {x : Except ε α} {f : α → Except ε β}
    (hx : Throws (fun e => ¬ E e) x) :
    Throws E (x >>= f) ↔ ∃ a, x = .ok a ∧ Throws E (f a) := by
  cases x with
  | error e =>
    constructor
    · exact fun h => absurd (h e rfl) (hx e rfl)
    · rintro ⟨a, ha, -⟩
      cases ha
  | ok a => exact ⟨fun h => ⟨a, rfl, h⟩, fun ⟨_, ha, h⟩ => by cases ha; exact h⟩

theorem throws_map {x : Except ε α} {f : α → β} (hx : Throws E x) : Throws E (f <$> x) := by
  cases x with
  | error e => exact throws_error (hx e rfl)
  | ok a => exact throws_ok (f a)

theorem throws_mapM {f : α → Except ε β} {l : List α} (h : ∀ a ∈ l, Throws E (f a)) :
    Throws E (l.mapM f) := by
  induction l with
  | nil => exact throws_pure []
  | cons a l ih =>
    obtain ⟨ha, hl⟩ := List.forall_mem_cons.mp h
    rw [List.mapM_cons]
    exact throws_bind ha fun b _ => throws_bind (ih hl) fun bs _ => throws_pure (b :: bs)

theorem throws_foldlM {f : γ → α → Except ε γ} {l : List α} (h : ∀ a ∈ l, ∀ c, Throws E (f c a))
    (c : γ) : Throws E (l.foldlM f c) := by
  induction l generalizing c with
  | nil => exact throws_pure c
  | cons a l ih =>
    obtain ⟨ha, hl⟩ := List.forall_mem_cons.mp h
    rw [List.foldlM_cons]
    exact throws_bind (ha c) fun c' _ => ih hl c'

end Throws

/-! ### Two calls -/

/-- Both calls return, with related values, or both throw the same exception. -/
inductive Matches (R : α → β → Prop) : Except ε α → Except ε β → Prop
  | ok {a : α} {b : β} : R a b → Matches R (.ok a) (.ok b)
  | error (e : ε) : Matches R (.error e) (.error e)

section Matches
variable {α' β' : Type} {R : α → β → Prop} {S : α' → β' → Prop}

theorem matches_pure {a : α} {b : β} (h : R a b) :
    Matches R (pure a : Except ε α) (pure b : Except ε β) := .ok h

theorem matches_self {T : α → α → Prop} (h : ∀ a, T a a) (x : Except ε α) : Matches T x x := by
  cases x with
  | error e => exact .error e
  | ok a => exact .ok (h a)

theorem matches_bind {x : Except ε α} {y : Except ε β} {f : α → Except ε α'} {g : β → Except ε β'}
    (hxy : Matches R x y) (hfg : ∀ a b, R a b → y = .ok b → Matches S (f a) (g b)) :
    Matches S (x >>= f) (y >>= g) := by
  cases hxy with
  | error e => exact .error e
  | ok hab => exact hfg _ _ hab rfl

theorem matches_bind_self {x : Except ε γ} {f : γ → Except ε α'} {g : γ → Except ε β'}
    (hfg : ∀ c, x = .ok c → Matches S (f c) (g c)) : Matches S (x >>= f) (x >>= g) := by
  cases x with
  | error e => exact .error e
  | ok c => exact hfg c rfl

theorem matches_eq {x y : Except ε α} : Matches Eq x y ↔ x = y := by
  constructor
  · intro h
    cases h with
    | error e => rfl
    | ok hab => rw [hab]
  · intro h
    rw [h]
    exact matches_self (fun _ => rfl) y

end Matches

theorem bind_congr_ok {x : Except ε α} {f g : α → Except ε β} (h : ∀ a, x = .ok a → f a = g a) :
    x >>= f = x >>= g := by
  cases x with
  | error e => rfl
  | ok a => exact h a rfl

/-! ### Loops that keep elements -/

/-- The elements a check that can throw keeps. -/
def keepM (p : α → Except ε Bool) : List α → Except ε (List α)
  | [] => .ok []
  | a :: l => do
    let keep ← p a
    let rest ← keepM p l
    return if keep then a :: rest else rest

/-- A check that returns what a predicate says of a related record keeps the same elements. -/
theorem keepM_forall₂ {R : α → β → Prop} {p : β → Except ε Bool} {q : α → Bool} {l : List α}
    {l' : List β} (h : List.Forall₂ R l l') (hp : ∀ a ∈ l, ∀ b, R a b → p b = .ok (q a)) :
    ∃ kept, keepM p l' = .ok kept ∧ List.Forall₂ R (l.filter q) kept := by
  induction h with
  | nil => exact ⟨[], rfl, .nil⟩
  | cons hR _ ih =>
    obtain ⟨ha, hl⟩ := List.forall_mem_cons.mp hp
    obtain ⟨kept, hkept, hforall⟩ := ih hl
    simp only [keepM, ha _ hR, ok_bind, hkept, List.filter_cons]
    refine ⟨_, rfl, ?_⟩
    split
    · exact .cons hR hforall
    · exact hforall

theorem mapM_flatMap {f : β → Except ε γ} {g : α → List β} (l : List α) :
    (l.flatMap g).mapM f = List.flatten <$> l.mapM fun a => (g a).mapM f := by
  induction l with
  | nil => rfl
  | cons a l ih =>
    rw [List.flatMap_cons, List.mapM_append, ih, List.mapM_cons]
    simp only [map_eq_pure_bind, bind_assoc, pure_bind, List.flatten_cons]

/-- A loop over related records, each turn with the result of the other's. -/
theorem mapM_forall₂ {R : α → β → Prop} {f : α → Except ε γ} {g : β → Except ε γ} {l : List α}
    {l' : List β} (h : List.Forall₂ R l l') (hfg : ∀ a ∈ l, ∀ b, R a b → g b = f a) :
    l'.mapM g = l.mapM f := by
  induction h with
  | nil => rfl
  | cons hR _ ih =>
    obtain ⟨ha, hl⟩ := List.forall_mem_cons.mp hfg
    rw [List.mapM_cons, List.mapM_cons, ha _ hR, ih hl]

end Outcome
