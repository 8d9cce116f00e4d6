import ContextHmi.Runtime.Requests

/-!
# What a cache key tells apart

A key joins the mode and the normal form of the prompt around the options, by a byte that is checked
in neither. Where the options occur a second time in what was joined, two requests have one key.

* `separated_iff`      : which requests share their key with no other;
* `separated_of_plain` : a request without the byte is one of them.
-/

namespace ContextHmi.Runtime

open Outcome Retrieval

/-! ### Normal forms of prompts -/

theorem isSpace_toLower (c : UInt8) : Bytes.isSpace c = false →
    Bytes.isSpace (Bytes.toLower c) = false := by
  revert c
  exact Bytes.forall_byte (by decide +kernel)

theorem normalizeFrom_normalizeFrom (text : Bytes) :
    (∀ started, normalizeFrom started false (normalizeFrom started false text) =
      normalizeFrom started false text) ∧
    normalizeFrom true false (normalizeFrom true true text) = normalizeFrom true true text := by
  induction text with
  | nil => exact ⟨fun _ => rfl, rfl⟩
  | cons c text ih =>
    obtain ⟨ih, ihPending⟩ := ih
    cases hspace : Bytes.isSpace c with
    | true =>
      refine ⟨fun started => ?_, ?_⟩
      · rw [normalizeFrom, if_pos hspace]
        cases started with
        | true => exact ihPending
        | false => exact ih false
      · rw [normalizeFrom, if_pos hspace]
        exact ihPending
    | false =>
      have hlower : Bytes.isSpace (Bytes.toLower c) = false := isSpace_toLower c hspace
      refine ⟨fun started => ?_, ?_⟩
      · simp only [normalizeFrom, hspace, hlower, Bool.false_eq_true, if_false, List.nil_append,
          Bytes.toLower_toLower, ih]
      · have hblank : Bytes.isSpace 0x20 = true := by decide
        simp only [normalizeFrom, hspace, hlower, hblank, Bool.false_eq_true, if_false, if_true,
          List.cons_append, List.nil_append, Bytes.toLower_toLower, ih]

theorem normalized_normalized (prompt : Bytes) :
    normalizedCachePrompt (normalizedCachePrompt prompt) = normalizedCachePrompt prompt :=
  (normalizeFrom_normalizeFrom prompt).1 false

theorem length_normalizeFrom (text : Bytes) : ∀ started pending,
    (normalizeFrom started pending text).length ≤ text.length + if pending then 1 else 0 := by
  induction text with
  | nil =>
    intro started pending
    exact Nat.zero_le _
  | cons c text ih =>
    intro started pending
    unfold normalizeFrom
    have hstarted := ih started started
    have htrue := ih true false
    cases started <;> cases pending <;> split_ifs <;> simp_all <;> omega

theorem length_normalized (prompt : Bytes) :
    (normalizedCachePrompt prompt).length ≤ prompt.length :=
  length_normalizeFrom prompt false false

theorem toLower_lt (c : UInt8) : c < 0x80 → Bytes.toLower c < 0x80 := by
  revert c
  exact Bytes.forall_byte (by decide +kernel)

theorem wide_bytes (c : UInt8) : ¬ c < 0x80 → Bytes.isSpace c = false ∧ Bytes.toLower c = c := by
  revert c
  exact Bytes.forall_byte (by decide +kernel)

theorem normalizeFrom_wide {wide : Bytes} (h : ∀ c ∈ wide, ¬ c < 0x80) (text : Bytes) :
    normalizeFrom true false (wide ++ text) = wide ++ normalizeFrom true false text := by
  induction wide with
  | nil => rfl
  | cons c wide ih =>
    rw [List.forall_mem_cons] at h
    obtain ⟨hspace, hlower⟩ := wide_bytes c h.1
    rw [List.cons_append, normalizeFrom, hspace, hlower, ih h.2]
    rfl

theorem text_normalizeFrom {text : Bytes} (h : Utf8.Text text) : ∀ started pending,
    Utf8.Text (normalizeFrom started pending text) := by
  have hblank : Utf8.Text [0x20] := Utf8.text_of_ascii (by simp)
  have hletter : ∀ c : UInt8, c < 0x80 → ∀ {t}, Utf8.Text t → Utf8.Text (Bytes.toLower c :: t) :=
    fun c hc t ht => Utf8.Text.cons (c := [Bytes.toLower c]) (.one (toLower_lt c hc)) ht
  induction h with
  | nil =>
    intro started pending
    exact .nil
  | cons hchar htext ih =>
    intro started pending
    rename_i char rest
    rcases Utf8.ascii_or_wide hchar with ⟨c, rfl, hc⟩ | hwide
    · rw [List.singleton_append, normalizeFrom]
      split_ifs
      · exact ih _ _
      · exact Utf8.text_append hblank (hletter c hc (ih _ _))
      · exact hletter c hc (ih _ _)
    · cases char with
      | nil => cases hchar
      | cons c char =>
        obtain ⟨hspace, hlower⟩ := wide_bytes c (hwide c List.mem_cons_self)
        have hrest := normalizeFrom_wide (fun d hd => hwide d (List.mem_cons_of_mem c hd)) rest
        have hsuffix := Utf8.Text.cons hchar (ih true false)
        rw [List.cons_append, normalizeFrom, hspace, hlower, hrest]
        cases pending with
        | true => exact Utf8.text_append hblank hsuffix
        | false => exact hsuffix

theorem text_normalized {prompt : Bytes} (h : Utf8.Text prompt) :
    Utf8.Text (normalizedCachePrompt prompt) := text_normalizeFrom h false false

/-! ### Requests that share a key -/

/-- A mode and a prompt that a client can send. -/
structure IsRequest (mode prompt : Bytes) : Prop where
  modeText : Utf8.Text mode
  promptText : Utf8.Text prompt
  bounded : IsPrompt prompt

/-- The options as they stand in a key, between the mode and the prompt. -/
def marker (options : Options) : Bytes := separator :: (optionsKey options ++ [separator])

/-- What a client decides of a key. -/
def joined (options : Options) (mode prompt : Bytes) : Bytes :=
  mode ++ (marker options ++ normalizedCachePrompt prompt)

/-- The normal form of a prompt. -/
structure IsNormalForm (t : Bytes) : Prop where
  text : Utf8.Text t
  normal : normalizedCachePrompt t = t
  bounded : t.length ≤ kMaxPrompt

/-- The options stand at this place, between a text and the normal form of a prompt. -/
structure SplitsAt (options : Options) (request : Bytes) (k : Nat) : Prop where
  marked : marker options <+: request.drop k
  before : Utf8.Text (request.take k)
  behind : IsNormalForm (request.drop (k + (marker options).length))

/-- A request that shares its key with no other. -/
def Separated [Platform] (options : Options) (snapshot : Snapshot) (mode prompt : Bytes) : Prop :=
  ∀ mode' prompt', IsRequest mode' prompt' →
    cacheKey options snapshot mode prompt = cacheKey options snapshot mode' prompt' →
      mode = mode' ∧ normalizedCachePrompt prompt = normalizedCachePrompt prompt'

theorem isNormalForm_normalized {mode prompt : Bytes} (h : IsRequest mode prompt) :
    IsNormalForm (normalizedCachePrompt prompt) where
  text := text_normalized h.promptText
  normal := normalized_normalized prompt
  bounded := (length_normalized prompt).trans h.bounded.2

theorem IsNormalForm.prompt {mode t : Bytes} (h : IsNormalForm t) (hmode : Utf8.Text mode) :
    ∃ prompt, IsRequest mode prompt ∧ normalizedCachePrompt prompt = t := by
  by_cases hnil : t = []
  · refine ⟨[0x20], ⟨hmode, Utf8.text_of_ascii (by simp), by decide, by decide⟩, ?_⟩
    rw [hnil]
    rfl
  · exact ⟨t, ⟨hmode, h.text, List.length_pos_iff.mpr hnil, h.bounded⟩, h.normal⟩

theorem splitsAt_of_joined {options : Options} {mode prompt mode' prompt' : Bytes}
    (hrequest : IsRequest mode' prompt')
    (h : joined options mode prompt = joined options mode' prompt') :
    SplitsAt options (joined options mode prompt) mode'.length := by
  rw [h, joined]
  refine ⟨?_, ?_, ?_⟩
  · rw [List.drop_left]
    exact List.prefix_append _ _
  · rw [List.take_left]
    exact hrequest.modeText
  · rw [← List.append_assoc, ← List.length_append, List.drop_left]
    exact isNormalForm_normalized hrequest

section
variable [Platform] {options : Options} {snapshot : Snapshot} {mode prompt mode' prompt' : Bytes}

theorem cacheKey_eq_iff : cacheKey options snapshot mode prompt =
    cacheKey options snapshot mode' prompt' ↔
      joined options mode prompt = joined options mode' prompt' := by
  have hjoined : ∀ m p, joined options m p =
      m ++ separator :: (optionsKey options ++ separator :: normalizedCachePrompt p) := by
    intro m p
    simp [joined, marker]
  simp only [hjoined, cacheKey, List.append_cancel_left_eq, List.cons.injEq, true_and]

/-- **A request is separated** exactly where the options stand nowhere else in it, between a text and
the normal form of a prompt. -/
theorem separated_iff (options : Options) (snapshot : Snapshot) (mode prompt : Bytes) :
    Separated options snapshot mode prompt ↔
      ∀ k, SplitsAt options (joined options mode prompt) k → k = mode.length := by
  constructor
  · intro h k hk
    obtain ⟨prompt', hrequest, hnormal⟩ := hk.behind.prompt hk.before
    have hjoined : joined options mode prompt =
        joined options ((joined options mode prompt).take k) prompt' := by
      show _ = _ ++ (marker options ++ normalizedCachePrompt prompt')
      rw [hnormal, ← List.drop_drop, List.prefix_iff_eq_append.mp hk.marked,
        List.take_append_drop]
    have hmode := (h _ _ hrequest (cacheKey_eq_iff.mpr hjoined)).1
    have hmarker := hk.marked.length_le
    have hlength : k ≤ (joined options mode prompt).length := by
      rw [List.length_drop, marker, List.length_cons] at hmarker
      omega
    rw [hmode, List.length_take, min_eq_left hlength]
  · intro h mode' prompt' hrequest hkey
    have hjoined := cacheKey_eq_iff.mp hkey
    have hlength := h mode'.length (splitsAt_of_joined hrequest hjoined)
    obtain ⟨hmode, hrest⟩ := List.append_inj hjoined hlength.symm
    exact ⟨hmode, List.append_cancel_left hrest⟩

/-- **A request without the separator** is separated. -/
theorem separated_of_plain {options : Options} (hmode : separator ∉ mode)
    (hprompt : separator ∉ normalizedCachePrompt prompt) :
    Separated options snapshot mode prompt := by
  intro mode' prompt' _ hkey
  have hjoined := cacheKey_eq_iff.mp hkey
  have hcount := congrArg (List.count separator) hjoined
  simp only [joined, List.count_append, List.count_eq_zero.mpr hmode,
    List.count_eq_zero.mpr hprompt] at hcount
  have hmode' : separator ∉ mode' := by
    rw [← List.count_eq_zero]
    omega
  exact cacheKey_inj_mode hmode hmode' hkey

end

/-! ### Two requests with one key -/

section
local instance joinedPlatform : Platform := samplePlatform

def tankSnapshot : Snapshot := ⟨tankAccepted, 1⟩

/-- A prompt that has the options in it. -/
def joinedPrompt : Bytes := bytes "show" ++ marker {} ++ bytes "show the tank level"

/-- A mode that has the options and the start of the prompt in it. -/
def joinedMode : Bytes := bytes "rules" ++ marker {} ++ bytes "show"

theorem not_separated_joinedPrompt :
    IsRequest "rules" joinedPrompt ∧ IsRequest joinedMode "show the tank level" ∧
      separator ∉ ({} : Options).providerUrl ∧ separator ∉ ({} : Options).providerModel ∧
      cacheKey {} tankSnapshot "rules" joinedPrompt =
        cacheKey {} tankSnapshot joinedMode "show the tank level" ∧
      bytes "rules" ≠ joinedMode ∧
      normalizedCachePrompt joinedPrompt ≠ normalizedCachePrompt "show the tank level" := by
  refine ⟨⟨Utf8.text_bytes (by decide), Utf8.text_of_ascii (by decide +kernel), by decide +kernel,
    by decide +kernel⟩, ⟨Utf8.text_of_ascii (by decide +kernel), Utf8.text_bytes (by decide),
    by decide, by decide⟩, by decide, by decide, ?_, by decide +kernel, by decide +kernel⟩
  rw [cacheKey_eq_iff]
  decide +kernel

end

end ContextHmi.Runtime
