import ContextHmi.Retrieval.Budget
import ContextHmi.Runtime.Loading

/-!
# Cache keys

A prompt is looked up without its case and its spacing. What is retrieved for it depends on its words
alone, so prompts with one normal form retrieve the same context; and a key gives back the generation
and, next to other keys of its mode, the normal form it was made from.

* `words_normalized`  : a prompt and its normal form have the same words;
* `retrieve_congr`    : prompts with one normal form retrieve the same;
* `cacheKey_inj`      : keys of one mode differ where the snapshots or the normal forms do.
-/

namespace ContextHmi.Runtime

open Outcome Retrieval

/-! ### The normal form of a prompt -/

/-- The rest of a normal form; `started` where it has bytes, `pending` where a blank is due. -/
def normalizeFrom (started pending : Bool) : Bytes → Bytes
  | [] => []
  | c :: rest =>
    if Bytes.isSpace c then normalizeFrom started started rest
    else (if pending then [0x20] else []) ++ Bytes.toLower c :: normalizeFrom true false rest

/-- `normalized_cache_prompt`. -/
def normalizedCachePrompt (prompt : Bytes) : Bytes := normalizeFrom false false prompt

/-! ### Keys -/

/-- The options that requests read. Numbers are `int`s. -/
structure Options where
  providerUrl : Bytes := []
  providerModel : Bytes := "local-model"
  providerTimeoutMs : Int := 5000
  providerContextBytes : Int := 12288
  providerMaxOutputTokens : Int := 256
  allowRemoteInference : Bool := false
  retrievalCacheCapacity : Nat := 256
  interpretationCacheCapacity : Nat := 128
  cacheTtlMs : Nat := 300000

/-- `static_cast<std::size_t>` of an `int`. -/
def sizeOf (n : Int) : UInt64 := (Int64.ofInt n).toUInt64

/-- `retrieval_limits`. -/
def retrievalLimits (options : Options) : RetrievalLimits :=
  { maxSerializedBytes := sizeOf options.providerContextBytes
    maxEstimatedTokens := (sizeOf options.providerContextBytes + 3) / 4 }

/-- `model_snapshot`. -/
structure Snapshot [Platform] where
  model : AcceptedModel
  generation : Nat

/-- `model.at("revision").get<std::uint64_t>()` of an accepted model. -/
def revisionNumber (index : ModelIndex) : Nat := (index.revision.getUInt64.toOption.getD 0).toNat

def separator : UInt8 := 0x1f

/-- The part of a key that is the same for every request. -/
def optionsKey (options : Options) : Bytes :=
  options.providerUrl ++ separator :: options.providerModel ++
    separator :: Json.dumpInteger options.providerTimeoutMs ++
    separator :: Json.dumpInteger options.providerContextBytes ++
    separator :: Json.dumpInteger options.providerMaxOutputTokens ++
    separator :: (if options.allowRemoteInference then "1" else "0")

/-- `cache_key`. -/
def cacheKey [Platform] (options : Options) (snapshot : Snapshot) (mode prompt : Bytes) : Bytes :=
  snapshot.model.index.modelId ++ separator :: (Bytes.decimal (revisionNumber snapshot.model.index) ++
    separator :: (Bytes.decimal snapshot.generation ++ separator :: (mode ++
      separator :: (optionsKey options ++ separator :: normalizedCachePrompt prompt))))

/-! ### Words of a normal form -/

theorem isAlnum_of_blank : Bytes.isAlnum 0x20 = false := by decide

/-- The words up to here are the same, whether or not a blank is due after the current one. -/
theorem scanWords_normalizeFrom (text : Bytes) :
    (∀ (started : Bool) (current : Bytes), (started = false → current = []) →
      scanWords current (normalizeFrom started false text) = scanWords current text) ∧
    ∀ current : Bytes, scanWords current (normalizeFrom true true text) =
      (if current.isEmpty then [] else [current]) ++ scanWords [] text := by
  induction text with
  | nil =>
    refine ⟨fun _ _ _ => rfl, fun current => ?_⟩
    simp [normalizeFrom, scanWords]
  | cons c text ih =>
    obtain ⟨ih, ihPending⟩ := ih
    -- A character that is no blank, in either state.
    have hletter : ∀ current : Bytes, scanWords current (Bytes.toLower c ::
        normalizeFrom true false text) = scanWords current (c :: text) := by
      intro current
      unfold scanWords
      rw [Bytes.isAlnum_toLower, Bytes.toLower_toLower, ih true (current ++ [Bytes.toLower c])
        (by simp), ih true [] (by simp)]
    cases hspace : Bytes.isSpace c with
    | true =>
      have hskip : ∀ current : Bytes, scanWords current (c :: text) =
          (if current.isEmpty then [] else [current]) ++ scanWords [] text := by
        intro current
        conv_lhs => unfold scanWords
        rw [if_neg (by simp [Bytes.isAlnum_of_isSpace c hspace])]
        split <;> rfl
      constructor
      · intro started current hcurrent
        rw [normalizeFrom, if_pos hspace, hskip]
        cases started with
        | true => exact ihPending current
        | false =>
          obtain rfl := hcurrent rfl
          exact ih false [] fun _ => rfl
      · intro current
        rw [normalizeFrom, if_pos hspace, hskip]
        exact ihPending current
    | false =>
      constructor
      · intro started current _
        rw [normalizeFrom, if_neg (by simp [hspace])]
        exact hletter current
      · intro current
        rw [normalizeFrom, if_neg (by simp [hspace]), if_pos rfl, List.singleton_append]
        conv_lhs => unfold scanWords
        rw [if_neg (by simp [isAlnum_of_blank]), hletter]
        split <;> rfl

/-- **A prompt and its normal form have the same words.** -/
theorem words_normalized (prompt : Bytes) : words (normalizedCachePrompt prompt) = words prompt :=
  (scanWords_normalizeFrom prompt).1 false [] fun _ => rfl

theorem words_congr {p q : Bytes} (h : normalizedCachePrompt p = normalizedCachePrompt q) :
    words p = words q := by
  rw [← words_normalized p, ← words_normalized q, h]

theorem termsFor_congr {p q : Bytes} (h : normalizedCachePrompt p = normalizedCachePrompt q) :
    termsFor p = termsFor q := by
  rw [termsFor, termsFor, words_congr h]

theorem hasScopePhrase_congr {p q : Bytes} (h : normalizedCachePrompt p = normalizedCachePrompt q) :
    hasScopePhrase p = hasScopePhrase q := by
  rw [Bool.eq_iff_iff, hasScopePhrase_iff, hasScopePhrase_iff, words_congr h]

/-- The prompts a request may have. -/
def IsPrompt (prompt : Bytes) : Prop := 1 ≤ prompt.length ∧ prompt.length ≤ kMaxPrompt

theorem checkPrompt_of_isPrompt {prompt : Bytes} (h : IsPrompt prompt) : checkPrompt prompt = .ok () := by
  refine throwIf_of_not _ ?_
  rw [not_or, List.isEmpty_iff]
  exact ⟨fun hnil => by simp [hnil, IsPrompt] at h, Nat.not_lt.mpr h.2⟩

section
variable [Platform]

/-- **Prompts with one normal form retrieve the same.** -/
theorem retrieve_congr {p q : Bytes} (hp : IsPrompt p) (hq : IsPrompt q)
    (h : normalizedCachePrompt p = normalizedCachePrompt q) (model : Json)
    (limits : RetrievalLimits) : retrieve model p limits = retrieve model q limits := by
  rw [retrieve, retrieve, checkPrompt_of_isPrompt hp, checkPrompt_of_isPrompt hq, termsFor_congr h,
    hasScopePhrase_congr h]

/-! ### What a key says -/

omit [Platform] in
theorem separator_split {a b s t : Bytes} (ha : separator ∉ a) (hb : separator ∉ b)
    (h : a ++ separator :: s = b ++ separator :: t) : a = b ∧ s = t := by
  induction a generalizing b with
  | nil =>
    cases b with
    | nil => exact ⟨rfl, List.tail_eq_of_cons_eq h⟩
    | cons d b => exact absurd (List.head_eq_of_cons_eq h ▸ List.mem_cons_self) hb
  | cons c a ih =>
    cases b with
    | nil => exact absurd (List.head_eq_of_cons_eq h ▸ List.mem_cons_self) ha
    | cons d b =>
      rw [List.mem_cons, not_or] at ha hb
      obtain ⟨hcd, hrest⟩ := List.cons_eq_cons.mp h
      obtain ⟨hab, hst⟩ := ih ha.2 hb.2 hrest
      exact ⟨by rw [hcd, hab], hst⟩

omit [Platform] in
theorem separator_notMem_decimal (n : Nat) : separator ∉ Bytes.decimal n := by
  intro h
  have hdigit := Bytes.decimal_isDigit n separator h
  exact absurd hdigit (by decide)

omit [Platform] in
theorem separator_notMem_identity {s : Bytes} (h : validIdentity s = true) : separator ∉ s := by
  intro hmem
  unfold validIdentity at h
  split at h
  · cases h
  · rw [Bool.and_eq_true] at h
    have hbyte := List.all_eq_true.mp h.2 separator hmem
    exact absurd hbyte (by decide)

theorem AcceptedModel.separator_notMem (model : AcceptedModel) : separator ∉ model.index.modelId := by
  have hid := model.wellFormed.modelId
  rw [isIdentity, Bool.and_eq_true] at hid
  exact separator_notMem_identity hid.2

/-- The parts of two equal keys up to the generation, and the rest. -/
theorem cacheKey_split {options : Options} {σ τ : Snapshot} {mode mode' p q : Bytes}
    (h : cacheKey options σ mode p = cacheKey options τ mode' q) : σ.generation = τ.generation ∧
      mode ++ separator :: (optionsKey options ++ separator :: normalizedCachePrompt p) =
        mode' ++ separator :: (optionsKey options ++ separator :: normalizedCachePrompt q) := by
  obtain ⟨-, h⟩ := separator_split σ.model.separator_notMem τ.model.separator_notMem h
  obtain ⟨-, h⟩ := separator_split (separator_notMem_decimal _) (separator_notMem_decimal _) h
  obtain ⟨hgeneration, h⟩ :=
    separator_split (separator_notMem_decimal _) (separator_notMem_decimal _) h
  exact ⟨Bytes.decimal_injective hgeneration, h⟩

/-- **Keys of one mode** say which generation they are of, and which normal form. -/
theorem cacheKey_inj {options : Options} {σ τ : Snapshot} {mode p q : Bytes}
    (h : cacheKey options σ mode p = cacheKey options τ mode q) :
    σ.generation = τ.generation ∧ normalizedCachePrompt p = normalizedCachePrompt q := by
  obtain ⟨hgeneration, h⟩ := cacheKey_split h
  have hrest := List.append_cancel_left (List.tail_eq_of_cons_eq (List.append_cancel_left h))
  exact ⟨hgeneration, List.tail_eq_of_cons_eq hrest⟩

theorem cacheKey_inj_mode {options : Options} {σ τ : Snapshot} {mode mode' p q : Bytes}
    (hmode : separator ∉ mode) (hmode' : separator ∉ mode')
    (h : cacheKey options σ mode p = cacheKey options τ mode' q) :
    mode = mode' ∧ normalizedCachePrompt p = normalizedCachePrompt q := by
  obtain ⟨-, h⟩ := cacheKey_split h
  obtain ⟨heq, h⟩ := separator_split hmode hmode' h
  exact ⟨heq, List.tail_eq_of_cons_eq (List.append_cancel_left h)⟩

theorem cacheKey_generation {options : Options} {σ τ : Snapshot} {mode mode' p q : Bytes}
    (h : cacheKey options σ mode p = cacheKey options τ mode' q) : σ.generation = τ.generation :=
  (cacheKey_split h).1

end

end ContextHmi.Runtime
