import ContextHmi.Runtime.Requests

/-!
# Retrieval inside its budget

Every string a draft is rendered from is text: the terms of a request are ASCII, and the rest comes
from the accepted model. So the size of a draft can always be measured, the loop ends where the
context fits or where nothing is left to take away, and what the provider is given fits the budget it
checks against.

* `Draft.Rendered.shrink`  : a turn keeps a draft that can be rendered as text;
* `retrieve_within_budget` : retrieval ends, and what it returns is within its limits.
-/

namespace ContextHmi.Runtime

open Outcome Retrieval Inference Interleave

/-! ### Terms are text -/

theorem toLower_ascii {c : UInt8} : Bytes.isAlnum c = true → Bytes.toLower c < 0x80 :=
  Bytes.forall_byte (p := fun c => Bytes.isAlnum c = true → Bytes.toLower c < 0x80)
    (by decide +kernel) c

theorem scanWords_ascii {current : Bytes} (text : Bytes) (hcurrent : ∀ c ∈ current, c < 0x80) :
    ∀ word ∈ scanWords current text, ∀ c ∈ word, c < 0x80 := by
  induction text generalizing current with
  | nil =>
    intro word hword
    unfold scanWords at hword
    split at hword
    · cases hword
    · rw [List.mem_singleton] at hword
      subst hword
      exact hcurrent
  | cons c text ih =>
    intro word hword
    unfold scanWords at hword
    split at hword
    · rename_i hc
      refine ih ?_ word hword
      intro d hd
      rcases List.mem_append.mp hd with hd | hd
      · exact hcurrent d hd
      · rw [List.mem_singleton] at hd
        subst hd
        exact toLower_ascii hc
    · have hrest := ih (List.forall_mem_nil _)
      split at hword
      · exact hrest word hword
      · rcases List.mem_cons.mp hword with rfl | hword
        · exact hcurrent
        · exact hrest word hword

theorem canonicalTerm_ascii {word : Bytes} (h : ∀ c ∈ word, c < 0x80) :
    ∀ c ∈ canonicalTerm word, c < 0x80 := by
  unfold canonicalTerm
  cases hfind : Assoc.find? word synonyms with
  | none => exact h
  | some term =>
    have hall : ∀ entry ∈ synonyms, ∀ c ∈ entry.2, c < 0x80 := by decide +kernel
    exact hall _ (Assoc.find?_mem hfind)

/-- **The terms of any text are text themselves.** -/
theorem termsFor_isText {text term : Bytes} (h : term ∈ termsFor text) : Utf8.Text term := by
  obtain ⟨word, hword, rfl⟩ := mem_termsFor.mp h
  exact Utf8.text_of_ascii
    (canonicalTerm_ascii (scanWords_ascii text (List.forall_mem_nil _) word hword))

theorem assetTerms_isText {asset : Asset} {term : Bytes} (h : term ∈ assetTerms asset) :
    Utf8.Text term := by
  simp only [assetTerms, mem_sortUnique, List.mem_append, List.mem_flatMap] at h
  rcases h with ((h | h) | h) | ⟨name, -, h⟩
  · exact termsFor_isText h
  · exact termsFor_isText h
  · exact termsFor_isText h
  · exact termsFor_isText h

theorem reasons_isText {promptTerms : List Bytes} {asset : Asset} :
    ∀ reason ∈ (candidateOf promptTerms asset).reasons, Utf8.Text reason := by
  have hevidence : ∀ found ∈ evidence promptTerms asset, Utf8.Text found.2 := by
    intro found hfound
    simp only [evidence, List.mem_append, List.mem_map, List.mem_filter] at hfound
    rcases hfound with ((⟨term, ⟨hterm, -⟩, rfl⟩ | h) | h) | h
    · exact Utf8.text_append (Utf8.text_bytes (by decide)) (assetTerms_isText hterm)
    all_goals
      split_ifs at h
      · rw [List.mem_singleton] at h
        subst h
        exact Utf8.text_bytes (by decide)
      · cases h
  intro reason hreason
  obtain ⟨found, hfound, rfl⟩ := List.mem_map.mp hreason
  split at hfound
  · cases hfound
  · exact hevidence found hfound

/-! ### The records of a model as text -/

theorem object_isText {l : List (Bytes × Json)}
    (hkeys : (l.map (·.1)).all (fun k => k.all (· < 0x80)) = true)
    (hvalues : ∀ v ∈ l.map (·.2), v.IsText) : (Json.object l).IsText := by
  refine Json.isText_object ?_
  intro f hf
  refine ⟨Utf8.text_of_ascii ?_, hvalues f.2 (List.mem_map_of_mem hf)⟩
  intro c hc
  have hkey := List.all_eq_true.mp hkeys f.1 (List.mem_map_of_mem hf)
  simpa using List.all_eq_true.mp hkey c hc

/-- The identity an asset is listed with. -/
structure AssetText (asset : Asset) : Prop where
  id : Utf8.Text asset.id
  name : Utf8.Text asset.name
  kind : Utf8.Text asset.kind
  aliases : ∀ l, asset.aliases = some l → ∀ s ∈ l, Utf8.Text s

theorem AssetText.erased {asset : Asset} (h : AssetText asset) :
    AssetText { asset with aliases := none } :=
  ⟨h.id, h.name, h.kind, fun _ h => nomatch h⟩

theorem AssetText.compact {asset : Asset} (h : AssetText asset) : (compactAsset asset).IsText := by
  have hidentity : (Json.object [("id", .str asset.id), ("name", .str asset.name),
      ("kind", .str asset.kind)]).IsText := by
    refine object_isText rfl ?_
    simp only [List.map_cons, List.map_nil, List.forall_mem_cons, List.not_mem_nil, false_implies,
      implies_true, and_true, Json.isText_str]
    exact ⟨h.id, h.name, h.kind⟩
  unfold compactAsset
  cases haliases : asset.aliases with
  | none => exact hidentity
  | some l =>
    exact hidentity.setField (Utf8.text_bytes (by decide)) (Json.isText_strings (h.aliases l haliases))

section
variable [Platform]

theorem assetText (model : AcceptedModel) {asset : Asset} (h : asset ∈ model.index.assets) :
    AssetText asset := by
  obtain ⟨r, hr, htext⟩ :=
    encoded_isText model.isText (indexModel_eq_ok.mp model.accepted).1.assets asset h
  refine ⟨string_isText htext hr.id, string_isText htext hr.name, string_isText htext hr.kind, ?_⟩
  intro l hl s hs
  have haliases := hr.aliases
  rw [hl] at haliases
  cases isText_of_find? htext haliases with
  | arr hitems => exact Json.isText_str.mp (hitems _ (List.mem_map_of_mem hs))

theorem relationshipText (model : AcceptedModel) {rel : Relationship}
    (h : rel ∈ model.index.relationships) : (compactRelationship rel).IsText := by
  obtain ⟨r, hr, htext⟩ :=
    encoded_isText model.isText (indexModel_eq_ok.mp model.accepted).1.relationships rel h
  refine object_isText rfl ?_
  simp only [List.map_cons, List.map_nil, List.forall_mem_cons, List.not_mem_nil, false_implies,
    implies_true, and_true, Json.isText_str]
  exact ⟨string_isText htext hr.id, string_isText htext hr.fromId, string_isText htext hr.toId,
    string_isText htext hr.kind⟩

theorem tagText (model : AcceptedModel) {tag : Tag} (h : tag ∈ model.index.tags) :
    (compactTag tag).IsText := by
  obtain ⟨r, hr, htext⟩ :=
    encoded_isText model.isText (indexModel_eq_ok.mp model.accepted).1.tags tag h
  refine object_isText rfl ?_
  simp only [List.map_cons, List.map_nil, List.forall_mem_cons, List.not_mem_nil, false_implies,
    implies_true, and_true, Json.isText_str]
  exact ⟨string_isText htext hr.id, string_isText htext hr.assetId, string_isText htext hr.name,
    string_isText htext hr.role, string_isText htext hr.dataType, string_isText htext hr.unit⟩

theorem alarmText (model : AcceptedModel) {alarm : Alarm} (h : alarm ∈ model.index.alarms) :
    (compactAlarm alarm).IsText := by
  obtain ⟨r, hr, htext⟩ :=
    encoded_isText model.isText (indexModel_eq_ok.mp model.accepted).1.alarms alarm h
  refine object_isText rfl ?_
  simp only [List.map_cons, List.map_nil, List.forall_mem_cons, List.not_mem_nil, false_implies,
    implies_true, and_true, Json.isText_str]
  exact ⟨string_isText htext hr.id, string_isText htext hr.assetId, string_isText htext hr.name,
    string_isText htext hr.tagId, string_isText htext hr.severity⟩

/-! ### Drafts as text -/

/-- Everything the draft is rendered from is text. -/
structure Rendered (d : Draft) : Prop where
  promptTerms : ∀ term ∈ d.promptTerms, Utf8.Text term
  taskHints : ∀ hint ∈ d.taskHints, Utf8.Text hint
  roleHints : ∀ role ∈ d.roleHints, Utf8.Text role
  eligible : ∀ id ∈ d.eligible, Utf8.Text id
  candidates : ∀ item ∈ d.candidates, item.toJson.IsText
  assets : ∀ asset ∈ d.assets, AssetText asset
  relationships : ∀ rel ∈ d.relationships, rel.IsText
  tags : ∀ tag ∈ d.tags, tag.IsText
  alarms : ∀ alarm ∈ d.alarms, alarm.IsText

omit [Platform] in
theorem limits_isText (limits : RetrievalLimits) : limits.toJson.IsText := by
  refine object_isText rfl ?_
  simp only [List.map_cons, List.map_nil, List.forall_mem_cons, List.not_mem_nil, false_implies,
    implies_true, and_true]
  exact ⟨.uint _, .uint _, .uint _, .uint _, .uint _, .uint _, .uint _⟩

omit [Platform] in
theorem truncated_isText (truncated : Truncated) : truncated.toJson.IsText := by
  refine object_isText rfl ?_
  simp only [List.map_cons, List.map_nil, List.forall_mem_cons, List.not_mem_nil, false_implies,
    implies_true, and_true]
  exact ⟨.bool _, .bool _, .bool _, .bool _, .bool _, .bool _, .bool _, .bool _⟩

/-- **A draft of text is rendered as text.** -/
theorem Rendered.isText (model : AcceptedModel) {d : Draft} (h : Rendered d)
    (limits : RetrievalLimits) : (d.render model.index limits).IsText := by
  have hmodel := (indexModel_eq_ok.mp model.accepted).1
  have hscope : (Json.object [("assets", .arr (d.assets.map compactAsset)),
      ("relationships", .arr d.relationships), ("tags", .arr d.tags),
      ("alarms", .arr d.alarms)]).IsText := by
    refine object_isText rfl ?_
    simp only [List.map_cons, List.map_nil, List.forall_mem_cons, List.not_mem_nil, false_implies,
      implies_true, and_true]
    refine ⟨.arr ?_, .arr h.relationships, .arr h.tags, .arr h.alarms⟩
    exact List.forall_mem_map.mpr fun asset hasset => (h.assets asset hasset).compact
  refine object_isText rfl ?_
  simp only [List.map_cons, List.map_nil, List.forall_mem_cons, List.not_mem_nil, false_implies,
    implies_true, and_true]
  exact ⟨.str (Utf8.text_bytes (by decide)), .str (string_isText model.isText hmodel.modelId),
    isText_of_find? model.isText hmodel.revision, Json.isText_strings h.promptTerms,
    Json.isText_strings h.taskHints, Json.isText_strings h.roleHints, .uint _, .bool _, .bool _,
    Json.isText_strings h.eligible, .uint _,
    .arr (List.forall_mem_map.mpr fun item hitem => h.candidates item hitem), hscope,
    limits_isText limits, truncated_isText d.truncated⟩

theorem listed_isText (model : AcceptedModel) {promptTerms : List Bytes} {limits : RetrievalLimits}
    {item : Listed} (h : item ∈ listCandidates limits (scoredAssets model.index promptTerms)) :
    item.toJson.IsText := by
  obtain ⟨candidate, hcandidate, rfl⟩ := List.mem_map.mp h
  obtain ⟨asset, hasset, rfl, -⟩ := mem_scoredAssets.mp (List.mem_of_mem_take hcandidate)
  have htext := assetText model hasset
  refine object_isText rfl ?_
  simp only [List.map_cons, List.map_nil, List.forall_mem_cons, List.not_mem_nil, false_implies,
    implies_true, and_true]
  exact ⟨.str htext.id, .str htext.name, .str htext.kind, .int _, .bool _,
    Json.isText_strings reasons_isText⟩

/-- **The first draft of a request is of text.** -/
theorem rendered_requestDraft (model : AcceptedModel) (prompt : Bytes) (limits : RetrievalLimits) :
    Rendered (requestDraft model.index prompt limits) where
  promptTerms _ h := termsFor_isText h
  taskHints hint h := by
    rcases mem_hintsWith h with rfl | rfl
    · exact Utf8.text_bytes (by decide)
    · exact Utf8.text_bytes (by decide)
  roleHints role h := by
    obtain ⟨tag, htag, rfl⟩ := mem_measurementRoleHints h
    exact model.tag_isText (List.mem_filter.mp htag).1 tag.role (by simp)
  eligible id h := by
    obtain ⟨asset, hasset, rfl⟩ := mem_eligibleIds h
    exact (assetText model hasset.declared).id
  candidates _ h := listed_isText model h
  assets asset h := by
    obtain ⟨id, -, hfound⟩ := List.mem_filterMap.mp (List.mem_of_mem_take h)
    exact assetText model (List.mem_of_find?_eq_some hfound)
  relationships rel h := by
    obtain ⟨r, hr, rfl⟩ := List.mem_map.mp h
    exact relationshipText model (List.mem_filter.mp (List.mem_of_mem_take hr)).1
  tags tag h := by
    obtain ⟨t, ht, rfl⟩ := List.mem_map.mp h
    have hsource := mem_of_mem_orderedTags (List.mem_of_mem_take ht)
    exact tagText model (List.mem_filter.mp hsource).1
  alarms alarm h := by
    obtain ⟨a, ha, rfl⟩ := List.mem_map.mp h
    exact alarmText model (List.mem_filter.mp (List.mem_of_mem_take ha)).1

/-! ### The loop -/

omit [Platform] in
theorem eraseAliases_text {l l' : List Asset} (h : eraseAliases l = some l')
    (hl : ∀ asset ∈ l, AssetText asset) : ∀ asset ∈ l', AssetText asset := by
  induction l generalizing l' with
  | nil => cases h
  | cons asset l ih =>
    rw [List.forall_mem_cons] at hl
    unfold eraseAliases at h
    split at h
    · cases h
      exact List.forall_mem_cons.mpr ⟨hl.1.erased, hl.2⟩
    · obtain ⟨rest, hrest, rfl⟩ := Option.map_eq_some_iff.mp h
      exact List.forall_mem_cons.mpr ⟨hl.1, ih hrest hl.2⟩

omit [Platform] in
theorem shrink_assets {d d' : Draft} (h : d.shrink = some d') :
    d'.assets.Sublist d.assets ∨ eraseAliases d.assets = some d'.assets := by
  obtain ⟨e, he, rfl⟩ := Option.map_eq_some_iff.mp h
  simp only [Option.orElse_eq_orElse, Option.orElse_eq_or, Option.or_eq_some_iff] at he
  rcases he with he | ⟨-, he | ⟨-, he | ⟨-, he | ⟨-, he | ⟨-, he | ⟨-, he | ⟨-, he | ⟨-, he⟩⟩⟩⟩⟩⟩⟩⟩
  · obtain ⟨candidates, -, rfl⟩ := Option.map_eq_some_iff.mp he
    exact .inl (.refl _)
  · obtain ⟨assets, hl, rfl⟩ := Option.map_eq_some_iff.mp he
    obtain ⟨_, hsub, -⟩ := removeLast_eq_some hl
    exact .inl hsub
  · cases (Option.ite_none_left_eq_some.mp he).2
    exact .inl (.refl _)
  · cases (Option.ite_none_left_eq_some.mp he).2
    exact .inl (.refl _)
  · cases (Option.ite_none_right_eq_some.mp he).2
    exact .inl (.refl _)
  · cases (Option.ite_none_left_eq_some.mp he).2
    exact .inl (.refl _)
  · obtain ⟨assets, hl, rfl⟩ := Option.map_eq_some_iff.mp he
    exact .inr hl
  · cases (Option.ite_none_left_eq_some.mp he).2
    exact .inl (.refl _)
  · cases (Option.ite_none_left_eq_some.mp he).2
    exact .inl (.refl _)

omit [Platform] in
/-- **A turn keeps a draft of text one.** -/
theorem Rendered.shrink {d d' : Draft} (hd : Rendered d) (h : d.shrink = some d') : Rendered d' := by
  have hbelow := (Draft.shrink_spec h).below
  exact {
    promptTerms := fun term hterm => hd.promptTerms term (hbelow.promptTerms.subset hterm)
    taskHints := fun hint hhint => hd.taskHints hint (hbelow.taskHints ▸ hhint)
    roleHints := fun role hrole => hd.roleHints role (hbelow.roleHints.subset hrole)
    eligible := fun id hid => hd.eligible id (hbelow.eligible.subset hid)
    candidates := fun item hitem => hd.candidates item (hbelow.candidates.subset hitem)
    assets := by
      rcases shrink_assets h with hsub | herased
      · exact fun asset hasset => hd.assets asset (hsub.subset hasset)
      · exact eraseAliases_text herased hd.assets
    relationships := fun rel hrel => hd.relationships rel (hbelow.relationships.subset hrel)
    tags := fun tag htag => hd.tags tag (hbelow.tags.subset htag)
    alarms := fun alarm halarm => hd.alarms alarm (hbelow.alarms.subset halarm) }

theorem Rendered.budgetExceeded (model : AcceptedModel) (limits : RetrievalLimits) {d : Draft}
    (hd : Rendered d) : ∃ exceeded, budgetExceeded model.index limits d = .ok exceeded := by
  obtain ⟨text, htext⟩ := Json.dump_isOk_iff.mpr (hd.isText model limits)
  simp only [Retrieval.budgetExceeded, withinBudget, map_eq_ok, bind_eq_ok, pure_eq_ok]
  exact ⟨_, _, ⟨text, htext, rfl⟩, rfl⟩

/-- The value is serialized within the limits. -/
def Fits (limits : RetrievalLimits) (value : Json) : Prop :=
  ∃ text, value.dump = .ok text ∧ text.length ≤ limits.maxSerializedBytes.toNat ∧
    estimatedTokens text.length ≤ limits.maxEstimatedTokens.toNat

theorem fits_of_withinBudget {limits : RetrievalLimits} {value : Json}
    (h : withinBudget value limits = .ok true) : Fits limits value := by
  simp only [withinBudget, bind_eq_ok, pure_eq_ok, Bool.and_eq_true, decide_eq_true_eq] at h
  obtain ⟨text, htext, hbytes, htokens⟩ := h
  exact ⟨text, htext, hbytes, htokens⟩

/-- The one refusal of the loop. -/
def tooSmall : Error := invalidRequest "retrieval budget is too small for declared identity"

/-- How the loop of a request goes: so many turns from its first draft, to one that fits or to one
that nothing can be taken away from. -/
def Settles (model : AcceptedModel) (prompt : Bytes) (limits : RetrievalLimits)
    (result : Result Json) : Prop :=
  ∃ n d, n ≤ (requestDraft model.index prompt limits).weight ∧
    Turns (budgetExceeded model.index limits) Draft.shrinkOrThrow n
      (requestDraft model.index prompt limits) d ∧
    ((result = .ok (d.render model.index limits) ∧ Fits limits (d.render model.index limits)) ∨
      (result = .error tooSmall ∧ d.shrink = none ∧ ¬ Fits limits (d.render model.index limits)))

theorem retrieve_eq_fit (model : AcceptedModel) {prompt : Bytes} {limits : RetrievalLimits}
    (hprompt : checkPrompt prompt = .ok ()) (hlimits : checkLimits limits = .ok ()) :
    retrieve model.json prompt limits = (do
      let d ← fitBudget model.index limits (requestDraft model.index prompt limits)
      return d.render model.index limits) := by
  simp only [retrieve, retrieveTerms, requestDraft, model.accepted, hprompt, hlimits, ok_bind]

/-- **Retrieval ends inside its budget.** -/
theorem retrieve_settles (model : AcceptedModel) {prompt : Bytes} {limits : RetrievalLimits}
    (hprompt : checkPrompt prompt = .ok ()) (hlimits : checkLimits limits = .ok ()) :
    Settles model prompt limits (retrieve model.json prompt limits) := by
  have hmeasure : ∀ d d', budgetExceeded model.index limits d = .ok true →
      d.shrinkOrThrow = .ok d' → d'.weight < d.weight := by
    intro d d' _ h
    exact (Draft.shrink_spec (Draft.shrinkOrThrow_eq_ok.mp h)).weight
  have hstep : ∀ d d', Rendered d → budgetExceeded model.index limits d = .ok true →
      d.shrinkOrThrow = .ok d' → Rendered d' := by
    intro d d' hd _ h
    exact hd.shrink (Draft.shrinkOrThrow_eq_ok.mp h)
  obtain ⟨n, d, hn, hturns, hends⟩ :=
    whileLoop_ends hmeasure (requestDraft model.index prompt limits)
  have hd := hturns.invariant hstep (rendered_requestDraft model prompt limits)
  refine ⟨n, d, hn, hturns, ?_⟩
  rw [retrieve_eq_fit model hprompt hlimits, fitBudget]
  generalize whileLoop (budgetExceeded model.index limits) Draft.shrinkOrThrow
    ((requestDraft model.index prompt limits).weight + 1)
    (requestDraft model.index prompt limits) = looped at hends
  cases hends with
  | done hwithin =>
    obtain ⟨within, hwithin, hnot⟩ := map_eq_ok.mp hwithin
    rw [Bool.not_eq_false'] at hnot
    subst hnot
    exact .inl ⟨rfl, fits_of_withinBudget hwithin⟩
  | conditionThrows herror =>
    obtain ⟨exceeded, hexceeded⟩ := hd.budgetExceeded model limits
    rw [hexceeded] at herror
    cases herror
  | bodyThrows hexceeded hthrows =>
    unfold Draft.shrinkOrThrow at hthrows
    cases hshrink : d.shrink with
    | some d' =>
      rw [hshrink] at hthrows
      cases hthrows
    | none =>
      rw [hshrink] at hthrows
      cases hthrows
      refine .inr ⟨rfl, rfl, ?_⟩
      intro ⟨text, htext, hbytes, htokens⟩
      simp [Retrieval.budgetExceeded, withinBudget, htext, hbytes, htokens] at hexceeded

/-! ### The limits of the runtime -/

/-- `max_context_bytes` of the provider the runtime configures. -/
def contextBytes (options : Options) : Nat := (sizeOf options.providerContextBytes).toNat

/-- `compact_model_context`. -/
def compactModelContext (retrieval : Json) (maximumBytes : Nat) : Result Json := do
  let text ← retrieval.dump
  throwIf (maximumBytes < text.length)
    (.inference "context_too_large" "retrieved context exceeds inference budget")
  return retrieval

theorem interpret_eq (llama : Llama) (prompt : Bytes) (retrieval : Json) (reply : Result Bytes) :
    llama.interpret prompt retrieval reply = (do
      throwIf prompt.isEmpty (.inference "invalid_prompt" "prompt must not be empty")
      throwIf (llama.maxPromptBytes < prompt.length)
        (.inference "prompt_too_large" "prompt exceeds maximum size")
      let _ ← compactModelContext retrieval llama.maxContextBytes
      let received ← reply
      throwIf (llama.maxResponseBytes < received.length)
        (.inference "provider_response_too_large" "llama response exceeds maximum size")
      (readResponse llama prompt received).mapError asProviderError) := by
  simp only [Llama.interpret, compactModelContext, bind_assoc, pure_bind]

omit [Platform] in
/-- What the option parsers let through for `context_bytes`. -/
def ContextRange (options : Options) : Prop :=
  1024 ≤ options.providerContextBytes ∧ options.providerContextBytes ≤ 65536

omit [Platform] in
theorem toNat_sizeOf {options : Options} (h : ContextRange options) :
    1024 ≤ (sizeOf options.providerContextBytes).toNat ∧
      (sizeOf options.providerContextBytes).toNat ≤ 65536 := by
  obtain ⟨hlow, hhigh⟩ := h
  obtain ⟨m, hm⟩ := Int.eq_ofNat_of_zero_le (by omega : 0 ≤ options.providerContextBytes)
  have hsize : m < 2 ^ 64 := by omega
  rw [sizeOf, hm, Int64.ofInt_eq_ofNat, Int64.toUInt64_ofNat', UInt64.toNat_ofNat_of_lt' hsize]
  omega

omit [Platform] in
/-- **The limits of the runtime pass the entry check.** -/
theorem checkLimits_retrievalLimits {options : Options} (h : ContextRange options) :
    checkLimits (retrievalLimits options) = .ok () := by
  obtain ⟨hlow, hhigh⟩ := toNat_sizeOf h
  have htokens : ((sizeOf options.providerContextBytes + 3) / 4).toNat =
      ((sizeOf options.providerContextBytes).toNat + 3) / 4 := by
    rw [UInt64.toNat_div, UInt64.toNat_add]
    simp only [UInt64.reduceToNat]
    omega
  have hminBytes : kMinimumSerializedBytes.toNat = 1024 := rfl
  have hmaxBytes : kMaximumSerializedBytes.toNat = 65536 := rfl
  have hminTokens : kMinimumEstimatedTokens.toNat = 256 := rfl
  have hmaxTokens : kMaximumEstimatedTokens.toNat = 16384 := rfl
  simp only [checkLimits, throwIf_eq_ok, retrievalLimits, not_or, UInt64.lt_iff_toNat_lt, htokens,
    hminBytes, hmaxBytes, hminTokens, hmaxTokens]
  refine ⟨by decide, by decide, by decide, by decide, by decide, ?_, ?_, ?_, ?_⟩
  · omega
  · omega
  · omega
  · omega

theorem compactModelContext_eq_ok {model : AcceptedModel} {prompt : Bytes} {options : Options}
    {retrieval : Json} (h : retrieve model.json prompt (retrievalLimits options) = .ok retrieval) :
    compactModelContext retrieval (contextBytes options) = .ok retrieval := by
  simp only [retrieve, retrieveTerms, bind_eq_ok, pure_eq_ok] at h
  obtain ⟨index, -, _, -, _, -, d, hfit, rfl⟩ := h
  obtain ⟨text, htext, hbytes, -⟩ := fits_of_withinBudget (fitBudget_eq_ok hfit).2
  have hfits : ¬ contextBytes options < text.length := Nat.not_lt.mpr hbytes
  simp only [compactModelContext, htext, ok_bind, bind_eq_ok, throwIf_eq_ok, pure_eq_ok]
  exact ⟨(), hfits, trivial⟩

/-- What the budget of the runtime's options comes to, in every run from an accepted model. -/
structure Budgeted (service : Service) (model : AcceptedModel) : Prop where
  limits : checkLimits (retrievalLimits service.options) = .ok ()
  /-- The prompts that the routes let through pass the entry check. -/
  prompts : ∀ prompt, IsPrompt prompt → checkPrompt prompt = .ok ()
  /-- What any call holds to ask a provider with is within the provider's bound. -/
  contexts : ∀ c, Reachable (requests service) always (started service model) c → ∀ t ∈ c.threads,
    ∀ prompt held, t.uses = some (prompt, held) →
      compactModelContext held.retrieval (contextBytes service.options) = .ok held.retrieval

/-- **Retrieval ends inside its budget**, and with the options of the runtime its checks never
refuse and neither does the provider's. -/
theorem retrieve_within_budget (model : AcceptedModel) :
    (∀ prompt limits, checkPrompt prompt = .ok () → checkLimits limits = .ok () →
      Settles model prompt limits (retrieve model.json prompt limits)) ∧
    ∀ service : Service, ContextRange service.options → Budgeted service model := by
  refine ⟨fun _ _ => retrieve_settles model, ?_⟩
  intro service hrange
  refine ⟨checkLimits_retrievalLimits hrange, fun _ => checkPrompt_of_isPrompt, ?_⟩
  intro c hc t ht prompt held huses
  exact compactModelContext_eq_ok (((reachable_sound hc).2 t ht).held huses).retrieval

end

section samples

local instance budgetPlatform : Platform := samplePlatform

/-- A request of the sample plant, alone and among others. -/
theorem retrieve_within_budget_tank :
    Settles tankAccepted "show the tank level" {}
        (retrieve tankAccepted.json "show the tank level" {}) ∧
      Budgeted tankService tankAccepted := by
  obtain ⟨hsettles, hbudgeted⟩ := retrieve_within_budget tankAccepted
  have hprompt : checkPrompt "show the tank level" = .ok () :=
    checkPrompt_of_isPrompt (by decide +kernel)
  have hlimits : checkLimits {} = .ok () := by decide
  exact ⟨hsettles _ _ hprompt hlimits, hbudgeted tankService ⟨by decide, by decide⟩⟩

end samples

end ContextHmi.Runtime
