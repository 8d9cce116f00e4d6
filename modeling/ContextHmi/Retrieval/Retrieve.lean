import ContextHmi.Library.While
import ContextHmi.Retrieval.Terms

/-!
# Retrieving a bounded context

`retrieve`: the assets a request names are scored by the terms it shares with them, the best ones
and what surrounds them become the context of the request, and a loop takes away one item after
another until the serialized context fits its budget. A draft is the context while the loop is at
it, before it is written as JSON.
-/

namespace ContextHmi.Retrieval

open Outcome

/-! ### Limits -/

abbrev kMinimumSerializedBytes : UInt64 := 1024
abbrev kMaximumSerializedBytes : UInt64 := 65536
abbrev kMinimumEstimatedTokens : UInt64 := 256
abbrev kMaximumEstimatedTokens : UInt64 := 16384

structure RetrievalLimits where
  candidates : UInt64 := 12
  assets : UInt64 := 16
  relationships : UInt64 := 64
  tags : UInt64 := 128
  alarms : UInt64 := 128
  maxSerializedBytes : UInt64 := 12288
  maxEstimatedTokens : UInt64 := 3072

def invalidRequest (details : Bytes) : Error := .domain "invalid_request" details

def checkPrompt (prompt : Bytes) : Result Unit :=
  throwIf (prompt.isEmpty ∨ kMaxPrompt < prompt.length)
    (invalidRequest "retrieval prompt must be nonempty and bounded")

def checkLimits (limits : RetrievalLimits) : Result Unit :=
  throwIf (limits.candidates = 0 ∨ limits.assets = 0 ∨ limits.relationships = 0 ∨
    limits.tags = 0 ∨ limits.alarms = 0 ∨
    limits.maxSerializedBytes < kMinimumSerializedBytes ∨
    kMaximumSerializedBytes < limits.maxSerializedBytes ∨
    limits.maxEstimatedTokens < kMinimumEstimatedTokens ∨
    kMaximumEstimatedTokens < limits.maxEstimatedTokens)
    (invalidRequest "retrieval limits must be positive")

/-! ### Scores -/

structure Candidate where
  asset : Asset
  score : Nat
  reasons : List Bytes

def Candidate.id (candidate : Candidate) : Bytes := candidate.asset.id

/-- The points of an asset that shares its numbers with the request, each with its reason. -/
def evidence (promptTerms : List Bytes) (asset : Asset) : List (Nat × Bytes) :=
  ((assetTerms asset).filter promptTerms.contains).map (fun term =>
      (if 2 < term.length then 12 else 4, bytes "term:" ++ term)) ++
    (if allPresent promptTerms (termsFor asset.id) then [(80, bytes "declared-id")] else []) ++
    (if allPresent promptTerms (termsFor asset.name) then [(100, bytes "declared-name")] else []) ++
    (if (asset.aliases.getD []).any fun name => allPresent promptTerms (termsFor name)
      then [(90, bytes "declared-alias")] else [])

/-- The request names numbers, and the asset has none of them. -/
def numberConflict (promptTerms : List Bytes) (asset : Asset) : Bool :=
  !(numericTerms promptTerms).isEmpty &&
    !(numericTerms promptTerms).any (numericTerms (assetTerms asset)).contains

def candidateOf (promptTerms : List Bytes) (asset : Asset) : Candidate :=
  let found := if numberConflict promptTerms asset then [] else evidence promptTerms asset
  ⟨asset, (found.map (·.1)).sum, found.map (·.2)⟩

/-- Higher scores first, then ids in order. -/
def Candidate.before (left right : Candidate) : Prop :=
  right.score < left.score ∨ left.score = right.score ∧ Bytes.ble left.id right.id = true

instance (left right : Candidate) : Decidable (left.before right) :=
  inferInstanceAs (Decidable (_ ∨ _))

/-- The assets with a score, sorted. -/
def scoredAssets (index : ModelIndex) (promptTerms : List Bytes) : List Candidate :=
  ((index.assets.map (candidateOf promptTerms)).filter fun item => 0 < item.score).insertionSort
    Candidate.before

def kindMentioned (index : ModelIndex) (promptTerms : List Bytes) : Bool :=
  promptTerms.any fun term => index.assets.any fun asset => (termsFor asset.kind).contains term

/-- The request means one particular asset. -/
def specificReference (index : ModelIndex) (promptTerms : List Bytes) (scopePhrase : Bool) : Bool :=
  let scored := scoredAssets index promptTerms
  kindMentioned index promptTerms || !(numericTerms promptTerms).isEmpty ||
    (scored.isEmpty && scopePhrase) || scored.any fun item => 80 ≤ item.score

def eligibilityScore (scored : List Candidate) : Nat :=
  let top := (scored.head?.map (·.score)).getD 0
  if top < 12 then 0 else top

/-- A candidate the context lists. -/
structure Listed where
  candidate : Candidate
  eligible : Bool

def listCandidates (limits : RetrievalLimits) (scored : List Candidate) : List Listed :=
  (scored.take limits.candidates.toNat).map fun item =>
    ⟨item, 0 < eligibilityScore scored && item.score = eligibilityScore scored⟩

def eligibleIds (listed : List Listed) : List Bytes :=
  (listed.filter (·.eligible)).map (·.candidate.id)

/-- The ids of every asset with the eligible score, those the candidate limit left out included. -/
def allEligibleIds (scored : List Candidate) (eligible : List Bytes) : List Bytes :=
  scored.foldl (fun ids item =>
    if item.score = eligibilityScore scored ∧ item.id ∉ ids then ids ++ [item.id] else ids) eligible

/-! ### Scope -/

structure Scope where
  ids : List Bytes
  truncated : Bool

def Scope.extend (limit : Nat) (scope : Scope) (rel : Relationship) : Scope :=
  let hasFrom := scope.ids.contains rel.fromId
  let hasTo := scope.ids.contains rel.toId
  if hasFrom && scope.ids.length < limit then { scope with ids := scope.ids.insert rel.toId }
  else if hasTo && scope.ids.length < limit then { scope with ids := scope.ids.insert rel.fromId }
  else if (hasFrom && !hasTo) || (hasTo && !hasFrom) then { scope with truncated := true }
  else scope

/-- The eligible assets, or without any, and without a reference to one, the first of the model. -/
def initialScope (index : ModelIndex) (limit : Nat) (eligible : List Bytes) (specific : Bool) :
    Scope :=
  if eligible.isEmpty && !specific then
    ⟨(index.assets.map (·.id)).take limit, limit < index.assets.length⟩
  else ⟨eligible, false⟩

/-- A scope of one asset takes in what its relationships lead to. -/
def scopeOf (index : ModelIndex) (limit : Nat) (eligible : List Bytes) (specific : Bool) : Scope :=
  let scope := initialScope index limit eligible specific
  if scope.ids.length = 1 then index.relationships.foldl (Scope.extend limit) scope else scope

/-- The scope with the eligible assets first, the others as the model declares them. -/
def orderedScopeIds (index : ModelIndex) (eligible : List Bytes) (scope : Scope) : List Bytes :=
  eligible ++ (index.assets.map (·.id)).filter fun id => scope.ids.contains id && !eligible.contains id

/-- The assets whose tags and alarms the context has. -/
def measurementScopeIds (eligible : List Bytes) (scope : Scope) : List Bytes :=
  if eligible.isEmpty then scope.ids else eligible

/-! ### Tags -/

/-- The first tag of a role, unless it is there already. -/
def leadTag (tags ordered : List Tag) (role : Bytes) : List Tag :=
  match tags.find? fun tag => tag.role = role && !ordered.any (·.id = tag.id) with
  | some tag => ordered ++ [tag]
  | none => ordered

def pushTag (ordered : List Tag) (tag : Tag) : List Tag :=
  if ordered.any (·.id = tag.id) then ordered else ordered ++ [tag]

/-- One tag of each requested role first, then the rest. -/
def orderedTags (tags : List Tag) (roles : List Bytes) : List Tag :=
  tags.foldl pushTag (roles.foldl (leadTag tags) [])

/-! ### Drafts -/

structure Truncated where
  candidates : Bool
  assets : Bool
  relationships : Bool
  tags : Bool
  alarms : Bool
  measurementRoles : Bool
  budget : Bool

/-- A context the budget loop is at. Tags, alarms and relationships are as the context has them. -/
structure Draft where
  promptTerms : List Bytes
  taskHints : List Bytes
  roleHints : List Bytes
  requestedRoles : Nat
  specific : Bool
  requiresClarification : Bool
  eligible : List Bytes
  eligibleCount : Nat
  candidates : List Listed
  assets : List Asset
  relationships : List Json
  tags : List Json
  alarms : List Json
  truncated : Truncated

def compactAsset (asset : Asset) : Json :=
  (Json.object [("id", .str asset.id), ("name", .str asset.name),
    ("kind", .str asset.kind)]).setOptional "aliases" (asset.aliases.map Json.strings)

def compactRelationship (rel : Relationship) : Json :=
  .object [("id", .str rel.id), ("from", .str rel.fromId), ("to", .str rel.toId),
    ("kind", .str rel.kind)]

def compactTag (tag : Tag) : Json :=
  .object [("id", .str tag.id), ("asset_id", .str tag.assetId), ("name", .str tag.name),
    ("role", .str tag.role), ("data_type", .str tag.dataType), ("unit", .str tag.unit)]

def compactAlarm (alarm : Alarm) : Json :=
  .object [("id", .str alarm.id), ("asset_id", .str alarm.assetId), ("name", .str alarm.name),
    ("tag_id", .str alarm.tagId), ("severity", .str alarm.severity)]

def Listed.toJson (item : Listed) : Json :=
  .object [("asset_id", .str item.candidate.id), ("name", .str item.candidate.asset.name),
    ("kind", .str item.candidate.asset.kind), ("score", .int (Int64.ofNat item.candidate.score)),
    ("eligible", .bool item.eligible), ("reasons", Json.strings item.candidate.reasons)]

/-- The hints of the request, with measurements as a hint of an overview. -/
def hintsWith (promptTerms roleHints : List Bytes) : List Bytes :=
  if (taskHints promptTerms).isEmpty && !roleHints.isEmpty then ["overview"]
  else taskHints promptTerms

/-- The context of a request before the budget loop. -/
def draftOf (index : ModelIndex) (promptTerms : List Bytes) (scopePhrase : Bool)
    (limits : RetrievalLimits) : Draft :=
  let scored := scoredAssets index promptTerms
  let specific := specificReference index promptTerms scopePhrase
  let candidates := listCandidates limits scored
  let eligible := eligibleIds candidates
  let allEligible := allEligibleIds scored eligible
  let scope := scopeOf index limits.assets.toNat eligible specific
  let assets :=
    ((orderedScopeIds index eligible scope).filterMap index.asset?).take limits.assets.toNat
  let relevant := index.relationships.filter fun rel =>
    scope.ids.contains rel.fromId && scope.ids.contains rel.toId
  let relationships := relevant.take limits.relationships.toNat
  let owners := measurementScopeIds eligible scope
  let sources := index.tags.filter fun tag => owners.contains tag.assetId
  let roleHints := measurementRoleHints sources promptTerms
  let tags := (orderedTags sources roleHints).take limits.tags.toNat
  let raised := index.alarms.filter fun alarm => owners.contains alarm.assetId
  let alarms := raised.take limits.alarms.toNat
  { promptTerms := promptTerms
    taskHints := hintsWith promptTerms roleHints
    roleHints := roleHints
    requestedRoles := roleHints.length
    specific := specific
    requiresClarification := 1 < allEligible.length || (specific && eligible.isEmpty)
    eligible := eligible
    eligibleCount := allEligible.length
    candidates := candidates
    assets := assets
    relationships := relationships.map compactRelationship
    tags := tags.map compactTag
    alarms := alarms.map compactAlarm
    truncated :=
      { candidates := candidates.length < scored.length || eligible.length < allEligible.length
        assets := scope.truncated || assets.length < scope.ids.length
        relationships := relationships.length < relevant.length
        tags := tags.length < sources.length
        alarms := alarms.length < raised.length
        measurementRoles := false
        budget := false } }

def count (n : Nat) : Json := .uint (UInt64.ofNat n)

def RetrievalLimits.toJson (limits : RetrievalLimits) : Json :=
  .object [("candidate_limit", .uint limits.candidates), ("asset_limit", .uint limits.assets),
    ("relationship_limit", .uint limits.relationships), ("tag_limit", .uint limits.tags),
    ("alarm_limit", .uint limits.alarms),
    ("serialized_byte_limit", .uint limits.maxSerializedBytes),
    ("estimated_token_limit", .uint limits.maxEstimatedTokens)]

def Truncated.toJson (truncated : Truncated) : Json :=
  .object [("candidates", .bool truncated.candidates), ("assets", .bool truncated.assets),
    ("relationships", .bool truncated.relationships), ("tags", .bool truncated.tags),
    ("alarms", .bool truncated.alarms), ("measurement_roles", .bool truncated.measurementRoles),
    ("serialized_bytes", .bool truncated.budget), ("estimated_tokens", .bool truncated.budget)]

/-- The context as JSON. -/
def Draft.render (index : ModelIndex) (limits : RetrievalLimits) (draft : Draft) : Json :=
  .object [("schema_version", .str "context-retrieval/1"),
    ("model_id", .str index.modelId),
    ("model_revision", index.revision),
    ("prompt_terms", Json.strings draft.promptTerms),
    ("task_hints", Json.strings draft.taskHints),
    ("measurement_role_hints", Json.strings draft.roleHints),
    ("requested_measurement_role_count", count draft.requestedRoles),
    ("specific_asset_reference", .bool draft.specific),
    ("requires_clarification", .bool draft.requiresClarification),
    ("eligible_asset_ids", Json.strings draft.eligible),
    ("eligible_asset_count", count draft.eligibleCount),
    ("candidates", .arr (draft.candidates.map Listed.toJson)),
    ("scope", .object [("assets", .arr (draft.assets.map compactAsset)),
      ("relationships", .arr draft.relationships), ("tags", .arr draft.tags),
      ("alarms", .arr draft.alarms)]),
    ("limits", limits.toJson),
    ("truncated", draft.truncated.toJson)]

/-! ### The budget loop -/

/-- The list without its last element that `p` holds of. -/
def removeLast {α : Type} (p : α → Bool) : List α → Option (List α)
  | [] => none
  | a :: l => match removeLast p l with
    | some l' => some (a :: l')
    | none => if p a then some l else none

/-- The assets with the aliases of the first that has them erased. -/
def eraseAliases : List Asset → Option (List Asset)
  | [] => none
  | asset :: rest =>
    if asset.aliases.isSome then some ({ asset with aliases := none } :: rest)
    else (eraseAliases rest).map (asset :: ·)

namespace Draft

/-- `remove_last_nonessential_candidate`. -/
def dropCandidate (d : Draft) : Option Draft :=
  (removeLast (fun item => !item.eligible) d.candidates).map fun candidates =>
    { d with candidates := candidates, truncated := { d.truncated with candidates := true } }

/-- `remove_last_nonessential_asset`. -/
def dropAsset (d : Draft) : Option Draft :=
  (removeLast (fun asset => !d.eligible.contains asset.id) d.assets).map fun assets =>
    { d with assets := assets, truncated := { d.truncated with assets := true } }

def dropRelationship (d : Draft) : Option Draft :=
  if d.relationships.isEmpty then none
  else some { d with
    relationships := d.relationships.dropLast
    truncated := { d.truncated with relationships := true } }

def dropAlarm (d : Draft) : Option Draft :=
  if d.alarms.isEmpty then none
  else some { d with
    alarms := d.alarms.dropLast
    truncated := { d.truncated with alarms := true } }

/-- The tags that stand for a requested role stay. -/
def dropTag (d : Draft) : Option Draft :=
  if d.roleHints.length < d.tags.length then
    some { d with
      tags := d.tags.dropLast
      truncated := { d.truncated with tags := true } }
  else none

/-- A requested role that is taken away must be asked about. -/
def dropRole (d : Draft) : Option Draft :=
  if d.roleHints.isEmpty then none
  else some { d with
    roleHints := d.roleHints.dropLast
    requiresClarification := true
    truncated := { d.truncated with measurementRoles := true } }

def dropAliases (d : Draft) : Option Draft :=
  (eraseAliases d.assets).map fun assets =>
    { d with assets := assets, truncated := { d.truncated with assets := true } }

def dropTerm (d : Draft) : Option Draft :=
  if d.promptTerms.isEmpty then none
  else some { d with promptTerms := d.promptTerms.dropLast }

/-- An eligible asset is taken away only where there is more than one. -/
def dropEligible (d : Draft) : Option Draft :=
  if d.eligible.isEmpty || d.eligibleCount ≤ 1 then none
  else some { d with eligible := d.eligible.dropLast }

/-- One turn of the loop: the first thing there is to take away. -/
def shrink (d : Draft) : Option Draft :=
  (d.dropCandidate <|> d.dropAsset <|> d.dropRelationship <|> d.dropAlarm <|> d.dropTag <|>
    d.dropRole <|> d.dropAliases <|> d.dropTerm <|> d.dropEligible).map fun d =>
      { d with truncated := { d.truncated with budget := true } }

def shrinkOrThrow (d : Draft) : Result Draft :=
  match d.shrink with
  | some d => .ok d
  | none => .error (invalidRequest "retrieval budget is too small for declared identity")

/-- What there is to take away. -/
def weight (d : Draft) : Nat :=
  d.candidates.length + d.assets.length + d.relationships.length + d.alarms.length + d.tags.length +
    d.roleHints.length + (d.assets.filter (·.aliases.isSome)).length + d.promptTerms.length +
    d.eligible.length

end Draft

section
variable [Platform]

def estimatedTokens (serializedBytes : Nat) : Nat := (serializedBytes + 3) / 4

/-- `within_budget`. -/
def withinBudget (value : Json) (limits : RetrievalLimits) : Result Bool := do
  let text ← value.dump
  return text.length ≤ limits.maxSerializedBytes.toNat &&
    estimatedTokens text.length ≤ limits.maxEstimatedTokens.toNat

def budgetExceeded (index : ModelIndex) (limits : RetrievalLimits) (d : Draft) : Result Bool :=
  (! ·) <$> withinBudget (d.render index limits) limits

/-- The loop: every turn lowers the weight, so it ends within that many. -/
def fitBudget (index : ModelIndex) (limits : RetrievalLimits) (d : Draft) : Result Draft :=
  whileLoop (budgetExceeded index limits) Draft.shrinkOrThrow (d.weight + 1) d

/-- What the terms of a request and its scope phrase retrieve from an accepted model. -/
def retrieveTerms (index : ModelIndex) (promptTerms : List Bytes) (scopePhrase : Bool)
    (limits : RetrievalLimits) : Result Json := do
  let draft ← fitBudget index limits (draftOf index promptTerms scopePhrase limits)
  return draft.render index limits

/-- `retrieve`. -/
def retrieve (model : Json) (prompt : Bytes) (limits : RetrievalLimits) : Result Json := do
  let index ← indexModel model
  checkPrompt prompt
  checkLimits limits
  retrieveTerms index (termsFor prompt) (hasScopePhrase prompt) limits

end

end ContextHmi.Retrieval
