import ContextHmi.Engine.Composer

/-!
# Terms of a request

What the retriever reads from a text: its words in lower case, each under one canonical spelling.
Scores, kinds, roles and hints are all decided by comparing terms.

* `mem_termsFor`           : the terms of a text are its canonical words;
* `hasScopePhrase_iff`     : a scope phrase is one of four words.
-/

namespace ContextHmi.Retrieval

/-- The words of a text, after the letters read so far. -/
def scanWords (current : Bytes) : Bytes → List Bytes
  | [] => if current.isEmpty then [] else [current]
  | c :: rest =>
    if Bytes.isAlnum c then scanWords (current ++ [Bytes.toLower c]) rest
    else if current.isEmpty then scanWords [] rest
    else current :: scanWords [] rest

/-- The words of a text in lower case. -/
def words (text : Bytes) : List Bytes := scanWords [] text

def synonyms : List (Bytes × Bytes) := [
  ("one", "1"), ("first", "1"), ("two", "2"), ("second", "2"), ("three", "3"), ("third", "3"),
  ("four", "4"), ("fourth", "4"), ("five", "5"), ("fifth", "5"),
  ("warning", "alarm"), ("warnings", "alarm"), ("alert", "alarm"), ("alerts", "alarm"),
  ("trips", "alarm"), ("reading", "overview"), ("readings", "overview"),
  ("measurements", "overview"), ("dashboard", "overview"), ("display", "overview"),
  ("show", "overview"), ("monitor", "overview"), ("inspect", "overview"), ("summary", "overview"),
  ("temp", "temperature")]

/-- `canonical_term`. -/
def canonicalTerm (term : Bytes) : Bytes := (Assoc.find? term synonyms).getD term

/-- `std::sort` and `std::unique`. -/
def sortUnique (l : List Bytes) : List Bytes := Bytes.sortBy id l.dedup

/-- `terms_for`. -/
def termsFor (text : Bytes) : List Bytes := sortUnique ((words text).map canonicalTerm)

/-- `numeric_terms`. -/
def numericTerms (terms : List Bytes) : List Bytes :=
  terms.filter fun term => !term.isEmpty && term.all Bytes.isDigit

/-- A blank for every character that is not a letter or a digit. -/
def blanked (text : Bytes) : Bytes :=
  text.map fun c => if Bytes.isAlnum c then Bytes.toLower c else 0x20

/-- A text between two blanks. -/
def padded (text : Bytes) : Bytes := 0x20 :: text ++ [0x20]

def scopeWords : List Bytes := ["for", "on", "from", "at"]

/-- `has_scope_phrase`. -/
def hasScopePhrase (prompt : Bytes) : Bool :=
  scopeWords.any fun word => decide (padded word <:+: padded (blanked prompt))

/-- `asset_terms`. -/
def assetTerms (asset : Asset) : List Bytes :=
  sortUnique (termsFor asset.id ++ termsFor asset.name ++ termsFor asset.kind ++
    (asset.aliases.getD []).flatMap termsFor)

/-- `all_present`: there are terms, and the request has them all. -/
def allPresent (promptTerms terms : List Bytes) : Bool :=
  !terms.isEmpty && terms.all promptTerms.contains

/-- `task_hints`. -/
def taskHints (promptTerms : List Bytes) : List Bytes :=
  if promptTerms.contains "alarm" then ["alarms"]
  else if promptTerms.contains "overview" || promptTerms.contains "status" ||
    promptTerms.contains "state" then ["overview"]
  else []

/-- `measurement_role_hints`. -/
def measurementRoleHints (tags : List Tag) (promptTerms : List Bytes) : List Bytes :=
  sortUnique ((tags.filter fun tag => allPresent promptTerms (termsFor tag.role) ||
    allPresent promptTerms (termsFor tag.name)).map Tag.role)

/-! ### Words between blanks -/

theorem padded_infix_cons {word current rest : Bytes} (hword : (0x20 : UInt8) ∉ word)
    (hcurrent : (0x20 : UInt8) ∉ current) :
    padded word <:+: 0x20 :: current ++ 0x20 :: rest ↔
      word = current ∨ padded word <:+: 0x20 :: rest := by
  have hprefix : padded word <+: 0x20 :: current ++ 0x20 :: rest ↔ word = current := by
    rw [padded, List.cons_append, List.cons_append, List.cons_prefix_cons, and_iff_right rfl]
    induction word generalizing current with
    | nil => cases current <;> simp_all [List.prefix_cons_iff]
    | cons c word ih =>
      cases current with
      | nil =>
        have hc : c ≠ 0x20 := by
          rintro rfl
          simp at hword
        simp [List.cons_prefix_cons, hc]
      | cons d current =>
        simp only [List.mem_cons, not_or] at hword hcurrent
        rw [List.cons_append, List.cons_append, List.cons_prefix_cons, ih hword.2 hcurrent.2,
          List.cons.injEq]
  have hskip : padded word <:+: current ++ 0x20 :: rest ↔ padded word <:+: 0x20 :: rest := by
    clear hprefix
    induction current with
    | nil => rfl
    | cons d current ih =>
      simp only [List.mem_cons, not_or] at hcurrent
      rw [List.cons_append, List.infix_cons_iff, ih hcurrent.2, padded, List.cons_append,
        List.cons_prefix_cons]
      simp [hcurrent.1]
  rw [List.cons_append, List.infix_cons_iff, ← List.cons_append, hprefix, hskip]

theorem mem_scanWords {word current : Bytes} (text : Bytes) (hword : (0x20 : UInt8) ∉ word)
    (hne : word ≠ []) (hcurrent : (0x20 : UInt8) ∉ current) :
    word ∈ scanWords current text ↔ padded word <:+: 0x20 :: current ++ blanked text ++ [0x20] := by
  induction text generalizing current with
  | nil =>
    have hlong : ¬ padded word <:+: [0x20] := by
      intro h
      have hlen := h.length_le
      simp [padded] at hlen
    rw [blanked, List.map_nil, List.append_nil, padded_infix_cons hword hcurrent]
    unfold scanWords
    cases current with
    | nil => simp [hlong, hne]
    | cons d current => simp [hlong]
  | cons c text ih =>
    unfold scanWords
    cases hc : Bytes.isAlnum c with
    | true =>
      have hblank : (0x20 : UInt8) ∉ current ++ [Bytes.toLower c] := by
        rw [List.mem_append, List.mem_singleton, not_or]
        refine ⟨hcurrent, fun h => ?_⟩
        have hlower := Bytes.isAlnum_toLower c
        rw [← h, hc] at hlower
        exact absurd hlower (by decide)
      rw [if_pos rfl, ih hblank]
      simp [blanked, hc]
    | false =>
      have hrest := @ih [] (by simp)
      have hsplit : 0x20 :: current ++ blanked (c :: text) ++ [0x20] =
          0x20 :: current ++ 0x20 :: (blanked text ++ [0x20]) := by simp [blanked, hc]
      rw [if_neg (by simp), hsplit, padded_infix_cons hword hcurrent]
      have hnil : (0x20 : UInt8) :: [] ++ blanked text ++ [0x20] =
          0x20 :: (blanked text ++ [0x20]) := rfl
      rw [hnil] at hrest
      cases current with
      | nil => simp [hrest, hne]
      | cons d current => simp [hrest]

theorem hasScopePhrase_iff {prompt : Bytes} :
    hasScopePhrase prompt = true ↔ ∃ word ∈ scopeWords, word ∈ words prompt := by
  have hwords : ∀ word ∈ scopeWords, (0x20 : UInt8) ∉ word ∧ word ≠ [] := by decide +kernel
  rw [hasScopePhrase, List.any_eq_true]
  refine exists_congr fun word => and_congr_right fun hmem => ?_
  obtain ⟨hblank, hne⟩ := hwords word hmem
  rw [decide_eq_true_iff, words, mem_scanWords prompt hblank hne (by simp)]
  rfl

/-! ### Sorted terms -/

@[simp] theorem mem_sortUnique {l : List Bytes} {t : Bytes} : t ∈ sortUnique l ↔ t ∈ l := by
  rw [sortUnique, Bytes.mem_sortBy, List.mem_dedup]

theorem nodup_sortUnique (l : List Bytes) : (sortUnique l).Nodup :=
  ((Bytes.sortBy_perm id l.dedup).nodup_iff).mpr l.nodup_dedup

theorem mem_termsFor {text term : Bytes} :
    term ∈ termsFor text ↔ ∃ word ∈ words text, canonicalTerm word = term := by
  rw [termsFor, mem_sortUnique, List.mem_map]

theorem mem_measurementRoleHints {tags : List Tag} {promptTerms : List Bytes} {role : Bytes}
    (h : role ∈ measurementRoleHints tags promptTerms) : ∃ tag ∈ tags, tag.role = role := by
  rw [measurementRoleHints, mem_sortUnique, List.mem_map] at h
  obtain ⟨tag, htag, hrole⟩ := h
  exact ⟨tag, (List.mem_filter.mp htag).1, hrole⟩

theorem length_taskHints_le (promptTerms : List Bytes) : (taskHints promptTerms).length ≤ 1 := by
  unfold taskHints
  split_ifs <;> simp

theorem mem_taskHints {promptTerms : List Bytes} {hint : Bytes} (h : hint ∈ taskHints promptTerms) :
    hint = "overview" ∨ hint = "alarms" := by
  unfold taskHints at h
  split_ifs at h <;> simp_all

end ContextHmi.Retrieval
