import ContextHmi.Import.Conservation

/-!
# The order of a bundle

An import reads a bundle one entry and one record after another, but what it returns does not depend on
their order. The entries of the manifest may be permuted: the artifacts are looked up by their kinds,
which are distinct. The records of an artifact may be permuted: whether a record is readable and what
becomes of it depends on the others only through their ids, which are distinct, and the arrays of the
model are sorted by them.

* `import_order` : the result under both kinds of permutation.
-/

namespace ContextHmi.Import

open Outcome

/-! ### The manifest -/

/-- What an entry of the manifest is read as, leaving aside the entries before it. -/
structure EntryReads (limits : Limits) (bundle : Bundle) (entry : Json) (a : Artifact) : Prop where
  object : entry.isObject = true
  keys : ∀ field ∈ entry.fields, field.1 ∈
    ([bytes "id", bytes "kind", bytes "format", bytes "path"] : List Bytes)
  id : a.id = stringAt entry "id" ∧ HasField limits entry "id" false
  kind : a.kind = stringAt entry "kind" ∧ HasField limits entry "kind" false
  format : a.format = stringAt entry "format" ∧ HasField limits entry "format" false
  relative : HasField limits entry "path" false
  identity : validIdentity a.id = true
  expected : expectedFormat a.kind = some a.format
  located : bundle.locate (stringAt entry "path") = .file a.path a.filename (some a.contents)
  bounded : a.contents.length ≤ limits.maxFileBytes

section
variable {limits : Limits} {bundle : Bundle}

theorem readBounded_eq_ok {path contents : Bytes} {file : Option Bytes} :
    readBounded limits path file = .ok contents ↔
      file = some contents ∧ contents.length ≤ limits.maxFileBytes := by
  unfold readBounded
  cases file with
  | none => exact ⟨fun h => (by cases h), fun h => (by cases h.1)⟩
  | some s =>
    simp only [throwIf_bind_eq_ok, pure_eq_ok, Option.some.injEq, not_lt]
    constructor
    · rintro ⟨h, rfl⟩
      exact ⟨rfl, h⟩
    · rintro ⟨rfl, h⟩
      exact ⟨h, rfl⟩

theorem readArtifact_eq_ok {seen : List Artifact} {entry : Json} {path : Bytes} {a : Artifact} :
    readArtifact limits bundle seen entry path = .ok a ↔ EntryReads limits bundle entry a ∧
      a.id ∉ seen.map (·.id) ∧ a.kind ∉ seen.map (·.kind) := by
  unfold readArtifact
  rw [throwIf_bind_eq_ok, not_not]
  constructor
  · rintro ⟨hobject, h⟩
    obtain ⟨_, hkeys, h⟩ := bind_eq_ok.mp h
    obtain ⟨id, hid, h⟩ := bind_eq_ok.mp h
    obtain ⟨kind, hkind, h⟩ := bind_eq_ok.mp h
    obtain ⟨format, hformat, h⟩ := bind_eq_ok.mp h
    obtain ⟨hidentity, h⟩ := throwIf_bind_eq_ok.mp h
    rw [not_or, not_or, not_not] at hidentity
    cases hexpected : expectedFormat kind with
    | none => rw [hexpected] at h; cases h
    | some expected =>
      rw [hexpected] at h
      obtain ⟨hsame, h⟩ := throwIf_bind_eq_ok.mp h
      obtain ⟨relative, hrelative, h⟩ := bind_eq_ok.mp h
      have hrelative := stringField_eq_ok.mp hrelative
      cases hlocate : bundle.locate relative with
      | refused error => rw [hlocate] at h; cases h
      | file located filename contents =>
        rw [hlocate] at h
        obtain ⟨text, htext, h⟩ := bind_eq_ok.mp h
        obtain ⟨hcontents, hbounded⟩ := readBounded_eq_ok.mp htext
        cases h
        have hsame := not_not.mp hsame
        refine ⟨⟨hobject, allowedKeys_eq_ok.mp hkeys, stringField_eq_ok.mp hid,
          stringField_eq_ok.mp hkind, stringField_eq_ok.mp hformat, hrelative.2, hidentity.1,
          by rw [hexpected, hsame], ?_, hbounded⟩, hidentity.2.1, hidentity.2.2⟩
        rw [← hrelative.1, hlocate, hcontents]
  · rintro ⟨hread, hid, hkind⟩
    refine ⟨hread.object, ?_⟩
    rw [allowedKeys_eq_ok (u := ()) |>.mpr hread.keys, ok_bind, stringField_eq_ok.mpr hread.id, ok_bind,
      stringField_eq_ok.mpr hread.kind, ok_bind, stringField_eq_ok.mpr hread.format, ok_bind,
      throwIf_of_not _ (by rw [not_or, not_or, not_not]; exact ⟨hread.identity, hid, hkind⟩), ok_bind,
      hread.expected]
    simp only []
    rw [throwIf_of_not _ (not_not_intro rfl), ok_bind, stringField_eq_ok.mpr ⟨rfl, hread.relative⟩,
      ok_bind, hread.located]
    simp only []
    rw [readBounded_eq_ok.mpr ⟨rfl, hread.bounded⟩]
    rfl

theorem readArtifacts_eq_ok {entries : List Json} {artifacts : List Artifact} :
    readArtifacts limits bundle entries = .ok artifacts ↔
      List.Forall₂ (EntryReads limits bundle) entries artifacts ∧
        (artifacts.map (·.id)).Nodup ∧ (artifacts.map (·.kind)).Nodup := by
  have hgeneral : ∀ (n : Nat) (seen out : List Artifact), (seen.map (·.id)).Nodup →
      (seen.map (·.kind)).Nodup →
      ((entries.zipIdx n).foldlM (fun (seen : List Artifact) (entry : Json × Nat) => do
        let artifact ← readArtifact limits bundle seen entry.1 (entryPath entry.2)
        return seen ++ [artifact]) seen = .ok out ↔
      ∃ artifacts, out = seen ++ artifacts ∧
        List.Forall₂ (EntryReads limits bundle) entries artifacts ∧
          (out.map (·.id)).Nodup ∧ (out.map (·.kind)).Nodup) := by
    induction entries with
    | nil =>
      intro n seen out hids hkinds
      simp only [List.zipIdx_nil, List.foldlM_nil, pure_eq_ok, List.forall₂_nil_left_iff]
      constructor
      · rintro rfl
        exact ⟨[], (List.append_nil _).symm, rfl, hids, hkinds⟩
      · rintro ⟨_, h, rfl, -⟩
        rw [h, List.append_nil]
    | cons entry entries ih =>
      intro n seen out hids hkinds
      have hnodup : ∀ a : Artifact, a.id ∉ seen.map (·.id) → a.kind ∉ seen.map (·.kind) →
          ((seen ++ [a]).map (·.id)).Nodup ∧ ((seen ++ [a]).map (·.kind)).Nodup := by
        intro a hid hkind
        rw [List.map_append, List.map_append]
        exact ⟨List.Nodup.append hids (List.nodup_singleton _) (by simpa using hid),
          List.Nodup.append hkinds (List.nodup_singleton _) (by simpa using hkind)⟩
      simp only [List.zipIdx_cons, List.foldlM_cons, bind_eq_ok, pure_eq_ok, readArtifact_eq_ok,
        List.forall₂_cons_left_iff]
      constructor
      · rintro ⟨_, ⟨a, ⟨hread, hid, hkind⟩, rfl⟩, hrest⟩
        obtain ⟨hids', hkinds'⟩ := hnodup a hid hkind
        obtain ⟨artifacts, rfl, hall, hout⟩ := (ih (n + 1) _ out hids' hkinds').mp hrest
        exact ⟨a :: artifacts, by simp, ⟨a, artifacts, hread, hall, rfl⟩, hout⟩
      · rintro ⟨_, rfl, ⟨a, artifacts, hread, hall, rfl⟩, hid, hkind⟩
        have hsplit : seen ++ a :: artifacts = seen ++ [a] ++ artifacts := by simp
        have hnew : ∀ f : Artifact → Bytes, ((seen ++ a :: artifacts).map f).Nodup →
            f a ∉ seen.map f := by
          intro f h hmem
          rw [List.map_append, List.nodup_append] at h
          exact h.2.2 _ hmem _ List.mem_cons_self rfl
        obtain ⟨hids', hkinds'⟩ := hnodup a (hnew _ hid) (hnew _ hkind)
        refine ⟨_, ⟨a, ⟨hread, hnew _ hid, hnew _ hkind⟩, rfl⟩, ?_⟩
        exact (ih (n + 1) _ _ hids' hkinds').mpr ⟨artifacts, hsplit, hall, hid, hkind⟩
  rw [readArtifacts, hgeneral 0 [] artifacts List.nodup_nil List.nodup_nil]
  constructor
  · rintro ⟨_, rfl, h⟩
    exact h
  · intro h
    exact ⟨artifacts, rfl, h⟩

theorem parseJson_eq_ok {contents path : Bytes} {v : Json} : parseJson limits contents path = .ok v ↔
    Json.parse none contents = .ok v ∧ WithinLimits limits v := by
  unfold parseJson
  cases Json.parse none contents with
  | error e =>
    refine ⟨fun h => ?_, fun h => nomatch h.1⟩
    split at h
    · cases h
    · cases h
    · rename_i hok
      cases hok
  | ok value =>
    simp only [bind_eq_ok, pure_eq_ok, Except.ok.injEq]
    constructor
    · rintro ⟨_, h, rfl⟩
      exact ⟨rfl, validateJsonLimits_eq_ok.mp h⟩
    · rintro ⟨rfl, h⟩
      exact ⟨(), validateJsonLimits_eq_ok.mpr h, rfl⟩

/-- What is asked of the manifest, apart from its entries. -/
structure ManifestReads (limits : Limits) (bundle : Bundle) (manifest : Json) (machine : Machine)
    (entries : List Json) : Prop where
  object : manifest.isObject = true
  keys : ∀ field ∈ manifest.fields, field.1 ∈
    ([bytes "schema_version", bytes "machine", bytes "artifacts"] : List Bytes)
  schema : manifest.valueString "schema_version" [] = .ok "engineering-bundle/1"
  machine : readMachine limits bundle.manifestPath manifest = .ok machine
  found : manifest.find? "artifacts" = some (.arr entries)
  nonempty : entries ≠ []
  bounded : entries.length ≤ limits.maxArtifacts

theorem readManifest_eq_ok {machine : Machine} {artifacts : List Artifact} :
    readManifest limits bundle = .ok (machine, artifacts) ↔ ∃ contents manifest entries,
      bundle.manifest = some contents ∧ contents.length ≤ limits.maxFileBytes ∧
      Json.parse none contents = .ok manifest ∧ WithinLimits limits manifest ∧
      ManifestReads limits bundle manifest machine entries ∧
      readArtifacts limits bundle entries = .ok artifacts := by
  unfold readManifest
  dsimp only
  constructor
  · intro h
    obtain ⟨contents, hcontents, h⟩ := bind_eq_ok.mp h
    obtain ⟨hfile, hbounded⟩ := readBounded_eq_ok.mp hcontents
    obtain ⟨manifest, hmanifest, h⟩ := bind_eq_ok.mp h
    obtain ⟨hparse, hwithin⟩ := parseJson_eq_ok.mp hmanifest
    obtain ⟨hobject, h⟩ := throwIf_bind_eq_ok.mp h
    obtain ⟨_, hkeys, h⟩ := bind_eq_ok.mp h
    obtain ⟨schema, hschema, h⟩ := bind_eq_ok.mp h
    obtain ⟨hsame, h⟩ := throwIf_bind_eq_ok.mp h
    obtain ⟨m, hmachine, h⟩ := bind_eq_ok.mp h
    rw [not_not] at hobject hsame
    cases hfind : manifest.find? "artifacts" with
    | none => rw [hfind] at h; cases h
    | some found =>
      rw [hfind] at h
      cases found with
      | arr entries =>
        obtain ⟨hsize, h⟩ := throwIf_bind_eq_ok.mp h
        obtain ⟨out, hread, h⟩ := bind_eq_ok.mp h
        cases h
        rw [not_or, not_lt] at hsize
        exact ⟨contents, manifest, entries, hfile, hbounded, hparse, hwithin,
          ⟨hobject, allowedKeys_eq_ok.mp hkeys, hsame ▸ hschema, hmachine, hfind,
            by simpa using hsize.1, hsize.2⟩, hread⟩
      | _ => cases h
  · rintro ⟨contents, manifest, entries, hfile, hbounded, hparse, hwithin, hread, hartifacts⟩
    rw [readBounded_eq_ok.mpr ⟨hfile, hbounded⟩, ok_bind, parseJson_eq_ok.mpr ⟨hparse, hwithin⟩,
      ok_bind, throwIf_of_not _ (not_not_intro hread.object), ok_bind,
      (allowedKeys_eq_ok (u := ())).mpr hread.keys, ok_bind, hread.schema, ok_bind,
      throwIf_of_not _ (not_not_intro rfl), ok_bind, hread.machine, ok_bind, hread.found]
    simp only []
    rw [throwIf_of_not _ (by
      rw [not_or, not_lt]
      exact ⟨by simpa using hread.nonempty, hread.bounded⟩), ok_bind, hartifacts]
    rfl

end

/-! ### Values with members in another order -/

/-- A value with the items of one of its members in another order. -/
def MemberReordered (key : Bytes) (v v' : Json) : Prop :=
  ∃ before after items items', key ∉ before.map Prod.fst ∧ List.Perm items items' ∧
    v = .obj (before ++ (key, .arr items) :: after) ∧
    v' = .obj (before ++ (key, .arr items') :: after)

/-- An array with its items in another order. -/
def ItemsReordered (v v' : Json) : Prop :=
  ∃ items items', List.Perm items items' ∧ v = .arr items ∧ v' = .arr items'

theorem MemberReordered.symm {key : Bytes} {v v' : Json} (h : MemberReordered key v v') :
    MemberReordered key v' v := by
  obtain ⟨before, after, items, items', hkey, hperm, hv, hv'⟩ := h
  exact ⟨before, after, items', items, hkey, hperm.symm, hv', hv⟩

theorem ItemsReordered.symm {v v' : Json} (h : ItemsReordered v v') : ItemsReordered v' v := by
  obtain ⟨items, items', hperm, hv, hv'⟩ := h
  exact ⟨items', items, hperm.symm, hv', hv⟩

/-- Nodes that are as many and meet the limits together. -/
def Alike (limits : Limits) (l l' : List Placed) : Prop :=
  l.length = l'.length ∧ ((∀ node ∈ l, Fits limits node) ↔ ∀ node ∈ l', Fits limits node)

section
variable {limits : Limits}

theorem Alike.of_perm {l l' : List Placed} (h : l.Perm l') : Alike limits l l' :=
  ⟨h.length_eq, forall_congr' fun node => by rw [h.mem_iff]⟩

theorem Alike.append {l₁ l₂ l₁' l₂' : List Placed} (h₁ : Alike limits l₁ l₁')
    (h₂ : Alike limits l₂ l₂') : Alike limits (l₁ ++ l₂) (l₁' ++ l₂') := by
  refine ⟨by rw [List.length_append, List.length_append, h₁.1, h₂.1], ?_⟩
  rw [List.forall_mem_append, List.forall_mem_append, h₁.2, h₂.2]

theorem Alike.cons {n n' : Placed} {l l' : List Placed} (hn : Fits limits n ↔ Fits limits n')
    (h : Alike limits l l') : Alike limits (n :: l) (n' :: l') := by
  refine ⟨by rw [List.length_cons, List.length_cons, h.1], ?_⟩
  rw [List.forall_mem_cons, List.forall_mem_cons, hn, h.2]

theorem fits_congr {v v' : Json} {depth : Nat} (hv : ∀ text, v ≠ .str text)
    (hv' : ∀ text, v' ≠ .str text) (hkeys : v.fields.map Prod.fst = v'.fields.map Prod.fst) :
    Fits limits (v, depth) ↔ Fits limits (v', depth) := by
  have hkey : ∀ j : Json, (∀ field ∈ j.fields, field.1.length ≤ limits.maxStringBytes) ↔
      ∀ key ∈ j.fields.map Prod.fst, key.length ≤ limits.maxStringBytes := by
    intro j
    rw [List.forall_mem_map]
  constructor
  · intro h
    exact ⟨h.depth, fun text ht => absurd ht (hv' text), (hkey v').mpr (hkeys ▸ (hkey v).mp h.keys)⟩
  · intro h
    exact ⟨h.depth, fun text ht => absurd ht (hv text), (hkey v).mpr (hkeys ▸ (hkey v').mp h.keys)⟩

theorem alike_arr {items items' : List Json} (h : items.Perm items') (depth : Nat) :
    Alike limits (nodes depth (.arr items)) (nodes depth (.arr items')) := by
  rw [nodes, nodes, nodesOfItems_eq, nodesOfItems_eq]
  exact .cons (fits_congr (fun _ h => by cases h) (fun _ h => by cases h) rfl)
    (.of_perm (h.flatMap_right _))

theorem withinLimits_iff {v v' : Json} (h : Alike limits (nodes 0 v) (nodes 0 v')) :
    WithinLimits limits v ↔ WithinLimits limits v' :=
  ⟨fun hw => ⟨h.1 ▸ hw.count, h.2.mp hw.fits⟩, fun hw => ⟨h.1 ▸ hw.count, h.2.mpr hw.fits⟩⟩

theorem ItemsReordered.within_iff {v v' : Json} (h : ItemsReordered v v') :
    WithinLimits limits v ↔ WithinLimits limits v' := by
  obtain ⟨items, items', hperm, rfl, rfl⟩ := h
  exact withinLimits_iff (alike_arr hperm 0)

theorem MemberReordered.within_iff {key : Bytes} {v v' : Json} (h : MemberReordered key v v') :
    WithinLimits limits v ↔ WithinLimits limits v' := by
  obtain ⟨before, after, items, items', -, hperm, rfl, rfl⟩ := h
  apply withinLimits_iff
  rw [nodes, nodes, nodesOfFields_eq, nodesOfFields_eq]
  simp only [List.map_append, List.map_cons, List.flatMap_append, List.flatMap_cons]
  refine .cons (fits_congr (fun _ h => by cases h) (fun _ h => by cases h) ?_)
    (.append (.of_perm (.refl _)) (.append (alike_arr hperm _) (.of_perm (.refl _))))
  simp [Json.fields]

end

section
variable {key : Bytes} {v v' : Json}

theorem MemberReordered.find?_self (h : MemberReordered key v v') : ∃ items items',
    items.Perm items' ∧ v.find? key = some (.arr items) ∧ v'.find? key = some (.arr items') := by
  obtain ⟨before, after, items, items', hkey, hperm, rfl, rfl⟩ := h
  have hbefore : Assoc.find? key before = none := Assoc.find?_eq_none_iff.mpr hkey
  refine ⟨items, items', hperm, ?_, ?_⟩
  · simp [Assoc.find?_append, hbefore]
  · simp [Assoc.find?_append, hbefore]

theorem MemberReordered.isObject (h : MemberReordered key v v') :
    v.isObject = true ∧ v'.isObject = true := by
  obtain ⟨before, after, items, items', -, -, rfl, rfl⟩ := h
  exact ⟨rfl, rfl⟩

theorem MemberReordered.keys (h : MemberReordered key v v') : v.keys = v'.keys := by
  obtain ⟨before, after, items, items', -, -, rfl, rfl⟩ := h
  simp [Json.keys, Json.fields]

end

/-! ### The entries in another order -/

/-- The bundle with the entries of its manifest in another order. -/
structure EntriesReordered (b b' : Bundle) : Prop where
  manifestPath : b'.manifestPath = b.manifestPath
  manifestName : b'.manifestName = b.manifestName
  locate : b'.locate = b.locate
  manifest : ∃ text text' m m', b.manifest = some text ∧ b'.manifest = some text' ∧
    text.length = text'.length ∧ Json.parse none text = .ok m ∧ Json.parse none text' = .ok m' ∧
    MemberReordered "artifacts" m m'

theorem EntriesReordered.symm {b b' : Bundle} (h : EntriesReordered b b') : EntriesReordered b' b := by
  obtain ⟨text, text', m, m', hb, hb', hlength, hm, hm', hreordered⟩ := h.manifest
  exact ⟨h.manifestPath.symm, h.manifestName.symm, h.locate.symm, text', text, m', m, hb', hb,
    hlength.symm, hm', hm, hreordered.symm⟩

section
variable {limits : Limits} {b b' : Bundle} {artifacts artifacts' : List Artifact} {c : Contents}

theorem Holds.congr (h : Holds limits artifacts c)
    (hfind : ∀ kind : Bytes, artifacts.find? (·.kind = kind) = artifacts'.find? (·.kind = kind)) :
    Holds limits artifacts' c := by
  have hoptional : ∀ {α : Type} {kind : Bytes} {found found' : α → Prop} {a : Option α},
      (∀ a, found a → found' a) → OptionallyFound artifacts kind found a →
        OptionallyFound artifacts' kind found' a := by
    intro α kind found found' a himp ha
    cases a with
    | none => exact (hfind kind).symm.trans ha
    | some a => exact himp a ha
  have htable : ∀ {kind required} (t : Table), t.FoundIn limits artifacts kind required →
      t.FoundIn limits artifacts' kind required :=
    fun _ ht => ⟨(hfind _).symm.trans ht.1, ht.2⟩
  have hlisting : ∀ {kind} (l : Listing), l.FoundIn limits artifacts kind →
      l.FoundIn limits artifacts' kind :=
    fun _ hl => ⟨(hfind _).symm.trans hl.1, hl.2⟩
  exact ⟨hlisting _ h.assets, htable _ h.relationships, htable _ h.tags,
    hoptional (fun t ht => htable t ht) h.io, htable _ h.alarms,
    hoptional (fun l hl => hlisting l hl) h.communications,
    hoptional (fun l hl => hlisting l hl) h.documents⟩

theorem EntryReads.congr {entry : Json} {a : Artifact} (h : EntryReads limits b entry a)
    (hlocate : b'.locate = b.locate) : EntryReads limits b' entry a :=
  ⟨h.object, h.keys, h.id, h.kind, h.format, h.relative, h.identity, h.expected,
    hlocate ▸ h.located, h.bounded⟩

theorem MemberReordered.readMachine_eq {path : Bytes} {m m' : Json}
    (h : MemberReordered "artifacts" m m') : readMachine limits path m = readMachine limits path m' := by
  have hmachine : m.atKey "machine" = m'.atKey "machine" := by
    obtain ⟨before, after, items, items', -, -, rfl, rfl⟩ := h
    simp only [Json.atKey, Assoc.find?_append, Assoc.find?_cons,
      if_neg (show bytes "artifacts" ≠ "machine" by decide)]
  rw [readMachine, readMachine, hmachine]

theorem ManifestReads.reorder {m m' : Json} {machine : Machine} {entries : List Json}
    (h : ManifestReads limits b m machine entries) (hpath : b'.manifestPath = b.manifestPath)
    (hreordered : MemberReordered "artifacts" m m') : ∃ entries', entries.Perm entries' ∧
      ManifestReads limits b' m' machine entries' := by
  obtain ⟨items, items', hperm, hitems, hitems'⟩ := hreordered.find?_self
  obtain rfl : items = entries := by
    rw [h.found] at hitems
    cases hitems
    rfl
  refine ⟨items', hperm, hreordered.isObject.2, ?_, ?_, ?_, hitems', ?_, hperm.length_eq ▸ h.bounded⟩
  · intro field hfield
    have hkey : field.1 ∈ m'.keys := List.mem_map_of_mem hfield
    rw [← hreordered.keys] at hkey
    obtain ⟨field', hfield', heq⟩ := List.mem_map.mp hkey
    exact heq ▸ h.keys field' hfield'
  · have hschema := h.schema
    obtain ⟨before, after, _, _, -, -, rfl, rfl⟩ := hreordered
    simpa only [Json.valueString, Json.find?_obj, Assoc.find?_append, Assoc.find?_cons,
      if_neg (show bytes "artifacts" ≠ "schema_version" by decide)] using hschema
  · rw [hpath, ← hreordered.readMachine_eq]
    exact h.machine
  · intro hnil
    rw [hnil] at hperm
    exact h.nonempty hperm.eq_nil

theorem importManifest_entries {r : Imported} (h : EntriesReordered b b')
    (hr : importManifest limits b = .ok r) : importManifest limits b' = .ok r := by
  obtain ⟨machine, artifacts, c, hread, hholds, himportable, rfl⟩ := importManifest_eq_ok.mp hr
  obtain ⟨text, m, entries, hfile, hbounded, hparse, hwithin, hmanifest, hartifacts⟩ :=
    readManifest_eq_ok.mp hread
  obtain ⟨_, text', _, m', hb, hb', hlength, hm, hm', hreordered⟩ := h.manifest
  rw [hfile] at hb
  cases hb
  rw [hparse] at hm
  cases hm
  obtain ⟨entries', hperm, hmanifest'⟩ := hmanifest.reorder h.manifestPath hreordered
  obtain ⟨hall, hids, hkinds⟩ := readArtifacts_eq_ok.mp hartifacts
  obtain ⟨artifacts', hall', hperm'⟩ := List.perm_comp_forall₂ hperm.symm hall
  have hread' : readManifest limits b' = .ok (machine, artifacts') := by
    refine readManifest_eq_ok.mpr ⟨text', m', entries', hb', hlength ▸ hbounded, hm',
      hreordered.within_iff.mp hwithin, hmanifest', readArtifacts_eq_ok.mpr ⟨?_, ?_, ?_⟩⟩
    · exact hall'.imp fun _ _ he => he.congr h.locate
    · exact (hperm'.map _).nodup_iff.mpr hids
    · exact (hperm'.map _).nodup_iff.mpr hkinds
  refine importManifest_eq_ok.mpr ⟨machine, artifacts', c, hread', hholds.congr fun kind => ?_,
    himportable, ?_⟩
  · exact Assoc.findKey_perm (·.kind) hperm'.symm hkinds kind
  · rw [imported, imported, metadataOf, metadataOf, reportOf, reportOf, h.manifestName]

end

/-! ### The records of an artifact in another order -/

/-- The rows under the header are in another order. -/
def RowsReordered (text text' : Bytes) : Prop :=
  ∃ header rows rows', Encodes (header :: rows) text ∧ Encodes (header :: rows') text' ∧
    List.Perm rows rows'

/-- The records of an array, or of the member `records` of an object, are in another order. -/
def ListingReordered (text text' : Bytes) : Prop :=
  ∃ v v', Json.parse none text = .ok v ∧ Json.parse none text' = .ok v' ∧
    (ItemsReordered v v' ∨ MemberReordered "records" v v')

/-- The records of an artifact of the kind are in another order. -/
def TextReordered (kind text text' : Bytes) : Prop :=
  text.length = text'.length ∧
    if expectedFormat kind = some (bytes "json") then ListingReordered text text'
    else RowsReordered text text'

theorem TextReordered.symm {kind text text' : Bytes} (h : TextReordered kind text text') :
    TextReordered kind text' text := by
  refine ⟨h.1.symm, ?_⟩
  have hkind := h.2
  by_cases hjson : expectedFormat kind = some (bytes "json")
  · rw [if_pos hjson] at hkind ⊢
    obtain ⟨v, v', hv, hv', hreordered⟩ := hkind
    exact ⟨v', v, hv', hv, hreordered.imp ItemsReordered.symm MemberReordered.symm⟩
  · rw [if_neg hjson] at hkind ⊢
    obtain ⟨header, rows, rows', hrows, hrows', hperm⟩ := hkind
    exact ⟨header, rows', rows, hrows', hrows, hperm.symm⟩

/-- What stands where a path leads, with its records in another order. -/
inductive LocatedReordered (kind : Bytes) : Located → Located → Prop
  | same (located : Located) : LocatedReordered kind located located
  | reordered {path filename text text' : Bytes} : TextReordered kind text text' →
      LocatedReordered kind (.file path filename (some text)) (.file path filename (some text'))

theorem LocatedReordered.symm {kind : Bytes} {l l' : Located} (h : LocatedReordered kind l l') :
    LocatedReordered kind l' l := by
  cases h with
  | same => exact .same _
  | reordered h => exact .reordered h.symm

/-- The bundle with the records of some of its artifacts in another order. -/
structure RecordsReordered (b b' : Bundle) : Prop where
  manifestPath : b'.manifestPath = b.manifestPath
  manifestName : b'.manifestName = b.manifestName
  manifest : b'.manifest = b.manifest
  files : ∀ text m entries, b.manifest = some text → Json.parse none text = .ok m →
    m.find? "artifacts" = some (.arr entries) → ∀ entry ∈ entries,
      LocatedReordered (stringAt entry "kind") (b.locate (stringAt entry "path"))
        (b'.locate (stringAt entry "path"))

theorem RecordsReordered.symm {b b' : Bundle} (h : RecordsReordered b b') : RecordsReordered b' b :=
  ⟨h.manifestPath.symm, h.manifestName.symm, h.manifest.symm,
    fun text m entries htext hm hentries entry hentry =>
      (h.files text m entries (h.manifest ▸ htext) hm hentries entry hentry).symm⟩

/-- The artifact as it is, or with its records in another order. -/
structure ArtifactReordered (a a' : Artifact) : Prop where
  same : a' = { a with contents := a'.contents }
  contents : a'.contents = a.contents ∨ TextReordered a.kind a.contents a'.contents

theorem ArtifactReordered.refl (a : Artifact) : ArtifactReordered a a := ⟨rfl, .inl rfl⟩

section
variable {limits : Limits} {b b' : Bundle}

theorem EntryReads.reorder {entry : Json} {a : Artifact} (h : EntryReads limits b entry a)
    (hlocated : LocatedReordered (stringAt entry "kind") (b.locate (stringAt entry "path"))
      (b'.locate (stringAt entry "path"))) :
    ∃ a', EntryReads limits b' entry a' ∧ ArtifactReordered a a' := by
  generalize hl : b.locate (stringAt entry "path") = l at hlocated
  generalize hl' : b'.locate (stringAt entry "path") = l' at hlocated
  rw [h.located] at hl
  cases hlocated with
  | same =>
    refine ⟨a, ⟨h.object, h.keys, h.id, h.kind, h.format, h.relative, h.identity, h.expected, ?_,
      h.bounded⟩, .refl a⟩
    rw [hl', hl]
  | @reordered path filename text text' htext =>
    cases hl
    refine ⟨{ a with contents := text' }, ⟨h.object, h.keys, h.id, h.kind, h.format, h.relative,
      h.identity, h.expected, hl', htext.1 ▸ h.bounded⟩, rfl, .inr ?_⟩
    rw [h.kind.1]
    exact htext

theorem exists_artifacts {entries : List Json} {artifacts : List Artifact}
    (h : List.Forall₂ (EntryReads limits b) entries artifacts)
    (hlocated : ∀ entry ∈ entries, LocatedReordered (stringAt entry "kind")
      (b.locate (stringAt entry "path")) (b'.locate (stringAt entry "path"))) :
    ∃ artifacts', List.Forall₂ (EntryReads limits b') entries artifacts' ∧
      List.Forall₂ ArtifactReordered artifacts artifacts' := by
  induction h with
  | nil => exact ⟨[], .nil, .nil⟩
  | cons hread _ ih =>
    obtain ⟨hhead, htail⟩ := List.forall_mem_cons.mp hlocated
    obtain ⟨a', hread', ha⟩ := hread.reorder hhead
    obtain ⟨artifacts', hall, hartifacts⟩ := ih htail
    exact ⟨a' :: artifacts', .cons hread' hall, .cons ha hartifacts⟩

/-! #### Tables -/

/-- A table with its rows in another order. -/
structure TableReordered (t t' : Table) : Prop where
  headers : t'.headers = t.headers
  rows : t.rows.Perm t'.rows

structure ArrayReordered (l l' : Listing) : Prop where
  records : l.records.Perm l'.records

theorem IsWithin.perm {header : List Bytes} {rows rows' : Rows}
    (h : IsWithin limits (header :: rows)) (hperm : rows.Perm rows') :
    IsWithin limits (header :: rows') := by
  have hcons := hperm.cons header
  exact ⟨hcons.length_eq ▸ h.count, fun r hr => h.columns r (hcons.mem_iff.mpr hr),
    fun r hr => h.fields r (hcons.mem_iff.mpr hr)⟩

theorem checkRowWidth_eq_ok {header : List Bytes} {rows : Rows} {path : Bytes} {u : Unit} :
    checkRowWidth limits header rows path = .ok u ↔
      (∀ row ∈ rows, row.length = header.length) ∧ rows.length ≤ limits.maxRecordsPerArtifact := by
  unfold checkRowWidth
  rw [throwIf_bind_eq_ok, throwIf_eq_ok]
  simp only [not_exists, not_and, not_not, not_lt]

theorem readTable_eq_ok {a : Artifact} {required : List Bytes} {header : List Bytes} {rows : Rows}
    (h : parseCsv limits a.path a.contents = .ok (header :: rows)) {out : Headers × Rows} :
    readTable limits a required = .ok out ↔ headersFrom limits a.path 0 [] header = .ok out.1 ∧
      requireColumns out.1 required a.path = .ok () ∧
      checkRowWidth limits header rows a.path = .ok () ∧ out.2 = rows := by
  obtain ⟨headers, out⟩ := out
  unfold readTable
  rw [h, ok_bind]
  simp only [bind_eq_ok, pure_eq_ok, List.head!_cons, List.tail_cons]
  constructor
  · rintro ⟨headers, hheaders, _, hrequired, _, hwidth, h⟩
    cases h
    exact ⟨hheaders, hrequired, hwidth, rfl⟩
  · rintro ⟨hheaders, hrequired, hwidth, rfl⟩
    exact ⟨headers, hheaders, (), hrequired, (), hwidth, rfl⟩

theorem readTable_reorder {a a' : Artifact} {required : List Bytes} {headers : Headers} {rows : Rows}
    (ha : ArtifactReordered a a') (hkind : expectedFormat a.kind ≠ some (bytes "json"))
    (h : readTable limits a required = .ok (headers, rows)) :
    ∃ rows', readTable limits a' required = .ok (headers, rows') ∧ rows.Perm rows' := by
  obtain ⟨hsame, hcontents⟩ := ha
  rcases hcontents with hcontents | hcontents
  · refine ⟨rows, ?_, .refl rows⟩
    rw [hsame, hcontents]
    exact h
  · have hrows := hcontents.2
    rw [if_neg hkind] at hrows
    obtain ⟨header, body, body', hencodes, hencodes', hperm⟩ := hrows
    have hparse : ∃ table, parseCsv limits a.path a.contents = .ok table := by
      unfold readTable at h
      obtain ⟨table, htable, -⟩ := bind_eq_ok.mp h
      exact ⟨table, htable⟩
    obtain ⟨table, hparse⟩ := hparse
    obtain ⟨rfl, hwithin⟩ := (parseCsv_encodes_iff (List.cons_ne_nil _ _) hencodes.rows_ne_nil
      hencodes).mp hparse
    have hparse' : parseCsv limits a'.path a'.contents = .ok (header :: body') :=
      (parseCsv_encodes_iff (List.cons_ne_nil _ _) hencodes'.rows_ne_nil hencodes').mpr
        ⟨rfl, hwithin.perm hperm⟩
    obtain ⟨hheaders, hrequired, hwidth, rfl⟩ := (readTable_eq_ok hparse).mp h
    have hpath : a'.path = a.path := by rw [hsame]
    refine ⟨body', (readTable_eq_ok hparse').mpr ⟨hpath ▸ hheaders, hpath ▸ hrequired, ?_, rfl⟩, hperm⟩
    obtain ⟨hall, hcount⟩ := checkRowWidth_eq_ok.mp hwidth
    exact checkRowWidth_eq_ok.mpr ⟨fun row hrow => hall row (hperm.mem_iff.mpr hrow),
      hperm.length_eq ▸ hcount⟩

/-! #### Listings -/

theorem recordsArray_arr {items : List Json} {path : Bytes} {out : List Json} :
    recordsArray limits (.arr items) path = .ok out ↔
      out = items ∧ items.length ≤ limits.maxRecordsPerArtifact := by
  unfold recordsArray
  simp only [throwIf_bind_eq_ok, pure_eq_ok, not_lt]
  exact ⟨fun h => ⟨h.2.symm, h.1⟩, fun h => ⟨h.2, h.1.symm⟩⟩

theorem recordsArray_obj {v : Json} {items : List Json} {path : Bytes} {out : List Json}
    (h : v.find? "records" = some (.arr items)) : recordsArray limits v path = .ok out ↔
      out = items ∧ items.length ≤ limits.maxRecordsPerArtifact := by
  cases v with
  | obj fields =>
    unfold recordsArray
    simp only [h, throwIf_bind_eq_ok, pure_eq_ok, not_lt]
    exact ⟨fun h => ⟨h.2.symm, h.1⟩, fun h => ⟨h.2, h.1.symm⟩⟩
  | _ => cases h

theorem readListing_reorder {a a' : Artifact} {records : List Json}
    (ha : ArtifactReordered a a') (hkind : expectedFormat a.kind = some (bytes "json"))
    (h : (parseJson limits a.contents a.path >>= fun value =>
      recordsArray limits value a.path) = .ok records) :
    ∃ records', (parseJson limits a'.contents a'.path >>= fun value =>
      recordsArray limits value a'.path) = .ok records' ∧ records.Perm records' := by
  obtain ⟨hsame, hcontents⟩ := ha
  rcases hcontents with hcontents | hcontents
  · refine ⟨records, ?_, .refl records⟩
    rw [hsame, hcontents]
    exact h
  · have hlisting := hcontents.2
    rw [if_pos hkind] at hlisting
    obtain ⟨v, v', hv, hv', hreordered⟩ := hlisting
    obtain ⟨value, hparse, hrecords⟩ := bind_eq_ok.mp h
    obtain ⟨hvalue, hwithin⟩ := parseJson_eq_ok.mp hparse
    rw [hv] at hvalue
    cases hvalue
    rcases hreordered with hitems | hmember
    · have hparse' : parseJson limits a'.contents a'.path = .ok v' :=
        parseJson_eq_ok.mpr ⟨hv', hitems.within_iff.mp hwithin⟩
      obtain ⟨items, items', hperm, rfl, rfl⟩ := hitems
      obtain ⟨rfl, hcount⟩ := recordsArray_arr.mp hrecords
      rw [hparse', ok_bind]
      exact ⟨items', recordsArray_arr.mpr ⟨rfl, hperm.length_eq ▸ hcount⟩, hperm⟩
    · have hparse' : parseJson limits a'.contents a'.path = .ok v' :=
        parseJson_eq_ok.mpr ⟨hv', hmember.within_iff.mp hwithin⟩
      obtain ⟨items, items', hperm, hfind, hfind'⟩ := hmember.find?_self
      obtain ⟨rfl, hcount⟩ := (recordsArray_obj hfind).mp hrecords
      rw [hparse', ok_bind]
      exact ⟨items', (recordsArray_obj hfind').mpr ⟨rfl, hperm.length_eq ▸ hcount⟩, hperm⟩

/-! #### The contents -/

/-- The contents with their records in another order. -/
structure ContentsReordered (c c' : Contents) : Prop where
  assets : ArrayReordered c.assets c'.assets
  relationships : TableReordered c.relationships c'.relationships
  tags : TableReordered c.tags c'.tags
  io : Option.Rel TableReordered c.io c'.io
  alarms : TableReordered c.alarms c'.alarms
  communications : Option.Rel ArrayReordered c.communications c'.communications
  documents : Option.Rel ArrayReordered c.documents c'.documents

theorem find?_reorder {artifacts artifacts' : List Artifact}
    (h : List.Forall₂ ArtifactReordered artifacts artifacts') (kind : Bytes) :
    Option.Rel ArtifactReordered (artifacts.find? (·.kind = kind)) (artifacts'.find? (·.kind = kind)) := by
  induction h with
  | nil => exact .none
  | @cons a a' _ _ ha _ ih =>
    have hkind : a'.kind = a.kind := by rw [ha.same]
    by_cases heq : a.kind = kind
    · rw [List.find?_cons_of_pos (by simpa using heq), List.find?_cons_of_pos (by simpa [hkind] using heq)]
      exact .some ha
    · rw [List.find?_cons_of_neg (by simpa using heq), List.find?_cons_of_neg (by simpa [hkind] using heq)]
      exact ih

section
variable {artifacts artifacts' : List Artifact}
  (h : List.Forall₂ ArtifactReordered artifacts artifacts')
include h

theorem Table.FoundIn.reorder {kind : Bytes} {required : List Bytes} {t : Table}
    (hkind : expectedFormat kind ≠ some (bytes "json"))
    (ht : t.FoundIn limits artifacts kind required) :
    ∃ t', t'.FoundIn limits artifacts' kind required ∧ TableReordered t t' := by
  have hfind := find?_reorder h kind
  rw [ht.1] at hfind
  generalize hfind' : artifacts'.find? (·.kind = kind) = found at hfind
  cases hfind with
  | @some _ a' ha =>
    have hsame : t.artifact.kind = kind := by simpa using List.find?_some ht.1
    obtain ⟨rows', hread, hperm⟩ := readTable_reorder ha (hsame ▸ hkind) ht.2
    exact ⟨⟨a', t.headers, rows'⟩, ⟨hfind', hread⟩, rfl, hperm⟩

theorem Listing.FoundIn.reorder {kind : Bytes} {l : Listing}
    (hkind : expectedFormat kind = some (bytes "json")) (hl : l.FoundIn limits artifacts kind) :
    ∃ l', l'.FoundIn limits artifacts' kind ∧ ArrayReordered l l' := by
  have hfind := find?_reorder h kind
  rw [hl.1] at hfind
  generalize hfind' : artifacts'.find? (·.kind = kind) = found at hfind
  cases hfind with
  | @some _ a' ha =>
    have hsame : l.artifact.kind = kind := by simpa using List.find?_some hl.1
    obtain ⟨records', hread, hperm⟩ := readListing_reorder ha (hsame ▸ hkind) hl.2
    exact ⟨⟨a', records'⟩, ⟨hfind', hread⟩, ⟨hperm⟩⟩

theorem OptionallyFound.reorder {α : Type} {kind : Bytes} {found found' : α → Prop}
    {R : α → α → Prop} {o : Option α} (himp : ∀ a, found a → ∃ a', found' a' ∧ R a a')
    (ho : OptionallyFound artifacts kind found o) :
    ∃ o', OptionallyFound artifacts' kind found' o' ∧ Option.Rel R o o' := by
  cases o with
  | some a =>
    obtain ⟨a', hfound, hR⟩ := himp a ho
    exact ⟨some a', hfound, .some hR⟩
  | none =>
    have hfind := find?_reorder h kind
    rw [show artifacts.find? (·.kind = kind) = none from ho] at hfind
    generalize hfind' : artifacts'.find? (·.kind = kind) = result at hfind
    cases hfind
    exact ⟨none, hfind', .none⟩

theorem Holds.reorder {c : Contents} (hc : Holds limits artifacts c) :
    ∃ c', Holds limits artifacts' c' ∧ ContentsReordered c c' := by
  obtain ⟨assets, hassets, h1⟩ := hc.assets.reorder h (by decide)
  obtain ⟨relationships, hrelationships, h2⟩ := hc.relationships.reorder h (by decide)
  obtain ⟨tags, htags, h3⟩ := hc.tags.reorder h (by decide)
  obtain ⟨io, hio, h4⟩ := hc.io.reorder h fun t ht => ht.reorder h (by decide)
  obtain ⟨alarms, halarms, h5⟩ := hc.alarms.reorder h (by decide)
  obtain ⟨communications, hcommunications, h6⟩ := hc.communications.reorder h fun l hl =>
    hl.reorder h (by decide)
  obtain ⟨documents, hdocuments, h7⟩ := hc.documents.reorder h fun l hl => hl.reorder h (by decide)
  exact ⟨⟨assets, relationships, tags, io, alarms, communications, documents⟩,
    ⟨hassets, hrelationships, htags, hio, halarms, hcommunications, hdocuments⟩,
    h1, h2, h3, h4, h5, h6, h7⟩

end

/-! #### What is made of the contents -/

theorem refers_congr {headers : Headers} {assets assets' : List Bytes} {tags tags' : List Json}
    (hassets : ∀ id, id ∈ assets ↔ id ∈ assets') (htags : ∀ id : Bytes,
      tags.find? (fun tag => stringAt tag "id" = id) = tags'.find? fun tag => stringAt tag "id" = id)
    (row : List Bytes) : Refers headers assets tags row ↔ Refers headers assets' tags' row := by
  unfold Refers tagOf
  rw [hassets, htags]

theorem InOrder.perm {ρ : Type} {readable readable' : ρ → Prop} {id : ρ → Bytes} {rows rows' : List ρ}
    (h : InOrder readable id rows) (hperm : rows.Perm rows') (himp : ∀ r, readable r → readable' r) :
    InOrder readable' id rows' :=
  ⟨fun r hr => himp r (h.readable r (hperm.mem_iff.mpr hr)), (hperm.map id).nodup_iff.mp h.nodup⟩

theorem ReadableAlarm.congr {headers : Headers} {assets assets' : List Bytes} {tags tags' : List Json}
    {row : List Bytes} (h : ReadableAlarm limits headers assets tags row)
    (hrefers : Refers headers assets' tags' row → Refers headers assets tags row) :
    ReadableAlarm limits headers assets' tags' row :=
  ⟨h.cells, h.identity, fun h' => h.definition (hrefers h'), fun h' => h.threshold (hrefers h'),
    fun h' => h.name (hrefers h')⟩

section
variable {c c' : Contents} (h : ContentsReordered c c')
include h

theorem ContentsReordered.mem_assetIds (id : Bytes) : id ∈ c.assetIds ↔ id ∈ c'.assetIds := by
  rw [Contents.assetIds, Contents.assetIds, List.mem_reverse, List.mem_reverse,
    (h.assets.records.map _).mem_iff]

theorem ContentsReordered.relationshipFate : c'.relationshipFate = c.relationshipFate := by
  funext row
  unfold Contents.relationshipFate Import.relationshipFate Connects
  simp only [h.relationships.headers, h.mem_assetIds]

theorem ContentsReordered.tagFate : c'.tagFate = c.tagFate := by
  funext row
  unfold Contents.tagFate Import.tagFate
  simp only [h.tags.headers, h.mem_assetIds]

theorem ContentsReordered.tagRecords : c.tagRecords.Perm c'.tagRecords := by
  rw [Contents.tagRecords, Contents.tagRecords, h.tagFate]
  exact h.tags.rows.filterMap _

variable (himportable : Importable limits c)
include himportable

theorem ContentsReordered.refers (headers : Headers) (row : List Bytes) :
    Refers headers c'.assetIds c'.tagRecords row ↔ Refers headers c.assetIds c.tagRecords row :=
  (refers_congr h.mem_assetIds
    (fun id => Assoc.findKey_perm (stringAt · "id") h.tagRecords himportable.nodup_tags id) row).symm

theorem ContentsReordered.alarmFate : c'.alarmFate = c.alarmFate := by
  funext row
  unfold Contents.alarmFate Import.alarmFate
  simp only [h.alarms.headers, h.refers himportable]

theorem Importable.reorder : Importable limits c' := by
  have hlisting : ∀ {fields : List Bytes} {l l' : Option Listing}, Option.Rel ArrayReordered l l' →
      (∀ a, l = some a → InOrder (ReadableMetadata limits fields) (stringAt · "id") a.records) →
      ∀ a', l' = some a' → InOrder (ReadableMetadata limits fields) (stringAt · "id") a'.records := by
    intro fields l l' hrel hall a' ha'
    cases hrel with
    | none => cases ha'
    | some hR =>
      cases ha'
      exact (hall _ rfl).perm hR.records fun _ hr => hr
  have hlength : ∀ {l l' : Option Listing}, Option.Rel ArrayReordered l l' →
      (l'.map (·.records.length)).getD 0 = (l.map (·.records.length)).getD 0 := by
    intro l l' hrel
    cases hrel with
    | none => rfl
    | some hR => exact hR.records.length_eq.symm
  have hio : (c'.io.map (·.rows.length)).getD 0 = (c.io.map (·.rows.length)).getD 0 := by
    have hrel := h.io
    generalize c.io = io at hrel
    generalize c'.io = io' at hrel
    cases hrel with
    | none => rfl
    | some hR => exact hR.rows.length_eq.symm
  refine ⟨himportable.assets.perm h.assets.records fun _ hr => hr, ?_, ?_, ?_, ?_,
    hlisting h.communications himportable.communications,
    hlisting h.documents himportable.documents, ?_⟩
  · rw [h.relationships.headers]
    exact himportable.relationships.perm h.relationships.rows fun _ hr => hr
  · rw [h.tags.headers]
    exact himportable.tags.perm h.tags.rows fun _ hr => hr
  · intro t' ht' row hrow
    have hread := himportable.io
    have hrel := h.io
    rw [ht'] at hrel
    generalize c.io = io at hrel hread
    cases hrel with
    | some hR =>
      rw [hR.headers]
      exact hread _ rfl row (hR.rows.mem_iff.mpr hrow)
  · rw [h.alarms.headers]
    exact himportable.alarms.perm h.alarms.rows fun row hr =>
      hr.congr (h.refers himportable c.alarms.headers row).mp
  · have htotal := himportable.total
    unfold Contents.total at htotal ⊢
    rw [hlength h.communications, hlength h.documents, hio, ← h.assets.records.length_eq,
      ← h.relationships.rows.length_eq, ← h.tags.rows.length_eq, ← h.alarms.rows.length_eq]
    exact htotal

/-- The arrays of the model are sorted by distinct ids. -/
theorem ContentsReordered.modelOf_eq (machine : Machine) :
    modelOf machine c'.state = modelOf machine c.state := by
  have hsorted : ∀ {fate : List Bytes → Fate} {id : List Bytes → Bytes} {rows rows' : Rows},
      (∀ r record, fate r = .emitted record → stringAt record "id" = id r) →
      (rows.map id).Nodup → rows.Perm rows' →
        sortById (emittedBy fate rows') = sortById (emittedBy fate rows) := by
    intro fate id rows rows' hrecord hnodup hperm
    refine (Bytes.sortBy_eq_of_perm (hperm.filterMap _) ?_).symm
    rw [show (rows.filterMap fun r => (fate r).record?) = emittedBy fate rows from rfl,
      map_id_emittedBy hrecord]
    exact hnodup.sublist (List.filter_sublist.map _)
  have hassets : sortById (c'.assets.records.map assetRecord) =
      sortById (c.assets.records.map assetRecord) := by
    refine (Bytes.sortBy_eq_of_perm (h.assets.records.map _) ?_).symm
    rw [List.map_map, show (stringAt · "id") ∘ assetRecord = (stringAt · "id") from
      funext stringAt_assetRecord]
    exact himportable.assets.nodup
  have hrelationships : sortById (emittedBy c'.relationshipFate c'.relationships.rows) =
      sortById (emittedBy c.relationshipFate c.relationships.rows) := by
    rw [h.relationshipFate]
    exact hsorted (decides_relationships _ _).record_id himportable.relationships.nodup
      h.relationships.rows
  have htags : sortById c'.tagRecords = sortById c.tagRecords :=
    (Bytes.sortBy_eq_of_perm h.tagRecords himportable.nodup_tags).symm
  have halarms : sortById (emittedBy c'.alarmFate c'.alarms.rows) =
      sortById (emittedBy c.alarmFate c.alarms.rows) := by
    rw [h.alarmFate himportable]
    exact hsorted (decides_alarms _ _ _).record_id himportable.alarms.nodup h.alarms.rows
  unfold modelOf Contents.state
  simp only [hassets, hrelationships, htags, halarms]

end

end

/-! ### Both permutations -/

section
variable {limits : Limits} {b b' : Bundle}

theorem eraseField_model (bundle : Bundle) (machine : Machine) (c : Contents) :
    (imported bundle machine c).model.eraseField "metadata" = modelOf machine c.state := by
  have hobject := Json.isObject_object [(bytes "model_id", Json.str machine.id),
    (bytes "revision", .uint machine.revision), (bytes "name", .str machine.name),
    (bytes "assets", .arr (sortById c.state.assets)),
    (bytes "relationships", .arr (sortById c.state.relationships)),
    (bytes "tags", .arr (sortById c.state.tags)), (bytes "alarms", .arr (sortById c.state.alarms))]
  apply Json.eraseField_setField
  · rw [modelOf]
    by_cases h : machine.description.isEmpty = true
    · rw [if_pos h, Json.find?_object]
      rfl
    · rw [if_neg h, Json.find?_setField_ne _ (by decide), Json.find?_object]
      rfl
  · rw [modelOf]
    by_cases h : machine.description.isEmpty = true
    · rw [if_pos h]
      exact hobject
    · rw [if_neg h]
      exact Json.isObject_setField hobject _ _

theorem importManifest_records {r : Imported} (h : RecordsReordered b b')
    (hr : importManifest limits b = .ok r) : ∃ r', importManifest limits b' = .ok r' ∧
      r'.model.eraseField "metadata" = r.model.eraseField "metadata" := by
  obtain ⟨machine, artifacts, c, hread, hholds, himportable, rfl⟩ := importManifest_eq_ok.mp hr
  obtain ⟨text, m, entries, hfile, hbounded, hparse, hwithin, hmanifest, hartifacts⟩ :=
    readManifest_eq_ok.mp hread
  obtain ⟨hall, hids, hkinds⟩ := readArtifacts_eq_ok.mp hartifacts
  obtain ⟨artifacts', hall', hreordered⟩ := exists_artifacts hall
    (h.files text m entries hfile hparse hmanifest.found)
  obtain ⟨c', hholds', hcontents⟩ := hholds.reorder hreordered
  have hfields : ∀ f : Artifact → Bytes, (∀ a a', ArtifactReordered a a' → f a = f a') →
      artifacts.map f = artifacts'.map f := fun f hf => forall₂_map_eq hf hreordered
  have hread' : readManifest limits b' = .ok (machine, artifacts') := by
    refine readManifest_eq_ok.mpr ⟨text, m, entries, h.manifest.trans hfile, hbounded, hparse, hwithin,
      ⟨hmanifest.object, hmanifest.keys, hmanifest.schema, h.manifestPath ▸ hmanifest.machine,
        hmanifest.found, hmanifest.nonempty, hmanifest.bounded⟩,
      readArtifacts_eq_ok.mpr ⟨hall', ?_, ?_⟩⟩
    · rw [← hfields (·.id) fun a a' ha => by rw [ha.same]]
      exact hids
    · rw [← hfields (·.kind) fun a a' ha => by rw [ha.same]]
      exact hkinds
  refine ⟨imported b' machine c', importManifest_eq_ok.mpr ⟨machine, artifacts', c', hread', hholds',
    himportable.reorder hcontents, rfl⟩, ?_⟩
  rw [eraseField_model, eraseField_model, hcontents.modelOf_eq himportable]

end

/-- **Import does not depend on ordering.** With the entries of its manifest in another order a bundle
is imported where it was, with an equal result; with the records of its artifacts in another order it
is imported where it was, with a model that is equal in everything but its metadata. -/
theorem import_order (limits : Limits) (b b' : Bundle) :
    (EntriesReordered b b' → ∀ r, importManifest limits b = .ok r ↔ importManifest limits b' = .ok r) ∧
      (RecordsReordered b b' →
        ((∃ r, importManifest limits b = .ok r) ↔ ∃ r, importManifest limits b' = .ok r) ∧
        ∀ r r', importManifest limits b = .ok r → importManifest limits b' = .ok r' →
          r'.model.eraseField "metadata" = r.model.eraseField "metadata") := by
  refine ⟨fun h r => ⟨importManifest_entries h, importManifest_entries h.symm⟩, fun h => ⟨?_, ?_⟩⟩
  · constructor
    · rintro ⟨r, hr⟩
      obtain ⟨r', hr', -⟩ := importManifest_records h hr
      exact ⟨r', hr'⟩
    · rintro ⟨r, hr⟩
      obtain ⟨r', hr', -⟩ := importManifest_records h.symm hr
      exact ⟨r', hr'⟩
  · intro r r' hr hr'
    obtain ⟨r'', hr'', hmodel⟩ := importManifest_records h hr
    rw [hr'] at hr''
    cases hr''
    exact hmodel

/-! The files of `looseBundle` under its entries and under the same entries turned around. -/

def entryText (id kind format : Bytes) : Bytes :=
  "\x7b\"id\":\"" ++ id ++ bytes "\",\"kind\":\"" ++ kind ++ bytes "\",\"format\":\"" ++ format ++
    bytes "\",\"path\":\"" ++ id ++ bytes "\"\x7d"

def entryJson (id kind format : Bytes) : Json :=
  .object [("id", .str id), ("kind", .str kind), ("format", .str format), ("path", .str id)]

def looseManifest (first second third fourth : Bytes) : Bytes :=
  "\x7b\"schema_version\":\"engineering-bundle/1\"," ++
    bytes "\"machine\":\x7b\"id\":\"m\",\"name\":\"M\",\"revision\":1\x7d,\"artifacts\":[" ++
    first ++ bytes "," ++ second ++ bytes "," ++ third ++ bytes "," ++ fourth ++ bytes "]\x7d"

def straightBundle : Bundle :=
  { looseBundle with
    manifest := some (looseManifest (entryText "a" "asset_hierarchy" "json")
      (entryText "r" "relationships" "csv-rfc4180") (entryText "t" "controller_tags" "csv-rfc4180")
      (entryText "l" "alarm_definitions" "csv-rfc4180")) }

def turnedBundle : Bundle :=
  { looseBundle with
    manifest := some (looseManifest (entryText "l" "alarm_definitions" "csv-rfc4180")
      (entryText "t" "controller_tags" "csv-rfc4180") (entryText "r" "relationships" "csv-rfc4180")
      (entryText "a" "asset_hierarchy" "json")) }

set_option maxRecDepth 100000 in
theorem entriesReordered_turned : EntriesReordered straightBundle turnedBundle := by
  refine ⟨rfl, rfl, rfl, _, _, _, _, rfl, rfl, by decide +kernel, rfl, rfl, [], _,
    [entryJson "a" "asset_hierarchy" "json", entryJson "r" "relationships" "csv-rfc4180",
      entryJson "t" "controller_tags" "csv-rfc4180", entryJson "l" "alarm_definitions" "csv-rfc4180"],
    [entryJson "l" "alarm_definitions" "csv-rfc4180", entryJson "t" "controller_tags" "csv-rfc4180",
      entryJson "r" "relationships" "csv-rfc4180", entryJson "a" "asset_hierarchy" "json"],
    List.not_mem_nil, ?_, rfl, rfl⟩
  exact (List.reverse_perm _).symm

def assetText (id : Bytes) : Bytes :=
  "\x7b\"id\":\"" ++ id ++ bytes "\",\"name\":\"A\",\"kind\":\"k\"\x7d"

def assetJson (id : Bytes) : Json := .object [("id", .str id), ("name", .str "A"), ("kind", .str "k")]

/-- A listing of two assets. -/
def assetsText (first second : Bytes) : Bytes :=
  "[" ++ assetText first ++ bytes "," ++ assetText second ++ bytes "]"

def tagText (id : Bytes) : Bytes := id ++ bytes ",a,Level,value,number,,s,u,i\n"

def tagCells (id : Bytes) : List Bytes := [id, "a", "Level", "value", "number", "", "s", "u", "i"]

def tagHeader : List Bytes :=
  ["id", "asset_id", "name", "role", "data_type", "unit", "server", "namespace_uri", "identifier"]

/-- A table of two tags. -/
def tagsText (first second : Bytes) : Bytes :=
  "id,asset_id,name,role,data_type,unit,server,namespace_uri,identifier\n" ++
    tagText first ++ tagText second

/-- `straightBundle` with two assets and two tags. -/
def plantBundle (assets tags : Bytes) : Bundle :=
  { straightBundle with
    locate := fun relative =>
      if relative = "a" then .file "a" "a" (some assets)
      else if relative = "t" then .file "t" "t" (some tags)
      else looseBundle.locate relative }

theorem listingReordered_assets :
    ListingReordered (assetsText "a" "b") (assetsText "b" "a") :=
  ⟨.arr [assetJson "a", assetJson "b"], .arr [assetJson "b", assetJson "a"], rfl, rfl,
    .inl ⟨_, _, .swap _ _ _, rfl, rfl⟩⟩

theorem rowsReordered_tags : RowsReordered (tagsText "flow" "level") (tagsText "level" "flow") := by
  have hencoded : Encodes [tagHeader, tagCells "flow", tagCells "level"] (tagsText "flow" "level") :=
    (@encoded_of_parseCsv {} "t" _ _ (by decide +kernel)).2.2
  have hencoded' : Encodes [tagHeader, tagCells "level", tagCells "flow"] (tagsText "level" "flow") :=
    (@encoded_of_parseCsv {} "t" _ _ (by decide +kernel)).2.2
  exact ⟨_, _, _, hencoded, hencoded', .swap _ _ _⟩

set_option maxRecDepth 100000 in
theorem recordsReordered_plant : RecordsReordered
    (plantBundle (assetsText "a" "b") (tagsText "flow" "level"))
    (plantBundle (assetsText "b" "a") (tagsText "level" "flow")) := by
  refine ⟨rfl, rfl, rfl, fun text m entries htext hm hentries entry hentry => ?_⟩
  have hmanifest : ∃ m entries, Json.parse none text = .ok m ∧
      m.find? "artifacts" = some (.arr entries) ∧
      entries = [entryJson "a" "asset_hierarchy" "json", entryJson "r" "relationships" "csv-rfc4180",
        entryJson "t" "controller_tags" "csv-rfc4180",
        entryJson "l" "alarm_definitions" "csv-rfc4180"] := by
    obtain rfl := Option.some.inj htext
    exact ⟨_, _, rfl, rfl, rfl⟩
  obtain ⟨m', entries', hm', hentries', hlist⟩ := hmanifest
  obtain rfl : m = m' := Except.ok.inj (hm.symm.trans hm')
  obtain rfl : entries = entries' := Json.arr.inj (Option.some.inj (hentries.symm.trans hentries'))
  subst hlist
  simp only [List.mem_cons, List.not_mem_nil, or_false] at hentry
  rcases hentry with rfl | rfl | rfl | rfl
  · exact .reordered ⟨by decide, listingReordered_assets⟩
  · exact .same _
  · exact .reordered ⟨by decide, rowsReordered_tags⟩
  · exact .same _

/-- Turning the entries around keeps the whole result; shuffling assets and tags keeps the model. -/
theorem import_order_sample :
    (∃ r, importManifest {} straightBundle = .ok r ∧ importManifest {} turnedBundle = .ok r) ∧
      ∃ r r', importManifest {} (plantBundle (assetsText "a" "b") (tagsText "flow" "level")) = .ok r ∧
        importManifest {} (plantBundle (assetsText "b" "a") (tagsText "level" "flow")) = .ok r' ∧
        r'.model.eraseField "metadata" = r.model.eraseField "metadata" := by
  constructor
  · obtain ⟨r, hr, -⟩ := exists_ok_of_any (x := importManifest {} straightBundle) (fun _ => true)
      (by decide +kernel)
    exact ⟨r, hr, ((import_order {} _ _).1 entriesReordered_turned r).mp hr⟩
  · obtain ⟨r, hr, -⟩ := exists_ok_of_any (x := importManifest {} (plantBundle (assetsText "a" "b")
      (tagsText "flow" "level"))) (fun _ => true) (by decide +kernel)
    obtain ⟨haccepted, hsame⟩ := (import_order {} _ _).2 recordsReordered_plant
    obtain ⟨r', hr'⟩ := haccepted.mp ⟨r, hr⟩
    exact ⟨r, r', hr, hr', hsame r r' hr hr'⟩

end ContextHmi.Import
