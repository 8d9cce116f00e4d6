import ContextHmi.Storage.Recovery

/-!
# What an append accepts

`append` does not ask how deep a payload nests, nor whether its numbers have a text. The reader's
callback throws from the 33rd level on, and a number that is not finite is written as `null`.

* `recorded_of_scan`     : a scan that ends well has read records;
* `scan_written_error`   : a scan meets a payload that nests too deep;
* `append_readBack_iff`  : when the record of an append that returned is there at the next start;
* `append_unreadable`    : an append that returned, and a store that cannot be opened again.
-/

namespace ContextHmi.Storage

open Outcome

/-! ### What was read at opening -/

section Opened
variable {config : JournalConfig}

/-- A scan that ends well has read records up to a torn tail or the end of the file. -/
theorem recorded_of_scan {fuel : Nat} {state t : Scan} {input : Bytes} (hfuel : input.length < fuel)
    (hstate : state.torn = false) (h : scan config fuel state input = .ok t) :
    ∃ records stored tail, List.Forall₂ (Recorded config) records stored ∧
      Numbered state.expected records ∧ input = frames state.expected stored ++ tail ∧
      t.expected = after state.expected stored ∧
      t.lastComplete = state.lastComplete + (frames state.expected stored).length ∧
      (t.torn = false → tail = []) := by
  induction fuel generalizing state input with
  | zero => omega
  | succ fuel ih =>
    rw [scan, bind_eq_ok] at h
    obtain ⟨scanned, hread, h⟩ := h
    have hsame : state.expected = after state.expected [] := (after_nil _).symm
    cases scanned with
    | nothing =>
      obtain rfl := pure_eq_ok.mp h
      exact ⟨[], [], [], .nil, trivial, eq_nil_of_readFrame hread, hsame, rfl, fun _ => rfl⟩
    | torn =>
      obtain rfl := pure_eq_ok.mp h
      exact ⟨[], [], input, .nil, trivial, rfl, hsame, rfl, fun h => (by cases h)⟩
    | record r size rest =>
      have hlt := rest_lt hread
      obtain ⟨s, hfits, rfl, rfl, hbound, hsequence, hkind, hparse⟩ := frame_of_readFrame hread
      obtain ⟨records, stored, tail, hrecorded, hnumbered, hrest, hexpected, hlast, htail⟩ :=
        ih (by omega) (show (state.advance config r s.size).torn = false from hstate) h
      dsimp only [Scan.advance] at hnumbered hrest hexpected hlast
      refine ⟨r :: records, s :: stored, tail, .cons ⟨hfits, hbound, hkind.symm, hparse⟩ hrecorded,
        ⟨hsequence, hnumbered⟩, ?_, ?_, ?_, htail⟩
      · rw [hrest, frames, List.append_assoc]
      · rw [hexpected, after_cons]
      · rw [hlast, frames, List.length_append, s.length_frame, Nat.add_assoc]

/-- What holds of a journal and its file after opening. -/
structure Opened (config : JournalConfig) (journal : Journal) (file : Bytes)
    (records : List JournalRecord) (stored : List Stored) : Prop where
  valid : config.Valid
  same : journal.config = config
  recorded : List.Forall₂ (Recorded config) records stored
  numbered : Numbered 1 records
  contents : file = kFileMagic ++ frames 1 stored
  next : journal.nextSequence = after 1 stored
  size : file.length ≤ config.maximumFileBytes

theorem replay_opened (hvalid : config.Valid) {contents file : Bytes} {journal : Journal}
    (h : replay config contents = (.ok journal, .file file)) :
    ∃ records stored, Opened config journal file records stored := by
  cases hscan : scanFile config contents with
  | error e =>
    rw [replay, hscan] at h
    cases (Prod.mk.inj h).1
  | ok t =>
    rw [replay_of_scan hscan] at h
    simp only [scanFile, bind_eq_ok, throwIf_eq_ok, not_not, not_lt] at hscan
    obtain ⟨-, hsize, -, hmagic, hscan⟩ := hscan
    have hfuel : (contents.drop kFileMagic.length).length < contents.length + 1 := by
      rw [List.length_drop]
      omega
    obtain ⟨records, stored, tail, hrecorded, hnumbered, hinput, hexpected, hlast, htail⟩ :=
      recorded_of_scan hfuel rfl hscan
    dsimp only at hnumbered hinput hexpected hlast
    have hcontents : contents = kFileMagic ++ frames 1 stored ++ tail := by
      rw [List.append_assoc, ← hinput]
      nth_rewrite 1 [← hmagic]
      exact (List.take_append_drop _ _).symm
    have htake : contents.take t.lastComplete = kFileMagic ++ frames 1 stored := by
      rw [hlast, hcontents, ← List.length_append]
      exact List.take_left' rfl
    have hshort : (kFileMagic ++ frames 1 stored).length ≤ config.maximumFileBytes := by
      rw [hcontents, List.length_append] at hsize
      omega
    have hfile : ∃ removed, journal = ⟨config, t.expected, removed, t.recent⟩ ∧
        file = kFileMagic ++ frames 1 stored := by
      by_cases htorn : t.torn = true
      · rw [if_pos htorn, htake] at h
        obtain ⟨hjournal, hfile⟩ := Prod.mk.inj h
        exact ⟨_, (Except.ok.inj hjournal).symm, (Entry.file.inj hfile).symm⟩
      · rw [if_neg htorn] at h
        obtain ⟨hjournal, hfile⟩ := Prod.mk.inj h
        refine ⟨_, (Except.ok.inj hjournal).symm, ?_⟩
        rw [← Entry.file.inj hfile, hcontents, htail (Bool.not_eq_true _ ▸ htorn), List.append_nil]
    obtain ⟨removed, rfl, rfl⟩ := hfile
    exact ⟨records, stored, hvalid, rfl, hrecorded, hnumbered, rfl, hexpected, hshort⟩

theorem openJournal_opened {entry : Entry} {journal : Journal} {file : Bytes}
    (h : openJournal config entry = (.ok journal, .file file)) :
    ∃ records stored, Opened config journal file records stored := by
  unfold openJournal at h
  split_ifs at h with hvalid
  case neg => cases (Prod.mk.inj h).1
  unfold openAndRecover at h
  split at h
  · cases (Prod.mk.inj h).1
  · cases (Prod.mk.inj h).1
  · cases (Prod.mk.inj h).1
  · cases (Prod.mk.inj h).1
  · exact replay_opened hvalid h
  · exact replay_opened hvalid h

end Opened

/-! ### What was appended since -/

section Appended
variable [Platform] {config : JournalConfig}

/-- A journal that is open, and the payloads of the appends that returned since; those that threw
have left nothing in the file. -/
inductive Appended (config : JournalConfig) : Journal → Bytes → List Json → Prop where
  | opened {entry : Entry} {journal : Journal} {file : Bytes} :
      openJournal config entry = (.ok journal, .file file) → Appended config journal file []
  | refused {journal journal' : Journal} {file kind : Bytes} {payload : Json} {write : Write}
      {e : Error} {payloads : List Json} : Appended config journal file payloads →
      append journal file kind payload write = (.error e, journal', file) →
      Appended config journal' file payloads
  | appended {journal journal' : Journal} {file file' kind : Bytes} {payload : Json}
      {sequence : UInt64} {payloads : List Json} : Appended config journal file payloads →
      append journal file kind payload .succeeds = (.ok sequence, journal', file') →
      Appended config journal' file' (payloads ++ [payload])

/-- The records a journal has found, those it has appended, and their frames. -/
structure Appended.Holds (config : JournalConfig) (journal : Journal) (file : Bytes)
    (payloads : List Json) (found added : List JournalRecord) (old new : List Stored) : Prop where
  valid : config.Valid
  same : journal.config = config
  recorded : List.Forall₂ (Recorded config) found old
  writes : List.Forall₂ (Writes config) added new
  accepted : added.map (·.payload) = payloads
  numbered : Numbered 1 (found ++ added)
  contents : file = kFileMagic ++ frames 1 (old ++ new)
  next : journal.nextSequence = after 1 (old ++ new)
  size : file.length ≤ config.maximumFileBytes

theorem Appended.Holds.snoc {journal journal' : Journal} {file file' kind : Bytes} {payload : Json}
    {sequence : UInt64} {payloads : List Json} {found added : List JournalRecord}
    {old new : List Stored} (h : Appended.Holds config journal file payloads found added old new)
    (happend : append journal file kind payload .succeeds = (.ok sequence, journal', file')) :
    ∃ encoded, payload.dump = .ok encoded ∧
      Appended.Holds config journal' file' (payloads ++ [payload]) found
        (added ++ [⟨sequence, kind, payload⟩]) old (new ++ [⟨config.synchronize, kind, encoded⟩]) := by
  obtain ⟨encoded, hdump, hkind, hbound, hsize, rfl, rfl, rfl⟩ := append_eq_ok happend
  have hsame := h.same
  rw [hsame] at hbound hsize ⊢
  have hnumber : journal.nextSequence = 1 + UInt64.ofNat (found ++ added).length := by
    rw [h.next, after, List.length_append, List.length_append, h.recorded.length_eq,
      h.writes.length_eq]
  refine ⟨encoded, hdump, h.valid, hsame, h.recorded,
    List.rel_append h.writes (.cons ⟨rfl, rfl, hdump, hkind, hbound⟩ .nil), ?_, ?_, ?_, ?_, ?_⟩
  · rw [List.map_append, h.accepted]
    rfl
  · rw [← List.append_assoc]
    exact numbered_append.mpr ⟨h.numbered, hnumber, trivial⟩
  · rw [← List.append_assoc, frames_append, ← h.next, h.contents, List.append_assoc, frames, frames,
      List.append_nil]
    rfl
  · rw [← List.append_assoc, after_append, ← h.next]
    rfl
  · rw [List.length_append]
    omega

theorem append_error_journal {journal journal' : Journal} {file file' kind : Bytes} {payload : Json}
    {write : Write} {e : Error}
    (h : append journal file kind payload write = (.error e, journal', file')) :
    journal' = journal := by
  unfold append at h
  split at h
  · exact (congrArg (·.2.1) h).symm
  · split at h
    · exact (congrArg (·.2.1) h).symm
    · cases (Prod.mk.inj h).1

theorem Appended.holds {journal : Journal} {file : Bytes} {payloads : List Json}
    (h : Appended config journal file payloads) :
    ∃ found added old new, Appended.Holds config journal file payloads found added old new := by
  induction h with
  | opened hopen =>
    obtain ⟨records, stored, hopened⟩ := openJournal_opened hopen
    refine ⟨records, [], stored, [], hopened.valid, hopened.same, hopened.recorded, .nil, rfl, ?_,
      ?_, ?_, hopened.size⟩
    · rw [List.append_nil]
      exact hopened.numbered
    · rw [List.append_nil]
      exact hopened.contents
    · rw [List.append_nil]
      exact hopened.next
  | refused _ happend ih =>
    rw [append_error_journal happend]
    exact ih
  | appended _ happend ih =>
    obtain ⟨found, added, old, new, hholds⟩ := ih
    obtain ⟨encoded, -, hnext⟩ := hholds.snoc happend
    exact ⟨found, _, old, _, hnext⟩

/-- **A scan stops at a payload that nests too deep.** -/
theorem scan_written_error (hvalid : config.Valid) {records : List JournalRecord}
    {stored : List Stored} (h : List.Forall₂ (Writes config) records stored)
    (hdumpable : ∀ r ∈ records, Dumpable r.payload) (hdeep : ∃ r ∈ records, 32 < r.payload.depth)
    (state : Scan) (hnumbered : Numbered state.expected records) (fuel : Nat)
    (hfuel : (frames state.expected stored).length < fuel) (tail : Bytes) :
    ∃ e, scan config fuel state (frames state.expected stored ++ tail) = .error e := by
  induction h generalizing state fuel with
  | nil =>
    obtain ⟨r, hr, -⟩ := hdeep
    cases hr
  | @cons r s records stored hwrites _ ih =>
    rw [List.forall_mem_cons] at hdumpable
    obtain ⟨hsequence, hrest⟩ := hnumbered
    have hread := hwrites.readFrame hvalid hdumpable.1 (frames (state.expected + 1) stored ++ tail)
    rw [hsequence] at hread
    rw [frames, List.length_append, s.length_frame, Stored.size, kFrameHeaderSize] at hfuel
    cases fuel with
    | zero => omega
    | succ fuel =>
      rw [frames, List.append_assoc, scan, hread]
      by_cases hfirst : r.payload.depth ≤ 32
      · rw [withinNesting_of_le hfirst]
        have hothers : ∃ r' ∈ records, 32 < r'.payload.depth := by
          obtain ⟨r', hr', hdepth⟩ := hdeep
          rcases List.mem_cons.mp hr' with rfl | hr'
          · omega
          · exact ⟨r', hr', hdepth⟩
        exact ih hdumpable.2 hothers (state.advance config r.reread s.size) hrest fuel
          (by dsimp only [Scan.advance]; omega)
      · rw [withinNesting_of_lt (by omega)]
        exact ⟨_, rfl⟩

/-- **What was written is read**, record after record. -/
theorem recorded_of_writes (hvalid : config.Valid) {records : List JournalRecord}
    {stored : List Stored} (h : List.Forall₂ (Writes config) records stored)
    (hreadable : ∀ r ∈ records, Dumpable r.payload ∧ r.payload.depth ≤ 32) :
    List.Forall₂ (Recorded config) (records.map JournalRecord.reread) stored := by
  rw [List.forall₂_map_left_iff]
  exact ((List.forall₂_and_left _ _).mpr ⟨hreadable, h⟩).imp fun r s h' =>
    h'.2.recorded hvalid h'.1.1 h'.1.2

theorem Appended.Holds.reopened {journal : Journal} {file : Bytes} {payloads : List Json}
    {found added : List JournalRecord} {old new : List Stored}
    (h : Appended.Holds config journal file payloads found added old new)
    (hdumpable : ∀ p ∈ payloads, Dumpable p) (hdepth : ∀ p ∈ payloads, p.depth ≤ 32) :
    openJournal config (.file file) =
      (.ok ⟨config, after 1 (old ++ new), 0,
        (found ++ added.map JournalRecord.reread).rtake config.recentRecordLimit⟩, .file file) := by
  rw [← h.accepted, List.forall_mem_map] at hdumpable hdepth
  have hadded := recorded_of_writes h.valid h.writes fun r hr => ⟨hdumpable r hr, hdepth r hr⟩
  have hnumbered : Numbered 1 (found ++ added.map JournalRecord.reread) := by
    obtain ⟨hfound, hrest⟩ := numbered_append.mp h.numbered
    exact numbered_append.mpr ⟨hfound, hrest.reread⟩
  have hsize := h.size
  rw [h.contents, ← List.append_nil (frames 1 _)] at hsize
  have hopen := reopen_recorded h.valid (List.rel_append h.recorded hadded) hnumbered (.inl rfl) hsize
  rw [List.append_nil, ← h.contents] at hopen
  exact hopen

/-- **A store with an appended payload that nests too deep is refused.** -/
theorem Appended.Holds.refused {journal : Journal} {file : Bytes} {payloads : List Json}
    {found added : List JournalRecord} {old new : List Stored}
    (h : Appended.Holds config journal file payloads found added old new)
    (hdumpable : ∀ p ∈ payloads, Dumpable p) (hdeep : ∃ p ∈ payloads, 32 < p.depth) :
    ∃ e, openJournal config (.file file) = (.error e, .file file) := by
  rw [← h.accepted, List.forall_mem_map] at hdumpable
  have hrecord : ∃ r ∈ added, 32 < r.payload.depth := by
    obtain ⟨p, hp, hdepth⟩ := hdeep
    rw [← h.accepted, List.mem_map] at hp
    obtain ⟨r, hr, rfl⟩ := hp
    exact ⟨r, hr, hdepth⟩
  obtain ⟨hfound, hrest⟩ := numbered_append.mp h.numbered
  have hsize := h.size
  rw [h.contents, frames_append] at hsize ⊢
  have hlong := length_le_frames 1 old
  -- The records found at opening are read again, and then those appended.
  have hscan := scan_recorded h.recorded ⟨kFileMagic.length, 1, [], false⟩ hfound
    ((kFileMagic ++ (frames 1 old ++ frames (after 1 old) new)).length - old.length + 1)
    (frames (after 1 old) new)
  have hfuel : old.length +
      ((kFileMagic ++ (frames 1 old ++ frames (after 1 old) new)).length - old.length + 1) =
      (kFileMagic ++ (frames 1 old ++ frames (after 1 old) new)).length + 1 := by
    simp only [List.length_append]
    omega
  have hadded : Numbered (after 1 old) added := by
    rw [after, ← h.recorded.length_eq]
    exact hrest
  obtain ⟨e, he⟩ := scan_written_error h.valid h.writes hdumpable hrecord
    (Scan.past config ⟨kFileMagic.length, 1, [], false⟩ found old) hadded
    ((kFileMagic ++ (frames 1 old ++ frames (after 1 old) new)).length - old.length + 1)
    (by
      show (frames (after 1 old) new).length < _
      simp only [List.length_append]
      omega) []
  rw [List.append_nil] at he
  have hrefused : scanFile config (kFileMagic ++ (frames 1 old ++ frames (after 1 old) new)) =
      .error e := by
    rw [scanFile_magic hsize, ← hfuel, hscan]
    exact he
  refine ⟨e, ?_⟩
  rw [openJournal_magic h.valid, replay, hrefused]

omit [Platform] in
theorem getLast?_rtake_append {limit : Nat} (hlimit : limit ≠ 0) (records : List JournalRecord)
    (r : JournalRecord) : ((records ++ [r]).rtake limit).getLast? = some r := by
  rw [← remember_rtake hlimit, remember, List.getLast?_concat]

/-- **When the record of an append that returned is there at the next start**: when no payload appended
since the journal was opened nests too deep, and this one's numbers are finite. -/
theorem append_readBack_iff {config : JournalConfig} {journal journal' : Journal}
    {file file' kind : Bytes} {payloads : List Json} {payload : Json} {sequence : UInt64}
    (happended : Appended config journal file payloads)
    (happend : append journal file kind payload .succeeds = (.ok sequence, journal', file'))
    (hdumpable : ∀ p ∈ payloads ++ [payload], Dumpable p) :
    (∃ reopened, openJournal config (.file file') = (.ok reopened, .file file') ∧
        ∃ r, reopened.recent.getLast? = some r ∧ Same ⟨sequence, kind, payload⟩ r) ↔
      (∀ p ∈ payloads ++ [payload], p.depth ≤ 32) ∧ payload.Finite := by
  obtain ⟨found, added, old, new, hbefore⟩ := happended.holds
  obtain ⟨encoded, -, hholds⟩ := hbefore.snoc happend
  by_cases hdepth : ∀ p ∈ payloads ++ [payload], p.depth ≤ 32
  · have hopen := hholds.reopened hdumpable hdepth
    have hlast : ((found ++ (added ++ [(⟨sequence, kind, payload⟩ : JournalRecord)]).map
        JournalRecord.reread).rtake config.recentRecordLimit).getLast? =
          some ⟨sequence, kind, payload.reread⟩ := by
      rw [List.map_append, ← List.append_assoc]
      exact getLast?_rtake_append hholds.valid.recent _ _
    constructor
    · intro h
      obtain ⟨reopened, hopened, r, hr, hsame⟩ := h
      rw [hopen] at hopened
      rw [← Except.ok.inj (Prod.mk.inj hopened).1, hlast] at hr
      refine ⟨hdepth, Json.eqv_reread_iff.mp ?_⟩
      rw [← Option.some.inj hr] at hsame
      exact hsame.payload
    · intro h
      exact ⟨_, hopen, _, hlast, rfl, rfl, Json.eqv_reread_iff.mpr h.2⟩
  · have hdeep : ∃ p ∈ payloads ++ [payload], 32 < p.depth := by
      push Not at hdepth
      exact hdepth
    obtain ⟨e, he⟩ := hholds.refused hdumpable hdeep
    constructor
    · intro h
      obtain ⟨reopened, hopened, -⟩ := h
      rw [he] at hopened
      cases (Prod.mk.inj hopened).1
    · intro h
      exact absurd h.1 hdepth

end Appended

/-! An empty payload, and one that nests too deep. -/

section Sample

local instance readBackPlatform : Platform := samplePlatform

/-- A `null` in 33 arrays. -/
def deepPayload : Json := (List.range 33).foldl (fun j _ => .arr [j]) .null

set_option maxRecDepth 40000 in
/-- The append of a payload that nests too deep returns; the store cannot be opened again. -/
theorem append_unreadable :
    (append ⟨sampleConfig, 1, 0, []⟩ kFileMagic "model_selected" deepPayload .succeeds).1 =
        .ok 1 ∧
      openJournal sampleConfig (.file
          (append ⟨sampleConfig, 1, 0, []⟩ kFileMagic "model_selected" deepPayload .succeeds).2.2) =
        (.error (.runtime "operational record exceeds JSON nesting limit"), .file
          (append ⟨sampleConfig, 1, 0, []⟩ kFileMagic "model_selected" deepPayload
            .succeeds).2.2) := by
  refine ⟨rfl, rfl⟩

theorem append_readBack_iff_sample :
    (∃ reopened, openJournal sampleConfig (.file (append ⟨sampleConfig, 1, 0, []⟩ kFileMagic
          "model_selected" (.obj []) .succeeds).2.2) =
        (.ok reopened, .file (append ⟨sampleConfig, 1, 0, []⟩ kFileMagic "model_selected" (.obj [])
          .succeeds).2.2) ∧
        ∃ r, reopened.recent.getLast? = some r ∧ Same ⟨1, "model_selected", .obj []⟩ r) ↔
      (∀ p ∈ ([] ++ [.obj []] : List Json), p.depth ≤ 32) ∧ (Json.obj []).Finite := by
  have hopen : openJournal sampleConfig .absent =
      (.ok ⟨sampleConfig, 1, 0, []⟩, .file kFileMagic) := rfl
  apply append_readBack_iff (.opened hopen)
  · rfl
  · intro p hp
    rw [List.nil_append, List.mem_singleton] at hp
    rw [hp]
    exact readable_empty.toDumpable

end Sample

end ContextHmi.Storage
