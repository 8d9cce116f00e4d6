import ContextHmi.Json.RoundTrip
import ContextHmi.Storage.Journal
import Mathlib.Data.List.Forall2
import Mathlib.Data.List.DropRight

/-!
# Recovery

A file of whole frames with at most one incomplete frame behind them is opened, and the journal holds
the window of the records that were written.

* `scan_recorded`   : the scan reads whole frames, one after another;
* `reopen_recorded` : a file of them is opened, its torn tail cut off;
* `crash_recovery`  : any run of appends, of crashes in the middle of an append and of reopenings.
-/

namespace ContextHmi.Storage

open Outcome

/-! ### The window -/

/-- **The window holds the last records.** -/
theorem remember_rtake {limit : Nat} (hlimit : limit ≠ 0) (records : List JournalRecord)
    (r : JournalRecord) :
    remember limit (records.rtake limit) r = (records ++ [r]).rtake limit := by
  have hlength : (records.rtake limit).length = min limit records.length := by
    rw [List.rtake, List.length_drop]
    omega
  have hdrop : (records ++ [r]).rtake limit = records.drop (records.length + 1 - limit) ++ [r] := by
    rw [List.rtake, List.length_append, List.length_singleton]
    exact List.drop_append_of_le_length (by omega)
  rw [remember, hlength, hdrop]
  by_cases hfull : limit ≤ min limit records.length
  · rw [if_pos hfull, List.rtake, List.drop_drop]
    congr 2
    omega
  · rw [if_neg hfull, List.rtake, List.drop_eq_drop_iff.mpr]
    omega

theorem foldl_remember {limit : Nat} (hlimit : limit ≠ 0) (before records : List JournalRecord) :
    records.foldl (remember limit) (before.rtake limit) = (before ++ records).rtake limit := by
  induction records generalizing before with
  | nil => rw [List.append_nil, List.foldl_nil]
  | cons r records ih =>
    rw [List.foldl_cons, remember_rtake hlimit, ih, List.append_assoc, List.singleton_append]

section Window
variable {R : JournalRecord → JournalRecord → Prop}

theorem remember_forall₂ {limit : Nat} {recent recent' : List JournalRecord} {r r' : JournalRecord}
    (h : List.Forall₂ R recent recent') (hr : R r r') :
    List.Forall₂ R (remember limit recent r) (remember limit recent' r') := by
  unfold remember
  rw [h.length_eq]
  split_ifs
  · exact List.rel_append (List.forall₂_drop 1 h) (.cons hr .nil)
  · exact List.rel_append h (.cons hr .nil)

end Window

/-! ### Frames of records -/

/-- What the callback of `parse_payload` says to a payload of this depth. -/
def withinNesting (depth : Nat) : Result Unit :=
  Json.within (some ⟨32, .runtime "operational record exceeds JSON nesting limit"⟩) depth

theorem withinNesting_of_le {depth : Nat} (h : depth ≤ 32) : withinNesting depth = .ok () := by
  show (if 32 < depth then _ else _) = _
  rw [if_neg (by omega)]

theorem withinNesting_of_lt {depth : Nat} (h : 32 < depth) :
    withinNesting depth = .error (.runtime "operational record exceeds JSON nesting limit") := by
  show (if 32 < depth then _ else _) = _
  rw [if_pos h]

/-- The sequence numbers of some records, from `first` on. -/
def Numbered (first : UInt64) : List JournalRecord → Prop
  | [] => True
  | r :: records => r.sequence = first ∧ Numbered (first + 1) records

theorem numbered_append {first : UInt64} {records records' : List JournalRecord} :
    Numbered first (records ++ records') ↔
      Numbered first records ∧ Numbered (first + UInt64.ofNat records.length) records' := by
  induction records generalizing first with
  | nil =>
    rw [List.nil_append, List.length_nil, show first + UInt64.ofNat 0 = first from UInt64.add_zero first]
    exact ⟨fun h => ⟨trivial, h⟩, fun h => h.2⟩
  | cons r records ih =>
    have hlength : first + 1 + UInt64.ofNat records.length =
        first + UInt64.ofNat (r :: records).length := by
      rw [List.length_cons, UInt64.ofNat_add, UInt64.add_comm (UInt64.ofNat records.length),
        ← UInt64.add_assoc]
      rfl
    rw [List.cons_append, Numbered, Numbered, ih, hlength, and_assoc]

theorem Numbered.sequences {first : UInt64} {records : List JournalRecord}
    (h : Numbered first records) : records.map (·.sequence) =
      (List.range records.length).map fun i => first + UInt64.ofNat i := by
  induction records generalizing first with
  | nil => rfl
  | cons r records ih =>
    rw [List.map_cons, List.length_cons, List.range_succ_eq_map, List.map_cons, List.map_map,
      ih h.2, h.1]
    congr 1
    · exact (UInt64.add_zero first).symm
    · apply List.map_congr_left
      intro i _
      show first + 1 + UInt64.ofNat i = first + UInt64.ofNat (i + 1)
      rw [UInt64.ofNat_add, UInt64.add_comm (UInt64.ofNat i), ← UInt64.add_assoc]
      rfl

/-! ### The window of an opened journal -/

/-- The records of a window are numbered in a row, up to the number before the next. -/
def Scan.InStep (state : Scan) : Prop :=
  ∃ first, Numbered first state.recent ∧ state.expected = first + UInt64.ofNat state.recent.length

theorem Numbered.drop {first : UInt64} {records : List JournalRecord} (h : Numbered first records)
    {k : Nat} (hk : k ≤ records.length) : Numbered (first + UInt64.ofNat k) (records.drop k) := by
  have hsplit := numbered_append.mp ((List.take_append_drop k records).symm ▸ h)
  rw [List.length_take_of_le hk] at hsplit
  exact hsplit.2

theorem Numbered.remember {first : UInt64} {records : List JournalRecord} (h : Numbered first records)
    (limit : Nat) {r : JournalRecord} (hr : r.sequence = first + UInt64.ofNat records.length) :
    ∃ first', Numbered first' (remember limit records r) ∧
      r.sequence + 1 = first' + UInt64.ofNat (remember limit records r).length := by
  have hbehind : ∀ {first records}, Numbered first records →
      r.sequence = first + UInt64.ofNat records.length →
      Numbered first (records ++ [r]) ∧ r.sequence + 1 = first + UInt64.ofNat (records ++ [r]).length := by
    intro first records h hr
    refine ⟨numbered_append.mpr ⟨h, hr, trivial⟩, ?_⟩
    rw [List.length_append, UInt64.ofNat_add, ← UInt64.add_assoc, ← hr]
    rfl
  unfold Storage.remember
  split_ifs
  · cases records with
    | nil => exact ⟨r.sequence, hbehind trivial (UInt64.add_zero _).symm⟩
    | cons oldest records =>
      refine ⟨first + 1, hbehind h.2 ?_⟩
      rw [hr, List.length_cons, UInt64.ofNat_add, UInt64.add_comm (UInt64.ofNat records.length),
        ← UInt64.add_assoc]
      rfl
  · exact ⟨first, hbehind h hr⟩

theorem scan_inStep {config : JournalConfig} {fuel : Nat} {state t : Scan} {input : Bytes}
    (h : scan config fuel state input = .ok t) (hstate : state.InStep) : t.InStep := by
  induction fuel generalizing state input with
  | zero =>
    obtain rfl := Except.ok.inj h
    exact hstate
  | succ fuel ih =>
    rw [scan, bind_eq_ok] at h
    obtain ⟨scanned, hread, h⟩ := h
    cases scanned with
    | nothing =>
      obtain rfl := pure_eq_ok.mp h
      exact hstate
    | torn =>
      obtain rfl := pure_eq_ok.mp h
      exact hstate
    | record r size rest =>
      obtain ⟨-, -, -, -, -, hsequence, -⟩ := frame_of_readFrame hread
      obtain ⟨first, hnumbered, hexpected⟩ := hstate
      have hnext := hnumbered.remember config.recentRecordLimit (hsequence.trans hexpected)
      rw [hsequence] at hnext
      exact ih h hnext

/-- **The window of a journal that was opened** is numbered in a row. -/
theorem numbered_of_openJournal {config : JournalConfig} {entry : Entry} {journal : Journal}
    (h : (openJournal config entry).1 = .ok journal) : ∃ first, Numbered first journal.recent := by
  have hreplay : ∀ contents, (replay config contents).1 = .ok journal →
      ∃ first, Numbered first journal.recent := by
    intro contents h
    unfold replay at h
    split at h
    · cases h
    · rename_i t hscan
      have hwindow : journal.recent = t.recent := by
        split_ifs at h
        · exact (Except.ok.inj h) ▸ rfl
        · exact (Except.ok.inj h) ▸ rfl
      rw [scanFile, throwIf_bind_eq_ok, throwIf_bind_eq_ok] at hscan
      obtain ⟨first, hnumbered, -⟩ := scan_inStep hscan.2.2 ⟨1, trivial, (UInt64.add_zero 1).symm⟩
      exact ⟨first, hwindow ▸ hnumbered⟩
  unfold openJournal at h
  split_ifs at h
  unfold openAndRecover at h
  split at h
  · cases h
  · cases h
  · cases h
  · cases h
  · exact hreplay _ h
  · exact hreplay _ h

theorem Numbered.distinct {first : UInt64} {records : List JournalRecord} (h : Numbered first records)
    (hlength : records.length ≤ 2 ^ 64) : records.Pairwise fun r r' => r.sequence ≠ r'.sequence := by
  have hnodup : (records.map (·.sequence)).Nodup := by
    rw [h.sequences]
    refine List.Nodup.map_on (fun i hi j hj heq => ?_) List.nodup_range
    rw [List.mem_range] at hi hj
    have hsame := congrArg UInt64.toNat ((UInt64.add_right_inj first).mp heq)
    rw [UInt64.toNat_ofNat', UInt64.toNat_ofNat', Nat.mod_eq_of_lt (by omega),
      Nat.mod_eq_of_lt (by omega)] at hsame
    exact hsame
  exact List.pairwise_map.mp hnodup

/-! ### Frames that are read -/

/-- A frame that is read as a record. -/
structure Recorded (config : JournalConfig) (r : JournalRecord) (s : Stored) : Prop where
  fits : s.Fits
  bound : s.payload.length ≤ config.maximumPayloadBytes
  kind : s.kind = r.kind
  payload : parsePayload s.payload = .ok r.payload

section Recorded
variable {config : JournalConfig} {r : JournalRecord} {s : Stored}

theorem Recorded.readFrame (h : Recorded config r s) (rest : Bytes) :
    Storage.readFrame config r.sequence (s.frame r.sequence ++ rest) = .ok (.record r s.size rest) := by
  have hbound : ¬ config.maximumPayloadBytes < s.payload.length := by
    have := h.bound
    omega
  rw [readFrame_frame h.fits, throwIf_of_not _ hbound, h.payload, h.kind]
  rfl

/-- The scan after the frames of some records. -/
def Scan.past (config : JournalConfig) (state : Scan) (records : List JournalRecord)
    (stored : List Stored) : Scan :=
  { state with
    lastComplete := state.lastComplete + (frames state.expected stored).length
    expected := after state.expected stored
    recent := records.foldl (remember config.recentRecordLimit) state.recent }

/-- **The scan reads whole frames**, one after another. -/
theorem scan_recorded {records : List JournalRecord} {stored : List Stored}
    (h : List.Forall₂ (Recorded config) records stored) (state : Scan)
    (hnumbered : Numbered state.expected records) (fuel : Nat) (tail : Bytes) :
    scan config (stored.length + fuel) state (frames state.expected stored ++ tail) =
      scan config fuel (state.past config records stored) tail := by
  induction h generalizing state with
  | nil =>
    have hpast : state.past config [] [] = state := by
      rw [Scan.past, after_nil]
      rfl
    rw [hpast, List.length_nil, Nat.zero_add]
    rfl
  | @cons r s records stored hrecorded _ ih =>
    obtain ⟨hsequence, hrest⟩ := hnumbered
    have hread := hrecorded.readFrame (frames (state.expected + 1) stored ++ tail)
    rw [hsequence] at hread
    rw [List.length_cons, Nat.add_right_comm, scan, frames, List.append_assoc, hread]
    have hnext := ih (state.advance config r s.size) hrest
    have hpast : (state.advance config r s.size).past config records stored =
        state.past config (r :: records) (s :: stored) := by
      simp only [Scan.past, Scan.advance, frames, after_cons, List.length_append, s.length_frame,
        Nat.add_assoc, List.foldl_cons]
    rw [hpast] at hnext
    exact hnext

/-! ### Reopening -/

theorem length_le_frames (sequence : UInt64) (stored : List Stored) :
    stored.length ≤ (frames sequence stored).length := by
  induction stored generalizing sequence with
  | nil => exact Nat.le_refl 0
  | cons s stored ih =>
    have hrest := ih (sequence + 1)
    rw [frames, List.length_append, s.length_frame, Stored.size, kFrameHeaderSize, List.length_cons]
    omega

theorem openJournal_magic (hvalid : config.Valid) (rest : Bytes) :
    openJournal config (.file (kFileMagic ++ rest)) = replay config (kFileMagic ++ rest) := by
  rw [openJournal, if_pos hvalid]
  rfl

theorem scanFile_magic {rest : Bytes}
    (hsize : (kFileMagic ++ rest).length ≤ config.maximumFileBytes) :
    scanFile config (kFileMagic ++ rest) =
      scan config ((kFileMagic ++ rest).length + 1) ⟨kFileMagic.length, 1, [], false⟩ rest := by
  have htake : (kFileMagic ++ rest).take kFileMagic.length = kFileMagic := List.take_left' rfl
  have hdrop : (kFileMagic ++ rest).drop kFileMagic.length = rest := List.drop_left' rfl
  rw [scanFile, throwIf_of_not _ (not_lt.mpr hsize), htake, throwIf_of_not _ (not_not.mpr rfl), hdrop]
  rfl

theorem replay_of_scan {contents : Bytes} {t : Scan} (h : scanFile config contents = .ok t) :
    replay config contents =
      if t.torn then (.ok ⟨config, t.expected, contents.length - t.lastComplete, t.recent⟩,
        .file (contents.take t.lastComplete))
      else (.ok ⟨config, t.expected, 0, t.recent⟩, .file contents) := by
  rw [replay, h]

/-- **A file of whole frames is opened**, and an incomplete frame behind them is cut off. -/
theorem reopen_recorded (hvalid : config.Valid) {records : List JournalRecord} {stored : List Stored}
    (h : List.Forall₂ (Recorded config) records stored) (hnumbered : Numbered 1 records) {tail : Bytes}
    (htail : tail = [] ∨ readFrame config (after 1 stored) tail = .ok .torn)
    (hsize : (kFileMagic ++ (frames 1 stored ++ tail)).length ≤ config.maximumFileBytes) :
    openJournal config (.file (kFileMagic ++ (frames 1 stored ++ tail))) =
      (.ok ⟨config, after 1 stored, tail.length, records.rtake config.recentRecordLimit⟩,
        .file (kFileMagic ++ frames 1 stored)) := by
  have hlong := length_le_frames 1 stored
  have hscan := scan_recorded h ⟨kFileMagic.length, 1, [], false⟩ hnumbered
    ((kFileMagic ++ (frames 1 stored ++ tail)).length - stored.length + 1) tail
  have hfuel : stored.length + ((kFileMagic ++ (frames 1 stored ++ tail)).length - stored.length + 1) =
      (kFileMagic ++ (frames 1 stored ++ tail)).length + 1 := by
    simp only [List.length_append]
    omega
  have hwindow : records.foldl (remember config.recentRecordLimit) [] =
      records.rtake config.recentRecordLimit := by
    have h := foldl_remember hvalid.recent [] records
    rwa [List.rtake_nil, List.nil_append] at h
  rw [hfuel] at hscan
  rw [openJournal_magic hvalid]
  rcases htail with rfl | htorn
  · have hend : scanFile config (kFileMagic ++ (frames 1 stored ++ [])) =
        .ok (Scan.past config ⟨kFileMagic.length, 1, [], false⟩ records stored) := by
      rw [scanFile_magic hsize, hscan, scan]
      rfl
    rw [replay_of_scan hend]
    simp only [Scan.past, Bool.false_eq_true, if_false, hwindow, List.append_nil, List.length_nil]
  · have hend : scanFile config (kFileMagic ++ (frames 1 stored ++ tail)) =
        .ok { Scan.past config ⟨kFileMagic.length, 1, [], false⟩ records stored with torn := true } := by
      have hexpected : (Scan.past config ⟨kFileMagic.length, 1, [], false⟩ records stored).expected =
          after 1 stored := rfl
      rw [scanFile_magic hsize, hscan, scan, hexpected, htorn]
      rfl
    have hlast : (kFileMagic ++ (frames 1 stored ++ tail)).take
        (kFileMagic.length + (frames 1 stored).length) = kFileMagic ++ frames 1 stored := by
      rw [← List.append_assoc, ← List.length_append]
      exact List.take_left' rfl
    have hcut : (kFileMagic ++ (frames 1 stored ++ tail)).length -
        (kFileMagic.length + (frames 1 stored).length) = tail.length := by
      simp only [List.length_append]
      omega
    rw [replay_of_scan hend, if_pos rfl]
    simp only [Scan.past, hwindow, hlast, hcut]
end Recorded

section Records
variable [Platform]

/-- What `append` writes of a record. -/
structure Writes (config : JournalConfig) (r : JournalRecord) (s : Stored) : Prop where
  synchronize : s.synchronize = config.synchronize
  kind : s.kind = r.kind
  payload : r.payload.dump = .ok s.payload
  valid : validKind r.kind = true
  bound : s.payload.length ≤ config.maximumPayloadBytes

/-- A value as the JSON library holds and writes it. -/
structure Dumpable (payload : Json) : Prop where
  canonical : payload.Canonical
  floats : payload.FloatsReadBack

/-- The record as it is read back. -/
def JournalRecord.reread (r : JournalRecord) : JournalRecord := { r with payload := r.payload.reread }

omit [Platform] in
theorem Numbered.reread {first : UInt64} {records : List JournalRecord} (h : Numbered first records) :
    Numbered first (records.map JournalRecord.reread) := by
  induction records generalizing first with
  | nil => trivial
  | cons r records ih => exact ⟨h.1, ih h.2⟩

variable {config : JournalConfig} {r : JournalRecord} {s : Stored}

theorem Writes.fits (h : Writes config r s) (hvalid : config.Valid) : s.Fits := by
  have hmax := hvalid.payloadMax
  have hbound := h.bound
  unfold kMaximumConfiguredPayloadBytes at hmax
  exact ⟨h.kind ▸ h.valid, by omega⟩

theorem parsePayload_written (h : Writes config r s) (hr : Dumpable r.payload) :
    parsePayload s.payload = withinNesting r.payload.depth >>= fun _ => .ok r.payload.reread :=
  Json.parse_dump hr.canonical hr.floats h.payload

/-- **What was written is read**, unless it nests too deep. -/
theorem Writes.recorded (h : Writes config r s) (hvalid : config.Valid) (hr : Dumpable r.payload)
    (hdepth : r.payload.depth ≤ 32) : Recorded config r.reread s := by
  refine ⟨h.fits hvalid, h.bound, h.kind, ?_⟩
  rw [parsePayload_written h hr, withinNesting_of_le hdepth]
  rfl

theorem Writes.readFrame (h : Writes config r s) (hvalid : config.Valid) (hr : Dumpable r.payload)
    (rest : Bytes) :
    Storage.readFrame config r.sequence (s.frame r.sequence ++ rest) =
      withinNesting r.payload.depth >>= fun _ => .ok (.record r.reread s.size rest) := by
  have hbound : ¬ config.maximumPayloadBytes < s.payload.length := by
    have := h.bound
    omega
  rw [readFrame_frame (h.fits hvalid), throwIf_of_not _ hbound, parsePayload_written h hr, h.kind]
  cases withinNesting r.payload.depth <;> rfl

/-- **A part of a written frame is a torn tail.** -/
theorem readFrame_torn (h : Writes config r s) (hvalid : config.Valid) {written : Nat}
    (hpos : 0 < written) (hlt : written < (s.frame r.sequence).length) :
    readFrame config r.sequence ((s.frame r.sequence).take written) = .ok .torn := by
  have hfits := h.fits hvalid
  obtain ⟨hkindPos, hkindMax⟩ := validKind_length hfits.kind
  have hlength : ((s.frame r.sequence).take written).length = written := by
    rw [List.length_take]
    omega
  have hnonempty : (s.frame r.sequence).take written ≠ [] := by
    intro hnil
    rw [hnil, List.length_nil] at hlength
    omega
  rw [readFrame, if_neg hnonempty, hlength]
  by_cases hshort : written < kFrameHeaderSize
  · rw [if_pos hshort]
  · rw [if_neg hshort]
    have hheaderLength : (s.header r.sequence).length = kFrameHeaderSize := length_frameHeader _ _ _ _
    have hheader : ((s.frame r.sequence).take written).take kFrameHeaderSize =
        s.header r.sequence := by
      rw [List.take_take, Nat.min_eq_left (by omega), Stored.frame_eq, List.append_assoc]
      exact List.take_left' hheaderLength
    have hkind : field (s.header r.sequence) 6 2 = s.kind.length := field_kind _ _ _ hkindMax
    have hpayload : field (s.header r.sequence) 8 4 = s.payload.length :=
      field_payload _ _ _ hfits.payload
    have hsequence : field (s.header r.sequence) 16 8 = r.sequence.toNat := field_sequence _ _ _ _
    have hcheck : checkHeader (s.header r.sequence) = .ok () := checkHeader_frameHeader _ _ _ _
    have hbounds : checkBounds config r.sequence (s.header r.sequence) = .ok () := by
      apply throwIf_of_not
      have hbound := h.bound
      rw [hkind, hpayload, hsequence]
      omega
    have htorn : (((s.frame r.sequence).take written).drop kFrameHeaderSize |>.take
        s.kind.length).length ≠ s.kind.length ∨
        ((((s.frame r.sequence).take written).drop kFrameHeaderSize |>.drop s.kind.length).take
          s.payload.length).length ≠ s.payload.length := by
      rw [Stored.length_frame, Stored.size] at hlt
      simp only [List.length_take, List.length_drop, hlength]
      omega
    simp only [hheader, hcheck, hbounds, hkind, hpayload, ok_bind]
    rw [if_pos htorn]
    rfl

/-! ### The scan -/

end Records

/-! ### Crashes -/

section Crashes
variable [Platform]

/-- The frame an append writes, if it writes one. -/
def appendFrame (journal : Journal) (file kind : Bytes) (payload : Json) : Bytes :=
  match checkAppend journal file kind payload with
  | .ok encoded => frame journal.config.synchronize journal.nextSequence kind encoded
  | .error _ => []

def Entry.contents : Entry → Bytes
  | .file contents => contents
  | _ => []

/-- An append that returns or is refused, or a crash that leaves `written` bytes of one and the start
after it. -/
inductive Event where
  | append (kind : Bytes) (payload : Json)
  | crash (kind : Bytes) (payload : Json) (written : Nat)

def Event.payload : Event → Json
  | .append _ payload => payload
  | .crash _ payload _ => payload

/-- A store, with the records it is to hold (those acknowledged and those a crash had completed) and
the bytes its last start is to have removed. -/
structure Kept where
  journal : Journal
  file : Bytes
  records : List JournalRecord
  removed : Nat

def Kept.step (config : JournalConfig) (kept : Kept) : Event → Result Kept
  | .append kind payload =>
    match append kept.journal kept.file kind payload .succeeds with
    | (.ok sequence, journal, file) =>
      .ok { kept with
        journal := journal
        file := file
        records := kept.records ++ [⟨sequence, kind, payload⟩] }
    | (.error _, journal, file) => .ok { kept with journal := journal, file := file }
  | .crash kind payload written => do
    let bytes := appendFrame kept.journal kept.file kind payload
    let opened := openJournal config (.file (kept.file ++ bytes.take written))
    let journal ← opened.1
    let complete := bytes ≠ [] ∧ bytes.length ≤ written
    return {
      journal := journal
      file := opened.2.contents
      records := kept.records ++
        if complete then [⟨kept.journal.nextSequence, kind, payload⟩] else []
      removed := if bytes.length ≤ written then 0 else written }

/-- A new store and what happens to it. -/
def keptAfter (config : JournalConfig) (events : List Event) : Result Kept := do
  let opened := openJournal config .absent
  let journal ← opened.1
  events.foldlM (Kept.step config) ⟨journal, opened.2.contents, [], 0⟩

/-- A payload the service's callers append: its numbers are finite, and it does not nest deeper than
the reader's callback lets it. -/
structure Readable (payload : Json) : Prop extends Dumpable payload where
  finite : payload.Finite
  depth : payload.depth ≤ 32

/-- The record held has the number, the kind and the payload of the one appended. -/
structure Same (r held : JournalRecord) : Prop where
  sequence : held.sequence = r.sequence
  kind : held.kind = r.kind
  payload : r.payload.eqv held.payload = true

/-- What holds of a store between two events. -/
structure Kept.Sound (config : JournalConfig) (kept : Kept) : Prop where
  same : kept.journal.config = config
  size : kept.file.length ≤ config.maximumFileBytes
  stored : ∃ stored, List.Forall₂ (Writes config) kept.records stored ∧
    kept.file = kFileMagic ++ frames 1 stored ∧ kept.journal.nextSequence = after 1 stored
  numbered : Numbered 1 kept.records
  readable : ∀ r ∈ kept.records, Readable r.payload
  window : List.Forall₂ Same (kept.records.rtake config.recentRecordLimit) kept.journal.recent
  removed : kept.journal.recoveredTailBytes = kept.removed

theorem checkAppend_eq_ok {journal : Journal} {file kind encoded : Bytes} {payload : Json}
    (h : checkAppend journal file kind payload = .ok encoded) :
    Writes journal.config ⟨journal.nextSequence, kind, payload⟩
        ⟨journal.config.synchronize, kind, encoded⟩ ∧
      (file ++ frame journal.config.synchronize journal.nextSequence kind encoded).length ≤
        journal.config.maximumFileBytes := by
  simp only [checkAppend, bind_eq_ok, pure_eq_ok, throwIf_eq_ok, Bool.not_eq_false, not_lt,
    not_or] at h
  obtain ⟨-, hkind, _, hdump, -, hpayload, -, ⟨hfile, hfits⟩, rfl⟩ := h
  refine ⟨⟨rfl, rfl, hdump, hkind, hpayload⟩, ?_⟩
  rw [frame, List.length_append, List.length_append, List.length_append, length_frameHeader]
  omega

variable {config : JournalConfig} {kept kept' : Kept}

theorem Kept.Sound.next (h : kept.Sound config) :
    kept.journal.nextSequence = 1 + UInt64.ofNat kept.records.length := by
  obtain ⟨stored, hwrites, -, hnext⟩ := h.stored
  rw [hnext, after, hwrites.length_eq]

theorem Kept.Sound.snoc (h : kept.Sound config) {kind encoded : Bytes} {payload : Json}
    (hcheck : checkAppend kept.journal kept.file kind payload = .ok encoded) :
    ∃ stored, List.Forall₂ (Writes config)
        (kept.records ++ [⟨kept.journal.nextSequence, kind, payload⟩]) stored ∧
      kept.file ++ frame config.synchronize kept.journal.nextSequence kind encoded =
        kFileMagic ++ frames 1 stored ∧
      kept.journal.nextSequence + 1 = after 1 stored ∧
      Numbered 1 (kept.records ++ [⟨kept.journal.nextSequence, kind, payload⟩]) := by
  obtain ⟨stored, hwrites, hfile, hnext⟩ := h.stored
  obtain ⟨hnew, -⟩ := checkAppend_eq_ok hcheck
  rw [h.same] at hnew
  refine ⟨stored ++ [⟨config.synchronize, kind, encoded⟩], ?_, ?_, ?_, ?_⟩
  · exact List.rel_append hwrites (.cons hnew .nil)
  · rw [hfile, frames_append, ← hnext, List.append_assoc, frames, frames, List.append_nil]
    rfl
  · rw [after_append, ← hnext]
    rfl
  · exact numbered_append.mpr ⟨h.numbered, h.next, trivial⟩

theorem append_of_check {journal : Journal} {file kind encoded : Bytes} {payload : Json}
    (h : checkAppend journal file kind payload = .ok encoded) :
    append journal file kind payload .succeeds =
      (.ok journal.nextSequence, journal.appended kind payload,
        file ++ frame journal.config.synchronize journal.nextSequence kind encoded) := by
  rw [append, h]

theorem append_of_refused {journal : Journal} {file kind : Bytes} {payload : Json} {e : Error}
    (h : checkAppend journal file kind payload = .error e) (write : Write) :
    append journal file kind payload write = (.error e, journal, file) := by
  rw [append, h]

/-- **An append keeps a store sound.** -/
theorem Kept.Sound.append (h : kept.Sound config) (hvalid : config.Valid) (kind : Bytes)
    {payload : Json} (hpayload : Readable payload) :
    ∃ kept', kept.step config (.append kind payload) = .ok kept' ∧ kept'.Sound config := by
  cases hcheck : checkAppend kept.journal kept.file kind payload with
  | error e =>
    refine ⟨kept, ?_, h⟩
    rw [Kept.step, append_of_refused hcheck]
  | ok encoded =>
    obtain ⟨stored, hwrites, hfile, hnext, hnumbered⟩ := h.snoc hcheck
    have hsize := (checkAppend_eq_ok hcheck).2
    rw [h.same] at hsize
    refine ⟨⟨kept.journal.appended kind payload,
      kept.file ++ frame kept.journal.config.synchronize kept.journal.nextSequence kind encoded,
      kept.records ++ [⟨kept.journal.nextSequence, kind, payload⟩], kept.removed⟩,
      by rw [Kept.step, append_of_check hcheck], ?_⟩
    have hsame : Same ⟨kept.journal.nextSequence, kind, payload⟩
        ⟨kept.journal.nextSequence, kind, payload⟩ := ⟨rfl, rfl, hpayload.finite.eqv_self⟩
    have hwindow : List.Forall₂ Same
        ((kept.records ++ [(⟨kept.journal.nextSequence, kind, payload⟩ : JournalRecord)]).rtake
          config.recentRecordLimit)
        (kept.journal.appended kind payload).recent := by
      rw [← remember_rtake hvalid.recent]
      show List.Forall₂ Same _ (remember kept.journal.config.recentRecordLimit _ _)
      rw [h.same]
      exact remember_forall₂ h.window hsame
    refine ⟨h.same, ?_, ⟨stored, hwrites, ?_, hnext⟩, hnumbered, ?_, hwindow, h.removed⟩
    · show (kept.file ++ frame kept.journal.config.synchronize _ kind encoded).length ≤ _
      rw [h.same]
      exact hsize
    · show kept.file ++ frame kept.journal.config.synchronize _ kind encoded = _
      rw [h.same]
      exact hfile
    · exact List.forall_mem_append.mpr ⟨h.readable, List.forall_mem_singleton.mpr hpayload⟩

theorem window_reread {records : List JournalRecord} (h : ∀ r ∈ records, Readable r.payload)
    (limit : Nat) :
    List.Forall₂ Same (records.rtake limit) ((records.map JournalRecord.reread).rtake limit) := by
  have hmap : (records.map JournalRecord.reread).rtake limit =
      (records.rtake limit).map JournalRecord.reread := by
    rw [List.rtake, List.rtake, List.length_map, List.map_drop]
  rw [hmap, List.forall₂_map_right_iff, List.forall₂_same]
  intro r hr
  have hmem : r ∈ records := List.mem_of_mem_drop hr
  exact ⟨rfl, rfl, Json.eqv_reread_iff.mpr (h r hmem).finite⟩

/-- **A start keeps a store sound**, whatever a crash has left of one frame. -/
theorem Kept.Sound.reopened (hvalid : config.Valid) {records : List JournalRecord}
    {stored : List Stored} (hwrites : List.Forall₂ (Writes config) records stored)
    (hnumbered : Numbered 1 records) (hreadable : ∀ r ∈ records, Readable r.payload) {tail : Bytes}
    (htail : tail = [] ∨ readFrame config (after 1 stored) tail = .ok .torn)
    (hsize : (kFileMagic ++ (frames 1 stored ++ tail)).length ≤ config.maximumFileBytes) :
    ∃ journal, openJournal config (.file (kFileMagic ++ (frames 1 stored ++ tail))) =
        (.ok journal, .file (kFileMagic ++ frames 1 stored)) ∧
      Kept.Sound config ⟨journal, kFileMagic ++ frames 1 stored, records, tail.length⟩ := by
  have hrecorded : List.Forall₂ (Recorded config) (records.map JournalRecord.reread) stored := by
    rw [List.forall₂_map_left_iff]
    exact ((List.forall₂_and_left _ _).mpr ⟨hreadable, hwrites⟩).imp fun r s h =>
      h.2.recorded hvalid h.1.toDumpable h.1.depth
  have hopen := reopen_recorded hvalid hrecorded hnumbered.reread htail hsize
  refine ⟨_, hopen, rfl, ?_, ⟨stored, hwrites, rfl, rfl⟩, hnumbered, hreadable,
    window_reread hreadable _, rfl⟩
  simp only [List.length_append] at hsize ⊢
  omega

theorem Kept.step_crash (kind : Bytes) (payload : Json) (written : Nat) {journal : Journal}
    {file : Bytes}
    (h : openJournal config
        (.file (kept.file ++ (appendFrame kept.journal kept.file kind payload).take written)) =
      (.ok journal, .file file)) :
    kept.step config (.crash kind payload written) = .ok {
      journal := journal
      file := file
      records := kept.records ++
        if appendFrame kept.journal kept.file kind payload ≠ [] ∧
            (appendFrame kept.journal kept.file kind payload).length ≤ written then
          [⟨kept.journal.nextSequence, kind, payload⟩] else []
      removed :=
        if (appendFrame kept.journal kept.file kind payload).length ≤ written then 0 else written } := by
  simp only [Kept.step, h]
  rfl

/-- **A crash in the middle of an append, and the start after it, keep a store sound.** -/
theorem Kept.Sound.crash (h : kept.Sound config) (hvalid : config.Valid) {kind : Bytes}
    {payload : Json} (hpayload : Readable payload) (written : Nat) :
    ∃ kept', kept.step config (.crash kind payload written) = .ok kept' ∧ kept'.Sound config := by
  obtain ⟨stored, hwrites, hfile, hnext⟩ := h.stored
  -- Where nothing is left of a frame, the store starts as it was.
  have hplain : ∀ {tail : Bytes}, tail = [] ∨ readFrame config (after 1 stored) tail = .ok .torn →
      (kept.file ++ tail).length ≤ config.maximumFileBytes →
      ∃ journal, openJournal config (.file (kept.file ++ tail)) = (.ok journal, .file kept.file) ∧
        Kept.Sound config ⟨journal, kept.file, kept.records, tail.length⟩ := by
    intro tail htail hsize
    rw [hfile, List.append_assoc] at hsize ⊢
    exact Kept.Sound.reopened hvalid hwrites h.numbered h.readable htail hsize
  cases hcheck : checkAppend kept.journal kept.file kind payload with
  | error e =>
    have hnone : appendFrame kept.journal kept.file kind payload = [] := by
      rw [appendFrame, hcheck]
    obtain ⟨journal, hopen, hsound⟩ := hplain (.inl rfl) (by rw [List.append_nil]; exact h.size)
    have hstep := Kept.step_crash kind payload written
      (by rw [hnone, List.take_nil]; exact hopen)
    refine ⟨_, hstep, ?_⟩
    rw [hnone, if_neg (fun hc => hc.1 rfl), List.append_nil,
      if_pos (show ([] : Bytes).length ≤ written from Nat.zero_le written)]
    exact hsound
  | ok encoded =>
    have hframe : appendFrame kept.journal kept.file kind payload =
        frame config.synchronize kept.journal.nextSequence kind encoded := by
      rw [appendFrame, hcheck, h.same]
    obtain ⟨hnew, hsize⟩ := checkAppend_eq_ok hcheck
    rw [h.same] at hnew hsize
    by_cases hcomplete : (appendFrame kept.journal kept.file kind payload).length ≤ written
    · -- The whole frame has been written: the record is there.
      obtain ⟨stored', hwrites', hfile', -, hnumbered⟩ := h.snoc hcheck
      have hsize' : (kFileMagic ++ (frames 1 stored' ++ [])).length ≤ config.maximumFileBytes := by
        rw [List.append_nil, ← hfile']
        exact hsize
      obtain ⟨journal, hopen, hsound⟩ := Kept.Sound.reopened hvalid hwrites' hnumbered
        (List.forall_mem_append.mpr ⟨h.readable, List.forall_mem_singleton.mpr hpayload⟩)
        (.inl rfl) hsize'
      have hwhole : kept.file ++ (appendFrame kept.journal kept.file kind payload).take written =
          kFileMagic ++ (frames 1 stored' ++ []) := by
        rw [List.take_of_length_le hcomplete, hframe, hfile', List.append_nil]
      have hnonempty : appendFrame kept.journal kept.file kind payload ≠ [] := by
        rw [hframe, frame]
        intro hnil
        have hlength := congrArg List.length hnil
        simp [kFrameHeaderSize] at hlength
      have hstep := Kept.step_crash kind payload written
        (by rw [hwhole]; exact hopen)
      refine ⟨_, hstep, ?_⟩
      rw [if_pos ⟨hnonempty, hcomplete⟩, if_pos hcomplete]
      exact hsound
    · -- A part of the frame: a torn tail, or nothing.
      have hlength : ((appendFrame kept.journal kept.file kind payload).take written).length =
          written := by
        rw [List.length_take]
        omega
      have htail : (appendFrame kept.journal kept.file kind payload).take written = [] ∨
          readFrame config (after 1 stored)
            ((appendFrame kept.journal kept.file kind payload).take written) = .ok .torn := by
        by_cases hzero : written = 0
        · left
          rw [hzero, List.take_zero]
        · right
          rw [hframe] at hcomplete ⊢
          have htorn := readFrame_torn hnew hvalid (Nat.pos_of_ne_zero hzero)
            (Nat.lt_of_not_le hcomplete)
          rw [← hnext]
          exact htorn
      have hfits : (kept.file ++ (appendFrame kept.journal kept.file kind payload).take written).length
          ≤ config.maximumFileBytes := by
        rw [hframe] at hcomplete hlength ⊢
        rw [List.length_append] at hsize ⊢
        omega
      obtain ⟨journal, hopen, hsound⟩ := hplain htail hfits
      refine ⟨_, Kept.step_crash kind payload written hopen, ?_⟩
      rw [if_neg (fun hc => hcomplete hc.2), if_neg hcomplete, List.append_nil]
      rw [hlength] at hsound
      exact hsound

/-- **A store stays sound through anything that happens to it.** -/
theorem Kept.Sound.run (h : kept.Sound config) (hvalid : config.Valid) {events : List Event}
    (hevents : ∀ event ∈ events, Readable event.payload) :
    ∃ kept', events.foldlM (Kept.step config) kept = .ok kept' ∧ kept'.Sound config := by
  induction events generalizing kept with
  | nil => exact ⟨kept, rfl, h⟩
  | cons event events ih =>
    rw [List.forall_mem_cons] at hevents
    have hstep : ∃ kept₁, kept.step config event = .ok kept₁ ∧ kept₁.Sound config := by
      cases event with
      | append kind payload => exact h.append hvalid kind hevents.1
      | crash kind payload written => exact h.crash hvalid hevents.1 written
    obtain ⟨kept₁, hkept₁, hsound₁⟩ := hstep
    obtain ⟨kept₂, hkept₂, hsound₂⟩ := ih hsound₁ hevents.2
    exact ⟨kept₂, by rw [List.foldlM_cons, hkept₁]; exact hkept₂, hsound₂⟩

omit [Platform] in
theorem openJournal_absent (hvalid : config.Valid) :
    openJournal config .absent = (.ok ⟨config, 1, 0, []⟩, .file kFileMagic) := by
  have hsize : (kFileMagic ++ []).length ≤ config.maximumFileBytes := by
    have hfile := hvalid.file
    rw [List.append_nil]
    omega
  have hscan : scanFile config (kFileMagic ++ []) = .ok ⟨kFileMagic.length, 1, [], false⟩ := by
    rw [scanFile_magic hsize]
    rfl
  have hreplay := replay_of_scan hscan
  rw [openJournal, if_pos hvalid]
  exact hreplay

theorem newStore_sound (hvalid : config.Valid) :
    Kept.Sound config ⟨⟨config, 1, 0, []⟩, kFileMagic, [], 0⟩ := by
  have hsize : kFileMagic.length ≤ config.maximumFileBytes := by
    have hfile := hvalid.file
    omega
  refine ⟨rfl, hsize, ⟨[], .nil, rfl, rfl⟩, trivial, List.forall_mem_nil _, ?_, rfl⟩
  rw [List.rtake_nil]
  exact .nil

/-- **Recovery is exact.** Whatever appends and crashes a store goes through, every start succeeds, the
file is the magic and the whole frames of the records that were acknowledged or completed, numbered from
one, the window holds the last of them, and a start has removed what a crash had left of a frame. -/
theorem crash_recovery {config : JournalConfig} (hvalid : config.Valid) {events : List Event}
    (hevents : ∀ event ∈ events, Readable event.payload) :
    ∃ kept, keptAfter config events = .ok kept ∧
      (∃ stored, List.Forall₂ (Writes config) kept.records stored ∧
        kept.file = kFileMagic ++ frames 1 stored) ∧
      kept.records.map (·.sequence) =
        (List.range kept.records.length).map (fun i => UInt64.ofNat (i + 1)) ∧
      kept.journal.nextSequence = UInt64.ofNat (kept.records.length + 1) ∧
      List.Forall₂ Same (kept.records.rtake config.recentRecordLimit) kept.journal.recent ∧
      kept.journal.recoveredTailBytes = kept.removed := by
  obtain ⟨kept, hrun, hsound⟩ := (newStore_sound hvalid).run hvalid hevents
  have hsucc : ∀ i, (1 : UInt64) + UInt64.ofNat i = UInt64.ofNat (i + 1) := by
    intro i
    rw [UInt64.ofNat_add, UInt64.add_comm]
    rfl
  refine ⟨kept, ?_, ?_, ?_, ?_, hsound.window, hsound.removed⟩
  · rw [keptAfter, openJournal_absent hvalid]
    exact hrun
  · obtain ⟨stored, hwrites, hfile, -⟩ := hsound.stored
    exact ⟨stored, hwrites, hfile⟩
  · rw [hsound.numbered.sequences]
    exact List.map_congr_left fun i _ => hsucc i
  · rw [hsound.next, hsucc]

end Crashes

/-! A record, a crash in the middle of the next, and one more. -/

section Sample

local instance recoveryPlatform : Platform := samplePlatform

theorem readable_empty : Readable (.obj []) :=
  ⟨⟨.obj List.Pairwise.nil (List.forall_mem_nil _), fun x hx => (by cases hx)⟩,
    fun x hx => (by cases hx), by decide⟩

def sampleEvents : List Event :=
  [.append "service_start" (.obj []), .crash "model_selected" (.obj []) 40,
    .append "model_selected" (.obj [])]

theorem crash_recovery_sample : ∃ kept, keptAfter sampleConfig sampleEvents = .ok kept ∧
    (∃ stored, List.Forall₂ (Writes sampleConfig) kept.records stored ∧
      kept.file = kFileMagic ++ frames 1 stored) ∧
    kept.records.map (·.sequence) =
      (List.range kept.records.length).map (fun i => UInt64.ofNat (i + 1)) ∧
    kept.journal.nextSequence = UInt64.ofNat (kept.records.length + 1) ∧
    List.Forall₂ Same (kept.records.rtake sampleConfig.recentRecordLimit) kept.journal.recent ∧
    kept.journal.recoveredTailBytes = kept.removed := by
  apply crash_recovery (show sampleConfig.Valid by decide)
  intro event hevent
  simp only [sampleEvents, List.mem_cons, List.not_mem_nil, or_false] at hevent
  rcases hevent with rfl | rfl | rfl
  · exact readable_empty
  · exact readable_empty
  · exact readable_empty

end Sample

end ContextHmi.Storage
