import ContextHmi.Engine.Model
import ContextHmi.Json.Serialize
import ContextHmi.Storage.Frame

/-!
# The operational journal

Opening a journal scans the file frame by frame and cuts off an incomplete tail; `append` writes one
frame behind the last. The disk may report an error after any part of a frame.

* `Running.framed`   : a running journal's file is its magic and whole frames, numbered from one;
* `scan_of_damaged`  : a scan that meets a frame it refuses throws;
* `damage_detected`  : a body altered within four consecutive bytes is refused at opening.
-/

namespace ContextHmi.Storage

open Outcome

/-! ### Opening -/

structure Journal where
  config : JournalConfig
  nextSequence : UInt64
  recoveredTailBytes : Nat
  recent : List JournalRecord

/-- What stands at the configured path. -/
inductive Entry where
  | absent
  | file (contents : Bytes)
  | symlink
  /-- A directory, a device. -/
  | other
  /-- No parent directory. -/
  | orphan

/-- The window of the last records. -/
def remember (limit : Nat) (recent : List JournalRecord) (r : JournalRecord) : List JournalRecord :=
  (if limit ≤ recent.length then recent.drop 1 else recent) ++ [r]

/-- Where a scan ended. -/
structure Scan where
  lastComplete : Nat
  expected : UInt64
  recent : List JournalRecord
  torn : Bool

/-- A complete frame's turn. -/
def Scan.advance (config : JournalConfig) (state : Scan) (r : JournalRecord) (size : Nat) : Scan :=
  { state with
    lastComplete := state.lastComplete + size
    expected := state.expected + 1
    recent := remember config.recentRecordLimit state.recent r }

/-- The loop of `open_and_recover`; `fuel` bounds the number of frames. -/
def scan (config : JournalConfig) : Nat → Scan → Bytes → Result Scan
  | 0, state, _ => .ok state
  | fuel + 1, state, input => do
    match ← readFrame config state.expected input with
    | .nothing => return state
    | .torn => return { state with torn := true }
    | .record r size rest => scan config fuel (state.advance config r size) rest

def scanFile (config : JournalConfig) (contents : Bytes) : Result Scan := do
  throwIf (config.maximumFileBytes < contents.length)
    (.runtime "operational store exceeds configured file limit")
  throwIf (contents.take kFileMagic.length ≠ kFileMagic)
    (.runtime "operational store header is invalid")
  scan config (contents.length + 1) ⟨kFileMagic.length, 1, [], false⟩
    (contents.drop kFileMagic.length)

/-- The rest of `open_and_recover` on a regular file: the journal, and the file without its tail. -/
def replay (config : JournalConfig) (contents : Bytes) : Result Journal × Entry :=
  match scanFile config contents with
  | .error e => (.error e, .file contents)
  | .ok s =>
    if s.torn then
      (.ok ⟨config, s.expected, contents.length - s.lastComplete, s.recent⟩,
        .file (contents.take s.lastComplete))
    else (.ok ⟨config, s.expected, 0, s.recent⟩, .file contents)

def openAndRecover (config : JournalConfig) (entry : Entry) : Result Journal × Entry :=
  match entry with
  | .symlink => (.error (.runtime "operational store must not be a symbolic link"), entry)
  | .other => (.error (.runtime "operational store path is not a regular file"), entry)
  | .orphan => (.error (.runtime "operational store parent directory does not exist"), entry)
  | .file [] => (.error (.runtime "operational store header is invalid"), entry)
  | .file contents => replay config contents
  | .absent => replay config kFileMagic

def kMaximumConfiguredPayloadBytes : Nat := 256 * 1024 * 1024

/-- What the constructor asks of a configuration. -/
structure JournalConfig.Valid (config : JournalConfig) : Prop where
  payload : config.maximumPayloadBytes ≠ 0
  payloadMax : config.maximumPayloadBytes ≤ kMaximumConfiguredPayloadBytes
  file : kFileMagic.length + kFrameHeaderSize ≤ config.maximumFileBytes
  recent : config.recentRecordLimit ≠ 0

instance JournalConfig.instDecidableValid (config : JournalConfig) : Decidable config.Valid :=
  decidable_of_iff (config.maximumPayloadBytes ≠ 0 ∧
      config.maximumPayloadBytes ≤ kMaximumConfiguredPayloadBytes ∧
      kFileMagic.length + kFrameHeaderSize ≤ config.maximumFileBytes ∧
      config.recentRecordLimit ≠ 0)
    ⟨fun h => ⟨h.1, h.2.1, h.2.2.1, h.2.2.2⟩, fun h => ⟨h.payload, h.payloadMax, h.file, h.recent⟩⟩

/-- `Journal::Journal`. -/
def openJournal (config : JournalConfig) (entry : Entry) : Result Journal × Entry :=
  if config.Valid then openAndRecover config entry
  else (.error (.runtime "operational store configuration is invalid"), entry)

/-! ### Appending -/

section Append
variable [Platform]

/-- What `append` checks before it writes, and the text it writes. -/
def checkAppend (journal : Journal) (file : Bytes) (kind : Bytes) (payload : Json) : Result Bytes := do
  throwIf (validKind kind = false) (.runtime "operational record kind is invalid")
  let encoded ← payload.dump
  throwIf (journal.config.maximumPayloadBytes < encoded.length)
    (.runtime "operational record exceeds payload limit")
  let frameSize := kFrameHeaderSize + kind.length + encoded.length
  throwIf (journal.config.maximumFileBytes < file.length ∨
      journal.config.maximumFileBytes - file.length < frameSize)
    (.runtime "operational store file limit reached")
  return encoded

/-- What becomes of a write: an error may be reported after any part of it. -/
inductive Write where
  | succeeds
  | fails (written : Nat) (e : Error)

def Journal.appended (journal : Journal) (kind : Bytes) (payload : Json) : Journal :=
  { journal with
    nextSequence := journal.nextSequence + 1
    recent := remember journal.config.recentRecordLimit journal.recent
      ⟨journal.nextSequence, kind, payload⟩ }

/-- `Journal::append`: what it returns, the journal and the file after it. -/
def append (journal : Journal) (file : Bytes) (kind : Bytes) (payload : Json) (write : Write) :
    Result UInt64 × Journal × Bytes :=
  match checkAppend journal file kind payload with
  | .error e => (.error e, journal, file)
  | .ok encoded =>
    let bytes := frame journal.config.synchronize journal.nextSequence kind encoded
    match write with
    | .fails written e => (.error e, journal, file ++ bytes.take written)
    | .succeeds => (.ok journal.nextSequence, journal.appended kind payload, file ++ bytes)

end Append

/-! ### Frames in a row -/

/-- The frames of some records, numbered from `sequence`. -/
def frames (sequence : UInt64) : List Stored → Bytes
  | [] => []
  | s :: rest => s.frame sequence ++ frames (sequence + 1) rest

/-- The number after some records. -/
def after (sequence : UInt64) (records : List Stored) : UInt64 :=
  sequence + UInt64.ofNat records.length

@[simp] theorem after_nil (sequence : UInt64) : after sequence [] = sequence :=
  UInt64.add_zero sequence

theorem after_cons (sequence : UInt64) (s : Stored) (records : List Stored) :
    after sequence (s :: records) = after (sequence + 1) records := by
  rw [after, after, List.length_cons, UInt64.ofNat_add,
    UInt64.add_comm (UInt64.ofNat records.length), ← UInt64.add_assoc]
  rfl

theorem frames_append (sequence : UInt64) (records records' : List Stored) :
    frames sequence (records ++ records') =
      frames sequence records ++ frames (after sequence records) records' := by
  induction records generalizing sequence with
  | nil =>
    rw [List.nil_append, after_nil]
    rfl
  | cons s records ih => rw [List.cons_append, frames, ih, frames, List.append_assoc, after_cons]

theorem after_append (sequence : UInt64) (records records' : List Stored) :
    after sequence (records ++ records') = after (after sequence records) records' := by
  rw [after, after, after, List.length_append, UInt64.ofNat_add, UInt64.add_assoc]

/-! ### The scan -/

section Scan
variable {config : JournalConfig}

theorem rest_lt {expected : UInt64} {input rest : Bytes} {r : JournalRecord} {size : Nat}
    (h : readFrame config expected input = .ok (.record r size rest)) : rest.length < input.length := by
  obtain ⟨s, -, hinput, -⟩ := frame_of_readFrame h
  rw [hinput, List.length_append, s.length_frame, Stored.size, kFrameHeaderSize]
  omega

theorem scan_frames {fuel : Nat} {state t : Scan} {input : Bytes} (hfuel : input.length < fuel)
    (hstate : state.torn = false) (h : scan config fuel state input = .ok t) :
    ∃ records tail, (∀ s ∈ records, s.Fits ∧ s.payload.length ≤ config.maximumPayloadBytes) ∧
      input = frames state.expected records ++ tail ∧ t.expected = after state.expected records ∧
      t.lastComplete = state.lastComplete + (frames state.expected records).length ∧
      (t.torn = false → tail = []) := by
  induction fuel generalizing state input with
  | zero => omega
  | succ fuel ih =>
    rw [scan, bind_eq_ok] at h
    obtain ⟨scanned, hread, h⟩ := h
    have hsame : state.expected = after state.expected [] := (after_nil _).symm
    cases scanned with
    | nothing =>
      obtain rfl := pure_eq_ok.mp h
      exact ⟨[], [], List.forall_mem_nil _, eq_nil_of_readFrame hread, hsame, rfl, fun _ => rfl⟩
    | torn =>
      obtain rfl := pure_eq_ok.mp h
      exact ⟨[], input, List.forall_mem_nil _, rfl, hsame, rfl, fun h => nomatch h⟩
    | record r size rest =>
      have hlt := rest_lt hread
      obtain ⟨s, hs, rfl, rfl, hpayload, -⟩ := frame_of_readFrame hread
      obtain ⟨records, tail, hfit, hrest, hexpected, hlast, htail⟩ := ih (by omega)
        (show (state.advance config r s.size).torn = false from hstate) h
      dsimp only [Scan.advance] at hrest hexpected hlast
      refine ⟨s :: records, tail, List.forall_mem_cons.mpr ⟨⟨hs, hpayload⟩, hfit⟩, ?_, ?_, ?_, htail⟩
      · rw [hrest, frames, List.append_assoc]
      · rw [hexpected, after_cons]
      · rw [hlast, frames, List.length_append, s.length_frame, Nat.add_assoc]

/-- **A scan that meets a frame it refuses throws**, whatever it thought of those before. -/
theorem scan_of_damaged {fuel : Nat} {records : List Stored} (hrecords : ∀ s ∈ records, s.Fits)
    (state : Scan) {damaged : Bytes}
    (hdamaged : ∃ e, readFrame config (after state.expected records) damaged = .error e)
    (hfuel : (frames state.expected records ++ damaged).length < fuel) :
    ∃ e, scan config fuel state (frames state.expected records ++ damaged) = .error e := by
  induction records generalizing fuel state with
  | nil =>
    obtain ⟨e, he⟩ := hdamaged
    rw [after_nil] at he
    cases fuel with
    | zero => omega
    | succ fuel =>
      refine ⟨e, ?_⟩
      show scan config (fuel + 1) state damaged = .error e
      rw [scan, he]
      rfl
  | cons s records ih =>
    rw [List.forall_mem_cons] at hrecords
    cases fuel with
    | zero => omega
    | succ fuel =>
      rw [frames, List.append_assoc] at hfuel ⊢
      rw [scan, readFrame_frame hrecords.1]
      by_cases hlarge : config.maximumPayloadBytes < s.payload.length
      · exact ⟨_, by rw [throwIf_of _ hlarge]; rfl⟩
      rw [throwIf_of_not _ hlarge]
      cases hparse : parsePayload s.payload with
      | error e => exact ⟨e, rfl⟩
      | ok j =>
        rw [List.length_append, s.length_frame, Stored.size, kFrameHeaderSize] at hfuel
        rw [after_cons] at hdamaged
        exact ih hrecords.2 (state.advance config _ s.size) hdamaged
          (by dsimp only [Scan.advance]; omega)

end Scan

/-! ### Files -/

/-- A file of whole frames, numbered from one, as a writer with this configuration makes them. -/
structure Framed (config : JournalConfig) (next : UInt64) (file : Bytes) : Prop where
  frames : ∃ records, (∀ s ∈ records, s.Fits ∧ s.payload.length ≤ config.maximumPayloadBytes) ∧
    file = kFileMagic ++ frames 1 records ∧ next = after 1 records

theorem replay_framed {config : JournalConfig} {contents file : Bytes} {journal : Journal}
    (h : replay config contents = (.ok journal, .file file)) :
    Framed config journal.nextSequence file ∧ journal.config = config := by
  unfold replay at h
  cases hscan : scanFile config contents with
  | error e =>
    rw [hscan] at h
    cases (Prod.mk.inj h).1
  | ok t =>
    rw [hscan] at h
    simp only [scanFile, bind_eq_ok, throwIf_eq_ok, not_not] at hscan
    obtain ⟨-, -, -, hmagic, hscan⟩ := hscan
    have hfuel : (contents.drop kFileMagic.length).length < contents.length + 1 := by
      rw [List.length_drop]
      omega
    obtain ⟨records, tail, hfit, hinput, hexpected, hlast, htail⟩ := scan_frames hfuel rfl hscan
    dsimp only at hinput hexpected hlast
    have hcontents : contents = kFileMagic ++ frames 1 records ++ tail := by
      rw [List.append_assoc, ← hinput]
      nth_rewrite 1 [← hmagic]
      exact (List.take_append_drop _ _).symm
    dsimp only at h
    split_ifs at h with htorn
    · obtain ⟨hjournal, hfile⟩ := Prod.mk.inj h
      obtain rfl := Except.ok.inj hjournal
      obtain rfl := Entry.file.inj hfile
      refine ⟨⟨records, hfit, ?_, hexpected⟩, rfl⟩
      rw [hlast, hcontents, ← List.length_append]
      exact List.take_left' rfl
    · obtain ⟨hjournal, hfile⟩ := Prod.mk.inj h
      obtain rfl := Except.ok.inj hjournal
      obtain rfl := Entry.file.inj hfile
      refine ⟨⟨records, hfit, ?_, hexpected⟩, rfl⟩
      rw [hcontents, htail (Bool.not_eq_true _ ▸ htorn), List.append_nil]

theorem openJournal_framed {config : JournalConfig} {entry : Entry} {journal : Journal} {file : Bytes}
    (h : openJournal config entry = (.ok journal, .file file)) :
    config.Valid ∧ Framed config journal.nextSequence file ∧ journal.config = config := by
  unfold openJournal at h
  split_ifs at h with hvalid
  case neg => cases (Prod.mk.inj h).1
  refine ⟨hvalid, ?_⟩
  unfold openAndRecover at h
  split at h
  · cases (Prod.mk.inj h).1
  · cases (Prod.mk.inj h).1
  · cases (Prod.mk.inj h).1
  · cases (Prod.mk.inj h).1
  · exact replay_framed h
  · exact replay_framed h

theorem openJournal_of_damaged {config config' : JournalConfig} {next : UInt64}
    {file damaged : Bytes} (hfile : Framed config next file)
    (hdamaged : ∃ e, readFrame config' next damaged = .error e) :
    ∃ e, openJournal config' (.file (file ++ damaged)) = (.error e, .file (file ++ damaged)) := by
  obtain ⟨records, hfit, rfl, rfl⟩ := hfile
  have hmagic : (kFileMagic ++ frames 1 records ++ damaged).take kFileMagic.length = kFileMagic := by
    rw [List.append_assoc]
    exact List.take_left' rfl
  have hdrop : (kFileMagic ++ frames 1 records ++ damaged).drop kFileMagic.length =
      frames 1 records ++ damaged := by
    rw [List.append_assoc]
    exact List.drop_left' rfl
  have hscan : ∃ e, scanFile config' (kFileMagic ++ frames 1 records ++ damaged) = .error e := by
    rw [scanFile, hmagic, hdrop]
    by_cases hlarge : config'.maximumFileBytes < (kFileMagic ++ frames 1 records ++ damaged).length
    · exact ⟨_, by rw [throwIf_of _ hlarge]; rfl⟩
    rw [throwIf_of_not _ hlarge, throwIf_of_not _ (not_not.mpr rfl)]
    refine scan_of_damaged (fun s hs => (hfit s hs).1)
      ⟨kFileMagic.length, 1, [], false⟩ hdamaged ?_
    simp only [List.length_append]
    omega
  obtain ⟨e, he⟩ := hscan
  unfold openJournal
  by_cases hvalid : config'.Valid
  · refine ⟨e, ?_⟩
    rw [if_pos hvalid]
    have hnonempty : kFileMagic ++ frames 1 records ++ damaged =
        0x43 :: (kFileMagic.drop 1 ++ frames 1 records ++ damaged) := rfl
    have hopen : openAndRecover config' (.file (kFileMagic ++ frames 1 records ++ damaged)) =
        replay config' (kFileMagic ++ frames 1 records ++ damaged) := by
      rw [hnonempty]
      rfl
    rw [hopen, replay, he]
  · exact ⟨_, by rw [if_neg hvalid]⟩

/-! ### Runs -/

section Runs
variable [Platform]

/-- A journal that is open on a file, after any number of appends. -/
inductive Running (config : JournalConfig) : Journal → Bytes → Prop where
  | opened {entry : Entry} {journal : Journal} {file : Bytes} :
      openJournal config entry = (.ok journal, .file file) → Running config journal file
  | appended {journal journal' : Journal} {file file' kind : Bytes} {payload : Json}
      {sequence : UInt64} : Running config journal file →
      append journal file kind payload .succeeds = (.ok sequence, journal', file') →
      Running config journal' file'

theorem append_eq_ok {journal journal' : Journal} {file file' kind : Bytes} {payload : Json}
    {sequence : UInt64}
    (h : append journal file kind payload .succeeds = (.ok sequence, journal', file')) :
    ∃ encoded, payload.dump = .ok encoded ∧ validKind kind = true ∧
      encoded.length ≤ journal.config.maximumPayloadBytes ∧
      (frame journal.config.synchronize sequence kind encoded).length + file.length ≤
        journal.config.maximumFileBytes ∧
      sequence = journal.nextSequence ∧ journal' = journal.appended kind payload ∧
      file' = file ++ frame journal.config.synchronize sequence kind encoded := by
  unfold append at h
  cases hcheck : checkAppend journal file kind payload with
  | error e =>
    rw [hcheck] at h
    cases (Prod.mk.inj h).1
  | ok encoded =>
    rw [hcheck] at h
    simp only [checkAppend, bind_eq_ok, pure_eq_ok, throwIf_eq_ok, Bool.not_eq_false, not_lt,
      not_or] at hcheck
    obtain ⟨-, hkind, _, hdump, -, hpayload, -, ⟨hfile, hfits⟩, rfl⟩ := hcheck
    obtain ⟨hsequence, hrest⟩ := Prod.mk.inj h
    obtain ⟨rfl, rfl⟩ := Prod.mk.inj hrest
    obtain rfl := Except.ok.inj hsequence
    refine ⟨_, hdump, hkind, hpayload, ?_, rfl, rfl, rfl⟩
    rw [frame, List.length_append, List.length_append, length_frameHeader]
    omega

namespace Running
variable {config : JournalConfig} {journal : Journal} {file : Bytes}

/-- **A running journal's file is its magic and whole frames**, numbered from one. -/
theorem framed (h : Running config journal file) :
    config.Valid ∧ Framed config journal.nextSequence file ∧ journal.config = config := by
  induction h with
  | opened hopen => exact openJournal_framed hopen
  | @appended journal journal' file file' kind payload sequence _ happend ih =>
    obtain ⟨hvalid, ⟨records, hfit, hfile, hnext⟩, hconfig⟩ := ih
    obtain ⟨encoded, -, hkind, hpayload, -, rfl, rfl, rfl⟩ := append_eq_ok happend
    rw [hconfig] at hpayload ⊢
    refine ⟨hvalid, ⟨records ++ [⟨config.synchronize, kind, encoded⟩], ?_, ?_, ?_⟩, hconfig⟩
    · have hmax := hvalid.payloadMax
      unfold kMaximumConfiguredPayloadBytes at hmax
      rw [List.forall_mem_append, List.forall_mem_singleton]
      exact ⟨hfit, ⟨hkind, by dsimp only; omega⟩, hpayload⟩
    · rw [frames_append, ← hnext, hfile, List.append_assoc, frames, frames, List.append_nil]
      rfl
    · rw [after_append, ← hnext]
      rfl

end Running

/-! ### Damage -/

/-- **A body altered within four consecutive bytes is refused at opening.** -/
theorem damage_detected {config : JournalConfig} {journal journal' : Journal}
    {file file' kind : Bytes} {payload : Json} {sequence : UInt64} (hrun : Running config journal file)
    (happend : append journal file kind payload .succeeds = (.ok sequence, journal', file')) :
    ∃ encoded, payload.dump = .ok encoded ∧
      file' = file ++ (frameHeader config.synchronize sequence kind encoded ++ (kind ++ encoded)) ∧
      ∀ body, Altered (kind ++ encoded) body →
        (frameCrc sequence (body.take kind.length) (body.drop kind.length)).toNat ≠
          field (frameHeader config.synchronize sequence kind encoded) 24 4 ∧
        ∀ (config' : JournalConfig) (later : Bytes), ∃ e,
          openJournal config'
              (.file (file ++ (frameHeader config.synchronize sequence kind encoded ++ body ++ later))) =
            (.error e,
              .file (file ++ (frameHeader config.synchronize sequence kind encoded ++ body ++ later))) := by
  obtain ⟨hvalid, hframed, hconfig⟩ := hrun.framed
  obtain ⟨encoded, hdump, hkind, hpayload, -, rfl, -, rfl⟩ := append_eq_ok happend
  rw [hconfig] at hpayload ⊢
  refine ⟨encoded, hdump, by rw [frame, List.append_assoc], ?_⟩
  intro body haltered
  have hlength : body.length = kind.length + encoded.length := by
    obtain ⟨before, run, run', after, hbody, rfl, hsame, -⟩ := haltered.burst
    have hboth := congrArg List.length hbody
    simp only [List.length_append] at hboth ⊢
    omega
  have hsplit : body.take kind.length ++ body.drop kind.length = body := List.take_append_drop _ _
  have haltered' : Altered (kind ++ encoded) (body.take kind.length ++ body.drop kind.length) := by
    rwa [hsplit]
  refine ⟨?_, ?_⟩
  · rw [field_crc]
    intro h
    exact frameCrc_ne haltered' (BitVec.eq_of_toNat_eq h)
  · intro config' later
    have hfits : (⟨config.synchronize, kind, encoded⟩ : Stored).Fits := by
      have hmax := hvalid.payloadMax
      unfold kMaximumConfiguredPayloadBytes at hmax
      exact ⟨hkind, by dsimp only; omega⟩
    refine openJournal_of_damaged hframed ?_
    have hdamaged := @readFrame_of_damaged _ hfits config' journal.nextSequence
      (body.take kind.length) (body.drop kind.length)
      (by rw [List.length_take]; dsimp only; omega) (by rw [List.length_drop]; dsimp only; omega)
      haltered' later
    rwa [List.append_assoc (Stored.header _ _), hsplit] at hdamaged

end Runs

/-! A journal with one record, and a bit of its payload flipped. -/

local instance journalPlatform : Platform := samplePlatform

def sampleConfig : JournalConfig := ⟨65536, 67108864, 8, true⟩

def sampleJournal : Journal := ⟨sampleConfig, 1, 0, []⟩

theorem sampleJournal_running : Running sampleConfig sampleJournal kFileMagic :=
  .opened (show openJournal sampleConfig .absent = _ from rfl)

theorem damage_detected_sample :
    ∃ e, openJournal sampleConfig
        (.file (kFileMagic ++ (frameHeader true 1 "command_intent" "{}" ++
          (bytes "command_intent" ++ bytes "\x7by") ++ []))) =
      (.error e, .file (kFileMagic ++ (frameHeader true 1 "command_intent" "{}" ++
        (bytes "command_intent" ++ bytes "\x7by") ++ []))) := by
  have happend : append sampleJournal kFileMagic "command_intent" (.obj []) .succeeds =
      (.ok 1, sampleJournal.appended "command_intent" (.obj []),
        kFileMagic ++ frame true 1 "command_intent" "{}") := rfl
  obtain ⟨encoded, hdump, -, hdamage⟩ := damage_detected sampleJournal_running happend
  obtain rfl : bytes "{}" = encoded := Except.ok.inj hdump
  have haltered : Altered (bytes "command_intent" ++ bytes "{}") (bytes "command_intent" ++ bytes "\x7by") :=
    ⟨⟨bytes "command_intent" ++ bytes "\x7b", bytes "\x7d", bytes "y", [], by decide, by decide, rfl,
      by decide⟩, by decide⟩
  exact (hdamage _ haltered).2 sampleConfig []

end ContextHmi.Storage
