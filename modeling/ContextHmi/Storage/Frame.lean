import ContextHmi.Json.Parsing
import ContextHmi.Library.Crc
import ContextHmi.Library.Endian

/-!
# Journal frames

A record of the operational journal as it stands in the file: a header of 32 bytes, the kind, the text
of the payload. `readFrame` is one turn of the scan at opening, which tells a torn tail from damage.

* `readFrame_frame`      : a whole frame is read as the record it was written for;
* `frame_of_readFrame`   : what is read as a record is a whole frame;
* `readFrame_of_damaged` : a body that changed within four consecutive bytes is refused.
-/

namespace ContextHmi.Storage

open Outcome Endian

structure JournalConfig where
  maximumPayloadBytes : Nat
  maximumFileBytes : Nat
  recentRecordLimit : Nat
  synchronize : Bool

structure JournalRecord where
  sequence : UInt64
  kind : Bytes
  payload : Json

def kFileMagic : Bytes := "CHMIJNL1"

def kFrameMagic : Nat := 0x314d5246

def kFrameVersion : Nat := 1

def kFrameHeaderSize : Nat := 32

def kMaximumKindBytes : Nat := 64

def crc32cUpdate (crc : BitVec 32) (data : Bytes) : BitVec 32 := Crc.update 0x82f63b78#32 crc data

def frameCrc (sequence : UInt64) (kind payload : Bytes) : BitVec 32 :=
  let crc := crc32cUpdate 0xffffffff#32 (put 8 sequence.toNat)
  let crc := crc32cUpdate crc kind
  let crc := crc32cUpdate crc payload
  ~~~ crc

def validKind (kind : Bytes) : Bool :=
  !kind.isEmpty && kind.length ≤ kMaximumKindBytes &&
    kind.all fun c => Bytes.isLower c || Bytes.isDigit c || c == 0x5f || c == 0x2e || c == 0x2d

/-! ### Writing -/

/-- The header `append` puts together, field after field. -/
def frameHeader (synchronize : Bool) (sequence : UInt64) (kind payload : Bytes) : Bytes :=
  put 4 kFrameMagic ++ put 2 kFrameVersion ++ put 2 kind.length ++ put 4 payload.length ++
    put 4 (if synchronize then 1 else 0) ++ put 8 sequence.toNat ++
    put 4 (frameCrc sequence kind payload).toNat ++ put 4 0

def frame (synchronize : Bool) (sequence : UInt64) (kind payload : Bytes) : Bytes :=
  frameHeader synchronize sequence kind payload ++ kind ++ payload

/-! ### Reading -/

/-- `get_u16`, `get_u32`, `get_u64` at an offset of the header. -/
def field (header : Bytes) (offset size : Nat) : Nat := get ((header.drop offset).take size)

def parsePayload (payload : Bytes) : Result Json :=
  Json.parse (some ⟨32, .runtime "operational record exceeds JSON nesting limit"⟩) payload

/-- What stands at the front of the rest of a file. -/
inductive Scanned where
  | nothing
  | torn
  | record (r : JournalRecord) (size : Nat) (rest : Bytes)

/-- The header's fields are those of a frame. -/
def checkHeader (header : Bytes) : Result Unit :=
  throwIf (field header 0 4 ≠ kFrameMagic ∨ field header 4 2 ≠ kFrameVersion ∨
      (field header 12 4 ≠ 0 ∧ field header 12 4 ≠ 1) ∨ field header 28 4 ≠ 0)
    (.runtime "operational store frame header is corrupt")

def checkBounds (config : JournalConfig) (expected : UInt64) (header : Bytes) : Result Unit :=
  throwIf (field header 6 2 = 0 ∨ kMaximumKindBytes < field header 6 2 ∨
      config.maximumPayloadBytes < field header 8 4 ∨ field header 16 8 ≠ expected.toNat)
    (.runtime "operational store frame bounds or sequence are invalid")

def checkBody (expected : UInt64) (header kind payload : Bytes) : Result Unit :=
  throwIf (validKind kind = false ∨ (frameCrc expected kind payload).toNat ≠ field header 24 4)
    (.runtime "operational store frame checksum is invalid")

/-- One turn of the loop of `open_and_recover`. -/
def readFrame (config : JournalConfig) (expected : UInt64) (input : Bytes) : Result Scanned :=
  if input = [] then .ok .nothing
  else if input.length < kFrameHeaderSize then .ok .torn
  else do
    let header := input.take kFrameHeaderSize
    checkHeader header
    checkBounds config expected header
    let kindSize := field header 6 2
    let payloadSize := field header 8 4
    let body := input.drop kFrameHeaderSize
    let kind := body.take kindSize
    let payload := (body.drop kindSize).take payloadSize
    if kind.length ≠ kindSize ∨ payload.length ≠ payloadSize then return .torn
    checkBody expected header kind payload
    let j ← parsePayload payload
    return .record ⟨expected, kind, j⟩ (kFrameHeaderSize + kindSize + payloadSize)
      (body.drop (kindSize + payloadSize))

/-! ### Headers -/

section Header
variable (synchronize : Bool) (sequence : UInt64) (kind payload : Bytes)

@[simp] theorem length_frameHeader :
    (frameHeader synchronize sequence kind payload).length = kFrameHeaderSize := by
  simp [frameHeader, kFrameHeaderSize]

theorem validKind_length {kind : Bytes} (h : validKind kind = true) :
    kind.length ≠ 0 ∧ kind.length ≤ kMaximumKindBytes := by
  simp only [validKind, Bool.and_eq_true, Bool.not_eq_true', List.isEmpty_eq_false_iff,
    decide_eq_true_eq] at h
  obtain ⟨⟨hne, hle⟩, -⟩ := h
  exact ⟨fun h => hne (List.eq_nil_of_length_eq_zero h), hle⟩

theorem checkHeader_frameHeader :
    checkHeader (frameHeader synchronize sequence kind payload) = .ok () := by
  apply throwIf_of_not
  have hmagic : field (frameHeader synchronize sequence kind payload) 0 4 = kFrameMagic :=
    get_put (n := 4) (by decide)
  have hversion : field (frameHeader synchronize sequence kind payload) 4 2 = kFrameVersion :=
    get_put (n := 2) (by decide)
  have hflags : field (frameHeader synchronize sequence kind payload) 12 4 =
      if synchronize then 1 else 0 := by
    apply get_put (n := 4)
    cases synchronize <;> decide
  have hreserved : field (frameHeader synchronize sequence kind payload) 28 4 = 0 :=
    get_put (n := 4) (by decide)
  rw [hmagic, hversion, hflags, hreserved]
  cases synchronize <;> simp

theorem field_kind {kind : Bytes} (h : kind.length ≤ kMaximumKindBytes) :
    field (frameHeader synchronize sequence kind payload) 6 2 = kind.length := by
  apply get_put (n := 2)
  unfold kMaximumKindBytes at h
  omega

theorem field_payload {payload : Bytes} (h : payload.length < 2 ^ 32) :
    field (frameHeader synchronize sequence kind payload) 8 4 = payload.length :=
  get_put (n := 4) h

theorem field_sequence :
    field (frameHeader synchronize sequence kind payload) 16 8 = sequence.toNat :=
  get_put (n := 8) sequence.toNat_lt

theorem field_crc :
    field (frameHeader synchronize sequence kind payload) 24 4 =
      (frameCrc sequence kind payload).toNat :=
  get_put (n := 4) (frameCrc sequence kind payload).isLt

end Header

theorem drop_eq_field {header : Bytes} (offset size : Nat) (h : offset + size ≤ header.length) :
    header.drop offset = put size (field header offset size) ++ header.drop (offset + size) := by
  have hlength : ((header.drop offset).take size).length = size := by
    rw [List.length_take, List.length_drop]
    omega
  rw [field, ← put_of_get hlength rfl, ← List.drop_drop, List.take_append_drop]

theorem header_eq_fields {header : Bytes} (h : header.length = kFrameHeaderSize) :
    header = put 4 (field header 0 4) ++ put 2 (field header 4 2) ++ put 2 (field header 6 2) ++
      put 4 (field header 8 4) ++ put 4 (field header 12 4) ++ put 8 (field header 16 8) ++
      put 4 (field header 24 4) ++ put 4 (field header 28 4) := by
  have h32 : header.length = 32 := h
  have hend : header.drop 32 = [] := List.drop_eq_nil_of_le (by omega)
  calc header = header.drop 0 := rfl
    _ = put 4 (field header 0 4) ++ (put 2 (field header 4 2) ++ (put 2 (field header 6 2) ++
        (put 4 (field header 8 4) ++ (put 4 (field header 12 4) ++ (put 8 (field header 16 8) ++
        (put 4 (field header 24 4) ++ (put 4 (field header 28 4) ++ header.drop 32))))))) := by
      rw [drop_eq_field 0 4 (by omega),
        drop_eq_field (0 + 4) 2 (by omega),
        drop_eq_field (0 + 4 + 2) 2 (by omega),
        drop_eq_field (0 + 4 + 2 + 2) 4 (by omega),
        drop_eq_field (0 + 4 + 2 + 2 + 4) 4 (by omega),
        drop_eq_field (0 + 4 + 2 + 2 + 4 + 4) 8 (by omega),
        drop_eq_field (0 + 4 + 2 + 2 + 4 + 4 + 8) 4 (by omega),
        drop_eq_field (0 + 4 + 2 + 2 + 4 + 4 + 8 + 4) 4 (by omega)]
    _ = _ := by simp only [hend, List.append_nil, List.append_assoc]

theorem eq_frameHeader {config : JournalConfig} {expected : UInt64} {header kind payload : Bytes}
    {u v w : Unit} (hlength : header.length = kFrameHeaderSize)
    (hheader : checkHeader header = .ok u) (hbounds : checkBounds config expected header = .ok v)
    (hbody : checkBody expected header kind payload = .ok w)
    (hkind : kind.length = field header 6 2) (hpayload : payload.length = field header 8 4) :
    ∃ synchronize, header = frameHeader synchronize expected kind payload := by
  simp only [checkHeader, throwIf_eq_ok, not_or, not_and, not_not] at hheader
  simp only [checkBounds, throwIf_eq_ok, not_or, not_not] at hbounds
  simp only [checkBody, throwIf_eq_ok, not_or, not_not] at hbody
  obtain ⟨hmagic, hversion, hflags, hreserved⟩ := hheader
  obtain ⟨-, -, -, hsequence⟩ := hbounds
  obtain ⟨-, hcrc⟩ := hbody
  have hflag : (if decide (field header 12 4 = 1) = true then 1 else 0) = field header 12 4 := by
    by_cases hzero : field header 12 4 = 0
    · simp [hzero]
    · simp [hflags hzero]
  refine ⟨field header 12 4 = 1, ?_⟩
  have hfields := header_eq_fields hlength
  rwa [hmagic, hversion, hreserved, hsequence, ← hkind, ← hpayload, ← hcrc, ← hflag] at hfields

/-! ### Frames -/

/-- What stands in the file for a record. -/
structure Stored where
  synchronize : Bool
  kind : Bytes
  payload : Bytes

namespace Stored

def header (s : Stored) (sequence : UInt64) : Bytes :=
  frameHeader s.synchronize sequence s.kind s.payload

def frame (s : Stored) (sequence : UInt64) : Bytes :=
  Storage.frame s.synchronize sequence s.kind s.payload

def size (s : Stored) : Nat := kFrameHeaderSize + s.kind.length + s.payload.length

/-- The kind is one, and the payload's length has its place in the header. -/
structure Fits (s : Stored) : Prop where
  kind : validKind s.kind = true
  payload : s.payload.length < 2 ^ 32

theorem frame_eq (s : Stored) (sequence : UInt64) :
    s.frame sequence = s.header sequence ++ s.kind ++ s.payload := rfl

@[simp] theorem length_frame (s : Stored) (sequence : UInt64) :
    (s.frame sequence).length = s.size := by
  simp [frame_eq, header, size, Nat.add_assoc]

end Stored

theorem readFrame_header {s : Stored} (hs : s.Fits) (config : JournalConfig) (sequence : UInt64)
    {kind payload : Bytes} (hkind : kind.length = s.kind.length)
    (hpayload : payload.length = s.payload.length) (rest : Bytes) :
    readFrame config sequence (s.header sequence ++ kind ++ payload ++ rest) =
      throwIf (config.maximumPayloadBytes < s.payload.length)
        (.runtime "operational store frame bounds or sequence are invalid") >>= fun _ =>
      checkBody sequence (s.header sequence) kind payload >>= fun _ =>
      parsePayload payload >>= fun j => .ok (.record ⟨sequence, kind, j⟩ s.size rest) := by
  obtain ⟨hne, hmax⟩ := validKind_length hs.kind
  have hlength : (s.header sequence).length = kFrameHeaderSize := length_frameHeader _ _ _ _
  have hinput : s.header sequence ++ kind ++ payload ++ rest =
      s.header sequence ++ (kind ++ (payload ++ rest)) := by simp only [List.append_assoc]
  have htake : (s.header sequence ++ (kind ++ (payload ++ rest))).take kFrameHeaderSize =
      s.header sequence := List.take_left' hlength
  have hdrop : (s.header sequence ++ (kind ++ (payload ++ rest))).drop kFrameHeaderSize =
      kind ++ (payload ++ rest) := List.drop_left' hlength
  have hkindSize : field (s.header sequence) 6 2 = kind.length := by
    rw [hkind]
    exact field_kind _ _ _ hmax
  have hpayloadSize : field (s.header sequence) 8 4 = payload.length := by
    rw [hpayload]
    exact field_payload _ _ _ hs.payload
  have hbounds : checkBounds config sequence (s.header sequence) =
      throwIf (config.maximumPayloadBytes < s.payload.length)
        (.runtime "operational store frame bounds or sequence are invalid") := by
    have hsequence : field (s.header sequence) 16 8 = sequence.toNat := field_sequence _ _ _ _
    have hiff : (field (s.header sequence) 6 2 = 0 ∨
        kMaximumKindBytes < field (s.header sequence) 6 2 ∨
        config.maximumPayloadBytes < field (s.header sequence) 8 4 ∨
        field (s.header sequence) 16 8 ≠ sequence.toNat) ↔
        config.maximumPayloadBytes < s.payload.length := by
      rw [hkindSize, hpayloadSize, hsequence, hkind, hpayload]
      omega
    simp only [checkBounds, throwIf, hiff]
  have hnonempty : ¬ s.header sequence ++ (kind ++ (payload ++ rest)) = [] := by
    intro h
    have := congrArg List.length h
    rw [List.length_append, hlength] at this
    simp [kFrameHeaderSize] at this
  have hlong : ¬ (s.header sequence ++ (kind ++ (payload ++ rest))).length < kFrameHeaderSize := by
    rw [List.length_append, hlength]
    omega
  have hheader : checkHeader (s.header sequence) = .ok () := checkHeader_frameHeader _ _ _ _
  have hbody : (kind ++ (payload ++ rest)).take kind.length = kind := List.take_left' rfl
  have hafter : (kind ++ (payload ++ rest)).drop kind.length = payload ++ rest := List.drop_left' rfl
  have htext : (payload ++ rest).take payload.length = payload := List.take_left' rfl
  have hrest : (kind ++ (payload ++ rest)).drop (kind.length + payload.length) = rest := by
    rw [← List.drop_drop, hafter]
    exact List.drop_left' rfl
  rw [hinput, readFrame, if_neg hnonempty, if_neg hlong]
  simp only [htake, hdrop, hheader, hbounds, hkindSize, hpayloadSize, hbody, hafter, htext, hrest,
    ok_bind, ne_eq, not_true_eq_false, or_self, if_false, Stored.size, ← hkind, ← hpayload]
  rfl

/-- **A whole frame is read as the record it was written for**, if the configuration's payload bound
lets it and its payload is JSON. -/
theorem readFrame_frame {s : Stored} (hs : s.Fits) (config : JournalConfig) (sequence : UInt64)
    (rest : Bytes) :
    readFrame config sequence (s.frame sequence ++ rest) =
      throwIf (config.maximumPayloadBytes < s.payload.length)
        (.runtime "operational store frame bounds or sequence are invalid") >>= fun _ =>
      parsePayload s.payload >>= fun j => .ok (.record ⟨sequence, s.kind, j⟩ s.size rest) := by
  have hbody : checkBody sequence (s.header sequence) s.kind s.payload = .ok () := by
    apply throwIf_of_not
    have hcrc : field (s.header sequence) 24 4 = (frameCrc sequence s.kind s.payload).toNat :=
      field_crc _ _ _ _
    simp [hs.kind, hcrc]
  rw [Stored.frame_eq, readFrame_header hs config sequence rfl rfl, hbody]
  rfl

/-- **What is read as a record is a whole frame.** -/
theorem frame_of_readFrame {config : JournalConfig} {expected : UInt64} {input rest : Bytes}
    {r : JournalRecord} {size : Nat} (h : readFrame config expected input = .ok (.record r size rest)) :
    ∃ s : Stored, s.Fits ∧ input = s.frame expected ++ rest ∧ size = s.size ∧
      s.payload.length ≤ config.maximumPayloadBytes ∧ r.sequence = expected ∧ r.kind = s.kind ∧
      parsePayload s.payload = .ok r.payload := by
  unfold readFrame at h
  by_cases hempty : input = []
  · rw [if_pos hempty] at h
    cases h
  rw [if_neg hempty] at h
  by_cases hshort : input.length < kFrameHeaderSize
  · rw [if_pos hshort] at h
    cases h
  rw [if_neg hshort] at h
  simp only [bind_eq_ok] at h
  obtain ⟨_, hheader, _, hbounds, h⟩ := h
  split_ifs at h with htorn
  · cases h
  simp only [bind_eq_ok, pure_eq_ok] at h
  obtain ⟨_, hbody, j, hparse, hrecord⟩ := h
  obtain ⟨rfl, rfl, rfl⟩ := Scanned.record.inj hrecord
  rw [not_or, not_not, not_not] at htorn
  obtain ⟨hkind, hpayload⟩ := htorn
  have hlength : (input.take kFrameHeaderSize).length = kFrameHeaderSize := by
    rw [List.length_take]
    omega
  obtain ⟨synchronize, hsame⟩ := eq_frameHeader hlength hheader hbounds hbody hkind hpayload
  simp only [checkBounds, throwIf_eq_ok, not_or, not_lt] at hbounds
  simp only [checkBody, throwIf_eq_ok, not_or, Bool.not_eq_false] at hbody
  refine ⟨⟨synchronize, _, _⟩, ⟨hbody.1, ?_⟩, ?_, ?_, ?_, rfl, rfl, hparse⟩
  · rw [hpayload]
    exact lt_of_lt_of_le (get_lt _) (Nat.pow_le_pow_right (by decide) (List.length_take_le _ _))
  · rw [Stored.frame_eq, Stored.header, ← hsame]
    simp only [List.append_assoc, ← List.drop_drop]
    rw [List.take_append_drop, List.take_append_drop, List.take_append_drop]
  · rw [Stored.size, hkind, hpayload]
  · rw [hpayload]
    exact hbounds.2.2.1

theorem eq_nil_of_readFrame {config : JournalConfig} {expected : UInt64} {input : Bytes}
    (h : readFrame config expected input = .ok .nothing) : input = [] := by
  by_contra hempty
  unfold readFrame at h
  rw [if_neg hempty] at h
  by_cases hshort : input.length < kFrameHeaderSize
  · rw [if_pos hshort] at h
    cases h
  rw [if_neg hshort] at h
  simp only [bind_eq_ok] at h
  obtain ⟨_, -, _, -, h⟩ := h
  split_ifs at h
  · cases h
  simp only [bind_eq_ok, pure_eq_ok] at h
  obtain ⟨_, -, _, -, h⟩ := h
  cases h

/-! ### Damage -/

theorem crc32cUpdate_append (crc : BitVec 32) (a b : Bytes) :
    crc32cUpdate crc (a ++ b) = crc32cUpdate (crc32cUpdate crc a) b := List.foldl_append

theorem frameCrc_eq (sequence : UInt64) (kind payload : Bytes) :
    frameCrc sequence kind payload =
      ~~~ crc32cUpdate (crc32cUpdate 0xffffffff#32 (put 8 sequence.toNat)) (kind ++ payload) := by
  rw [crc32cUpdate_append]
  rfl

/-- A body with a run of at most four bytes in place of another. -/
structure Altered (body body' : Bytes) : Prop where
  burst : ∃ before run run' after, body = before ++ run ++ after ∧ body' = before ++ run' ++ after ∧
    run.length = run'.length ∧ run.length ≤ 4
  ne : body ≠ body'

theorem frameCrc_ne {sequence : UInt64} {kind payload kind' payload' : Bytes}
    (h : Altered (kind ++ payload) (kind' ++ payload')) :
    frameCrc sequence kind' payload' ≠ frameCrc sequence kind payload := by
  obtain ⟨before, run, run', after, hbody, hbody', hlength, hrun⟩ := h.burst
  have hne : run ≠ run' := by
    intro hrun
    apply h.ne
    rw [hbody, hbody', hrun]
  intro hcrc
  rw [frameCrc_eq, frameCrc_eq, hbody, hbody', BitVec.not_inj] at hcrc
  exact Crc.update_ne_of_burst (by decide) _ hlength hrun hne hcrc.symm

/-- **A body that changed within four consecutive bytes is refused.** -/
theorem readFrame_of_damaged {s : Stored} (hs : s.Fits) (config : JournalConfig) (sequence : UInt64)
    {kind payload : Bytes} (hkind : kind.length = s.kind.length)
    (hpayload : payload.length = s.payload.length)
    (haltered : Altered (s.kind ++ s.payload) (kind ++ payload)) (rest : Bytes) :
    ∃ e, readFrame config sequence (s.header sequence ++ kind ++ payload ++ rest) = .error e := by
  have hcrc : field (s.header sequence) 24 4 = (frameCrc sequence s.kind s.payload).toNat :=
    field_crc _ _ _ _
  have hbody : checkBody sequence (s.header sequence) kind payload =
      .error (.runtime "operational store frame checksum is invalid") := by
    apply throwIf_of
    right
    rw [hcrc]
    intro h
    exact frameCrc_ne haltered (BitVec.eq_of_toNat_eq h)
  rw [readFrame_header hs config sequence hkind hpayload, hbody]
  by_cases hlarge : config.maximumPayloadBytes < s.payload.length
  · exact ⟨_, by rw [throwIf_of _ hlarge]; rfl⟩
  · exact ⟨_, by rw [throwIf_of_not _ hlarge]; rfl⟩

end ContextHmi.Storage
