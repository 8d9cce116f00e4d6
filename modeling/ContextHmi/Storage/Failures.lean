import ContextHmi.Storage.Recovery

/-!
# Appends that fail

`append` may throw after a part of its frame has reached the file. The journal goes on as if nothing
had been written, and the next frame goes behind what is left there.

* `Session.Sound.call`     : what a call leaves of a session that nothing has been left in;
* `acknowledged_recovered` : the records of a session are there at the next start, unless a call wrote
  behind the remains of another;
* `acknowledged_lost`      : such a session.
-/

namespace ContextHmi.Storage

open Outcome

section Failures
variable [Platform]

/-- A call of `append`, with what the disk makes of its write. -/
structure Call where
  kind : Bytes
  payload : Json
  write : Write

/-- One open journal, with the records whose calls returned. -/
structure Session where
  journal : Journal
  file : Bytes
  acknowledged : List JournalRecord

def Session.call (session : Session) (c : Call) : Session :=
  match append session.journal session.file c.kind c.payload c.write with
  | (.ok sequence, journal, file) =>
    ⟨journal, file, session.acknowledged ++ [⟨sequence, c.kind, c.payload⟩]⟩
  | (.error _, journal, file) => { session with journal := journal, file := file }

/-- The calls on a new journal. -/
def sessionAfter (config : JournalConfig) (calls : List Call) : Session :=
  calls.foldl Session.call ⟨⟨config, 1, 0, []⟩, kFileMagic, []⟩

/-- The call gets past its checks and writes at least a byte. -/
def Session.Reaches (session : Session) (c : Call) : Prop :=
  (∃ encoded, checkAppend session.journal session.file c.kind c.payload = .ok encoded) ∧
    ∀ e, c.write ≠ .fails 0 e

/-- Once a call has thrown after writing, no later one writes. -/
def Undisturbed : Session → List Call → Prop
  | _, [] => True
  | session, c :: calls =>
    (session.Reaches c → c.write ≠ .succeeds → ∀ c' ∈ calls, ¬ (session.call c).Reaches c') ∧
      Undisturbed (session.call c) calls

/-- A session's journal and file, but for what a call has left behind the last frame. -/
structure Session.Sound (config : JournalConfig) (session : Session) (left : Bytes) : Prop where
  kept : ∃ file, session.file = file ++ left ∧ Kept.Sound config
    ⟨session.journal, file, session.acknowledged, session.journal.recoveredTailBytes⟩
  size : session.file.length ≤ config.maximumFileBytes
  /-- What is left is the front of a frame of the next record. -/
  front : left = [] ∨ ∃ kind payload encoded, Readable payload ∧
    Writes config ⟨session.journal.nextSequence, kind, payload⟩ ⟨config.synchronize, kind, encoded⟩ ∧
    ∃ written, left = (frame config.synchronize session.journal.nextSequence kind encoded).take written

variable {config : JournalConfig} {session : Session}

theorem Session.call_of_not_reaches {c : Call} (h : ¬ session.Reaches c) : session.call c = session := by
  unfold Session.call
  cases hcheck : checkAppend session.journal session.file c.kind c.payload with
  | error e => rw [append_of_refused hcheck]
  | ok encoded =>
    have hwrite : ∃ e, c.write = .fails 0 e := by
      by_contra hnot
      exact h ⟨⟨encoded, hcheck⟩, fun e he => hnot ⟨e, he⟩⟩
    obtain ⟨e, he⟩ := hwrite
    rw [append, hcheck, he]
    simp only [List.take_zero, List.append_nil]

/-- **What a call leaves of a session that nothing has been left in.** -/
theorem Session.Sound.call (h : session.Sound config []) (hvalid : config.Valid) {c : Call}
    (hpayload : Readable c.payload) :
    ((session.Reaches c → c.write = .succeeds) → (session.call c).Sound config []) ∧
      ∃ left, (session.call c).Sound config left := by
  obtain ⟨file, hfile, hkept⟩ := h.kept
  rw [List.append_nil] at hfile
  subst hfile
  by_cases hreaches : session.Reaches c
  · obtain ⟨⟨encoded, hcheck⟩, -⟩ := hreaches
    obtain ⟨hwrites, hsize⟩ := checkAppend_eq_ok hcheck
    have hsame : session.journal.config = config := hkept.same
    rw [hsame] at hwrites hsize
    cases hwrite : c.write with
    | succeeds =>
      obtain ⟨kept', hstep, hsound⟩ := hkept.append hvalid c.kind hpayload
      have happend := append_of_check hcheck
      rw [Kept.step, happend] at hstep
      have hcall : session.call c = ⟨session.journal.appended c.kind c.payload,
          session.file ++ frame session.journal.config.synchronize session.journal.nextSequence c.kind
            encoded,
          session.acknowledged ++ [⟨session.journal.nextSequence, c.kind, c.payload⟩]⟩ := by
        rw [Session.call, hwrite, happend]
      have hclean : (session.call c).Sound config [] := by
        rw [hcall]
        refine ⟨⟨_, (List.append_nil _).symm, ?_⟩, ?_, .inl rfl⟩
        · exact Except.ok.inj hstep ▸ hsound
        · rw [hsame]
          exact hsize
      exact ⟨fun _ => hclean, [], hclean⟩
    | fails written e =>
      have hcall : session.call c = { session with
          file := session.file ++ (frame config.synchronize session.journal.nextSequence c.kind
            encoded).take written } := by
        rw [Session.call, append, hcheck, hwrite, ← hsame]
      have hsound : (session.call c).Sound config
          ((frame config.synchronize session.journal.nextSequence c.kind encoded).take written) := by
        rw [hcall]
        refine ⟨⟨session.file, rfl, hkept⟩, ?_, .inr ⟨c.kind, c.payload, encoded, hpayload, hwrites,
          written, rfl⟩⟩
        rw [List.length_append] at hsize ⊢
        rw [List.length_take]
        omega
      refine ⟨fun hclean => ?_, _, hsound⟩
      cases written with
      | zero => rwa [List.take_zero] at hsound
      | succ n =>
        have hreaches : session.Reaches c := by
          refine ⟨⟨encoded, hcheck⟩, ?_⟩
          intro e' he'
          rw [hwrite] at he'
          cases he'
        cases hclean hreaches
  · rw [Session.call_of_not_reaches hreaches]
    exact ⟨fun _ => h, [], h⟩

/-- **What is left of a session**, if nothing is written behind the remains of a call. -/
theorem Session.Sound.run (h : session.Sound config []) (hvalid : config.Valid) {calls : List Call}
    (hcalls : ∀ c ∈ calls, Readable c.payload) (hquiet : Undisturbed session calls) :
    ∃ left, (calls.foldl Session.call session).Sound config left := by
  induction calls generalizing session with
  | nil => exact ⟨[], h⟩
  | cons c calls ih =>
    rw [List.forall_mem_cons] at hcalls
    obtain ⟨hlast, hrest⟩ := hquiet
    obtain ⟨hclean, left, hleft⟩ := h.call hvalid hcalls.1
    rw [List.foldl_cons]
    by_cases hsoils : session.Reaches c ∧ c.write ≠ .succeeds
    · -- Nothing is written from here on.
      have hnone := hlast hsoils.1 hsoils.2
      have hsame : calls.foldl Session.call (session.call c) = session.call c := by
        clear ih hrest hcalls hlast
        induction calls with
        | nil => rfl
        | cons c' calls ih =>
          rw [List.forall_mem_cons] at hnone
          rw [List.foldl_cons, Session.call_of_not_reaches hnone.1]
          exact ih hnone.2
      rw [hsame]
      exact ⟨left, hleft⟩
    · refine ih (hclean ?_) hcalls.2 hrest
      intro hreaches
      by_contra hne
      exact hsoils ⟨hreaches, hne⟩

/-- **A session is recovered.** -/
theorem Session.Sound.reopened {left : Bytes} (h : session.Sound config left) (hvalid : config.Valid) :
    ∃ journal file extra, openJournal config (.file session.file) = (.ok journal, .file file) ∧
      extra.length ≤ 1 ∧
      Kept.Sound config ⟨journal, file, session.acknowledged ++ extra,
        journal.recoveredTailBytes⟩ := by
  obtain ⟨file, hfile, hkept⟩ := h.kept
  obtain ⟨stored, hwrites, hstored, hnext⟩ := hkept.stored
  have hsize := h.size
  dsimp only at hstored hwrites hnext
  have hwhole : session.file = kFileMagic ++ (frames 1 stored ++ left) := by
    rw [hfile, hstored, List.append_assoc]
  rw [hwhole] at hsize ⊢
  -- Nothing but a torn tail, or nothing at all, behind the frames of the records that returned.
  have hplain : left = [] ∨ readFrame config (after 1 stored) left = .ok .torn →
      ∃ journal file extra, openJournal config (.file (kFileMagic ++ (frames 1 stored ++ left))) =
          (.ok journal, .file file) ∧ extra.length ≤ 1 ∧
        Kept.Sound config ⟨journal, file, session.acknowledged ++ extra,
          journal.recoveredTailBytes⟩ := by
    intro htail
    obtain ⟨journal, hopen, hsound⟩ := Kept.Sound.reopened hvalid hwrites hkept.numbered
      hkept.readable htail hsize
    refine ⟨journal, _, [], hopen, Nat.zero_le 1, ?_⟩
    rw [List.append_nil]
    exact { hsound with removed := rfl }
  rcases h.front with hnil | ⟨kind, payload, encoded, hpayload, hnew, written, hleft⟩
  · exact hplain (.inl hnil)
  · by_cases hcomplete :
      (frame config.synchronize session.journal.nextSequence kind encoded).length ≤ written
    · -- The whole frame has reached the file.
      rw [List.take_of_length_le hcomplete] at hleft
      have hlast : frames 1 (stored ++ [⟨config.synchronize, kind, encoded⟩]) =
          frames 1 stored ++ left := by
        rw [frames_append, ← hnext, hleft, frames, frames, List.append_nil]
        rfl
      have hnumbered : Numbered 1
          (session.acknowledged ++ [⟨session.journal.nextSequence, kind, payload⟩]) :=
        numbered_append.mpr ⟨hkept.numbered, hkept.next, trivial⟩
      rw [← hlast] at hsize ⊢
      rw [← List.append_nil (frames 1 _)] at hsize ⊢
      obtain ⟨journal, hopen, hsound⟩ := Kept.Sound.reopened hvalid
        (List.rel_append hwrites (.cons hnew .nil)) hnumbered
        (List.forall_mem_append.mpr ⟨hkept.readable, List.forall_mem_singleton.mpr hpayload⟩)
        (.inl rfl) hsize
      exact ⟨journal, _, [⟨session.journal.nextSequence, kind, payload⟩], hopen, Nat.le_refl 1,
        { hsound with removed := rfl }⟩
    · by_cases hzero : written = 0
      · rw [hzero, List.take_zero] at hleft
        exact hplain (.inl hleft)
      · refine hplain (.inr ?_)
        rw [hleft, ← hnext]
        exact readFrame_torn hnew hvalid (Nat.pos_of_ne_zero hzero) (Nat.lt_of_not_le hcomplete)

/-- **A record whose append returned is there at the next start**, in every session of payloads that can
be read back in which no call writes behind the remains of one that threw. -/
theorem acknowledged_recovered {config : JournalConfig} (hvalid : config.Valid) {calls : List Call}
    (hcalls : ∀ c ∈ calls, Readable c.payload)
    (hquiet : Undisturbed ⟨⟨config, 1, 0, []⟩, kFileMagic, []⟩ calls) :
    ∃ journal file extra,
      openJournal config (.file (sessionAfter config calls).file) = (.ok journal, .file file) ∧
      extra.length ≤ 1 ∧
      (∃ stored, List.Forall₂ (Writes config)
          ((sessionAfter config calls).acknowledged ++ extra) stored ∧
        file = kFileMagic ++ frames 1 stored) ∧
      Numbered 1 ((sessionAfter config calls).acknowledged ++ extra) ∧
      List.Forall₂ Same
        (((sessionAfter config calls).acknowledged ++ extra).rtake config.recentRecordLimit)
        journal.recent := by
  have hstart : Session.Sound config ⟨⟨config, 1, 0, []⟩, kFileMagic, []⟩ [] := by
    have hkept := newStore_sound hvalid
    exact ⟨⟨kFileMagic, rfl, hkept⟩, hkept.size, .inl rfl⟩
  obtain ⟨left, hsound⟩ := hstart.run hvalid hcalls hquiet
  obtain ⟨journal, file, extra, hopen, hextra, hkept⟩ := hsound.reopened hvalid
  obtain ⟨stored, hwrites, hfile, -⟩ := hkept.stored
  exact ⟨journal, file, extra, hopen, hextra, ⟨stored, hwrites, hfile⟩, hkept.numbered, hkept.window⟩

end Failures

/-! A call that fails after a byte, alone and before one that returns. -/

section Sample

local instance failurePlatform : Platform := samplePlatform

def failedCall : Call := ⟨"model_selected", .obj [], .fails 1 (.runtime "operational store write failed")⟩

def goodCall : Call := ⟨"model_selected", .obj [], .succeeds⟩

/-- The frame of the second call stands behind a byte of the first. -/
theorem acknowledged_lost :
    (sessionAfter sampleConfig [failedCall, goodCall]).acknowledged.length = 1 ∧
      openJournal sampleConfig (.file (sessionAfter sampleConfig [failedCall, goodCall]).file) =
        (.error (.runtime "operational store frame header is corrupt"),
          .file (sessionAfter sampleConfig [failedCall, goodCall]).file) := by
  refine ⟨rfl, rfl⟩

theorem acknowledged_recovered_sample :
    ∃ journal file extra,
      openJournal sampleConfig (.file (sessionAfter sampleConfig [goodCall, failedCall]).file) =
        (.ok journal, .file file) ∧ extra.length ≤ 1 ∧
      (∃ stored, List.Forall₂ (Writes sampleConfig)
          ((sessionAfter sampleConfig [goodCall, failedCall]).acknowledged ++ extra) stored ∧
        file = kFileMagic ++ frames 1 stored) ∧
      Numbered 1 ((sessionAfter sampleConfig [goodCall, failedCall]).acknowledged ++ extra) ∧
      List.Forall₂ Same (((sessionAfter sampleConfig [goodCall, failedCall]).acknowledged ++
        extra).rtake sampleConfig.recentRecordLimit) journal.recent := by
  apply acknowledged_recovered (show sampleConfig.Valid by decide)
  · intro c hc
    simp only [List.mem_cons, List.not_mem_nil, or_false] at hc
    rcases hc with rfl | rfl
    · exact readable_empty
    · exact readable_empty
  · refine ⟨fun _ h => absurd rfl h, fun _ _ => List.forall_mem_nil _, trivial⟩

end Sample

end ContextHmi.Storage
