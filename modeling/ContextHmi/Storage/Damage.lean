import ContextHmi.Json.Cut
import ContextHmi.Storage.ReadBack

/-!
# One damaged byte

One byte of a frame that is not the last is changed, and the journal is opened. A header has no check of
its own: where a damaged length takes the frame past the end of the file, the frame and all behind it
are taken for a torn tail.

* `readFrame_shifted`     : a scan that is out of step with the frames is refused;
* `damage_cases`          : what a damaged frame can be read as;
* `damage_recovered_iff`  : when the damage is refused, or nothing is lost.
-/

namespace ContextHmi.Storage

open Outcome Endian

/-! ### Fields -/

theorem field_set (l : Bytes) {o offset size : Nat} (b : UInt8) (h : o < offset ∨ offset + size ≤ o) :
    field (l.set o b) offset size = field l offset size := by
  unfold field
  congr 1
  apply List.ext_getElem?
  intro i
  rw [List.getElem?_take, List.getElem?_take]
  split_ifs with hi
  · rw [List.getElem?_drop, List.getElem?_drop, List.getElem?_set_ne (by omega)]
  · rfl

theorem field_append {l : Bytes} (rest : Bytes) {offset size : Nat} (h : offset + size ≤ l.length) :
    field (l ++ rest) offset size = field l offset size := by
  unfold field
  rw [List.drop_append_of_le_length (by omega), List.take_append_of_le_length (by
    rw [List.length_drop]
    omega)]

theorem field_frame (s : Stored) (n : UInt64) {offset size : Nat} (h : offset + size ≤ 32) :
    field (s.frame n) offset size = field (s.header n) offset size := by
  have hlength : (s.header n).length = 32 := length_frameHeader _ _ _ _
  rw [Stored.frame_eq, List.append_assoc]
  exact field_append _ (by omega)

theorem frame_start (s : Stored) (n : UInt64) :
    ∃ y, s.frame n = 0x46 :: 0x52 :: 0x4d :: 0x31 :: 0x01 :: 0x00 :: y := ⟨_, rfl⟩

theorem frames_start {behind : List Stored} (h : behind ≠ []) (n : UInt64) :
    (∃ y, frames n behind = 0x46 :: 0x52 :: 0x4d :: 0x31 :: 0x01 :: 0x00 :: y) ∧
      kFrameHeaderSize ≤ (frames n behind).length := by
  cases behind with
  | nil => exact absurd rfl h
  | cons s behind =>
    obtain ⟨y, hy⟩ := frame_start s n
    refine ⟨⟨y ++ frames (n + 1) behind, by rw [frames, hy]; rfl⟩, ?_⟩
    rw [frames, List.length_append, s.length_frame, Stored.size]
    omega

/-- **A scan that is out of step with the frames is refused**: what is left of a body before a frame
has no control characters, and the magic does not overlap itself. -/
theorem readFrame_shifted {tail : Bytes} (htail : tail ≠ []) (hprintable : Json.Printable tail)
    {behind : List Stored} (hbehind : behind ≠ []) (config : JournalConfig) (m n : UInt64) :
    ∃ e, readFrame config m (tail ++ frames n behind) = .error e := by
  obtain ⟨⟨y, hy⟩, hlength⟩ := frames_start hbehind n
  have hlong : ¬ (tail ++ frames n behind).length < kFrameHeaderSize := by
    rw [List.length_append]
    omega
  have hnonempty : tail ++ frames n behind ≠ [] := by
    intro hnil
    exact htail (List.append_eq_nil_iff.mp hnil).1
  have hheader : ∃ e, checkHeader ((tail ++ frames n behind).take kFrameHeaderSize) = .error e := by
    refine ⟨_, throwIf_of _ ?_⟩
    by_contra hno
    simp only [not_or, not_not] at hno
    obtain ⟨hmagic, hversion, -⟩ := hno
    have hfour : (((tail ++ frames n behind).take kFrameHeaderSize).drop 0).take 4 =
        [0x46, 0x52, 0x4d, 0x31] := by
      show _ = put 4 kFrameMagic
      refine put_of_get ?_ hmagic
      rw [List.length_take, List.length_drop, List.length_take]
      unfold kFrameHeaderSize at hlong ⊢
      omega
    have htwo : (((tail ++ frames n behind).take kFrameHeaderSize).drop 4).take 2 = [0x01, 0x00] := by
      show _ = put 2 kFrameVersion
      refine put_of_get ?_ hversion
      rw [List.length_take, List.length_drop, List.length_take]
      unfold kFrameHeaderSize at hlong ⊢
      omega
    rw [hy, kFrameHeaderSize] at hfour htwo
    -- How much of the header is left of the body.
    rcases tail with _ | ⟨a, _ | ⟨b, _ | ⟨c, _ | ⟨d, _ | ⟨e, tail⟩⟩⟩⟩⟩
    · exact htail rfl
    · simp at hfour
    · simp at hfour
    · simp at hfour
    · simp at htwo
    · have he : e = 0x01 := by
        simp at htwo
        exact htwo.1
      have hcontrol := hprintable e (by simp)
      rw [he] at hcontrol
      exact absurd hcontrol (by decide)
  obtain ⟨e, he⟩ := hheader
  refine ⟨e, ?_⟩
  rw [readFrame, if_neg hnonempty, if_neg hlong]
  show checkHeader _ >>= _ = _
  rw [he]
  rfl

/-! ### A damaged frame -/

theorem byte_of_validKind {kind : Bytes} (h : validKind kind = true) {c : UInt8} (hc : c ∈ kind) :
    0x20 ≤ c ∧ c ≠ Json.kOdd ∧ c ≠ 0x22 ∧ c ≠ 0x5b ∧ c ≠ 0x7b := by
  rw [validKind, Bool.and_eq_true] at h
  have hbyte := List.all_eq_true.mp h.2 c hc
  revert hbyte
  exact Bytes.forall_byte (p := fun c =>
    (Bytes.isLower c || Bytes.isDigit c || c == 0x5f || c == 0x2e || c == 0x2d) = true →
      0x20 ≤ c ∧ c ≠ Json.kOdd ∧ c ≠ 0x22 ∧ c ≠ 0x5b ∧ c ≠ 0x7b) (by decide +kernel) c

theorem body_of_split {s t : Stored} {n : UInt64} {o : Nat} {b : UInt8} {rest rest' : Bytes}
    (ho : o < 32) (hsplit : (s.frame n).set o b ++ rest = t.frame n ++ rest') :
    s.kind ++ (s.payload ++ rest) = t.kind ++ (t.payload ++ rest') := by
  have hdrop : ∀ s : Stored, (s.frame n).drop 32 = s.kind ++ s.payload := by
    intro s
    rw [Stored.frame_eq, List.append_assoc]
    exact List.drop_left' (length_frameHeader _ _ _ _)
  have hle : ∀ s : Stored, 32 ≤ (s.frame n).length := by
    intro s
    rw [s.length_frame, Stored.size, kFrameHeaderSize]
    omega
  have hboth := congrArg (List.drop 32) hsplit
  rw [List.drop_append_of_le_length (by rw [List.length_set]; exact hle s),
    List.drop_append_of_le_length (hle t), List.drop_set_of_lt ho, hdrop, hdrop] at hboth
  simpa only [List.append_assoc] using hboth

theorem field_of_split {s t : Stored} {n : UInt64} {o : Nat} {b : UInt8} {rest rest' : Bytes}
    (hsplit : (s.frame n).set o b ++ rest = t.frame n ++ rest') {offset size : Nat}
    (hfield : offset + size ≤ 32) (ho : o < offset ∨ offset + size ≤ o) :
    field (s.header n) offset size = field (t.header n) offset size := by
  have hle : ∀ s : Stored, 32 ≤ (s.frame n).length := by
    intro s
    rw [s.length_frame, Stored.size, kFrameHeaderSize]
    omega
  calc field (s.header n) offset size
      = field (s.frame n) offset size := (field_frame s n hfield).symm
    _ = field ((s.frame n).set o b) offset size := (field_set _ b ho).symm
    _ = field ((s.frame n).set o b ++ rest) offset size :=
      (field_append _ (by rw [List.length_set]; exact hfield.trans (hle s))).symm
    _ = field (t.frame n ++ rest') offset size := by rw [hsplit]
    _ = field (t.frame n) offset size := field_append _ (hfield.trans (hle t))
    _ = field (t.header n) offset size := field_frame t n hfield

theorem body_unchanged {s t : Stored} (hs : s.Fits) (ht : t.Fits) {n : UInt64} {o : Nat} {b : UInt8}
    {rest rest' : Bytes} (ho : o < s.size) (hb : (s.frame n)[o]? ≠ some b)
    (hsplit : (s.frame n).set o b ++ rest = t.frame n ++ rest') : o < 32 := by
  by_contra hbody
  have hkind : s.kind.length = t.kind.length := by
    rw [← field_kind s.synchronize n s.payload (validKind_length hs.kind).2,
      ← field_kind t.synchronize n t.payload (validKind_length ht.kind).2]
    exact field_of_split hsplit (by decide) (.inr (by omega))
  have hpayload : s.payload.length = t.payload.length := by
    rw [← field_payload s.synchronize n s.kind hs.payload,
      ← field_payload t.synchronize n t.kind ht.payload]
    exact field_of_split hsplit (by decide) (.inr (by omega))
  have hcrc : frameCrc n t.kind t.payload = frameCrc n s.kind s.payload := by
    apply BitVec.eq_of_toNat_eq
    rw [← field_crc s.synchronize n s.kind s.payload, ← field_crc t.synchronize n t.kind t.payload]
    exact (field_of_split hsplit (by decide) (.inr (by omega))).symm
  have hsame : (s.frame n).set o b = t.frame n := by
    refine (List.append_inj hsplit ?_).1
    rw [List.length_set, s.length_frame, t.length_frame, Stored.size, Stored.size, hkind, hpayload]
  have hlength : (s.header n).length = 32 := length_frameHeader _ _ _ _
  have hset : s.header n ++ (s.kind ++ s.payload).set (o - 32) b =
      t.header n ++ (t.kind ++ t.payload) := by
    have hframe : (s.frame n).set o b = s.header n ++ (s.kind ++ s.payload).set (o - 32) b := by
      rw [Stored.frame_eq, List.append_assoc, List.set_append_right _ _ (by omega), hlength]
    rw [← hframe, hsame, Stored.frame_eq, List.append_assoc]
  have haltered : (s.kind ++ s.payload).set (o - 32) b = t.kind ++ t.payload :=
    (List.append_inj hset (hlength.trans (length_frameHeader _ _ _ _).symm)).2
  have hinside : o - 32 < (s.kind ++ s.payload).length := by
    rw [Stored.size, kFrameHeaderSize] at ho
    rw [List.length_append]
    omega
  refine frameCrc_ne ⟨⟨(s.kind ++ s.payload).take (o - 32), [(s.kind ++ s.payload)[o - 32]], [b],
    (s.kind ++ s.payload).drop (o - 32 + 1), ?_, ?_, rfl, Nat.le_add_left 1 3⟩, ?_⟩ hcrc
  · rw [List.append_assoc, List.singleton_append, ← List.drop_eq_getElem_cons hinside,
      List.take_append_drop]
  · rw [← haltered, List.set_eq_take_append_cons_drop, if_pos hinside, List.append_assoc,
      List.singleton_append]
  · intro heq
    rw [← heq] at haltered
    apply hb
    have hget := congrArg (fun l : Bytes => l[o - 32]?) haltered
    rw [List.getElem?_set_self hinside] at hget
    rw [Stored.frame_eq, List.append_assoc, List.getElem?_append_right (by omega), hlength]
    exact hget.symm

section Damaged
variable [Platform] {j : Json}

/-- What is left of a literal or a number, before a frame, is not JSON. -/
theorem parsePayload_cut (hj : Dumpable j) {front w : Bytes} (hdump : j.dump = .ok (front ++ w))
    (hfront : front ≠ []) (hkind : ∀ c ∈ front, c ≠ 0x22 ∧ c ≠ 0x5b ∧ c ≠ 0x7b) (x : Bytes) :
    ∃ e, parsePayload (w ++ Json.kOdd :: x) = .error e := by
  obtain ⟨c, front, rfl⟩ := List.exists_cons_of_ne_nil hfront
  have hc := hkind c List.mem_cons_self
  have hword : ∀ c s, c ∈ [0x75, 0x6c, 0x72, 0x65, 0x61, 0x73, (0x46 : UInt8)] →
      ∃ e, parsePayload (c :: s) = .error e := by
    intro c s hc
    simp only [List.mem_cons, List.not_mem_nil, or_false] at hc
    rcases hc with rfl | rfl | rfl | rfl | rfl | rfl | rfl <;> exact ⟨_, rfl⟩
  have hliteral : ∀ word : Bytes,
      (∀ c ∈ word.drop 1, c ∈ [0x75, 0x6c, 0x72, 0x65, 0x61, 0x73, (0x46 : UInt8)]) →
      c :: front ++ w = word → ∃ e, parsePayload (w ++ Json.kOdd :: x) = .error e := by
    intro word hletters heq
    cases w with
    | nil => exact hword _ _ (by decide)
    | cons d w =>
      refine hword d _ (hletters d ?_)
      rw [← heq]
      exact List.mem_append_right front List.mem_cons_self
  rcases Json.dump_start hj.floats hdump with ⟨s, h | h | h⟩ | (h | h | h) | h
  · exact absurd (List.cons.inj h).1 hc.1
  · exact absurd (List.cons.inj h).1 hc.2.1
  · exact absurd (List.cons.inj h).1 hc.2.2
  · exact hliteral _ (by decide +kernel) h
  · exact hliteral _ (by decide +kernel) h
  · exact hliteral _ (by decide +kernel) h
  · exact Json.parse_cut_error _ (fun b hb => h b (List.mem_append_right _ hb)) x

omit [Platform] in
/-- A byte is in one of the two lengths only. -/
theorem payload_length_of_kind_ne {s t : Stored} (hs : s.Fits) (ht : t.Fits) {n : UInt64} {o : Nat}
    {b : UInt8} {rest rest' : Bytes} (hsplit : (s.frame n).set o b ++ rest = t.frame n ++ rest')
    (hne : s.kind.length ≠ t.kind.length) : s.payload.length = t.payload.length := by
  have hinside : 6 ≤ o ∧ o < 8 := by
    by_contra hout
    apply hne
    rw [← field_kind s.synchronize n s.payload (validKind_length hs.kind).2,
      ← field_kind t.synchronize n t.payload (validKind_length ht.kind).2]
    exact field_of_split hsplit (by decide) (by omega)
  rw [← field_payload s.synchronize n s.kind hs.payload,
    ← field_payload t.synchronize n t.kind ht.payload]
  exact field_of_split hsplit (by decide) (by omega)

section
variable {s t : Stored} {m : UInt64} {behind : List Stored} {rest' : Bytes} {v : Json}

/-- The kind is read as it was: the payload is, or it ends early. -/
theorem damage_same_kind (hj : Dumpable j) (hdump : j.dump = .ok s.payload) (hbehind : behind ≠ [])
    (hparse : parsePayload t.payload = .ok v)
    (hrest : s.payload ++ frames m behind = t.payload ++ rest') :
    (t.payload = s.payload ∧ rest' = frames m behind) ∨
      ∃ tail, tail ≠ [] ∧ Json.Printable tail ∧ rest' = tail ++ frames m behind := by
  obtain ⟨⟨y, hy⟩, -⟩ := frames_start hbehind m
  rcases List.append_eq_append_iff.mp hrest with ⟨g, htext, hrest⟩ | ⟨g, htext, hrest⟩
  · cases g with
    | nil =>
      rw [List.append_nil] at htext
      exact .inl ⟨htext, hrest.symm⟩
    | cons c g =>
      rw [hy, List.cons_append] at hrest
      obtain rfl := (List.cons.inj hrest).1
      obtain ⟨e, he⟩ := @Json.parse_append_error _
        (some ⟨32, .runtime "operational record exceeds JSON nesting limit"⟩) _ hj.canonical
        hj.floats _ hdump (0x46 :: g) [] (Json.endsNumber_cons (by decide)) rfl
      rw [htext, parsePayload, he] at hparse
      cases hparse
  · cases g with
    | nil =>
      rw [List.append_nil] at htext
      exact .inl ⟨htext.symm, hrest⟩
    | cons c g =>
      refine .inr ⟨c :: g, List.cons_ne_nil _ _, ?_, hrest⟩
      intro d hd
      exact Json.dump_printable hj.floats hdump d (htext ▸ List.mem_append_right _ hd)

/-- The kind is not read as longer: its new bytes were the first of a literal or a number. -/
theorem damage_longer_kind (ht : t.Fits) (hj : Dumpable j) (hdump : j.dump = .ok s.payload)
    (hbehind : behind ≠ []) (hparse : parsePayload t.payload = .ok v) {c : UInt8} {g : Bytes}
    (hkind : t.kind = s.kind ++ c :: g) (hlong : s.payload.length = t.payload.length)
    (hrest : s.payload ++ frames m behind = c :: g ++ (t.payload ++ rest')) : False := by
  obtain ⟨⟨y, hy⟩, -⟩ := frames_start hbehind m
  have hg : ∀ d ∈ c :: g, d ∈ t.kind := fun d hd => hkind ▸ List.mem_append_right _ hd
  have hcut : ∀ w, s.payload = c :: g ++ w → t.payload ++ rest' = w ++ frames m behind → False := by
    intro w htext hrest
    have hlength := congrArg List.length htext
    rw [List.length_append, List.length_cons] at hlength
    rcases List.append_eq_append_iff.mp hrest with ⟨a, hw, -⟩ | ⟨a, hw, hrest⟩
    · have := congrArg List.length hw
      rw [List.length_append] at this
      omega
    · cases a with
      | nil =>
        rw [List.append_nil] at hw
        rw [hw] at hlong
        omega
      | cons d a =>
        rw [hy, List.cons_append] at hrest
        obtain rfl := (List.cons.inj hrest).1
        rw [htext] at hdump
        obtain ⟨e, he⟩ := parsePayload_cut hj hdump (List.cons_ne_nil _ _)
          (fun d hd => (byte_of_validKind ht.kind (hg d hd)).2.2) a
        rw [hw, he] at hparse
        cases hparse
  rcases List.append_eq_append_iff.mp hrest with ⟨a, hga, hrest⟩ | ⟨w, htext, hrest⟩
  · cases a with
    | nil =>
      rw [List.append_nil] at hga
      exact hcut [] (by rw [hga, List.append_nil]) hrest.symm
    | cons d a =>
      rw [hy, List.cons_append] at hrest
      obtain rfl := (List.cons.inj hrest).1
      have hodd := hg 0x46 (hga ▸ List.mem_append_right _ List.mem_cons_self)
      exact (byte_of_validKind ht.kind hodd).2.1 rfl
  · exact hcut w htext hrest

/-- The kind is read as shorter: the record ends within its payload. -/
theorem damage_shorter_kind (hs : s.Fits) (hj : Dumpable j) (hdump : j.dump = .ok s.payload)
    {c : UInt8} {g : Bytes} (hkind : s.kind = t.kind ++ c :: g)
    (hlong : s.payload.length = t.payload.length)
    (hrest : t.payload ++ rest' = c :: g ++ (s.payload ++ frames m behind)) :
    ∃ tail, tail ≠ [] ∧ Json.Printable tail ∧ rest' = tail ++ frames m behind := by
  have hkindPrintable : Json.Printable s.kind := fun c hc => (byte_of_validKind hs.kind hc).1
  rw [← List.append_assoc] at hrest
  rcases List.append_eq_append_iff.mp hrest with ⟨a, htext, hrest⟩ | ⟨a, htext, -⟩
  · refine ⟨a, ?_, ?_, hrest⟩
    · rintro rfl
      have := congrArg List.length htext
      rw [List.append_nil, List.length_append, List.length_cons] at this
      omega
    · intro d hd
      have hmem : d ∈ c :: g ++ s.payload := htext ▸ List.mem_append_right _ hd
      rcases List.mem_append.mp hmem with hd | hd
      · exact hkindPrintable d (hkind ▸ List.mem_append_right _ hd)
      · exact Json.dump_printable hj.floats hdump d hd
  · have := congrArg List.length htext
    rw [List.length_append, List.length_append, List.length_cons] at this
    omega

end

/-- **What a damaged frame can be read as**: the record it was, or one that ends before it did. -/
theorem damage_cases {s t : Stored} (hs : s.Fits) (ht : t.Fits) (hj : Dumpable j)
    (hdump : j.dump = .ok s.payload) {n m : UInt64} {o : Nat} {b : UInt8} (ho : o < s.size)
    (hb : (s.frame n)[o]? ≠ some b) {behind : List Stored} (hbehind : behind ≠ []) {rest' : Bytes}
    {v : Json} (hparse : parsePayload t.payload = .ok v)
    (hsplit : (s.frame n).set o b ++ frames m behind = t.frame n ++ rest') :
    (t.kind = s.kind ∧ t.payload = s.payload ∧ rest' = frames m behind) ∨
      ∃ tail, tail ≠ [] ∧ Json.Printable tail ∧ rest' = tail ++ frames m behind := by
  have hlow := body_unchanged hs ht ho hb hsplit
  have hbody := body_of_split hlow hsplit
  rcases List.append_eq_append_iff.mp hbody with ⟨g, hkind, hrest⟩ | ⟨g, hkind, hrest⟩
  · cases g with
    | nil =>
      rw [List.append_nil] at hkind
      exact (damage_same_kind hj hdump hbehind hparse hrest).imp_left fun h => ⟨hkind, h⟩
    | cons c g =>
      have hlong : s.payload.length = t.payload.length := by
        refine payload_length_of_kind_ne hs ht hsplit ?_
        rw [hkind, List.length_append, List.length_cons]
        omega
      exact (damage_longer_kind ht hj hdump hbehind hparse hkind hlong hrest).elim
  · cases g with
    | nil =>
      rw [List.append_nil] at hkind
      exact (damage_same_kind hj hdump hbehind hparse hrest.symm).imp_left fun h => ⟨hkind.symm, h⟩
    | cons c g =>
      have hlong : s.payload.length = t.payload.length := by
        refine payload_length_of_kind_ne hs ht hsplit ?_
        rw [hkind, List.length_append, List.length_cons]
        omega
      exact .inr (damage_shorter_kind hs hj hdump hkind hlong hrest)

end Damaged

/-! ### A torn tail that is none -/

/-- The damage is in a length, the header is a frame's, and the frame runs past the end of the file. -/
structure RunsPast (config : JournalConfig) (s : Stored) (n : UInt64) (o : Nat) (b : UInt8)
    (rest : Bytes) : Prop where
  length : 6 ≤ o ∧ o < 12
  kind : field ((s.frame n).set o b) 6 2 ≠ 0 ∧ field ((s.frame n).set o b) 6 2 ≤ kMaximumKindBytes
  payload : field ((s.frame n).set o b) 8 4 ≤ config.maximumPayloadBytes
  past : s.kind.length + s.payload.length + rest.length <
    field ((s.frame n).set o b) 6 2 + field ((s.frame n).set o b) 8 4

theorem readFrame_eq_torn_iff {config : JournalConfig} {n : UInt64} {input : Bytes}
    (hlong : kFrameHeaderSize ≤ input.length) :
    readFrame config n input = .ok .torn ↔
      (∃ u, checkHeader (input.take kFrameHeaderSize) = .ok u) ∧
      (∃ u, checkBounds config n (input.take kFrameHeaderSize) = .ok u) ∧
      input.length < kFrameHeaderSize + field (input.take kFrameHeaderSize) 6 2 +
        field (input.take kFrameHeaderSize) 8 4 := by
  have hnonempty : input ≠ [] := by
    rintro rfl
    exact absurd hlong (by decide)
  have hshort : ((input.drop kFrameHeaderSize).take (field (input.take kFrameHeaderSize) 6 2)).length ≠
        field (input.take kFrameHeaderSize) 6 2 ∨
      (((input.drop kFrameHeaderSize).drop (field (input.take kFrameHeaderSize) 6 2)).take
        (field (input.take kFrameHeaderSize) 8 4)).length ≠ field (input.take kFrameHeaderSize) 8 4 ↔
      input.length < kFrameHeaderSize + field (input.take kFrameHeaderSize) 6 2 +
        field (input.take kFrameHeaderSize) 8 4 := by
    simp only [List.length_take, List.length_drop]
    omega
  rw [readFrame, if_neg hnonempty, if_neg (not_lt.mpr hlong), ← hshort]
  simp only [bind_eq_ok]
  constructor
  · rintro ⟨u, hheader, v, hbounds, h⟩
    refine ⟨⟨u, hheader⟩, ⟨v, hbounds⟩, ?_⟩
    split_ifs at h with htorn
    · exact htorn
    · simp only [bind_eq_ok, pure_eq_ok] at h
      obtain ⟨_, -, _, -, h⟩ := h
      cases h
  · rintro ⟨⟨u, hheader⟩, ⟨v, hbounds⟩, htorn⟩
    refine ⟨u, hheader, v, hbounds, ?_⟩
    rw [if_pos htorn]
    rfl

theorem field_take (l : Bytes) {k offset size : Nat} (h : offset + size ≤ k) :
    field (l.take k) offset size = field l offset size := by
  unfold field
  rw [List.drop_take, List.take_take, Nat.min_eq_left (by omega)]

/-- **When a damaged frame is taken for a torn tail.** -/
theorem readFrame_torn_iff {config : JournalConfig} {s : Stored} (hs : s.Fits) {n : UInt64} {o : Nat}
    {b : UInt8} {rest : Bytes} :
    readFrame config n ((s.frame n).set o b ++ rest) = .ok .torn ↔ RunsPast config s n o b rest := by
  have hlength : ((s.frame n).set o b ++ rest).length =
      kFrameHeaderSize + s.kind.length + s.payload.length + rest.length := by
    rw [List.length_append, List.length_set, s.length_frame, Stored.size]
  have hfield : ∀ {offset size : Nat}, offset + size ≤ 32 →
      field (((s.frame n).set o b ++ rest).take kFrameHeaderSize) offset size =
        field ((s.frame n).set o b) offset size := by
    intro offset size h
    have hheader : offset + size ≤ kFrameHeaderSize := h
    rw [field_take _ hheader]
    refine field_append _ ?_
    rw [List.length_set, s.length_frame, Stored.size, kFrameHeaderSize]
    omega
  have hsame : ∀ {offset size : Nat}, offset + size ≤ 32 → o < offset ∨ offset + size ≤ o →
      field ((s.frame n).set o b) offset size = field (s.header n) offset size := by
    intro offset size h ho
    rw [field_set _ _ ho, field_frame _ _ h]
  rw [readFrame_eq_torn_iff (by omega), hlength, hfield (by decide), hfield (by decide)]
  constructor
  · rintro ⟨-, ⟨u, hbounds⟩, hpast⟩
    simp only [checkBounds, throwIf_eq_ok, not_or, not_lt, not_not] at hbounds
    rw [hfield (by decide), hfield (by decide)] at hbounds
    have hinside : 6 ≤ o ∧ o < 12 := by
      by_contra hout
      have hkind : field ((s.frame n).set o b) 6 2 = s.kind.length :=
        (hsame (by decide) (by omega)).trans (field_kind _ _ _ (validKind_length hs.kind).2)
      have hpayload : field ((s.frame n).set o b) 8 4 = s.payload.length :=
        (hsame (by decide) (by omega)).trans (field_payload _ _ _ hs.payload)
      omega
    exact ⟨hinside, ⟨hbounds.1, hbounds.2.1⟩, hbounds.2.2.1, by omega⟩
  · rintro ⟨⟨hlow, hhigh⟩, ⟨hpos, hmax⟩, hpayload, hpast⟩
    refine ⟨⟨(), ?_⟩, ⟨(), ?_⟩, by omega⟩
    · have hheader := checkHeader_frameHeader s.synchronize n s.kind s.payload
      unfold checkHeader at hheader ⊢
      rw [hfield (by decide), hfield (by decide), hfield (by decide), hfield (by decide),
        hsame (by decide) (by omega), hsame (by decide) (by omega), hsame (by decide) (by omega),
        hsame (by decide) (by omega)]
      exact hheader
    · refine throwIf_of_not _ ?_
      rw [hfield (by decide), hfield (by decide), hfield (by decide),
        @hsame 16 8 (by decide) (by omega)]
      have hsequence : field (s.header n) 16 8 = n.toNat := field_sequence _ _ _ _
      omega

/-! ### Opening a damaged file -/

section Opening
variable {config : JournalConfig}

theorem openJournal_of_scan_error (hvalid : config.Valid) {rest : Bytes} {e : Error}
    (hsize : (kFileMagic ++ rest).length ≤ config.maximumFileBytes)
    (h : scan config ((kFileMagic ++ rest).length + 1) ⟨kFileMagic.length, 1, [], false⟩ rest =
      .error e) :
    openJournal config (.file (kFileMagic ++ rest)) = (.error e, .file (kFileMagic ++ rest)) := by
  rw [openJournal_magic hvalid, replay, scanFile_magic hsize, h]

/-- Files of one length that scan alike are opened alike, if nothing is cut off. -/
theorem replay_same {contents contents' : Bytes} {opened : Result Journal}
    (hlength : contents'.length = contents.length)
    (hscan : scanFile config contents' = scanFile config contents)
    (h : replay config contents = (opened, .file contents)) :
    replay config contents' = (opened, .file contents') := by
  unfold replay at h ⊢
  rw [hscan]
  cases hresult : scanFile config contents with
  | error e =>
    rw [hresult] at h
    exact congrArg (fun r => (r, Entry.file contents')) (congrArg Prod.fst h)
  | ok t =>
    rw [hresult] at h
    dsimp only at h ⊢
    split_ifs at h ⊢ with htorn
    · obtain ⟨hopened, hfile⟩ := Prod.mk.inj h
      have hall : contents.length ≤ t.lastComplete := by
        have := congrArg List.length (Entry.file.inj hfile)
        rw [List.length_take] at this
        omega
      rw [← hopened, hlength, List.take_of_length_le (by omega)]
    · exact congrArg (fun r => (r, Entry.file contents')) (congrArg Prod.fst h)

theorem scan_behind {records : List JournalRecord} {before : List Stored}
    (h : List.Forall₂ (Recorded config) records before) (hnumbered : Numbered 1 records)
    {total : Nat} (htotal : before.length + 2 ≤ total) :
    ∃ fuel, ∀ rest, scan config total ⟨kFileMagic.length, 1, [], false⟩ (frames 1 before ++ rest) =
      scan config (fuel + 2) (Scan.past config ⟨kFileMagic.length, 1, [], false⟩ records before)
        rest := by
  refine ⟨total - before.length - 2, fun rest => ?_⟩
  have hscan := scan_recorded h ⟨kFileMagic.length, 1, [], false⟩ hnumbered
    (total - before.length - 2 + 2) rest
  rwa [show before.length + (total - before.length - 2 + 2) = total by omega] at hscan

theorem scan_error {fuel : Nat} {state : Scan} {input : Bytes} {e : Error}
    (h : readFrame config state.expected input = .error e) :
    scan config (fuel + 1) state input = .error e := by
  rw [scan, h]
  rfl

theorem set_inside (p q x rest : Bytes) {o : Nat} (ho : o < x.length) (b : UInt8) :
    (p ++ (q ++ (x ++ rest))).set (p.length + q.length + o) b = p ++ (q ++ (x.set o b ++ rest)) ∧
      (p ++ (q ++ (x ++ rest)))[p.length + q.length + o]? = x[o]? := by
  have hsum : p.length + q.length + o - p.length - q.length = o := by omega
  constructor
  · rw [List.set_append_right _ _ (by omega), List.set_append_right _ _ (by omega), hsum,
      List.set_append_left _ _ ho]
  · rw [List.getElem?_append_right (by omega), List.getElem?_append_right (by omega), hsum,
      List.getElem?_append_left ho]

end Opening

section Recovery
variable [Platform] {config : JournalConfig}

/-- A new journal and its file after some appends that returned. -/
inductive Produced (config : JournalConfig) :
    Journal → Bytes → List JournalRecord → List Stored → Prop where
  | created {journal : Journal} {file : Bytes} :
      openJournal config .absent = (.ok journal, .file file) → Produced config journal file [] []
  | appended {journal journal' : Journal} {file file' kind encoded : Bytes} {payload : Json}
      {sequence : UInt64} {records : List JournalRecord} {stored : List Stored} :
      Produced config journal file records stored → payload.dump = .ok encoded →
      append journal file kind payload .succeeds = (.ok sequence, journal', file') →
      Produced config journal' file' (records ++ [⟨sequence, kind, payload⟩])
        (stored ++ [⟨config.synchronize, kind, encoded⟩])

theorem Produced.holds {journal : Journal} {file : Bytes} {records : List JournalRecord}
    {stored : List Stored} (h : Produced config journal file records stored) :
    Appended.Holds config journal file (records.map (·.payload)) [] records [] stored := by
  induction h with
  | @created journal file hopen =>
    have hvalid : config.Valid := (openJournal_framed hopen).1
    obtain ⟨hjournal, hfile⟩ := Prod.mk.inj ((openJournal_absent hvalid).symm.trans hopen)
    obtain rfl := Except.ok.inj hjournal
    obtain rfl := Entry.file.inj hfile
    have hmagic := hvalid.file
    exact ⟨hvalid, rfl, .nil, .nil, rfl, trivial, rfl, rfl, by omega⟩
  | appended _ hdump happend ih =>
    obtain ⟨encoded, hsame, hholds⟩ := ih.snoc happend
    obtain rfl := Except.ok.inj (hsame.symm.trans hdump)
    rw [List.map_append]
    exact hholds

/-- Opening throws and leaves the file, or every record is recovered and nothing is cut off. -/
def Recovers (config : JournalConfig) (records : List JournalRecord) (contents : Bytes) : Prop :=
  (∃ e, openJournal config (.file contents) = (.error e, .file contents)) ∨
    openJournal config (.file contents) =
      (.ok ⟨config, 1 + UInt64.ofNat records.length, 0,
        (records.map JournalRecord.reread).rtake config.recentRecordLimit⟩, .file contents)

theorem damage_unreached (hvalid : config.Valid) {records : List JournalRecord} {before : List Stored}
    (h : List.Forall₂ (Writes config) records before) (hnumbered : Numbered 1 records)
    (hdumpable : ∀ r ∈ records, Dumpable r.payload) (hdeep : ∃ r ∈ records, 32 < r.payload.depth)
    {rest : Bytes}
    (hsize : (kFileMagic ++ (frames 1 before ++ rest)).length ≤ config.maximumFileBytes) :
    ∃ e, openJournal config (.file (kFileMagic ++ (frames 1 before ++ rest))) =
      (.error e, .file (kFileMagic ++ (frames 1 before ++ rest))) := by
  obtain ⟨e, he⟩ := scan_written_error hvalid h hdumpable hdeep ⟨kFileMagic.length, 1, [], false⟩
    hnumbered ((kFileMagic ++ (frames 1 before ++ rest)).length + 1)
    (by
      simp only [List.length_append]
      omega) rest
  exact ⟨e, openJournal_of_scan_error hvalid hsize he⟩

/-- **Damage that does not take the frame past the end of the file** is refused, or nothing is lost. -/
theorem damage_kept {journal : Journal} {file : Bytes} {payloads : List Json}
    {records found : List JournalRecord} {before behind : List Stored} {s : Stored} {r : JournalRecord}
    (hholds : Appended.Holds config journal file payloads [] records [] (before ++ s :: behind))
    (hdumpable : ∀ p ∈ payloads, Dumpable p) (hfound : List.Forall₂ (Recorded config) found before)
    (hnumbered : Numbered 1 found) (hs : Writes config r s) (hr : Dumpable r.payload)
    (hbehind : behind ≠ []) {o : Nat} {b : UInt8} (ho : o < s.size)
    (hb : (s.frame (after 1 before))[o]? ≠ some b)
    (hno : ¬ RunsPast config s (after 1 before) o b (frames (after 1 before + 1) behind)) :
    Recovers config records (kFileMagic ++ (frames 1 before ++
      ((s.frame (after 1 before)).set o b ++ frames (after 1 before + 1) behind))) := by
  have hfits := hs.fits hholds.valid
  have hcontents : file = kFileMagic ++ (frames 1 before ++
      (s.frame (after 1 before) ++ frames (after 1 before + 1) behind)) := by
    rw [hholds.contents, List.nil_append, frames_append, frames]
  have hlength : (kFileMagic ++ (frames 1 before ++ ((s.frame (after 1 before)).set o b ++
      frames (after 1 before + 1) behind))).length = file.length := by
    rw [hcontents]
    simp only [List.length_append, List.length_set]
  have hsize := hholds.size
  rw [← hlength] at hsize
  have hlong := length_le_frames 1 before
  obtain ⟨fuel, hscan⟩ := scan_behind hfound hnumbered (show before.length + 2 ≤ file.length + 1 by
    rw [hcontents]
    simp only [List.length_append, s.length_frame, Stored.size, kFrameHeaderSize]
    omega)
  have herror : ∀ e, scan config (fuel + 2)
      (Scan.past config ⟨kFileMagic.length, 1, [], false⟩ found before)
      ((s.frame (after 1 before)).set o b ++ frames (after 1 before + 1) behind) = .error e →
      ∃ e, openJournal config (.file (kFileMagic ++ (frames 1 before ++
        ((s.frame (after 1 before)).set o b ++ frames (after 1 before + 1) behind)))) =
        (.error e, .file (kFileMagic ++ (frames 1 before ++
          ((s.frame (after 1 before)).set o b ++ frames (after 1 before + 1) behind)))) := by
    intro e he
    refine ⟨e, openJournal_of_scan_error hholds.valid hsize ?_⟩
    rw [hlength, hscan, he]
  cases hread : readFrame config (after 1 before)
      ((s.frame (after 1 before)).set o b ++ frames (after 1 before + 1) behind) with
  | error e => exact .inl (herror e (scan_error hread))
  | ok scanned =>
    cases scanned with
    | nothing =>
      have hnil := congrArg List.length (eq_nil_of_readFrame hread)
      rw [List.length_append, List.length_set, s.length_frame, Stored.size, kFrameHeaderSize] at hnil
      simp at hnil
    | torn => exact absurd ((readFrame_torn_iff hfits).mp hread) hno
    | record r' size rest' =>
      obtain ⟨t, ht, hsplit, rfl, -, -, -, hparse⟩ := frame_of_readFrame hread
      rcases damage_cases hfits ht hr hs.payload ho hb hbehind hparse hsplit with
        ⟨hkind, htext, hrest⟩ | ⟨tail, htail, hprintable, hrest⟩
      · -- The record is read as it was, so that the scans agree.
        have hsame : readFrame config (after 1 before)
            ((s.frame (after 1 before)).set o b ++ frames (after 1 before + 1) behind) =
              readFrame config (after 1 before)
                (s.frame (after 1 before) ++ frames (after 1 before + 1) behind) := by
          rw [hsplit, hrest, readFrame_frame ht, readFrame_frame hfits, hkind, htext]
          simp only [Stored.size, hkind, htext]
        have hscanFile : scanFile config (kFileMagic ++ (frames 1 before ++
            ((s.frame (after 1 before)).set o b ++ frames (after 1 before + 1) behind))) =
              scanFile config file := by
          have hfile := hholds.size
          rw [scanFile_magic hsize, hlength, hscan]
          rw [hcontents] at hfile hscan ⊢
          rw [scanFile_magic hfile, hscan, scan, scan]
          show (readFrame config (after 1 before) _ >>= _) = (readFrame config (after 1 before) _ >>= _)
          rw [hsame]
        by_cases hdepth : ∀ p ∈ payloads, p.depth ≤ 32
        · have hopen := hholds.reopened hdumpable hdepth
          rw [hcontents, openJournal_magic hholds.valid, ← hcontents] at hopen
          right
          rw [openJournal_magic hholds.valid, replay_same hlength hscanFile hopen, List.nil_append,
            List.nil_append, after, ← hholds.writes.length_eq]
        · simp only [not_forall, not_le] at hdepth
          obtain ⟨p, hp, hdeep⟩ := hdepth
          obtain ⟨e, hopen⟩ := hholds.refused hdumpable ⟨p, hp, hdeep⟩
          rw [hcontents, openJournal_magic hholds.valid, ← hcontents] at hopen
          left
          refine ⟨e, ?_⟩
          rw [openJournal_magic hholds.valid, replay_same hlength hscanFile hopen]
      · obtain ⟨e, he⟩ := readFrame_shifted htail hprintable hbehind config (after 1 before + 1)
          (after 1 before + 1)
        refine .inl (herror e ?_)
        rw [scan]
        show (readFrame config (after 1 before) _ >>= _) = _
        rw [hread, hrest]
        exact scan_error he

/-- **When one damaged byte of a frame that is not the last is refused, or nothing is lost**: exactly
when a record before it cannot be read, or the damage is not to a length that takes the frame past the
end of the file. -/
theorem damage_recovered_iff {journal : Journal} {file : Bytes} {records : List JournalRecord}
    {before behind : List Stored} {s : Stored}
    (h : Produced config journal file records (before ++ s :: behind))
    (hdumpable : ∀ r ∈ records, Dumpable r.payload) (hbehind : behind ≠ []) {o : Nat} {b : UInt8}
    (ho : o < s.size) (hb : file[kFileMagic.length + (frames 1 before).length + o]? ≠ some b) :
    Recovers config records (file.set (kFileMagic.length + (frames 1 before).length + o) b) ↔
      ¬ ((∀ r ∈ records.take before.length, r.payload.depth ≤ 32) ∧
        RunsPast config s (after 1 before) o b (frames (after 1 before + 1) behind)) := by
  have hholds := h.holds
  have hpayloads : ∀ p ∈ records.map (·.payload), Dumpable p := List.forall_mem_map.mpr hdumpable
  have hcontents : file = kFileMagic ++ (frames 1 before ++
      (s.frame (after 1 before) ++ frames (after 1 before + 1) behind)) := by
    rw [hholds.contents, List.nil_append, frames_append, frames]
  have hframe : o < (s.frame (after 1 before)).length := by rwa [s.length_frame]
  obtain ⟨hset, hget⟩ := set_inside kFileMagic (frames 1 before) (s.frame (after 1 before))
    (frames (after 1 before + 1) behind) hframe b
  rw [hcontents, hget] at hb
  have hsize := hholds.size
  have hfile : (file.set (kFileMagic.length + (frames 1 before).length + o) b).length = file.length :=
    List.length_set
  rw [← hfile, hcontents, hset] at hsize
  rw [hcontents, hset]
  -- The records before the damage, and the damaged one.
  have hbefore := List.forall₂_take_append _ _ _ hholds.writes
  have hrest := List.forall₂_drop_append _ _ _ hholds.writes
  have hnumbered : Numbered 1 (records.take before.length) := by
    have hall := hholds.numbered
    rw [List.nil_append, ← List.take_append_drop before.length records] at hall
    exact (numbered_append.mp hall).1
  have htaken : ∀ r ∈ records.take before.length, Dumpable r.payload :=
    fun r hr => hdumpable r (List.mem_of_mem_take hr)
  cases hdropped : records.drop before.length with
  | nil =>
    rw [hdropped] at hrest
    cases hrest
  | cons r others =>
    rw [hdropped] at hrest
    obtain ⟨hs, -⟩ := List.forall₂_cons.mp hrest
    have hr : Dumpable r.payload :=
      hdumpable r (List.mem_of_mem_drop (hdropped ▸ List.mem_cons_self))
    by_cases hdepth : ∀ r ∈ records.take before.length, r.payload.depth ≤ 32
    · have hfound := recorded_of_writes hholds.valid hbefore fun r hr => ⟨htaken r hr, hdepth r hr⟩
      constructor
      · rintro hrecovers ⟨-, hpast⟩
        have hopen := reopen_recorded hholds.valid hfound hnumbered.reread
          (.inr ((readFrame_torn_iff (hs.fits hholds.valid)).mpr hpast)) hsize
        have hcut : kFileMagic ++ frames 1 before ≠ kFileMagic ++ (frames 1 before ++
            ((s.frame (after 1 before)).set o b ++ frames (after 1 before + 1) behind)) := by
          intro heq
          have hlength := congrArg List.length heq
          simp only [List.length_append, List.length_set, s.length_frame, Stored.size,
            kFrameHeaderSize] at hlength
          omega
        rcases hrecovers with ⟨e, he⟩ | hok
        · cases (Prod.mk.inj (he.symm.trans hopen)).1
        · exact hcut (Entry.file.inj (Prod.mk.inj (hopen.symm.trans hok)).2)
      · intro hno
        exact damage_kept hholds hpayloads hfound hnumbered.reread hs hr hbehind ho hb
          fun hpast => hno ⟨hdepth, hpast⟩
    · refine iff_of_true (.inl ?_) fun hcond => hdepth hcond.1
      simp only [not_forall, not_le] at hdepth
      obtain ⟨r, hr, hdeep⟩ := hdepth
      exact damage_unreached hholds.valid hbefore hnumbered htaken ⟨r, hr, hdeep⟩ hsize

end Recovery

/-! Two records, and a byte of the first header changed. -/

section Sample

local instance damagePlatform : Platform := samplePlatform

def twoRecords : List JournalRecord := [⟨1, "a", .obj []⟩, ⟨2, "a", .obj []⟩]

def twoFrames : Bytes := kFileMagic ++ frame true 1 "a" "{}" ++ frame true 2 "a" "{}"

theorem twoRecords_produced : Produced sampleConfig
    ((sampleJournal.appended "a" (.obj [])).appended "a" (.obj [])) twoFrames twoRecords
    [⟨true, "a", "{}"⟩, ⟨true, "a", "{}"⟩] := by
  have hnew : Produced sampleConfig sampleJournal kFileMagic [] [] :=
    .created (show openJournal sampleConfig .absent = _ from rfl)
  have hone := hnew.appended (show (Json.obj []).dump = .ok "{}" from rfl)
    (show append sampleJournal kFileMagic "a" (.obj []) .succeeds =
      (.ok 1, sampleJournal.appended "a" (.obj []), kFileMagic ++ frame true 1 "a" "{}") from rfl)
  exact hone.appended (show (Json.obj []).dump = .ok "{}" from rfl)
    (show append (sampleJournal.appended "a" (.obj [])) (kFileMagic ++ frame true 1 "a" "{}") "a"
      (.obj []) .succeeds = (.ok 2, _, twoFrames) from rfl)

/-- The first payload's length is changed from 2 to 200: both records are cut off. -/
theorem damage_truncates :
    ∃ journal stored, Produced sampleConfig journal twoFrames twoRecords stored ∧
      openJournal sampleConfig (.file (twoFrames.set 16 200)) =
        (.ok ⟨sampleConfig, 1, 70, []⟩, .file kFileMagic) ∧
      ¬ Recovers sampleConfig twoRecords (twoFrames.set 16 200) := by
  have hopen : openJournal sampleConfig (.file (twoFrames.set 16 200)) =
      (.ok ⟨sampleConfig, 1, 70, []⟩, .file kFileMagic) := rfl
  refine ⟨_, _, twoRecords_produced, hopen, ?_⟩
  rintro (⟨e, he⟩ | hok)
  · cases (Prod.mk.inj (he.symm.trans hopen)).1
  · have hsame := Entry.file.inj (Prod.mk.inj (hopen.symm.trans hok)).2
    exact absurd (congrArg List.length hsame) (by decide +kernel)

/-- The first record's flag is changed: nothing is lost. -/
theorem damage_recovered_iff_sample : Recovers sampleConfig twoRecords (twoFrames.set 20 0) := by
  have hdumpable : ∀ r ∈ twoRecords, Dumpable r.payload := by
    intro r hr
    simp only [twoRecords, List.mem_cons, List.not_mem_nil, or_false] at hr
    rcases hr with rfl | rfl <;> exact readable_empty.toDumpable
  exact (@damage_recovered_iff _ _ _ _ _ [] [⟨true, "a", "{}"⟩] _ twoRecords_produced hdumpable
    (List.cons_ne_nil _ _) 12 0 (by decide) (by decide +kernel)).mpr
      fun hpast => absurd hpast.2.length.2 (by decide)

end Sample

end ContextHmi.Storage
