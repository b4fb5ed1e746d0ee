import MetaRtc.Play.Rebuild

/-! # H265 units across the wire

Fragments carry the type of a unit and none of the rest of its two header bytes, so the
other end rebuilds the header with a layer and a temporal id of its own. -/
namespace MetaRtc

open Bytes Exec

/-- The header of a parameter set or a slice: the first bit is zero, and the temporal id is
counted from one. -/
def ValidH265Header (b0 b1 : UInt8) : Prop :=
  b0 &&& 0x80 = 0 ∧ b1 &&& 7 ≠ 0 ∧
    (hevcNaluType b0 ≤ 9 ∨ 16 ≤ hevcNaluType b0 ∧ hevcNaluType b0 ≤ 21 ∨
      32 ≤ hevcNaluType b0 ∧ hevcNaluType b0 ≤ 34)

instance (b0 b1 : UInt8) : Decidable (ValidH265Header b0 b1) := by
  unfold ValidH265Header
  infer_instance

/-- The payload of a fragment as the decoder leaves it, and nothing for another packet. -/
def h265Fragment (plaintext : List UInt8) : Option (List UInt8) :=
  let m := ofList plaintext
  let (_, pkt, _) := decodeRtpPacket {} (initBuffer m plaintext.length)
  match pkt.payload with
  | none => none
  | some p =>
    if hevcNaluType (m p) = h265KFuA then
      let (_, _, buf) := decodeH265Fua2 (initBuffer (m.drop p) pkt.nb) {}
      some ((m.drop p).slice buf.head buf.left.toNat)
    else none

/-- The packets of a push are put together to the frame's bytes behind their length, and
none of them is an empty fragment. -/
structure RebuildsH265 (play : PlayStream) (pub pub' : Publisher) (frame : YangFrame) : Prop where
  frame : ∃ tag, rebuildFrame playH265 play (newVideo pub pub') =
    .ret (some (tag :: 0x01 :: 0x00 :: 0x00 :: 0x00 :: behindLength frame.bytes))
  nonempty : ∀ packet ∈ newVideo pub pub', h265Fragment packet ≠ some []

/-- One packet takes the frame as it is; or its layer is 0 and its temporal id the first, no
fragment is missing or empty, and the video buffer holds it. -/
def SurvivesH265 (frame : YangFrame) : Prop :=
  frame.nb ≤ kRtpMaxPayloadSize ∨
    frame.payload 0 &&& 1 = 0 ∧ frame.payload 1 = 1 ∧
      (frame.nb - 1) % kRtpMaxPayloadSize ≠ 0 ∧ (frame.nb - 2) % kRtpMaxPayloadSize ≠ 0 ∧
      5 + (4 + frame.nb) ≤ yangVideoEncodeBufferLen

variable {env : Env} {pub pub' : Publisher} {play : PlayStream} {frame : YangFrame}

theorem behindLength_inj {a b : List UInt8} (hlen : a.length = b.length)
    (h : behindLength a = behindLength b) : a = b :=
  (List.append_inj h (by simp [hlen])).2

/-- The header rebuilt has the type of the one that was sent. -/
theorem rebuilt_header {b : UInt8} (h : b &&& 0x80 = 0) :
    hevcNaluType b <<< 1 = b ↔ b &&& 1 = 0 := by
  have hbits : ∀ b : UInt8, b &&& 0x80 = 0 → (hevcNaluType b <<< 1 = b ↔ b &&& 1 = 0) :=
    forall_bytes (by decide +kernel)
  exact hbits b h

theorem hevcNaluType_lt (b : UInt8) : hevcNaluType b < 64 := by
  have hbits : ∀ b : UInt8, hevcNaluType b < 64 := forall_bytes (by decide +kernel)
  exact hbits b

theorem frame_bytes_cons {frame : YangFrame} (h : 2 ≤ frame.nb) :
    frame.bytes = frame.payload 0 :: frame.payload 1 :: frame.bytes.drop 2 := by
  obtain ⟨k, hk⟩ := Nat.exists_eq_add_of_le' h
  simp only [YangFrame.bytes, hk, Mem.slice]
  rfl

theorem decode_unit {u : RtpUnit} (hp : u.header.Plain) :
    decodeRtpPacket {} (initBuffer (ofList u.bytes) u.bytes.length) =
        (yangOk, { header := u.header, payload := some 12, nb := u.payload.length },
          (initBuffer (ofList u.bytes) u.bytes.length).take 12) ∧
      ((ofList u.bytes).drop 12).slice 0 u.payload.length = u.payload := by
  have hlen : u.bytes.length = 12 + u.payload.length := by simp [RtpUnit.bytes]
  have hslice : (ofList u.bytes).slice 0 (12 + u.payload.length) =
      rtpHeaderBytes u.header ++ u.payload := by
    rw [← hlen]
    exact slice_ofList _
  obtain ⟨-, -, -, -, -, hpayload⟩ := slices_of_packet hslice
  rw [hlen]
  refine ⟨decodeRtpPacket_plain hp hslice, ?_⟩
  rw [Mem.slice_drop, Nat.add_zero, hpayload]

/-- The type that tells whether a packet is a fragment. -/
theorem unit_naluType {u : RtpUnit} (hp : u.header.Plain) (hne : u.payload ≠ []) :
    hevcNaluType (ofList u.bytes 12) = hevcNaluType (u.payload.getD 0 0) := by
  have hlen : 0 < u.payload.length := List.length_pos_of_ne_nil hne
  have hd := ((ofList u.bytes).drop 12).slice_getD 0 hlen 0
  rw [(decode_unit hp).2] at hd
  rw [hd]
  rfl

theorem h265Fragment_raw {u : RtpUnit} (hp : u.header.Plain) (hne : u.payload ≠ [])
    (ht : hevcNaluType (u.payload.getD 0 0) ≠ h265KFuA) : h265Fragment u.bytes = none := by
  rw [← unit_naluType hp hne] at ht
  simp only [h265Fragment, (decode_unit hp).1, ht, if_false]

theorem h265Fragment_fua2 {u : RtpUnit} (hp : u.header.Plain) {pkt : Fua2Data}
    (hu : u.payload = h265Fua2Bytes pkt) (hok : pkt.naluType < 64) :
    h265Fragment u.bytes = some pkt.payload := by
  have hlen : u.payload.length = 3 + pkt.payload.length := by rw [hu, h265_agrees.length]
  have ht : hevcNaluType (ofList u.bytes 12) = h265KFuA := by
    rw [unit_naluType hp (by rw [hu]; simp [h265Fua2Bytes]), hu]
    exact h265_agrees.naluType pkt
  have hpayload : ((ofList u.bytes).drop 12).slice 0 (3 + pkt.payload.length) =
      h265Fua2Bytes pkt := by
    rw [← hlen, (decode_unit hp).2, hu]
  obtain ⟨err, hdec⟩ := h265_agrees.decode pkt hok ((ofList u.bytes).drop 12) {} hpayload
  have hleft : ((3 + pkt.payload.length : Nat) - (3 : Nat) : Int).toNat = pkt.payload.length := by
    omega
  have hrest := ((ofList u.bytes).drop 12).drop_slice 0 (3 + pkt.payload.length) 3
  rw [hpayload, h265_agrees.payload, Nat.add_sub_cancel_left] at hrest
  simp only [h265Fragment, (decode_unit hp).1, ht, if_true, hlen]
  simp only [playH265] at hdec
  rw [hdec]
  simp only [YangBuffer.left, YangBuffer.take_head, YangBuffer.take_size, initBuffer]
  rw [Nat.zero_add, hleft]
  exact congrArg some hrest.symm

/-- A frame that one packet takes. -/
theorem single_rebuilt (hsound : play.Sound) (hf : Fits pub pushH265) (hnb : 2 ≤ frame.nb)
    (hvalid : ValidH265Header (frame.payload 0) (frame.payload 1))
    (hle : frame.nb ≤ kRtpMaxPayloadSize)
    (h : newVideo pub pub' =
      (unitsOf pub pushH265 frame.pts [(true, frame.bytes)]).map RtpUnit.bytes) :
    RebuildsH265 play pub pub' frame := by
  have hne : frame.bytes ≠ [] := by
    rw [frame_bytes_cons hnb]
    simp
  have hfirst : frame.bytes.getD 0 0 = frame.payload 0 := by
    rw [frame_bytes_cons hnb]
    rfl
  have hlength : frame.bytes.length = frame.nb := Mem.slice_length _ _ _
  have htypes : ∀ b0 b1, ValidH265Header b0 b1 →
      hevcNaluType b0 ≠ h265KFuA ∧ hevcNaluType b0 ≠ h265KStapA := by
    rintro b0 b1 ⟨-, -, ht⟩
    constructor
    · rintro hfu
      rw [hfu] at ht
      revert ht
      decide
    · rintro hst
      rw [hst] at ht
      revert ht
      decide
  obtain ⟨hfu, hst⟩ := htypes _ _ hvalid
  rw [← hfirst] at hfu hst
  simp only [kRtpMaxPayloadSize] at hle
  constructor
  · have hc : Caches playH265 (true, frame.bytes) _ := caches_raw hne hfu
    have hbuild : Builds playH265 _ _ := .raw
      ⟨true, hevcNaluType (frame.bytes.getD 0 0), {}, frame.bytes⟩ hfu hst hne .nil
    rw [List.append_nil] at hbuild
    have hfit : ∀ part ∈ [(true, frame.bytes)], 12 + part.2.length ≤ kRtpPacketSize := by
      intro part hpart
      rw [List.mem_singleton.mp hpart]
      simp only [hlength, kRtpPacketSize]
      omega
    have hroom : 5 + (behindLength frame.bytes).length ≤ yangVideoEncodeBufferLen := by
      simp only [behindLength, List.length_append, beBytes_length, hlength,
        yangVideoEncodeBufferLen]
      omega
    have hframe := rebuildFrame_builds frame.pts hsound (.cons hc .nil) hbuild
      hf.payloadType hf.ssrc hf.seq (by simp) hfit hne (fun hst' => absurd hst' hst) hroom
    rw [h]
    exact ⟨_, hframe⟩
  · intro packet hpacket
    rw [h] at hpacket
    obtain ⟨u, hu, rfl⟩ := List.mem_map.mp hpacket
    have hplain := numbered_plain hf.payloadType hf.ssrc hf.seq _ u hu
    rw [unitsOf, numbered, numbered, List.mem_singleton] at hu
    subst hu
    rw [h265Fragment_raw hplain hne hfu]
    intro hnone
    cases hnone

/-- The packets of a push that took fragments. -/
def SentFragmented (pub pub' : Publisher) (frame : YangFrame) : Prop :=
  newVideo pub pub' = (unitsOf pub pushH265 frame.pts
    ((frameFragments pushH265 frame).map (fragmentPart h265Fua2Bytes))).map RtpUnit.bytes

theorem left_length (frame : YangFrame) :
    (frame.bytes.drop pushH265.headerSize).length = frame.nb - 2 := by
  rw [List.length_drop]
  exact congrArg (· - 2) (Mem.slice_length _ _ _)

theorem frameFragments_ok (frame : YangFrame) : ∀ pkt ∈ frameFragments pushH265 frame, pkt.naluType < 64 := by
  intro pkt hpkt
  rw [fragmentData_naluType pkt hpkt]
  exact hevcNaluType_lt _

/-- The fragments among the packets sent, by their payloads. -/
theorem fragment_sent_iff (hf : Fits pub pushH265) (h : SentFragmented pub pub' frame)
    {payload : List UInt8} :
    (∃ packet ∈ newVideo pub pub', h265Fragment packet = some payload) ↔
      ∃ pkt ∈ frameFragments pushH265 frame, pkt.payload = payload := by
  rw [h]
  constructor
  · rintro ⟨packet, hpacket, hfrag⟩
    obtain ⟨u, hu, rfl⟩ := List.mem_map.mp hpacket
    obtain ⟨part, hpart, hpay⟩ := numbered_payload hu
    obtain ⟨pkt, hpkt, rfl⟩ := List.mem_map.mp hpart
    have hplain := numbered_plain hf.payloadType hf.ssrc hf.seq _ u hu
    rw [h265Fragment_fua2 hplain hpay (frameFragments_ok frame pkt hpkt)] at hfrag
    exact ⟨pkt, hpkt, Option.some.inj hfrag⟩
  · rintro ⟨pkt, hpkt, rfl⟩
    obtain ⟨u, hu, hpay⟩ := numbered_mem (List.mem_map_of_mem hpkt) pushH265.payloadType
      (pub.media .video).ssrc frame.pts (pub.media .video).seq
    have hplain := numbered_plain hf.payloadType hf.ssrc hf.seq _ u hu
    exact ⟨u.bytes, List.mem_map_of_mem hu,
      h265Fragment_fua2 hplain hpay (frameFragments_ok frame pkt hpkt)⟩

/-- Fragments of which none is missing or empty are put together to the bytes behind the
header, and a header with nothing but the type. -/
theorem fragments_rebuilt (hf : Fits pub pushH265) (hlong : ¬ frame.nb ≤ kRtpMaxPayloadSize)
    (h : SentFragmented pub pub' frame) (hsound : play.Sound)
    (h1 : (frame.nb - 1) % kRtpMaxPayloadSize ≠ 0) (h2 : (frame.nb - 2) % kRtpMaxPayloadSize ≠ 0)
    (hroom : 5 + (4 + frame.nb) ≤ yangVideoEncodeBufferLen) :
    ∃ tag, rebuildFrame playH265 play (newVideo pub pub') =
      .ret (some (tag :: 0x01 :: 0x00 :: 0x00 :: 0x00 ::
        behindLength (hevcNaluType (frame.payload 0) <<< 1 :: 0x01 :: frame.bytes.drop 2))) := by
  have hleft := left_length frame
  simp only [kRtpMaxPayloadSize] at hlong h1 h2
  obtain ⟨q, hq⟩ : ∃ q, (frame.nb - 1) / 1300 = q + 1 :=
    ⟨(frame.nb - 1) / 1300 - 1, by omega⟩
  have hn : numOfPacket frame.nb kRtpMaxPayloadSize = q + 2 := by
    simp only [numOfPacket, kRtpMaxPayloadSize, h1, if_false, hq]
    omega
  have hlo : 1300 * (q + 1) < (frame.bytes.drop pushH265.headerSize).length := by
    rw [hleft]
    omega
  have hhi : (frame.bytes.drop pushH265.headerSize).length ≤ 1300 * (q + 2) := by
    rw [hleft]
    omega
  have hstart : ∀ pkt, (h265Cached pkt).start = pkt.start := fun _ => rfl
  have hlast : ∀ pkt, (h265Cached pkt).last = pkt.last := fun _ => rfl
  obtain ⟨es, hes, hbuild, htake⟩ := fragmentData_builds playH265 (frame.payload 0)
    (pushH265.naluType (frame.payload 0)) hstart hlast (by omega) hlo hhi
  have hfragments : frameFragments pushH265 frame = fragmentData (frame.payload 0)
      (pushH265.naluType (frame.payload 0)) (q + 2) 1300 (q + 2) 0
      (frame.bytes.drop pushH265.headerSize) := by
    unfold frameFragments
    rw [hn]
    rfl
  have hcached := fragments_cached h265_agrees (by omega) (frameFragments_ok frame)
  have hlen := congrArg List.length hes
  rw [List.length_map, fragmentData_length] at hlen
  rw [hfragments, hes] at hcached
  have hfit : ∀ part ∈ (frameFragments pushH265 frame).map (fragmentPart h265Fua2Bytes),
      12 + part.2.length ≤ kRtpPacketSize := by
    intro part hpart
    obtain ⟨pkt, hpkt, rfl⟩ := List.mem_map.mp hpart
    have hpay := fragmentData_payload pkt hpkt
    simp only [fragmentPart, h265_agrees.length, kRtpPacketSize, kRtpMaxPayloadSize] at hpay ⊢
    omega
  rw [hfragments] at hfit
  have hmax : yangVideoEncodeBufferLen = 524288 := rfl
  have hfu : playH265.fuA ≠ playH265.stapA := by
    show h265KFuA ≠ h265KStapA
    decide
  have hbytes : 5 + (behindLength (playH265.fuNaluHeader (h265Cached (firstFragment
      (frame.payload 0) (pushH265.naluType (frame.payload 0))
      ((frame.bytes.drop pushH265.headerSize).take 1300))) ++
      frame.bytes.drop pushH265.headerSize)).length ≤ yangVideoEncodeBufferLen := by
    simp only [behindLength, List.length_append, beBytes_length, hleft]
    simp only [playH265, List.length_cons, List.length_nil]
    omega
  have hframe := rebuildFrame_builds frame.pts hsound hcached hbuild hf.payloadType hf.ssrc hf.seq
    (by omega) hfit htake (fun hst => absurd hst hfu) hbytes
  rw [SentFragmented, unitsOf, hfragments] at h
  rw [h]
  exact ⟨_, hframe⟩

/-- Where the fragments are one too few, nothing is sent. -/
theorem no_fragments (hnone : (frame.nb - 1) % kRtpMaxPayloadSize = 0)
    (h : SentFragmented pub pub' frame) : newVideo pub pub' = [] := by
  rw [h, frameFragments, numOfPacket, if_pos hnone]
  rfl

/-- The bytes behind the header end with a whole fragment, and one more is sent. -/
theorem last_fragment_empty (hf : Fits pub pushH265) (hlong : ¬ frame.nb ≤ kRtpMaxPayloadSize)
    (h2 : (frame.nb - 2) % kRtpMaxPayloadSize = 0) (h : SentFragmented pub pub' frame) :
    ∃ packet ∈ newVideo pub pub', h265Fragment packet = some [] := by
  apply (fragment_sent_iff hf h).mpr
  have hleft := left_length frame
  simp only [kRtpMaxPayloadSize] at hlong h2
  have hn : numOfPacket frame.nb kRtpMaxPayloadSize = (frame.nb - 2) / 1300 + 1 := by
    have h1 : (frame.nb - 1) % 1300 ≠ 0 := by omega
    simp only [numOfPacket, kRtpMaxPayloadSize, h1, if_false]
    omega
  unfold frameFragments
  rw [hn]
  apply fragmentData_empty
  simp only [hleft, kRtpMaxPayloadSize]
  omega

theorem fragmented_nonempty (hf : Fits pub pushH265) (hlong : ¬ frame.nb ≤ kRtpMaxPayloadSize)
    (h2 : (frame.nb - 2) % kRtpMaxPayloadSize ≠ 0) (h : SentFragmented pub pub' frame) :
    ∀ packet ∈ newVideo pub pub', h265Fragment packet ≠ some [] := by
  intro packet hpacket hempty
  obtain ⟨pkt, hpkt, hnil⟩ := (fragment_sent_iff hf h).mp ⟨packet, hpacket, hempty⟩
  have hleft := left_length frame
  simp only [kRtpMaxPayloadSize] at hlong h2
  by_cases h1 : (frame.nb - 1) % 1300 = 0
  · rw [frameFragments, numOfPacket, kRtpMaxPayloadSize, if_pos h1] at hpkt
    simp [fragmentData] at hpkt
  · have hn : numOfPacket frame.nb kRtpMaxPayloadSize = (frame.nb - 1) / 1300 + 1 := by
      simp only [numOfPacket, kRtpMaxPayloadSize, h1, if_false]
      omega
    unfold frameFragments at hpkt
    rw [hn] at hpkt
    apply fragmentData_nonempty (by decide) ?_ pkt hpkt hnil
    simp only [hleft, kRtpMaxPayloadSize]
    omega

theorem fragmented_rebuilds_iff (hsound : play.Sound) (hf : Fits pub pushH265)
    (hnb : 2 ≤ frame.nb) (hvalid : ValidH265Header (frame.payload 0) (frame.payload 1))
    (hlong : ¬ frame.nb ≤ kRtpMaxPayloadSize) (h : SentFragmented pub pub' frame) :
    RebuildsH265 play pub pub' frame ↔ SurvivesH265 frame := by
  have hlength : frame.bytes.length = frame.nb := Mem.slice_length _ _ _
  have hbehind : (behindLength frame.bytes).length = 4 + frame.nb := by
    simp only [behindLength, List.length_append, beBytes_length, hlength]
  constructor
  · rintro ⟨⟨tag, hframe⟩, hne⟩
    have h1 : (frame.nb - 1) % kRtpMaxPayloadSize ≠ 0 := by
      intro h1
      rw [no_fragments h1 h] at hframe
      cases hframe
    have h2 : (frame.nb - 2) % kRtpMaxPayloadSize ≠ 0 := by
      intro h2
      obtain ⟨packet, hpacket, hempty⟩ := last_fragment_empty hf hlong h2 h
      exact hne packet hpacket hempty
    have hroom := rebuildFrame_length hsound hframe
    simp only [List.length_cons, hbehind] at hroom
    obtain ⟨tag', hframe'⟩ := fragments_rebuilt hf hlong h hsound h1 h2 (by omega)
    rw [hframe'] at hframe
    simp only [Call.ret.injEq, Option.some.injEq, List.cons.injEq, true_and] at hframe
    have hbytes := behindLength_inj (by simp [hlength]; omega) hframe.2
    rw [frame_bytes_cons hnb, List.cons.injEq, List.cons.injEq] at hbytes
    exact .inr ⟨(rebuilt_header hvalid.1).mp hbytes.1, hbytes.2.1.symm, h1, h2, by omega⟩
  · rintro (hle | ⟨hlayer, htid, h1, h2, hroom⟩)
    · exact absurd hle hlong
    · constructor
      · have hbytes : hevcNaluType (frame.payload 0) <<< 1 :: 0x01 :: frame.bytes.drop 2 =
            frame.bytes := by
          rw [(rebuilt_header hvalid.1).mpr hlayer, ← htid]
          exact (frame_bytes_cons hnb).symm
        rw [← hbytes]
        exact fragments_rebuilt hf hlong h hsound h1 h2 hroom
      · exact fragmented_nonempty hf hlong h2 h

/-- Exactly then the other end has the frame that was pushed, and no fragment was empty. -/
theorem h265_rebuilds_iff (hsound : play.Sound) (hf : Fits pub pushH265) (hnb : 2 ≤ frame.nb)
    (hvalid : ValidH265Header (frame.payload 0) (frame.payload 1))
    (h : pushH265Video env pub frame = .ret (yangOk, pub')) :
    RebuildsH265 play pub pub' frame ↔ SurvivesH265 frame := by
  have hemits := pushVideo_emits (fun _ _ _ hb => encodeH265Fua2_bytes hb) hf h
  have hsent := newVideo_of_emits hemits
  by_cases hle : frame.nb ≤ kRtpMaxPayloadSize
  · rw [videoParts, if_pos hle] at hsent
    exact iff_of_true (single_rebuilt hsound hf hnb hvalid hle hsent) (.inl hle)
  · rw [videoParts, if_neg hle] at hsent
    exact fragmented_rebuilds_iff hsound hf hnb hvalid hle hsent

/-- A slice of three bytes. -/
theorem h265_rebuilds_slice :
    let env : Env := { protect := fun packet => (0, packet), sendData := fun _ => yangOk, now := 0 }
    let pub := { createPublisher 5 7 1 9 with srtp := { sendCtx := true, recvCtx := true } }
    let frame : YangFrame := ⟨ofList [0x02, 0x01, 0xD0], 3, 90⟩
    ∃ pub', pushH265Video env pub frame = .ret (yangOk, pub') ∧
      (RebuildsH265 {} pub pub' frame ↔ SurvivesH265 frame) := by
  intro env pub frame
  have hsound : ({} : PlayStream).Sound := ⟨rfl, by decide, rfl⟩
  have hf : Fits pub pushH265 := ⟨by decide, by decide, by decide⟩
  have hrun : (do
      let pushed ← pushH265Video env pub frame
      return pushed.1) = .ret yangOk := by
    decide +kernel
  obtain ⟨⟨err, pub'⟩, hpush, hret⟩ := Call.bind_eq_ret.mp hrun
  cases hret
  exact ⟨pub', hpush, h265_rebuilds_iff hsound hf (by decide) (by decide) hpush⟩

/-- Of a key frame of 1301 bytes nothing is sent. -/
theorem h265_unsent :
    let env : Env := { protect := fun packet => (0, packet), sendData := fun _ => yangOk, now := 0 }
    let pub := { createPublisher 5 7 1 9 with srtp := { sendCtx := true, recvCtx := true } }
    let frame : YangFrame := ⟨ofList [0x26, 0x01], 1301, 90⟩
    2 ≤ frame.nb ∧ ValidH265Header (frame.payload 0) (frame.payload 1) ∧
      ∃ pub', pushH265Video env pub frame = .ret (yangOk, pub') ∧
        ¬ RebuildsH265 {} pub pub' frame := by
  intro env pub frame
  have hrun : (do
      let pushed ← pushH265Video env pub frame
      return (pushed.1, newVideo pub pushed.2)) = .ret (yangOk, []) := by
    decide +kernel
  obtain ⟨⟨err, pub'⟩, hpush, hret⟩ := Call.bind_eq_ret.mp hrun
  simp only [Call.pure_eq, Call.ret.injEq, Prod.mk.injEq] at hret
  obtain ⟨rfl, hnone⟩ := hret
  refine ⟨by decide, by decide, pub', hpush, ?_⟩
  rintro ⟨⟨tag, hframe⟩, -⟩
  rw [hnone] at hframe
  cases hframe

end MetaRtc
