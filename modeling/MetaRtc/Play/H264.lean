import MetaRtc.Play.Aggregates
import MetaRtc.Play.Units

/-! # H264 frames across the wire

A frame is pushed as one packet or as its fragments, a key frame behind an aggregate of its
parameter sets. A track that gets every packet in order hands each frame on. -/
namespace MetaRtc

open Bytes Exec

section Aggregates

variable {nri : UInt8} {sps : YangSample} {rest : List YangSample}

theorem stap_type (data : RtpSTAPData) :
    playH264.naluType ((h264StapBytes data).getD 0 0) = playH264.stapA := by
  have hbits : ∀ v : UInt8, (kStapA ||| (v &&& ~~~kNalTypeMask)) &&& kNalTypeMask = kStapA :=
    forall_bytes (by decide +kernel)
  exact hbits data.nri

theorem decodeH264Stap_bytes (data : RtpSTAPData) (hok : ∀ p ∈ data.nalus, p.Sized)
    (hnri : data.nri < 0x80) {m : Mem}
    (h : m.slice 0 (h264StapBytes data).length = h264StapBytes data) :
    (playH264.decodeStap (initBuffer m (h264StapBytes data).length) {}).2.1.nalus =
      data.nalus := by
  have hclear : VideoCodec.Clear data.nri .h264 := by
    have hbits : ∀ v : UInt8, v < 0x80 → ¬ v &&& 0x80 = 0x80 := forall_bytes (by decide +kernel)
    exact hbits _ hnri
  obtain ⟨decoded, b, hdec, hnalus⟩ := @decodeStap_bytes .h264 data.nri m data.nalus hok hclear h
  exact (congrArg (fun r => r.2.1.nalus) hdec).trans hnalus

end Aggregates

/-- The frame is a slice, of a key frame or of another. -/
def IsSlice (key : Bool) (frame : YangFrame) : Prop :=
  1 ≤ frame.nb ∧ frame.payload 0 &&& kNalTypeMask =
    if key then yangAvcNaluTypeIDR else yangAvcNaluTypeNonIDR

/-- One packet takes the frame, or no fragment of it is missing; and the video buffer holds
it behind `n` further bytes. -/
def SentWhole (n : Nat) (frame : YangFrame) : Prop :=
  (frame.nb ≤ kRtpMaxPayloadSize ∨ (frame.nb - 1) % kRtpMaxPayloadSize ≠ 0) ∧
    5 + n + (4 + frame.nb) ≤ yangVideoEncodeBufferLen

/-- The frame's packets can be cached and put together: what the frame looks like at its
first packet, and whether each packet is taken for the beginning of a key frame. -/
structure Travels (key : Bool) (frame : YangFrame) (parts : List Part) (f : Entry)
    (gs : List Entry) : Prop where
  cached : FrameParts playH264 parts (f :: gs)
  builds : Builds playH264 (f :: gs) (behindLength frame.bytes)
  length : gs.length ≤ 500
  leading : Leading playH264 f
  first : f.key playH264 =
    if frame.nb ≤ kRtpMaxPayloadSize then key
    else decide (frame.payload 1 &&& kNalTypeMask = yangAvcNaluTypeIDR)
  fits : ∀ part ∈ parts, 12 + part.2.length ≤ kRtpPacketSize
  keys : ∀ part ∈ parts, KeyPart playH264 part.2 key

section Parts

variable {codec : PlayCodec} {size : Nat} {encode : Fua2Data → List UInt8}
  {cached : Fua2Data → Fua2DataCache} {ok : Fua2Data → Prop} {header naluType : UInt8}
  {total sz n i : Nat} {left : List UInt8} {frame : YangFrame} {key : Bool}

theorem fragments_parts (ha : Fua2Agrees codec size encode cached ok) (hsize : 0 < size)
    (hok : ∀ pkt : Fua2Data, pkt.naluType = naluType → ok pkt) (htotal : i + (n + 1) = total) :
    FrameParts codec
      ((fragmentData header naluType total sz (n + 1) i left).map (fragmentPart encode))
      ((fragmentData header naluType total sz (n + 1) i left).map (fragmentEntry codec cached)) := by
  induction n generalizing i left with
  | zero =>
    apply FrameParts.last
    · exact caches_fragment ha hsize (hok _ rfl)
    · exact decide_eq_true (by omega)
  | succ n ih =>
    apply FrameParts.cons
    · exact caches_fragment ha hsize (hok _ rfl)
    · exact decide_eq_false (by omega)
    · exact ih (by omega)

/-- The types of a slice are not those of an aggregate or a fragment. -/
theorem slice_type (h : IsSlice key frame) :
    playH264.naluType (frame.payload 0) ≠ playH264.fuA ∧
      playH264.naluType (frame.payload 0) ≠ playH264.stapA ∧
      playH264.rawKey (playH264.naluType (frame.payload 0)) = key := by
  have ht : playH264.naluType (frame.payload 0) = _ := h.2
  rw [ht]
  cases key <;> decide

theorem slice_bytes (h : 1 ≤ frame.nb) : frame.bytes = frame.payload 0 :: frame.bytes.drop 1 := by
  obtain ⟨k, hk⟩ := Nat.exists_eq_add_of_le' h
  simp only [YangFrame.bytes, hk, Mem.slice]
  rfl

theorem single_travels (h : IsSlice key frame) (hle : frame.nb ≤ kRtpMaxPayloadSize) :
    ∃ f gs, Travels key frame (videoParts pushH264 h264Fua2Bytes frame) f gs := by
  have hbytes := slice_bytes h.1
  have hne : frame.bytes ≠ [] := by
    rw [hbytes]
    simp
  have hfirst : frame.bytes.getD 0 0 = frame.payload 0 := by
    rw [hbytes]
    rfl
  have hlength : frame.bytes.length = frame.nb := Mem.slice_length _ _ _
  obtain ⟨hfu, hst, hkey⟩ := slice_type h
  rw [← hfirst] at hfu hst hkey
  have hbuild : Builds playH264 _ _ := .raw
    ⟨true, playH264.naluType (frame.bytes.getD 0 0), {}, frame.bytes⟩ hfu hst hne .nil
  rw [List.append_nil] at hbuild
  rw [videoParts, if_pos hle]
  refine ⟨⟨true, playH264.naluType (frame.bytes.getD 0 0), {}, frame.bytes⟩, [],
    .last (caches_raw hne hfu) rfl, hbuild, Nat.zero_le _, ⟨hne, fun hst' => absurd hst' hst⟩, ?_,
    ?_, ?_⟩
  · rw [if_pos hle, Entry.key, if_neg hst, if_neg hfu, hkey]
  · intro part hpart
    rw [List.mem_singleton.mp hpart]
    simp only [hlength, kRtpPacketSize, kRtpMaxPayloadSize] at hle ⊢
    omega
  · intro part hpart
    rw [List.mem_singleton.mp hpart, ← hkey]
    exact keyPart_raw hne hst hfu

theorem slice_naluType (h : IsSlice key frame) :
    pushH264.naluType (frame.payload 0) =
      if key then yangAvcNaluTypeIDR else yangAvcNaluTypeNonIDR :=
  h.2

/-- A fragment shows the type of its unit. -/
theorem fragment_key {pkt : Fua2Data}
    (h : pkt.naluType = if key then yangAvcNaluTypeIDR else yangAvcNaluTypeNonIDR) :
    KeyPart playH264 (h264Fua2Bytes pkt) key := by
  have hlt : pkt.naluType < 32 := by
    rw [h]
    cases key <;> decide
  obtain ⟨-, -, hsix⟩ := fuHeader_bits (UInt8.lt_trans hlt (by decide))
  have htype : fuHeader pkt &&& kNalTypeMask = pkt.naluType := mask_of_small hlt hsix
  have hlen : playH264.fuNalu < (h264Fua2Bytes pkt).length := by
    simp [playH264, h264Fua2Bytes]
  have hpart := keyPart_fua2 (h264_agrees.naluType pkt) (by decide) hlen
  have hkey : playH264.fuKey ((h264Fua2Bytes pkt).getD playH264.fuNalu 0) = key := by
    show decide (fuHeader pkt &&& kNalTypeMask = yangAvcNaluTypeIDR) = key
    rw [htype, h]
    cases key <;> decide
  rwa [hkey] at hpart

theorem entry_key_fragment {e : Entry} (h : e.naluType = codec.fuA) (hst : codec.fuA ≠ codec.stapA) :
    e.key codec = decide (e.bytes.getD 0 0 &&& kNalTypeMask = yangAvcNaluTypeIDR) := by
  rw [Entry.key, h, if_neg hst, if_pos rfl]

theorem fragmented_travels {k : Nat} (h : IsSlice key frame)
    (hlong : ¬ frame.nb ≤ kRtpMaxPayloadSize) (hw : SentWhole k frame) :
    ∃ f gs, Travels key frame (videoParts pushH264 h264Fua2Bytes frame) f gs := by
  obtain ⟨hwhole, hroom⟩ := hw
  have hmax : yangVideoEncodeBufferLen = 524288 := rfl
  have hmod := hwhole.resolve_left hlong
  have hleft : (frame.bytes.drop pushH264.headerSize).length = frame.nb - 1 := by
    rw [List.length_drop]
    exact congrArg (· - 1) (Mem.slice_length _ _ _)
  have htypes := slice_naluType h
  simp only [kRtpMaxPayloadSize] at hlong hmod
  obtain ⟨q, hq⟩ : ∃ q, (frame.nb - 1) / 1300 = q + 1 :=
    ⟨(frame.nb - 1) / 1300 - 1, by omega⟩
  have hn : numOfPacket frame.nb kRtpMaxPayloadSize = q + 2 := by
    simp only [numOfPacket, kRtpMaxPayloadSize, hmod, if_false, hq]
    omega
  have hfragments : frameFragments pushH264 frame = fragmentData (frame.payload 0)
      (pushH264.naluType (frame.payload 0)) (q + 2) 1300 (q + 2) 0
      (frame.bytes.drop pushH264.headerSize) := by
    unfold frameFragments
    rw [hn]
    rfl
  have hok : ∀ pkt : Fua2Data, pkt.naluType = pushH264.naluType (frame.payload 0) →
      pkt.naluType < 32 := by
    intro pkt hpkt
    rw [hpkt, htypes]
    cases key <;> decide
  obtain ⟨es, hes, hbuild, htake⟩ := fragmentData_builds playH264
    (frame.payload 0) (pushH264.naluType (frame.payload 0))
    (show ∀ pkt, (h264Cached pkt).start = pkt.start from fun _ => rfl) (fun _ => rfl)
    (show 0 < 1300 by decide) (n := q) (by rw [hleft]; omega) (by rw [hleft]; omega)
  have hparts : FrameParts playH264 ((frameFragments pushH264 frame).map
      (fragmentPart h264Fua2Bytes)) ((frameFragments pushH264 frame).map
      (fragmentEntry playH264 h264Cached)) := by
    rw [hfragments]
    exact fragments_parts (n := q + 1) h264_agrees (by decide) hok (by omega)
  have hlen := congrArg List.length hes
  rw [List.length_map, fragmentData_length, List.length_cons] at hlen
  have hheader : playH264.fuNaluHeader (h264Cached (firstFragment (frame.payload 0)
      (pushH264.naluType (frame.payload 0))
      ((frame.bytes.drop pushH264.headerSize).take 1300))) ++
      frame.bytes.drop pushH264.headerSize = frame.bytes := by
    have hbits : ∀ v : UInt8, (v &&& ~~~kNalTypeMask) ||| (v &&& kNalTypeMask) = v :=
      forall_bytes (by decide +kernel)
    show ((frame.payload 0 &&& ~~~kNalTypeMask) ||| (frame.payload 0 &&& kNalTypeMask)) ::
      frame.bytes.drop 1 = frame.bytes
    rw [hbits, ← slice_bytes h.1]
  rw [hheader] at hbuild
  rw [hfragments, hes, ← hfragments] at hparts
  rw [videoParts, if_neg (by simpa [kRtpMaxPayloadSize] using hlong)]
  have hst : playH264.fuA ≠ playH264.stapA := by decide
  refine ⟨_, es, hparts, hbuild, by omega, ⟨htake, fun hst' => absurd hst' hst⟩, ?_, ?_, ?_⟩
  · have hfirst : ((frame.bytes.drop 1).take 1300).getD 0 0 = frame.payload 1 := by
      have hget := frame.payload.slice_getD 0 (show 1 < frame.nb by omega) 0
      rw [← hget]
      simp [YangFrame.bytes]
    rw [if_neg (by simpa [kRtpMaxPayloadSize] using hlong), ← hfirst]
    exact entry_key_fragment rfl hst
  · intro part hpart
    obtain ⟨pkt, hpkt, rfl⟩ := List.mem_map.mp hpart
    have hpay := fragmentData_payload pkt hpkt
    simp only [fragmentPart, h264_agrees.length, kRtpPacketSize, kRtpMaxPayloadSize] at hpay ⊢
    omega
  · intro part hpart
    obtain ⟨pkt, hpkt, rfl⟩ := List.mem_map.mp hpart
    exact fragment_key ((fragmentData_naluType pkt hpkt).trans htypes)

end Parts

/-- What is pushed: a frame, a key frame behind its configuration record. -/
inductive PushItem where
  | idr (spspps frame : YangFrame)
  | inter (frame : YangFrame)

def pushItem (env : Env) (pub : Publisher) : PushItem → Call (Err × Publisher)
  | .idr spspps frame => do
    let (err, pub) ← pushH264PackageStapA env pub spspps
    if err ≠ yangOk then return (err, pub)
    else pushH264Video env pub frame
  | .inter frame => pushH264Video env pub frame

def pushAll (env : Env) : List PushItem → Publisher → Call (Err × Publisher)
  | [], pub => .ret (yangOk, pub)
  | item :: rest, pub => do
    let (err, pub) ← pushItem env pub item
    if err ≠ yangOk then return (err, pub)
    else pushAll env rest pub

/-- The frame as it should be handed on: with its timestamp of 32 bits. -/
def PushItem.delivery : PushItem → VideoFrame
  | .idr _ frame => ⟨.I, behindLength frame.bytes, frame.pts % 2 ^ 32⟩
  | .inter frame => ⟨.P, behindLength frame.bytes, frame.pts % 2 ^ 32⟩

/-- The record has an SPS and a PPS, and both fit the buffer of parameter sets. -/
def HasParameterSets (spspps : YangFrame) : Prop :=
  let (sps, pps) := decodeMetaH264 spspps.payload
  spspps.payload 13 < 0x80 ∧ spspps.payload 13 &&& kNalTypeMask = yangAvcNaluTypeSPS ∧
    pps.bytes.getD 0 0 &&& kNalTypeMask = yangAvcNaluTypePPS ∧ 0 < pps.nb ∧
    sps.nb + pps.nb + 16 ≤ yangNaluSpsppsBufferLen

/-- Frames the receiver hands on. A fragmented frame that is no key frame must not look like
one at its second byte. -/
def PushItem.Deliverable : PushItem → Prop
  | .idr spspps frame =>
    let (sps, pps) := decodeMetaH264 spspps.payload
    spspps.pts = frame.pts ∧ HasParameterSets spspps ∧ IsSlice true frame ∧
      SentWhole (8 + sps.bytes.length + pps.bytes.length) frame
  | .inter frame =>
    IsSlice false frame ∧ SentWhole 0 frame ∧
      (frame.nb ≤ kRtpMaxPayloadSize ∨
        frame.payload 1 &&& kNalTypeMask ≠ yangAvcNaluTypeIDR)

/-- The packets of an item, without their numbers. -/
def PushItem.parts : PushItem → List Part
  | .idr spspps frame =>
    let (sps, pps) := decodeMetaH264 spspps.payload
    (false, h264StapBytes { nri := spspps.payload 13, nalus := [sps, pps] }) ::
      videoParts pushH264 h264Fua2Bytes frame
  | .inter frame => videoParts pushH264 h264Fua2Bytes frame

def PushItem.pts : PushItem → Int
  | .idr _ frame => frame.pts
  | .inter frame => frame.pts

section Items

variable {env : Env} {pub pub' : Publisher} {play : PlayStream} {frame spspps : YangFrame}
  {item : PushItem} {s ssrc : Nat} {pts : Int}

theorem travels_exists {key : Bool} {k : Nat} (h : IsSlice key frame) (hw : SentWhole k frame) :
    ∃ f gs, Travels key frame (videoParts pushH264 h264Fua2Bytes frame) f gs := by
  by_cases hle : frame.nb ≤ kRtpMaxPayloadSize
  · exact single_travels h hle
  · exact fragmented_travels h hle hw

theorem pushH264PackageStapA_emits (hf : Fits pub pushH264)
    (h : pushH264PackageStapA env pub spspps = .ret (yangOk, pub')) :
    Emits pub pub' (unitsOf pub pushH264 spspps.pts [(false, h264StapBytes
      { nri := spspps.payload 13
        nalus := [(decodeMetaH264 spspps.payload).1, (decodeMetaH264 spspps.payload).2] })]) := by
  have hpush : pushH264PackageStapA env pub spspps = packageStapA env pushH264
      [(decodeMetaH264 spspps.payload).1, (decodeMetaH264 spspps.payload).2] (spspps.payload 13)
      pub spspps := rfl
  rw [hpush] at h
  refine packageStapA_emits hf (fun b b' hb => ?_) h
  exact encodeH264Stap_bytes hb

/-- An item that was pushed was sent as its packets. -/
theorem pushItem_emits (hf : Fits pub pushH264) (hd : item.Deliverable)
    (h : pushItem env pub item = .ret (yangOk, pub')) :
    Emits pub pub' (unitsOf pub pushH264 item.pts item.parts) := by
  cases item with
  | inter frame => exact pushVideo_emits (fun _ _ _ hb => encodeH264Fua2_bytes hb) hf h
  | idr spspps frame =>
    obtain ⟨⟨err, mid⟩, hstap, hrest⟩ := Call.bind_eq_ret.mp h
    simp only at hrest
    split at hrest
    · rename_i herr
      cases hrest
      exact absurd rfl herr
    · rename_i herr
      obtain rfl : err = yangOk := not_not.mp herr
      have hone := pushH264PackageStapA_emits hf hstap
      rw [hd.1] at hone
      have hvideo := pushVideo_emits (fun _ _ _ hb => encodeH264Fua2_bytes hb)
        (fits_of_emits hf hone) hrest
      exact units_append hf hone hvideo

/-- The stream of an idle receiver that waits for this number. -/
theorem waiting_collecting (h : Waiting play s) (hs : s < 65536) (ts : Nat) :
    Collecting playH264 play play.rtpBuffer.index s ts [] where
  cached := cachedFrom_nil playH264 _ s ts h.idle.sound.bufLen h.idle.sound.index
  room := h.idle.sound.room
  header := h.header
  lost := h.lost.trans (Nat.mod_eq_of_lt hs).symm
  free _ _ _ := h.idle.free _

theorem pts_toNat (pts : Int) : ((pts % 2 ^ 32).toNat : Int) = pts % 2 ^ 32 := by
  exact Int.toNat_of_nonneg (Int.emod_nonneg _ (pow_ne_zero 32 two_ne_zero))

theorem inter_received (hw : Waiting play s) (hs : s < 65536) (hssrc : ssrc < 2 ^ 32)
    (hd : (PushItem.inter frame).Deliverable) :
    ∃ play', receiveAll playH264 ((numbered pushH264.payloadType ssrc frame.pts s
        (PushItem.inter frame).parts).map RtpUnit.bytes) play = .ret play' ∧
      Waiting play' ((s + (PushItem.inter frame).parts.length) % 65536) ∧
      delivered play'.track.frames =
        delivered play.track.frames ++ [(PushItem.inter frame).delivery] := by
  obtain ⟨hslice, hwhole, hsecond⟩ := hd
  obtain ⟨f, gs, ht⟩ := travels_exists hslice hwhole
  have hfirst : f.key playH264 = false := by
    rw [ht.first]
    split
    · rfl
    · rename_i hlong
      exact decide_eq_false (hsecond.resolve_left hlong)
  have hlen : frame.bytes.length = frame.nb := Mem.slice_length _ _ _
  have hne : frame.bytes ≠ [] := by
    rw [slice_bytes hslice.1]
    simp
  have htype : frame.bytes.getD 0 0 &&& kNalTypeMask = yangAvcNaluTypeNonIDR := by
    rw [slice_bytes hslice.1]
    exact hslice.2
  have hroom : 5 + (4 + frame.bytes.length) ≤ yangVideoEncodeBufferLen := by
    rw [hlen]
    exact hwhole.2
  have hhands := handsOn_inter (frame.pts % 2 ^ 32).toNat hne htype hroom
  rw [← hfirst] at hhands
  have hcoll := waiting_collecting hw hs (frame.pts % 2 ^ 32).toNat
  have hgs := ht.length
  have hfit : 5 + (behindLength frame.bytes).length ≤ yangVideoEncodeBufferLen := by
    rw [behindLength_length]
    exact hroom
  have hsafe : KeySafe playH264 (videoParts pushH264 h264Fua2Bytes frame) play.track.keyFrameTs
      (frame.pts % 2 ^ 32).toNat :=
    fun part hpart => ⟨false, ht.keys part hpart, nofun⟩
  obtain ⟨play', hrun, hwait, hframes⟩ := receiveAll_frame ht.cached hcoll
    (show pushH264.payloadType < 128 by decide) hssrc hs
    (by rw [List.length_nil, List.length_cons]; omega) ht.fits hsafe rfl ht.builds ht.leading
    (fun _ => hw.idle.key) hfit hhands
  rw [List.length_nil, Nat.add_zero, Nat.mod_eq_of_lt hs] at hrun
  rw [pts_toNat] at hframes
  exact ⟨play', hrun, hwait, hframes⟩

theorem decodeMetaH264_sized (h : HasParameterSets spspps) :
    (decodeMetaH264 spspps.payload).1.Sized ∧ (decodeMetaH264 spspps.payload).2.Sized := by
  have hpos : 0 < (decodeMetaH264 spspps.payload).2.nb := h.2.2.2.1
  have hsum : (decodeMetaH264 spspps.payload).1.nb + (decodeMetaH264 spspps.payload).2.nb + 16 ≤
      (256 : Nat) := h.2.2.2.2
  have hsps : (decodeMetaH264 spspps.payload).1.nb =
      (decodeMetaH264 spspps.payload).1.bytes.length := by
    simp only [decodeMetaH264, Mem.slice_length]
  have hpps : (decodeMetaH264 spspps.payload).2.nb.toNat =
      (decodeMetaH264 spspps.payload).2.bytes.length := by
    simp only [decodeMetaH264, Mem.slice_length]
  unfold YangSample.Sized
  omega

/-- An SPS begins where the record says its type. -/
theorem decodeMetaH264_sps (buf : Mem) :
    (decodeMetaH264 buf).1.bytes.getD 0 0 = buf 13 ∧ (decodeMetaH264 buf).1.bytes ≠ [] := by
  have hlen : (decodeMetaH264 buf).1.bytes.length = (buf 12).toNat + 1 := by
    simp only [decodeMetaH264, Mem.slice_length]
  constructor
  · exact buf.slice_getD 13 (Nat.succ_pos _) 0
  · apply List.ne_nil_of_length_pos
    omega

/-- The aggregate of the parameter sets, as it is cached. -/
def stapEntry (data : RtpSTAPData) : Entry :=
  ⟨false, playH264.naluType ((h264StapBytes data).getD 0 0), {}, h264StapBytes data⟩

theorem stapBytes_nalu {data : RtpSTAPData} {sps : YangSample} {rest : List YangSample}
    (h : data.nalus = sps :: rest) (hsized : sps.Sized) (hne : sps.bytes ≠ []) :
    (h264StapBytes data).getD playH264.stapNalu 0 = sps.bytes.getD 0 0 ∧
      playH264.stapNalu < (h264StapBytes data).length := by
  have hpos := List.length_pos_of_ne_nil hne
  obtain ⟨b, bs, hbs⟩ := List.exists_cons_of_ne_nil hne
  have hbytes : h264StapBytes data = (kStapA ||| (data.nri &&& ~~~kNalTypeMask)) ::
      (beBytes 2 sps.bytes.length ++ sps.bytes ++ rest.flatMap stapNaluBytes) := by
    rw [h264StapBytes, h, List.flatMap_cons, stapNaluBytes_sized hsized]
  rw [hbytes, hbs]
  constructor
  · rfl
  · simp only [playH264, List.length_cons, List.length_append, beBytes_length]
    omega

/-- The aggregate of parameter sets begins a key frame, when it arrives and in the cache. -/
theorem stap_leads (data : RtpSTAPData) {sps : YangSample} {rest : List YangSample}
    (h : data.nalus = sps :: rest) (hsized : sps.Sized) (hne : sps.bytes ≠ [])
    (htype : sps.bytes.getD 0 0 &&& kNalTypeMask = yangAvcNaluTypeSPS) :
    Caches playH264 (false, h264StapBytes data) (stapEntry data) ∧
      KeyPart playH264 (h264StapBytes data) true ∧ Leading playH264 (stapEntry data) ∧
      (stapEntry data).key playH264 = true := by
  obtain ⟨hnalu, hlen⟩ := stapBytes_nalu h hsized hne
  have hst := stap_type data
  have hfu : playH264.naluType ((h264StapBytes data).getD 0 0) ≠ playH264.fuA := by
    rw [hst]
    decide
  have hbytes : h264StapBytes data ≠ [] := by
    simp [h264StapBytes]
  have hkey : playH264.stapKey ((h264StapBytes data).getD playH264.stapNalu 0) = true := by
    rw [hnalu]
    exact Bool.or_eq_true_iff.mpr (.inl (decide_eq_true htype))
  have hpart := keyPart_stap hst hlen
  rw [hkey] at hpart
  refine ⟨caches_raw hbytes hfu, hpart, ⟨hbytes, fun _ => hlen⟩, ?_⟩
  rw [Entry.key, stapEntry, if_pos hst]
  exact hkey

theorem stapPair_length (nri : UInt8) {sps pps : YangSample} (hsps : sps.Sized)
    (hpps : pps.Sized) :
    (h264StapBytes { nri, nalus := [sps, pps] }).length =
      5 + sps.bytes.length + pps.bytes.length := by
  simp only [h264StapBytes, List.flatMap_cons, List.flatMap_nil, List.length_cons,
    List.length_append, List.length_nil, stapNaluBytes_sized hsps, stapNaluBytes_sized hpps,
    beBytes_length]
  omega

/-- Two parameter sets and a key frame build the frame that is taken apart again. -/
theorem keyframe_builds {nri : UInt8} {sps pps : YangSample} {f : Entry} {gs : List Entry}
    {parts : List Part} (hsps : sps.Sized) (hpps : pps.Sized) (hspsPos : 0 < sps.nb)
    (hppsPos : 0 < pps.nb) (hnri : nri < 0x80) (ht : Travels true frame parts f gs) :
    Builds playH264 (stapEntry { nri, nalus := [sps, pps] } :: f :: gs)
      (behindLength sps.bytes ++ (behindLength pps.bytes ++ behindLength frame.bytes)) := by
  have hst : (stapEntry { nri, nalus := [sps, pps] }).naluType = playH264.stapA := stap_type _
  have hne : playH264.stapA ≠ playH264.fuA := by decide
  have hsized : ∀ p ∈ [sps, pps], p.Sized := by
    simp [hsps, hpps]
  have hbuild := Builds.stap (stapEntry { nri, nalus := [sps, pps] }) [sps, pps]
    (hst ▸ hne) hst
    (fun m hm => decodeH264Stap_bytes { nri, nalus := [sps, pps] } hsized hnri hm)
    (by simp [hspsPos, hppsPos]) ht.builds
  simpa using hbuild

/-- A key frame behind its parameter sets: the slice is handed on. -/
theorem keyframe_received {nri : UInt8} {sps pps : YangSample} (hidle : Idle play)
    (hs : s < 65536) (hssrc : ssrc < 2 ^ 32) (hsps : sps.Sized) (hpps : pps.Sized)
    (hspsPos : 0 < sps.nb) (hppsPos : 0 < pps.nb) (hnri : nri < 0x80)
    (hspsType : sps.bytes.getD 0 0 &&& kNalTypeMask = yangAvcNaluTypeSPS)
    (hppsType : pps.bytes.getD 0 0 &&& kNalTypeMask = yangAvcNaluTypePPS)
    (hsum : sps.bytes.length + pps.bytes.length + 16 ≤ 256) (hslice : IsSlice true frame)
    (hwhole : SentWhole (8 + sps.bytes.length + pps.bytes.length) frame) :
    ∃ play', receiveAll playH264 ((numbered pushH264.payloadType ssrc frame.pts s
        ((false, h264StapBytes { nri, nalus := [sps, pps] }) ::
          videoParts pushH264 h264Fua2Bytes frame)).map RtpUnit.bytes) play = .ret play' ∧
      Waiting play' ((s + (videoParts pushH264 h264Fua2Bytes frame).length + 1) % 65536) ∧
      delivered play'.track.frames = delivered play.track.frames ++
        [⟨.I, behindLength frame.bytes, frame.pts % 2 ^ 32⟩] := by
  obtain ⟨f, gs, ht⟩ := travels_exists hslice hwhole
  have hspsLen := hsps.1
  have hppsLen := hpps.1
  have hspsNe : sps.bytes ≠ [] := List.ne_nil_of_length_pos (by omega)
  have hppsNe : pps.bytes ≠ [] := List.ne_nil_of_length_pos (by omega)
  have hnaluNe : frame.bytes ≠ [] := by
    rw [slice_bytes hslice.1]
    simp
  have htype : frame.bytes.getD 0 0 &&& kNalTypeMask = yangAvcNaluTypeIDR := by
    rw [slice_bytes hslice.1]
    exact hslice.2
  have hlen : frame.bytes.length = frame.nb := Mem.slice_length _ _ _
  have hroom := hwhole.2
  rw [← hlen] at hroom
  obtain ⟨hcaches, hkey, hlead, hentry⟩ := stap_leads { nri, nalus := [sps, pps] } rfl
    hsps hspsNe hspsType
  let u : RtpUnit :=
    { header :=
        { payloadType := pushH264.payloadType
          ssrc
          marker := false
          sequence := s
          timestamp := (frame.pts % 2 ^ 32).toNat }
      payload := h264StapBytes { nri, nalus := [sps, pps] } }
  have hplain : u.header.Plain := numbered_plain (by decide) hssrc hs
    [(false, h264StapBytes { nri, nalus := [sps, pps] })] u List.mem_cons_self
  have hu : u.bytes.length ≤ kRtpPacketSize := by
    have hstapLen := stapPair_length nri hsps hpps
    simp only [u, RtpUnit.bytes, List.length_append, rtpHeaderBytes_length, hstapLen,
      kRtpPacketSize]
    omega
  obtain ⟨mid, hone, hcoll, hkts, hframes⟩ := collect_first (u := u) hidle hplain hs hu hcaches hkey
  have hhands := handsOn_key (frame.pts % 2 ^ 32).toNat hspsNe hppsNe hnaluNe hspsType
    hppsType htype hsum (by omega)
  rw [← hentry] at hhands
  have hgs := ht.length
  have hfit : 5 + (behindLength sps.bytes ++
      (behindLength pps.bytes ++ behindLength frame.bytes)).length ≤ yangVideoEncodeBufferLen := by
    simp only [List.length_append, behindLength_length]
    omega
  have hsafe : KeySafe playH264 (videoParts pushH264 h264Fua2Bytes frame) mid.track.keyFrameTs
      (frame.pts % 2 ^ 32).toNat :=
    fun part hpart => ⟨true, ht.keys part hpart, fun _ => hkts⟩
  obtain ⟨play', hrun, hwait, hframes'⟩ := receiveAll_frame ht.cached hcoll
    (show pushH264.payloadType < 128 by decide) hssrc hs
    (by simp only [List.length_cons, List.length_nil]; omega) ht.fits hsafe rfl
    (keyframe_builds hsps hpps (by omega) (by omega) hnri ht) hlead
    (fun hk => absurd (hentry.symm.trans hk) (by decide)) hfit hhands
  refine ⟨play', Call.bind_eq_ret.mpr ⟨_, hone, hrun⟩, ?_, ?_⟩
  · rwa [List.length_singleton, Nat.add_right_comm] at hwait
  · rw [hframes', hframes, pts_toNat]

/-- The step lemma: what an item's packets do to a receiver that has all packets before
them. A key frame does not need to know the number it comes with. -/
theorem item_received (hidle : Idle play)
    (hwait : (∃ frame, item = .inter frame) → Waiting play s) (hs : s < 65536)
    (hssrc : ssrc < 2 ^ 32) (hd : item.Deliverable) :
    ∃ play', receiveAll playH264 ((numbered pushH264.payloadType ssrc item.pts s item.parts).map
        RtpUnit.bytes) play = .ret play' ∧
      Waiting play' ((s + item.parts.length) % 65536) ∧
      delivered play'.track.frames = delivered play.track.frames ++ [item.delivery] := by
  cases item with
  | inter frame => exact inter_received (hwait ⟨frame, rfl⟩) hs hssrc hd
  | idr spspps frame =>
    obtain ⟨hpts, hsets, hslice, hwhole⟩ := hd
    obtain ⟨hspsSized, hppsSized⟩ := decodeMetaH264_sized hsets
    obtain ⟨hspsFirst, hspsNe⟩ := decodeMetaH264_sps spspps.payload
    obtain ⟨hnri, hspsType, hppsType, hlast⟩ := hsets
    have hpos : 0 < (decodeMetaH264 spspps.payload).2.nb := hlast.1
    have hsum : (decodeMetaH264 spspps.payload).1.nb + (decodeMetaH264 spspps.payload).2.nb + 16 ≤
        (256 : Nat) := hlast.2
    rw [← hspsFirst] at hspsType
    have hspsPos := List.length_pos_of_ne_nil hspsNe
    have hspsNb := hspsSized.1
    have hppsNb := hppsSized.1
    have hspsNbPos : 0 < (decodeMetaH264 spspps.payload).1.nb := by omega
    have hshort : (decodeMetaH264 spspps.payload).1.bytes.length +
        (decodeMetaH264 spspps.payload).2.bytes.length + 16 ≤ 256 := by omega
    exact keyframe_received hidle hs hssrc hspsSized hppsSized hspsNbPos hpos hnri hspsType
      hppsType hshort hslice hwhole

theorem pushAll_cons {rest : List PushItem}
    (h : pushAll env (item :: rest) pub = .ret (yangOk, pub')) :
    ∃ mid, pushItem env pub item = .ret (yangOk, mid) ∧
      pushAll env rest mid = .ret (yangOk, pub') := by
  obtain ⟨⟨err, mid⟩, hone, hrest⟩ := Call.bind_eq_ret.mp h
  simp only at hrest
  split at hrest
  · rename_i herr
    cases hrest
    exact absurd rfl herr
  · rename_i herr
    obtain rfl : err = yangOk := not_not.mp herr
    exact ⟨mid, hone, hrest⟩

/-- The run lemma: the packets of all items, one after the other. -/
theorem items_received {items : List PushItem} (hf : Fits pub pushH264)
    (hd : ∀ item ∈ items, item.Deliverable) (hidle : Idle play)
    (hwait : (∃ frame rest, items = .inter frame :: rest) → Waiting play (pub.media .video).seq)
    (h : pushAll env items pub = .ret (yangOk, pub')) :
    ∃ us play', Emits pub pub' us ∧ receiveAll playH264 (us.map RtpUnit.bytes) play = .ret play' ∧
      delivered play'.track.frames = delivered play.track.frames ++ items.map PushItem.delivery := by
  induction items generalizing pub play with
  | nil =>
    cases h
    exact ⟨[], play, emits_refl _, rfl, (List.append_nil _).symm⟩
  | cons item rest ih =>
    obtain ⟨mid, hone, hrest⟩ := pushAll_cons h
    have hitem := hd item List.mem_cons_self
    have hemits := pushItem_emits hf hitem hone
    obtain ⟨play₁, hrun, hwait₁, hframes₁⟩ := item_received hidle
      (fun ⟨frame, hinter⟩ => hwait ⟨frame, rest, by rw [hinter]⟩) hf.seq hf.ssrc hitem
    have hseq := hemits.seq hf.seq
    rw [unitsOf, numbered_length] at hseq
    rw [← hseq] at hwait₁
    obtain ⟨us, play', hemits', hrun', hframes'⟩ := ih (fits_of_emits hf hemits)
      (fun i hi => hd i (List.mem_cons_of_mem _ hi)) hwait₁.idle (fun _ => hwait₁) hrest
    refine ⟨_, play', emits_trans hemits hemits', ?_, ?_⟩
    · rw [List.map_append, receiveAll_append]
      exact Call.bind_eq_ret.mpr ⟨play₁, hrun, hrun'⟩
    · rw [hframes', hframes₁, List.map_cons, List.append_assoc]
      rfl

/-- A stream that begins with a key frame, or whose first number is the receiver's, is
handed on frame by frame. -/
theorem h264_delivered {items : List PushItem} (hf : Fits pub pushH264)
    (hd : ∀ item ∈ items, item.Deliverable)
    (hstart : (∀ frame rest, items ≠ .inter frame :: rest) ∨ (pub.media .video).seq = 0)
    (h : pushAll env items pub = .ret (yangOk, pub')) :
    ∃ play, receiveAll playH264 (newVideo pub pub') {} = .ret play ∧
      delivered play.track.frames = items.map PushItem.delivery := by
  have hidle : Idle {} := ⟨⟨rfl, by decide, rfl⟩, rfl, fun _ => rfl⟩
  have hwait : (∃ frame rest, items = .inter frame :: rest) →
      Waiting {} (pub.media .video).seq := by
    rintro ⟨frame, rest, hinter⟩
    rw [hstart.resolve_left fun hkey => hkey frame rest hinter]
    exact ⟨hidle, rfl, rfl⟩
  obtain ⟨us, play, hemits, hrun, hframes⟩ := items_received hf hd hidle hwait h
  rw [newVideo_of_emits hemits]
  exact ⟨play, hrun, hframes⟩

end Items

/-- A key frame and another one, across the end of the numbers. -/
theorem h264_delivered_two :
    let env : Env := { protect := fun packet => (0, packet), sendData := fun _ => yangOk, now := 0 }
    let pub := { createPublisher 5 7 1 65535 with srtp := { sendCtx := true, recvCtx := true } }
    let spspps : YangFrame :=
      ⟨ofList (List.replicate 12 0 ++ [1, 0x67, 0x42, 1, 0, 0x68]), 18, 90⟩
    let items : List PushItem :=
      [.idr spspps ⟨ofList [0x65, 0x88], 2, 90⟩, .inter ⟨ofList [0x41, 0x9A], 2, 180⟩]
    ∃ pub', pushAll env items pub = .ret (yangOk, pub') ∧
      ∃ play, receiveAll playH264 (newVideo pub pub') {} = .ret play ∧
        delivered play.track.frames = items.map PushItem.delivery := by
  intro env pub spspps items
  have hf : Fits pub pushH264 := ⟨by decide, by decide, by decide⟩
  have hd : ∀ item ∈ items, item.Deliverable := by
    intro item hitem
    rcases List.mem_cons.mp hitem with rfl | hitem
    · exact ⟨rfl, ⟨by decide, by decide, by decide, by decide, by decide⟩,
        ⟨by decide, by decide⟩, ⟨.inl (by decide), by decide⟩⟩
    · rw [List.mem_singleton.mp hitem]
      exact ⟨⟨by decide, by decide⟩, ⟨.inl (by decide), by decide⟩, .inl (by decide)⟩
  have hrun : (do
      let (err, _) ← pushAll env items pub
      return err) = .ret yangOk := by
    decide +kernel
  obtain ⟨⟨err, pub'⟩, hpush, hret⟩ := Call.bind_eq_ret.mp hrun
  cases hret
  have hkey : ∀ frame rest, items ≠ .inter frame :: rest := by
    intro frame rest hinter
    cases (List.cons.inj hinter).1
  exact ⟨pub', hpush, h264_delivered hf hd (.inl hkey) hpush⟩

/-- A frame that is no key frame, with number 9: a receiver that has seen no key frame waits
for number 0 and hands nothing on. -/
theorem inter_first_kept :
    let env : Env := { protect := fun packet => (0, packet), sendData := fun _ => yangOk, now := 0 }
    let pub := { createPublisher 5 7 1 9 with srtp := { sendCtx := true, recvCtx := true } }
    let items : List PushItem := [.inter ⟨ofList [0x41, 0x9A], 2, 180⟩]
    ∃ pub' play, pushAll env items pub = .ret (yangOk, pub') ∧
      receiveAll playH264 (newVideo pub pub') {} = .ret play ∧
      delivered play.track.frames ≠ items.map PushItem.delivery := by
  intro env pub items
  have hrun : (do
      let (err, pub') ← pushAll env items pub
      let play ← receiveAll playH264 (newVideo pub pub') {}
      return (err, delivered play.track.frames)) = .ret (yangOk, []) := by
    decide +kernel
  obtain ⟨⟨err, pub'⟩, hpush, hrest⟩ := Call.bind_eq_ret.mp hrun
  obtain ⟨play, hreceive, hret⟩ := Call.bind_eq_ret.mp hrest
  simp only [Call.pure_eq, Call.ret.injEq, Prod.mk.injEq] at hret
  obtain ⟨rfl, hnone⟩ := hret
  exact ⟨pub', play, hpush, hreceive, by rw [hnone]; exact nofun⟩

end MetaRtc
