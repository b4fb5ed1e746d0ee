import MetaRtc.Play.Rebuild
import MetaRtc.Play.Cached
import MetaRtc.Publish.Resend

/-! # The fragments of a unit -/
namespace MetaRtc

open Bytes Exec

/-- Packets that are the fragments of a unit: each decodes to the unit's own header, with
the flags of its place. -/
structure Fragmented (header : UInt8) (size : Nat) (bytes : List UInt8) (seq : Nat)
    (units : List RtpUnit) : Prop where
  nonempty : units ≠ []
  sequence : ∀ i, ∀ h : i < units.length, units[i].header.sequence = (seq + i) % 65536
  marker : ∀ i, ∀ h : i < units.length,
    units[i].header.marker = decide (i + 1 = units.length)
  indicator : ∀ u ∈ units, u.payload.getD 0 0 &&& kNalTypeMask = kFuA
  sizes : ∀ u ∈ units, 0 < (u.payload.drop 2).length ∧ (u.payload.drop 2).length ≤ size
  bytes : (units.flatMap fun u => u.payload.drop 2) = bytes
  decoded : ∀ i, ∀ h : i < units.length, ∀ old,
    decodeH264Fua2 (initBuffer (ofList units[i].payload) units[i].payload.length) old =
      (yangOk,
        { start := decide (i = 0)
          last := decide (i + 1 = units.length)
          nri := header &&& ~~~kNalTypeMask
          naluType := header &&& kNalTypeMask },
        (initBuffer (ofList units[i].payload) units[i].payload.length).take 2)

/-- The unit is sent as its fragments. -/
def SendsFragments (env : Env) (pub : Publisher) (frame : YangFrame) (size : Nat) : Prop :=
  ∃ pub' units, packageFuA env pushH264 pub frame size = .ret (yangOk, pub') ∧
    Emits pub pub' units ∧
    Fragmented (frame.payload 0) size (frame.bytes.drop 1) (pub.media .video).seq units

/-- Packets can be encrypted and sent. -/
structure Working (env : Env) : Prop where
  protect : ∀ packet, (env.protect packet).1 = 0
  sendData : ∀ n, env.sendData n = yangOk

section Parts

variable {header naluType : UInt8} {total size n i k : Nat} {left : List UInt8}

theorem fragmentData_getElem (h : k < (fragmentData header naluType total size n i left).length) :
    (fragmentData header naluType total size n i left)[k] =
      { start := decide (i + k = 0)
        last := decide (i + k = total - 1)
        nri := header
        naluType
        payload := (left.drop (size * k)).take size } := by
  induction n generalizing i left k with
  | zero => simp [fragmentData] at h
  | succ n ih =>
    cases k with
    | zero => rfl
    | succ k =>
      have hplace : i + 1 + k = i + (k + 1) := by omega
      have hbytes : (left.drop size).drop (size * k) = left.drop (size * (k + 1)) := by
        rw [List.drop_drop, Nat.mul_succ, Nat.add_comm]
      simp only [fragmentData, List.getElem_cons_succ]
      rw [ih, hplace, hbytes]

theorem fragmentData_bytes (h : left.length ≤ n * size) :
    (fragmentData header naluType total size n i left).flatMap (·.payload) = left := by
  induction n generalizing i left with
  | zero => simp [fragmentData, List.length_eq_zero_iff.mp (by omega : left.length = 0)]
  | succ n ih =>
    have hrest : (left.drop size).length ≤ n * size := by
      rw [List.length_drop]
      rw [Nat.succ_mul] at h
      omega
    rw [fragmentData, List.flatMap_cons, ih hrest, List.take_append_drop]

theorem numbered_getElem {payloadType ssrc : Nat} {pts : Int} {seq : Nat} {parts : List Part}
    (hseq : seq < 65536) (h : k < (numbered payloadType ssrc pts seq parts).length)
    (hk : k < parts.length) :
    (numbered payloadType ssrc pts seq parts)[k].header.sequence = (seq + k) % 65536 ∧
      (numbered payloadType ssrc pts seq parts)[k].header.marker = parts[k].1 ∧
      (numbered payloadType ssrc pts seq parts)[k].payload = parts[k].2 := by
  induction parts generalizing seq k with
  | nil => simp at hk
  | cons part parts ih =>
    cases k with
    | zero => exact ⟨(Nat.mod_eq_of_lt hseq).symm, rfl, rfl⟩
    | succ k =>
      obtain ⟨hnumber, hrest⟩ := ih (Nat.mod_lt (seq + 1) (by decide : 0 < 65536))
        (Nat.lt_of_succ_lt_succ h) (Nat.lt_of_succ_lt_succ hk)
      refine ⟨?_, hrest⟩
      simp only [numbered, List.getElem_cons_succ]
      rw [hnumber]
      omega

theorem numbered_payloads (payloadType ssrc : Nat) (pts : Int) (seq : Nat) (parts : List Part) :
    (numbered payloadType ssrc pts seq parts).map (·.payload) = parts.map (·.2) := by
  induction parts generalizing seq with
  | nil => rfl
  | cons part parts ih => simp [numbered, ih]

end Parts

theorem decodeH264Fua2_ok {buf : YangBuffer} (htwo : buf.require 2 = true)
    (hmore : (buf.take 2).require 1 = true) (old : Fua2DataCache) :
    (decodeH264Fua2 buf old).1 = yangOk := by
  simp [decodeH264Fua2, htwo, hmore]

/-- A fragment reads back as it was written. -/
theorem h264Fua2_decoded {pkt : Fua2Data} (hne : pkt.payload ≠ []) (htype : pkt.naluType < 32)
    (old : Fua2DataCache) :
    decodeH264Fua2 (initBuffer (ofList (h264Fua2Bytes pkt)) (h264Fua2Bytes pkt).length) old =
      (yangOk, h264Cached pkt,
        (initBuffer (ofList (h264Fua2Bytes pkt)) (h264Fua2Bytes pkt).length).take 2) := by
  have hlength := h264_agrees.length pkt
  have hpos := List.length_pos_of_ne_nil hne
  obtain ⟨err, hdecode⟩ := h264_agrees.decode pkt htype (ofList (h264Fua2Bytes pkt)) old
    (hlength ▸ slice_ofList _)
  rw [← hlength] at hdecode
  have hok := @decodeH264Fua2_ok
    (initBuffer (ofList (h264Fua2Bytes pkt)) (h264Fua2Bytes pkt).length)
    (YangBuffer.initBuffer_requires (by decide) (by omega))
    ((YangBuffer.require_iff _ 1).mpr (by simp [YangBuffer.left, initBuffer]; omega)) old
  have herr : decodeH264Fua2 (initBuffer (ofList (h264Fua2Bytes pkt)) (h264Fua2Bytes pkt).length)
      old = (err, h264Cached pkt, _) := hdecode
  rw [herr] at hok ⊢
  rw [show err = yangOk from hok]

/-- The packets of a unit that leaves a rest. -/
theorem fragmented_units {size seq : Nat} {bytes : List UInt8} (header : UInt8)
    (payloadType ssrc : Nat) (pts : Int) (hseq : seq < 65536) (hpos : 0 < size)
    (hrest : bytes.length % size ≠ 0) :
    Fragmented header size bytes seq (numbered payloadType ssrc pts seq
      ((fragmentData header (header &&& kNalTypeMask) (1 + bytes.length / size) size
        (1 + bytes.length / size) 0 bytes).map (fragmentPart h264Fua2Bytes))) := by
  obtain ⟨data, hdata⟩ : ∃ data, data = fragmentData header (header &&& kNalTypeMask)
    (1 + bytes.length / size) size (1 + bytes.length / size) 0 bytes := ⟨_, rfl⟩
  obtain ⟨units, hunits⟩ : ∃ units, units = numbered payloadType ssrc pts seq
    (data.map (fragmentPart h264Fua2Bytes)) := ⟨_, rfl⟩
  have hcount : data.length = 1 + bytes.length / size := by rw [hdata, fragmentData_length]
  have hlength : units.length = data.length := by rw [hunits, numbered_length, List.length_map]
  have hdivided := Nat.div_add_mod bytes.length size
  have hpiece : ∀ k, ∀ h : k < data.length, data[k] =
      { start := decide (k = 0)
        last := decide (k + 1 = data.length)
        nri := header
        naluType := header &&& kNalTypeMask
        payload := (bytes.drop (size * k)).take size } := by
    intro k hk
    have hlast : (k = 1 + bytes.length / size - 1) = (k + 1 = data.length) := by
      rw [hcount, eq_iff_iff]
      omega
    subst hdata
    rw [fragmentData_getElem, Nat.zero_add]
    simp only [hlast]
  have hsize : ∀ k < data.length, 0 < ((bytes.drop (size * k)).take size).length ∧
      ((bytes.drop (size * k)).take size).length ≤ size := by
    intro k hk
    have hbefore : size * k ≤ size * (bytes.length / size) :=
      Nat.mul_le_mul_left size (by omega)
    rw [List.length_take, List.length_drop]
    omega
  have hpayloads : units.map (·.payload) = data.map h264Fua2Bytes := by
    rw [hunits, numbered_payloads, List.map_map]
    rfl
  have hunit : ∀ k, ∀ h : k < units.length, ∀ h' : k < data.length,
      units[k].header.sequence = (seq + k) % 65536 ∧ units[k].header.marker = data[k].last ∧
        units[k].payload = h264Fua2Bytes data[k] := by
    intro k hk hk'
    subst hunits
    obtain ⟨hnumber, hmarker, hpayload⟩ := numbered_getElem hseq hk (by rwa [List.length_map])
    rw [List.getElem_map] at hmarker hpayload
    exact ⟨hnumber, hmarker, hpayload⟩
  rw [← hdata, ← hunits]
  exact {
    nonempty := fun hnone => by
      rw [hnone, hcount, List.length_nil] at hlength
      exact absurd hlength.symm (Nat.ne_of_gt (Nat.add_pos_left Nat.one_pos _))
    sequence := fun i h => (hunit i h (hlength ▸ h)).1
    marker := fun i h => by
      rw [(hunit i h (hlength ▸ h)).2.1, hpiece i (hlength ▸ h), hlength]
    indicator := fun u hu => by
      obtain ⟨i, h, rfl⟩ := List.getElem_of_mem hu
      rw [(hunit i h (hlength ▸ h)).2.2]
      exact h264_agrees.naluType _
    sizes := fun u hu => by
      obtain ⟨i, h, rfl⟩ := List.getElem_of_mem hu
      rw [(hunit i h (hlength ▸ h)).2.2, h264_agrees.payload, hpiece i (hlength ▸ h)]
      exact hsize i (hlength ▸ h)
    bytes := by
      have hcovers : bytes.length ≤ (1 + bytes.length / size) * size := by
        rw [Nat.add_mul, Nat.one_mul, Nat.mul_comm]
        have := Nat.mod_lt bytes.length hpos
        omega
      have hall : (units.flatMap fun u => u.payload.drop 2) =
          (units.map (·.payload)).flatMap (·.drop 2) := by
        rw [List.flatMap_map]
      rw [hall, hpayloads, List.flatMap_map, hdata]
      exact fragmentData_bytes hcovers
    decoded := fun i h old => by
      have hpart := hsize i (hlength ▸ h)
      have hne : data[i].payload ≠ [] := by
        rw [hpiece i (hlength ▸ h)]
        exact List.ne_nil_of_length_pos hpart.1
      have htype : data[i].naluType < 32 := by
        rw [hpiece i (hlength ▸ h)]
        have hbits : ∀ v : UInt8, v &&& kNalTypeMask < 32 := forall_bytes (by decide +kernel)
        exact hbits header
      rw [(hunit i h (hlength ▸ h)).2.2, h264Fua2_decoded hne htype, h264Cached,
        hpiece i (hlength ▸ h), hlength] }

section Sending

variable {env : Env} {pub pub' : Publisher} {m : Media} {header : RtpHeader}

theorem sendAvpacket_ok (hw : Working env) (pub : Publisher) (hr : Ready pub) (m : Media)
    (seq p pos : Nat) : ∃ pub', sendAvpacket env pub m seq p pos = .ret (yangOk, pub') ∧ Ready pub' := by
  have hcached : Ready (rtcpushCacheNack pub m seq p pos) := hr
  obtain ⟨packet, hpacket⟩ : ∃ packet, env.protect
      ((rtcpushCacheNack pub m seq p pos).packetAt m (some p) pos) = (0, packet) :=
    ⟨_, Prod.ext (hw.protect _) rfl⟩
  have henc := encRtp_ok hcached hpacket
  simp only [sendAvpacket, henc, Call.ret_bind, Call.pure_eq, ne_eq, not_true_eq_false, if_false,
    sendData, hw.sendData]
  exact ⟨_, rfl, hr⟩

theorem sendAvpacket_ready {seq p pos : Nat}
    (h : sendAvpacket env pub m seq p pos = .ret (yangOk, pub')) : Ready pub := by
  obtain ⟨⟨err, packet, mid⟩, henc, hrest⟩ := Call.bind_eq_ret.mp h
  simp only at hrest
  split at hrest
  · rename_i herr
    cases hrest
    exact absurd rfl herr
  · rename_i herr
    obtain ⟨hctx, hlock, -⟩ := (encRtp_cases henc).2.2 (not_not.mp herr)
    exact ⟨hctx, hlock⟩

/-- A packet is encoded if it is no longer than the buffer. -/
theorem encodePacket_ok (hp : header.Plain) (pkt : Fua2Data) :
    (encodePacket pushH264 header (.fua2 pkt)).1 = yangOk ↔
      14 + pkt.payload.length ≤ kRtpPacketSize := by
  obtain ⟨buf, hhead, hsize, hbytes⟩ := encodeRtpHeader_plain hp { size := kRtpPacketSize }
  have hroom : buf.require (2 + pkt.payload.length) = true ↔
      14 + pkt.payload.length ≤ kRtpPacketSize := by
    have hpos : buf.pos = 12 := by simp [OutBuffer.pos, hbytes]
    have hcast : buf.require (2 + pkt.payload.length) = true ↔
        (buf.pos : Int) + (2 + pkt.payload.length) ≤ buf.size := by
      simp only [OutBuffer.require, Bool.and_eq_true, decide_eq_true_eq]
      omega
    rw [hcast, hpos, hsize]
    show ((12 : Nat) : Int) + (2 + pkt.payload.length) ≤ (kRtpPacketSize : Int) ↔ _
    omega
  have herr : errorRtcRtpMuxer ≠ yangOk := by decide
  simp only [encodePacket, hhead, encodeRtpPayload, pushH264, encodeH264Fua2, hp.paddingLength,
    Bool.not_eq_true', ne_eq, not_true_eq_false, if_false, gt_iff_lt, Nat.lt_irrefl]
  by_cases h : buf.require (2 + pkt.payload.length) = true
  · simp [h, hroom.mp h]
  · simp [h, herr, mt hroom.mpr h]

theorem encodeMedia_ok (hw : Working env) (hr : Ready pub) (hp : header.Plain) (m : Media)
    (pkt : Fua2Data) (hroom : 14 + pkt.payload.length ≤ kRtpPacketSize) :
    ∃ pub', encodeMedia env pushH264 pub m header (.fua2 pkt) = .ret (yangOk, pub') ∧
      Ready pub' := by
  have hok := (encodePacket_ok hp pkt).mpr hroom
  cases henc : encodePacket pushH264 header (.fua2 pkt) with
  | mk err buf =>
    rw [henc] at hok
    simp only [encodeMedia, henc]
    rw [if_neg (not_not.mpr hok)]
    exact sendAvpacket_ok hw
      { pub.setMedia m _ with stats := statsOnPubRtp _ m buf.pos env.now } hr m header.sequence _ buf.pos

theorem encodeMedia_needs (hp : header.Plain) {pkt : Fua2Data}
    (h : encodeMedia env pushH264 pub m header (.fua2 pkt) = .ret (yangOk, pub')) :
    Ready pub ∧ 14 + pkt.payload.length ≤ kRtpPacketSize := by
  rw [← encodePacket_ok hp]
  cases henc : encodePacket pushH264 header (.fua2 pkt) with
  | mk err buf =>
    simp only [encodeMedia, henc] at h
    split at h
    · rename_i herr
      cases h
      exact absurd rfl herr
    · rename_i herr
      have hready := sendAvpacket_ready h
      exact ⟨hready, not_not.mp herr⟩

variable {pts : Int} {unit : UInt8} {total size n i : Nat} {left : List UInt8}

theorem nextHeader_plain (hf : Fits pub pushH264) (marker : Bool) (pts : Int) :
    (nextHeader pub .video pushH264.payloadType marker pts).1.Plain :=
  ⟨rfl, rfl, rfl, rfl, rfl, hf.payloadType, hf.seq, by
    show (pts % 2 ^ 32).toNat < 2 ^ 32
    omega, hf.ssrc⟩

/-- All fragments are sent, since none is longer than the first. -/
theorem packageFuALoop_ok (hw : Working env) (hr : Ready pub) (hf : Fits pub pushH264)
    (hroom : 14 + min size left.length ≤ kRtpPacketSize) :
    ∃ pub', packageFuALoop env pushH264 pts unit total size n i left pub =
      .ret (yangOk, pub') := by
  induction n generalizing i left pub with
  | zero => exact ⟨pub, rfl⟩
  | succ n ih =>
    have hfirst : (left.take size).length = min size left.length := List.length_take
    obtain ⟨pkt, hpkt⟩ : ∃ pkt : Fua2Data, pkt =
        { start := decide (i = 0), last := decide (i = total - 1), nri := unit,
          naluType := pushH264.naluType unit, payload := left.take size } := ⟨_, rfl⟩
    have hnext : Ready (nextHeader pub .video pushH264.payloadType (decide (i = total - 1)) pts).2 :=
      hr
    obtain ⟨mid, hsent, hready⟩ := encodeMedia_ok hw hnext
      (nextHeader_plain hf (decide (i = total - 1)) pts) .video pkt (by rw [hpkt, hfirst]; exact hroom)
    have hemits := nextPacket_emits hf (.fua2 pkt)
      (fun b b' hb => @encodeH264Fua2_bytes pkt b b' hb) hsent
    have hleft : 14 + min size (left.drop size).length ≤ kRtpPacketSize := by
      rw [List.length_drop]
      omega
    obtain ⟨last, hrest⟩ : ∃ last, packageFuALoop env pushH264 pts unit total size n (i + 1)
        (left.drop size) mid = .ret (yangOk, last) := ih hready (fits_of_emits hf hemits) hleft
    subst hpkt
    refine ⟨last, ?_⟩
    simp only [packageFuALoop]
    rw [if_neg (by rw [hfirst]; omega), hsent, Call.ret_bind]
    exact hrest

theorem packageFuALoop_needs (hf : Fits pub pushH264) (hpos : 0 < n)
    (h : packageFuALoop env pushH264 pts unit total size n i left pub = .ret (yangOk, pub')) :
    Ready pub ∧ 14 + min size left.length ≤ kRtpPacketSize := by
  cases n with
  | zero => exact absurd hpos (Nat.lt_irrefl 0)
  | succ n =>
    simp only [packageFuALoop] at h
    split at h
    · cases h
    · obtain ⟨⟨err, mid⟩, hsent, hrest⟩ := Call.bind_eq_ret.mp h
      simp only at hrest
      split at hrest
      · rename_i herr
        cases hrest
        exact absurd rfl herr
      · rename_i herr
        obtain rfl : err = yangOk := not_not.mp herr
        have hneeds := encodeMedia_needs (nextHeader_plain hf _ pts) hsent
        rw [← List.length_take]
        exact hneeds

end Sending

section Units

variable {env : Env} {pub : Publisher} {frame : YangFrame} {size : Nat}

@[simp] theorem frame_left (frame : YangFrame) :
    (frame.bytes.drop pushH264.headerSize).length = frame.nb - 1 := by
  simp [YangFrame.bytes, pushH264]

theorem numOfPacket_rest {nb : Nat} (h : (nb - 1) % size ≠ 0) :
    numOfPacket nb size = 1 + (nb - 1) / size :=
  if_neg h

/-- No packet is counted for a unit without a rest, so nothing is sent. -/
theorem packageFuA_whole (h : (frame.nb - 1) % size = 0) :
    packageFuA env pushH264 pub frame size = .ret (yangOk, pub) := by
  simp only [packageFuA, numOfPacket, h, if_true, packageFuALoop]

theorem emits_nothing {units : List RtpUnit} (h : Emits pub pub units) : units = [] := by
  have hlength := congrArg List.length h.sent
  simp only [List.length_append, List.length_reverse, List.length_map] at hlength
  exact List.length_eq_zero_iff.mp (by omega)

/-- A unit is sent as its fragments exactly when it leaves a rest and a fragment fits in a
packet. -/
theorem unit_fragmented (hw : Working env) (hf : Fits pub pushH264) (hpos : 0 < size) :
    SendsFragments env pub frame size ↔
      Ready pub ∧ (frame.nb - 1) % size ≠ 0 ∧ 14 + min size (frame.nb - 1) ≤ kRtpPacketSize := by
  constructor
  · rintro ⟨pub', units, hsent, hemits, hfragments⟩
    have hrest : (frame.nb - 1) % size ≠ 0 := by
      intro hzero
      rw [packageFuA_whole hzero] at hsent
      cases hsent
      exact hfragments.nonempty (emits_nothing hemits)
    have hloop : packageFuALoop env pushH264 frame.pts (frame.payload 0) (numOfPacket frame.nb size)
        size (numOfPacket frame.nb size) 0 (frame.bytes.drop pushH264.headerSize) pub =
          .ret (yangOk, pub') := hsent
    have hsome : 0 < numOfPacket frame.nb size := by
      rw [numOfPacket_rest hrest]
      exact Nat.add_pos_left Nat.one_pos _
    have hneeds := packageFuALoop_needs hf hsome hloop
    rw [frame_left] at hneeds
    exact ⟨hneeds.1, hrest, hneeds.2⟩
  · rintro ⟨hr, hrest, hroom⟩
    have hfirst : 14 + min size (frame.bytes.drop pushH264.headerSize).length ≤ kRtpPacketSize := by
      rwa [frame_left]
    obtain ⟨pub', hsent⟩ : ∃ pub', packageFuA env pushH264 pub frame size = .ret (yangOk, pub') :=
      packageFuALoop_ok hw hr hf hfirst
    have hemits := packageFuALoop_emits (fun b pkt b' => encodeH264Fua2_bytes) hf hsent
    have hrest' : (frame.bytes.drop pushH264.headerSize).length % size ≠ 0 := by rwa [frame_left]
    have hunits := fragmented_units (frame.payload 0) pushH264.payloadType
      (pub.media .video).ssrc frame.pts hf.seq hpos hrest'
    rw [frame_left, ← numOfPacket_rest hrest] at hunits
    exact ⟨pub', _, hsent, hemits, hunits⟩

theorem unit_fragmented_rest :
    SendsFragments { protect := xorProtect, sendData := fun _ => yangOk, now := 0 }
      { createPublisher 5 7 1 65535 with srtp := { sendCtx := true } }
      ⟨fun _ => 0x65, 1402, 0⟩ 1300 :=
  (unit_fragmented ⟨fun _ => rfl, fun _ => rfl⟩ ⟨by decide, by decide, by decide⟩ (by decide)).mpr
    ⟨⟨rfl, rfl⟩, by decide, by decide⟩

/-- A unit that divides into whole fragments is lost, and no error is returned. -/
theorem whole_fragments_lost :
    let env : Env := { protect := xorProtect, sendData := fun _ => yangOk, now := 0 }
    let pub : Publisher := { createPublisher 5 7 1 65535 with srtp := { sendCtx := true } }
    let frame : YangFrame := ⟨fun _ => 0x65, 2601, 0⟩
    packageFuA env pushH264 pub frame 1300 = .ret (yangOk, pub) ∧
      ¬ SendsFragments env pub frame 1300 := by
  intro env pub frame
  have hnone : packageFuA env pushH264 pub frame 1300 = .ret (yangOk, pub) :=
    packageFuA_whole (by decide)
  refine ⟨hnone, ?_⟩
  rintro ⟨pub', units, hsent, hemits, hfragments⟩
  rw [hnone] at hsent
  cases hsent
  exact hfragments.nonempty (emits_nothing hemits)

end Units

end MetaRtc
