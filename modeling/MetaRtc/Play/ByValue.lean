import MetaRtc.Play.Collect

/-! # Frames by value

What is assembled from the slots of a frame and handed on depends on what the slots hold, not
on where in the ring it lies, nor on when it came. -/
namespace MetaRtc

open Bytes Exec

/-- The units of an aggregate of these bytes. -/
def stapUnits (codec : PlayCodec) (bytes : List UInt8) : List YangSample :=
  (codec.decodeStap (initBuffer (ofList bytes) bytes.length) {}).2.1.nalus

/-- What a packet of a frame adds to it. -/
def Output.putEntry (codec : PlayCodec) (out : Output) (e : Entry) : Call Output :=
  if e.naluType = codec.fuA then out.putFua2 codec e.fua2 e.bytes
  else if e.naluType = codec.stapA then out.putStap (stapUnits codec e.bytes)
  else out.putNalu e.bytes

/-- The video buffer of a track and the frames it has handed on so far. -/
structure FrameSink where
  videoBuffer : Area
  frames : List VideoFrame

def PlayTrackH2645.sink (track : PlayTrackH2645) : FrameSink := ⟨track.videoBuffer, track.frames⟩

/-- The frame of these packets, put together in the video buffer. -/
def assembleEntries (codec : PlayCodec) (buffer : Area) (es : List Entry) : Call Output := do
  let tag := if es.head?.any (·.key codec) then codec.keyTag else codec.interTag
  let buffer ← buffer.write 0 [tag, 0x01, 0x00, 0x00, 0x00]
  es.foldlM (Output.putEntry codec) ⟨buffer, 5, 0⟩

/-- The frame of these packets is handed on. -/
def FrameSink.frame (codec : PlayCodec) (sink : FrameSink) (ts : Nat) (es : List Entry) :
    Call FrameSink := do
  let out ← assembleEntries codec sink.videoBuffer es
  if out.p > yangVideoEncodeBufferLen then return { sink with videoBuffer := out.buffer }
  else do
    let frames ← playtrackReceiveVideo out.buffer out.p ts
    return ⟨out.buffer, sink.frames ++ frames⟩

/-- Whether a payload is taken for the beginning of a key frame when it arrives. -/
def PlayCodec.keyPart (codec : PlayCodec) (payload : List UInt8) : Bool :=
  let naluType := codec.naluType (payload.getD 0 0)
  if naluType = codec.stapA then codec.stapKey (payload.getD codec.stapNalu 0)
  else if naluType = codec.fuA then codec.fuKey (payload.getD codec.fuNalu 0)
  else codec.rawKey naluType

/-- A payload in one of the formats of H264, with something in it behind its headers. -/
structure H264Payload (payload : List UInt8) : Prop where
  ne_nil : payload ≠ []
  stap : payload.getD 0 0 &&& kNalTypeMask = kStapA → 3 < payload.length
  fua2 : payload.getD 0 0 &&& kNalTypeMask = kFuA → 2 < payload.length

/-- An H264 packet as it is cached. -/
def h264Entry (marker : Bool) (payload : List UInt8) : Entry :=
  let v := payload.getD 0 0
  let fuHeader := payload.getD 1 0
  if v &&& kNalTypeMask = kFuA then
    { last := marker
      naluType := kFuA
      fua2 := ⟨fuHeader &&& kStart != 0, fuHeader &&& kEnd != 0, v &&& ~~~kNalTypeMask,
        fuHeader &&& kNalTypeMask⟩
      bytes := payload.drop 2 }
  else { last := marker, naluType := v &&& kNalTypeMask, fua2 := {}, bytes := payload }

/-- What is done with the end of a search, with so many frames to go at most. -/
def follow (codec : PlayCodec) (ring : Mem) (n : Nat) (track : PlayTrackH2645) :
    NextLost → Call (Err × PlayTrackH2645)
  | .frame tailSn =>
    if checkFrameComplete codec track track.headerSn tailSn then
      packetVideo codec ring n track track.headerSn tailSn
    else .ret (yangOk, track)
  | .overflow => .ret (errorRtcRtpMuxer, track)
  | .lost sn => .ret (yangOk, { track with lostSn := sn })

theorem onNextLost_follow (codec : PlayCodec) (ring : Mem) (track : PlayTrackH2645)
    (found : NextLost) : onNextLost codec ring track found =
      follow codec ring (yangRtcRecvBufferCount + 1) track found := by
  cases found <;> rfl

/-- The units of an aggregate are read off its bytes alone. -/
def StapByValue (codec : PlayCodec) : Prop :=
  ∀ (m : Mem) (bytes : List UInt8), m.slice 0 bytes.length = bytes →
    (codec.decodeStap (initBuffer m bytes.length) {}).2.1.nalus = stapUnits codec bytes

/-- A packet with this marker and payload is cached as that entry, and it is known at its
arrival and in the cache whether it begins a key frame. -/
structure Cacheable (codec : PlayCodec) (marker : Bool) (payload : List UInt8) (e : Entry) :
    Prop where
  caches : Caches codec (marker, payload) e
  keyPart : KeyPart codec payload (codec.keyPart payload)
  last : e.last = marker
  bytes : e.bytes ≠ []
  stap : e.naluType = codec.stapA → codec.stapNalu < e.bytes.length

section Units

variable {m k : Mem}

theorem be_congr {p n : Nat} (h : m.slice p n = k.slice p n) : m.be p n = k.be p n := by
  rw [Mem.be_eq_beNat, Mem.be_eq_beNat, h]

/-- Nothing is read that does not belong to the buffer. -/
theorem decodeStapNalus_congr {a b : YangBuffer} (hsize : a.size = b.size)
    (hhead : a.head = b.head) (h : ∀ i < a.size, a.data i = b.data i) (fuel : Nat)
    (acc : List YangSample) :
    (decodeStapNalus fuel acc a).2.1 = (decodeStapNalus fuel acc b).2.1 := by
  induction fuel generalizing a b acc with
  | zero => rfl
  | succ fuel ih =>
    have hslice : ∀ p n, p + n ≤ a.size → a.data.slice p n = b.data.slice p n := by
      intro p n hin
      exact Mem.slice_congr fun i _ hi => h i (by omega)
    have hleft : a.left = b.left := by
      simp only [YangBuffer.left, hsize, hhead]
    have hempty : a.empty = b.empty := by
      simp only [YangBuffer.empty, hsize, hhead]
    have hreq : ∀ n, a.require n = b.require n := by
      intro n
      simp only [YangBuffer.require, hleft]
    have hleft' : (a.take 2).left = (b.take 2).left := by
      simp only [YangBuffer.left, YangBuffer.take_size, YangBuffer.take_head, hsize, hhead]
    have hreq' : ∀ n, (a.take 2).require n = (b.take 2).require n := by
      intro n
      simp only [YangBuffer.require, hleft']
    rw [decodeStapNalus, decodeStapNalus, hempty, hreq 2]
    by_cases he : b.empty = true
    · rw [if_pos he, if_pos he]
    rw [if_neg he, if_neg he]
    by_cases hr : b.require 2 = true
    · have hin : a.head + 2 ≤ a.size := by
        have htwo := (YangBuffer.require_iff b 2).mp hr
        rw [← hleft] at htwo
        simp only [YangBuffer.left] at htwo
        omega
      have hbe : a.data.be a.head 2 = b.data.be b.head 2 := by
        rw [← hhead]
        exact be_congr (hslice _ _ hin)
      obtain ⟨size, hint⟩ : ∃ size, toInt16 (b.data.be b.head 2) = size := ⟨_, rfl⟩
      simp only [hr, Bool.not_true, Bool.false_eq_true, if_false, YangBuffer.read2bytes,
        YangBuffer.readNum, hbe, hint, hreq']
      by_cases hfit : (b.take 2).require size = true
      · have hbytes : a.head + 2 + size.toNat ≤ a.size := by
          rw [← hreq', YangBuffer.require, Bool.and_eq_true, decide_eq_true_eq,
            decide_eq_true_eq] at hfit
          simp only [YangBuffer.left, YangBuffer.take_size, YangBuffer.take_head] at hfit
          omega
        have hunit := hslice _ _ hbytes
        rw [hhead] at hunit
        simp only [hfit, Bool.not_true, Bool.false_eq_true, if_false, YangBuffer.take_head,
          YangBuffer.take_data, hhead, hunit]
        apply ih
        · exact hsize
        · simp only [YangBuffer.skip_head, YangBuffer.take_head, hhead]
        · exact h
      · rw [Bool.not_eq_true] at hfit
        simp only [hfit, Bool.not_false, if_true]
    · rw [Bool.not_eq_true] at hr
      simp only [hr, Bool.not_false, if_true]

theorem stapByValue_h264 : StapByValue playH264 := by
  intro m bytes hm
  have hsame : ∀ i < bytes.length, m i = ofList bytes i := by
    intro i hi
    have hd := m.slice_getD 0 hi 0
    rw [hm, Nat.zero_add] at hd
    exact hd.symm
  show (decodeH264Stap (initBuffer m bytes.length) {}).2.1.nalus =
    (decodeH264Stap (initBuffer (ofList bytes) bytes.length) {}).2.1.nalus
  by_cases hlen : 1 ≤ bytes.length
  · have hfirst : (initBuffer m bytes.length).data (initBuffer m bytes.length).head =
        (initBuffer (ofList bytes) bytes.length).data
          (initBuffer (ofList bytes) bytes.length).head := hsame 0 hlen
    have hunits := decodeStapNalus_congr (a := (initBuffer m bytes.length).take 1)
      (b := (initBuffer (ofList bytes) bytes.length).take 1) rfl rfl hsame
    rw [decodeH264Stap, decodeH264Stap, YangBuffer.initBuffer_requires (by decide) (by omega),
      YangBuffer.initBuffer_requires (by decide) (by omega), hfirst]
    simp only [Bool.not_true, Bool.false_eq_true, if_false]
    split
    · rfl
    · exact hunits _ _
  · rw [decodeH264Stap, decodeH264Stap, YangBuffer.initBuffer_refuses (by omega),
      YangBuffer.initBuffer_refuses (by omega)]
    simp only [Bool.not_false, if_true]

end Units

section Packets

variable {payload : List UInt8}

theorem decodeH264Fua2_bytes {m : Mem} {n : Nat} (hn : 2 < n) (old : Fua2DataCache) :
    ∃ err, decodeH264Fua2 (initBuffer m n) old =
      (err, ⟨m 1 &&& kStart != 0, m 1 &&& kEnd != 0, m 0 &&& ~~~kNalTypeMask,
        m 1 &&& kNalTypeMask⟩, (initBuffer m n).take 2) := by
  rw [decodeH264Fua2, YangBuffer.initBuffer_requires (by decide) (by omega)]
  simp only [Bool.not_true, Bool.false_eq_true, if_false, YangBuffer.take_take,
    YangBuffer.take_data, YangBuffer.take_head]
  split
  · exact ⟨_, rfl⟩
  · exact ⟨_, rfl⟩

theorem caches_h264 (marker : Bool) (h : H264Payload payload) :
    Caches playH264 (marker, payload) (h264Entry marker payload) := by
  by_cases hfu : payload.getD 0 0 &&& kNalTypeMask = kFuA
  · intro ring p header slot hm hring huse
    simp only at hm hring ⊢
    have hlen := h.fua2 hfu
    have hbyte : ∀ i < payload.length, (ring.drop p) i = payload.getD i 0 := by
      intro i hi
      rw [← hring]
      exact (ring.slice_getD p hi 0).symm
    have h0 := hbyte 0 (by omega)
    have h1 := hbyte 1 (by omega)
    have htype : playH264.naluType (ring p) = kFuA := by
      show ring (p + 0) &&& kNalTypeMask = kFuA
      rw [show ring (p + 0) = payload.getD 0 0 from h0, hfu]
    obtain ⟨err, hdec⟩ := decodeH264Fua2_bytes (m := ring.drop p) hlen slot.fua2
    rw [h0, h1] at hdec
    have hrest : ring.slice (p + 2) (payload.length - 2) = payload.drop 2 := by
      rw [← ring.drop_slice, hring]
    have hleft : ((payload.length : Int) - (2 : Nat)).toNat = payload.length - 2 := by omega
    have hcopy : copyPacket playH264 ring
        { header, naluType := playH264.naluType (ring p), payload := some p,
          nb := payload.length } slot = .ret
        { slot with
          sn := header.sequence
          last := header.marker
          ts := header.timestamp
          naluType := kFuA
          fua2 := (h264Entry marker payload).fua2
          payload := some (p + 2)
          nb := payload.length - 2 } := by
      have hmine : playH264.fuA = kFuA := rfl
      have hdec' : playH264.decodeFua2 (initBuffer (ring.drop p) payload.length) slot.fua2 =
        _ := hdec
      simp only [copyPacket, htype, hmine, if_true, Call.deref_some, Call.ret_bind, hdec',
        Call.pure_eq, h264Entry, hfu]
      simp only [YangBuffer.left, YangBuffer.take_head, YangBuffer.take_size, initBuffer,
        Nat.zero_add, hleft]
    have hentry : (h264Entry marker payload).bytes = payload.drop 2 := by
      simp only [h264Entry, hfu, if_true]
    refine ⟨_, hcopy, ⟨huse, rfl, ?_, ?_, fun _ => rfl, ?_, p + 2, rfl, ?_⟩, p + 2, rfl, ?_, ?_⟩
    · show header.marker = _
      rw [hm]
      simp only [h264Entry, hfu, if_true]
    · simp only [h264Entry, hfu, if_true]
    · rw [hentry, List.length_drop]
    · rw [hentry, List.length_drop, hrest]
    · exact Nat.le_add_right _ _
    · show p + 2 + (payload.length - 2) = _
      omega
  · simp only [h264Entry, hfu, if_false]
    exact caches_raw h.ne_nil hfu

theorem cacheable_h264 (marker : Bool) (h : H264Payload payload) :
    Cacheable playH264 marker payload (h264Entry marker payload) where
  caches := caches_h264 marker h
  keyPart := by
    unfold PlayCodec.keyPart
    dsimp only
    split
    · rename_i hst
      exact keyPart_stap hst (h.stap hst)
    · rename_i hst
      split
      · rename_i hfu
        exact keyPart_fua2 hfu (by decide) (Nat.lt_of_succ_lt (h.fua2 hfu))
      · rename_i hfu
        exact keyPart_raw h.ne_nil hst hfu
  last := by
    unfold h264Entry
    dsimp only
    split <;> rfl
  bytes := by
    unfold h264Entry
    dsimp only
    split
    · rename_i hfu
      apply List.ne_nil_of_length_pos
      rw [List.length_drop]
      have hlen := h.fua2 hfu
      omega
    · exact h.ne_nil
  stap := by
    unfold h264Entry
    dsimp only
    split
    · intro hst
      exact absurd hst (show kFuA ≠ kStapA by decide)
    · exact h.stap

end Packets

section Assembling

variable {codec : PlayCodec} {ring : Mem} {ts start : Nat} {e : Entry} {es : List Entry}
  {cache : Nat → PacketCache} {track : PlayTrackH2645}

/-- One packet of a frame, by value, and its slot is released. -/
theorem packetOne_entry (hstap : StapByValue codec) {i : Nat}
    (h : Held codec ring ts (cache (cacheIndex (start + i))) e) (hne : e.bytes ≠ []) :
    ∃ cache', Released cache cache' (start + i) 1 ∧
      ∀ out : Output, packetOne codec ring start i cache out = (do
        let out ← out.putEntry codec e
        return (cache', out)) := by
  have hlen : 0 < e.bytes.length := List.length_pos_of_ne_nil hne
  obtain ⟨p, hp, hbytes⟩ := h.bytes
  by_cases hfu : e.naluType = codec.fuA
  · refine ⟨Function.update cache (cacheIndex (start + i))
      { cache (cacheIndex (start + i)) with inUse := false, fua2 := {} },
      released_update _ _ rfl, fun out => ?_⟩
    simp only [packetOne, Output.putEntry, h.naluType, hfu, h.nb, gt_iff_lt, hlen, and_self,
      if_true, hp, Call.deref_some, Call.ret_bind, h.fua2 hfu, hbytes, Function.update_idem]
  by_cases hst : e.naluType = codec.stapA
  · have hdrop : (ring.drop p).slice 0 e.bytes.length = e.bytes := by
      rw [Mem.slice_drop, Nat.add_zero, hbytes]
    have hst' : codec.stapA ≠ codec.fuA := hst ▸ hfu
    refine ⟨Function.update cache (cacheIndex (start + i))
      { cache (cacheIndex (start + i)) with inUse := false },
      released_update _ _ rfl, fun out => ?_⟩
    simp only [packetOne, Output.putEntry, h.naluType, hst, hst', h.nb, false_and, if_false,
      if_true, hp, Call.deref_some, Call.ret_bind, hstap _ _ hdrop]
  · refine ⟨Function.update cache (cacheIndex (start + i))
      { cache (cacheIndex (start + i)) with inUse := false, payload := none },
      released_update _ _ rfl, fun out => ?_⟩
    simp only [packetOne, Output.putEntry, h.naluType, hst, hfu, h.nb, false_and, if_false,
      if_true, hp, gt_iff_lt, hlen, hbytes, Function.update_idem]

theorem assembleLoop_entries (hstap : StapByValue codec) (hne : ∀ e ∈ es, e.bytes ≠ []) {i : Nat}
    (hheld : HeldAll codec ring ts cache (start + i) es) (hlen : es.length ≤ 512) :
    ∃ cache', Released cache cache' (start + i) es.length ∧
      ∀ out : Output, assembleLoop codec ring start es.length i cache out = (do
        let out ← es.foldlM (Output.putEntry codec) out
        return (cache', out)) := by
  induction es generalizing i cache with
  | nil => exact ⟨cache, released_refl _ _, fun out => rfl⟩
  | cons e es ih =>
    obtain ⟨cache₁, hr, hone⟩ := packetOne_entry hstap (heldAll_head hheld)
      (hne e List.mem_cons_self)
    have hrest := heldAll_tail [e] hheld hr hlen
    rw [List.length_cons] at hlen
    obtain ⟨cache', hr', hloop⟩ := ih (fun f hf => hne f (List.mem_cons_of_mem _ hf)) (i := i + 1)
      hrest (by omega)
    refine ⟨cache', ?_, fun out => ?_⟩
    · rw [List.length_cons, Nat.add_comm es.length 1]
      exact released_trans hr hr' (by omega)
    · rw [List.length_cons, assembleLoop, hone, List.foldlM_cons]
      simp only [Call.bind_assoc, Call.pure_eq, Call.ret_bind, hloop]

/-- The first half of `packet_video`, by value. -/
theorem assembleFrame_entries (hstap : StapByValue codec) (track : PlayTrackH2645)
    (hne : ∀ f ∈ e :: es, f.bytes ≠ [])
    (hheld : HeldAll codec ring ts track.cacheVideoPkts start (e :: es))
    (hlen : (e :: es).length ≤ 512) (hstart : start < 65536)
    (hlead : e.naluType = codec.stapA → codec.stapNalu < e.bytes.length) :
    ∃ cache, Released track.cacheVideoPkts cache start (es.length + 1) ∧
      assembleFrame codec ring track start ((start + es.length) % 65536) = (do
        let out ← assembleEntries codec track.videoBuffer (e :: es)
        return ({ track with
          keyFrameTs := if e.key codec then -1 else track.keyFrameTs
          cacheVideoPkts := cache
          videoBuffer := out.buffer }, out.p)) := by
  have hkey := isKeyframe2_held (heldAll_head hheld) (hne e List.mem_cons_self) hlead
  obtain ⟨cache, hr, hloop⟩ := assembleLoop_entries hstap hne (i := 0) hheld hlen
  rw [List.length_cons] at hlen
  refine ⟨cache, hr, ?_⟩
  have htrack : (if e.key codec then { track with keyFrameTs := -1 } else track) =
      { track with keyFrameTs := if e.key codec then -1 else track.keyFrameTs } := by
    split <;> rfl
  have hcount := frameCount_eq hstart (show es.length < 512 by omega)
  rw [List.length_cons] at hloop
  simp only [assembleFrame, assembleEntries, hkey, Call.ret_bind, htrack, hcount, hloop,
    Call.bind_assoc, Call.pure_eq, List.head?_cons, Option.any_some]
  rfl

/-- `packet_video` up to the search for the next frame, by value. -/
theorem packetVideo_frame (hstap : StapByValue codec) (n : Nat) (track : PlayTrackH2645)
    (hne : ∀ f ∈ e :: es, f.bytes ≠ [])
    (hheld : HeldAll codec ring ts track.cacheVideoPkts start (e :: es))
    (hlen : (e :: es).length ≤ 512) (hstart : start < 65536)
    (hlead : e.naluType = codec.stapA → codec.stapNalu < e.bytes.length) :
    ∃ cache, Released track.cacheVideoPkts cache start (es.length + 1) ∧
      packetVideo codec ring (n + 1) track start ((start + es.length) % 65536) = (do
        let sink ← track.sink.frame codec ts (e :: es)
        let track := { track with
          keyFrameTs := if e.key codec then -1 else track.keyFrameTs
          cacheVideoPkts := cache
          videoBuffer := sink.videoBuffer
          frames := sink.frames
          headerSn := ((start + es.length) % 65536 + 1) % 65536 }
        follow codec ring n track (findNextLostSn track track.headerSn)) := by
  obtain ⟨cache, hr, hframe⟩ := assembleFrame_entries hstap track hne hheld hlen hstart hlead
  have hts : (track.cacheVideoPkts (cacheIndex start)).ts = ts := (heldAll_head hheld).ts
  refine ⟨cache, hr, ?_⟩
  rw [packetVideo, hts, hframe]
  simp only [FrameSink.frame, PlayTrackH2645.sink, Call.bind_assoc, Call.pure_eq, Call.ret_bind]
  congr 1
  funext out
  unfold putFrameVideo
  split
  · rfl
  · simp only [Call.bind_assoc, Call.pure_eq, Call.ret_bind]
    rfl

end Assembling

end MetaRtc
