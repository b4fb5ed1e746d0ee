import MetaRtc.Play.Pieces

/-! # Frames of whole units

A frame is its head and then units behind their lengths. What breaks that is a fragmented
unit whose packets do not follow each other from a first to a last one. -/
namespace MetaRtc

open Bytes Exec

/-- Walking the four-byte lengths from the start lands exactly on the end. -/
inductive Lands : List UInt8 → Prop
  | nil : Lands []
  | unit (bs : List UInt8) : 4 ≤ bs.length → 4 + beNat (bs.take 4) ≤ bs.length →
      Lands (bs.drop (4 + beNat (bs.take 4))) → Lands bs

/-- The frame of `nb` bytes in the video buffer is its head and units behind their lengths. -/
def WholeFrame (track : PlayTrackH2645) (nb : Nat) : Prop :=
  ∃ tag units, track.videoBuffer.data.slice 0 nb =
    tag :: 0x01 :: 0x00 :: 0x00 :: 0x00 :: units ∧ Lands units

/-- Each frame that a datagram completes is whole. -/
def FramesWhole (codec : PlayCodec) (play : RtcPlay) (e : PlayEvent) : Prop :=
  ∀ ring t s l t' nb, e.Assembling codec play ring t s l →
    assembleFrame codec ring t s l = .ret (t', nb) → WholeFrame t' nb

/-- The fragments of each unit follow each other from its first to its last one, which is
another. `opened` says that a first one has come and the last has not. -/
def Nested : Bool → List Piece → Prop
  | opened, [] => opened = false
  | opened, .units nalus :: rest => (nalus ≠ [] → opened = false) ∧ Nested opened rest
  | opened, .fragment fua2 _ :: rest =>
    if fua2.start then opened = false ∧ fua2.last = false ∧ Nested true rest
    else opened = true ∧ Nested (!fua2.last) rest

/-- The frames that a datagram completes have whole units. -/
def PlayEvent.Nests (codec : PlayCodec) (play : RtcPlay) (e : PlayEvent) : Prop :=
  ∀ ring t s l, e.Assembling codec play ring t s l → Nested false (framePieces codec ring t s l)

/-- What has been written is the head of a frame and whole units. -/
def Output.Whole (out : Output) : Prop :=
  ∃ tag units, out.buffer.data.slice 0 out.p =
    tag :: 0x01 :: 0x00 :: 0x00 :: 0x00 :: units ∧ Lands units

/-- The same, perhaps with a unit under way behind it. -/
def Output.Growing (out : Output) : Bool → Prop
  | true => ∃ a bs, Output.Whole a ∧ Building a out bs
  | false => out.Whole

section Walking

theorem lands_append {xs ys : List UInt8} (hx : Lands xs) (hy : Lands ys) : Lands (xs ++ ys) := by
  induction hx with
  | nil => exact hy
  | unit bs hlen hle _ ih =>
    have htake : (bs ++ ys).take 4 = bs.take 4 := List.take_append_of_le_length hlen
    refine .unit _ ?_ ?_ ?_
    · rw [List.length_append]
      omega
    · rw [htake, List.length_append]
      omega
    · rw [htake, List.drop_append_of_le_length hle]
      exact ih

theorem lands_behindLength {nalu : List UInt8} (h : nalu.length < 2 ^ 32) :
    Lands (behindLength nalu) := by
  have htake : (behindLength nalu).take 4 = beBytes 4 nalu.length :=
    List.take_left' (beBytes_length _ _)
  have hlen : (behindLength nalu).length = 4 + nalu.length := by simp [behindLength]
  have hbe : beNat ((behindLength nalu).take 4) = nalu.length := by
    rw [htake, beNat_beBytes]
    exact Nat.mod_eq_of_lt h
  refine .unit _ (by omega) (by rw [hbe, hlen]) ?_
  rw [hbe, ← hlen, List.drop_length]
  exact .nil

theorem lands_length {bs : List UInt8} (h : Lands bs) : bs = [] ∨ 4 ≤ bs.length := by
  cases h with
  | nil => exact .inl rfl
  | unit _ h _ _ => exact .inr h

end Walking

section Writing

variable {codec : PlayCodec} {a b out out' : Output} {bs : List UInt8}

theorem Output.Whole.wrote (ha : a.Whole) (h : Wrote a b bs) (hbs : Lands bs) : b.Whole := by
  obtain ⟨tag, units, hslice, hlands⟩ := ha
  refine ⟨tag, units ++ bs, ?_, lands_append hlands hbs⟩
  rw [h.bytes, hslice]
  rfl

/-- A call that returns has written where it had room to. -/
theorem put_fits (h : a.put bs = .ret b) : a.p + bs.length ≤ a.buffer.room := by
  obtain ⟨buffer, hwrite, -⟩ := Call.bind_eq_ret.mp h
  exact (Area.write_eq_ret.mp hwrite).1

theorem putNalu_whole (hroom : out.buffer.room ≤ yangVideoEncodeBufferLen) (ho : out.Whole)
    (h : out.putNalu bs = .ret out') :
    out'.Whole ∧ out'.buffer.room = out.buffer.room := by
  have hfits := put_fits h
  obtain ⟨b, hput, hw⟩ := putNalu_wrote hfits
  obtain rfl : b = out' := Call.ret.inj (hput.symm.trans h)
  refine ⟨ho.wrote hw (lands_behindLength ?_), hw.room⟩
  rw [List.length_append, beBytes_length] at hfits
  unfold yangVideoEncodeBufferLen at hroom
  omega

theorem putUnits_whole {nalus : List (List UInt8)}
    (hroom : out.buffer.room ≤ yangVideoEncodeBufferLen) (ho : out.Whole)
    (h : out.putUnits nalus = .ret out') :
    out'.Whole ∧ out'.buffer.room = out.buffer.room := by
  induction nalus generalizing out with
  | nil =>
    cases h
    exact ⟨ho, rfl⟩
  | cons nalu rest ih =>
    obtain ⟨mid, hput, hrest⟩ := Call.bind_eq_ret.mp h
    obtain ⟨hmid, hsame⟩ := putNalu_whole hroom ho hput
    obtain ⟨hout, hsame'⟩ := ih (hsame ▸ hroom) hmid hrest
    exact ⟨hout, hsame'.trans hsame⟩

/-- A fragment that comes in its order keeps the frame whole but for its unit. -/
theorem putFua2_growing {opened : Bool} {fua2 : Fua2DataCache}
    (hroom : out.buffer.room ≤ yangVideoEncodeBufferLen) (ho : out.Growing opened)
    (h : out.putFua2 codec fua2 bs = .ret out')
    (hfirst : fua2.start = true → opened = false ∧ fua2.last = false)
    (hlater : fua2.start = false → opened = true) :
    out'.Growing (fua2.start || !fua2.last) ∧ out'.buffer.room = out.buffer.room := by
  have hsame := (putFua2_room h).2
  refine ⟨?_, hsame⟩
  cases hs : fua2.start with
  | true =>
    obtain ⟨rfl, hl⟩ := hfirst hs
    have hput := h
    simp only [Output.putFua2, hs, if_true] at hput
    obtain ⟨b, hput', hb⟩ := putFua2_first codec hs (put_fits hput)
    obtain rfl : b = out' := Call.ret.inj (hput'.symm.trans h)
    exact ⟨out, _, ho, hb⟩
  | false =>
    obtain rfl := hlater hs
    obtain ⟨a, as, ha, hb⟩ := ho
    have hput := h
    simp only [Output.putFua2, hs, Bool.false_eq_true, if_false] at hput
    obtain ⟨mid, hmid, -⟩ := Call.bind_eq_ret.mp hput
    have hfits : out.p + bs.length ≤ out.buffer.room := by
      have hle := put_fits hmid
      exact hle
    cases hl : fua2.last with
    | false =>
      obtain ⟨c, hput', hc⟩ := putFua2_mid codec hs hl hb hfits
      obtain rfl : c = out' := Call.ret.inj (hput'.symm.trans h)
      exact ⟨a, _, ha, hc⟩
    | true =>
      obtain ⟨c, hput', hc⟩ := putFua2_last codec hs hl hb hfits
      obtain rfl : c = out' := Call.ret.inj (hput'.symm.trans h)
      refine ha.wrote hc (lands_behindLength ?_)
      have hp := hb.p
      rw [List.length_append]
      unfold yangVideoEncodeBufferLen at hroom
      omega

theorem putPieces_whole {opened : Bool} {pieces : List Piece}
    (hroom : out.buffer.room ≤ yangVideoEncodeBufferLen) (ho : out.Growing opened)
    (hn : Nested opened pieces) (h : out.putPieces codec pieces = .ret out') : out'.Whole := by
  induction pieces generalizing out opened with
  | nil =>
    cases h
    obtain rfl : opened = false := hn
    exact ho
  | cons piece rest ih =>
    obtain ⟨mid, hput, hrest⟩ := Call.bind_eq_ret.mp h
    cases piece with
    | units nalus =>
      obtain ⟨hclosed, hn⟩ := hn
      cases nalus with
      | nil =>
        cases hput
        exact ih hroom ho hn hrest
      | cons nalu nalus =>
        obtain rfl := hclosed (List.cons_ne_nil _ _)
        obtain ⟨hmid, hsame⟩ := putUnits_whole hroom ho hput
        have hmid : mid.Growing false := hmid
        exact ih (hsame ▸ hroom) hmid hn hrest
    | fragment fua2 bytes =>
      simp only [Nested] at hn
      split at hn
      · rename_i hs
        obtain ⟨hclosed, hl, hn⟩ := hn
        obtain ⟨hmid, hsame⟩ := putFua2_growing hroom ho hput (fun _ => ⟨hclosed, hl⟩)
          (fun hno => by rw [hs] at hno; cases hno)
        rw [hs] at hmid
        exact ih (hsame ▸ hroom) hmid hn hrest
      · rename_i hs
        rw [Bool.not_eq_true] at hs
        obtain ⟨hopen, hn⟩ := hn
        obtain ⟨hmid, hsame⟩ := putFua2_growing hroom ho hput
          (fun hno => by rw [hs] at hno; cases hno) (fun _ => hopen)
        rw [hs, Bool.false_or] at hmid
        exact ih (hsame ▸ hroom) hmid hn hrest

end Writing

section Runs

variable {codec : PlayCodec} {play play' : RtcPlay} {e : PlayEvent}

/-- A frame of whole units is whole. -/
theorem assembleFrame_whole {ring : Mem} {track track' : PlayTrackH2645} {start last nb : Nat}
    (hroom : track.videoBuffer.room = yangVideoEncodeBufferLen)
    (hn : Nested false (framePieces codec ring track start last))
    (h : assembleFrame codec ring track start last = .ret (track', nb)) : WholeFrame track' nb := by
  obtain ⟨tag, buffer, out, hwrite, hput, hbuffer, hnb⟩ := assembleFrame_pieces h
  obtain ⟨-, rfl⟩ := Area.write_eq_ret.mp hwrite
  have hstart : Output.Whole
      ⟨{ track.videoBuffer with
        data := track.videoBuffer.data.write 0 [tag, 0x01, 0x00, 0x00, 0x00] }, 5, 0⟩ :=
    ⟨tag, [], Mem.slice_write _ 0 [tag, 0x01, 0x00, 0x00, 0x00], .nil⟩
  have hout := putPieces_whole (Nat.le_of_eq hroom) (show Output.Growing _ false from hstart) hn hput
  unfold WholeFrame
  rw [hbuffer, hnb]
  exact hout

/-- The video buffer keeps its size. -/
theorem playStep_room (h : PlayStep codec play e play')
    (hroom : play.stream.track.videoBuffer.room = yangVideoEncodeBufferLen) :
    play'.stream.track.videoBuffer.room = yangVideoEncodeBufferLen := by
  refine playStep_keeps (P := fun t => t.videoBuffer.room = yangVideoEncodeBufferLen) ?_ ?_ ?_
    hroom h
  · intro ring track t videoTracks src sn hP ht
    rw [playtrackArrive_videoBuffer ht]
    exact hP
  · intro ring track track₁ track₂ start last nb timestamp hP hasm hput
    rw [putFrameVideo_changes hput]
    exact (assembleFrame_room hasm).2.trans hP
  · exact fun _ hP => hP

theorem nests_whole (hroom : play.stream.track.videoBuffer.room = yangVideoEncodeBufferLen)
    (h : e.Nests codec play) : FramesWhole codec play e := by
  intro ring t s l t' nb hasm hret
  refine assembleFrame_whole ?_ (h ring t s l hasm) hret
  obtain ⟨track, sn, tailSn, ⟨plaintext, pkt, -, -, -, harrive⟩, -, -, hcalls⟩ := hasm
  refine assembles_keeps (P := fun t => t.videoBuffer.room = yangVideoEncodeBufferLen) ?_ ?_ hcalls
  · intro track track₁ track₂ start last nb timestamp hP hasm hput
    rw [putFrameVideo_changes hput]
    exact (assembleFrame_room hasm).2.trans hP
  · rw [playtrackArrive_videoBuffer harrive]
    exact hroom

/-- **Whole units.** In every run whose frames have each unit's fragments one after the other,
from a first to a last packet, every frame is its head and units behind their lengths. -/
theorem frames_whole (codec : PlayCodec) (videoTracks : List Nat) (audioTrack : PlayTrackAudio)
    (audio video : PlayReception) (twccEnabled : Bool) (twccId : Nat) (es : List PlayEvent)
    (h : Run.Throughout (PlayStep codec) (fun play e => e.Nests codec play) es
      (.start videoTracks audioTrack audio video twccEnabled twccId)) :
    Run.Throughout (PlayStep codec) (FramesWhole codec) es
      (.start videoTracks audioTrack audio video twccEnabled twccId) :=
  Run.throughout_imp
    (fun play => play.stream.track.videoBuffer.room = yangVideoEncodeBufferLen)
    (fun _ _ hroom he => nests_whole hroom he) (fun _ _ _ hroom _ hs => playStep_room hs hroom) rfl h

end Runs

section Inputs

/-- A frame of one packet is whole, and is delivered. -/
theorem frames_whole_one : FramesWhole playH264 listeningPlay (unitEvent onlyUnit) ∧
    ∃ play', PlayStep playH264 listeningPlay (unitEvent onlyUnit) play' ∧
      play'.stream.track.frames = [⟨.P, [0, 0, 0, 2, 0x41, 9], 0⟩] := by
  have hn : (unitEvent onlyUnit).Nests playH264 listeningPlay := by
    intro ring t s l hasm
    rw [onlyUnit_assembling hasm]
    exact ⟨fun _ => rfl, rfl⟩
  exact ⟨(frames_whole playH264 [2] {} freshPlay.audio freshPlay.video false 0
    [unitEvent onlyUnit] ⟨hn, fun _ _ => trivial⟩).1, _, ⟨yangOk, rfl⟩, by decide⟩

/-- A fragment that is the first and the last of its unit. -/
def onlyFragment : RtpUnit :=
  ⟨{ payloadType := 96, sequence := 0, ssrc := 2, marker := true }, [0x5c, 0xc1, 9]⟩

/-- As many first as last fragments have come, so the frame is delivered, and the room for the
unit's length was never filled. -/
theorem only_fragment_broken :
    (∃ play', PlayStep playH264 listeningPlay (unitEvent onlyFragment) play' ∧
      play'.stream.track.frames = [⟨.P, [0, 0, 0, 0, 0x41, 9], 0⟩]) ∧
    ¬ FramesWhole playH264 listeningPlay (unitEvent onlyFragment) := by
  refine ⟨⟨_, ⟨yangOk, rfl⟩, by decide⟩, fun hall => ?_⟩
  obtain ⟨pkt, hpkt, t, harrive, hsearch, hheader, hcheck, t', hasm, hslice⟩ :
      ∃ pkt, videoPacket listeningPlay onlyFragment.bytes = some pkt ∧
      ∃ t, playtrackArrive playH264 [2] (copied listeningPlay onlyFragment.bytes).rtpBuffer.buffer
        listeningPlay.stream.track pkt = .ret (t, some 0) ∧ findNextLostSn t 0 = .frame 0 ∧
      t.headerSn = 0 ∧
      checkFrameComplete playH264 t 0 0 = true ∧
      ∃ t', assembleFrame playH264 (copied listeningPlay onlyFragment.bytes).rtpBuffer.buffer t 0 0
        = .ret (t', 11) ∧
      t'.videoBuffer.data.slice 0 11 = [0x27, 1, 0, 0, 0, 0, 0, 0, 0, 0x41, 9] :=
    ⟨_, rfl, _, rfl, rfl, rfl, rfl, _, rfl, rfl⟩
  have hcall : (unitEvent onlyFragment).Assembling playH264 listeningPlay
      (copied listeningPlay onlyFragment.bytes).rtpBuffer.buffer t 0 0 := by
    refine ⟨t, 0, 0, ⟨_, pkt, unitEvent_plaintext _, hpkt, rfl, harrive⟩, hsearch, ?_, ?_⟩ <;>
      rw [hheader]
    · exact hcheck
    · exact .here _ _ _ _
  obtain ⟨tag, units, hwhole, hlands⟩ := hall _ _ _ _ _ _ hcall hasm
  obtain rfl : [0, 0, 0, 0, 0x41, 9] = units :=
    congrArg (List.drop 5) (hslice.symm.trans hwhole)
  cases hlands with
  | unit _ _ _ hrest =>
    obtain hnil | hlen := lands_length hrest
    · exact absurd hnil (by decide)
    · exact absurd hlen (by decide)

end Inputs

end MetaRtc
