import MetaRtc.Play.Release
import MetaRtc.Play.Stream
import MetaRtc.Lib.Run

/-! # How a packet comes to the video track

A datagram of either media is copied to the ring. One of the video is stored in the cache,
and the frames that are complete with it are assembled. -/
namespace MetaRtc

open Bytes Exec

/-- A datagram that comes to the play stream, and what is around it. -/
structure PlayEvent where
  env : PlayEnv
  data : Mem
  nbData : Nat

/-- What SRTP makes of the datagram, if it accepts it. -/
def PlayEvent.plaintext (e : PlayEvent) : Option (List UInt8) :=
  let (err, plaintext) := decRtp e.env (e.data.slice 0 e.nbData)
  if err = yangOk then some plaintext else none

def PlayStep (codec : PlayCodec) (play : RtcPlay) (e : PlayEvent) (play' : RtcPlay) : Prop :=
  ∃ err, rtcplayOnRtp e.env codec play e.data e.nbData = .ret (err, play')

/-- A stream that nothing has come to yet. -/
def RtcPlay.start (videoTracks : List Nat) (audioTrack : PlayTrackAudio)
    (audio video : PlayReception) (twccEnabled : Bool) (twccId : Nat) : RtcPlay :=
  { stream := { videoTracks }, audioTrack, audio, video, twccEnabled, twccId }

/-- The packet as the video track is given it, if it is one of the video. -/
def videoPacket (play : RtcPlay) (plaintext : List UInt8) : Option RtpPacket :=
  let (err, pkt, _) := wrapRtpPacket play.stream plaintext
  if err = yangOk ∧ playtrackHasSsrc play.audio pkt.header.ssrc = false ∧
      playtrackHasSsrc play.video pkt.header.ssrc = true then some pkt
  else none

/-- The stream once the plaintext has been copied to its ring. -/
def copied (play : RtcPlay) (plaintext : List UInt8) : PlayStream :=
  (wrapRtpPacket play.stream plaintext).2.2

/-- The track as a packet is stored to it. -/
def playtrackReady (videoTracks : List Nat) (track : PlayTrackH2645) (key : Bool)
    (header : RtpHeader) : PlayTrackH2645 :=
  let track :=
    if track.hasRequestKeyframe = false then { track with plis := track.plis ++ videoTracks }
    else track
  if key then newKeyframe { track with hasRequestKeyframe := true } header else track

/-- A packet that comes is stored. The second result is the number that the search for the
end of a frame starts from, if there is one. -/
def playtrackArrive (codec : PlayCodec) (videoTracks : List Nat) (ring : Mem)
    (track : PlayTrackH2645) (src : RtpPacket) : Call (PlayTrackH2645 × Option Nat) := do
  let payload ← Call.deref src.payload
  let src := { src with naluType := codec.naluType (ring payload) }
  let key ← isKeyframe codec ring src
  let seq := src.header.sequence
  let track ← storePacket codec ring (playtrackReady videoTracks track key src.header) src
  if key = true ∧ rtpSeqDistance track.headerSn seq < 0 then
    return ({ track with headerSn := seq }, some seq)
  else if track.lostSn = seq then return (track, some seq)
  else return (track, none)

/-- The search and what follows it. -/
def playtrackSearch (codec : PlayCodec) (ring : Mem) (track : PlayTrackH2645) :
    Option Nat → Call (Err × PlayTrackH2645)
  | some sn => onNextLost codec ring track (findNextLostSn track sn)
  | none => .ret (yangOk, track)

/-- The calls of `packet_video` of one arrival, at most `n` of them: each with the track it is
made on, and its first and last number. -/
inductive Assembles (codec : PlayCodec) (ring : Mem) :
    Nat → PlayTrackH2645 → Nat → Nat → PlayTrackH2645 → Nat → Nat → Prop
  | here (n : Nat) (track : PlayTrackH2645) (start last : Nat) :
      Assembles codec ring (n + 1) track start last track start last
  | next {n nb start last tailSn s l : Nat} {track track₁ track₂ t : PlayTrackH2645} :
      assembleFrame codec ring track start last = .ret (track₁, nb) →
      putFrameVideo track₁ (track.cacheVideoPkts (cacheIndex start)).ts nb = .ret track₂ →
      findNextLostSn { track₂ with headerSn := (last + 1) % 65536 } ((last + 1) % 65536) =
        .frame tailSn →
      checkFrameComplete codec { track₂ with headerSn := (last + 1) % 65536 }
        ((last + 1) % 65536) tailSn = true →
      Assembles codec ring n { track₂ with headerSn := (last + 1) % 65536 }
        ((last + 1) % 65536) tailSn t s l →
      Assembles codec ring (n + 1) track start last t s l

/-- The datagram brings a packet of the video, which is stored with this ring, to this track,
and from this number on the end of a frame is searched. -/
def PlayEvent.Arrives (codec : PlayCodec) (play : RtcPlay) (e : PlayEvent) (ring : Mem)
    (t : PlayTrackH2645) (sn : Option Nat) : Prop :=
  ∃ plaintext pkt, e.plaintext = some plaintext ∧ videoPacket play plaintext = some pkt ∧
    ring = (copied play plaintext).rtpBuffer.buffer ∧
    playtrackArrive codec play.stream.videoTracks ring play.stream.track pkt = .ret (t, sn)

/-- The calls of `packet_video` that a datagram leads to, with the ring they read. -/
def PlayEvent.Assembling (codec : PlayCodec) (play : RtcPlay) (e : PlayEvent) (ring : Mem)
    (t : PlayTrackH2645) (s l : Nat) : Prop :=
  ∃ track sn tailSn, e.Arrives codec play ring track (some sn) ∧
    findNextLostSn track sn = .frame tailSn ∧
    checkFrameComplete codec track track.headerSn tailSn = true ∧
    Assembles codec ring (yangRtcRecvBufferCount + 1) track track.headerSn tailSn t s l

section Arrival

variable {codec : PlayCodec} {ring : Mem} {track t t' : PlayTrackH2645} {videoTracks : List Nat}
  {src : RtpPacket} {sn : Option Nat} {nextLost : NextLost} {err : Err}

theorem newKeyframe_retains (track : PlayTrackH2645) (header : RtpHeader) :
    Retains track.cacheVideoPkts (newKeyframe track header).cacheVideoPkts := by
  unfold newKeyframe
  split
  · intro j hj
    simp only [clearCachedVideo] at hj ⊢
    split at hj
    · cases hj
    · rename_i hfree
      exact absurd hj hfree
  · exact retains_refl _

theorem playtrackOnRtp_arrive :
    playtrackOnRtp codec videoTracks ring track src =
      (playtrackArrive codec videoTracks ring track src >>= fun r =>
        playtrackSearch codec ring r.1 r.2) := by
  unfold playtrackOnRtp playtrackArrive packetVideoKeyFrame playtrackReady
  simp only [Call.bind_assoc]
  cases src.payload with
  | none => rfl
  | some payload =>
    simp only [Call.deref_some, Call.ret_bind]
    congr 1
    funext key
    cases key with
    | true =>
      simp only [if_true, true_and]
      congr 1
      funext t
      split
      · rfl
      · split
        · rename_i hlost
          rw [hlost]
          rfl
        · rfl
    | false =>
      simp only [Bool.false_eq_true, if_false, false_and]
      congr 1
      funext t
      split
      · rename_i hlost
        rw [hlost]
        rfl
      · rfl

/-- All that the arrival of a packet can do. -/
theorem playtrackArrive_cases
    (h : playtrackArrive codec videoTracks ring track src = .ret (t, sn)) :
    ∃ payload key slot stored, src.payload = some payload ∧
      copyPacket codec ring { src with naluType := codec.naluType (ring payload) }
        { (playtrackReady videoTracks track key src.header).cacheVideoPkts
          (cacheIndex src.header.sequence) with inUse := true } = .ret slot ∧
      stored = { playtrackReady videoTracks track key src.header with
        cacheVideoPkts := Function.update
          (playtrackReady videoTracks track key src.header).cacheVideoPkts
          (cacheIndex src.header.sequence) slot } ∧
      (t = { stored with headerSn := src.header.sequence } ∧ sn = some src.header.sequence ∨
        t = stored ∧ sn = some src.header.sequence ∨ t = stored ∧ sn = none) := by
  unfold playtrackArrive at h
  obtain ⟨payload, hpayload, h⟩ := Call.bind_eq_ret.mp h
  obtain ⟨key, -, h⟩ := Call.bind_eq_ret.mp h
  obtain ⟨stored, hstore, h⟩ := Call.bind_eq_ret.mp h
  unfold storePacket at hstore
  obtain ⟨slot, hcopy, hstored⟩ := Call.bind_eq_ret.mp hstore
  cases hstored
  refine ⟨payload, key, slot, _, Call.deref_eq_ret.mp hpayload, hcopy, rfl, ?_⟩
  split at h
  · cases h
    exact .inl ⟨rfl, rfl⟩
  · split at h
    · cases h
      exact .inr (.inl ⟨rfl, rfl⟩)
    · cases h
      exact .inr (.inr ⟨rfl, rfl⟩)

theorem playtrackReady_retains (videoTracks : List Nat) (track : PlayTrackH2645) (key : Bool)
    (header : RtpHeader) : Retains track.cacheVideoPkts
      (playtrackReady videoTracks track key header).cacheVideoPkts := by
  unfold playtrackReady
  cases key with
  | true =>
    split <;> exact newKeyframe_retains _ _
  | false =>
    split <;> exact retains_refl _

theorem playtrackReady_videoBuffer (videoTracks : List Nat) (track : PlayTrackH2645) (key : Bool)
    (header : RtpHeader) :
    (playtrackReady videoTracks track key header).videoBuffer = track.videoBuffer := by
  have hnew : ∀ t, (newKeyframe t header).videoBuffer = t.videoBuffer := by
    intro t
    unfold newKeyframe
    split <;> rfl
  unfold playtrackReady
  cases key with
  | true =>
    split <;> exact hnew _
  | false =>
    split <;> rfl

/-- The slot of the packet is filled anew, and no other one comes into use. -/
theorem playtrackArrive_caches
    (h : playtrackArrive codec videoTracks ring track src = .ret (t, sn)) :
    ∃ payload cache slot, src.payload = some payload ∧ Retains track.cacheVideoPkts cache ∧
      copyPacket codec ring { src with naluType := codec.naluType (ring payload) }
        { cache (cacheIndex src.header.sequence) with inUse := true } = .ret slot ∧
      t.cacheVideoPkts = Function.update cache (cacheIndex src.header.sequence) slot := by
  obtain ⟨payload, key, slot, stored, hpayload, hcopy, hstored, ht⟩ := playtrackArrive_cases h
  refine ⟨payload, _, slot, hpayload, playtrackReady_retains videoTracks track key src.header,
    hcopy, ?_⟩
  obtain ⟨rfl, -⟩ | ⟨rfl, -⟩ | ⟨rfl, -⟩ := ht <;> rw [hstored]

theorem playtrackArrive_videoBuffer
    (h : playtrackArrive codec videoTracks ring track src = .ret (t, sn)) :
    t.videoBuffer = track.videoBuffer := by
  obtain ⟨payload, key, slot, stored, -, -, hstored, ht⟩ := playtrackArrive_cases h
  have hready : stored.videoBuffer = track.videoBuffer := by
    rw [hstored]
    exact playtrackReady_videoBuffer _ _ _ _
  obtain ⟨rfl, -⟩ | ⟨rfl, -⟩ | ⟨rfl, -⟩ := ht <;> exact hready

/-- What a frame's assembly keeps, and a new number waited for, all that follows the search
keeps. -/
theorem packetVideo_keeps {P : PlayTrackH2645 → Prop} {n start last : Nat}
    (hframe : ∀ {track track₁ track₂ : PlayTrackH2645} {start last nb : Nat} {timestamp : Int},
      P track → assembleFrame codec ring track start last = .ret (track₁, nb) →
      putFrameVideo track₁ timestamp nb = .ret track₂ →
      P { track₂ with headerSn := (last + 1) % 65536 })
    (hlost : ∀ {track : PlayTrackH2645} (sn : Nat), P track → P { track with lostSn := sn })
    (hP : P track) (h : packetVideo codec ring n track start last = .ret (err, t)) : P t := by
  induction n generalizing track start last with
  | zero =>
    cases h
    exact hP
  | succ n ih =>
    obtain ⟨⟨track₁, nb⟩, hasm, h⟩ := Call.bind_eq_ret.mp h
    obtain ⟨track₂, hput, h⟩ := Call.bind_eq_ret.mp h
    have hP₂ := hframe hP hasm hput
    dsimp only at h
    split at h
    · split at h
      · exact ih hP₂ h
      · cases h
        exact hP₂
    · cases h
      exact hP₂
    · cases h
      exact hlost _ hP₂

theorem onNextLost_keeps {P : PlayTrackH2645 → Prop}
    (hframe : ∀ {track track₁ track₂ : PlayTrackH2645} {start last nb : Nat} {timestamp : Int},
      P track → assembleFrame codec ring track start last = .ret (track₁, nb) →
      putFrameVideo track₁ timestamp nb = .ret track₂ →
      P { track₂ with headerSn := (last + 1) % 65536 })
    (hlost : ∀ {track : PlayTrackH2645} (sn : Nat), P track → P { track with lostSn := sn })
    (hP : P track) (h : onNextLost codec ring track nextLost = .ret (err, t)) : P t := by
  unfold onNextLost at h
  split at h
  · split at h
    · exact packetVideo_keeps hframe hlost hP h
    · cases h
      exact hP
  · cases h
    exact hP
  · cases h
    exact hlost _ hP

theorem playtrackSearch_keeps {P : PlayTrackH2645 → Prop}
    (hframe : ∀ {track track₁ track₂ : PlayTrackH2645} {start last nb : Nat} {timestamp : Int},
      P track → assembleFrame codec ring track start last = .ret (track₁, nb) →
      putFrameVideo track₁ timestamp nb = .ret track₂ →
      P { track₂ with headerSn := (last + 1) % 65536 })
    (hlost : ∀ {track : PlayTrackH2645} (sn : Nat), P track → P { track with lostSn := sn })
    (hP : P track) (h : playtrackSearch codec ring track sn = .ret (err, t)) : P t := by
  cases sn with
  | some sn => exact onNextLost_keeps hframe hlost hP h
  | none =>
    cases h
    exact hP

theorem assembles_keeps {P : PlayTrackH2645 → Prop} {n start last s l : Nat}
    (hframe : ∀ {track track₁ track₂ : PlayTrackH2645} {start last nb : Nat} {timestamp : Int},
      P track → assembleFrame codec ring track start last = .ret (track₁, nb) →
      putFrameVideo track₁ timestamp nb = .ret track₂ →
      P { track₂ with headerSn := (last + 1) % 65536 })
    (hP : P track) (h : Assembles codec ring n track start last t s l) : P t := by
  induction h with
  | here => exact hP
  | next hasm hput _ _ _ ih => exact ih (hframe hP hasm hput)

theorem playtrackSearch_retains (h : playtrackSearch codec ring track sn = .ret (err, t)) :
    Retains track.cacheVideoPkts t.cacheVideoPkts := by
  refine playtrackSearch_keeps (P := fun t => Retains track.cacheVideoPkts t.cacheVideoPkts) ?_ ?_
    (retains_refl _) h
  · intro track₀ track₁ track₂ start last nb timestamp hP hasm hput
    obtain ⟨keyFrameTs, hasm⟩ := assembleFrame_changes hasm
    rw [putFrameVideo_changes hput, hasm]
    exact retains_trans hP (releaseAll_retains _ _ _ _)
  · exact fun _ hP => hP

theorem copied_track (play : RtcPlay) (plaintext : List UInt8) :
    (copied play plaintext).track = play.stream.track := rfl

theorem copied_ring {play : RtcPlay} (hlen : play.stream.rtpBuffer.bufLen = 1500)
    (hidx : play.stream.rtpBuffer.index < 1500) (plaintext : List UInt8) :
    (copied play plaintext).rtpBuffer = received play.stream.rtpBuffer plaintext := by
  simp only [copied, wrapRtpPacket, getRtpBuffer_ring hlen hidx, received]

/-- What a datagram does to the stream: nothing if SRTP refuses it, a copy to the ring else,
and what the video track does with it if it is one of the video. -/
theorem playStep_cases {play play' : RtcPlay} {e : PlayEvent} (h : PlayStep codec play e play') :
    play'.audio.ids = play.audio.ids ∧ play'.video.ids = play.video.ids ∧
    (e.plaintext = none ∧ play'.stream = play.stream ∨
    ∃ plaintext, e.plaintext = some plaintext ∧
      (videoPacket play plaintext = none ∧ play'.stream = copied play plaintext ∨
      ∃ pkt err track, videoPacket play plaintext = some pkt ∧
        playtrackOnRtp codec play.stream.videoTracks (copied play plaintext).rtpBuffer.buffer
          play.stream.track pkt = .ret (err, track) ∧
        play'.stream = { copied play plaintext with track })) := by
  obtain ⟨err, h⟩ := h
  unfold rtcplayOnRtp at h
  obtain ⟨play₁, hrecord, h⟩ := Call.bind_eq_ret.mp h
  rw [(recordTwcc_effect hrecord).1] at h
  unfold PlayEvent.plaintext
  dsimp only at h ⊢
  split at h
  · rename_i herr
    rw [if_neg herr]
    split at h <;> cases h <;> exact ⟨rfl, rfl, .inl ⟨rfl, rfl⟩⟩
  · rename_i herr
    rw [if_pos (not_not.mp herr)]
    generalize (decRtp e.env (e.data.slice 0 e.nbData)).2 = plaintext at h ⊢
    unfold rtcplayOnPlaintext at h
    unfold videoPacket copied
    dsimp only at h ⊢
    split at h
    · rename_i hok
      cases h
      exact ⟨rfl, rfl, .inr ⟨_, rfl, .inl ⟨if_neg fun hv => hok hv.1, rfl⟩⟩⟩
    · rename_i hok
      split at h
      · rename_i haudio
        cases h
        exact ⟨rfl, rfl, .inr ⟨_, rfl, .inl ⟨if_neg (by simp [haudio]), rfl⟩⟩⟩
      · rename_i haudio
        split at h
        · rename_i hvideo
          obtain ⟨⟨err'', track⟩, htrack, hret⟩ := Call.bind_eq_ret.mp h
          cases hret
          refine ⟨rfl, rfl, .inr ⟨_, rfl, .inr ⟨_, err'', track, if_pos ?_, htrack, rfl⟩⟩⟩
          exact ⟨not_not.mp hok, Bool.eq_false_iff.mpr haudio, hvideo⟩
        · rename_i hvideo
          cases h
          exact ⟨rfl, rfl, .inr ⟨_, rfl, .inl ⟨if_neg fun hv => hvideo hv.2.2, rfl⟩⟩⟩

/-- What the arrival of a packet and the assembly of a frame keep, every datagram keeps. -/
theorem playStep_keeps {P : PlayTrackH2645 → Prop} {play play' : RtcPlay} {e : PlayEvent}
    (harrive : ∀ {ring : Mem} {track t : PlayTrackH2645} {videoTracks : List Nat}
      {src : RtpPacket} {sn : Option Nat}, P track →
      playtrackArrive codec videoTracks ring track src = .ret (t, sn) → P t)
    (hframe : ∀ {ring : Mem} {track track₁ track₂ : PlayTrackH2645} {start last nb : Nat}
      {timestamp : Int}, P track →
      assembleFrame codec ring track start last = .ret (track₁, nb) →
      putFrameVideo track₁ timestamp nb = .ret track₂ →
      P { track₂ with headerSn := (last + 1) % 65536 })
    (hlost : ∀ {track : PlayTrackH2645} (sn : Nat), P track → P { track with lostSn := sn })
    (hP : P play.stream.track) (h : PlayStep codec play e play') : P play'.stream.track := by
  obtain ⟨-, -, ⟨-, hstream⟩ | ⟨plaintext, -, ⟨-, hstream⟩ | ⟨pkt, err, track, -, htrack, hstream⟩⟩⟩
    := playStep_cases h
  · rw [hstream]
    exact hP
  · rw [hstream]
    exact hP
  · rw [playtrackOnRtp_arrive] at htrack
    obtain ⟨⟨t, sn⟩, ht, hnext⟩ := Call.bind_eq_ret.mp htrack
    rw [hstream]
    exact playtrackSearch_keeps hframe hlost (harrive hP ht) hnext

/-- A datagram leads to one state only. -/
theorem playStep_unique {play play₁ play₂ : RtcPlay} {e : PlayEvent}
    (h₁ : PlayStep codec play e play₁) (h₂ : PlayStep codec play e play₂) : play₁ = play₂ := by
  obtain ⟨err₁, h₁⟩ := h₁
  obtain ⟨err₂, h₂⟩ := h₂
  rw [h₁] at h₂
  cases h₂
  rfl

end Arrival

section Listening

/-- The keys are there and change nothing. -/
def openEnv : PlayEnv := ⟨true, fun packet => (0, packet), 1000, 1000, fun _ => 1000, 64⟩

def unitEvent (u : RtpUnit) : PlayEvent := ⟨openEnv, ofList u.bytes, u.bytes.length⟩

/-- A stream that has an audio source 1 and a video source 2, and no use for the
transport-wide numbers. -/
structure Listening (play : RtcPlay) : Prop where
  bufLen : play.stream.rtpBuffer.bufLen = 1500
  index : play.stream.rtpBuffer.index < 1500
  twcc : play.twccEnabled = false
  audio : playtrackHasSsrc play.audio 1 = true
  notAudio : playtrackHasSsrc play.audio 2 = false
  video : playtrackHasSsrc play.video 2 = true

def listeningPlay : RtcPlay := .start [2] {} freshPlay.audio freshPlay.video false 0

theorem listening_start : Listening listeningPlay := by
  constructor <;> decide

variable {codec : PlayCodec} {play : RtcPlay} {u : RtpUnit} {err : Err} {track : PlayTrackH2645}

theorem unitEvent_plaintext (u : RtpUnit) : (unitEvent u).plaintext = some u.bytes := by
  show some ((ofList u.bytes).slice 0 u.bytes.length) = _
  rw [slice_ofList]

theorem rtcplayOnRtp_unit (h : Listening play) :
    rtcplayOnRtp (unitEvent u).env codec play (unitEvent u).data (unitEvent u).nbData =
      rtcplayOnPlaintext openEnv codec play u.bytes := by
  have hrecord : rtcplayRecordTwcc openEnv play (ofList u.bytes) u.bytes.length = .ret play :=
    if_neg fun hno => by simp [h.twcc] at hno
  have hdec : decRtp openEnv ((ofList u.bytes).slice 0 u.bytes.length) = (yangOk, u.bytes) := by
    rw [slice_ofList]
    rfl
  simp only [rtcplayOnRtp, unitEvent, hrecord, Call.ret_bind, hdec, ne_eq, not_true_eq_false,
    if_false]

theorem playStep_audio (codec : PlayCodec) (h : Listening play) (hp : u.header.Plain)
    (hssrc : u.header.ssrc = 1) :
    ∃ play', PlayStep codec play (unitEvent u) play' ∧ Listening play' ∧
      play'.stream = { play.stream with rtpBuffer := received play.stream.rtpBuffer u.bytes } := by
  have haudio : playtrackHasSsrc play.audio u.header.ssrc = true := hssrc ▸ h.audio
  unfold PlayStep
  simp only [rtcplayOnRtp_unit h, rtcplayOnPlaintext, wrapRtpPacket_unit h.bufLen h.index hp, ne_eq,
    not_true_eq_false, if_false, haudio, if_true]
  refine ⟨_, ⟨_, rfl⟩, ?_, rfl⟩
  exact ⟨h.bufLen, Nat.mod_lt _ (by omega), h.twcc, h.audio, h.notAudio, h.video⟩

theorem playStep_video (h : Listening play) (hp : u.header.Plain) (hssrc : u.header.ssrc = 2)
    (htrack : playtrackOnRtp codec play.stream.videoTracks
      (received play.stream.rtpBuffer u.bytes).buffer play.stream.track
      { header := u.header
        payload := some (payloadAt play.stream.rtpBuffer)
        nb := u.payload.length } = .ret (err, track)) :
    ∃ play', PlayStep codec play (unitEvent u) play' ∧ Listening play' ∧
      play'.stream =
        { play.stream with rtpBuffer := received play.stream.rtpBuffer u.bytes, track } := by
  have haudio : playtrackHasSsrc play.audio u.header.ssrc = false := hssrc ▸ h.notAudio
  have hvideo : playtrackHasSsrc play.video u.header.ssrc = true := hssrc ▸ h.video
  unfold PlayStep
  simp only [rtcplayOnRtp_unit h, rtcplayOnPlaintext, wrapRtpPacket_unit h.bufLen h.index hp, ne_eq,
    not_true_eq_false, if_false, haudio, hvideo, Bool.false_eq_true, if_true, htrack,
    Call.ret_bind]
  refine ⟨_, ⟨_, rfl⟩, ?_, rfl⟩
  exact ⟨h.bufLen, Nat.mod_lt _ (by omega), h.twcc, h.audio, h.notAudio, h.video⟩

theorem playStep_videoRtp {stream : PlayStream} (h : Listening play) (hp : u.header.Plain)
    (hssrc : u.header.ssrc = 2)
    (hret : rtcplayOnVideoRtp codec play.stream u.bytes = .ret (err, stream)) :
    ∃ play', PlayStep codec play (unitEvent u) play' ∧ Listening play' ∧
      play'.stream = stream := by
  simp only [rtcplayOnVideoRtp, wrapRtpPacket_unit h.bufLen h.index hp, ne_eq, not_true_eq_false,
    if_false] at hret
  obtain ⟨⟨err', track⟩, htrack, hret⟩ := Call.bind_eq_ret.mp hret
  cases hret
  exact playStep_video h hp hssrc htrack

end Listening

end MetaRtc
