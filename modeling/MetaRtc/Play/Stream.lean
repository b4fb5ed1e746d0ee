import MetaRtc.Play.RecvNack
import MetaRtc.Play.SortBuffer
import MetaRtc.Play.Track
import MetaRtc.Play.Twcc
import MetaRtc.Session.Receive

/-! # The play stream: what an RTP datagram of either media does -/
namespace MetaRtc

open Bytes Exec

structure RecvRtpStats where
  startSn : Nat := 0
  maxSn : Nat := 0
  cycleCount : Nat := 0
  lastSn : Nat := 0
  rtpPacketCount : Nat := 0
  lastRtpPcackCount : Nat := 0
  deriving DecidableEq

def statsOnPlayRtp (stats : RecvRtpStats) (pkt : RtpPacket) : RecvRtpStats :=
  let seq := pkt.header.sequence
  let stats :=
    if stats.lastSn > 0xFF00 ∧ seq < 0xFF ∧
        (stats.cycleCount = 0 ∨ stats.rtpPacketCount - stats.lastRtpPcackCount > 0x1FFF) then
      { stats with
        cycleCount := (stats.cycleCount + 1) % 65536
        lastRtpPcackCount := stats.rtpPacketCount
        maxSn := seq }
    else if seq > stats.maxSn then { stats with maxSn := seq }
    else stats
  let stats :=
    if stats.rtpPacketCount = 0 then { stats with startSn := seq }
    else if stats.cycleCount = 0 ∧ seq < stats.startSn then { stats with startSn := seq }
    else stats
  { stats with lastSn := seq, rtpPacketCount := stats.rtpPacketCount + 1 }

def statsOnPlayVideoRtp := statsOnPlayRtp

def statsOnPlayAudioRtp (stats : RecvRtpStats) : RecvRtpStats :=
  { stats with rtpPacketCount := stats.rtpPacketCount + 1 }

/-- `frames` lists what the application was given, which the code does not look at. -/
structure PlayTrackAudio where
  sortBuffer : Option SortBuffer := none
  frames : List AudioFrame := []

def playtrackAudioOnRtp (ring : Mem) (track : PlayTrackAudio) (pkt : RtpPacket) : PlayTrackAudio :=
  match pkt.payload with
  | none => track
  | some payload =>
    let audioFrame : AudioFrame := ⟨ring.slice payload pkt.nb, pkt.header.timestamp⟩
    match track.sortBuffer with
    | none => { track with frames := track.frames ++ [audioFrame] }
    | some buf =>
      let buf := sortBufferPutFrame buf audioFrame.pts audioFrame
      match sortBufferGetCurFrameRef buf with
      | none => { track with sortBuffer := some buf }
      | some frame =>
        { sortBuffer := some (sortBufferRemoveFirst buf), frames := track.frames ++ [frame] }

/-- A track of the play stream apart from its cache of packets. `ssrc` is the one its
requests are for. -/
structure PlayReception where
  ids : List RtcTrack
  ssrc : Nat
  nackReceiver : RtpRecvNack
  stats : RecvRtpStats := {}

def playtrackHasSsrc (track : PlayReception) (ssrc : Nat) : Bool :=
  track.ids.any fun id => hasSsrc id ssrc

structure RtcPlay where
  stream : PlayStream := {}
  rtp : RtpPacket := {}
  audioTrack : PlayTrackAudio := {}
  audio : PlayReception
  video : PlayReception
  twccEnabled : Bool
  twccId : Nat
  twcc : RecvTwccFeedback := {}

/-- The code around the play stream: whether the keys are there, `srtp_unprotect` as a
function of the packet that gives a status and the plaintext, the clocks, and how many
passes the search for an extension is watched for. -/
structure PlayEnv where
  recvCtx : Bool
  unprotect : List UInt8 → Int × List UInt8
  microTime : Int
  now : Int
  clock : Nat → Int
  fuel : Nat

/-- A replay keeps the status of the library. -/
def decRtp (env : PlayEnv) (packet : List UInt8) : Err × List UInt8 :=
  if env.recvCtx = false then (errorRtcSrtpUnprotect, packet)
  else
    let (r0, plaintext) := env.unprotect packet
    if r0 ≠ 0 then
      if r0 = srtpErrStatusReplayFail then (r0, plaintext) else (errorRtcSrtpUnprotect, plaintext)
    else (yangOk, plaintext)

/-- The number is recorded before anything is known of who has sent it. -/
def rtcplayRecordTwcc (env : PlayEnv) (play : RtcPlay) (data : Mem) (nbData : Nat) :
    Call RtcPlay :=
  if play.twccEnabled ∧ (data 0).toNat / 16 % 2 = 1 then
    match rtpFastParseTwcc env.fuel data nbData (play.twccId % 256) with
    | none => .blocked
    | some (err, sn) =>
      if err = yangOk then .ret { play with twcc := rtcplayOnTwcc env.microTime play.twcc sn }
      else .ret play
  else .ret play

/-- What a track asks for again goes out on its own, and no error comes back of it. -/
def PlayReception.onNack (env : PlayEnv) (track : PlayReception) (pkt : RtpPacket) :
    PlayReception :=
  { track with
    nackReceiver :=
      (playtrackOnNack env.clock env.now track.ssrc track.nackReceiver pkt.header.sequence).1 }

/-- The plaintext is copied to the ring, decoded, and given to the track its source belongs
to. -/
def rtcplayOnPlaintext (env : PlayEnv) (codec : PlayCodec) (play : RtcPlay)
    (plaintext : List UInt8) : Call (Err × RtcPlay) :=
  let (err, pkt, stream) := wrapRtpPacket play.stream plaintext
  let play := { play with stream, rtp := pkt }
  if err ≠ yangOk then .ret (err, play)
  else if playtrackHasSsrc play.audio pkt.header.ssrc then
    let audio := { play.audio with stats := statsOnPlayAudioRtp play.audio.stats }
    .ret (yangOk, { play with
      audioTrack := playtrackAudioOnRtp stream.rtpBuffer.buffer play.audioTrack pkt
      audio := audio.onNack env pkt })
  else if playtrackHasSsrc play.video pkt.header.ssrc then do
    let (_, track) ←
      playtrackOnRtp codec stream.videoTracks stream.rtpBuffer.buffer stream.track pkt
    let video := { play.video with stats := statsOnPlayVideoRtp play.video.stats pkt }
    return (yangOk, { play with stream := { stream with track }, video := video.onNack env pkt })
  else .ret (errorRtcRtp, play)

/-- A datagram that is not decrypted is decoded once more for the log only. -/
def rtcplayOnRtp (env : PlayEnv) (codec : PlayCodec) (play : RtcPlay) (data : Mem)
    (nbData : Nat) : Call (Err × RtcPlay) := do
  let play ← rtcplayRecordTwcc env play data nbData
  let (err, plaintext) := decRtp env (data.slice 0 nbData)
  if err ≠ yangOk then
    if err = srtpErrStatusReplayFail then return (yangOk, play) else return (err, play)
  else rtcplayOnPlaintext env codec play plaintext

/-- SRTP refuses the datagram. -/
def Rejected (env : PlayEnv) (data : Mem) (nbData : Nat) : Prop :=
  (decRtp env (data.slice 0 nbData)).1 ≠ yangOk

/-- The number the fast parser finds in a datagram, where it is looked for. -/
def TwccNumber (env : PlayEnv) (play : RtcPlay) (data : Mem) (nbData sn : Nat) : Prop :=
  play.twccEnabled = true ∧ (data 0).toNat / 16 % 2 = 1 ∧
    rtpFastParseTwcc env.fuel data nbData (play.twccId % 256) = some (yangOk, sn)

/-- There is nothing about a number left to record: it is the one recorded last, at the very
time, is in the list, and no reported numbers are to be cut from the list. -/
structure Recorded (microTime : Int) (twcc : RecvTwccFeedback) (sn : Nat) : Prop where
  uncut : ¬ (twcc.isSendtwcc = false ∧ twcc.newSnsIndex > 0 ∧ twcc.newSnsIndex < twcc.sns.vsize)
  room : twcc.sns.vsize + 1 < twcc.sns.capacity
  nonempty : twcc.sns.vsize ≠ 0
  notAfter : ¬ rtpSeqDistance (twcc.sns.payload (twcc.sns.vsize - 1)) sn > 0
  found : getUint16SortIndex twcc.sns.payload sn twcc.sns.vsize = -1
  time : twcc.tss (sn &&& 511) = microTime
  newest : twcc.newRecvSn = sn

theorem insertUint16SortVec_same {psort : Uint16Sort} {val : Nat} :
    insertUint16SortVec psort val = psort ↔
      psort.vsize + 1 < psort.capacity ∧ psort.vsize ≠ 0 ∧
      ¬ rtpSeqDistance (psort.payload (psort.vsize - 1)) val > 0 ∧
      getUint16SortIndex psort.payload val psort.vsize = -1 := by
  by_cases hroom : psort.vsize + 1 < psort.capacity
  · have hgrow : psort.grow = psort := if_neg (by omega)
    simp only [hroom, true_and, insertUint16SortVec, hgrow]
    split
    · rename_i happend
      refine ⟨fun heq => ?_, fun h => ?_⟩
      · have hsize := congrArg Uint16Sort.vsize heq
        dsimp only at hsize
        omega
      · exact absurd happend (by rintro (h0 | hpos); exacts [h.1 h0, h.2.1 hpos])
    · rename_i happend
      rw [not_or] at happend
      split
      · rename_i hfound
        exact ⟨fun _ => ⟨happend.1, happend.2, hfound⟩, fun _ => rfl⟩
      · rename_i hfound
        refine ⟨fun heq => ?_, fun h => absurd h.2.2 hfound⟩
        have hsize := congrArg Uint16Sort.vsize heq
        dsimp only at hsize
        omega
  · refine ⟨fun heq => ?_, fun h => absurd h.1 hroom⟩
    have hgrown : psort.grow.capacity = psort.capacity + 50 := by
      unfold Uint16Sort.grow
      rw [if_pos (by omega)]
    have hcap : (insertUint16SortVec psort val).capacity = psort.grow.capacity := by
      unfold insertUint16SortVec
      dsimp only
      split
      · rfl
      · split <;> rfl
    rw [heq, hgrown] at hcap
    omega

theorem cutReported_same {twcc : RecvTwccFeedback} :
    rtcplayCutReported twcc = twcc ↔
      ¬ (twcc.isSendtwcc = false ∧ twcc.newSnsIndex > 0 ∧ twcc.newSnsIndex < twcc.sns.vsize) := by
  unfold rtcplayCutReported
  split
  · rename_i hcut
    refine ⟨fun heq => ?_, fun h => absurd hcut h⟩
    have hindex : twcc.newSnsIndex = 0 := by
      rw [← heq]
      split <;> rfl
    omega
  · rename_i huncut
    exact ⟨fun _ => huncut, fun _ => rfl⟩

theorem onTwcc_same_iff {microTime : Int} {twcc : RecvTwccFeedback} {sn : Nat} :
    rtcplayOnTwcc microTime twcc sn = twcc ↔ Recorded microTime twcc sn := by
  constructor
  · intro heq
    have huncut : ¬ (twcc.isSendtwcc = false ∧ twcc.newSnsIndex > 0 ∧
        twcc.newSnsIndex < twcc.sns.vsize) := by
      rintro hcut
      have hindex : (rtcplayCutReported twcc).newSnsIndex = 0 := by
        unfold rtcplayCutReported
        rw [if_pos hcut]
        split <;> rfl
      have hsame : (rtcplayOnTwcc microTime twcc sn).newSnsIndex = 0 := hindex
      rw [heq] at hsame
      omega
    have hcut := cutReported_same.mpr huncut
    unfold rtcplayOnTwcc at heq
    rw [hcut] at heq
    obtain ⟨hroom, hne, hafter, hfound⟩ :=
      insertUint16SortVec_same.mp (congrArg RecvTwccFeedback.sns heq)
    refine ⟨huncut, hroom, hne, hafter, hfound, ?_, (congrArg RecvTwccFeedback.newRecvSn heq).symm⟩
    have htime := congrFun (congrArg RecvTwccFeedback.tss heq) (sn &&& 511)
    rw [← htime]
    exact Function.update_self _ _ _
  · intro h
    have hsns := insertUint16SortVec_same.mpr ⟨h.room, h.nonempty, h.notAfter, h.found⟩
    have htss : Function.update twcc.tss (sn &&& 511) microTime = twcc.tss := by
      rw [← h.time, Function.update_eq_self]
    obtain rfl := h.newest
    unfold rtcplayOnTwcc
    rw [cutReported_same.mpr h.uncut]
    dsimp only
    rw [hsns, htss]

/-- What is recorded before the check is all that a rejected datagram changes. -/
theorem rejected_returns {env : PlayEnv} {codec : PlayCodec} {play : RtcPlay} {data : Mem}
    {nbData : Nat} (h : Rejected env data nbData) (err : Err) {play' : RtcPlay} :
    (rtcplayOnRtp env codec play data nbData = .ret (err, play') →
      rtcplayRecordTwcc env play data nbData = .ret play') ∧
    (rtcplayRecordTwcc env play data nbData = .ret play' →
      ∃ err, rtcplayOnRtp env codec play data nbData = .ret (err, play')) := by
  unfold Rejected at h
  unfold rtcplayOnRtp
  constructor
  · intro hret
    obtain ⟨play1, hrecord, hrest⟩ := Call.bind_eq_ret.mp hret
    simp only [h, ne_eq, not_false_eq_true, if_true] at hrest
    rw [hrecord]
    split at hrest <;> simp_all
  · intro hrecord
    rw [hrecord, Call.ret_bind]
    simp only [h, ne_eq, not_false_eq_true, if_true]
    split
    · exact ⟨_, rfl⟩
    · exact ⟨_, rfl⟩

/-- The record of the numbers is all that changes, and it does only where one is found. -/
theorem recordTwcc_effect {env : PlayEnv} {play play' : RtcPlay} {data : Mem} {nbData : Nat}
    (h : rtcplayRecordTwcc env play data nbData = .ret play') :
    play' = { play with twcc := play'.twcc } ∧
    (∀ sn, TwccNumber env play data nbData sn →
      play'.twcc = rtcplayOnTwcc env.microTime play.twcc sn) ∧
    ((¬ ∃ sn, TwccNumber env play data nbData sn) → play' = play) := by
  unfold rtcplayRecordTwcc at h
  unfold TwccNumber
  split at h
  · rename_i hlook
    split at h
    · cases h
    · rename_i err sn hparse
      split at h
      · rename_i herr
        subst herr
        obtain rfl := Call.ret.inj h
        refine ⟨rfl, ?_, fun hno => absurd ⟨sn, hlook.1, hlook.2, hparse⟩ hno⟩
        rintro sn' ⟨_, _, hparse'⟩
        rw [hparse] at hparse'
        cases hparse'
        rfl
      · rename_i herr
        obtain rfl := Call.ret.inj h
        refine ⟨rfl, ?_, fun _ => rfl⟩
        rintro sn' ⟨_, _, hparse'⟩
        rw [hparse] at hparse'
        cases hparse'
        exact absurd rfl herr
  · rename_i hlook
    obtain rfl := Call.ret.inj h
    exact ⟨rfl, fun sn hsn => absurd ⟨hsn.1, hsn.2.1⟩ hlook, fun _ => rfl⟩

/-- **Forged packets.** Of a datagram that SRTP rejects nothing is kept but the
transport-wide number found in it: ring, caches, NACK state and statistics stay as they
were. -/
theorem rejected_effect (env : PlayEnv) (codec : PlayCodec) (play play' : RtcPlay) (data : Mem)
    (nbData : Nat) (err : Err) (h : Rejected env data nbData)
    (hret : rtcplayOnRtp env codec play data nbData = .ret (err, play')) :
    play' = { play with twcc := play'.twcc } ∧
    (∀ sn, TwccNumber env play data nbData sn →
      play'.twcc = rtcplayOnTwcc env.microTime play.twcc sn) ∧
    ((¬ ∃ sn, TwccNumber env play data nbData sn) → play' = play) :=
  recordTwcc_effect ((rejected_returns h _).1 hret)

theorem recordTwcc_same_iff {env : PlayEnv} {play : RtcPlay} {data : Mem} {nbData : Nat} :
    (∀ play', rtcplayRecordTwcc env play data nbData = .ret play' → play' = play) ↔
      ∀ sn, TwccNumber env play data nbData sn → Recorded env.microTime play.twcc sn := by
  unfold rtcplayRecordTwcc TwccNumber
  split
  · rename_i hlook
    cases hparse : rtpFastParseTwcc env.fuel data nbData (play.twccId % 256) with
    | none => simp
    | some found =>
      obtain ⟨err, sn⟩ := found
      by_cases herr : err = yangOk
      · subst herr
        have hplay : (∀ play', Call.ret
            { play with twcc := rtcplayOnTwcc env.microTime play.twcc sn } = .ret play' →
            play' = play) ↔ rtcplayOnTwcc env.microTime play.twcc sn = play.twcc := by
          constructor
          · intro h
            exact congrArg RtcPlay.twcc (h _ rfl)
          · rintro h _ ⟨⟩
            rw [h]
        simp only [if_true, hplay, onTwcc_same_iff, Option.some.injEq, Prod.mk.injEq, true_and]
        exact ⟨fun h _ ⟨_, _, heq⟩ => heq ▸ h, fun h => h sn ⟨hlook.1, hlook.2, rfl⟩⟩
      · simp [herr]
  · rename_i hlook
    refine ⟨fun _ sn hsn => absurd ⟨hsn.1, hsn.2.1⟩ hlook, fun _ play' hret => ?_⟩
    exact (Call.ret.inj hret).symm

/-- It leaves the play stream as it was exactly when no number is found in it, or nothing is
left to record about that. -/
theorem rejected_unchanged_iff (env : PlayEnv) (codec : PlayCodec) (play : RtcPlay) (data : Mem)
    (nbData : Nat) (h : Rejected env data nbData) :
    (∀ err play', rtcplayOnRtp env codec play data nbData = .ret (err, play') → play' = play) ↔
      ∀ sn, TwccNumber env play data nbData sn → Recorded env.microTime play.twcc sn := by
  rw [← recordTwcc_same_iff]
  constructor
  · intro hsame play' hrecord
    obtain ⟨err, hret⟩ := (rejected_returns h 0).2 hrecord
    exact hsame err play' hret
  · intro hsame err play' hret
    exact hsame play' ((rejected_returns h _).1 hret)

/-- A stream at its beginning, with the extension negotiated as number 3. -/
def freshPlay : RtcPlay where
  audio := ⟨[⟨1, 0, 0⟩], 1, createRecvnack 100 66, {}⟩
  video := ⟨[⟨2, 0, 0⟩], 2, createRecvnack 1000 666, {}⟩
  twccEnabled := true
  twccId := 3

/-- Nothing passes the check of its authenticity. -/
def refusingEnv : PlayEnv := ⟨true, fun packet => (7, packet), 1000, 1000, fun _ => 1000, 64⟩

/-- A packet that nobody with the keys has sent. -/
def forgedPacket : List UInt8 :=
  [0x90, 96, 0, 1, 0, 0, 0, 0, 0, 0, 0, 2, 0xBE, 0xDE, 0, 1, 0x31, 0x12, 0x34, 0, 9, 9, 9, 9]

/-- Its number is in the list of those received, and goes out with the next report. -/
theorem forged_recorded :
    Rejected refusingEnv (ofList forgedPacket) 24 ∧ freshPlay.twcc.sns.list = [] ∧
    ∃ play', rtcplayOnRtp refusingEnv playH264 freshPlay (ofList forgedPacket) 24 =
      .ret (errorRtcSrtpUnprotect, play') ∧ play'.twcc.sns.list = [0x1234] :=
  ⟨by unfold Rejected; decide, by decide, _, rfl, by decide⟩

/-- A packet that is refused adds its number to the list, and changes nothing else. -/
theorem forged_effect :
    ∃ play', rtcplayOnRtp refusingEnv playH264 freshPlay (ofList forgedPacket) 24 =
      .ret (errorRtcSrtpUnprotect, play') ∧ play' = { freshPlay with twcc := play'.twcc } ∧
      play'.twcc = rtcplayOnTwcc 1000 freshPlay.twcc 0x1234 := by
  refine ⟨_, rfl, ?_⟩
  obtain ⟨hrest, hnumber, _⟩ := rejected_effect refusingEnv playH264 freshPlay _
    (ofList forgedPacket) 24 errorRtcSrtpUnprotect (by unfold Rejected; decide) rfl
  exact ⟨hrest, hnumber 0x1234 ⟨rfl, by decide, by decide⟩⟩

end MetaRtc
