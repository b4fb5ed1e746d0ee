import MetaRtc.Publish.Outcome
import MetaRtc.Session.Receive

/-! # The packet count of a sender report

The count grows when a packet has been encoded, before it is known whether the packet can
be encrypted, and grows once more for a frame sent as one packet. -/
namespace MetaRtc

open Bytes Exec

def rtpPacketCount (stats : SendStats) : Media → Nat
  | .audio => stats.audioRtpPacketCount
  | .video => stats.videoRtpPacketCount

def rtpBytes (stats : SendStats) : Media → Nat
  | .audio => stats.audioRtpBytes
  | .video => stats.videoRtpBytes

/-- A report as it is before its encryption. None is made of a media without a packet.
`sample` is the audio's clock rate. -/
def sendRtcpSr (env : SessionEnv) (stats : SendStats) (m : Media) (ssrc : Nat) (sample : Int) :
    Option (List UInt8) :=
  if sendStartTime stats m = 0 then none
  else
    let stamp := (((env.now : Int) - sendStartTime stats m) % 2 ^ 64).toNat
    let ntp := getNtptimeFromms env (stamp / 1000)
    let rate := match m with
      | .audio => sample
      | .video => 90000
    let ts := (stamp * rate % 2 ^ 64).toNat / 1000000
    let stream : OutBuffer := { size := kRtpPacketSize }
    let stream := (stream.write1bytes 0x80).write1bytes (UInt8.ofNat RtcpType.sr)
    let stream := (stream.write2bytes 6).write4bytes ssrc
    let stream := (stream.writeBytes (beBytes 8 ntp)).write4bytes ts
    some ((stream.write4bytes (rtpPacketCount stats m)).write4bytes (rtpBytes stats m)).bytes

/-- The sender's packet count in a report. -/
def reportedCount (report : List UInt8) : Nat := beNat ((report.drop 20).take 4)

def Datagram.isPush (m : Media) (d : Datagram) : Bool :=
  match d.cause with
  | .push k _ => decide (k = m)
  | .nack _ _ => false

/-- The packets of a media that were handed to the socket; an answer to a request is none. -/
def emitted (pub : Publisher) (m : Media) : Nat := pub.wire.countP (Datagram.isPush m)

/-- Every report made now tells how many packets of its media were emitted. -/
def ReportsExact (pub : Publisher) : Prop :=
  ∀ env m ssrc sample report, sendRtcpSr env pub.stats m ssrc sample = some report →
    reportedCount report = emitted pub m % 2 ^ 32

/-- The parameter sets that a configuration record is sent as. -/
def metaUnits (codec : VideoCodec) (frame : YangFrame) : RtpSTAPData :=
  match codec with
  | .h264 =>
    let (sps, pps) := decodeMetaH264 frame.payload
    { nri := frame.payload 13, nalus := [sps, pps] }
  | .h265 =>
    let (vps, sps, pps) := decodeMetaH265 frame.payload
    { nri := frame.payload (32 + vps.nb.toNat + 5 + 1), nalus := [vps, sps, pps] }

/-- Fragments with the headers they get. -/
def fragmentPackets (codec : PushCodec) (ssrc : Nat) (pts : Int) :
    Nat → List Fua2Data → List (RtpHeader × Fua2Data)
  | _, [] => []
  | seq, pkt :: rest =>
    ({ payloadType := codec.payloadType
       ssrc
       marker := pkt.last
       sequence := seq
       timestamp := (pts % 2 ^ 32).toNat }, pkt) ::
      fragmentPackets codec ssrc pts ((seq + 1) % 65536) rest

section Condition

variable (env : Env) (codec : PushCodec) (pub : Publisher)

/-- The condition of a packet counted by its encoder alone. -/
def EncodedLeaves (header : RtpHeader) (payload : RtpPayload) : Prop :=
  Encodes codec header payload → Protects env codec pub header payload

/-- The condition of a packet that is counted again if the socket took it. -/
def EncodedFails (header : RtpHeader) (payload : RtpPayload) : Prop :=
  Encodes codec header payload →
    Protects env codec pub header payload ∧ env.sendData pub.wire.length ≠ yangOk

/-- Of the fragments up to the first that is not sent, `n` datagrams having been sent before,
every encoded one can be encrypted. -/
def FragmentsLeave : List (RtpHeader × Fua2Data) → Nat → Prop
  | [], _ => True
  | (header, pkt) :: rest, n =>
    EncodedLeaves env codec pub header (.fua2 pkt) ∧
      (Encodes codec header (.fua2 pkt) → env.sendData n = yangOk → FragmentsLeave rest (n + 1))

def VideoCounted (frame : YangFrame) : Prop :=
  let t := pub.media .video
  if frame.nb ≤ kRtpMaxPayloadSize then
    EncodedFails env codec pub (nextHeader pub .video codec.payloadType true frame.pts).1
      (.raw frame.bytes)
  else FragmentsLeave env codec pub
    (fragmentPackets codec t.ssrc frame.pts t.seq (frameFragments codec frame)) pub.wire.length

end Condition

/-- An event after which as many more packets are counted as were emitted. -/
def CountedOnce (codec : VideoCodec) (pub : Publisher) (e : Env × PushEvent) : Prop :=
  match e.2 with
  | .audio frame =>
    EncodedFails e.1 codec.push pub (nextHeader pub .audio yangAudioPayloadType true frame.pts).1
      (.raw frame.bytes)
  | .video frame => VideoCounted e.1 codec.push pub frame
  | .spspps frame =>
    EncodedLeaves e.1 codec.push pub
      (nextHeader pub .video codec.push.payloadType false frame.pts).1
      (.stap (metaUnits codec frame))
  | .nack _ _ | .keys => True

/-- The publisher in an environment that may be another at each event. -/
def publishIn (codec : VideoCodec) (pub : Publisher) (e : Env × PushEvent) : Call Publisher := do
  let (_, pub) ← publish e.1 codec pub e.2
  return pub

def PublishStepIn (codec : VideoCodec) (pub : Publisher) (e : Env × PushEvent) (pub' : Publisher) :
    Prop :=
  publishIn codec pub e = .ret pub'

section Counting

variable {env : Env} {codec : PushCodec} {pub mid pub' : Publisher} {m k : Media} {err : Err}

/-- How many packets are counted that were not emitted. -/
def surplus (pub : Publisher) (m : Media) : Int :=
  (rtpPacketCount pub.stats m : Int) - emitted pub m

theorem surplus_succ (count emitted : Nat) :
    ((count + 1 : Nat) : Int) - emitted = count - emitted + 1 := by omega

def SameSurplus (pub pub' : Publisher) : Prop := ∀ m, surplus pub' m = surplus pub m

theorem surplus_congr (hs : pub'.stats = pub.stats) (hw : pub'.wire = pub.wire) :
    SameSurplus pub pub' := fun m => by rw [surplus, emitted, hs, hw]; rfl

theorem rtpPacketCount_onPub (stats : SendStats) (m k : Media) (nb now : Nat) :
    rtpPacketCount (statsOnPubRtp stats m nb now) k =
      rtpPacketCount stats k + if k = m then 1 else 0 := by
  cases m <;> cases k <;> rfl

theorem emitted_concat {seq : Nat} {packet : List UInt8}
    (hw : pub'.wire = pub.wire ++ [⟨.push m seq, packet⟩]) (k : Media) :
    emitted pub' k = emitted pub k + if k = m then 1 else 0 := by
  have hone : List.countP (Datagram.isPush k) [⟨.push m seq, packet⟩] = if k = m then 1 else 0 := by
    by_cases hk : m = k
    · simp [Datagram.isPush, hk]
    · simp [Datagram.isPush, hk, Ne.symm hk]
  rw [emitted, hw, List.countP_append, hone, emitted]

theorem outcome_surplus {header : RtpHeader} {payload : RtpPayload}
    (h : Outcome env codec pub m header payload err pub') :
    EncodedLeaves env codec pub header payload ∧ SameSurplus pub pub' ∨
      ¬ EncodedLeaves env codec pub header payload ∧ err ≠ yangOk ∧
        ∀ k, surplus pub' k = surplus pub k + if k = m then 1 else 0 := by
  cases h with
  | refused henc herr hstats hw =>
    exact .inl ⟨fun he => absurd he henc, surplus_congr hstats hw⟩
  | lost henc hp herr hstats hw =>
    obtain ⟨nb, hstats⟩ := hstats
    refine .inr ⟨fun h => hp (h henc), herr, fun k => ?_⟩
    have he : emitted pub' k = emitted pub k := by rw [emitted, hw]; rfl
    rw [surplus, surplus, hstats, rtpPacketCount_onPub, he]
    split <;> omega
  | sent henc hp herr hstats hw =>
    obtain ⟨nb, hstats⟩ := hstats
    obtain ⟨packet, hw⟩ := hw
    refine .inl ⟨fun _ => hp, fun k => ?_⟩
    rw [surplus, surplus, hstats, rtpPacketCount_onPub, emitted_concat hw]
    split <;> simp

theorem sameSurplus_trans (h : SameSurplus pub mid) :
    SameSurplus pub pub' ↔ SameSurplus mid pub' :=
  forall_congr' fun m => by rw [h m]

theorem outcome_once {header : RtpHeader} {payload : RtpPayload}
    (h : Outcome env codec pub m header payload err pub') :
    SameSurplus pub pub' ↔ EncodedLeaves env codec pub header payload := by
  obtain ⟨hleaves, hs⟩ | ⟨hno, herr, hs⟩ := outcome_surplus h
  · exact iff_of_true hs hleaves
  · refine iff_of_false (fun h => ?_) hno
    have hm := hs m
    rw [h m, if_pos rfl] at hm
    omega

/-- A packet counted once more after its success. -/
theorem outcome_again {header : RtpHeader} {payload : RtpPayload}
    (h : Outcome env codec pub m header payload err mid)
    (hs : ∀ k, surplus pub' k = surplus mid k + if err = yangOk ∧ k = m then 1 else 0) :
    SameSurplus pub pub' ↔ EncodedFails env codec pub header payload := by
  have hm := hs m
  obtain ⟨hleaves, hmid⟩ | ⟨hno, herr, hmid⟩ := outcome_surplus h
  · by_cases hok : err = yangOk
    · have hfails : ¬ EncodedFails env codec pub header payload := by
        intro hf
        cases h with
        | refused henc herr => exact herr hok
        | lost henc hp herr => exact herr hok
        | sent henc hp herr => exact (hf henc).2 (herr ▸ hok)
      refine iff_of_false (fun h => ?_) hfails
      rw [h m, if_pos ⟨hok, rfl⟩, hmid] at hm
      omega
    · have hfails : EncodedFails env codec pub header payload := by
        intro he
        cases h with
        | refused henc herr => exact absurd he henc
        | lost henc hp herr => exact absurd (hleaves he) hp
        | sent henc hp herr => exact ⟨hp, herr ▸ hok⟩
      refine iff_of_true (fun k => ?_) hfails
      rw [hs, if_neg (fun h => hok h.1), hmid, Int.add_zero]
  · refine iff_of_false (fun h => ?_) fun hf => hno fun he => (hf he).1
    rw [h m, if_neg (fun h => herr h.1), hmid, if_pos rfl] at hm
    omega

/-- Only the keys and the number of datagrams sent before matter to the fragments. -/
theorem fragmentsLeave_congr (hctx : pub'.srtp.sendCtx = pub.srtp.sendCtx)
    (packets : List (RtpHeader × Fua2Data)) (n : Nat) :
    FragmentsLeave env codec pub' packets n ↔ FragmentsLeave env codec pub packets n := by
  induction packets generalizing n with
  | nil => rfl
  | cons packet rest ih =>
    simp only [FragmentsLeave, EncodedLeaves, Protects, hctx, ih]

theorem packageFuALoop_surplus {pts : Int} {header : UInt8} {total size n i : Nat}
    {left : List UInt8}
    (h : packageFuALoop env codec pts header total size n i left pub = .ret (err, pub')) :
    SameSurplus pub pub' ↔ FragmentsLeave env codec pub
      (fragmentPackets codec (pub.media .video).ssrc pts (pub.media .video).seq
        (fragmentData header (codec.naluType header) total size n i left)) pub.wire.length := by
  induction n generalizing i left pub with
  | zero =>
    cases h
    exact iff_of_true (fun _ => rfl) trivial
  | succ n ih =>
    simp only [packageFuALoop] at h
    split at h
    · cases h
    · obtain ⟨⟨e, mid⟩, henc, hrest⟩ := Call.bind_eq_ret.mp h
      obtain ⟨hkeys, hmedia⟩ := encodeMedia_keeps henc
      have hctx : mid.srtp.sendCtx = pub.srtp.sendCtx := hkeys
      have hseq : (mid.media .video).seq = ((pub.media .video).seq + 1) % 65536 := by
        rw [(hmedia .video).1]
        simp [nextHeader, Publisher.setMedia]
      have hssrc : (mid.media .video).ssrc = (pub.media .video).ssrc := by
        rw [(hmedia .video).2]
        simp [nextHeader, Publisher.setMedia]
      have hrest' : ∀ packets, FragmentsLeave env codec mid packets (pub.wire.length + 1) ↔
          FragmentsLeave env codec pub packets (pub.wire.length + 1) :=
        fun packets => fragmentsLeave_congr hctx packets _
      simp only [fragmentData, fragmentPackets, FragmentsLeave]
      have ho := nextHeader_outcome (encodeMedia_outcome henc)
      have hone := outcome_once ho
      cases ho with
      | refused hno herr =>
        simp only [herr, ne_eq, not_false_eq_true, ite_true] at hrest
        cases hrest
        exact hone.trans ⟨fun h => ⟨h, fun he => absurd he hno⟩, fun h => h.1⟩
      | lost hyes hp herr =>
        simp only [herr, ne_eq, not_false_eq_true, ite_true] at hrest
        cases hrest
        exact hone.trans ⟨fun h => absurd (h hyes) hp, fun h => h.1⟩
      | sent hyes hp herr hstats hw =>
        split at hrest
        · rename_i hne
          cases hrest
          exact hone.trans ⟨fun h => ⟨h, fun _ hok => absurd (herr.trans hok) hne⟩, fun h => h.1⟩
        · rename_i hok
          obtain ⟨packet, hw⟩ := hw
          have hn : mid.wire.length = pub.wire.length + 1 := by rw [hw]; simp
          have hloop := ih hrest
          rw [hseq, hssrc, hn, hrest'] at hloop
          rw [sameSurplus_trans (hone.mpr fun _ => hp), hloop]
          exact ⟨fun h => ⟨fun _ => hp, fun _ _ => h⟩,
            fun h => h.2 hyes (herr.symm.trans (not_not.mp hok))⟩

theorem pushVideo_surplus {frame : YangFrame}
    (h : pushVideo env codec pub frame = .ret (err, pub')) :
    SameSurplus pub pub' ↔ VideoCounted env codec pub frame := by
  unfold pushVideo at h
  unfold VideoCounted
  split at h
  · rename_i hnb
    simp only [if_pos hnb]
    obtain ⟨⟨e, mid⟩, hsingle, hrest⟩ := Call.bind_eq_ret.mp h
    simp only [packageSingleNalu2] at hsingle
    split at hsingle
    · cases hsingle
    · refine outcome_again (nextHeader_outcome (encodeMedia_outcome hsingle)) fun k => ?_
      simp only at hrest
      split at hrest
      · rename_i herr
        cases hrest
        rw [if_neg (fun h => herr h.1), Int.add_zero]
      · rename_i herr
        cases hrest
        cases k
        · simp [surplus, rtpPacketCount, countFrame, emitted]
        · simpa [not_not.mp herr, surplus, rtpPacketCount, countFrame, emitted]
            using surplus_succ _ _
  · rename_i hnb
    simp only [if_neg hnb]
    obtain ⟨⟨e, mid⟩, hfu, hrest⟩ := Call.bind_eq_ret.mp h
    have hsame : SameSurplus mid pub' := by
      simp only at hrest
      split at hrest <;> cases hrest
      · exact fun _ => rfl
      · intro k
        cases k <;> rfl
    refine Iff.trans ?_ (packageFuALoop_surplus hfu)
    exact ⟨fun h k => (hsame k).symm.trans (h k), fun h k => (hsame k).trans (h k)⟩

theorem pushAudio_surplus {frame : YangFrame}
    (h : pushAudio env codec pub frame = .ret (err, pub')) :
    SameSurplus pub pub' ↔ EncodedFails env codec pub
      (nextHeader pub .audio yangAudioPayloadType true frame.pts).1 (.raw frame.bytes) := by
  simp only [pushAudio] at h
  split at h
  · cases h
  · obtain ⟨⟨e, mid⟩, henc, hrest⟩ := Call.bind_eq_ret.mp h
    refine outcome_again (nextHeader_outcome (encodeMedia_outcome henc)) fun k => ?_
    simp only at hrest
    split at hrest
    · rename_i herr
      cases hrest
      rw [if_neg (fun h => herr h.1), Int.add_zero]
    · rename_i herr
      cases hrest
      cases k
      · simpa [not_not.mp herr, surplus, rtpPacketCount, emitted] using surplus_succ _ _
      · simp [surplus, rtpPacketCount, emitted]

theorem packageStapA_surplus {frame : YangFrame} {nalus : List YangSample} {nri : UInt8}
    (h : packageStapA env codec nalus nri pub frame = .ret (err, pub')) :
    SameSurplus pub pub' ↔ EncodedLeaves env codec pub
      (nextHeader pub .video codec.payloadType false frame.pts).1 (.stap { nri, nalus }) := by
  simp only [packageStapA] at h
  exact outcome_once (nextHeader_outcome (encodeMedia_outcome h))

/-- An answer is neither counted nor one of the packets emitted. -/
theorem resend_surplus {seq : Nat} (h : resend env pub m seq = .ret (err, pub')) :
    SameSurplus pub pub' := by
  have hstats : ∀ k, rtpPacketCount pub'.stats k = rtpPacketCount pub.stats k := by
    unfold resend at h
    split at h
    · cases h
      exact fun _ => rfl
    · obtain ⟨⟨e, packet, mid⟩, henc, hrest⟩ := Call.bind_eq_ret.mp h
      have hmid := (encRtp_protects henc).1
      simp only at hrest
      intro k
      split at hrest <;> cases hrest <;> (cases k <;> simp only [hmid] <;> rfl)
  intro k
  rw [surplus, surplus, hstats]
  obtain ⟨-, hw | ⟨_, _, _, _, _, _, hw⟩⟩ := resend_cases h
  · rw [emitted, emitted, hw]
  · rw [emitted, emitted, hw, List.countP_append]
    rfl

theorem onRecvNack_surplus {nacks : List Nat}
    (h : rtcpushOnRecvNack env m nacks pub = .ret (err, pub')) : SameSurplus pub pub' := by
  induction nacks generalizing pub with
  | nil =>
    cases h
    exact fun _ => rfl
  | cons seq rest ih =>
    obtain ⟨⟨e, mid⟩, hone, hrest⟩ := Call.bind_eq_ret.mp h
    have hmid := resend_surplus hone
    simp only at hrest
    split at hrest
    · cases hrest
      exact hmid
    · exact (sameSurplus_trans hmid).mpr (ih hrest)

/-- The step lemma: an event keeps the count in step with what was emitted exactly when it
meets the condition. -/
theorem publish_surplus {codec : VideoCodec} {e : PushEvent}
    (h : publish env codec pub e = .ret (err, pub')) :
    SameSurplus pub pub' ↔ CountedOnce codec pub (env, e) := by
  cases e with
  | audio frame => cases codec <;> exact pushAudio_surplus h
  | video frame => cases codec <;> exact pushVideo_surplus h
  | spspps frame => cases codec <;> exact packageStapA_surplus h
  | nack mediaSsrc nacks =>
    refine iff_of_true ?_ trivial
    simp only [publish, rtcpushOnRtcpNack] at h
    split at h
    · cases h
      exact fun _ => rfl
    · split at h
      · cases h
        exact fun _ => rfl
      · exact onRecvNack_surplus h
  | keys =>
    cases h
    exact iff_of_true (fun _ => rfl) trivial

end Counting

theorem reportedCount_sr {env : SessionEnv} {stats : SendStats} {m : Media} {ssrc : Nat}
    {sample : Int} {report : List UInt8} (h : sendRtcpSr env stats m ssrc sample = some report) :
    reportedCount report = rtpPacketCount stats m % 2 ^ 32 := by
  unfold sendRtcpSr at h
  split at h
  · cases h
  · simp only [OutBuffer.write1bytes, OutBuffer.write2bytes, OutBuffer.write4bytes,
      OutBuffer.writeBytes_bytes, Option.some.injEq, List.nil_append] at h
    subst h
    rw [reportedCount, List.append_assoc, List.drop_left' (by simp),
      List.take_left' (by simp), beNat_beBytes]
    norm_num

end MetaRtc
