import MetaRtc.Publish.Packets
import MetaRtc.Publish.Resend

/-! # What becomes of one packet

A packet is refused by its encoder, or it is encoded and not encrypted, or it is handed to
the socket, whose answer is the call's. -/
namespace MetaRtc

open Bytes Exec

def VideoCodec.push : VideoCodec → PushCodec
  | .h264 => pushH264
  | .h265 => pushH265

section Condition

variable (env : Env) (codec : PushCodec) (pub : Publisher)

def Encodes (header : RtpHeader) (payload : RtpPayload) : Prop :=
  (encodePacket codec header payload).1 = yangOk

/-- The keys are there and the packet can be encrypted. -/
def Protects (header : RtpHeader) (payload : RtpPayload) : Prop :=
  pub.srtp.sendCtx = true ∧ (env.protect (encodePacket codec header payload).2.bytes).1 = 0

end Condition

variable {env : Env} {codec : PushCodec} {pub pub' : Publisher} {m : Media} {err : Err}

/-- What an encryption tells of the keys and of the packet. -/
theorem encRtp_protects {data : Option Nat} {nb : Nat} {packet : List UInt8}
    (h : encRtp env pub m data nb = .ret (err, packet, pub')) :
    pub'.stats = pub.stats ∧ pub'.srtp.sendCtx = pub.srtp.sendCtx ∧
      (err = yangOk ↔
        pub.srtp.sendCtx = true ∧ (env.protect (pub.packetAt m data nb)).1 = 0) := by
  have hne : errorRtcSrtpProtect ≠ yangOk := by decide
  have hstats : ∀ bs, (pub.writeAt m data bs).stats = pub.stats := fun bs => by cases data <;> rfl
  unfold encRtp at h
  split at h
  · rename_i hctx
    cases h
    simp [hctx, hne]
  · rename_i hctx
    have hctx' : pub.srtp.sendCtx = true := by simpa using hctx
    split at h
    · cases h
    · simp only at h
      split at h
      · rename_i hr
        cases h
        exact ⟨hstats _, by rw [writeAt_srtp], by simp [hne, hr]⟩
      · rename_i hr
        cases h
        exact ⟨hstats _, by rw [writeAt_srtp], by simp [hctx', not_not.mp hr]⟩

theorem cacheNack_packetAt (pub : Publisher) (m : Media) (seq p pos : Nat) (data : Option Nat)
    (nb : Nat) : (rtcpushCacheNack pub m seq p pos).packetAt m data nb = pub.packetAt m data nb := by
  cases data <;> simp [Publisher.packetAt, rtcpushCacheNack, Publisher.setMedia]

theorem cacheNack_counters (pub : Publisher) (m : Media) (seq p pos : Nat) (k : Media) :
    ((rtcpushCacheNack pub m seq p pos).media k).seq = (pub.media k).seq ∧
      ((rtcpushCacheNack pub m seq p pos).media k).ssrc = (pub.media k).ssrc := by
  by_cases hk : k = m
  · subst hk
    simp [rtcpushCacheNack, Publisher.setMedia]
  · simp [rtcpushCacheNack, Publisher.setMedia, hk]

/-- A packet is handed to the socket if it can be encrypted, whatever the socket says. -/
theorem sendAvpacket_wire {seq p pos : Nat}
    (h : sendAvpacket env pub m seq p pos = .ret (err, pub')) :
    let able := pub.srtp.sendCtx = true ∧ (env.protect (pub.packetAt m (some p) pos)).1 = 0
    (¬ able ∧ err ≠ yangOk ∧ pub'.wire = pub.wire) ∨
      (able ∧ err = env.sendData pub.wire.length ∧
        ∃ packet, pub'.wire = pub.wire ++ [⟨.push m seq, packet⟩]) := by
  intro able
  obtain ⟨⟨e, packet, mid⟩, henc, hrest⟩ := Call.bind_eq_ret.mp h
  have hw : mid.wire = pub.wire := (encRtp_cases henc).1
  have hable : e = yangOk ↔ able := by
    rw [(encRtp_protects henc).2.2, cacheNack_packetAt]
    rfl
  simp only at hrest
  split at hrest
  · rename_i herr
    cases hrest
    exact .inl ⟨fun ha => herr (hable.mpr ha), herr, hw⟩
  · rename_i herr
    cases hrest
    refine .inr ⟨hable.mp (not_not.mp herr), ?_, packet, ?_⟩
    · simp only [hw]
    · simp only [hw]

theorem sendAvpacket_keeps {seq p pos : Nat}
    (h : sendAvpacket env pub m seq p pos = .ret (err, pub')) :
    pub'.stats = pub.stats ∧ pub'.srtp.sendCtx = pub.srtp.sendCtx ∧
      ∀ k, (pub'.media k).seq = (pub.media k).seq ∧ (pub'.media k).ssrc = (pub.media k).ssrc := by
  obtain ⟨⟨e, packet, mid⟩, henc, hrest⟩ := Call.bind_eq_ret.mp h
  obtain ⟨hstats, hctx, -⟩ := encRtp_protects henc
  have hmedia : ∀ k, (mid.media k).seq = (pub.media k).seq ∧
      (mid.media k).ssrc = (pub.media k).ssrc := by
    intro k
    obtain ⟨hseq, hssrc, -⟩ := encRtp_counters henc k
    obtain ⟨hseq', hssrc'⟩ := cacheNack_counters pub m seq p pos k
    exact ⟨hseq.trans hseq', hssrc.trans hssrc'⟩
  simp only at hrest
  split at hrest <;> cases hrest <;> exact ⟨hstats, hctx, hmedia⟩

/-- The outcomes of a packet, with what is counted and what is on the wire. -/
inductive Outcome (env : Env) (codec : PushCodec) (pub : Publisher) (m : Media)
    (header : RtpHeader) (payload : RtpPayload) (err : Err) (pub' : Publisher) : Prop where
  | refused (henc : ¬ Encodes codec header payload) (herr : err ≠ yangOk)
      (hstats : pub'.stats = pub.stats) (hw : pub'.wire = pub.wire)
  | lost (henc : Encodes codec header payload) (hp : ¬ Protects env codec pub header payload)
      (herr : err ≠ yangOk)
      (hstats : ∃ nb, pub'.stats = statsOnPubRtp pub.stats m nb env.now)
      (hw : pub'.wire = pub.wire)
  | sent (henc : Encodes codec header payload) (hp : Protects env codec pub header payload)
      (herr : err = env.sendData pub.wire.length)
      (hstats : ∃ nb, pub'.stats = statsOnPubRtp pub.stats m nb env.now)
      (hw : ∃ packet, pub'.wire = pub.wire ++ [⟨.push m header.sequence, packet⟩])

theorem encodeMedia_outcome {header : RtpHeader} {payload : RtpPayload}
    (h : encodeMedia env codec pub m header payload = .ret (err, pub')) :
    Outcome env codec pub m header payload err pub' := by
  cases henc : encodePacket codec header payload with
  | mk e buf =>
    simp only [encodeMedia, henc] at h
    split at h
    · rename_i herr
      cases h
      exact .refused (by simpa [Encodes, henc] using herr) herr rfl rfl
    · rename_i herr
      have hok : Encodes codec header payload := by simpa [Encodes, henc] using herr
      have hable : Protects env codec pub header payload ↔
          pub.srtp.sendCtx = true ∧ (env.protect buf.bytes).1 = 0 := by
        rw [Protects, henc]
      have hstats := (sendAvpacket_keeps h).1
      have hwire := sendAvpacket_wire h
      simp only [Publisher.packetAt, Publisher.setMedia, OutBuffer.pos, Mem.slice_write,
        ite_true, ← hable] at hwire
      obtain ⟨hp, herr, hw⟩ | ⟨hp, herr, hw⟩ := hwire
      · exact .lost hok hp herr ⟨_, hstats⟩ hw
      · exact .sent hok hp herr ⟨_, hstats⟩ hw

/-- Taking a header changes nothing that matters to the outcome. -/
theorem nextHeader_outcome {k : Media} {payloadType : Nat} {marker : Bool} {pts : Int}
    {header : RtpHeader} {payload : RtpPayload}
    (h : Outcome env codec (nextHeader pub k payloadType marker pts).2 m header payload err pub') :
    Outcome env codec pub m header payload err pub' := by
  cases h with
  | refused henc herr hstats hw => exact .refused henc herr hstats hw
  | lost henc hp herr hstats hw => exact .lost henc hp herr hstats hw
  | sent henc hp herr hstats hw => exact .sent henc hp herr hstats hw

theorem encodeMedia_keeps {header : RtpHeader} {payload : RtpPayload}
    (h : encodeMedia env codec pub m header payload = .ret (err, pub')) :
    pub'.srtp.sendCtx = pub.srtp.sendCtx ∧
      ∀ k, (pub'.media k).seq = (pub.media k).seq ∧ (pub'.media k).ssrc = (pub.media k).ssrc := by
  have hring : ∀ rtpBuffer k,
      ((pub.setMedia m { pub.media m with rtpBuffer }).media k).seq = (pub.media k).seq ∧
      ((pub.setMedia m { pub.media m with rtpBuffer }).media k).ssrc = (pub.media k).ssrc := by
    intro rtpBuffer k
    by_cases hk : k = m
    · subst hk
      simp [Publisher.setMedia]
    · simp [Publisher.setMedia, hk]
  simp only [encodeMedia] at h
  split at h
  · cases h
    exact ⟨rfl, hring _⟩
  · obtain ⟨-, hctx, hmedia⟩ := sendAvpacket_keeps h
    exact ⟨hctx, fun k => ⟨(hmedia k).1.trans (hring _ k).1, (hmedia k).2.trans (hring _ k).2⟩⟩

end MetaRtc
