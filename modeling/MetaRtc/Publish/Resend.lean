import MetaRtc.Lib.Run
import MetaRtc.Publish.Nack

/-! # What is retransmitted

The queue of sent packets holds pointers into the ring, and the ring holds what
encryption has left there. So an answer is the encryption of the packet only while the
ring still has the plaintext. -/
namespace MetaRtc

open Bytes Exec

/-- What the application and the peer do to the publisher. `keys` is the end of the DTLS
handshake. -/
inductive PushEvent where
  | audio (frame : YangFrame)
  | video (frame : YangFrame)
  | spspps (frame : YangFrame)
  | nack (mediaSsrc : Nat) (nacks : List Nat)
  | keys

inductive VideoCodec where
  | h264 | h265
  deriving DecidableEq

def publish (env : Env) (codec : VideoCodec) (pub : Publisher) (e : PushEvent) :
    Call (Err × Publisher) :=
  match e, codec with
  | .audio frame, .h264 => pushH264Audio env pub frame
  | .video frame, .h264 => pushH264Video env pub frame
  | .spspps frame, .h264 => pushH264PackageStapA env pub frame
  | .audio frame, .h265 => pushH265Audio env pub frame
  | .video frame, .h265 => pushH265Video env pub frame
  | .spspps frame, .h265 => pushH265PackageStapA env pub frame
  | .nack mediaSsrc nacks, _ => rtcpushOnRtcpNack env pub mediaSsrc nacks
  | .keys, _ => .ret (yangOk, { pub with srtp := { pub.srtp with sendCtx := true } })

def PublishStep (env : Env) (codec : VideoCodec) (pub : Publisher) (e : PushEvent)
    (pub' : Publisher) : Prop :=
  ∃ err, publish env codec pub e = .ret (err, pub')

/-- The plaintext of the packet last sent under a number. -/
def lastSent (pub : Publisher) (m : Media) (seq : Nat) : Option (List UInt8) :=
  (pub.sent.find? fun x => decide (x.1 = m ∧ x.2.1 = seq)).map fun x => x.2.2

/-- An answer to a request is the encryption of the packet last sent under its number. -/
def RightAnswer (env : Env) (pub : Publisher) (d : Datagram) : Prop :=
  ∀ m seq, d.cause = .nack m seq →
    ∃ plain, lastSent pub m seq = some plain ∧ env.protect plain = (0, d.bytes)

/-- All that an event puts on the wire in answer to requests is right. -/
def AnswersRight (env : Env) (codec : VideoCodec) (pub : Publisher) (e : PushEvent) : Prop :=
  ∀ pub', PublishStep env codec pub e pub' →
    ∀ d ∈ pub'.wire.drop pub.wire.length, RightAnswer env pub d

/-- If `seq` is about to be sent again, the ring still has the plaintext last sent under
that number where the queue points. -/
def StillPlain (env : Env) (pub : Publisher) (m : Media) (seq : Nat) : Prop :=
  ∀ pkt, rtcpushFetchRtpPacket pub m seq = some pkt →
    pub.srtp.sendCtx = true → pub.srtp.rtpLock = false →
    (env.protect (pub.packetAt m pkt.payload pkt.nb)).1 = 0 →
    lastSent pub m seq = some (pub.packetAt m pkt.payload pkt.nb)

/-- The same for each number of a request, when its turn comes. -/
def AllStillPlain (env : Env) (m : Media) : List Nat → Publisher → Prop
  | [], _ => True
  | seq :: rest, pub => StillPlain env pub m seq ∧
      ∀ pub', resend env pub m seq = .ret (yangOk, pub') → AllStillPlain env m rest pub'

def PlainAtRequest (env : Env) (pub : Publisher) (e : PushEvent) : Prop :=
  match e with
  | .nack mediaSsrc nacks =>
    mediaSsrc ≠ 0 → ∀ m, nackMedia pub mediaSsrc = some m → AllStillPlain env m nacks pub
  | _ => True

section Pushing

variable {env : Env} {pub pub' : Publisher} {err : Err}

/-- From one publisher to the other only new packets were sent. -/
def OnlyPushes (pub pub' : Publisher) : Prop :=
  ∃ ds, pub'.wire = pub.wire ++ ds ∧ ∀ d ∈ ds, ∃ m seq, d.cause = .push m seq

theorem onlyPushes_of_wire (h : pub'.wire = pub.wire) : OnlyPushes pub pub' :=
  ⟨[], by simp [h], by simp⟩

theorem onlyPushes_trans {mid : Publisher} (h : OnlyPushes pub mid) (k : OnlyPushes mid pub') :
    OnlyPushes pub pub' := by
  obtain ⟨ds, hds, hp⟩ := h
  obtain ⟨es, hes, hq⟩ := k
  refine ⟨ds ++ es, by rw [hes, hds, List.append_assoc], ?_⟩
  intro d hd
  rcases List.mem_append.mp hd with h | h
  · exact hp d h
  · exact hq d h

@[simp] theorem setMedia_wire (m : Media) (t : PushMedia) : (pub.setMedia m t).wire = pub.wire := rfl
@[simp] theorem setMedia_sent (m : Media) (t : PushMedia) : (pub.setMedia m t).sent = pub.sent := rfl
@[simp] theorem setMedia_srtp (m : Media) (t : PushMedia) : (pub.setMedia m t).srtp = pub.srtp := rfl

@[simp] theorem writeAt_wire (m : Media) (data : Option Nat) (bs : List UInt8) :
    (pub.writeAt m data bs).wire = pub.wire := by
  cases data <;> rfl

@[simp] theorem writeAt_sent (m : Media) (data : Option Nat) (bs : List UInt8) :
    (pub.writeAt m data bs).sent = pub.sent := by
  cases data <;> rfl

@[simp] theorem writeAt_srtp (m : Media) (data : Option Nat) (bs : List UInt8) :
    (pub.writeAt m data bs).srtp = pub.srtp := by
  cases data <;> rfl

/-- An encryption sends nothing, and one that succeeds had the keys and the lock. -/
theorem encRtp_cases {m : Media} {data : Option Nat} {nb : Nat} {packet : List UInt8}
    (h : encRtp env pub m data nb = .ret (err, packet, pub')) :
    pub'.wire = pub.wire ∧ pub'.sent = pub.sent ∧
      (err = yangOk → pub.srtp.sendCtx = true ∧ pub.srtp.rtpLock = false ∧
        env.protect (pub.packetAt m data nb) = (0, packet) ∧
        pub' = pub.writeAt m data packet) := by
  have hne : errorRtcSrtpProtect ≠ yangOk := by decide
  unfold encRtp at h
  split at h
  · cases h
    exact ⟨rfl, rfl, fun he => absurd he hne⟩
  · rename_i hctx
    split at h
    · cases h
    · rename_i hlock
      cases hp : env.protect (pub.packetAt m data nb) with
      | mk r0 out =>
        simp only [hp] at h
        split at h
        · cases h
          exact ⟨writeAt_wire _ _ _, writeAt_sent _ _ _, fun he => absurd he hne⟩
        · rename_i hr
          obtain rfl : r0 = 0 := not_not.mp hr
          cases h
          exact ⟨writeAt_wire _ _ _, writeAt_sent _ _ _, fun _ =>
            ⟨by simpa using hctx, by simpa using hlock, rfl, rfl⟩⟩

theorem sendAvpacket_pushes {m : Media} {seq p pos : Nat}
    (h : sendAvpacket env pub m seq p pos = .ret (err, pub')) : OnlyPushes pub pub' := by
  obtain ⟨⟨e, packet, mid⟩, henc, hrest⟩ := Call.bind_eq_ret.mp h
  have hw := (encRtp_cases henc).1
  simp only at hrest
  split at hrest
  · cases hrest
    exact onlyPushes_of_wire hw
  · cases hrest
    refine ⟨[⟨.push m seq, packet⟩], ?_, ?_⟩
    · simp only [hw]
      rfl
    · intro d hd
      rw [List.mem_singleton.mp hd]
      exact ⟨m, seq, rfl⟩

theorem encodeMedia_pushes {codec : PushCodec} {m : Media} {header : RtpHeader}
    {payload : RtpPayload} (h : encodeMedia env codec pub m header payload = .ret (err, pub')) :
    OnlyPushes pub pub' := by
  simp only [encodeMedia] at h
  split at h
  · cases h
    exact onlyPushes_of_wire rfl
  · obtain ⟨ds, hw, hp⟩ := sendAvpacket_pushes h
    exact ⟨ds, hw, hp⟩

theorem nextHeader_pushes (pub : Publisher) (m : Media) (payloadType : Nat) (marker : Bool)
    (pts : Int) : OnlyPushes pub (nextHeader pub m payloadType marker pts).2 :=
  onlyPushes_of_wire rfl

theorem packageFuALoop_pushes {codec : PushCodec} {pts : Int} {header : UInt8} {total fu n i : Nat}
    {left : List UInt8}
    (h : packageFuALoop env codec pts header total fu n i left pub = .ret (err, pub')) :
    OnlyPushes pub pub' := by
  induction n generalizing i left pub with
  | zero =>
    cases h
    exact onlyPushes_of_wire rfl
  | succ n ih =>
    simp only [packageFuALoop] at h
    split at h
    · cases h
    · obtain ⟨⟨e, mid⟩, henc, hrest⟩ := Call.bind_eq_ret.mp h
      have hmid := onlyPushes_trans (nextHeader_pushes _ _ _ _ _) (encodeMedia_pushes henc)
      simp only at hrest
      split at hrest
      · cases hrest
        exact hmid
      · exact onlyPushes_trans hmid (ih hrest)

theorem pushVideo_pushes {codec : PushCodec} {frame : YangFrame}
    (h : pushVideo env codec pub frame = .ret (err, pub')) : OnlyPushes pub pub' := by
  unfold pushVideo at h
  split at h
  · obtain ⟨⟨e, mid⟩, hsingle, hrest⟩ := Call.bind_eq_ret.mp h
    have hmid : OnlyPushes pub mid := by
      simp only [packageSingleNalu2] at hsingle
      split at hsingle
      · cases hsingle
      · exact onlyPushes_trans (nextHeader_pushes _ _ _ _ _) (encodeMedia_pushes hsingle)
    simp only at hrest
    split at hrest <;> cases hrest
    · exact hmid
    · exact onlyPushes_trans hmid (onlyPushes_of_wire rfl)
  · obtain ⟨⟨e, mid⟩, hfu, hrest⟩ := Call.bind_eq_ret.mp h
    have hmid : OnlyPushes pub mid := packageFuALoop_pushes hfu
    simp only at hrest
    split at hrest <;> cases hrest
    · exact hmid
    · exact onlyPushes_trans hmid (onlyPushes_of_wire rfl)

theorem pushAudio_pushes {codec : PushCodec} {frame : YangFrame}
    (h : pushAudio env codec pub frame = .ret (err, pub')) : OnlyPushes pub pub' := by
  simp only [pushAudio] at h
  split at h
  · cases h
  · obtain ⟨⟨e, mid⟩, henc, hrest⟩ := Call.bind_eq_ret.mp h
    have hmid := onlyPushes_trans (nextHeader_pushes _ _ _ _ _) (encodeMedia_pushes henc)
    simp only at hrest
    split at hrest <;> cases hrest
    · exact hmid
    · exact onlyPushes_trans hmid (onlyPushes_of_wire rfl)

theorem packageStapA_pushes {codec : PushCodec} {nalus : List YangSample} {nri : UInt8}
    {frame : YangFrame} (h : packageStapA env codec nalus nri pub frame = .ret (err, pub')) :
    OnlyPushes pub pub' := by
  simp only [packageStapA] at h
  exact onlyPushes_trans (nextHeader_pushes _ _ _ _ _) (encodeMedia_pushes h)

/-- An event that is no request puts only new packets on the wire. -/
theorem publish_pushes {codec : VideoCodec} {e : PushEvent}
    (hn : ∀ mediaSsrc nacks, e ≠ .nack mediaSsrc nacks)
    (h : publish env codec pub e = .ret (err, pub')) : OnlyPushes pub pub' := by
  cases e with
  | audio frame => cases codec <;> exact pushAudio_pushes h
  | video frame => cases codec <;> exact pushVideo_pushes h
  | spspps frame =>
    cases codec with
    | h264 =>
      simp only [publish, pushH264PackageStapA] at h
      exact packageStapA_pushes h
    | h265 =>
      simp only [publish, pushH265PackageStapA] at h
      exact packageStapA_pushes h
  | nack mediaSsrc nacks => exact absurd rfl (hn mediaSsrc nacks)
  | keys =>
    cases h
    exact onlyPushes_of_wire rfl

end Pushing

/-- The keys are there and no failed encryption holds the lock. -/
def Ready (pub : Publisher) : Prop := pub.srtp.sendCtx = true ∧ pub.srtp.rtpLock = false

section Answering

variable {env : Env} {pub pub' : Publisher} {m : Media} {seq : Nat} {err : Err}

/-- One number of a request: nothing is sent, or the bytes the queue points at are,
encrypted. -/
theorem resend_cases (h : resend env pub m seq = .ret (err, pub')) :
    pub'.sent = pub.sent ∧ (pub'.wire = pub.wire ∨
      ∃ pkt packet, rtcpushFetchRtpPacket pub m seq = some pkt ∧
        pub.srtp.sendCtx = true ∧ pub.srtp.rtpLock = false ∧
        env.protect (pub.packetAt m pkt.payload pkt.nb) = (0, packet) ∧
        pub'.wire = pub.wire ++ [⟨.nack m seq, packet⟩]) := by
  unfold resend at h
  cases hf : rtcpushFetchRtpPacket pub m seq with
  | none =>
    simp only [hf] at h
    cases h
    exact ⟨rfl, .inl rfl⟩
  | some pkt =>
    simp only [hf] at h
    obtain ⟨⟨e, packet, mid⟩, henc, hrest⟩ := Call.bind_eq_ret.mp h
    obtain ⟨hw, hs, hok⟩ := encRtp_cases henc
    simp only at hrest
    split at hrest
    · cases hrest
      exact ⟨hs, .inl hw⟩
    · rename_i he
      obtain ⟨hctx, hlock, hp, _⟩ := hok (not_not.mp he)
      cases hrest
      have hwire : mid.wire = pub.wire := hw
      refine ⟨hs, .inr ⟨pkt, packet, rfl, hctx, hlock, hp, ?_⟩⟩
      simp only [hwire]

theorem encRtp_ok {data : Option Nat} {nb : Nat} {packet : List UInt8} (hr : Ready pub)
    (hp : env.protect (pub.packetAt m data nb) = (0, packet)) :
    encRtp env pub m data nb = .ret (yangOk, packet, pub.writeAt m data packet) := by
  simp [encRtp, hr.1, hr.2, hp]

theorem encRtp_ready (env : Env) (hr : Ready pub) (m : Media) (data : Option Nat) (nb : Nat) :
    ∃ r, encRtp env pub m data nb = .ret r := by
  simp only [encRtp, hr.1, hr.2, Bool.true_eq_false, Bool.false_eq_true, ite_false]
  split <;> exact ⟨_, rfl⟩

/-- With the keys there and the lock free, what the queue points at is sent if it can be
encrypted. -/
theorem resend_sends {pkt : SendNackBuffer} {packet : List UInt8} (hr : Ready pub)
    (hf : rtcpushFetchRtpPacket pub m seq = some pkt)
    (hp : env.protect (pub.packetAt m pkt.payload pkt.nb) = (0, packet)) :
    resend env pub m seq = .ret (sendData env ((countNack pub).writeAt m pkt.payload packet)
      (.nack m seq) packet) := by
  have henc : encRtp env (countNack pub) m pkt.payload pkt.nb =
      .ret (yangOk, packet, (countNack pub).writeAt m pkt.payload packet) :=
    encRtp_ok (show Ready (countNack pub) from hr) hp
  simp [resend, hf, sendNackpacket, henc]

/-- Only a failed encryption takes the lock away, and it ends the request. -/
theorem resend_ready (env : Env) (hr : Ready pub) (m : Media) (seq : Nat) :
    ∃ err mid, resend env pub m seq = .ret (err, mid) ∧ (err = yangOk → Ready mid) := by
  cases hf : rtcpushFetchRtpPacket pub m seq with
  | none => exact ⟨yangOk, pub, by simp [resend, hf], fun _ => hr⟩
  | some pkt =>
    obtain ⟨⟨e, packet, mid⟩, henc⟩ :=
      encRtp_ready env (show Ready (countNack pub) from hr) m pkt.payload pkt.nb
    have hre : resend env pub m seq = if e ≠ yangOk then .ret (e, mid)
        else .ret (sendData env mid (.nack m seq) packet) := by
      simp [resend, hf, sendNackpacket, henc]
    by_cases he : e = yangOk
    · obtain ⟨_, _, hok⟩ := encRtp_cases henc
      obtain ⟨_, _, _, hmid⟩ := hok he
      have hsrtp : mid.srtp = pub.srtp := by rw [hmid, writeAt_srtp]; rfl
      refine ⟨_, _, by rw [hre, if_neg (not_not.mpr he)], fun _ => ?_⟩
      simpa only [Ready, sendData, hsrtp] using hr
    · exact ⟨e, mid, by rw [hre, if_pos he], fun h => absurd h he⟩

theorem rightAnswer_sent {d : Datagram} (hs : pub'.sent = pub.sent) :
    RightAnswer env pub' d ↔ RightAnswer env pub d := by
  simp only [RightAnswer, lastSent, hs]

theorem resend_right (hp : StillPlain env pub m seq)
    (h : resend env pub m seq = .ret (err, pub')) :
    ∃ ds, pub'.wire = pub.wire ++ ds ∧ ∀ d ∈ ds, RightAnswer env pub d := by
  obtain ⟨_, hw | ⟨pkt, packet, hf, hctx, hlock, hprot, hw⟩⟩ := resend_cases h
  · exact ⟨[], by simp [hw], by simp⟩
  · refine ⟨_, hw, ?_⟩
    intro d hd k n hc
    obtain rfl := List.mem_singleton.mp hd
    cases hc
    exact ⟨_, hp pkt hf hctx hlock (by rw [hprot]), hprot⟩

theorem onRecvNack_right {nacks : List Nat} (hp : AllStillPlain env m nacks pub)
    (h : rtcpushOnRecvNack env m nacks pub = .ret (err, pub')) :
    ∃ ds, pub'.wire = pub.wire ++ ds ∧ ∀ d ∈ ds, RightAnswer env pub d := by
  induction nacks generalizing pub with
  | nil =>
    cases h
    exact ⟨[], by simp, by simp⟩
  | cons seq rest ih =>
    obtain ⟨hplain, hrest⟩ := hp
    obtain ⟨⟨e, mid⟩, hr, hk⟩ := Call.bind_eq_ret.mp h
    obtain ⟨ds, hds, hright⟩ := resend_right hplain hr
    have hsent := (resend_cases hr).1
    simp only at hk
    split at hk
    · cases hk
      exact ⟨ds, hds, hright⟩
    · rename_i he
      obtain rfl : e = yangOk := not_not.mp he
      obtain ⟨es, hes, hright'⟩ := ih (hrest mid hr) hk
      refine ⟨ds ++ es, by rw [hes, hds, List.append_assoc], ?_⟩
      intro d hd
      rcases List.mem_append.mp hd with hd | hd
      · exact hright d hd
      · exact (rightAnswer_sent hsent).mp (hright' d hd)

theorem onRecvNack_ready (env : Env) (hr : Ready pub) (m : Media) (nacks : List Nat) :
    ∃ r, rtcpushOnRecvNack env m nacks pub = .ret r := by
  induction nacks generalizing pub with
  | nil => exact ⟨_, rfl⟩
  | cons seq rest ih =>
    obtain ⟨err, mid, hs, hmid⟩ := resend_ready env hr m seq
    by_cases he : err = yangOk
    · obtain ⟨r, hk⟩ := ih (hmid he)
      exact ⟨r, Call.bind_eq_ret.mpr ⟨(err, mid), hs, by simpa [he] using hk⟩⟩
    · exact ⟨(err, mid), Call.bind_eq_ret.mpr ⟨(err, mid), hs, by simp [he]⟩⟩

theorem resend_extends (h : resend env pub m seq = .ret (err, pub')) : pub.wire <+: pub'.wire := by
  obtain ⟨_, hw | ⟨_, _, _, _, _, _, hw⟩⟩ := resend_cases h
  · exact ⟨[], by simp [hw]⟩
  · exact ⟨_, hw.symm⟩

theorem onRecvNack_extends {nacks : List Nat}
    (h : rtcpushOnRecvNack env m nacks pub = .ret (err, pub')) : pub.wire <+: pub'.wire := by
  induction nacks generalizing pub with
  | nil =>
    cases h
    exact List.prefix_rfl
  | cons seq rest ih =>
    obtain ⟨⟨e, mid⟩, hr, hk⟩ := Call.bind_eq_ret.mp h
    have hmid := resend_extends hr
    simp only at hk
    split at hk
    · cases hk
      exact hmid
    · exact hmid.trans (ih hk)

/-- Without keys, or behind a failed encryption, no number is answered. -/
theorem allStillPlain_of_closed (hc : ¬ Ready pub) (m : Media) (nacks : List Nat) :
    AllStillPlain env m nacks pub := by
  induction nacks with
  | nil => trivial
  | cons seq rest ih =>
    refine ⟨fun pkt _ hctx hlock => absurd ⟨hctx, hlock⟩ hc, ?_⟩
    intro mid hr
    unfold resend at hr
    split at hr
    · cases hr
      exact ih
    · obtain ⟨⟨e, packet, after⟩, henc, hrest⟩ := Call.bind_eq_ret.mp hr
      obtain ⟨_, _, hok⟩ := encRtp_cases henc
      simp only at hrest
      split at hrest
      · rename_i he
        cases hrest
        exact absurd rfl he
      · rename_i he
        obtain ⟨hctx, hlock, _⟩ := hok (not_not.mp he)
        exact absurd ⟨hctx, hlock⟩ hc

/-- An encryption that can be undone tells whether the answers were right. -/
theorem stillPlain_of_right
    (hinj : ∀ a b c, env.protect a = (0, c) → env.protect b = (0, c) → a = b) (hr : Ready pub)
    (h : ∀ err pub', resend env pub m seq = .ret (err, pub') →
      ∀ d ∈ pub'.wire.drop pub.wire.length, RightAnswer env pub d) :
    StillPlain env pub m seq := by
  intro pkt hf _ _ h0
  have hp : env.protect (pub.packetAt m pkt.payload pkt.nb) =
      (0, (env.protect (pub.packetAt m pkt.payload pkt.nb)).2) := Prod.ext h0 rfl
  have hsends := resend_sends hr hf hp
  have hd := h _ _ hsends ⟨.nack m seq, _⟩ (by
    simp only [writeAt_wire, countNack, List.drop_left]
    exact List.mem_singleton.mpr rfl)
  obtain ⟨plain, hlast, hprot⟩ := hd m seq rfl
  rw [hlast, hinj _ _ _ hprot hp]

theorem mem_drop_extends {α : Type} {xs ys zs : List α} (h : xs <+: ys) (k : ys <+: zs) {x : α}
    (hx : x ∈ ys.drop xs.length ∨ x ∈ zs.drop ys.length) : x ∈ zs.drop xs.length := by
  obtain ⟨a, rfl⟩ := h
  obtain ⟨b, rfl⟩ := k
  simp only [List.append_assoc, List.drop_left, List.length_append] at hx ⊢
  rcases hx with hx | hx
  · exact List.mem_append_left b hx
  · rw [← List.append_assoc, ← List.length_append, List.drop_left] at hx
    exact List.mem_append_right a hx

theorem allStillPlain_of_right
    (hinj : ∀ a b c, env.protect a = (0, c) → env.protect b = (0, c) → a = b) {nacks : List Nat}
    (hr : Ready pub)
    (h : ∀ err pub', rtcpushOnRecvNack env m nacks pub = .ret (err, pub') →
      ∀ d ∈ pub'.wire.drop pub.wire.length, RightAnswer env pub d) :
    AllStillPlain env m nacks pub := by
  induction nacks generalizing pub with
  | nil => trivial
  | cons seq rest ih =>
    constructor
    · apply stillPlain_of_right hinj hr
      intro e mid hs d hd
      -- the answer to the first number stays on the wire, whatever the others do
      obtain ⟨e', mid', hs', hmid⟩ := resend_ready env hr m seq
      obtain ⟨rfl, rfl⟩ : e' = e ∧ mid' = mid := by simpa [hs] using hs'.symm
      by_cases he : e' = yangOk
      · obtain ⟨⟨err, pub'⟩, hk⟩ := onRecvNack_ready env (hmid he) m rest
        have hall : rtcpushOnRecvNack env m (seq :: rest) pub = .ret (err, pub') :=
          Call.bind_eq_ret.mpr ⟨(e', mid'), hs, by simpa [he] using hk⟩
        exact h _ _ hall d
          (mem_drop_extends (resend_extends hs) (onRecvNack_extends hk) (.inl hd))
      · have hall : rtcpushOnRecvNack env m (seq :: rest) pub = .ret (e', mid') :=
          Call.bind_eq_ret.mpr ⟨(e', mid'), hs, by simp [he]⟩
        exact h _ _ hall d hd
    · intro mid hs
      obtain ⟨e', mid', hs', hmid⟩ := resend_ready env hr m seq
      obtain ⟨rfl, rfl⟩ : e' = yangOk ∧ mid' = mid := by simpa [hs] using hs'.symm
      apply ih (hmid rfl)
      intro err pub' hk d hd
      have hall : rtcpushOnRecvNack env m (seq :: rest) pub = .ret (err, pub') :=
        Call.bind_eq_ret.mpr ⟨(yangOk, mid'), hs, by simpa using hk⟩
      apply (rightAnswer_sent (resend_cases hs).1).mpr
      exact h _ _ hall d
        (mem_drop_extends (resend_extends hs) (onRecvNack_extends hk) (.inr hd))

end Answering

section Steps

variable {env : Env} {codec : VideoCodec}

/-- The step lemma: what the ring holds at the request decides what is sent. -/
theorem answersRight_of_plain {pub : Publisher} {e : PushEvent} (h : PlainAtRequest env pub e) :
    AnswersRight env codec pub e := by
  rintro pub' ⟨err, hs⟩ d hd
  by_cases hn : ∃ mediaSsrc nacks, e = .nack mediaSsrc nacks
  · obtain ⟨mediaSsrc, nacks, rfl⟩ := hn
    simp only [publish, rtcpushOnRtcpNack] at hs
    split at hs
    · cases hs
      simp at hd
    · rename_i hne
      split at hs
      · cases hs
        simp at hd
      · rename_i m hm
        obtain ⟨ds, hw, hright⟩ := onRecvNack_right (h hne m hm) hs
        rw [hw, List.drop_left] at hd
        exact hright d hd
  · push Not at hn
    obtain ⟨ds, hw, hpush⟩ := publish_pushes hn hs
    rw [hw, List.drop_left] at hd
    intro m seq hc
    obtain ⟨k, n, hk⟩ := hpush d hd
    rw [hk] at hc
    cases hc

theorem plain_of_answersRight
    (hinj : ∀ a b c, env.protect a = (0, c) → env.protect b = (0, c) → a = b) {pub : Publisher}
    {e : PushEvent} (h : AnswersRight env codec pub e) : PlainAtRequest env pub e := by
  cases e with
  | nack mediaSsrc nacks =>
    intro hne m hm
    by_cases hr : Ready pub
    · apply allStillPlain_of_right hinj hr
      intro err pub' hk
      exact h pub' ⟨err, by simpa [publish, rtcpushOnRtcpNack, hne, hm] using hk⟩
    · exact allStillPlain_of_closed hr m nacks
  | _ => trivial

/-- A cipher in the manner of SRTP: a key stream and a tag of ten bytes. -/
def xorProtect (packet : List UInt8) : Int × List UInt8 :=
  (0, packet.map (· ^^^ 0x5A) ++ List.replicate 10 0x77)

def publishAll (env : Env) (codec : VideoCodec) : List PushEvent → Publisher → Call Publisher
  | [], pub => .ret pub
  | e :: events, pub => do
    let (_, pub) ← publish env codec pub e
    publishAll env codec events pub

theorem leads_of_publishAll {events : List PushEvent} {pub pub' : Publisher}
    (h : publishAll env codec events pub = .ret pub') :
    Run.Leads (PublishStep env codec) events pub pub' := by
  induction events generalizing pub with
  | nil =>
    cases h
    exact .nil _
  | cons e events ih =>
    obtain ⟨⟨err, mid⟩, hs, hrest⟩ := Call.bind_eq_ret.mp h
    exact .cons ⟨err, hs⟩ (ih hrest)

end Steps

end MetaRtc
