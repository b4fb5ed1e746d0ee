import MetaRtc.Publish.Outcome

/-! # Transport-wide numbers on fragments

In a build with `Yang_Enable_TWCC` the first fragment of a unit is sent with the publisher's
own extension object. The packet has a pointer to it until the fragment is sent, and frees
what it points to when it is used again. -/
namespace MetaRtc

open Bytes Exec

def yangTwccId : Nat := 3

/-- What an `extensions` pointer refers to: the object inside the publisher, or one of the
heap. -/
inductive ExtensionsPtr where
  | embedded
  | heap (extensions : RtpExtensions)
  deriving DecidableEq

/-- The publisher of such a build. `fuaExtensions` is the pointer of `videoFuaPacket`. -/
structure TwccPublisher where
  pub : Publisher
  rtpExtension : RtpExtensions := { hasExt := true, twcc := { hasTwcc := true, id := yangTwccId } }
  twccSeq : Nat := 0
  fuaExtensions : Option ExtensionsPtr := none

namespace TwccPublisher

/-- `yang_reset_rtpPacket` of the fragment packet. What is freed must be of the heap. -/
def resetFuaPacket (s : TwccPublisher) : Call TwccPublisher :=
  match s.fuaExtensions with
  | some .embedded => .crash
  | _ => .ret { s with fuaExtensions := none }

/-- The next number is written to the publisher's object, and that is lent to the packet. -/
def lendExtension (s : TwccPublisher) : TwccPublisher :=
  { s with
    rtpExtension := { s.rtpExtension with twcc := { s.rtpExtension.twcc with sn := s.twccSeq } }
    twccSeq := (s.twccSeq + 1) % 65536
    fuaExtensions := some .embedded }

def headerExtensions (s : TwccPublisher) : Option RtpExtensions :=
  match s.fuaExtensions with
  | some .embedded => some s.rtpExtension
  | some (.heap extensions) => some extensions
  | none => none

end TwccPublisher

/-- The loop over the fragments, as `packageFuALoop`. -/
def packageFuATwccLoop (env : Env) (codec : PushCodec) (pts : Int) (header : UInt8)
    (numOfPacket fuPayloadSize : Nat) :
    Nat → Nat → List UInt8 → TwccPublisher → Call (Err × TwccPublisher)
  | 0, _, _, s => .ret (yangOk, s)
  | n + 1, i, left, s => do
    let last := decide (i = numOfPacket - 1)
    let s ← s.resetFuaPacket
    let (rtpHeader, pub) := nextHeader s.pub .video codec.payloadType last pts
    let s := { s with pub }
    let payload := left.take fuPayloadSize
    let left := left.drop fuPayloadSize
    if payload.length > kRtpPacketSize then .crash
    else
      let s := if i = 0 then s.lendExtension else s
      let (err, pub) ← encodeMedia env codec s.pub .video
        { rtpHeader with extensions := s.headerExtensions }
        (.fua2 { start := decide (i = 0), last, nri := header, naluType := codec.naluType header,
                 payload })
      let s := { s with pub }
      if err ≠ yangOk then return (err, s)
      else
        packageFuATwccLoop env codec pts header numOfPacket fuPayloadSize n (i + 1) left
          { s with fuaExtensions := none }

def packageFuATwcc (env : Env) (codec : PushCodec) (s : TwccPublisher) (videoFrame : YangFrame)
    (fuPayloadSize : Nat) : Call (Err × TwccPublisher) :=
  let n := numOfPacket videoFrame.nb fuPayloadSize
  packageFuATwccLoop env codec videoFrame.pts (videoFrame.payload 0) n fuPayloadSize n 0
    (videoFrame.bytes.drop codec.headerSize) s

def pushVideoTwcc (env : Env) (codec : PushCodec) (s : TwccPublisher) (videoFrame : YangFrame) :
    Call (Err × TwccPublisher) := do
  if videoFrame.nb ≤ kRtpMaxPayloadSize then
    let (err, pub) ← pushVideo env codec s.pub videoFrame
    return (err, { s with pub })
  else
    let (err, s) ← packageFuATwcc env codec s videoFrame kRtpMaxPayloadSize
    if err ≠ yangOk then return (err, s)
    else return (yangOk, { s with pub := { s.pub with stats := countFrame s.pub.stats } })

/-- Nothing but a fragmented frame is sent otherwise than without the extension. -/
def publishTwcc (env : Env) (codec : VideoCodec) (s : TwccPublisher) (e : PushEvent) :
    Call (Err × TwccPublisher) :=
  match e with
  | .video frame => pushVideoTwcc env codec.push s frame
  | e => do
    let (err, pub) ← publish env codec s.pub e
    return (err, { s with pub })

def PublishTwccStep (codec : VideoCodec) (s : TwccPublisher) (e : Env × PushEvent)
    (s' : TwccPublisher) : Prop :=
  ∃ err, publishTwcc e.1 codec s e.2 = .ret (err, s')

/-- The fragment packet does not point into the publisher. -/
def NoLoan (s : TwccPublisher) : Prop := s.fuaExtensions ≠ some .embedded

/-- However an event ends, the fragment packet has its own and may be used again. -/
def NoLoanAfter (codec : VideoCodec) (s : TwccPublisher) (e : Env × PushEvent) : Prop :=
  ∀ s', PublishTwccStep codec s e s' → NoLoan s' ∧ s'.resetFuaPacket ≠ .crash

/-- The first fragment of a frame, with the header it gets. -/
def leadingFragment (codec : PushCodec) (s : TwccPublisher) (frame : YangFrame) :
    RtpHeader × Fua2Data :=
  let last := decide (0 = numOfPacket frame.nb kRtpMaxPayloadSize - 1)
  let header := frame.payload 0
  ({ (nextHeader s.pub .video codec.payloadType last frame.pts).1 with
     extensions := s.lendExtension.headerExtensions },
    { start := true, last, nri := header, naluType := codec.naluType header,
      payload := (frame.bytes.drop codec.headerSize).take kRtpMaxPayloadSize })

/-- The first fragment is encoded, encrypted and taken by the socket. A call that waits for the
lock of a failed encryption does not come back at all. -/
def FirstSent (env : Env) (codec : PushCodec) (s : TwccPublisher) (frame : YangFrame) : Prop :=
  let (header, pkt) := leadingFragment codec s frame
  Encodes codec header (.fua2 pkt) ∧
    (s.pub.srtp.sendCtx = true ∧ s.pub.srtp.rtpLock = true ∨
      Protects env codec s.pub header (.fua2 pkt) ∧ env.sendData s.pub.wire.length = yangOk)

def LoanReturned (codec : VideoCodec) (s : TwccPublisher) (e : Env × PushEvent) : Prop :=
  match e.2 with
  | .video frame =>
    frame.nb ≤ kRtpMaxPayloadSize ∨ numOfPacket frame.nb kRtpMaxPayloadSize = 0 ∨
      FirstSent e.1 codec.push s frame
  | _ => True

section Loans

variable {env : Env} {codec : PushCodec} {s s' : TwccPublisher} {err : Err}

theorem resetFuaPacket_safe_iff : s.resetFuaPacket ≠ .crash ↔ NoLoan s := by
  unfold TwccPublisher.resetFuaPacket NoLoan
  split <;> simp_all

theorem resetFuaPacket_noLoan (h : NoLoan s) :
    s.resetFuaPacket = .ret { s with fuaExtensions := none } := by
  unfold TwccPublisher.resetFuaPacket
  split
  · exact absurd ‹_› h
  · rfl

theorem encRtp_returns (env : Env) {pub : Publisher}
    (h : ¬ (pub.srtp.sendCtx = true ∧ pub.srtp.rtpLock = true)) (m : Media) (data : Option Nat)
    (nb : Nat) : ∃ r, encRtp env pub m data nb = .ret r := by
  unfold encRtp
  split
  · exact ⟨_, rfl⟩
  · rename_i hctx
    split
    · rename_i hlock
      exact absurd ⟨by simpa using hctx, hlock⟩ h
    · dsimp only
      split <;> exact ⟨_, rfl⟩

theorem sendAvpacket_returns (env : Env) {pub : Publisher}
    (h : ¬ (pub.srtp.sendCtx = true ∧ pub.srtp.rtpLock = true)) (m : Media) (seq p pos : Nat) :
    ∃ r, sendAvpacket env pub m seq p pos = .ret r := by
  have hfree : ¬ ((rtcpushCacheNack pub m seq p pos).srtp.sendCtx = true ∧
      (rtcpushCacheNack pub m seq p pos).srtp.rtpLock = true) := h
  obtain ⟨⟨e, packet, mid⟩, henc⟩ := encRtp_returns env hfree m (some p) pos
  simp only [sendAvpacket, henc, Call.ret_bind]
  split <;> exact ⟨_, rfl⟩

/-- A packet that need not wait for the lock comes back. -/
theorem encodeMedia_returns (env : Env) {pub : Publisher} {m : Media} {header : RtpHeader}
    {payload : RtpPayload}
    (h : ¬ (Encodes codec header payload ∧ pub.srtp.sendCtx = true ∧ pub.srtp.rtpLock = true)) :
    ∃ r, encodeMedia env codec pub m header payload = .ret r := by
  cases henc : encodePacket codec header payload with
  | mk e buf =>
    simp only [encodeMedia, henc]
    split
    · exact ⟨_, rfl⟩
    · rename_i herr
      have hok : Encodes codec header payload := by simpa [Encodes, henc] using herr
      apply sendAvpacket_returns
      exact fun hw => h ⟨hok, hw⟩

theorem encodeMedia_blocked (env : Env) {pub : Publisher} {m : Media} {header : RtpHeader}
    {payload : RtpPayload} (hok : Encodes codec header payload) (hctx : pub.srtp.sendCtx = true)
    (hlock : pub.srtp.rtpLock = true) : encodeMedia env codec pub m header payload = .blocked := by
  cases henc : encodePacket codec header payload with
  | mk e buf =>
    have herr : ¬ e ≠ yangOk := by simpa [Encodes, henc] using hok
    simp [encodeMedia, henc, if_neg herr, sendAvpacket, rtcpushCacheNack, encRtp, hctx, hlock]

/-- Behind the first fragment nothing is lent. -/
theorem packageFuATwccLoop_tail {pts : Int} {header : UInt8} {total size n i : Nat}
    {left : List UInt8} (hi : i ≠ 0) (hs : NoLoan s)
    (h : packageFuATwccLoop env codec pts header total size n i left s = .ret (err, s')) :
    NoLoan s' := by
  induction n generalizing i left s with
  | zero =>
    cases h
    exact hs
  | succ n ih =>
    simp only [packageFuATwccLoop, resetFuaPacket_noLoan hs, Call.ret_bind, if_neg hi] at h
    split at h
    · cases h
    · obtain ⟨⟨e, pub⟩, -, hrest⟩ := Call.bind_eq_ret.mp h
      simp only at hrest
      split at hrest
      · cases hrest
        exact fun hn => by cases hn
      · exact ih (Nat.succ_ne_zero i) (fun hn => by cases hn) hrest

/-- What a call that has fragments to send does first. -/
theorem packageFuATwcc_first {frame : YangFrame} {n : Nat} (hs : NoLoan s)
    (hn : numOfPacket frame.nb kRtpMaxPayloadSize = n + 1) :
    packageFuATwcc env codec s frame kRtpMaxPayloadSize = (do
      let (err, pub) ← encodeMedia env codec
        (nextHeader s.pub .video codec.payloadType (decide (0 = n)) frame.pts).2 .video
        (leadingFragment codec s frame).1 (.fua2 (leadingFragment codec s frame).2)
      let t := { s.lendExtension with pub }
      if err ≠ yangOk then return (err, t)
      else
        packageFuATwccLoop env codec frame.pts (frame.payload 0) (n + 1) kRtpMaxPayloadSize n 1
          ((frame.bytes.drop codec.headerSize).drop kRtpMaxPayloadSize)
          { t with fuaExtensions := none }) := by
  have hlen :
      ¬ ((frame.bytes.drop codec.headerSize).take kRtpMaxPayloadSize).length > kRtpPacketSize := by
    rw [List.length_take]
    have hle : kRtpMaxPayloadSize ≤ kRtpPacketSize := by decide
    omega
  simp only [packageFuATwcc, hn, packageFuATwccLoop, resetFuaPacket_noLoan hs, Call.ret_bind,
    if_neg hlen, leadingFragment]
  rfl

/-- The loan is returned exactly when the first fragment is sent. -/
theorem packageFuATwcc_iff {frame : YangFrame} (hs : NoLoan s)
    (hn : numOfPacket frame.nb kRtpMaxPayloadSize ≠ 0) :
    (∀ err s', packageFuATwcc env codec s frame kRtpMaxPayloadSize = .ret (err, s') → NoLoan s') ↔
      FirstSent env codec s frame := by
  obtain ⟨n, hn⟩ := Nat.exists_eq_succ_of_ne_zero hn
  rw [packageFuATwcc_first hs hn]
  unfold FirstSent
  generalize leadingFragment codec s frame = fragment
  obtain ⟨header, pkt⟩ := fragment
  dsimp only
  have hloan : ∀ pub, ¬ NoLoan { s.lendExtension with pub } := fun pub h => h rfl
  have hsrtp : (nextHeader s.pub .video codec.payloadType (decide (0 = n)) frame.pts).2.srtp =
      s.pub.srtp := rfl
  have hout : ∀ {e pub}, encodeMedia env codec
      (nextHeader s.pub .video codec.payloadType (decide (0 = n)) frame.pts).2 .video header
      (.fua2 pkt) = .ret (e, pub) → Outcome env codec s.pub .video header (.fua2 pkt) e pub :=
    fun h => nextHeader_outcome (encodeMedia_outcome h)
  generalize (nextHeader s.pub .video codec.payloadType (decide (0 = n)) frame.pts).2 = mid at *
  constructor
  · intro h
    by_cases hwait : Encodes codec header (.fua2 pkt) ∧ mid.srtp.sendCtx = true ∧
        mid.srtp.rtpLock = true
    · exact ⟨hwait.1, .inl (hsrtp ▸ hwait.2)⟩
    · obtain ⟨⟨e, pub⟩, hret⟩ : ∃ r, encodeMedia env codec mid .video header (.fua2 pkt) = .ret r :=
        encodeMedia_returns env hwait
      have hfails : ¬ e ≠ yangOk := fun herr =>
        hloan pub (h e _ (by rw [hret, Call.ret_bind]; simp only [if_pos herr]; rfl))
      cases hout hret with
      | refused henc herr => exact absurd herr hfails
      | lost henc hp herr => exact absurd herr hfails
      | sent henc hp herr => exact ⟨henc, .inr ⟨hp, herr.symm.trans (not_not.mp hfails)⟩⟩
  · rintro ⟨hok, hsent⟩ err s' h
    obtain ⟨⟨e, pub⟩, hret, hrest⟩ := Call.bind_eq_ret.mp h
    obtain ⟨hctx, hlock⟩ | ⟨hp, hsend⟩ := hsent
    · rw [← hsrtp] at hctx hlock
      cases (encodeMedia_blocked env hok hctx hlock).symm.trans hret
    · cases hout hret with
      | refused henc => exact absurd hok henc
      | lost _ hno => exact absurd hp hno
      | sent _ _ herr =>
        simp only [herr.trans hsend, ne_eq, not_true_eq_false, ite_false] at hrest
        exact packageFuATwccLoop_tail Nat.one_ne_zero (fun hn => by cases hn) hrest

theorem pushVideoTwcc_long {frame : YangFrame} (hnb : ¬ frame.nb ≤ kRtpMaxPayloadSize) :
    (∀ err s', pushVideoTwcc env codec s frame = .ret (err, s') → NoLoan s') ↔
      ∀ err s', packageFuATwcc env codec s frame kRtpMaxPayloadSize = .ret (err, s') →
        NoLoan s' := by
  unfold pushVideoTwcc
  rw [if_neg hnb]
  constructor
  · intro h err s' hret
    by_cases herr : err = yangOk
    · exact h yangOk { s' with pub := { s'.pub with stats := countFrame s'.pub.stats } }
        (by simp [hret, herr])
    · exact h err s' (by simp [hret, herr])
  · intro h err s' hret
    obtain ⟨⟨e, t⟩, hfu, hrest⟩ := Call.bind_eq_ret.mp hret
    have ht := h e t hfu
    simp only at hrest
    split at hrest <;> cases hrest <;> exact ht

/-- The step lemma: where nothing is lent, nothing is after an event exactly when it meets the
condition. -/
theorem noLoanAfter_iff {codec : VideoCodec} (hs : NoLoan s) (e : Env × PushEvent) :
    NoLoanAfter codec s e ↔ LoanReturned codec s e := by
  obtain ⟨env, e⟩ := e
  have hafter : NoLoanAfter codec s (env, e) ↔
      ∀ err s', publishTwcc env codec s e = .ret (err, s') → NoLoan s' :=
    ⟨fun h err s' hret => (h s' ⟨err, hret⟩).1,
      fun h s' ⟨err, hret⟩ => ⟨h err s' hret, resetFuaPacket_safe_iff.mpr (h err s' hret)⟩⟩
  rw [hafter]
  cases e with
  | video frame =>
    show (∀ err s', pushVideoTwcc env codec.push s frame = .ret (err, s') → NoLoan s') ↔
      frame.nb ≤ kRtpMaxPayloadSize ∨ numOfPacket frame.nb kRtpMaxPayloadSize = 0 ∨
        FirstSent env codec.push s frame
    by_cases hnb : frame.nb ≤ kRtpMaxPayloadSize
    · refine iff_of_true (fun err s' h => ?_) (.inl hnb)
      unfold pushVideoTwcc at h
      rw [if_pos hnb] at h
      obtain ⟨r, -, hret⟩ := Call.bind_eq_ret.mp h
      cases hret
      exact hs
    · rw [pushVideoTwcc_long hnb]
      by_cases hn : numOfPacket frame.nb kRtpMaxPayloadSize = 0
      · refine iff_of_true (fun err s' h => ?_) (.inr (.inl hn))
        simp only [packageFuATwcc, hn, packageFuATwccLoop] at h
        cases h
        exact hs
      · rw [packageFuATwcc_iff hs hn]
        exact ⟨fun h => .inr (.inr h), fun h => (h.resolve_left hnb).resolve_left hn⟩
  | audio | spspps | nack | keys =>
    refine iff_of_true (fun err s' h => ?_) trivial
    obtain ⟨r, -, hret⟩ := Call.bind_eq_ret.mp h
    cases hret
    exact hs

/-- In a run no event leaves the publisher's object lent exactly when in every event that sends
fragments the first of them is sent. -/
theorem loans_returned (codec : VideoCodec) (pub : Publisher) (events : List (Env × PushEvent)) :
    Run.Throughout (PublishTwccStep codec) (NoLoanAfter codec) events { pub } ↔
      Run.Throughout (PublishTwccStep codec) (LoanReturned codec) events { pub } := by
  have hstart : NoLoan { pub } := fun h => by cases h
  constructor
  · exact Run.throughout_imp NoLoan (fun s e hs h => (noLoanAfter_iff hs e).mp h)
      (fun s e t _ h hst => (h t hst).1) hstart
  · exact Run.throughout_imp NoLoan (fun s e hs h => (noLoanAfter_iff hs e).mpr h)
      (fun s e t hs h hst => ((noLoanAfter_iff hs e).mpr h t hst).1) hstart

end Loans

/-- A unit of two fragments is pushed before the keys are there: the first is not encrypted and
keeps the pointer, and the next push frees what is no block of the heap. -/
theorem loan_kept_without_keys :
    let env : Env := { protect := xorProtect, sendData := fun _ => yangOk, now := 0 }
    let frame : YangFrame := ⟨fun _ => 0x65, 1302, 0⟩
    ¬ Run.Throughout (PublishTwccStep .h264) (NoLoanAfter .h264) [(env, .video frame)]
      { pub := createPublisher 5 7 1 9 } := by
  intro env frame h
  have hrun : (do
      let (err, s) ← publishTwcc env .h264 { pub := createPublisher 5 7 1 9 } (.video frame)
      return (err, s.fuaExtensions)) = .ret (errorRtcSrtpProtect, some .embedded) := by
    decide +kernel
  obtain ⟨⟨err, s⟩, hstep, hret⟩ := Call.bind_eq_ret.mp hrun
  simp only [Call.pure_eq, Call.ret.injEq, Prod.mk.injEq] at hret
  exact (h.1 s ⟨err, hstep⟩).1 hret.2

end MetaRtc
