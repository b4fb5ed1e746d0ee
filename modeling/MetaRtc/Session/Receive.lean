import MetaRtc.Session.Streams
import MetaRtc.Lib.Run

/-! # Receiving RTCP datagrams

A datagram is decrypted, decoded into the session's vector of packets, and each element
of the vector is dispatched. -/
namespace MetaRtc

open Bytes Exec

def errorRtcSrtpUnprotect : Err := 5015
def srtpErrStatusReplayFail : Int := 9

/-- A datagram as `srtp_unprotect_rtcp` leaves it: the status returned, the buffer and the
length. -/
structure RtcpDatagram where
  status : Int
  data : Mem
  nb : Nat

/-- `decoded` counts the datagrams given to the decoder and `dispatched` lists the packets
given to the handlers. Neither is looked at by the code. -/
structure RtcpSession where
  streams : Streams
  rtcps : RtcpCompound := {}
  heap : Heap := fun _ => 0
  decoded : Nat := 0
  dispatched : List RtcpCommon := []

/-- The code of the library for a replay is turned into success here, where its caller
looks for it, and where `yang_dec_rtp` passes it on. -/
def decRtcp (srtp : SRtp) (status : Int) : Err :=
  if srtp.recvCtx = false then errorRtcSrtpUnprotect
  else if status ≠ 0 then
    if status = srtpErrStatusReplayFail then yangOk else errorRtcSrtpUnprotect
  else yangOk

/-- The loop over the vector, up to the first error. The last result lists the elements
it has reached. -/
def dispatchAll (env : SessionEnv) (memory : Mem) :
    List RtcpCommon → Streams → Call (Err × Streams × List RtcpCommon)
  | [], s => .ret (yangOk, s, [])
  | rtcp :: rest, s => do
    let (err, s) ← rtcconnDispatchRtcp env memory s rtcp
    if err ≠ yangOk then return (err, s, [rtcp])
    else
      let (err, s, log) ← dispatchAll env memory rest s
      return (err, s, rtcp :: log)

def RtcpSession.afterDecode (s : RtcpSession) (t : DecodeState) : RtcpSession :=
  { s with rtcps := t.rtcps, heap := t.heap, decoded := s.decoded + 1 }

def RtcpSession.decodeState (s : RtcpSession) (d : RtcpDatagram) : DecodeState :=
  ⟨s.rtcps, initBuffer d.data d.nb, s.heap⟩

/-- The vector is cleared behind the dispatch loop, not behind a decoding error. -/
def rtcconnOnRtcp (env : SessionEnv) (s : RtcpSession) (d : RtcpDatagram) :
    Call (Err × RtcpSession) :=
  let err := decRtcp s.streams.pub.srtp d.status
  if err ≠ yangOk then
    if err = srtpErrStatusReplayFail then .ret (yangOk, s) else .ret (err, s)
  else
    match decodeRtcpCompound env.enableTwcc (s.decodeState d) with
    | none => .blocked
    | some (err, t) =>
      let s := s.afterDecode t
      if err ≠ yangOk then .ret (err, s)
      else do
        let (err, streams, log) ← dispatchAll env d.data s.rtcps.rtcpVector s.streams
        let (rtcps, heap) := rtcpCompoundClear s.rtcps s.heap
        return (err, { s with streams, rtcps, heap, dispatched := s.dispatched ++ log })

def RtcpStep (env : SessionEnv) (s : RtcpSession) (d : RtcpDatagram) (s' : RtcpSession) : Prop :=
  ∃ err, rtcconnOnRtcp env s d = .ret (err, s')

/-- Nothing at all is changed by a datagram that the library does not accept. -/
def Guarded (env : SessionEnv) (s : RtcpSession) (d : RtcpDatagram) : Prop :=
  d.status ≠ 0 → ∃ err, rtcconnOnRtcp env s d = .ret (err, s)

variable {env : SessionEnv} {s : RtcpSession} {d : RtcpDatagram}

theorem onRtcp_refused (env : SessionEnv) (h : decRtcp s.streams.pub.srtp d.status ≠ yangOk) :
    ∃ err, rtcconnOnRtcp env s d = .ret (err, s) := by
  unfold rtcconnOnRtcp
  simp only
  rw [if_pos h]
  split <;> exact ⟨_, rfl⟩

/-- The ways of a datagram that is let through: the decoder does not end, or ends in an
error, or each packet is dispatched. -/
theorem onRtcp_passed {err : Err} {s' : RtcpSession}
    (h : decRtcp s.streams.pub.srtp d.status = yangOk)
    (hs : rtcconnOnRtcp env s d = .ret (err, s')) :
    ∃ e t, decodeRtcpCompound env.enableTwcc (s.decodeState d) = some (e, t) ∧
      (e ≠ yangOk ∧ s' = s.afterDecode t ∨
        e = yangOk ∧ ∃ streams log,
          dispatchAll env d.data t.rtcps.rtcpVector s.streams = .ret (err, streams, log) ∧
          s' = { s.afterDecode t with
            streams
            rtcps := (rtcpCompoundClear t.rtcps t.heap).1
            heap := (rtcpCompoundClear t.rtcps t.heap).2
            dispatched := s.dispatched ++ log }) := by
  unfold rtcconnOnRtcp at hs
  simp only [h, ne_eq, not_true_eq_false, ite_false] at hs
  cases hd : decodeRtcpCompound env.enableTwcc (s.decodeState d) with
  | none =>
    simp only [hd] at hs
    cases hs
  | some r =>
    obtain ⟨e, t⟩ := r
    refine ⟨e, t, rfl, ?_⟩
    simp only [hd] at hs
    split at hs
    · rename_i he
      cases hs
      exact .inl ⟨he, rfl⟩
    · rename_i he
      obtain ⟨⟨e', streams, log⟩, hall, hret⟩ := Call.bind_eq_ret.mp hs
      cases hret
      exact .inr ⟨not_not.mp he, streams, log, hall, rfl⟩

theorem decoded_of_passed {err : Err} {s' : RtcpSession}
    (h : decRtcp s.streams.pub.srtp d.status = yangOk)
    (hs : rtcconnOnRtcp env s d = .ret (err, s')) : s'.decoded = s.decoded + 1 := by
  obtain ⟨e, t, _, ⟨_, rfl⟩ | ⟨_, streams, log, _, rfl⟩⟩ := onRtcp_passed h hs
  · rfl
  · rfl

theorem decRtcp_ok_iff (srtp : SRtp) (status : Int) :
    decRtcp srtp status = yangOk ↔
      srtp.recvCtx = true ∧ (status = 0 ∨ status = srtpErrStatusReplayFail) := by
  have hne : errorRtcSrtpUnprotect ≠ yangOk := by decide
  unfold decRtcp
  by_cases hc : srtp.recvCtx = true
  · by_cases h0 : status = 0
    · simp [hc, h0]
    · by_cases h9 : status = srtpErrStatusReplayFail
      · simp [hc, h9]
      · simp [hc, h0, h9, hne]
  · simp [hc, hne]

/-- A replay is let through wherever there are keys to detect it with. -/
theorem guarded_iff :
    Guarded env s d ↔ (d.status = srtpErrStatusReplayFail → s.streams.pub.srtp.recvCtx = false) := by
  constructor
  · intro hg h9
    by_contra hc
    obtain ⟨err, hs⟩ := hg (by rw [h9]; decide)
    have hok : decRtcp s.streams.pub.srtp d.status = yangOk :=
      (decRtcp_ok_iff _ _).mpr ⟨by simpa using hc, .inr h9⟩
    have hcount := decoded_of_passed hok hs
    omega
  · intro h h0
    apply onRtcp_refused
    intro hok
    obtain ⟨hc, hz | h9⟩ := (decRtcp_ok_iff _ _).mp hok
    · exact h0 hz
    · simp [h h9] at hc

/-- In a run over datagrams, those that SRTP does not accept leave no trace exactly where
none of them is a replay met with the keys in place. -/
theorem replays_unguarded (env : SessionEnv) (s : RtcpSession) (ds : List RtcpDatagram) :
    Run.Throughout (RtcpStep env) (Guarded env) ds s ↔
      Run.Throughout (RtcpStep env) (fun s d =>
        d.status = srtpErrStatusReplayFail → s.streams.pub.srtp.recvCtx = false) ds s :=
  Run.throughout_congr fun _ _ => guarded_iff

/-- A session that publishes and plays, with both SRTP contexts. -/
def demoSession : RtcpSession where
  streams :=
    { push := true
      play := true
      optPlay := false
      pub := { createPublisher 5 7 1 9 with srtp := ⟨true, true, false⟩ }
      tracks := fun _ => { ids := [⟨21, 22, 23⟩], nackInterval := 0, maxNackInterval := 0 }
      recvStats := fun _ => {}
      twcc := ⟨0, fun _ => 0⟩
      requests := [] }

def demoEnv : SessionEnv where
  protect packet := (0, packet)
  sendData _ := yangOk
  now := 0
  enableTwcc := false
  twccDecode twcc _ _ := some twcc
  ntpFractions _ := 0
  smoothInterval a _ := a

/-- A receiver report of source 5 on one stream. -/
def oneReport : List UInt8 :=
  [0x81, 201, 0, 7, 0, 0, 0, 5] ++ [0, 0, 0, 5, 0, 0, 0, 0] ++ List.replicate 16 0

/-- A report that SRTP has recognised as a replay is counted as one more. -/
theorem replay_dispatched :
    let d : RtcpDatagram := ⟨srtpErrStatusReplayFail, ofList oneReport, 32⟩
    ¬ Run.Throughout (RtcpStep demoEnv) (Guarded demoEnv) [d] demoSession ∧
      (do let (_, s) ← rtcconnOnRtcp demoEnv demoSession d
          return (s.dispatched.length, (s.streams.recvStats .audio).reportsReceived)) =
        .ret (1, 1) := by
  intro d
  constructor
  · rintro ⟨h, _⟩
    exact Bool.noConfusion (guarded_iff.mp h rfl : true = false)
  · decide +kernel

end MetaRtc
