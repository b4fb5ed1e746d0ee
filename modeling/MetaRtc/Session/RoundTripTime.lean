import MetaRtc.Session.Receive

/-! # The round-trip time a report block gives

The delay is kept in units of 1/65536 s and turned into milliseconds in 32 bits, which
overflow after 65 s. A block that answers no report is not told from the others. -/
namespace MetaRtc

open Bytes Exec

/-- The middle 32 bits of the clock that sender reports are stamped with. -/
def reportClock (env : SessionEnv) (ms : Nat) : Nat := getNtptimeFromms env ms / 2 ^ 16 % 2 ^ 32

def elapsedMs (env : SessionEnv) (s : Streams) (m : Media) : Nat :=
  (((env.now : Int) - sendStartTime s.pub.stats m) % 2 ^ 64).toNat / 1000

/-- The time between a block's report and `clock` that the other side did not wait. -/
def delaySince (clock : Nat) (rb : RtcpRB) : Nat :=
  (((clock : Int) - rb.lsr - rb.dlsr) % 2 ^ 32).toNat

/-- The media a packet of reports is for. The identifier compared is its sender's. -/
def rrMedia (s : Streams) (rtcp : RtcpCommon) : Option Media :=
  if rtcp.ssrc = (s.pub.media .audio).ssrc then some .audio
  else if rtcp.ssrc = (s.pub.media .video).ssrc then some .video
  else none

/-- What a block is to do to the round-trip time and its total. -/
def RttRight (env : SessionEnv) (s : Streams) (m : Media) (rb : RtcpRB) (s' : Streams) : Prop :=
  let stats := s.recvStats m
  let stats' := s'.recvStats m
  let rtt := max 1 (delaySince (reportClock env (elapsedMs env s m)) rb * 1000 / 65536)
  if rb.lsr = 0 then stats'.rtt = stats.rtt ∧ stats'.totalRtt = stats.totalRtt
  else stats'.rtt = rtt ∧ stats'.totalRtt = stats.totalRtt + rtt

def BlockRight (env : SessionEnv) (s : Streams) (rtcp : RtcpCommon) : Prop :=
  ∀ m rb err s', rrMedia s rtcp = some m → rtcp.rb = some rb →
    rtcpushOnRtcpRr env s rtcp = .ret (err, s') → RttRight env s m rb s'

/-- The blocks whose milliseconds fit in 32 bits and are not zero. A block without a report
does no harm where it is taken for one of no delay and the last delay was 1. After 2^32 ms the
handler's clock is another than the reports'. -/
def RttMeets (env : SessionEnv) (s : Streams) (m : Media) (rb : RtcpRB) : Prop :=
  let ms := elapsedMs env s m
  let delay := delaySince (reportClock env ms) rb
  let wrapped := delaySince (reportClock env (ms % 2 ^ 32)) rb * 1000 % 2 ^ 32
  if rb.lsr = 0 then (s.recvStats m).rtt = 1 ∧ wrapped < 65536
  else if ms < 2 ^ 32 then 66 ≤ delay ∧ delay ≤ 4294967
  else wrapped / 65536 = max 1 (delay * 1000 / 65536)

def BlockMeets (env : SessionEnv) (s : Streams) (rtcp : RtcpCommon) : Prop :=
  ∀ m rb, rrMedia s rtcp = some m → rtcp.rb = some rb → RttMeets env s m rb

variable {env : SessionEnv} {s s' : Streams} {m : Media} {rtcp : RtcpCommon} {rb : RtcpRB}

/-- What the handler stores: the quotient it computes in 32 bits is added to the total, and
kept itself unless it is zero. -/
theorem onRtcpRr_rtt (hm : rrMedia s rtcp = some m) (hrb : rtcp.rb = some rb) :
    ∃ s', rtcpushOnRtcpRr env s rtcp = .ret (yangOk, s') ∧
      let rtt :=
        delaySince (reportClock env (elapsedMs env s m % 2 ^ 32)) rb * 1000 % 2 ^ 32 / 65536
      (s'.recvStats m).rtt = max 1 rtt ∧
        (s'.recvStats m).totalRtt = (s.recvStats m).totalRtt + rtt := by
  have hone : rtcpushOnRtcpRr env s rtcp = statsOnRecvRR env s m rtcp := by
    unfold rrMedia at hm
    unfold rtcpushOnRtcpRr
    split at hm
    · rename_i ha
      cases hm
      rw [if_pos ha]
    · rename_i ha
      split at hm
      · rename_i hv
        cases hm
        rw [if_neg ha, if_pos hv]
      · cases hm
  rw [hone, statsOnRecvRR, hrb, Call.deref_some, Call.ret_bind]
  refine ⟨_, rfl, ?_, ?_⟩
  · simp only [Streams.setRecvStats, ite_true]
    split
    · exact (max_eq_right ‹_›).symm
    · rename_i hz
      exact (max_eq_left (Nat.le_succ_of_le (Nat.not_lt.mp hz))).symm
  · simp only [Streams.setRecvStats, ite_true]
    rfl

/-- Below 2^32 the quotient is right exactly where neither it nor the product goes out of
range. -/
theorem quotient_iff (d : Nat) :
    d * 1000 % 2 ^ 32 / 65536 = max 1 (d * 1000 / 65536) ↔ 66 ≤ d ∧ d ≤ 4294967 := by
  by_cases hd : d ≤ 4294967
  · rw [Nat.mod_eq_of_lt (by omega)]
    omega
  · have hlt : d * 1000 % 2 ^ 32 < 2 ^ 32 := Nat.mod_lt _ (by decide)
    omega

end MetaRtc
