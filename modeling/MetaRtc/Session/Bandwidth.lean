import Mathlib.Data.Rat.Floor
import Mathlib.Tactic.NormNum
import Mathlib.Tactic.Linarith
import MetaRtc.Lib.Exec
import MetaRtc.Rtcp.Packet

/-! # Rate requests from the loss of packets

The loss rate is a quotient of integers, so it is below the low threshold or above the
high one, never between. -/
namespace MetaRtc

open Exec

inductive RequestType where
  | sendkeyframe | highLostPacketRate | lowLostPacketRate | connected | disconnected
  deriving DecidableEq

/-- The thresholds as the single-precision numbers they are compared as. -/
def kDefaultHighLossThreshold : ℚ := 13421773 / 2 ^ 27
def kDefaultLowLossThreshold : ℚ := 10737418 / 2 ^ 29

/-- The two counters and what they were at the last check. -/
structure LossCounters where
  lostVideoPacketCount : Nat := 0
  preLostVideoPacketCount : Nat := 0
  videoRtpPacketCount : Nat := 0
  preVideoRtpPacketCount : Nat := 0

/-- `lostRate` is a floating-point number that only ever holds a quotient of integers. -/
structure BandwidthSession where
  request : RequestType := .sendkeyframe
  lostRate : Int := 0

/-- `sent` are the requests made of the application, in order: the stream and its identifier with
what is asked. The code does not look at it. -/
structure RateSession where
  bw : BandwidthSession := {}
  stats : LossCounters := {}
  sent : List (Int × Nat × RequestType) := []

/-- The application's callback, `sendRequest` telling whether there is one, and what it is
called with. -/
structure RtcCallback where
  sendRequest : Bool
  uid : Int
  videoSsrc : Nat

def checkByRR (s : RateSession) : RateSession :=
  let stats := s.stats
  let lostCount := Int.bmod (stats.lostVideoPacketCount - stats.preLostVideoPacketCount) (2 ^ 32)
  let sendCount := Int.bmod (stats.videoRtpPacketCount - stats.preVideoRtpPacketCount) (2 ^ 32)
  { s with
    bw := if sendCount > 0 then { s.bw with lostRate := lostCount.tdiv sendCount } else s.bw
    stats :=
      { stats with
        preLostVideoPacketCount := stats.lostVideoPacketCount
        preVideoRtpPacketCount := stats.videoRtpPacketCount } }

def RateSession.ask (s : RateSession) (cb : RtcCallback) (req : RequestType) : RateSession :=
  { s with sent := s.sent ++ [(cb.uid, cb.videoSsrc, req)] }

/-- For a low rate the callback is called without a look at whether it is there. -/
def rtcpushCheckRrt (cb : RtcCallback) (s : RateSession) : Call (Err × RateSession) :=
  let s := checkByRR s
  if (s.bw.lostRate : ℚ) > kDefaultHighLossThreshold then
    if s.bw.request = .highLostPacketRate then .ret (yangOk, s)
    else
      let s := if cb.sendRequest then s.ask cb .highLostPacketRate else s
      .ret (yangOk, { s with bw := { s.bw with request := .highLostPacketRate } })
  else if (s.bw.lostRate : ℚ) < kDefaultLowLossThreshold then
    if s.bw.request = .lowLostPacketRate then .ret (yangOk, s)
    else if cb.sendRequest = false then .crash
    else
      let s := s.ask cb .lowLostPacketRate
      .ret (yangOk, { s with bw := { s.bw with request := .lowLostPacketRate } })
  else .ret (yangOk, s)

/-- The counters at a check. -/
structure LossCheck where
  lost : Nat
  sent : Nat

def RateSession.count (s : RateSession) (e : LossCheck) : RateSession :=
  { s with stats := { s.stats with lostVideoPacketCount := e.lost, videoRtpPacketCount := e.sent } }

def checkRate (cb : RtcCallback) (s : RateSession) (e : LossCheck) : Call (Err × RateSession) :=
  rtcpushCheckRrt cb (s.count e)

def RateStep (cb : RtcCallback) (s : RateSession) (e : LossCheck) (s' : RateSession) : Prop :=
  ∃ err, checkRate cb s e = .ret (err, s')

def newlyLost (s : RateSession) (e : LossCheck) : Int := e.lost - s.stats.preLostVideoPacketCount
def newlySent (s : RateSession) (e : LossCheck) : Int := e.sent - s.stats.preVideoRtpPacketCount

def lossRatio (s : RateSession) (e : LossCheck) : ℚ := newlyLost s e / newlySent s e

/-- The request that the exact ratio calls for. -/
def rightRequest (s : RateSession) (e : LossCheck) : RequestType :=
  if lossRatio s e > kDefaultHighLossThreshold then .highLostPacketRate
  else if lossRatio s e < kDefaultLowLossThreshold then .lowLostPacketRate
  else s.bw.request

def RateRight (cb : RtcCallback) (s : RateSession) (e : LossCheck) : Prop :=
  0 < newlySent s e → ∃ err s', checkRate cb s e = .ret (err, s') ∧
    s'.bw.request = rightRequest s e ∧
    s'.sent = s.sent ++
      if rightRequest s e = s.bw.request then [] else [(cb.uid, cb.videoSsrc, rightRequest s e)]

def lostDifference (s : RateSession) (e : LossCheck) : Int := Int.bmod (newlyLost s e) (2 ^ 32)
def sentDifference (s : RateSession) (e : LossCheck) : Int := Int.bmod (newlySent s e) (2 ^ 32)

/-- As many packets lost as sent, in the 32 bits the differences are kept in; a difference
that is not positive there leaves the rate of the last check. -/
def AllLost (s : RateSession) (e : LossCheck) : Prop :=
  if 0 < sentDifference s e then sentDifference s e ≤ lostDifference s e else 1 ≤ s.bw.lostRate

instance (s : RateSession) (e : LossCheck) : Decidable (AllLost s e) :=
  inferInstanceAs (Decidable (if 0 < sentDifference s e then
    sentDifference s e ≤ lostDifference s e else 1 ≤ s.bw.lostRate))

/-- The request the code makes. -/
def madeRequest (s : RateSession) (e : LossCheck) : RequestType :=
  if AllLost s e then .highLostPacketRate else .lowLostPacketRate

/-- A ratio above the high threshold is of packets all lost, one below the low threshold is of
packets not all lost, and one between them finds the request already made that the code
makes. Where another is to be made there is a callback. -/
def RateMeets (cb : RtcCallback) (s : RateSession) (e : LossCheck) : Prop :=
  0 < newlySent s e →
    (kDefaultHighLossThreshold < lossRatio s e ∧ AllLost s e ∨
      lossRatio s e < kDefaultLowLossThreshold ∧ ¬ AllLost s e ∨
      kDefaultLowLossThreshold ≤ lossRatio s e ∧ lossRatio s e ≤ kDefaultHighLossThreshold ∧
        s.bw.request = madeRequest s e) ∧
    (s.bw.request = madeRequest s e ∨ cb.sendRequest = true)

section Checks

variable {cb : RtcCallback} {s s' : RateSession} {e : LossCheck} {err : Err}

theorem high_iff (n : Int) : (n : ℚ) > kDefaultHighLossThreshold ↔ 1 ≤ n := by
  unfold kDefaultHighLossThreshold
  constructor
  · intro h
    by_contra hn
    have hle : (n : ℚ) ≤ 0 := by exact_mod_cast (by omega : n ≤ 0)
    norm_num at h
    linarith
  · intro h
    have hle : (1 : ℚ) ≤ n := by exact_mod_cast h
    norm_num
    linarith

theorem low_iff (n : Int) : (n : ℚ) < kDefaultLowLossThreshold ↔ n ≤ 0 := by
  unfold kDefaultLowLossThreshold
  constructor
  · intro h
    by_contra hn
    have hle : (1 : ℚ) ≤ n := by exact_mod_cast (by omega : 1 ≤ n)
    norm_num at h
    linarith
  · intro h
    have hle : (n : ℚ) ≤ 0 := by exact_mod_cast h
    norm_num
    linarith

theorem one_le_tdiv_iff (a : Int) {b : Int} (hb : 0 < b) : 1 ≤ a.tdiv b ↔ b ≤ a := by
  by_cases ha : 0 ≤ a
  · rw [Int.tdiv_eq_ediv_of_nonneg ha, Int.le_ediv_iff_mul_le hb, one_mul]
  · have hneg : 0 ≤ (-a).tdiv b := Int.tdiv_nonneg (by omega) (by omega)
    rw [Int.neg_tdiv] at hneg
    omega

theorem checkByRR_rate : 1 ≤ (checkByRR (s.count e)).bw.lostRate ↔ AllLost s e := by
  have hbw : (checkByRR (s.count e)).bw = if sentDifference s e > 0 then
      { s.bw with lostRate := (lostDifference s e).tdiv (sentDifference s e) } else s.bw := rfl
  rw [hbw, AllLost]
  split
  · exact one_le_tdiv_iff _ ‹_›
  · rfl

/-- What a check does: whether all was lost decides the request, and the callback is called,
where there is one, if that is another than before. -/
theorem checkRate_cases (cb : RtcCallback) (s : RateSession) (e : LossCheck) :
    (s.bw.request = madeRequest s e ∧ ∃ s', checkRate cb s e = .ret (yangOk, s') ∧
      s'.bw.request = madeRequest s e ∧ s'.sent = s.sent) ∨
    (s.bw.request ≠ madeRequest s e ∧ cb.sendRequest = true ∧
      ∃ s', checkRate cb s e = .ret (yangOk, s') ∧ s'.bw.request = madeRequest s e ∧
        s'.sent = s.sent ++ [(cb.uid, cb.videoSsrc, madeRequest s e)]) ∨
    (s.bw.request ≠ madeRequest s e ∧ cb.sendRequest = false ∧
      ∀ err s', checkRate cb s e = .ret (err, s') →
        s'.bw.request = madeRequest s e ∧ s'.sent = s.sent) := by
  have hrequest : (checkByRR (s.count e)).bw.request = s.bw.request := by
    unfold checkByRR
    dsimp only
    split <;> rfl
  have hhigh : ((checkByRR (s.count e)).bw.lostRate : ℚ) > kDefaultHighLossThreshold ↔
      AllLost s e :=
    (high_iff _).trans checkByRR_rate
  have hlow : ((checkByRR (s.count e)).bw.lostRate : ℚ) < kDefaultLowLossThreshold ↔
      ¬ AllLost s e := by
    rw [low_iff, ← checkByRR_rate]
    omega
  unfold checkRate rtcpushCheckRrt madeRequest
  dsimp only
  by_cases hall : AllLost s e
  · rw [if_pos (hhigh.mpr hall), if_pos hall, hrequest]
    by_cases hr : s.bw.request = .highLostPacketRate
    · rw [if_pos hr]
      exact .inl ⟨hr, _, rfl, hrequest.trans hr, rfl⟩
    · rw [if_neg hr]
      cases hcb : cb.sendRequest with
      | true => exact .inr (.inl ⟨hr, rfl, _, rfl, rfl, rfl⟩)
      | false =>
        refine .inr (.inr ⟨hr, rfl, fun err s' h => ?_⟩)
        cases h
        exact ⟨rfl, rfl⟩
  · rw [if_neg (fun h => hall (hhigh.mp h)), if_pos (hlow.mpr hall), if_neg hall, hrequest]
    by_cases hr : s.bw.request = .lowLostPacketRate
    · rw [if_pos hr]
      exact .inl ⟨hr, _, rfl, hrequest.trans hr, rfl⟩
    · rw [if_neg hr]
      cases hcb : cb.sendRequest with
      | true => exact .inr (.inl ⟨hr, rfl, _, rfl, rfl, rfl⟩)
      | false =>
        refine .inr (.inr ⟨hr, rfl, fun err s' h => ?_⟩)
        cases h

theorem rightRequest_iff :
    rightRequest s e = madeRequest s e ↔
      kDefaultHighLossThreshold < lossRatio s e ∧ AllLost s e ∨
        lossRatio s e < kDefaultLowLossThreshold ∧ ¬ AllLost s e ∨
        kDefaultLowLossThreshold ≤ lossRatio s e ∧ lossRatio s e ≤ kDefaultHighLossThreshold ∧
          s.bw.request = madeRequest s e := by
  have hlt : kDefaultLowLossThreshold < kDefaultHighLossThreshold := by decide +kernel
  unfold rightRequest
  generalize lossRatio s e = ratio
  by_cases hhigh : ratio > kDefaultHighLossThreshold
  · have hnot : ¬ ratio < kDefaultLowLossThreshold := not_lt.mpr (hlt.le.trans hhigh.le)
    by_cases hall : AllLost s e <;> simp [madeRequest, hall, hhigh, hnot]
  · by_cases hlow : ratio < kDefaultLowLossThreshold
    · have hnot : ¬ kDefaultLowLossThreshold ≤ ratio := not_le.mpr hlow
      by_cases hall : AllLost s e <;> simp [madeRequest, hall, hhigh, hlow, hnot]
    · simp [hhigh, hlow, not_lt.mp hlow, not_lt.mp hhigh]

/-- The step lemma. -/
theorem rateRight_iff (cb : RtcCallback) (s : RateSession) (e : LossCheck) :
    RateRight cb s e ↔ RateMeets cb s e := by
  unfold RateRight RateMeets
  refine imp_congr_right fun _ => ?_
  rw [← rightRequest_iff]
  obtain ⟨hr, s', hret, hreq, hsent⟩ | ⟨hr, hcb, s', hret, hreq, hsent⟩ | ⟨hr, hcb, hsent⟩ :=
    checkRate_cases cb s e
  · constructor
    · rintro ⟨err, t, ht, hright, -⟩
      cases hret.symm.trans ht
      exact ⟨hright.symm.trans hreq, .inl hr⟩
    · rintro ⟨hright, -⟩
      refine ⟨_, s', hret, hreq.trans hright.symm, ?_⟩
      rw [if_pos (hright.trans hr.symm), hsent, List.append_nil]
  · constructor
    · rintro ⟨err, t, ht, hright, -⟩
      cases hret.symm.trans ht
      exact ⟨hright.symm.trans hreq, .inr hcb⟩
    · rintro ⟨hright, -⟩
      refine ⟨_, s', hret, hreq.trans hright.symm, ?_⟩
      rw [if_neg (fun h => hr (h.symm.trans hright)), hsent, hright]
  · constructor
    · rintro ⟨err, t, ht, hright, hcall⟩
      obtain ⟨hreq, hsame⟩ := hsent err t ht
      have hne : rightRequest s e ≠ s.bw.request := fun h =>
        hr (h.symm.trans (hright.symm.trans hreq))
      simp [hsame, hne] at hcall
    · rintro ⟨-, h | h⟩
      · exact absurd h hr
      · simp [hcb] at h

end Checks

/-- Over any sequence of checks, all are right exactly when each meets the condition in the
state it finds. -/
theorem rate_requests (cb : RtcCallback) (start : RateSession) (checks : List LossCheck) :
    Run.Throughout (RateStep cb) (RateRight cb) checks start ↔
      Run.Throughout (RateStep cb) (RateMeets cb) checks start :=
  Run.throughout_congr (rateRight_iff cb)

/-- Half of a hundred packets are lost: the low rate is reported. -/
theorem half_lost_is_low :
    ¬ Run.Throughout (RateStep ⟨true, 1, 7⟩) (RateRight ⟨true, 1, 7⟩) [⟨50, 100⟩] {} := by
  intro h
  obtain ⟨hratio, -⟩ := (rateRight_iff _ _ _).mp h.1 (by decide)
  revert hratio
  decide +kernel

end MetaRtc
