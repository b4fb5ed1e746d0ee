import MetaRtc.Play.Highest

/-! # Receiver reports -/
namespace MetaRtc

open Bytes

def kReceiverReport : Nat := 201

/-- The counts of a remote stream with those of the report before. -/
structure ReportedStats where
  counts : RecvRtpStats := {}
  lastExpected : Nat := 0
  lastLost : Nat := 0

/-- The count is cut to 32 bits. -/
def statsGetLostInterval (stats : ReportedStats) : Nat × ReportedStats :=
  let lost := statsGetLostCount stats.counts % 2 ^ 32
  if lost < stats.lastLost then (0, stats)
  else (lost - stats.lastLost, { stats with lastLost := lost })

def statsGetExpectedPacketsInterval (stats : ReportedStats) : Int × ReportedStats :=
  let expected := statsExpected stats.counts
  (Int.bmod (expected - stats.lastExpected) (2 ^ 32),
    { stats with lastExpected := (expected % 2 ^ 32).toNat })

/-- The division comes before the shift, which is not defined where it is by a negative number. -/
def statsGetFractionLost (stats : ReportedStats) : Option Nat × ReportedStats :=
  let (expectedInterval, stats) := statsGetExpectedPacketsInterval stats
  if expectedInterval ≠ 0 then
    let (lostInterval, stats) := statsGetLostInterval stats
    let shift := (8 : Int).tdiv expectedInterval
    (if 0 ≤ shift then some (lostInterval * 2 ^ shift.toNat % 256) else none, stats)
  else (some 0, stats)

/-- The bytes of a report of one remote stream. -/
def receiverReport (ssrc fractionLost cumulativeLost extendedHighest rrLsr rrDlsr : Nat) :
    List UInt8 :=
  beBytes 1 0x81 ++ beBytes 1 kReceiverReport ++ beBytes 2 7 ++ beBytes 4 ssrc ++ beBytes 4 ssrc ++
    beBytes 1 fractionLost ++ beBytes 3 cumulativeLost ++ beBytes 4 extendedHighest ++ beBytes 4 0 ++
    beBytes 4 rrLsr ++ beBytes 4 rrDlsr

/-- Only what is sent for video tells of the packets lost. -/
def sendRtcpRr (isAudio : Bool) (ssrc : Nat) (rtpQueue : ReceiveNackBuffer)
    (lastSendSystime : Nat) (lastSendNtp : Ntp) (now : Nat) (stats : ReportedStats) :
    Option (List UInt8) × ReportedStats :=
  let (fractionLost, stats) := if isAudio then (some 0, stats) else statsGetFractionLost stats
  let cumulativeLost := if isAudio then 0 else statsGetLostCount stats.counts % 2 ^ 23
  let dlsr := (now - lastSendSystime) / 1000
  let (rrLsr, rrDlsr) :=
    if lastSendSystime > 0 then
      (lastSendNtp.ntpSecond * 65536 ||| lastSendNtp.ntpFractions / 65536,
        dlsr / 1000 * 65536 ||| dlsr % 1000 * 65536 / 1000)
    else (0, 0)
  (fractionLost.map fun fractionLost => receiverReport ssrc fractionLost cumulativeLost
    (nackbufferGetExtendedHighestSequence rtpQueue) rrLsr rrDlsr, stats)

/-- The numbers that are kept of the previous report are not looked at by the code. -/
structure ReportWorld where
  stats : ReportedStats := {}
  lost : Nat := 0
  expected : Int := 0

inductive ReportEvent where
  | packet (pkt : RtpPacket)
  | report (ssrc : Nat) (rtpQueue : ReceiveNackBuffer) (lastSendSystime : Nat) (lastSendNtp : Ntp)
    (now : Nat)

def ReportWorld.next (w : ReportWorld) : ReportEvent → ReportWorld
  | .packet pkt =>
    { w with stats := { w.stats with counts := statsOnPlayVideoRtp w.stats.counts pkt } }
  | .report ssrc rtpQueue systime ntp now =>
    { stats := (sendRtcpRr false ssrc rtpQueue systime ntp now w.stats).2
      lost := statsGetLostCount w.stats.counts
      expected := statsExpected w.stats.counts }

def ReportStep (w : ReportWorld) (e : ReportEvent) (w' : ReportWorld) : Prop := w' = w.next e

/-- What a report tells of the packets lost among those expected, in parts of 256. -/
def fractionLost (lost expected : Int) : Nat :=
  if 0 < lost ∧ 0 < expected then min 255 (256 * lost / expected).toNat else 0

/-- The thirteenth byte of a report. -/
def TellsFraction (w : ReportWorld) : ReportEvent → Prop
  | .packet _ => True
  | .report ssrc rtpQueue systime ntp now => ∃ bytes,
    (sendRtcpRr false ssrc rtpQueue systime ntp now w.stats).1 = some bytes ∧
      bytes[12]? = some (UInt8.ofNat (fractionLost (statsGetLostCount w.stats.counts - w.lost)
        (statsExpected w.stats.counts - w.expected)))

/-- The low byte of the packets lost is the fraction of those expected. -/
def LowByteFits (lost expected : Nat) : Prop :=
  9 ≤ expected ∧ (expected ≤ lost ∧ lost % 256 = 255 ∨ lost < expected ∧
    expected * (lost % 256) ≤ 256 * lost ∧ 256 * lost < expected * (lost % 256 + 1))

instance (lost expected : Nat) : Decidable (LowByteFits lost expected) := by
  unfold LowByteFits
  exact inferInstance

/-- The counts have not overflowed since the previous report, and no packets were lost since then, or
no earlier report had more lost than the previous one and the low byte fits. -/
def ReportEvent.Tame (w : ReportWorld) : ReportEvent → Prop
  | .packet _ => True
  | .report _ _ _ _ _ =>
    let lost := statsGetLostCount w.stats.counts
    let expected := statsExpected w.stats.counts
    lost < 2 ^ 32 ∧ w.expected ≤ expected ∧ expected - w.expected < 2 ^ 31 ∧
      (lost ≤ w.lost ∨ w.stats.lastLost = w.lost ∧
        LowByteFits (lost - w.lost) (expected - w.expected).toNat)

theorem few_expected : ∀ expected < 9, ∀ lost < expected, 0 < lost →
    lost * 2 ^ (8 / expected) % 256 ≠ min 255 (256 * lost / expected) := by
  decide

/-- What is computed is the fraction just where the low byte fits. -/
theorem shifted_eq_iff {lost expected : Nat} (hlost : 0 < lost) (hexpected : 0 < expected) :
    lost * 2 ^ (8 / expected) % 256 = min 255 (256 * lost / expected) ↔
      LowByteFits lost expected := by
  have hfull (h : expected ≤ lost) : min 255 (256 * lost / expected) = 255 := by
    have hquotient : 256 ≤ 256 * lost / expected :=
      (Nat.le_div_iff_mul_le hexpected).mpr (Nat.mul_le_mul_left 256 h)
    omega
  by_cases hmany : 9 ≤ expected
  · have hshift : 8 / expected = 0 := Nat.div_eq_of_lt (by omega)
    rw [hshift, Nat.pow_zero, Nat.mul_one]
    by_cases hall : expected ≤ lost
    · rw [hfull hall]
      unfold LowByteFits
      omega
    · have hpart : 256 * lost / expected < 256 :=
        Nat.div_lt_of_lt_mul (by rw [Nat.mul_comm expected]; omega)
      have hmin : min 255 (256 * lost / expected) = 256 * lost / expected := by omega
      rw [hmin, eq_comm, Nat.div_eq_iff hexpected]
      unfold LowByteFits
      rw [Nat.mul_comm (lost % 256), Nat.mul_add_one]
      omega
  · have hnot : ¬ LowByteFits lost expected := fun h => hmany h.1
    refine iff_of_false (fun h => ?_) hnot
    by_cases hall : expected ≤ lost
    · obtain ⟨shift, hshift⟩ : ∃ shift, 8 / expected = shift + 1 :=
        Nat.exists_eq_succ_of_ne_zero (Nat.div_pos (by omega) hexpected).ne'
      rw [hfull hall, hshift, Nat.pow_succ, ← Nat.mul_assoc] at h
      omega
    · exact few_expected expected (by omega) lost (by omega) hlost h

/-- What is kept of the previous report, as far as it is needed for the next. -/
structure ReportInv (w : ReportWorld) : Prop where
  lastExpected : w.stats.lastExpected = (w.expected % 2 ^ 32).toNat
  lost : w.lost ≤ w.stats.lastLost
  lastLost : w.stats.lastLost < 2 ^ 32

section Report

variable {w : ReportWorld}

theorem ReportInv.expectedInterval (h : ReportInv w) (hlo : w.expected ≤ statsExpected w.stats.counts)
    (hhi : statsExpected w.stats.counts - w.expected < 2 ^ 31) :
    (statsGetExpectedPacketsInterval w.stats).1 = statsExpected w.stats.counts - w.expected := by
  have hlast : (w.stats.lastExpected : Int) = w.expected % 2 ^ 32 := by
    rw [h.lastExpected]
    omega
  show Int.bmod (statsExpected w.stats.counts - w.stats.lastExpected) (2 ^ 32) = _
  rw [hlast]
  exact (Int.sub_emod_bmod _ (2 ^ 32)).trans (Int.bmod_eq_of_le (by omega) (by omega))

/-- Where no packets were lost since the previous report, the interval is empty. -/
theorem lostInterval_none {stats : ReportedStats} (h : statsGetLostCount stats.counts ≤ stats.lastLost)
    (hlast : stats.lastLost < 2 ^ 32) : statsGetLostInterval stats = (0, stats) := by
  have hcut : statsGetLostCount stats.counts % 2 ^ 32 = statsGetLostCount stats.counts :=
    Nat.mod_eq_of_lt (by omega)
  unfold statsGetLostInterval
  dsimp only
  rw [hcut]
  split
  · rfl
  · have hsame : statsGetLostCount stats.counts = stats.lastLost := by omega
    rw [hsame, Nat.sub_self]

theorem lostInterval_some {stats : ReportedStats} (h : stats.lastLost ≤ statsGetLostCount stats.counts)
    (hlost : statsGetLostCount stats.counts < 2 ^ 32) : statsGetLostInterval stats =
      (statsGetLostCount stats.counts - stats.lastLost,
        { stats with lastLost := statsGetLostCount stats.counts }) := by
  unfold statsGetLostInterval
  dsimp only
  rw [Nat.mod_eq_of_lt hlost, if_neg (by omega)]

theorem getFractionLost_eq {stats stats₁ : ReportedStats} {interval : Nat}
    (hexpected : statsGetExpectedPacketsInterval stats = ((interval : Int), stats₁)) :
    statsGetFractionLost stats = if interval = 0 then (some 0, stats₁) else
      (some ((statsGetLostInterval stats₁).1 * 2 ^ (8 / interval) % 256),
        (statsGetLostInterval stats₁).2) := by
  have hshift : (8 : Int).tdiv interval = (8 / interval : Nat) := rfl
  unfold statsGetFractionLost
  rw [hexpected]
  dsimp only
  by_cases hzero : interval = 0
  · rw [if_neg (by omega), if_pos hzero]
  · rw [if_pos (by omega), if_neg hzero, hshift, if_pos (Int.natCast_nonneg _), Int.toNat_natCast]

/-- The fraction is right, and what is kept for the next report. -/
theorem ReportInv.fraction (h : ReportInv w) (hlost : statsGetLostCount w.stats.counts < 2 ^ 32)
    (hlo : w.expected ≤ statsExpected w.stats.counts)
    (hhi : statsExpected w.stats.counts - w.expected < 2 ^ 31)
    (htells : statsGetLostCount w.stats.counts ≤ w.lost ∨ w.stats.lastLost = w.lost ∧
      LowByteFits (statsGetLostCount w.stats.counts - w.lost)
        (statsExpected w.stats.counts - w.expected).toNat) :
    ∃ lastLost, statsGetLostCount w.stats.counts ≤ lastLost ∧ lastLost < 2 ^ 32 ∧
      statsGetFractionLost w.stats =
        (some (fractionLost (statsGetLostCount w.stats.counts - w.lost)
          (statsExpected w.stats.counts - w.expected)),
        { w.stats with
          lastLost
          lastExpected := (statsExpected w.stats.counts % 2 ^ 32).toNat }) := by
  obtain ⟨interval, hinterval⟩ := Int.eq_ofNat_of_zero_le (Int.sub_nonneg_of_le hlo)
  obtain ⟨stats, hstats⟩ : ∃ stats, stats = { w.stats with
    lastExpected := (statsExpected w.stats.counts % 2 ^ 32).toNat } := ⟨_, rfl⟩
  have hcounts : stats.counts = w.stats.counts := by rw [hstats]
  have hlast : stats.lastLost = w.stats.lastLost := by rw [hstats]
  have hexpected : statsGetExpectedPacketsInterval w.stats = ((interval : Int), stats) := by
    rw [← hinterval, ← h.expectedInterval hlo hhi, hstats]
    rfl
  have hkept := h.lost
  rw [getFractionLost_eq hexpected, hinterval]
  by_cases hnone : statsGetLostCount w.stats.counts ≤ w.lost
  · refine ⟨w.stats.lastLost, by omega, h.lastLost, ?_⟩
    have hzero : ¬ (0 < (statsGetLostCount w.stats.counts : Int) - w.lost ∧ 0 < (interval : Int)) := by
      omega
    rw [lostInterval_none (by rw [hcounts, hlast]; omega) (hlast ▸ h.lastLost), fractionLost,
      if_neg hzero, ← hlast, hstats]
    split
    · rfl
    · rw [Nat.zero_mul]
  · obtain ⟨hsame, hfits⟩ := htells.resolve_left hnone
    rw [hinterval, Int.toNat_natCast] at hfits
    have hpos : 0 < interval := Nat.lt_of_lt_of_le (by decide) hfits.1
    refine ⟨statsGetLostCount w.stats.counts, Nat.le_refl _, hlost, ?_⟩
    have hshifted := (shifted_eq_iff (by omega) hpos).mpr hfits
    have hfraction : fractionLost (statsGetLostCount w.stats.counts - w.lost) interval =
        min 255 (256 * (statsGetLostCount w.stats.counts - w.lost) / interval) := by
      rw [fractionLost, if_pos (by omega), ← Int.ofNat_sub (by omega)]
      rfl
    rw [if_neg hpos.ne', hfraction, ← hshifted,
      lostInterval_some (by rw [hcounts, hlast]; omega) (hcounts ▸ hlost), hcounts, hlast, hsame, hstats]

theorem receiverReport_fraction (ssrc fractionLost cumulativeLost extendedHighest rrLsr rrDlsr : Nat) :
    (receiverReport ssrc fractionLost cumulativeLost extendedHighest rrLsr rrDlsr)[12]? =
      some (UInt8.ofNat fractionLost) := by
  simp [receiverReport, beBytes]

theorem ReportInv.report (h : ReportInv w) {ssrc : Nat} {rtpQueue : ReceiveNackBuffer}
    {systime : Nat} {ntp : Ntp} {now : Nat}
    (htame : ReportEvent.Tame w (.report ssrc rtpQueue systime ntp now)) :
    TellsFraction w (.report ssrc rtpQueue systime ntp now) ∧
      ReportInv (w.next (.report ssrc rtpQueue systime ntp now)) := by
  obtain ⟨hlost, hlo, hhi, htells⟩ := htame
  obtain ⟨lastLost, hle, hsmall, hfraction⟩ := h.fraction hlost hlo hhi htells
  constructor
  · unfold TellsFraction sendRtcpRr
    rw [if_neg Bool.false_ne_true, hfraction]
    exact ⟨_, rfl, receiverReport_fraction _ _ _ _ _ _⟩
  · have hnext : (w.next (.report ssrc rtpQueue systime ntp now)).stats =
        (statsGetFractionLost w.stats).2 := rfl
    rw [hfraction] at hnext
    exact {
      lastExpected := by
        rw [hnext]
        rfl
      lost := by
        rw [hnext]
        exact hle
      lastLost := by
        rw [hnext]
        exact hsmall }

end Report

/-- **The fraction lost.** In every run whose counts do not overflow and whose reports come where no
packets were lost or where the low byte fits, each report tells the fraction lost since the one
before. -/
theorem tells_fraction {es : List ReportEvent}
    (h : Run.Throughout ReportStep (fun w e => e.Tame w) es {}) :
    Run.Throughout ReportStep TellsFraction es {} := by
  refine Run.throughout_imp ReportInv ?_ ?_ ⟨rfl, Nat.le_refl 0, by decide⟩ h
  · intro w e hw he
    cases e with
    | packet => trivial
    | report => exact (hw.report he).1
  · rintro w e _ hw he rfl
    cases e with
    | packet => exact ⟨hw.lastExpected, hw.lost, hw.lastLost⟩
    | report => exact (hw.report he).2

def ReportEvent.number (x : Int) : ReportEvent := .packet (onlyNumber x).pkt

/-- A report at the time the session starts. -/
def ReportEvent.atStart : ReportEvent := .report 1 { capacity := 0 } 0 {} 0

/-- Of 769 packets two have come. -/
theorem tells_fraction_two : Run.Throughout ReportStep TellsFraction
    [.number 1, .number 769, .atStart] {} := by
  refine tells_fraction ⟨trivial, fun v hv => ?_⟩
  rw [hv]
  refine ⟨trivial, fun u hu => ?_⟩
  rw [hu]
  refine ⟨?_, fun _ _ => trivial⟩
  unfold ReportEvent.atStart ReportEvent.Tame
  decide

/-- Of three packets one is lost, which is told as 4 parts of 256. -/
theorem third_lost : ¬ ∀ es : List ReportEvent, Run.Throughout ReportStep TellsFraction es {} := by
  intro h
  have hrun := h [.number 1, .number 3, .atStart]
  obtain ⟨bytes, hbytes, htells⟩ := ((hrun.2 _ rfl).2 _ rfl).1
  have hfour : (sendRtcpRr false 1 { capacity := 0 } 0 {} 0 (((({} : ReportWorld).next
      (.number 1)).next (.number 3)).stats)).1.bind (·[12]?) = some 4 := by
    decide
  rw [hbytes, Option.bind_some, htells] at hfour
  exact absurd hfour (by decide)

end MetaRtc
