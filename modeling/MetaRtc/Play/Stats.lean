import MetaRtc.Lib.Run
import MetaRtc.Play.Stream
import MetaRtc.Serial

/-! # What is counted of a remote stream

Only the 16 bits of each number come, and the numbers lost are what the span of those received
is more than their count. -/
namespace MetaRtc

/-- The numbers received of a stream, as ones that do not wrap. -/
structure Received where
  first : Int
  low : Int
  high : Int
  count : Nat

def Received.next : Option Received → Int → Received
  | none, x => ⟨x, x, x, 1⟩
  | some r, x => ⟨r.first, min r.low x, max r.high x, r.count + 1⟩

/-- Each number comes from less than half the cycle of 16 bits around the highest so far. -/
def Near (received : Option Received) (x : Int) : Prop :=
  ∀ r, received = some r → r.high - 32768 < x ∧ x < r.high + 32768

/-- A number is taken for one of the next cycle. -/
def TurnsCycle (stats : RecvRtpStats) (seq : Nat) : Prop :=
  stats.lastSn > 0xFF00 ∧ seq < 0xFF ∧
    (stats.cycleCount = 0 ∨ stats.rtpPacketCount - stats.lastRtpPcackCount > 0x1FFF)

instance (stats : RecvRtpStats) (seq : Nat) : Decidable (TurnsCycle stats seq) :=
  inferInstanceAs (Decidable (_ ∧ _ ∧ _))

/-- The sum is one of 32 bits with a sign. -/
def statsExpected (stats : RecvRtpStats) : Int :=
  Int.bmod (stats.cycleCount * 65536 + stats.maxSn - stats.startSn + 1) (2 ^ 32)

def statsGetLostCount (stats : RecvRtpStats) : Nat :=
  (statsExpected stats - stats.rtpPacketCount).toNat

/-- A packet with the number it has in its stream. -/
structure Numbered where
  number : Int
  pkt : RtpPacket
  sequence : pkt.header.sequence = wrap number

structure StatsWorld where
  stats : RecvRtpStats := {}
  received : Option Received := none

def StatsWorld.next (w : StatsWorld) (arrival : Numbered) : StatsWorld where
  stats := statsOnPlayVideoRtp w.stats arrival.pkt
  received := some (Received.next w.received arrival.number)

def StatsStep (w : StatsWorld) (arrival : Numbered) (w' : StatsWorld) : Prop :=
  Near w.received arrival.number ∧ w' = w.next arrival

def LostCounted (w : StatsWorld) : Prop :=
  ∀ r, w.received = some r → statsGetLostCount w.stats = (r.high - r.low + 1 - r.count).toNat

/-- A number is of the cycle of the highest so far, or of the next and taken for one, and there are
not too many cycles. -/
def InCycle (w : StatsWorld) (arrival : Numbered) : Prop :=
  let x := arrival.number
  ∀ r, w.received = some r →
    (x / 65536 = r.high / 65536 ∨
      x / 65536 = r.high / 65536 + 1 ∧ TurnsCycle w.stats (wrap x)) ∧
    x / 65536 < r.low / 65536 + 2 ^ 15 ∧ x - r.low + 1 < 2 ^ 31

/-- The cycles are those from the lowest number to the highest, and the number that came last is of
the highest's. -/
structure StatsInv (stats : RecvRtpStats) (r : Received) : Prop where
  order : r.low ≤ r.high
  cycles : r.high / 65536 < r.low / 65536 + 2 ^ 15
  span : r.high - r.low + 1 < 2 ^ 31
  startSn : stats.startSn = wrap r.low
  maxSn : stats.maxSn = wrap r.high
  cycleCount : (stats.cycleCount : Int) = r.high / 65536 - r.low / 65536
  last : ∃ last, stats.lastSn = wrap last ∧ last ≤ r.high ∧ last / 65536 = r.high / 65536
  rtpPacketCount : stats.rtpPacketCount = r.count
  count : 0 < r.count

theorem StatsInv.lost {stats : RecvRtpStats} {r : Received} (h : StatsInv stats r) :
    statsGetLostCount stats = (r.high - r.low + 1 - r.count).toNat := by
  obtain ⟨horder, hcycles, hspan, hstart, hmax, hcount, -, hpackets, -⟩ := h
  have hsum : (stats.cycleCount * 65536 + stats.maxSn - stats.startSn + 1 : Int) =
      r.high - r.low + 1 := by
    rw [hcount, hmax, hstart]
    unfold wrap
    omega
  have hexpected : statsExpected stats = r.high - r.low + 1 := by
    unfold statsExpected
    rw [hsum]
    exact Int.bmod_eq_of_le (by omega) (by omega)
  rw [statsGetLostCount, hexpected, hpackets]

theorem StatsInv.first (arrival : Numbered) : StatsInv (statsOnPlayVideoRtp {} arrival.pkt)
    ⟨arrival.number, arrival.number, arrival.number, 1⟩ := by
  obtain ⟨x, pkt, hseq⟩ := arrival
  have hmax : (if wrap x > 0 then { maxSn := wrap x } else {} : RecvRtpStats) =
      { maxSn := wrap x } := by
    split
    · rfl
    · rename_i hzero
      rw [Nat.eq_zero_of_not_pos hzero]
  have hnext : statsOnPlayVideoRtp {} pkt =
      { maxSn := wrap x, startSn := wrap x, lastSn := wrap x, rtpPacketCount := 1 } := by
    have hturn : ¬ TurnsCycle {} (wrap x) := fun h => absurd h.1 (by decide)
    unfold statsOnPlayVideoRtp statsOnPlayRtp
    dsimp only
    rw [hseq, if_neg (show ¬ (_ ∧ _ ∧ _) from hturn), hmax]
    rfl
  rw [hnext]
  exact {
    order := Int.le_refl x
    cycles := by
      show x / 65536 < x / 65536 + 2 ^ 15
      omega
    span := by
      show x - x + 1 < 2 ^ 31
      omega
    startSn := rfl
    maxSn := rfl
    cycleCount := by simp
    last := ⟨x, rfl, Int.le_refl x, rfl⟩
    rtpPacketCount := rfl
    count := Nat.one_pos }

section Next

variable {stats : RecvRtpStats} {r : Received} {x : Int} {pkt : RtpPacket}

/-- A number of the highest's cycle. -/
theorem StatsInv.same (h : StatsInv stats r) (hseq : pkt.header.sequence = wrap x) (hnear : r.high - 32768 < x)
    (hcycle : x / 65536 = r.high / 65536) (hshort : x - r.low + 1 < 2 ^ 31) :
    StatsInv (statsOnPlayVideoRtp stats pkt) (Received.next (some r) x) := by
  obtain ⟨horder, hcycles, hspan, hstart, hmax, hcount, ⟨last, hlast, hle, hsame⟩, hpackets, hpos⟩ := h
  have hturn : ¬ TurnsCycle stats (wrap x) := by
    rintro ⟨hbig, hsmall, -⟩
    rw [hlast] at hbig
    unfold wrap at hbig hsmall
    omega
  have hgreater : wrap x > wrap r.high ↔ r.high < x := by
    unfold wrap
    omega
  have hhigh : (if wrap x > stats.maxSn then { stats with maxSn := wrap x } else stats) =
      { stats with maxSn := wrap (max r.high x) } := by
    rw [hmax]
    split
    · rw [Int.max_eq_right (by omega)]
    · rw [Int.max_eq_left (by omega), ← hmax]
  have hlow : (if stats.cycleCount = 0 ∧ wrap x < stats.startSn then wrap x else stats.startSn) =
      wrap (min r.low x) := by
    rw [hstart]
    split
    · rename_i hbefore
      obtain ⟨hzero, hless⟩ := hbefore
      unfold wrap at hless
      rw [Int.min_eq_right (by omega)]
    · rename_i hbefore
      unfold wrap at hbefore
      rw [Int.min_eq_left (by omega)]
  have hnext : statsOnPlayVideoRtp stats pkt =
      { stats with
        maxSn := wrap (max r.high x)
        startSn := if stats.cycleCount = 0 ∧ wrap x < stats.startSn then wrap x else stats.startSn
        lastSn := wrap x
        rtpPacketCount := stats.rtpPacketCount + 1 } := by
    unfold statsOnPlayVideoRtp statsOnPlayRtp
    dsimp only
    rw [hseq, if_neg (show ¬ (_ ∧ _ ∧ _) from hturn), hhigh]
    dsimp only
    rw [if_neg (by omega)]
    split
    · rfl
    · rfl
  rw [hnext, hlow]
  exact {
    order := by
      show min r.low x ≤ max r.high x
      omega
    cycles := by
      show max r.high x / 65536 < min r.low x / 65536 + 2 ^ 15
      omega
    span := by
      show max r.high x - min r.low x + 1 < 2 ^ 31
      omega
    startSn := rfl
    maxSn := rfl
    cycleCount := by
      show (stats.cycleCount : Int) = max r.high x / 65536 - min r.low x / 65536
      omega
    last := ⟨x, rfl, Int.le_max_right _ _, by
      show x / 65536 = max r.high x / 65536
      omega⟩
    rtpPacketCount := congrArg (· + 1) hpackets
    count := Nat.succ_pos _ }

/-- A number that is taken for the first of the next cycle. -/
theorem StatsInv.turn (h : StatsInv stats r) (hseq : pkt.header.sequence = wrap x)
    (hcycle : x / 65536 = r.high / 65536 + 1) (hturn : TurnsCycle stats (wrap x)) (hfew : x / 65536 < r.low / 65536 + 2 ^ 15)
    (hshort : x - r.low + 1 < 2 ^ 31) :
    StatsInv (statsOnPlayVideoRtp stats pkt) (Received.next (some r) x) := by
  obtain ⟨horder, hcycles, hspan, hstart, hmax, hcount, -, hpackets, hpos⟩ := h
  have hnext : statsOnPlayVideoRtp stats pkt =
      { stats with
        cycleCount := stats.cycleCount + 1
        lastRtpPcackCount := stats.rtpPacketCount
        maxSn := wrap x
        lastSn := wrap x
        rtpPacketCount := stats.rtpPacketCount + 1 } := by
    unfold statsOnPlayVideoRtp statsOnPlayRtp
    dsimp only
    rw [hseq, if_pos (show _ ∧ _ ∧ _ from hturn)]
    dsimp only
    rw [if_neg (by omega), if_neg (by omega), Nat.mod_eq_of_lt (by omega)]
  have hhigh : max r.high x = x := by omega
  have hlow : min r.low x = r.low := by omega
  rw [hnext, Received.next, hhigh, hlow]
  exact {
    order := by
      show r.low ≤ x
      omega
    cycles := hfew
    span := hshort
    startSn := hstart
    maxSn := rfl
    cycleCount := by
      show ((stats.cycleCount + 1 : Nat) : Int) = x / 65536 - r.low / 65536
      omega
    last := ⟨x, rfl, Int.le_refl x, rfl⟩
    rtpPacketCount := congrArg (· + 1) hpackets
    count := Nat.succ_pos _ }

end Next

/-- Nothing has come, or all is counted. -/
def StatsWorld.Sound (w : StatsWorld) : Prop :=
  match w.received with
  | none => w.stats = {}
  | some r => StatsInv w.stats r

theorem StatsWorld.Sound.next {w : StatsWorld} {arrival : Numbered} (hw : w.Sound)
    (hnear : Near w.received arrival.number) (h : InCycle w arrival) : (w.next arrival).Sound := by
  obtain ⟨stats, received⟩ := w
  cases received with
  | none =>
    obtain rfl : stats = {} := hw
    exact .first arrival
  | some r =>
    have hinv : StatsInv stats r := hw
    obtain ⟨hcycle, hfew, hshort⟩ := h r rfl
    rcases hcycle with hsame | ⟨hnext, hturn⟩
    · exact hinv.same arrival.sequence (hnear r rfl).1 hsame hshort
    · exact hinv.turn arrival.sequence hnext hturn hfew hshort

/-- A packet of nothing but a number. -/
def onlyNumber (number : Int) : Numbered where
  number
  pkt := { header := { sequence := wrap number } }
  sequence := rfl

end MetaRtc
