import MetaRtc.Lib.Run
import MetaRtc.Play.Twcc
import MetaRtc.Rtcp.Feedback
import MetaRtc.Sorted

/-! # What feedback has reported along a run

As with the numbers waited for, the history is kept in numbers that do not wrap. -/
namespace MetaRtc

/-- `reported` has the numbers of each message that was sent, as the message says them. -/
structure TwccHistory where
  high : Int := 0
  arrived : List Int := []
  reported : List (List Int) := []

structure TwccWorld where
  twcc : RecvTwccFeedback := {}
  twccFbCount : Nat := 0
  history : TwccHistory := {}

namespace TwccWorld

def number (w : TwccWorld) (sn : Nat) : Int := nearest w.history.high sn

/-- The receive list. -/
def listed (w : TwccWorld) : List Int := w.twcc.sns.list.map w.number

end TwccWorld

/-- A packet arrives, or feedback is sent. -/
inductive TwccEvent where
  | onTwcc (microTime : Int) (sn : UInt16)
  | sendPeriodicTwcc (chunk : RtcpTWCCChunk) (sendErr : Err)

def TwccWorld.next (w : TwccWorld) : TwccEvent → TwccWorld
  | .onTwcc microTime sn =>
    let x := w.number sn.toNat
    { w with
      twcc := rtcplayOnTwcc microTime w.twcc sn.toNat
      history := { w.history with
        high := if w.history.arrived = [] then x else max w.history.high x
        arrived := x :: w.history.arrived } }
  | .sendPeriodicTwcc chunk sendErr =>
    let (twcc, twccFbCount, msg) := rtcplaySendPeriodicTwcc chunk sendErr w.twcc w.twccFbCount
    { twcc
      twccFbCount
      history := { w.history with
        reported := w.history.reported ++
          msg.toList.map fun msg => (feedbackNumbers msg).map w.number } }

def TwccStep (w : TwccWorld) (e : TwccEvent) (w' : TwccWorld) : Prop := w' = w.next e

/-- Every number that arrived has been reported or is still in the list, and none was
reported twice. -/
structure ReportedOnce (w : TwccWorld) : Prop where
  once : w.history.reported.flatten.Nodup
  kept : ∀ x ∈ w.history.arrived, x ∈ w.history.reported.flatten ∨ x ∈ w.listed

/-- What a report has taken is still in the list, until the next number arrives. -/
def CutDue (twcc : RecvTwccFeedback) : Prop :=
  twcc.isSendtwcc = false ∧ twcc.newSnsIndex > 0 ∧ twcc.newSnsIndex < twcc.sns.vsize

instance (twcc : RecvTwccFeedback) : Decidable (CutDue twcc) := by
  unfold CutDue
  exact inferInstance

/-- An arriving number was not reported before, and is less than half the cycle away from
each of the list. A message is sent once new numbers have arrived, with the chunk on the
stack as if reset, and takes all of the list, in which no numbers are missing where it
wraps. It gets through, unless it has one number only: then it does not. -/
def TwccEvent.Orderly (w : TwccWorld) : TwccEvent → Prop
  | .onTwcc _ sn =>
    let x := w.number sn.toNat
    x ∉ w.history.reported.flatten ∧
      (CutDue w.twcc ∨ ∀ y ∈ w.listed, x - 32768 < y ∧ y < x + 32768)
  | .sendPeriodicTwcc chunk sendErr =>
    w.twcc.sns.vsize = 0 ∨
      ¬ CutDue w.twcc ∧ chunk.Unfilled ∧ NoWrapGap w.twcc.sns.list ∧
      TakesAll kRtpPacketSize 0 w.twcc.sns.list
        (twccEncodeStart chunk (twccSending w.twcc w.twccFbCount)) ∧
      (w.twcc.sns.vsize = 1 ∧ sendErr ≠ yangOk ∨ 1 < w.twcc.sns.vsize ∧ sendErr = yangOk)

/-- The list, as numbers that do not wrap, and what of it has been reported: all of it where
a report is still to be cut, and else nothing. -/
structure TwccInv (w : TwccWorld) (xs : List Int) : Prop where
  list : w.twcc.sns.list = xs.map wrap
  sorted : xs.Pairwise (· < ·)
  window : ∀ x ∈ xs, w.history.high - 32768 ≤ x ∧ x ≤ w.history.high
  near : ∀ x ∈ xs, ∀ y ∈ xs, y < x + 32768
  idle : w.twcc.isSendtwcc = false ∧ w.twcc.encodedChucks = [] ∧ w.twcc.nextBaseSn = 0
  index : w.twcc.newSnsIndex = 0 ∨ w.twcc.newSnsIndex + 1 = w.twcc.sns.vsize
  fresh : ¬ CutDue w.twcc → ∀ x ∈ xs, x ∉ w.history.reported.flatten
  taken : CutDue w.twcc → ∀ x ∈ xs, x ∈ w.history.reported.flatten
  once : w.history.reported.flatten.Nodup
  kept : ∀ x ∈ w.history.arrived, x ∈ w.history.reported.flatten ∨ x ∈ xs
  started : w.history.arrived = [] → xs = []

theorem TwccInv.size {w : TwccWorld} {xs : List Int} (hw : TwccInv w xs) :
    w.twcc.sns.vsize = xs.length := by
  simpa [Uint16Sort.list] using congrArg List.length hw.list

theorem TwccInv.number_wrap {w : TwccWorld} {xs : List Int} (hw : TwccInv w xs) {x : Int}
    (hx : x ∈ xs) : w.number (wrap x) = x := by
  obtain ⟨hlo, hhi⟩ := hw.window x hx
  exact nearest_wrap hlo (by omega)

theorem TwccInv.listed_eq {w : TwccWorld} {xs : List Int} (hw : TwccInv w xs) : w.listed = xs := by
  unfold TwccWorld.listed
  rw [hw.list, List.map_map]
  exact (List.map_congr_left fun x hx => hw.number_wrap hx).trans (List.map_id xs)

theorem TwccInv.reportedOnce {w : TwccWorld} {xs : List Int} (hw : TwccInv w xs) :
    ReportedOnce w :=
  ⟨hw.once, by rw [hw.listed_eq]; exact hw.kept⟩

/-- What is left of the list when the next number arrives. -/
theorem TwccInv.cut {w : TwccWorld} {xs : List Int} (hw : TwccInv w xs) :
    (rtcplayCutReported w.twcc).sns.list = (if CutDue w.twcc then [] else xs.map wrap) ∧
      (rtcplayCutReported w.twcc).newSnsIndex =
        (if CutDue w.twcc then 0 else w.twcc.newSnsIndex) := by
  have hindex := hw.index
  by_cases hcut : CutDue w.twcc
  · have hcut' := hcut
    unfold CutDue at hcut'
    unfold rtcplayCutReported
    rw [if_pos hcut, if_pos hcut, if_pos hcut', if_pos (by omega)]
    exact ⟨rfl, rfl⟩
  · have hcut' := hcut
    unfold CutDue at hcut'
    unfold rtcplayCutReported
    rw [if_neg hcut, if_neg hcut, if_neg hcut']
    exact ⟨hw.list, rfl⟩

theorem cutReported_idle (twcc : RecvTwccFeedback) :
    (rtcplayCutReported twcc).isSendtwcc = twcc.isSendtwcc ∧
      (rtcplayCutReported twcc).encodedChucks = twcc.encodedChucks ∧
      (rtcplayCutReported twcc).nextBaseSn = twcc.nextBaseSn := by
  unfold rtcplayCutReported
  split
  · split <;> exact ⟨rfl, rfl, rfl⟩
  · exact ⟨rfl, rfl, rfl⟩

/-- A number arrives. -/
theorem TwccInv.onTwcc {w : TwccWorld} {xs : List Int} (hw : TwccInv w xs) (microTime : Int)
    (sn : UInt16) (h : (TwccEvent.onTwcc microTime sn).Orderly w) :
    ∃ ys, TwccInv (w.next (.onTwcc microTime sn)) ys := by
  obtain ⟨hnew, hnear⟩ := h
  generalize hx : w.number sn.toNat = x at hnew hnear
  have hsn : wrap x = sn.toNat := by
    rw [← hx]
    exact wrap_nearest _ sn.toNat_lt
  have hlo : w.history.high - 32768 ≤ x := by
    rw [← hx]
    exact nearest_lo _ _
  let left := if CutDue w.twcc then [] else xs
  have hleft : ∀ y ∈ left, y ∈ xs ∧ ¬ CutDue w.twcc := by
    intro y hy
    by_cases hcut : CutDue w.twcc
    · simp [left, hcut] at hy
    · simpa [left, hcut] using hy
  have hindex : (rtcplayCutReported w.twcc).newSnsIndex = 0 := by
    rw [hw.cut.2]
    split
    · rfl
    · rename_i hcut
      have hi := hw.index
      have := hw.idle.1
      unfold CutDue at hcut
      by_contra hpos
      exact hcut ⟨this, by omega, by omega⟩
  have hlist : (rtcplayCutReported w.twcc).sns.list = left.map wrap := by
    rw [hw.cut.1]
    split <;> simp_all [left]
  have hnear' : ∀ y ∈ left, x - 32768 < y ∧ y < x + 32768 := by
    intro y hy
    obtain ⟨hy, hcut⟩ := hleft y hy
    rw [hw.listed_eq] at hnear
    exact hnear.resolve_left hcut y hy
  have hsorted : left.Pairwise (· < ·) := by
    by_cases hcut : CutDue w.twcc
    · simp [left, hcut]
    · simpa [left, hcut] using hw.sorted
  obtain ⟨ys, hys, hysorted, hmem⟩ := insertVec_sorted hlist hsorted hnear'
  rw [hsn] at hys
  have hstarted : w.history.arrived = [] → left = [] := by
    intro hnil
    simp [left, hw.started hnil]
  have huncut : ¬ CutDue (w.next (.onTwcc microTime sn)).twcc := by
    rintro ⟨-, hpos, -⟩
    exact absurd hindex (Nat.ne_of_gt hpos)
  have hhigh : (w.next (.onTwcc microTime sn)).history.high =
      if w.history.arrived = [] then x else max w.history.high x := by
    rw [← hx]
    rfl
  refine ⟨ys, ?_⟩
  constructor
  · exact hys
  · exact hysorted
  · intro y hy
    rw [hhigh]
    rcases (hmem y).mp hy with rfl | hy
    · split <;> omega
    · rw [if_neg fun hnil => by simp [hstarted hnil] at hy]
      have := hw.window y (hleft y hy).1
      have := hnear' y hy
      omega
  · intro y hy z hz
    rcases (hmem y).mp hy with rfl | hy
    · rcases (hmem z).mp hz with rfl | hz
      · omega
      · have := hnear' z hz
        omega
    · rcases (hmem z).mp hz with rfl | hz
      · have := hnear' y hy
        omega
      · exact hw.near y (hleft y hy).1 z (hleft z hz).1
  · obtain ⟨h1, h2, h3⟩ := cutReported_idle w.twcc
    exact ⟨h1.trans hw.idle.1, h2.trans hw.idle.2.1, h3.trans hw.idle.2.2⟩
  · exact .inl hindex
  · intro _ y hy
    rcases (hmem y).mp hy with rfl | hy
    · exact hnew
    · exact hw.fresh (hleft y hy).2 y (hleft y hy).1
  · exact fun hcut => absurd hcut huncut
  · exact hw.once
  · intro z hz
    have hz : z = x ∨ z ∈ w.history.arrived := by
      rw [← hx]
      exact List.mem_cons.mp hz
    rw [hmem]
    rcases hz with rfl | hz
    · exact .inr (.inl rfl)
    · by_cases hcut : CutDue w.twcc
      · refine .inl ?_
        rcases hw.kept z hz with h | h
        · exact h
        · exact hw.taken hcut z h
      · rcases hw.kept z hz with h | h
        · exact .inl h
        · exact .inr (.inr (by simpa [left, hcut] using h))
  · intro hnil
    cases hnil

theorem gap_wrap {a b : Int} (hlo : a < b) (hhi : b < a + 65536) :
    (twccGap (wrap a) (wrap b) : Int) + 1 ≤ b - a := by
  unfold twccGap wrap
  split <;> omega

theorem symbolCount_wrap {a b : Int} {xs : List Int} (hsorted : xs.Pairwise (· < ·))
    (hin : ∀ y ∈ xs, a < y ∧ y ≤ b) (hab : a ≤ b) (hcycle : b < a + 65536) :
    (symbolCount (wrap a) (xs.map wrap) : Int) ≤ b - a := by
  induction xs generalizing a with
  | nil => simpa [symbolCount] using hab
  | cons y xs ih =>
    obtain ⟨hy1, hy2⟩ := hin y List.mem_cons_self
    obtain ⟨hlt, hsorted⟩ := List.pairwise_cons.mp hsorted
    have hgap := gap_wrap hy1 (by omega)
    have hrest := ih hsorted (fun z hz => ⟨hlt z hz, (hin z (List.mem_cons_of_mem _ hz)).2⟩) hy2
      (by omega)
    simp only [List.map_cons, symbolCount]
    push_cast
    omega

/-- The symbols of a message are fewer than the half of the cycle. -/
theorem TwccInv.symbolCount_lt {w : TwccWorld} {xs : List Int} (hw : TwccInv w xs) :
    symbolCount (w.twcc.sns.payload 0) w.twcc.sns.list < 65536 := by
  cases xs with
  | nil =>
    rw [hw.list]
    exact Nat.zero_lt_succ _
  | cons x xs =>
    have hfirst : w.twcc.sns.payload 0 = wrap x := by
      have hsize := hw.size
      have := List.getElem_of_eq hw.list (i := 0) (by simp [Uint16Sort.list, hsize])
      simpa [Uint16Sort.list] using this
    obtain ⟨hlt, hsorted⟩ := List.pairwise_cons.mp hw.sorted
    have hrest := symbolCount_wrap (a := x) (b := x + 32767) hsorted (fun y hy => by
      have := hw.near x List.mem_cons_self y (List.mem_cons_of_mem _ hy)
      have := hlt y hy
      omega) (by omega) (by omega)
    have hgap : twccGap (wrap x) (wrap x) = 0 := by simp [twccGap]
    rw [hfirst, hw.list, List.map_cons, symbolCount, hgap]
    omega

/-- A message that takes the whole list, of a list that nothing has been reported of. -/
theorem TwccInv.sendPeriodicTwcc {w : TwccWorld} {xs : List Int} (hw : TwccInv w xs)
    (chunk : RtcpTWCCChunk) (sendErr : Err)
    (h : (TwccEvent.sendPeriodicTwcc chunk sendErr).Orderly w) :
    TwccInv (w.next (.sendPeriodicTwcc chunk sendErr)) xs := by
  by_cases hempty : w.twcc.sns.vsize = 0
  · have hsame : w.next (.sendPeriodicTwcc chunk sendErr) = w := by
      simp [TwccWorld.next, rtcplaySendPeriodicTwcc, hempty]
    rwa [hsame]
  · obtain ⟨huncut, hchunk, hgap, hall, hsent⟩ := h.resolve_left hempty
    have hlt : ∀ x ∈ w.twcc.sns.list, x < 65536 := by
      rw [hw.list]
      simp [wrap_lt]
    obtain ⟨twcc', buf', henc, hnumbers, hindex, hchucks, hbase, hsns, -⟩ :=
      recvEncode_reports (twccSending w.twcc w.twccFbCount) hchunk hw.idle.2.1 hw.idle.2.2 hempty
        hlt hgap hw.symbolCount_lt hall
    have hnext : w.next (.sendPeriodicTwcc chunk sendErr) =
        { twcc := { twcc' with isSendtwcc := false }
          twccFbCount := (w.twccFbCount + 1) % 256
          history := { w.history with
            reported := w.history.reported ++ if sendErr = yangOk then [xs] else [] } } := by
      have hreport : (feedbackNumbers buf'.bytes).map w.number = xs := by
        rw [hnumbers]
        exact hw.listed_eq
      simp only [TwccWorld.next, rtcplaySendPeriodicTwcc, hempty, sendRtcpFbTwcc, henc, if_false,
        ne_eq, not_true_eq_false]
      split <;> simp [hreport]
    have hsize : twcc'.sns.vsize = w.twcc.sns.vsize := by
      rw [hsns]
      rfl
    have hvsize : (twccSending w.twcc w.twccFbCount).sns.vsize = w.twcc.sns.vsize := rfl
    have hlist : twcc'.sns.list = xs.map wrap := by
      rw [hsns]
      exact hw.list
    rw [hnext]
    have hfresh := hw.fresh huncut
    rcases hsent with ⟨hone, herr⟩ | ⟨hmany, rfl⟩
    · rw [if_neg herr, List.append_nil]
      have hstill : ¬ CutDue { twcc' with isSendtwcc := false } := by
        rintro ⟨-, hpos, -⟩
        dsimp only at hpos
        omega
      exact ⟨hlist, hw.sorted, hw.window, hw.near, ⟨rfl, hchucks, hbase⟩,
        .inl (by dsimp only; omega), fun _ => hfresh, fun hcut => absurd hcut hstill, hw.once,
        hw.kept, hw.started⟩
    · rw [if_pos rfl]
      have hdue : CutDue { twcc' with isSendtwcc := false } := by
        refine ⟨rfl, ?_, ?_⟩ <;> dsimp only <;> omega
      have hflat : (w.history.reported ++ [xs]).flatten = w.history.reported.flatten ++ xs := by
        simp
      have hnodup : xs.Nodup := hw.sorted.imp fun h => by omega
      constructor
      · exact hlist
      · exact hw.sorted
      · exact hw.window
      · exact hw.near
      · exact ⟨rfl, hchucks, hbase⟩
      · exact .inr (by dsimp only; omega)
      · exact fun hcut => absurd hdue hcut
      · intro _ x hx
        rw [hflat]
        exact List.mem_append_right _ hx
      · rw [hflat, List.nodup_append]
        exact ⟨hw.once, hnodup, fun a ha b hb hab => hfresh b hb (hab ▸ ha)⟩
      · intro x hx
        rw [hflat, List.mem_append]
        exact .inl ((hw.kept x hx).elim .inl .inr)
      · exact hw.started

/-- A play stream before any packet. -/
def TwccWorld.start (ssrc mediaSsrc : Nat) : TwccWorld := { twcc := { ssrc, mediaSsrc } }

theorem TwccInv.start (ssrc mediaSsrc : Nat) : TwccInv (.start ssrc mediaSsrc) [] := by
  constructor <;> simp [TwccWorld.start, Uint16Sort.list]

/-- **Feedback.** In every run whose messages each take the whole list, all of it new, and get
through, each number that arrives is reported once or still in the list. -/
theorem reported_once (ssrc mediaSsrc : Nat) {es : List TwccEvent} {w : TwccWorld}
    (hl : Run.Leads TwccStep es (.start ssrc mediaSsrc) w)
    (h : Run.Throughout TwccStep (fun w e => e.Orderly w) es (.start ssrc mediaSsrc)) :
    ReportedOnce w := by
  have hstep : ∀ v e v', (∃ xs, TwccInv v xs) → e.Orderly v → TwccStep v e v' →
      ∃ xs, TwccInv v' xs := by
    rintro v e _ ⟨xs, hv⟩ he rfl
    cases e with
    | onTwcc microTime sn => exact hv.onTwcc microTime sn he
    | sendPeriodicTwcc chunk sendErr => exact ⟨xs, hv.sendPeriodicTwcc chunk sendErr he⟩
  obtain ⟨xs, hw⟩ := Run.leads_invariant _ hstep hl ⟨[], .start ssrc mediaSsrc⟩ h
  exact hw.reportedOnce

/-- The chunk on the stack as the code means it to be. -/
def unfilledChunk : RtcpTWCCChunk := ⟨fun _ => 0, 0, true, false⟩

/-- Two packets are reported, and a third is not yet. -/
theorem reported_once_two :
    ReportedOnce ((((((TwccWorld.start 1 2).next (.onTwcc 1000000 65535)).next
      (.onTwcc 1000500 0)).next (.sendPeriodicTwcc unfilledChunk 0)).next (.onTwcc 1300000 3))) ∧
    ((((TwccWorld.start 1 2).next (.onTwcc 1000000 65535)).next (.onTwcc 1000500 0)).next
      (.sendPeriodicTwcc unfilledChunk 0)).history.reported = [[-1, 0]] := by
  have hl : Run.Leads TwccStep [.onTwcc 1000000 65535, .onTwcc 1000500 0,
      .sendPeriodicTwcc unfilledChunk 0, .onTwcc 1300000 3] (.start 1 2) _ :=
    .cons rfl (.cons rfl (.cons rfl (.cons rfl (.nil _))))
  refine ⟨reported_once 1 2 hl ?_, by decide⟩
  refine Run.throughout_cons (fun _ h => h) ?_ (Run.throughout_cons (fun _ h => h) ?_
    (Run.throughout_cons (fun _ h => h) ?_ (Run.throughout_cons (fun _ h => h) ?_ trivial))) <;>
  · unfold TwccEvent.Orderly NoWrapGap
    decide

/-- A packet that is reported alone is reported again with the next one. Packets whose report
does not get through are cut from the list by the next one all the same. -/
theorem reported_again_and_lost :
    ¬ ReportedOnce (((((TwccWorld.start 1 2).next (.onTwcc 1000000 1)).next
      (.sendPeriodicTwcc unfilledChunk 0)).next (.onTwcc 1000500 2)).next
        (.sendPeriodicTwcc unfilledChunk 0)) ∧
    ¬ ReportedOnce (((((TwccWorld.start 1 2).next (.onTwcc 1000000 1)).next
      (.onTwcc 1000500 2)).next (.sendPeriodicTwcc unfilledChunk (-1))).next
        (.onTwcc 1300000 3)) := by
  constructor
  · intro h
    exact absurd h.once (by decide)
  · intro h
    exact absurd (h.kept 1 (by decide)) (by decide)

end MetaRtc
