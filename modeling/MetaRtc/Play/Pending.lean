import MetaRtc.Lib.Run
import MetaRtc.Play.RecvNack
import MetaRtc.Serial

/-! # The numbers waited for along a run

A number of 16 bits comes round again, so the history of a track is kept in numbers that
do not: an arriving one stands for the number nearest to the newest so far. -/
namespace MetaRtc

/-- `high` follows the newest number received. `gaps` lists what arrivals have passed over,
`gone` what has met a limit or was flushed. None of it is looked at by the code. -/
structure NackHistory where
  high : Int := 0
  received : List Int := []
  gaps : List Int := []
  gone : List Int := []

def NackHistory.number (h : NackHistory) (sn : Nat) : Int := nearest h.high sn

structure NackWorld where
  recvnack : RtpRecvNack
  history : NackHistory := {}

def NackWorld.pending (w : NackWorld) : List Int :=
  w.recvnack.queue.sns.map w.history.number

/-- The numbers from one up to another, which is left out. -/
def numbersBetween (lo hi : Int) : List Int := (List.range (hi - lo).toNat).map fun i : Nat => lo + i

def expiredNumbers (h : NackHistory) (now : Int) (r : RtpRecvNack) : List Int :=
  (r.queue.entries.filter fun info => Expired r.opts now info).map fun info => h.number info.sn

/-- The arrival of a number that was not waited for. A full list is flushed, which the
track is left uninitialised by. -/
def NackHistory.enter (h : NackHistory) (before after : RtpRecvNack) (seq : Nat) : NackHistory :=
  let x := h.number seq
  let gap := if before.rtp.contexttialized = true then numbersBetween h.high x else []
  { high := if h.received = [] then x + 1 else max h.high (x + 1)
    received := x :: h.received
    gaps := h.gaps ++ gap
    gone := if after.rtp.contexttialized = true then h.gone
      else h.gone ++ before.queue.sns.map h.number ++ gap }

/-- `setNackInterval` is for a new round-trip time, out of which the interval is computed
with floating-point numbers. -/
inductive NackEvent where
  | arrive (clock : Nat → Int) (now : Int) (ssrc : Nat) (seq : UInt16)
  | sweep (now : Int) (ssrc : Nat)
  | setNackInterval (interval : Int)

def NackWorld.next (w : NackWorld) : NackEvent → NackWorld
  | .arrive clock now ssrc seq =>
    let h := w.history
    let recvnack := (playtrackOnNack clock now ssrc w.recvnack seq.toNat).1
    if seq.toNat ∈ w.recvnack.queue.sns then
      { recvnack, history := { h with received := h.number seq.toNat :: h.received } }
    else
      let entered := onNackEnter clock w.recvnack seq.toNat
      let h := h.enter w.recvnack entered seq.toNat
      { recvnack, history := { h with gone := h.gone ++ expiredNumbers h now entered } }
  | .sweep now ssrc =>
    let h := w.history
    { recvnack := (checkSendNacks now ssrc w.recvnack).1
      history := { h with gone := h.gone ++ expiredNumbers h now w.recvnack } }
  | .setNackInterval nackInterval =>
    { w with recvnack := { w.recvnack with opts := { w.recvnack.opts with nackInterval } } }

def NackStep (w : NackWorld) (e : NackEvent) (w' : NackWorld) : Prop := w' = w.next e

/-- What is waited for was never received, and what was passed over is waited for until it
is received or given up. -/
structure NackSound (w : NackWorld) : Prop where
  nodup : w.recvnack.queue.sns.Nodup
  fresh : ∀ x ∈ w.pending, x ∉ w.history.received
  kept : ∀ x ∈ w.history.gaps, x ∈ w.history.received ∨ x ∈ w.history.gone ∨ x ∈ w.pending

/-- No number that is not waited for comes from before the beginning of the window, or,
while there is no window, from before the newest received; and none is waited for any more
by the time one comes that is half the cycle ahead of it. -/
def NackEvent.Orderly (w : NackWorld) : NackEvent → Prop
  | .arrive _ _ _ seq =>
    let x := w.history.number seq.toNat
    seq.toNat ∈ w.recvnack.queue.sns ∨
      (w.recvnack.rtp.contexttialized = false → ∀ y ∈ w.history.received, y < x) ∧
      (w.recvnack.rtp.contexttialized = true → x < w.history.high →
        ¬ BeforeBegin w.recvnack.rtp seq.toNat) ∧
      ∀ y ∈ w.pending, x < y + 32768
  | _ => True

/-- The list of the numbers waited for, as ones that do not wrap. -/
structure NackInv (w : NackWorld) (xs : List Int) : Prop where
  sns : w.recvnack.queue.sns = xs.map wrap
  sorted : xs.Pairwise (· < ·)
  window : ∀ x ∈ xs, w.history.high - 32768 ≤ x ∧ x < w.history.high
  fresh : ∀ x ∈ xs, x ∉ w.history.received
  kept : ∀ x ∈ w.history.gaps, x ∈ w.history.received ∨ x ∈ w.history.gone ∨ x ∈ xs
  below : ∀ x ∈ w.history.received, x < w.history.high
  newest : w.history.received ≠ [] → w.history.high - 1 ∈ w.history.received
  started : w.recvnack.rtp.contexttialized = true →
    w.recvnack.rtp.endSn = wrap w.history.high ∧ w.history.received ≠ []
  idle : w.recvnack.rtp.contexttialized = false → xs = []

theorem NackInv.number_wrap {w : NackWorld} {xs : List Int} (hw : NackInv w xs) {x : Int}
    (hx : x ∈ xs) : w.history.number (wrap x) = x := by
  obtain ⟨hlo, hhi⟩ := hw.window x hx
  exact nearest_wrap hlo (by omega)

theorem NackInv.pending_eq {w : NackWorld} {xs : List Int} (hw : NackInv w xs) :
    w.pending = xs := by
  unfold NackWorld.pending
  rw [hw.sns, List.map_map]
  exact (List.map_congr_left fun x hx => hw.number_wrap hx).trans (List.map_id xs)

theorem NackInv.sn_inj {w : NackWorld} {xs : List Int} (hw : NackInv w xs) {x y : Int}
    (hx : x ∈ xs) (hy : y ∈ xs) (h : wrap x = wrap y) : x = y := by
  rw [← hw.number_wrap hx, h, hw.number_wrap hy]

theorem NackInv.sound {w : NackWorld} {xs : List Int} (hw : NackInv w xs) : NackSound w := by
  refine ⟨?_, ?_, ?_⟩
  · rw [hw.sns]
    refine List.Nodup.map_on (fun x hx y hy => hw.sn_inj hx hy) ?_
    exact hw.sorted.imp fun h => by omega
  · rw [hw.pending_eq]
    exact hw.fresh
  · rw [hw.pending_eq]
    exact hw.kept

theorem map_erase_of_inj {f : Int → Nat} {xs : List Int} {a : Int}
    (h : ∀ x ∈ xs, f x = f a → x = a) : (xs.map f).erase (f a) = (xs.erase a).map f := by
  induction xs with
  | nil => rfl
  | cons x xs ih =>
    have ih := ih fun y hy => h y (List.mem_cons_of_mem _ hy)
    by_cases hx : x = a
    · subst hx
      simp
    · have hf : f x ≠ f a := fun hf => hx (h x List.mem_cons_self hf)
      rw [List.map_cons, List.erase_cons_tail (by simpa using hf), ih,
        List.erase_cons_tail (by simpa using hx), List.map_cons]

/-- A number that was waited for arrives. -/
theorem NackInv.receive {w : NackWorld} {xs : List Int} (hw : NackInv w xs) {x : Int}
    (hx : x ∈ xs) : NackInv
      { recvnack := recvnackRemove w.recvnack (wrap x)
        history := { w.history with received := x :: w.history.received } } (xs.erase x) := by
  have hinj : ∀ y ∈ xs, wrap y = wrap x → y = x := fun y hy => hw.sn_inj hy hx
  obtain ⟨hsns, hsorted, hwindow, hfresh, hkept, hbelow, hnewest, hstarted, hidle⟩ := hw
  have hnodup : xs.Nodup := hsorted.imp fun h => by omega
  constructor
  · refine (sns_remove _ _).trans ?_
    rw [hsns]
    exact map_erase_of_inj hinj
  · exact hsorted.sublist List.erase_sublist
  · exact fun y hy => hwindow y (List.mem_of_mem_erase hy)
  · intro y hy
    obtain ⟨hne, hy⟩ := (hnodup.mem_erase_iff).mp hy
    simp [hne, hfresh y hy]
  · intro g hg
    rcases hkept g hg with h | h | h
    · exact .inl (List.mem_cons_of_mem _ h)
    · exact .inr (.inl h)
    · by_cases hgx : g = x
      · exact .inl (hgx ▸ List.mem_cons_self)
      · exact .inr (.inr ((List.mem_erase_of_ne hgx).mpr h))
  · intro y hy
    rcases List.mem_cons.mp hy with rfl | hy
    · exact (hwindow y hx).2
    · exact hbelow y hy
  · intro _
    have hne : w.history.received ≠ [] := by
      cases hctx : w.recvnack.rtp.contexttialized with
      | true => exact (hstarted hctx).2
      | false => simp [hidle hctx] at hx
    exact List.mem_cons_of_mem _ (hnewest hne)
  · exact fun hctx => ⟨(hstarted hctx).1, List.cons_ne_nil _ _⟩
  · intro hctx
    simp [hidle hctx] at hx

/-- A sweep leaves out only numbers that have met a limit. -/
theorem NackInv.swept {w : NackWorld} {xs : List Int} (hw : NackInv w xs) {now : Int}
    {r : RtpRecvNack} (h : Swept now 0 w.recvnack r) : ∃ ys, NackInv
      { recvnack := r
        history := { w.history with
          gone := w.history.gone ++ expiredNumbers w.history now w.recvnack } } ys := by
  have hnumber : ∀ x ∈ xs, w.history.number (wrap x) = x := fun x hx => hw.number_wrap hx
  obtain ⟨hsns, hsorted, hwindow, hfresh, hkept, hbelow, hnewest, hstarted, hidle⟩ := hw
  obtain ⟨hsub, hdropped, hend, hctx⟩ := h
  rw [hsns] at hsub hdropped
  obtain ⟨ys, hys, heq⟩ := List.sublist_map_iff.mp hsub
  refine ⟨ys, ?_⟩
  constructor
  · exact heq
  · exact hsorted.sublist hys
  · exact fun y hy => hwindow y (hys.subset hy)
  · exact fun y hy => hfresh y (hys.subset hy)
  · intro g hg
    rcases hkept g hg with h | h | h
    · exact .inl h
    · exact .inr (.inl (List.mem_append_left _ h))
    · rcases hdropped (wrap g) (List.mem_map_of_mem h) with hstill | ⟨info, hahead, hsn, hexp⟩
      · rw [heq] at hstill
        obtain ⟨y, hy, hyg⟩ := List.mem_map.mp hstill
        have hyeq : y = g := by rw [← hnumber y (hys.subset hy), hyg, hnumber g h]
        exact .inr (.inr (hyeq ▸ hy))
      · refine .inr (.inl (List.mem_append_right _ (List.mem_map.mpr ⟨info, ?_, ?_⟩)))
        · exact List.mem_filter.mpr ⟨ahead_mem hahead, by simpa using hexp⟩
        · rw [hsn, hnumber g h]
  · exact hbelow
  · exact hnewest
  · intro h
    rw [hctx] at h
    exact ⟨hend ▸ (hstarted h).1, (hstarted h).2⟩
  · intro h
    rw [hctx] at h
    rw [hidle h] at hys
    exact List.sublist_nil.mp hys

theorem numbersBetween_mem {lo hi x : Int} : x ∈ numbersBetween lo hi ↔ lo ≤ x ∧ x < hi := by
  simp only [numbersBetween, List.mem_map, List.mem_range]
  constructor
  · rintro ⟨i, hi, rfl⟩
    omega
  · intro h
    exact ⟨(x - lo).toNat, by omega, by omega⟩

theorem numbersBetween_sorted (lo hi : Int) : (numbersBetween lo hi).Pairwise (· < ·) := by
  unfold numbersBetween
  rw [List.pairwise_map]
  exact List.pairwise_lt_range.imp fun h => by omega

theorem numbersBetween_eq_nil {lo hi : Int} (h : hi ≤ lo) : numbersBetween lo hi = [] := by
  unfold numbersBetween
  rw [show (hi - lo).toNat = 0 by omega]
  rfl

theorem snRange_wrap {lo hi : Int} (hlo : lo ≤ hi) (hhi : hi < lo + 65536) :
    snRange (wrap lo) (wrap hi) = (numbersBetween lo hi).map wrap := by
  have hcount : (wrap hi + 65536 - wrap lo) % 65536 = (hi - lo).toNat := by
    unfold wrap
    omega
  unfold snRange numbersBetween
  rw [hcount, List.map_map]
  apply List.map_congr_left
  intro i _
  simp only [Function.comp_apply, wrap]
  omega

/-- Sorted numbers within half the cycle come one after the other with 16 bits too. -/
theorem isChain_wrap {xs : List Int} (lo : Int) (hsorted : xs.Pairwise (· < ·))
    (hwindow : ∀ x ∈ xs, lo ≤ x ∧ x < lo + 32768) : List.IsChain After (xs.map wrap) := by
  rw [List.isChain_map]
  refine (hsorted.imp_of_mem fun {a b} ha hb hab => ?_).isChain
  obtain ⟨ha1, ha2⟩ := hwindow a ha
  obtain ⟨hb1, hb2⟩ := hwindow b hb
  unfold After
  rw [rtpSeqDistance_wrap (by omega) (by omega)]
  omega

/-- A number that was not waited for arrives, and those passed over are waited for. -/
theorem NackInv.pass {w : NackWorld} {xs gap : List Int} (hw : NackInv w xs) {r : RtpRecvNack}
    {h : NackHistory} {x : Int} (hsns : r.queue.sns = (xs ++ gap).map wrap)
    (hreceived : h.received = x :: w.history.received) (hgaps : h.gaps = w.history.gaps ++ gap)
    (hgone : h.gone = w.history.gone) (hsorted : gap.Pairwise (· < ·))
    (hnew : ∀ y ∈ gap, w.history.high ≤ y ∧ y < x) (hx : x ∉ xs)
    (hwindow : ∀ y ∈ xs ++ gap, h.high - 32768 ≤ y ∧ y < h.high)
    (hbelow : ∀ y ∈ h.received, y < h.high) (hnewest : h.high - 1 ∈ h.received)
    (hctx : r.rtp.contexttialized = true) (hend : r.rtp.endSn = wrap h.high) :
    NackInv ⟨r, h⟩ (xs ++ gap) := by
  constructor
  · exact hsns
  · refine List.pairwise_append.mpr ⟨hw.sorted, hsorted, fun a ha b hb => ?_⟩
    have := (hw.window a ha).2
    have := (hnew b hb).1
    omega
  · exact hwindow
  · intro y hy
    rw [hreceived, List.mem_cons, not_or]
    rcases List.mem_append.mp hy with hy | hy
    · exact ⟨fun heq => hx (heq ▸ hy), hw.fresh y hy⟩
    · obtain ⟨hlo, hhi⟩ := hnew y hy
      refine ⟨by omega, fun hrec => ?_⟩
      have := hw.below y hrec
      omega
  · intro g hg
    rw [hreceived, hgone]
    rw [hgaps] at hg
    rcases List.mem_append.mp hg with hg | hg
    · rcases hw.kept g hg with h | h | h
      · exact .inl (List.mem_cons_of_mem _ h)
      · exact .inr (.inl h)
      · exact .inr (.inr (List.mem_append_left _ h))
    · exact .inr (.inr (List.mem_append_right _ hg))
  · exact hbelow
  · exact fun _ => hnewest
  · intro _
    exact ⟨hend, by simp [hreceived]⟩
  · intro hno
    simp [hctx] at hno

theorem NackInv.flush {w : NackWorld} {xs : List Int} (hw : NackInv w xs) {r : RtpRecvNack}
    {h : NackHistory} (x : Int) (gap : List Int) (hsns : r.queue.sns = [])
    (hreceived : h.received = x :: w.history.received) (hgaps : h.gaps = w.history.gaps ++ gap)
    (hgone : h.gone = w.history.gone ++ xs ++ gap)
    (hbelow : ∀ y ∈ h.received, y < h.high) (hnewest : h.high - 1 ∈ h.received)
    (hctx : r.rtp.contexttialized = false) : NackInv ⟨r, h⟩ [] := by
  refine ⟨hsns, .nil, by simp, by simp, fun g hg => ?_, hbelow, fun _ => hnewest,
    fun hyes => ?_, fun _ => rfl⟩
  · rw [hreceived, hgone]
    rw [hgaps] at hg
    rcases List.mem_append.mp hg with hg | hg
    · rcases hw.kept g hg with h | h | h <;> simp [h]
    · simp [hg]
  · simp [hctx] at hyes

theorem checkQueueSize_cases (r : RtpRecvNack) :
    recvnackCheckQueueSize r = r ∨
      (recvnackCheckQueueSize r).queue.sns = [] ∧
      (recvnackCheckQueueSize r).rtp.contexttialized = false := by
  unfold recvnackCheckQueueSize
  split
  · exact .inr ⟨by simp [sns_eq], rfl⟩
  · exact .inl rfl

theorem update2_ahead {rtp : ReceiveNackBuffer} (seq : Nat) (hctx : rtp.contexttialized = true)
    (h : rtpSeqDistance rtp.endSn seq ≥ 0) : ∃ rtp', nackbufferUpdate2 rtp seq =
      (rtp.endSn, seq, rtp') ∧ rtp'.contexttialized = true ∧ rtp'.endSn = (seq + 1) % 65536 := by
  simp [nackbufferUpdate2, hctx, h]

theorem update2_first {rtp : ReceiveNackBuffer} (seq : Nat) (hctx : rtp.contexttialized = false) :
    ∃ rtp', nackbufferUpdate2 rtp seq = (0, 0, rtp') ∧ rtp'.contexttialized = true ∧
      rtp'.endSn = (seq + 1) % 65536 := by
  simp [nackbufferUpdate2, hctx]

theorem update2_within {rtp : ReceiveNackBuffer} {seq : Nat} (hctx : rtp.contexttialized = true)
    (h : ¬ rtpSeqDistance rtp.endSn seq ≥ 0) (hbegin : ¬ BeforeBegin rtp seq) :
    nackbufferUpdate2 rtp seq = (0, 0, rtp) := by
  simp [nackbufferUpdate2, hctx, hbegin, Int.not_le.mp h]

theorem wrap_succ (x : Int) : (wrap x + 1) % 65536 = wrap (x + 1) := by
  unfold wrap
  omega

/-- An arrival moves the window's end behind it, and what it has passed over is waited for
unless that makes the list too long. -/
theorem onNackEnter_ahead (clock : Nat → Int) {r : RtpRecvNack} {high x : Int}
    (hctx : r.rtp.contexttialized = true) (hend : r.rtp.endSn = wrap high) (hlo : high ≤ x)
    (hhi : x < high + 32768)
    (hchain : List.IsChain After (r.queue.sns ++ (numbersBetween high x).map wrap)) :
    let r' := onNackEnter clock r (wrap x)
    r'.queue.sns = r.queue.sns ++ (numbersBetween high x).map wrap ∧
        r'.rtp.contexttialized = true ∧ r'.rtp.endSn = wrap (x + 1) ∨
      r'.queue.sns = [] ∧ r'.rtp.contexttialized = false := by
  have hdist : rtpSeqDistance r.rtp.endSn (wrap x) = x - high := by
    rw [hend, rtpSeqDistance_wrap (by omega) (by omega)]
  obtain ⟨rtp', hupdate, hctx', hend'⟩ := update2_ahead (wrap x) hctx (by omega)
  rw [wrap_succ] at hend'
  simp only [onNackEnter, hupdate, hdist]
  split
  · have hinsert : (recvnackInsert clock { r with rtp := rtp' } r.rtp.endSn (wrap x)).queue.sns =
        r.queue.sns ++ (numbersBetween high x).map wrap := by
      unfold recvnackInsert
      rw [hend, snRange_wrap hlo (by omega)]
      exact sns_insert_all clock hchain
    rcases checkQueueSize_cases (recvnackInsert clock { r with rtp := rtp' } r.rtp.endSn (wrap x))
      with heq | hflush
    · left
      rw [heq]
      exact ⟨hinsert, hctx', hend'⟩
    · exact .inr hflush
  · left
    rw [numbersBetween_eq_nil (by omega)]
    exact ⟨by simp, hctx', hend'⟩

theorem onNackEnter_first (clock : Nat → Int) {r : RtpRecvNack} (x : Int)
    (hctx : r.rtp.contexttialized = false) :
    let r' := onNackEnter clock r (wrap x)
    r'.queue = r.queue ∧ r'.rtp.contexttialized = true ∧ r'.rtp.endSn = wrap (x + 1) := by
  obtain ⟨rtp', hupdate, hctx', hend'⟩ := update2_first (wrap x) hctx
  rw [wrap_succ] at hend'
  have hnone : ¬ rtpSeqDistance 0 0 > 0 := by decide
  simp only [onNackEnter, hupdate, hnone, if_false]
  exact ⟨trivial, hctx', hend'⟩

theorem onNackEnter_within (clock : Nat → Int) {r : RtpRecvNack} {seq : Nat}
    (hctx : r.rtp.contexttialized = true) (h : ¬ rtpSeqDistance r.rtp.endSn seq ≥ 0)
    (hbegin : ¬ BeforeBegin r.rtp seq) :
    let r' := onNackEnter clock r seq
    r'.queue = r.queue ∧ r'.rtp.contexttialized = true ∧ r'.rtp.endSn = r.rtp.endSn := by
  have hnone : ¬ rtpSeqDistance 0 0 > 0 := by decide
  simp only [onNackEnter, update2_within hctx h hbegin, hnone, if_false]
  exact ⟨trivial, hctx, rfl⟩

section Arrival

variable {w : NackWorld} {xs : List Int} {clock : Nat → Int} {x : Int}

theorem NackInv.enter_first (hw : NackInv w xs) (hx : w.history.number (wrap x) = x)
    (hctx : w.recvnack.rtp.contexttialized = false) (hnewer : ∀ y ∈ w.history.received, y < x) :
    ∃ ys, NackInv ⟨onNackEnter clock w.recvnack (wrap x),
      w.history.enter w.recvnack (onNackEnter clock w.recvnack (wrap x)) (wrap x)⟩ ys := by
  obtain ⟨hqueue, hctx', hend'⟩ := onNackEnter_first clock x hctx
  have hxs : xs = [] := hw.idle hctx
  have hhigh : (if w.history.received = [] then x + 1 else max w.history.high (x + 1)) = x + 1 := by
    split
    · rfl
    · rename_i hne
      have hnew := hnewer _ (hw.newest hne)
      omega
  refine ⟨xs ++ [], hw.pass (x := x) ?_ ?_ ?_ ?_ .nil (by simp) (by simp [hxs]) (by simp [hxs]) ?_ ?_
    hctx' ?_⟩
  · rw [hqueue, hw.sns, List.append_nil]
  · simp [NackHistory.enter, hx]
  · simp [NackHistory.enter, hctx]
  · simp [NackHistory.enter, hctx']
  · simp only [NackHistory.enter, hx, hhigh, List.mem_cons]
    rintro y (rfl | hy)
    · omega
    · have := hnewer y hy
      omega
  · simp [NackHistory.enter, hx, hhigh]
  · simp only [NackHistory.enter, hx, hhigh, hend']

theorem NackInv.enter_within (hw : NackInv w xs) (hx : w.history.number (wrap x) = x)
    (hctx : w.recvnack.rtp.contexttialized = true) (hlt : x < w.history.high)
    (hlo : w.history.high - 32768 ≤ x) (hbegin : ¬ BeforeBegin w.recvnack.rtp (wrap x))
    (hout : x ∉ xs) :
    ∃ ys, NackInv ⟨onNackEnter clock w.recvnack (wrap x),
      w.history.enter w.recvnack (onNackEnter clock w.recvnack (wrap x)) (wrap x)⟩ ys := by
  obtain ⟨hend, hne⟩ := hw.started hctx
  have hdist : rtpSeqDistance w.recvnack.rtp.endSn (wrap x) = x - w.history.high := by
    rw [hend, rtpSeqDistance_wrap (by omega) (by omega)]
  obtain ⟨hqueue, hctx', hend'⟩ := onNackEnter_within clock hctx (by omega) hbegin
  have hhigh : max w.history.high (x + 1) = w.history.high := by omega
  have hgap : numbersBetween w.history.high x = [] := numbersBetween_eq_nil (by omega)
  refine ⟨xs ++ [], hw.pass (x := x) ?_ ?_ ?_ ?_ .nil (by simp) hout ?_ ?_ ?_ hctx' ?_⟩
  · rw [hqueue, hw.sns, List.append_nil]
  · simp [NackHistory.enter, hx]
  · simp [NackHistory.enter, hx, hgap]
  · simp [NackHistory.enter, hctx']
  · simpa [NackHistory.enter, hx, hne, hhigh] using hw.window
  · simp only [NackHistory.enter, hx, hne, hhigh, if_false, List.mem_cons]
    rintro y (rfl | hy)
    · exact hlt
    · exact hw.below y hy
  · simp [NackHistory.enter, hx, hne, hhigh, hw.newest hne]
  · simp [NackHistory.enter, hx, hne, hhigh, hend', hend]

theorem NackInv.enter_ahead (hw : NackInv w xs) (hx : w.history.number (wrap x) = x)
    (hctx : w.recvnack.rtp.contexttialized = true) (hlo : w.history.high ≤ x)
    (hhi : x < w.history.high + 32768) (hwindow : ∀ y ∈ xs, x < y + 32768) (hout : x ∉ xs) :
    ∃ ys, NackInv ⟨onNackEnter clock w.recvnack (wrap x),
      w.history.enter w.recvnack (onNackEnter clock w.recvnack (wrap x)) (wrap x)⟩ ys := by
  obtain ⟨hend, hne⟩ := hw.started hctx
  have hhigh : max w.history.high (x + 1) = x + 1 := by omega
  have hwithin : ∀ y ∈ xs ++ numbersBetween w.history.high x, x - 32767 ≤ y ∧ y < x + 1 := by
    intro y hy
    rcases List.mem_append.mp hy with hy | hy
    · have := hwindow y hy
      have := (hw.window y hy).2
      omega
    · have := numbersBetween_mem.mp hy
      omega
  have hchain : List.IsChain After
      (w.recvnack.queue.sns ++ (numbersBetween w.history.high x).map wrap) := by
    rw [hw.sns, ← List.map_append]
    refine isChain_wrap (x - 32767) ?_ fun y hy => ⟨(hwithin y hy).1, ?_⟩
    · refine List.pairwise_append.mpr ⟨hw.sorted, numbersBetween_sorted _ _, fun a ha b hb => ?_⟩
      have := (hw.window a ha).2
      have := (numbersBetween_mem.mp hb).1
      omega
    · have := (hwithin y hy).2
      omega
  have hbelow : ∀ y ∈ x :: w.history.received, y < x + 1 := by
    intro y hy
    rcases List.mem_cons.mp hy with rfl | hy
    · omega
    · have := hw.below y hy
      omega
  rcases onNackEnter_ahead clock hctx hend hlo hhi hchain with ⟨hsns, hctx', hend'⟩ | ⟨hsns, hctx'⟩
  · refine ⟨xs ++ numbersBetween w.history.high x, hw.pass (x := x) ?_ ?_ ?_ ?_
      (numbersBetween_sorted _ _) (fun y hy => numbersBetween_mem.mp hy) hout ?_ ?_ ?_ hctx' ?_⟩
    · rw [hsns, hw.sns, List.map_append]
    · simp [NackHistory.enter, hx]
    · simp [NackHistory.enter, hctx, hx]
    · simp [NackHistory.enter, hctx']
    · intro y hy
      have := hwithin y hy
      simp only [NackHistory.enter, hx, hne, hhigh, if_false]
      omega
    · simpa only [NackHistory.enter, hx, hne, hhigh, if_false] using hbelow
    · simp [NackHistory.enter, hx, hne, hhigh]
    · simp only [NackHistory.enter, hx, hne, hhigh, if_false, hend']
  · refine ⟨[], hw.flush x (numbersBetween w.history.high x) hsns ?_ ?_ ?_ ?_ ?_ hctx'⟩
    · simp [NackHistory.enter, hx]
    · simp [NackHistory.enter, hctx, hx]
    · have hpending : w.recvnack.queue.sns.map w.history.number = xs := hw.pending_eq
      simp [NackHistory.enter, hctx, hctx', hx, hpending]
    · simpa only [NackHistory.enter, hx, hne, hhigh, if_false] using hbelow
    · simp [NackHistory.enter, hx, hne, hhigh]

end Arrival

theorem NackInv.enter {w : NackWorld} {xs : List Int} (hw : NackInv w xs) (clock : Nat → Int)
    (now : Int) (ssrc : Nat) {seq : UInt16} (hout : seq.toNat ∉ w.recvnack.queue.sns)
    (h : NackEvent.Orderly w (.arrive clock now ssrc seq)) :
    ∃ ys, NackInv ⟨onNackEnter clock w.recvnack seq.toNat,
      w.history.enter w.recvnack (onNackEnter clock w.recvnack seq.toNat) seq.toNat⟩ ys := by
  obtain ⟨hfirst, hbegin, hahead⟩ := h.resolve_left hout
  have hlo := nearest_lo w.history.high seq.toNat
  have hhi := nearest_hi w.history.high seq.toNat
  have hseq := wrap_nearest w.history.high seq.toNat_lt
  rw [hw.pending_eq] at hahead
  change ∀ y ∈ xs, nearest w.history.high seq.toNat < y + 32768 at hahead
  change _ → ∀ y ∈ _, y < nearest w.history.high seq.toNat at hfirst
  change _ → nearest w.history.high seq.toNat < _ → _ at hbegin
  have hx : w.history.number (wrap (nearest w.history.high seq.toNat)) =
    nearest w.history.high seq.toNat := nearest_wrap hlo hhi
  generalize nearest w.history.high seq.toNat = x at *
  rw [← hseq] at hout hbegin ⊢
  have hnew : x ∉ xs := fun hmem => hout (hw.sns ▸ List.mem_map_of_mem hmem)
  cases hctx : w.recvnack.rtp.contexttialized with
  | false => exact hw.enter_first hx hctx (hfirst hctx)
  | true =>
    by_cases hge : w.history.high ≤ x
    · exact hw.enter_ahead hx hctx hge hhi hahead hnew
    · exact hw.enter_within hx hctx (by omega) hlo (hbegin hctx (by omega)) hnew

/-- What an arriving number that was not waited for does is to enter it and to sweep. -/
theorem onNack_swept (clock : Nat → Int) (now : Int) (ssrc : Nat) {r : RtpRecvNack} {seq : Nat}
    (h : seq ∉ r.queue.sns) :
    Swept now 0 (onNackEnter clock r seq) (playtrackOnNack clock now ssrc r seq).1 := by
  have hnone : ¬ (recvnackFind r seq).isSome := by rwa [recvnackFind_isSome]
  unfold playtrackOnNack
  rw [if_neg hnone]
  dsimp only
  split
  · exact .refl now 0 _
  · exact checkSendNacks_swept now ssrc _

theorem NackInv.next {w : NackWorld} {e : NackEvent} (hw : ∃ xs, NackInv w xs)
    (h : e.Orderly w) : ∃ xs, NackInv (w.next e) xs := by
  obtain ⟨xs, hw⟩ := hw
  cases e with
  | arrive clock now ssrc seq =>
    unfold NackWorld.next
    dsimp only
    split
    · rename_i hwaited
      obtain ⟨x, hx, hseq⟩ := List.mem_map.mp (hw.sns ▸ hwaited)
      have hfound : (recvnackFind w.recvnack seq.toNat).isSome := by
        rwa [recvnackFind_isSome]
      refine ⟨xs.erase x, ?_⟩
      simp only [playtrackOnNack, hfound, if_true]
      rw [← hseq, hw.number_wrap hx]
      exact hw.receive hx
    · rename_i hout
      obtain ⟨ys, hy⟩ := hw.enter clock now ssrc hout h
      exact hy.swept (onNack_swept clock now ssrc hout)
  | sweep now ssrc => exact hw.swept (checkSendNacks_swept now ssrc w.recvnack)
  | setNackInterval interval =>
    exact ⟨xs, hw.sns, hw.sorted, hw.window, hw.fresh, hw.kept, hw.below, hw.newest, hw.started,
      hw.idle⟩

/-- A track as it is created, before anything has arrived. -/
def NackWorld.start (capacity queueSize : Nat) : NackWorld :=
  { recvnack := createRecvnack capacity queueSize }

theorem NackInv.start (capacity queueSize : Nat) : NackInv (.start capacity queueSize) [] := by
  constructor <;> simp [NackWorld.start, createRecvnack, RtpNackInfoList.sns,
    RtpNackInfoList.entries]

/-- **Lost packets.** In every run without numbers from before the window's beginning, what
a track waits for was never received, is listed once, and is kept until it comes or is given
up. -/
theorem pending_sound (capacity queueSize : Nat) {es : List NackEvent} {w : NackWorld}
    (hl : Run.Leads NackStep es (.start capacity queueSize) w)
    (h : Run.Throughout NackStep (fun w e => e.Orderly w) es (.start capacity queueSize)) :
    NackSound w := by
  have hstep : ∀ v e v', (∃ xs, NackInv v xs) → e.Orderly v → NackStep v e v' →
      ∃ xs, NackInv v' xs := by
    rintro v e _ hv he rfl
    exact NackInv.next hv he
  obtain ⟨xs, hw⟩ := Run.leads_invariant _ hstep hl ⟨[], .start capacity queueSize⟩ h
  exact hw.sound

/-- The packet of a number, at the time the session starts. -/
def NackEvent.packet (seq : UInt16) : NackEvent := .arrive (fun _ => 0) 0 1 seq

/-- Two packets are overtaken by a third, and then the second comes. -/
theorem pending_sound_overtaken :
    NackSound ((((NackWorld.start 1000 666).next (.packet 65534)).next (.packet 1)).next
      (.packet 0)) ∧
    ((((NackWorld.start 1000 666).next (.packet 65534)).next (.packet 1)).next
      (.packet 0)).recvnack.queue.sns = [65535] := by
  have hl : Run.Leads NackStep [.packet 65534, .packet 1, .packet 0] (.start 1000 666) _ :=
    .cons rfl (.cons rfl (.cons rfl (.nil _)))
  refine ⟨pending_sound 1000 666 hl ?_, by decide⟩
  refine Run.throughout_cons (fun _ h => h) ?_ (Run.throughout_cons (fun _ h => h) ?_
    (Run.throughout_cons (fun _ h => h) ?_ trivial)) <;>
  · unfold NackEvent.packet NackEvent.Orderly
    decide

/-- The first two packets change places. The one that comes second is then waited for,
though it is there. -/
theorem first_two_swapped :
    ¬ NackSound (((NackWorld.start 1000 666).next (.packet 10)).next (.packet 9)) := by
  intro h
  exact h.fresh 9 (by decide) (by decide)

end MetaRtc
