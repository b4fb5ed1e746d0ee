import MetaRtc.Play.Pending
import MetaRtc.Play.Stats

/-! # The highest number received

The window of a track keeps the 16 bits that follow the highest number and how often they have come
round. -/
namespace MetaRtc

def nackbufferGetExtendedHighestSequence (nackbuf : ReceiveNackBuffer) : Nat :=
  ((nackbuf.nnSeqFlipBacks * 65536 + nackbuf.endSn - 1 : Int) % 2 ^ 32).toNat

structure HighestWorld where
  recvnack : RtpRecvNack
  received : Option Received := none

def HighestWorld.start (capacity queueSize : Nat) : HighestWorld where
  recvnack := createRecvnack capacity queueSize

inductive HighestEvent where
  | arrive (clock : Nat → Int) (now : Int) (ssrc : Nat) (x : Int)
  | sweep (now : Int) (ssrc : Nat)
  | setNackInterval (interval : Int)

def HighestWorld.next (w : HighestWorld) : HighestEvent → HighestWorld
  | .arrive clock now ssrc x =>
    { recvnack := (playtrackOnNack clock now ssrc w.recvnack (wrap x)).1
      received := some (Received.next w.received x) }
  | .sweep now ssrc => { w with recvnack := (checkSendNacks now ssrc w.recvnack).1 }
  | .setNackInterval nackInterval =>
    { w with recvnack := { w.recvnack with opts := { w.recvnack.opts with nackInterval } } }

inductive HighestStep : HighestWorld → HighestEvent → HighestWorld → Prop where
  | arrive {w : HighestWorld} {clock : Nat → Int} {now : Int} {ssrc : Nat} {x : Int} :
      Near w.received x →
      HighestStep w (.arrive clock now ssrc x) (w.next (.arrive clock now ssrc x))
  | sweep {w : HighestWorld} {now : Int} {ssrc : Nat} :
      HighestStep w (.sweep now ssrc) (w.next (.sweep now ssrc))
  | setNackInterval {w : HighestWorld} {interval : Int} :
      HighestStep w (.setNackInterval interval) (w.next (.setNackInterval interval))

/-- The highest number received, counted from the cycle of the first. -/
def ExtendsHighest (w : HighestWorld) : Prop :=
  ∀ r, w.received = some r → nackbufferGetExtendedHighestSequence w.recvnack.rtp =
    ((r.high - r.first / 65536 * 65536) % 2 ^ 32).toNat

/-- How many numbers an arrival is ahead of the window's end or before its beginning. -/
def newlyMissing (nackbuf : ReceiveNackBuffer) (seq : Nat) : Int :=
  if rtpSeqDistance nackbuf.endSn seq ≥ 0 then rtpSeqDistance nackbuf.endSn seq
  else rtpSeqDistance seq nackbuf.beginSn

/-- No number that is the highest is the last of its cycle or waited for from a cycle before, and
the list of the numbers waited for is not filled. -/
def HighestEvent.Steady (w : HighestWorld) : HighestEvent → Prop
  | .arrive _ _ _ x =>
    ((∀ r, w.received = some r → r.high < x) →
      x % 65536 ≠ 65535 ∧ wrap x ∉ w.recvnack.queue.sns) ∧
    (w.received.isSome → wrap x ∉ w.recvnack.queue.sns → 0 < newlyMissing w.recvnack.rtp (wrap x) →
      w.recvnack.queue.vsize + newlyMissing w.recvnack.rtp (wrap x) < w.recvnack.maxQueueSize)
  | _ => True

/-- The window ends behind the highest number, and its ends have come round as often as cycles have
begun. -/
structure EndsBehind (rtp : ReceiveNackBuffer) (r : Received) : Prop where
  contexttialized : rtp.contexttialized = true
  endSn : rtp.endSn = wrap (r.high + 1)
  flips : (rtp.nnSeqFlipBacks : Int) = r.high / 65536 - r.first / 65536
  inner : r.high % 65536 ≠ 65535
  beginSn : rtp.beginSn < 65536

theorem EndsBehind.extends {rtp : ReceiveNackBuffer} {r : Received} (h : EndsBehind rtp r) :
    nackbufferGetExtendedHighestSequence rtp =
      ((r.high - r.first / 65536 * 65536) % 2 ^ 32).toNat := by
  obtain ⟨-, hend, hflips, hinner, -⟩ := h
  have hsum : (rtp.nnSeqFlipBacks * 65536 + rtp.endSn - 1 : Int) =
      r.high - r.first / 65536 * 65536 := by
    rw [hflips, hend]
    unfold wrap
    omega
  rw [nackbufferGetExtendedHighestSequence, hsum]

theorem nackinfoInsert_vsize (now : Int) (vec : RtpNackInfoList) (value : Nat) :
    (nackinfoInsert now vec value).vsize ≤ vec.vsize + 1 := by
  have hgrown := growNackinfos_vsize vec
  unfold nackinfoInsert
  dsimp only
  split
  · exact Nat.le_of_eq (congrArg (· + 1) hgrown)
  · split
    · omega
    · exact Nat.le_of_eq (congrArg (· + 1) hgrown)

theorem insert_all_vsize (clock : Nat → Int) (values : List Nat) (vec : RtpNackInfoList) :
    (values.foldl (fun vec s => nackinfoInsert (clock s) vec s) vec).vsize ≤
      vec.vsize + values.length := by
  induction values generalizing vec with
  | nil => exact Nat.le_refl _
  | cons value values ih =>
    have hone := nackinfoInsert_vsize (clock value) vec value
    have hrest := ih (nackinfoInsert (clock value) vec value)
    rw [List.foldl_cons, List.length_cons]
    omega

theorem snRange_length {first last : Nat} (hfirst : first < 65536) (hlast : last < 65536)
    (h : rtpSeqDistance first last > 0) :
    ((snRange first last).length : Int) = rtpSeqDistance first last := by
  obtain ⟨⟨k, hk⟩, -, hhi⟩ := rtpSeqDistance_spec first last
  rw [snRange, List.length_map, List.length_range]
  omega

section Enter

variable {r : RtpRecvNack} {clock : Nat → Int} {seq : Nat}

/-- A list that is not full is not emptied. -/
theorem checkQueueSize_kept {vec : RtpNackInfoList} (h : vec.vsize < r.maxQueueSize) :
    recvnackCheckQueueSize { r with queue := vec } = { r with queue := vec } :=
  if_neg (Nat.not_le.mpr h)

/-- Where the list is not filled, an arrival does to the window what the update does. -/
theorem onNackEnter_unfilled {first last : Nat} {rtp : ReceiveNackBuffer}
    (hupdate : nackbufferUpdate2 r.rtp seq = (first, last, rtp))
    (hrange : 0 < rtpSeqDistance first last →
      r.queue.vsize + (snRange first last).length < r.maxQueueSize) :
    (onNackEnter clock r seq).rtp = nackbufferSet rtp seq seq := by
  unfold onNackEnter recvnackInsert
  rw [hupdate]
  dsimp only
  split
  · rename_i hmissing
    have hsize := insert_all_vsize clock (snRange first last) r.queue
    have hroom := Nat.lt_of_le_of_lt hsize (hrange hmissing)
    -- The kernel would otherwise compute the list.
    generalize (snRange first last).foldl (fun vec s => nackinfoInsert (clock s) vec s) r.queue = vec
      at hroom
    have hkept : recvnackCheckQueueSize { r with rtp, queue := vec } = { r with rtp, queue := vec } :=
      checkQueueSize_kept (r := { r with rtp }) hroom
    rw [hkept]
  · rfl

/-- What else a sweep leaves of the window. -/
def WindowKept (rtp rtp' : ReceiveNackBuffer) : Prop :=
  rtp'.nnSeqFlipBacks = rtp.nnSeqFlipBacks ∧ (rtp.beginSn < 65536 → rtp'.beginSn < 65536)

theorem getNackSeqsLoop_window (now : Int) (fuel i : Nat) (r : RtpRecvNack) (nack : RtcpNack) :
    WindowKept r.rtp (getNackSeqsLoop now fuel i r nack).1.rtp := by
  induction fuel generalizing i r nack with
  | zero => exact ⟨rfl, id⟩
  | succ fuel ih =>
    unfold getNackSeqsLoop
    dsimp only
    split
    · split
      · obtain ⟨hflips, hbegin⟩ := ih (i + 1) (recvnackRemove
          { r with rtp := nackbufferNotifyDropSeq r.rtp (r.queue.nackinfos i).sn }
          (r.queue.nackinfos i).sn) nack
        exact ⟨hflips, fun _ => hbegin (Nat.mod_lt _ (by decide))⟩
      · split
        · exact ⟨rfl, id⟩
        · split
          · exact ih _ _ _
          · exact ih _ _ _
    · exact ⟨rfl, id⟩

theorem checkSendNacks_window (now : Int) (ssrc : Nat) (r : RtpRecvNack) :
    WindowKept r.rtp (checkSendNacks now ssrc r).1.rtp := by
  have hsweep : WindowKept r.rtp (recvnackGetNackSeqs now r { capacity := 50 }).1.rtp := by
    unfold recvnackGetNackSeqs
    split
    · exact ⟨rfl, id⟩
    · exact getNackSeqsLoop_window now _ _ _ _
  unfold checkSendNacks
  dsimp only
  split
  · exact hsweep
  · exact hsweep

theorem onNack_window (clock : Nat → Int) (now : Int) (ssrc : Nat) (h : seq ∉ r.queue.sns) :
    WindowKept (onNackEnter clock r seq).rtp (playtrackOnNack clock now ssrc r seq).1.rtp := by
  have hnone : ¬ (recvnackFind r seq).isSome := by rwa [recvnackFind_isSome]
  unfold playtrackOnNack
  rw [if_neg hnone]
  dsimp only
  split
  · exact ⟨rfl, id⟩
  · exact checkSendNacks_window now ssrc _

end Enter

theorem EndsBehind.swept {now : Int} {r r' : RtpRecvNack} {received : Received}
    (h : EndsBehind r.rtp received) (hswept : Swept now 0 r r')
    (hkept : WindowKept r.rtp r'.rtp) : EndsBehind r'.rtp received where
  contexttialized := hswept.contexttialized.trans h.contexttialized
  endSn := hswept.endSn.trans h.endSn
  flips := by
    rw [hkept.1]
    exact h.flips
  inner := h.inner
  beginSn := hkept.2 h.beginSn

section Arrive

variable {r : RtpRecvNack} {received : Received} {clock : Nat → Int} {x : Int}

/-- A number that becomes the highest. -/
theorem EndsBehind.ahead (h : EndsBehind r.rtp received) (hhigh : received.high < x)
    (hnear : x < received.high + 32768) (hinner : x % 65536 ≠ 65535)
    (hroom : 0 < newlyMissing r.rtp (wrap x) →
      r.queue.vsize + newlyMissing r.rtp (wrap x) < r.maxQueueSize) :
    EndsBehind (onNackEnter clock r (wrap x)).rtp (Received.next (some received) x) := by
  have hdistance : rtpSeqDistance r.rtp.endSn (wrap x) = x - (received.high + 1) := by
    rw [h.endSn, rtpSeqDistance_wrap (by omega) (by omega)]
  have hend : r.rtp.endSn < 65536 := by
    rw [h.endSn]
    exact wrap_lt _
  have hmissing : newlyMissing r.rtp (wrap x) = rtpSeqDistance r.rtp.endSn (wrap x) :=
    if_pos (by omega)
  have hupdate : nackbufferUpdate2 r.rtp (wrap x) = (r.rtp.endSn, wrap x, { r.rtp with
      nnSeqFlipBacks := if wrap x < r.rtp.endSn then r.rtp.nnSeqFlipBacks + 1
        else r.rtp.nnSeqFlipBacks
      endSn := (wrap x + 1) % 65536 }) := by
    unfold nackbufferUpdate2
    rw [if_neg (by simp [h.contexttialized]), if_pos (by omega)]
  have hmax : max received.high x = x := by omega
  rw [onNackEnter_unfilled hupdate fun hpos => ?_, Received.next, hmax]
  · exact {
      contexttialized := h.contexttialized
      endSn := wrap_succ x
      flips := by
        have hflips := h.flips
        have hinner := h.inner
        have hturn : wrap x < r.rtp.endSn ↔ x / 65536 = received.high / 65536 + 1 := by
          rw [h.endSn]
          unfold wrap
          omega
        show ((if wrap x < r.rtp.endSn then r.rtp.nnSeqFlipBacks + 1
          else r.rtp.nnSeqFlipBacks : Nat) : Int) = x / 65536 - received.first / 65536
        split
        · rename_i hless
          have := hturn.mp hless
          omega
        · rename_i hless
          rw [hturn] at hless
          omega
      inner := hinner
      beginSn := h.beginSn }
  · have hlength := snRange_length hend (wrap_lt x) hpos
    have := hroom (hmissing ▸ hpos)
    omega

/-- A number from before the highest, or the highest again. -/
theorem EndsBehind.behind (h : EndsBehind r.rtp received) (hhigh : x ≤ received.high)
    (hnear : received.high - 32768 < x)
    (hroom : 0 < newlyMissing r.rtp (wrap x) →
      r.queue.vsize + newlyMissing r.rtp (wrap x) < r.maxQueueSize) :
    EndsBehind (onNackEnter clock r (wrap x)).rtp (Received.next (some received) x) := by
  have hdistance : rtpSeqDistance r.rtp.endSn (wrap x) = x - (received.high + 1) := by
    rw [h.endSn, rtpSeqDistance_wrap (by omega) (by omega)]
  have hmissing : newlyMissing r.rtp (wrap x) = rtpSeqDistance (wrap x) r.rtp.beginSn :=
    if_neg (by omega)
  have hmax : max received.high x = received.high := by omega
  have hkept : EndsBehind r.rtp (Received.next (some received) x) := by
    rw [Received.next, hmax]
    exact ⟨h.contexttialized, h.endSn, h.flips, h.inner, h.beginSn⟩
  by_cases hbefore : BeforeBegin r.rtp (wrap x)
  · have hupdate : nackbufferUpdate2 r.rtp (wrap x) =
        (wrap x, r.rtp.beginSn, { r.rtp with beginSn := wrap x }) := by
      unfold nackbufferUpdate2
      rw [if_neg (by simp [h.contexttialized]), if_neg (by omega), if_pos hbefore]
    rw [onNackEnter_unfilled hupdate fun hpos => ?_]
    · exact ⟨hkept.contexttialized, hkept.endSn, hkept.flips, hkept.inner, wrap_lt x⟩
    · have hlength := snRange_length (wrap_lt x) h.beginSn hpos
      have := hroom (hmissing ▸ hpos)
      omega
  · have hupdate := update2_within h.contexttialized (show ¬ _ ≥ 0 by omega) hbefore
    rw [onNackEnter_unfilled hupdate fun hpos => absurd hpos (by decide)]
    exact ⟨hkept.contexttialized, hkept.endSn, hkept.flips, hkept.inner, hkept.beginSn⟩

/-- The first number. -/
theorem EndsBehind.first (hctx : r.rtp.contexttialized = false) (hflips : r.rtp.nnSeqFlipBacks = 0)
    (hinner : x % 65536 ≠ 65535) :
    EndsBehind (onNackEnter clock r (wrap x)).rtp ⟨x, x, x, 1⟩ := by
  have hupdate : nackbufferUpdate2 r.rtp (wrap x) = (0, 0, { r.rtp with
      contexttialized := true, beginSn := wrap x, endSn := (wrap x + 1) % 65536 }) := by
    unfold nackbufferUpdate2
    rw [if_pos hctx]
  rw [onNackEnter_unfilled hupdate fun hpos => absurd hpos (by decide)]
  exact {
    contexttialized := rfl
    endSn := wrap_succ x
    flips := by
      show (r.rtp.nnSeqFlipBacks : Int) = x / 65536 - x / 65536
      omega
    inner := hinner
    beginSn := wrap_lt x }

end Arrive

/-- Nothing has come, or the window ends behind what has. -/
def HighestWorld.Sound (w : HighestWorld) : Prop :=
  match w.received with
  | none => w.recvnack.rtp.contexttialized = false ∧ w.recvnack.rtp.nnSeqFlipBacks = 0
  | some r => EndsBehind w.recvnack.rtp r

theorem HighestWorld.Sound.swept {w : HighestWorld} (hw : w.Sound) (now : Int) (ssrc : Nat) :
    (w.next (.sweep now ssrc)).Sound := by
  have hswept := checkSendNacks_swept now ssrc w.recvnack
  have hkept := checkSendNacks_window now ssrc w.recvnack
  obtain ⟨recvnack, received⟩ := w
  cases received with
  | none =>
    obtain ⟨hctx, hflips⟩ : recvnack.rtp.contexttialized = false ∧ _ := hw
    exact ⟨hswept.contexttialized.trans hctx, hkept.1.trans hflips⟩
  | some r => exact EndsBehind.swept hw hswept hkept

theorem HighestWorld.Sound.arrive {w : HighestWorld} {clock : Nat → Int} {now : Int} {ssrc : Nat}
    {x : Int} (hw : w.Sound) (hnear : Near w.received x)
    (h : HighestEvent.Steady w (.arrive clock now ssrc x)) :
    (w.next (.arrive clock now ssrc x)).Sound := by
  obtain ⟨recvnack, received⟩ := w
  obtain ⟨hhighest, hroom⟩ := h
  have hentered (received' : Received) (hout : wrap x ∉ recvnack.queue.sns)
      (hends : EndsBehind (onNackEnter clock recvnack (wrap x)).rtp received') :
      EndsBehind (playtrackOnNack clock now ssrc recvnack (wrap x)).1.rtp received' :=
    hends.swept (onNack_swept clock now ssrc hout) (onNack_window clock now ssrc hout)
  cases received with
  | none =>
    obtain ⟨hctx, hflips⟩ : recvnack.rtp.contexttialized = false ∧ _ := hw
    obtain ⟨hinner, hout⟩ := hhighest fun _ hr => (nomatch hr)
    exact hentered _ hout (.first hctx hflips hinner)
  | some r =>
    have hends : EndsBehind recvnack.rtp r := hw
    obtain ⟨hlo, hhi⟩ := hnear r rfl
    by_cases hhigh : r.high < x
    · obtain ⟨hinner, hout⟩ := hhighest fun _ hr => Option.some.inj hr ▸ hhigh
      exact hentered _ hout (hends.ahead hhigh hhi hinner (hroom rfl hout))
    · by_cases hwaited : wrap x ∈ recvnack.queue.sns
      · have hfound : (recvnackFind recvnack (wrap x)).isSome := by rwa [recvnackFind_isSome]
        have hmax : max r.high x = r.high := by omega
        show EndsBehind (playtrackOnNack clock now ssrc recvnack (wrap x)).1.rtp
          (Received.next (some r) x)
        rw [playtrackOnNack, if_pos hfound, Received.next, hmax]
        exact ⟨hends.contexttialized, hends.endSn, hends.flips, hends.inner, hends.beginSn⟩
      · exact hentered _ hwaited (hends.behind (by omega) hlo (hroom rfl hwaited))

theorem HighestWorld.Sound.next {w w' : HighestWorld} {e : HighestEvent} (hw : w.Sound)
    (h : e.Steady w) (hstep : HighestStep w e w') : w'.Sound := by
  cases hstep with
  | arrive hnear => exact hw.arrive hnear h
  | sweep => exact hw.swept _ _
  | setNackInterval => exact hw

/-- **The extended highest number.** In every run whose highest numbers are not the last of their
cycles and whose losses do not fill the list, it is the highest number received. -/
theorem extends_highest (capacity queueSize : Nat) {es : List HighestEvent} {w : HighestWorld}
    (hl : Run.Leads HighestStep es (.start capacity queueSize) w)
    (h : Run.Throughout HighestStep (fun w e => e.Steady w) es (.start capacity queueSize)) :
    ExtendsHighest w := by
  have hsound : w.Sound := Run.leads_invariant HighestWorld.Sound
    (fun _ _ _ hv he hstep => hv.next he hstep) hl ⟨rfl, rfl⟩ h
  intro r hr
  unfold HighestWorld.Sound at hsound
  rw [hr] at hsound
  exact EndsBehind.extends hsound

/-- The packet of a number, at the time the session starts. -/
def HighestEvent.packet (x : Int) : HighestEvent := .arrive (fun _ => 0) 0 1 x

/-- The last number of a cycle is lost. -/
theorem extends_highest_lost :
    ExtendsHighest (((HighestWorld.start 1000 666).next (.packet 65534)).next (.packet 65537)) ∧
    nackbufferGetExtendedHighestSequence (((HighestWorld.start 1000 666).next
      (.packet 65534)).next (.packet 65537)).recvnack.rtp = 65537 := by
  have hl : Run.Leads HighestStep [.packet 65534, .packet 65537] (.start 1000 666) _ :=
    .cons (.arrive fun _ h => (nomatch h)) (.cons (.arrive fun r h => by cases h; decide) (.nil _))
  refine ⟨extends_highest 1000 666 hl ⟨?_, fun v hv => ⟨?_, fun _ _ => trivial⟩⟩, by decide⟩
  · exact ⟨fun _ => by decide, fun h => (nomatch h)⟩
  · cases hv
    exact ⟨fun _ => by decide, fun _ _ _ => by decide⟩

/-- The last number of a cycle and the first of the next: the cycle is not counted. -/
theorem cycle_not_counted : ¬ ∀ (es : List HighestEvent) (w : HighestWorld),
    Run.Leads HighestStep es (.start 1000 666) w → ExtendsHighest w := by
  intro h
  have hl : Run.Leads HighestStep [.packet 65535, .packet 65536] (.start 1000 666) _ :=
    .cons (.arrive fun _ h => (nomatch h)) (.cons (.arrive fun r h => by cases h; decide) (.nil _))
  exact absurd (h _ _ hl _ rfl) (by decide)

end MetaRtc
