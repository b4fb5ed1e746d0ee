import Mathlib.Data.Finset.Card
import MetaRtc.Play.Proper

/-! # The recursion over the frames that are there

Each call but the first finds its packets in use and releases them, so that there are no more
calls than slots. -/
namespace MetaRtc

open Bytes Exec

/-- A call of `packet_video`. -/
structure FrameCall where
  track : PlayTrackH2645
  start : Nat
  last : Nat

namespace FrameCall

def cache (c : FrameCall) : Nat → PacketCache := c.track.cacheVideoPkts

def count (c : FrameCall) : Nat := frameCount c.start c.last

/-- The slot of the packet at a place of the range. -/
def slot (c : FrameCall) (i : Nat) : Nat := cacheIndex (c.start + i)

def run (codec : PlayCodec) (ring : Mem) (n : Nat) (c : FrameCall) :
    Call (Err × PlayTrackH2645) :=
  packetVideo codec ring n c.track c.start c.last

end FrameCall

/-- The call that a call makes of itself. -/
inductive Recurses (codec : PlayCodec) (ring : Mem) : FrameCall → FrameCall → Prop
  | next {nb start last tailSn : Nat} {track track₁ track₂ : PlayTrackH2645} :
      assembleFrame codec ring track start last = .ret (track₁, nb) →
      putFrameVideo track₁ (track.cacheVideoPkts (cacheIndex start)).ts nb = .ret track₂ →
      findNextLostSn { track₂ with headerSn := (last + 1) % 65536 } ((last + 1) % 65536) =
        .frame tailSn →
      checkFrameComplete codec { track₂ with headerSn := (last + 1) % 65536 }
        ((last + 1) % 65536) tailSn = true →
      Recurses codec ring ⟨track, start, last⟩
        ⟨{ track₂ with headerSn := (last + 1) % 65536 }, (last + 1) % 65536, tailSn⟩

def slotsInUse (cache : Nat → PacketCache) : Nat :=
  ((Finset.range yangRtcRecvBufferCount).filter fun i => (cache i).inUse).card

/-- A range that is not empty, in use before the call and in use no more when its packets are put
together nor when the call returns. -/
structure TakesRange (codec : PlayCodec) (ring : Mem) (c : FrameCall) : Prop where
  nonempty : 0 < c.count
  before : ∀ i < c.count, (c.cache (c.slot i)).inUse = true
  assembled : ∀ {t nb}, assembleFrame codec ring c.track c.start c.last = .ret (t, nb) →
    ∀ i < c.count, (t.cacheVideoPkts (c.slot i)).inUse = false
  after : ∀ {n err t}, c.run codec ring (n + 1) = .ret (err, t) →
    ∀ i < c.count, (t.cacheVideoPkts (c.slot i)).inUse = false

section Release

variable {codec : PlayCodec} {ring : Mem} {cache cache' : Nat → PacketCache}
  {track t : PlayTrackH2645} {start last nb n i j : Nat} {err : Err}

theorem retains_free (h : Retains cache cache') (hfree : (cache j).inUse = false) :
    (cache' j).inUse = false := by
  by_contra huse
  have huse' := Bool.not_eq_false _ ▸ huse
  rw [h j huse', hfree] at huse'
  cases huse'

theorem assembleFrame_free (h : assembleFrame codec ring track start last = .ret (t, nb))
    (hi : i < frameCount start last) :
    (t.cacheVideoPkts (cacheIndex (start + i))).inUse = false := by
  obtain ⟨keyFrameTs, ht⟩ := assembleFrame_changes h
  rw [ht]
  exact releaseAll_free codec start _ hi

theorem assembleFrame_retains (h : assembleFrame codec ring track start last = .ret (t, nb)) :
    Retains track.cacheVideoPkts t.cacheVideoPkts := by
  obtain ⟨keyFrameTs, ht⟩ := assembleFrame_changes h
  rw [ht]
  exact releaseAll_retains codec start _ _

theorem putFrameVideo_cache {timestamp : Int} (h : putFrameVideo track timestamp nb = .ret t) :
    t.cacheVideoPkts = track.cacheVideoPkts := by
  rw [putFrameVideo_changes h]

/-- Whatever calls follow, no slot is taken into use. -/
theorem packetVideo_retains (h : packetVideo codec ring n track start last = .ret (err, t)) :
    Retains track.cacheVideoPkts t.cacheVideoPkts := by
  refine packetVideo_keeps (P := fun t => Retains track.cacheVideoPkts t.cacheVideoPkts) ?_ ?_
    (retains_refl _) h
  · intro track₀ track₁ track₂ start last nb timestamp hP hasm hput
    have hkept := retains_trans hP (assembleFrame_retains hasm)
    rwa [← putFrameVideo_cache hput] at hkept
  · exact fun _ hP => hP

theorem packetVideo_free (h : packetVideo codec ring (n + 1) track start last = .ret (err, t))
    (hi : i < frameCount start last) :
    (t.cacheVideoPkts (cacheIndex (start + i))).inUse = false := by
  obtain ⟨⟨track₁, nb⟩, hasm, h⟩ := Call.bind_eq_ret.mp h
  obtain ⟨track₂, hput, h⟩ := Call.bind_eq_ret.mp h
  have hfree : (track₂.cacheVideoPkts (cacheIndex (start + i))).inUse = false := by
    rw [putFrameVideo_cache hput]
    exact assembleFrame_free hasm hi
  dsimp only at h
  split at h
  · split at h
    · exact retains_free (packetVideo_retains h) hfree
    · cases h
      exact hfree
  · cases h
    exact hfree
  · cases h
    exact hfree

end Release

section Chain

variable {codec : PlayCodec} {ring : Mem} {cache cache' : Nat → PacketCache} {c c' d : FrameCall}

theorem slotsInUse_le (h : Retains cache cache') : slotsInUse cache' ≤ slotsInUse cache := by
  apply Finset.card_le_card
  intro i hi
  obtain ⟨hin, huse⟩ := Finset.mem_filter.mp hi
  exact Finset.mem_filter.mpr ⟨hin, h i huse ▸ huse⟩

theorem slotsInUse_lt (h : Retains cache cache') {j : Nat} (hj : j < yangRtcRecvBufferCount)
    (huse : (cache j).inUse = true) (hfree : (cache' j).inUse = false) :
    slotsInUse cache' < slotsInUse cache := by
  apply Finset.card_lt_card
  constructor
  · intro i hi
    obtain ⟨hin, huse⟩ := Finset.mem_filter.mp hi
    exact Finset.mem_filter.mpr ⟨hin, h i huse ▸ huse⟩
  · intro hsub
    have hmem := hsub (Finset.mem_filter.mpr ⟨Finset.mem_range.mpr hj, huse⟩)
    rw [(Finset.mem_filter.mp hmem).2] at hfree
    cases hfree

theorem FrameCall.slot_lt (c : FrameCall) (i : Nat) : c.slot i < yangRtcRecvBufferCount := by
  rw [FrameCall.slot, cacheIndex_eq]
  exact Nat.mod_lt _ (by decide)

theorem slotsInUse_bound (cache : Nat → PacketCache) :
    slotsInUse cache ≤ yangRtcRecvBufferCount :=
  (Finset.card_filter_le _ _).trans (Nat.le_of_eq (Finset.card_range _))

/-- The search for the next frame begins with a packet of that frame's own timestamp, so that the
range it comes to holds that packet at least. -/
theorem findNextLostSn_range {t : PlayTrackH2645} {tailSn : Nat} (hstart : t.headerSn < 65536)
    (h : findNextLostSn t t.headerSn = .frame tailSn) :
    0 < frameCount t.headerSn tailSn ∧
      ∀ i < frameCount t.headerSn tailSn,
        (t.cacheVideoPkts (cacheIndex (t.headerSn + i))).inUse = true := by
  obtain ⟨k, hk, huse, hbefore, htail⟩ :=
    findNextLostLoop_frame (Nat.add_zero _) (fun _ hj => absurd hj (Nat.not_lt_zero _)) h
  obtain htail | ⟨hts, htail⟩ := htail
  · rw [htail, frameCount_eq hstart hk]
    refine ⟨Nat.succ_pos k, fun i hi => ?_⟩
    rcases Nat.lt_succ_iff_lt_or_eq.mp hi with hlt | rfl
    · exact (hbefore i hlt).1
    · exact huse
  · have hk0 : k ≠ 0 := by
      rintro rfl
      exact hts rfl
    obtain ⟨m, rfl⟩ := Nat.exists_eq_succ_of_ne_zero hk0
    have hcount : tailSn = (t.headerSn + m) % 65536 := by omega
    rw [hcount, frameCount_eq hstart (by omega)]
    exact ⟨Nat.succ_pos m, fun i hi => (hbefore i hi).1⟩

theorem Recurses.range (h : Recurses codec ring c c') :
    0 < c'.count ∧ ∀ i < c'.count, (c'.cache (c'.slot i)).inUse = true := by
  obtain ⟨-, -, hfind, -⟩ := h
  exact findNextLostSn_range (Nat.mod_lt _ (by decide)) hfind

theorem Recurses.retains (h : Recurses codec ring c c') : Retains c.cache c'.cache := by
  obtain ⟨hasm, hput, -, -⟩ := h
  simp only [FrameCall.cache, putFrameVideo_cache hput]
  exact assembleFrame_retains hasm

theorem Recurses.takesRange (h : Recurses codec ring c c') : TakesRange codec ring c' where
  nonempty := h.range.1
  before := h.range.2
  assembled hasm _ hi := assembleFrame_free hasm hi
  after hrun _ hi := packetVideo_free hrun hi

/-- A call made by a recursive call finds less slots in use. -/
theorem Recurses.falls (h : Recurses codec ring c c') (hc : TakesRange codec ring c) :
    slotsInUse c'.cache < slotsInUse c.cache := by
  have huse := hc.before 0 hc.nonempty
  apply slotsInUse_lt h.retains (c.slot_lt 0) huse
  obtain ⟨hasm, hput, -, -⟩ := h
  simp only [FrameCall.cache, putFrameVideo_cache hput]
  exact hc.assembled hasm 0 hc.nonempty

theorem TakesRange.pos (hc : TakesRange codec ring c) : 0 < slotsInUse c.cache := by
  apply Finset.card_pos.mpr
  exact ⟨_, Finset.mem_filter.mpr ⟨Finset.mem_range.mpr (c.slot_lt 0), hc.before 0 hc.nonempty⟩⟩

theorem chain_falls {cs : List FrameCall} (hc : TakesRange codec ring c)
    (h : List.IsChain (Recurses codec ring) (c :: cs)) : cs.length < slotsInUse c.cache := by
  induction cs generalizing c with
  | nil => exact hc.pos
  | cons d cs ih =>
    obtain ⟨hnext, hrest⟩ := List.isChain_cons_cons.mp h
    have hfalls := hnext.falls hc
    have hlen := ih hnext.takesRange hrest
    rw [List.length_cons]
    omega

theorem chain_length {cs : List FrameCall} (h : List.IsChain (Recurses codec ring) (c :: cs)) :
    cs.length ≤ slotsInUse c.cache := by
  cases cs with
  | nil => exact Nat.zero_le _
  | cons d cs =>
    obtain ⟨hnext, hrest⟩ := List.isChain_cons_cons.mp h
    have hlen := chain_falls hnext.takesRange hrest
    have hle := slotsInUse_le hnext.retains
    rw [List.length_cons]
    omega

theorem chain_takesRange {cs : List FrameCall}
    (h : List.IsChain (Recurses codec ring) (c :: cs)) : ∀ d ∈ cs, TakesRange codec ring d := by
  induction cs generalizing c with
  | nil => exact fun _ hd => absurd hd List.not_mem_nil
  | cons d cs ih =>
    obtain ⟨hnext, hrest⟩ := List.isChain_cons_cons.mp h
    exact List.forall_mem_cons.mpr ⟨hnext.takesRange, ih hrest⟩

theorem acc_takesRange (hc : TakesRange codec ring c) :
    Acc (fun c' c => Recurses codec ring c c') c := by
  induction hn : slotsInUse c.cache using Nat.strongRecOn generalizing c with
  | ind n ih =>
    constructor
    intro c' hnext
    exact ih _ (hn ▸ hnext.falls hc) hnext.takesRange rfl

/-- A call that runs its next call the same way runs the same way itself. -/
theorem run_congr {n m : Nat}
    (h : ∀ c', Recurses codec ring c c' → c'.run codec ring n = c'.run codec ring m) :
    c.run codec ring (n + 1) = c.run codec ring (m + 1) := by
  obtain ⟨track, start, last⟩ := c
  simp only [FrameCall.run, packetVideo]
  cases hasm : assembleFrame codec ring track start last with
  | blocked => rw [Call.blocked_bind, Call.blocked_bind]
  | crash => rw [Call.crash_bind, Call.crash_bind]
  | ret framed =>
    obtain ⟨track₁, nb⟩ := framed
    simp only [Call.ret_bind]
    cases hput : putFrameVideo track₁ (track.cacheVideoPkts (cacheIndex start)).ts nb with
    | blocked => rw [Call.blocked_bind, Call.blocked_bind]
    | crash => rw [Call.crash_bind, Call.crash_bind]
    | ret track₂ =>
      simp only [Call.ret_bind]
      split
      · rename_i tailSn hfind
        split
        · rename_i hcheck
          exact h _ (.next hasm hput hfind hcheck)
        · rfl
      · rfl
      · rfl

theorem run_takesRange {n : Nat} (hc : TakesRange codec ring c) (hn : slotsInUse c.cache ≤ n)
    (k : Nat) : c.run codec ring (n + k) = c.run codec ring n := by
  induction n generalizing c with
  | zero => exact absurd hc.pos (by omega)
  | succ n ih =>
    rw [Nat.add_right_comm]
    apply run_congr
    intro c' hnext
    exact ih hnext.takesRange (by have := hnext.falls hc; omega)

/-- As many calls as there are slots, and the first one, are never too few. -/
theorem run_enough (codec : PlayCodec) (ring : Mem) (c : FrameCall) (k : Nat) :
    c.run codec ring (yangRtcRecvBufferCount + 1 + k) =
      c.run codec ring (yangRtcRecvBufferCount + 1) := by
  rw [Nat.add_right_comm]
  apply run_congr
  intro c' hnext
  exact run_takesRange hnext.takesRange (slotsInUse_bound _) k

/-- From any cache, header and range on, a call leads to as many further calls as slots are in use
at the most, each of which takes a range of such slots. -/
theorem recursion_ends (codec : PlayCodec) (ring : Mem) (c : FrameCall) :
    Acc (fun c' c => Recurses codec ring c c') c ∧
    (∀ cs, List.IsChain (Recurses codec ring) (c :: cs) →
      cs.length ≤ slotsInUse c.cache ∧ ∀ c' ∈ cs, TakesRange codec ring c') ∧
    ∀ k, c.run codec ring (yangRtcRecvBufferCount + 1 + k) =
      c.run codec ring (yangRtcRecvBufferCount + 1) := by
  refine ⟨⟨c, fun _ h => acc_takesRange h.takesRange⟩, ?_, run_enough codec ring c⟩
  intro cs h
  exact ⟨chain_length h, chain_takesRange h⟩

end Chain

end MetaRtc
