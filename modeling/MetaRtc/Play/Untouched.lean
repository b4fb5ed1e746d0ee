import MetaRtc.Play.Classifiers
import MetaRtc.Play.Collect
import MetaRtc.Play.Release

/-! # The slots an assembly leaves alone

For an empty packet the slot is cleared that has the packet's place in the frame for its
index. That is another slot than the packet's own unless the frame begins a round of the
cache, and if it belongs to the frame too, the packet in it is found empty in its turn. -/
namespace MetaRtc

open Bytes Exec

/-- A slot of a number from `start` to `last`. -/
def InRange (start last j : Nat) : Prop :=
  ∃ i < frameCount start last, j = cacheIndex (start + i)

/-- Every slot but those of the frame is as it was. -/
def KeepsOthers (start last : Nat) (cache cache' : Nat → PacketCache) : Prop :=
  ∀ j < yangRtcRecvBufferCount, ¬ InRange start last j → cache' j = cache j

/-- A packet nothing is written of: neither an aggregate nor bytes to copy. -/
def EmptySlot (codec : PlayCodec) (pkt : PacketCache) : Prop :=
  ¬ (pkt.naluType = codec.fuA ∧ pkt.nb > 0) ∧ pkt.naluType ≠ codec.stapA ∧
    ¬ (pkt.payload.isSome ∧ pkt.nb > 0)

instance (codec : PlayCodec) (pkt : PacketCache) : Decidable (EmptySlot codec pkt) :=
  inferInstanceAs (Decidable (_ ∧ _ ∧ _))

/-- Of the first `n` places, those whose packet is empty: as it was cached, or since an earlier
place was found empty. -/
def emptyPlaces (codec : PlayCodec) (cache : Nat → PacketCache) (start : Nat) : Nat → List Nat
  | 0 => []
  | n + 1 =>
    let places := emptyPlaces codec cache start n
    let index := cacheIndex (start + n)
    if index ∈ places ∨ EmptySlot codec (cache index) then n :: places else places

/-- The slots of the empty places' numbers belong to the frame, or have been zero before. A
frame of more packets than the cache has slots has no others. -/
def ClearsInside (codec : PlayCodec) (cache : Nat → PacketCache) (start last : Nat) : Prop :=
  frameCount start last ≤ yangRtcRecvBufferCount →
    ∀ n ∈ emptyPlaces codec cache start (frameCount start last),
      InRange start last n ∨ cache n = {}

section Release

variable {codec : PlayCodec} {start n j : Nat} {cache : Nat → PacketCache}

theorem releaseOne_empty (h : EmptySlot codec (cache (cacheIndex (start + n)))) :
    releaseOne codec start n cache = Function.update (Function.update cache (cacheIndex (start + n))
      { cache (cacheIndex (start + n)) with inUse := false }) n {} := by
  obtain ⟨hfu, hst, hraw⟩ := h
  simp only [releaseOne]
  rw [if_neg hfu, if_neg hst, if_neg hraw]

theorem releaseOne_elsewhere (h : ¬ EmptySlot codec (cache (cacheIndex (start + n))))
    (hj : j ≠ cacheIndex (start + n)) : releaseOne codec start n cache j = cache j := by
  simp only [releaseOne]
  split
  · exact Function.update_of_ne hj _ _
  · rename_i hfu
    split
    · exact Function.update_of_ne hj _ _
    · rename_i hst
      split
      · exact Function.update_of_ne hj _ _
      · rename_i hraw
        exact absurd ⟨hfu, hst, hraw⟩ h

theorem emptySlot_default (hstap : codec.stapA ≠ 0) : EmptySlot codec {} :=
  ⟨fun h => absurd h.2 (Nat.lt_irrefl 0), fun h => hstap h.symm, fun h => absurd h.2 (Nat.lt_irrefl 0)⟩

/-- What the first `n` places leave: the slots cleared for the empty ones are zero, and of the
others those of numbers still to come, or of none, are as they were. -/
theorem releaseAll_slots (hstap : codec.stapA ≠ 0) (cache : Nat → PacketCache) (start : Nat)
    (hn : n ≤ 512) :
    (∀ j ∈ emptyPlaces codec cache start n, releaseAll codec start cache n j = {}) ∧
      ∀ j, j ∉ emptyPlaces codec cache start n → (∀ i < n, j ≠ cacheIndex (start + i)) →
        releaseAll codec start cache n j = cache j := by
  induction n with
  | zero => exact ⟨fun _ hj => absurd hj List.not_mem_nil, fun _ _ _ => rfl⟩
  | succ n ih =>
    obtain ⟨hzero, hsame⟩ := ih (by omega)
    -- the packet at place `n` has not been reached by its own number before
    have hnew : ∀ i < n, cacheIndex (start + n) ≠ cacheIndex (start + i) :=
      fun i hi => cacheIndex_ne (by omega) (by omega) (by omega)
    have hfound : EmptySlot codec (releaseAll codec start cache n (cacheIndex (start + n))) ↔
        cacheIndex (start + n) ∈ emptyPlaces codec cache start n ∨
          EmptySlot codec (cache (cacheIndex (start + n))) := by
      by_cases hmem : cacheIndex (start + n) ∈ emptyPlaces codec cache start n
      · rw [hzero _ hmem]
        exact iff_of_true (emptySlot_default hstap) (.inl hmem)
      · rw [hsame _ hmem hnew]
        exact ⟨.inr, fun h => h.resolve_left hmem⟩
    simp only [releaseAll, emptyPlaces]
    by_cases hempty : EmptySlot codec (releaseAll codec start cache n (cacheIndex (start + n)))
    · rw [if_pos (hfound.mp hempty), releaseOne_empty hempty]
      constructor
      · intro j hj
        by_cases hjn : j = n
        · rw [hjn, Function.update_self]
        · rw [Function.update_of_ne hjn]
          have hj' := hzero j ((List.mem_cons.mp hj).resolve_left hjn)
          by_cases hji : j = cacheIndex (start + n)
          · rw [← hji, Function.update_self, hj']
          · rw [Function.update_of_ne hji, hj']
      · intro j hj hothers
        have hjn : j ≠ n := fun h => hj (h ▸ List.mem_cons_self)
        have hj' : j ∉ emptyPlaces codec cache start n := fun h => hj (List.mem_cons_of_mem n h)
        rw [Function.update_of_ne hjn, Function.update_of_ne (hothers n (by omega)),
          hsame j hj' fun i hi => hothers i (by omega)]
    · rw [if_neg (fun h => hempty (hfound.mpr h))]
      have hout : cacheIndex (start + n) ∉ emptyPlaces codec cache start n :=
        fun h => hempty (hfound.mpr (.inl h))
      constructor
      · intro j hj
        rw [releaseOne_elsewhere hempty (fun h => hout (h ▸ hj)), hzero j hj]
      · intro j hj hothers
        rw [releaseOne_elsewhere hempty (hothers n (by omega)),
          hsame j hj fun i hi => hothers i (by omega)]

end Release

theorem inRange_of_count {start last : Nat} (h : 512 ≤ frameCount start last) {j : Nat}
    (hj : j < yangRtcRecvBufferCount) : InRange start last j := by
  obtain ⟨k, hk, hkj⟩ := cacheIndex_from start j
  rw [cacheIndex_eq, Nat.mod_eq_of_lt (show j < 512 from hj)] at hkj
  exact ⟨k, by omega, hkj⟩

theorem mem_emptyPlaces {codec : PlayCodec} {cache : Nat → PacketCache} {start n j : Nat}
    (h : j ∈ emptyPlaces codec cache start n) : j < n := by
  induction n with
  | zero => exact absurd h List.not_mem_nil
  | succ n ih =>
    simp only [emptyPlaces] at h
    split at h
    · rcases List.mem_cons.mp h with rfl | h
      · exact Nat.lt_succ_self _
      · exact Nat.lt_succ_of_lt (ih h)
    · exact Nat.lt_succ_of_lt (ih h)

theorem releaseAll_keeps_iff {codec : PlayCodec} (hstap : codec.stapA ≠ 0)
    (cache : Nat → PacketCache) (start last : Nat) :
    KeepsOthers start last cache (releaseAll codec start cache (frameCount start last)) ↔
      ClearsInside codec cache start last := by
  by_cases hcount : frameCount start last ≤ yangRtcRecvBufferCount
  · obtain ⟨hzero, hsame⟩ := releaseAll_slots hstap cache start hcount
    constructor
    · intro h _ j hj
      by_cases hin : InRange start last j
      · exact .inl hin
      · right
        rw [← h j (Nat.lt_of_lt_of_le (mem_emptyPlaces hj) hcount) hin, hzero j hj]
    · intro h j _ hout
      by_cases hj : j ∈ emptyPlaces codec cache start (frameCount start last)
      · rw [hzero j hj, (h hcount j hj).resolve_left hout]
      · exact hsame j hj fun i hi hji => hout ⟨i, hi, hji⟩
  · have hall : ∀ j < yangRtcRecvBufferCount, InRange start last j :=
      fun j hj => inRange_of_count (Nat.le_of_not_le hcount) hj
    exact iff_of_true (fun j hj hout => absurd (hall j hj) hout) fun h => absurd h hcount

/-- An assembly that comes to its end changes no slot but those of the frame exactly when the
slots it clears for empty packets are the frame's, or were zero. -/
theorem assembleFrame_keeps_iff {codec : VideoCodec} {ring : Mem} {track track' : PlayTrackH2645}
    {start last nb : Nat} (h : assembleFrame codec.play ring track start last = .ret (track', nb)) :
    KeepsOthers start last track.cacheVideoPkts track'.cacheVideoPkts ↔
      ClearsInside codec.play track.cacheVideoPkts start last := by
  have hstap : codec.play.stapA ≠ 0 := by cases codec <;> decide
  obtain ⟨keyFrameTs, hchanges⟩ := assembleFrame_changes h
  rw [hchanges]
  exact releaseAll_keeps_iff hstap _ _ _

theorem assembleFrame_keeps_one :
    let pkt : PacketCache := { inUse := true, sn := 3, naluType := 1, nb := 2, payload := some 0 }
    let track : PlayTrackH2645 := { cacheVideoPkts := Function.update (fun _ => {}) 3 pkt }
    ∃ track' nb, assembleFrame playH264 (ofList [0x61, 0x80]) track 3 3 = .ret (track', nb) ∧
      KeepsOthers 3 3 track.cacheVideoPkts track'.cacheVideoPkts := by
  intro pkt track
  have hrun : (do
      let done ← assembleFrame playH264 (ofList [0x61, 0x80]) track 3 3
      return done.2) = .ret 11 := by
    decide +kernel
  obtain ⟨⟨track', nb⟩, h, -⟩ := Call.bind_eq_ret.mp hrun
  have hplaces : emptyPlaces playH264 track.cacheVideoPkts 3 (frameCount 3 3) = [] := by
    decide +kernel
  have hone : assembleFrame VideoCodec.h264.play (ofList [0x61, 0x80]) track 3 3 = .ret (track', nb) := h
  refine ⟨track', nb, h, (assembleFrame_keeps_iff hone).mpr fun _ n hn => ?_⟩
  exact absurd (hplaces ▸ hn) List.not_mem_nil

/-- A frame of one packet without payload, number 3, clears slot 0, which holds number 512. -/
theorem empty_packet_clears_other :
    let pkt : PacketCache := { inUse := true, sn := 3, naluType := 1, payload := some 0 }
    let next : PacketCache := { inUse := true, sn := 512, naluType := 1, nb := 2, payload := some 0 }
    let track : PlayTrackH2645 :=
      { cacheVideoPkts := Function.update (Function.update (fun _ => {}) 3 pkt) 0 next }
    ∃ track' nb, assembleFrame playH264 (ofList [0x61, 0x80]) track 3 3 = .ret (track', nb) ∧
      (track.cacheVideoPkts 0).inUse = true ∧
      ¬ KeepsOthers 3 3 track.cacheVideoPkts track'.cacheVideoPkts := by
  intro pkt next track
  have hrun : (do
      let done ← assembleFrame playH264 (ofList [0x61, 0x80]) track 3 3
      return (done.1.cacheVideoPkts 0).inUse) = .ret false := by
    decide +kernel
  obtain ⟨⟨track', nb⟩, h, hret⟩ := Call.bind_eq_ret.mp hrun
  refine ⟨track', nb, h, rfl, fun hkeeps => ?_⟩
  have hin : ¬ InRange 3 3 0 := by
    rintro ⟨i, hi, h0⟩
    obtain rfl : i = 0 := by
      have hone : frameCount 3 3 = 1 := by decide
      omega
    exact absurd h0 (by decide)
  have hzero : (track'.cacheVideoPkts 0).inUse = false := Call.ret.inj hret
  rw [hkeeps 0 (by decide) hin] at hzero
  exact absurd hzero (by decide)

end MetaRtc
