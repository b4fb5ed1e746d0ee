import MetaRtc.Play.Assembly

/-! # What a frame leaves of the cache

The slots of a frame are released, whatever is written of them. Those still in use
afterwards are as they were. -/
namespace MetaRtc

open Bytes Exec

/-- The slots still in use are as they were. -/
def Retains (cache cache' : Nat → PacketCache) : Prop :=
  ∀ j, (cache' j).inUse = true → cache' j = cache j

/-- What the packet at the `i`-th place of a frame leaves of the cache. -/
def releaseOne (codec : PlayCodec) (start i : Nat) (cache : Nat → PacketCache) :
    Nat → PacketCache :=
  let index := cacheIndex (start + i)
  let pkt : PacketCache := { cache index with inUse := false }
  if pkt.naluType = codec.fuA ∧ pkt.nb > 0 then
    Function.update cache index { pkt with fua2 := {} }
  else if pkt.naluType = codec.stapA then Function.update cache index pkt
  else if pkt.payload.isSome ∧ pkt.nb > 0 then
    Function.update cache index { pkt with payload := none }
  else Function.update (Function.update cache index pkt) i {}

/-- The cache as the packet at the `n`-th place of a frame finds it. -/
def releaseAll (codec : PlayCodec) (start : Nat) (cache : Nat → PacketCache) :
    Nat → Nat → PacketCache
  | 0 => cache
  | n + 1 => releaseOne codec start n (releaseAll codec start cache n)

section Slots

variable {codec : PlayCodec} {ring : Mem} {start n i : Nat}
  {cache cache₁ cache₂ : Nat → PacketCache} {out out' : Output}

theorem retains_refl (cache : Nat → PacketCache) : Retains cache cache := fun _ _ => rfl

theorem retains_trans (h : Retains cache cache₁) (k : Retains cache₁ cache₂) :
    Retains cache cache₂ := by
  intro j hj
  have hk := k j hj
  rw [hk] at hj ⊢
  exact h j hj

theorem retains_update (cache : Nat → PacketCache) (index : Nat) {pkt : PacketCache}
    (h : pkt.inUse = false) : Retains cache (Function.update cache index pkt) := by
  intro j hj
  by_cases hji : j = index
  · rw [hji, Function.update_self, h] at hj
    cases hj
  · exact Function.update_of_ne hji _ _

theorem releaseOne_retains (codec : PlayCodec) (start i : Nat) (cache : Nat → PacketCache) :
    Retains cache (releaseOne codec start i cache) := by
  simp only [releaseOne]
  split
  · exact retains_update _ _ rfl
  · split
    · exact retains_update _ _ rfl
    · split
      · exact retains_update _ _ rfl
      · exact retains_trans (retains_update _ _ rfl) (retains_update _ _ rfl)

theorem releaseAll_retains (codec : PlayCodec) (start : Nat) (cache : Nat → PacketCache)
    (n : Nat) : Retains cache (releaseAll codec start cache n) := by
  induction n with
  | zero => exact retains_refl cache
  | succ n ih => exact retains_trans ih (releaseOne_retains _ _ _ _)

/-- A packet is released the same way whatever the frame has come to. -/
theorem packetOne_release (h : packetOne codec ring start i cache out = .ret (cache₁, out')) :
    cache₁ = releaseOne codec start i cache := by
  have hclear : ∀ {c : Nat → PacketCache}, (clearSlot c i >>= fun c' => Call.ret (c', out)) =
      .ret (cache₁, out') → cache₁ = Function.update c i {} := by
    intro c hc
    obtain ⟨c', hslot, hret⟩ := Call.bind_eq_ret.mp hc
    cases hret
    unfold clearSlot at hslot
    split at hslot
    · exact (Call.ret.inj hslot).symm
    · cases hslot
  simp only [packetOne] at h
  simp only [releaseOne]
  split at h
  · rename_i hfu
    obtain ⟨p, -, hrest⟩ := Call.bind_eq_ret.mp h
    obtain ⟨mid, -, hret⟩ := Call.bind_eq_ret.mp hrest
    cases hret
    rw [if_pos hfu, Function.update_idem]
  · rename_i hfu
    rw [if_neg hfu]
    split at h
    · rename_i hst
      obtain ⟨p, -, hrest⟩ := Call.bind_eq_ret.mp h
      obtain ⟨mid, -, hret⟩ := Call.bind_eq_ret.mp hrest
      cases hret
      rw [if_pos hst]
    · rename_i hst
      rw [if_neg hst]
      split at h
      · rename_i p hp
        split at h
        · rename_i hnb
          obtain ⟨mid, -, hret⟩ := Call.bind_eq_ret.mp h
          cases hret
          rw [if_pos ⟨by rw [hp]; rfl, hnb⟩, Function.update_idem]
        · rename_i hnb
          rw [if_neg fun hno => hnb hno.2]
          exact hclear h
      · rename_i hp
        rw [if_neg fun hno => by simp [hp] at hno]
        exact hclear h

theorem assembleLoop_release
    (h : assembleLoop codec ring start n i (releaseAll codec start cache i) out =
      .ret (cache₁, out')) : cache₁ = releaseAll codec start cache (i + n) := by
  induction n generalizing i out with
  | zero =>
    cases h
    rfl
  | succ n ih =>
    obtain ⟨⟨cache₂, mid⟩, hone, hrest⟩ := Call.bind_eq_ret.mp h
    dsimp only at hrest
    rw [packetOne_release hone] at hrest
    rw [ih hrest, Nat.add_right_comm, Nat.add_assoc]

end Slots

section Frame

variable {codec : PlayCodec} {ring : Mem} {track track' : PlayTrackH2645} {start last nb : Nat}

/-- An assembly changes the cache, the buffer and the time of the key frame, nothing else. -/
theorem assembleFrame_changes
    (h : assembleFrame codec ring track start last = .ret (track', nb)) :
    ∃ keyFrameTs, track' = { track with
      keyFrameTs
      videoBuffer := track'.videoBuffer
      cacheVideoPkts :=
        releaseAll codec start track.cacheVideoPkts (frameCount start last) } := by
  obtain ⟨key, -, h⟩ := Call.bind_eq_ret.mp h
  obtain ⟨buffer, -, h⟩ := Call.bind_eq_ret.mp h
  obtain ⟨⟨cache, out⟩, hloop, hret⟩ := Call.bind_eq_ret.mp h
  have hcache : (if key then { track with keyFrameTs := -1 } else track).cacheVideoPkts =
      releaseAll codec start track.cacheVideoPkts 0 := by
    split <;> rfl
  rw [hcache] at hloop
  have hrelease := assembleLoop_release hloop
  rw [Nat.zero_add] at hrelease
  cases hret
  subst hrelease
  split
  · exact ⟨_, rfl⟩
  · exact ⟨_, rfl⟩

/-- A frame handed on changes nothing of the track. -/
theorem putFrameVideo_changes {timestamp : Int}
    (h : putFrameVideo track timestamp nb = .ret track') :
    track' = { track with frames := track'.frames } := by
  unfold putFrameVideo at h
  split at h
  · cases h
    rfl
  · obtain ⟨frames, -, hret⟩ := Call.bind_eq_ret.mp h
    cases hret
    rfl

end Frame

end MetaRtc
