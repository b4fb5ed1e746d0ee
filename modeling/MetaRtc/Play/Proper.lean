import MetaRtc.Play.Pieces

/-! # The packets a frame is made of

A slot of the cache is found by the number modulo 512. That it holds the packet of the number
asked for, and not one of another cycle, is a matter of what else the cache holds. -/
namespace MetaRtc

open Bytes Exec

/-- The slot of that number is in use and holds the packet of that number. -/
def Occupied (cache : Nat → PacketCache) (s : Nat) : Prop :=
  (cache (cacheIndex s)).inUse = true ∧ (cache (cacheIndex s)).sn = s % 65536

/-- The search from `sn` on comes to the `k`-th number and takes its packet for present. -/
def FindsPresent (track : PlayTrackH2645) (sn k : Nat) : Prop :=
  k < yangRtcRecvBufferCount ∧ (track.cacheVideoPkts (cacheIndex (sn + k))).inUse = true ∧
  ∀ i < k, (track.cacheVideoPkts (cacheIndex (sn + i))).inUse = true ∧
    (track.cacheVideoPkts (cacheIndex (sn + i))).ts =
      (track.cacheVideoPkts (cacheIndex track.headerSn)).ts ∧
    (track.cacheVideoPkts (cacheIndex (sn + i))).last = false

/-- The searches that a datagram leads to: that of its arrival, and one behind each frame. -/
inductive PlayEvent.Searching (codec : PlayCodec) (play : RtcPlay) (e : PlayEvent) :
    PlayTrackH2645 → Nat → Prop
  | arrival {ring : Mem} {t : PlayTrackH2645} {sn : Nat} : e.Arrives codec play ring t (some sn) →
      Searching codec play e t sn
  | behind {ring : Mem} {t t₁ t₂ : PlayTrackH2645} {s l nb : Nat} :
      e.Assembling codec play ring t s l → assembleFrame codec ring t s l = .ret (t₁, nb) →
      putFrameVideo t₁ (t.cacheVideoPkts (cacheIndex s)).ts nb = .ret t₂ →
      Searching codec play e { t₂ with headerSn := (l + 1) % 65536 } ((l + 1) % 65536)

/-- Whatever a datagram makes the track use of the cache is what is asked for: what a search
finds and compares it with, the packets checked for completeness, and each packet of a frame
at its turn. -/
structure ProperUse (codec : PlayCodec) (play : RtcPlay) (e : PlayEvent) : Prop where
  found : ∀ t sn k, e.Searching codec play t sn → FindsPresent t sn k →
    Occupied t.cacheVideoPkts (sn + k) ∧ Occupied t.cacheVideoPkts t.headerSn
  checked : ∀ t sn tailSn k, e.Searching codec play t sn → findNextLostSn t sn = .frame tailSn →
    k < frameCount t.headerSn tailSn → Occupied t.cacheVideoPkts (t.headerSn + k)
  copied : ∀ ring t s l k, e.Assembling codec play ring t s l → k < frameCount s l →
    Occupied (releaseAll codec s t.cacheVideoPkts k) (s + k)

/-- A packet of which the assembly copies nothing. -/
def PacketCache.Empty (codec : PlayCodec) (pkt : PacketCache) : Prop :=
  pkt.naluType ≠ codec.stapA ∧ (pkt.payload = none ∨ pkt.nb = 0)

/-- Where a search begins, the cache holds packets of the 512 numbers from the header on only,
all of them up to where the search begins and not all 512 if that is behind the header. And no
frame has an empty packet whose place is the slot of a later one. -/
structure PlayEvent.OneCycle (codec : PlayCodec) (play : RtcPlay) (e : PlayEvent) : Prop where
  near : ∀ ring t sn, e.Arrives codec play ring t (some sn) →
    ∀ j, (t.cacheVideoPkts j).inUse = true →
      ((t.cacheVideoPkts j).sn + 65536 - t.headerSn) % 65536 < 512
  between : ∀ ring t sn, e.Arrives codec play ring t (some sn) →
    ∀ k < (sn + 65536 - t.headerSn) % 65536,
      (t.cacheVideoPkts (cacheIndex (t.headerSn + k))).inUse = true
  free : ∀ ring t sn, e.Arrives codec play ring t (some sn) → sn ≠ t.headerSn →
    ∃ k < 512, (t.cacheVideoPkts (cacheIndex (t.headerSn + k))).inUse = false
  empties : ∀ ring t s l, e.Assembling codec play ring t s l →
    ∀ i k, i < k → k < frameCount s l → (t.cacheVideoPkts (cacheIndex (s + i))).Empty codec →
      cacheIndex (s + k) ≠ i

/-- A slot in use is that of its packet's number. -/
def SlotsOwn (track : PlayTrackH2645) : Prop :=
  track.headerSn < 65536 ∧ ∀ j, (track.cacheVideoPkts j).inUse = true →
    cacheIndex (track.cacheVideoPkts j).sn = j ∧ (track.cacheVideoPkts j).sn < 65536

/-- What a search from `sn` on relies on. -/
structure Windowed (t : PlayTrackH2645) (sn : Nat) : Prop where
  own : SlotsOwn t
  start : sn < 65536
  near : ∀ j, (t.cacheVideoPkts j).inUse = true →
    ((t.cacheVideoPkts j).sn + 65536 - t.headerSn) % 65536 < 512
  between : ∀ k < (sn + 65536 - t.headerSn) % 65536,
    (t.cacheVideoPkts (cacheIndex (t.headerSn + k))).inUse = true
  free : sn ≠ t.headerSn →
    ∃ k < 512, (t.cacheVideoPkts (cacheIndex (t.headerSn + k))).inUse = false

/-- What the check and the assembly of a frame rely on. -/
structure Gathered (t : PlayTrackH2645) (l : Nat) : Prop where
  own : SlotsOwn t
  near : ∀ j, (t.cacheVideoPkts j).inUse = true →
    ((t.cacheVideoPkts j).sn + 65536 - t.headerSn) % 65536 < 512
  count : frameCount t.headerSn l ≤ 512
  next : (l + 1) % 65536 = (t.headerSn + frameCount t.headerSn l) % 65536
  present : ∀ k < frameCount t.headerSn l, Occupied t.cacheVideoPkts (t.headerSn + k)

section Searches

variable {t : PlayTrackH2645} {sn k tailSn : Nat}

/-- In the window a slot in use holds the number asked for. -/
theorem occupied_of_near (hown : SlotsOwn t)
    (hnear : ∀ j, (t.cacheVideoPkts j).inUse = true →
      ((t.cacheVideoPkts j).sn + 65536 - t.headerSn) % 65536 < 512)
    (hk : k < 512) (huse : (t.cacheVideoPkts (cacheIndex (t.headerSn + k))).inUse = true) :
    Occupied t.cacheVideoPkts (t.headerSn + k) := by
  refine ⟨huse, ?_⟩
  have hlt := hnear _ huse
  obtain ⟨hidx, hsn⟩ := hown.2 _ huse
  have hheader := hown.1
  rw [cacheIndex_eq, cacheIndex_eq] at hidx
  rw [cacheIndex_eq] at hlt hsn ⊢
  omega

/-- A search finds present no more than what is in a row from the header on. -/
theorem Windowed.row (h : Windowed t sn) (hk : FindsPresent t sn k) :
    ∃ d < 512, (sn + k) % 65536 = (t.headerSn + d) % 65536 ∧
      d = (sn + 65536 - t.headerSn) % 65536 + k ∧
      ∀ i ≤ d, (t.cacheVideoPkts (cacheIndex (t.headerSn + i))).inUse = true := by
  obtain ⟨hlt, huse, hbefore⟩ := hk
  have hheader := h.own.1
  have hstart := h.start
  have hrow : ∀ i ≤ (sn + 65536 - t.headerSn) % 65536 + k,
      (t.cacheVideoPkts (cacheIndex (t.headerSn + i))).inUse = true := by
    intro i hi
    by_cases hlo : i < (sn + 65536 - t.headerSn) % 65536
    · exact h.between i hlo
    · obtain ⟨j, rfl⟩ := Nat.exists_eq_add_of_le (Nat.le_of_not_lt hlo)
      have hsame : cacheIndex (t.headerSn + ((sn + 65536 - t.headerSn) % 65536 + j)) =
          cacheIndex (sn + j) := by
        rw [cacheIndex_eq, cacheIndex_eq]
        omega
      rw [hsame]
      rcases Nat.lt_or_ge j k with hj | hj
      · exact (hbefore j hj).1
      · rw [show j = k by omega]
        exact huse
  refine ⟨_, ?_, by omega, rfl, hrow⟩
  by_cases hsn : sn = t.headerSn
  · rw [hsn]
    simp only [yangRtcRecvBufferCount] at hlt
    omega
  · obtain ⟨f, hf, hfree⟩ := h.free hsn
    by_contra hge
    have hused := hrow f (by omega)
    rw [hfree] at hused
    cases hused

theorem Windowed.found (h : Windowed t sn) (hk : FindsPresent t sn k) :
    Occupied t.cacheVideoPkts (sn + k) ∧ Occupied t.cacheVideoPkts t.headerSn := by
  obtain ⟨d, hd, hsame, -, hrow⟩ := h.row hk
  have hlast := occupied_of_near h.own h.near hd (hrow d (Nat.le_refl _))
  have hfirst := occupied_of_near (k := 0) h.own h.near (by omega) (hrow 0 (Nat.zero_le _))
  refine ⟨?_, hfirst⟩
  have hidx : cacheIndex (sn + k) = cacheIndex (t.headerSn + d) := by
    rw [← cacheIndex_mod (sn + k), hsame, cacheIndex_mod]
  unfold Occupied at hlast ⊢
  rwa [hidx, hsame]

/-- The end of a frame that a search comes to is the number found present, or the one before
it where the next frame begins. -/
theorem findNextLostLoop_frame {cache : Nat → PacketCache} {lastTs n i : Nat}
    (hn : n + i = 512)
    (hbefore : ∀ j < i, (cache (cacheIndex (sn + j))).inUse = true ∧
      (cache (cacheIndex (sn + j))).ts = lastTs ∧ (cache (cacheIndex (sn + j))).last = false)
    (h : findNextLostLoop cache lastTs sn n i = .frame tailSn) :
    ∃ k < 512, (cache (cacheIndex (sn + k))).inUse = true ∧
      (∀ j < k, (cache (cacheIndex (sn + j))).inUse = true ∧
        (cache (cacheIndex (sn + j))).ts = lastTs ∧
        (cache (cacheIndex (sn + j))).last = false) ∧
      (tailSn = (sn + k) % 65536 ∨
        (cache (cacheIndex (sn + k))).ts ≠ lastTs ∧ tailSn = ((sn + k) % 65536 + 65535) % 65536) := by
  induction n generalizing i with
  | zero => cases h
  | succ n ih =>
    simp only [findNextLostLoop, cacheIndex_mod] at h
    split at h
    · cases h
    · rename_i huse
      have huse' := Bool.not_eq_false _ ▸ huse
      split at h
      · rename_i hts
        have htail := NextLost.frame.inj h
        exact ⟨i, by omega, huse', hbefore, .inr ⟨Ne.symm hts, htail.symm⟩⟩
      · rename_i hts
        split at h
        · cases h
          exact ⟨i, by omega, huse', hbefore, .inl rfl⟩
        · rename_i hlast
          refine ih (by omega) (fun j hj => ?_) h
          rcases Nat.lt_succ_iff_lt_or_eq.mp hj with hlt | rfl
          · exact hbefore j hlt
          · exact ⟨huse', (not_not.mp hts).symm, Bool.eq_false_iff.mpr hlast⟩

/-- A search from the window finds a frame whose packets are all there. -/
theorem Windowed.gathered (h : Windowed t sn) (hframe : findNextLostSn t sn = .frame tailSn) :
    Gathered t tailSn := by
  obtain ⟨k, hk, huse, hbefore, htail⟩ :=
    findNextLostLoop_frame (Nat.add_zero _) (fun _ hj => absurd hj (Nat.not_lt_zero _)) hframe
  obtain ⟨d, hd, hsame, hdist, hrow⟩ := h.row ⟨hk, huse, hbefore⟩
  have hheader := h.own.1
  have hstart := h.start
  have hcount : frameCount t.headerSn tailSn ≤ d + 1 ∧
      (tailSn + 1) % 65536 = (t.headerSn + frameCount t.headerSn tailSn) % 65536 := by
    unfold frameCount
    obtain htail | ⟨hts, htail⟩ := htail
    · omega
    · -- the header's own slot has the header's timestamp
      have hne : d ≠ 0 := by
        intro hzero
        apply hts
        have hidx : cacheIndex (sn + k) = cacheIndex t.headerSn := by
          rw [← cacheIndex_mod (sn + k), hsame, hzero, cacheIndex_mod, Nat.add_zero]
        rw [hidx]
      omega
  refine ⟨h.own, h.near, by omega, hcount.2, fun i hi => ?_⟩
  exact occupied_of_near h.own h.near (by omega) (hrow i (by omega))

end Searches

section Frames

variable {codec : PlayCodec} {ring : Mem} {t t₁ t₂ : PlayTrackH2645} {cache : Nat → PacketCache}
  {s l i k n nb : Nat} {timestamp : Int}

/-- A packet's release touches its slot, and of an empty one that of its place. -/
theorem releaseOne_other (hslot : cacheIndex (s + i) ≠ k)
    (hplace : (cache (cacheIndex (s + i))).Empty codec → k ≠ i) :
    releaseOne codec s i cache k = cache k := by
  simp only [releaseOne]
  split
  · exact Function.update_of_ne (Ne.symm hslot) _ _
  · rename_i hfu
    split
    · exact Function.update_of_ne (Ne.symm hslot) _ _
    · rename_i hstap
      split
      · exact Function.update_of_ne (Ne.symm hslot) _ _
      · rename_i hraw
        have hempty : (cache (cacheIndex (s + i))).Empty codec := by
          refine ⟨hstap, ?_⟩
          cases hp : (cache (cacheIndex (s + i))).payload with
          | none => exact .inl rfl
          | some p => exact .inr (Nat.eq_zero_of_not_pos fun hnb => hraw ⟨by simp [hp], hnb⟩)
        rw [Function.update_of_ne (hplace hempty), Function.update_of_ne (Ne.symm hslot)]

theorem releaseOne_free (codec : PlayCodec) (s i : Nat) (cache : Nat → PacketCache) :
    (releaseOne codec s i cache (cacheIndex (s + i))).inUse = false := by
  simp only [releaseOne]
  split
  · rw [Function.update_self]
  · split
    · rw [Function.update_self]
    · split
      · rw [Function.update_self]
      · by_cases hi : cacheIndex (s + i) = i
        · rw [hi, Function.update_self]
        · rw [Function.update_of_ne hi, Function.update_self]

/-- The slots of the packets whose turn has been are free. -/
theorem releaseAll_free (codec : PlayCodec) (s : Nat) (cache : Nat → PacketCache) (hk : k < n) :
    (releaseAll codec s cache n (cacheIndex (s + k))).inUse = false := by
  induction n with
  | zero => exact absurd hk (Nat.not_lt_zero _)
  | succ n ih =>
    rcases Nat.lt_succ_iff_lt_or_eq.mp hk with hlt | rfl
    · have hfree := ih hlt
      have hretains := releaseOne_retains codec s n (releaseAll codec s cache n)
        (cacheIndex (s + k))
      by_contra huse
      rw [← hretains (Bool.eq_true_of_not_eq_false huse)] at hfree
      exact huse hfree
    · exact releaseOne_free codec s k _

/-- At its turn a packet of the frame is what it was before the frame was begun. -/
theorem releaseAll_turn (hn : n ≤ 512)
    (hempties : ∀ i k, i < k → k < n → (cache (cacheIndex (s + i))).Empty codec →
      cacheIndex (s + k) ≠ i) (hi : i ≤ k) (hk : k < n) :
    releaseAll codec s cache i (cacheIndex (s + k)) = cache (cacheIndex (s + k)) := by
  induction i generalizing k with
  | zero => rfl
  | succ i ih =>
    have hself := ih (Nat.le_refl i) (by omega)
    have hother := ih (by omega) hk
    rw [← hother]
    refine releaseOne_other (cacheIndex_ne (by omega) (by omega) (by omega)) fun hempty => ?_
    rw [hself] at hempty
    exact hempties i k (by omega) hk hempty

/-- Behind a frame the search begins at the new header, in the same window. -/
theorem Gathered.behind (h : Gathered t l) (hasm : assembleFrame codec ring t t.headerSn l = .ret (t₁, nb))
    (hput : putFrameVideo t₁ timestamp nb = .ret t₂) :
    Windowed { t₂ with headerSn := (l + 1) % 65536 } ((l + 1) % 65536) := by
  obtain ⟨keyFrameTs, hasm⟩ := assembleFrame_changes hasm
  have hput := putFrameVideo_changes hput
  have hcache : t₂.cacheVideoPkts =
      releaseAll codec t.headerSn t.cacheVideoPkts (frameCount t.headerSn l) := by
    rw [hput, hasm]
  have hold := releaseAll_retains codec t.headerSn t.cacheVideoPkts (frameCount t.headerSn l)
  have hlt : (l + 1) % 65536 < 65536 := Nat.mod_lt _ (by omega)
  refine ⟨⟨hlt, ?_⟩, hlt, ?_, ?_, fun hne => absurd rfl hne⟩
  · intro j huse
    simp only [hcache] at huse ⊢
    have hsame := hold j huse
    rw [hsame] at huse ⊢
    exact h.own.2 j huse
  · intro j huse
    simp only [hcache] at huse ⊢
    have hsame := hold j huse
    have hheader := h.own.1
    have hcount := h.count
    have hafter : frameCount t.headerSn l ≤
        ((t.cacheVideoPkts j).sn + 65536 - t.headerSn) % 65536 := by
      by_contra hbefore
      have hfree := releaseAll_free codec t.headerSn t.cacheVideoPkts (Nat.lt_of_not_le hbefore)
      obtain ⟨hidx, hsn⟩ := h.own.2 j (hsame ▸ huse)
      have hj : cacheIndex (t.headerSn + ((t.cacheVideoPkts j).sn + 65536 - t.headerSn) % 65536) =
          j := by
        rw [cacheIndex_eq] at hidx ⊢
        omega
      rw [hj, huse] at hfree
      cases hfree
    rw [hsame] at huse ⊢
    have hwindow := h.near j huse
    obtain ⟨-, hsn⟩ := h.own.2 j huse
    rw [h.next]
    omega
  · intro k hk
    simp only at hk
    omega

/-- All the frames that one datagram completes are gathered, as the first one is. -/
theorem Gathered.all {start last : Nat} {track : PlayTrackH2645} (h : Gathered track last)
    (hs : start = track.headerSn) (hcalls : Assembles codec ring n track start last t s l) :
    Gathered t l ∧ s = t.headerSn := by
  induction hcalls with
  | here => exact ⟨h, hs⟩
  | next hasm hput hsearch _ _ ih =>
    subst hs
    exact ih ((h.behind hasm hput).gathered hsearch) rfl

end Frames

section Steps

variable {codec : PlayCodec} {play play' : RtcPlay} {e : PlayEvent} {ring : Mem}
  {t : PlayTrackH2645} {sn s l : Nat}

theorem videoPacket_sequence {plaintext : List UInt8} {pkt : RtpPacket}
    (h : videoPacket play plaintext = some pkt) : pkt.header.sequence < 65536 := by
  unfold videoPacket at h
  dsimp only at h
  split at h
  · cases h
    exact decodeRtpPacket_sequence (Nat.zero_lt_succ _)
  · cases h

theorem copyPacket_slot {src : RtpPacket} {slot pkt : PacketCache}
    (h : copyPacket codec ring src slot = .ret pkt) : pkt.sn = src.header.sequence := by
  unfold copyPacket at h
  dsimp only at h
  split at h
  · obtain ⟨p, -, h⟩ := Call.bind_eq_ret.mp h
    cases h
    rfl
  · cases h
    rfl

theorem playtrackReady_header (videoTracks : List Nat) {track : PlayTrackH2645} (key : Bool)
    {header : RtpHeader} (h : track.headerSn < 65536) (hseq : header.sequence < 65536) :
    (playtrackReady videoTracks track key header).headerSn < 65536 := by
  have hnew : ∀ t : PlayTrackH2645, t.headerSn < 65536 → (newKeyframe t header).headerSn < 65536 := by
    intro t ht
    unfold newKeyframe
    split
    · exact hseq
    · exact ht
  unfold playtrackReady
  cases key with
  | true =>
    split <;> exact hnew _ h
  | false =>
    split <;> exact h

theorem playtrackArrive_own {videoTracks : List Nat} {track : PlayTrackH2645} {src : RtpPacket}
    {n : Option Nat} (hown : SlotsOwn track) (hseq : src.header.sequence < 65536)
    (h : playtrackArrive codec videoTracks ring track src = .ret (t, n)) : SlotsOwn t := by
  obtain ⟨payload, key, slot, stored, -, hcopy, hstored, ht⟩ := playtrackArrive_cases h
  have hready := playtrackReady_retains videoTracks track key src.header
  have hheader := playtrackReady_header videoTracks key hown.1 hseq
  have hslots : ∀ j, (stored.cacheVideoPkts j).inUse = true →
      cacheIndex (stored.cacheVideoPkts j).sn = j ∧ (stored.cacheVideoPkts j).sn < 65536 := by
    intro j huse
    rw [hstored] at huse ⊢
    simp only at huse ⊢
    by_cases hj : j = cacheIndex src.header.sequence
    · subst hj
      rw [Function.update_self, copyPacket_slot hcopy]
      exact ⟨rfl, hseq⟩
    · rw [Function.update_of_ne hj] at huse ⊢
      have hsame := hready j huse
      rw [hsame] at huse ⊢
      exact hown.2 j huse
  have hsame : stored.headerSn = (playtrackReady videoTracks track key src.header).headerSn := by
    rw [hstored]
  obtain ⟨rfl, -⟩ | ⟨rfl, -⟩ | ⟨rfl, -⟩ := ht
  · exact ⟨hseq, hslots⟩
  · exact ⟨hsame ▸ hheader, hslots⟩
  · exact ⟨hsame ▸ hheader, hslots⟩

theorem assembleFrame_own {t₁ t₂ : PlayTrackH2645} {nb : Nat} {timestamp : Int} (hown : SlotsOwn t)
    (hasm : assembleFrame codec ring t s l = .ret (t₁, nb))
    (hput : putFrameVideo t₁ timestamp nb = .ret t₂) :
    SlotsOwn { t₂ with headerSn := (l + 1) % 65536 } := by
  obtain ⟨keyFrameTs, hasm⟩ := assembleFrame_changes hasm
  have hcache : t₂.cacheVideoPkts = releaseAll codec s t.cacheVideoPkts (frameCount s l) := by
    rw [putFrameVideo_changes hput, hasm]
  refine ⟨Nat.mod_lt _ (by omega), fun j huse => ?_⟩
  simp only [hcache] at huse ⊢
  have hsame := releaseAll_retains codec s t.cacheVideoPkts (frameCount s l) j huse
  rw [hsame] at huse ⊢
  exact hown.2 j huse

/-- Every datagram keeps each packet in the slot of its number. -/
theorem playStep_own (hown : SlotsOwn play.stream.track) (h : PlayStep codec play e play') :
    SlotsOwn play'.stream.track := by
  obtain ⟨-, -, ⟨-, hstream⟩ | ⟨plaintext, -, ⟨-, hstream⟩ | ⟨pkt, err, track, hpkt, htrack, hstream⟩⟩⟩
    := playStep_cases h
  · rw [hstream]
    exact hown
  · rw [hstream]
    exact hown
  · rw [playtrackOnRtp_arrive] at htrack
    obtain ⟨⟨t, sn⟩, harrive, hnext⟩ := Call.bind_eq_ret.mp htrack
    rw [hstream]
    exact playtrackSearch_keeps assembleFrame_own (fun _ hP => hP)
      (playtrackArrive_own hown (videoPacket_sequence hpkt) harrive) hnext

theorem arrives_start (h : e.Arrives codec play ring t (some sn)) : sn < 65536 := by
  obtain ⟨plaintext, pkt, -, hpkt, -, harrive⟩ := h
  obtain ⟨payload, key, slot, stored, -, -, -, ht⟩ := playtrackArrive_cases harrive
  have hseq := videoPacket_sequence hpkt
  obtain ⟨-, hsn⟩ | ⟨-, hsn⟩ | ⟨-, hsn⟩ := ht
  · exact Option.some.inj hsn ▸ hseq
  · exact Option.some.inj hsn ▸ hseq
  · cases hsn

theorem arrives_windowed (hown : SlotsOwn play.stream.track) (he : e.OneCycle codec play)
    (h : e.Arrives codec play ring t (some sn)) : Windowed t sn := by
  obtain ⟨plaintext, pkt, -, hpkt, -, harrive⟩ := id h
  exact ⟨playtrackArrive_own hown (videoPacket_sequence hpkt) harrive, arrives_start h,
    he.near _ _ _ h, he.between _ _ _ h, he.free _ _ _ h⟩

theorem assembling_gathered (hown : SlotsOwn play.stream.track) (he : e.OneCycle codec play)
    (h : e.Assembling codec play ring t s l) : Gathered t l ∧ s = t.headerSn := by
  obtain ⟨track, sn, tailSn, harrive, hsearch, -, hcalls⟩ := h
  exact ((arrives_windowed hown he harrive).gathered hsearch).all rfl hcalls

theorem searching_windowed (hown : SlotsOwn play.stream.track) (he : e.OneCycle codec play)
    (h : e.Searching codec play t sn) : Windowed t sn := by
  cases h with
  | arrival harrive => exact arrives_windowed hown he harrive
  | behind hcall hasm hput =>
    obtain ⟨hgathered, rfl⟩ := assembling_gathered hown he hcall
    exact hgathered.behind hasm hput

theorem PlayEvent.OneCycle.proper (hown : SlotsOwn play.stream.track) (he : e.OneCycle codec play) :
    ProperUse codec play e where
  found _ _ _ hsearch hk := (searching_windowed hown he hsearch).found hk
  checked _ _ _ _ hsearch hframe := ((searching_windowed hown he hsearch).gathered hframe).present _
  copied ring t s l k hcall hk := by
    obtain ⟨hgathered, rfl⟩ := assembling_gathered hown he hcall
    have hturn := releaseAll_turn hgathered.count (he.empties ring t _ l hcall) (Nat.le_refl k) hk
    unfold Occupied
    rw [hturn]
    exact hgathered.present k hk

/-- **The right packets.** In every run in which the cache holds, where a search begins, packets
of one cycle only, and no frame has an empty packet that clears the slot of a later one, all
that is used of the cache is what was asked for. -/
theorem slots_proper (codec : PlayCodec) (videoTracks : List Nat) (audioTrack : PlayTrackAudio)
    (audio video : PlayReception) (twccEnabled : Bool) (twccId : Nat) {es : List PlayEvent}
    (h : Run.Throughout (PlayStep codec) (fun play e => e.OneCycle codec play) es
      (.start videoTracks audioTrack audio video twccEnabled twccId)) :
    Run.Throughout (PlayStep codec) (ProperUse codec) es
      (.start videoTracks audioTrack audio video twccEnabled twccId) :=
  Run.throughout_imp (fun play => SlotsOwn play.stream.track)
    (fun _ _ hown he => he.proper hown) (fun _ _ _ hown _ hstep => playStep_own hown hstep)
    ⟨Nat.zero_lt_succ _, fun _ huse => nomatch huse⟩ h

theorem piecesFrom_length (cache : Nat → PacketCache) (n i : Nat) :
    (piecesFrom codec ring s cache n i).length = n := by
  induction n generalizing i with
  | zero => rfl
  | succ n ih => rw [piecesFrom, List.length_cons, ih]

/-- The one packet of a frame is used as what it is. -/
theorem slots_proper_one :
    Run.Throughout (PlayStep playH264) (ProperUse playH264) [unitEvent onlyUnit] listeningPlay := by
  refine slots_proper playH264 [2] {} freshPlay.audio freshPlay.video false 0 ⟨?_, fun _ _ => trivial⟩
  have harrives : ∀ {ring t sn}, (unitEvent onlyUnit).Arrives playH264 listeningPlay ring t (some sn) →
      sn = t.headerSn ∧ ∀ j, (t.cacheVideoPkts j).inUse = true →
        ((t.cacheVideoPkts j).sn + 65536 - t.headerSn) % 65536 < 512 := by
    rintro ring t sn ⟨plaintext, pkt, hplain, hpkt, rfl, harrive⟩
    rw [unitEvent_plaintext] at hplain
    obtain rfl := Option.some.inj hplain
    obtain ⟨payload, cache, slot, -, hretains, hcopy, hcache⟩ := playtrackArrive_caches harrive
    obtain ⟨pkt', hpkt', hseq, t₀, ht₀, hheader⟩ :
        ∃ pkt', videoPacket listeningPlay onlyUnit.bytes = some pkt' ∧ pkt'.header.sequence = 0 ∧
        ∃ t₀, playtrackArrive playH264 [2] (copied listeningPlay onlyUnit.bytes).rtpBuffer.buffer
          listeningPlay.stream.track pkt' = .ret (t₀, some 0) ∧ t₀.headerSn = 0 :=
      ⟨_, rfl, rfl, _, rfl, rfl⟩
    obtain rfl := Option.some.inj (hpkt.symm.trans hpkt')
    cases harrive.symm.trans ht₀
    refine ⟨hheader.symm, fun j huse => ?_⟩
    rw [hcache] at huse ⊢
    by_cases hj : j = cacheIndex pkt.header.sequence
    · rw [hj, Function.update_self, copyPacket_slot hcopy, hheader]
      dsimp only
      omega
    · rw [Function.update_of_ne hj] at huse
      have hfree := hretains j huse
      rw [hfree] at huse
      cases huse
  refine ⟨fun _ _ _ h => (harrives h).2, fun _ _ _ h k hk => ?_,
    fun _ _ _ h hne => absurd (harrives h).1 hne, fun ring t s l h i k hik hk => ?_⟩
  · rw [(harrives h).1] at hk
    simp only [Nat.add_sub_cancel_left] at hk
    omega
  · have hpieces := congrArg List.length (onlyUnit_assembling h)
    rw [framePieces, piecesFrom_length, List.length_singleton] at hpieces
    omega

/-- The packet number 513, the last of its frame, and number 0. -/
def lateUnit : RtpUnit :=
  ⟨{ payloadType := 96, sequence := 513, ssrc := 2, marker := true }, [0x41, 8]⟩

def firstUnit : RtpUnit := ⟨{ payloadType := 96, sequence := 0, ssrc := 2 }, [0x41, 9]⟩

set_option maxRecDepth 20000 in
/-- Number 513 lies in the slot of number 1, and is taken for it when number 0 comes. -/
theorem later_cycle_used : ¬ Run.Throughout (PlayStep playH264) (ProperUse playH264)
    [unitEvent lateUnit, unitEvent firstUnit] listeningPlay := by
  intro h
  obtain ⟨play, hstep, ring, t, harrive, huse₀, huse₁, hts, hlast, hsn⟩ :
      ∃ play, PlayStep playH264 listeningPlay (unitEvent lateUnit) play ∧
      ∃ ring t, (unitEvent firstUnit).Arrives playH264 play ring t (some 0) ∧
        (t.cacheVideoPkts 0).inUse = true ∧ (t.cacheVideoPkts 1).inUse = true ∧
        (t.cacheVideoPkts 0).ts = (t.cacheVideoPkts (cacheIndex t.headerSn)).ts ∧
        (t.cacheVideoPkts 0).last = false ∧ (t.cacheVideoPkts 1).sn = 513 :=
    ⟨_, ⟨_, rfl⟩, _, _, ⟨_, _, rfl, rfl, rfl, rfl⟩, rfl, rfl, rfl, rfl, rfl⟩
  have hpresent : FindsPresent t 0 1 := by
    refine ⟨by decide, huse₁, fun i hi => ?_⟩
    obtain rfl : i = 0 := by omega
    exact ⟨huse₀, hts, hlast⟩
  have hslot := ((h.2 _ hstep).1.found t 0 1 (.arrival harrive) hpresent).1.2
  have hone : (t.cacheVideoPkts 1).sn = 1 := hslot
  rw [hsn] at hone
  cases hone

end Steps

end MetaRtc
