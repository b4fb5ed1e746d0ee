import MetaRtc.Math

/-! # Sequence numbers that wrap as parts of ones that do not -/
namespace MetaRtc

/-- The 16 bits of a number that are sent. -/
def wrap (x : Int) : Nat := (x % 65536).toNat

/-- The number with these 16 bits that is nearest to another. -/
def nearest (high : Int) (sn : Nat) : Int := high + rtpSeqDistance (wrap high) sn

theorem rtpSeqDistance_spec (a b : Nat) :
    (∃ k : Int, rtpSeqDistance a b = b - a + 65536 * k) ∧
      -32768 ≤ rtpSeqDistance a b ∧ rtpSeqDistance a b < 32768 := by
  refine ⟨⟨-(((b : Int) - a + 32768) / 65536), ?_⟩, ?_, ?_⟩ <;>
  · unfold rtpSeqDistance Int.bmod
    dsimp only
    split <;> omega

theorem wrap_lt (x : Int) : wrap x < 65536 := by
  unfold wrap
  omega

theorem rtpSeqDistance_wrap {x y : Int} (hlo : -32768 ≤ y - x) (hhi : y - x < 32768) :
    rtpSeqDistance (wrap x) (wrap y) = y - x := by
  obtain ⟨⟨k, hk⟩, hl, hh⟩ := rtpSeqDistance_spec (wrap x) (wrap y)
  unfold wrap at *
  omega

theorem wrap_nearest (high : Int) {sn : Nat} (h : sn < 65536) : wrap (nearest high sn) = sn := by
  obtain ⟨⟨k, hk⟩, -, -⟩ := rtpSeqDistance_spec (wrap high) sn
  unfold nearest
  rw [hk]
  unfold wrap
  omega

theorem nearest_lo (high : Int) (sn : Nat) : high - 32768 ≤ nearest high sn := by
  have h := (rtpSeqDistance_spec (wrap high) sn).2.1
  unfold nearest
  omega

theorem nearest_hi (high : Int) (sn : Nat) : nearest high sn < high + 32768 := by
  have h := (rtpSeqDistance_spec (wrap high) sn).2.2
  unfold nearest
  omega

theorem nearest_wrap {high x : Int} (hlo : high - 32768 ≤ x) (hhi : x < high + 32768) :
    nearest high (wrap x) = x := by
  unfold nearest
  rw [rtpSeqDistance_wrap (by omega) (by omega)]
  omega

/-- Two numbers less than the whole cycle apart are told apart by their 16 bits. -/
theorem wrap_inj {x y : Int} (h : wrap x = wrap y) (hlo : -65536 < y - x) (hhi : y - x < 65536) :
    x = y := by
  unfold wrap at h
  omega

end MetaRtc
