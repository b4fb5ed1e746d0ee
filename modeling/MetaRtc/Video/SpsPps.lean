import MetaRtc.Lib.Area
import MetaRtc.Video.Meta

/-! # The record made from the parameter sets of a keyframe

The lengths are read from the frame as signed numbers of 32 bits, and each is used as a distance
before it is looked at. -/
namespace MetaRtc

open Bytes Exec

/-- A length as it stands in the frame. -/
def lengthAt (frame : Area) (p : Int) : Int := toInt32 (frame.data.be p.toNat 4)

/-- The record goes to the 256 bytes that a caller has for it. -/
def metaBuffer : Area := ⟨fun _ => 0, yangNaluSpsppsBufferLen⟩

/-- The call comes back, so nothing outside the frame was read and nothing behind the buffer
written, and a record that it has made is no longer than the buffer. -/
def Records (call : Call (Option (Area × Nat))) : Prop :=
  ∃ r, call = .ret r ∧ ∀ buf nb, r = some (buf, nb) → nb ≤ yangNaluSpsppsBufferLen

def SafeH264 (frame : Area) (pos : Int) : Prop :=
  Records (getH264SpsppseNalu metaBuffer frame.room frame pos)

def SafeH265 (frame : Area) (pos : Int) : Prop :=
  Records (getH265SpsppseNalu metaBuffer frame.room frame pos)

section Lengths

variable (frame : Area) (pos : Int)

/-- The sum of the lengths and eight is more than the buffer holds, as a signed number, or one of
the last two lengths is more than that of the frame. -/
def TooLong (sum spsLen ppsLen : Int) : Prop :=
  toInt32 (sum + 8) > yangNaluSpsppsBufferLen ∨ spsLen > frame.room ∨ ppsLen > frame.room

/-- The lengths are inside the frame. Then either they are too long for the code, or they are what
they should be: not negative, the sets inside the frame, and the record no more than 256 bytes. -/
structure FitsH264 (spsLen ppsLen : Int) : Prop where
  first : frame.Inside pos 4
  second : frame.Inside (pos + 4 + spsLen) 4
  sets : TooLong frame (spsLen + ppsLen) spsLen ppsLen ∨
    (0 ≤ spsLen ∧ 0 ≤ ppsLen ∧ pos + 8 ≤ frame.room ∧
      pos + 8 + spsLen + ppsLen ≤ frame.room ∧ 16 + spsLen + ppsLen ≤ yangNaluSpsppsBufferLen)

structure FitsH265 (vpsLen spsLen ppsLen : Int) : Prop where
  first : frame.Inside pos 4
  second : frame.Inside (pos + 4 + vpsLen) 4
  third : frame.Inside (pos + 4 + vpsLen + 4 + spsLen) 4
  sets : TooLong frame (vpsLen + spsLen + ppsLen) spsLen ppsLen ∨
    (0 ≤ vpsLen ∧ 0 ≤ spsLen ∧ 0 ≤ ppsLen ∧ pos + 8 + vpsLen + 13 ≤ frame.room ∧
      pos + 12 + vpsLen + spsLen + ppsLen ≤ frame.room ∧
      43 + vpsLen + spsLen + ppsLen ≤ yangNaluSpsppsBufferLen)

end Lengths

section Fits

variable {frame p buf : Area} {pos vps vpsLen sps spsLen pps ppsLen : Int} {nb : Nat}

theorem getConfigMetaH264_returns :
    (∃ r, getConfigMetaH264 p sps spsLen pps ppsLen metaBuffer = .ret r) ↔
      p.Inside (sps + 1) 3 ∧ p.Inside sps spsLen ∧ p.Inside pps ppsLen ∧
        16 + spsLen.toNat + ppsLen.toNat ≤ yangNaluSpsppsBufferLen := by
  unfold getConfigMetaH264
  rw [Area.read_returns, Area.read_returns, Area.read_returns, Area.write_returns, Call.pure_eq,
    ret_returns]
  refine and_congr_right fun _ => and_congr_right fun _ => and_congr_right fun _ => ?_
  simp only [List.length_append, List.length_cons, List.length_nil, beBytes_length,
    Mem.slice_length, and_true, metaBuffer]
  omega

theorem getConfigMetaH265_returns :
    (∃ r, getConfigMetaH265 p vps vpsLen sps spsLen pps ppsLen metaBuffer = .ret r) ↔
      p.Inside (sps + 1) 12 ∧ p.Inside vps vpsLen ∧ p.Inside sps spsLen ∧ p.Inside pps ppsLen ∧
        43 + vpsLen.toNat + spsLen.toNat + ppsLen.toNat ≤ yangNaluSpsppsBufferLen := by
  unfold getConfigMetaH265
  rw [Area.read_returns, Area.read_returns, Area.read_returns, Area.read_returns,
    Area.write_returns, Call.pure_eq, ret_returns]
  refine and_congr_right fun _ => and_congr_right fun _ => and_congr_right fun _ =>
    and_congr_right fun _ => ?_
  simp only [List.length_append, List.length_cons, List.length_nil, List.length_replicate,
    beBytes_length, Mem.slice_length, and_true, metaBuffer]
  omega

theorem getConfigMetaH264_room
    (h : getConfigMetaH264 p sps spsLen pps ppsLen metaBuffer = .ret (buf, nb)) :
    nb ≤ yangNaluSpsppsBufferLen := by
  unfold getConfigMetaH264 at h
  obtain ⟨_, -, h⟩ := Call.bind_eq_ret.mp h
  obtain ⟨_, -, h⟩ := Call.bind_eq_ret.mp h
  obtain ⟨_, -, h⟩ := Call.bind_eq_ret.mp h
  obtain ⟨_, hwrite, h⟩ := Call.bind_eq_ret.mp h
  obtain ⟨hroom, -⟩ := Area.write_eq_ret.mp hwrite
  cases h
  rwa [Nat.zero_add] at hroom

theorem getConfigMetaH265_room
    (h : getConfigMetaH265 p vps vpsLen sps spsLen pps ppsLen metaBuffer = .ret (buf, nb)) :
    nb ≤ yangNaluSpsppsBufferLen := by
  unfold getConfigMetaH265 at h
  obtain ⟨_, -, h⟩ := Call.bind_eq_ret.mp h
  obtain ⟨_, -, h⟩ := Call.bind_eq_ret.mp h
  obtain ⟨_, -, h⟩ := Call.bind_eq_ret.mp h
  obtain ⟨_, -, h⟩ := Call.bind_eq_ret.mp h
  obtain ⟨_, hwrite, h⟩ := Call.bind_eq_ret.mp h
  obtain ⟨hroom, -⟩ := Area.write_eq_ret.mp hwrite
  cases h
  rwa [Nat.zero_add] at hroom

/-- What both calls do with the lengths: a frame is sent back, or a record is made. -/
theorem records_iff {sum : Int} {config : Call (Area × Nat)}
    (hroom : ∀ buf nb, config = .ret (buf, nb) → nb ≤ yangNaluSpsppsBufferLen) :
    Records (if toInt32 (sum + 8) > yangNaluSpsppsBufferLen then .ret none
        else if spsLen > frame.room ∨ ppsLen > frame.room then .ret none
        else config >>= fun r => .ret (some r)) ↔
      TooLong frame sum spsLen ppsLen ∨ ∃ r, config = .ret r := by
  have hnone : Records (.ret none) := ⟨none, rfl, fun _ _ h => nomatch h⟩
  have hsome : Records (config >>= fun r => .ret (some r)) ↔ ∃ r, config = .ret r := by
    constructor
    · rintro ⟨r, h, -⟩
      obtain ⟨record, hrecord, -⟩ := Call.bind_eq_ret.mp h
      exact ⟨record, hrecord⟩
    · rintro ⟨r, h⟩
      refine ⟨some r, by rw [h, Call.ret_bind], ?_⟩
      rintro buf nb ⟨⟩
      exact hroom buf nb h
  unfold TooLong
  by_cases hsum : toInt32 (sum + 8) > yangNaluSpsppsBufferLen
  · rw [if_pos hsum]
    exact iff_of_true hnone (.inl (.inl hsum))
  · rw [if_neg hsum]
    by_cases hlen : spsLen > frame.room ∨ ppsLen > frame.room
    · rw [if_pos hlen]
      exact iff_of_true hnone (.inl (.inr hlen))
    · rw [if_neg hlen, hsome]
      constructor
      · exact .inr
      · rintro ((h | h) | h)
        · exact absurd h hsum
        · exact absurd h hlen
        · exact h

/-- A length has to be inside the frame, and then the call goes on with it. -/
theorem records_length {f : Nat → Call (Option (Area × Nat))} :
    Records (frame.be32 pos >>= f) ↔
      frame.Inside pos 4 ∧ Records (f (frame.data.be pos.toNat 4)) := by
  unfold Area.be32
  split
  · rename_i hin
    rw [Call.ret_bind]
    exact (and_iff_right hin).symm
  · rename_i hout
    rw [Call.crash_bind]
    refine iff_of_false ?_ fun h => hout h.1
    rintro ⟨r, h, -⟩
    exact nomatch h

theorem safeH264_iff : SafeH264 frame pos ↔
    FitsH264 frame pos (lengthAt frame pos) (lengthAt frame (pos + 4 + lengthAt frame pos)) := by
  unfold SafeH264 getH264SpsppseNalu
  rw [records_length]
  dsimp only
  rw [records_length, ← lengthAt, ← lengthAt]
  generalize lengthAt frame (pos + 4 + lengthAt frame pos) = ppsLen
  generalize lengthAt frame pos = spsLen
  simp only [Call.pure_eq]
  rw [records_iff fun _ _ => getConfigMetaH264_room, getConfigMetaH264_returns]
  simp only [Area.Inside]
  constructor
  · rintro ⟨hfirst, hsecond, hsets⟩
    refine ⟨hfirst, hsecond, ?_⟩
    rcases hsets with hlong | ⟨hprofile, hsps, hpps, hrecord⟩
    · exact .inl hlong
    · right
      omega
  · rintro ⟨hfirst, hsecond, hsets⟩
    refine ⟨hfirst, hsecond, ?_⟩
    rcases hsets with hlong | hfits
    · exact .inl hlong
    · right
      have hpos := hfirst.1
      omega

theorem safeH265_iff : SafeH265 frame pos ↔
    FitsH265 frame pos (lengthAt frame pos) (lengthAt frame (pos + 4 + lengthAt frame pos))
      (lengthAt frame (pos + 4 + lengthAt frame pos + 4 +
        lengthAt frame (pos + 4 + lengthAt frame pos))) := by
  unfold SafeH265 getH265SpsppseNalu
  rw [records_length]
  dsimp only
  rw [records_length, records_length, ← lengthAt, ← lengthAt, ← lengthAt]
  generalize lengthAt frame (pos + 4 + lengthAt frame pos + 4 +
    lengthAt frame (pos + 4 + lengthAt frame pos)) = ppsLen
  generalize lengthAt frame (pos + 4 + lengthAt frame pos) = spsLen
  generalize lengthAt frame pos = vpsLen
  simp only [Call.pure_eq]
  rw [records_iff fun _ _ => getConfigMetaH265_room, getConfigMetaH265_returns]
  simp only [Area.Inside]
  constructor
  · rintro ⟨hfirst, hsecond, hthird, hsets⟩
    refine ⟨hfirst, hsecond, hthird, ?_⟩
    rcases hsets with hlong | ⟨hprofile, hvps, hsps, hpps, hrecord⟩
    · exact .inl hlong
    · right
      omega
  · rintro ⟨hfirst, hsecond, hthird, hsets⟩
    refine ⟨hfirst, hsecond, hthird, ?_⟩
    rcases hsets with hlong | hfits
    · exact .inl hlong
    · right
      have hpos := hfirst.1
      omega

end Fits

/-- The call is safe exactly if the lengths are inside the frame, and either send the frame back or
are those of sets inside the frame for which the whole record has room. -/
theorem keyframe_records (frame : Area) (pos : Int) :
    (SafeH264 frame pos ↔
      FitsH264 frame pos (lengthAt frame pos)
        (lengthAt frame (pos + 4 + lengthAt frame pos))) ∧
    (SafeH265 frame pos ↔
      FitsH265 frame pos (lengthAt frame pos) (lengthAt frame (pos + 4 + lengthAt frame pos))
        (lengthAt frame (pos + 4 + lengthAt frame pos + 4 +
          lengthAt frame (pos + 4 + lengthAt frame pos)))) :=
  ⟨safeH264_iff, safeH265_iff⟩

/-- Sets of 4 and of 240 bytes, with a slice behind them: eight more are still below 256, but the
record has sixteen more. -/
def longSets : Area :=
  ⟨ofList ([0, 0, 0, 4, 0x67, 0x42, 0xc0, 0x1f, 0, 0, 0, 240] ++ List.replicate 240 0x68 ++
    [0, 0, 0, 2, 0x65, 0x88]), 258⟩

theorem record_too_long : ¬SafeH264 longSets 0 := by
  rw [safeH264_iff]
  have hsps : lengthAt longSets 0 = 4 := by decide
  have hpps : lengthAt longSets (0 + 4 + 4) = 240 := by decide
  rw [hsps, hpps]
  intro h
  rcases h.sets with hlong | hfits
  · exact absurd hlong (by unfold TooLong; decide)
  · exact absurd hfits.2.2.2.2 (by decide)

end MetaRtc
