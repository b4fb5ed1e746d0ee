import MetaRtc.Play.Units

/-! # The walk over the units of any frame

Each unit has its length in four bytes before it. The walk looks for the first keyframe and for
the parameter sets before it. -/
namespace MetaRtc

open Bytes Exec

/-- The types of units that a walk looks for, by the first byte of a unit. -/
structure NaluTypes where
  isKey : UInt8 → Bool
  isSpspps : UInt8 → Bool

def h264Types : NaluTypes where
  isKey v := v &&& kNalTypeMask = yangAvcNaluTypeIDR
  isSpspps v := v &&& kNalTypeMask = yangAvcNaluTypeSPS

def h265Types : NaluTypes where
  isKey v := decide (yangNalUnitCodedSliceBla ≤ hevcNaluType v) &&
    decide (hevcNaluType v ≤ yangNalUnitCodedSliceCra)
  isSpspps v := hevcNaluType v = yangNalUnitVps

def parseNalu (types : NaluTypes) (frame : Area) (passes : Nat) : Call H264NaluData :=
  parseNaluLoop types.isKey types.isSpspps frame frame.room passes 0 {}

theorem parseH264Nalu_passes (frame : Area) :
    parseH264Nalu frame frame.room = parseNalu h264Types frame (frame.room + 1) := rfl

theorem parseH265Nalu_passes (frame : Area) :
    parseH265Nalu frame frame.room = parseNalu h265Types frame (frame.room + 1) := rfl

/-- A unit is at least the byte with its type. -/
structure NalUnit where
  bytes : List UInt8
  ne : bytes ≠ []

def NalUnit.first (unit : NalUnit) : UInt8 := unit.bytes.getD 0 0

def allUnits (units : List NalUnit) : List UInt8 :=
  units.flatMap fun unit => behindLength unit.bytes

/-- Where the last parameter set is among those units. -/
def LastSet (types : NaluTypes) (units : List NalUnit) (spsppsPos : Int) : Prop :=
  (spsppsPos = -1 ∧ ∀ unit ∈ units, ¬types.isSpspps unit.first) ∨
    ∃ front set behind, units = front ++ set :: behind ∧ types.isSpspps set.first ∧
      (∀ unit ∈ behind, ¬types.isSpspps unit.first) ∧ spsppsPos = (allUnits front).length

/-- Where the first keyframe is, and the last parameter set before it. -/
def Located (types : NaluTypes) (units : List NalUnit) (nalu : H264NaluData) : Prop :=
  ∃ before, (∀ unit ∈ before, ¬types.isKey unit.first) ∧ LastSet types before nalu.spsppsPos ∧
    ((units = before ∧ nalu.keyframePos = -1) ∨
      ∃ key behind, units = before ++ key :: behind ∧ types.isKey key.first ∧
        nalu.keyframePos = (allUnits before).length)

/-- From a position the lengths in the frame lead to another. -/
inductive LeadsTo (types : NaluTypes) (frame : Area) : Nat → Nat → Prop where
  | here (p : Nat) : LeadsTo types frame p p
  | next {p q : Nat} : p < frame.room → ¬types.isKey (frame.data (p + 4)) →
      frame.data.be p 4 ≤ frame.room → LeadsTo types frame (p + (frame.data.be p 4 + 4)) q →
      LeadsTo types frame p q

/-- Wherever the lengths lead in the frame, there are a length and the first byte of a unit. -/
def Complete (types : NaluTypes) (frame : Area) (p : Nat) : Prop :=
  ∀ q, LeadsTo types frame p q → q < frame.room → q + 5 ≤ frame.room

/-- The walk comes back without having looked behind the frame, in the passes that the code's loop
takes and not because there are no more, and a frame of whole units is searched as it should be. -/
structure WalksRight (types : NaluTypes) (frame : Area) : Prop where
  inside : ∃ nalu, ∀ passes, frame.room < passes → parseNalu types frame passes = .ret nalu
  located : ∀ units, frame.data.slice 0 frame.room = allUnits units →
    ∃ nalu, parseNalu types frame (frame.room + 1) = .ret nalu ∧ Located types units nalu

section Pass

variable {types : NaluTypes} {frame : Area} {p fuel : Nat} {found : H264NaluData}

theorem parseNaluLoop_behind (h : frame.room ≤ p) :
    parseNaluLoop types.isKey types.isSpspps frame frame.room fuel p found = .ret found := by
  cases fuel with
  | zero => rfl
  | succ fuel => exact if_neg (by omega)

theorem parseNaluLoop_outside (hp : p < frame.room) (h : frame.room < p + 5) :
    parseNaluLoop types.isKey types.isSpspps frame frame.room (fuel + 1) p found = .crash := by
  have hbyte : frame.byte ((p : Int) + 4) = .crash := by
    apply if_neg
    rintro ⟨_, _, hroom⟩
    omega
  unfold parseNaluLoop
  rw [if_pos hp, hbyte, Call.crash_bind]

/-- What a pass goes on with behind a unit that is no slice of a keyframe. -/
def NaluTypes.note (types : NaluTypes) (first : UInt8) (p : Nat) (found : H264NaluData) :
    H264NaluData :=
  if types.isSpspps first then { found with spsppsPos := p } else found

/-- A pass with the whole prefix of a unit before it. -/
theorem parseNaluLoop_inside (h : p + 5 ≤ frame.room) :
    parseNaluLoop types.isKey types.isSpspps frame frame.room (fuel + 1) p found =
      if types.isKey (frame.data (p + 4)) then .ret { found with keyframePos := p }
      else if frame.data.be p 4 > frame.room then .ret (types.note (frame.data (p + 4)) p found)
      else parseNaluLoop types.isKey types.isSpspps frame frame.room fuel
        (p + (frame.data.be p 4 + 4)) (types.note (frame.data (p + 4)) p found) := by
  have hbyte : frame.byte ((p : Int) + 4) = .ret (frame.data (p + 4)) :=
    Area.byte_inside (i := p + 4) h
  have hlength : frame.be32 p = .ret (frame.data.be p 4) := Area.be32_inside (by omega)
  rw [parseNaluLoop, if_pos (by omega), hbyte, hlength, Call.ret_bind]
  rfl

theorem complete_next (h : Complete types frame p) (hp : p < frame.room)
    (hkey : ¬types.isKey (frame.data (p + 4))) (hlen : frame.data.be p 4 ≤ frame.room) :
    Complete types frame (p + (frame.data.be p 4 + 4)) :=
  fun q hq => h q (.next hp hkey hlen hq)

/-- The result of enough passes is that of any more. -/
theorem parseNaluLoop_complete (h : Complete types frame p) (found : H264NaluData) :
    ∃ nalu, ∀ fuel, frame.room - p < fuel →
      parseNaluLoop types.isKey types.isSpspps frame frame.room fuel p found = .ret nalu := by
  induction hn : frame.room - p using Nat.strong_induction_on generalizing p found with
  | _ n ih =>
    by_cases hp : p < frame.room
    · have hin := h p (.here p) hp
      by_cases hkey : types.isKey (frame.data (p + 4))
      · refine ⟨{ found with keyframePos := p }, ?_⟩
        intro fuel hfuel
        obtain ⟨fuel, rfl⟩ : ∃ m, fuel = m + 1 := ⟨fuel - 1, by omega⟩
        rw [parseNaluLoop_inside hin, if_pos hkey]
      · by_cases hlen : frame.data.be p 4 ≤ frame.room
        · obtain ⟨nalu, hnalu⟩ := ih (frame.room - (p + (frame.data.be p 4 + 4))) (by omega)
            (complete_next h hp hkey hlen) (types.note (frame.data (p + 4)) p found) rfl
          refine ⟨nalu, ?_⟩
          intro fuel hfuel
          obtain ⟨fuel, rfl⟩ : ∃ m, fuel = m + 1 := ⟨fuel - 1, by omega⟩
          rw [parseNaluLoop_inside hin, if_neg hkey, if_neg (by omega)]
          exact hnalu fuel (by omega)
        · refine ⟨types.note (frame.data (p + 4)) p found, ?_⟩
          intro fuel hfuel
          obtain ⟨fuel, rfl⟩ : ∃ m, fuel = m + 1 := ⟨fuel - 1, by omega⟩
          rw [parseNaluLoop_inside hin, if_neg hkey]
          exact if_pos (by omega)
    · refine ⟨found, ?_⟩
      intro fuel _
      exact parseNaluLoop_behind (by omega)

/-- A walk that comes back has had the five bytes wherever it was led. -/
theorem complete_of_ret {q : Nat} (hq : LeadsTo types frame p q) {nalu : H264NaluData}
    (hfuel : frame.room - p < fuel)
    (h : parseNaluLoop types.isKey types.isSpspps frame frame.room fuel p found = .ret nalu)
    (hin : q < frame.room) : q + 5 ≤ frame.room := by
  induction hq generalizing fuel found with
  | here p =>
    obtain ⟨fuel, rfl⟩ : ∃ m, fuel = m + 1 := ⟨fuel - 1, by omega⟩
    by_contra hshort
    rw [parseNaluLoop_outside hin (by omega)] at h
    exact nomatch h
  | @next p q hp hkey hlen _ ih =>
    obtain ⟨fuel, rfl⟩ : ∃ m, fuel = m + 1 := ⟨fuel - 1, by omega⟩
    by_cases hfive : p + 5 ≤ frame.room
    · rw [parseNaluLoop_inside hfive, if_neg hkey, if_neg (by omega)] at h
      exact ih (by omega) h hin
    · rw [parseNaluLoop_outside hp (by omega)] at h
      exact nomatch h

theorem parseNalu_iff : (∃ nalu, ∀ passes, frame.room < passes →
    parseNalu types frame passes = .ret nalu) ↔ Complete types frame 0 := by
  constructor
  · rintro ⟨nalu, h⟩ q hq hin
    have hret := h (frame.room + 1) (by omega)
    exact complete_of_ret hq (by omega) hret hin
  · intro h
    exact parseNaluLoop_complete h {}

end Pass

section Units

variable {types : NaluTypes} {frame : Area} {found : H264NaluData}
  {units before rest : List NalUnit}

theorem allUnits_snoc (units : List NalUnit) (unit : NalUnit) :
    (allUnits (units ++ [unit])).length = (allUnits units).length + (unit.bytes.length + 4) := by
  simp only [allUnits, List.flatMap_append, List.length_append, List.flatMap_singleton,
    behindLength_length]
  omega

theorem LastSet.snoc {spsppsPos : Int} (h : LastSet types units spsppsPos) (unit : NalUnit) :
    LastSet types (units ++ [unit])
      (if types.isSpspps unit.first then (allUnits units).length else spsppsPos) := by
  have hsnoc : ∀ {units : List NalUnit}, ¬types.isSpspps unit.first →
      (∀ u ∈ units, ¬types.isSpspps u.first) → ∀ u ∈ units ++ [unit], ¬types.isSpspps u.first := by
    intro units hunit hunits u hu
    rcases List.mem_append.mp hu with hu | hu
    · exact hunits u hu
    · rw [List.mem_singleton.mp hu]
      exact hunit
  by_cases hset : types.isSpspps unit.first
  · rw [if_pos hset]
    exact .inr ⟨units, unit, [], rfl, hset, by simp, rfl⟩
  · rw [if_neg hset]
    rcases h with ⟨hnone, hall⟩ | ⟨front, set, behind, rfl, hset', hbehind, hpos⟩
    · exact .inl ⟨hnone, hsnoc hset hall⟩
    · exact .inr ⟨front, set, behind ++ [unit], by simp, hset', hsnoc hset hbehind, hpos⟩

/-- From a position between two units, the walk finds what is to be found in all of them. -/
theorem parseNaluLoop_located (hroom : frame.room < 2 ^ 32)
    (hframe : frame.data.slice 0 frame.room = allUnits (before ++ rest))
    (hbefore : ∀ unit ∈ before, ¬types.isKey unit.first)
    (hset : LastSet types before found.spsppsPos) (hnone : found.keyframePos = -1) {fuel : Nat}
    (hfuel : frame.room - (allUnits before).length < fuel) :
    ∃ nalu, parseNaluLoop types.isKey types.isSpspps frame frame.room fuel
        (allUnits before).length found = .ret nalu ∧ Located types (before ++ rest) nalu := by
  induction rest generalizing before found fuel with
  | nil =>
    have hlen := congrArg List.length hframe
    rw [Mem.slice_length, List.append_nil] at hlen
    refine ⟨found, parseNaluLoop_behind (by omega), before, hbefore, hset, .inl ⟨?_, hnone⟩⟩
    rw [List.append_nil]
  | cons unit rest ih =>
    have hsnoc : before ++ unit :: rest = (before ++ [unit]) ++ rest := by
      rw [List.append_assoc, List.singleton_append]
    have hlen := congrArg List.length hframe
    rw [hsnoc, allUnits, List.flatMap_append, ← allUnits, List.length_append, allUnits_snoc,
      Mem.slice_length] at hlen
    obtain ⟨fuel, rfl⟩ : ∃ m, fuel = m + 1 := ⟨fuel - 1, by omega⟩
    have hat : UnitAt frame.data (allUnits before).length unit.bytes := by
      have hsplit : allUnits (before ++ unit :: rest) =
          allUnits before ++ (behindLength unit.bytes ++ allUnits rest) := by
        simp [allUnits]
      have hbehind := (Mem.slice_parts (hframe.trans hsplit)).2
      rw [Nat.zero_add] at hbehind
      exact (unitAt_of_slice hbehind).1
    by_cases hkey : types.isKey unit.first
    · refine ⟨_, parseNaluLoop_key hat unit.ne (by omega) (le_refl _) hkey, before, hbefore, hset,
        .inr ⟨unit, rest, rfl, hkey, rfl⟩⟩
    · have hbefore' : ∀ u ∈ before ++ [unit], ¬types.isKey u.first := by
        intro u hu
        rcases List.mem_append.mp hu with hu | hu
        · exact hbefore u hu
        · rw [List.mem_singleton.mp hu]
          exact hkey
      have hset' := hset.snoc unit
      rw [parseNaluLoop_skip hat unit.ne (by omega) (le_refl _) hroom (Bool.not_eq_true _ ▸ hkey),
        ← allUnits_snoc]
      rw [hsnoc] at hframe ⊢
      apply ih hframe hbefore'
      · change LastSet types (before ++ [unit]) (H264NaluData.spsppsPos
          (if types.isSpspps unit.first then { found with spsppsPos := (allUnits before).length }
            else found))
        rw [apply_ite H264NaluData.spsppsPos]
        exact hset'
      · rw [apply_ite H264NaluData.keyframePos, hnone, ite_self]
      · rw [allUnits_snoc]
        omega

theorem walksRight_iff (hroom : frame.room < 2 ^ 31) :
    WalksRight types frame ↔ Complete types frame 0 := by
  rw [← parseNalu_iff]
  constructor
  · intro h
    exact h.inside
  · intro h
    constructor
    · exact h
    · intro units hunits
      exact @parseNaluLoop_located types frame {} [] units (by omega) hunits (by simp)
        (.inl ⟨rfl, by simp⟩) rfl _ (by show frame.room - 0 < _; omega)

end Units

/-- Both walks stay inside the frame exactly if wherever the lengths in it lead there are five
bytes, and then they find what they are to find. -/
theorem nalu_walks (frame : Area) (hroom : frame.room < 2 ^ 31) :
    (WalksRight h264Types frame ↔ Complete h264Types frame 0) ∧
      (WalksRight h265Types frame ↔ Complete h265Types frame 0) :=
  ⟨walksRight_iff hroom, walksRight_iff hroom⟩

/-- Three bytes. -/
def shortFrame : Area := ⟨fun _ => 0, 3⟩

theorem nalu_walks_short :
    (WalksRight h264Types shortFrame ↔ Complete h264Types shortFrame 0) ∧
      (WalksRight h265Types shortFrame ↔ Complete h265Types shortFrame 0) :=
  nalu_walks shortFrame (by decide)

/-- The type is looked for behind the frame. -/
theorem prefix_cut_short : ¬WalksRight h264Types shortFrame := by
  rw [walksRight_iff (by decide)]
  intro h
  exact absurd (h 0 (.here 0) (by decide)) (by decide)

end MetaRtc
