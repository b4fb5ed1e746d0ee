import MetaRtc.Lib.Ops
import MetaRtc.Play.Nalu
import MetaRtc.Video.Emulation

/-! # Reading a sequence parameter set

The set is read bit by bit. Each of its fields is an `int32_t`, and so is what a reader returns. -/
namespace MetaRtc

open Exec Ops

/-- The bits of a byte from the highest on. -/
def hasBit (b : UInt8) (i : Nat) : Bool := b &&& (0x80 >>> UInt8.ofNat i) ≠ 0

section Readers

variable (bytes : List UInt8) (nLen : UInt32)

def spsBit (startBit : UInt32) : Call Bool := do
  let b ← Call.deref bytes[(startBit / 8).toNat]?
  return hasBit b (startBit % 8).toNat

def spsULoop : Nat → UInt32 → Nat → Call (Nat × UInt32)
  | 0, startBit, dwRet => .ret (dwRet, startBit)
  | count + 1, startBit, dwRet => do
    let bit ← spsBit bytes startBit
    spsULoop count (startBit + 1) (2 * dwRet + bit.toNat)

/-- No more than 32 bits are asked for, which `dwRet` holds. -/
def spsU (bitCount : Nat) (startBit : UInt32) : Call (Nat × UInt32) :=
  spsULoop bytes bitCount startBit 0

def spsZeros : Nat → UInt32 → Nat → Call (Nat × UInt32)
  | 0, startBit, nZeroNum => .ret (nZeroNum, startBit)
  | passes + 1, startBit, nZeroNum =>
    if startBit < nLen * 8 then do
      let bit ← spsBit bytes startBit
      if bit then return (nZeroNum, startBit)
      else spsZeros passes (startBit + 1) (nZeroNum + 1)
    else .ret (nZeroNum, startBit)

/-- Only the zeros are looked for inside the length. Each pass moves by one bit, so the length
bounds them. A shift by 32 has no meaning. -/
def spsUe (startBit : UInt32) : Call (Nat × UInt32) := do
  let (nZeroNum, startBit) ← spsZeros bytes nLen (nLen * 8).toNat startBit 0
  let (dwRet, startBit) ← spsULoop bytes nZeroNum (startBit + 1) 0
  if nZeroNum < 32 then return (2 ^ nZeroNum - 1 + dwRet, startBit) else .crash

/-- What a parser does with the buffer and with what it has read. -/
inductive SpsOp where
  | u (bitCount : Nat)
  | ue
  | malloc (count : Int)
  | divide (a b : Int)

/-- The cursor, and the counts that were the size of an allocation. -/
structure SpsState where
  startBit : UInt32 := 0
  allocs : List Int := []

def spsStep (s : SpsState) : SpsOp → Call (Int × SpsState)
  | .u bitCount => do
    let (v, startBit) ← spsU bytes bitCount s.startBit
    return (toInt32 v, { s with startBit })
  | .ue => do
    let (v, startBit) ← spsUe bytes nLen s.startBit
    return (toInt32 v, { s with startBit })
  | .malloc count => .ret (0, { s with allocs := s.allocs ++ [count] })
  | .divide a b => if b = 0 then .crash else .ret (a.tdiv b, s)

end Readers

section Syntax

abbrev Sps := Prog SpsOp Int

def readU (bitCount : Nat) : Sps Int := perform (.u bitCount)

def readUe : Sps Int := perform .ue

/-- Half of the code, rounded up. -/
def readSe : Sps Int := do
  let ueVal ← readUe
  let nValue := (ueVal + 1) / 2
  return if ueVal % 2 = 0 then -nValue else nValue

def spsSkip (x : Sps Int) : Sps Unit := do
  let _ ← x

def highProfiles : List Int := [100, 110, 122, 144]

def spsChroma : Sps Unit := do
  let chromaFormatIdc ← readUe
  if chromaFormatIdc = 3 then
    let _residualColourTransformFlag ← readU 1
  let _bitDepthLumaMinus8 ← readUe
  let _bitDepthChromaMinus8 ← readUe
  let _qpprimeYZeroTransformBypassFlag ← readU 1
  let seqScalingMatrixPresentFlag ← readU 1
  if seqScalingMatrixPresentFlag ≠ 0 then
    times (spsSkip (readU 1)) 8

/-- The count of the offsets is used as it was read. -/
def spsPicOrder : Sps Unit := do
  let picOrderCntType ← readUe
  if picOrderCntType = 0 then
    let _log2MaxPicOrderCntLsbMinus4 ← readUe
  else if picOrderCntType = 1 then
    let _deltaPicOrderAlwaysZeroFlag ← readU 1
    let _offsetForNonRefPic ← readSe
    let _offsetForTopToBottomField ← readSe
    let numRefFramesInPicOrderCntCycle ← readUe
    let _offsetForRefFrame ← perform (.malloc numRefFramesInPicOrderCntCycle)
    times (spsSkip readSe) numRefFramesInPicOrderCntCycle.toNat

/-- The width and the height. -/
def spsSize : Sps (Int × Int) := do
  let _numRefFrames ← readUe
  let _gapsInFrameNumValueAllowedFlag ← readU 1
  let picWidthInMbsMinus1 ← readUe
  let picHeightInMapUnitsMinus1 ← readUe
  return (toInt32 ((picWidthInMbsMinus1 + 1) * 16), toInt32 ((picHeightInMapUnitsMinus1 + 1) * 16))

def spsCropping : Sps Unit := do
  let frameMbsOnlyFlag ← readU 1
  if frameMbsOnlyFlag = 0 then
    let _mbAdaptiveFrameFieldFlag ← readU 1
  let _direct8x8InferenceFlag ← readU 1
  let frameCroppingFlag ← readU 1
  if frameCroppingFlag ≠ 0 then
    let _frameCropLeftOffset ← readUe
    let _frameCropRightOffset ← readUe
    let _frameCropTopOffset ← readUe
    let _frameCropBottomOffset ← readUe

def vuiAspectRatio : Sps Unit := do
  let aspectRatioInfoPresentFlag ← readU 1
  if aspectRatioInfoPresentFlag ≠ 0 then
    let aspectRatioIdc ← readU 8
    if aspectRatioIdc = 255 then
      let _sarWidth ← readU 16
      let _sarHeight ← readU 16

def vuiOverscan : Sps Unit := do
  let overscanInfoPresentFlag ← readU 1
  if overscanInfoPresentFlag ≠ 0 then
    let _overscanAppropriateFlag ← readU 1

def vuiVideoSignal : Sps Unit := do
  let videoSignalTypePresentFlag ← readU 1
  if videoSignalTypePresentFlag ≠ 0 then
    let _videoFormat ← readU 3
    let _videoFullRangeFlag ← readU 1
    let colourDescriptionPresentFlag ← readU 1
    if colourDescriptionPresentFlag ≠ 0 then
      let _colourPrimaries ← readU 8
      let _transferCharacteristics ← readU 8
      let _matrixCoefficients ← readU 8

def vuiChromaLoc : Sps Unit := do
  let chromaLocInfoPresentFlag ← readU 1
  if chromaLocInfoPresentFlag ≠ 0 then
    let _chromaSampleLocTypeTopField ← readUe
    let _chromaSampleLocTypeBottomField ← readUe

/-- The frames of a second. -/
def vuiTiming : Sps Int := do
  let timingInfoPresentFlag ← readU 1
  if timingInfoPresentFlag ≠ 0 then
    let numUnitsInTick ← readU 32
    let timeScale ← readU 32
    perform (.divide timeScale (toInt32 (2 * numUnitsInTick)))
  else return 0

def spsVui : Sps Int := do
  let vuiParameterPresentFlag ← readU 1
  if vuiParameterPresentFlag ≠ 0 then
    vuiAspectRatio
    vuiOverscan
    vuiVideoSignal
    vuiChromaLoc
    vuiTiming
  else return 0

structure SpsResult where
  err : Nat
  size : Option (Int × Int) := none
  fps : Int := 0

def spsBody : Sps SpsResult := do
  let profileIdc ← readU 8
  let _constraintSet0Flag ← readU 1
  let _constraintSet1Flag ← readU 1
  let _constraintSet2Flag ← readU 1
  let _constraintSet3Flag ← readU 1
  let _reservedZero4bits ← readU 4
  let _levelIdc ← readU 8
  let _seqParameterSetId ← readUe
  if profileIdc ∈ highProfiles then
    spsChroma
  let _log2MaxFrameNumMinus4 ← readUe
  spsPicOrder
  let size ← spsSize
  spsCropping
  let fps ← spsVui
  return { err := 0, size := some size, fps }

def spsSyntax : Sps SpsResult := do
  let _forbiddenZeroBit ← readU 1
  let _nalRefIdc ← readU 2
  let nalUnitType ← readU 5
  if nalUnitType = 7 then spsBody else return { err := 1 }

end Syntax

/-- The second result is what memory was allocated for. -/
def h264DecodeSpspps (buf : List UInt8) : Call (SpsResult × List Int) := do
  let (bytes, nLen) ← deEmulationPrevention buf
  let (result, s) ← run (spsStep bytes (UInt32.ofNat nLen)) spsSyntax {}
  return (result, s.allocs)

section Meaning

variable (bytes : List UInt8) (nLen : UInt32)

def bitAt (p : UInt32) : Bool := hasBit (bytes.getD (p / 8).toNat 0) (p % 8).toNat

/-- That many bits from a position on are in the buffer. -/
def BitsInside (p : UInt32) (k : Nat) : Prop :=
  ∀ i < k, ((p + UInt32.ofNat i) / 8).toNat < bytes.length

/-- The number of that many bits, the highest first. -/
def bitsNumber (p : UInt32) : Nat → Nat
  | 0 => 0
  | k + 1 => 2 * bitsNumber p k + (bitAt bytes (p + UInt32.ofNat k)).toNat

/-- The zeros from a position on, as far as the length goes. -/
def leadingZeros (p : UInt32) : Nat :=
  ((List.range' p.toNat ((nLen * 8).toNat - p.toNat)).takeWhile
    fun i => !bitAt bytes (UInt32.ofNat i)).length

/-- Where the bits behind the zeros and the one begin. -/
def behindZeros (p : UInt32) : UInt32 := p + UInt32.ofNat (leadingZeros bytes nLen p) + 1

/-- What the fields are by their bits. -/
def spsMeaning (s : SpsState) : SpsOp → Int × SpsState
  | .u bitCount => (toInt32 (bitsNumber bytes s.startBit bitCount),
      { s with startBit := s.startBit + UInt32.ofNat bitCount })
  | .ue =>
    let zeros := leadingZeros bytes nLen s.startBit
    let p := behindZeros bytes nLen s.startBit
    (toInt32 (2 ^ zeros - 1 + bitsNumber bytes p zeros : Nat),
      { s with startBit := p + UInt32.ofNat zeros })
  | .malloc count => (0, { s with allocs := s.allocs ++ [count] })
  | .divide a b => (a.tdiv b, s)

/-- A field of a fixed length is inside the buffer. A code has less than 32 zeros and as many bits
inside behind them. Nothing is allocated, and nothing divided by zero. -/
def SpsAllowed (s : SpsState) : SpsOp → Prop
  | .u bitCount => BitsInside bytes s.startBit bitCount
  | .ue => leadingZeros bytes nLen s.startBit < 32 ∧
      BitsInside bytes (behindZeros bytes nLen s.startBit) (leadingZeros bytes nLen s.startBit)
  | .malloc _ => False
  | .divide _ b => b ≠ 0

end Meaning

/-- The parser comes back, and no count that was read has been the size of an allocation. -/
def SafeSps (buf : List UInt8) : Prop := ∃ r, h264DecodeSpspps buf = .ret r ∧ r.2 = []

section Readers

variable {bytes : List UInt8} {nLen p : UInt32} {k n : Nat} {buf : List UInt8}

theorem spsBit_inside (h : (p / 8).toNat < bytes.length) :
    spsBit bytes p = .ret (bitAt bytes p) := by
  unfold spsBit bitAt
  rw [List.getD_eq_getElem?_getD, List.getElem?_eq_getElem h]
  rfl

theorem spsBit_outside (h : ¬(p / 8).toNat < bytes.length) : spsBit bytes p = .crash := by
  unfold spsBit
  rw [List.getElem?_eq_none (Nat.le_of_not_lt h)]
  rfl

theorem ofNat_succ (p : UInt32) (i : Nat) :
    p + UInt32.ofNat (i + 1) = p + 1 + UInt32.ofNat i := by
  rw [Nat.add_comm, UInt32.ofNat_add, ← UInt32.add_assoc]
  rfl

theorem bitsInside_succ : BitsInside bytes p (k + 1) ↔
    (p / 8).toNat < bytes.length ∧ BitsInside bytes (p + 1) k := by
  constructor
  · intro h
    constructor
    · simpa using h 0 (Nat.succ_pos k)
    · intro i hi
      rw [← ofNat_succ]
      exact h (i + 1) (Nat.succ_lt_succ hi)
  · rintro ⟨hfirst, hrest⟩ i hi
    cases i with
    | zero => simpa using hfirst
    | succ i =>
      rw [ofNat_succ]
      exact hrest i (Nat.lt_of_succ_lt_succ hi)

theorem bitsNumber_succ : bitsNumber bytes p (k + 1) =
    (bitAt bytes p).toNat * 2 ^ k + bitsNumber bytes (p + 1) k := by
  induction k with
  | zero => simp [bitsNumber]
  | succ k ih =>
    rw [bitsNumber, ih, bitsNumber, ofNat_succ]
    ring

theorem spsULoop_inside (h : BitsInside bytes p k) : spsULoop bytes k p n =
    .ret (n * 2 ^ k + bitsNumber bytes p k, p + UInt32.ofNat k) := by
  induction k generalizing p n with
  | zero => simp [spsULoop, bitsNumber]
  | succ k ih =>
    obtain ⟨hfirst, hrest⟩ := bitsInside_succ.mp h
    unfold spsULoop
    rw [spsBit_inside hfirst, Call.ret_bind, ih hrest, bitsNumber_succ, ofNat_succ]
    congr 2
    ring

theorem spsULoop_outside (h : ¬BitsInside bytes p k) : spsULoop bytes k p n = .crash := by
  induction k generalizing p n with
  | zero => exact absurd (fun i hi => absurd hi (Nat.not_lt_zero i)) h
  | succ k ih =>
    unfold spsULoop
    by_cases hfirst : (p / 8).toNat < bytes.length
    · rw [spsBit_inside hfirst, Call.ret_bind]
      exact ih fun hrest => h (bitsInside_succ.mpr ⟨hfirst, hrest⟩)
    · rw [spsBit_outside hfirst, Call.crash_bind]

theorem leadingZeros_step (hlt : p < nLen * 8) : leadingZeros bytes nLen p =
    if bitAt bytes p then 0 else leadingZeros bytes nLen (p + 1) + 1 := by
  have hnat : p.toNat < (nLen * 8).toNat := UInt32.lt_iff_toNat_lt.mp hlt
  have hnext : (p + 1).toNat = p.toNat + 1 := by
    rw [UInt32.toNat_add]
    have hbound := (nLen * 8).toNat_lt
    have hone : (1 : UInt32).toNat = 1 := rfl
    omega
  unfold leadingZeros
  obtain ⟨m, hm⟩ : ∃ m, (nLen * 8).toNat - p.toNat = m + 1 :=
    ⟨(nLen * 8).toNat - p.toNat - 1, by omega⟩
  rw [hm, List.range'_succ, hnext, show (nLen * 8).toNat - (p.toNat + 1) = m by omega]
  rw [List.takeWhile_cons, UInt32.ofNat_toNat]
  cases bitAt bytes p <;> rfl

theorem leadingZeros_end (hle : ¬p < nLen * 8) : leadingZeros bytes nLen p = 0 := by
  have hnat := mt UInt32.lt_iff_toNat_lt.mpr hle
  unfold leadingZeros
  rw [Nat.sub_eq_zero_of_le (Nat.le_of_not_lt hnat)]
  rfl

/-- The zeros are all inside, and the passes are enough for them. -/
theorem spsZeros_eq (hlen : nLen.toNat ≤ bytes.length) {passes : Nat}
    (hpasses : (nLen * 8).toNat - p.toNat ≤ passes) : spsZeros bytes nLen passes p n =
      .ret (n + leadingZeros bytes nLen p, p + UInt32.ofNat (leadingZeros bytes nLen p)) := by
  induction passes generalizing p n with
  | zero =>
    have hend : ¬p < nLen * 8 := by
      rw [UInt32.lt_iff_toNat_lt]
      omega
    rw [leadingZeros_end hend]
    simp [spsZeros]
  | succ passes ih =>
    unfold spsZeros
    by_cases hlt : p < nLen * 8
    · have hnat : p.toNat < (nLen * 8).toNat := UInt32.lt_iff_toNat_lt.mp hlt
      have hinside : (p / 8).toNat < bytes.length := by
        have height : (8 : UInt32).toNat = 8 := rfl
        rw [UInt32.toNat_mul, height] at hnat
        rw [UInt32.toNat_div, height]
        omega
      rw [if_pos hlt, spsBit_inside hinside, Call.ret_bind, leadingZeros_step hlt]
      split
      · simp
      · have hnext : (p + 1).toNat = p.toNat + 1 := by
          rw [UInt32.toNat_add]
          have hbound := (nLen * 8).toNat_lt
          have hone : (1 : UInt32).toNat = 1 := rfl
          omega
        rw [ih (by omega), ofNat_succ]
        congr 2
        omega
    · rw [if_neg hlt, leadingZeros_end hlt]
      simp

theorem spsUe_inside (hlen : nLen.toNat ≤ bytes.length) (hzeros : leadingZeros bytes nLen p < 32)
    (h : BitsInside bytes (behindZeros bytes nLen p) (leadingZeros bytes nLen p)) :
    spsUe bytes nLen p = .ret (2 ^ leadingZeros bytes nLen p - 1 +
        bitsNumber bytes (behindZeros bytes nLen p) (leadingZeros bytes nLen p),
      behindZeros bytes nLen p + UInt32.ofNat (leadingZeros bytes nLen p)) := by
  unfold spsUe
  rw [spsZeros_eq hlen (Nat.sub_le _ _), Call.ret_bind]
  dsimp only
  rw [Nat.zero_add, ← behindZeros, spsULoop_inside h, Call.ret_bind]
  dsimp only
  rw [if_pos hzeros, Nat.zero_mul, Nat.zero_add]
  rfl

theorem spsUe_outside (hlen : nLen.toNat ≤ bytes.length)
    (h : ¬(leadingZeros bytes nLen p < 32 ∧
      BitsInside bytes (behindZeros bytes nLen p) (leadingZeros bytes nLen p))) :
    spsUe bytes nLen p = .crash := by
  unfold spsUe
  rw [spsZeros_eq hlen (Nat.sub_le _ _), Call.ret_bind]
  dsimp only
  rw [Nat.zero_add, ← behindZeros]
  by_cases hinside : BitsInside bytes (behindZeros bytes nLen p) (leadingZeros bytes nLen p)
  · rw [spsULoop_inside hinside, Call.ret_bind]
    exact if_neg fun hzeros => h ⟨hzeros, hinside⟩
  · rw [spsULoop_outside hinside, Call.crash_bind]

end Readers

section Run

variable {bytes buf : List UInt8} {nLen : UInt32} {s t : SpsState} {o : SpsOp} {v : Int}

theorem spsStep_allowed (hlen : nLen.toNat ≤ bytes.length) (h : SpsAllowed bytes nLen s o) :
    spsStep bytes nLen s o = .ret (spsMeaning bytes nLen s o) := by
  cases o with
  | u bitCount =>
    have hread := @spsULoop_inside bytes s.startBit bitCount 0 h
    rw [Nat.zero_mul, Nat.zero_add] at hread
    exact Call.bind_eq_ret.mpr ⟨_, hread, rfl⟩
  | ue => exact Call.bind_eq_ret.mpr ⟨_, spsUe_inside hlen h.1 h.2, rfl⟩
  | malloc count => exact absurd h id
  | divide a b => exact if_neg h

/-- The log of the allocations only grows, and what is not allowed and comes back is one more. -/
theorem spsStep_allocs (h : spsStep bytes nLen s o = .ret (v, t)) :
    ∃ more, t.allocs = s.allocs ++ more ∧ (nLen.toNat ≤ bytes.length →
      ¬SpsAllowed bytes nLen s o → more ≠ []) := by
  cases o with
  | u bitCount =>
    obtain ⟨⟨v', p⟩, hread, h⟩ := Call.bind_eq_ret.mp h
    obtain ⟨-, rfl⟩ := Prod.mk.inj (Call.ret.inj h)
    refine ⟨[], (List.append_nil _).symm, fun _ hnot => ?_⟩
    unfold spsU at hread
    rw [spsULoop_outside hnot] at hread
    exact nomatch hread
  | ue =>
    obtain ⟨⟨v', p⟩, hread, h⟩ := Call.bind_eq_ret.mp h
    obtain ⟨-, rfl⟩ := Prod.mk.inj (Call.ret.inj h)
    refine ⟨[], (List.append_nil _).symm, fun hlen hnot => ?_⟩
    rw [spsUe_outside hlen hnot] at hread
    exact nomatch hread
  | malloc count =>
    cases h
    exact ⟨[count], rfl, fun _ _ => List.cons_ne_nil _ _⟩
  | divide a b =>
    by_cases hb : b = 0
    · exact nomatch (if_pos hb).symm.trans h
    · cases (if_neg hb).symm.trans h
      exact ⟨[], (List.append_nil _).symm, fun _ hnot => absurd hb hnot⟩

theorem runSps_allowed (hlen : nLen.toNat ≤ bytes.length) {p : Sps SpsResult} :
    (∃ r, run (spsStep bytes nLen) p {} = .ret r ∧ r.2.allocs = []) ↔
      Allowed (spsMeaning bytes nLen) (SpsAllowed bytes nLen) p {} := by
  refine @run_allowed SpsOp Int SpsResult SpsState (spsStep bytes nLen) _ _
    (fun s => s.allocs = []) ?_ ?_ ?_ p {} rfl
  · intro s o v t hs h
    obtain ⟨more, hmore, -⟩ := spsStep_allocs h
    rw [hmore]
    exact fun hnil => hs (List.append_eq_nil_iff.mp hnil).1
  · intro s o hs h
    refine ⟨spsStep_allowed hlen h, ?_⟩
    cases o with
    | malloc count => exact absurd h id
    | u _ => exact hs
    | ue => exact hs
    | divide _ _ => exact hs
  · intro s o v t _ hnot h
    obtain ⟨more, hmore, hne⟩ := spsStep_allocs h
    rw [hmore]
    exact fun hnil => hne hlen hnot (List.append_eq_nil_iff.mp hnil).2

end Run

/-- The set is read safely exactly if there are two bytes, and each field that the parser comes to
is allowed in the bits without the emulation prevention. -/
theorem sps_parse_safe (buf : List UInt8) (hsize : buf.length < 2 ^ 32) : SafeSps buf ↔
    2 ≤ buf.length ∧
      Allowed (spsMeaning (settled buf) (UInt32.ofNat (unescape 0 buf).length))
        (SpsAllowed (settled buf) (UInt32.ofNat (unescape 0 buf).length)) spsSyntax {} := by
  have hlen : (UInt32.ofNat (unescape 0 buf).length).toNat ≤ (settled buf).length := by
    have hle := unescape_length_le 0 buf
    rw [settled_length, UInt32.toNat_ofNat']
    omega
  rw [← runSps_allowed hlen]
  constructor
  · rintro ⟨r, hr, hallocs⟩
    obtain ⟨after, hafter, hrest⟩ := Call.bind_eq_ret.mp hr
    have htwo := (deEmulationPrevention_returns hsize).mp ⟨after, hafter⟩
    cases (deEmulationPrevention_scan hsize htwo).symm.trans hafter
    obtain ⟨⟨result, s⟩, hrun, hresult⟩ := Call.bind_eq_ret.mp hrest
    cases hresult
    exact ⟨htwo, ⟨result, s⟩, hrun, hallocs⟩
  · rintro ⟨htwo, ⟨result, s⟩, hrun, hallocs⟩
    refine ⟨(result, s.allocs), ?_, hallocs⟩
    unfold h264DecodeSpspps
    rw [deEmulationPrevention_scan hsize htwo, Call.ret_bind]
    dsimp only
    rw [hrun]
    rfl

/-- The header of a parameter set and its profile. -/
def cutSps : List UInt8 := [0x67, 0x42]

theorem sps_parse_safe_cut : SafeSps cutSps ↔
    2 ≤ cutSps.length ∧
      Allowed (spsMeaning (settled cutSps) (UInt32.ofNat (unescape 0 cutSps).length))
        (SpsAllowed (settled cutSps) (UInt32.ofNat (unescape 0 cutSps).length)) spsSyntax {} :=
  sps_parse_safe cutSps (by decide)

/-- The constraint flags are read behind the buffer. -/
theorem flags_behind : ¬SafeSps cutSps := by
  have hcrash : h264DecodeSpspps cutSps = .crash := rfl
  rintro ⟨r, hr, -⟩
  rw [hcrash] at hr
  exact nomatch hr

end MetaRtc
