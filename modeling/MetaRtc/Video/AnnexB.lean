import MetaRtc.Publish.Resend
import Mathlib.Data.List.GetD

/-! # Units behind start codes

The bytes between two start codes are a unit. Positions are counted from the beginning of the
bytes, and from where the last search began. -/
namespace MetaRtc

open Bytes

/-- Where the parameter sets are. What is not found keeps the value it had. -/
structure StartCodes where
  vpsPos : Int
  vpsLen : Int
  spsPos : Int
  spsLen : Int
  ppsPos : Int
  ppsLen : Int
  deriving DecidableEq

def isStartCode (buf : List UInt8) (i : Nat) : Bool :=
  buf.getD i 0 == 0 && buf.getD (i + 1) 0 == 0 && buf.getD (i + 2) 0 == 0 &&
    buf.getD (i + 3) 0 == 1

/-- The first start code among so many positions from `i` on. -/
def scanStartCode (buf : List UInt8) : Nat → Nat → Option Nat
  | 0, _ => none
  | left + 1, i => if isStartCode buf i then some i else scanStartCode buf left (i + 1)

/-- A loop that finds nothing leaves its counter at the bound, and nothing is left to the next. -/
def findStartCode (codec : VideoCodec) (buf : List UInt8) (out : StartCodes) : StartCodes :=
  let bound := buf.length - 3
  let out := { out with spsPos := 0, ppsPos := 0 }
  let (out, i) : StartCodes × Nat :=
    match codec with
    | .h265 =>
      match scanStartCode buf bound 0 with
      | some i => ({ out with vpsPos := i + 4 }, i + 4)
      | none => ({ out with vpsPos := 0 }, bound)
    | .h264 => (out, 0)
  match scanStartCode buf (bound - i) i with
  | none => out
  | some i =>
    let out := if codec = .h265 then { out with vpsLen := i - 4 } else out
    let out := { out with spsPos := i + 4 }
    match scanStartCode buf (bound - (i + 4)) (i + 4) with
    | none => out
    | some i => { out with
        spsLen := i - out.spsPos
        ppsPos := i + 4
        ppsLen := buf.length - (i + 4) }

structure YangH264NaluData2 where
  spsPos : Int := -1
  ppsPos : Int := -1
  spsLen : Int := 0
  ppsLen : Int := 0
  keyframePos : Int := -1
  deriving DecidableEq

/-- At least one byte has to be behind the start code. -/
def getNalupos (data : List UInt8) : Option Nat :=
  (scanStartCode data (data.length - 4) 0).map (· + 4)

/-- What the unit was whose end is being looked for. -/
inductive PreType where
  | other | sps | pps
  deriving DecidableEq

/-- The unit before ends where the next start code begins. -/
def endUnit (preType : PreType) (len : Int) (nalu : YangH264NaluData2) : YangH264NaluData2 :=
  match preType with
  | .sps => { nalu with spsLen := len }
  | .pps => { nalu with ppsLen := len }
  | .other => nalu

/-- Each pass goes behind a start code, so the length bounds the passes. -/
def parseH264Nalu2Loop (payload : List UInt8) :
    Nat → Nat → PreType → YangH264NaluData2 → Int × YangH264NaluData2
  | 0, _, _, nalu => (1, nalu)
  | fuel + 1, pos, preType, nalu =>
    if pos < payload.length then
      match getNalupos (payload.drop pos) with
      | none => (1, nalu)
      | some tmpPos =>
        let nalu := endUnit preType (tmpPos - 4) nalu
        let naluType := payload.getD (pos + tmpPos) 0 &&& kNalTypeMask
        if naluType = 5 then (0, { nalu with keyframePos := pos + tmpPos })
        else if naluType = 7 then
          parseH264Nalu2Loop payload fuel (pos + tmpPos) .sps { nalu with spsPos := pos + tmpPos }
        else if naluType = 8 then
          parseH264Nalu2Loop payload fuel (pos + tmpPos) .pps { nalu with ppsPos := pos + tmpPos }
        else parseH264Nalu2Loop payload fuel (pos + tmpPos) .other nalu
    else (1, nalu)

def parseH264Nalu2 (payload : List UInt8) : Int × YangH264NaluData2 :=
  parseH264Nalu2Loop payload payload.length 0 .other {}

/-- Bytes in which there is no start code. -/
structure PlainBytes where
  bytes : List UInt8
  plain : ¬[0, 0, 0, 1] <:+: bytes

/-- A unit of that type. -/
structure PlainUnit (naluType : UInt8) extends PlainBytes where
  first : ∃ b rest, bytes = b :: rest ∧ b &&& kNalTypeMask = naluType

def startCoded (unit : List UInt8) : List UInt8 := [0, 0, 0, 1] ++ unit

section Scan

variable {buf front unit behind : List UInt8} {left i : Nat}

theorem isStartCode_append : isStartCode (front ++ unit) front.length ↔ [0, 0, 0, 1] <+: unit := by
  have hget : ∀ k, (front ++ unit).getD (front.length + k) 0 = unit.getD k 0 := by
    intro k
    rw [List.getD_append_right _ _ _ _ (by omega), Nat.add_sub_cancel_left]
  have hfirst : (front ++ unit).getD front.length 0 = unit.getD 0 0 := hget 0
  unfold isStartCode
  rw [hget 1, hget 2, hget 3, hfirst]
  simp only [Bool.and_eq_true, beq_iff_eq]
  constructor
  · rintro ⟨⟨⟨h0, h1⟩, h2⟩, h3⟩
    match unit, h0, h1, h2, h3 with
    | _ :: _ :: _ :: _ :: rest, rfl, rfl, rfl, rfl => exact ⟨rest, rfl⟩
  · rintro ⟨rest, rfl⟩
    exact ⟨⟨⟨rfl, rfl⟩, rfl⟩, rfl⟩

/-- A start code does not begin in a unit and end in the one behind the unit. -/
theorem no_code_inside (hplain : ¬[0, 0, 0, 1] <:+: unit) (hunit : unit ≠ []) :
    ¬[0, 0, 0, 1] <+: unit ++ startCoded behind := by
  rintro ⟨rest, hrest⟩
  match unit with
  | [] => exact hunit rfl
  | [_] =>
    simp only [startCoded, List.cons_append, List.nil_append, List.cons.injEq] at hrest
    exact absurd hrest.2.2.2.1 (by decide)
  | [_, _] =>
    simp only [startCoded, List.cons_append, List.nil_append, List.cons.injEq] at hrest
    exact absurd hrest.2.2.2.1 (by decide)
  | [_, _, _] =>
    simp only [startCoded, List.cons_append, List.nil_append, List.cons.injEq] at hrest
    exact absurd hrest.2.2.2.1 (by decide)
  | a :: b :: c :: d :: unit =>
    simp only [List.cons_append, List.nil_append, List.cons.injEq] at hrest
    obtain ⟨rfl, rfl, rfl, rfl, _⟩ := hrest
    exact hplain ⟨[], unit, rfl⟩

/-- At a position there is a unit, and behind it a start code and more. -/
structure CodedAt (buf : List UInt8) (p : Nat) (unit behind : List UInt8) : Prop where
  split : ∃ front, buf = front ++ (unit ++ startCoded behind) ∧ p = front.length

theorem CodedAt.next {unit' behind' : List UInt8}
    (h : CodedAt buf i unit (unit' ++ startCoded behind')) :
    CodedAt buf (i + unit.length + 4) unit' behind' := by
  obtain ⟨front, rfl, rfl⟩ := h
  refine ⟨front ++ unit ++ [0, 0, 0, 1], ?_, ?_⟩
  · simp [startCoded]
  · simp [Nat.add_assoc]

/-- From the beginning of a unit the search comes to its end. -/
theorem CodedAt.scan (h : CodedAt buf i unit behind) (hplain : ¬[0, 0, 0, 1] <:+: unit)
    (hleft : unit.length < left) : scanStartCode buf left i = some (i + unit.length) := by
  obtain ⟨front, rfl, rfl⟩ := h
  induction unit generalizing front left with
  | nil =>
    obtain ⟨left, rfl⟩ : ∃ n, left = n + 1 := ⟨left - 1, by simp at hleft; omega⟩
    have hcode : isStartCode (front ++ ([] ++ startCoded behind)) front.length :=
      isStartCode_append.mpr ⟨behind, rfl⟩
    rw [scanStartCode, if_pos hcode]
    rfl
  | cons b unit ih =>
    obtain ⟨left, rfl⟩ : ∃ n, left = n + 1 := ⟨left - 1, by omega⟩
    have hno : ¬isStartCode (front ++ (b :: unit ++ startCoded behind)) front.length := by
      rw [isStartCode_append]
      exact no_code_inside hplain (by simp)
    have hrest : ¬[0, 0, 0, 1] <:+: unit := fun h =>
      hplain (h.trans (List.suffix_cons b unit).isInfix)
    rw [List.length_cons] at hleft ⊢
    have hscan := @ih left hrest (by omega) (front ++ [b])
    rw [List.length_append, List.length_singleton, List.append_assoc] at hscan
    rw [scanStartCode, if_neg hno]
    refine hscan.trans ?_
    congr 1
    omega

end Scan

section Found

variable (junk vps sps pps : PlainBytes)

/-- Each set begins behind its start code and ends at the next. -/
def FindsH264 (junk sps pps : List UInt8) : Prop :=
  ∀ out, ∃ found, findStartCode .h264 (junk ++ startCoded sps ++ startCoded pps) out = found ∧
    found.spsPos = junk.length + 4 ∧ found.spsLen = sps.length ∧
    found.ppsPos = junk.length + 4 + sps.length + 4 ∧ found.ppsLen = pps.length

def FindsH265 (junk vps sps pps : List UInt8) : Prop :=
  ∀ out, ∃ found,
    findStartCode .h265 (junk ++ startCoded vps ++ startCoded sps ++ startCoded pps) out = found ∧
    found.vpsPos = junk.length + 4 ∧ found.vpsLen = vps.length ∧
    found.spsPos = junk.length + 4 + vps.length + 4 ∧ found.spsLen = sps.length ∧
    found.ppsPos = junk.length + 4 + vps.length + 4 + sps.length + 4 ∧
    found.ppsLen = pps.length

@[simp] theorem startCoded_length (unit : List UInt8) :
    (startCoded unit).length = unit.length + 4 := by
  simp [startCoded]

theorem findStartCode_h264 : FindsH264 junk.bytes sps.bytes pps.bytes := by
  intro out
  refine ⟨_, rfl, ?_⟩
  generalize hbuf : junk.bytes ++ startCoded sps.bytes ++ startCoded pps.bytes = buf
  have hlen := congrArg List.length hbuf
  simp only [List.length_append, startCoded_length] at hlen
  have hat : CodedAt buf 0 junk.bytes (sps.bytes ++ startCoded pps.bytes) :=
    ⟨[], by simp [← hbuf, startCoded], rfl⟩
  have hscan : scanStartCode buf (buf.length - 3 - 0) 0 = _ := hat.scan junk.plain (by omega)
  have hscan' : scanStartCode buf (buf.length - 3 - (0 + junk.bytes.length + 4)) _ = _ :=
    hat.next.scan sps.plain (by omega)
  unfold findStartCode
  simp only [hscan, hscan']
  simp only [zero_add, Nat.cast_add, Nat.cast_ofNat, add_sub_cancel_left, true_and]
  omega

/-- The length of the first set is counted from the beginning of all the bytes. -/
theorem findStartCode_h265 :
    FindsH265 junk.bytes vps.bytes sps.bytes pps.bytes ↔ junk.bytes = [] := by
  have hfound : ∀ out, ∃ found, findStartCode .h265
      (junk.bytes ++ startCoded vps.bytes ++ startCoded sps.bytes ++ startCoded pps.bytes) out =
        found ∧ found.vpsPos = junk.bytes.length + 4 ∧
      found.vpsLen = junk.bytes.length + vps.bytes.length ∧
      found.spsPos = junk.bytes.length + 4 + vps.bytes.length + 4 ∧
      found.spsLen = sps.bytes.length ∧
      found.ppsPos = junk.bytes.length + 4 + vps.bytes.length + 4 + sps.bytes.length + 4 ∧
      found.ppsLen = pps.bytes.length := by
    intro out
    refine ⟨_, rfl, ?_⟩
    generalize hbuf :
      junk.bytes ++ startCoded vps.bytes ++ startCoded sps.bytes ++ startCoded pps.bytes = buf
    have hlen := congrArg List.length hbuf
    simp only [List.length_append, startCoded_length] at hlen
    have hat : CodedAt buf 0 junk.bytes
        (vps.bytes ++ startCoded (sps.bytes ++ startCoded pps.bytes)) :=
      ⟨[], by simp [← hbuf, startCoded], rfl⟩
    have hscan : scanStartCode buf (buf.length - 3) 0 = _ := hat.scan junk.plain (by omega)
    have hscan' : scanStartCode buf (buf.length - 3 - (0 + junk.bytes.length + 4)) _ = _ :=
      hat.next.scan vps.plain (by omega)
    have hscan'' : scanStartCode buf
        (buf.length - 3 - (0 + junk.bytes.length + 4 + vps.bytes.length + 4)) _ = _ :=
      hat.next.next.scan sps.plain (by omega)
    unfold findStartCode
    simp only [hscan, hscan', hscan'']
    simp only [↓reduceIte, zero_add, Nat.cast_add, Nat.cast_ofNat, add_sub_cancel_left, true_and]
    omega
  constructor
  · intro h
    obtain ⟨found, hcode, _, hlen, _⟩ := h ⟨0, 0, 0, 0, 0, 0⟩
    obtain ⟨found', hcode', _, hlen', _⟩ := hfound ⟨0, 0, 0, 0, 0, 0⟩
    rw [← hcode', hcode, hlen] at hlen'
    apply List.length_eq_zero_iff.mp
    omega
  · intro h out
    obtain ⟨found, hcode, hvps, hlen, hrest⟩ := hfound out
    refine ⟨found, hcode, hvps, ?_, hrest⟩
    rw [hlen, h]
    simp

/-- What one pass does from the beginning of a unit, with another unit behind it. -/
theorem parseH264Nalu2Loop_unit {payload unit behind : List UInt8} {pos fuel : Nat} {b : UInt8}
    (hat : CodedAt payload pos unit (b :: behind)) (hplain : ¬[0, 0, 0, 1] <:+: unit)
    (preType : PreType) (nalu : YangH264NaluData2) :
    parseH264Nalu2Loop payload (fuel + 1) pos preType nalu =
      let nalu := endUnit preType unit.length nalu
      let pos := pos + unit.length + 4
      if b &&& kNalTypeMask = 5 then (0, { nalu with keyframePos := pos })
      else if b &&& kNalTypeMask = 7 then
        parseH264Nalu2Loop payload fuel pos .sps { nalu with spsPos := pos }
      else if b &&& kNalTypeMask = 8 then
        parseH264Nalu2Loop payload fuel pos .pps { nalu with ppsPos := pos }
      else parseH264Nalu2Loop payload fuel pos .other nalu := by
  obtain ⟨front, rfl, rfl⟩ := hat
  have hpos : getNalupos (unit ++ startCoded (b :: behind)) = some (unit.length + 4) := by
    have hcode : CodedAt (unit ++ startCoded (b :: behind)) 0 unit (b :: behind) := ⟨[], rfl, rfl⟩
    unfold getNalupos
    have hroom : unit.length < (unit ++ startCoded (b :: behind)).length - 4 := by
      rw [List.length_append, startCoded_length, List.length_cons]
      omega
    rw [hcode.scan hplain hroom, Nat.zero_add]
    rfl
  have hfirst : (front ++ (unit ++ startCoded (b :: behind))).getD
      (front.length + (unit.length + 4)) 0 = b := by
    rw [List.getD_append_right _ _ _ _ (by omega), Nat.add_sub_cancel_left,
      List.getD_append_right _ _ _ _ (by omega), Nat.add_sub_cancel_left]
    rfl
  rw [parseH264Nalu2Loop, if_pos (by simp), List.drop_left, hpos]
  dsimp only
  rw [hfirst, Nat.add_assoc]
  have hlen : ((unit.length + 4 : Nat) : Int) - 4 = unit.length := by omega
  rw [hlen, Int.natCast_add front.length]

def SplitsH264 (junk sps pps idr : List UInt8) : Prop :=
  parseH264Nalu2 (junk ++ startCoded sps ++ startCoded pps ++ startCoded idr) = (0, {
    spsPos := junk.length + 4
    spsLen := sps.length
    ppsPos := junk.length + 4 + sps.length + 4
    ppsLen := pps.length
    keyframePos := junk.length + 4 + sps.length + 4 + pps.length + 4 })

theorem parseH264Nalu2_splits (junk : PlainBytes) (sps : PlainUnit 7) (pps : PlainUnit 8)
    (idr : PlainUnit 5) : SplitsH264 junk.bytes sps.bytes pps.bytes idr.bytes := by
  obtain ⟨a, sps', hsps, hspsType⟩ := sps.first
  obtain ⟨b, pps', hpps, hppsType⟩ := pps.first
  obtain ⟨c, idr', hidr, hidrType⟩ := idr.first
  unfold SplitsH264 parseH264Nalu2
  generalize hbuf : junk.bytes ++ startCoded sps.bytes ++ startCoded pps.bytes ++
    startCoded idr.bytes = buf
  have hlen := congrArg List.length hbuf
  simp only [List.length_append, startCoded_length] at hlen
  obtain ⟨fuel, hfuel⟩ : ∃ n, buf.length = n + 1 + 1 + 1 := ⟨buf.length - 3, by omega⟩
  have hat : CodedAt buf 0 junk.bytes
      (sps.bytes ++ startCoded (pps.bytes ++ startCoded idr.bytes)) :=
    ⟨[], by simp [← hbuf, startCoded], rfl⟩
  have hat' := hat.next
  have hat'' := hat'.next
  rw [hsps] at hat
  rw [hpps] at hat'
  rw [hidr] at hat''
  rw [hfuel, parseH264Nalu2Loop_unit hat junk.plain, hspsType, if_neg (by decide), if_pos rfl,
    parseH264Nalu2Loop_unit hat' sps.plain, hppsType, if_neg (by decide), if_neg (by decide),
    if_pos rfl, parseH264Nalu2Loop_unit hat'' pps.plain, hidrType, if_pos rfl]
  simp [endUnit]

end Found

/-- All positions and lengths are right, but for the length of the first set of H265: that is
right exactly if nothing is before the first start code. -/
theorem units_found (junk vps sps pps : PlainBytes) (avcSps : PlainUnit 7) (avcPps : PlainUnit 8)
    (idr : PlainUnit 5) :
    FindsH264 junk.bytes sps.bytes pps.bytes ∧
      (FindsH265 junk.bytes vps.bytes sps.bytes pps.bytes ↔ junk.bytes = []) ∧
      SplitsH264 junk.bytes avcSps.bytes avcPps.bytes idr.bytes :=
  ⟨findStartCode_h264 junk sps pps, findStartCode_h265 junk vps sps pps,
    parseH264Nalu2_splits junk avcSps avcPps idr⟩

/-- One byte before the first start code makes the first set longer by one. -/
theorem byte_before : ¬FindsH265 [0xff] [0x40, 1] [0x42, 1] [0x44, 1] := by
  intro h
  obtain ⟨found, hfound, _, hlen, _⟩ := h ⟨0, 0, 0, 0, 0, 0⟩
  rw [← hfound] at hlen
  exact absurd hlen (by decide)

end MetaRtc
