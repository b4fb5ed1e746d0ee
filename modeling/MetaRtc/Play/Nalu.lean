import MetaRtc.Lib.Area
import MetaRtc.Rtp.Payload

/-! # Units behind their lengths

A key frame comes as units behind their four-byte lengths. The walk over them finds the
slice and the parameter sets. -/
namespace MetaRtc

open Bytes Exec

def yangAvcNaluTypeNonIDR : UInt8 := 1
def yangAvcNaluTypeIDR : UInt8 := 5
def yangAvcNaluTypeSPS : UInt8 := 7
def yangAvcNaluTypePPS : UInt8 := 8

def yangNalUnitCodedSliceBla : UInt8 := 16
def yangNalUnitCodedSliceCra : UInt8 := 21
def yangNalUnitVps : UInt8 := 32
def yangNalUnitSps : UInt8 := 33
def yangNalUnitPps : UInt8 := 34

def yangNaluSpsppsBufferLen : Nat := 256

/-- What an `int32_t` has of a number. -/
def toInt32 (v : Int) : Int := Int.bmod v (2 ^ 32)

def hasH264Pframe (p : Area) : Call Bool := do
  let v ← p.byte 4
  return v &&& kNalTypeMask = yangAvcNaluTypeNonIDR

structure H264NaluData where
  spsppsPos : Int := -1
  keyframePos : Int := -1
  deriving DecidableEq

/-- The walk over the units of a frame of `len` bytes, up to the first slice of a key frame.
Every pass moves by four bytes at least, so the length bounds the passes. -/
def parseNaluLoop (isKey isSpspps : UInt8 → Bool) (payload : Area) (len : Nat) :
    Nat → Nat → H264NaluData → Call H264NaluData
  | 0, _, nalu => .ret nalu
  | fuel + 1, pos, nalu =>
    if pos < len then do
      let v ← payload.byte (pos + 4)
      if isKey v then return { nalu with keyframePos := pos }
      else
        let nalu := if isSpspps v then { nalu with spsppsPos := pos } else nalu
        let naluLen ← payload.be32 pos
        if naluLen > len then return nalu
        else parseNaluLoop isKey isSpspps payload len fuel (pos + (naluLen + 4)) nalu
    else .ret nalu

def parseH264Nalu (payload : Area) (nb : Nat) : Call H264NaluData :=
  parseNaluLoop (fun v => v &&& kNalTypeMask = yangAvcNaluTypeIDR)
    (fun v => v &&& kNalTypeMask = yangAvcNaluTypeSPS) payload nb (nb + 1) 0 {}

def parseH265Nalu (payload : Area) (nb : Nat) : Call H264NaluData :=
  parseNaluLoop
    (fun v => decide (yangNalUnitCodedSliceBla ≤ hevcNaluType v) &&
      decide (hevcNaluType v ≤ yangNalUnitCodedSliceCra))
    (fun v => hevcNaluType v = yangNalUnitVps) payload nb (nb + 1) 0 {}

/-- The configuration record of the parameter sets at the two places of `p`. Its length is
the second result. -/
def getConfigMetaH264 (p : Area) (sps spsLen pps ppsLen : Int) (configBuf : Area) :
    Call (Area × Nat) := do
  let profile ← p.read (sps + 1) 3
  let spsBytes ← p.read sps spsLen
  let ppsBytes ← p.read pps ppsLen
  let bytes := [0x17, 0x00, 0x00, 0x00, 0x00, 0x01] ++ profile ++ [0xff, 0xe1] ++
    beBytes 2 spsLen.toNat ++ spsBytes ++ [0x01] ++ beBytes 2 ppsLen.toNat ++ ppsBytes
  let configBuf ← configBuf.write 0 bytes
  return (configBuf, bytes.length)

def getConfigMetaH265 (p : Area) (vps vpsLen sps spsLen pps ppsLen : Int) (configBuf : Area) :
    Call (Area × Nat) := do
  let profile ← p.read (sps + 1) 12
  let vpsBytes ← p.read vps vpsLen
  let spsBytes ← p.read sps spsLen
  let ppsBytes ← p.read pps ppsLen
  let bytes := [0x1C, 0x00, 0x00, 0x00, 0x00, 0x00] ++ profile ++ List.replicate 9 0x00 ++ [0x03] ++
    [0x20, 0x00, 0x01] ++ beBytes 2 vpsLen.toNat ++ vpsBytes ++
    [0x21, 0x00, 0x01] ++ beBytes 2 spsLen.toNat ++ spsBytes ++
    [0x22, 0x00, 0x01] ++ beBytes 2 ppsLen.toNat ++ ppsBytes
  let configBuf ← configBuf.write 0 bytes
  return (configBuf, bytes.length)

/-- The record of the parameter sets from `pos` on, for a frame of `nb` bytes. There is none
where their lengths do not fit. -/
def getH264SpsppseNalu (metaBuf : Area) (nb : Nat) (p : Area) (pos : Int) :
    Call (Option (Area × Nat)) := do
  let spsLen := toInt32 (← p.be32 pos)
  let ppsLen := toInt32 (← p.be32 (pos + 4 + spsLen))
  if toInt32 (spsLen + ppsLen + 8) > yangNaluSpsppsBufferLen then return none
  else if spsLen > nb ∨ ppsLen > nb then return none
  else return some (← getConfigMetaH264 p (pos + 4) spsLen (pos + 4 + spsLen + 4) ppsLen metaBuf)

def getH265SpsppseNalu (metaBuf : Area) (nb : Nat) (p : Area) (pos : Int) :
    Call (Option (Area × Nat)) := do
  let vpsLen := toInt32 (← p.be32 pos)
  let spsLen := toInt32 (← p.be32 (pos + 4 + vpsLen))
  let ppsLen := toInt32 (← p.be32 (pos + 4 + vpsLen + 4 + spsLen))
  if toInt32 (vpsLen + spsLen + ppsLen + 8) > yangNaluSpsppsBufferLen then return none
  else if spsLen > nb ∨ ppsLen > nb then return none
  else return some (← getConfigMetaH265 p (pos + 4) vpsLen (pos + 4 + vpsLen + 4) spsLen
    (pos + 4 + vpsLen + 4 + spsLen + 4) ppsLen metaBuf)

end MetaRtc
