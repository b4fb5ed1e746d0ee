import MetaRtc.Rtp.Header

/-! # RTP payload formats of H264 and H265 -/
namespace MetaRtc

open Bytes

def kRtpPacketSize : Nat := 1500
def kRtpMaxPayloadSize : Nat := 1300

def kNalTypeMask : UInt8 := 0x1F
def kStapA : UInt8 := 24
def kFuA : UInt8 := 28
def h265KStapA : UInt8 := 48
def h265KFuA : UInt8 := 49
/-- Fragment header start bit. -/
def kStart : UInt8 := 0x80
/-- Fragment header end bit. -/
def kEnd : UInt8 := 0x40

def hevcNaluType (code : UInt8) : UInt8 := (code >>> 1) &&& 0x3F

/-- An `int16_t` read where an `int32_t` is meant. -/
def toInt16 (v : Nat) : Int := Int.bmod v 65536

def encodeH264Raw (buf : OutBuffer) (payload : List UInt8) : Err × OutBuffer :=
  if payload.length = 0 then (yangOk, buf)
  else if !buf.require payload.length then (errorRtcRtpMuxer, buf)
  else (yangOk, buf.writeBytes payload)

structure Fua2Data where
  start : Bool
  last : Bool
  nri : UInt8
  naluType : UInt8
  payload : List UInt8

def fuHeader (pkt : Fua2Data) : UInt8 :=
  let v := pkt.naluType
  let v := if pkt.start then v ||| kStart else v
  if pkt.last then v ||| kEnd else v

def encodeH264Fua2 (buf : OutBuffer) (pkt : Fua2Data) : Err × OutBuffer :=
  if !buf.require (2 + pkt.payload.length) then (errorRtcRtpMuxer, buf)
  else
    let fuIndicate := kFuA ||| (pkt.nri &&& ~~~kNalTypeMask)
    (yangOk, buf.writeBytes (fuIndicate :: fuHeader pkt :: pkt.payload))

def encodeH265Fua2 (buf : OutBuffer) (pkt : Fua2Data) : Err × OutBuffer :=
  if !buf.require (3 + pkt.payload.length) then (errorRtcRtpMuxer, buf)
  else (yangOk, buf.writeBytes (h265KFuA <<< 1 :: 1 :: fuHeader pkt :: pkt.payload))

/-- A unit of `nb` bytes. The length is computed from bytes taken as signed, so it may be
negative. -/
structure YangSample where
  nb : Int
  bytes : List UInt8
  deriving DecidableEq

structure RtpSTAPData where
  nri : UInt8 := 0
  nalus : List YangSample := []

/-- The aggregated units, each behind its length. A unit that does not fit ends the
loop with what was written before it. -/
def encodeStapNalus : List YangSample → OutBuffer → Err × OutBuffer
  | [], buf => (yangOk, buf)
  | p :: rest, buf =>
    if !buf.require (2 + p.nb) then (errorRtcRtpMuxer, buf)
    else
      let buf := buf.write2bytes (p.nb % 65536).toNat
      let buf := if p.nb < 0 then { buf with fault := true } else buf.writeBytes p.bytes
      encodeStapNalus rest buf

def encodeH264Stap (buf : OutBuffer) (data : RtpSTAPData) : Err × OutBuffer :=
  if !buf.require 1 then (errorRtcRtpMuxer, buf)
  else
    let v := kStapA ||| (data.nri &&& ~~~kNalTypeMask)
    encodeStapNalus data.nalus (buf.write1bytes v)

def encodeH265Stap (buf : OutBuffer) (data : RtpSTAPData) : Err × OutBuffer :=
  if !buf.require 1 then (errorRtcRtpMuxer, buf)
  else encodeStapNalus data.nalus ((buf.write1bytes (h265KStapA <<< 1)).write1bytes 0)

/-- What a fragment's two or three header bytes say. -/
structure Fua2DataCache where
  start : Bool := false
  last : Bool := false
  nri : UInt8 := 0
  naluType : UInt8 := 0
  deriving DecidableEq

def decodeH264Fua2 (buf : YangBuffer) (pkt : Fua2DataCache) : Err × Fua2DataCache × YangBuffer :=
  if !buf.require 2 then (errorRtcRtpMuxer, pkt, buf)
  else
    let v := buf.data buf.head
    let buf := buf.take 1
    let nri := v &&& ~~~kNalTypeMask
    let v := buf.data buf.head
    let buf := buf.take 1
    let pkt : Fua2DataCache :=
      { start := v &&& kStart != 0, last := v &&& kEnd != 0, nri, naluType := v &&& kNalTypeMask }
    if !buf.require 1 then (errorRtcRtpMuxer, pkt, buf) else (yangOk, pkt, buf)

def decodeH265Fua2 (buf : YangBuffer) (pkt : Fua2DataCache) : Err × Fua2DataCache × YangBuffer :=
  if !buf.require 3 then (errorRtcRtpMuxer, pkt, buf)
  else
    let v := buf.data buf.head
    let nri := (v >>> 1) &&& 0x3F
    let buf := buf.take 2
    let v := buf.data buf.head
    let buf := buf.take 1
    let pkt : Fua2DataCache :=
      { start := v &&& kStart != 0, last := v &&& kEnd != 0, nri, naluType := v &&& 0x3F }
    if !buf.require 1 then (errorRtcRtpMuxer, pkt, buf) else (yangOk, pkt, buf)

/-- The loop over the aggregated units. Every pass moves the cursor by two bytes at
least, so the bytes left bound the passes. -/
def decodeStapNalus : Nat → List YangSample → YangBuffer → Err × List YangSample × YangBuffer
  | 0, nalus, buf => (yangOk, nalus, buf)
  | fuel + 1, nalus, buf =>
    if buf.empty then (yangOk, nalus, buf)
    else if !buf.require 2 then (errorRtcRtpMuxer, nalus, buf)
    else
      let (v, buf) := buf.read2bytes
      let size := toInt16 v
      if !buf.require size then (errorRtcRtpMuxer, nalus, buf)
      else
        let sample : YangSample := ⟨size, buf.data.slice buf.head size.toNat⟩
        decodeStapNalus fuel (nalus ++ [sample]) (buf.skip size)

def decodeH264Stap (buf : YangBuffer) (data : RtpSTAPData) : Err × RtpSTAPData × YangBuffer :=
  if !buf.require 1 then (errorRtcRtpMuxer, data, buf)
  else
    let v := buf.data buf.head
    let buf := buf.take 1
    if v &&& 0x80 = 0x80 then (errorRtcRtpMuxer, data, buf)
    else
      let (err, nalus, buf) := decodeStapNalus (buf.size - buf.head + 1) data.nalus buf
      (err, { nri := v &&& ~~~kNalTypeMask, nalus }, buf)

def decodeH265Stap (buf : YangBuffer) (data : RtpSTAPData) : Err × RtpSTAPData × YangBuffer :=
  if !buf.require 1 then (errorRtcRtpMuxer, data, buf)
  else
    let v := buf.data buf.head
    let buf := buf.take 2
    let (err, nalus, buf) := decodeStapNalus (buf.size - buf.head + 1) data.nalus buf
    (err, { nri := hevcNaluType v, nalus }, buf)

end MetaRtc
