import MetaRtc.Buffer
import MetaRtc.Rtcp.Packet

/-! # The RTP header and its extensions -/
namespace MetaRtc

open Bytes

def errorRtcRtp : Err := 5006
def errorRtcRtpMuxer : Err := 5011

/-- A buffer of `size` bytes that packets are encoded to, with the bytes written. `fault`
records a write past its end or a copy of a negative length. -/
structure OutBuffer where
  size : Nat
  bytes : List UInt8 := []
  fault : Bool := false
  deriving DecidableEq

namespace OutBuffer

def pos (buf : OutBuffer) : Nat := buf.bytes.length

def require (buf : OutBuffer) (requiredSize : Int) : Bool :=
  decide (0 ≤ requiredSize) && decide (requiredSize ≤ (buf.size : Int) - buf.pos)

def writeBytes (buf : OutBuffer) (bs : List UInt8) : OutBuffer :=
  { buf with
    bytes := buf.bytes ++ bs
    fault := buf.fault || decide (buf.size < buf.pos + bs.length) }

def write1bytes (buf : OutBuffer) (v : UInt8) : OutBuffer := buf.writeBytes [v]
def write2bytes (buf : OutBuffer) (v : Nat) : OutBuffer := buf.writeBytes (beBytes 2 v)
def write4bytes (buf : OutBuffer) (v : Nat) : OutBuffer := buf.writeBytes (beBytes 4 v)

@[simp] theorem writeBytes_bytes (buf : OutBuffer) (bs : List UInt8) :
    (buf.writeBytes bs).bytes = buf.bytes ++ bs := rfl
@[simp] theorem writeBytes_size (buf : OutBuffer) (bs : List UInt8) :
    (buf.writeBytes bs).size = buf.size := rfl

/-- A write for which there is room. -/
theorem writeBytes_room {size : Nat} {written bs : List UInt8}
    (h : written.length + bs.length ≤ size) :
    (⟨size, written, false⟩ : OutBuffer).writeBytes bs = ⟨size, written ++ bs, false⟩ := by
  have hfits : ¬ size < written.length + bs.length := by omega
  simp only [writeBytes, pos, Bool.false_or, hfits, decide_false]

theorem write4bytes_room {size v : Nat} {written : List UInt8} (h : written.length + 4 ≤ size) :
    (⟨size, written, false⟩ : OutBuffer).write4bytes v = ⟨size, written ++ beBytes 4 v, false⟩ :=
  writeBytes_room (by simpa using h)

theorem require_room {size : Nat} {written : List UInt8} {n : Int} (hn : 0 ≤ n)
    (h : written.length + n ≤ size) : (⟨size, written, false⟩ : OutBuffer).require n = true := by
  have hfits : n ≤ (size : Int) - written.length := by omega
  simp only [require, pos, hn, hfits, decide_true, Bool.and_self]

/-- Two writes are one of all their bytes. -/
theorem writeBytes_writeBytes (buf : OutBuffer) (bs cs : List UInt8) :
    (buf.writeBytes bs).writeBytes cs = buf.writeBytes (bs ++ cs) := by
  have hfault : (buf.fault || decide (buf.size < buf.pos + bs.length) ||
      decide (buf.size < (buf.writeBytes bs).pos + cs.length)) =
        (buf.fault || decide (buf.size < buf.pos + (bs ++ cs).length)) := by
    rw [Bool.or_assoc, ← Bool.decide_or]
    congr 2
    simp only [pos, writeBytes_bytes, List.length_append, eq_iff_iff]
    omega
  exact OutBuffer.mk.injEq .. ▸ ⟨rfl, List.append_assoc _ _ _, hfault⟩

theorem write1bytes_ofNat (buf : OutBuffer) (v : Nat) :
    buf.write1bytes (UInt8.ofNat v) = buf.writeBytes (beBytes 1 v) := by
  rw [beBytes, Nat.pow_zero, Nat.div_one]
  rfl

end OutBuffer

structure RtpExtensionTwcc where
  hasTwcc : Bool := false
  id : Nat := 0
  sn : Nat := 0
  deriving DecidableEq

structure RtpExtensionOneByte where
  hasExt : Bool := false
  id : Nat := 0
  value : Nat := 0
  deriving DecidableEq

inductive RtpExtensionType where
  | none | transportSequenceNumber | audioLevel
  deriving DecidableEq

/-- The ids negotiated for the two supported extensions. -/
structure RtpExtensionTypes where
  transportSequenceNumber : Nat := 0
  audioLevel : Nat := 0
  deriving DecidableEq

structure RtpExtensions where
  hasExt : Bool := false
  decodeTwccExtension : Bool := false
  twcc : RtpExtensionTwcc := {}
  audioLevel : RtpExtensionOneByte := {}
  types : Option RtpExtensionTypes := none
  deriving DecidableEq

structure RtpHeader where
  paddingLength : Nat := 0
  cc : Nat := 0
  payloadType : Nat := 0
  sequence : Nat := 0
  timestamp : Nat := 0
  ssrc : Nat := 0
  marker : Bool := false
  ignorePadding : Bool := false
  extensions : Option RtpExtensions := none
  csrc : List Nat := []
  deriving DecidableEq

def rtpExtensionTwccNb : Nat := 3
def rtpExtensionOneByteNb : Nat := 2

def encodeRtpExtensionsOneByte (one : RtpExtensionOneByte) (buf : OutBuffer) : Err × OutBuffer :=
  if !buf.require 2 then (errorRtcRtpMuxer, buf)
  else
    let idLen := UInt8.ofNat (one.id % 16 * 16)
    (yangOk, (buf.write1bytes idLen).write1bytes (UInt8.ofNat one.value))

def encodeRtpExtensionsTwcc (twcc : RtpExtensionTwcc) (buf : OutBuffer) : Err × OutBuffer :=
  if !buf.require 3 then (errorRtcRtpMuxer, buf)
  else
    let idLen := UInt8.ofNat (twcc.id % 16 * 16) ||| 1
    (yangOk, (buf.write1bytes idLen).write2bytes twcc.sn)

def encodeRtpExtensions (ext : RtpExtensions) (buf : OutBuffer) : Err × OutBuffer :=
  let buf := buf.write2bytes 0xBEDE
  let used := (if ext.twcc.hasTwcc then rtpExtensionTwccNb else 0) +
    (if ext.audioLevel.hasExt then rtpExtensionOneByteNb else 0)
  let paddingCount := if used % 4 = 0 then 0 else 4 - used % 4
  let len := used + paddingCount
  if !buf.require len then (errorRtcRtpMuxer, buf)
  else
    let buf := buf.write2bytes (len / 4)
    let (err, buf) :=
      if ext.twcc.hasTwcc then encodeRtpExtensionsTwcc ext.twcc buf else (yangOk, buf)
    if err ≠ yangOk then (err, buf)
    else
      let (err, buf) :=
        if ext.audioLevel.hasExt then encodeRtpExtensionsOneByte ext.audioLevel buf
        else (yangOk, buf)
      if err ≠ yangOk then (err, buf)
      else (yangOk, buf.writeBytes (List.replicate paddingCount 0))

def encodeRtpHeader (buf : OutBuffer) (header : RtpHeader) : Err × OutBuffer :=
  let extensions := header.extensions.filter (·.hasExt)
  let v : UInt8 := 0x80 ||| UInt8.ofNat header.cc
  let v := if header.paddingLength > 0 then v ||| 0x20 else v
  let v := if extensions.isSome then v ||| 0x10 else v
  let buf := buf.write1bytes v
  let v := UInt8.ofNat header.payloadType
  let v := if header.marker then v ||| 0x80 else v
  let buf := buf.write1bytes v
  let buf := buf.write2bytes header.sequence
  let buf := buf.write4bytes header.timestamp
  let buf := buf.write4bytes header.ssrc
  let buf := (List.range header.cc).foldl
    (fun (buf : OutBuffer) i => buf.write4bytes (header.csrc.getD i 0)) buf
  match extensions with
  | some ext => encodeRtpExtensions ext buf
  | none => (yangOk, buf)

def getRtpExtensionType (types : RtpExtensionTypes) (id : Nat) : RtpExtensionType :=
  if types.transportSequenceNumber = id then .transportSequenceNumber
  else if types.audioLevel = id then .audioLevel
  else .none

def decodeRtpExtensionsTwcc (twcc : RtpExtensionTwcc) (buf : YangBuffer) :
    Err × RtpExtensionTwcc × YangBuffer :=
  if !buf.require 1 then (errorRtcRtpMuxer, twcc, buf)
  else
    let (v, buf) := buf.read1bytes
    let twcc := { twcc with id := v / 16 }
    let len := v % 16
    if twcc.id = 0 ∨ len ≠ 1 then (errorRtcRtp, twcc, buf)
    else if !buf.require 2 then (errorRtcRtpMuxer, twcc, buf)
    else
      let (sn, buf) := buf.read2bytes
      (yangOk, { twcc with sn, hasTwcc := true }, buf)

def decodeRtpExtensionsOneByte (one : RtpExtensionOneByte) (buf : YangBuffer) :
    Err × RtpExtensionOneByte × YangBuffer :=
  if !buf.require 2 then (errorRtcRtpMuxer, one, buf)
  else
    let (v, buf) := buf.read1bytes
    let one := { one with id := v / 16 }
    let len := v % 16
    if one.id = 0 ∨ len ≠ 0 then (errorRtcRtp, one, buf)
    else
      let (value, buf) := buf.read1bytes
      (yangOk, { one with value, hasExt := true }, buf)

/-- The loop over the one-byte elements. Every pass moves the cursor, so the bytes of
the block bound the passes. -/
def decode0xbedeLoop : Nat → RtpExtensions → YangBuffer → Err × RtpExtensions × YangBuffer
  | 0, ext, buf => (yangOk, ext, buf)
  | fuel + 1, ext, buf =>
    if buf.empty then (yangOk, ext, buf)
    else if !buf.require 1 then (errorRtcRtpMuxer, ext, buf)
    else
      let v := (buf.data buf.head).toNat
      let buf := buf.touch 1
      if v = 0 then decode0xbedeLoop fuel ext (buf.skip 1)
      else
        let id := v / 16
        let len := v % 16 + 1
        match (ext.types.map (getRtpExtensionType · id)).getD .none with
        | .transportSequenceNumber =>
          if ext.decodeTwccExtension then
            let (err, twcc, buf) := decodeRtpExtensionsTwcc ext.twcc buf
            let ext := { ext with twcc }
            if err ≠ yangOk then (err, ext, buf)
            else decode0xbedeLoop fuel { ext with hasExt := true } buf
          else if !buf.require (len + 1) then (errorRtcRtpMuxer, ext, buf)
          else decode0xbedeLoop fuel ext (buf.skip (len + 1))
        | .audioLevel =>
          let (err, audioLevel, buf) := decodeRtpExtensionsOneByte ext.audioLevel buf
          let ext := { ext with audioLevel }
          if err ≠ yangOk then (err, ext, buf)
          else decode0xbedeLoop fuel { ext with hasExt := true } buf
        | .none => decode0xbedeLoop fuel ext (buf.skip (1 + len))

def decode0xbede (ext : RtpExtensions) (buf : YangBuffer) : Err × RtpExtensions × YangBuffer :=
  decode0xbedeLoop (buf.size - buf.head + 1) ext buf

/-- The block gets a cursor of its own, whose end is where the length field puts it. -/
def decodeRtpExtensions (ext : RtpExtensions) (buf : YangBuffer) :
    Err × RtpExtensions × YangBuffer :=
  if !buf.require 4 then (errorRtcRtpMuxer, ext, buf)
  else
    let (profileId, buf) := buf.read2bytes
    let (extensionLength, buf) := buf.read2bytes
    if profileId = 0xBEDE then
      let xbuf := { buf with size := buf.head + extensionLength * 4 }
      let (err, ext, xbuf) := decode0xbede ext xbuf
      (err, ext, { buf.skip (extensionLength * 4) with fault := xbuf.fault })
    else if profileId = 0x1000 then (yangOk, ext, buf.skip (extensionLength * 4))
    else (errorRtcRtpMuxer, ext, buf)

def decodeCsrc : Nat → YangBuffer → List Nat × YangBuffer
  | 0, buf => ([], buf)
  | n + 1, buf =>
    let (csrc, buf) := buf.read4bytes
    let (rest, buf) := decodeCsrc n buf
    (csrc :: rest, buf)

def decodeRtpHeader (buf : YangBuffer) (header : RtpHeader) : Err × RtpHeader × YangBuffer :=
  if !buf.require 12 then (errorRtcRtpMuxer, header, buf)
  else
    let (first, buf) := buf.read1bytes
    let padding := first / 32 % 2 = 1
    let extension := first / 16 % 2 = 1
    let cc := first % 16
    let (second, buf) := buf.read1bytes
    let (sequence, buf) := buf.read2bytes
    let (timestamp, buf) := buf.read4bytes
    let (ssrc, buf) := buf.read4bytes
    let (csrc, buf) := decodeCsrc cc buf
    let header := { header with
      cc, sequence, timestamp, ssrc
      marker := decide (128 ≤ second)
      payloadType := second % 128
      csrc := csrc ++ header.csrc.drop cc }
    let (err, header, buf) :=
      if extension then
        let (err, ext, buf) := decodeRtpExtensions (header.extensions.getD {}) buf
        (err, { header with extensions := some ext }, buf)
      else (yangOk, header, buf)
    if err ≠ yangOk then (err, header, buf)
    else if padding ∧ header.ignorePadding = false ∧ buf.empty = false then
      let paddingLength := (buf.data (buf.size - 1)).toNat
      let header := { header with paddingLength }
      if !buf.require paddingLength then (errorRtcRtpMuxer, header, buf)
      else (yangOk, header, buf)
    else (yangOk, header, buf)

end MetaRtc
