import MetaRtc.Lib.Bytes
import Mathlib.Logic.Function.Basic

/-! # Reading chunks

Each call reads one chunk. What the next chunk of a channel may leave out is kept with the
channel. -/
namespace MetaRtc

open Bytes Function

def rtmpLargeHeaderSize : Nat := 12
def rtmpDefaultChunkSize : Nat := 128

/-- `body` is an address. -/
structure RtmpPacket where
  headerType : Nat := 0
  packetType : Nat := 0
  hasAbsTimestamp : Bool := false
  nChannel : Nat := 0
  nTimeStamp : Nat := 0
  nInfoField2 : Nat := 0
  nBodySize : Nat := 0
  nBytesRead : Nat := 0
  body : Option Nat := none
  deriving DecidableEq

def RtmpPacket.isReady (packet : RtmpPacket) : Bool := packet.nBytesRead == packet.nBodySize

/-- `input` is what the socket has still to give, and `mem` the memory that bodies are read to. -/
structure Rtmp where
  input : List UInt8 := []
  mem : Mem
  inChunkSize : Nat := rtmpDefaultChunkSize
  vecChannelsIn : Nat → Option RtmpPacket := fun _ => none
  channelTimestamp : Nat → Nat := fun _ => 0

/-- Nothing is returned where the connection ends before `n` bytes. -/
def readN (r : Rtmp) (n : Nat) : Option (List UInt8 × Rtmp) :=
  if n ≤ r.input.length then some (r.input.take n, { r with input := r.input.drop n }) else none

def packetSize : Nat → Nat
  | 0 => 12
  | 1 => 8
  | 2 => 4
  | _ => 1

/-- A little-endian number of four bytes. -/
def decodeInt32LE (bytes : List UInt8) : Nat := beNat (bytes.take 4).reverse

/-- The type of the header and the channel, which take one byte, two or three. -/
def readChannel (r : Rtmp) : Option ((Nat × Nat) × Rtmp) := do
  let (hbuf, r) ← readN r 1
  let byte := beNat hbuf
  if byte % 64 = 0 then
    let (more, r) ← readN r 1
    return ((byte / 64, beNat more + 64), r)
  else if byte % 64 = 1 then
    let (more, r) ← readN r 2
    return ((byte / 64, beNat more.reverse + 64), r)
  else return ((byte / 64, byte % 64), r)

/-- The fields that a header has. -/
def RtmpPacket.decodeHeader (packet : RtmpPacket) (header : List UInt8) : RtmpPacket :=
  if header.length ≥ 3 then
    let packet := { packet with nTimeStamp := beNat (header.take 3) }
    if header.length ≥ 6 then
      let packet := { packet with nBodySize := beNat ((header.drop 3).take 3), nBytesRead := 0 }
      if header.length > 6 then
        let packet := { packet with packetType := beNat ((header.drop 6).take 1) }
        if header.length = 11 then { packet with nInfoField2 := decodeInt32LE (header.drop 7) }
        else packet
      else packet
    else packet
  else packet

/-- The rest of the chunk goes behind what its packet already has. A chunk size from `2 ^ 31` on
is a negative number, which is never what has been read. -/
def readBody (r : Rtmp) (packet : RtmpPacket) : Option (RtmpPacket × Rtmp) :=
  if 2 ^ 31 ≤ r.inChunkSize then none
  else do
    let nToRead := packet.nBodySize - packet.nBytesRead
    let nChunk := if nToRead < r.inChunkSize then nToRead else r.inChunkSize
    let (bytes, r) ← readN r nChunk
    let mem := match packet.body with
      | some body => r.mem.write (body + packet.nBytesRead) bytes
      | none => r.mem
    return ({ packet with nBytesRead := packet.nBytesRead + nChunk }, { r with mem })

/-- The packet is kept for the channel, and made absolute when it is complete. -/
def keepPacket (r : Rtmp) (packet : RtmpPacket) (extendedTimestamp : Bool) : RtmpPacket × Rtmp :=
  let kept := if extendedTimestamp then { packet with nTimeStamp := 0xffffff } else packet
  if packet.isReady then
    let packet :=
      if packet.hasAbsTimestamp then packet
      else { packet with
        nTimeStamp := (packet.nTimeStamp + r.channelTimestamp packet.nChannel) % 2 ^ 32 }
    (packet, { r with
      channelTimestamp := update r.channelTimestamp packet.nChannel packet.nTimeStamp
      vecChannelsIn := update r.vecChannelsIn packet.nChannel
        (some { kept with body := none, nBytesRead := 0, hasAbsTimestamp := false }) })
  else
    ({ packet with body := none },
      { r with vecChannelsIn := update r.vecChannelsIn packet.nChannel (some kept) })

/-- The packet with the fields of the chunk's header, the header's type and whether the time took
four bytes more. -/
def readHeader (r : Rtmp) (packet : RtmpPacket) : Option ((RtmpPacket × Nat × Bool) × Rtmp) := do
  let ((headerType, nChannel), r) ← readChannel r
  let packet := { packet with headerType, nChannel }
  let nSize := packetSize headerType
  let packet :=
    if nSize = rtmpLargeHeaderSize then { packet with hasAbsTimestamp := true }
    else (r.vecChannelsIn nChannel).getD packet
  let (header, r) ← readN r (nSize - 1)
  let packet := packet.decodeHeader header
  let extendedTimestamp := packet.nTimeStamp == 0xffffff
  let (extension, r) ← readN r (if extendedTimestamp then 4 else 0)
  let packet := if extendedTimestamp then { packet with nTimeStamp := beNat extension } else packet
  return ((packet, headerType, extendedTimestamp), r)

/-- Nothing is returned where the connection ends. A packet that is too large is returned as it
is, without its body. -/
def yangReadPacket (r : Rtmp) (packet : RtmpPacket) (pszbody : Nat) :
    Option (RtmpPacket × Rtmp) := do
  let ((packet, headerType, extendedTimestamp), r) ← readHeader r packet
  if packet.nBodySize > 0 ∧ packet.body = none then
    if packet.nBodySize > 256000 then return (packet, r)
    else
      let (packet, r) ← readBody r { packet with body := some pszbody, headerType }
      return keepPacket r packet extendedTimestamp
  else
    let (packet, r) ← readBody r packet
    return keepPacket r packet extendedTimestamp

/-- What a complete packet is. -/
structure RtmpMessage where
  nChannel : Nat
  nTimeStamp : Nat
  packetType : Nat
  nInfoField2 : Nat
  body : List UInt8
  deriving DecidableEq

def RtmpPacket.message (packet : RtmpPacket) (mem : Mem) : RtmpMessage where
  nChannel := packet.nChannel
  nTimeStamp := packet.nTimeStamp
  packetType := packet.packetType
  nInfoField2 := packet.nInfoField2
  body := mem.slice (packet.body.getD 0) packet.nBodySize

def rtmpPacketTypeChunkSize : Nat := 1
def rtmpPacketTypeAudio : Nat := 8
def rtmpPacketTypeVideo : Nat := 9
def rtmpMaxBodySize : Nat := 512000

/-- `buf` is the address of the caller's memory, and `delivered` all that has come complete. -/
structure YangStreamRtmp where
  r : Rtmp
  pac : RtmpPacket := {}
  buf : Nat := 0
  delivered : List RtmpMessage := []

/-- Of the packets that are neither sound nor pictures, those that change the chunk size. -/
def clientPacket (r : Rtmp) (packet : RtmpPacket) : Rtmp :=
  if packet.packetType = rtmpPacketTypeChunkSize ∧ packet.nBodySize ≥ 4 then
    { r with inChunkSize := r.mem.be (packet.body.getD 0) 4 }
  else r

/-- Bodies are read to the caller's buffer, which is cleared after each complete packet. -/
def receiveData (s : YangStreamRtmp) : Option YangStreamRtmp := do
  let (pac, r) ← yangReadPacket s.r s.pac (s.buf + 30)
  if pac.isReady then
    let delivered := s.delivered ++ [pac.message r.mem]
    let r :=
      if pac.packetType = rtmpPacketTypeAudio ∨ pac.packetType = rtmpPacketTypeVideo then r
      else clientPacket r pac
    let size := if pac.nBodySize < rtmpMaxBodySize then pac.nBodySize + 36 else rtmpMaxBodySize
    return { s with
      r := { r with mem := r.mem.write s.buf (List.replicate size 0) }
      pac := {}
      delivered }
  else return { s with r, pac }

end MetaRtc
