import MetaRtc.Rtmp.ReadPacket
import MetaRtc.Rtmp.Amf

/-! # Sending packets

The header of a packet is put in front of its body, and that of each further chunk over the end of
the chunk before it. -/
namespace MetaRtc

open Bytes Exec Function

def rtmpPacketTypeInvoke : Nat := 20

/-- What the packets meet: whether the next write to the socket gets through, and which whole
number a double is taken for. -/
structure RtmpEnv where
  up : Nat → Bool
  toInt : UInt64 → Int

/-- A call that waits for its result. -/
structure RtmpMethod where
  name : List UInt8
  num : Int
  deriving DecidableEq

/-- `written` has what each write put on the socket. -/
structure RtmpOut where
  mem : Mem
  outChunkSize : Nat := rtmpDefaultChunkSize
  vecChannelsOut : Nat → Option RtmpPacket := fun _ => none
  methodCalls : List RtmpMethod := []
  written : List (List UInt8) := []

def avQueue (r : RtmpOut) (method : List UInt8) (txn : Int) : RtmpOut :=
  { r with methodCalls := r.methodCalls ++ [⟨method, txn⟩] }

def writeN (env : RtmpEnv) (r : RtmpOut) (bytes : List UInt8) : Bool × RtmpOut :=
  if env.up r.written.length then (true, { r with written := r.written ++ [bytes] })
  else (false, r)

/-- A packet that differs from the one before on its channel in nothing that a shorter header
leaves out gets the shorter one. -/
def lowerHeader (prev packet : RtmpPacket) : RtmpPacket :=
  let packet :=
    if prev.nBodySize = packet.nBodySize ∧ prev.packetType = packet.packetType ∧
        packet.headerType = 1 then { packet with headerType := 2 }
    else packet
  if prev.nTimeStamp = packet.nTimeStamp ∧ packet.headerType = 2 then
    { packet with headerType := 3 }
  else packet

/-- How many bytes of its own the channel takes. -/
def channelSize (nChannel : Nat) : Nat :=
  if 319 < nChannel then 2 else if 63 < nChannel then 1 else 0

/-- The first byte of a chunk and the channel, with the type of the header in two bits. -/
def basicHeader (headerType nChannel : Nat) : List UInt8 :=
  match channelSize nChannel with
  | 0 => beBytes 1 (headerType * 64 + nChannel)
  | 1 => beBytes 1 (headerType * 64) ++ beBytes 1 (nChannel - 64)
  | _ => beBytes 1 (headerType * 64 + 1) ++ (beBytes 2 (nChannel - 64)).reverse

/-- The four bytes of a time that does not fit three. -/
def extendedTime (t : Nat) : List UInt8 := if 0xffffff ≤ t then beBytes 4 t else []

/-- The header of a packet whose time is `t` more than the last one. -/
def packetHeader (packet : RtmpPacket) (t : Nat) : List UInt8 :=
  let nSize := packetSize packet.headerType
  basicHeader packet.headerType packet.nChannel ++
    (if 1 < nSize then beBytes 3 (if 0xffffff < t then 0xffffff else t) else []) ++
    (if 4 < nSize then beBytes 3 packet.nBodySize ++ beBytes 1 packet.packetType else []) ++
    (if 8 < nSize then (beBytes 4 packet.nInfoField2).reverse else []) ++ extendedTime t

/-- The header of a further chunk. -/
def nextChunkHeader (packet : RtmpPacket) (t : Nat) : List UInt8 :=
  basicHeader 3 packet.nChannel ++ extendedTime t

/-- One chunk after another, the next of which has `nSize` bytes left to send at `buffer` and a
header of `hSize` in front. A chunk size of nothing does not end, nor does the model without
fuel. -/
def sendChunks (env : RtmpEnv) (next : List UInt8) (fuel : Nat) (r : RtmpOut)
    (buffer nSize nChunkSize hSize : Nat) : Call (Bool × RtmpOut) :=
  match fuel with
  | 0 => .blocked
  | fuel + 1 =>
    if nSize + hSize = 0 then .ret (true, r)
    else
      let nChunkSize := if nSize < nChunkSize then nSize else nChunkSize
      match writeN env r (r.mem.slice (buffer - hSize) (nChunkSize + hSize)) with
      | (false, r) => .ret (false, r)
      | (true, r) =>
        let nSize := nSize - nChunkSize
        let buffer := buffer + nChunkSize
        if 0 < nSize then
          sendChunks env next fuel { r with mem := r.mem.write (buffer - next.length) next } buffer
            nSize nChunkSize next.length
        else sendChunks env next fuel r buffer nSize nChunkSize 0

/-- The packet is kept with its channel. A command is noted with its number if its result is waited
for. -/
def sentPacket (env : RtmpEnv) (r : RtmpOut) (packet : RtmpPacket) (queue : Bool) :
    Call (Bool × RtmpOut) := do
  let r ←
    if packet.packetType = rtmpPacketTypeInvoke then do
      let body ← Call.deref packet.body
      let method ← amfDecodeString (r.mem.slice (body + 1) (2 + r.mem.be (body + 1) 2))
      if queue then
        let txn ← amfDecodeNumber (r.mem.slice (body + 4 + method.length) 8)
        pure (avQueue r method (env.toInt txn))
      else pure r
    else pure r
  return (true, { r with
    vecChannelsOut := update r.vecChannelsOut packet.nChannel (some packet) })

/-- The header goes in front of the body, and the chunks out. -/
def sendBody (env : RtmpEnv) (r : RtmpOut) (packet : RtmpPacket) (t body : Nat) (queue : Bool) :
    Call (Bool × RtmpOut) := do
  let header := packetHeader packet t
  let r := { r with mem := r.mem.write (body - header.length) header }
  let (sent, r) ← sendChunks env (nextChunkHeader packet t) (packet.nBodySize + 2) r body
    packet.nBodySize r.outChunkSize header.length
  if sent then sentPacket env r packet queue else return (false, r)

/-- What both ways of sending a packet do. -/
def sendPacketBy (lower : RtmpPacket → RtmpPacket → RtmpPacket) (env : RtmpEnv) (r : RtmpOut)
    (packet : RtmpPacket) (queue : Bool) : Call (Bool × RtmpOut) :=
  let prev := if packet.headerType = 0 then none else r.vecChannelsOut packet.nChannel
  let packet := match prev with
    | none => packet
    | some prev => lower prev packet
  let last := match prev with
    | none => 0
    | some prev => prev.nTimeStamp
  if 3 < packet.headerType then .ret (false, r)
  else
    let t := (packet.nTimeStamp + 2 ^ 32 - last) % 2 ^ 32
    match packet.body with
    | some body => sendBody env r packet t body queue
    | none =>
      -- the header is in a buffer of its own, and there is no body behind it
      if 0 < packet.nBodySize then .crash
      else match writeN env r (packetHeader packet t) with
        | (false, r) => .ret (false, r)
        | (true, r) => sentPacket env r packet queue

def sendPacket : RtmpEnv → RtmpOut → RtmpPacket → Bool → Call (Bool × RtmpOut) :=
  sendPacketBy lowerHeader

/-- The header is as long as the packet says. -/
def yangSendPacket : RtmpEnv → RtmpOut → RtmpPacket → Bool → Call (Bool × RtmpOut) :=
  sendPacketBy fun _ packet => packet

end MetaRtc
