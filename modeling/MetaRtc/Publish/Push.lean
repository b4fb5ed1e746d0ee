import MetaRtc.Lib.Exec
import MetaRtc.Rtp.Payload

/-! # The publisher: packets, their ring buffers and the retransmission queues -/
namespace MetaRtc

open Bytes Exec

def errorRtcSrtpProtect : Err := 5014
def errorRtcPublish : Err := 5034

inductive Media where
  | audio | video
  deriving DecidableEq

/-- A ring of packet slots, `buffer` being its memory. -/
structure RtpBuffer where
  bufLen : Nat
  index : Nat
  buffer : Mem

/-- Step to the next slot. The result is the slot's offset in the ring. -/
def getRtpBuffer (rtpbuf : RtpBuffer) : Nat × RtpBuffer :=
  let index := rtpbuf.index + 1
  let index := if index ≥ rtpbuf.bufLen then 0 else index
  (kRtpPacketSize * index, { rtpbuf with index })

/-- An entry of the queue of sent packets. `payload` points into the ring of its media;
an entry never set has a null one. -/
structure SendNackBuffer where
  payload : Option Nat := none
  nb : Nat := 0
  seq : Nat := 0
  deriving DecidableEq

structure PublishNackBuffer where
  capacity : Nat
  queue : Nat → SendNackBuffer

def PublishNackBuffer.slot (nackbuf : PublishNackBuffer) (seq : Nat) : Nat :=
  seq &&& (nackbuf.capacity - 1)

def pubnackbufferAt (nackbuf : PublishNackBuffer) (seq : Nat) : SendNackBuffer :=
  nackbuf.queue (nackbuf.slot seq)

def pubnackbufferSet (nackbuf : PublishNackBuffer) (seq data plen : Nat) : PublishNackBuffer :=
  { nackbuf with
    queue := fun i => if i = nackbuf.slot seq then ⟨some data, plen, seq⟩ else nackbuf.queue i }

/-- What the publisher keeps for one media. -/
structure PushMedia where
  ssrc : Nat
  seq : Nat
  rtpBuffer : RtpBuffer
  queue : PublishNackBuffer

structure SendStats where
  audioRtpPacketCount : Nat := 0
  audioRtpBytes : Nat := 0
  audioStartTime : Nat := 0
  videoRtpPacketCount : Nat := 0
  videoRtpBytes : Nat := 0
  videoStartTime : Nat := 0
  frameCount : Nat := 0
  nackCount : Nat := 0

/-- The two SRTP contexts are there once the keys are. -/
structure SRtp where
  sendCtx : Bool := false
  recvCtx : Bool := false
  rtpLock : Bool := false

/-- Why a datagram was sent: as a new packet, or in answer to a request for a number. -/
inductive Cause where
  | push (m : Media) (seq : Nat)
  | nack (m : Media) (seq : Nat)
  deriving DecidableEq

structure Datagram where
  cause : Cause
  bytes : List UInt8
  deriving DecidableEq

/-- `wire` is all that was handed to the socket, in order, and `sent` the plaintext of
each new packet among it, the newest first. Neither is looked at by the code. -/
structure Publisher where
  media : Media → PushMedia
  stats : SendStats := {}
  srtp : SRtp := {}
  wire : List Datagram := []
  sent : List (Media × Nat × List UInt8) := []

/-- The publisher as the session creates it. -/
def createPublisher (audioSsrc videoSsrc audioSeq videoSeq : Nat) : Publisher where
  media
    | .audio => ⟨audioSsrc, audioSeq, ⟨100, 0, fun _ => 0⟩, ⟨128, fun _ => {}⟩⟩
    | .video => ⟨videoSsrc, videoSeq, ⟨1400, 0, fun _ => 0⟩, ⟨1024, fun _ => {}⟩⟩

/-- The code around the publisher: `srtp_protect` as a function of the packet, giving a
status and the bytes it leaves in the packet's place; the result of the socket's n-th
send; and the clock. -/
structure Env where
  protect : List UInt8 → Int × List UInt8
  sendData : Nat → Err
  now : Nat

namespace Publisher

def setMedia (pub : Publisher) (m : Media) (t : PushMedia) : Publisher :=
  { pub with media := fun k => if k = m then t else pub.media k }

def setBuffer (pub : Publisher) (m : Media) (buffer : Mem) : Publisher :=
  pub.setMedia m
    { pub.media m with rtpBuffer := { (pub.media m).rtpBuffer with buffer } }

/-- The `nb` bytes at a pointer into the ring of `m`. There are none at a null one. -/
def packetAt (pub : Publisher) (m : Media) (data : Option Nat) (nb : Nat) : List UInt8 :=
  match data with
  | some p => (pub.media m).rtpBuffer.buffer.slice p nb
  | none => []

def writeAt (pub : Publisher) (m : Media) (data : Option Nat) (bs : List UInt8) : Publisher :=
  match data with
  | some p => pub.setBuffer m ((pub.media m).rtpBuffer.buffer.write p bs)
  | none => pub

end Publisher

/-- Encrypt the `nb` bytes at `data` in place. The lock is not released when that fails.
The last result is what stands in the packet's place then. -/
def encRtp (env : Env) (pub : Publisher) (m : Media) (data : Option Nat) (nb : Nat) :
    Call (Err × List UInt8 × Publisher) :=
  if pub.srtp.sendCtx = false then .ret (errorRtcSrtpProtect, [], pub)
  else if pub.srtp.rtpLock = true then .blocked
  else
    let (r0, packet) := env.protect (pub.packetAt m data nb)
    let pub := pub.writeAt m data packet
    if r0 ≠ 0 then
      .ret (errorRtcSrtpProtect, packet, { pub with srtp := { pub.srtp with rtpLock := true } })
    else .ret (yangOk, packet, pub)

def sendData (env : Env) (pub : Publisher) (cause : Cause) (packet : List UInt8) :
    Err × Publisher :=
  (env.sendData pub.wire.length, { pub with wire := pub.wire ++ [⟨cause, packet⟩] })

def rtcpushCacheNack (pub : Publisher) (m : Media) (seq p plen : Nat) : Publisher :=
  pub.setMedia m { pub.media m with queue := pubnackbufferSet (pub.media m).queue seq p plen }

/-- The packet is noted for retransmission, then encrypted where it stands. -/
def sendAvpacket (env : Env) (pub : Publisher) (m : Media) (seq p pos : Nat) :
    Call (Err × Publisher) := do
  let pub := rtcpushCacheNack pub m seq p pos
  let plain := pub.packetAt m (some p) pos
  let (err, packet, pub) ← encRtp env pub m (some p) pos
  if err ≠ yangOk then return (err, pub)
  else return sendData env { pub with sent := (m, seq, plain) :: pub.sent } (.push m seq) packet

def sendNackpacket (env : Env) (pub : Publisher) (m : Media) (seq : Nat) (data : Option Nat)
    (nb : Nat) : Call (Err × Publisher) := do
  let (err, packet, pub) ← encRtp env pub m data nb
  if err ≠ yangOk then return (err, pub)
  else return sendData env pub (.nack m seq) packet

inductive RtpPayload where
  | raw (payload : List UInt8)
  | fua2 (pkt : Fua2Data)
  | stap (data : RtpSTAPData)

/-- What differs between the H264 and the H265 publisher: the payload type, how
fragments and aggregates are encoded, how many header bytes a fragmented unit loses, and
where its type is in the first one. -/
structure PushCodec where
  payloadType : Nat
  encodeFua2 : OutBuffer → Fua2Data → Err × OutBuffer
  encodeStap : OutBuffer → RtpSTAPData → Err × OutBuffer
  headerSize : Nat
  naluType : UInt8 → UInt8

def pushH264 : PushCodec where
  payloadType := 125
  encodeFua2 := encodeH264Fua2
  encodeStap := encodeH264Stap
  headerSize := 1
  naluType header := header &&& kNalTypeMask

def pushH265 : PushCodec where
  payloadType := 126
  encodeFua2 := encodeH265Fua2
  encodeStap := encodeH265Stap
  headerSize := 2
  naluType := hevcNaluType

def yangAudioPayloadType : Nat := 111

def encodeRtpPayload (codec : PushCodec) (buf : OutBuffer) (payload : RtpPayload) :
    Err × OutBuffer :=
  match payload with
  | .raw payload => encodeH264Raw buf payload
  | .fua2 pkt => codec.encodeFua2 buf pkt
  | .stap data => codec.encodeStap buf data

/-- Header, payload and padding of a packet. On an error the buffer keeps what was
written before it. -/
def encodePacket (codec : PushCodec) (header : RtpHeader) (payload : RtpPayload) :
    Err × OutBuffer :=
  let (err, buf) := encodeRtpHeader { size := kRtpPacketSize } header
  if err ≠ yangOk then (err, buf)
  else
    let (err, buf) := encodeRtpPayload codec buf payload
    if err ≠ yangOk then (err, buf)
    else if header.paddingLength > 0 then
      if !buf.require header.paddingLength then (errorRtcRtpMuxer, buf)
      else
        let padding := List.replicate header.paddingLength (UInt8.ofNat header.paddingLength)
        (yangOk, buf.writeBytes padding)
    else (yangOk, buf)

def statsOnPubRtp (stats : SendStats) (m : Media) (nb now : Nat) : SendStats :=
  match m with
  | .audio =>
    { stats with
      audioRtpPacketCount := stats.audioRtpPacketCount + 1
      audioRtpBytes := stats.audioRtpBytes + nb
      audioStartTime := if stats.audioStartTime = 0 then now else stats.audioStartTime }
  | .video =>
    { stats with
      videoRtpPacketCount := stats.videoRtpPacketCount + 1
      videoRtpBytes := stats.videoRtpBytes + nb
      videoStartTime := if stats.videoStartTime = 0 then now else stats.videoStartTime }

/-- `encodeVideo` and `encodeAudio` of both publishers: the packet is encoded into the
next slot of the ring of its media and sent. -/
def encodeMedia (env : Env) (codec : PushCodec) (pub : Publisher) (m : Media) (header : RtpHeader)
    (payload : RtpPayload) : Call (Err × Publisher) :=
  let t := pub.media m
  let (p, rtpBuffer) := getRtpBuffer t.rtpBuffer
  let (err, buf) := encodePacket codec header payload
  let rtpBuffer := { rtpBuffer with buffer := rtpBuffer.buffer.write p buf.bytes }
  let pub := pub.setMedia m { t with rtpBuffer }
  if err ≠ yangOk then .ret (err, pub)
  else
    let pub := { pub with stats := statsOnPubRtp pub.stats m buf.pos env.now }
    sendAvpacket env pub m header.sequence p buf.pos

end MetaRtc
