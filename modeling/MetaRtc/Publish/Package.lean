import MetaRtc.Publish.Push

/-! # From media frames to packets -/
namespace MetaRtc

open Bytes Exec

/-- `payload` is the memory from the frame's first byte on. -/
structure YangFrame where
  payload : Mem
  nb : Nat
  pts : Int

def YangFrame.bytes (frame : YangFrame) : List UInt8 := frame.payload.slice 0 frame.nb

/-- The units of an H264 configuration record. The lengths are one more than the
record's, and the second is read as a signed byte. -/
def decodeMetaH264 (buf : Mem) : YangSample × YangSample :=
  let spsNb := (buf 12).toNat + 1
  let ppsNb : Int := Int.bmod (buf (13 + spsNb + 1)).toNat 256 + 1
  (⟨spsNb, buf.slice 13 spsNb⟩, ⟨ppsNb, buf.slice (13 + spsNb + 2) ppsNb.toNat⟩)

def decodeMetaH265 (buf : Mem) : YangSample × YangSample × YangSample :=
  let vpsLen := (buf 32).toNat
  let spsLen := (buf (32 + vpsLen + 5)).toNat
  let ppsLen := (buf (32 + vpsLen + 5 + spsLen + 5)).toNat
  (⟨vpsLen, buf.slice 33 vpsLen⟩,
    ⟨spsLen, buf.slice (32 + vpsLen + 5 + 1) spsLen⟩,
    ⟨ppsLen, buf.slice (32 + vpsLen + 5 + spsLen + 5 + 1) ppsLen⟩)

/-- The RTP header of the next packet of a media. Taking it counts the sequence number
up, whatever becomes of the packet. -/
def nextHeader (pub : Publisher) (m : Media) (payloadType : Nat) (marker : Bool) (pts : Int) :
    RtpHeader × Publisher :=
  let t := pub.media m
  ({ payloadType
     ssrc := t.ssrc
     marker
     sequence := t.seq
     timestamp := (pts % 2 ^ 32).toNat },
    pub.setMedia m { t with seq := (t.seq + 1) % 65536 })

def packageStapA (env : Env) (codec : PushCodec) (nalus : List YangSample) (nri : UInt8)
    (pub : Publisher) (videoFrame : YangFrame) : Call (Err × Publisher) :=
  let (header, pub) := nextHeader pub .video codec.payloadType false videoFrame.pts
  encodeMedia env codec pub .video header (.stap { nri, nalus })

/-- The bytes pass through a buffer of one packet. -/
def packageSingleNalu2 (env : Env) (codec : PushCodec) (pub : Publisher)
    (videoFrame : YangFrame) : Call (Err × Publisher) :=
  let (header, pub) := nextHeader pub .video codec.payloadType true videoFrame.pts
  if videoFrame.nb > kRtpPacketSize then .crash
  else encodeMedia env codec pub .video header (.raw videoFrame.bytes)

/-- The loop over the fragments, from number `i` on, `left` being the bytes not yet
packed. -/
def packageFuALoop (env : Env) (codec : PushCodec) (pts : Int) (header : UInt8) (numOfPacket : Nat)
    (fuPayloadSize : Nat) : Nat → Nat → List UInt8 → Publisher → Call (Err × Publisher)
  | 0, _, _, pub => .ret (yangOk, pub)
  | n + 1, i, left, pub =>
    let last := decide (i = numOfPacket - 1)
    let (rtpHeader, pub) := nextHeader pub .video codec.payloadType last pts
    let payload := left.take fuPayloadSize
    let left := left.drop fuPayloadSize
    if payload.length > kRtpPacketSize then .crash
    else do
      let (err, pub) ← encodeMedia env codec pub .video rtpHeader
        (.fua2 { start := decide (i = 0), last, nri := header, naluType := codec.naluType header,
                 payload })
      if err ≠ yangOk then return (err, pub)
      else packageFuALoop env codec pts header numOfPacket fuPayloadSize n (i + 1) left pub

def numOfPacket (plen fuPayloadSize : Nat) : Nat :=
  if (plen - 1) % fuPayloadSize = 0 then 0 else 1 + (plen - 1) / fuPayloadSize

def packageFuA (env : Env) (codec : PushCodec) (pub : Publisher) (videoFrame : YangFrame)
    (fuPayloadSize : Nat) : Call (Err × Publisher) :=
  let n := numOfPacket videoFrame.nb fuPayloadSize
  packageFuALoop env codec videoFrame.pts (videoFrame.payload 0) n fuPayloadSize n 0
    (videoFrame.bytes.drop codec.headerSize) pub

def countFrame (stats : SendStats) : SendStats := { stats with frameCount := stats.frameCount + 1 }

def pushVideo (env : Env) (codec : PushCodec) (pub : Publisher) (videoFrame : YangFrame) :
    Call (Err × Publisher) := do
  if videoFrame.nb ≤ kRtpMaxPayloadSize then
    let (err, pub) ← packageSingleNalu2 env codec pub videoFrame
    if err ≠ yangOk then return (err, pub)
    else
      let stats := { pub.stats with videoRtpPacketCount := pub.stats.videoRtpPacketCount + 1 }
      return (yangOk, { pub with stats := countFrame stats })
  else
    let (err, pub) ← packageFuA env codec pub videoFrame kRtpMaxPayloadSize
    if err ≠ yangOk then return (err, pub)
    else return (yangOk, { pub with stats := countFrame pub.stats })

def pushAudio (env : Env) (codec : PushCodec) (pub : Publisher) (audioFrame : YangFrame) :
    Call (Err × Publisher) :=
  let (header, pub) := nextHeader pub .audio yangAudioPayloadType true audioFrame.pts
  if audioFrame.nb > kRtpPacketSize then .crash
  else do
    let (err, pub) ← encodeMedia env codec pub .audio header (.raw audioFrame.bytes)
    if err ≠ yangOk then return (err, pub)
    else
      let stats := { pub.stats with audioRtpPacketCount := pub.stats.audioRtpPacketCount + 1 }
      return (yangOk, { pub with stats })

def pushH264PackageStapA (env : Env) (pub : Publisher) (videoFrame : YangFrame) :
    Call (Err × Publisher) :=
  let (sps, pps) := decodeMetaH264 videoFrame.payload
  packageStapA env pushH264 [sps, pps] (videoFrame.payload 13) pub videoFrame

def pushH264Video (env : Env) := pushVideo env pushH264
def pushH264Audio (env : Env) := pushAudio env pushH264

def pushH265PackageStapA (env : Env) (pub : Publisher) (videoFrame : YangFrame) :
    Call (Err × Publisher) :=
  let (vps, sps, pps) := decodeMetaH265 videoFrame.payload
  packageStapA env pushH265 [vps, sps, pps]
    (videoFrame.payload (32 + vps.nb.toNat + 5 + 1)) pub videoFrame

def pushH265Video (env : Env) := pushVideo env pushH265
def pushH265Audio (env : Env) := pushAudio env pushH265

end MetaRtc
