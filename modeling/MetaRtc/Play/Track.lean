import Mathlib.Logic.Function.Basic
import MetaRtc.Math
import MetaRtc.Play.Nalu
import MetaRtc.Publish.Push
import MetaRtc.Rtp.RtpPacket

/-! # The receiving video track: the packet cache and the frames assembled from it -/
namespace MetaRtc

open Bytes Exec

def yangVideoEncodeBufferLen : Nat := 1024 * 512
def yangRtcRecvBufferCount : Nat := 512
def yangRtcRecvBufferCount2 : Nat := 511

def cacheIndex (x : Nat) : Nat := x &&& yangRtcRecvBufferCount2

inductive Frametype where
  | P | I | Spspps
  deriving DecidableEq

/-- A frame as the application gets it. -/
structure VideoFrame where
  frametype : Frametype
  payload : List UInt8
  pts : Int
  deriving DecidableEq

/-- `payload` points into the ring of received packets. -/
structure PacketCache where
  inUse : Bool := false
  last : Bool := false
  sn : Nat := 0
  ts : Nat := 0
  naluType : UInt8 := 0
  nb : Nat := 0
  fua2 : Fua2DataCache := {}
  payload : Option Nat := none
  deriving DecidableEq

/-- `plis` lists the sources a key frame was asked of and `frames` what the application was
given. Neither is looked at by the code. -/
structure PlayTrackH2645 where
  headerSn : Nat := 0
  lostSn : Nat := 0
  hasRequestKeyframe : Bool := false
  keyFrameTs : Int := -1
  videoBuffer : Area := ⟨fun _ => 0, yangVideoEncodeBufferLen⟩
  cacheVideoPkts : Nat → PacketCache := fun _ => {}
  plis : List Nat := []
  frames : List VideoFrame := []

/-- What differs between the H264 and the H265 track: the payload formats, where the unit's
type is in each and which of them begin a key frame, the tag of a frame, and the header
rebuilt in front of the fragments of a unit. -/
structure PlayCodec where
  stapA : UInt8
  fuA : UInt8
  naluType : UInt8 → UInt8
  stapNalu : Nat
  stapKey : UInt8 → Bool
  fuNalu : Nat
  fuKey : UInt8 → Bool
  rawKey : UInt8 → Bool
  keyTag : UInt8
  interTag : UInt8
  fuNaluHeader : Fua2DataCache → List UInt8
  decodeFua2 : YangBuffer → Fua2DataCache → Err × Fua2DataCache × YangBuffer
  decodeStap : YangBuffer → RtpSTAPData → Err × RtpSTAPData × YangBuffer

def playH264 : PlayCodec where
  stapA := kStapA
  fuA := kFuA
  naluType v := v &&& kNalTypeMask
  stapNalu := 3
  stapKey v := v &&& kNalTypeMask = yangAvcNaluTypeSPS || v &&& kNalTypeMask = yangAvcNaluTypePPS
  fuNalu := 1
  fuKey v := v &&& kNalTypeMask = yangAvcNaluTypeIDR
  rawKey v := v = yangAvcNaluTypeIDR || v = yangAvcNaluTypeSPS || v = yangAvcNaluTypePPS
  keyTag := 0x17
  interTag := 0x27
  fuNaluHeader fua2 := [fua2.nri ||| fua2.naluType]
  decodeFua2 := decodeH264Fua2
  decodeStap := decodeH264Stap

/-- The source asks twice for a VPS and never for a PPS in an aggregate, and reads the type
of a fragment's unit as if a unit's header stood there. -/
def playH265 : PlayCodec where
  stapA := h265KStapA
  fuA := h265KFuA
  naluType := hevcNaluType
  stapNalu := 4
  stapKey v := hevcNaluType v = yangNalUnitVps || hevcNaluType v = yangNalUnitSps
  fuNalu := 2
  fuKey v := decide (yangNalUnitCodedSliceBla ≤ hevcNaluType v) &&
    decide (hevcNaluType v ≤ yangNalUnitCodedSliceCra)
  rawKey v := v = yangNalUnitVps || v = yangNalUnitSps || v = yangNalUnitPps
  keyTag := 0x1c
  interTag := 0x2c
  fuNaluHeader fua2 := [fua2.naluType <<< 1, 0x01]
  decodeFua2 := decodeH265Fua2
  decodeStap := decodeH265Stap

def isKeyframe (codec : PlayCodec) (ring : Mem) (pkt : RtpPacket) : Call Bool :=
  if pkt.naluType = codec.stapA then do
    let payload ← Call.deref pkt.payload
    return codec.stapKey (ring (payload + codec.stapNalu))
  else if pkt.naluType = codec.fuA then do
    let payload ← Call.deref pkt.payload
    return codec.fuKey (ring (payload + codec.fuNalu))
  else .ret (codec.rawKey pkt.naluType)

/-- A cached fragment has its headers behind it, so what is read as its type, in both
codecs alike, is a byte of the unit. -/
def isKeyframe2 (codec : PlayCodec) (ring : Mem) (pkt : PacketCache) : Call Bool :=
  if pkt.naluType = codec.stapA then do
    let payload ← Call.deref pkt.payload
    return codec.stapKey (ring (payload + codec.stapNalu))
  else if pkt.naluType = codec.fuA then do
    let payload ← Call.deref pkt.payload
    return decide (ring payload &&& kNalTypeMask = yangAvcNaluTypeIDR)
  else .ret (codec.rawKey pkt.naluType)

def copyPacket (codec : PlayCodec) (ring : Mem) (src : RtpPacket) (pkt : PacketCache) :
    Call PacketCache :=
  let pkt := { pkt with
    sn := src.header.sequence
    last := src.header.marker
    ts := src.header.timestamp
    naluType := src.naluType
    payload := src.payload
    nb := src.nb }
  if pkt.naluType = codec.fuA then do
    let payload ← Call.deref src.payload
    let (_, fua2, buf) := codec.decodeFua2 (initBuffer (ring.drop payload) src.nb) pkt.fua2
    return { pkt with fua2, payload := some (payload + buf.head), nb := buf.left.toNat }
  else .ret pkt

/-- The end of the search for the first packet still missing: the number of that packet
(any result but -1 and -2), the last packet of a frame that is there (-1), or no end found in
the whole cache (-2). -/
inductive NextLost where
  | lost (sn : Nat)
  | frame (endSn : Nat)
  | overflow
  deriving DecidableEq

def findNextLostLoop (cache : Nat → PacketCache) (lastTs currentSn : Nat) :
    Nat → Nat → NextLost
  | 0, _ => .overflow
  | n + 1, i =>
    let lostSn := (currentSn + i) % 65536
    let pkt := cache (cacheIndex lostSn)
    if pkt.inUse = false then .lost lostSn
    else if lastTs ≠ pkt.ts then .frame ((lostSn + 65535) % 65536)
    else if pkt.last then .frame lostSn
    else findNextLostLoop cache lastTs currentSn n (i + 1)

def findNextLostSn (track : PlayTrackH2645) (currentSn : Nat) : NextLost :=
  let lastTs := (track.cacheVideoPkts (cacheIndex track.headerSn)).ts
  findNextLostLoop track.cacheVideoPkts lastTs currentSn yangRtcRecvBufferCount 0

/-- The number of packets from `start` to `last`, a `uint16_t`. -/
def frameCount (start last : Nat) : Nat := (last + 65536 - start + 1) % 65536

def checkFrameComplete (codec : PlayCodec) (track : PlayTrackH2645) (start last : Nat) : Bool :=
  let pkts := (List.range (frameCount start last)).map
    fun i => track.cacheVideoPkts (cacheIndex (start + i))
  let fuS := pkts.countP fun pkt => decide (pkt.naluType = codec.fuA) && pkt.fua2.start
  let fuE := pkts.countP fun pkt => decide (pkt.naluType = codec.fuA) && pkt.fua2.last
  fuS == fuE

/-- The frame being written: `p` is where the next byte goes and `naluLen` what there is of a
fragmented unit. -/
structure Output where
  buffer : Area
  p : Nat
  naluLen : Nat

namespace Output

def put (out : Output) (bs : List UInt8) : Call Output := do
  let buffer ← out.buffer.write out.p bs
  return { out with buffer, p := out.p + bs.length }

/-- A unit behind its length. -/
def putNalu (out : Output) (bytes : List UInt8) : Call Output :=
  out.put (beBytes 4 bytes.length ++ bytes)

/-- A fragment. The first leaves room for the unit's length, which the last, if it is
another one, writes. -/
def putFua2 (codec : PlayCodec) (out : Output) (fua2 : Fua2DataCache) (bytes : List UInt8) :
    Call Output :=
  if fua2.start then
    let nalu := codec.fuNaluHeader fua2 ++ bytes
    ({ out with naluLen := nalu.length, p := out.p + 4 } : Output).put nalu
  else do
    let out ← ({ out with naluLen := out.naluLen + bytes.length } : Output).put bytes
    if fua2.last then
      let buffer ← out.buffer.write (out.p - (4 + out.naluLen)) (beBytes 4 out.naluLen)
      return { out with buffer }
    else return out

def putStap (out : Output) : List YangSample → Call Output
  | [] => .ret out
  | sample :: rest => do
    let out ← if sample.nb > 0 then out.putNalu sample.bytes else .ret out
    out.putStap rest

end Output

/-- `memset` of the slot with a packet's place in the frame for its index. -/
def clearSlot (cache : Nat → PacketCache) (i : Nat) : Call (Nat → PacketCache) :=
  if i < yangRtcRecvBufferCount then .ret (Function.update cache i {}) else .crash

/-- One packet of a frame. For an empty one the slot is cleared whose index is the packet's
place in the frame, not its own. -/
def packetOne (codec : PlayCodec) (ring : Mem) (start i : Nat) (cache : Nat → PacketCache)
    (out : Output) : Call ((Nat → PacketCache) × Output) :=
  let index := cacheIndex (start + i)
  let pkt := { cache index with inUse := false }
  let cache := Function.update cache index pkt
  if pkt.naluType = codec.fuA ∧ pkt.nb > 0 then do
    let payload ← Call.deref pkt.payload
    let out ← out.putFua2 codec pkt.fua2 (ring.slice payload pkt.nb)
    return (Function.update cache index { pkt with fua2 := {} }, out)
  else if pkt.naluType = codec.stapA then do
    let payload ← Call.deref pkt.payload
    let (_, stap, _) := codec.decodeStap (initBuffer (ring.drop payload) pkt.nb) {}
    let out ← out.putStap stap.nalus
    return (cache, out)
  else
    match pkt.payload with
    | some payload =>
      if pkt.nb > 0 then do
        let out ← out.putNalu (ring.slice payload pkt.nb)
        return (Function.update cache index { pkt with payload := none }, out)
      else do
        let cache ← clearSlot cache i
        return (cache, out)
    | none => do
      let cache ← clearSlot cache i
      return (cache, out)

def assembleLoop (codec : PlayCodec) (ring : Mem) (start : Nat) :
    Nat → Nat → (Nat → PacketCache) → Output → Call ((Nat → PacketCache) × Output)
  | 0, _, cache, out => .ret (cache, out)
  | n + 1, i, cache, out => do
    let (cache, out) ← packetOne codec ring start i cache out
    assembleLoop codec ring start n (i + 1) cache out

/-- The first half of `packet_video`: the packets of a frame are put together in the video
buffer. The second result is the frame's length. -/
def assembleFrame (codec : PlayCodec) (ring : Mem) (track : PlayTrackH2645) (start last : Nat) :
    Call (PlayTrackH2645 × Nat) := do
  let key ← isKeyframe2 codec ring (track.cacheVideoPkts (cacheIndex start))
  let track := if key then { track with keyFrameTs := -1 } else track
  let tag := if key then codec.keyTag else codec.interTag
  let buffer ← track.videoBuffer.write 0 [tag, 0x01, 0x00, 0x00, 0x00]
  let (cache, out) ← assembleLoop codec ring start (frameCount start last) 0
    track.cacheVideoPkts ⟨buffer, 5, 0⟩
  return ({ track with cacheVideoPkts := cache, videoBuffer := out.buffer }, out.p)

/-- The key frame of `receiveVideo`: its parameter sets are handed on as a frame of their own,
and the units before its slice are left out. -/
def receiveKeyframe (parse : Area → Nat → Call H264NaluData)
    (getSpspps : Area → Nat → Area → Int → Call (Option (Area × Nat)))
    (temp : Area) (videoLen : Nat) (pts : Int) : Call (List VideoFrame) := do
  let nalu ← parse (temp.drop 5) (videoLen - 5)
  if nalu.keyframePos > -1 then
    let pos := nalu.keyframePos.toNat
    let frame := ⟨.I, temp.data.slice (5 + pos) (videoLen - 5 - pos), pts⟩
    if nalu.spsppsPos > -1 then
      match ← getSpspps ⟨fun _ => 0, yangNaluSpsppsBufferLen⟩ (videoLen - 5) temp
        (5 + nalu.spsppsPos) with
      | none => return []
      | some (metaBuf, nb) => return [⟨.Spspps, metaBuf.data.slice 0 nb, pts⟩, frame]
    else return [frame]
  else return []

/-- The frames handed to the application for one that was assembled. -/
def playtrackReceiveVideo (temp : Area) (nb : Nat) (pts : Int) : Call (List VideoFrame) :=
  if nb > yangVideoEncodeBufferLen then .ret []
  else do
    let tag ← temp.byte 0
    let kind ← temp.byte 1
    if tag = 0x27 ∧ kind = 0x01 then
      if ← hasH264Pframe (temp.drop 5) then return [⟨.P, temp.data.slice 5 (nb - 5), pts⟩]
      else return []
    else if tag = 0x17 ∧ kind = 0x00 then return [⟨.Spspps, temp.data.slice 0 nb, pts⟩]
    else if tag = 0x17 ∧ kind = 0x01 then
      receiveKeyframe parseH264Nalu getH264SpsppseNalu temp nb pts
    else if tag = 0x2c ∧ kind = 0x01 then return [⟨.P, temp.data.slice 5 (nb - 5), pts⟩]
    else if tag = 0x1c ∧ kind = 0x00 then return [⟨.Spspps, temp.data.slice 0 nb, pts⟩]
    else if tag = 0x1c ∧ kind = 0x01 then
      receiveKeyframe parseH265Nalu getH265SpsppseNalu temp nb pts
    else return []

def putFrameVideo (track : PlayTrackH2645) (timestamp : Int) (nb : Nat) : Call PlayTrackH2645 :=
  if nb > yangVideoEncodeBufferLen then .ret track
  else do
    let frames ← playtrackReceiveVideo track.videoBuffer nb timestamp
    return { track with frames := track.frames ++ frames }

/-- `packet_video` goes on to the next frame as long as that is there. Each of its calls
releases a slot of the cache, so the slots bound them. -/
def packetVideo (codec : PlayCodec) (ring : Mem) :
    Nat → PlayTrackH2645 → Nat → Nat → Call (Err × PlayTrackH2645)
  | 0, track, _, _ => .ret (yangOk, track)
  | n + 1, track, start, last => do
    let timestamp := (track.cacheVideoPkts (cacheIndex start)).ts
    let (track, nb) ← assembleFrame codec ring track start last
    let track ← putFrameVideo track timestamp nb
    let track := { track with headerSn := (last + 1) % 65536 }
    match findNextLostSn track track.headerSn with
    | .frame tailSn =>
      if checkFrameComplete codec track track.headerSn tailSn then
        packetVideo codec ring n track track.headerSn tailSn
      else return (yangOk, track)
    | .overflow => return (errorRtcRtpMuxer, track)
    | .lost sn => return (yangOk, { track with lostSn := sn })

/-- What is done with the end of a search. -/
def onNextLost (codec : PlayCodec) (ring : Mem) (track : PlayTrackH2645) (sn : NextLost) :
    Call (Err × PlayTrackH2645) :=
  match sn with
  | .frame tailSn =>
    if checkFrameComplete codec track track.headerSn tailSn then
      packetVideo codec ring (yangRtcRecvBufferCount + 1) track track.headerSn tailSn
    else .ret (yangOk, track)
  | .overflow => .ret (errorRtcRtpMuxer, track)
  | .lost sn => .ret (yangOk, { track with lostSn := sn })

def clearCachedVideo (track : PlayTrackH2645) : PlayTrackH2645 :=
  { track with
    cacheVideoPkts := fun i =>
      if (track.cacheVideoPkts i).inUse then {} else track.cacheVideoPkts i }

def storePacket (codec : PlayCodec) (ring : Mem) (track : PlayTrackH2645) (pkt : RtpPacket) :
    Call PlayTrackH2645 := do
  let index := cacheIndex pkt.header.sequence
  let slot ← copyPacket codec ring pkt { track.cacheVideoPkts index with inUse := true }
  return { track with cacheVideoPkts := Function.update track.cacheVideoPkts index slot }

/-- A key frame with a new timestamp begins the cache anew. -/
def newKeyframe (track : PlayTrackH2645) (header : RtpHeader) : PlayTrackH2645 :=
  if track.keyFrameTs = -1 ∨ track.keyFrameTs ≠ header.timestamp then
    clearCachedVideo { track with
      keyFrameTs := header.timestamp
      headerSn := header.sequence
      lostSn := (header.sequence + 1) % 65536 }
  else track

def packetVideoKeyFrame (codec : PlayCodec) (ring : Mem) (track : PlayTrackH2645)
    (pkt : RtpPacket) : Call (Err × PlayTrackH2645) := do
  let seq := pkt.header.sequence
  let track ← storePacket codec ring (newKeyframe track pkt.header) pkt
  if rtpSeqDistance track.headerSn seq < 0 then
    let track := { track with headerSn := seq }
    onNextLost codec ring track (findNextLostSn track seq)
  else if track.lostSn = seq then
    onNextLost codec ring track (findNextLostSn track track.lostSn)
  else onNextLost codec ring track (.lost track.lostSn)

def playtrackOnRtp (codec : PlayCodec) (videoTracks : List Nat) (ring : Mem)
    (track : PlayTrackH2645) (src : RtpPacket) : Call (Err × PlayTrackH2645) := do
  let track :=
    if track.hasRequestKeyframe = false then { track with plis := track.plis ++ videoTracks }
    else track
  let payload ← Call.deref src.payload
  let src := { src with naluType := codec.naluType (ring payload) }
  if ← isKeyframe codec ring src then
    packetVideoKeyFrame codec ring { track with hasRequestKeyframe := true } src
  else
    let track ← storePacket codec ring track src
    if track.lostSn = src.header.sequence then
      onNextLost codec ring track (findNextLostSn track track.lostSn)
    else return (yangOk, track)

def playtrackH264OnRtp := playtrackOnRtp playH264
def playtrackH265OnRtp := playtrackOnRtp playH265

/-- The play stream: the ring all received packets are copied to, and its video track. -/
structure PlayStream where
  videoTracks : List Nat := []
  rtpBuffer : RtpBuffer := ⟨1500, 0, fun _ => 0⟩
  track : PlayTrackH2645 := {}

/-- The packet is copied to the next slot of the ring and decoded there. -/
def wrapRtpPacket (play : PlayStream) (plaintext : List UInt8) : Err × RtpPacket × PlayStream :=
  let (p, rtpBuffer) := getRtpBuffer play.rtpBuffer
  let rtpBuffer := { rtpBuffer with buffer := rtpBuffer.buffer.write p plaintext }
  let (err, pkt, _) :=
    decodeRtpPacket {} (initBuffer (rtpBuffer.buffer.drop p) plaintext.length)
  (err, { pkt with payload := pkt.payload.map (p + ·) }, { play with rtpBuffer })

/-- `yang_rtcplay_on_rtp` from the plaintext on, for a packet of the video. What the track
returns is not looked at. -/
def rtcplayOnVideoRtp (codec : PlayCodec) (play : PlayStream) (plaintext : List UInt8) :
    Call (Err × PlayStream) :=
  let (err, pkt, play) := wrapRtpPacket play plaintext
  if err ≠ yangOk then .ret (err, play)
  else do
    let (_, track) ←
      playtrackOnRtp codec play.videoTracks play.rtpBuffer.buffer play.track pkt
    return (yangOk, { play with track })

end MetaRtc
