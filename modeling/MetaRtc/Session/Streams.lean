import MetaRtc.Publish.Nack
import MetaRtc.Rtcp.Decode
import MetaRtc.Rtcp.TwccDecode

/-! # What the session does with an RTCP packet

A packet goes to the publishing stream, then to the playing one. Each handler follows
the pointers to the sub-structures it expects of the packet's type. -/
namespace MetaRtc

open Bytes Exec

def errorRtcRtcpCheck : Err := 5016

structure RtcTrack where
  ssrc : Nat
  rtxSsrc : Nat
  fecSsrc : Nat

def hasSsrc (track : RtcTrack) (ssrc : Nat) : Bool :=
  decide (ssrc = track.ssrc ∨ ssrc = track.rtxSsrc ∨ ssrc = track.fecSsrc)

structure Ntp where
  ntp : Nat := 0
  ntpSecond : Nat := 0
  ntpFractions : Nat := 0

def ntpToTimeMs (pntp : Nat) : Ntp := ⟨pntp, pntp / 2 ^ 32 % 2 ^ 32, pntp % 2 ^ 32⟩

/-- What the reports of the other side tell a playing track. `nackInterval` and its bound
are options of the track's retransmission requests. -/
structure PlayTrack where
  ids : List RtcTrack
  lastSenderReportNtp : Ntp := {}
  lastSenderReportRtpTime : Nat := 0
  lastSenderReportSysTime : Nat := 0
  rtt : Int := 0
  nackInterval : Int
  maxNackInterval : Int

structure RemoteRecvStats where
  rtt : Nat := 0
  totalRtt : Nat := 0
  fractionLost : Nat := 0
  reportsReceived : Nat := 0

/-- `ntpFractions` and `smoothInterval` are computed in floating point. `twccDecode` reads a
transport-wide report, which it is given the copied payload and its length of, and need
not end; the build has it only where it has `Yang_Enable_TWCC`. -/
structure SessionEnv extends Env where
  enableTwcc : Bool
  twccDecode : TwccSession → List UInt8 → Int → Option TwccSession
  ntpFractions : Nat → Nat
  smoothInterval : Int → Int → Int

/-- What the RTCP handlers of a session read and change. `push` and `play` tell whether
there is a publishing and a playing stream, `optPlay` whether the session was made to play
only. `requests` are the media the application was asked for a key frame of. -/
structure Streams where
  push : Bool
  play : Bool
  optPlay : Bool
  pub : Publisher
  tracks : Media → PlayTrack
  recvStats : Media → RemoteRecvStats
  twcc : TwccSession
  requests : List Nat

namespace Streams

def setTrack (s : Streams) (m : Media) (t : PlayTrack) : Streams :=
  { s with tracks := fun k => if k = m then t else s.tracks k }

def setRecvStats (s : Streams) (m : Media) (t : RemoteRecvStats) : Streams :=
  { s with recvStats := fun k => if k = m then t else s.recvStats k }

end Streams

/-- The time in NTP format: whole seconds above the binary point. -/
def getNtptimeFromms (env : SessionEnv) (ms : Nat) : Nat :=
  ms / 1000 * 2 ^ 32 % 2 ^ 64 ||| env.ntpFractions (ms % 1000)

def sendStartTime (stats : SendStats) : Media → Nat
  | .audio => stats.audioStartTime
  | .video => stats.videoStartTime

def statsOnRecvRR (env : SessionEnv) (s : Streams) (m : Media) (rtcp : RtcpCommon) :
    Call (Err × Streams) := do
  let rb ← Call.deref rtcp.rb
  let elapsed : Int := ((env.now : Int) - sendStartTime s.pub.stats m) % 2 ^ 64
  let currTime := elapsed.toNat / 1000 % 2 ^ 32
  let currNtp : Nat := getNtptimeFromms env currTime / 2 ^ 16 % 2 ^ 32
  let delay : Int := ((currNtp : Int) - rb.lsr - rb.dlsr) % 2 ^ 32
  let rtt := delay.toNat * 1000 % 2 ^ 32 / 65536
  let stats := s.recvStats m
  return (yangOk, s.setRecvStats m
    { fractionLost := rb.fractionLost / 255
      totalRtt := stats.totalRtt + rtt
      rtt := if rtt > 0 then rtt else 1
      reportsReceived := stats.reportsReceived + 1 })

def rtcpushOnRtcpRr (env : SessionEnv) (s : Streams) (rtcp : RtcpCommon) : Call (Err × Streams) :=
  if rtcp.ssrc = (s.pub.media .audio).ssrc then statsOnRecvRR env s .audio rtcp
  else if rtcp.ssrc = (s.pub.media .video).ssrc then statsOnRecvRR env s .video rtcp
  else .ret (yangOk, s)

def rtcpushOnNack (env : SessionEnv) (s : Streams) (rtcp : RtcpCommon) : Call (Err × Streams) := do
  let nack ← Call.deref rtcp.nack
  let (err, pub) ← rtcpushOnRtcpNack env.toEnv s.pub nack.mediaSsrc nack.nacks
  return (err, { s with pub })

def rtcpushOnRtcpPsFeedback (s : Streams) (rtcp : RtcpCommon) : Call (Err × Streams) :=
  let fmt := rtcp.header.rc
  if fmt = kPLI then
    let ssrc := (s.pub.media .video).ssrc
    if ssrc ≠ 0 then .ret (yangOk, { s with requests := s.requests ++ [ssrc] })
    else .ret (yangOk, s)
  else if fmt = kSLI ∨ fmt = kRPSI ∨ fmt = kAFB then .ret (yangOk, s)
  else .ret (errorRtcRtcp, s)

def rtcpushOnRtcp (env : SessionEnv) (s : Streams) (rtcp : RtcpCommon) : Call (Err × Streams) :=
  if rtcp.header.type = RtcpType.rr then rtcpushOnRtcpRr env s rtcp
  else if rtcp.header.type = RtcpType.rtpfb then rtcpushOnNack env s rtcp
  else if rtcp.header.type = RtcpType.psfb then rtcpushOnRtcpPsFeedback s rtcp
  else .ret (yangOk, s)

/-- The track a report about an identifier is for. -/
def trackOf (s : Streams) (ssrc : Nat) (m : Media) : Bool :=
  (s.tracks m).ids.any fun track => hasSsrc track ssrc

def recvnackUpdateRtt (env : SessionEnv) (t : PlayTrack) (rtt : Int) : PlayTrack :=
  let rtt := Int.bmod (rtt * 1000) (2 ^ 32)
  let nackInterval := if rtt > t.nackInterval then env.smoothInterval t.nackInterval rtt else rtt
  { t with rtt, nackInterval := min nackInterval t.maxNackInterval }

def rtcplayUpdateRtt (env : SessionEnv) (s : Streams) (ssrc : Nat) (rtt : Int) : Streams :=
  if trackOf s ssrc .video then s.setTrack .video (recvnackUpdateRtt env (s.tracks .video) rtt)
  else if trackOf s ssrc .audio then
    s.setTrack .audio (recvnackUpdateRtt env (s.tracks .audio) rtt)
  else s

def updateSendReportTime (env : SessionEnv) (t : PlayTrack) (ntp : Ntp) (rtpTime : Nat) :
    PlayTrack :=
  { t with
    lastSenderReportNtp := ntp
    lastSenderReportRtpTime := rtpTime
    lastSenderReportSysTime := env.now }

def rtcplayUpdateSendReportTime (env : SessionEnv) (s : Streams) (ssrc : Nat) (ntp : Ntp)
    (rtpTime : Nat) : Streams :=
  let s' := if trackOf s ssrc .video then
    s.setTrack .video (updateSendReportTime env (s.tracks .video) ntp rtpTime) else s
  if trackOf s ssrc .audio then
    s'.setTrack .audio (updateSendReportTime env (s'.tracks .audio) ntp rtpTime) else s'

def rtcplayOnRtcpSr (env : SessionEnv) (s : Streams) (rtcp : RtcpCommon) :
    Call (Err × Streams) := do
  let sr ← Call.deref rtcp.sr
  return (yangOk, rtcplayUpdateSendReportTime env s rtcp.ssrc (ntpToTimeMs sr.ntp) sr.rtpTs)

/-- The entries of a DLRR block: each tells the delay since a report of ours. -/
def xrDlrrEntries (env : SessionEnv) : Nat → YangBuffer → Streams → YangBuffer × Streams
  | 0, stream, s => (stream, s)
  | n + 1, stream, s =>
    let (ssrc, stream) := stream.read4bytes
    let (lrr, stream) := stream.read4bytes
    let (dlrr, stream) := stream.read4bytes
    let ms := env.now / 1000
    let compactNtp : Nat := ms / 1000 * 2 ^ 16 % 2 ^ 32 ||| env.ntpFractions (ms % 1000) / 2 ^ 16
    let rttNtp := Int.bmod ((compactNtp : Int) - lrr - dlrr) (2 ^ 32)
    let rtt := Int.bmod (Int.bmod (rttNtp * 1000) (2 ^ 32) / 2 ^ 16 + rttNtp / 2 ^ 16 * 1000) (2 ^ 32)
    let s := if s.optPlay then rtcplayUpdateRtt env s ssrc rtt else s
    xrDlrrEntries env n stream s

/-- The loop over the blocks. Every pass moves the cursor by four bytes at least, so the
length bounds the passes. Both lengths are kept in 16 bits. -/
def xrBlocks (env : SessionEnv) (length : Nat) (nbData : Int) :
    Nat → YangBuffer → Streams → Err × Streams
  | 0, _, s => (yangOk, s)
  | fuel + 1, stream, s =>
    if stream.head + 4 < length then
      let (bt, stream) := stream.read1bytes
      let stream := stream.skip 1
      let (blocks, stream) := stream.read2bytes
      let blockLength := (blocks + 1) * 4 % 65536
      if (stream.head : Int) + blockLength - 4 > nbData then (errorRtcRtcpCheck, s)
      else if bt = 5 then
        let (stream, s) := xrDlrrEntries env ((blockLength - 4 + 11) / 12) stream s
        xrBlocks env length nbData fuel stream s
      else if bt = 4 then
        xrBlocks env length nbData fuel (stream.skip 8) s
      else xrBlocks env length nbData fuel stream s
    else (yangOk, s)

/-- `memory` is the memory the packet's `data` points into. -/
def rtcplayOnRtcpXr (env : SessionEnv) (memory : Mem) (s : Streams) (rtcp : RtcpCommon) :
    Call (Err × Streams) := do
  let data ← Call.deref rtcp.data
  let stream := initBuffer (fun i => memory (data + i)) rtcp.nbData.toNat
  let (_, stream) := stream.read1bytes
  let (pt, stream) := stream.read1bytes
  if pt ≠ RtcpType.xr then return (errorRtcRtcpCheck, s)
  else
    let (words, stream) := stream.read2bytes
    let length := (words + 1) * 4 % 65536
    let (_, stream) := stream.read4bytes
    if (length : Int) > rtcp.nbData then return (errorRtcRtcpCheck, s)
    else return xrBlocks env length rtcp.nbData length stream s

def rtcplayOnRtcp (env : SessionEnv) (memory : Mem) (s : Streams) (rtcp : RtcpCommon) :
    Call (Err × Streams) :=
  if rtcp.header.type = RtcpType.sr then rtcplayOnRtcpSr env s rtcp
  else if rtcp.header.type = RtcpType.xr then rtcplayOnRtcpXr env memory s rtcp
  else .ret (yangOk, s)

def rtcconnOnRtcpFeedbackTwcc (env : SessionEnv) (s : Streams) (rtcp : RtcpCommon) :
    Call (Err × Streams) :=
  if env.enableTwcc then
    match env.twccDecode s.twcc rtcp.payload rtcp.payloadLen with
    | some twcc => .ret (yangOk, { s with twcc })
    | none => .blocked
  else .ret (yangOk, s)

/-- The streams that are there get the packet, up to the first error. -/
def onStreams (env : SessionEnv) (memory : Mem) (s : Streams) (rtcp : RtcpCommon) :
    Call (Err × Streams) := do
  let (err, s) ← (if s.push then rtcpushOnRtcp env s rtcp else .ret (yangOk, s))
  if err ≠ yangOk then return (err, s)
  else if s.play then rtcplayOnRtcp env memory s rtcp
  else return (yangOk, s)

def rtcconnDispatchRtcp (env : SessionEnv) (memory : Mem) (s : Streams) (rtcp : RtcpCommon) :
    Call (Err × Streams) :=
  if rtcp.header.type = RtcpType.rtpfb ∧ rtcp.header.rc = 15 then
    rtcconnOnRtcpFeedbackTwcc env s rtcp
  else if rtcp.header.type = RtcpType.psfb ∧ rtcp.header.rc = 15 then .ret (yangOk, s)
  else if rtcp.header.type = RtcpType.rr then do
    let rb ← Call.deref rtcp.rb
    if rb.ssrc = 0 then return (yangOk, s) else onStreams env memory s rtcp
  else onStreams env memory s rtcp

end MetaRtc
