import MetaRtc.Publish.Package

/-! # Answering retransmission requests -/
namespace MetaRtc

open Bytes Exec

/-- The queue's entry for `seq`, when it is of that number. -/
def rtcpushFetchRtpPacket (pub : Publisher) (m : Media) (seq : Nat) : Option SendNackBuffer :=
  let pkt := pubnackbufferAt (pub.media m).queue seq
  if pkt.seq = seq then some pkt else none

def countNack (pub : Publisher) : Publisher :=
  { pub with stats := { pub.stats with nackCount := pub.stats.nackCount + 1 } }

/-- One number of a request. -/
def resend (env : Env) (pub : Publisher) (m : Media) (seq : Nat) : Call (Err × Publisher) :=
  match rtcpushFetchRtpPacket pub m seq with
  | none => .ret (yangOk, pub)
  | some pkt => sendNackpacket env (countNack pub) m seq pkt.payload pkt.nb

/-- The numbers of a request in order, up to the first error. -/
def rtcpushOnRecvNack (env : Env) (m : Media) : List Nat → Publisher → Call (Err × Publisher)
  | [], pub => .ret (yangOk, pub)
  | seq :: rest, pub => do
    let (err, pub) ← resend env pub m seq
    if err ≠ yangOk then return (err, pub) else rtcpushOnRecvNack env m rest pub

/-- The media a request is for; the video's identifier goes before the audio's. -/
def nackMedia (pub : Publisher) (ssrc : Nat) : Option Media :=
  if ssrc = (pub.media .video).ssrc then some .video
  else if ssrc = (pub.media .audio).ssrc then some .audio
  else none

def rtcpushOnRtcpNack (env : Env) (pub : Publisher) (mediaSsrc : Nat) (nacks : List Nat) :
    Call (Err × Publisher) :=
  if mediaSsrc = 0 then .ret (yangOk, pub)
  else
    match nackMedia pub mediaSsrc with
    | none => .ret (yangOk, pub)
    | some m => rtcpushOnRecvNack env m nacks pub

end MetaRtc
