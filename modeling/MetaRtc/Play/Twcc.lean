import MetaRtc.Lib.Loop
import MetaRtc.Rtcp.Twcc
import MetaRtc.Rtp.Payload

/-! # Recording and reporting transport-wide numbers -/
namespace MetaRtc

open Bytes

/-- One pass of the loop over the elements of an extension block, at the byte `buf` with
`extensionLength` bytes to go by a count of 16 bits. It leaves with the number, which stays
0 where the block ends without it. -/
def fastParseTwccPass (data : Mem) (twccId : Nat) (s : Nat × Nat) :
    Loop.Outcome (Nat × Nat) Nat :=
  let (buf, extensionLength) := s
  if extensionLength > 0 then
    let v := (data buf).toNat
    let buf := buf + 1
    let extensionLength := extensionLength - 1
    if v = 0 then .next (buf, extensionLength)
    else
      let id := v / 16
      let len := v % 16 + 1
      if id = twccId then .done (data.be buf 2)
      else .next (buf + len, (extensionLength + 65536 - len) % 65536)
  else .done 0

/-- `none` says that the loop has not come to its end within `fuel` passes. -/
def rtpFastParseTwcc (fuel : Nat) (data : Mem) (size twccId : Nat) : Option (Err × Nat) :=
  let needSize := 12 + 4 + 3
  if size < needSize then some (errorRtcRtpMuxer, 0)
  else
    let first := (data 0).toNat
    let extension := first / 16 % 2 = 1
    let cc := first % 16
    if ¬ extension then some (errorRtcRtp, 0)
    else
      let needSize := needSize + cc * 4
      if size < needSize then some (errorRtcRtpMuxer, 0)
      else
        let buf := 12 + 4 * cc
        if 0xBEDE ≠ data.be buf 2 then some (errorRtcRtpMuxer, 0)
        else
          let extensionLength := data.be (buf + 2) 2 * 4 % 65536
          let needSize := needSize + extensionLength
          if size < needSize then some (errorRtcRtpMuxer, 0)
          else
            (Loop.run (fastParseTwccPass data twccId) fuel (buf + 4, extensionLength)).map
              fun sn => (yangOk, sn)

/-- The numbers of the last report leave the list when the next one is recorded. -/
def rtcplayCutReported (twcc : RecvTwccFeedback) : RecvTwccFeedback :=
  if twcc.isSendtwcc = false ∧ twcc.newSnsIndex > 0 ∧ twcc.newSnsIndex < twcc.sns.vsize then
    if twcc.newSnsIndex = twcc.sns.vsize - 1 then
      { twcc with sns := clearUint16Sort twcc.sns, newSnsIndex := 0 }
    else { twcc with sns := clearUint16Sort2 twcc.sns twcc.newSnsIndex, newSnsIndex := 0 }
  else twcc

def rtcplayOnTwcc (microTime : Int) (twcc : RecvTwccFeedback) (sn : Nat) : RecvTwccFeedback :=
  let twcc := rtcplayCutReported twcc
  { twcc with
    tss := Function.update twcc.tss (sn &&& 511) microTime
    sns := insertUint16SortVec twcc.sns sn
    newRecvSn := sn }

/-- `sendErr` is what protecting and sending the message come to. -/
def sendRtcpFbTwcc (chunk : RtcpTWCCChunk) (sendErr : Err) (twcc : RecvTwccFeedback) :
    Err × RecvTwccFeedback × List UInt8 :=
  let (err, twcc, buf) := twccRecvEncode chunk twcc { size := kRtpPacketSize }
  if err ≠ yangOk then (err, twcc, []) else (sendErr, twcc, buf.bytes)

def twccSending (twcc : RecvTwccFeedback) (twccFbCount : Nat) : RecvTwccFeedback :=
  { twcc with isSendtwcc := true, fbPktCount := twccFbCount }

/-- The record, the count of messages, and the message where one was sent. No error comes
back of it. -/
def rtcplaySendPeriodicTwcc (chunk : RtcpTWCCChunk) (sendErr : Err) (twcc : RecvTwccFeedback)
    (twccFbCount : Nat) : RecvTwccFeedback × Nat × Option (List UInt8) :=
  if twcc.sns.vsize = 0 then (twcc, twccFbCount, none)
  else
    let (err, twcc, msg) := sendRtcpFbTwcc chunk sendErr (twccSending twcc twccFbCount)
    ({ twcc with isSendtwcc := false }, (twccFbCount + 1) % 256,
      if err = yangOk then some msg else none)

end MetaRtc
