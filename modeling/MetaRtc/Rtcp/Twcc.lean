import Mathlib.Logic.Function.Basic
import MetaRtc.Rtcp.Nack

/-! # Encoding transport-wide feedback

The numbers received are turned into symbols, one for each number from the first to the
last: nothing, a small delta or a large one. The symbols are packed in chunks. -/
namespace MetaRtc

open Bytes

def kMaxUDPDataSize : Nat := 1472
def kTwccFbPktHeaderSize : Nat := 4 + 8 + 8
def kTwccFbChunkBytes : Nat := 2
def kTwccFbDeltaUnit : Int := 250
def kTwccFbTimeMultiplier : Int := kTwccFbDeltaUnit * 256
def kTwccFbReferenceTimeDivisor : Int := 2 ^ 24 * kTwccFbTimeMultiplier
def kTwccFbMaxRunLength : Nat := 0x1fff
def kTwccFbOneBitElements : Nat := 14
def kTwccFbTwoBitElements : Nat := 7
def kTwccFbLargeRecvDeltaBytes : Nat := 2
def kTwccFbMaxBitElements : Nat := kTwccFbOneBitElements

/-- The array is in use up to `vsize`. What it holds from there on is left over from
before. -/
structure Uint16Sort where
  vsize : Nat := 0
  capacity : Nat := 512
  payload : Nat → Nat := fun _ => 0
  fits : vsize ≤ capacity := by decide

namespace Uint16Sort

/-- A new array has nothing in it. -/
theorem new_fits : 0 ≤ 512 := Nat.zero_le _

def list (psort : Uint16Sort) : List Nat := (List.range psort.vsize).map psort.payload

/-- A new array has the old one's numbers and zeros behind them. -/
def grow (psort : Uint16Sort) : Uint16Sort :=
  if psort.vsize + 1 ≥ psort.capacity then
    { psort with
      capacity := psort.capacity + 50
      payload := fun i => if i < psort.vsize then psort.payload i else 0
      fits := Nat.le_add_right_of_le psort.fits }
  else psort

@[simp] theorem grow_vsize (psort : Uint16Sort) : psort.grow.vsize = psort.vsize := by
  unfold grow
  split <;> rfl

theorem grow_room (psort : Uint16Sort) : psort.grow.vsize + 1 ≤ psort.grow.capacity := by
  have hfits := psort.fits
  unfold grow
  split
  · dsimp only
    omega
  · omega

end Uint16Sort

/-- The search looks at the number behind the last one too. -/
def getUint16SortIndex (a : Nat → Nat) (value alen : Nat) : Int :=
  uint16Search ((List.range (alen + 1)).map a) value (alen + 2) 0 alen

def insertUint16SortVec (psort : Uint16Sort) (val : Nat) : Uint16Sort :=
  let a := psort.grow.payload
  let alen := psort.vsize
  let filled (payload : Nat → Nat) : Uint16Sort :=
    ⟨psort.grow.vsize + 1, psort.grow.capacity, payload, psort.grow_room⟩
  if alen = 0 ∨ rtpSeqDistance (a (alen - 1)) val > 0 then filled (Function.update a alen val)
  else
    let index := getUint16SortIndex a val alen
    if index = -1 then psort.grow
    else
      let moved := fun i : Nat => if index < i ∧ i ≤ alen then a (i - 1) else a i
      filled (Function.update moved index.toNat val)

def clearUint16Sort (psort : Uint16Sort) : Uint16Sort :=
  { psort with vsize := 0, fits := Nat.zero_le _ }

/-- The numbers from an index on move to the front, all but the last of them. -/
def clearUint16Sort2 (psort : Uint16Sort) (index : Nat) : Uint16Sort :=
  if psort.vsize = 0 then psort
  else
    { psort with
      vsize := psort.vsize - index - 1
      payload := fun i => if i < psort.vsize - index - 1 then psort.payload (i + index)
        else psort.payload i
      fits := Nat.sub_le_of_le_add (Nat.le_add_right_of_le
        (Nat.sub_le_of_le_add (Nat.le_add_right_of_le psort.fits))) }

/-- `tss` has the time of arrival of each number, by its low nine bits. -/
structure RecvTwccFeedback where
  fbPktCount : Nat := 0
  isSendtwcc : Bool := false
  newSnsIndex : Nat := 0
  newRecvSn : Nat := 0
  baseSn : Nat := 0
  nextBaseSn : Nat := 0
  ssrc : Nat := 0
  mediaSsrc : Nat := 0
  pktLen : Nat := 0
  referenceTime : Int := 0
  header : RtcpHeader := ⟨15, 0, kRtcpVersion, RtcpType.rtpfb, 0⟩
  tss : Nat → Int := fun _ => 0
  sns : Uint16Sort := { fits := Uint16Sort.new_fits }
  encodedChucks : List Nat := []
  pktDeltas : List Nat := []

def twccClear (twcc : RecvTwccFeedback) : RecvTwccFeedback :=
  { twcc with encodedChucks := [], pktDeltas := [], nextBaseSn := 0 }

/-- The distance of two times in units of 250 microseconds, to the nearest. -/
def twccCalculateDeltaUs (ts last : Int) : Int :=
  let divisor := kTwccFbReferenceTimeDivisor
  let deltaUs := (ts - last).tmod divisor
  let deltaUs := if deltaUs > divisor / 2 then deltaUs - divisor else deltaUs
  let deltaUs := deltaUs + if deltaUs < 0 then -(kTwccFbDeltaUnit / 2) else kTwccFbDeltaUnit / 2
  deltaUs.tdiv kTwccFbDeltaUnit

/-- The chunk being filled. -/
structure RtcpTWCCChunk where
  deltaSizes : Nat → Nat
  size : Nat
  allSame : Bool
  hasLargeDelta : Bool

def twccCanAddToChunk (chunk : RtcpTWCCChunk) (deltaSize : Nat) : Bool :=
  if chunk.size < kTwccFbTwoBitElements then true
  else if chunk.size < kTwccFbOneBitElements ∧ chunk.hasLargeDelta = false ∧
      deltaSize ≠ kTwccFbLargeRecvDeltaBytes then true
  else decide (chunk.size < kTwccFbMaxRunLength) && chunk.allSame &&
    decide (chunk.deltaSizes 0 = deltaSize)

def twccAddToChunk (chunk : RtcpTWCCChunk) (deltaSize : Nat) : RtcpTWCCChunk :=
  let deltaSizes := if chunk.size < kTwccFbMaxBitElements then
    Function.update chunk.deltaSizes chunk.size deltaSize else chunk.deltaSizes
  { deltaSizes
    size := (chunk.size + 1) % 65536
    allSame := chunk.allSame && decide (deltaSize = deltaSizes 0)
    hasLargeDelta := chunk.hasLargeDelta || decide (deltaSize ≥ kTwccFbLargeRecvDeltaBytes) }

def RecvTwccFeedback.insertChunk (twcc : RecvTwccFeedback) (encodedChunk : Nat) :
    RecvTwccFeedback :=
  { twcc with
    encodedChucks := twcc.encodedChucks ++ [encodedChunk % 65536]
    pktLen := twcc.pktLen + kTwccFbChunkBytes }

def twccEncodeChunkRunLength (twcc : RecvTwccFeedback) (chunk : RtcpTWCCChunk) :
    Err × RecvTwccFeedback :=
  if chunk.allSame = false ∨ chunk.size > kTwccFbMaxRunLength then (errorRtcRtcp, twcc)
  else (yangOk, twcc.insertChunk (chunk.deltaSizes 0 <<< 13 ||| chunk.size))

def twccEncodeChunkOneBit (twcc : RecvTwccFeedback) (chunk : RtcpTWCCChunk) :
    Err × RecvTwccFeedback :=
  if chunk.hasLargeDelta then (errorRtcRtcp, twcc)
  else
    (yangOk, twcc.insertChunk ((List.range chunk.size).foldl
      (fun encoded i => encoded ||| chunk.deltaSizes i <<< (kTwccFbOneBitElements - 1 - i)) 0x8000))

/-- The symbols of a two-bit chunk leave the chunk being filled, where `shift` is set. -/
def twccEncodeChunkTwoBit (twcc : RecvTwccFeedback) (chunk : RtcpTWCCChunk) (size : Nat)
    (shift : Bool) : RecvTwccFeedback × RtcpTWCCChunk :=
  let twcc := twcc.insertChunk ((List.range size).foldl
    (fun encoded i =>
      encoded ||| chunk.deltaSizes i <<< (2 * (kTwccFbTwoBitElements - 1 - i))) 0xc000)
  if shift then
    let rest := chunk.size - size
    let deltaSizes := fun i => if i < rest then chunk.deltaSizes (i + size) else chunk.deltaSizes i
    (twcc, {
      deltaSizes
      size := rest
      allSame := (List.range rest).all fun i => deltaSizes i = deltaSizes 0
      hasLargeDelta := (List.range rest).any fun i => deltaSizes i = kTwccFbLargeRecvDeltaBytes })
  else (twcc, chunk)

def twccResetChunk (chunk : RtcpTWCCChunk) : RtcpTWCCChunk :=
  { chunk with size := 0, allSame := true, hasLargeDelta := false }

def twccEncodeChunk (twcc : RecvTwccFeedback) (chunk : RtcpTWCCChunk) :
    Err × RecvTwccFeedback × RtcpTWCCChunk :=
  if twccCanAddToChunk chunk 0 ∧ twccCanAddToChunk chunk 1 ∧ twccCanAddToChunk chunk 2 then
    (errorRtcRtcp, twcc, chunk)
  else if chunk.allSame then
    let (err, twcc) := twccEncodeChunkRunLength twcc chunk
    if err ≠ yangOk then (err, twcc, chunk) else (yangOk, twcc, twccResetChunk chunk)
  else if chunk.size = kTwccFbOneBitElements then
    let (err, twcc) := twccEncodeChunkOneBit twcc chunk
    if err ≠ yangOk then (err, twcc, chunk) else (yangOk, twcc, twccResetChunk chunk)
  else
    let (twcc, chunk) := twccEncodeChunkTwoBit twcc chunk kTwccFbTwoBitElements true
    (yangOk, twcc, chunk)

def twccEncodeRemainingChunk (twcc : RecvTwccFeedback) (chunk : RtcpTWCCChunk) :
    Err × RecvTwccFeedback :=
  if chunk.allSame then twccEncodeChunkRunLength twcc chunk
  else if chunk.size ≤ kTwccFbTwoBitElements then
    (yangOk, (twccEncodeChunkTwoBit twcc chunk chunk.size false).1)
  else twccEncodeChunkOneBit twcc chunk

def twccProcessPktChunk (twcc : RecvTwccFeedback) (chunk : RtcpTWCCChunk) (deltaSize : Nat) :
    Err × RecvTwccFeedback × RtcpTWCCChunk :=
  let neededChunkSize := if chunk.size = 0 then kTwccFbChunkBytes else 0
  let mightOccupied := twcc.pktLen + neededChunkSize + deltaSize
  if mightOccupied > kRtcpPacketSize then (errorRtcRtcp, twcc, chunk)
  else if twccCanAddToChunk chunk deltaSize then (yangOk, twcc, twccAddToChunk chunk deltaSize)
  else
    let (err, twcc, chunk) := twccEncodeChunk twcc chunk
    if err ≠ yangOk then (err, twcc, chunk)
    else (yangOk, twcc, twccAddToChunk chunk deltaSize)

/-- The variables of the loop over the numbers. -/
structure TwccEncoding where
  twcc : RecvTwccFeedback
  chunk : RtcpTWCCChunk
  packetCount : Nat
  lastTs : Int
  lastSn : Nat

/-- The symbols of the numbers passed over. What becomes of each is not looked at. -/
def twccLost : Nat → TwccEncoding → TwccEncoding
  | 0, s => s
  | n + 1, s =>
    let (_, twcc, chunk) := twccProcessPktChunk s.twcc s.chunk 0
    twccLost n { s with twcc, chunk, packetCount := (s.packetCount + 1) % 65536 }

/-- How many numbers are passed over from one to another. None are where they wrap. -/
def twccGap (lastSn currentSn : Nat) : Nat :=
  if currentSn > lastSn + 1 then currentSn - lastSn - 1 else 0

namespace TwccEncoding

/-- The number of index `i` is taken up. -/
def start (s : TwccEncoding) (i : Nat) : TwccEncoding :=
  { s with
    twcc := { s.twcc with newSnsIndex := i }
    packetCount := (s.packetCount + 1) % 65536 }

def deltaUs (s : TwccEncoding) (currentSn : Nat) : Int :=
  twccCalculateDeltaUs (s.twcc.tss (currentSn &&& 511)) s.lastTs

/-- The symbol of the number is in the chunk being filled, and its delta is put down. -/
def received (s : TwccEncoding) (twcc : RecvTwccFeedback) (chunk : RtcpTWCCChunk)
    (currentSn : Nat) (deltaUs : Int) (recvDeltaSize : Nat) : TwccEncoding :=
  { s with
    twcc := { twcc with
      pktDeltas := twcc.pktDeltas ++ [(deltaUs % 65536).toNat]
      pktLen := twcc.pktLen + recvDeltaSize }
    chunk
    lastTs := s.lastTs + deltaUs * kTwccFbDeltaUnit
    lastSn := currentSn }

end TwccEncoding

/-- The delta fits in 16 bits. -/
def Representable (deltaUs : Int) : Prop := -32768 ≤ deltaUs ∧ deltaUs ≤ 32767

instance (deltaUs : Int) : Decidable (Representable deltaUs) := by
  unfold Representable
  exact inferInstance

def recvDeltaSize (deltaUs : Int) : Nat := if 0 ≤ deltaUs ∧ deltaUs ≤ 0xff then 1 else 2

/-- The loop over the numbers from the `i`-th on. -/
def twccEncodeLoop (left : Int) : Nat → List Nat → TwccEncoding → Err × TwccEncoding
  | _, [], s => (yangOk, s)
  | i, currentSn :: rest, s =>
    if (s.twcc.pktLen : Int) + 2 ≥ left then (yangOk, s)
    else
      let s := s.start i
      let deltaUs := s.deltaUs currentSn
      if ¬ Representable deltaUs then (errorRtcRtcp, s)
      else
        let s := twccLost (twccGap s.lastSn currentSn) s
        let size := recvDeltaSize deltaUs
        let (err, twcc, chunk) := twccProcessPktChunk s.twcc s.chunk size
        if err ≠ yangOk then (err, { s with twcc, chunk })
        else
          twccEncodeLoop left (i + 1) rest (s.received twcc chunk currentSn deltaUs size)

def writeDelta (buf : OutBuffer) (it : Nat) : OutBuffer :=
  if it ≤ 0xff then buf.write1bytes (UInt8.ofNat it) else buf.write2bytes it

/-- The head of the packet, up to its chunks. -/
def writeTwccHead (twcc : RecvTwccFeedback) (packetCount : Nat) (buf : OutBuffer) : OutBuffer :=
  let buf := (buf.write4bytes twcc.mediaSsrc).write2bytes twcc.baseSn
  let buf := (buf.write2bytes packetCount).writeBytes (beBytes 3 twcc.referenceTime.toNat)
  buf.write1bytes (UInt8.ofNat twcc.fbPktCount)

/-- The state the loop starts from. -/
def twccEncodeStart (chunk : RtcpTWCCChunk) (twcc : RecvTwccFeedback) : TwccEncoding :=
  let baseSn := if twcc.nextBaseSn = 0 then twcc.sns.payload 0 else twcc.nextBaseSn
  let ts := twcc.tss (baseSn &&& 511)
  let referenceTime := (ts.tmod kTwccFbReferenceTimeDivisor).tdiv kTwccFbTimeMultiplier
  { twcc := { twcc with pktLen := kTwccFbPktHeaderSize, baseSn, referenceTime }
    chunk
    packetCount := 0
    lastTs := referenceTime * kTwccFbTimeMultiplier
    lastSn := baseSn }

/-- The packet as a whole, once its chunks and deltas are there. -/
def twccEncodePacket (twcc : RecvTwccFeedback) (packetCount : Nat) (buf : OutBuffer) :
    Err × RecvTwccFeedback × OutBuffer :=
  let words := if twcc.pktLen % 4 = 0 then twcc.pktLen / 4
    else (twcc.pktLen + 4 - twcc.pktLen % 4) / 4
  let twcc := { twcc with header := { twcc.header with length := words - 1 } }
  let (err, header, buf) := encodeHeaderRtcpHeader twcc.header twcc.ssrc buf
  let twcc := { twcc with header }
  if err ≠ yangOk then (err, twcc, buf)
  else
    let buf := writeTwccHead twcc packetCount buf
    let buf := twcc.encodedChucks.foldl OutBuffer.write2bytes buf
    let buf := twcc.pktDeltas.foldl writeDelta buf
    let padding := (4 - twcc.pktLen % 4) % 4
    let buf := buf.writeBytes (List.replicate padding 0)
    (yangOk, twccClear { twcc with pktLen := twcc.pktLen + padding }, buf)

/-- `chunk` is what the stack holds where the code's `chunk` lies, which nothing sets
before it is filled. -/
def twccRecvEncode (chunk : RtcpTWCCChunk) (twcc : RecvTwccFeedback) (buf : OutBuffer) :
    Err × RecvTwccFeedback × OutBuffer :=
  if !buf.require kMaxUDPDataSize then (errorRtcRtcp, twcc, buf)
  else
    let (err, s) := twccEncodeLoop ((buf.size : Int) - buf.pos) 0 twcc.sns.list
      (twccEncodeStart chunk twcc)
    if err ≠ yangOk then (err, s.twcc, buf)
    else
      let twcc := { s.twcc with nextBaseSn := 0 }
      let (err, twcc) :=
        if 0 < s.chunk.size then twccEncodeRemainingChunk twcc s.chunk else (yangOk, twcc)
      if err ≠ yangOk then (err, twcc, buf) else twccEncodePacket twcc s.packetCount buf

end MetaRtc
