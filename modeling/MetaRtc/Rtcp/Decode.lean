import MetaRtc.Rtcp.Packet
import MetaRtc.Lib.Loop

/-! # The RTCP sub-packet decoders and the compound loop over them -/
namespace MetaRtc

open Bytes

/-- The four bytes at the head as a packet header. -/
def YangBuffer.hdr (buf : YangBuffer) : RtcpHeader :=
  let b0 := (buf.data buf.head).toNat
  { rc := b0 % 32
    padding := b0 / 32 % 2
    version := b0 / 64
    type := (buf.data (buf.head + 1)).toNat
    length := buf.data.be (buf.head + 2) 2 }

structure Decoded where
  err : Err
  comm : RtcpCommon
  buf : YangBuffer

def decodeHeaderRtcpCommon (comm : RtcpCommon) (buf : YangBuffer) : Decoded :=
  if !buf.require 8 then ⟨errorRtcRtcp, comm, buf⟩
  else
    let comm := { comm with header := buf.hdr }
    let buf := buf.take 4
    let payloadLen : Int := (comm.header.length : Int) * 4
    if payloadLen > buf.left then ⟨errorRtcRtcp, comm, buf⟩
    else
      let (ssrc, buf) := buf.read4bytes
      ⟨yangOk, { comm with ssrc }, buf⟩

def decodeRtcpCommon (comm : RtcpCommon) (buf : YangBuffer) : Decoded :=
  decodeHeaderRtcpCommon comm buf

/-- The lines every other decoder starts with. -/
def decodeStart (comm : RtcpCommon) (buf : YangBuffer) : Decoded :=
  decodeHeaderRtcpCommon { comm with data := some buf.head, nbData := buf.left } buf

def decodeRtcpSR (comm : RtcpCommon) (buf : YangBuffer) : Decoded :=
  let d := decodeStart comm buf
  if d.err ≠ yangOk then d
  else
    let (ntp, buf) := d.buf.read8bytes
    let (rtpTs, buf) := buf.read4bytes
    let (sendRtpPackets, buf) := buf.read4bytes
    let (sendRtpBytes, buf) := buf.read4bytes
    let comm := { d.comm with
      sr := d.comm.sr.map fun _ => { ntp, rtpTs, sendRtpPackets, sendRtpBytes } }
    let rest : Nat := comm.header.rc * 24
    let buf := if comm.header.rc > 0 then (buf.readBytes rest 1500).2 else buf
    ⟨yangOk, comm, buf⟩

def decodeRtcpRR (comm : RtcpCommon) (buf : YangBuffer) : Decoded :=
  if comm.rb.isNone then ⟨1, comm, buf⟩
  else
    let d := decodeStart comm buf
    if d.err ≠ yangOk then d
    else if d.comm.header.rc = 0 then { d with err := errorRtcRtcpEmptyRR }
    else
      let (ssrc, buf) := d.buf.read4bytes
      let (fractionLost, buf) := buf.read1bytes
      let (lostPackets, buf) := buf.read3bytes
      let (highestSn, buf) := buf.read4bytes
      let (jitter, buf) := buf.read4bytes
      let (lsr, buf) := buf.read4bytes
      let (dlsr, buf) := buf.read4bytes
      let comm := { d.comm with
        rb := some { ssrc, fractionLost, lostPackets, highestSn, jitter, lsr, dlsr } }
      let rest : Nat := (comm.header.rc - 1) * 24
      let buf := if comm.header.rc > 1 then (buf.readBytes rest 1500).2 else buf
      ⟨yangOk, comm, buf⟩

/-- The array grows by moving to a larger block, so the number of blocks stays. -/
def rtcpNackAddSn (nack : RtcpNack) (sn : Nat) : RtcpNack :=
  { nack with
    capacity := if nack.nacks.length ≥ nack.capacity - 1 then nack.capacity + 50 else nack.capacity
    nacks := insertUint16Sort nack.nacks sn }

/-- The sequence numbers of one entry: its `pid` and one for each bit of its `blp`. -/
def nackEntry (nack : RtcpNack) (pid blp : Nat) : RtcpNack :=
  (List.range 16).foldl
    (fun nack j => if blp.testBit j then rtcpNackAddSn nack ((pid + j + 1) % 65536) else nack)
    (rtcpNackAddSn nack pid)

def decodeNackEntries : Nat → RtcpNack → YangBuffer → RtcpNack × YangBuffer
  | 0, nack, buf => (nack, buf)
  | n + 1, nack, buf =>
    let (pid, buf) := buf.read2bytes
    let (blp, buf) := buf.read2bytes
    decodeNackEntries n (nackEntry nack pid blp) buf

def decodeRtcpNack (comm : RtcpCommon) (buf : YangBuffer) : Decoded :=
  let d := decodeStart comm buf
  if d.err ≠ yangOk then d
  else
    let (mediaSsrc, buf) := d.buf.read4bytes
    let nack := { d.comm.nack.getD {} with mediaSsrc }
    let (nack, buf) := decodeNackEntries ((d.comm.header.length : Int) - 2).toNat nack buf
    ⟨yangOk, { d.comm with nack := d.comm.nack.map fun _ => nack }, buf⟩

def twccRtcpDecode (comm : RtcpCommon) (buf : YangBuffer) : Decoded :=
  let d := decodeStart comm buf
  if d.err ≠ yangOk then d
  else
    let payloadLen : Int := ((d.comm.header.length : Int) + 1) * 4 - 4 - 4
    let (payload, buf) := d.buf.readBytes payloadLen 1500
    ⟨yangOk, { d.comm with payloadLen, payload }, buf⟩

def decodeRtcpPli (comm : RtcpCommon) (buf : YangBuffer) : Decoded :=
  let d := decodeStart comm buf
  if d.err ≠ yangOk then d
  else
    let (mediaSsrc, buf) := d.buf.read4bytes
    ⟨yangOk, { d.comm with mediaSsrc }, buf⟩

def decodeRtcpRpsi (comm : RtcpCommon) (buf : YangBuffer) : Decoded :=
  let d := decodeStart comm buf
  if d.err ≠ yangOk then d
  else
    let (mediaSsrc, buf) := d.buf.read4bytes
    let len : Int := ((d.comm.header.length : Int) + 1) * 4 - 12
    ⟨yangOk, { d.comm with rpsi := d.comm.rpsi.map fun rpsi => { rpsi with mediaSsrc } },
      buf.skip len⟩

def decodeRtcpPsfb (comm : RtcpCommon) (buf : YangBuffer) : Decoded :=
  let d := decodeStart comm buf
  if d.err ≠ yangOk then d
  else
    let (mediaSsrc, buf) := d.buf.read4bytes
    let len : Int := ((d.comm.header.length : Int) + 1) * 4 - 12
    ⟨yangOk, { d.comm with mediaSsrc }, buf.skip len⟩

def decodeRtcpXr (comm : RtcpCommon) (buf : YangBuffer) : Decoded :=
  let d := decodeStart comm buf
  if d.err ≠ yangOk then d
  else
    let len : Int := ((d.comm.header.length : Int) + 1) * 4 - 8
    { d with buf := d.buf.skip len }

/-- One pass of the loop up to its error test: the packet is created and decoded as
the header at the head says, which is looked at before anything is required of the
buffer. The results of the NACK, TWCC and RPSI decoders are dropped. `enableTwcc` is
the build's `Yang_Enable_TWCC`. -/
def decodeSubPacket (enableTwcc : Bool) (buf : YangBuffer) (heap : Heap) : Decoded × Heap :=
  let rtcp : RtcpCommon := {}
  let heap := heap.alloc .rtcp
  let header := buf.hdr
  let buf := buf.touch 2
  if header.type = RtcpType.sr then
    let (rtcp, heap) := createRtcpSR rtcp heap
    (decodeRtcpSR rtcp buf, heap)
  else if header.type = RtcpType.rr then
    let (rtcp, heap) := createRtcpRR rtcp heap
    (decodeRtcpRR rtcp buf, heap)
  else if header.type = RtcpType.rtpfb then
    if 1 = header.rc then
      let (rtcp, heap) := createRtcpNack rtcp 0 heap
      ({ decodeRtcpNack rtcp buf with err := yangOk }, heap)
    else if 15 = header.rc then
      if enableTwcc then
        let (rtcp, heap) := createRtcptwcc rtcp heap
        ({ twccRtcpDecode rtcp buf with err := yangOk }, heap)
      else (⟨yangOk, rtcp, buf⟩, heap)
    else (⟨yangOk, rtcp, buf⟩, heap)
  else if header.type = RtcpType.psfb then
    if 1 = header.rc then (decodeRtcpPli (createRtcpPli rtcp) buf, heap)
    else if 2 = header.rc then (⟨yangOk, rtcp, buf⟩, heap)
    else if 3 = header.rc then
      let (rtcp, heap) := createRtcpRpsi rtcp heap
      ({ decodeRtcpRpsi rtcp buf with err := yangOk }, heap)
    else (decodeRtcpPsfb (createRtcpPsfb rtcp) buf, heap)
  else if header.type = RtcpType.xr then (decodeRtcpXr (createRtcpXr rtcp) buf, heap)
  else (decodeRtcpCommon (createRtcpCommon rtcp) buf, heap)

structure DecodeState where
  rtcps : RtcpCompound
  buf : YangBuffer
  heap : Heap

/-- One pass of `yang_decode_rtcpCompound`. Whatever the outcome, `yang_free(rtcp)`
gives back the packet alone. -/
def decodePass (enableTwcc : Bool) (s : DecodeState) :
    Loop.Outcome DecodeState (Err × DecodeState) :=
  if s.buf.empty then .done (yangOk, s)
  else
    let (d, heap) := decodeSubPacket enableTwcc s.buf s.heap
    let heap := heap.free .rtcp
    if d.err ≠ yangOk then
      let s := { s with buf := d.buf, heap }
      if d.err = errorRtcRtcpEmptyRR then .next s else .done (d.err, s)
    else .next ⟨rtcpCompoundAddRtcp s.rtcps d.comm, d.buf, heap⟩

/-- The loop, given up after more passes than there are bytes. -/
def decodeRtcpCompound (enableTwcc : Bool) (s : DecodeState) : Option (Err × DecodeState) :=
  Loop.run (decodePass enableTwcc) (s.buf.size - s.buf.head + 1) s

end MetaRtc
