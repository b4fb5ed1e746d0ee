import MetaRtc.Lib.Bytes
import MetaRtc.Lib.Exec
import Mathlib.Logic.Function.Basic

/-! # The transport stream muxer

A frame is wrapped into a PES, which is cut into packets. Before each frame come the two
tables that say which streams there are. -/
namespace MetaRtc

open Bytes Exec Function

def streamTypePrivateData : Nat := 0x06
def streamTypeAudioAac : Nat := 0x0f
def streamTypeAudioOpus : Nat := 0x12
def streamTypeVideoH264 : Nat := 0x1b
def streamTypeVideoHevc : Nat := 0x24
def pesAudioId : Nat := 0xc0
def pesVideoId : Nat := 0xe0
def yangH264Pid : Nat := 225
def yangH265Pid : Nat := 226
def yangAacPid : Nat := 192
def yangOpusPid : Nat := 193
def yangPrivatePid : Nat := 200
def mpegtsPatPid : Nat := 0x00
def mpegtsPmtPid : Nat := 0x100
def payloadOnly : Nat := 1
def payloadAdaptionBoth : Nat := 3
def patInterval : Nat := 50

inductive YangTsStream where
  | tsH264 | tsH265 | tsAac | tsOpus | tsPrivate
  deriving DecidableEq

/-- A buffer of 376 bytes, of which the first `curPos` have been written; the others are
whatever was there before. `fault` records a write past its end. -/
structure YangTsBuffer where
  data : Mem
  pos : Nat := 0
  curPos : Nat := 0
  fault : Bool := false

namespace YangTsBuffer

def new (junk : Mem) : YangTsBuffer := { data := junk }

def size (sb : YangTsBuffer) : Nat := sb.curPos

def writeBytes (sb : YangTsBuffer) (bytes : List UInt8) : YangTsBuffer :=
  { sb with
    data := sb.data.write sb.curPos bytes
    curPos := sb.curPos + bytes.length
    fault := sb.fault || decide (188 * 2 < sb.curPos + bytes.length) }

def skip (sb : YangTsBuffer) (size : Nat) : YangTsBuffer := { sb with pos := sb.pos + size }

/-- A write through the pointer to the data. -/
def poke (sb : YangTsBuffer) (p : Nat) (bytes : List UInt8) : YangTsBuffer :=
  { sb with data := sb.data.write p bytes }

def setData (sb : YangTsBuffer) (p : Nat) (bytes : List UInt8) : YangTsBuffer :=
  if p + bytes.length > sb.size then sb else sb.poke p bytes

end YangTsBuffer

/-- The fields of a packet's header that are not the same in all packets. -/
structure TsHeader where
  payloadUnitStartIndicator : Bool := false
  pid : Nat := 0
  adaptationFieldControl : Nat := 0
  continuityCounter : Nat := 0

def TsHeader.encode (header : TsHeader) : List UInt8 :=
  [0x47] ++ beBytes 2 (header.pid % 8192 + if header.payloadUnitStartIndicator then 0x4000 else 0) ++
    [UInt8.ofNat (header.continuityCounter % 16 + header.adaptationFieldControl % 4 * 16)]

structure AdaptationFieldHeader where
  adaptationFieldLength : Nat := 0
  pcrFlag : Nat := 0
  randomAccessIndicator : Nat := 0

def AdaptationFieldHeader.encode (field : AdaptationFieldHeader) : List UInt8 :=
  UInt8.ofNat field.adaptationFieldLength ::
    if field.adaptationFieldLength ≠ 0 then
      [UInt8.ofNat (field.pcrFlag % 2 * 0x10 + field.randomAccessIndicator % 2 * 0x40)]
    else []

/-- What the two tables begin with. -/
structure SectionHeader where
  tableId : Nat
  sectionSyntaxIndicator : Nat := 1
  b0 : Nat := 0
  reserved0 : Nat := 0x3
  sectionLength : Nat
  /-- The transport stream's id, or the program's number. -/
  id : Nat
  reserved1 : Nat := 0x3
  versionNumber : Nat := 0
  currentNextIndicator : Nat := 1
  sectionNumber : Nat := 0
  lastSectionNumber : Nat := 0

def SectionHeader.encode (header : SectionHeader) : List UInt8 :=
  [UInt8.ofNat header.tableId] ++
    beBytes 2 (header.sectionLength % 4096 + header.reserved0 % 4 * 0x1000 +
      header.b0 % 2 * 0x4000 + header.sectionSyntaxIndicator % 2 * 0x8000) ++
    beBytes 2 header.id ++
    [UInt8.ofNat (header.currentNextIndicator % 2 + header.versionNumber % 32 * 2 +
      header.reserved1 % 4 * 0x40)] ++
    [UInt8.ofNat header.sectionNumber] ++ [UInt8.ofNat header.lastSectionNumber]

structure PmtElementInfo where
  streamType : Nat
  reserved0 : Nat := 0x7
  elementaryPid : Nat
  reserved1 : Nat := 0xf
  esInfoLength : Nat := 0

def PmtElementInfo.encode (info : PmtElementInfo) : List UInt8 :=
  [UInt8.ofNat info.streamType] ++ beBytes 2 (info.elementaryPid % 8192 + info.reserved0 % 8 * 0x2000) ++
    beBytes 2 (info.esInfoLength % 4096 + info.reserved1 % 16 * 0x1000)

def PmtElementInfo.size (info : PmtElementInfo) : Nat := 5 + info.esInfoLength

/-- The map of the streams, by the stream type. -/
def streamPidMap : List (Nat × Nat) :=
  [(streamTypePrivateData, yangPrivatePid), (streamTypeAudioAac, yangAacPid),
    (streamTypeAudioOpus, yangOpusPid), (streamTypeVideoH264, yangH264Pid),
    (streamTypeVideoHevc, yangH265Pid)]

section Crc

/-- The table's entry: the remainder of the byte by the generator polynomial. -/
def crcTable (byte : Nat) : Nat :=
  (List.range 8).foldl (fun crc _ =>
    if 2 ^ 31 ≤ crc then (crc * 2 % 2 ^ 32) ^^^ 0x04c11db7 else crc * 2) (byte * 2 ^ 24)

def crc32 (data : List UInt8) : Nat :=
  data.foldl (fun crc byte =>
    (crc * 256 % 2 ^ 32) ^^^ crcTable ((crc / 2 ^ 24) ^^^ byte.toNat)) 0xffffffff

end Crc

/-- The bytes of a table with its checksum. The filling is as long as the table, and not as what
is left of the packet. -/
def finishTable (table : List UInt8) : List UInt8 :=
  let table := table ++ beBytes 4 (crc32 (table.drop 5))
  let suffLen := 188 - table.length
  table ++ (List.replicate suffLen 0xff).take (188 - suffLen)

def createPat (pmtPid cc : Nat) : List UInt8 :=
  let header : TsHeader := {
    payloadUnitStartIndicator := true
    pid := mpegtsPatPid
    adaptationFieldControl := payloadOnly
    continuityCounter := cc }
  let patHeader : SectionHeader := { tableId := 0x00, sectionLength := 4 + 4 + 5, id := 0 }
  finishTable (header.encode ++ AdaptationFieldHeader.encode {} ++ patHeader.encode ++
    beBytes 2 0x0001 ++ beBytes 2 (0xe000 + pmtPid % 8192))

def createPmt (pmtPid cc : Nat) : List UInt8 :=
  let header : TsHeader := {
    payloadUnitStartIndicator := true
    pid := pmtPid
    adaptationFieldControl := payloadOnly
    continuityCounter := cc }
  let infos : List PmtElementInfo := streamPidMap.map fun (streamType, elementaryPid) =>
    { streamType, elementaryPid }
  let size := 12 + (infos.map PmtElementInfo.size).sum
  let pmtHeader : SectionHeader := {
    tableId := 0x02
    sectionLength := (size - 3 + 4) % 1024
    id := 0x0001 }
  finishTable (header.encode ++ AdaptationFieldHeader.encode {} ++ pmtHeader.encode ++
    beBytes 2 (yangH264Pid % 8192 + 0x7 * 0x2000) ++ beBytes 2 (0xf * 0x1000) ++
    infos.flatMap PmtElementInfo.encode)

def writePcr (pcr : Nat) : List UInt8 :=
  [UInt8.ofNat (pcr / 2 ^ 25), UInt8.ofNat (pcr / 2 ^ 17), UInt8.ofNat (pcr / 2 ^ 9),
    UInt8.ofNat (pcr / 2), UInt8.ofNat (pcr % 2 * 128 + 0x7e), 0]

def writePts (fb pts : Nat) : List UInt8 :=
  [UInt8.ofNat (fb * 16 + pts / 2 ^ 30 % 8 * 2 + 1)] ++ beBytes 2 (pts / 2 ^ 15 % 2 ^ 15 * 2 + 1) ++
    beBytes 2 (pts % 2 ^ 15 * 2 + 1)

structure PesHeader where
  streamId : Nat
  pesPacketLength : Nat
  originalOrCopy : Nat := 0
  markerBits : Nat := 0x02
  ptsDtsFlags : Nat
  headerDataLength : Nat

def PesHeader.encode (header : PesHeader) : List UInt8 :=
  beBytes 4 (0x000001 * 256 + header.streamId % 256) ++ beBytes 2 header.pesPacketLength ++
    [UInt8.ofNat (header.originalOrCopy % 2 + header.markerBits % 4 * 0x40)] ++
    [UInt8.ofNat (header.ptsDtsFlags % 4 * 0x40)] ++ [UInt8.ofNat header.headerDataLength]

structure YangTsPes where
  data : List UInt8
  pts : Nat
  dts : Nat
  streamType : Nat
  pid : Nat

/-- A frame of user data keeps the time zero. -/
def createPes (p : List UInt8) (timestamp : Nat) (streamType : YangTsStream) : YangTsPes :=
  let (id, pid) := match streamType with
    | .tsH264 => (pesVideoId, yangH264Pid)
    | .tsH265 => (pesVideoId, yangH265Pid)
    | .tsAac => (pesAudioId, yangAacPid)
    | .tsOpus => (pesAudioId, yangOpusPid)
    | .tsPrivate => (streamTypePrivateData, yangPrivatePid)
  let pts := if streamType = .tsPrivate then 0 else timestamp
  let dts := pts
  let headerDataLength := if pts ≠ dts then 0x0a else 0x05
  let pesSize := headerDataLength + p.length + 3
  let header : PesHeader := {
    streamId := id
    originalOrCopy := 0x01
    ptsDtsFlags := if pts ≠ dts then 0x03 else 0x02
    headerDataLength
    pesPacketLength := if pesSize > 0xffff then 0 else pesSize }
  let times := if pts ≠ dts then writePts 3 pts ++ writePts 1 dts else writePts 2 pts
  { data := header.encode ++ times ++ p, pts, dts, streamType := id, pid }

/-- `pidCcMap` has the last counter given for each number it was asked for. -/
structure YangTsMuxer where
  pmtPid : Nat := mpegtsPmtPid
  currentIndex : Nat := 0
  pidCcMap : Nat → Option Nat := fun _ => none

def getCc (m : YangTsMuxer) (withPid : Nat) : Nat × YangTsMuxer :=
  let cc := match m.pidCcMap withPid with
    | some cc => (cc + 1) % 16
    | none => 0
  (cc, { m with pidCcMap := update m.pidCcMap withPid (some cc) })

/-- One packet of a PES from `pos` on, and how many of its bytes the packet takes. -/
def createTsPacket (frame : YangTsPes) (junk : Mem) (first : Bool) (cc pos : Nat) :
    YangTsBuffer × Nat :=
  let adapted := first && (frame.streamType == streamTypeVideoH264 ||
    frame.streamType == streamTypeVideoHevc)
  let control := if adapted then payloadAdaptionBoth else payloadOnly
  let header : TsHeader := {
    payloadUnitStartIndicator := first
    pid := frame.pid
    adaptationFieldControl := control
    continuityCounter := cc }
  let packet := (YangTsBuffer.new junk).writeBytes header.encode
  let packet :=
    if adapted then
      let field : AdaptationFieldHeader := {
        adaptationFieldLength := 0x07
        randomAccessIndicator := 0x01
        pcrFlag := 0x01 }
      (packet.writeBytes field.encode).writeBytes (writePcr frame.dts)
    else packet
  let start := packet.size
  let bodySize := 188 - start
  let packet := (packet.writeBytes (List.replicate bodySize 0)).skip start
  let inSize := frame.data.length - pos
  if bodySize ≤ inSize then (packet.setData start ((frame.data.drop pos).take bodySize), bodySize)
  else
    let stuffSize := bodySize - inSize
    let packet :=
      if control = payloadAdaptionBoth then
        let base := 5 + (packet.data 4).toNat
        let packet := packet.setData (base + stuffSize) (packet.data.slice base (packet.pos - base))
        let packet := (packet.poke base (List.replicate stuffSize 0xff)).skip stuffSize
        packet.poke 4 [packet.data 4 + UInt8.ofNat stuffSize]
      else
        let packet := packet.poke 3 [packet.data 3 ||| 0x20]
        let packet := packet.setData (188 - 4 - stuffSize) (packet.data.slice 4 (packet.pos - 4))
        let packet := (packet.skip stuffSize).poke 4 [UInt8.ofNat (stuffSize - 1)]
        if stuffSize ≥ 2 then (packet.poke 5 [0]).poke 6 (List.replicate (stuffSize - 2) 0xff)
        else packet
    (packet.setData packet.pos ((frame.data.drop pos).take inSize), inSize)

/-- Every packet takes some of the bytes, so their number bounds the passes. `junk i` is what the
`i`th new buffer holds. -/
def createTsLoop : Nat → YangTsPes → (Nat → Mem) → Bool → Nat → YangTsMuxer →
    List YangTsBuffer × YangTsMuxer
  | 0, _, _, _, _, m => ([], m)
  | fuel + 1, frame, junk, first, pos, m =>
    if pos < frame.data.length then
      let (cc, m) := getCc m frame.streamType
      let (packet, taken) := createTsPacket frame (junk 0) first cc pos
      let (packets, m) := createTsLoop fuel frame (fun i => junk (i + 1)) false (pos + taken) m
      (packet :: packets, m)
    else ([], m)

def createTs (m : YangTsMuxer) (frame : YangTsPes) (junk : Nat → Mem) (sb : List YangTsBuffer) :
    List YangTsBuffer × YangTsMuxer :=
  let (packets, m) := createTsLoop frame.data.length frame junk true 0 m
  (sb ++ packets, m)

/-- The tables go to the first two elements of the vector, whether these are the new ones or
not. -/
def encodePmtWithoutData (m : YangTsMuxer) (junk : Nat → Mem) (sb : List YangTsBuffer) :
    List YangTsBuffer × YangTsMuxer :=
  let m := { m with currentIndex := 0 }
  let sb := sb ++ [YangTsBuffer.new (junk 0)]
  let (cc, m) := getCc m 0
  let sb := sb.modify 0 (·.writeBytes (createPat m.pmtPid cc))
  let sb := sb ++ [YangTsBuffer.new (junk 1)]
  (sb.modify 1 (·.writeBytes (createPmt m.pmtPid cc)), m)

def shouldCreatePat (m : YangTsMuxer) : Bool × YangTsMuxer :=
  if m.currentIndex % patInterval = 0 then (true, { m with currentIndex := 0 + 1 })
  else (false, { m with currentIndex := m.currentIndex + 1 })

/-- The frame is copied to memory of its own, with twenty bytes to spare. -/
def encodeFrame (m : YangTsMuxer) (junk : Nat → Mem) (p : List UInt8) (timestamp : Nat)
    (streamType : YangTsStream) (sb : List YangTsBuffer) : Call (List YangTsBuffer × YangTsMuxer) :=
  if 2 ^ 31 ≤ p.length + 20 then .crash
  else .ret (createTs m (createPes p timestamp streamType) junk sb)

def encode (m : YangTsMuxer) (junk : Nat → Mem) (p : List UInt8) (timestamp : Nat)
    (streamType : YangTsStream) (sb : List YangTsBuffer) : Call (List YangTsBuffer × YangTsMuxer) :=
  let (tables, m) := shouldCreatePat m
  let (sb, m) := if tables then encodePmtWithoutData m junk sb else (sb, m)
  encodeFrame m (fun i => junk (i + 2)) p timestamp streamType sb

def encodeWithPmt (m : YangTsMuxer) (junk : Nat → Mem) (p : List UInt8) (timestamp : Nat)
    (streamType : YangTsStream) (sb : List YangTsBuffer) : Call (List YangTsBuffer × YangTsMuxer) :=
  let (sb, m) := encodePmtWithoutData m junk sb
  encodeFrame m (fun i => junk (i + 2)) p timestamp streamType sb

end MetaRtc
