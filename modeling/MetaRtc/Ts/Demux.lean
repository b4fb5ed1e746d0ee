import MetaRtc.Lib.Bytes
import MetaRtc.Lib.Exec
import Mathlib.Logic.Function.Basic

/-! # The transport stream demuxer

The bytes of a PES are collected by the PID of its packets and handed on when the next one
begins, of whichever PID. -/
namespace MetaRtc

open Bytes Exec Function

structure PidInfo where
  programNumber : Nat
  pid : Option Nat
  deriving DecidableEq

/-- What the callback is given. -/
structure TsDelivery where
  data : List UInt8
  mediaType : Nat
  dts : Nat
  pts : Nat
  deriving DecidableEq

/-- `pidVec` comes from the last association table and `streamPidVec` from the last map table.
`delivered` is all that the callback has been given. -/
structure TsDemux where
  pidVec : List PidInfo := []
  streamPidVec : List Nat := []
  dataBufferMap : Nat → List (List UInt8) := fun _ => []
  lastPid : Nat := 0
  lastDts : Nat := 0
  lastPts : Nat := 0
  delivered : List TsDelivery := []

/-- The header of a packet, with where its fields end and where the adaptation field says that
the payload begins. -/
structure TsUnit where
  payloadUnitStartIndicator : Bool
  pid : Nat
  adaptationFieldControl : Nat
  pos : Nat
  npos : Nat
  deriving DecidableEq

section Header

variable (data : Mem)

def bit (b : UInt8) (n : Nat) : Bool := b.toNat / 2 ^ n % 2 == 1

/-- The fields of an adaptation field whose flags are at `pos`. -/
def adaptationFieldEnd (pos : Nat) : Nat :=
  let flags := data pos
  let pos := pos + 1
  let pos := if bit flags 4 then pos + 6 else pos
  let pos := if bit flags 3 then pos + 6 else pos
  let pos := if bit flags 2 then pos + 1 else pos
  let pos := if bit flags 1 then pos + 1 else pos
  if bit flags 0 then
    let extension := data (pos + 1)
    let pos := pos + 2
    let pos := if bit extension 7 then pos + 2 else pos
    let pos := if bit extension 6 then pos + 3 else pos
    if bit extension 5 then pos + 5 else pos
  else pos

def decodeTsHeader : TsUnit :=
  let adaptationFieldControl := (data 3).toNat / 16 % 4
  let length := (data 4).toNat
  let adapted := adaptationFieldControl == 2 || adaptationFieldControl == 3
  { payloadUnitStartIndicator := bit (data 1) 6
    pid := data.be 1 2 % 8192
    adaptationFieldControl
    pos := if adapted then if length > 0 then adaptationFieldEnd data 5 else 5 else 4
    npos := if adapted then 4 + 1 + length else 4 }

end Header

section Tables

variable (data : Mem)

/-- Each entry moves the position, so the limit bounds the passes. -/
def patEntries : Nat → Nat → Nat → List PidInfo
  | 0, _, _ => []
  | fuel + 1, pos, limit =>
    if pos + 4 ≤ limit then
      let programNumber := data.be pos 2
      let pid := data.be (pos + 2) 2 % 8192
      { programNumber, pid := if programNumber = 0 then none else some pid } ::
        patEntries fuel (pos + 4) limit
    else []

def decodePat (unit : TsUnit) : List PidInfo :=
  let pos := if unit.payloadUnitStartIndicator then unit.pos + 1 else unit.pos
  let sectionLength := data.be (pos + 1) 2 % 4096
  let limit := sectionLength + unit.npos
  patEntries data limit (pos + 8) limit

def skipDescriptors : Nat → Nat → Nat → Nat
  | 0, pos, _ => pos
  | fuel + 1, pos, limit =>
    if pos < limit then skipDescriptors fuel (pos + 2 + (data (pos + 1)).toNat) limit else pos

def pmtEntries : Nat → Nat → Nat → List Nat
  | 0, _, _ => []
  | fuel + 1, pos, limit =>
    if pos + 5 ≤ limit then
      let elementaryPid := data.be (pos + 1) 2 % 8192
      let esInfoLength := data.be (pos + 3) 2 % 4096
      let pos := pos + 5
      if pos + esInfoLength > limit then []
      else
        elementaryPid ::
          pmtEntries fuel (skipDescriptors data esInfoLength pos (pos + esInfoLength)) limit
    else []

def decodePmt (unit : TsUnit) : List Nat :=
  let pos := if unit.payloadUnitStartIndicator then unit.pos + 1 else unit.pos
  let sectionLength := data.be (pos + 1) 2 % 4096
  let programInfoLength := data.be (pos + 10) 2 % 4096
  let limit := sectionLength + unit.npos
  pmtEntries data limit (pos + 12 + programInfoLength) limit

end Tables

section Pes

variable (p : Mem)

/-- The parts of a time are put together as numbers of 32 bits, and the sum is then taken for a
signed one. -/
def pesTime (pos : Nat) : Nat :=
  let time := ((p pos).toNat / 2 % 8 * 2 ^ 30 + (p (pos + 1)).toNat * 2 ^ 22 +
    (p (pos + 2)).toNat / 2 % 128 * 2 ^ 15 + (p (pos + 3)).toNat * 2 ^ 7 +
    (p (pos + 4)).toNat / 2 % 128) % 2 ^ 32
  if time < 2 ^ 31 then time else time + (2 ^ 64 - 2 ^ 32)

def pesExtensionEnd (pos : Nat) : Nat :=
  let flags := p pos
  let pos := pos + 1
  let pos := if bit flags 7 then pos + 16 else pos
  let pos := if bit flags 5 then pos + 2 else pos
  let pos := if bit flags 4 then pos + 2 else pos
  if bit flags 0 then pos + 1 + (p pos).toNat % 128 else pos

structure PesStart where
  pos : Nat
  pesPacketLength : Nat
  pts : Nat := 0
  dts : Nat := 0
  deriving DecidableEq

def pesWithoutHeader : List Nat := [188, 190, 191, 240, 241, 255, 242, 248]

def pesParse : PesStart :=
  let streamId := (p 3).toNat
  let pesPacketLength := p.be 4 2
  if streamId ∈ pesWithoutHeader then { pos := 6, pesPacketLength }
  else
    let flags := p 7
    let ptsDtsFlags := flags.toNat / 64
    let pts := if ptsDtsFlags = 2 ∨ ptsDtsFlags = 3 then pesTime p 9 else 0
    let dts := if ptsDtsFlags = 3 then pesTime p 14 else 0
    let pos := 9
    let pos := if ptsDtsFlags = 2 then pos + 5 else if ptsDtsFlags = 3 then pos + 10 else pos
    let pos := if bit flags 5 then pos + 6 else pos
    let pos := if bit flags 4 then pos + 3 else pos
    let pos := if bit flags 3 then pos + 1 else pos
    let pos := if bit flags 2 then pos + 1 else pos
    let pos := if bit flags 1 then pos + 2 else pos
    let pos := if bit flags 0 then pesExtensionEnd p pos else pos
    { pos, pesPacketLength, pts, dts }

end Pes

def insertIntoDatabuf (d : TsDemux) (bytes : List UInt8) (pid : Nat) : TsDemux :=
  { d with
    lastPid := pid
    dataBufferMap := update d.dataBufferMap pid (d.dataBufferMap pid ++ [bytes]) }

/-- The bytes collected for the PID are counted by a signed number of 32 bits. -/
def onCallback (d : TsDemux) (pid dts pts : Nat) : Call TsDemux :=
  let data := (d.dataBufferMap pid).flatten
  let emptied := { d with dataBufferMap := update d.dataBufferMap pid [] }
  if 2 ^ 31 ≤ data.length then .crash
  else if data.length > 0 then
    .ret { emptied with delivered := d.delivered ++ [⟨data, pid, dts, pts⟩] }
  else .ret emptied

/-- A packet of a stream. The first result is whether the call goes on. Where the header reaches
past the packet, the length of what is left of it is a huge number. -/
def decodePesPacket (d : TsDemux) (data : Mem) (unit : TsUnit) : Call (Bool × TsDemux) :=
  if unit.payloadUnitStartIndicator then do
    let d ← onCallback d d.lastPid d.lastDts d.lastPts
    let pes := pesParse fun i => data (unit.npos + i)
    if pes.pos > 188 then return (false, d)
    else
      let d := { d with lastPts := pes.pts, lastDts := if pes.dts = 0 then pes.pts else pes.dts }
      if unit.npos + pes.pos > 188 then .crash
      else if unit.npos + pes.pos < 188 then
        let bytes := data.slice (unit.npos + pes.pos) (188 - (unit.npos + pes.pos))
        let d := insertIntoDatabuf d bytes unit.pid
        if pes.pesPacketLength + unit.npos ≤ 188 then
          let d ← onCallback d d.lastPid d.lastDts d.lastPts
          return (true, d)
        else return (true, d)
      else return (true, d)
  else if unit.npos > 188 then .crash
  else return (true, insertIntoDatabuf d (data.slice unit.npos (188 - unit.npos)) unit.pid)

/-- Once for each entry of the map table that has the packet's PID. -/
def decodeStreams (data : Mem) (unit : TsUnit) : List Nat → TsDemux → Call (Bool × TsDemux)
  | [], d => .ret (true, d)
  | elementaryPid :: rest, d =>
    if unit.pid = elementaryPid then do
      let (ok, d) ← decodePesPacket d data unit
      if ok then decodeStreams data unit rest d else return (false, d)
    else decodeStreams data unit rest d

def isPmt (d : TsDemux) (pid : Nat) : Bool :=
  d.pidVec.any fun info => info.programNumber != 0 && info.pid == some pid

def decodeUnit (d : TsDemux) (data : Mem) : Call (Bool × TsDemux) :=
  let unit := decodeTsHeader data
  if unit.adaptationFieldControl = 1 ∨ unit.adaptationFieldControl = 3 then
    if unit.pid = 0x00 then .ret (true, { d with pidVec := decodePat data unit })
    else if unit.pid = 0x01 ∨ unit.pid = 0x02 ∨ unit.pid = 0x03 ∨ unit.pid = 0x11 then .ret (true, d)
    else if isPmt d unit.pid then .ret (true, { d with streamPidVec := decodePmt data unit })
    else if unit.pid = 0x0042 ∨ unit.pid = 0x1FFF then .ret (true, d)
    else decodeStreams data unit d.streamPidVec d
  else .ret (true, d)

/-- The packets one after the other, till one is refused. Those without the sync byte are passed
over. -/
def tsDecode (d : TsDemux) : List Mem → Call TsDemux
  | [] => .ret d
  | data :: rest =>
    if data 0 ≠ 0x47 then tsDecode d rest
    else do
      let (ok, d) ← decodeUnit d data
      if ok then tsDecode d rest else return d

end MetaRtc
