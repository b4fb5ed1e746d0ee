import MetaRtc.Ts.Times

/-! # The headers, written and read

Each field has the number of bits that the header says it has. Reading is into an object just
constructed. -/
namespace MetaRtc.TsPacket

open Bytes Exec

structure TsHeader where
  syncByte : BitVec 8 := 0x47
  transportErrorIndicator : BitVec 1 := 0
  payloadUnitStartIndicator : BitVec 1 := 0
  transportPriority : BitVec 1 := 0
  pid : BitVec 13 := 0
  transportScramblingControl : BitVec 2 := 0
  adaptationFieldControl : BitVec 2 := 0
  continuityCounter : BitVec 4 := 0
  deriving DecidableEq

namespace TsHeader

def encode (header : TsHeader) : List UInt8 :=
  beBytes 1 header.syncByte.toNat ++
    (beBytes 2 (header.pid.toNat + header.transportPriority.toNat * 0x2000 +
      header.payloadUnitStartIndicator.toNat * 0x4000 +
      header.transportErrorIndicator.toNat * 0x8000) ++
    beBytes 1 (header.continuityCounter.toNat + header.adaptationFieldControl.toNat * 0x10 +
      header.transportScramblingControl.toNat * 0x40))

/-- The bit of the priority is put where the error's bit is put after it. -/
def decode (header : TsHeader) (sb : YangTsBuffer) : Call (TsHeader × YangTsBuffer) := do
  let (syncByte, sb) ← sb.read1byte
  let header := { header with syncByte := .ofNat 8 syncByte }
  let (b1b2, sb) ← sb.read2bytes
  let header := { header with
    pid := .ofNat 13 b1b2
    transportErrorIndicator := .ofNat 1 (b1b2 / 0x2000) }
  let header := { header with payloadUnitStartIndicator := .ofNat 1 (b1b2 / 0x4000) }
  let header := { header with transportErrorIndicator := .ofNat 1 (b1b2 / 0x8000) }
  let (b3, sb) ← sb.read1byte
  return ({ header with
    continuityCounter := .ofNat 4 b3
    adaptationFieldControl := .ofNat 2 (b3 / 0x10)
    transportScramblingControl := .ofNat 2 (b3 / 0x40) }, sb)

end TsHeader

structure PatHeader where
  tableId : BitVec 8 := 0
  sectionSyntaxIndicator : BitVec 1 := 0
  b0 : BitVec 1 := 0
  reserved0 : BitVec 2 := 0
  sectionLength : BitVec 12 := 0
  transportStreamId : BitVec 16 := 0
  reserved1 : BitVec 2 := 0
  versionNumber : BitVec 5 := 0
  currentNextIndicator : BitVec 1 := 0
  sectionNumber : BitVec 8 := 0
  lastSectionNumber : BitVec 8 := 0
  deriving DecidableEq

namespace PatHeader

def encode (header : PatHeader) : List UInt8 :=
  beBytes 1 header.tableId.toNat ++
    (beBytes 2 (header.sectionLength.toNat + header.reserved0.toNat * 0x1000 +
      header.b0.toNat * 0x4000 + header.sectionSyntaxIndicator.toNat * 0x8000) ++
    (beBytes 2 header.transportStreamId.toNat ++
    (beBytes 1 (header.currentNextIndicator.toNat + header.versionNumber.toNat * 2 +
      header.reserved1.toNat * 0x40) ++
    (beBytes 1 header.sectionNumber.toNat ++ beBytes 1 header.lastSectionNumber.toNat))))

/-- The first of the reserved fields is not read. -/
def decode (header : PatHeader) (sb : YangTsBuffer) : Call (PatHeader × YangTsBuffer) := do
  let (tableId, sb) ← sb.read1byte
  let (b1b2, sb) ← sb.read2bytes
  let (transportStreamId, sb) ← sb.read2bytes
  let (b5, sb) ← sb.read1byte
  let (sectionNumber, sb) ← sb.read1byte
  let (lastSectionNumber, sb) ← sb.read1byte
  return ({ header with
    tableId := .ofNat 8 tableId
    sectionSyntaxIndicator := .ofNat 1 (b1b2 / 0x8000)
    b0 := .ofNat 1 (b1b2 / 0x4000)
    sectionLength := .ofNat 12 b1b2
    transportStreamId := .ofNat 16 transportStreamId
    reserved1 := .ofNat 2 (b5 / 0x40)
    versionNumber := .ofNat 5 (b5 / 2)
    currentNextIndicator := .ofNat 1 b5
    sectionNumber := .ofNat 8 sectionNumber
    lastSectionNumber := .ofNat 8 lastSectionNumber }, sb)

end PatHeader

structure PmtElementInfo where
  streamType : BitVec 8 := 0
  reserved0 : BitVec 3 := 0x7
  elementaryPid : BitVec 13 := 0
  reserved1 : BitVec 4 := 0xf
  esInfoLength : BitVec 12 := 0
  esInfo : List UInt8 := []
  deriving DecidableEq

namespace PmtElementInfo

/-- The description is still to be written. -/
def encode (info : PmtElementInfo) : List UInt8 :=
  beBytes 1 info.streamType.toNat ++
    (beBytes 2 (info.elementaryPid.toNat + info.reserved0.toNat * 0x2000) ++
    beBytes 2 (info.esInfoLength.toNat + info.reserved1.toNat * 0x1000))

def decode (info : PmtElementInfo) (sb : YangTsBuffer) : Call (PmtElementInfo × YangTsBuffer) := do
  let (streamType, sb) ← sb.read1byte
  let (b1b2, sb) ← sb.read2bytes
  let (b3b4, sb) ← sb.read2bytes
  let info := { info with
    streamType := .ofNat 8 streamType
    reserved0 := .ofNat 3 (b1b2 / 0x2000)
    elementaryPid := .ofNat 13 b1b2
    reserved1 := .ofNat 4 (b3b4 / 0x1000)
    esInfoLength := .ofNat 12 b3b4 }
  if info.esInfoLength.toNat > 0 then
    let (esInfo, sb) ← sb.readString info.esInfoLength.toNat
    return ({ info with esInfo }, sb)
  else return (info, sb)

def size (info : PmtElementInfo) : Nat := 5 + info.esInfoLength.toNat

end PmtElementInfo

structure PmtHeader where
  tableId : BitVec 8 := 0x02
  sectionSyntaxIndicator : BitVec 1 := 0
  b0 : BitVec 1 := 0
  reserved0 : BitVec 2 := 0
  sectionLength : BitVec 12 := 0
  programNumber : BitVec 16 := 0
  reserved1 : BitVec 2 := 0
  versionNumber : BitVec 5 := 0
  currentNextIndicator : BitVec 1 := 0
  sectionNumber : BitVec 8 := 0
  lastSectionNumber : BitVec 8 := 0
  reserved2 : BitVec 3 := 0
  pcrPid : BitVec 13 := 0
  reserved3 : BitVec 4 := 0
  programInfoLength : BitVec 12 := 0
  infos : List PmtElementInfo := []
  deriving DecidableEq

namespace PmtHeader

def encode (header : PmtHeader) : List UInt8 :=
  beBytes 1 header.tableId.toNat ++
    (beBytes 2 (header.sectionLength.toNat + header.reserved0.toNat * 0x1000 +
      header.b0.toNat * 0x4000 + header.sectionSyntaxIndicator.toNat * 0x8000) ++
    (beBytes 2 header.programNumber.toNat ++
    (beBytes 1 (header.currentNextIndicator.toNat + header.versionNumber.toNat * 2 +
      header.reserved1.toNat * 0x40) ++
    (beBytes 1 header.sectionNumber.toNat ++
    (beBytes 1 header.lastSectionNumber.toNat ++
    (beBytes 2 (header.pcrPid.toNat + header.reserved2.toNat * 0x2000) ++
    (beBytes 2 (header.programInfoLength.toNat + header.reserved3.toNat * 0x1000) ++
    header.infos.flatMap PmtElementInfo.encode)))))))

/-- Every element takes some of the bytes that remain, so their number bounds the passes. -/
def decodeInfos : Nat → Nat → YangTsBuffer → Call (List PmtElementInfo × YangTsBuffer)
  | 0, _, sb => .ret ([], sb)
  | fuel + 1, remainBytes, sb =>
    if remainBytes > 0 then do
      let (elementInfo, sb) ← PmtElementInfo.decode {} sb
      let (infos, sb) ← decodeInfos fuel (remainBytes - elementInfo.size) sb
      return (elementInfo :: infos, sb)
    else .ret ([], sb)

def decodeFields (header : PmtHeader) (sb : YangTsBuffer) : Call (PmtHeader × YangTsBuffer) := do
  let (tableId, sb) ← sb.read1byte
  let (b1b2, sb) ← sb.read2bytes
  let (programNumber, sb) ← sb.read2bytes
  let (b5, sb) ← sb.read1byte
  let (sectionNumber, sb) ← sb.read1byte
  let (lastSectionNumber, sb) ← sb.read1byte
  let (b8b9, sb) ← sb.read2bytes
  let (b10b11, sb) ← sb.read2bytes
  return ({ header with
    tableId := .ofNat 8 tableId
    sectionSyntaxIndicator := .ofNat 1 (b1b2 / 0x8000)
    b0 := .ofNat 1 (b1b2 / 0x4000)
    reserved0 := .ofNat 2 (b1b2 / 0x1000)
    sectionLength := .ofNat 12 b1b2
    programNumber := .ofNat 16 programNumber
    reserved1 := .ofNat 2 (b5 / 0x40)
    versionNumber := .ofNat 5 (b5 / 2)
    currentNextIndicator := .ofNat 1 b5
    sectionNumber := .ofNat 8 sectionNumber
    lastSectionNumber := .ofNat 8 lastSectionNumber
    reserved2 := .ofNat 3 (b8b9 / 0x2000)
    pcrPid := .ofNat 13 b8b9
    reserved3 := .ofNat 4 (b10b11 / 0x1000)
    programInfoLength := .ofNat 12 b10b11 }, sb)

/-- The program's description is read and dropped. -/
def skipProgramInfo (header : PmtHeader) (sb : YangTsBuffer) : Call YangTsBuffer :=
  if header.programInfoLength.toNat > 0 then do
    let (_, sb) ← sb.readString header.programInfoLength.toNat
    return sb
  else .ret sb

/-- What remains is a signed number, of which only is asked whether it is above zero. -/
def decode (header : PmtHeader) (sb : YangTsBuffer) : Call (PmtHeader × YangTsBuffer) := do
  let (header, sb) ← header.decodeFields sb
  let sb ← header.skipProgramInfo sb
  let remainBytes := header.sectionLength.toNat - 4 - 9 - header.programInfoLength.toNat
  let (infos, sb) ← decodeInfos remainBytes remainBytes sb
  return ({ header with infos := header.infos ++ infos }, sb)

def size (header : PmtHeader) : Nat :=
  (12 + (header.infos.map PmtElementInfo.size).sum) % 2 ^ 16

end PmtHeader

structure AdaptationFieldHeader where
  adaptationFieldLength : BitVec 8 := 0
  adaptationFieldExtensionFlag : BitVec 1 := 0
  transportPrivateDataFlag : BitVec 1 := 0
  splicingPointFlag : BitVec 1 := 0
  opcrFlag : BitVec 1 := 0
  pcrFlag : BitVec 1 := 0
  elementaryStreamPriorityIndicator : BitVec 1 := 0
  randomAccessIndicator : BitVec 1 := 0
  discontinuityIndicator : BitVec 1 := 0
  deriving DecidableEq

namespace AdaptationFieldHeader

def flags (header : AdaptationFieldHeader) : Nat :=
  header.adaptationFieldExtensionFlag.toNat + header.transportPrivateDataFlag.toNat * 2 +
    header.splicingPointFlag.toNat * 4 + header.opcrFlag.toNat * 8 + header.pcrFlag.toNat * 0x10 +
    header.elementaryStreamPriorityIndicator.toNat * 0x20 +
    header.randomAccessIndicator.toNat * 0x40 + header.discontinuityIndicator.toNat * 0x80

def encode (header : AdaptationFieldHeader) : List UInt8 :=
  beBytes 1 header.adaptationFieldLength.toNat ++
    if header.adaptationFieldLength.toNat ≠ 0 then beBytes 1 header.flags else []

def decode (header : AdaptationFieldHeader) (sb : YangTsBuffer) :
    Call (AdaptationFieldHeader × YangTsBuffer) := do
  let (adaptationFieldLength, sb) ← sb.read1byte
  let header := { header with adaptationFieldLength := .ofNat 8 adaptationFieldLength }
  if header.adaptationFieldLength.toNat ≠ 0 then
    let (val, sb) ← sb.read1byte
    return ({ header with
      adaptationFieldExtensionFlag := .ofNat 1 val
      transportPrivateDataFlag := .ofNat 1 (val / 2)
      splicingPointFlag := .ofNat 1 (val / 4)
      opcrFlag := .ofNat 1 (val / 8)
      pcrFlag := .ofNat 1 (val / 0x10)
      elementaryStreamPriorityIndicator := .ofNat 1 (val / 0x20)
      randomAccessIndicator := .ofNat 1 (val / 0x40)
      discontinuityIndicator := .ofNat 1 (val / 0x80) }, sb)
  else return (header, sb)

end AdaptationFieldHeader

structure PesHeader where
  packetStartCode : BitVec 24 := 0x000001
  streamId : BitVec 8 := 0
  pesPacketLength : BitVec 16 := 0
  originalOrCopy : BitVec 1 := 0
  copyright : BitVec 1 := 0
  dataAlignmentIndicator : BitVec 1 := 0
  pesPriority : BitVec 1 := 0
  pesScramblingControl : BitVec 2 := 0
  markerBits : BitVec 2 := 0x02
  pesExtFlag : BitVec 1 := 0
  pesCrcFlag : BitVec 1 := 0
  addCopyInfoFlag : BitVec 1 := 0
  dsmTrickModeFlag : BitVec 1 := 0
  esRateFlag : BitVec 1 := 0
  escrFlag : BitVec 1 := 0
  ptsDtsFlags : BitVec 2 := 0
  headerDataLength : BitVec 8 := 0
  deriving DecidableEq

namespace PesHeader

def encode (header : PesHeader) : List UInt8 :=
  beBytes 4 (header.streamId.toNat + header.packetStartCode.toNat * 0x100) ++
    (beBytes 2 header.pesPacketLength.toNat ++
    (beBytes 1 (header.originalOrCopy.toNat + header.copyright.toNat * 2 +
      header.dataAlignmentIndicator.toNat * 4 + header.pesPriority.toNat * 8 +
      header.pesScramblingControl.toNat * 0x10 + header.markerBits.toNat * 0x40) ++
    (beBytes 1 (header.pesExtFlag.toNat + header.pesCrcFlag.toNat * 2 +
      header.addCopyInfoFlag.toNat * 4 + header.dsmTrickModeFlag.toNat * 8 +
      header.esRateFlag.toNat * 0x10 + header.escrFlag.toNat * 0x20 +
      header.ptsDtsFlags.toNat * 0x40) ++ beBytes 1 header.headerDataLength.toNat)))

def decode (header : PesHeader) (sb : YangTsBuffer) : Call (PesHeader × YangTsBuffer) := do
  let (b0b1b2b3, sb) ← sb.read4bytes
  let (pesPacketLength, sb) ← sb.read2bytes
  let (b6, sb) ← sb.read1byte
  let (b7, sb) ← sb.read1byte
  let (headerDataLength, sb) ← sb.read1byte
  return ({ header with
    packetStartCode := .ofNat 24 (b0b1b2b3 / 0x100)
    streamId := .ofNat 8 b0b1b2b3
    pesPacketLength := .ofNat 16 pesPacketLength
    originalOrCopy := .ofNat 1 b6
    copyright := .ofNat 1 (b6 / 2)
    dataAlignmentIndicator := .ofNat 1 (b6 / 4)
    pesPriority := .ofNat 1 (b6 / 8)
    pesScramblingControl := .ofNat 2 (b6 / 0x10)
    markerBits := .ofNat 2 (b6 / 0x40)
    pesExtFlag := .ofNat 1 b7
    pesCrcFlag := .ofNat 1 (b7 / 2)
    addCopyInfoFlag := .ofNat 1 (b7 / 4)
    dsmTrickModeFlag := .ofNat 1 (b7 / 8)
    esRateFlag := .ofNat 1 (b7 / 0x10)
    escrFlag := .ofNat 1 (b7 / 0x20)
    ptsDtsFlags := .ofNat 2 (b7 / 0x40)
    headerDataLength := .ofNat 8 headerDataLength }, sb)

end PesHeader

section Muxer

/-! What the muxer sends is written by these headers, with most of the fields as they are after the
construction. -/

theorem byte_of_mod {a b : Nat} (h : a % 256 = b % 256) : UInt8.ofNat a = UInt8.ofNat b := by
  apply UInt8.toNat_inj.mp
  rw [UInt8.toNat_ofNat', UInt8.toNat_ofNat']
  exact h

theorem muxer_tsHeader (header : MetaRtc.TsHeader) : header.encode =
    TsHeader.encode {
      payloadUnitStartIndicator := if header.payloadUnitStartIndicator then 1 else 0
      pid := .ofNat 13 header.pid
      adaptationFieldControl := .ofNat 2 header.adaptationFieldControl
      continuityCounter := .ofNat 4 header.continuityCounter } := by
  cases hfirst : header.payloadUnitStartIndicator <;>
    simp [MetaRtc.TsHeader.encode, TsHeader.encode, beBytes, hfirst]

theorem muxer_pmtElementInfo (info : MetaRtc.PmtElementInfo) : info.encode =
    PmtElementInfo.encode {
      streamType := .ofNat 8 info.streamType
      reserved0 := .ofNat 3 info.reserved0
      elementaryPid := .ofNat 13 info.elementaryPid
      reserved1 := .ofNat 4 info.reserved1
      esInfoLength := .ofNat 12 info.esInfoLength } := by
  simp only [MetaRtc.PmtElementInfo.encode, PmtElementInfo.encode, beBytes, BitVec.toNat_ofNat,
    List.cons_append, List.nil_append, List.cons.injEq, and_true]
  exact byte_of_mod (by omega)

theorem muxer_patHeader (header : SectionHeader) : header.encode =
    PatHeader.encode {
      tableId := .ofNat 8 header.tableId
      sectionSyntaxIndicator := .ofNat 1 header.sectionSyntaxIndicator
      b0 := .ofNat 1 header.b0
      reserved0 := .ofNat 2 header.reserved0
      sectionLength := .ofNat 12 header.sectionLength
      transportStreamId := .ofNat 16 header.id
      reserved1 := .ofNat 2 header.reserved1
      versionNumber := .ofNat 5 header.versionNumber
      currentNextIndicator := .ofNat 1 header.currentNextIndicator
      sectionNumber := .ofNat 8 header.sectionNumber
      lastSectionNumber := .ofNat 8 header.lastSectionNumber } := by
  simp only [SectionHeader.encode, PatHeader.encode, beBytes, BitVec.toNat_ofNat,
    List.cons_append, List.nil_append, List.cons.injEq, true_and, and_true]
  and_intros
  all_goals exact byte_of_mod (by omega)

theorem muxer_pesHeader (header : MetaRtc.PesHeader) : header.encode =
    PesHeader.encode {
      streamId := .ofNat 8 header.streamId
      pesPacketLength := .ofNat 16 header.pesPacketLength
      originalOrCopy := .ofNat 1 header.originalOrCopy
      markerBits := .ofNat 2 header.markerBits
      ptsDtsFlags := .ofNat 2 header.ptsDtsFlags
      headerDataLength := .ofNat 8 header.headerDataLength } := by
  simp only [MetaRtc.PesHeader.encode, PesHeader.encode, beBytes, BitVec.toNat_ofNat,
    BitVec.ofNat_eq_ofNat, List.cons_append, List.nil_append, List.cons.injEq, and_true]
  and_intros
  all_goals exact byte_of_mod (by omega)

end Muxer

section ReadBack

variable {α : Type} {sb : YangTsBuffer} {bytes : List UInt8}
  {decode : YangTsBuffer → Call (α × YangTsBuffer)} {a b : α}

/-- What was written to a new buffer, whatever was in its memory, is there as a whole and is read
as that value. -/
def ReadBack (bytes : List UInt8) (decode : YangTsBuffer → Call (α × YangTsBuffer)) (a : α) :
    Prop :=
  ∀ junk, ((YangTsBuffer.new junk).writeBytes bytes).fault = false ∧
    ∃ sb, decode ((YangTsBuffer.new junk).writeBytes bytes) = .ret (a, sb)

theorem new_ahead (junk : Mem) : ((YangTsBuffer.new junk).writeBytes bytes).Ahead bytes :=
  YangTsBuffer.ahead_writeBytes rfl

theorem writeBytes_fits {junk : Mem} :
    ((YangTsBuffer.new junk).writeBytes bytes).fault = false ↔ bytes.length ≤ 188 * 2 := by
  simp [YangTsBuffer.writeBytes, YangTsBuffer.new]

/-- Where every reading of the bytes gives one value, it has to be the one that was written. -/
theorem readBack_iff (hroom : bytes.length ≤ 188 * 2)
    (h : ∀ sb : YangTsBuffer, sb.Ahead bytes → ∃ sb', decode sb = .ret (b, sb')) :
    ReadBack bytes decode a ↔ a = b := by
  constructor
  · intro hback
    obtain ⟨sb, hread⟩ := (hback fun _ => 0).2
    obtain ⟨sb', hread'⟩ := h _ (new_ahead fun _ => 0)
    rw [hread] at hread'
    exact congrArg Prod.fst (Call.ret.inj hread')
  · rintro rfl junk
    exact ⟨writeBytes_fits.mpr hroom, h _ (new_ahead junk)⟩

end ReadBack

/-- The last field of a header, with nothing behind it. -/
theorem ahead_last {sb : YangTsBuffer} {bytes : List UInt8} (h : sb.Ahead bytes) :
    sb.Ahead (bytes ++ []) := by
  rwa [List.append_nil]

namespace TsHeader

theorem decode_encode {header : TsHeader} {sb : YangTsBuffer} (h : sb.Ahead header.encode) :
    ∃ sb', decode {} sb = .ret ({ header with transportPriority := 0 }, sb') := by
  obtain ⟨h0, h⟩ := h.read
  obtain ⟨h1, h⟩ := h.read
  obtain ⟨h2, _⟩ := (ahead_last h).read
  unfold decode YangTsBuffer.read1byte YangTsBuffer.read2bytes
  simp only [h0, h1, h2, Call.ret_bind, Call.pure_eq]
  refine ⟨_, congrArg (fun header => Call.ret (header, _)) ?_⟩
  rw [TsHeader.mk.injEq]
  and_intros
  all_goals bv_omega

theorem readBack_iff (header : TsHeader) :
    ReadBack header.encode (decode {}) header ↔ header.transportPriority = 0 := by
  rw [TsPacket.readBack_iff (by simp [encode]) fun sb => decode_encode]
  constructor
  · intro h
    rw [h]
  · intro h
    rw [← h]

end TsHeader

namespace PatHeader

theorem decode_encode {header : PatHeader} {sb : YangTsBuffer} (h : sb.Ahead header.encode) :
    ∃ sb', decode {} sb = .ret ({ header with reserved0 := 0 }, sb') := by
  obtain ⟨h0, h⟩ := h.read
  obtain ⟨h1, h⟩ := h.read
  obtain ⟨h2, h⟩ := h.read
  obtain ⟨h3, h⟩ := h.read
  obtain ⟨h4, h⟩ := h.read
  obtain ⟨h5, _⟩ := (ahead_last h).read
  unfold decode YangTsBuffer.read1byte YangTsBuffer.read2bytes
  simp only [h0, h1, h2, h3, h4, h5, Call.ret_bind, Call.pure_eq]
  refine ⟨_, congrArg (fun header => Call.ret (header, _)) ?_⟩
  rw [PatHeader.mk.injEq]
  and_intros
  all_goals bv_omega

theorem readBack_iff (header : PatHeader) :
    ReadBack header.encode (decode {}) header ↔ header.reserved0 = 0 := by
  rw [TsPacket.readBack_iff (by simp [encode]) fun sb => decode_encode]
  constructor
  · intro h
    rw [h]
  · intro h
    rw [← h]

end PatHeader

namespace AdaptationFieldHeader

/-- Without a length there are no flags. -/
def Unflagged (header : AdaptationFieldHeader) : Prop :=
  header = { adaptationFieldLength := header.adaptationFieldLength }

theorem decode_encode {header : AdaptationFieldHeader} {sb : YangTsBuffer}
    (h : sb.Ahead header.encode) : ∃ sb', decode {} sb =
      .ret (if header.adaptationFieldLength.toNat ≠ 0 then header else {}, sb') := by
  unfold encode at h
  obtain ⟨h0, h⟩ := h.read
  have hlen : BitVec.ofNat 8 (header.adaptationFieldLength.toNat % 256 ^ 1) =
      header.adaptationFieldLength := by bv_omega
  unfold decode YangTsBuffer.read1byte
  simp only [h0, Call.ret_bind, hlen]
  split at h
  · rename_i hpos
    obtain ⟨h1, _⟩ := (ahead_last h).read
    rw [if_pos hpos, if_pos hpos]
    simp only [h1, Call.ret_bind, Call.pure_eq]
    refine ⟨_, congrArg (fun header => Call.ret (header, _)) ?_⟩
    unfold flags
    rw [AdaptationFieldHeader.mk.injEq]
    and_intros
    all_goals bv_omega
  · rename_i hpos
    rw [if_neg hpos, if_neg hpos]
    refine ⟨_, congrArg (fun header => Call.ret (header, _)) ?_⟩
    rw [AdaptationFieldHeader.mk.injEq]
    and_intros
    all_goals bv_omega

end AdaptationFieldHeader

namespace PesHeader

theorem decode_encode {header : PesHeader} {sb : YangTsBuffer} (h : sb.Ahead header.encode) :
    ∃ sb', decode {} sb = .ret (header, sb') := by
  obtain ⟨h0, h⟩ := h.read
  obtain ⟨h1, h⟩ := h.read
  obtain ⟨h2, h⟩ := h.read
  obtain ⟨h3, h⟩ := h.read
  obtain ⟨h4, _⟩ := (ahead_last h).read
  unfold decode YangTsBuffer.read1byte YangTsBuffer.read2bytes YangTsBuffer.read4bytes
  simp only [h0, h1, h2, h3, h4, Call.ret_bind, Call.pure_eq]
  refine ⟨_, congrArg (fun header => Call.ret (header, _)) ?_⟩
  rw [PesHeader.mk.injEq]
  and_intros
  all_goals bv_omega

end PesHeader

namespace AdaptationFieldHeader

theorem readBack_iff (header : AdaptationFieldHeader) :
    ReadBack header.encode (decode {}) header ↔
      (header.adaptationFieldLength = 0 → header = {}) := by
  have hroom : header.encode.length ≤ 188 * 2 := by
    unfold encode
    split <;> simp
  rw [TsPacket.readBack_iff hroom fun sb => decode_encode]
  split
  · rename_i hpos
    exact iff_of_true rfl fun hzero => absurd (by rw [hzero]; rfl) hpos
  · rename_i hpos
    have hzero : header.adaptationFieldLength = 0 := by bv_omega
    constructor
    · intro h _
      exact h
    · intro h
      exact h hzero

end AdaptationFieldHeader

namespace PesHeader

theorem readBack (header : PesHeader) : ReadBack header.encode (decode {}) header :=
  (readBack_iff (by simp [encode]) fun _ => decode_encode).mpr rfl

end PesHeader

namespace PmtElementInfo

/-- There is no description. -/
def Bare (info : PmtElementInfo) : Prop := info.esInfoLength = 0 ∧ info.esInfo = []

theorem encode_length (info : PmtElementInfo) : info.encode.length = 5 := rfl

theorem Bare.size {info : PmtElementInfo} (h : info.Bare) : info.size = 5 := by
  rw [PmtElementInfo.size, h.1]
  rfl

variable {info : PmtElementInfo} {sb sb' : YangTsBuffer} {rest : List UInt8}

theorem decode_encode (hbare : info.Bare) (h : sb.Ahead (info.encode ++ rest)) :
    decode {} sb = .ret (info, sb.skip 5) ∧ (sb.skip 5).Ahead rest := by
  obtain ⟨hinfo, hrest⟩ := h.parts
  unfold encode at hinfo
  obtain ⟨h0, hinfo⟩ := hinfo.read
  obtain ⟨h1, hinfo⟩ := hinfo.read
  obtain ⟨h2, _⟩ := (ahead_last hinfo).read
  refine ⟨?_, hrest⟩
  obtain ⟨hlen, hinfo⟩ := hbare
  have hnone : BitVec.ofNat 12
      ((info.esInfoLength.toNat + info.reserved1.toNat * 0x1000) % 256 ^ 2) = 0 := by bv_omega
  unfold decode YangTsBuffer.read1byte YangTsBuffer.read2bytes
  simp only [h0, h1, h2, Call.ret_bind, Call.pure_eq, hnone]
  rw [if_neg (by decide)]
  refine congrArg (fun info => Call.ret (info, _)) ?_
  rw [PmtElementInfo.mk.injEq]
  and_intros
  all_goals first | bv_omega | exact hinfo.symm

end PmtElementInfo

/-- The reading has gone on by that many bytes, all of them written. -/
structure Moved (sb : YangTsBuffer) (n : Nat) (sb' : YangTsBuffer) : Prop where
  eq : sb' = sb.skip n
  written : sb.pos + n ≤ sb.curPos

section Moved

variable {sb mid sb' : YangTsBuffer} {n m v : Nat} {bytes : List UInt8}

theorem Moved.trans (h : Moved sb n mid) (h' : Moved mid m sb') : Moved sb (n + m) sb' := by
  obtain ⟨rfl, _⟩ := h
  obtain ⟨rfl, hwritten⟩ := h'
  constructor
  · exact congrArg (fun pos => { sb with pos }) (Nat.add_assoc sb.pos n m)
  · have hpos : sb.pos + n + m ≤ sb.curPos := hwritten
    omega

theorem Moved.room (h : Moved sb n sb') : sb'.pos ≤ sb'.curPos := by
  obtain ⟨rfl, hwritten⟩ := h
  exact hwritten

theorem moved_readBytes (h : sb.readBytes n = .ret (v, sb')) : Moved sb n sb' := by
  unfold YangTsBuffer.readBytes at h
  split at h
  · rename_i hroom
    cases h
    exact ⟨rfl, hroom⟩
  · exact nomatch h

theorem moved_readString (h : sb.readString n = .ret (bytes, sb')) : Moved sb n sb' := by
  unfold YangTsBuffer.readString at h
  split at h
  · rename_i hroom
    cases h
    exact ⟨rfl, hroom⟩
  · exact nomatch h

end Moved

namespace PmtElementInfo

variable {info : PmtElementInfo} {sb sb' : YangTsBuffer}

/-- An element takes as many bytes as its size says, and one that takes five has no
description. -/
theorem decode_moved (h : decode {} sb = .ret (info, sb')) :
    Moved sb info.size sb' ∧ (info.esInfoLength = 0 → info.Bare) := by
  unfold decode at h
  obtain ⟨⟨streamType, sb1⟩, h0, h⟩ := Call.bind_eq_ret.mp h
  obtain ⟨⟨b1b2, sb2⟩, h1, h⟩ := Call.bind_eq_ret.mp h
  obtain ⟨⟨b3b4, sb3⟩, h2, h⟩ := Call.bind_eq_ret.mp h
  have hfixed := ((moved_readBytes h0).trans (moved_readBytes h1)).trans (moved_readBytes h2)
  dsimp only at h
  split at h
  · rename_i hpos
    obtain ⟨⟨esInfo, sb4⟩, h3, h⟩ := Call.bind_eq_ret.mp h
    cases h
    constructor
    · exact hfixed.trans (moved_readString h3)
    · intro hzero
      exact absurd (congrArg BitVec.toNat hzero) (Nat.ne_of_gt hpos)
  · rename_i hpos
    cases h
    constructor
    · have hsize : BitVec.toNat (.ofNat 12 b3b4) = 0 := Nat.eq_zero_of_not_pos hpos
      show Moved sb (5 + BitVec.toNat (.ofNat 12 b3b4)) _
      rw [hsize]
      exact hfixed
    · intro hzero
      exact ⟨hzero, rfl⟩

end PmtElementInfo

namespace PmtHeader

def infosSize (infos : List PmtElementInfo) : Nat := (infos.map PmtElementInfo.size).sum

variable {header : PmtHeader} {infos : List PmtElementInfo} {sb sb' : YangTsBuffer}

theorem infosSize_cons (info : PmtElementInfo) :
    infosSize (info :: infos) = info.size + infosSize infos := by
  simp [infosSize]

theorem infosSize_bare (h : ∀ info ∈ infos, info.Bare) : infosSize infos = 5 * infos.length := by
  induction infos with
  | nil => rfl
  | cons info infos ih =>
    have hinfo : info.size = 5 := (h info (.head _)).size
    rw [infosSize_cons, ih fun info hinfo => h info (.tail _ hinfo), hinfo, List.length_cons]
    omega

theorem five_le_infosSize (infos : List PmtElementInfo) : 5 * infos.length ≤ infosSize infos := by
  induction infos with
  | nil => exact le_refl _
  | cons info infos ih =>
    rw [infosSize_cons, PmtElementInfo.size, List.length_cons]
    omega

/-- No more than five bytes for each element: then none has a description. -/
theorem bare_of_size (h : infosSize infos ≤ 5 * infos.length)
    (hinfos : ∀ info ∈ infos, info.esInfoLength = 0 → info.Bare) : ∀ info ∈ infos, info.Bare := by
  induction infos with
  | nil => exact fun info hinfo => nomatch hinfo
  | cons info infos ih =>
    have hrest := five_le_infosSize infos
    rw [infosSize_cons, PmtElementInfo.size, List.length_cons] at h
    intro info' hmem
    cases hmem with
    | head => exact hinfos info (.head _) (by bv_omega)
    | tail _ hmem =>
      exact ih (by omega) (fun info hinfo => hinfos info (.tail _ hinfo)) info' hmem

theorem infos_length : (infos.flatMap PmtElementInfo.encode).length = 5 * infos.length := by
  induction infos with
  | nil => rfl
  | cons info infos ih =>
    rw [List.flatMap_cons, List.length_append, ih, PmtElementInfo.encode_length,
      List.length_cons]
    omega

theorem encode_length : header.encode.length = 12 + 5 * header.infos.length := by
  simp only [encode, List.length_append, beBytes_length, infos_length]
  omega

theorem decodeInfos_encode (hbare : ∀ info ∈ infos, info.Bare) {fuel : Nat}
    (hfuel : 5 * infos.length ≤ fuel)
    (h : sb.Ahead (infos.flatMap PmtElementInfo.encode)) :
    ∃ sb', decodeInfos fuel (5 * infos.length) sb = .ret (infos, sb') := by
  induction infos generalizing fuel sb with
  | nil =>
    cases fuel with
    | zero => exact ⟨sb, rfl⟩
    | succ fuel => exact ⟨sb, rfl⟩
  | cons info infos ih =>
    rw [List.length_cons] at hfuel
    obtain ⟨fuel, rfl⟩ : ∃ n, fuel = n + 1 := ⟨fuel - 1, by omega⟩
    have hinfo := hbare info (.head _)
    obtain ⟨hone, hrest⟩ := PmtElementInfo.decode_encode hinfo h
    have hsize : 5 * infos.length ≤ fuel := by omega
    obtain ⟨sb', hinfos⟩ := ih (fun info hinfo => hbare info (.tail _ hinfo)) hsize hrest
    refine ⟨sb', ?_⟩
    unfold decodeInfos
    rw [if_pos (by rw [List.length_cons]; omega), hone, Call.ret_bind]
    dsimp only
    rw [hinfo.size, show 5 * (info :: infos).length - 5 = 5 * infos.length by
      rw [List.length_cons]; omega, hinfos]
    rfl

theorem decodeInfos_moved {fuel remainBytes : Nat} (hwritten : sb.pos ≤ sb.curPos)
    (h : decodeInfos fuel remainBytes sb = .ret (infos, sb')) :
    Moved sb (infosSize infos) sb' ∧ ∀ info ∈ infos, info.esInfoLength = 0 → info.Bare := by
  induction fuel generalizing infos remainBytes sb with
  | zero =>
    cases h
    exact ⟨⟨rfl, hwritten⟩, by simp⟩
  | succ fuel ih =>
    unfold decodeInfos at h
    split at h
    · obtain ⟨⟨info, sb1⟩, hone, h⟩ := Call.bind_eq_ret.mp h
      obtain ⟨⟨infos, sb2⟩, hinfos, h⟩ := Call.bind_eq_ret.mp h
      cases h
      obtain ⟨hmoved, hinfo⟩ := PmtElementInfo.decode_moved hone
      obtain ⟨hrest, hall⟩ := ih hmoved.room hinfos
      constructor
      · rw [infosSize_cons]
        exact hmoved.trans hrest
      · intro info' hmem
        cases hmem with
        | head => exact hinfo
        | tail _ hmem => exact hall info' hmem
    · cases h
      exact ⟨⟨rfl, hwritten⟩, by simp⟩

theorem decodeFields_encode (h : sb.Ahead header.encode) :
    decodeFields {} sb = .ret ({ header with infos := [] }, sb.skip 12) ∧
      (sb.skip 12).Ahead (header.infos.flatMap PmtElementInfo.encode) := by
  obtain ⟨h0, h⟩ := h.read
  obtain ⟨h1, h⟩ := h.read
  obtain ⟨h2, h⟩ := h.read
  obtain ⟨h3, h⟩ := h.read
  obtain ⟨h4, h⟩ := h.read
  obtain ⟨h5, h⟩ := h.read
  obtain ⟨h6, h⟩ := h.read
  obtain ⟨h7, h⟩ := h.read
  refine ⟨?_, h⟩
  unfold decodeFields YangTsBuffer.read1byte YangTsBuffer.read2bytes
  simp only [h0, h1, h2, h3, h4, h5, h6, h7, Call.ret_bind, Call.pure_eq]
  refine congrArg (fun header => Call.ret (header, _)) ?_
  rw [PmtHeader.mk.injEq]
  and_intros
  all_goals bv_omega

/-- What is read of the elements is no more than what was written of them. -/
theorem decode_bare (h : sb.Ahead header.encode) (hend : sb.curPos = sb.pos + header.encode.length)
    (hdecode : decode {} sb = .ret (header, sb')) :
    header.programInfoLength = 0 ∧ ∀ info ∈ header.infos, info.Bare := by
  obtain ⟨hfields, _⟩ := decodeFields_encode h
  unfold decode at hdecode
  rw [hfields, Call.ret_bind] at hdecode
  dsimp only at hdecode
  obtain ⟨sb1, hskip, hdecode⟩ := Call.bind_eq_ret.mp hdecode
  obtain ⟨⟨infos, sb2⟩, hinfos, hdecode⟩ := Call.bind_eq_ret.mp hdecode
  have heq : infos = header.infos :=
    congrArg (fun read : PmtHeader × YangTsBuffer => read.1.infos) (Call.ret.inj hdecode)
  have hskipped : Moved (sb.skip 12) header.programInfoLength.toNat sb1 := by
    unfold skipProgramInfo at hskip
    split at hskip
    · obtain ⟨⟨_, sb1⟩, hread, hskip⟩ := Call.bind_eq_ret.mp hskip
      cases hskip
      exact moved_readString hread
    · rename_i hpos
      cases hskip
      rw [Nat.eq_zero_of_not_pos hpos]
      constructor
      · rfl
      · have hwritten := h.written
        rw [encode_length] at hwritten
        show sb.pos + 12 + 0 ≤ sb.curPos
        omega
  obtain ⟨hmoved, hall⟩ := decodeInfos_moved hskipped.room hinfos
  have hroom : sb.pos + 12 + (header.programInfoLength.toNat + infosSize infos) ≤ sb.curPos :=
    (hskipped.trans hmoved).written
  rw [hend, encode_length] at hroom
  rw [heq] at hall hroom
  have hbare := bare_of_size (by omega) hall
  rw [infosSize_bare hbare] at hroom
  constructor
  · bv_omega
  · exact hbare

theorem decode_encode (h : sb.Ahead header.encode) (hinfo : header.programInfoLength = 0)
    (hbare : ∀ info ∈ header.infos, info.Bare)
    (hlen : header.sectionLength.toNat = 13 + 5 * header.infos.length) :
    ∃ sb', decode {} sb = .ret (header, sb') := by
  obtain ⟨hfields, hrest⟩ := decodeFields_encode h
  obtain ⟨sb', hinfos⟩ := decodeInfos_encode hbare (le_refl _) hrest
  refine ⟨sb', ?_⟩
  unfold decode
  rw [hfields, Call.ret_bind]
  dsimp only
  unfold skipProgramInfo
  have hremain : header.sectionLength.toNat - 4 - 9 - BitVec.toNat (0 : BitVec 12) =
      5 * header.infos.length := by
    have hzero : BitVec.toNat (0 : BitVec 12) = 0 := rfl
    omega
  rw [hinfo, if_neg (by decide), Call.ret_bind, hremain, hinfos]
  cases header
  cases hinfo
  rfl

/-- The table is read back, and both its size and the length it says are those of the bytes
written: the length counts from behind its own field, with the checksum. -/
structure Agrees (header : PmtHeader) : Prop where
  readBack : ReadBack header.encode (decode {}) header
  size : header.size = header.encode.length
  sectionLength : header.sectionLength.toNat = header.encode.length - 3 + 4

/-- The length the table says is that of its elements without descriptions, and the buffer has
room for so many. -/
structure Plain (header : PmtHeader) : Prop where
  programInfoLength : header.programInfoLength = 0
  infos : ∀ info ∈ header.infos, info.Bare
  sectionLength : header.sectionLength.toNat = 13 + 5 * header.infos.length
  room : header.infos.length ≤ 72

theorem agrees_iff (header : PmtHeader) : header.Agrees ↔ header.Plain := by
  constructor
  · intro h
    obtain ⟨hroom, sb', hdecode⟩ := h.readBack fun _ => 0
    have hlen := h.sectionLength
    rw [encode_length] at hlen
    obtain ⟨hinfo, hbare⟩ := decode_bare (new_ahead _) rfl hdecode
    have hfits := writeBytes_fits.mp hroom
    rw [encode_length] at hfits
    exact ⟨hinfo, hbare, by omega, by omega⟩
  · intro h
    have hroom := h.room
    have hlen := h.sectionLength
    constructor
    · intro junk
      constructor
      · rw [writeBytes_fits, encode_length]
        omega
      · exact decode_encode (new_ahead junk) h.programInfoLength h.infos hlen
    · rw [size, ← infosSize, infosSize_bare h.infos, encode_length]
      omega
    · rw [encode_length]
      omega

end PmtHeader

/-- The headers come back as they were exactly where nothing is set that one of the two directions
leaves out: the priority, the first reserved bits of the first table, the descriptions of the
second, and the flags of an adaptation field that has no length. -/
theorem headers_read_back (ts : TsHeader) (pat : PatHeader) (pmt : PmtHeader)
    (field : AdaptationFieldHeader) (pes : PesHeader) :
    (ReadBack ts.encode (TsHeader.decode {}) ts ↔ ts.transportPriority = 0) ∧
      (ReadBack pat.encode (PatHeader.decode {}) pat ↔ pat.reserved0 = 0) ∧
      (pmt.Agrees ↔ pmt.Plain) ∧
      (ReadBack field.encode (AdaptationFieldHeader.decode {}) field ↔
        (field.adaptationFieldLength = 0 → field = {})) ∧
      ReadBack pes.encode (PesHeader.decode {}) pes :=
  ⟨TsHeader.readBack_iff ts, PatHeader.readBack_iff pat, PmtHeader.agrees_iff pmt,
    AdaptationFieldHeader.readBack_iff field, PesHeader.readBack pes⟩

/-- A packet with priority is read as one without. -/
theorem priority_lost :
    ¬ReadBack (TsHeader.encode { transportPriority := 1 }) (TsHeader.decode {})
      { transportPriority := 1 } := by
  rw [TsHeader.readBack_iff]
  decide

end MetaRtc.TsPacket
