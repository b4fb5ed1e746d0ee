import MetaRtc.Ts.Cut

/-! # From frames to frames

What the demuxer hands on of the frames that the muxer was given. -/
namespace MetaRtc

open Bytes Exec Function

section Tables

variable {d : TsDemux} {m : YangTsMuxer}

/-- The streams of the map table, by their PIDs. -/
def mappedPids : List Nat := [200, 192, 193, 225, 226]

theorem createPat_header (junk : Mem) (cc : Nat) :
    (junk.write 0 (createPat mpegtsPmtPid cc)).slice 0 4 = TsHeader.encode {
      payloadUnitStartIndicator := true
      pid := mpegtsPatPid
      adaptationFieldControl := payloadOnly
      continuityCounter := cc } := rfl

theorem createPmt_header (junk : Mem) (cc : Nat) :
    (junk.write 0 (createPmt mpegtsPmtPid cc)).slice 0 4 = TsHeader.encode {
      payloadUnitStartIndicator := true
      pid := mpegtsPmtPid
      adaptationFieldControl := payloadOnly
      continuityCounter := cc } := rfl

theorem decodePat_program (data : Mem) (hlength : data.slice 6 2 = beBytes 2 0xb00d)
    (hprogram : data.slice 13 2 = beBytes 2 1) (hpid : data.slice 15 2 = beBytes 2 0xe100) :
    decodePat data ⟨true, 0, 1, 4, 4⟩ = [⟨1, some mpegtsPmtPid⟩] := by
  have hlimit : data.be (5 + 1) 2 % 4096 + 4 = 17 := by
    rw [show data.be (5 + 1) 2 = _ from Mem.be_of_slice hlength]
    norm_num
  have hnumber : data.be (5 + 8) 2 = 1 := Mem.be_of_slice hprogram
  have hmap : data.be (5 + 8 + 2) 2 % 8192 = 0x100 := by
    rw [show data.be (5 + 8 + 2) 2 = _ from Mem.be_of_slice hpid]
    norm_num
  show patEntries data (data.be (5 + 1) 2 % 4096 + 4) (5 + 8) (data.be (5 + 1) 2 % 4096 + 4) = _
  rw [hlimit, patEntries, if_pos (by omega)]
  dsimp only
  rw [hnumber, hmap, if_neg (by omega), patEntries, if_neg (by omega)]
  rfl

theorem PmtElementInfo.encode_parts (info : PmtElementInfo) : info.encode =
    ([UInt8.ofNat info.streamType] ++
      beBytes 2 (info.elementaryPid % 8192 + info.reserved0 % 8 * 0x2000)) ++
      beBytes 2 (info.esInfoLength % 4096 + info.reserved1 % 16 * 0x1000) := rfl

theorem PmtElementInfo.encode_length (info : PmtElementInfo) : info.encode.length = 5 := by
  simp [PmtElementInfo.encode_parts]

theorem flatMap_encode_length (infos : List PmtElementInfo) :
    (infos.flatMap PmtElementInfo.encode).length = 5 * infos.length := by
  induction infos with
  | nil => rfl
  | cons info infos ih =>
    rw [List.flatMap_cons, List.length_append, info.encode_length, ih, List.length_cons]
    omega

/-- Entries without descriptors, one after the other. -/
theorem pmtEntries_infos {data : Mem} {infos : List PmtElementInfo} {pos fuel : Nat}
    (hinfos : ∀ info ∈ infos, info.esInfoLength = 0 ∧ info.elementaryPid < 8192)
    (hfuel : infos.length < fuel)
    (h : data.slice pos (5 * infos.length) = infos.flatMap PmtElementInfo.encode) :
    pmtEntries data fuel pos (pos + 5 * infos.length) = infos.map PmtElementInfo.elementaryPid := by
  induction infos generalizing pos fuel with
  | nil =>
    cases fuel with
    | zero => rfl
    | succ fuel =>
      rw [pmtEntries, if_neg (by simp)]
      rfl
  | cons info infos ih =>
    obtain ⟨fuel, rfl⟩ : ∃ more, fuel = more + 1 := ⟨fuel - 1, by omega⟩
    obtain ⟨hinfo, hothers⟩ := List.forall_mem_cons.mp hinfos
    rw [List.flatMap_cons] at h
    obtain ⟨hentry, hrest⟩ := Mem.slice_parts h
    obtain ⟨htyped, hes⟩ := Mem.slice_parts (hentry.trans info.encode_parts)
    have hpid : data.be (pos + 1) 2 % 8192 = info.elementaryPid := by
      rw [show data.be (pos + 1) 2 = _ from Mem.be_of_slice (Mem.slice_parts htyped).2]
      omega
    have hlength : data.be (pos + 3) 2 % 4096 = 0 := by
      rw [show data.be (pos + 3) 2 = _ from Mem.be_of_slice hes, hinfo.1]
      omega
    rw [List.length_cons, pmtEntries, if_pos (by omega)]
    dsimp only
    rw [hpid, hlength, if_neg (by omega), skipDescriptors, List.map_cons]
    refine congrArg _ ?_
    rw [show pos + 5 * (infos.length + 1) = pos + 5 + 5 * infos.length by omega]
    refine ih hothers (by rw [List.length_cons] at hfuel; omega) ?_
    rw [info.encode_length, flatMap_encode_length] at hrest
    exact hrest

theorem decodePmt_infos {data : Mem} {infos : List PmtElementInfo}
    (hinfos : ∀ info ∈ infos, info.esInfoLength = 0 ∧ info.elementaryPid < 8192)
    (hlength : data.be 6 2 % 4096 = 13 + 5 * infos.length) (hprogram : data.be 15 2 % 4096 = 0)
    (h : data.slice 17 (5 * infos.length) = infos.flatMap PmtElementInfo.encode) :
    decodePmt data ⟨true, mpegtsPmtPid, 1, 4, 4⟩ = infos.map PmtElementInfo.elementaryPid := by
  show pmtEntries data (data.be 6 2 % 4096 + 4) (17 + data.be 15 2 % 4096)
    (data.be 6 2 % 4096 + 4) = _
  rw [hlength, hprogram, show 13 + 5 * infos.length + 4 = 17 + 5 * infos.length by omega]
  exact pmtEntries_infos hinfos (by omega) h

theorem decodeTsHeader_table {data : Mem} {pid cc : Nat} (hpid : pid < 8192)
    (h : data.slice 0 4 = TsHeader.encode {
      payloadUnitStartIndicator := true
      pid
      adaptationFieldControl := payloadOnly
      continuityCounter := cc }) : decodeTsHeader data = ⟨true, pid, 1, 4, 4⟩ := by
  have hthree := congrArg (List.take 3) h
  obtain ⟨-, hfirst, hunit⟩ := TsHeader.decode hthree
  have hone : (data 3).toNat / 16 % 4 = 1 := by
    rw [TsHeader.control_byte h]
    show (cc % 16 + 1 % 4 * 16) / 16 % 4 = 1
    omega
  obtain ⟨hcontrol, hpos, hnpos⟩ := decodeTsHeader_plain hone
  rw [Nat.mod_eq_of_lt hpid] at hunit
  generalize decodeTsHeader data = unit at hfirst hunit hcontrol hpos hnpos ⊢
  cases unit
  cases hfirst
  cases hunit
  cases hcontrol
  cases hpos
  cases hnpos
  rfl

/-- The tables of the muxer, as the demuxer knows them afterwards. -/
def TsDemux.mapped (d : TsDemux) : TsDemux :=
  { d with pidVec := [⟨1, some mpegtsPmtPid⟩], streamPidVec := mappedPids }

theorem createPat_unit (junk : Mem) (cc : Nat) :
    decodeUnit d (junk.write 0 (createPat mpegtsPmtPid cc)) =
      .ret (true, { d with pidVec := [⟨1, some mpegtsPmtPid⟩] }) := by
  have hheader := decodeTsHeader_table (by decide) (createPat_header junk cc)
  have hprogram := decodePat_program (junk.write 0 (createPat mpegtsPmtPid cc)) rfl rfl rfl
  unfold decodeUnit
  dsimp only
  rw [hheader]
  refine (if_pos (.inl rfl)).trans ((if_pos rfl).trans ?_)
  show Call.ret (true, { d with pidVec := decodePat _ ⟨true, 0, 1, 4, 4⟩ }) = _
  rw [hprogram]

theorem createPmt_unit (hpat : d.pidVec = [⟨1, some mpegtsPmtPid⟩]) (junk : Mem) (cc : Nat) :
    decodeUnit d (junk.write 0 (createPmt mpegtsPmtPid cc)) =
      .ret (true, { d with streamPidVec := mappedPids }) := by
  obtain ⟨infos, hinfos⟩ : ∃ infos : List PmtElementInfo, infos =
      streamPidMap.map fun entry => { streamType := entry.1, elementaryPid := entry.2 } :=
    ⟨_, rfl⟩
  have hheader := decodeTsHeader_table (by decide) (createPmt_header junk cc)
  have hpmt : isPmt d mpegtsPmtPid = true := by
    rw [isPmt, hpat]
    rfl
  have hmap : decodePmt (junk.write 0 (createPmt mpegtsPmtPid cc)) ⟨true, mpegtsPmtPid, 1, 4, 4⟩ =
      infos.map PmtElementInfo.elementaryPid := by
    refine decodePmt_infos ?_ ?_ ?_ ?_
    · rw [hinfos]
      decide
    · rw [Mem.be_of_slice (v := 0xb026) rfl, hinfos]
      decide
    · rw [Mem.be_of_slice (v := 0xf000) rfl]
      norm_num
    · rw [hinfos]
      rfl
  unfold decodeUnit
  dsimp only
  rw [hheader]
  refine (if_pos (.inl rfl)).trans ((if_neg (by decide)).trans ((if_neg (by decide)).trans
    ((if_pos hpmt).trans ?_)))
  show Call.ret (true, { d with streamPidVec := decodePmt _ ⟨true, mpegtsPmtPid, 1, 4, 4⟩ }) = _
  rw [hmap, hinfos]
  rfl

/-- The two tables that come before each frame. -/
theorem encodePmtWithoutData_decoded (hpmt : m.pmtPid = mpegtsPmtPid) (junk : Nat → Mem) :
    ∃ pat pmt m', encodePmtWithoutData m junk [] = ([pat, pmt], m') ∧ m'.Ready ∧
      ∀ rest, tsDecode d (pat.data :: pmt.data :: rest) = tsDecode d.mapped rest := by
  obtain ⟨pmtPid, currentIndex, pidCcMap⟩ := m
  obtain rfl : pmtPid = mpegtsPmtPid := hpmt
  refine ⟨_, _, _, rfl, ⟨rfl, rfl⟩, fun rest => ?_⟩
  exact (tsDecode_cons rfl (createPat_unit (junk 0) _)).trans
    (tsDecode_cons rfl (createPmt_unit rfl (junk 1) _))

end Tables

/-- A frame of sound or pictures with its time. -/
structure TsFrame where
  streamType : YangTsStream
  data : List UInt8
  timestamp : Nat

structure TsFrame.Valid (frame : TsFrame) : Prop where
  media : frame.streamType ≠ .tsPrivate
  timestamp : frame.timestamp < 2 ^ 33

/-- A time as it is read back from a PES. -/
def readTime (t : Nat) : Nat :=
  if t % 2 ^ 32 < 2 ^ 31 then t % 2 ^ 32 else t % 2 ^ 32 + (2 ^ 64 - 2 ^ 32)

def mediaPid : YangTsStream → Nat
  | .tsH264 => yangH264Pid
  | .tsH265 => yangH265Pid
  | .tsAac => yangAacPid
  | .tsOpus => yangOpusPid
  | .tsPrivate => yangPrivatePid

def mediaId : YangTsStream → Nat
  | .tsH264 => pesVideoId
  | .tsH265 => pesVideoId
  | .tsAac => pesAudioId
  | .tsOpus => pesAudioId
  | .tsPrivate => streamTypePrivateData

namespace TsFrame

variable (frame : TsFrame)

/-- Whether the first packet of a frame is taken for all of it. -/
def TakenWhole : Prop := frame.data.length ≤ 176 ∨ 65527 < frame.data.length

instance : Decidable frame.TakenWhole := inferInstanceAs (Decidable (_ ∨ _))

/-- Some bytes of a frame as they are handed on. -/
def handing (bytes : List UInt8) : TsDelivery :=
  ⟨bytes, mediaPid frame.streamType, readTime frame.timestamp, readTime frame.timestamp⟩

/-- What is handed on as the frame's packets come, and what is still collected after them. -/
def atOnce : List TsDelivery :=
  if frame.TakenWhole then (frame.handing (frame.data.take 170)).handedOn else []

def collected : TsDelivery :=
  frame.handing (if frame.TakenWhole then frame.data.drop 170 else frame.data)

end TsFrame

section Frames

variable {frame : TsFrame} {d : TsDemux} {m : YangTsMuxer}

/-- The first fourteen bytes of a PES of media. -/
def pesHead (id length timestamp : Nat) : List UInt8 :=
  PesHeader.encode {
    streamId := id
    originalOrCopy := 0x01
    ptsDtsFlags := 0x02
    headerDataLength := 0x05
    pesPacketLength := if length + 8 > 0xffff then 0 else length + 8 } ++ writePts 2 timestamp

theorem createPes_media (hvalid : frame.Valid) :
    createPes frame.data frame.timestamp frame.streamType = {
      data := pesHead (mediaId frame.streamType) frame.data.length frame.timestamp ++ frame.data
      pts := frame.timestamp
      dts := frame.timestamp
      streamType := mediaId frame.streamType
      pid := mediaPid frame.streamType } := by
  obtain ⟨streamType, data, timestamp⟩ := frame
  have hsize : 5 + data.length + 3 = data.length + 8 := by omega
  have hmedia : streamType ≠ .tsPrivate := hvalid.media
  unfold createPes
  dsimp only
  rw [if_neg hmedia, if_neg (not_not_intro rfl), if_neg (not_not_intro rfl),
    if_neg (not_not_intro rfl), hsize]
  cases streamType with
  | tsPrivate => exact absurd rfl hmedia
  | tsH264 => rfl
  | tsH265 => rfl
  | tsAac => rfl
  | tsOpus => rfl

theorem pesHead_length (id length timestamp : Nat) : (pesHead id length timestamp).length = 14 := rfl

theorem mediaId_media (hvalid : frame.Valid) :
    mediaId frame.streamType = pesVideoId ∨ mediaId frame.streamType = pesAudioId := by
  cases h : frame.streamType with
  | tsPrivate => exact absurd h hvalid.media
  | tsH264 => exact .inl rfl
  | tsH265 => exact .inl rfl
  | tsAac => exact .inr rfl
  | tsOpus => exact .inr rfl

theorem knownFields_none (optional : Mem) : knownFields 0x80 optional = 0 := by
  have hbits : ∀ n ∈ [0, 1, 2, 3, 4, 5], bit 0x80 n = false := by decide
  simp [knownFields, hbits]

theorem pesHead_parse {p : Mem} {id length timestamp : Nat}
    (hid : id = pesVideoId ∨ id = pesAudioId) (ht : timestamp < 2 ^ 33)
    (h : p.slice 0 14 = pesHead id length timestamp) : pesParse p =
      { pos := 14
        pesPacketLength := if length + 8 > 0xffff then 0 else length + 8
        pts := readTime timestamp } := by
  have hbyte : ∀ i, i < 14 → p i = (pesHead id length timestamp).getD i 0 := by
    intro i hi
    rw [← h, p.slice_getD 0 hi, Nat.zero_add]
  have hstream : (p 3).toNat ∉ pesWithoutHeader := by
    rw [hbyte 3 (by omega)]
    rcases hid with rfl | rfl
    · show (UInt8.ofNat ((0x000001 * 256 + pesVideoId % 256) / 256 ^ 0)).toNat ∉ pesWithoutHeader
      decide
    · show (UInt8.ofNat ((0x000001 * 256 + pesAudioId % 256) / 256 ^ 0)).toNat ∉ pesWithoutHeader
      decide
  have hflags : p 7 = 0x80 := hbyte 7 (by omega)
  have hlength : p.be 4 2 = if length + 8 > 0xffff then 0 else length + 8 := by
    have hbytes : p.slice 4 2 = beBytes 2 (if length + 8 > 0xffff then 0 else length + 8) := by
      show [p 4, p 5] = _
      rw [hbyte 4 (by omega), hbyte 5 (by omega)]
      rfl
    rw [Mem.be_of_slice hbytes, Nat.mod_eq_of_lt]
    split
    · omega
    · omega
  have htime : p.slice 9 5 = writePts 2 timestamp := (Mem.slice_parts h).2
  have hpos : (pesParse p).pos = 14 := by
    rw [pesParse_fields hstream, hflags, knownFields_none]
    rfl
  have hpts : (pesParse p).pts = readTime timestamp := by
    rw [pesParse_pts hstream, hflags, if_pos (.inl (by decide))]
    exact pesTime_writePts htime ht
  have hdts : (pesParse p).dts = 0 := by
    rw [pesParse_dts hstream, hflags, if_neg (by decide)]
  have hpes : (pesParse p).pesPacketLength = p.be 4 2 := by
    unfold pesParse
    dsimp only
    rw [if_neg hstream]
  rw [hlength] at hpes
  generalize pesParse p = start at hpos hpts hdts hpes ⊢
  cases start
  cases hpos
  cases hpts
  cases hdts
  cases hpes
  rfl

/-- The first packet of a frame. What was being collected is handed on. -/
theorem createTsLoop_first {pending : TsDelivery} {packet : Mem}
    (hvalid : frame.Valid) (hs : d.Streams (mediaPid frame.streamType)) (hc : d.Collects pending)
    (hlen : pending.data.length < 2 ^ 31)
    (hcarries : TsCarries packet true (mediaPid frame.streamType)
      (pesHead (mediaId frame.streamType) frame.data.length frame.timestamp ++
        frame.data.take 170)) :
    ∃ d', decodeUnit d packet = .ret (true, d') ∧ d'.tables = d.tables ∧
      d'.delivered = d.delivered ++ (pending.handedOn ++ frame.atOnce) ∧
      d'.Collects (frame.handing (if frame.TakenWhole then [] else frame.data.take 170)) := by
  have hparse := pesHead_parse (mediaId_media hvalid) hvalid.timestamp
    (p := fun i => packet ((decodeTsHeader packet).npos + i))
    (by rw [slice_shift]; exact (Mem.slice_parts hcarries.body).1)
  obtain ⟨start, hstart⟩ : ∃ start : PesStart, start = {
      pos := 14
      pesPacketLength := if frame.data.length + 8 > 0xffff then 0 else frame.data.length + 8
      pts := readTime frame.timestamp } := ⟨_, rfl⟩
  rw [← hstart] at hparse
  obtain ⟨d', hdecode, htables, hdelivered, hcollects⟩ :=
    decodeUnit_first hcarries hs hc hlen hparse (by rw [hstart]; rfl)
  have hhanding : ∀ bytes, start.delivery (mediaPid frame.streamType) bytes = frame.handing bytes := by
    intro bytes
    rw [hstart]
    rfl
  have hwhole : start.TakenWhole (decodeTsHeader packet).npos ↔ frame.TakenWhole := by
    have hnpos := hcarries.npos
    rw [List.length_append, pesHead_length, List.length_take] at hnpos
    rw [PesStart.TakenWhole, TsFrame.TakenWhole, hstart]
    dsimp only
    split
    · omega
    · omega
  rw [hhanding, if_congr hwhole rfl rfl] at hdelivered hcollects
  refine ⟨d', hdecode, htables, ?_, hcollects⟩
  rw [hdelivered, List.append_assoc]
  rfl

theorem mediaPid_lt (streamType : YangTsStream) : mediaPid streamType < 8192 := by
  cases streamType <;> decide

theorem TsDemux.mapped_streams (d : TsDemux) (streamType : YangTsStream) :
    d.mapped.Streams (mediaPid streamType) := by
  cases streamType <;> exact ⟨by decide, rfl, rfl⟩

theorem TsDemux.Collects.mapped {pes : TsDelivery} (h : d.Collects pes) : d.mapped.Collects pes :=
  ⟨h.pid, h.dts, h.pts, h.data, h.others⟩

/-- What is left of a PES after its first packet. -/
theorem pesHead_rest {bytes data : List UInt8} {id length timestamp : Nat}
    (h : bytes = pesHead id length timestamp ++ data) :
    bytes.drop (0 + min 184 (bytes.length - 0)) = data.drop 170 := by
  have hlength : bytes.length = 14 + data.length := by
    rw [h, List.length_append, pesHead_length]
  by_cases hlong : 170 ≤ data.length
  · rw [show 0 + min 184 (bytes.length - 0) = 184 by omega, h, List.drop_append, pesHead_length,
      List.drop_of_length_le (by rw [pesHead_length]; omega), List.nil_append]
  · rw [List.drop_of_length_le (by omega), List.drop_of_length_le (by omega)]

/-- One frame, with the tables before it. -/
theorem encode_decoded {pending : TsDelivery} (hvalid : frame.Valid) (hready : m.Ready)
    (junk : Nat → Mem) (hc : d.Collects pending) (hlen : pending.data.length < 2 ^ 31)
    (hsize : frame.data.length + 20 < 2 ^ 31) :
    ∃ sb m' d', encode m junk frame.data frame.timestamp frame.streamType [] = .ret (sb, m') ∧
      m'.Ready ∧ (∀ rest, tsDecode d (sb.map (·.data) ++ rest) = tsDecode d' rest) ∧
      d'.delivered = d.delivered ++ (pending.handedOn ++ frame.atOnce) ∧
      d'.Collects frame.collected := by
  obtain ⟨pes, hpes⟩ : ∃ pes, pes = createPes frame.data frame.timestamp frame.streamType :=
    ⟨_, rfl⟩
  have hmedia := createPes_media hvalid
  rw [← hpes] at hmedia
  have hplain : pes.Plain := by
    rw [hmedia, YangTsPes.Plain]
    rcases mediaId_media hvalid with hid | hid
    · dsimp only
      rw [hid]
      rfl
    · dsimp only
      rw [hid]
      rfl
  have hpid : pes.pid = mediaPid frame.streamType := by
    rw [hmedia]
  have hsmall : pes.pid < 8192 := by
    rw [hpid]
    exact mediaPid_lt frame.streamType
  have hdata : pes.data = pesHead (mediaId frame.streamType) frame.data.length frame.timestamp ++
      frame.data := by
    rw [hmedia]
  have hlength : pes.data.length = frame.data.length + 13 + 1 := by
    rw [hdata, List.length_append, pesHead_length]
    omega
  obtain ⟨pat, pmt, m₁, htables, hready₁, hmapped⟩ := encodePmtWithoutData_decoded (d := d)
    (m := { m with currentIndex := 0 + 1 }) hready.2 junk
  obtain ⟨packet, hpacket, hcarries⟩ := createTsPacket_carries hplain hsmall (junk (0 + 2)) true
    (getCc m₁ pes.streamType).1 0
  have hstart : (pes.data.drop 0).take 184 = pesHead (mediaId frame.streamType) frame.data.length
      frame.timestamp ++ frame.data.take 170 := by
    rw [List.drop_zero, hdata, List.take_append, pesHead_length,
      List.take_of_length_le (by rw [pesHead_length]; omega)]
  rw [hstart, hpid] at hcarries
  obtain ⟨d₁, hdecode, htables₁, hdelivered₁, hcollects₁⟩ := createTsLoop_first hvalid
    (d.mapped_streams frame.streamType) hc.mapped hlen hcarries
  have hstreams₁ : d₁.Streams pes.pid := by
    rw [hpid]
    exact (d.mapped_streams frame.streamType).congr htables₁
  obtain ⟨packets, m', d', hloop, hready', hrest, hdelivered, -, hcollects⟩ :=
    createTsLoop_more (fun i => junk (i + 1 + 2)) hplain hsmall
      (show pes.data.length - (0 + min 184 (pes.data.length - 0)) ≤ frame.data.length + 13 by omega)
      (getCc_ready hready₁ pes.streamType) hstreams₁ hcollects₁ hpid.symm
  refine ⟨[pat, pmt] ++ packet :: packets, m', d', ?_, hready', ?_, ?_, ?_⟩
  · have hwhole : createTsLoop pes.data.length pes (fun i => junk (i + 2)) true 0 m₁ =
        (packet :: packets, m') := by
      rw [hlength, createTsLoop, if_pos (by omega)]
      dsimp only
      rw [hpacket]
      dsimp only
      rw [hloop]
    unfold encode shouldCreatePat encodeFrame createTs
    rw [hready.1, if_pos (show 0 % patInterval = 0 from rfl)]
    dsimp only
    rw [if_pos rfl, htables]
    dsimp only
    rw [if_neg (by omega), ← hpes, hwhole]
  · intro rest
    rw [List.map_append, List.append_assoc]
    exact (hmapped _).trans ((tsDecode_cons hcarries.sync hdecode).trans (hrest rest))
  · rw [hdelivered, hdelivered₁]
    rfl
  · have hbytes : (if frame.TakenWhole then [] else frame.data.take 170) ++
        pes.data.drop (0 + min 184 (pes.data.length - 0)) =
        if frame.TakenWhole then frame.data.drop 170 else frame.data := by
      rw [pesHead_rest hdata]
      split
      · exact List.nil_append _
      · exact List.take_append_drop _ _
    rw [TsFrame.collected, ← hbytes]
    exact hcollects

end Frames

/-- The packets of the frames one after the other. Each frame has a vector of its own, and with it
is what its new buffers hold. -/
def tsEncode (m : YangTsMuxer) : List (TsFrame × (Nat → Mem)) → Call (List Mem)
  | [] => .ret []
  | (frame, junk) :: rest => do
    let (sb, m) ← encode m junk frame.data frame.timestamp frame.streamType []
    let packets ← tsEncode m rest
    return sb.map (·.data) ++ packets

/-- Every frame comes out once, in order, with its bytes and its time. -/
def TsRoundTrips (frames : List (TsFrame × (Nat → Mem))) : Prop :=
  ∃ packets d, tsEncode {} frames = .ret packets ∧ tsDecode {} packets = .ret d ∧
    d.delivered.map (fun pes => (pes.data, pes.pts)) =
      frames.map fun (frame, _) => (frame.data, frame.timestamp)

/-- What comes out of the frames, the last of which may be kept back. -/
def handedOver (pending : TsDelivery) : List TsFrame → List TsDelivery
  | [] => []
  | frame :: frames => pending.handedOn ++ frame.atOnce ++ handedOver frame.collected frames

section Runs

variable {frames : List (TsFrame × (Nat → Mem))} {m : YangTsMuxer} {d : TsDemux}

theorem collected_length (frame : TsFrame) : frame.collected.data.length ≤ frame.data.length := by
  show (if frame.TakenWhole then frame.data.drop 170 else frame.data).length ≤ _
  split
  · rw [List.length_drop]
    omega
  · exact Nat.le_refl _

theorem tsEncode_decoded {pending : TsDelivery} (hvalid : ∀ frame ∈ frames, frame.1.Valid)
    (hsize : ∀ frame ∈ frames, frame.1.data.length + 20 < 2 ^ 31) (hready : m.Ready)
    (hc : d.Collects pending) (hlen : pending.data.length < 2 ^ 31) :
    ∃ packets d', tsEncode m frames = .ret packets ∧ tsDecode d packets = .ret d' ∧
      d'.delivered = d.delivered ++ handedOver pending (frames.map Prod.fst) := by
  induction frames generalizing m d pending with
  | nil => exact ⟨[], d, rfl, rfl, (List.append_nil _).symm⟩
  | cons head frames ih =>
    obtain ⟨frame, junk⟩ := head
    obtain ⟨hframe, hvalid⟩ := List.forall_mem_cons.mp hvalid
    obtain ⟨hfits, hsize⟩ := List.forall_mem_cons.mp hsize
    obtain ⟨sb, m₁, d₁, hencode, hready₁, hrest, hdelivered₁, hcollects₁⟩ :=
      encode_decoded hframe hready junk hc hlen hfits
    have hlen₁ := collected_length frame
    obtain ⟨packets, d', hencodes, hdecodes, hdelivered⟩ :=
      ih hvalid hsize hready₁ hcollects₁ (Nat.lt_of_le_of_lt hlen₁ (by dsimp only at hfits; omega))
    refine ⟨sb.map (·.data) ++ packets, d', ?_, (hrest packets).trans hdecodes, ?_⟩
    · rw [tsEncode, hencode, Call.ret_bind]
      dsimp only
      rw [hencodes]
      rfl
    · rw [hdelivered, hdelivered₁, List.append_assoc]
      rfl

/-- A frame too large for the copy that is made of it. -/
theorem tsEncode_large {packets : List Mem} (h : tsEncode m frames = .ret packets) :
    ∀ frame ∈ frames, frame.1.data.length + 20 < 2 ^ 31 := by
  induction frames generalizing m packets with
  | nil => exact fun _ hframe => nomatch hframe
  | cons head frames ih =>
    obtain ⟨frame, junk⟩ := head
    rw [tsEncode] at h
    obtain ⟨⟨sb, m₁⟩, hencode, hrest⟩ := Call.bind_eq_ret.mp h
    obtain ⟨others, hothers, -⟩ := Call.bind_eq_ret.mp hrest
    refine List.forall_mem_cons.mpr ⟨?_, ih hothers⟩
    by_contra hlarge
    have hcrash : ∀ m junk sb, encodeFrame m junk frame.data frame.timestamp frame.streamType sb =
        .crash := fun m junk sb => if_pos (Nat.le_of_not_lt hlarge)
    unfold encode at hencode
    dsimp only at hencode
    rw [hcrash] at hencode
    cases hencode

theorem tsRoundTrips_handed (hvalid : ∀ frame ∈ frames, frame.1.Valid)
    (hsize : ∀ frame ∈ frames, frame.1.data.length + 20 < 2 ^ 31) : TsRoundTrips frames ↔
      (handedOver ⟨[], 0, 0, 0⟩ (frames.map Prod.fst)).map (fun pes => (pes.data, pes.pts)) =
        frames.map fun (frame, _) => (frame.data, frame.timestamp) := by
  obtain ⟨packets, d, hencode, hdecode, hdelivered⟩ := tsEncode_decoded (m := {}) (d := {})
    hvalid hsize ⟨rfl, rfl⟩ (collects_nothing (fun _ => rfl) 0) (Nat.two_pow_pos 31)
  rw [show ({} : TsDemux).delivered = [] from rfl, List.nil_append] at hdelivered
  constructor
  · rintro ⟨packets', d', hencode', hdecode', hsame⟩
    cases hencode.symm.trans hencode'
    cases hdecode.symm.trans hdecode'
    rw [← hdelivered, hsame]
  · intro hsame
    exact ⟨packets, d, hencode, hdecode, by rw [hdelivered, hsame]⟩

end Runs

/-- A frame that comes out whole: it fits one packet, or its length is one that the demuxer takes
for more than one. -/
structure TsFrame.ComesOut (frame : TsFrame) : Prop where
  timestamp : frame.timestamp < 2 ^ 31
  length : 1 ≤ frame.data.length ∧ frame.data.length ≤ 170 ∨
    177 ≤ frame.data.length ∧ frame.data.length ≤ 65527

section Handed

variable {frame : TsFrame} {frames : List TsFrame} {pending : TsDelivery}

theorem readTime_eq (h : frame.timestamp < 2 ^ 33) :
    readTime frame.timestamp = frame.timestamp ↔ frame.timestamp < 2 ^ 31 := by
  unfold readTime
  split
  · omega
  · omega

theorem handedOn_nonempty (pes : TsDelivery) : ∀ given ∈ pes.handedOn, given.data ≠ [] := by
  intro given hgiven
  unfold TsDelivery.handedOn at hgiven
  split at hgiven
  · cases hgiven
  · rename_i hdata
    obtain rfl := List.mem_singleton.mp hgiven
    exact hdata

theorem handedOver_nonempty : ∀ given ∈ handedOver pending frames, given.data ≠ [] := by
  induction frames generalizing pending with
  | nil => exact fun _ hgiven => nomatch hgiven
  | cons frame frames ih =>
    intro given hgiven
    rw [handedOver, List.mem_append, List.mem_append] at hgiven
    rcases hgiven with (hpending | honce) | hlater
    · exact handedOn_nonempty pending given hpending
    · unfold TsFrame.atOnce at honce
      split at honce
      · exact handedOn_nonempty _ given honce
      · cases honce
    · exact ih given hlater

/-- What is given of a delivery or a frame. -/
def TsDelivery.given (pes : TsDelivery) : List UInt8 × Nat := (pes.data, pes.pts)

def TsFrame.given (frame : TsFrame) : List UInt8 × Nat := (frame.data, frame.timestamp)

theorem TsFrame.ComesOut.handing_given (h : frame.ComesOut) :
    (frame.handing frame.data).handedOn.map TsDelivery.given = [frame.given] := by
  have hdata : frame.data ≠ [] := by
    intro hnil
    have hlength := h.length
    rw [hnil] at hlength
    rcases hlength with ⟨hone, -⟩ | ⟨hmany, -⟩
    · cases hone
    · cases hmany
  have hone : (frame.handing frame.data).handedOn = [frame.handing frame.data] := if_neg hdata
  have htime : readTime frame.timestamp = frame.timestamp :=
    (readTime_eq (by have := h.timestamp; omega)).mpr h.timestamp
  rw [hone]
  show [(frame.data, readTime frame.timestamp)] = _
  rw [htime]
  rfl

theorem TsFrame.atOnce_short (hshort : frame.data.length ≤ 170) :
    frame.atOnce = (frame.handing frame.data).handedOn ∧ frame.collected.data = [] := by
  have hwhole : frame.TakenWhole := .inl (by omega)
  refine ⟨?_, ?_⟩
  · rw [TsFrame.atOnce, if_pos hwhole, List.take_of_length_le hshort]
  · show (if frame.TakenWhole then frame.data.drop 170 else frame.data) = []
    rw [if_pos hwhole, List.drop_of_length_le hshort]

theorem TsFrame.ComesOut.long (h : frame.ComesOut) (hlong : 170 < frame.data.length) :
    frame.atOnce = [] ∧ frame.collected = frame.handing frame.data := by
  have hwhole : ¬ frame.TakenWhole := by
    have hlength := h.length
    rw [TsFrame.TakenWhole]
    omega
  exact ⟨if_neg hwhole, congrArg frame.handing (if_neg hwhole)⟩

/-- Frames that come out, of which the last fits one packet. -/
theorem handedOver_whole (hout : ∀ frame ∈ frames, frame.ComesOut)
    (hlast : ∀ frame, frames.getLast? = some frame → frame.data.length ≤ 170)
    (hpending : frames = [] → pending.data = []) :
    (handedOver pending frames).map TsDelivery.given =
      pending.handedOn.map TsDelivery.given ++ frames.map TsFrame.given := by
  induction frames generalizing pending with
  | nil =>
    rw [TsDelivery.handedOn, if_pos (hpending rfl)]
    rfl
  | cons frame frames ih =>
    obtain ⟨hframe, hothers⟩ := List.forall_mem_cons.mp hout
    have hlast' : ∀ last, frames.getLast? = some last → last.data.length ≤ 170 := by
      intro last hsome
      refine hlast last ?_
      rw [List.getLast?_cons, hsome]
      rfl
    rw [handedOver, List.map_append, List.map_append, List.append_assoc, List.map_cons]
    refine congrArg _ ?_
    by_cases hshort : frame.data.length ≤ 170
    · obtain ⟨honce, hnothing⟩ := TsFrame.atOnce_short hshort
      have hnone : frame.collected.handedOn = [] := if_pos hnothing
      rw [honce, hframe.handing_given, ih hothers hlast' fun _ => hnothing, hnone]
      rfl
    · obtain ⟨honce, hkept⟩ := hframe.long (by omega)
      have hmore : frames ≠ [] := by
        rintro rfl
        exact hshort (hlast frame rfl)
      rw [honce, hkept, ih hothers hlast' fun hnil => absurd hnil hmore, hframe.handing_given]
      rfl

theorem handed_first {rest : List (List UInt8 × Nat)} {pes : TsDelivery}
    (h : pes.handedOn.map TsDelivery.given ++ rest = frame.given :: frames.map TsFrame.given)
    (hdata : pes.data ≠ []) : pes.data = frame.data ∧ pes.pts = frame.timestamp := by
  rw [TsDelivery.handedOn, if_neg hdata] at h
  obtain ⟨hhead, -⟩ := List.cons.inj h
  exact Prod.mk.inj hhead

/-- A frame that is not the next thing to come out is not made up for. -/
theorem comesOut_first (htime : frame.timestamp < 2 ^ 33)
    (h : frame.atOnce.map TsDelivery.given ++
      (handedOver frame.collected frames).map TsDelivery.given =
      frame.given :: frames.map TsFrame.given) :
    frame.ComesOut ∧ (frames = [] → frame.data.length ≤ 170) ∧
      (handedOver frame.collected frames).map TsDelivery.given =
        frame.collected.handedOn.map TsDelivery.given ++ frames.map TsFrame.given := by
  by_cases hwhole : frame.TakenWhole
  · by_cases hdata : frame.data = []
    · have honce : frame.atOnce = [] := by
        rw [TsFrame.atOnce, if_pos hwhole, hdata]
        rfl
      rw [honce] at h
      have hgiven : frame.given ∈ (handedOver frame.collected frames).map TsDelivery.given := by
        rw [show (handedOver frame.collected frames).map TsDelivery.given = _ from h]
        exact List.mem_cons_self
      obtain ⟨given, hmem, hsame⟩ := List.mem_map.mp hgiven
      exact absurd ((congrArg Prod.fst hsame).trans hdata) (handedOver_nonempty given hmem)
    · have honce : frame.atOnce = (frame.handing (frame.data.take 170)).handedOn := if_pos hwhole
      have htake : frame.data.take 170 ≠ [] := by
        rw [ne_eq, List.take_eq_nil_iff]
        rintro (hzero | hnil)
        · cases hzero
        · exact hdata hnil
      rw [honce] at h
      obtain ⟨hbytes, hread⟩ := handed_first h htake
      have hshort : frame.data.length ≤ 170 := by
        have hlength := congrArg List.length hbytes
        rw [show (frame.handing (frame.data.take 170)).data = frame.data.take 170 from rfl,
          List.length_take] at hlength
        omega
      have hout : frame.ComesOut :=
        ⟨(readTime_eq htime).mp hread, .inl ⟨List.length_pos_iff.mpr hdata, hshort⟩⟩
      refine ⟨hout, fun _ => hshort, ?_⟩
      have hnone : frame.collected.handedOn = [] := if_pos (TsFrame.atOnce_short hshort).2
      rw [List.take_of_length_le hshort, hout.handing_given] at h
      rw [hnone]
      exact (List.cons.inj h).2
  · have honce : frame.atOnce = [] := if_neg hwhole
    have hkept : frame.collected = frame.handing frame.data := congrArg frame.handing (if_neg hwhole)
    rw [TsFrame.TakenWhole] at hwhole
    have hdata : frame.data ≠ [] := by
      intro hnil
      rw [hnil, List.length_nil] at hwhole
      omega
    rw [honce, hkept] at h
    rw [hkept]
    cases frames with
    | nil => cases h
    | cons next others =>
      have hcame := h
      rw [handedOver, List.append_assoc, List.map_append] at hcame
      obtain ⟨-, hread⟩ := handed_first hcame hdata
      have hout : frame.ComesOut :=
        ⟨(readTime_eq htime).mp hread, .inr ⟨by omega, by omega⟩⟩
      refine ⟨hout, fun hnil => (nomatch hnil), ?_⟩
      rw [hout.handing_given]
      exact h

/-- The first frame that does not come out whole shows. -/
theorem comesOut_of_handedOver (hvalid : ∀ frame ∈ frames, frame.timestamp < 2 ^ 33)
    (h : (handedOver pending frames).map TsDelivery.given =
      pending.handedOn.map TsDelivery.given ++ frames.map TsFrame.given) :
    (∀ frame ∈ frames, frame.ComesOut) ∧
      (∀ frame, frames.getLast? = some frame → frame.data.length ≤ 170) ∧
      (frames = [] → pending.data = []) := by
  induction frames generalizing pending with
  | nil =>
    refine ⟨List.forall_mem_nil _, fun frame hlast => ?_, fun _ => ?_⟩
    · cases hlast
    · by_contra hdata
      rw [TsDelivery.handedOn, if_neg hdata] at h
      cases h
  | cons frame frames ih =>
    obtain ⟨htime, hothers⟩ := List.forall_mem_cons.mp hvalid
    rw [handedOver, List.map_append, List.map_append, List.append_assoc, List.append_cancel_left_eq,
      List.map_cons] at h
    obtain ⟨hframe, hlong, htail⟩ := comesOut_first htime h
    obtain ⟨hrest, hlast, -⟩ := ih hothers htail
    refine ⟨List.forall_mem_cons.mpr ⟨hframe, hrest⟩, ?_, fun hnil => absurd hnil (List.cons_ne_nil _ _)⟩
    intro last hsome
    rw [List.getLast?_cons] at hsome
    cases hnext : frames.getLast? with
    | some next =>
      rw [hnext] at hsome
      cases hsome
      exact hlast _ hnext
    | none =>
      rw [hnext] at hsome
      cases hsome
      exact hlong (List.getLast?_eq_none_iff.mp hnext)

end Handed

section Frames

variable {frames : List (TsFrame × (Nat → Mem))}

theorem tsRoundTrips_handedOver (hvalid : ∀ frame ∈ frames, frame.1.Valid)
    (hsize : ∀ frame ∈ frames, frame.1.data.length + 20 < 2 ^ 31) : TsRoundTrips frames ↔
      (∀ frame ∈ frames.map Prod.fst, frame.ComesOut) ∧
        ∀ frame, (frames.map Prod.fst).getLast? = some frame → frame.data.length ≤ 170 := by
  have htimes : ∀ frame ∈ frames.map Prod.fst, frame.timestamp < 2 ^ 33 := by
    intro frame hframe
    obtain ⟨pair, hpair, rfl⟩ := List.mem_map.mp hframe
    exact (hvalid pair hpair).timestamp
  have hgiven : (frames.map fun (frame, _) => (frame.data, frame.timestamp)) =
      (frames.map Prod.fst).map TsFrame.given := by
    rw [List.map_map]
    rfl
  rw [tsRoundTrips_handed hvalid hsize, hgiven]
  constructor
  · intro h
    obtain ⟨hout, hlast, -⟩ := comesOut_of_handedOver htimes h
    exact ⟨hout, hlast⟩
  · rintro ⟨hout, hlast⟩
    exact handedOver_whole hout hlast fun _ => rfl

/-- The frames come out exactly when none has a length or a time that the demuxer mistakes, and
nothing of the last is kept back. -/
theorem tsRoundTrips_iff (hvalid : ∀ frame ∈ frames, frame.1.Valid) : TsRoundTrips frames ↔
    (∀ frame ∈ frames.map Prod.fst, frame.ComesOut) ∧
      ∀ frame, (frames.map Prod.fst).getLast? = some frame → frame.data.length ≤ 170 := by
  constructor
  · intro h
    have hsize : ∀ frame ∈ frames, frame.1.data.length + 20 < 2 ^ 31 := by
      obtain ⟨packets, -, hencode, -⟩ := h
      exact tsEncode_large hencode
    exact (tsRoundTrips_handedOver hvalid hsize).mp h
  · intro h
    have hsize : ∀ frame ∈ frames, frame.1.data.length + 20 < 2 ^ 31 := by
      intro frame hframe
      have hlength := (h.1 frame.1 (List.mem_map_of_mem hframe)).length
      omega
    exact (tsRoundTrips_handedOver hvalid hsize).mpr h

def audioFrame (length : Nat) : TsFrame := ⟨.tsAac, List.replicate length 7, 1000⟩

theorem audioFrame_valid (length : Nat) : (audioFrame length).Valid :=
  ⟨fun h => (nomatch h), show 1000 < 2 ^ 33 by omega⟩

theorem audioFrame_length (length : Nat) : (audioFrame length).data.length = length :=
  List.length_replicate

/-- A long frame comes out when a short one follows it. -/
theorem tsRoundTrips_two :
    TsRoundTrips [(audioFrame 200, fun _ _ => 0), (audioFrame 3, fun _ _ => 0)] := by
  refine (tsRoundTrips_iff ?_).mpr ⟨?_, ?_⟩
  · rintro frame hframe
    simp only [List.mem_cons, List.not_mem_nil, or_false] at hframe
    rcases hframe with rfl | rfl
    · exact audioFrame_valid 200
    · exact audioFrame_valid 3
  · rintro frame hframe
    simp only [List.map_cons, List.map_nil, List.mem_cons, List.not_mem_nil, or_false] at hframe
    rcases hframe with rfl | rfl
    · exact ⟨by decide, by rw [audioFrame_length]; omega⟩
    · exact ⟨by decide, by rw [audioFrame_length]; omega⟩
  · intro frame hframe
    obtain rfl : audioFrame 3 = frame := Option.some.inj hframe
    rw [audioFrame_length]
    omega

/-- The first packet of a frame of 171 bytes is taken for all of it. -/
theorem long_frame_cut : ¬ ∀ frames : List (TsFrame × (Nat → Mem)),
    (∀ frame ∈ frames, frame.1.Valid) → TsRoundTrips frames := by
  intro h
  have hframes : ∀ frame ∈ [(audioFrame 171, fun (_ _ : Nat) => (0 : UInt8)),
      (audioFrame 3, fun _ _ => 0)], frame.1.Valid ∧ frame.1.data.length + 20 < 2 ^ 31 := by
    intro frame hframe
    simp only [List.mem_cons, List.not_mem_nil, or_false] at hframe
    rcases hframe with rfl | rfl
    · exact ⟨audioFrame_valid 171, by rw [audioFrame_length]; omega⟩
    · exact ⟨audioFrame_valid 3, by rw [audioFrame_length]; omega⟩
  have hvalid := fun frame hframe => (hframes frame hframe).1
  obtain ⟨hout, -⟩ := (tsRoundTrips_handedOver hvalid fun frame hframe =>
    (hframes frame hframe).2).mp (h _ hvalid)
  have hlength := (hout _ List.mem_cons_self).length
  rw [audioFrame_length] at hlength
  omega

end Frames

end MetaRtc
