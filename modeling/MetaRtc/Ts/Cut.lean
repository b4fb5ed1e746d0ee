import MetaRtc.Ts.Interleave
import MetaRtc.Ts.Packets

/-! # The packets of a PES

What the demuxer sees of each packet that the muxer cuts. -/
namespace MetaRtc

open Bytes Exec Function

section Packets

variable {frame : YangTsPes} {junk data : Mem} {first : Bool} {cc pos : Nat}

/-- The header of a packet of a PES. -/
def TsHeader.ofPes (frame : YangTsPes) (first : Bool) (cc : Nat) : TsHeader where
  payloadUnitStartIndicator := first
  pid := frame.pid
  adaptationFieldControl := payloadOnly
  continuityCounter := cc

/-- A frame that gets no adaptation field but for stuffing. -/
def YangTsPes.Plain (frame : YangTsPes) : Prop :=
  (frame.streamType == streamTypeVideoH264 || frame.streamType == streamTypeVideoHevc) = false

/-- A packet with its header, before its bytes are put in. -/
def TsHeader.packet (header : TsHeader) (junk : Mem) : YangTsBuffer :=
  (((YangTsBuffer.new junk).writeBytes header.encode).writeBytes (List.replicate 184 0)).skip 4

theorem createTsPacket_full (hplain : frame.Plain) (hpos : 184 ≤ frame.data.length - pos) :
    createTsPacket frame junk first cc pos = (((TsHeader.ofPes frame first cc).packet junk).setData 4
      ((frame.data.drop pos).take 184), 184) := by
  unfold createTsPacket
  dsimp only
  rw [hplain, Bool.and_false]
  exact if_pos hpos

/-- The packet with room for its bytes at its end. -/
def YangTsBuffer.stuff (packet : YangTsBuffer) (stuffSize : Nat) : YangTsBuffer :=
  let packet := packet.poke 3 [packet.data 3 ||| 0x20]
  let packet := packet.setData (188 - 4 - stuffSize) (packet.data.slice 4 (packet.pos - 4))
  let packet := (packet.skip stuffSize).poke 4 [UInt8.ofNat (stuffSize - 1)]
  if stuffSize ≥ 2 then (packet.poke 5 [0]).poke 6 (List.replicate (stuffSize - 2) 0xff)
  else packet

theorem createTsPacket_stuffed (junk : Mem) (hplain : frame.Plain) (hpos : ¬ 184 ≤ frame.data.length - pos) :
    ∃ packet, packet =
        ((TsHeader.ofPes frame first cc).packet junk).stuff (184 - (frame.data.length - pos)) ∧
      createTsPacket frame junk first cc pos = (packet.setData packet.pos
        ((frame.data.drop pos).take (frame.data.length - pos)), frame.data.length - pos) := by
  refine ⟨_, rfl, ?_⟩
  unfold createTsPacket
  dsimp only
  rw [hplain, Bool.and_false]
  exact if_neg hpos

theorem YangTsBuffer.setData_nil (sb : YangTsBuffer) (p : Nat) : sb.setData p [] = sb := by
  have hwrite : sb.data.write p [] = sb.data := by
    funext i
    simp [Mem.write]
  unfold YangTsBuffer.setData
  split
  · rfl
  · rw [YangTsBuffer.poke, hwrite]

theorem YangTsBuffer.setData_eq {sb : YangTsBuffer} {p : Nat} {bytes : List UInt8}
    (h : p + bytes.length ≤ sb.size) : sb.setData p bytes = sb.poke p bytes := if_neg (by omega)

theorem TsHeader.packet_header (header : TsHeader) (junk : Mem) :
    (header.packet junk).data.slice 0 4 = header.encode := by
  show (((junk.write 0 header.encode).write 4 (List.replicate 184 0))).slice 0 4 = _
  rw [Mem.slice_write_disjoint _ _ _ (.inl (by omega))]
  exact junk.slice_write 0 header.encode

theorem TsHeader.packet_size (header : TsHeader) (junk : Mem) : (header.packet junk).size = 188 := by
  show 0 + header.encode.length + (List.replicate 184 (0 : UInt8)).length = 188
  rw [header.encode_length, List.length_replicate]

theorem Mem.write_head (m : Mem) (p : Nat) (b : UInt8) : m.write p [b] p = b := by
  simp [Mem.write]

/-- What stuffing does to the first five bytes, and where it leaves room. -/
theorem YangTsBuffer.stuff_bytes (packet : YangTsBuffer) (stuffSize : Nat)
    (hpos : packet.pos = 4) : (packet.stuff stuffSize).pos = 4 + stuffSize ∧
      (packet.stuff stuffSize).size = packet.size ∧
      (packet.stuff stuffSize).data.slice 0 3 = packet.data.slice 0 3 ∧
      (packet.stuff stuffSize).data 3 = packet.data 3 ||| 0x20 ∧
      (packet.stuff stuffSize).data 4 = UInt8.ofNat (stuffSize - 1) := by
  obtain ⟨marked, hmarked⟩ : ∃ marked : Mem, marked =
      (packet.data.write 3 [packet.data 3 ||| 0x20]).write 4 [UInt8.ofNat (stuffSize - 1)] :=
    ⟨_, rfl⟩
  have hstuff : packet.stuff stuffSize = { packet with
      pos := 4 + stuffSize
      data := if stuffSize ≥ 2 then
        (marked.write 5 [0]).write 6 (List.replicate (stuffSize - 2) 0xff) else marked } := by
    have hnil : ∀ m : Mem, m.slice 4 (packet.pos - 4) = [] := by
      intro m
      rw [hpos]
      rfl
    unfold YangTsBuffer.stuff
    dsimp only
    rw [show ∀ b, (packet.poke 3 b).pos = packet.pos from fun _ => rfl, hnil,
      YangTsBuffer.setData_nil, hmarked, ← hpos]
    split
    · rfl
    · rfl
  have hafter : ∀ i, i < 5 → (packet.stuff stuffSize).data i = marked i := by
    intro i hi
    rw [hstuff]
    show (if stuffSize ≥ 2 then _ else marked) i = _
    split
    · rw [Mem.write_outside _ _ _ (.inl (by omega)), Mem.write_outside _ _ _ (.inl (by omega))]
    · rfl
  refine ⟨?_, ?_, ?_, ?_, ?_⟩
  · rw [hstuff]
  · rw [hstuff]
    rfl
  · refine Mem.slice_congr fun i _ hi => ?_
    rw [hafter i (by omega), hmarked, Mem.write_outside _ _ _ (.inl (by omega)),
      Mem.write_outside _ _ _ (.inl (by omega))]
  · rw [hafter 3 (by omega), hmarked, Mem.write_outside _ _ _ (.inl (by omega)), Mem.write_head]
  · rw [hafter 4 (by omega), hmarked, Mem.write_head]

end Packets

section Headers

variable {data : Mem} {header : TsHeader}

theorem TsHeader.decode (h : data.slice 0 3 = header.encode.take 3) : data 0 = 0x47 ∧
    (decodeTsHeader data).payloadUnitStartIndicator = header.payloadUnitStartIndicator ∧
      (decodeTsHeader data).pid = header.pid % 8192 := by
  obtain ⟨v, hv⟩ : ∃ v, v =
      header.pid % 8192 + if header.payloadUnitStartIndicator then 0x4000 else 0 := ⟨_, rfl⟩
  have hbytes : [data 0, data 1, data 2] = 0x47 :: beBytes 2 v := by
    rw [hv]
    exact h
  obtain ⟨hsync, hrest⟩ := List.cons.inj hbytes
  obtain ⟨hone, htwo⟩ := List.cons.inj hrest
  have hfirst : (data 1).toNat = v / 256 % 256 := by
    rw [hone]
    exact UInt8.toNat_ofNat
  refine ⟨hsync, ?_, ?_⟩
  · show ((data 1).toNat / 2 ^ 6 % 2 == 1) = _
    rw [hfirst, hv]
    cases header.payloadUnitStartIndicator
    · simp only [Bool.false_eq_true, if_false, beq_eq_false_iff_ne]
      omega
    · simp only [if_true, beq_iff_eq]
      omega
  · show data.be 1 2 % 8192 = _
    rw [Mem.be_of_slice (show data.slice 1 2 = beBytes 2 v from hrest), hv]
    split
    · omega
    · omega

theorem decodeTsHeader_plain (h : (data 3).toNat / 16 % 4 = 1) :
    (decodeTsHeader data).adaptationFieldControl = 1 ∧ (decodeTsHeader data).pos = 4 ∧
      (decodeTsHeader data).npos = 4 := by
  unfold decodeTsHeader
  dsimp only
  rw [h]
  exact ⟨rfl, rfl, rfl⟩

theorem decodeTsHeader_adapted (h : (data 3).toNat / 16 % 4 = 3) :
    (decodeTsHeader data).adaptationFieldControl = 3 ∧
      (decodeTsHeader data).npos = 4 + 1 + (data 4).toNat := by
  unfold decodeTsHeader
  dsimp only
  rw [h]
  exact ⟨rfl, rfl⟩

theorem TsHeader.control_byte (h : data.slice 0 4 = header.encode) : (data 3).toNat =
    header.continuityCounter % 16 + header.adaptationFieldControl % 4 * 16 := by
  have hbyte : data 3 = UInt8.ofNat
      (header.continuityCounter % 16 + header.adaptationFieldControl % 4 * 16) := by
    have hget := congrArg (fun bytes => bytes.getD 3 0) h
    exact hget
  rw [hbyte]
  refine UInt8.toNat_ofNat.trans (Nat.mod_eq_of_lt ?_)
  omega

end Headers

section Cuts

variable {data : Mem} {body : List UInt8}

theorem carries_plain (header : TsHeader) (hheader : data.slice 0 4 = header.encode)
    (hcontrol : header.adaptationFieldControl = payloadOnly) (hpid : header.pid < 8192)
    (hlength : body.length = 184) (hbody : data.slice 4 184 = body) :
    TsCarries data header.payloadUnitStartIndicator header.pid body := by
  have hthree := congrArg (List.take 3) hheader
  obtain ⟨hsync, hfirst, hunit⟩ := TsHeader.decode hthree
  have hone : (data 3).toNat / 16 % 4 = 1 := by
    rw [TsHeader.control_byte hheader, hcontrol, payloadOnly]
    omega
  obtain ⟨hplain, -, hnpos⟩ := decodeTsHeader_plain hone
  refine ⟨hsync, hfirst, hunit.trans (Nat.mod_eq_of_lt hpid), .inl hplain, ?_, ?_⟩
  · rw [hnpos, hlength]
  · rw [hnpos, hlength]
    exact hbody

theorem carries_adapted (header : TsHeader) {stuffSize : Nat}
    (hheader : data.slice 0 3 = header.encode.take 3)
    (hcontrol : (data 3).toNat / 16 % 4 = 3) (hpid : header.pid < 8192)
    (hstuff : data 4 = UInt8.ofNat (stuffSize - 1)) (hsome : 0 < stuffSize)
    (hlength : body.length + stuffSize = 184)
    (hbody : data.slice (4 + stuffSize) body.length = body) :
    TsCarries data header.payloadUnitStartIndicator header.pid body := by
  obtain ⟨hsync, hfirst, hunit⟩ := TsHeader.decode hheader
  obtain ⟨hadapted, hnpos⟩ := decodeTsHeader_adapted hcontrol
  have hfour : (data 4).toNat = stuffSize - 1 := by
    rw [hstuff]
    exact UInt8.toNat_ofNat.trans (Nat.mod_eq_of_lt (by omega))
  have hstart : (decodeTsHeader data).npos = 4 + stuffSize := by
    rw [hnpos, hfour]
    omega
  refine ⟨hsync, hfirst, hunit.trans (Nat.mod_eq_of_lt hpid), .inr hadapted, ?_, ?_⟩
  · rw [hstart]
    omega
  · rw [hstart]
    exact hbody

theorem adapted_control (b : UInt8) (h : b.toNat / 16 % 4 = 1) : (b ||| 0x20).toNat / 16 % 4 = 3 :=
  forall_bytes (P := fun b => b.toNat / 16 % 4 = 1 → (b ||| 0x20).toNat / 16 % 4 = 3)
    (by decide +kernel) b h

variable {frame : YangTsPes}

/-- The packet carries what comes next of the PES. -/
theorem createTsPacket_carries (hplain : frame.Plain) (hpid : frame.pid < 8192) (junk : Mem)
    (first : Bool) (cc pos : Nat) :
    ∃ packet, createTsPacket frame junk first cc pos =
        (packet, min 184 (frame.data.length - pos)) ∧
      TsCarries packet.data first frame.pid ((frame.data.drop pos).take 184) := by
  have hencoded := (TsHeader.ofPes frame first cc).packet_header junk
  have hdropped : (frame.data.drop pos).length = frame.data.length - pos := List.length_drop
  by_cases hfull : 184 ≤ frame.data.length - pos
  · have hbody : ((frame.data.drop pos).take 184).length = 184 := by
      rw [List.length_take, hdropped, Nat.min_eq_left hfull]
    refine ⟨_, (createTsPacket_full hplain hfull).trans
      (congrArg (Prod.mk _) (Nat.min_eq_left hfull).symm), ?_⟩
    rw [YangTsBuffer.setData_eq (by rw [hbody, TsHeader.packet_size])]
    refine carries_plain (.ofPes frame first cc) ?_ rfl hpid hbody ?_
    · rw [← hencoded]
      exact Mem.slice_write_disjoint _ _ _ (.inl (Nat.le_refl 4))
    · have hslice := Mem.slice_write ((TsHeader.ofPes frame first cc).packet junk).data 4
        ((frame.data.drop pos).take 184)
      rwa [hbody] at hslice
  · have hbody : (frame.data.drop pos).take (frame.data.length - pos) = frame.data.drop pos :=
      List.take_of_length_le (Nat.le_of_eq hdropped)
    have hall : (frame.data.drop pos).take 184 = frame.data.drop pos :=
      List.take_of_length_le (by omega)
    obtain ⟨stuffed, hstuffed, hpacket⟩ := createTsPacket_stuffed junk hplain hfull
    obtain ⟨hpos, hsize, hthree, hmark, hlength⟩ :=
      ((TsHeader.ofPes frame first cc).packet junk).stuff_bytes
        (184 - (frame.data.length - pos)) rfl
    rw [← hstuffed] at hpos hsize hthree hmark hlength
    rw [TsHeader.packet_size] at hsize
    refine ⟨_, hpacket.trans (congrArg (Prod.mk _) (Nat.min_eq_right (by omega)).symm), ?_⟩
    rw [hbody, hall, hpos, YangTsBuffer.setData_eq (by omega)]
    have hbefore : ∀ i, i < 5 → (stuffed.poke (4 + (184 - (frame.data.length - pos)))
        (frame.data.drop pos)).data i = stuffed.data i := fun i hi =>
      Mem.write_outside _ _ _ (.inl (by omega))
    refine carries_adapted (.ofPes frame first cc) ?_ ?_ hpid
      ((hbefore 4 (by omega)).trans hlength) (by omega) (by omega) (Mem.slice_write _ _ _)
    · rw [Mem.slice_congr fun i _ hi => hbefore i (by omega), hthree]
      exact congrArg (List.take 3) hencoded
    · rw [hbefore 3 (by omega), hmark]
      refine adapted_control _ ?_
      rw [TsHeader.control_byte hencoded]
      show (cc % 16 + 1 % 4 * 16) / 16 % 4 = 1
      omega

end Cuts

section Loop

variable {frame : YangTsPes} {d : TsDemux} {pos : Nat}

/-- What the calls of a muxer leave as it is. -/
def YangTsMuxer.Ready (m : YangTsMuxer) : Prop := m.currentIndex = 0 ∧ m.pmtPid = mpegtsPmtPid

theorem getCc_ready {m : YangTsMuxer} (h : m.Ready) (withPid : Nat) : (getCc m withPid).2.Ready := h

/-- The packets from `pos` on bring the bytes from `pos` on. -/
theorem createTsLoop_more (junk : Nat → Mem) {fuel : Nat} {m : YangTsMuxer} {pes : TsDelivery}
    (hplain : frame.Plain) (hpid : frame.pid < 8192) (hfuel : frame.data.length - pos ≤ fuel)
    (hready : m.Ready) (hs : d.Streams frame.pid) (hc : d.Collects pes)
    (hmedia : pes.mediaType = frame.pid) :
    ∃ packets m' d', createTsLoop fuel frame junk false pos m = (packets, m') ∧ m'.Ready ∧
      (∀ rest, tsDecode d (packets.map (·.data) ++ rest) = tsDecode d' rest) ∧
      d'.delivered = d.delivered ∧ d'.tables = d.tables ∧
      d'.Collects { pes with data := pes.data ++ frame.data.drop pos } := by
  induction fuel generalizing pos junk m d pes with
  | zero =>
    refine ⟨[], m, d, rfl, hready, fun _ => rfl, rfl, rfl, ?_⟩
    rwa [List.drop_of_length_le (by omega), List.append_nil]
  | succ fuel ih =>
    by_cases hpos : pos < frame.data.length
    · obtain ⟨packet, hpacket, hcarries⟩ := createTsPacket_carries hplain hpid (junk 0) false
        (getCc m frame.streamType).1 pos
      obtain ⟨d₁, hdecode, hdelivered₁, htables₁, hcollects₁⟩ :=
        decodeUnit_more hcarries hs hc hmedia
      obtain ⟨packets, m', d', hloop, hready', hrest, hdelivered, htables, hcollects⟩ :=
        ih (fun i => junk (i + 1))
          (show frame.data.length - (pos + min 184 (frame.data.length - pos)) ≤ fuel by omega)
          (getCc_ready hready frame.streamType) (hs.congr htables₁) hcollects₁ hmedia
      refine ⟨packet :: packets, m', d', ?_, hready', ?_, hdelivered.trans hdelivered₁,
        htables.trans htables₁, ?_⟩
      · rw [createTsLoop, if_pos hpos]
        dsimp only
        rw [hpacket]
        dsimp only
        rw [hloop]
      · intro rest
        rw [List.map_cons, List.cons_append, tsDecode_cons hcarries.sync hdecode, hrest]
      · have hbytes : (frame.data.drop pos).take 184 ++
            frame.data.drop (pos + min 184 (frame.data.length - pos)) = frame.data.drop pos := by
          by_cases hfull : 184 ≤ frame.data.length - pos
          · rw [Nat.min_eq_left hfull, ← List.drop_drop, List.take_append_drop]
          · rw [List.take_of_length_le (by rw [List.length_drop]; omega),
              List.drop_of_length_le (i := pos + _) (by omega), List.append_nil]
        rwa [List.append_assoc, hbytes] at hcollects
    · refine ⟨[], m, d, ?_, hready, fun _ => rfl, rfl, rfl, ?_⟩
      · rw [createTsLoop, if_neg hpos]
      · rwa [List.drop_of_length_le (by omega), List.append_nil]

end Loop

end MetaRtc
