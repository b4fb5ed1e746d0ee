import MetaRtc.Ts.Muxer

/-! # Whole packets

What a vector of packets should look like after each call of the muxer. -/
namespace MetaRtc

open Bytes Exec Function

/-- A packet as it is sent: 188 bytes, the sync byte first. -/
structure YangTsBuffer.IsPacket (packet : YangTsBuffer) : Prop where
  size : packet.size = 188
  sync : packet.data 0 = 0x47
  fault : packet.fault = false

def packetPid (packet : YangTsBuffer) : Nat := packet.data.be 1 2 % 8192

def packetCounter (packet : YangTsBuffer) : Nat := (packet.data 3).toNat % 16

def hasPayload (packet : YangTsBuffer) : Bool := (packet.data 3).toNat / 16 % 2 == 1

/-- The last counter of each PID after some more packets. -/
def lastCounters (last : Nat → Option Nat) (packets : List YangTsBuffer) : Nat → Option Nat :=
  packets.foldl (fun last packet =>
    if hasPayload packet then update last (packetPid packet) (some (packetCounter packet))
    else last) last

/-- Each payload packet has the counter that follows the one before of the same PID. -/
def Continues (last : Nat → Option Nat) : List YangTsBuffer → Prop
  | [] => True
  | packet :: packets =>
    (hasPayload packet → ∀ cc, last (packetPid packet) = some cc →
      packetCounter packet = (cc + 1) % 16) ∧
    Continues (lastCounters last [packet]) packets

inductive TsCall where
  | encode (p : List UInt8) (timestamp : Nat) (streamType : YangTsStream)
  | encodeWithPmt (p : List UInt8) (timestamp : Nat) (streamType : YangTsStream)
  | encodePmtWithoutData

def tsCall (m : YangTsMuxer) (junk : Nat → Mem) (sb : List YangTsBuffer) :
    TsCall → Call (List YangTsBuffer × YangTsMuxer)
  | .encode p timestamp streamType => MetaRtc.encode m junk p timestamp streamType sb
  | .encodeWithPmt p timestamp streamType => MetaRtc.encodeWithPmt m junk p timestamp streamType sb
  | .encodePmtWithoutData => .ret (MetaRtc.encodePmtWithoutData m junk sb)

/-- The calls one after the other, each with the vector it appends to and with what its new
buffers hold. -/
def AppendsPackets (m : YangTsMuxer) (last : Nat → Option Nat) :
    List (TsCall × List YangTsBuffer × (Nat → Mem)) → Prop
  | [] => True
  | (call, sb, junk) :: rest => ∃ packets m',
    tsCall m junk sb call = .ret (sb ++ packets, m') ∧ (∀ packet ∈ packets, packet.IsPacket) ∧
      Continues last packets ∧ AppendsPackets m' (lastCounters last packets) rest

section Tables

variable {m m' : YangTsMuxer} {junk : Nat → Mem} {sb sb' : List YangTsBuffer}

theorem TsHeader.encode_length (header : TsHeader) : header.encode.length = 4 := by
  simp [TsHeader.encode]

theorem SectionHeader.encode_length (header : SectionHeader) : header.encode.length = 8 := by
  simp [SectionHeader.encode]

/-- A table is doubled by its filling, where it takes less than half of a packet. -/
theorem finishTable_length {table : List UInt8} (h : table.length + 4 ≤ 94) :
    (finishTable table).length = 2 * (table.length + 4) := by
  simp only [finishTable, List.length_append, beBytes_length, List.length_take,
    List.length_replicate]
  omega

theorem createPat_length (pmtPid cc : Nat) : (createPat pmtPid cc).length = 42 := by
  have htable : ∀ header : TsHeader, ∀ patHeader : SectionHeader,
      (header.encode ++ AdaptationFieldHeader.encode {} ++ patHeader.encode ++ beBytes 2 0x0001 ++
        beBytes 2 (0xe000 + pmtPid % 8192)).length = 17 := by
    intro header patHeader
    simp [TsHeader.encode_length, SectionHeader.encode_length, AdaptationFieldHeader.encode]
  rw [createPat, finishTable_length (by rw [htable]; decide), htable]

/-- The first element after the tables have been written, whichever it is. -/
theorem encodePmtWithoutData_head (m : YangTsMuxer) (junk : Nat → Mem) (sb : List YangTsBuffer) :
    ∃ first rest, (encodePmtWithoutData m junk sb).1 = first :: rest ∧
      first.size = (sb.head?.map YangTsBuffer.size).getD 0 + 42 := by
  have hsize : ∀ (sb : YangTsBuffer) (cc : Nat),
      (sb.writeBytes (createPat m.pmtPid cc)).size = sb.size + 42 := fun sb cc =>
    congrArg (sb.size + ·) (createPat_length m.pmtPid cc)
  cases sb with
  | nil => exact ⟨_, _, rfl, hsize _ _⟩
  | cons x xs => exact ⟨_, _, rfl, hsize _ _⟩

theorem encodeFrame_appends {p : List UInt8} {timestamp : Nat} {streamType : YangTsStream}
    (h : encodeFrame m junk p timestamp streamType sb = .ret (sb', m')) :
    ∃ packets, sb' = sb ++ packets := by
  unfold encodeFrame at h
  split at h
  · cases h
  · cases h
    exact ⟨_, rfl⟩

theorem tsCall_head {call : TsCall} (hindex : m.currentIndex % patInterval = 0)
    (h : tsCall m junk sb call = .ret (sb', m')) : ∃ first rest, sb' = first :: rest ∧
      first.size = (sb.head?.map YangTsBuffer.size).getD 0 + 42 := by
  cases call with
  | encode p timestamp streamType =>
    simp only [tsCall, encode, shouldCreatePat, if_pos hindex, if_true] at h
    obtain ⟨packets, rfl⟩ := encodeFrame_appends h
    obtain ⟨first, rest, hsb, hsize⟩ := encodePmtWithoutData_head
      { m with currentIndex := 0 + 1 } junk sb
    exact ⟨first, rest ++ packets, by rw [hsb, List.cons_append], hsize⟩
  | encodeWithPmt p timestamp streamType =>
    simp only [tsCall, encodeWithPmt] at h
    obtain ⟨packets, rfl⟩ := encodeFrame_appends h
    obtain ⟨first, rest, hsb, hsize⟩ := encodePmtWithoutData_head m junk sb
    exact ⟨first, rest ++ packets, by rw [hsb, List.cons_append], hsize⟩
  | encodePmtWithoutData =>
    have hsb : (encodePmtWithoutData m junk sb).1 = sb' := congrArg Prod.fst (Call.ret.inj h)
    rw [← hsb]
    exact encodePmtWithoutData_head m junk sb

/-- The association table is no whole packet, and it is written behind a packet that is already
there. -/
theorem not_appendsPackets (call : TsCall) (sb : List YangTsBuffer) (junk : Nat → Mem)
    (rest : List (TsCall × List YangTsBuffer × (Nat → Mem))) :
    ¬ AppendsPackets {} (fun _ => none) ((call, sb, junk) :: rest) := by
  rintro ⟨packets, m', hcall, hpackets, -, -⟩
  obtain ⟨first, others, hsb, hsize⟩ := tsCall_head rfl hcall
  cases sb with
  | nil =>
    rw [List.nil_append] at hsb
    have hfirst : first ∈ packets := hsb ▸ List.mem_cons_self
    rw [(hpackets first hfirst).size] at hsize
    cases hsize
  | cons x xs =>
    obtain ⟨rfl, -⟩ := List.cons.inj hsb
    rw [List.head?_cons, Option.map_some, Option.getD_some] at hsize
    omega

theorem appendsPackets_iff (calls : List (TsCall × List YangTsBuffer × (Nat → Mem))) :
    AppendsPackets {} (fun _ => none) calls ↔ calls = [] := by
  constructor
  · intro h
    cases calls with
    | nil => rfl
    | cons call rest => exact absurd h (not_appendsPackets _ _ _ _)
  · rintro rfl
    trivial

/-- Already the first call appends an element of 42 bytes. -/
theorem first_table_short :
    ¬ AppendsPackets {} (fun _ => none) [(.encode [1, 2, 3] 0 .tsH264, [], fun _ _ => 0)] :=
  not_appendsPackets _ _ _ _

end Tables

end MetaRtc
