import MetaRtc.Rtcp.Decode
import MetaRtc.Rtp.Header
import Mathlib.Data.List.Chain
import Mathlib.Data.List.Sort

/-! # Encoding a retransmission request

The lost numbers are packed in entries of a number and sixteen bits for the ones that
follow it. What an entry has no bit for closes it, and is itself left out. -/
namespace MetaRtc

open Bytes

def kRtcpPacketSize : Nat := 1500

/-- `htons` where the host has the low byte first. -/
def htons (v : Nat) : Nat := v % 256 * 256 + v / 256 % 256

/-- `YangRtcpHeader` has its bit fields from the low end of the first byte on. `length` is
put in network order in the header itself. -/
def encodeHeaderRtcpHeader (header : RtcpHeader) (ssrc : Nat) (buf : OutBuffer) :
    Err × RtcpHeader × OutBuffer :=
  if !buf.require 8 then (errorRtcRtcp, header, buf)
  else
    let buf := buf.write1bytes (UInt8.ofNat (header.rc + header.padding * 32 + header.version * 64))
    let buf := buf.write1bytes (UInt8.ofNat header.type)
    (yangOk, { header with length := htons header.length },
      (buf.write2bytes header.length).write4bytes ssrc)

def encodeHeaderRtcpCommon (comm : RtcpCommon) (buf : OutBuffer) : Err × RtcpCommon × OutBuffer :=
  let (err, header, buf) := encodeHeaderRtcpHeader comm.header comm.ssrc buf
  (err, { comm with header }, buf)

theorem encodeHeaderRtcpHeader_room {buf : OutBuffer} (h : buf.require 8 = true)
    (header : RtcpHeader) (ssrc : Nat) :
    encodeHeaderRtcpHeader header ssrc buf = (yangOk, { header with length := htons header.length },
      (((buf.write1bytes (UInt8.ofNat (header.rc + header.padding * 32 + header.version * 64))
        ).write1bytes (UInt8.ofNat header.type)).write2bytes header.length).write4bytes ssrc) :=
  if_neg (by rw [h]; decide)

@[ext]
structure PidBlp where
  pid : Nat
  blp : Nat
  inUse : Bool
  deriving DecidableEq

/-- The variables of the packing loop: the closed entries and the open one. -/
structure NackPacking where
  chunks : List PidBlp
  chunk : PidBlp
  deriving DecidableEq

/-- One pass of the packing loop. The difference of two `uint16_t` is an `int`, so it
does not wrap. -/
def packNackSn (s : NackPacking) (sn : Nat) : NackPacking :=
  if !s.chunk.inUse then { s with chunk := ⟨sn, 0, true⟩ }
  else
    let distance : Int := (sn : Int) - s.chunk.pid
    if distance < 1 then s
    else if distance > 16 then
      { chunks := s.chunks ++ [s.chunk], chunk := { s.chunk with inUse := false } }
    else
      { s with chunk := { s.chunk with blp := s.chunk.blp ||| 1 <<< (distance - 1).toNat } }

def NackPacking.close (s : NackPacking) : List PidBlp :=
  if s.chunk.inUse then s.chunks ++ [s.chunk] else s.chunks

def packNacks (nacks : List Nat) : List PidBlp :=
  (nacks.foldl packNackSn ⟨[], ⟨0, 0, false⟩⟩).close

def writePidBlp (buf : OutBuffer) (chunk : PidBlp) : OutBuffer :=
  (buf.write2bytes chunk.pid).write2bytes chunk.blp

def encodeRtcpNack (comm : RtcpCommon) (buf : OutBuffer) : Err × RtcpCommon × OutBuffer :=
  if !buf.require kRtcpPacketSize then (errorRtcRtcp, comm, buf)
  else
    let nack := comm.nack.getD {}
    let chunks := packNacks nack.nacks
    let comm := { comm with header.length := (2 + chunks.length) % 65536 }
    let (err, comm, buf) := encodeHeaderRtcpCommon comm buf
    if err ≠ yangOk then (err, comm, buf)
    else (yangOk, comm, chunks.foldl writePidBlp (buf.write4bytes nack.mediaSsrc))

/-- The bytes of the request for a list of numbers. -/
def nackBytes (comm : RtcpCommon) : List UInt8 :=
  (encodeRtcpNack comm { size := kRtcpPacketSize }).2.2.bytes

/-- What the receiver of the bytes reads out of them. -/
def nackNumbers (bytes : List UInt8) (heap : Heap) : Option (List Nat) :=
  let d := decodeRtcpNack (createRtcpNack {} 0 heap).1 (initBuffer (ofList bytes) bytes.length)
  d.comm.nack.map (·.nacks)

/-- The next number comes after this one in the order of a number of 16 bits. -/
def After (prev value : Nat) : Prop := 0 < rtpSeqDistance prev value

/-- All the entries fit behind the twelve bytes before them. -/
def FitsPacket (nacks : List Nat) : Prop :=
  12 + 4 * (packNacks nacks).length ≤ kRtcpPacketSize

instance (nacks : List Nat) : Decidable (FitsPacket nacks) := by
  unfold FitsPacket
  exact inferInstance

instance (prev value : Nat) : Decidable (After prev value) := by
  unfold After
  exact inferInstance

/-- The numbers an entry stands for, as they are read back. -/
def PidBlp.numbers (chunk : PidBlp) : List Nat :=
  chunk.pid % 65536 ::
    ((List.range 16).filter chunk.blp.testBit).map fun j => (chunk.pid % 65536 + j + 1) % 65536

def PidBlp.bytes (chunk : PidBlp) : List UInt8 := beBytes 2 chunk.pid ++ beBytes 2 chunk.blp

theorem foldl_writePidBlp (chunks : List PidBlp) (buf : OutBuffer) :
    (chunks.foldl writePidBlp buf).bytes = buf.bytes ++ chunks.flatMap PidBlp.bytes := by
  induction chunks generalizing buf with
  | nil => simp
  | cons chunk chunks ih =>
    rw [List.foldl_cons, ih]
    simp [writePidBlp, PidBlp.bytes, OutBuffer.write2bytes]

theorem nackBytes_eq {comm : RtcpCommon} {nack : RtcpNack} (h : comm.nack = some nack) :
    ∃ b0 b1, nackBytes comm =
      [b0, b1] ++ (beBytes 2 ((2 + (packNacks nack.nacks).length) % 65536) ++
        (beBytes 4 comm.ssrc ++ (beBytes 4 nack.mediaSsrc ++
          (packNacks nack.nacks).flatMap PidBlp.bytes))) := by
  refine ⟨UInt8.ofNat (comm.header.rc + comm.header.padding * 32 + comm.header.version * 64),
    UInt8.ofNat comm.header.type, ?_⟩
  simp [nackBytes, encodeRtcpNack, encodeHeaderRtcpCommon, encodeHeaderRtcpHeader, h, OutBuffer.require, OutBuffer.pos,
    kRtcpPacketSize, foldl_writePidBlp, OutBuffer.write1bytes, OutBuffer.write2bytes,
    OutBuffer.write4bytes]

theorem chunks_length (chunks : List PidBlp) :
    (chunks.flatMap PidBlp.bytes).length = 4 * chunks.length := by
  induction chunks with
  | nil => rfl
  | cons chunk chunks ih =>
    simp only [List.flatMap_cons, List.length_append, ih, PidBlp.bytes, beBytes_length,
      List.length_cons]
    omega

theorem foldl_addSn (js : List Nat) (p : Nat → Bool) (f : Nat → Nat) (nack : RtcpNack) :
    (js.foldl (fun nack j => if p j then rtcpNackAddSn nack (f j) else nack) nack).nacks =
      ((js.filter p).map f).foldl insertUint16Sort nack.nacks := by
  induction js generalizing nack with
  | nil => rfl
  | cons j js ih =>
    rw [List.foldl_cons, ih, List.filter_cons]
    cases hp : p j <;> simp [rtcpNackAddSn]

theorem nackEntry_numbers (nack : RtcpNack) (chunk : PidBlp) :
    (nackEntry nack (chunk.pid % 65536) (chunk.blp % 65536)).nacks =
      chunk.numbers.foldl insertUint16Sort nack.nacks := by
  have hbits : (List.range 16).filter (chunk.blp % 65536).testBit =
      (List.range 16).filter chunk.blp.testBit := by
    apply List.filter_congr
    intro j hj
    have hlt := List.mem_range.mp hj
    rw [show (65536 : Nat) = 2 ^ 16 from rfl, Nat.testBit_mod_two_pow]
    simp [hlt]
  unfold nackEntry PidBlp.numbers
  rw [foldl_addSn _ (chunk.blp % 65536).testBit fun j => (chunk.pid % 65536 + j + 1) % 65536, hbits,
    List.foldl_cons]
  rfl

/-- Reading the entries inserts all their numbers, one after the other. -/
theorem decodeNackEntries_numbers (chunks : List PidBlp) (nack : RtcpNack) (buf : YangBuffer)
    {n : Nat} (h : buf.data.slice buf.head n = chunks.flatMap PidBlp.bytes) :
    (decodeNackEntries chunks.length nack buf).1.nacks =
      (chunks.flatMap PidBlp.numbers).foldl insertUint16Sort nack.nacks := by
  induction chunks generalizing nack buf n with
  | nil => rfl
  | cons chunk chunks ih =>
    rw [List.flatMap_cons, PidBlp.bytes, List.append_assoc] at h
    obtain ⟨hpid, h⟩ := Mem.slice_parts h
    obtain ⟨hblp, h⟩ := Mem.slice_parts h
    simp only [beBytes_length] at hpid hblp h
    have hp : buf.data.be buf.head 2 = chunk.pid % 65536 := Mem.be_of_slice hpid
    have hb : buf.data.be (buf.head + 2) 2 = chunk.blp % 65536 := Mem.be_of_slice hblp
    have hentry := nackEntry_numbers nack chunk
    simp only [List.length_cons, decodeNackEntries, YangBuffer.read2bytes, YangBuffer.readNum,
      YangBuffer.take_data, YangBuffer.take_head, hp, hb]
    rw [ih _ _ h, hentry, List.flatMap_cons, List.foldl_append]

theorem decodeRtcpNack_numbers {comm : RtcpCommon} {nack : RtcpNack} (hnack : comm.nack = some nack)
    {data : Mem} {chunks : List PidBlp} {n : Nat} (hl : data.be 2 2 = 2 + chunks.length)
    (h : data.slice 12 n = chunks.flatMap PidBlp.bytes) :
    (decodeRtcpNack comm (initBuffer data (12 + 4 * chunks.length))).comm.nack.map (·.nacks) =
      some ((chunks.flatMap PidBlp.numbers).foldl insertUint16Sort nack.nacks) := by
  let buf := initBuffer data (12 + 4 * chunks.length)
  have hreq : buf.require 8 = true := by
    simp only [buf, initBuffer, YangBuffer.require, YangBuffer.left, Bool.and_eq_true,
      decide_eq_true_eq]
    omega
  have hpay : ¬ ((buf.hdr.length : Int) * 4 > (buf.take 4).left) := by
    simp only [buf, initBuffer, YangBuffer.hdr, YangBuffer.left, YangBuffer.take_size,
      YangBuffer.take_head, Nat.zero_add, hl]
    omega
  have hstart : decodeStart comm buf = ⟨yangOk, { comm with
      data := some 0, nbData := buf.left, header := buf.hdr, ssrc := data.be 4 4 },
      (buf.take 4).take 4⟩ := by
    simp only [decodeStart, decodeHeaderRtcpCommon, hreq, hpay, Bool.not_true, Bool.false_eq_true,
      if_false]
    rfl
  have hcount : ((buf.hdr.length : Int) - 2).toNat = chunks.length := by
    simp only [buf, initBuffer, YangBuffer.hdr, Nat.zero_add, hl]
    omega
  have hentries := decodeNackEntries_numbers chunks { nack with mediaSsrc := data.be 8 4 }
    (((buf.take 4).take 4).take 4) h
  simp only [decodeRtcpNack, hstart, ne_eq, not_true_eq_false, if_false, hnack, Option.getD_some,
    hcount, Option.map_some, buf]
  exact congrArg some hentries

/-- What is read back from an encoded request: the numbers of its entries, inserted one
after the other. -/
theorem nackNumbers_eq {comm : RtcpCommon} {nack : RtcpNack} (h : comm.nack = some nack)
    (hfit : FitsPacket nack.nacks) (heap : Heap) :
    nackNumbers (nackBytes comm) heap =
      some (((packNacks nack.nacks).flatMap PidBlp.numbers).foldl insertUint16Sort []) := by
  obtain ⟨b0, b1, hbytes⟩ := nackBytes_eq h
  have hlen := congrArg List.length hbytes
  simp only [List.length_append, beBytes_length, chunks_length, List.length_cons,
    List.length_nil] at hlen
  have hslice := slice_ofList (nackBytes comm)
  obtain ⟨_, hslice⟩ := Mem.slice_parts (hslice.trans hbytes)
  obtain ⟨hl, hslice⟩ := Mem.slice_parts hslice
  obtain ⟨_, hslice⟩ := Mem.slice_parts hslice
  obtain ⟨_, hslice⟩ := Mem.slice_parts hslice
  simp only [beBytes_length, List.length_cons, List.length_nil, Nat.zero_add] at hl hslice
  have hcount : (ofList (nackBytes comm)).be 2 2 = 2 + (packNacks nack.nacks).length := by
    unfold FitsPacket kRtcpPacketSize at hfit
    rw [Mem.be_of_slice hl]
    omega
  have hempty : (createRtcpNack {} 0 heap).1.nack = some ⟨0, 50, []⟩ := rfl
  unfold nackNumbers
  rw [show (nackBytes comm).length = 12 + 4 * (packNacks nack.nacks).length by omega]
  exact decodeRtcpNack_numbers hempty hcount hslice

theorem insertUint16Sort_length (a : List Nat) (value : Nat) :
    (insertUint16Sort a value).length ≤ a.length + 1 := by
  unfold insertUint16Sort
  split
  · simp
  · split
    · simp
    · dsimp only
      split
      · omega
      · exact List.length_insertIdx_le_succ

theorem foldl_insert_length (values a : List Nat) :
    (values.foldl insertUint16Sort a).length ≤ a.length + values.length := by
  induction values generalizing a with
  | nil => simp
  | cons value values ih =>
    have hone := insertUint16Sort_length a value
    have hrest := ih (insertUint16Sort a value)
    simp only [List.foldl_cons, List.length_cons]
    omega

theorem insertUint16Sort_append {a : List Nat} {value : Nat}
    (h : List.IsChain After (a ++ [value])) : insertUint16Sort a value = a ++ [value] := by
  obtain rfl | ⟨pre, x, rfl⟩ := List.eq_nil_or_concat' a
  · rfl
  · have hafter : After x value := by
      rw [List.append_assoc] at h
      exact (List.isChain_append_cons_cons.mp h).2.1
    have hlast : (pre ++ [x]).getD ((pre ++ [x]).length - 1) 0 = x := by simp
    unfold After at hafter
    simp [insertUint16Sort, hafter]

/-- Numbers that come in order are put one behind the other. -/
theorem foldl_insert_append {values a : List Nat} (h : List.IsChain After (a ++ values)) :
    values.foldl insertUint16Sort a = a ++ values := by
  induction values generalizing a with
  | nil => simp
  | cons value values ih =>
    rw [show a ++ value :: values = (a ++ [value]) ++ values by simp] at h ⊢
    have hone : insertUint16Sort a value = a ++ [value] :=
      insertUint16Sort_append h.left_of_append
    rw [List.foldl_cons, hone, ih h]

/-- The open entry has a bit for the number. -/
def InReach (pid sn : Nat) : Prop := pid < sn ∧ sn ≤ pid + 16

instance (pid sn : Nat) : Decidable (InReach pid sn) := by
  unfold InReach
  exact inferInstance

/-- How many numbers the entries stand for so far. -/
def NackPacking.count (s : NackPacking) : Nat := (s.close.flatMap PidBlp.numbers).length

theorem numbers_length (chunk : PidBlp) :
    chunk.numbers.length = (List.range 16).countP chunk.blp.testBit + 1 := by
  simp [PidBlp.numbers, List.countP_eq_length_filter]

theorem testBit_or_one (blp i j : Nat) :
    (blp ||| 1 <<< i).testBit j = (blp.testBit j || decide (i = j)) := by
  rw [Nat.testBit_or, Nat.one_shiftLeft, Nat.testBit_two_pow]

theorem countP_or_le (l : List Nat) (p q : Nat → Bool) :
    l.countP (fun j => p j || q j) ≤ l.countP p + l.countP q := by
  induction l with
  | nil => simp
  | cons j l ih =>
    simp only [List.countP_cons]
    cases p j <;> cases q j <;> simp <;> omega

theorem countP_or_one (blp i n : Nat) :
    (List.range n).countP (blp ||| 1 <<< i).testBit ≤ (List.range n).countP blp.testBit + 1 := by
  have hone : (List.range n).countP (fun j => decide (i = j)) ≤ 1 := by
    have hnodup := List.nodup_iff_count_le_one.mp (List.nodup_range (n := n)) i
    refine Nat.le_trans (Nat.le_of_eq (List.countP_congr fun j _ => ?_)) hnodup
    rw [decide_eq_true_eq, beq_iff_eq]
    exact eq_comm
  have hsum := countP_or_le (List.range n) blp.testBit fun j => decide (i = j)
  rw [show (blp ||| 1 <<< i).testBit = fun j => blp.testBit j || decide (i = j) from
    funext (testBit_or_one blp i)]
  omega

theorem count_step (s : NackPacking) (sn : Nat) : (packNackSn s sn).count ≤ s.count + 1 := by
  have hone := countP_or_one s.chunk.blp ((sn : Int) - s.chunk.pid - 1).toNat 16
  unfold packNackSn NackPacking.count NackPacking.close
  cases hu : s.chunk.inUse with
  | false => simp [numbers_length]
  | true =>
    simp only [Bool.not_true, Bool.false_eq_true, if_false]
    split
    · simp
    · split
      · simp
      · simp only [hu, if_true, List.flatMap_append, List.flatMap_singleton, List.length_append,
          numbers_length]
        omega

/-- A number the open entry has no bit for adds nothing: it is skipped, or lost with the
entry it closes. -/
theorem count_out_of_reach {s : NackPacking} {sn : Nat} (hu : s.chunk.inUse = true)
    (h : ¬ InReach s.chunk.pid sn) : (packNackSn s sn).count = s.count := by
  unfold InReach at h
  unfold packNackSn NackPacking.count NackPacking.close
  simp only [hu, Bool.not_true, Bool.false_eq_true, if_false, if_true]
  split
  · rfl
  · split
    · rfl
    · omega

/-- The open entry with the bit of a number in its reach. -/
def NackPacking.mark (s : NackPacking) (sn : Nat) : NackPacking :=
  { s with chunk := { s.chunk with blp := s.chunk.blp ||| 1 <<< (sn - s.chunk.pid - 1) } }

@[simp] theorem mark_chunks (s : NackPacking) (sn : Nat) : (s.mark sn).chunks = s.chunks := rfl
@[simp] theorem mark_pid (s : NackPacking) (sn : Nat) :
    (s.mark sn).chunk.pid = s.chunk.pid := rfl
@[simp] theorem mark_inUse (s : NackPacking) (sn : Nat) :
    (s.mark sn).chunk.inUse = s.chunk.inUse := rfl

theorem packNackSn_in_reach {s : NackPacking} {sn : Nat} (hu : s.chunk.inUse = true)
    (h : InReach s.chunk.pid sn) : packNackSn s sn = s.mark sn := by
  obtain ⟨hlo, hhi⟩ := h
  unfold packNackSn NackPacking.mark
  simp only [hu, Bool.not_true, Bool.false_eq_true, if_false]
  rw [if_neg (by omega), if_neg (by omega)]
  rw [show ((sn : Int) - s.chunk.pid - 1).toNat = sn - s.chunk.pid - 1 by omega]

theorem count_foldl (nacks : List Nat) (s : NackPacking) :
    (nacks.foldl packNackSn s).count ≤ s.count + nacks.length := by
  induction nacks generalizing s with
  | nil => simp
  | cons sn nacks ih =>
    have hone := count_step s sn
    have hrest := ih (packNackSn s sn)
    simp only [List.foldl_cons, List.length_cons]
    omega

/-- The first number without a bit is missing from what is sent. -/
theorem count_foldl_lt {nacks : List Nat} {s : NackPacking} (hu : s.chunk.inUse = true)
    (h : ∃ sn ∈ nacks, ¬ InReach s.chunk.pid sn) :
    (nacks.foldl packNackSn s).count < s.count + nacks.length := by
  induction nacks generalizing s with
  | nil => simp at h
  | cons sn nacks ih =>
    simp only [List.foldl_cons, List.length_cons]
    by_cases hr : InReach s.chunk.pid sn
    · have hstep := packNackSn_in_reach hu hr
      have hone := count_step s sn
      have hlater : ∃ x ∈ nacks, ¬ InReach s.chunk.pid x := by
        obtain ⟨x, hx, hxr⟩ := h
        rcases List.mem_cons.mp hx with rfl | hx
        · exact absurd hr hxr
        · exact ⟨x, hx, hxr⟩
      rw [hstep] at hone ⊢
      have hrest : (nacks.foldl packNackSn (s.mark sn)).count < (s.mark sn).count + nacks.length :=
        ih hu hlater
      omega
    · have hnone := count_out_of_reach hu hr
      have hrest := count_foldl nacks (packNackSn s sn)
      omega

/-- Numbers in the reach of the open entry end up as its bits. -/
theorem foldl_in_reach {nacks : List Nat} {s : NackPacking} (hu : s.chunk.inUse = true)
    (h : ∀ sn ∈ nacks, InReach s.chunk.pid sn) :
    (nacks.foldl packNackSn s).chunks = s.chunks ∧
    (nacks.foldl packNackSn s).chunk.inUse = true ∧
    (nacks.foldl packNackSn s).chunk.pid = s.chunk.pid ∧
    ∀ j, (nacks.foldl packNackSn s).chunk.blp.testBit j = true ↔
      s.chunk.blp.testBit j = true ∨ s.chunk.pid + j + 1 ∈ nacks := by
  induction nacks generalizing s with
  | nil => simp [hu]
  | cons sn nacks ih =>
    have hsn := h sn List.mem_cons_self
    have hrest := ih (s := s.mark sn) hu fun x hx => h x (List.mem_cons_of_mem _ hx)
    rw [List.foldl_cons, packNackSn_in_reach hu hsn]
    refine ⟨hrest.1, hrest.2.1, hrest.2.2.1, fun j => ?_⟩
    obtain ⟨hlo, hhi⟩ := hsn
    rw [hrest.2.2.2, mark_pid, NackPacking.mark, testBit_or_one, Bool.or_eq_true,
      decide_eq_true_eq, or_assoc, List.mem_cons]
    refine or_congr_right (or_congr_left ?_)
    omega

theorem packNacks_in_reach {first : Nat} {rest : List Nat} (h : ∀ sn ∈ rest, InReach first sn) :
    ∃ blp, packNacks (first :: rest) = [⟨first, blp, true⟩] ∧
      ∀ j, blp.testBit j = true ↔ first + j + 1 ∈ rest := by
  let s : NackPacking := ⟨[], ⟨first, 0, true⟩⟩
  obtain ⟨hchunks, hu, hpid, hbits⟩ := foldl_in_reach (s := s) rfl h
  refine ⟨(rest.foldl packNackSn s).chunk.blp, ?_, ?_⟩
  · have hfirst : packNackSn ⟨[], ⟨0, 0, false⟩⟩ first = s := rfl
    unfold packNacks NackPacking.close
    rw [List.foldl_cons, hfirst, hu, if_pos rfl, hchunks, List.nil_append]
    exact congrArg (fun chunk => [chunk]) (PidBlp.ext hpid rfl hu)
  · intro j
    rw [hbits]
    simp [s]

/-- In reach of one number, the order that wraps is the plain one. -/
theorem pairwise_lt_of_in_reach {first : Nat} {rest : List Nat}
    (h : ∀ sn ∈ rest, InReach first sn) (hchain : List.IsChain After rest) : rest.Pairwise (· < ·) := by
  have hplain : List.IsChain (· < ·) rest := by
    refine hchain.imp_of_mem_imp fun a b ha hb hab => ?_
    obtain ⟨ha1, ha2⟩ := h a ha
    obtain ⟨hb1, hb2⟩ := h b hb
    unfold After rtpSeqDistance at hab
    rw [Int.bmod_eq_of_le (by omega) (by omega)] at hab
    omega
  exact hplain.pairwise

theorem numbers_in_reach {first blp : Nat} {rest : List Nat} (h : ∀ sn ∈ rest, InReach first sn)
    (hlt : ∀ sn ∈ first :: rest, sn < 65536) (hchain : List.IsChain After rest)
    (hbits : ∀ j, blp.testBit j = true ↔ first + j + 1 ∈ rest) :
    (PidBlp.mk first blp true).numbers = first :: rest := by
  have hfirst := hlt first List.mem_cons_self
  have hmap : ((List.range 16).filter blp.testBit).map (fun j => (first % 65536 + j + 1) % 65536) =
      ((List.range 16).filter blp.testBit).map (first + · + 1) := by
    apply List.map_congr_left
    intro j hj
    have hmem := (hbits j).mp (List.mem_filter.mp hj).2
    have := hlt _ (List.mem_cons_of_mem _ hmem)
    omega
  have hsorted : (((List.range 16).filter blp.testBit).map (first + · + 1)).Pairwise (· < ·) := by
    rw [List.pairwise_map]
    refine (List.pairwise_lt_range.filter _).imp ?_
    omega
  unfold PidBlp.numbers
  rw [hmap, Nat.mod_eq_of_lt hfirst]
  refine congrArg _ (hsorted.eq_of_mem_iff (pairwise_lt_of_in_reach h hchain) fun sn => ?_)
  simp only [List.mem_map, List.mem_filter, List.mem_range, hbits]
  constructor
  · rintro ⟨j, ⟨_, hj⟩, rfl⟩
    exact hj
  · intro hsn
    obtain ⟨hlo, hhi⟩ := h sn hsn
    have heq : first + (sn - first - 1) + 1 = sn := by omega
    exact ⟨sn - first - 1, ⟨by omega, heq.symm ▸ hsn⟩, heq⟩

/-- **Retransmission requests.** A list of lost numbers comes out of its request as it
went in exactly when all of it is in the reach of one entry. -/
theorem nack_roundtrip_iff (comm : RtcpCommon) (nack : RtcpNack) (heap : Heap) (first : Nat)
    (rest : List Nat) (hnack : comm.nack = some nack) (hnacks : nack.nacks = first :: rest)
    (hlt : ∀ sn ∈ nack.nacks, sn < 65536) (hchain : List.IsChain After nack.nacks)
    (hfit : FitsPacket nack.nacks) :
    nackNumbers (nackBytes comm) heap = some nack.nacks ↔ ∀ sn ∈ rest, InReach first sn := by
  rw [nackNumbers_eq hnack hfit, Option.some.injEq]
  rw [hnacks] at hlt hchain ⊢
  constructor
  · intro heq
    by_contra hout
    push Not at hout
    let s : NackPacking := ⟨[], ⟨first, 0, true⟩⟩
    have hone : s.count = 1 := by simp [s, NackPacking.count, NackPacking.close, numbers_length]
    have hlost : (rest.foldl packNackSn s).count < s.count + rest.length :=
      count_foldl_lt (s := s) rfl hout
    have hsent : (rest.foldl packNackSn s).count =
      ((packNacks (first :: rest)).flatMap PidBlp.numbers).length := rfl
    have hread := foldl_insert_length ((packNacks (first :: rest)).flatMap PidBlp.numbers) []
    rw [heq, List.length_cons, List.length_nil] at hread
    omega
  · intro h
    obtain ⟨blp, hpack, hbits⟩ := packNacks_in_reach h
    rw [hpack, List.flatMap_singleton, numbers_in_reach h hlt hchain.tail hbits]
    exact foldl_insert_append hchain

/-- Four lost packets, the last of them sixteen after the first. -/
theorem nack_roundtrip_four :
    nackNumbers (nackBytes { nack := some { nacks := [65000, 65001, 65004, 65016] } })
      (fun _ => 0) = some [65000, 65001, 65004, 65016] :=
  (nack_roundtrip_iff { nack := some { nacks := [65000, 65001, 65004, 65016] } }
    { nacks := [65000, 65001, 65004, 65016] } (fun _ => 0) 65000 [65001, 65004, 65016] rfl rfl
    (by decide) (by decide) (by decide)).mpr (by decide)

/-- The second of three lost packets is too far behind the first for its entry. The third
opens the next one, and the second is not asked for. -/
theorem nack_gap_lost :
    List.IsChain After [100, 117, 118] ∧ FitsPacket [100, 117, 118] ∧
    nackNumbers (nackBytes { nack := some { nacks := [100, 117, 118] } }) (fun _ => 0) =
      some [100, 118] := by decide

example : nackNumbers (nackBytes { nack := some { nacks := [65535, 0] } }) (fun _ => 0) =
    some [65535] := by decide

end MetaRtc
