import MetaRtc.Lib.Loop
import MetaRtc.Rtcp.Twcc

/-! # Decoding transport-wide feedback

The chunks are gone through twice: first to find where the deltas begin, then with the deltas. Both
times by a count of 16 bits that each chunk lowers, and by no other bound. -/
namespace MetaRtc

open Bytes Loop

/-- What the transport-wide reports have told of the packets sent. -/
structure TwccSession where
  lastReportedSn : Nat
  remoteTs : Nat → Int

def insertTwccRemote (twcc : TwccSession) (sn : Nat) (ts : Int) : TwccSession where
  lastReportedSn := sn
  remoteTs := Function.update twcc.remoteTs (sn &&& 511) ts

def twccIs2Bit (packetChunk : Nat) : Bool := packetChunk.testBit 14

def isTwccRunLen (packetChunk : Nat) : Bool := !packetChunk.testBit 15

/-- The status of a number in a vector. A vector of two bits is read by a mask of 2, and both kinds
from bit 14 on. -/
def twccStatusVectorStatus (packetChunk i : Nat) : Nat :=
  let size := if twccIs2Bit packetChunk then 2 else 1
  let mask := if twccIs2Bit packetChunk then 2 else 1
  packetChunk >>> (14 - i * size) &&& mask

/-- How many numbers a chunk tells of. -/
def chunkCount (packetChunk remainingPackets : Nat) : Nat :=
  if isTwccRunLen packetChunk then packetChunk % 0x2000
  else min (if twccIs2Bit packetChunk then 7 else 14) remainingPackets

def chunkStatuses (packetChunk remainingPackets : Nat) : List Nat :=
  if isTwccRunLen packetChunk then
    List.replicate (packetChunk % 0x2000) (packetChunk >>> 13 &&& 3)
  else
    (List.range (chunkCount packetChunk remainingPackets)).map (twccStatusVectorStatus packetChunk)

/-- The count behind a chunk, an `uint16_t`. -/
def countDown (packetChunk remainingPackets : Nat) : Nat :=
  (remainingPackets + 65536 - chunkCount packetChunk remainingPackets) % 65536

/-- One pass of the loop to the end of the chunks. -/
def twccSkipPass (s : YangBuffer × Nat) : Outcome (YangBuffer × Nat) YangBuffer :=
  let (buf, remainingPackets) := s
  if remainingPackets > 0 then
    let (packetChunk, buf) := buf.read2bytes
    .next (buf, countDown packetChunk remainingPackets)
  else .done buf

/-- The variables of the loop over the chunks with their deltas. `pchunk` goes over the chunks and
`buf` over the deltas. -/
structure TwccDecoding where
  twcc : TwccSession
  pchunk : YangBuffer
  buf : YangBuffer
  packetSn : Nat
  remainingPackets : Nat
  referenceTime : Int

def int16Min : Int := -32768

/-- The delta a status announces, and the cursor behind it. -/
def readRecvDelta (buf : YangBuffer) (statusSymbol : Nat) : Int × YangBuffer :=
  if statusSymbol = 1 then (Int.bmod buf.read1bytes.1 256, buf.read1bytes.2)
  else if statusSymbol = 2 then (Int.bmod buf.read2bytes.1 65536, buf.read2bytes.2)
  else (int16Min, buf)

/-- The smallest delta stands for none. -/
def twccDecodeStatus (s : TwccDecoding) (statusSymbol : Nat) : TwccDecoding :=
  let (recvDelta, buf) := readRecvDelta s.buf statusSymbol
  let twcc := if statusSymbol = 0 then insertTwccRemote s.twcc s.packetSn (-1) else s.twcc
  let (referenceTime, twcc) :=
    if recvDelta ≠ int16Min then
      let referenceTime := Int.bmod (s.referenceTime + recvDelta * kTwccFbDeltaUnit) (2 ^ 32)
      (referenceTime, insertTwccRemote twcc s.packetSn referenceTime)
    else (s.referenceTime, twcc)
  { s with
    twcc
    buf
    referenceTime
    packetSn := (s.packetSn + 1) % 65536
    remainingPackets := (s.remainingPackets + 65535) % 65536 }

def twccDecodePass (s : TwccDecoding) : Outcome TwccDecoding TwccDecoding :=
  if s.remainingPackets > 0 then
    let (packetChunk, pchunk) := s.pchunk.read2bytes
    .next ((chunkStatuses packetChunk s.remainingPackets).foldl twccDecodeStatus { s with pchunk })
  else .done s

/-- `none` says that a loop has not come to its end within `fuel` passes. The last result says
whether some read has left the payload. -/
def twccDecode (fuel : Nat) (twcc : TwccSession) (payload : Mem) (payloadLen : Nat) :
    Option (TwccSession × Bool) :=
  let buf := initBuffer payload payloadLen
  let (_mediaSsrc, buf) := buf.read4bytes
  let (baseSn, buf) := buf.read2bytes
  let (pkcount, buf) := buf.read2bytes
  let (referenceTime, buf) := buf.read3bytes
  let (_fbPktCount, buf) := buf.read1bytes
  let pchunk := buf
  let referenceTime := Int.bmod (referenceTime * kTwccFbTimeMultiplier) (2 ^ 32)
  match run twccSkipPass fuel (buf, pkcount) with
  | none => none
  | some buf =>
    (run twccDecodePass fuel ⟨twcc, pchunk, buf, baseSn, pkcount, referenceTime⟩).map fun s =>
      (s.twcc, s.pchunk.fault || s.buf.fault)

/-- The decoding ends, and no read has left the payload. -/
def DecodesInside (twcc : TwccSession) (payload : Mem) (payloadLen : Nat) : Prop :=
  ∃ fuel twcc', twccDecode fuel twcc payload payloadLen = some (twcc', false)

/-- The whole words of a payload behind its head. -/
def payloadWords (payload : Mem) (payloadLen : Nat) : List Nat :=
  (List.range ((payloadLen - 12) / 2)).map fun i => payload.be (12 + 2 * i) 2

def statusBytes (statusSymbol : Nat) : Nat :=
  if statusSymbol = 1 then 1 else if statusSymbol = 2 then 2 else 0

def deltaBytes (statuses : List Nat) : Nat := (statuses.map statusBytes).sum

/-- How many of the words are chunks, and how many bytes of deltas they announce. There is no answer
where the words end before the count has come to 0. -/
def announced : List Nat → Nat → Option (Nat × Nat)
  | [], remainingPackets => if remainingPackets = 0 then some (0, 0) else none
  | word :: words, remainingPackets =>
    if remainingPackets = 0 then some (0, 0)
    else
      (announced words (countDown word remainingPackets)).map fun (chunks, deltas) =>
        (chunks + 1, deltaBytes (chunkStatuses word remainingPackets) + deltas)

/-- The chunks bring the count to 0 inside of the payload, and their deltas are there. -/
def FitsPayload (payload : Mem) (payloadLen : Nat) : Prop :=
  12 ≤ payloadLen ∧ ∃ chunks deltas,
    announced (payloadWords payload payloadLen) (payload.be 6 2) = some (chunks, deltas) ∧
      12 + 2 * chunks + deltas ≤ payloadLen

/-- The words stand in the memory from the cursor on. -/
def Ahead (buf : YangBuffer) (words : List Nat) : Prop :=
  ∀ i, ∀ h : i < words.length, words[i] = buf.data.be (buf.head + 2 * i) 2

section Words

variable {word : Nat} {words : List Nat} {buf : YangBuffer} {remaining chunks deltas : Nat}

theorem Ahead.first (h : Ahead buf (word :: words)) : buf.read2bytes = (word, buf.take 2) := by
  have hword := h 0 (Nat.zero_lt_succ _)
  rw [Nat.mul_zero, Nat.add_zero] at hword
  exact congrArg (·, buf.take 2) hword.symm

theorem Ahead.rest (h : Ahead buf (word :: words)) : Ahead (buf.take 2) words := by
  intro i hi
  have hword := h (i + 1) (Nat.succ_lt_succ hi)
  rw [List.getElem_cons_succ] at hword
  rw [hword]
  show buf.data.be (buf.head + 2 * (i + 1)) 2 = buf.data.be (buf.head + 2 + 2 * i) 2
  congr 1
  omega

theorem fault_take (n : Nat) (h : buf.fault = true) : (buf.take n).fault = true :=
  (buf.take_fault_iff n).mpr (.inl h)

/-- Where the chunks end inside of the words, the first loop finds their end. -/
theorem skip_ends (hahead : Ahead buf words)
    (h : announced words remaining = some (chunks, deltas)) :
    run twccSkipPass (chunks + 1) (buf, remaining) = some (buf.take (2 * chunks)) := by
  induction words generalizing buf remaining chunks deltas with
  | nil =>
    unfold announced at h
    split at h <;> cases h
    rename_i hzero
    exact run_done (by simp [twccSkipPass, hzero]) 0
  | cons word words ih =>
    unfold announced at h
    split at h
    · rename_i hzero
      cases h
      exact run_done (by simp [twccSkipPass, hzero]) 0
    · rename_i hmore
      obtain ⟨⟨n, d⟩, hrest, heq⟩ := Option.map_eq_some_iff.mp h
      cases heq
      have hpass : twccSkipPass (buf, remaining) =
          .next (buf.take 2, countDown word remaining) := by
        simp [twccSkipPass, Nat.pos_of_ne_zero hmore, hahead.first]
      rw [run_next hpass, ih hahead.rest hrest, YangBuffer.take_take, Nat.mul_succ, Nat.add_comm]

theorem skip_fault {fuel : Nat} {buf' : YangBuffer} (h : buf.fault = true)
    (hrun : run twccSkipPass fuel (buf, remaining) = some buf') : buf'.fault = true := by
  induction fuel generalizing buf remaining with
  | zero => cases hrun
  | succ fuel ih =>
    by_cases hmore : remaining > 0
    · rw [run_next (show twccSkipPass (buf, remaining) = .next (buf.take 2, _) by
        simp only [twccSkipPass, hmore, if_true]; rfl)] at hrun
      exact ih (fault_take 2 h) hrun
    · rw [run_done (show twccSkipPass (buf, remaining) = .done buf by
        simp only [twccSkipPass, hmore, if_false])] at hrun
      cases hrun
      exact h

/-- Where the words end before the chunks do, the first loop reads on behind them. -/
theorem skip_leaves {fuel : Nat} {buf' : YangBuffer} (hahead : Ahead buf words)
    (hend : buf.bound < buf.head + 2 * words.length + 2) (h : announced words remaining = none)
    (hrun : run twccSkipPass fuel (buf, remaining) = some buf') : buf'.fault = true := by
  induction words generalizing buf remaining fuel with
  | nil =>
    unfold announced at h
    split at h
    · cases h
    · rename_i hmore
      cases fuel with
      | zero => cases hrun
      | succ fuel =>
        rw [run_next (show twccSkipPass (buf, remaining) = .next (buf.take 2, _) by
          simp only [twccSkipPass, Nat.pos_of_ne_zero hmore, if_true]; rfl)] at hrun
        refine skip_fault ((buf.take_fault_iff 2).mpr (.inr ⟨by decide, ?_⟩)) hrun
        rw [List.length_nil] at hend
        omega
  | cons word words ih =>
    unfold announced at h
    split at h
    · cases h
    · rename_i hmore
      cases fuel with
      | zero => cases hrun
      | succ fuel =>
        have hpass : twccSkipPass (buf, remaining) =
            .next (buf.take 2, countDown word remaining) := by
          simp [twccSkipPass, Nat.pos_of_ne_zero hmore, hahead.first]
        rw [run_next hpass] at hrun
        refine ih hahead.rest ?_ (Option.map_eq_none_iff.mp h) hrun
        rw [List.length_cons] at hend
        show buf.bound < buf.head + 2 + 2 * words.length + 2
        omega

end Words

section Deltas

variable {s : TwccDecoding}

theorem decodeStatus_buf (s : TwccDecoding) (statusSymbol : Nat) :
    (twccDecodeStatus s statusSymbol).buf = s.buf.take (statusBytes statusSymbol) := by
  show (readRecvDelta s.buf statusSymbol).2 = _
  unfold readRecvDelta statusBytes
  split
  · rfl
  · split
    · rfl
    · exact (s.buf.take_zero).symm

/-- What the statuses of a chunk do to the cursors and the count. -/
theorem decodeStatuses (statuses : List Nat) (s : TwccDecoding) (h : s.remainingPackets < 65536) :
    (statuses.foldl twccDecodeStatus s).buf = s.buf.take (deltaBytes statuses) ∧
      (statuses.foldl twccDecodeStatus s).pchunk = s.pchunk ∧
      (statuses.foldl twccDecodeStatus s).remainingPackets =
        (s.remainingPackets + 65535 * statuses.length) % 65536 := by
  induction statuses generalizing s with
  | nil => exact ⟨(s.buf.take_zero).symm, rfl, (Nat.mod_eq_of_lt h).symm⟩
  | cons status statuses ih =>
    obtain ⟨hbuf, hchunk, hcount⟩ := ih (twccDecodeStatus s status) (Nat.mod_lt _ (by decide))
    have hone : (twccDecodeStatus s status).remainingPackets =
        (s.remainingPackets + 65535) % 65536 := rfl
    rw [List.foldl_cons]
    refine ⟨?_, hchunk, ?_⟩
    · rw [hbuf, decodeStatus_buf, YangBuffer.take_take]
      rfl
    · rw [hcount, hone, List.length_cons]
      omega

theorem chunkStatuses_length (word remaining : Nat) :
    (chunkStatuses word remaining).length = chunkCount word remaining := by
  unfold chunkStatuses chunkCount
  split
  · rw [List.length_replicate]
  · rw [List.length_map, List.length_range]

theorem chunkCount_le (word remaining : Nat) : chunkCount word remaining ≤ remaining + 8191 := by
  unfold chunkCount
  split <;> omega

/-- A pass over a chunk goes over its deltas and lowers the count. -/
theorem decodePass_next {word : Nat} {words : List Nat} (hahead : Ahead s.pchunk (word :: words))
    (hcount : s.remainingPackets < 65536) (hmore : s.remainingPackets ≠ 0) :
    ∃ s', twccDecodePass s = .next s' ∧ s'.pchunk = s.pchunk.take 2 ∧
      s'.buf = s.buf.take (deltaBytes (chunkStatuses word s.remainingPackets)) ∧
      s'.remainingPackets = countDown word s.remainingPackets := by
  obtain ⟨hbuf, hchunk, hleft⟩ := decodeStatuses (chunkStatuses word s.remainingPackets)
    { s with pchunk := s.pchunk.take 2 } hcount
  refine ⟨(chunkStatuses word s.remainingPackets).foldl twccDecodeStatus
    { s with pchunk := s.pchunk.take 2 }, ?_, hchunk, hbuf, hleft.trans ?_⟩
  · simp [twccDecodePass, Nat.pos_of_ne_zero hmore, hahead.first]
  · have hle := chunkCount_le word s.remainingPackets
    rw [chunkStatuses_length, countDown]
    show (s.remainingPackets + 65535 * chunkCount word s.remainingPackets) % 65536 = _
    omega

/-- Where the chunks end, so does the second loop, behind their deltas. -/
theorem decode_ends {words : List Nat} {chunks deltas : Nat} (hahead : Ahead s.pchunk words)
    (hcount : s.remainingPackets < 65536)
    (h : announced words s.remainingPackets = some (chunks, deltas)) :
    ∃ s', run twccDecodePass (chunks + 1) s = some s' ∧ s'.pchunk = s.pchunk.take (2 * chunks) ∧
      s'.buf = s.buf.take deltas := by
  induction words generalizing s chunks deltas with
  | nil =>
    unfold announced at h
    split at h <;> cases h
    rename_i hzero
    exact ⟨s, run_done (by simp [twccDecodePass, hzero]) 0, (s.pchunk.take_zero).symm,
      (s.buf.take_zero).symm⟩
  | cons word words ih =>
    unfold announced at h
    split at h
    · rename_i hzero
      cases h
      exact ⟨s, run_done (by simp [twccDecodePass, hzero]) 0, (s.pchunk.take_zero).symm,
        (s.buf.take_zero).symm⟩
    · rename_i hmore
      obtain ⟨⟨n, d⟩, hrest, heq⟩ := Option.map_eq_some_iff.mp h
      cases heq
      obtain ⟨t, hpass, hchunk, hbuf, hleft⟩ := decodePass_next hahead hcount hmore
      have hbelow : t.remainingPackets < 65536 := hleft ▸ Nat.mod_lt _ (by decide)
      obtain ⟨s', hrun, hchunk', hbuf'⟩ := ih (hchunk ▸ hahead.rest) hbelow (hleft ▸ hrest)
      refine ⟨s', by rw [run_next hpass, hrun], ?_, ?_⟩
      · rw [hchunk', hchunk, YangBuffer.take_take, Nat.mul_succ, Nat.add_comm]
      · rw [hbuf', hbuf, YangBuffer.take_take]

/-- A read outside of the payload is not forgotten. -/
theorem decode_fault {fuel : Nat} {s' : TwccDecoding} (h : s.buf.fault = true)
    (hcount : s.remainingPackets < 65536) (hrun : run twccDecodePass fuel s = some s') :
    s'.buf.fault = true := by
  induction fuel generalizing s with
  | zero => cases hrun
  | succ fuel ih =>
    by_cases hmore : s.remainingPackets = 0
    · rw [run_done (show twccDecodePass s = .done s by simp [twccDecodePass, hmore])] at hrun
      cases hrun
      exact h
    · have hahead : Ahead s.pchunk [s.pchunk.data.be s.pchunk.head 2] := by
        intro i hi
        obtain rfl : i = 0 := by simpa using hi
        rfl
      obtain ⟨t, hpass, -, hbuf, hleft⟩ := decodePass_next hahead hcount hmore
      rw [run_next hpass] at hrun
      exact ih (hbuf ▸ fault_take _ h) (hleft ▸ Nat.mod_lt _ (by decide)) hrun

end Deltas

section Payload

variable {payload : Mem} {payloadLen : Nat} {twcc : TwccSession}

/-- The cursor behind the head of a payload. -/
def bodyCursor (payload : Mem) (payloadLen : Nat) : YangBuffer :=
  (initBuffer payload payloadLen).take 12

theorem body_ahead (payload : Mem) (payloadLen : Nat) :
    Ahead (bodyCursor payload payloadLen) (payloadWords payload payloadLen) := by
  intro i hi
  simp only [payloadWords, List.getElem_map, List.getElem_range]
  rfl

theorem body_fault : (bodyCursor payload payloadLen).fault = true ↔ payloadLen < 12 := by
  rw [bodyCursor, YangBuffer.take_fault_iff]
  simp [initBuffer]

theorem bodyTake_fault (n : Nat) (h : 12 ≤ payloadLen) :
    ((bodyCursor payload payloadLen).take n).fault = false ↔ 12 + n ≤ payloadLen := by
  rw [← Bool.not_eq_true, YangBuffer.take_fault_iff, body_fault]
  show ¬ (payloadLen < 12 ∨ n ≠ 0 ∧ payloadLen < 12 + n) ↔ _
  omega

/-- The variables of the second loop at its start. -/
def deltaLoop (twcc : TwccSession) (payload : Mem) (payloadLen : Nat) (buf : YangBuffer) :
    TwccDecoding :=
  ⟨twcc, bodyCursor payload payloadLen, buf, payload.be 4 2, payload.be 6 2,
    Int.bmod (payload.be 8 3 * kTwccFbTimeMultiplier) (2 ^ 32)⟩

theorem twccDecode_eq (fuel : Nat) (twcc : TwccSession) (payload : Mem) (payloadLen : Nat) :
    twccDecode fuel twcc payload payloadLen =
      (run twccSkipPass fuel (bodyCursor payload payloadLen, payload.be 6 2)).bind fun buf =>
        (run twccDecodePass fuel (deltaLoop twcc payload payloadLen buf)).map fun s =>
          (s.twcc, s.pchunk.fault || s.buf.fault) := by
  have hcursor : (((((initBuffer payload payloadLen).take 4).take 2).take 2).take 3).take 1 =
      bodyCursor payload payloadLen := by
    simp only [YangBuffer.take_take, bodyCursor]
  have hcount : (((initBuffer payload payloadLen).take 4).take 2).data.be
      (((initBuffer payload payloadLen).take 4).take 2).head 2 = payload.be 6 2 := rfl
  unfold twccDecode
  simp only [YangBuffer.read4bytes, YangBuffer.read2bytes, YangBuffer.read3bytes,
    YangBuffer.read1bytes, YangBuffer.readNum, hcursor, hcount]
  cases run twccSkipPass fuel (bodyCursor payload payloadLen, payload.be 6 2) with
  | none => rfl
  | some buf => rfl

theorem be_lt (payload : Mem) (p : Nat) : payload.be p 2 < 65536 :=
  Mem.be_lt payload p 2

/-- What is known of the loops where no read has left the payload. -/
theorem decodesInside_runs (h : DecodesInside twcc payload payloadLen) : ∃ fuel buf s,
    run twccSkipPass fuel (bodyCursor payload payloadLen, payload.be 6 2) = some buf ∧
      run twccDecodePass fuel (deltaLoop twcc payload payloadLen buf) = some s ∧
      buf.fault = false ∧ s.buf.fault = false := by
  obtain ⟨fuel, twcc', hrun⟩ := h
  rw [twccDecode_eq] at hrun
  obtain ⟨buf, hskip, hdeltas⟩ := Option.bind_eq_some_iff.mp hrun
  obtain ⟨s, hdecode, heq⟩ := Option.map_eq_some_iff.mp hdeltas
  obtain ⟨-, hfaults⟩ := Prod.mk.inj heq
  obtain ⟨-, hbuf⟩ := Bool.or_eq_false_iff.mp hfaults
  refine ⟨fuel, buf, s, hskip, hdecode, ?_, hbuf⟩
  cases hfault : buf.fault with
  | false => rfl
  | true => exact absurd (decode_fault (s := deltaLoop twcc payload payloadLen buf) hfault
      (be_lt payload 6) hdecode) (by simp [hbuf])

theorem decodesInside_announced (h : DecodesInside twcc payload payloadLen) :
    12 ≤ payloadLen ∧ ∃ chunks deltas,
      announced (payloadWords payload payloadLen) (payload.be 6 2) = some (chunks, deltas) := by
  obtain ⟨fuel, buf, s, hskip, -, hinside, -⟩ := decodesInside_runs h
  have hhead : 12 ≤ payloadLen := by
    refine Nat.not_lt.mp fun hshort => ?_
    exact absurd (skip_fault (body_fault.mpr hshort) hskip) (by simp [hinside])
  refine ⟨hhead, ?_⟩
  cases hannounced : announced (payloadWords payload payloadLen) (payload.be 6 2) with
  | none =>
    refine absurd (skip_leaves (body_ahead payload payloadLen) ?_ hannounced hskip)
      (by simp [hinside])
    show payloadLen < 12 + 2 * (payloadWords payload payloadLen).length + 2
    simp only [payloadWords, List.length_map, List.length_range]
    omega
  | some counts => exact ⟨counts.1, counts.2, rfl⟩

/-- A payload is decoded without leaving it exactly if its chunks bring the count to 0 inside of it and
the deltas they announce are there. -/
theorem decodes_inside (twcc : TwccSession) (payload : Mem) (payloadLen : Nat) :
    DecodesInside twcc payload payloadLen ↔ FitsPayload payload payloadLen := by
  have hahead := body_ahead payload payloadLen
  have hcount := be_lt payload 6
  constructor
  · intro h
    obtain ⟨hhead, chunks, deltas, hannounced⟩ := decodesInside_announced h
    obtain ⟨fuel, buf, s, hskip, hdecode, -, hbuf⟩ := decodesInside_runs h
    refine ⟨hhead, chunks, deltas, hannounced, ?_⟩
    obtain rfl := run_unique hskip (skip_ends hahead hannounced)
    obtain ⟨s', hdecode', -, hbuf'⟩ := decode_ends
      (s := deltaLoop twcc payload payloadLen _) hahead hcount hannounced
    obtain rfl := run_unique hdecode hdecode'
    have hend : ((bodyCursor payload payloadLen).take (2 * chunks + deltas)).fault = false := by
      rw [← YangBuffer.take_take]
      exact hbuf' ▸ hbuf
    have hlen := (bodyTake_fault _ hhead).mp hend
    omega
  · rintro ⟨hhead, chunks, deltas, hannounced, hfits⟩
    have hskip := skip_ends hahead hannounced
    obtain ⟨s, hdecode, hchunk, hbuf⟩ := decode_ends
      (s := deltaLoop twcc payload payloadLen _) hahead hcount hannounced
    refine ⟨chunks + 1, s.twcc, ?_⟩
    rw [twccDecode_eq, hskip, Option.bind_some, hdecode, Option.map_some]
    have hchunkInside : s.pchunk.fault = false := by
      rw [hchunk]
      exact (bodyTake_fault _ hhead).mpr (by omega)
    have hbufInside : s.buf.fault = false := by
      rw [hbuf]
      show (((bodyCursor payload payloadLen).take (2 * chunks)).take deltas).fault = false
      rw [YangBuffer.take_take]
      exact (bodyTake_fault _ hhead).mpr (by omega)
    rw [hchunkInside, hbufInside]
    rfl

/-- Two numbers that came, with their deltas. -/
example : FitsPayload (ofList [0, 0, 0, 1, 0, 5, 0, 2, 0, 0, 1, 0, 32, 2, 4, 8]) 16 :=
  ⟨by decide, 1, 2, by decide +kernel, by decide⟩

/-- A count of one, and a run of no numbers as the only chunk: the loop goes on behind it. -/
theorem empty_run_leaves : ¬ DecodesInside ⟨0, fun _ => 0⟩
    (ofList [0, 0, 0, 1, 0, 5, 0, 1, 0, 0, 0, 0, 0, 0]) 14 := by
  intro h
  obtain ⟨-, chunks, deltas, hannounced⟩ := decodesInside_announced h
  have hnone : announced (payloadWords (ofList [0, 0, 0, 1, 0, 5, 0, 1, 0, 0, 0, 0, 0, 0]) 14)
      ((ofList [0, 0, 0, 1, 0, 5, 0, 1, 0, 0, 0, 0, 0, 0]).be 6 2) = none := by
    decide +kernel
  rw [hnone] at hannounced
  exact nomatch hannounced

end Payload

end MetaRtc
