import MetaRtc.Play.Twcc
import MetaRtc.Rtcp.Feedback

/-! # What a failed encoding leaves behind

Chunks and deltas are kept in the record while they are put together. Only an encoding that succeeds
takes them out again. -/
namespace MetaRtc

/-- No chunk and no delta waits in the record. -/
def Empty (twcc : RecvTwccFeedback) : Prop := twcc.encodedChucks = [] ∧ twcc.pktDeltas = []

/-- An encoding that fails leaves nothing waiting, and what the next one starts from as it was. -/
def AtomicOnFailure (chunk : RtcpTWCCChunk) (twcc : RecvTwccFeedback) (buf : OutBuffer) : Prop :=
  (twccRecvEncode chunk twcc buf).1 ≠ yangOk →
    Empty (twccRecvEncode chunk twcc buf).2.1 ∧
      (twccRecvEncode chunk twcc buf).2.1.nextBaseSn = twcc.nextBaseSn ∧
      (twccRecvEncode chunk twcc buf).2.1.sns = twcc.sns

/-- The chunk still being filled, if any, can be encoded. -/
def Closes (s : TwccEncoding) : Prop :=
  0 < s.chunk.size → (twccEncodeRemainingChunk s.twcc s.chunk).1 = yangOk

/-- The delta of the number is representable, and its symbol finds room behind those of the lost. -/
def Takes (s : TwccEncoding) (currentSn : Nat) : Prop :=
  let deltaUs := s.deltaUs currentSn
  let lost := twccLost (twccGap s.lastSn currentSn) s
  Representable deltaUs ∧
    (twccProcessPktChunk lost.twcc lost.chunk (recvDeltaSize deltaUs)).1 = yangOk

/-- The state behind a number that was taken. -/
def TwccEncoding.taken (s : TwccEncoding) (currentSn : Nat) : TwccEncoding :=
  let deltaUs := s.deltaUs currentSn
  let lost := twccLost (twccGap s.lastSn currentSn) s
  let (_, twcc, chunk) := twccProcessPktChunk lost.twcc lost.chunk (recvDeltaSize deltaUs)
  lost.received twcc chunk currentSn deltaUs (recvDeltaSize deltaUs)

/-- Every number is taken until the packet is full, and the last chunk can be encoded. -/
def Completes (left : Int) : Nat → List Nat → TwccEncoding → Prop
  | _, [], s => Closes s
  | i, currentSn :: rest, s =>
    if (s.twcc.pktLen : Int) + 2 ≥ left then Closes s
    else Takes (s.start i) currentSn ∧
      Completes left (i + 1) rest ((s.start i).taken currentSn)

/-- An encoding that fails does so at its first number, or before. -/
def FailsFirst (chunk : RtcpTWCCChunk) (twcc : RecvTwccFeedback) (buf : OutBuffer) : Prop :=
  buf.require kMaxUDPDataSize = false ∨
    ∀ first ∈ twcc.sns.list.head?, ¬ Takes ((twccEncodeStart chunk twcc).start 0) first

/-- Nothing of the record has changed but its chunks and their length. -/
def OnlyChunks (twcc twcc' : RecvTwccFeedback) : Prop :=
  twcc' = { twcc with encodedChucks := twcc'.encodedChucks, pktLen := twcc'.pktLen }

/-- What the functions that fill chunks do to the record. One that fails does nothing. -/
structure FillsChunks (twcc : RecvTwccFeedback) (err : Err) (twcc' : RecvTwccFeedback) : Prop where
  only : OnlyChunks twcc twcc'
  failed : err ≠ yangOk → twcc' = twcc

section Frames

theorem onlyChunks_trans {twcc mid twcc' : RecvTwccFeedback} (h : OnlyChunks twcc mid)
    (k : OnlyChunks mid twcc') : OnlyChunks twcc twcc' := by
  unfold OnlyChunks at *
  rw [k, h]

theorem fills_same (twcc : RecvTwccFeedback) (err : Err) : FillsChunks twcc err twcc :=
  ⟨rfl, fun _ => rfl⟩

theorem fills_insertChunk (twcc : RecvTwccFeedback) (word : Nat) :
    FillsChunks twcc yangOk (twcc.insertChunk word) :=
  ⟨rfl, fun h => absurd rfl h⟩

theorem runLength_fills (twcc : RecvTwccFeedback) (chunk : RtcpTWCCChunk) :
    FillsChunks twcc (twccEncodeChunkRunLength twcc chunk).1 (twccEncodeChunkRunLength twcc chunk).2 := by
  unfold twccEncodeChunkRunLength
  split
  · exact fills_same twcc _
  · exact fills_insertChunk twcc _

theorem oneBit_fills (twcc : RecvTwccFeedback) (chunk : RtcpTWCCChunk) :
    FillsChunks twcc (twccEncodeChunkOneBit twcc chunk).1 (twccEncodeChunkOneBit twcc chunk).2 := by
  unfold twccEncodeChunkOneBit
  split
  · exact fills_same twcc _
  · exact fills_insertChunk twcc _

theorem twoBit_fills (twcc : RecvTwccFeedback) (chunk : RtcpTWCCChunk) (size : Nat)
    (shift : Bool) : FillsChunks twcc yangOk (twccEncodeChunkTwoBit twcc chunk size shift).1 := by
  unfold twccEncodeChunkTwoBit
  dsimp only
  split <;> exact fills_insertChunk twcc _

theorem encodeChunk_fills (twcc : RecvTwccFeedback) (chunk : RtcpTWCCChunk) :
    FillsChunks twcc (twccEncodeChunk twcc chunk).1 (twccEncodeChunk twcc chunk).2.1 := by
  have hrun := runLength_fills twcc chunk
  have hone := oneBit_fills twcc chunk
  unfold twccEncodeChunk
  split
  · exact fills_same twcc _
  · split
    · dsimp only
      split
      · exact hrun
      · exact ⟨hrun.only, fun h => absurd rfl h⟩
    · split
      · dsimp only
        split
        · exact hone
        · exact ⟨hone.only, fun h => absurd rfl h⟩
      · exact twoBit_fills twcc chunk _ _

theorem remaining_fills (twcc : RecvTwccFeedback) (chunk : RtcpTWCCChunk) :
    FillsChunks twcc (twccEncodeRemainingChunk twcc chunk).1 (twccEncodeRemainingChunk twcc chunk).2 := by
  unfold twccEncodeRemainingChunk
  split
  · exact runLength_fills twcc chunk
  · split
    · exact twoBit_fills twcc chunk _ _
    · exact oneBit_fills twcc chunk

theorem process_fills (twcc : RecvTwccFeedback) (chunk : RtcpTWCCChunk) (d : Nat) :
    FillsChunks twcc (twccProcessPktChunk twcc chunk d).1 (twccProcessPktChunk twcc chunk d).2.1 := by
  have henc := encodeChunk_fills twcc chunk
  unfold twccProcessPktChunk
  dsimp only
  generalize (if chunk.size = 0 then kTwccFbChunkBytes else 0) = needed
  split
  · exact fills_same twcc _
  · split
    · exact fills_same twcc _
    · split
      · exact henc
      · exact ⟨henc.only, fun h => absurd rfl h⟩

/-- Whether the last chunk can be encoded does not depend on the record. -/
theorem remaining_err (twcc twcc' : RecvTwccFeedback) (chunk : RtcpTWCCChunk) :
    (twccEncodeRemainingChunk twcc chunk).1 = (twccEncodeRemainingChunk twcc' chunk).1 := by
  unfold twccEncodeRemainingChunk twccEncodeChunkRunLength twccEncodeChunkOneBit
  split
  · split <;> rfl
  · split
    · rfl
    · split <;> rfl

theorem lost_only (n : Nat) (s : TwccEncoding) : OnlyChunks s.twcc (twccLost n s).twcc := by
  induction n generalizing s with
  | zero => rfl
  | succ n ih =>
    have hone := (process_fills s.twcc s.chunk 0).only
    have hrest := ih { s with
      twcc := (twccProcessPktChunk s.twcc s.chunk 0).2.1
      chunk := (twccProcessPktChunk s.twcc s.chunk 0).2.2
      packetCount := (s.packetCount + 1) % 65536 }
    exact onlyChunks_trans hone hrest

end Frames

section Encoding

variable {twcc : RecvTwccFeedback} {chunk : RtcpTWCCChunk} {buf : OutBuffer} {left : Int}
  {s : TwccEncoding}

/-- Where the loop ends, with the error or the state to close. -/
theorem encodeLoop_taken (i : Nat) {currentSn : Nat} (rest : List Nat)
    (hroom : (s.twcc.pktLen : Int) + 2 < left) (h : Takes (s.start i) currentSn) :
    twccEncodeLoop left i (currentSn :: rest) s =
      twccEncodeLoop left (i + 1) rest ((s.start i).taken currentSn) := by
  obtain ⟨hdelta, hok⟩ := h
  unfold TwccEncoding.taken
  rw [twccEncodeLoop, if_neg (Int.not_le.mpr hroom)]
  simp only [hdelta, not_true_eq_false, if_false, hok, ne_eq]

theorem encodeLoop_failed (i : Nat) {currentSn : Nat} (rest : List Nat)
    (hroom : (s.twcc.pktLen : Int) + 2 < left) (h : ¬ Takes (s.start i) currentSn) :
    (twccEncodeLoop left i (currentSn :: rest) s).1 ≠ yangOk ∧
      OnlyChunks (s.start i).twcc (twccEncodeLoop left i (currentSn :: rest) s).2.twcc ∧
      (twccGap s.lastSn currentSn = 0 →
        (twccEncodeLoop left i (currentSn :: rest) s).2.twcc = (s.start i).twcc) := by
  rw [twccEncodeLoop, if_neg (Int.not_le.mpr hroom)]
  dsimp only
  by_cases hdelta : Representable ((s.start i).deltaUs currentSn)
  · have hfails : (twccProcessPktChunk
        (twccLost (twccGap (s.start i).lastSn currentSn) (s.start i)).twcc
        (twccLost (twccGap (s.start i).lastSn currentSn) (s.start i)).chunk
        (recvDeltaSize ((s.start i).deltaUs currentSn))).1 ≠ yangOk := fun hok => h ⟨hdelta, hok⟩
    rw [if_neg (not_not.mpr hdelta), if_pos hfails]
    have hlost := lost_only (twccGap (s.start i).lastSn currentSn) (s.start i)
    have hproc := process_fills
      (twccLost (twccGap (s.start i).lastSn currentSn) (s.start i)).twcc
      (twccLost (twccGap (s.start i).lastSn currentSn) (s.start i)).chunk
      (recvDeltaSize ((s.start i).deltaUs currentSn))
    refine ⟨hfails, onlyChunks_trans hlost hproc.only, fun hgap => (hproc.failed hfails).trans ?_⟩
    rw [show twccGap (s.start i).lastSn currentSn = 0 from hgap]
    rfl
  · rw [if_pos hdelta]
    exact ⟨(by decide : errorRtcRtcp ≠ yangOk), rfl, fun _ => rfl⟩

/-- A number that was taken has left its delta. -/
theorem taken_deltas (s : TwccEncoding) (currentSn : Nat) : (s.taken currentSn).twcc.pktDeltas ≠ [] := by
  unfold TwccEncoding.taken TwccEncoding.received
  simp

theorem onlyChunks_deltas {twcc twcc' : RecvTwccFeedback} (h : OnlyChunks twcc twcc') :
    twcc'.pktDeltas = twcc.pktDeltas := by
  rw [h]

/-- The loop never takes a delta out again. -/
theorem encodeLoop_deltas {i : Nat} {list : List Nat} (h : s.twcc.pktDeltas ≠ []) :
    (twccEncodeLoop left i list s).2.twcc.pktDeltas ≠ [] := by
  induction list generalizing i s with
  | nil => exact h
  | cons currentSn rest ih =>
    by_cases hroom : (s.twcc.pktLen : Int) + 2 < left
    · by_cases htakes : Takes (s.start i) currentSn
      · rw [encodeLoop_taken i rest hroom htakes]
        exact ih (taken_deltas _ _)
      · rw [onlyChunks_deltas (encodeLoop_failed i rest hroom htakes).2.1]
        exact h
    · rw [twccEncodeLoop, if_pos (Int.not_lt.mp hroom)]
      exact h

theorem require_left (hbuf : buf.require kMaxUDPDataSize = true) :
    1472 ≤ (buf.size : Int) - buf.pos := by
  simp only [OutBuffer.require, Bool.and_eq_true, decide_eq_true_eq] at hbuf
  exact hbuf.2

/-- The encoding behind the check of the buffer. -/
theorem recvEncode_eq (chunk : RtcpTWCCChunk) (twcc : RecvTwccFeedback)
    (hbuf : buf.require kMaxUDPDataSize = true) {err : Err} {s : TwccEncoding}
    (hloop : twccEncodeLoop ((buf.size : Int) - buf.pos) 0 twcc.sns.list
      (twccEncodeStart chunk twcc) = (err, s)) :
    ((twccRecvEncode chunk twcc buf).1 = yangOk ↔ err = yangOk ∧ Closes s) ∧
      ((twccRecvEncode chunk twcc buf).1 ≠ yangOk →
        (twccRecvEncode chunk twcc buf).2.1 =
          if err ≠ yangOk then s.twcc else { s.twcc with nextBaseSn := 0 }) := by
  have hroom : buf.require 8 = true := by
    have hleft := require_left hbuf
    simp only [OutBuffer.require, Bool.and_eq_true, decide_eq_true_eq]
    omega
  have hpacket : ∀ twcc : RecvTwccFeedback, (twccEncodePacket twcc s.packetCount buf).1 = yangOk := by
    intro twcc
    obtain ⟨b0, b1, len, tail, pktLen, buf', heq, -⟩ := encodePacket_eq twcc s.packetCount hroom
    rw [heq]
  unfold twccRecvEncode Closes
  rw [hbuf]
  simp only [Bool.not_true, Bool.false_eq_true, if_false, hloop]
  by_cases herr : err = yangOk
  · subst herr
    simp only [ne_eq, not_true_eq_false, if_false, true_and]
    by_cases hopen : 0 < s.chunk.size
    · have hclosed := remaining_fills { s.twcc with nextBaseSn := 0 } s.chunk
      simp only [hopen, if_true, remaining_err s.twcc { s.twcc with nextBaseSn := 0 } s.chunk,
        forall_true_left]
      split
      · rename_i hfails
        exact ⟨⟨fun h => absurd h hfails, fun h => absurd h hfails⟩, fun _ => hclosed.failed hfails⟩
      · rename_i hcloses
        have hok := hpacket (twccEncodeRemainingChunk { s.twcc with nextBaseSn := 0 } s.chunk).2
        exact ⟨⟨fun _ => not_not.mp hcloses, fun _ => hok⟩, fun h => absurd hok h⟩
    · have hok := hpacket { s.twcc with nextBaseSn := 0 }
      simp only [hopen, if_false, not_true_eq_false]
      exact ⟨⟨fun _ h => absurd h (by decide), fun _ => hok⟩, fun h => absurd hok h⟩
  · simp [herr]

theorem completes_iff {i : Nat} {list : List Nat} :
    Completes left i list s ↔
      (twccEncodeLoop left i list s).1 = yangOk ∧ Closes (twccEncodeLoop left i list s).2 := by
  induction list generalizing i s with
  | nil => simp [Completes, twccEncodeLoop]
  | cons currentSn rest ih =>
    by_cases hroom : (s.twcc.pktLen : Int) + 2 < left
    · rw [Completes, if_neg (Int.not_le.mpr hroom)]
      by_cases htakes : Takes (s.start i) currentSn
      · rw [encodeLoop_taken i rest hroom htakes, ih]
        exact ⟨fun h => h.2, fun h => ⟨htakes, h⟩⟩
      · have hfails := (encodeLoop_failed i rest hroom htakes).1
        exact ⟨fun h => absurd h.1 htakes, fun h => absurd h.1 hfails⟩
    · rw [Completes, if_pos (Int.not_lt.mp hroom), twccEncodeLoop, if_pos (Int.not_lt.mp hroom)]
      simp

/-- An encoding is atomic on failure exactly if it succeeds, or nothing was waiting in the record and it
fails at its first number or before. -/
theorem encode_atomic (chunk : RtcpTWCCChunk) (twcc : RecvTwccFeedback) (buf : OutBuffer)
    (hbase : twcc.nextBaseSn = 0) :
    AtomicOnFailure chunk twcc buf ↔
      (buf.require kMaxUDPDataSize = true ∧
        Completes ((buf.size : Int) - buf.pos) 0 twcc.sns.list (twccEncodeStart chunk twcc)) ∨
      (Empty twcc ∧ FailsFirst chunk twcc buf) := by
  unfold AtomicOnFailure FailsFirst
  by_cases hbuf : buf.require kMaxUDPDataSize = true
  · obtain ⟨err, s, hloop⟩ : ∃ err s, twccEncodeLoop ((buf.size : Int) - buf.pos) 0 twcc.sns.list
        (twccEncodeStart chunk twcc) = (err, s) := ⟨_, _, rfl⟩
    obtain ⟨hok, hleft⟩ := recvEncode_eq chunk twcc hbuf hloop
    rw [completes_iff, hloop]
    by_cases hsucceeds : err = yangOk ∧ Closes s
    · exact ⟨fun _ => .inl ⟨hbuf, hsucceeds⟩, fun _ h => absurd (hok.mpr hsucceeds) h⟩
    · have hfails : (twccRecvEncode chunk twcc buf).1 ≠ yangOk := fun h => hsucceeds (hok.mp h)
      suffices hrest : (Empty (twccRecvEncode chunk twcc buf).2.1 ∧
          (twccRecvEncode chunk twcc buf).2.1.nextBaseSn = twcc.nextBaseSn ∧
          (twccRecvEncode chunk twcc buf).2.1.sns = twcc.sns) ↔ Empty twcc ∧
            ∀ first ∈ twcc.sns.list.head?, ¬ Takes ((twccEncodeStart chunk twcc).start 0) first by
        constructor
        · intro h
          exact .inr ⟨(hrest.mp (h hfails)).1, .inr (hrest.mp (h hfails)).2⟩
        · rintro (⟨-, h⟩ | ⟨hempty, h⟩) _
          · exact absurd h hsucceeds
          · exact hrest.mpr ⟨hempty, h.resolve_left (by simp [hbuf])⟩
      rw [hleft hfails]
      cases hlist : twcc.sns.list with
      | nil =>
        -- what the stack holds is taken for a chunk, and nothing was put down before
        rw [hlist] at hloop
        cases hloop
        rw [if_neg (not_not.mpr rfl)]
        exact ⟨fun h => ⟨h.1, fun _ hfirst => (nomatch hfirst)⟩, fun h => ⟨h.1, hbase.symm, rfl⟩⟩
      | cons first rest =>
        have hroom : ((twccEncodeStart chunk twcc).twcc.pktLen : Int) + 2 <
            (buf.size : Int) - buf.pos := by
          have hleft := require_left hbuf
          have hhead : (twccEncodeStart chunk twcc).twcc.pktLen = 20 := rfl
          omega
        rw [hlist] at hloop
        by_cases htakes : Takes ((twccEncodeStart chunk twcc).start 0) first
        · -- the first number has left its delta
          rw [encodeLoop_taken 0 rest hroom htakes] at hloop
          have hdeltas := @encodeLoop_deltas ((buf.size : Int) - buf.pos)
            (((twccEncodeStart chunk twcc).start 0).taken first) 1 rest (taken_deltas _ _)
          rw [hloop] at hdeltas
          have hwaiting : ¬ Empty (if err ≠ yangOk then s.twcc else { s.twcc with nextBaseSn := 0 }) := by
            split <;> exact fun h => hdeltas h.2
          exact ⟨fun h => absurd h.1 hwaiting, fun h => absurd htakes (h.2 first rfl)⟩
        · have hgap : twccGap (twccEncodeStart chunk twcc).lastSn first = 0 := by
            rw [encodeStart_first hbase hlist]
            simp [twccGap]
          obtain ⟨herr, -, hsame⟩ := encodeLoop_failed 0 rest hroom htakes
          rw [hloop] at herr hsame
          rw [if_pos herr, hsame hgap]
          refine ⟨fun h => ⟨h.1, fun x hx => ?_⟩, fun h => ⟨h.1, rfl, rfl⟩⟩
          obtain rfl : first = x := Option.some.inj hx
          exact htakes
  · simp [twccRecvEncode, hbuf, errorRtcRtcp, yangOk]

theorem taken_base (s : TwccEncoding) (currentSn : Nat) :
    (s.taken currentSn).twcc.nextBaseSn = s.twcc.nextBaseSn := by
  obtain ⟨lost, hlost⟩ : ∃ lost, lost = twccLost (twccGap s.lastSn currentSn) s := ⟨_, rfl⟩
  have honly := lost_only (twccGap s.lastSn currentSn) s
  have hproc := (process_fills lost.twcc lost.chunk (recvDeltaSize (s.deltaUs currentSn))).only
  have hall := onlyChunks_trans (hlost ▸ honly : OnlyChunks s.twcc lost.twcc) hproc
  have hkept : (twccProcessPktChunk lost.twcc lost.chunk
      (recvDeltaSize (s.deltaUs currentSn))).2.1.nextBaseSn = s.twcc.nextBaseSn := by
    rw [hall]
  unfold TwccEncoding.taken
  rw [← hlost]
  exact hkept

theorem encodeLoop_base {i : Nat} {list : List Nat} :
    (twccEncodeLoop left i list s).2.twcc.nextBaseSn = s.twcc.nextBaseSn := by
  induction list generalizing i s with
  | nil => rfl
  | cons currentSn rest ih =>
    by_cases hroom : (s.twcc.pktLen : Int) + 2 < left
    · by_cases htakes : Takes (s.start i) currentSn
      · rw [encodeLoop_taken i rest hroom htakes, ih, taken_base]
        rfl
      · rw [(encodeLoop_failed i rest hroom htakes).2.1]
        rfl
    · rw [twccEncodeLoop, if_pos (Int.not_lt.mp hroom)]

theorem encodePacket_base (packetCount : Nat) (buf : OutBuffer) (hbase : twcc.nextBaseSn = 0) :
    (twccEncodePacket twcc packetCount buf).2.1.nextBaseSn = 0 := by
  unfold twccEncodePacket
  dsimp only
  generalize (if twcc.pktLen % 4 = 0 then twcc.pktLen / 4
    else (twcc.pktLen + 4 - twcc.pktLen % 4) / 4) = words
  split
  · exact hbase
  · rfl

/-- No encoding ever sets a base for the next one. -/
theorem recvEncode_base (chunk : RtcpTWCCChunk) (buf : OutBuffer) (hbase : twcc.nextBaseSn = 0) :
    (twccRecvEncode chunk twcc buf).2.1.nextBaseSn = 0 := by
  have hloop := @encodeLoop_base ((buf.size : Int) - buf.pos) (twccEncodeStart chunk twcc) 0
    twcc.sns.list
  generalize hs : twccEncodeLoop ((buf.size : Int) - buf.pos) 0 twcc.sns.list
    (twccEncodeStart chunk twcc) = out at hloop
  unfold twccRecvEncode
  split
  · exact hbase
  · simp only [hs]
    split
    · exact hloop.trans hbase
    · have hremaining := (remaining_fills { out.2.twcc with nextBaseSn := 0 } out.2.chunk).only
      have hclosed : (twccEncodeRemainingChunk { out.2.twcc with nextBaseSn := 0 }
          out.2.chunk).2.nextBaseSn = 0 := by
        rw [hremaining]
      by_cases hopen : 0 < out.2.chunk.size
      · simp only [hopen, if_true]
        split
        · exact hclosed
        · exact encodePacket_base _ buf hclosed
      · simp only [hopen, if_false]
        exact encodePacket_base _ buf rfl

/-- Two numbers that came ten seconds apart. -/
def tenSecondsApart : RecvTwccFeedback := rtcplayOnTwcc 10000000 (rtcplayOnTwcc 0 {} 1) 2

theorem encode_atomic_short :
    AtomicOnFailure ⟨fun _ => 0, 0, true, false⟩ tenSecondsApart { size := 1000 } :=
  (encode_atomic ⟨fun _ => 0, 0, true, false⟩ tenSecondsApart { size := 1000 } rfl).mpr
    (.inr ⟨⟨rfl, rfl⟩, .inl (by decide)⟩)

/-- The second delta does not fit, and the first stays in the record. -/
theorem delta_left_behind :
    ¬ AtomicOnFailure ⟨fun _ => 0, 0, true, false⟩ tenSecondsApart { size := kRtpPacketSize } := by
  intro h
  have hfails : (twccRecvEncode ⟨fun _ => 0, 0, true, false⟩ tenSecondsApart
      { size := kRtpPacketSize }).1 ≠ yangOk := by
    decide +kernel
  have hleft : (twccRecvEncode ⟨fun _ => 0, 0, true, false⟩ tenSecondsApart
      { size := kRtpPacketSize }).2.1.pktDeltas = [0] := by
    decide +kernel
  have hempty := (h hfails).1.2
  rw [hleft] at hempty
  exact nomatch hempty

end Encoding

end MetaRtc
