import MetaRtc.Lib.Area
import MetaRtc.Lib.Loop
import MetaRtc.Rtcp.Pass
import MetaRtc.Session.Streams

/-! # The blocks of an extended report

A block is a header of four bytes and as many words behind it as the header says. Entries
are looked for in the DLRR blocks alone. -/
namespace MetaRtc

open Bytes Exec

/-- A place the loop reads at: the header of a block, or an entry of twelve bytes. -/
inductive XrRead where
  | header (place : Nat)
  | entry (place : Nat)
  deriving DecidableEq

def XrRead.stop : XrRead → Nat
  | header p => p + 4
  | entry p => p + 12

structure XrBlock where
  start : Nat
  blockType : Nat
  words : Nat
  deriving DecidableEq

namespace XrBlock

def stop (b : XrBlock) : Nat := b.start + 4 + 4 * b.words

/-- The length as the code keeps it. -/
def blockLength (b : XrBlock) : Nat := (b.words + 1) * 4 % 65536

/-- How far the loop goes behind the header of a block that is no DLRR block. -/
def skipped (b : XrBlock) : Nat := if b.blockType = 4 then 8 else 0

end XrBlock

def xrBlockAt (data : Mem) (p : Nat) : XrBlock := ⟨p, (data p).toNat, data.be (p + 2) 2⟩

def xrEntries (p n : Nat) : List XrRead := (List.range n).map fun i => .entry (p + 12 * i)

/-- One pass of the loop from a place on, with what has been read before. -/
def xrPass (data : Mem) (length : Nat) (nbData : Int) (w : Nat × List XrRead) :
    Loop.Outcome (Nat × List XrRead) (List XrRead) :=
  let (p, reads) := w
  if p + 4 < length then
    let b := xrBlockAt data p
    let reads := reads ++ [.header p]
    if (p : Int) + b.blockLength > nbData then .done reads
    else if b.blockType = 5 then
      let n := (b.blockLength - 4 + 11) / 12
      .next (p + 4 + 12 * n, reads ++ xrEntries (p + 4) n)
    else .next (p + 4 + b.skipped, reads)
  else .done reads

/-- What an entry does to the streams. -/
def xrEffect (env : SessionEnv) (data : Mem) (s : Streams) : XrRead → Streams
  | .header _ => s
  | .entry p => (xrDlrrEntries env 1 ⟨data, 0, 0, p, false⟩ s).2

/-- The blocks of a packet as they are laid out in it, up to the first that does not end
in it. -/
def xrLaidOut (data : Mem) (length : Nat) : Nat → Nat → List XrBlock
  | 0, _ => []
  | fuel + 1, p =>
    if p + 4 < length then
      let b := xrBlockAt data p
      b :: if b.stop ≤ length then xrLaidOut data length fuel b.stop else []
    else []

namespace XrBlock

/-- What is there to read of a block: the header, and the entries of a DLRR block that ends
in the packet. -/
def reads (length : Nat) (b : XrBlock) : List XrRead :=
  .header b.start ::
    if b.stop ≤ length ∧ b.blockType = 5 then xrEntries (b.start + 4) (b.words / 3) else []

/-- The loop goes on where the block ends, or stops with it. A block that ends in the packet
has whole entries if it is a DLRR block; if not, it has as many words as the loop skips,
whatever it says, or is the last. One that does not is refused, or no header is looked for
behind it. -/
def Followed (length : Nat) (nbData : Int) (b : XrBlock) : Prop :=
  if b.stop ≤ length then
    if b.blockType = 5 then b.words % 3 = 0
    else b.skipped = 4 * b.words ∨ length ≤ b.start + 8 + b.skipped ∧ length ≤ b.stop + 4
  else
    nbData < (b.start : Int) + b.blockLength ∨
      (b.blockType = 5 → b.blockLength ≤ 4) ∧ length ≤ b.start + 8 + b.skipped

instance (length : Nat) (nbData : Int) (b : XrBlock) : Decidable (b.Followed length nbData) := by
  unfold Followed
  exact inferInstance

end XrBlock

/-- What the decoder hands on: an extended report that begins at `start`, whole, in a
datagram. -/
structure XrDecoded (memory : Mem) (rtcp : RtcpCommon) (start : Nat) : Prop where
  data : rtcp.data = some start
  type : (memory (start + 1)).toNat = RtcpType.xr
  whole : (((memory.drop start).be 2 2 + 1) * 4 : Nat) ≤ rtcp.nbData
  datagram : rtcp.nbData < 65536

/-- The length of the packet that begins a block of memory. -/
def xrLength (data : Mem) : Nat := (data.be 2 2 + 1) * 4

/-- Exactly the entries of the packet's DLRR blocks are taken, nothing is read behind the
packet, and the loop ends. -/
def XrExact (memory : Mem) (rtcp : RtcpCommon) (start : Nat) : Prop :=
  let data := memory.drop start
  let length := xrLength data
  let reads := (xrLaidOut data length length 8).flatMap (XrBlock.reads length)
  8 ≤ length ∧ (∀ r ∈ reads, r.stop ≤ length) ∧
    (∃ n, Loop.run (xrPass data length rtcp.nbData) n (8, []) = some reads) ∧
    ∀ env s, ∃ err, rtcplayOnRtcpXr env memory s rtcp =
      .ret (err, reads.foldl (xrEffect env data) s)

/-- What is read by so many passes at most. -/
def xrReads (data : Mem) (length : Nat) (nbData : Int) : Nat → Nat → List XrRead
  | 0, _ => []
  | fuel + 1, p =>
    match xrPass data length nbData (p, []) with
    | .next (q, reads) => reads ++ xrReads data length nbData fuel q
    | .done reads => reads

section Reading

variable {data : Mem} {length n p : Nat} {nbData : Int} {acc : List XrRead} {env : SessionEnv}

@[simp] theorem xrEntries_zero (p : Nat) : xrEntries p 0 = [] := rfl

theorem xrEntries_succ (p n : Nat) : xrEntries p (n + 1) = .entry p :: xrEntries (p + 12) n := by
  simp only [xrEntries, List.range_succ_eq_map, List.map_cons, List.map_map, Nat.mul_zero,
    Nat.add_zero, List.cons.injEq, true_and]
  refine List.map_congr_left fun i _ => congrArg XrRead.entry ?_
  omega

/-- What is read by one pass goes before what is read by the passes behind it. -/
theorem xrReads_succ (data : Mem) (length : Nat) (nbData : Int) (n p : Nat) :
    xrReads data length nbData (n + 1) p =
      if p + 4 < length then
        .header p ::
          if (p : Int) + (xrBlockAt data p).blockLength > nbData then []
          else if (xrBlockAt data p).blockType = 5 then
            let k := ((xrBlockAt data p).blockLength - 4 + 11) / 12
            xrEntries (p + 4) k ++ xrReads data length nbData n (p + 4 + 12 * k)
          else xrReads data length nbData n (p + 4 + (xrBlockAt data p).skipped)
      else [] := by
  rw [xrReads, xrPass]
  dsimp only
  split_ifs <;> rfl

/-- A pass does the same whatever has been read before. -/
theorem xrPass_acc (p : Nat) (acc : List XrRead) : xrPass data length nbData (p, acc) =
    match xrPass data length nbData (p, []) with
    | .next (q, reads) => .next (q, acc ++ reads)
    | .done reads => .done (acc ++ reads) := by
  unfold xrPass
  dsimp only
  split_ifs <;> simp only [List.append_nil, List.nil_append, List.append_assoc]

theorem xrPass_next {q : Nat} {reads : List XrRead}
    (h : xrPass data length nbData (p, acc) = .next (q, reads)) : p + 4 < length ∧ p + 4 ≤ q := by
  unfold xrPass at h
  dsimp only at h
  split_ifs at h with hin
  · cases h
    exact ⟨hin, Nat.le_add_right _ _⟩
  · cases h
    exact ⟨hin, Nat.le_add_right _ _⟩

/-- The loop ends, and has then read all there is for it to read. -/
theorem run_reads (hpos : 0 < n) (hn : length < p + n) :
    Loop.run (xrPass data length nbData) n (p, acc) =
      some (acc ++ xrReads data length nbData n p) := by
  induction n generalizing p acc with
  | zero => cases hpos
  | succ n ih =>
    have hacc := @xrPass_acc data length nbData p acc
    rw [xrReads]
    rcases hpass : xrPass data length nbData (p, []) with ⟨q, reads⟩ | reads
    · rw [hpass] at hacc
      obtain ⟨hin, hq⟩ := xrPass_next hpass
      rw [Loop.run_next hacc, ih (by omega) (by omega), List.append_assoc]
    · rw [hpass] at hacc
      exact Loop.run_done hacc n

theorem xrLoop_terminates (data : Mem) (length : Nat) (nbData : Int) :
    Loop.Terminates (xrPass data length nbData) (8, []) :=
  ⟨length + 1, _, run_reads (Nat.succ_pos _) (by omega)⟩

end Reading

section Following

variable {data : Mem} {length n p q k : Nat} {nbData : Int} {rest : List XrRead}

def laidReads (data : Mem) (length n p : Nat) : List XrRead :=
  (xrLaidOut data length n p).flatMap (XrBlock.reads length)

theorem laidReads_succ (data : Mem) (length n p : Nat) : laidReads data length (n + 1) p =
    if p + 4 < length then
      .header p :: ((if (xrBlockAt data p).stop ≤ length ∧ (xrBlockAt data p).blockType = 5 then
        xrEntries (p + 4) ((xrBlockAt data p).words / 3) else []) ++
          if (xrBlockAt data p).stop ≤ length then
            laidReads data length n (xrBlockAt data p).stop
          else [])
    else [] := by
  rw [laidReads, xrLaidOut]
  by_cases hin : p + 4 < length
  · rw [if_pos hin, if_pos hin]
    by_cases hstop : (xrBlockAt data p).stop ≤ length
    · simp only [hstop, if_true, true_and, List.flatMap_cons, XrBlock.reads]
      rfl
    · simp only [hstop, if_false, false_and, List.flatMap_cons, XrBlock.reads]
      rfl
  · rw [if_neg hin, if_neg hin]
    rfl

theorem xrReads_over (h : length ≤ p + 4) : xrReads data length nbData n p = [] := by
  cases n with
  | zero => rfl
  | succ n => rw [xrReads_succ, if_neg (Nat.not_lt.mpr h)]

theorem laidReads_over (h : length ≤ p + 4) : laidReads data length n p = [] := by
  cases n with
  | zero => rfl
  | succ n => rw [laidReads_succ, if_neg (Nat.not_lt.mpr h)]

theorem xrLaidOut_over (h : length ≤ p + 4) : xrLaidOut data length n p = [] := by
  cases n with
  | zero => rfl
  | succ n => rw [xrLaidOut, if_neg (Nat.not_lt.mpr h)]

/-- Where there is room for one more, a header is read first. -/
theorem xrReads_inside (hn : length ≤ p + n) (h : p + 4 < length) :
    ∃ rest, xrReads data length nbData n p = .header p :: rest := by
  obtain ⟨n, rfl⟩ := Nat.exists_eq_add_of_le' (show 1 ≤ n by omega)
  rw [xrReads_succ, if_pos h]
  exact ⟨_, rfl⟩

theorem laidReads_inside (hn : length ≤ p + n) (h : p + 4 < length) :
    ∃ rest, laidReads data length n p = .header p :: rest := by
  obtain ⟨n, rfl⟩ := Nat.exists_eq_add_of_le' (show 1 ≤ n by omega)
  rw [laidReads_succ, if_pos h]
  exact ⟨_, rfl⟩

/-- From two places the same is read only if no header is looked for at either. -/
theorem reads_apart (hpq : p ≠ q) (hp : length ≤ p + n) (hq : length ≤ q + n) :
    xrReads data length nbData n p = laidReads data length n q ↔
      length ≤ p + 4 ∧ length ≤ q + 4 := by
  constructor
  · intro heq
    by_cases hpin : p + 4 < length
    · obtain ⟨rest, hread⟩ := @xrReads_inside data length n p nbData hp hpin
      rw [hread] at heq
      by_cases hqin : q + 4 < length
      · obtain ⟨rest', hlaid⟩ := @laidReads_inside data length n q hq hqin
        rw [hlaid, List.cons.injEq, XrRead.header.injEq] at heq
        exact absurd heq.1 hpq
      · rw [laidReads_over (by omega)] at heq
        cases heq
    · by_cases hqin : q + 4 < length
      · obtain ⟨rest', hlaid⟩ := @laidReads_inside data length n q hq hqin
        rw [hlaid, xrReads_over (by omega)] at heq
        cases heq
      · omega
  · rintro ⟨hpout, hqout⟩
    rw [xrReads_over hpout, laidReads_over hqout]

/-- No entry is read where a header is looked for. -/
theorem laidReads_ne_entry (n q : Nat) (rest : List XrRead) :
    laidReads data length n q ≠ .entry k :: rest := by
  cases n with
  | zero => exact (List.cons_ne_nil _ _).symm
  | succ n =>
    rw [laidReads_succ]
    split
    · intro heq
      cases heq
    · exact (List.cons_ne_nil _ _).symm

/-- A block that ends in the packet has a length of 16 bits, and is not refused. -/
theorem blockLength_inside {b : XrBlock} (hstop : b.stop ≤ length) (hin : (length : Int) ≤ nbData)
    (hdatagram : nbData < 65536) :
    b.blockLength = 4 * b.words + 4 ∧ ¬ (b.start : Int) + b.blockLength > nbData := by
  unfold XrBlock.stop at hstop
  have hlength : b.blockLength = 4 * b.words + 4 := by
    unfold XrBlock.blockLength
    omega
  omega

theorem xrReads_nil (hn : length ≤ p + n) :
    xrReads data length nbData n p = [] ↔ length ≤ p + 4 := by
  constructor
  · intro hnil
    by_contra hin
    obtain ⟨rest, hread⟩ := @xrReads_inside data length n p nbData hn (Nat.lt_of_not_le hin)
    rw [hread] at hnil
    cases hnil
  · exact xrReads_over

theorem xrEntries_add (p j k : Nat) :
    xrEntries p (j + k) = xrEntries p j ++ xrEntries (p + 12 * j) k := by
  induction j generalizing p with
  | zero => simp only [Nat.zero_add, xrEntries_zero, Nat.mul_zero, Nat.add_zero, List.nil_append]
  | succ j ih =>
    have hplace : p + 12 + 12 * j = p + 12 * (j + 1) := by omega
    rw [Nat.succ_add, xrEntries_succ, xrEntries_succ, ih, List.cons_append, hplace]

/-- A DLRR block that ends in the packet: one entry too many is read if there is a part of
one behind the last. -/
theorem dlrr_inside (w p q : Nat) (rest : List XrRead) :
    xrEntries p ((4 * w + 11) / 12) ++ rest =
        xrEntries p (w / 3) ++ laidReads data length n q ↔
      w % 3 = 0 ∧ rest = laidReads data length n q := by
  by_cases hwhole : w % 3 = 0
  · have hcount : (4 * w + 11) / 12 = w / 3 := by omega
    rw [hcount, List.append_right_inj]
    exact (and_iff_right hwhole).symm
  · have hcount : (4 * w + 11) / 12 = w / 3 + 1 := by omega
    rw [hcount, xrEntries_add, List.append_assoc, List.append_right_inj, xrEntries_succ]
    constructor
    · intro heq
      exact absurd heq.symm (laidReads_ne_entry _ _ _)
    · intro h
      exact absurd h.1 hwhole

/-- A block of another type that ends in the packet: where the loop does not go on at its
end, no header may be looked for any more. -/
theorem other_inside {b : XrBlock} (hn : length ≤ b.start + 4 + n) :
    (xrReads data length nbData n (b.start + 4 + b.skipped) = laidReads data length n b.stop) ↔
      (b.skipped = 4 * b.words ∧
          xrReads data length nbData n b.stop = laidReads data length n b.stop) ∨
        length ≤ b.start + 8 + b.skipped ∧ length ≤ b.stop + 4 := by
  have hend : b.stop = b.start + 4 + 4 * b.words := rfl
  by_cases hskip : b.skipped = 4 * b.words
  · rw [hskip, ← hend]
    constructor
    · exact fun heq => .inl ⟨rfl, heq⟩
    · rintro (⟨-, heq⟩ | ⟨-, hover⟩)
      · exact heq
      · rw [xrReads_over hover, laidReads_over hover]
  · have hne : b.start + 4 + b.skipped ≠ b.stop := by omega
    rw [reads_apart hne (by omega) (by omega), or_iff_right (fun h => hskip h.1)]
    omega

/-- A block that does not end in the packet: nothing may be read behind its header. -/
theorem reads_outside {b : XrBlock} (hn : length ≤ b.start + 4 + n) :
    (if (b.start : Int) + b.blockLength > nbData then ([] : List XrRead)
      else if b.blockType = 5 then
        xrEntries (b.start + 4) ((b.blockLength - 4 + 11) / 12) ++
          xrReads data length nbData n (b.start + 4 + 12 * ((b.blockLength - 4 + 11) / 12))
      else xrReads data length nbData n (b.start + 4 + b.skipped)) = [] ↔
      nbData < (b.start : Int) + b.blockLength ∨
        (b.blockType = 5 → b.blockLength ≤ 4) ∧ length ≤ b.start + 8 + b.skipped := by
  by_cases hrefused : (b.start : Int) + b.blockLength > nbData
  · rw [if_pos hrefused]
    exact iff_of_true rfl (.inl hrefused)
  · rw [if_neg hrefused, or_iff_right hrefused]
    by_cases htype : b.blockType = 5
    · have hskip : b.skipped = 0 := if_neg (by omega)
      rw [if_pos htype, List.append_eq_nil_iff, xrReads_nil (by omega), hskip]
      cases hcount : (b.blockLength - 4 + 11) / 12 with
      | zero =>
        have hshort : b.blockLength ≤ 4 := by omega
        rw [xrEntries_zero]
        exact and_congr (iff_of_true rfl fun _ => hshort) (by omega)
      | succ k =>
        have hlong : 4 < b.blockLength := by omega
        rw [xrEntries_succ]
        constructor
        · intro h
          cases h.1
        · intro h
          exact absurd (h.1 htype) (Nat.not_le.mpr hlong)
    · have hplace : b.start + 4 + b.skipped + 4 = b.start + 8 + b.skipped := by omega
      rw [if_neg htype, xrReads_nil (by omega), hplace]
      exact (and_iff_right fun h => absurd h htype).symm

/-- The loop reads what there is to read if every block is followed by it, and only then. -/
theorem reads_iff (hn : length ≤ p + n) (hin : (length : Int) ≤ nbData)
    (hdatagram : nbData < 65536) :
    xrReads data length nbData n p = laidReads data length n p ↔
      ∀ b ∈ xrLaidOut data length n p, b.Followed length nbData := by
  induction n generalizing p with
  | zero => exact iff_of_true rfl (List.forall_mem_nil _)
  | succ n ih =>
    rw [xrReads_succ, laidReads_succ, xrLaidOut]
    by_cases hroom : p + 4 < length
    · rw [if_pos hroom, if_pos hroom, if_pos hroom, List.cons_inj_right, List.forall_mem_cons]
      have hstart : p = (xrBlockAt data p).start := rfl
      generalize xrBlockAt data p = b at hstart ⊢
      subst hstart
      have hnext : length ≤ b.start + 4 + n := by omega
      by_cases hstop : b.stop ≤ length
      · have hend : b.stop = b.start + 4 + 4 * b.words := rfl
        obtain ⟨hlength, hgoes⟩ := blockLength_inside hstop hin hdatagram
        have hcount : b.blockLength - 4 + 11 = 4 * b.words + 11 := by omega
        rw [if_neg hgoes, if_pos hstop, if_pos hstop, XrBlock.Followed, if_pos hstop, hcount]
        by_cases htype : b.blockType = 5
        · rw [if_pos htype, if_pos ⟨hstop, htype⟩, if_pos htype, dlrr_inside, ← ih (by omega)]
          refine and_congr_right fun hwhole => ?_
          have hplace : b.start + 4 + 12 * ((4 * b.words + 11) / 12) = b.stop := by omega
          rw [hplace]
        · have hother : ¬ (b.stop ≤ length ∧ b.blockType = 5) := fun h => htype h.2
          rw [if_neg htype, if_neg hother, if_neg htype, List.nil_append, other_inside hnext,
            ← ih (by omega)]
          constructor
          · rintro (⟨hskip, heq⟩ | hover)
            · exact ⟨.inl hskip, heq⟩
            · refine ⟨.inr hover, ?_⟩
              rw [xrReads_over hover.2, laidReads_over hover.2]
          · rintro ⟨hskip | hover, heq⟩
            · exact .inl ⟨hskip, heq⟩
            · exact .inr hover
      · have hends : ¬ (b.stop ≤ length ∧ b.blockType = 5) := fun h => hstop h.1
        rw [if_neg hends, if_neg hstop, List.append_nil, if_neg hstop, XrBlock.Followed,
          if_neg hstop, and_iff_left (List.forall_mem_nil _)]
        exact reads_outside hnext
    · rw [if_neg hroom, if_neg hroom, if_neg hroom]
      exact iff_of_true rfl (List.forall_mem_nil _)

end Following

section Effect

variable {data : Mem} {length n p : Nat} {nbData : Int} {env : SessionEnv} {stream : YangBuffer}
variable {s : Streams}

/-- The entries are gone through one behind the other. -/
theorem xrDlrrEntries_fold (env : SessionEnv) (n : Nat) (stream : YangBuffer) (s : Streams) :
    (xrDlrrEntries env n stream s).1.data = stream.data ∧
      (xrDlrrEntries env n stream s).1.head = stream.head + 12 * n ∧
      (xrDlrrEntries env n stream s).2 =
        (xrEntries stream.head n).foldl (xrEffect env stream.data) s := by
  induction n generalizing stream s with
  | zero => exact ⟨rfl, rfl, rfl⟩
  | succ n ih =>
    have hstep : xrDlrrEntries env (n + 1) stream s =
        xrDlrrEntries env n (((stream.take 4).take 4).take 4)
          (xrEffect env stream.data s (.entry stream.head)) := rfl
    obtain ⟨hdata, hhead, hstreams⟩ :=
      ih (((stream.take 4).take 4).take 4) (xrEffect env stream.data s (.entry stream.head))
    rw [hstep, xrEntries_succ]
    refine ⟨hdata, ?_, hstreams⟩
    rw [hhead]
    simp only [YangBuffer.take_head]
    omega

/-- Behind the header of a block. -/
def xrBehind (stream : YangBuffer) : YangBuffer := ((stream.take 1).skip 1).take 2

theorem xrBehind_head (stream : YangBuffer) : (xrBehind stream).head = stream.head + 4 := by
  simp only [xrBehind, YangBuffer.take_head, YangBuffer.skip_head]
  omega

theorem xrBlocks_succ (env : SessionEnv) (length : Nat) (nbData : Int) (n : Nat)
    (stream : YangBuffer) (s : Streams) : xrBlocks env length nbData (n + 1) stream s =
      if stream.head + 4 < length then
        let b := xrBlockAt stream.data stream.head
        if (stream.head : Int) + b.blockLength > nbData then (errorRtcRtcpCheck, s)
        else if b.blockType = 5 then
          let entries := xrDlrrEntries env ((b.blockLength - 4 + 11) / 12) (xrBehind stream) s
          xrBlocks env length nbData n entries.1 entries.2
        else if b.blockType = 4 then xrBlocks env length nbData n ((xrBehind stream).skip 8) s
        else xrBlocks env length nbData n (xrBehind stream) s
      else (yangOk, s) := by
  have hplace : ((stream.take 1).skip 1).head = stream.head + 2 := by
    simp only [YangBuffer.take_head, YangBuffer.skip_head]
    omega
  have htype : stream.data.be stream.head 1 = (xrBlockAt stream.data stream.head).blockType :=
    Mem.be_one _ _
  have hlength : (stream.data.be ((stream.take 1).skip 1).head 2 + 1) * 4 % 65536 =
      (xrBlockAt stream.data stream.head).blockLength := by
    rw [hplace]
    rfl
  have hrefused : ((((stream.take 1).skip 1).take 2).head : Int) +
        (xrBlockAt stream.data stream.head).blockLength - 4 > nbData ↔
      (stream.head : Int) + (xrBlockAt stream.data stream.head).blockLength > nbData := by
    rw [show (((stream.take 1).skip 1).take 2).head = stream.head + 4 from xrBehind_head stream]
    omega
  rw [xrBlocks]
  simp only [YangBuffer.read1bytes, YangBuffer.read2bytes, YangBuffer.readNum,
    YangBuffer.skip_data, YangBuffer.take_data, htype, hlength, hrefused, xrBehind]

/-- The streams are changed by the entries the loop reads, and by nothing else. -/
theorem xrBlocks_fold (n : Nat) (stream : YangBuffer) (s : Streams) :
    ∃ err, xrBlocks env length nbData n stream s =
      (err, (xrReads stream.data length nbData n stream.head).foldl
        (xrEffect env stream.data) s) := by
  induction n generalizing stream s with
  | zero => exact ⟨_, rfl⟩
  | succ n ih =>
    rw [xrBlocks_succ, xrReads_succ]
    by_cases hroom : stream.head + 4 < length
    · rw [if_pos hroom, if_pos hroom, List.foldl_cons]
      generalize xrBlockAt stream.data stream.head = b
      dsimp only
      by_cases hrefused : (stream.head : Int) + b.blockLength > nbData
      · rw [if_pos hrefused, if_pos hrefused]
        exact ⟨_, rfl⟩
      · rw [if_neg hrefused, if_neg hrefused]
        by_cases hdlrr : b.blockType = 5
        · rw [if_pos hdlrr, if_pos hdlrr, List.foldl_append]
          obtain ⟨hdata, hhead, hstreams⟩ :=
            xrDlrrEntries_fold env ((b.blockLength - 4 + 11) / 12) (xrBehind stream) s
          obtain ⟨err, hrest⟩ := ih
            (xrDlrrEntries env ((b.blockLength - 4 + 11) / 12) (xrBehind stream) s).1
            (xrDlrrEntries env ((b.blockLength - 4 + 11) / 12) (xrBehind stream) s).2
          rw [hrest, hdata, hhead, hstreams, xrBehind_head]
          exact ⟨err, rfl⟩
        · rw [if_neg hdlrr, if_neg hdlrr]
          by_cases hrrt : b.blockType = 4
          · obtain ⟨err, hrest⟩ := ih ((xrBehind stream).skip 8) s
            have hplace : ((xrBehind stream).skip 8).head = stream.head + 4 + b.skipped := by
              rw [YangBuffer.skip_head, xrBehind_head, XrBlock.skipped, if_pos hrrt]
              omega
            rw [if_pos hrrt, hrest, hplace]
            exact ⟨err, rfl⟩
          · obtain ⟨err, hrest⟩ := ih (xrBehind stream) s
            rw [if_neg hrrt, hrest, xrBehind_head, XrBlock.skipped, if_neg hrrt]
            exact ⟨err, rfl⟩
    · rw [if_neg hroom, if_neg hroom]
      exact ⟨_, rfl⟩

end Effect

section Packet

variable {memory : Mem} {rtcp : RtcpCommon} {start : Nat} {buf : YangBuffer} {data : Mem}
variable {length n p : Nat}

/-- The decoder hands on what it accepts as the handler expects it. -/
theorem xrDecoded_decode (comm : RtcpCommon) (h : buf.HeaderOk) (htype : buf.hdr.type = RtcpType.xr)
    (hsize : buf.size < 65536) : XrDecoded buf.data (decodeRtcpXr comm buf).comm buf.head := by
  have hdecoded : (decodeRtcpXr comm buf).comm =
      { comm with
        data := some buf.head
        nbData := buf.left
        header := buf.hdr
        ssrc := buf.data.be (buf.head + 4) 4 } := by
    rw [decodeRtcpXr, decodeStart, header_accepts h]
    rfl
  obtain ⟨-, hwhole⟩ := h
  rw [hdecoded]
  constructor
  · rfl
  · exact htype
  · have hlength : (buf.data.drop buf.head).be 2 2 = buf.hdr.length := rfl
    rw [hlength]
    push_cast
    omega
  · simp only [YangBuffer.left]
    omega

/-- All there is to read lies in the packet. -/
theorem laidReads_stop : ∀ r ∈ laidReads data length n p, r.stop ≤ length := by
  induction n generalizing p with
  | zero => exact List.forall_mem_nil _
  | succ n ih =>
    rw [laidReads_succ]
    by_cases hroom : p + 4 < length
    · rw [if_pos hroom, List.forall_mem_cons, List.forall_mem_append]
      refine ⟨hroom.le, ?_, ?_⟩
      · intro r hr
        split_ifs at hr with hends
        · obtain ⟨i, hi, rfl⟩ := List.mem_map.mp hr
          have hstop : p + 4 + 4 * (xrBlockAt data p).words ≤ length := hends.1
          have hcount := List.mem_range.mp hi
          simp only [XrRead.stop]
          omega
        · cases hr
      · intro r hr
        split_ifs at hr
        · exact ih r hr
        · cases hr
    · rw [if_neg hroom]
      exact List.forall_mem_nil _

/-- The packet with its header and its SSRC read. -/
def xrBody (memory : Mem) (start : Nat) (rtcp : RtcpCommon) : YangBuffer :=
  ((((initBuffer (memory.drop start) rtcp.nbData.toNat).take 1).take 1).take 2).take 4

theorem rtcplayOnRtcpXr_blocks (h : XrDecoded memory rtcp start) (env : SessionEnv) (s : Streams) :
    ∃ stream : YangBuffer, stream.data = memory.drop start ∧ stream.head = 8 ∧
      rtcplayOnRtcpXr env memory s rtcp =
        .ret (xrBlocks env (xrLength (memory.drop start)) rtcp.nbData
          (xrLength (memory.drop start)) stream s) := by
  obtain ⟨hdata, htype, hwhole, hdatagram⟩ := h
  have hpt : (memory.drop start).be 1 1 = RtcpType.xr := (Mem.be_one _ _).trans htype
  have hlength : ((memory.drop start).be 2 2 + 1) * 4 % 65536 = xrLength (memory.drop start) := by
    unfold xrLength
    omega
  refine ⟨xrBody memory start rtcp, rfl, rfl, ?_⟩
  have hblocks : rtcplayOnRtcpXr env memory s rtcp =
      if (memory.drop start).be 1 1 ≠ RtcpType.xr then .ret (errorRtcRtcpCheck, s)
      else if ((((memory.drop start).be 2 2 + 1) * 4 % 65536 : Nat) : Int) > rtcp.nbData then
        .ret (errorRtcRtcpCheck, s)
      else .ret (xrBlocks env (((memory.drop start).be 2 2 + 1) * 4 % 65536) rtcp.nbData
        (((memory.drop start).be 2 2 + 1) * 4 % 65536) (xrBody memory start rtcp) s) := by
    rw [rtcplayOnRtcpXr, hdata]
    rfl
  have hfits : ¬ (xrLength (memory.drop start) : Int) > rtcp.nbData := not_lt.mpr hwhole
  rw [hblocks, hlength, if_neg (not_not.mpr hpt), if_neg hfits]

/-- The entries of a packet are taken as they are laid out in it exactly when every block is
followed. -/
theorem xr_exact (memory : Mem) (rtcp : RtcpCommon) (start : Nat)
    (h : XrDecoded memory rtcp start) :
    XrExact memory rtcp start ↔ 8 ≤ xrLength (memory.drop start) ∧
      ∀ b ∈ xrLaidOut (memory.drop start) (xrLength (memory.drop start))
        (xrLength (memory.drop start)) 8,
      b.Followed (xrLength (memory.drop start)) rtcp.nbData := by
  have hreads := @reads_iff (memory.drop start) (xrLength (memory.drop start))
    (xrLength (memory.drop start)) 8 rtcp.nbData (by omega) h.whole h.datagram
  rw [← hreads]
  constructor
  · rintro ⟨hlength, -, ⟨n, hrun⟩, -⟩
    refine ⟨hlength, ?_⟩
    have hread := @run_reads (memory.drop start) (xrLength (memory.drop start))
      (xrLength (memory.drop start)) 8 rtcp.nbData [] (by omega) (by omega)
    exact Loop.run_unique hread hrun
  · rintro ⟨hlength, hread⟩
    refine ⟨hlength, laidReads_stop, ⟨xrLength (memory.drop start), ?_⟩, ?_⟩
    · rw [run_reads (by omega) (by omega), hread]
      rfl
    · intro env s
      obtain ⟨stream, hdata, hhead, hblocks⟩ := rtcplayOnRtcpXr_blocks h env s
      obtain ⟨err, hfold⟩ := @xrBlocks_fold (xrLength (memory.drop start)) rtcp.nbData env
        (xrLength (memory.drop start)) stream s
      rw [hblocks, hfold, hdata, hhead, hread]
      exact ⟨err, rfl⟩

/-- One DLRR block with one entry. -/
def dlrrReport : Mem :=
  ofList [128, 207, 0, 5, 0, 0, 0, 1, 5, 0, 0, 3, 0, 0, 0, 9, 0, 0, 0, 0, 0, 0, 0, 0]

theorem xr_exact_dlrr : XrExact dlrrReport { data := some 0, nbData := 24 } 0 :=
  (xr_exact dlrrReport { data := some 0, nbData := 24 } 0
    ⟨rfl, rfl, by decide, by decide⟩).mpr (by decide)

/-- A block of run lengths whose words read as a DLRR block. -/
def lossReport : Mem :=
  ofList [128, 207, 0, 6, 0, 0, 0, 1, 1, 0, 0, 4, 5, 0, 0, 3, 0, 0, 0, 9, 0, 0, 0, 0, 0, 0, 0, 0]

theorem loss_entry_taken : XrDecoded lossReport { data := some 0, nbData := 28 } 0 ∧
    Loop.run (xrPass (lossReport.drop 0) 28 28) 3 (8, []) =
      some [.header 8, .header 12, .entry 16] ∧
    ¬ XrExact lossReport { data := some 0, nbData := 28 } 0 := by
  have hrun : Loop.run (xrPass (lossReport.drop 0) 28 28) 3 (8, []) =
      some [.header 8, .header 12, .entry 16] := by decide
  refine ⟨⟨rfl, rfl, by decide, by decide⟩, hrun, ?_⟩
  rintro ⟨-, -, ⟨n, hn⟩, -⟩
  have hlaid : laidReads (lossReport.drop 0) 28 28 8 = [.header 8] := by decide
  have hread := Loop.run_unique hrun hn
  change _ = laidReads (lossReport.drop 0) 28 28 8 at hread
  rw [hlaid] at hread
  cases hread

end Packet

end MetaRtc
