import MetaRtc.Ts.Interleave

/-! # Reading from the buffer, and the times in it

The times are put together in two places, by `readPts` with unsigned numbers and by `pesParse`
with signed ones. -/
namespace MetaRtc

open Bytes Exec

namespace YangTsBuffer

/-- The next bytes as a number. The code asserts that so many of the written ones are left. -/
def readBytes (sb : YangTsBuffer) (n : Nat) : Call (Nat × YangTsBuffer) :=
  if sb.pos + n ≤ sb.curPos then .ret (sb.data.be sb.pos n, sb.skip n) else .crash

def read1byte (sb : YangTsBuffer) : Call (Nat × YangTsBuffer) := sb.readBytes 1

def read2bytes (sb : YangTsBuffer) : Call (Nat × YangTsBuffer) := sb.readBytes 2

def read4bytes (sb : YangTsBuffer) : Call (Nat × YangTsBuffer) := sb.readBytes 4

def readString (sb : YangTsBuffer) (len : Nat) : Call (List UInt8 × YangTsBuffer) :=
  if sb.pos + len ≤ sb.curPos then .ret (sb.data.slice sb.pos len, sb.skip len) else .crash

/-- Those bytes have been written, and are the next to be read. -/
structure Ahead (sb : YangTsBuffer) (bytes : List UInt8) : Prop where
  written : sb.pos + bytes.length ≤ sb.curPos
  bytes : sb.data.slice sb.pos bytes.length = bytes

variable {sb : YangTsBuffer} {first rest bytes : List UInt8} {n v : Nat}

theorem ahead_writeBytes (h : sb.pos = sb.curPos) : (sb.writeBytes bytes).Ahead bytes := by
  constructor
  · show sb.pos + bytes.length ≤ sb.curPos + bytes.length
    omega
  · show (sb.data.write sb.curPos bytes).slice sb.pos bytes.length = bytes
    rw [h]
    exact sb.data.slice_write sb.curPos bytes

theorem Ahead.parts (h : sb.Ahead (first ++ rest)) :
    sb.Ahead first ∧ (sb.skip first.length).Ahead rest := by
  have hlen := h.written
  rw [List.length_append] at hlen
  have hparts := h.bytes
  rw [List.length_append] at hparts
  constructor
  · constructor
    · omega
    · rw [Mem.slice_append] at hparts
      exact List.append_inj_left hparts (by simp)
  · constructor
    · show sb.pos + first.length + rest.length ≤ sb.curPos
      omega
    · rw [Mem.slice_append] at hparts
      exact List.append_inj_right hparts (by simp)

theorem Ahead.read (h : sb.Ahead (beBytes n v ++ rest)) :
    sb.readBytes n = .ret (v % 256 ^ n, sb.skip n) ∧ (sb.skip n).Ahead rest := by
  obtain ⟨hfirst, hrest⟩ := h.parts
  rw [beBytes_length] at hrest
  have hroom := hfirst.written
  have hbytes := hfirst.bytes
  rw [beBytes_length] at hroom hbytes
  constructor
  · unfold readBytes
    rw [if_pos hroom, Mem.be_of_slice hbytes]
  · exact hrest

end YangTsBuffer

/-- The three bits at the top are shifted in a number of 32 bits. What the sign of a byte adds is
above the bits that are kept. -/
def readPts (sb : YangTsBuffer) : Call (Nat × YangTsBuffer) := do
  let (val, sb) ← sb.read1byte
  let pts := val / 2 % 8 * 2 ^ 30 % 2 ^ 32
  let (val, sb) ← sb.read2bytes
  let pts := pts + val / 2 % 2 ^ 15 * 2 ^ 15
  let (val, sb) ← sb.read2bytes
  return (pts + val / 2 % 2 ^ 15, sb)

section Times

variable {sb : YangTsBuffer} {p : Mem} {fb pts pos : Nat}

/-- The highest bit is lost. -/
theorem readPts_writePts (h : sb.Ahead (writePts fb pts)) :
    ∃ sb', readPts sb = .ret (pts % 2 ^ 32, sb') := by
  have hwrite : writePts fb pts = beBytes 1 (fb * 16 + pts / 2 ^ 30 % 8 * 2 + 1) ++
      (beBytes 2 (pts / 2 ^ 15 % 2 ^ 15 * 2 + 1) ++ (beBytes 2 (pts % 2 ^ 15 * 2 + 1) ++ [])) := by
    simp [writePts, beBytes]
  rw [hwrite] at h
  obtain ⟨hhigh, h⟩ := h.read
  obtain ⟨hmid, h⟩ := h.read
  obtain ⟨hlow, h⟩ := h.read
  refine ⟨((sb.skip 1).skip 2).skip 2, ?_⟩
  unfold readPts YangTsBuffer.read1byte YangTsBuffer.read2bytes
  simp only [hhigh, hmid, hlow, Call.ret_bind, Call.pure_eq]
  congr 2
  omega

theorem pesTime_iff (h : p.slice pos 5 = writePts fb pts) (ht : pts < 2 ^ 33) :
    pesTime p pos = pts ↔ pts < 2 ^ 31 := by
  rw [pesTime_writePts h ht]
  split <;> omega

/-- The time that was written is read from the buffer, and from the PES that has it as a PTS or as
a DTS. -/
structure TimeReadBack (fb pts : Nat) : Prop where
  buffer : ∀ sb : YangTsBuffer, sb.pos = sb.curPos →
    ∃ sb', readPts (sb.writeBytes (writePts fb pts)) = .ret (pts, sb')
  asPts : ∀ p : Mem, (p 3).toNat ∉ pesWithoutHeader → (p 7).toNat / 64 = 2 ∨ (p 7).toNat / 64 = 3 →
    p.slice 9 5 = writePts fb pts → (pesParse p).pts = pts
  asDts : ∀ p : Mem, (p 3).toNat ∉ pesWithoutHeader → (p 7).toNat / 64 = 3 →
    p.slice 14 5 = writePts fb pts → (pesParse p).dts = pts

/-- A PES of a stream with that PTS. -/
def pesWithPts (fb pts : Nat) : Mem :=
  (ofList [0, 0, 1, 0xe0, 0, 0, 0x80, 0x80, 5]).write 9 (writePts fb pts)

theorem pesWithPts_pts : (pesParse (pesWithPts fb pts)).pts = pesTime (pesWithPts fb pts) 9 := by
  have hstream : (pesWithPts fb pts 3).toNat = 0xe0 := rfl
  have hflags : (pesWithPts fb pts 7).toNat = 0x80 := rfl
  rw [pesParse_pts (by rw [hstream]; decide), hflags, if_pos (by decide)]

theorem timeReadBack_iff (ht : pts < 2 ^ 33) : TimeReadBack fb pts ↔ pts < 2 ^ 31 := by
  constructor
  · intro h
    have hslice : (pesWithPts fb pts).slice 9 5 = writePts fb pts := Mem.slice_write _ 9 _
    rw [← pesTime_iff hslice ht, ← pesWithPts_pts]
    apply h.asPts _ _ (.inl _) hslice
    · show (0xe0 : Nat) ∉ pesWithoutHeader
      decide
    · show 0x80 / 64 = 2
      decide
  · intro h
    constructor
    · intro sb hsb
      obtain ⟨sb', hread⟩ := readPts_writePts (YangTsBuffer.ahead_writeBytes hsb)
      refine ⟨sb', ?_⟩
      rw [hread, Nat.mod_eq_of_lt (by omega)]
    · intro p hstream hflags hslice
      rw [pesParse_pts hstream, if_pos hflags, pesTime_exact hslice h]
    · intro p hstream hflags hslice
      rw [pesParse_dts hstream, if_pos hflags, pesTime_exact hslice h]

end Times

/-- A time comes back as it was exactly if it is below half of what 32 bits hold: from there on
the PES has it with a sign, and from 32 bits on the buffer loses the highest bit as well. -/
theorem times_iff (fb : BitVec 4) (pts : BitVec 33) :
    TimeReadBack fb.toNat pts.toNat ↔ pts.toNat < 2 ^ 31 :=
  timeReadBack_iff pts.isLt

/-- The first time with the bit of the sign. -/
theorem long_stream : ¬TimeReadBack (2 : BitVec 4).toNat (0x80000000 : BitVec 33).toNat := by
  intro h
  have hpts := (timeReadBack_iff (by decide)).mp h
  exact absurd hpts (by decide)

end MetaRtc
