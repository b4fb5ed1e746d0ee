import MetaRtc.Lib.Bytes

/-! # The read cursor over a received datagram -/
namespace MetaRtc

open Bytes

/-- `data` is all the memory from the datagram's first byte on, of which the first
`bound` bytes were received; `size` is what the code takes for the end. `fault` records
that some read has left the bytes received, or a copy its destination, and stays set. -/
@[ext]
structure YangBuffer where
  data : Mem
  bound : Nat
  size : Nat
  head : Nat
  fault : Bool

def initBuffer (b : Mem) (nn : Nat) : YangBuffer := ⟨b, nn, nn, 0, false⟩

namespace YangBuffer

def left (buf : YangBuffer) : Int := buf.size - buf.head

def empty (buf : YangBuffer) : Bool := decide (buf.size ≤ buf.head)

def require (buf : YangBuffer) (requiredSize : Int) : Bool :=
  decide (0 ≤ requiredSize) && decide (requiredSize ≤ buf.left)

def skip (buf : YangBuffer) (size : Int) : YangBuffer :=
  { buf with head := (buf.head + size).toNat }

/-- Look at `n` bytes from the head on without moving it. -/
def touch (buf : YangBuffer) (n : Nat) : YangBuffer :=
  { buf with fault := buf.fault || (decide (n ≠ 0) && decide (buf.bound < buf.head + n)) }

/-- Read past `n` bytes. -/
def take (buf : YangBuffer) (n : Nat) : YangBuffer :=
  { buf.touch n with head := buf.head + n }

def readNum (buf : YangBuffer) (n : Nat) : Nat × YangBuffer :=
  (buf.data.be buf.head n, buf.take n)

def read1bytes (buf : YangBuffer) : Nat × YangBuffer := buf.readNum 1
def read2bytes (buf : YangBuffer) : Nat × YangBuffer := buf.readNum 2
def read3bytes (buf : YangBuffer) : Nat × YangBuffer := buf.readNum 3
def read4bytes (buf : YangBuffer) : Nat × YangBuffer := buf.readNum 4
def read8bytes (buf : YangBuffer) : Nat × YangBuffer := buf.readNum 8

/-- Copy `size` bytes to an object of `room` bytes. `memcpy` takes the length as
unsigned, so a negative one is out of bounds however small. -/
def readBytes (buf : YangBuffer) (size : Int) (room : Nat) : List UInt8 × YangBuffer :=
  if 0 ≤ size ∧ size ≤ room then
    (buf.data.slice buf.head size.toNat, buf.take size.toNat)
  else
    ([], { buf.skip size with fault := true })

@[simp] theorem take_data (buf : YangBuffer) (n : Nat) : (buf.take n).data = buf.data := rfl
@[simp] theorem take_bound (buf : YangBuffer) (n : Nat) : (buf.take n).bound = buf.bound := rfl
@[simp] theorem take_size (buf : YangBuffer) (n : Nat) : (buf.take n).size = buf.size := rfl
@[simp] theorem take_head (buf : YangBuffer) (n : Nat) : (buf.take n).head = buf.head + n := rfl
@[simp] theorem skip_data (buf : YangBuffer) (n : Int) : (buf.skip n).data = buf.data := rfl
@[simp] theorem skip_bound (buf : YangBuffer) (n : Int) : (buf.skip n).bound = buf.bound := rfl
@[simp] theorem skip_size (buf : YangBuffer) (n : Int) : (buf.skip n).size = buf.size := rfl
@[simp] theorem skip_head (buf : YangBuffer) (n : Int) :
    (buf.skip n).head = (buf.head + n).toNat := rfl
@[simp] theorem skip_fault (buf : YangBuffer) (n : Int) : (buf.skip n).fault = buf.fault := rfl
@[simp] theorem touch_data (buf : YangBuffer) (n : Nat) : (buf.touch n).data = buf.data := rfl
@[simp] theorem touch_bound (buf : YangBuffer) (n : Nat) : (buf.touch n).bound = buf.bound := rfl
@[simp] theorem touch_size (buf : YangBuffer) (n : Nat) : (buf.touch n).size = buf.size := rfl
@[simp] theorem touch_head (buf : YangBuffer) (n : Nat) : (buf.touch n).head = buf.head := rfl

theorem touch_fault_iff (buf : YangBuffer) (n : Nat) :
    (buf.touch n).fault = true ↔ buf.fault = true ∨ n ≠ 0 ∧ buf.bound < buf.head + n := by
  simp [touch]

theorem take_fault_iff (buf : YangBuffer) (n : Nat) :
    (buf.take n).fault = true ↔ buf.fault = true ∨ n ≠ 0 ∧ buf.bound < buf.head + n :=
  buf.touch_fault_iff n

@[simp] theorem take_zero (buf : YangBuffer) : buf.take 0 = buf := by
  simp [take, touch]

/-- Reads one after the other reach as far as one read of all their bytes. -/
@[simp] theorem take_take (buf : YangBuffer) (m n : Nat) :
    (buf.take m).take n = buf.take (m + n) := by
  have hfault : ((buf.take m).take n).fault = (buf.take (m + n)).fault := by
    rw [Bool.eq_iff_iff, take_fault_iff, take_fault_iff, take_fault_iff]
    simp only [take_bound, take_head, or_assoc]
    refine or_congr_right ?_
    omega
  exact YangBuffer.ext rfl rfl rfl (Nat.add_assoc _ _ _) hfault

theorem readBytes_snd (buf : YangBuffer) {n room : Nat} (h : n ≤ room) :
    (buf.readBytes n room).2 = buf.take n := by
  simp [readBytes, h]

theorem readBytes_data (buf : YangBuffer) (n : Int) (room : Nat) :
    (buf.readBytes n room).2.data = buf.data := by
  unfold readBytes
  split <;> rfl

theorem readBytes_bound (buf : YangBuffer) (n : Int) (room : Nat) :
    (buf.readBytes n room).2.bound = buf.bound := by
  unfold readBytes
  split <;> rfl

theorem readBytes_size (buf : YangBuffer) (n : Int) (room : Nat) :
    (buf.readBytes n room).2.size = buf.size := by
  unfold readBytes
  split <;> rfl

/-- However many bytes were asked for, the head moves by that number. -/
theorem readBytes_head (buf : YangBuffer) (n : Int) (room : Nat) :
    (buf.readBytes n room).2.head = (buf.head + n).toNat := by
  unfold readBytes
  split
  · rename_i h
    simp only [take_head]
    omega
  · rfl

theorem require_iff (buf : YangBuffer) (n : Nat) :
    buf.require n = true ↔ (n : Int) ≤ buf.left := by
  simp [require]

theorem initBuffer_requires {b : Mem} {nn : Nat} {n : Int} (h0 : 0 ≤ n) (h : n ≤ nn) :
    (initBuffer b nn).require n = true := by
  have hfits : n ≤ (nn : Int) - (0 : Nat) := by omega
  simp only [require, left, initBuffer, h0, hfits, decide_true, Bool.and_self]

theorem initBuffer_refuses {b : Mem} {nn : Nat} {n : Int} (h : nn < n) :
    (initBuffer b nn).require n = false := by
  have hnot : ¬ n ≤ (nn : Int) - (0 : Nat) := by omega
  simp only [require, left, initBuffer, hnot, decide_false, Bool.and_false]

end YangBuffer

end MetaRtc
