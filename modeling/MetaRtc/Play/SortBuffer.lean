import MetaRtc.Lib.Bytes
import Mathlib.Logic.Function.Basic

/-! # The audio frames put in order -/
namespace MetaRtc

open Bytes

/-- An audio frame as the application gets it. -/
structure AudioFrame where
  payload : List UInt8
  pts : Int
  deriving DecidableEq

/-- A cell of the buffer. Its bytes are kept at `payload`. -/
structure SortFrame where
  pts : Int := 0
  nb : Nat := 0
  framePts : Int := 0
  payload : Nat := 0

/-- `frames` points to the cells in order. Taking the first one away moves the pointers and
leaves the last of them where it was. -/
structure SortBuffer where
  capacity : Nat := 8
  cacheNum : Nat := 3
  vsize : Nat := 0
  lastPts : Int := 0
  frames : Nat → Nat := fun i => i
  cells : Nat → SortFrame := fun i => { payload := 1500 * i }
  bufferManager : Mem := fun _ => 0

def SortBuffer.at_ (buf : SortBuffer) (i : Nat) : SortFrame := buf.cells (buf.frames i)

/-- Both comparisons of the source ask for the same order. -/
def sortBufferSearch (buf : SortBuffer) (value : Int) : Nat → Int → Int → Int
  | 0, low, _ => low
  | fuel + 1, low, high =>
    if low ≤ high then
      let mid := (high + low) / 2
      let pts := (buf.at_ mid.toNat).pts
      if value = pts then -1
      else if pts > value then sortBufferSearch buf value fuel low (mid - 1)
      else mid
    else low

def getSortBufferIndex (buf : SortBuffer) (value : Int) : Int :=
  sortBufferSearch buf value (buf.vsize + 2) 0 buf.vsize

/-- Copy a frame to the cell the `i`-th pointer points to. -/
def SortBuffer.fill (buf : SortBuffer) (i : Nat) (value : Int) (frame : AudioFrame) : SortBuffer :=
  let cell := buf.at_ i
  { buf with
    cells := Function.update buf.cells (buf.frames i)
      { cell with pts := value, nb := frame.payload.length, framePts := frame.pts }
    bufferManager := buf.bufferManager.write cell.payload frame.payload }

def sortBufferInsert (buf : SortBuffer) (value : Int) (frame : AudioFrame) : SortBuffer :=
  let alen := buf.vsize
  if alen = 0 then { buf.fill 0 value frame with vsize := 1 }
  else if value > (buf.at_ (alen - 1)).pts then
    { buf.fill alen value frame with vsize := alen + 1 }
  else
    let index := getSortBufferIndex buf value
    if index = -1 then buf
    else
      let frames := fun i : Nat => if index < i ∧ i ≤ alen then buf.frames (i - 1) else buf.frames i
      { ({ buf with frames } : SortBuffer).fill index.toNat value frame with vsize := alen + 1 }

def sortBufferPutFrame (buf : SortBuffer) (pts : Int) (frame : AudioFrame) : SortBuffer :=
  if buf.vsize ≥ buf.capacity then buf
  else if pts ≤ buf.lastPts then buf
  else sortBufferInsert buf pts frame

/-- `vsize - cacheNum` is a number of 32 bits without a sign. -/
def SortBuffer.short (buf : SortBuffer) : Bool :=
  decide ((buf.vsize + 2 ^ 32 - buf.cacheNum) % 2 ^ 32 < 1)

def sortBufferGetCurFrameRef (buf : SortBuffer) : Option AudioFrame :=
  if buf.short then none
  else
    let cell := buf.at_ 0
    some ⟨buf.bufferManager.slice cell.payload cell.nb, cell.framePts⟩

def sortBufferRemoveFirst (buf : SortBuffer) : SortBuffer :=
  if buf.short ∨ buf.vsize < 1 then buf
  else
    { buf with
      lastPts := (buf.at_ 0).pts
      frames := fun i => if i + 1 < buf.vsize then buf.frames (i + 1) else buf.frames i
      vsize := buf.vsize - 1 }

end MetaRtc
