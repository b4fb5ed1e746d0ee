import Mathlib.Data.List.Basic
import Mathlib.Tactic.Common

/-! # Sequence numbers of 16 bits and the arrays sorted by them -/
namespace MetaRtc

/-- The wrap-aware distance from one sequence number to another, an `int16_t`. -/
def rtpSeqDistance (prevValue value : Nat) : Int := Int.bmod (value - prevValue) 65536

/-- The binary search of `yang_get_uint16_index`, its `low` and `high` and a bound
on its passes. The result `-1` says that the value is there already. -/
def uint16Search (a : List Nat) (value : Nat) : Nat → Int → Int → Int
  | 0, low, _ => low
  | fuel + 1, low, high =>
    if low ≤ high then
      let mid := (high + low) / 2
      let x := a.getD mid.toNat 0
      if value = x then -1
      else if rtpSeqDistance value x > 0 then uint16Search a value fuel low (mid - 1)
      else if rtpSeqDistance x value > 0 then uint16Search a value fuel (mid + 1) high
      else mid
    else low

def getUint16Index (a : List Nat) (value : Nat) : Int :=
  uint16Search a value (a.length + 2) 0 a.length

def insertUint16Sort (a : List Nat) (value : Nat) : List Nat :=
  if a.length = 0 then [value]
  else if rtpSeqDistance (a.getD (a.length - 1) 0) value > 0 then a ++ [value]
  else
    let index := getUint16Index a value
    if index = -1 then a else a.insertIdx index.toNat value

end MetaRtc
