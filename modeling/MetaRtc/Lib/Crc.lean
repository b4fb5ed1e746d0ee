import Mathlib.Data.List.Basic
import Mathlib.Logic.Function.Iterate
import Mathlib.Tactic.Common

/-! # Checksums by polynomial division

The remainder is kept in a register of `w` bits. Bit by bit, it moves one place and has the
polynomial subtracted wherever a one falls out. The register may be kept the other way round, and
a whole byte may be taken at once. -/
namespace Crc

variable {w : Nat}

/-- One place up, the highest bit first. -/
def shiftUp (poly reg : BitVec w) : BitVec w :=
  if reg.msb then reg <<< 1 ^^^ poly else reg <<< 1

/-- One place down, the lowest bit first. -/
def shiftDown (poly reg : BitVec w) : BitVec w :=
  if reg.getLsbD 0 then reg >>> 1 ^^^ poly else reg >>> 1

/-- One bit of the message, into the register that moves down. -/
def feedBit (poly reg : BitVec w) (bit : Bool) : BitVec w :=
  if reg.getLsbD 0 ^^ bit then reg >>> 1 ^^^ poly else reg >>> 1

/-- The bits of a byte as they are sent, the lowest first. -/
def bitsOf (b : UInt8) : List Bool := (List.range 8).map b.toBitVec.getLsbD

/-- The reflected checksum, bit by bit. -/
def reflected (poly init xorOut : BitVec w) (bytes : List UInt8) : BitVec w :=
  (bytes.flatMap bitsOf).foldl (feedBit poly.reverse) init ^^^ xorOut

/-- The `n` low bits of a number, fed one after the other. -/
def feedLow (poly reg x : BitVec w) (n : Nat) : BitVec w :=
  ((List.range n).map x.getLsbD).foldl (feedBit poly) reg

section Registers

variable {poly reg x y : BitVec w} {n : Nat}

theorem getLsbD_xor_poly {c : Bool} {r : BitVec w} {i : Nat} :
    (if c then r ^^^ poly else r).getLsbD i = (r.getLsbD i ^^ (c && poly.getLsbD i)) := by
  cases c <;> simp

/-- The register that moves up is the mirror image of the one that moves down. -/
theorem reverse_shiftUp : (shiftUp poly reg).reverse = shiftDown poly.reverse reg.reverse := by
  apply BitVec.eq_of_getLsbD_eq
  intro i hi
  have hmsb : reg.reverse.getLsbD 0 = reg.msb := by
    rw [BitVec.getLsbD_reverse, BitVec.msb]
  unfold shiftUp shiftDown
  rw [getLsbD_xor_poly, hmsb, BitVec.getLsbD_reverse, BitVec.getLsbD_reverse,
    BitVec.getLsbD_ushiftRight, BitVec.getLsbD_reverse, Nat.add_comm 1 i]
  cases hout : reg.msb with
  | true =>
    rw [if_pos rfl, BitVec.getMsbD_xor, BitVec.getMsbD_shiftLeft, Bool.true_and]
  | false =>
    rw [if_neg Bool.false_ne_true, BitVec.getMsbD_shiftLeft, Bool.false_and, Bool.xor_false]

/-- To feed a bit is to shift once the bit has been added to the register. -/
theorem shiftDown_xor (reg x : BitVec w) :
    shiftDown poly (reg ^^^ x) = feedBit poly reg (x.getLsbD 0) ^^^ x >>> 1 := by
  apply BitVec.eq_of_getLsbD_eq
  intro i hi
  unfold shiftDown feedBit
  rw [getLsbD_xor_poly, BitVec.getLsbD_xor, BitVec.getLsbD_xor, getLsbD_xor_poly,
    BitVec.ushiftRight_xor_distrib, BitVec.getLsbD_xor, Bool.xor_right_comm]

theorem feedLow_succ : feedLow poly reg x (n + 1) =
    feedBit poly (feedLow poly reg x n) (x.getLsbD n) := by
  simp only [feedLow, List.range_succ, List.map_append, List.foldl_append, List.map_singleton,
    List.foldl_cons, List.foldl_nil]

/-- All the bits of a number may be added before the first shift. -/
theorem shiftDown_iterate (reg x : BitVec w) (n : Nat) :
    (shiftDown poly)^[n] (reg ^^^ x) = feedLow poly reg x n ^^^ x >>> n := by
  induction n with
  | zero => simp [feedLow]
  | succ n ih =>
    rw [Function.iterate_succ_apply', ih, shiftDown_xor, feedLow_succ, BitVec.getLsbD_ushiftRight,
      Nat.add_zero, BitVec.shiftRight_add]

theorem feedLow_congr (h : ∀ i < n, x.getLsbD i = y.getLsbD i) :
    feedLow poly reg x n = feedLow poly reg y n := by
  have hbits : (List.range n).map x.getLsbD = (List.range n).map y.getLsbD :=
    List.map_congr_left fun i hi => h i (List.mem_range.mp hi)
  rw [feedLow, hbits, feedLow]

theorem setWidth_shift (v : BitVec n) : v.setWidth w >>> n = 0#w := by
  apply BitVec.eq_of_getLsbD_eq
  intro i _
  simp [BitVec.getLsbD_setWidth]

theorem feedByte (b : UInt8) (reg : BitVec w) (hw : 8 ≤ w) :
    (bitsOf b).foldl (feedBit poly) reg = (shiftDown poly)^[8] (reg ^^^ b.toBitVec.setWidth w) := by
  have hbits : bitsOf b = (List.range 8).map (b.toBitVec.setWidth w).getLsbD := by
    refine List.map_congr_left fun i hi => ?_
    rw [BitVec.getLsbD_setWidth, decide_eq_true (Nat.lt_of_lt_of_le (List.mem_range.mp hi) hw),
      Bool.true_and]
  rw [shiftDown_iterate, setWidth_shift, BitVec.xor_zero, hbits, feedLow]

/-- The table's word for the low bits stands for all that their shifts do; the bits above them
only move down. -/
theorem shiftDown_low (poly reg : BitVec w) (n : Nat) (hn : n ≤ w) :
    (shiftDown poly)^[n] reg =
      (shiftDown poly)^[n] ((reg.setWidth n).setWidth w) ^^^ reg >>> n := by
  have hlow : ∀ i < n, reg.getLsbD i = ((reg.setWidth n).setWidth w).getLsbD i := by
    intro i hi
    simp only [BitVec.getLsbD_setWidth, hi, Nat.lt_of_lt_of_le hi hn, decide_true, Bool.true_and]
  have hwhole : (shiftDown poly)^[n] (0#w ^^^ reg) = feedLow poly 0#w reg n ^^^ reg >>> n :=
    shiftDown_iterate 0#w reg n
  have htable : (shiftDown poly)^[n] (0#w ^^^ (reg.setWidth n).setWidth w) =
      feedLow poly 0#w ((reg.setWidth n).setWidth w) n ^^^ (reg.setWidth n).setWidth w >>> n :=
    shiftDown_iterate 0#w ((reg.setWidth n).setWidth w) n
  rw [BitVec.zero_xor] at hwhole htable
  rw [hwhole, htable, setWidth_shift, BitVec.xor_zero, feedLow_congr hlow]

end Registers

end Crc
