import MetaRtc.Lib.Bytes
import MetaRtc.Lib.Crc

/-! # The checksum of a STUN message

The registers have 64 bits, of which only the low 32 count. -/
namespace MetaRtc

open Bytes Crc

def crc32ReflectLoop : Nat → BitVec 64 → BitVec 64 → BitVec 64
  | 0, _, res => res
  | n + 1, data, res =>
    let data := data >>> 1
    crc32ReflectLoop n data (res <<< 1 ||| data &&& 1#64)

/-- The low `width` bits the other way round. -/
def crc32Reflect (data : BitVec 64) (width : Nat) : BitVec 64 :=
  crc32ReflectLoop (width - 1) data (data &&& 1#64)

def msbMask : BitVec 64 := 0x80000000
def crcMask : BitVec 64 := 0xffffffff

def crc32TableShift (poly : BitVec 32) (reg : BitVec 64) : BitVec 64 :=
  if reg &&& msbMask ≠ 0 then reg <<< 1 ^^^ poly.setWidth 64 else reg <<< 1

def crc32TableEntry (poly : BitVec 32) (reflectIn : Bool) (i : BitVec 8) : BitVec 32 :=
  let reg := i.setWidth 64
  let reg := if reflectIn then crc32Reflect reg 8 else reg
  let reg := (crc32TableShift poly)^[8] (reg <<< 24)
  let reg := if reflectIn then crc32Reflect reg 32 else reg
  (reg &&& crcMask).setWidth 32

def crc32MakeTable (poly : BitVec 32) (reflectIn : Bool) : List (BitVec 32) :=
  (List.range 256).map fun i => crc32TableEntry poly reflectIn (BitVec.ofNat 8 i)

/-- The table's word at the low byte of a register. -/
def tblidxWord (t : List (BitVec 32)) (reg : BitVec 64) : BitVec 64 :=
  (t.getD (reg.setWidth 8).toNat 0).setWidth 64

def tableByte (t : List (BitVec 32)) (reg : BitVec 64) (p : UInt8) : BitVec 64 :=
  tblidxWord t (reg >>> 24 ^^^ p.toBitVec.setWidth 64) ^^^ reg <<< 8

def tableByteReflected (t : List (BitVec 32)) (reg : BitVec 64) (p : UInt8) : BitVec 64 :=
  tblidxWord t (reg ^^^ p.toBitVec.setWidth 64) ^^^ reg >>> 8

def crc32TableDriven (t : List (BitVec 32)) (buf : List UInt8) (previous : BitVec 32)
    (reflectIn : Bool) (xorIn : BitVec 32) (reflectOut : Bool) (xorOut : BitVec 32) : BitVec 32 :=
  let reg :=
    if reflectIn = false then buf.foldl (tableByte t) (xorIn.setWidth 64)
    else
      crc32Reflect (buf.foldl (tableByteReflected t)
        (previous.setWidth 64 ^^^ crc32Reflect (xorIn.setWidth 64) 32)) 32
  let reg := if reflectOut then crc32Reflect reg 32 else reg
  ((reg ^^^ xorOut.setWidth 64) &&& crcMask).setWidth 32

def crc32IeeePoly : BitVec 32 := 0x04C11DB7

/-- The table, which is made at the first call. -/
structure Crc32IeeeTable where
  table : List (BitVec 32) := List.replicate 256 0
  initialized : Bool := false
  made : initialized = true → table = crc32MakeTable crc32IeeePoly true := by decide

def Crc32IeeeTable.init (t : Crc32IeeeTable) : Crc32IeeeTable :=
  if t.initialized = false then ⟨crc32MakeTable crc32IeeePoly true, true, fun _ => rfl⟩ else t

/-- `size` is an `int32_t`, and no byte is read where it is negative. -/
def crc32Ieee (t : Crc32IeeeTable) (buf : Mem) (size : Int) (previous : BitVec 32) :
    BitVec 32 × Crc32IeeeTable :=
  (crc32TableDriven t.init.table (buf.slice 0 size.toNat) previous true 0xffffffff true 0xffffffff,
    t.init)

theorem crc32ReflectLoop_bits (n i : Nat) (data res : BitVec 64) :
    (crc32ReflectLoop n data res).getLsbD i =
      (decide (i < 64) && if i < n then data.getLsbD (n - i) else res.getLsbD (i - n)) := by
  by_cases hi : i < 64
  · rw [decide_eq_true hi, Bool.true_and]
    induction n generalizing data res with
    | zero => rfl
    | succ n ih =>
      have hone : ∀ j, (data >>> 1 &&& 1#64).getLsbD j = (decide (j = 0) && data.getLsbD 1) := by
        intro j
        cases j <;> simp
      unfold crc32ReflectLoop
      rw [ih]
      rcases Nat.lt_trichotomy i n with hn | rfl | hn
      · rw [if_pos hn, if_pos (by omega), BitVec.getLsbD_ushiftRight]
        congr 1
        omega
      · rw [if_neg (by omega), if_pos (by omega), BitVec.getLsbD_or, hone]
        simp
      · rw [if_neg (by omega), if_neg (by omega), BitVec.getLsbD_or, hone, BitVec.getLsbD_shiftLeft]
        have h64 : i - n < 64 := by omega
        have hpos : i - n ≠ 0 := by omega
        simp [h64, hpos, Nat.sub_sub]
  · rw [BitVec.getLsbD_of_ge _ _ (by omega), decide_eq_false hi, Bool.false_and]

theorem crc32Reflect_bits {width : Nat} (hpos : 0 < width) (hw : width ≤ 64) (data : BitVec 64)
    (i : Nat) :
    (crc32Reflect data width).getLsbD i = (decide (i < width) && data.getLsbD (width - 1 - i)) := by
  have hone : ∀ j, (data &&& 1#64).getLsbD j = (decide (j = 0) && data.getLsbD 0) := by
    intro j
    cases j <;> simp
  unfold crc32Reflect
  rw [crc32ReflectLoop_bits, hone]
  rcases Nat.lt_trichotomy i (width - 1) with hi | rfl | hi
  · have h64 : i < 64 := by omega
    have hin : i < width := by omega
    simp [hi, h64, hin]
  · have h64 : width - 1 < 64 := by omega
    simp [h64, hpos]
  · have hout : ¬ i < width := by omega
    have hnot : ¬ i < width - 1 := by omega
    have hne : i - (width - 1) ≠ 0 := by omega
    simp [hout, hnot, hne]

/-- A reflected register is the mirror image of its low bits. -/
theorem crc32Reflect_eq {width : Nat} (hpos : 0 < width) (hw : width ≤ 64) (data : BitVec 64) :
    crc32Reflect data width = (data.setWidth width).reverse.setWidth 64 := by
  apply BitVec.eq_of_getLsbD_eq
  intro i hi
  rw [crc32Reflect_bits hpos hw, BitVec.getLsbD_setWidth, BitVec.getLsbD_reverse, BitVec.getMsbD,
    BitVec.getLsbD_setWidth, decide_eq_true hi, Bool.true_and]
  by_cases hin : i < width
  · have hlow : width - 1 - i < width := by omega
    simp [hin, hlow]
  · simp [hin]

theorem setWidth_mask (reg : BitVec 64) : (reg &&& crcMask).setWidth 32 = reg.setWidth 32 := by
  apply BitVec.eq_of_getLsbD_eq
  intro i hi
  have hmask : ∀ j < 32, crcMask.getLsbD j = true := by decide
  simp [hi, hmask i hi]

/-- The bits above the low 32 are not looked at where the table is made. -/
theorem crc32TableShift_low (poly : BitVec 32) (reg : BitVec 64) :
    (crc32TableShift poly reg).setWidth 32 = shiftUp poly (reg.setWidth 32) := by
  have hmsb : (reg.setWidth 32).msb = reg.getLsbD 31 := by
    simp [BitVec.msb_eq_getLsbD_last]
  have htop : reg &&& msbMask = if reg.getLsbD 31 then BitVec.twoPow 64 31 else 0#64 :=
    BitVec.and_twoPow reg 31
  have hshift : (reg <<< 1).setWidth 32 = reg.setWidth 32 <<< 1 := by
    apply BitVec.eq_of_getLsbD_eq
    intro i hi
    simp [hi]
  unfold crc32TableShift shiftUp
  rw [hmsb, htop]
  cases reg.getLsbD 31 with
  | true =>
    rw [if_pos rfl, if_pos rfl, if_pos (by decide), BitVec.setWidth_xor, hshift]
    simp
  | false =>
    rw [if_neg Bool.false_ne_true, if_neg Bool.false_ne_true, if_neg (by decide), hshift]

theorem reverse_iterate (poly reg : BitVec 32) (n : Nat) :
    ((shiftUp poly)^[n] reg).reverse = (shiftDown poly.reverse)^[n] reg.reverse :=
  Function.Semiconj.iterate_right (fun _ => reverse_shiftUp) n reg

theorem setWidth_iterate (poly : BitVec 32) (reg : BitVec 64) (n : Nat) :
    ((crc32TableShift poly)^[n] reg).setWidth 32 = (shiftUp poly)^[n] (reg.setWidth 32) :=
  Function.Semiconj.iterate_right (f := BitVec.setWidth 32) (crc32TableShift_low poly) n reg

/-- A word of the table is what eight shifts make of its index. -/
theorem crc32TableEntry_eq (poly : BitVec 32) (i : BitVec 8) :
    crc32TableEntry poly true i = (shiftDown poly.reverse)^[8] (i.setWidth 32) := by
  have hindex : ((crc32Reflect (i.setWidth 64) 8 <<< 24).setWidth 32).reverse = i.setWidth 32 := by
    apply BitVec.eq_of_getLsbD_eq
    intro j hj
    rw [BitVec.getLsbD_reverse, BitVec.getMsbD, BitVec.getLsbD_setWidth, BitVec.getLsbD_shiftLeft,
      crc32Reflect_bits (by decide) (by decide)]
    by_cases hlow : j < 8
    · have hin : 7 - (31 - j - 24) = j := by omega
      have h24 : ¬ 31 - j < 24 := by omega
      have h8 : 31 - j - 24 < 8 := by omega
      have h32 : 31 - j < 32 := by omega
      have h64 : j < 64 := by omega
      simp [hj, hlow, hin, h24, h8, h32, h64, Nat.lt_trans h32]
    · have h24 : 31 - j < 24 := by omega
      simp [hj, h24, BitVec.getLsbD_of_ge i j (by omega)]
  unfold crc32TableEntry
  simp only [if_true]
  rw [setWidth_mask, crc32Reflect_eq (by decide) (by decide), BitVec.setWidth_setWidth_of_le _ (by decide),
    BitVec.setWidth_eq, setWidth_iterate, reverse_iterate, hindex]

theorem tblidxWord_eq (poly : BitVec 32) (reg : BitVec 64) :
    tblidxWord (crc32MakeTable poly true) reg =
      ((shiftDown poly.reverse)^[8] ((reg.setWidth 8).setWidth 32)).setWidth 64 := by
  have hlt : (reg.setWidth 8).toNat < 256 := (reg.setWidth 8).isLt
  unfold tblidxWord crc32MakeTable
  rw [List.getD_eq_getElem?_getD, List.getElem?_map, List.getElem?_range hlt, Option.map_some,
    Option.getD_some, BitVec.ofNat_toNat, BitVec.setWidth_eq, crc32TableEntry_eq]

/-- One byte by the table is one byte bit by bit. -/
theorem tableByteReflected_eq (poly reg : BitVec 32) (p : UInt8) :
    tableByteReflected (crc32MakeTable poly true) (reg.setWidth 64) p =
      ((bitsOf p).foldl (feedBit poly.reverse) reg).setWidth 64 := by
  have hlow : (reg.setWidth 64 ^^^ p.toBitVec.setWidth 64).setWidth 8 =
      (reg ^^^ p.toBitVec.setWidth 32).setWidth 8 := by
    simp
  have hhigh : (reg ^^^ p.toBitVec.setWidth 32) >>> 8 = reg >>> 8 := by
    rw [BitVec.ushiftRight_xor_distrib, setWidth_shift, BitVec.xor_zero]
  have hshift : reg.setWidth 64 >>> 8 = (reg >>> 8).setWidth 64 := by
    apply BitVec.eq_of_toNat_eq
    simp
  unfold tableByteReflected
  rw [tblidxWord_eq, feedByte p reg (by decide), hlow, hshift,
    shiftDown_low _ (reg ^^^ _) 8 (by decide), hhigh]
  exact BitVec.setWidth_xor.symm

theorem foldl_tableByteReflected (poly reg : BitVec 32) (buf : List UInt8) :
    buf.foldl (tableByteReflected (crc32MakeTable poly true)) (reg.setWidth 64) =
      ((buf.flatMap bitsOf).foldl (feedBit poly.reverse) reg).setWidth 64 := by
  induction buf generalizing reg with
  | nil => rfl
  | cons p buf ih =>
    rw [List.foldl_cons, tableByteReflected_eq, ih, List.flatMap_cons, List.foldl_append]

theorem crc32Reflect_twice (reg : BitVec 32) :
    crc32Reflect (crc32Reflect (reg.setWidth 64) 32) 32 = reg.setWidth 64 := by
  rw [crc32Reflect_eq (by decide) (by decide), crc32Reflect_eq (by decide) (by decide),
    BitVec.setWidth_setWidth_of_le _ (by decide), BitVec.setWidth_setWidth_of_le _ (by decide),
    BitVec.setWidth_eq, BitVec.setWidth_eq, BitVec.reverse_reverse_eq]

theorem init_table (t : Crc32IeeeTable) :
    t.init.table = crc32MakeTable crc32IeeePoly true := by
  unfold Crc32IeeeTable.init
  split
  · rfl
  · rename_i hmade
    exact t.made (Bool.not_eq_false _ ▸ hmade)

/-- The checksum of the bytes, whatever was computed before. -/
theorem crc32Ieee_bitwise (t : Crc32IeeeTable) (buf : Mem) (size : Int) :
    (crc32Ieee t buf size 0).1 =
      Crc.reflected crc32IeeePoly 0xffffffff 0xffffffff (buf.slice 0 size.toNat) := by
  have hstart : (0 : BitVec 32).setWidth 64 ^^^ crc32Reflect ((0xffffffff : BitVec 32).setWidth 64) 32 =
      (0xffffffff : BitVec 32).setWidth 64 := by decide
  unfold crc32Ieee crc32TableDriven Crc.reflected
  simp only [if_true, Bool.true_eq_false, if_false]
  rw [init_table, hstart, foldl_tableByteReflected, crc32Reflect_twice, setWidth_mask,
    ← BitVec.setWidth_xor, BitVec.setWidth_setWidth_of_le _ (by decide), BitVec.setWidth_eq]

end MetaRtc
