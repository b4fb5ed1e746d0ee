import MetaRtc.Lib.Bytes
import MetaRtc.Lib.Exec

/-! # Objects in memory and accesses that stay inside

An object is the memory from its first byte on and its size. An access that leaves it has no
meaning, and neither has one of a negative length. -/
namespace Bytes

open Exec

/-- The memory from a further address on. -/
def Mem.drop (m : Mem) (p : Nat) : Mem := fun i => m (p + i)

theorem Mem.slice_drop (m : Mem) (p q n : Nat) : (m.drop p).slice q n = m.slice (p + q) n := by
  induction n generalizing q with
  | zero => rfl
  | succ n ih => simp [Mem.slice, Mem.drop, ih, Nat.add_assoc]

structure Area where
  data : Mem
  room : Nat

namespace Area

/-- `n` bytes at `i` lie inside. -/
def Inside (a : Area) (i n : Int) : Prop := 0 ≤ i ∧ 0 ≤ n ∧ i + n ≤ a.room

instance (a : Area) (i n : Int) : Decidable (a.Inside i n) := by
  unfold Inside
  infer_instance

def byte (a : Area) (i : Int) : Call UInt8 :=
  if a.Inside i 1 then .ret (a.data i.toNat) else .crash

def be32 (a : Area) (i : Int) : Call Nat :=
  if a.Inside i 4 then .ret (a.data.be i.toNat 4) else .crash

def read (a : Area) (i n : Int) : Call (List UInt8) :=
  if a.Inside i n then .ret (a.data.slice i.toNat n.toNat) else .crash

def write (a : Area) (i : Nat) (bs : List UInt8) : Call Area :=
  if i + bs.length ≤ a.room then .ret { a with data := a.data.write i bs } else .crash

/-- The object as seen from an address inside it. -/
def drop (a : Area) (p : Nat) : Area := ⟨a.data.drop p, a.room - p⟩

variable {a b : Area} {i n : Nat}

theorem inside_nat : a.Inside i n ↔ i + n ≤ a.room := by
  simp only [Inside]
  omega

theorem byte_inside (h : i + 1 ≤ a.room) : a.byte i = .ret (a.data i) :=
  if_pos (inside_nat.mpr h)

theorem be32_inside (h : i + 4 ≤ a.room) : a.be32 i = .ret (a.data.be i 4) :=
  if_pos (inside_nat.mpr h)

theorem read_inside (h : i + n ≤ a.room) : a.read i n = .ret (a.data.slice i n) :=
  if_pos (inside_nat.mpr h)

theorem write_inside {bs : List UInt8} (h : i + bs.length ≤ a.room) :
    a.write i bs = .ret { a with data := a.data.write i bs } :=
  if_pos h

section Returns

variable {β : Type} {p k : Int}

theorem byte_returns {f : UInt8 → Call β} : (∃ b, (a.byte p >>= f) = .ret b) ↔
    a.Inside p 1 ∧ ∃ b, f (a.data p.toNat) = .ret b :=
  guarded_returns (fun h => if_pos h) fun h => if_neg h

theorem be32_returns {f : Nat → Call β} : (∃ b, (a.be32 p >>= f) = .ret b) ↔
    a.Inside p 4 ∧ ∃ b, f (a.data.be p.toNat 4) = .ret b :=
  guarded_returns (fun h => if_pos h) fun h => if_neg h

theorem read_returns {f : List UInt8 → Call β} : (∃ b, (a.read p k >>= f) = .ret b) ↔
    a.Inside p k ∧ ∃ b, f (a.data.slice p.toNat k.toNat) = .ret b :=
  guarded_returns (fun h => if_pos h) fun h => if_neg h

theorem write_returns {bs : List UInt8} {f : Area → Call β} :
    (∃ b, (a.write i bs >>= f) = .ret b) ↔
      i + bs.length ≤ a.room ∧ ∃ b, f { a with data := a.data.write i bs } = .ret b :=
  guarded_returns (fun h => if_pos h) fun h => if_neg h

end Returns

theorem write_eq_ret {bs : List UInt8} :
    a.write i bs = .ret b ↔ i + bs.length ≤ a.room ∧ b = { a with data := a.data.write i bs } := by
  unfold write
  split <;> simp_all [eq_comm]

end Area

end Bytes
