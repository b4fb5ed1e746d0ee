import Mathlib.Data.Nat.ModEq
import Mathlib.Logic.Function.Basic
import Mathlib.Tactic.Common

/-! # Bounded queues kept in rings of slots

A full queue drops what comes in. In a ring, the slots in use begin at one of them and go
round. -/
namespace Fifo

universe u

variable {α : Type u}

def push (cap : Nat) (q : List α) (x : α) : List α := if q.length < cap then q ++ [x] else q

/-- What the slots in use hold. -/
def contents (slots : Nat → α) (cap start size : Nat) : List α :=
  (List.range size).map fun i => slots ((start + i) % cap)

@[simp] theorem contents_length (slots : Nat → α) (cap start size : Nat) :
    (contents slots cap start size).length = size := by
  rw [contents, List.length_map, List.length_range]

@[simp] theorem contents_zero (slots : Nat → α) (cap start : Nat) :
    contents slots cap start 0 = [] := rfl

theorem contents_congr {a b : Nat → α} {cap start size : Nat}
    (h : ∀ i < size, a ((start + i) % cap) = b ((start + i) % cap)) :
    contents a cap start size = contents b cap start size :=
  List.map_congr_left fun i hi => h i (List.mem_range.mp hi)

/-- Two places of a ring are the same slot only if they are the same place. -/
theorem slot_inj {cap start i j : Nat} (hi : i < cap) (hj : j < cap)
    (h : (start + i) % cap = (start + j) % cap) : i = j :=
  Nat.ModEq.eq_of_lt_of_lt (Nat.ModEq.add_left_cancel' start h) hi hj

/-- The next slot goes behind what is there. -/
theorem contents_push (slots : Nat → α) {cap start size : Nat} (x : α) (h : size < cap) :
    contents (Function.update slots ((start + size) % cap) x) cap start (size + 1) =
      contents slots cap start size ++ [x] := by
  rw [contents, List.range_succ, List.map_append, List.map_singleton, Function.update_self]
  refine congrArg (· ++ [x]) (contents_congr fun i hi => ?_)
  refine Function.update_of_ne (fun heq => ?_) _ _
  exact absurd (slot_inj (hi.trans h) h heq) hi.ne

theorem contents_mod (slots : Nat → α) (cap start size : Nat) :
    contents slots cap (start % cap) size = contents slots cap start size := by
  unfold contents
  refine List.map_congr_left fun i _ => ?_
  rw [Nat.mod_add_mod]

/-- The first slot goes, and the ring begins at the next. -/
theorem contents_pop (slots : Nat → α) (cap start size : Nat) :
    contents slots cap start (size + 1) =
      slots (start % cap) :: contents slots cap (start + 1) size := by
  rw [contents, List.range_succ_eq_map, List.map_cons, List.map_map, Nat.add_zero]
  refine congrArg _ (List.map_congr_left fun i _ => ?_)
  rw [Function.comp_apply, Nat.succ_eq_add_one, Nat.add_right_comm start 1 i, Nat.add_assoc start]

/-- An index that is counted up and set to zero at the end goes round. -/
theorem next_index {cap i : Nat} (h : i < cap) :
    (if i + 1 ≥ cap then 0 else i + 1) = (i + 1) % cap := by
  split
  · have hlast : i + 1 = cap := by omega
    rw [hlast, Nat.mod_self]
  · exact (Nat.mod_eq_of_lt (by omega)).symm

end Fifo
