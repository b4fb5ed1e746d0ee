import Mathlib.Data.List.InsertIdx
import Mathlib.Logic.Function.Basic

/-! # Arrays whose first entries are in use

An array is a function of the index. What it holds behind the entries in use is not looked
at here, and need not stay the same. -/
namespace Slots

universe u

variable {α : Type u}

def entries (a : Nat → α) (n : Nat) : List α := (List.range n).map a

/-- The entries from an index on move up by one, and a value takes their place. -/
def insertAt (a : Nat → α) (n : Nat) (k : Nat) (v : α) : Nat → α :=
  Function.update (fun i => if k < i ∧ i ≤ n then a (i - 1) else a i) k v

@[simp] theorem entries_length (a : Nat → α) (n : Nat) : (entries a n).length = n := by
  simp [entries]

@[simp] theorem entries_getElem (a : Nat → α) (n i : Nat) (h : i < (entries a n).length) :
    (entries a n)[i] = a i := by
  simp [entries]

theorem entries_congr {a b : Nat → α} {n : Nat} (h : ∀ i < n, a i = b i) :
    entries a n = entries b n :=
  List.map_congr_left fun i hi => h i (List.mem_range.mp hi)

theorem entries_push (a : Nat → α) (n : Nat) (v : α) :
    entries (Function.update a n v) (n + 1) = entries a n ++ [v] := by
  unfold entries
  rw [List.range_succ, List.map_append]
  refine congr (congrArg _ (entries_congr fun i hi => ?_)) (by simp)
  exact Function.update_of_ne (by omega) _ _

theorem entries_insertAt (a : Nat → α) {n k : Nat} (v : α) (hk : k ≤ n) :
    entries (insertAt a n k v) (n + 1) = (entries a n).insertIdx k v := by
  have hlen : ((entries a n).insertIdx k v).length = n + 1 := by
    rw [List.length_insertIdx_of_le_length (by simpa using hk), entries_length]
  apply List.ext_getElem
  · rw [entries_length, hlen]
  · intro i h1 h2
    rw [entries_length] at h1
    rw [entries_getElem]
    unfold insertAt
    rcases Nat.lt_trichotomy i k with hlt | rfl | hgt
    · rw [List.getElem_insertIdx_of_lt hlt, Function.update_of_ne (by omega), if_neg (by omega),
        entries_getElem]
    · rw [List.getElem_insertIdx_self, Function.update_self]
    · rw [List.getElem_insertIdx_of_gt hgt, Function.update_of_ne (by omega), if_pos (by omega),
        entries_getElem]

/-- The entries behind an index close over it. -/
def removeAt (a : Nat → α) (n k : Nat) : Nat → α :=
  fun i => if k ≤ i ∧ i + 1 < n then a (i + 1) else a i

theorem entries_removeAt (a : Nat → α) {n k : Nat} (hk : k < n) :
    entries (removeAt a n k) (n - 1) = (entries a n).eraseIdx k := by
  apply List.ext_getElem
  · rw [List.length_eraseIdx, entries_length, entries_length, if_pos hk]
  · intro i h1 h2
    rw [entries_length] at h1
    rw [entries_getElem, List.getElem_eraseIdx]
    unfold removeAt
    split
    · rw [dif_neg (by omega), entries_getElem]
    · rw [dif_pos (by omega), entries_getElem]

theorem entries_update (a : Nat → α) (n k : Nat) (v : α) :
    entries (Function.update a k v) n = (entries a n).set k v := by
  apply List.ext_getElem
  · simp
  · intro i h1 h2
    rw [entries_getElem, List.getElem_set, entries_getElem, Function.update_apply]
    simp only [eq_comm]

theorem eraseP_findIdx (p : α → Bool) (xs : List α) :
    xs.eraseP p = xs.eraseIdx (xs.findIdx p) := by
  induction xs with
  | nil => rfl
  | cons x xs ih => cases hx : p x <;> simp [List.findIdx_cons, hx, ih]

end Slots
