import MetaRtc.Lib.Exec
import Mathlib.Data.List.TakeDrop
import Mathlib.Tactic.Common
import Mathlib.Tactic.Ring

/-! # Emulation prevention

In a NAL unit a three stands before each byte up to three that follows two zeros. Taking these
out again is done in place. -/
namespace MetaRtc

open Exec

/-- The bytes behind `j` move down by one. The last one stays where it was as well. -/
def kickOut (buf : List UInt8) (j : Nat) : List UInt8 :=
  buf.take j ++ buf.drop (j + 1) ++ buf.drop (buf.length - 1)

def deEmulationLoop : Nat → List UInt8 → Nat → Nat → Call (List UInt8 × Nat)
  | 0, buf, bufSize, _ => .ret (buf, bufSize)
  | passes + 1, buf, bufSize, i => do
    let a ← Call.deref buf[i]?
    let b ← Call.deref buf[i + 1]?
    let c ← Call.deref buf[i + 2]?
    if a = 0 ∧ b = 0 ∧ c = 3 then
      deEmulationLoop passes (kickOut buf (i + 2)) (bufSize - 1) (i + 1)
    else deEmulationLoop passes buf bufSize (i + 1)

/-- The bytes of the buffer afterwards, and how many of them count. The number of passes is a
difference of unsigned numbers, taken once. -/
def deEmulationPrevention (buf : List UInt8) : Call (List UInt8 × Nat) :=
  deEmulationLoop ((buf.length + 2 ^ 32 - 2) % 2 ^ 32) buf buf.length 0

section Scan

/-- What is taken out, by the zeros before a byte (two are as good as more): behind a three that
is taken out, one of the zeros is still looked at. -/
def unescape : Nat → List UInt8 → List UInt8
  | _, [] => []
  | zeros, b :: bs =>
    if zeros = 2 ∧ b = 3 then unescape 1 bs
    else b :: unescape (if b = 0 then min (zeros + 1) 2 else 0) bs

attribute [local simp] unescape

variable {buf t front : List UInt8} {b x : UInt8} {zeros n : Nat}

theorem unescape_three : unescape 2 (3 :: t) = unescape 1 t := by
  simp

theorem unescape_zero : unescape zeros (0 :: t) = 0 :: unescape (min (zeros + 1) 2) t := by
  simp

theorem unescape_other (hb : b ≠ 0) (h : zeros ≠ 2 ∨ b ≠ 3) :
    unescape zeros (b :: t) = b :: unescape 0 t := by
  rw [unescape, if_neg (by tauto), if_neg hb]

theorem unescape_length_le (zeros : Nat) (t : List UInt8) :
    (unescape zeros t).length ≤ t.length := by
  induction t generalizing zeros with
  | nil => exact Nat.le_refl _
  | cons b t ih =>
    unfold unescape
    split
    · exact Nat.le_succ_of_le (ih 1)
    · exact Nat.succ_le_succ (ih _)

theorem unescape_second (h : ∀ r, t ≠ 3 :: r) : unescape 2 t = unescape 1 t := by
  cases t with
  | nil => rfl
  | cons d t =>
    have hd : d ≠ 3 := fun hd => h t (by rw [hd])
    by_cases hzero : d = 0
    · rw [hzero, unescape_zero, unescape_zero]
      rfl
    · rw [unescape_other hzero (.inr hd), unescape_other hzero (.inr hd)]

/-- Where no three is to be taken out behind the first byte, the scan can begin anew at the
second. -/
theorem unescape_step (h : ∀ r, b :: t ≠ 0 :: 0 :: 3 :: r) :
    unescape 0 (b :: t) = b :: unescape 0 t := by
  by_cases hb : b = 0
  · rw [hb, unescape_zero]
    congr 1
    cases t with
    | nil => rfl
    | cons c t =>
      by_cases hc : c = 0
      · have hthree : ∀ r, t ≠ 3 :: r := fun r hr => h r (by rw [hb, hc, hr])
        rw [hc, unescape_zero, unescape_zero]
        exact congrArg (0 :: ·) (unescape_second hthree)
      · rw [unescape_other hc (.inl (by decide)), unescape_other hc (.inl (by decide))]
  · exact unescape_other hb (.inl (by decide))

theorem unescape_short (h : t.length ≤ 2) : unescape 0 t = t := by
  induction t with
  | nil => rfl
  | cons b t ih =>
    rw [List.length_cons] at h
    rw [unescape_step, ih (by omega)]
    intro r heq
    rw [(List.cons.inj heq).2] at h
    simp at h

theorem unescape_pattern : unescape 0 (0 :: 0 :: 3 :: t) = 0 :: unescape 0 (0 :: t) := by
  rw [unescape_zero, unescape_zero, unescape_zero]
  exact congrArg (fun r => 0 :: 0 :: r) unescape_three

/-- The bytes behind those that count are copies of the last one, so none of them is a three with
two zeros before it. -/
def Stale (t : List UInt8) (k : Nat) (x : UInt8) : Prop :=
  k = 0 ∨ t = [] ∨ t = [0] ∨ t.getLast? = some x

theorem Stale.tail (h : Stale (b :: t) n x) : Stale t n x := by
  rcases h with h | h | h | h
  · exact .inl h
  · exact nomatch h
  · exact .inr (.inl (List.cons.inj h).2)
  · cases t with
    | nil => exact .inr (.inl rfl)
    | cons c t =>
      rw [List.getLast?_cons_cons] at h
      exact .inr (.inr (.inr h))

/-- Three bytes to be changed are all among those that count. -/
theorem Stale.pattern {rest : List UInt8} (h : Stale t n x)
    (hbytes : t ++ List.replicate n x = 0 :: 0 :: 3 :: rest) :
    ∃ r, t = 0 :: 0 :: 3 :: r ∧ rest = r ++ List.replicate n x := by
  have hcopy : ∀ c, c ∈ List.replicate n x → c = x := fun c hc => List.eq_of_mem_replicate hc
  match t with
  | [] =>
    rw [List.nil_append] at hbytes
    rw [hbytes] at hcopy
    exact absurd ((hcopy 0 (by simp)).trans (hcopy 3 (by simp)).symm) (by decide)
  | [a] =>
    have hcopies : List.replicate n x = 0 :: 3 :: rest := (List.cons.inj hbytes).2
    rw [hcopies] at hcopy
    exact absurd ((hcopy 0 (by simp)).trans (hcopy 3 (by simp)).symm) (by decide)
  | [a, b] =>
    simp only [List.cons_append, List.nil_append, List.cons.injEq] at hbytes
    obtain ⟨rfl, rfl, hcopies⟩ := hbytes
    rw [hcopies] at hcopy
    have hx := hcopy 3 (by simp)
    rcases h with rfl | h | h | h
    · exact nomatch hcopies
    · exact nomatch h
    · exact nomatch h
    · rw [← hx] at h
      exact absurd h (by decide)
  | a :: b :: c :: r =>
    simp only [List.cons_append, List.cons.injEq] at hbytes
    obtain ⟨rfl, rfl, rfl, rfl⟩ := hbytes
    exact ⟨r, rfl, rfl⟩

theorem kickOut_append {a b c : UInt8} {r : List UInt8} :
    kickOut (front ++ a :: b :: c :: r) (front.length + 2) =
      front ++ a :: b :: (r ++ [(c :: r).getLast (by simp)]) := by
  have hlast : (front ++ a :: b :: c :: r).getLast (by simp) = (c :: r).getLast (by simp) := by
    simp
  unfold kickOut
  rw [List.drop_length_sub_one (by simp), hlast, List.take_length_add_append, Nat.add_assoc,
    List.drop_length_add_append]
  simp

theorem getLast?_behind {a : UInt8} (h : (b :: t).getLast? = some x) (ht : t ≠ []) :
    (a :: t).getLast? = some x := by
  cases t with
  | nil => exact absurd rfl ht
  | cons c t =>
    rw [List.getLast?_cons_cons] at h ⊢
    exact h

theorem getLast_copies :
    (b :: (t ++ List.replicate (n + 1) x)).getLast (by simp) = x := by
  rw [List.getLast_cons (by simp), List.getLast_append_of_ne_nil (by simp) (by simp),
    List.getLast_replicate]

/-- Where a three is taken out, one more copy of the last byte is left behind. -/
theorem Stale.moved (h : Stale (0 :: 0 :: 3 :: t) n x) :
    ∃ y, Stale (0 :: t) (n + 1) y ∧ ∀ front : List UInt8,
      kickOut (front ++ (0 :: 0 :: 3 :: t ++ List.replicate n x)) (front.length + 2) =
        front ++ 0 :: (0 :: t ++ List.replicate (n + 1) y) := by
  have hstale : ∀ y, (3 :: t).getLast? = some y → Stale (0 :: t) (n + 1) y := by
    intro y hy
    by_cases ht : t = []
    · rw [ht]
      exact .inr (.inr (.inl rfl))
    · exact .inr (.inr (.inr (getLast?_behind hy ht)))
  refine ⟨(3 :: (t ++ List.replicate n x)).getLast (by simp), ?_, ?_⟩
  · cases n with
    | zero =>
      apply hstale
      simp [List.getLast?_eq_some_getLast]
    | succ n =>
      rw [getLast_copies]
      apply hstale
      rcases h with h | h | h | h
      · exact nomatch h
      · exact nomatch h
      · exact nomatch h
      · exact h
  · intro front
    have hcopies : t ++ List.replicate n x ++ [(3 :: (t ++ List.replicate n x)).getLast (by simp)] =
        t ++ List.replicate (n + 1) ((3 :: (t ++ List.replicate n x)).getLast (by simp)) := by
      cases n with
      | zero => simp
      | succ n =>
        rw [getLast_copies, List.append_assoc, ← List.replicate_succ']
    rw [List.cons_append, List.cons_append, List.cons_append, kickOut_append, hcopies]
    rfl

/-- From each pass on, the bytes that count are those of the scan, with copies of one byte behind
them. -/
theorem deEmulationLoop_scan {passes : Nat} (hstale : Stale t n x)
    (hpasses : passes + 2 = t.length + n) {bufSize : Nat} :
    ∃ k y, deEmulationLoop passes (front ++ (t ++ List.replicate n x)) bufSize front.length =
        .ret (front ++ (unescape 0 t ++ List.replicate k y),
          bufSize - (t.length - (unescape 0 t).length)) ∧
      (unescape 0 t).length + k = t.length + n ∧ (t = [] → y = x) := by
  induction passes generalizing front t n x bufSize with
  | zero =>
    have hshort : unescape 0 t = t := unescape_short (by omega)
    refine ⟨n, x, ?_, by rw [hshort], fun _ => rfl⟩
    rw [hshort, Nat.sub_self]
    rfl
  | succ passes ih =>
    obtain ⟨a, b, c, r, hr⟩ : ∃ a b c r, t ++ List.replicate n x = a :: b :: c :: r := by
      have hlen : (t ++ List.replicate n x).length = passes + 3 := by
        rw [List.length_append, List.length_replicate]
        omega
      match t ++ List.replicate n x, hlen with
      | a :: b :: c :: r, _ => exact ⟨a, b, c, r, rfl⟩
    have hreads : (front ++ a :: b :: c :: r)[front.length]? = some a ∧
        (front ++ a :: b :: c :: r)[front.length + 1]? = some b ∧
        (front ++ a :: b :: c :: r)[front.length + 2]? = some c := by
      simp
    unfold deEmulationLoop
    rw [hr, hreads.1, hreads.2.1, hreads.2.2]
    simp only [Call.deref_some, Call.ret_bind]
    by_cases hpattern : a = 0 ∧ b = 0 ∧ c = 3
    · rw [if_pos hpattern]
      obtain ⟨rfl, rfl, rfl⟩ := hpattern
      obtain ⟨r', rfl, _⟩ := hstale.pattern hr
      obtain ⟨y, hmoved, hkick⟩ := hstale.moved
      rw [← hr, hkick, List.append_cons]
      have hle := unescape_length_le 0 (0 :: r')
      simp only [List.length_cons] at hpasses hle
      obtain ⟨k, z, hrun, hlen, -⟩ := @ih (0 :: r') (front ++ [0]) y (n + 1) hmoved
        (by rw [List.length_cons]; omega) (bufSize - 1)
      rw [List.length_append, List.length_singleton] at hrun
      refine ⟨k, z, ?_, ?_, fun h => nomatch h⟩
      · rw [hrun, unescape_pattern, List.cons_append, ← List.append_cons]
        congr 2
        simp only [List.length_cons]
        omega
      · rw [unescape_pattern]
        simp only [List.length_cons] at hlen ⊢
        omega
    · rw [if_neg hpattern, ← hr]
      cases t with
      | nil =>
        obtain ⟨m, rfl⟩ : ∃ m, n = m + 1 := ⟨n - 1, by simp at hpasses; omega⟩
        obtain ⟨k, y, hrun, hlen, hy⟩ := @ih [] (front ++ [x]) x m (.inr (.inl rfl))
          (by simp at hpasses ⊢; omega) bufSize
        rw [List.length_append, List.length_singleton, hy rfl, List.nil_append] at hrun
        refine ⟨k + 1, x, ?_, ?_, fun _ => rfl⟩
        · rw [List.nil_append, List.replicate_succ, List.append_cons, hrun, ← List.append_cons]
          rfl
        · simp only [unescape, List.length_nil] at hlen ⊢
          omega
      | cons d t =>
        have hstep : unescape 0 (d :: t) = d :: unescape 0 t := by
          apply unescape_step
          intro s hs
          rw [hs] at hr
          simp only [List.cons_append, List.cons.injEq] at hr
          exact hpattern ⟨hr.1.symm, hr.2.1.symm, hr.2.2.1.symm⟩
        rw [List.length_cons] at hpasses
        obtain ⟨k, y, hrun, hlen, -⟩ := @ih t (front ++ [d]) x n hstale.tail (by omega) bufSize
        rw [List.length_append, List.length_singleton] at hrun
        refine ⟨k, y, ?_, ?_, fun h => nomatch h⟩
        · rw [List.cons_append, List.append_cons, hrun, hstep, List.cons_append, ← List.append_cons]
          congr 2
          simp only [List.length_cons]
          omega
        · rw [hstep]
          simp only [List.length_cons]
          omega

/-- The last byte is never moved, only copied. -/
theorem deEmulationLoop_last {passes : Nat} {after : List UInt8} {bufSize i m : Nat}
    (h : deEmulationLoop passes buf bufSize i = .ret (after, m)) :
    after.getLast? = buf.getLast? := by
  induction passes generalizing buf bufSize i with
  | zero =>
    cases h
    rfl
  | succ passes ih =>
    unfold deEmulationLoop at h
    obtain ⟨a, ha, h⟩ := Call.bind_eq_ret.mp h
    obtain ⟨b, -, h⟩ := Call.bind_eq_ret.mp h
    obtain ⟨c, -, h⟩ := Call.bind_eq_ret.mp h
    have hne : buf ≠ [] := by
      rintro rfl
      exact nomatch ha
    split at h
    · rw [ih h]
      unfold kickOut
      rw [List.drop_length_sub_one hne, List.getLast?_concat, List.getLast?_eq_some_getLast hne]
    · exact ih h

/-- The buffer afterwards: the bytes of the scan, and behind them its last byte over and over. -/
def settled (buf : List UInt8) : List UInt8 :=
  unescape 0 buf ++ List.replicate (buf.length - (unescape 0 buf).length) (buf.getLast?.getD 0)

theorem settled_length (buf : List UInt8) : (settled buf).length = buf.length := by
  have hle := unescape_length_le 0 buf
  unfold settled
  rw [List.length_append, List.length_replicate]
  omega

theorem settled_take (buf : List UInt8) :
    (settled buf).take (unescape 0 buf).length = unescape 0 buf :=
  List.take_left

/-- From two bytes on the code returns, and has scanned them all. -/
theorem deEmulationPrevention_scan (hsize : buf.length < 2 ^ 32) (h : 2 ≤ buf.length) :
    deEmulationPrevention buf = .ret (settled buf, (unescape 0 buf).length) := by
  have hpasses : (buf.length + 2 ^ 32 - 2) % 2 ^ 32 = buf.length - 2 := by omega
  have hstale : Stale buf 0 0 := .inl rfl
  obtain ⟨k, y, hrun, hlen, -⟩ :=
    @deEmulationLoop_scan buf [] 0 0 (buf.length - 2) hstale (by omega) buf.length
  rw [List.replicate_zero, List.append_nil, List.nil_append, List.nil_append,
    Nat.sub_sub_self (unescape_length_le 0 buf)] at hrun
  have hlast := deEmulationLoop_last hrun
  obtain rfl : k = buf.length - (unescape 0 buf).length := by omega
  have hcopies : List.replicate (buf.length - (unescape 0 buf).length) y =
      List.replicate (buf.length - (unescape 0 buf).length) (buf.getLast?.getD 0) := by
    cases hk : buf.length - (unescape 0 buf).length with
    | zero => rfl
    | succ k =>
      rw [hk, List.replicate_succ', ← List.append_assoc, List.getLast?_concat] at hlast
      rw [← hlast, Option.getD_some]
  unfold deEmulationPrevention settled
  rw [hpasses, ← hcopies]
  exact hrun

/-- Two bytes of the bound are taken off before there are two: the number of passes is then about
that of all unsigned numbers. -/
theorem deEmulationPrevention_returns (hsize : buf.length < 2 ^ 32) :
    (∃ r, deEmulationPrevention buf = .ret r) ↔ 2 ≤ buf.length := by
  constructor
  · rintro ⟨r, hr⟩
    by_contra hshort
    obtain ⟨passes, hpasses⟩ : ∃ k, (buf.length + 2 ^ 32 - 2) % 2 ^ 32 = k + 1 :=
      ⟨(buf.length + 2 ^ 32 - 2) % 2 ^ 32 - 1, by omega⟩
    unfold deEmulationPrevention at hr
    rw [hpasses] at hr
    obtain ⟨_, _, hr⟩ := Call.bind_eq_ret.mp hr
    obtain ⟨b, hb, _⟩ := Call.bind_eq_ret.mp hr
    have hread := Call.deref_eq_ret.mp hb
    rw [List.getElem?_eq_none (by omega)] at hread
    exact nomatch hread
  · intro h
    exact ⟨_, deEmulationPrevention_scan hsize h⟩

end Scan

section RoundTrip

/-- A three is put before each byte up to three that has two zeros before it. -/
def escape : Nat → List UInt8 → List UInt8
  | _, [] => []
  | zeros, b :: bs =>
    if zeros = 2 ∧ b ≤ 3 then 3 :: b :: escape (if b = 0 then 1 else 0) bs
    else b :: escape (if b = 0 then zeros + 1 else 0) bs

/-- The zeros before a byte, as far as the two directions see them differently. -/
inductive Zeros where
  | none | one | even | odd
  /-- One that was left where a three of the data was taken out. -/
  | left
  deriving DecidableEq

namespace Zeros

def escaped : Zeros → Nat
  | none => 0
  | one => 1
  | even => 2
  | odd => 1
  | left => 0

def scanned : Zeros → Nat
  | none => 0
  | one => 1
  | even => 2
  | odd => 2
  | left => 1

def more : Zeros → Zeros
  | none => one
  | one => even
  | even => odd
  | odd => even
  | left => odd

def next (zeros : Zeros) (b : UInt8) : Zeros :=
  if b = 0 then zeros.more else if zeros = odd ∧ b = 3 then left else none

def ofCount : Nat → Zeros
  | 0 => none
  | n + 1 => (ofCount n).more

end Zeros

/-- What is left of the data: a three behind an odd number of zeros, three or more, is lost. -/
def comesBack : Zeros → List UInt8 → List UInt8
  | _, [] => []
  | zeros, b :: bs =>
    (if zeros = .odd ∧ b = 3 then [] else [b]) ++ comesBack (zeros.next b) bs

variable {rbsp : List UInt8} {zeros : Zeros}

theorem escape_low {b : UInt8} {bs : List UInt8} (hb : b ≠ 0) (h : b ≤ 3) :
    escape 2 (b :: bs) = 3 :: b :: escape 0 bs := by
  rw [escape, if_pos ⟨rfl, h⟩, if_neg hb]

theorem escape_other {n : Nat} {b : UInt8} {bs : List UInt8} (hb : b ≠ 0) (h : n ≠ 2 ∨ ¬b ≤ 3) :
    escape n (b :: bs) = b :: escape 0 bs := by
  rw [escape, if_neg (by tauto), if_neg hb]

theorem unescape_escape (rbsp : List UInt8) (zeros : Zeros) :
    unescape zeros.scanned (escape zeros.escaped rbsp) = comesBack zeros rbsp := by
  induction rbsp generalizing zeros with
  | nil => rfl
  | cons b bs ih =>
    by_cases hzero : b = 0
    · rw [hzero]
      cases zeros with
      | none => exact congrArg (0 :: ·) (ih .one)
      | one => exact congrArg (0 :: ·) (ih .even)
      | even => exact congrArg (0 :: ·) (ih .odd)
      | odd => exact congrArg (0 :: ·) (ih .even)
      | left => exact congrArg (0 :: ·) (ih .odd)
    · have hnext : (zeros ≠ .odd ∨ b ≠ 3) →
          comesBack zeros (b :: bs) = b :: comesBack .none bs := by
        intro h
        rw [comesBack, Zeros.next, if_neg hzero, if_neg (by tauto), if_neg (by tauto)]
        rfl
      have hnone := ih .none
      cases zeros with
      | none =>
        rw [hnext (.inl (by decide)), ← hnone, escape_other hzero (.inl (by decide)),
          unescape_other hzero (.inl (by decide))]
        rfl
      | one =>
        rw [hnext (.inl (by decide)), ← hnone, escape_other hzero (.inl (by decide)),
          unescape_other hzero (.inl (by decide))]
        rfl
      | left =>
        rw [hnext (.inl (by decide)), ← hnone, escape_other hzero (.inl (by decide)),
          unescape_other hzero (.inl (by decide))]
        rfl
      | even =>
        rw [hnext (.inl (by decide)), ← hnone]
        show unescape 2 (escape 2 (b :: bs)) = b :: unescape 0 (escape 0 bs)
        by_cases hlow : b ≤ 3
        · rw [escape_low hzero hlow, unescape_three, unescape_other hzero (.inl (by decide))]
        · have hthree : b ≠ 3 := fun h => hlow (by rw [h]; decide)
          rw [escape_other hzero (.inr hlow), unescape_other hzero (.inr hthree)]
      | odd =>
        show unescape 2 (escape 1 (b :: bs)) = comesBack .odd (b :: bs)
        rw [escape_other hzero (.inl (by decide))]
        by_cases hthree : b = 3
        · rw [hthree, unescape_three]
          exact ih .left
        · rw [hnext (.inr hthree), unescape_other hzero (.inr hthree), ← hnone]
          rfl

theorem comesBack_length_le (rbsp : List UInt8) (zeros : Zeros) :
    (comesBack zeros rbsp).length ≤ rbsp.length := by
  induction rbsp generalizing zeros with
  | nil => exact Nat.le_refl _
  | cons b bs ih =>
    have hrest := ih (zeros.next b)
    unfold comesBack
    split
    · rw [List.nil_append, List.length_cons]
      omega
    · rw [List.singleton_append, List.length_cons, List.length_cons]
      omega

/-- No three stands directly behind an odd number of zeros, three or more of them. -/
def Clean : Nat → List UInt8 → Prop
  | _, [] => True
  | zeros, b :: bs =>
    ¬(b = 3 ∧ 3 ≤ zeros ∧ zeros % 2 = 1) ∧ Clean (if b = 0 then zeros + 1 else 0) bs

theorem ofCount_odd (n : Nat) : Zeros.ofCount n = .odd ↔ 3 ≤ n ∧ n % 2 = 1 := by
  have hparity : ∀ k, Zeros.ofCount (2 * k + 2) = .even ∧ Zeros.ofCount (2 * k + 3) = .odd := by
    intro k
    induction k with
    | zero => exact ⟨rfl, rfl⟩
    | succ k ih =>
      have heven : Zeros.ofCount (2 * (k + 1) + 2) = .even := congrArg Zeros.more ih.2
      exact ⟨heven, congrArg Zeros.more heven⟩
  constructor
  · intro h
    by_contra hcount
    have hcases : n = 0 ∨ n = 1 ∨ ∃ k, n = 2 * k + 2 := by
      by_cases hn : n < 2
      · omega
      · exact .inr (.inr ⟨n / 2 - 1, by omega⟩)
    rcases hcases with rfl | rfl | ⟨k, rfl⟩
    · exact nomatch h
    · exact nomatch h
    · rw [(hparity k).1] at h
      exact nomatch h
  · rintro ⟨hthree, hodd⟩
    rw [show n = 2 * ((n - 3) / 2) + 3 by omega]
    exact (hparity _).2

theorem comesBack_iff (n : Nat) : comesBack (.ofCount n) rbsp = rbsp ↔ Clean n rbsp := by
  induction rbsp generalizing n with
  | nil => exact iff_of_true rfl trivial
  | cons b bs ih =>
    unfold comesBack Clean
    by_cases hlost : Zeros.ofCount n = .odd ∧ b = 3
    · rw [if_pos hlost]
      constructor
      · intro h
        have hle := comesBack_length_le bs ((Zeros.ofCount n).next b)
        have hlen := congrArg List.length h
        rw [List.nil_append, List.length_cons] at hlen
        omega
      · intro h
        exact absurd ⟨hlost.2, (ofCount_odd n).mp hlost.1⟩ h.1
    · have hthree : ¬(b = 3 ∧ 3 ≤ n ∧ n % 2 = 1) := fun h => hlost ⟨(ofCount_odd n).mpr h.2, h.1⟩
      have hnext : (Zeros.ofCount n).next b = .ofCount (if b = 0 then n + 1 else 0) := by
        unfold Zeros.next
        by_cases hb : b = 0
        · rw [if_pos hb, if_pos hb]
          rfl
        · rw [if_neg hb, if_neg hb, if_neg hlost]
          rfl
      rw [if_neg hlost, hnext, List.singleton_append, List.cons_inj_right, ih]
      exact ⟨fun h => ⟨hthree, h⟩, fun h => h.2⟩

theorem escape_length (rbsp : List UInt8) (n : Nat) : rbsp.length ≤ (escape n rbsp).length := by
  induction rbsp generalizing n with
  | nil => exact Nat.le_refl _
  | cons b bs ih =>
    unfold escape
    split
    · exact Nat.le_succ_of_le (Nat.succ_le_succ (ih _))
    · exact Nat.succ_le_succ (ih _)

/-- In the first two bytes there is nothing to put a three before. -/
theorem escape_short (h : rbsp.length < 2) : escape 0 rbsp = rbsp := by
  match rbsp, h with
  | [], _ => rfl
  | [b], _ => simp [escape]

/-- The data come back from a NAL unit as they were. -/
def EmulationUndone (rbsp : List UInt8) : Prop :=
  ∃ after, deEmulationPrevention (escape 0 rbsp) = .ret (after, rbsp.length) ∧
    after.take rbsp.length = rbsp

theorem emulationUndone_iff (hsize : (escape 0 rbsp).length < 2 ^ 32) :
    EmulationUndone rbsp ↔ 2 ≤ rbsp.length ∧ Clean 0 rbsp := by
  have hscan : unescape 0 (escape 0 rbsp) = comesBack (.ofCount 0) rbsp :=
    unescape_escape rbsp .none
  rw [← comesBack_iff, ← hscan]
  constructor
  · rintro ⟨after, hrun, htake⟩
    have htwo := (deEmulationPrevention_returns hsize).mp ⟨_, hrun⟩
    have hrun' := deEmulationPrevention_scan hsize htwo
    obtain ⟨rfl, hlen⟩ := Prod.mk.inj (Call.ret.inj (hrun'.symm.trans hrun))
    have htake' := settled_take (escape 0 rbsp)
    rw [hlen, htake] at htake'
    constructor
    · by_contra hshort
      rw [escape_short (by omega)] at htwo
      exact hshort htwo
    · exact htake'.symm
  · rintro ⟨htwo, hsame⟩
    have hlen := escape_length rbsp 0
    have hrun := deEmulationPrevention_scan hsize (by omega)
    have htake := settled_take (escape 0 rbsp)
    rw [hsame] at hrun htake
    exact ⟨settled (escape 0 rbsp), hrun, htake⟩

end RoundTrip

/-- What was put in is taken out again exactly where no three of the data stands behind an odd
number of zeros from three on; and the code stays inside a buffer exactly if it has two bytes. -/
theorem emulation_prevention (rbsp buf : List UInt8) (hrbsp : (escape 0 rbsp).length < 2 ^ 32)
    (hbuf : buf.length < 2 ^ 32) :
    (EmulationUndone rbsp ↔ 2 ≤ rbsp.length ∧ Clean 0 rbsp) ∧
      ((∃ r, deEmulationPrevention buf = .ret r) ↔ 2 ≤ buf.length) :=
  ⟨emulationUndone_iff hrbsp, deEmulationPrevention_returns hbuf⟩

theorem emulation_prevention_zeros :
    (EmulationUndone [0, 0, 0, 0, 3] ↔ 2 ≤ [0, 0, 0, 0, (3 : UInt8)].length ∧
      Clean 0 [0, 0, 0, 0, 3]) ∧
    ((∃ r, deEmulationPrevention [1] = .ret r) ↔ 2 ≤ [(1 : UInt8)].length) :=
  emulation_prevention [0, 0, 0, 0, 3] [1] (by decide) (by decide)

/-- Of three zeros and a three only the zeros come back. -/
theorem three_lost : ¬EmulationUndone [0, 0, 0, 3] := by
  rw [emulationUndone_iff (by decide)]
  rintro ⟨_, _, _, _, hclean, _⟩
  exact hclean ⟨rfl, by decide, by decide⟩

end MetaRtc
