import Mathlib.Data.List.Basic
import Mathlib.Tactic.Common

/-! # Where a word occurs in a text

Occurrences are taken from the left, each behind the end of the one before. -/
namespace Occurrences

universe u

variable {α : Type u} [DecidableEq α] {pat rep xs ys : List α} {n : Nat}

/-- Where the word first begins. -/
def find (pat : List α) : List α → Option Nat
  | [] => if pat = [] then some 0 else none
  | x :: xs => if pat <+: x :: xs then some 0 else (find pat xs).map (· + 1)

/-- What stands around the occurrences, of which the first begins behind `skip` at the earliest. -/
def partsFrom (pat : List α) (skip : Nat) : List α → List (List α)
  | [] => [[]]
  | x :: xs =>
    match skip with
    | skip + 1 => partsFrom pat skip xs
    | 0 =>
      if pat <+: x :: xs then [] :: partsFrom pat (pat.length - 1) xs
      else (partsFrom pat 0 xs).modifyHead (x :: ·)

def parts (pat xs : List α) : List (List α) := partsFrom pat 0 xs

/-- Each occurrence gives way to another word. -/
def replaceAll (pat rep xs : List α) : List α := rep.intercalate (parts pat xs)

theorem find_eq_some (hpat : pat ≠ []) : find pat xs = some n ↔
    pat <+: xs.drop n ∧ ∀ m < n, ¬pat <+: xs.drop m := by
  induction xs generalizing n with
  | nil => simp [find, hpat]
  | cons x xs ih =>
    unfold find
    split
    · rename_i hhere
      cases n with
      | zero => simpa using hhere
      | succ n => simpa using fun _ => ⟨0, by omega, hhere⟩
    · rename_i hhere
      cases n with
      | zero => simpa using hhere
      | succ n =>
        simp only [Option.map_eq_some_iff, Nat.add_right_cancel_iff, exists_eq_right, ih,
          List.drop_succ_cons]
        apply and_congr_right
        intro _
        constructor
        · intro hall m hm
          cases m with
          | zero => exact hhere
          | succ m => exact hall m (by omega)
        · intro hall m hm
          exact hall (m + 1) (by omega)

theorem find_eq_none (hpat : pat ≠ []) : find pat xs = none ↔ ∀ n, ¬pat <+: xs.drop n := by
  constructor
  · intro h n
    induction n using Nat.strongRecOn with
    | ind n ih =>
      intro hn
      rw [(find_eq_some hpat).mpr ⟨hn, ih⟩] at h
      exact nomatch h
  · intro h
    cases hf : find pat xs with
    | none => rfl
    | some n => exact absurd ((find_eq_some hpat).mp hf).1 (h n)

/-- An occurrence lies inside the text. -/
theorem find_le (hpat : pat ≠ []) (h : find pat xs = some n) : n + pat.length ≤ xs.length := by
  have hlen := ((find_eq_some hpat).mp h).1.length_le
  have hpos := List.length_pos_of_ne_nil hpat
  rw [List.length_drop] at hlen
  omega

/-- A search that begins at or before the first occurrence finds it. -/
theorem find_drop (hpat : pat ≠ []) (h : find pat xs = some n) {m : Nat} (hm : m ≤ n) :
    find pat (xs.drop m) = some (n - m) := by
  obtain ⟨hhere, hbefore⟩ := (find_eq_some hpat).mp h
  apply (find_eq_some hpat).mpr
  constructor
  · rwa [List.drop_drop, Nat.add_sub_cancel' hm]
  · intro k hk
    rw [List.drop_drop]
    exact hbefore _ (by omega)

theorem partsFrom_skip (n : Nat) (xs : List α) : partsFrom pat n xs = parts pat (xs.drop n) := by
  induction xs generalizing n with
  | nil => simp [parts, partsFrom]
  | cons x xs ih =>
    cases n with
    | zero => rfl
    | succ n => exact ih n

theorem parts_none (h : find pat xs = none) : parts pat xs = [xs] := by
  induction xs with
  | nil => rfl
  | cons x xs ih =>
    unfold find at h
    split at h
    · exact nomatch h
    · rename_i hhere
      have hrest := ih (Option.map_eq_none_iff.mp h)
      unfold parts at hrest ⊢
      simp only [partsFrom, if_neg hhere, hrest, List.modifyHead_cons]

theorem parts_some (hpat : pat ≠ []) (h : find pat xs = some n) :
    parts pat xs = xs.take n :: parts pat (xs.drop (n + pat.length)) := by
  have hpos := List.length_pos_of_ne_nil hpat
  induction xs generalizing n with
  | nil => simp [find, hpat] at h
  | cons x xs ih =>
    unfold find at h
    split at h
    · rename_i hhere
      obtain rfl : 0 = n := by simpa using h
      obtain ⟨k, hk⟩ : ∃ k, pat.length = k + 1 := ⟨pat.length - 1, by omega⟩
      simp only [parts, partsFrom, if_pos hhere, hk, List.take_zero, Nat.zero_add,
        Nat.add_sub_cancel, List.drop_succ_cons, List.cons.injEq, true_and]
      exact partsFrom_skip k xs
    · rename_i hhere
      obtain ⟨m, hm, rfl⟩ := Option.map_eq_some_iff.mp h
      have hrest := ih hm
      unfold parts at hrest ⊢
      rw [show m + 1 + pat.length = m + pat.length + 1 by omega, List.drop_succ_cons,
        List.take_succ_cons]
      simp only [partsFrom, if_neg hhere, hrest, List.modifyHead_cons]

theorem partsFrom_ne_nil (n : Nat) (xs : List α) : partsFrom pat n xs ≠ [] := by
  induction xs generalizing n with
  | nil => simp [partsFrom]
  | cons x xs ih =>
    unfold partsFrom
    split
    · exact ih _
    · split
      · simp
      · cases h : partsFrom pat 0 xs with
        | nil => exact absurd h (ih 0)
        | cons p ps => simp

theorem parts_ne_nil (xs : List α) : parts pat xs ≠ [] := partsFrom_ne_nil 0 xs

/-- A text without the word stays. -/
theorem replaceAll_none (h : find pat xs = none) :
    replaceAll pat rep xs = xs := by
  simp [replaceAll, parts_none h]

omit [DecidableEq α] in
theorem intersperse_cons {ps : List (List α)} (h : ps ≠ []) (p : List α) :
    (p :: ps).intersperse rep = p :: rep :: ps.intersperse rep := by
  cases ps with
  | nil => exact absurd rfl h
  | cons q qs => rfl

theorem replaceAll_some (hpat : pat ≠ []) (h : find pat xs = some n) :
    replaceAll pat rep xs =
      xs.take n ++ rep ++ replaceAll pat rep (xs.drop (n + pat.length)) := by
  rw [replaceAll, parts_some hpat h, List.intercalate,
    intersperse_cons (parts_ne_nil _), List.flatten_cons, List.flatten_cons,
    List.append_assoc]
  rfl

theorem mem_partsFrom {p : List α} (h : p ∈ partsFrom pat n xs) : p ⊆ xs := by
  induction xs generalizing n p with
  | nil =>
    rw [partsFrom, List.mem_singleton] at h
    rw [h]
    exact List.nil_subset _
  | cons x xs ih =>
    unfold partsFrom at h
    split at h
    · exact List.subset_cons_of_subset x (ih h)
    · split at h
      · rcases List.mem_cons.mp h with rfl | h
        · exact List.nil_subset _
        · exact List.subset_cons_of_subset x (ih h)
      · cases hrest : partsFrom pat 0 xs with
        | nil => exact absurd hrest (partsFrom_ne_nil 0 xs)
        | cons q qs =>
          have hall : ∀ r ∈ q :: qs, r ⊆ xs := fun r hr => ih (hrest ▸ hr)
          rw [hrest, List.modifyHead_cons] at h
          rcases List.mem_cons.mp h with rfl | h
          · exact List.cons_subset_cons x (hall q List.mem_cons_self)
          · exact List.subset_cons_of_subset x (hall p (List.mem_cons_of_mem q h))

omit [DecidableEq α] in
theorem mem_intersperse {q : List α} {ps : List (List α)} (h : q ∈ ps.intersperse rep) :
    q ∈ ps ∨ q = rep := by
  induction ps with
  | nil => exact nomatch h
  | cons p ps ih =>
    cases ps with
    | nil => exact .inl h
    | cons p' ps =>
      rw [intersperse_cons (by simp), List.mem_cons, List.mem_cons] at h
      rcases h with rfl | h | h
      · exact .inl List.mem_cons_self
      · exact .inr h
      · rcases ih h with h | h
        · exact .inl (List.mem_cons_of_mem p h)
        · exact .inr h

/-- Nothing comes in but from the text and the replacement. -/
theorem mem_replaceAll {x : α} (h : x ∈ replaceAll pat rep xs) : x ∈ xs ∨ x ∈ rep := by
  obtain ⟨q, hq, hx⟩ := List.mem_flatten.mp h
  rcases mem_intersperse hq with hq | rfl
  · exact .inl (mem_partsFrom hq hx)
  · exact .inr hx

section Steps

variable {sep x : α}

theorem replaceAll_nil : replaceAll pat rep [] = [] := rfl

theorem replaceAll_here (hpat : pat ≠ []) (h : pat <+: xs) :
    replaceAll pat rep xs = rep ++ replaceAll pat rep (xs.drop pat.length) := by
  have hfind : find pat xs = some 0 :=
    (find_eq_some hpat).mpr ⟨h, fun m hm => absurd hm (Nat.not_lt_zero m)⟩
  rw [replaceAll_some hpat hfind, List.take_zero, List.nil_append, Nat.zero_add]

theorem replaceAll_later (h : ¬pat <+: x :: xs) :
    replaceAll pat rep (x :: xs) = x :: replaceAll pat rep xs := by
  have hparts : parts pat (x :: xs) = (parts pat xs).modifyHead (x :: ·) := by
    simp only [parts, partsFrom, if_neg h]
  unfold replaceAll
  rw [hparts]
  cases hxs : parts pat xs with
  | nil => exact absurd hxs (parts_ne_nil xs)
  | cons q qs =>
    cases qs with
    | nil => rfl
    | cons r rs => simp [List.intercalate]

omit [DecidableEq α] in
theorem prefix_append_sep (hsep : sep ∉ pat) : pat <+: xs ++ sep :: ys ↔ pat <+: xs := by
  constructor
  · intro h
    apply List.prefix_of_prefix_length_le h (List.prefix_append xs _)
    by_contra hlong
    apply hsep
    have hget := h.getElem (i := xs.length) (by omega)
    rw [List.getElem_append_right (Nat.le_refl _)] at hget
    simp only [Nat.sub_self, List.getElem_cons_zero] at hget
    exact hget ▸ List.getElem_mem _
  · exact fun h => h.trans (List.prefix_append xs _)

/-- A character that the word does not have parts a text in two that are treated apart. -/
theorem replaceAll_sep (hpat : pat ≠ []) (hsep : sep ∉ pat) (xs ys : List α) :
    replaceAll pat rep (xs ++ sep :: ys) = replaceAll pat rep xs ++ sep :: replaceAll pat rep ys := by
  have hpos := List.length_pos_of_ne_nil hpat
  induction hn : xs.length using Nat.strongRecOn generalizing xs with
  | ind n ih =>
    cases xs with
    | nil =>
      have hnot : ¬pat <+: [] ++ sep :: ys := by
        rw [prefix_append_sep hsep]
        exact fun h => hpat (List.prefix_nil.mp h)
      exact replaceAll_later hnot
    | cons x xs =>
      by_cases h : pat <+: x :: xs
      · have hdrop : (x :: xs ++ sep :: ys).drop pat.length =
            (x :: xs).drop pat.length ++ sep :: ys := List.drop_append_of_le_length h.length_le
        have hshort : ((x :: xs).drop pat.length).length < n := by
          rw [List.length_drop, hn]
          have := h.length_le
          omega
        rw [replaceAll_here hpat ((prefix_append_sep hsep).mpr h), hdrop, ih _ hshort _ rfl,
          replaceAll_here hpat h, List.append_assoc]
      · have hshort : xs.length < n := by
          rw [← hn]
          exact Nat.lt_succ_self _
        rw [replaceAll_later h, List.cons_append, List.cons_append, ← ih _ hshort _ rfl]
        exact replaceAll_later fun hp =>
          h ((prefix_append_sep hsep).mp (show pat <+: (x :: xs) ++ sep :: ys from hp))

/-- A character replaced by nothing is filtered out. -/
theorem replaceAll_char (c : α) (xs : List α) : replaceAll [c] [] xs = xs.filter (· ≠ c) := by
  induction xs with
  | nil => rfl
  | cons x xs ih =>
    by_cases hx : x = c
    · have hhere : [c] <+: x :: xs := by simp [hx]
      rw [replaceAll_here (List.cons_ne_nil c []) hhere, List.filter_cons_of_neg (by simp [hx])]
      exact ih
    · rw [replaceAll_later (by simp [Ne.symm hx]), ih, List.filter_cons_of_pos (by simp [hx])]

/-- A search passes over a text without the word's first character. -/
theorem find_append_free {c : α} (hc : c ∉ xs) (ys : List α) :
    find (c :: pat) (xs ++ ys) = (find (c :: pat) ys).map (· + xs.length) := by
  induction xs with
  | nil => simp
  | cons x xs ih =>
    obtain ⟨hx, hxs⟩ := not_or.mp (mt List.mem_cons.mpr hc)
    have hnot : ¬c :: pat <+: x :: (xs ++ ys) := fun h => hx (List.cons_prefix_cons.mp h).1
    rw [List.cons_append, find, if_neg hnot, ih hxs, Option.map_map]
    congr 1

theorem replaceAll_length_le (hpat : pat ≠ []) (hrep : rep.length ≤ pat.length) (xs : List α) :
    (replaceAll pat rep xs).length ≤ xs.length := by
  induction hn : xs.length using Nat.strongRecOn generalizing xs with
  | ind n ih =>
    cases xs with
    | nil => exact Nat.zero_le n
    | cons x xs =>
      by_cases h : pat <+: x :: xs
      · have hpos := List.length_pos_of_ne_nil hpat
        have hle := h.length_le
        have hdrop := List.length_drop (i := pat.length) (l := x :: xs)
        have hrest := ih _ (by omega) ((x :: xs).drop pat.length) rfl
        rw [replaceAll_here hpat h, List.length_append]
        omega
      · rw [List.length_cons] at hn
        have hrest := ih _ (by omega) xs rfl
        rw [replaceAll_later h, List.length_cons]
        omega

end Steps

section Apart

variable {p q : List α} {sep : α}

omit [DecidableEq α] in
theorem infix_of_prefix_drop (h : p <+: xs.drop n) : p <:+: xs :=
  h.isInfix.trans (List.drop_suffix n xs).isInfix

theorem find_of_infix (hp : p ≠ []) (h : p <:+: xs) : ∃ n, find p xs = some n := by
  cases hfind : find p xs with
  | some n => exact ⟨n, rfl⟩
  | none =>
    obtain ⟨a, b, rfl⟩ := h
    have hnot := (find_eq_none hp).mp hfind a.length
    rw [List.append_assoc, List.drop_append_length] at hnot
    exact absurd (List.prefix_append _ _) hnot

/-- A text with the word in it gets shorter by a shorter replacement. -/
theorem replaceAll_length_lt (hp : p ≠ []) (hrep : rep.length < p.length) (h : p <:+: xs) :
    (replaceAll p rep xs).length < xs.length := by
  obtain ⟨n, hn⟩ := find_of_infix hp h
  have hin := find_le hp hn
  have hrest := replaceAll_length_le hp (Nat.le_of_lt hrep) (xs.drop (n + p.length))
  rw [List.length_drop] at hrest
  rw [replaceAll_some hp hn, List.length_append, List.length_append, List.length_take]
  omega

theorem find_none_of_absent (hp : p ≠ []) (h : ¬p <:+: xs) : find p xs = none :=
  (find_eq_none hp).mpr fun _ hn => h (infix_of_prefix_drop hn)

theorem absent_of_find_none (hp : p ≠ []) (h : find p xs = none) : ¬p <:+: xs := by
  intro hin
  obtain ⟨n, hn⟩ := find_of_infix hp hin
  rw [h] at hn
  exact nomatch hn

omit [DecidableEq α] in
/-- A word does not reach over a character it does not have. -/
theorem infix_append_sep (hsep : sep ∉ p) (h : p <:+: xs ++ sep :: ys) : p <:+: xs ∨ p <:+: ys := by
  induction xs with
  | nil =>
    rcases List.infix_cons_iff.mp h with h | h
    · have hnil : p <+: [] := (prefix_append_sep hsep).mp h
      exact .inl hnil.isInfix
    · exact .inr h
  | cons x xs ih =>
    rcases List.infix_cons_iff.mp h with h | h
    · have hxs : p <+: x :: xs := (prefix_append_sep hsep).mp h
      exact .inl hxs.isInfix
    · exact (ih h).imp_left List.infix_cons

omit [DecidableEq α] in
theorem infix_of_infix_cons (hp : p ≠ []) (hsep : sep ∉ p) (h : p <:+: sep :: ys) : p <:+: ys := by
  have hsplit : p <:+: [] ∨ p <:+: ys := infix_append_sep hsep h
  exact hsplit.resolve_left fun hnil => hp (List.infix_nil.mp hnil)

omit [DecidableEq α] in
/-- A word that cannot overlap the one behind a text without it does not begin in the text. -/
theorem not_before (hxs : ¬p <:+: xs)
    (hp : ∀ i, 0 < i → i < p.length → ¬p.drop i <+: q ∧ ¬q <+: p.drop i)
    (h : p <+: (xs ++ (q ++ ys)).drop n) : xs.length ≤ n := by
  by_contra hn
  rw [List.drop_append_of_le_length (by omega)] at h
  rcases List.prefix_or_prefix_of_prefix h (List.prefix_append _ _) with hin | hover
  · exact hxs (infix_of_prefix_drop hin)
  · obtain ⟨w, rfl⟩ := hover
    have hlen : (xs.drop n).length = xs.length - n := List.length_drop
    have hw : w <+: q ++ ys := (List.prefix_append_right_inj _).mp h
    have hdrop : (xs.drop n ++ w).drop (xs.drop n).length = w := List.drop_left
    cases w with
    | nil =>
      rw [List.append_nil] at hxs
      exact hxs (List.drop_suffix n xs).isInfix
    | cons c w =>
      have hapart := hp (xs.drop n).length (by omega) (by simp)
      rw [hdrop] at hapart
      rcases List.prefix_or_prefix_of_prefix hw (List.prefix_append _ _) with hw | hw
      · exact hapart.1 hw
      · exact hapart.2 hw

omit [DecidableEq α] in
/-- A word that cannot overlap the one in the middle occurs there only, if at all. -/
theorem only_there (hxs : ¬p <:+: xs) (hys : ¬p <:+: ys)
    (hp : ∀ i, 0 < i → i < p.length → ¬p.drop i <+: q ∧ ¬q <+: p.drop i)
    (hq : ∀ i, 0 < i → i < q.length → ¬q.drop i <+: p ∧ ¬p <+: q.drop i)
    (h : p <+: (xs ++ (q ++ ys)).drop n) : n = xs.length := by
  have hge := not_before hxs hp h
  by_contra hne
  rw [List.drop_append, List.drop_eq_nil_of_le hge, List.nil_append] at h
  rcases Nat.lt_or_ge (n - xs.length) q.length with hm | hm
  · rw [List.drop_append_of_le_length (Nat.le_of_lt hm)] at h
    have hapart := hq (n - xs.length) (by omega) hm
    rcases List.prefix_or_prefix_of_prefix h (List.prefix_append _ _) with h | h
    · exact hapart.2 h
    · exact hapart.1 h
  · rw [List.drop_append, List.drop_eq_nil_of_le hm, List.nil_append] at h
    exact hys (infix_of_prefix_drop h)

theorem find_first (hp : p ≠ []) (hxs : ¬p <:+: xs)
    (hover : ∀ i, 0 < i → i < p.length → ¬p.drop i <+: p ∧ ¬p <+: p.drop i) :
    find p (xs ++ (p ++ ys)) = some xs.length := by
  apply (find_eq_some hp).mpr
  rw [List.drop_append_length]
  exact ⟨List.prefix_append _ _, fun m hm h => absurd (not_before hxs hover h) (by omega)⟩

omit [DecidableEq α] in
theorem prefix_drop_take {k : Nat} :
    p <+: (xs.take k).drop n ↔ p <+: xs.drop n ∧ p.length ≤ k - n := by
  rw [List.drop_take, List.prefix_take_iff]

/-- What is known of a search when only part of the text is there. -/
theorem find_take (hp : p ≠ []) (k : Nat) : find p (xs.take k) =
    match find p xs with
    | some n => if n + p.length ≤ k then some n else none
    | none => none := by
  have hpos := List.length_pos_of_ne_nil hp
  cases hfind : find p xs with
  | none =>
    apply (find_eq_none hp).mpr
    intro n h
    exact (find_eq_none hp).mp hfind n (prefix_drop_take.mp h).1
  | some n =>
    obtain ⟨hhere, hbefore⟩ := (find_eq_some hp).mp hfind
    simp only
    split
    · rename_i hk
      apply (find_eq_some hp).mpr
      exact ⟨prefix_drop_take.mpr ⟨hhere, by omega⟩,
        fun m hm h => hbefore m hm (prefix_drop_take.mp h).1⟩
    · rename_i hk
      apply (find_eq_none hp).mpr
      intro m h
      obtain ⟨hm, hlen⟩ := prefix_drop_take.mp h
      rcases Nat.lt_or_ge m n with hlt | hge
      · exact hbefore m hlt hm
      · omega

end Apart

end Occurrences
