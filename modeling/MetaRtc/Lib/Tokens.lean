import Mathlib.Data.List.Induction
import Mathlib.Data.List.TakeWhile

/-! # Words between separators -/
namespace Tokens

universe u

variable {α : Type u} [DecidableEq α] {sep c : α} {xs ys w : List α}

/-- The nonempty runs between separators, in order, as `strtok` hands them out. -/
def tokens (sep : α) (xs : List α) : List (List α) :=
  (xs.splitOn sep).filter (· ≠ [])

/-- What stands before the first separator and what stands after it. -/
def cut (sep : α) (xs : List α) : Option (List α × List α) :=
  match xs.dropWhile (· ≠ sep) with
  | [] => none
  | _ :: rest => some (xs.takeWhile (· ≠ sep), rest)

@[simp] theorem tokens_nil : tokens sep [] = [] := by
  simp [tokens, List.splitOn_nil]

theorem tokens_append_sep : tokens sep (xs ++ sep :: ys) = tokens sep xs ++ tokens sep ys := by
  simp [tokens, List.splitOn_append_cons_self]

theorem tokens_cons_sep : tokens sep (sep :: ys) = tokens sep ys := by
  simpa using @tokens_append_sep _ _ sep [] ys

theorem tokens_word (hw : w ≠ []) (hsep : sep ∉ w) : tokens sep w = [w] := by
  simp [tokens, List.splitOn_eq_singleton hsep, hw]

theorem tokens_word_sep (hw : w ≠ []) (hsep : sep ∉ w) :
    tokens sep (w ++ sep :: ys) = w :: tokens sep ys := by
  rw [tokens_append_sep, tokens_word hw hsep, List.singleton_append]

/-- A text is what ends in its last separator, then a run without one. -/
theorem exists_last_run (sep : α) (xs : List α) :
    ∃ front w, xs = front ++ w ∧ sep ∉ w ∧ (front = [] ∨ ∃ f, front = f ++ [sep]) := by
  induction xs using List.reverseRecOn with
  | nil => exact ⟨[], [], rfl, List.not_mem_nil, .inl rfl⟩
  | append_singleton xs x ih =>
    by_cases hx : x = sep
    · exact ⟨xs ++ [x], [], by simp, List.not_mem_nil, .inr ⟨xs, by rw [hx]⟩⟩
    · obtain ⟨front, w, rfl, hsep, hfront⟩ := ih
      exact ⟨front, w ++ [x], by simp, by simp [hsep, Ne.symm hx], hfront⟩

theorem tokens_front {front : List α} (hfront : front = [] ∨ ∃ f, front = f ++ [sep]) (ys : List α) :
    tokens sep (front ++ ys) = tokens sep front ++ tokens sep ys := by
  rcases hfront with rfl | ⟨f, rfl⟩
  · simp
  · rw [List.append_assoc, List.singleton_append, tokens_append_sep, tokens_append_sep, tokens_nil,
      List.append_nil]

/-- A run at the end of a text is its last token, whatever stands before. -/
theorem tokens_last_run {front : List α} (hfront : front = [] ∨ ∃ f, front = f ++ [sep])
    (hsep : sep ∉ w) :
    tokens sep (front ++ w) = tokens sep front ++ if w = [] then [] else [w] := by
  rw [tokens_front hfront]
  congr 1
  split
  · rename_i hw
    rw [hw, tokens_nil]
  · rename_i hw
    exact tokens_word hw hsep

/-- What one more character does to the tokens: it lengthens the last run, which was a
token already unless it was empty. -/
theorem tokens_concat (hc : c ≠ sep) (xs : List α) :
    ∃ ts w, (w = [] ↔ xs = [] ∨ ∃ f, xs = f ++ [sep]) ∧
      tokens sep xs = ts ++ (if w = [] then [] else [w]) ∧
      tokens sep (xs ++ [c]) = ts ++ [w ++ [c]] := by
  obtain ⟨front, w, rfl, hsep, hfront⟩ := exists_last_run sep xs
  refine ⟨tokens sep front, w, ⟨?_, ?_⟩, tokens_last_run hfront hsep, ?_⟩
  · rintro rfl
    simpa using hfront
  · rintro (hnil | ⟨f, hf⟩)
    · exact (List.append_eq_nil_iff.mp hnil).2
    · rcases List.eq_nil_or_concat w with hw | ⟨w', x, rfl⟩
      · exact hw
      · have hx : x = sep := by
          rw [List.concat_eq_append, ← List.append_assoc] at hf
          simpa using (List.append_inj' hf rfl).2
        exact absurd (by simp [hx]) hsep
  · have hlong : sep ∉ w ++ [c] := by simp [hsep, Ne.symm hc]
    rw [List.append_assoc, tokens_last_run hfront hlong, if_neg (by simp)]

theorem mem_tokens (h : w ∈ tokens sep xs) : w ≠ [] ∧ sep ∉ w := by
  induction xs using List.reverseRecOn generalizing w with
  | nil => simp at h
  | append_singleton xs x ih =>
    by_cases hx : x = sep
    · rw [hx, tokens_append_sep, tokens_nil, List.append_nil] at h
      exact ih h
    · obtain ⟨ts, v, -, hts, hlong⟩ := tokens_concat hx xs
      rw [hlong, List.mem_append, List.mem_singleton] at h
      rcases h with h | rfl
      · exact ih (hts ▸ List.mem_append_left _ h)
      · refine ⟨by simp, ?_⟩
        by_cases hv : v = []
        · simp [hv, Ne.symm hx]
        · have hmem : v ∈ tokens sep xs := by
            rw [hts, if_neg hv]
            simp
          simp [(ih hmem).2, Ne.symm hx]

/-- Lines that are ended one by one are the tokens between the line ends. -/
theorem tokens_lines {lines : List (List α)} (h : ∀ line ∈ lines, line ≠ [] ∧ sep ∉ line)
    (rest : List α) :
    tokens sep (lines.flatMap (· ++ [sep]) ++ rest) = lines ++ tokens sep rest := by
  induction lines with
  | nil => rfl
  | cons line lines ih =>
    obtain ⟨hline, hlines⟩ := List.forall_mem_cons.mp h
    rw [List.flatMap_cons, List.append_assoc, List.append_assoc, List.singleton_append,
      tokens_word_sep hline.1 hline.2, ih hlines, List.cons_append]

/-- A token stands alone. -/
theorem tokens_token (h : w ∈ tokens sep xs) : tokens sep w = [w] :=
  tokens_word (mem_tokens h).1 (mem_tokens h).2

theorem cut_eq_some {a b : List α} : cut sep xs = some (a, b) ↔ xs = a ++ sep :: b ∧ sep ∉ a := by
  constructor
  · intro h
    unfold cut at h
    split at h
    · exact nomatch h
    · rename_i y rest hdrop
      simp only [Option.some.injEq, Prod.mk.injEq] at h
      obtain ⟨rfl, rfl⟩ := h
      have hy : y = sep := by
        have hhead := List.head_dropWhile_not (fun x => decide (x ≠ sep)) (by rw [hdrop]; simp)
        simpa only [hdrop, List.head_cons, decide_eq_false_iff_not, not_not] using hhead
      have hwhole := @List.takeWhile_append_dropWhile _ (· ≠ sep) xs
      rw [hdrop, hy] at hwhole
      refine ⟨hwhole.symm, fun hmem => ?_⟩
      simpa using List.mem_takeWhile_imp hmem
  · rintro ⟨rfl, hsep⟩
    have hall : ∀ x ∈ a, decide (x ≠ sep) = true := by
      intro x hx
      simpa using fun he : x = sep => hsep (he ▸ hx)
    have hdrop : (a ++ sep :: b).dropWhile (· ≠ sep) = sep :: b := by
      rw [List.dropWhile_append_of_pos hall]
      simp
    have htake : (a ++ sep :: b).takeWhile (· ≠ sep) = a := by
      rw [List.takeWhile_append_of_pos hall]
      simp
    simp only [cut, hdrop, htake]

theorem cut_eq_none : cut sep xs = none ↔ sep ∉ xs := by
  constructor
  · intro h hmem
    obtain ⟨a, b, rfl, ha⟩ := List.eq_append_cons_of_mem hmem
    rw [cut_eq_some.mpr ⟨rfl, ha⟩] at h
    exact nomatch h
  · intro h
    cases hcut : cut sep xs with
    | none => rfl
    | some ab =>
      rw [(cut_eq_some.mp hcut).1] at h
      simp at h

/-- One more character goes to the part behind the separator. -/
theorem cut_concat (hc : c ≠ sep) (xs : List α) :
    cut sep (xs ++ [c]) = (cut sep xs).map fun ab => (ab.1, ab.2 ++ [c]) := by
  cases hcut : cut sep xs with
  | none =>
    have hsep := cut_eq_none.mp hcut
    rw [cut_eq_none.mpr (by simp [hsep, Ne.symm hc])]
    rfl
  | some ab =>
    obtain ⟨hxs, ha⟩ := cut_eq_some.mp hcut
    rw [hxs]
    exact cut_eq_some.mpr ⟨by simp, ha⟩

/-- What stands before a separator, or all where there is none. -/
def upTo (sep : α) (xs : List α) : List α := xs.takeWhile (· ≠ sep)

theorem upTo_append {a b : List α} (h : sep ∉ a) : upTo sep (a ++ b) = a ++ upTo sep b := by
  have hall : ∀ x ∈ a, decide (x ≠ sep) = true := fun x hx => decide_eq_true fun he => h (he ▸ hx)
  exact List.takeWhile_append_of_pos hall

theorem upTo_cons_self (xs : List α) : upTo sep (sep :: xs) = [] := by
  simp [upTo]

theorem upTo_sep {a b : List α} (h : sep ∉ a) : upTo sep (a ++ sep :: b) = a := by
  rw [upTo_append h, upTo_cons_self, List.append_nil]

theorem upTo_free (h : sep ∉ xs) : upTo sep xs = xs :=
  List.takeWhile_eq_self_iff.mpr fun _ hx => decide_eq_true fun he => h (he ▸ hx)

theorem not_mem_upTo (sep : α) (xs : List α) : sep ∉ upTo sep xs := by
  intro h
  simpa using List.mem_takeWhile_imp h

theorem upTo_start (sep : α) (xs : List α) : upTo sep xs <+: xs := List.takeWhile_prefix _

theorem upTo_cut {a b : List α} (h : cut sep xs = some (a, b)) : upTo sep xs = a := by
  obtain ⟨rfl, hsep⟩ := cut_eq_some.mp h
  exact upTo_sep hsep

theorem upTo_take (sep : α) (xs : List α) (k : Nat) :
    upTo sep (xs.take k) = (upTo sep xs).take k := by
  induction xs generalizing k with
  | nil => simp [upTo]
  | cons x xs ih =>
    cases k with
    | zero => simp [upTo]
    | succ k =>
      by_cases hx : x = sep
      · simp [upTo, hx]
      · have hrest := ih k
        unfold upTo at hrest ⊢
        rw [List.take_succ_cons, List.takeWhile_cons_of_pos (by simpa using hx),
          List.takeWhile_cons_of_pos (by simpa using hx), List.take_succ_cons, hrest]

/-- The parts around a separator when only part of the text is there. -/
theorem cut_take {a b : List α} (h : cut sep xs = some (a, b)) (k : Nat) :
    cut sep (xs.take k) = if a.length < k then some (a, b.take (k - a.length - 1)) else none := by
  obtain ⟨rfl, hsep⟩ := cut_eq_some.mp h
  split
  · rename_i hk
    obtain ⟨j, rfl⟩ := Nat.exists_eq_add_of_lt hk
    apply cut_eq_some.mpr
    rw [Nat.add_assoc, List.take_length_add_append, List.take_succ_cons]
    exact ⟨by simp, hsep⟩
  · rename_i hk
    apply cut_eq_none.mpr
    rw [List.take_append_of_le_length (by omega)]
    exact fun hmem => hsep (List.mem_of_mem_take hmem)

/-- A text that begins without a separator has the rest of its first run in its first token. -/
theorem tokens_run {p : List α} (hp : p ≠ []) (hsep : sep ∉ p) (xs : List α) :
    ∃ rest, rest <:+ xs ∧ tokens sep (p ++ xs) = (p ++ upTo sep xs) :: tokens sep rest := by
  cases hcut : cut sep xs with
  | none =>
    have hxs := cut_eq_none.mp hcut
    refine ⟨[], List.nil_suffix, ?_⟩
    rw [upTo_free hxs, tokens_word (by simp [hp]) (by simp [hsep, hxs]), tokens_nil]
  | some ab =>
    obtain ⟨a, b⟩ := ab
    obtain ⟨rfl, ha⟩ := cut_eq_some.mp hcut
    refine ⟨b, (List.suffix_cons sep b).trans (List.suffix_append a _), ?_⟩
    rw [upTo_sep ha, ← List.append_assoc, tokens_word_sep (by simp [hp]) (by simp [hsep, ha])]

/-- A token stands somewhere in the text. -/
theorem infix_of_mem_tokens (h : w ∈ tokens sep xs) : w <:+: xs := by
  induction hn : xs.length using Nat.strongRecOn generalizing xs with
  | ind n ih =>
    cases hcut : cut sep xs with
    | none =>
      have hsep := cut_eq_none.mp hcut
      cases xs with
      | nil => simp at h
      | cons x xs =>
        rw [tokens_word (List.cons_ne_nil x xs) hsep, List.mem_singleton] at h
        subst h
        exact List.infix_rfl
    | some ab =>
      obtain ⟨a, b⟩ := ab
      obtain ⟨rfl, hsep⟩ := cut_eq_some.mp hcut
      rw [tokens_append_sep] at h
      rcases List.mem_append.mp h with h | h
      · cases a with
        | nil => simp at h
        | cons x a =>
          rw [tokens_word (List.cons_ne_nil x a) hsep, List.mem_singleton] at h
          rw [h]
          exact (List.prefix_append _ _).isInfix
      · have hshort : b.length < n := by
          rw [← hn]
          simp
          omega
        exact (ih _ hshort h rfl).trans ⟨a ++ [sep], [], by simp⟩

theorem length_le_of_mem_tokens (h : w ∈ tokens sep xs) : w.length ≤ xs.length :=
  (infix_of_mem_tokens h).length_le

end Tokens
