import Mathlib.Logic.Relation
import Mathlib.Tactic.Common

/-! # Loops that need not end

A loop is a step on its state that either goes round again or leaves with a
result. `run` cuts it off after a number of passes; what the loop itself does is
read off the loop heads it visits. -/
namespace Loop

universe u

inductive Outcome (σ ρ : Type u) where
  | next (s : σ)
  | done (r : ρ)

variable {σ ρ : Type u} {step : σ → Outcome σ ρ}

def run (step : σ → Outcome σ ρ) : Nat → σ → Option ρ
  | 0, _ => none
  | fuel + 1, s =>
    match step s with
    | .next t => run step fuel t
    | .done r => some r

/-- The loop heads reached from a first one, that one included. -/
def Visits (step : σ → Outcome σ ρ) : σ → σ → Prop :=
  Relation.ReflTransGen fun s t => step s = .next t

def Terminates (step : σ → Outcome σ ρ) (s : σ) : Prop := ∃ fuel r, run step fuel s = some r

theorem run_next {s t : σ} (h : step s = .next t) (fuel : Nat) :
    run step (fuel + 1) s = run step fuel t := by
  simp only [run, h]

theorem run_done {s : σ} {r : ρ} (h : step s = .done r) (fuel : Nat) :
    run step (fuel + 1) s = some r := by
  simp only [run, h]

theorem run_more {n : Nat} {s : σ} {r : ρ} (h : run step n s = some r) {m : Nat} (hm : n ≤ m) :
    run step m s = some r := by
  induction n generalizing s m with
  | zero => cases h
  | succ n ih =>
    obtain ⟨m, rfl⟩ : ∃ k, m = k + 1 := ⟨m - 1, by omega⟩
    cases hs : step s with
    | next t =>
      rw [run_next hs] at h ⊢
      exact ih h (by omega)
    | done q =>
      rw [run_done hs] at h ⊢
      exact h

theorem run_unique {n m : Nat} {s : σ} {r q : ρ}
    (hn : run step n s = some r) (hm : run step m s = some q) : r = q := by
  have h := run_more hn (Nat.le_max_left n m)
  rw [run_more hm (Nat.le_max_right n m)] at h
  exact (Option.some.inj h).symm

/-- The result a loop leaves with is that of the last head it visits. -/
theorem run_last {n : Nat} {s : σ} {r : ρ} (h : run step n s = some r) :
    ∃ t, Visits step s t ∧ step t = .done r := by
  induction n generalizing s with
  | zero => cases h
  | succ n ih =>
    cases hs : step s with
    | next t =>
      rw [run_next hs] at h
      obtain ⟨u, hv, hu⟩ := ih h
      exact ⟨u, .head hs hv, hu⟩
    | done q =>
      rw [run_done hs] at h
      exact ⟨s, .refl, by rw [hs, Option.some.inj h]⟩

theorem run_of_last {s t : σ} {r : ρ} (hv : Visits step s t) (ht : step t = .done r) :
    ∃ n, run step n s = some r := by
  induction hv using Relation.ReflTransGen.head_induction_on with
  | refl => exact ⟨1, run_done ht 0⟩
  | head hs _ ih =>
    obtain ⟨n, hn⟩ := ih
    exact ⟨n + 1, by rw [run_next hs, hn]⟩

/-- A loop that ends does so from each head it visits, with the same result. -/
theorem run_visited {n : Nat} {s t : σ} {r : ρ} (hv : Visits step s t)
    (h : run step n s = some r) : ∃ m, run step m t = some r := by
  induction hv using Relation.ReflTransGen.head_induction_on generalizing n with
  | refl => exact ⟨n, h⟩
  | head hs _ ih =>
    cases n with
    | zero => cases h
    | succ n =>
      rw [run_next hs] at h
      exact ih h

theorem visits_invariant {P : σ → Prop} {s t : σ} (hv : Visits step s t) (h0 : P s)
    (hP : ∀ a b, Visits step s a → P a → step a = .next b → P b) : P t := by
  induction hv with
  | refl => exact h0
  | tail hab hbc ih => exact hP _ _ hab ih hbc

/-- A loop whose every pass lowers a measure ends within that many passes. -/
theorem run_of_measure (μ : σ → Nat) {s : σ}
    (h : ∀ a b, Visits step s a → step a = .next b → μ b < μ a) {n : Nat} (hn : μ s < n) :
    ∃ r, run step n s = some r := by
  induction n generalizing s with
  | zero => omega
  | succ n ih =>
    cases hs : step s with
    | next t =>
      have hlt := h s t .refl hs
      rw [run_next hs]
      exact ih (fun a b ha => h a b (.head hs ha)) (by omega)
    | done r => exact ⟨r, run_done hs n⟩

/-- A property that every pass keeps, and under which no pass leaves, holds the
loop forever. -/
theorem run_none_of_trap {P : σ → Prop} (h : ∀ s, P s → ∃ t, step s = .next t ∧ P t)
    {s : σ} (hs : P s) (n : Nat) : run step n s = none := by
  induction n generalizing s with
  | zero => rfl
  | succ n ih =>
    obtain ⟨t, ht, hP⟩ := h s hs
    rw [run_next ht]
    exact ih hP

theorem not_terminates_of_trap {P : σ → Prop} (h : ∀ s, P s → ∃ t, step s = .next t ∧ P t)
    {s t : σ} (hv : Visits step s t) (ht : P t) : ¬ Terminates step s := by
  rintro ⟨n, r, hr⟩
  induction hv using Relation.ReflTransGen.head_induction_on generalizing n with
  | refl => simp [run_none_of_trap h ht] at hr
  | head hs _ ih =>
    cases n with
    | zero => cases hr
    | succ n =>
      rw [run_next hs] at hr
      exact ih n hr

end Loop
