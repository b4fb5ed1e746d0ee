import MetaRtc.Lib.Exec

/-! # Programs over operations

A program performs one operation after the other, and which comes next depends on the values of
those before. Each operation has a meaning where it is allowed, and none elsewhere. -/
namespace Ops

open Exec

/-- Operations `ω` with values in `ν`. -/
inductive Prog (ω ν α : Type) : Type where
  | done (a : α)
  | op (o : ω) (next : ν → Prog ω ν α)

section Compose

variable {ω ν α β : Type}

def Prog.bind : Prog ω ν α → (α → Prog ω ν β) → Prog ω ν β
  | .done a, f => f a
  | .op o next, f => .op o fun v => (next v).bind f

instance : Monad (Prog ω ν) where
  pure := .done
  bind := Prog.bind

/-- One operation. -/
def perform (o : ω) : Prog ω ν ν := .op o .done

/-- The same program a number of times. -/
def times (x : Prog ω ν Unit) : Nat → Prog ω ν Unit
  | 0 => pure ()
  | n + 1 => do
    x
    times x n

end Compose

section Run

variable {ω ν α σ : Type} (step : σ → ω → Call (ν × σ)) (meaning : σ → ω → ν × σ)

def run : Prog ω ν α → σ → Call (α × σ)
  | .done a, s => .ret (a, s)
  | .op o next, s => step s o >>= fun r => run (next r.1) r.2

/-- All operations that a program comes to are allowed. -/
def Allowed (P : σ → ω → Prop) : Prog ω ν α → σ → Prop
  | .done _, _ => True
  | .op o next, s => P s o ∧ Allowed P (next (meaning s o).1) (meaning s o).2

variable {step} {meaning} {P : σ → ω → Prop}

/-- What no operation undoes holds at the end. -/
theorem run_keeps {Q : σ → Prop}
    (hQ : ∀ s o v t, Q s → step s o = .ret (v, t) → Q t) {p : Prog ω ν α} {s t : σ} {a : α}
    (h : run step p s = .ret (a, t)) (hs : Q s) : Q t := by
  induction p generalizing s with
  | done b =>
    cases h
    exact hs
  | op o next ih =>
    obtain ⟨⟨v, mid⟩, hone, hrest⟩ := Call.bind_eq_ret.mp h
    exact ih v hrest (hQ s o v mid hs hone)

/-- Where an operation stops what is not allowed or spoils what has to hold at the end, a program
comes to its end with that exactly if all its operations are allowed. -/
theorem run_allowed {Q : σ → Prop} (hQ : ∀ s o v t, ¬Q s → step s o = .ret (v, t) → ¬Q t)
    (hallowed : ∀ s o, Q s → P s o → step s o = .ret (meaning s o) ∧ Q (meaning s o).2)
    (hother : ∀ s o v t, Q s → ¬P s o → step s o = .ret (v, t) → ¬Q t) {p : Prog ω ν α} {s : σ}
    (hs : Q s) : (∃ r, run step p s = .ret r ∧ Q r.2) ↔ Allowed meaning P p s := by
  induction p generalizing s with
  | done a => exact iff_of_true ⟨_, rfl, hs⟩ trivial
  | op o next ih =>
    by_cases ho : P s o
    · obtain ⟨hstep, hnext⟩ := hallowed s o hs ho
      unfold run Allowed
      rw [hstep, Call.ret_bind, and_iff_right ho]
      exact ih _ hnext
    · refine iff_of_false ?_ fun h => ho h.1
      rintro ⟨⟨a, t⟩, hrun, ht⟩
      obtain ⟨⟨v, mid⟩, hone, hrest⟩ := Call.bind_eq_ret.mp hrun
      exact run_keeps (Q := fun s => ¬Q s) hQ hrest (hother s o v mid hs ho hone) ht

end Run

end Ops
