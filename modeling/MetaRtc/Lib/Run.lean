import Mathlib.Tactic.Common

/-! # Properties of the steps of a run

A run is a list of events taken from a state on. A property of steps holds throughout
when it holds at each event, in whatever state the events before have led to. -/
namespace Run

universe u v

variable {σ : Type u} {ε : Type v} (step : σ → ε → σ → Prop)

def Throughout (P : σ → ε → Prop) : List ε → σ → Prop
  | [], _ => True
  | e :: es, s => P s e ∧ ∀ t, step s e t → Throughout P es t

/-- The states a run may end in. -/
inductive Leads : List ε → σ → σ → Prop where
  | nil (s : σ) : Leads [] s s
  | cons {e : ε} {es : List ε} {s t u : σ} : step s e t → Leads es t u → Leads (e :: es) s u

variable {step}

/-- A condition on each step, with an invariant that it keeps, gives a property of each
step: the step lemma lifted to runs. -/
theorem throughout_imp {P Q : σ → ε → Prop} (Inv : σ → Prop)
    (hQ : ∀ s e, Inv s → P s e → Q s e)
    (hI : ∀ s e t, Inv s → P s e → step s e t → Inv t)
    {es : List ε} {s : σ} (hs : Inv s) (h : Throughout step P es s) : Throughout step Q es s := by
  induction es generalizing s with
  | nil => trivial
  | cons e es ih =>
    obtain ⟨he, hes⟩ := h
    refine ⟨hQ s e hs he, ?_⟩
    intro t ht
    exact ih (hI s e t hs he ht) (hes t ht)

theorem throughout_congr {P Q : σ → ε → Prop} (hPQ : ∀ s e, P s e ↔ Q s e) {es : List ε} {s : σ} :
    Throughout step P es s ↔ Throughout step Q es s := by
  induction es generalizing s with
  | nil => rfl
  | cons e es ih => exact and_congr (hPQ s e) (forall_congr' fun t => imp_congr_right fun _ => ih)

theorem throughout_leads {P : σ → ε → Prop} {es fs : List ε} {s t : σ} (hl : Leads step es s t)
    (h : Throughout step P (es ++ fs) s) : Throughout step P fs t := by
  induction hl with
  | nil => exact h
  | cons hst _ ih => exact ih (h.2 _ hst)

theorem leads_concat {e : ε} {es : List ε} {s t u : σ} (hl : Leads step es s t) (h : step t e u) :
    Leads step (es ++ [e]) s u := by
  induction hl with
  | nil => exact .cons h (.nil u)
  | cons hst _ ih => exact .cons hst (ih h)

/-- Where an event leads to one state only, the rest of the run starts there. -/
theorem throughout_cons {P : σ → ε → Prop} {e : ε} {es : List ε} {s t : σ}
    (ht : ∀ u, step s e u → u = t) (he : P s e) (hes : Throughout step P es t) :
    Throughout step P (e :: es) s := by
  refine ⟨he, fun u hu => ?_⟩
  rw [ht u hu]
  exact hes

theorem throughout_of_forall {P : σ → ε → Prop} (h : ∀ s e, P s e) {es : List ε} {s : σ} :
    Throughout step P es s := by
  induction es generalizing s with
  | nil => trivial
  | cons e es ih => exact ⟨h s e, fun _ _ => ih⟩

/-- A property of the events alone holds throughout if it holds of each, where each that has it
leads on. -/
theorem throughout_forall {P : ε → Prop} (hstep : ∀ s e, P e → ∃ t, step s e t) {es : List ε}
    {s : σ} : Throughout step (fun _ e => P e) es s ↔ ∀ e ∈ es, P e := by
  induction es generalizing s with
  | nil => exact iff_of_true trivial fun _ h => absurd h List.not_mem_nil
  | cons e es ih =>
    rw [List.forall_mem_cons]
    constructor
    · rintro ⟨he, hes⟩
      obtain ⟨t, ht⟩ := hstep s e he
      exact ⟨he, ih.mp (hes t ht)⟩
    · rintro ⟨he, hes⟩
      exact ⟨he, fun t _ => ih.mpr hes⟩

/-- An invariant that every step meeting the condition keeps holds in the states such a
run ends in. -/
theorem leads_invariant {P : σ → ε → Prop} (Inv : σ → Prop)
    (hI : ∀ s e t, Inv s → P s e → step s e t → Inv t) {es : List ε} {s t : σ}
    (hl : Leads step es s t) (hs : Inv s) (h : Throughout step P es s) : Inv t := by
  induction hl with
  | nil => exact hs
  | cons hst _ ih => exact ih (hI _ _ _ hs h.1 hst) (h.2 _ hst)

end Run
