import MetaRtc.Lib.Run

/-! # Calls that may not come back

A call returns a value, waits forever for a lock, or does what the language gives no
meaning to: follows a null pointer, writes past an object. -/
namespace Exec

universe u v

inductive Call (α : Type u) where
  | ret (a : α)
  | blocked
  | crash
  deriving DecidableEq

namespace Call

variable {α β : Type u}

def bind (x : Call α) (f : α → Call β) : Call β :=
  match x with
  | .ret a => f a
  | .blocked => .blocked
  | .crash => .crash

instance : Monad Call where
  pure := .ret
  bind := bind

@[simp] theorem pure_eq (a : α) : (pure a : Call α) = .ret a := rfl
@[simp] theorem ret_bind (a : α) (f : α → Call β) : (Call.ret a >>= f) = f a := rfl
@[simp] theorem blocked_bind (f : α → Call β) : (Call.blocked >>= f) = .blocked := rfl
@[simp] theorem crash_bind (f : α → Call β) : (Call.crash >>= f) = .crash := rfl

theorem bind_assoc {γ : Type u} (x : Call α) (f : α → Call β) (g : β → Call γ) :
    (x >>= f) >>= g = x >>= fun a => f a >>= g := by
  cases x <;> rfl

/-- A sequence returns only through a return of its first part. -/
theorem bind_eq_ret {x : Call α} {f : α → Call β} {b : β} :
    (x >>= f) = .ret b ↔ ∃ a, x = .ret a ∧ f a = .ret b := by
  cases x with
  | ret a => simp
  | blocked => simp
  | crash => simp

/-- With less room a call does the same, or passes the end of something. -/
def Narrows (x y : Call α) : Prop := x = .crash ∨ x = y

theorem Narrows.refl (x : Call α) : Narrows x x := .inr rfl

theorem Narrows.bind {x y : Call α} {f g : α → Call β} (h : Narrows x y)
    (hf : ∀ a, Narrows (f a) (g a)) : Narrows (x >>= f) (y >>= g) := by
  rcases h with rfl | rfl
  · exact .inl rfl
  · cases x with
    | ret a => exact hf a
    | blocked => exact .inr rfl
    | crash => exact .inl rfl

/-- Follow a pointer. -/
def deref (p : Option α) : Call α :=
  match p with
  | some a => .ret a
  | none => .crash

@[simp] theorem deref_some (a : α) : deref (some a) = .ret a := rfl

theorem deref_eq_ret {p : Option α} {a : α} : deref p = .ret a ↔ p = some a := by
  cases p <;> simp [deref]

theorem deref_ne_crash {p : Option α} (h : p.isSome) : deref p ≠ .crash := by
  obtain ⟨a, rfl⟩ := Option.isSome_iff_exists.mp h
  simp

theorem bind_ne_crash {x : Call α} {f : α → Call β} (hx : x ≠ .crash)
    (hf : ∀ a, x = .ret a → f a ≠ .crash) : (x >>= f) ≠ .crash := by
  cases x with
  | ret a => exact hf a rfl
  | blocked => simp
  | crash => exact absurd rfl hx

/-- Neither call returns, for the same reason. -/
inductive Stops : Call α → Call β → Prop
  | blocked : Stops .blocked .blocked
  | crash : Stops .crash .crash

/-- The first call stops as the second does, or it returns a value with that property. -/
def Settles (x : Call α) (y : Call β) (P : α → Prop) : Prop := Stops x y ∨ ∃ a, x = .ret a ∧ P a

theorem stops_bind {γ : Type u} {x : Call α} {y : Call β} (h : Stops x y) (f : α → Call γ) :
    Stops (x >>= f) y := by
  cases h with
  | blocked => exact .blocked
  | crash => exact .crash

theorem stops_bind_right {γ : Type u} {x : Call α} {y : Call β} (h : Stops x y)
    (f : β → Call γ) : Stops x (y >>= f) := by
  cases h with
  | blocked => exact .blocked
  | crash => exact .crash

theorem stops_eq {γ : Type u} {x : Call α} {y : Call β} (h : Stops x y) (f : α → Call γ)
    (g : β → Call γ) : (x >>= f) = (y >>= g) := by
  cases h with
  | blocked => rfl
  | crash => rfl

theorem settles_bind {γ : Type u} {x : Call α} {y : Call β} {P : α → Prop} {Q : γ → Prop}
    {f : α → Call γ} (h : Settles x y P) (hf : ∀ a, P a → Settles (f a) y Q) :
    Settles (x >>= f) y Q := by
  rcases h with hstop | ⟨a, rfl, ha⟩
  · exact .inl (stops_bind hstop f)
  · exact hf a ha

end Call

section Returns

/-! Whether a call comes back, part by part. -/

variable {α β : Type u}

theorem bind_returns {x : Call α} {f : α → Call β} :
    (∃ b, (x >>= f) = .ret b) ↔ ∃ a, x = .ret a ∧ ∃ b, f a = .ret b := by
  constructor
  · rintro ⟨b, hb⟩
    obtain ⟨a, ha, hrest⟩ := Call.bind_eq_ret.mp hb
    exact ⟨a, ha, b, hrest⟩
  · rintro ⟨a, ha, b, hb⟩
    exact ⟨b, Call.bind_eq_ret.mpr ⟨a, ha, hb⟩⟩

theorem ret_returns {a : α} : (∃ b, (Call.ret a : Call α) = .ret b) ↔ True :=
  iff_of_true ⟨a, rfl⟩ trivial

theorem ite_returns {x y : Call α} {c P Q : Prop} [Decidable c] (hx : (∃ a, x = .ret a) ↔ P)
    (hy : (∃ a, y = .ret a) ↔ Q) : (∃ a, (if c then x else y) = .ret a) ↔ if c then P else Q := by
  split
  · exact hx
  · exact hy

theorem deref_returns {p : Option α} {f : α → Call β} :
    (∃ b, (Call.deref p >>= f) = .ret b) ↔ ∃ a, p = some a ∧ ∃ b, f a = .ret b := by
  simp only [bind_returns, Call.deref_eq_ret]

/-- A part that is there exactly under a condition. -/
theorem guarded_returns {x : Call α} {f : α → Call β} {P : Prop} {a : α} (h : P → x = .ret a)
    (hnot : ¬P → x = .crash) :
    (∃ b, (x >>= f) = .ret b) ↔ P ∧ ∃ b, f a = .ret b := by
  by_cases hp : P
  · rw [h hp, Call.ret_bind, and_iff_right hp]
  · rw [hnot hp, Call.crash_bind]
    refine iff_of_false ?_ fun hboth => hp hboth.1
    rintro ⟨b, hb⟩
    cases hb

end Returns

section Runs

/-! Where each event is a call, a run is one as well. -/

variable {σ ε : Type u} {run : σ → ε → Call σ} {P : σ → ε → Prop} {e : ε} {es : List ε} {s t : σ}

theorem leads_of_foldlM (h : es.foldlM run s = .ret t) :
    Run.Leads (fun s e s' => run s e = .ret s') es s t := by
  induction es generalizing s with
  | nil =>
    cases h
    exact .nil _
  | cons e es ih =>
    rw [List.foldlM_cons] at h
    obtain ⟨mid, hone, hrest⟩ := Call.bind_eq_ret.mp h
    exact .cons hone (ih hrest)

theorem throughout_call (he : P s e) (hone : run s e = .ret t)
    (hes : Run.Throughout (fun s e s' => run s e = .ret s') P es t) :
    Run.Throughout (fun s e s' => run s e = .ret s') P (e :: es) s :=
  Run.throughout_cons (fun _ hu => Call.ret.inj (hu.symm.trans hone)) he hes

/-- A run of calls returns exactly when each call does where the ones before it have led. -/
theorem foldlM_returns : (∃ t, es.foldlM run s = .ret t) ↔
    Run.Throughout (fun s e s' => run s e = .ret s') (fun s e => ∃ t, run s e = .ret t) es s := by
  induction es generalizing s with
  | nil => exact iff_of_true ⟨s, rfl⟩ trivial
  | cons e es ih =>
    rw [List.foldlM_cons]
    constructor
    · rintro ⟨t, ht⟩
      obtain ⟨mid, hone, hrest⟩ := Call.bind_eq_ret.mp ht
      exact throughout_call ⟨mid, hone⟩ hone (ih.mp ⟨t, hrest⟩)
    · rintro ⟨⟨mid, hone⟩, hes⟩
      obtain ⟨t, ht⟩ := ih.mpr (hes mid hone)
      exact ⟨t, Call.bind_eq_ret.mpr ⟨mid, hone, ht⟩⟩

end Runs

end Exec
