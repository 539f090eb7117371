import Mathlib.Tactic.Common

/-!
# Runs of a step function

A run takes a list of inputs one after the other. `Along` says that every step is taken under a
condition on the input and the state before it; `Throughout` says that a property holds in every
state reached. The rules derive the second from the first, for a condition that preserves the
property and for one that decides it.
-/

namespace AmebaRtos.Lib

section Runs

variable {σ α : Type*} (step : σ → α → σ)

/-- Every step of the run is taken under the condition. -/
def Along (cond : σ → α → Prop) : σ → List α → Prop
  | _, [] => True
  | s, a :: rest => cond s a ∧ Along cond (step s a) rest

instance decidableAlong (cond : σ → α → Prop) [∀ s a, Decidable (cond s a)] :
    ∀ s ops, Decidable (Along step cond s ops)
  | _, [] => isTrue trivial
  | s, a :: rest =>
    have := decidableAlong cond (step s a) rest
    inferInstanceAs (Decidable (_ ∧ _))

/-- The property holds in every state of the run, the first one included. -/
def Throughout (inv : σ → Prop) : σ → List α → Prop
  | s, [] => inv s
  | s, a :: rest => inv s ∧ Throughout inv (step s a) rest

variable {step} {cond : σ → α → Prop}

theorem Throughout.first (h : Throughout step inv s ops) : inv s := by
  cases ops with
  | nil => exact h
  | cons a rest => exact h.1

theorem Throughout.last (h : Throughout step inv s ops) : inv (ops.foldl step s) := by
  induction ops generalizing s with
  | nil => exact h
  | cons a rest ih => exact ih h.2

theorem Throughout.mono (himp : ∀ s, inv s → inv' s) (h : Throughout step inv s ops) :
    Throughout step inv' s ops := by
  induction ops generalizing s with
  | nil => exact himp s h
  | cons a rest ih => exact ⟨himp s h.1, ih h.2⟩

theorem along_of_forall (h : ∀ a ∈ ops, ∀ s, cond s a) : Along step cond s ops := by
  induction ops generalizing s with
  | nil => trivial
  | cons a rest ih =>
    exact ⟨h a (.head _) s, ih fun b hb => h b (.tail a hb)⟩

theorem along_append (h : Along step cond s ops) (h' : Along step cond (ops.foldl step s) ops') :
    Along step cond s (ops ++ ops') := by
  induction ops generalizing s with
  | nil => exact h'
  | cons a rest ih => exact ⟨h.1, ih h.2 h'⟩

theorem Along.mono (himp : ∀ s a, cond s a → cond' s a) (h : Along step cond s ops) :
    Along step cond' s ops := by
  induction ops generalizing s with
  | nil => trivial
  | cons a rest ih => exact ⟨himp s a h.1, ih h.2⟩

theorem Along.and (h : Along step cond s ops) (h' : Along step cond' s ops) :
    Along step (fun s a => cond s a ∧ cond' s a) s ops := by
  induction ops generalizing s with
  | nil => trivial
  | cons a rest ih => exact ⟨⟨h.1, h'.1⟩, ih h.2 h'.2⟩

theorem Along.throughout (hkeep : ∀ s a, inv s → cond s a → inv (step s a)) (hinit : inv s)
    (h : Along step cond s ops) : Throughout step inv s ops := by
  induction ops generalizing s with
  | nil => exact hinit
  | cons a rest ih => exact ⟨hinit, ih (hkeep s a hinit h.1) h.2⟩

/-- For runs that meet a premise, and a property that follows from a stronger one: if the condition
    keeps the stronger one, and no step against it keeps the property, then the property holds
    throughout exactly the runs along the condition. -/
theorem throughout_iff_along_under {strong : σ → Prop} (hinv : ∀ s, strong s → inv s)
    (hkeep : ∀ s a, strong s → premise s a → cond s a → strong (step s a))
    (hneed : ∀ s a, strong s → premise s a → inv (step s a) → cond s a) (hinit : strong s)
    (hops : Along step premise s ops) : Throughout step inv s ops ↔ Along step cond s ops := by
  induction ops generalizing s with
  | nil => exact ⟨fun _ => trivial, fun _ => hinv s hinit⟩
  | cons a rest ih =>
    constructor
    · rintro ⟨_, hrest⟩
      have hcond := hneed s a hinit hops.1 hrest.first
      exact ⟨hcond, (ih (hkeep s a hinit hops.1 hcond) hops.2).mp hrest⟩
    · rintro ⟨hcond, hrest⟩
      exact ⟨hinv s hinit, (ih (hkeep s a hinit hops.1 hcond) hops.2).mpr hrest⟩

theorem throughout_iff_along_of_strong {strong : σ → Prop} (hinv : ∀ s, strong s → inv s)
    (hkeep : ∀ s a, strong s → cond s a → strong (step s a))
    (hneed : ∀ s a, strong s → inv (step s a) → cond s a) (hinit : strong s) :
    Throughout step inv s ops ↔ Along step cond s ops :=
  throughout_iff_along_under hinv (fun s a hs _ => hkeep s a hs) (fun s a hs _ => hneed s a hs)
    hinit (along_of_forall (fun _ _ _ => trivial : ∀ a ∈ ops, ∀ _ : σ, (fun _ _ => True) _ a))

/-- If the condition decides whether a step keeps the property, the property holds throughout
    exactly the runs that meet the condition along the way. -/
theorem throughout_iff_along (hstep : ∀ s a, inv s → (inv (step s a) ↔ cond s a)) (hinit : inv s) :
    Throughout step inv s ops ↔ Along step cond s ops :=
  throughout_iff_along_of_strong (fun _ h => h) (fun s a h => (hstep s a h).mpr)
    (fun s a h => (hstep s a h).mp) hinit

end Runs

end AmebaRtos.Lib
