import Mathlib.Data.Nat.Notation
import Mathlib.Tactic.Common

/-!
# Loops that end

A `Loop` repeats a step until the step has a result. It carries the measure that every further step
makes smaller, so that a run of it is a total function (`Loop.run`). What is known of the results
follows from an invariant of the steps (`Loop.rule`), or by induction on the run (`Loop.induct`).
-/

namespace Extern

/-- A step that leads to the next state or to the result, and the reason why it ends. -/
structure Loop (S R : Type) where
  step : S → S ⊕ R
  measure : S → ℕ
  decreases : ∀ s s', step s = .inl s' → measure s' < measure s

namespace Loop

variable {S R : Type} {s s' : S} {r : R}

/-- The result of the loop from the state `s`. -/
def run (l : Loop S R) (s : S) : R :=
  match _h : l.step s with
  | .inl s' => l.run s'
  | .inr r => r
termination_by l.measure s
decreasing_by exact l.decreases _ _ _h

theorem run_of_stop (l : Loop S R) (h : l.step s = .inr r) : l.run s = r := by
  unfold run
  split
  next s' h' => cases h.symm.trans h'
  next r' h' => exact (Sum.inr.inj (h.symm.trans h')).symm

theorem run_of_next (l : Loop S R) (h : l.step s = .inl s') : l.run s = l.run s' := by
  rw [run.eq_def l s]
  split
  next s₁ h' => rw [Sum.inl.inj (h'.symm.trans h)]
  next r h' => cases h.symm.trans h'

/-- Induction on a run. -/
theorem induct (l : Loop S R) {motive : S → R → Prop}
    (stop : ∀ s r, l.step s = .inr r → motive s r)
    (next : ∀ s s', l.step s = .inl s' → motive s' (l.run s') → motive s (l.run s')) (s : S) :
    motive s (l.run s) := by
  cases h : l.step s with
  | inr r =>
    rw [l.run_of_stop h]
    exact stop s r h
  | inl s' =>
    rw [l.run_of_next h]
    exact next s s' h (induct l stop next s')
termination_by l.measure s
decreasing_by exact l.decreases _ _ h

/-- **The rule for loops**: what the steps keep holds until the end. -/
theorem rule (l : Loop S R) {Inv : S → Prop} {Post : R → Prop}
    (hnext : ∀ s s', Inv s → l.step s = .inl s' → Inv s')
    (hstop : ∀ s r, Inv s → l.step s = .inr r → Post r) (hinv : Inv s) : Post (l.run s) := by
  revert hinv
  apply l.induct (motive := fun s r => Inv s → Post r)
  · intro s r h hinv
    exact hstop s r hinv h
  · intro s s' h ih hinv
    exact ih (hnext s s' hinv h)

/-- The states that a run from `s` passes. -/
inductive Passes (l : Loop S R) (s : S) : S → Prop
  | start : Passes l s s
  | next {s₁ s₂ : S} (h : Passes l s s₁) (hstep : l.step s₁ = .inl s₂) : Passes l s s₂

/-- The result of a run is the one of the last state it passes. -/
theorem passes_last (l : Loop S R) (s : S) : ∃ s', l.Passes s s' ∧ l.step s' = .inr (l.run s) := by
  have h : ∀ s₁, l.Passes s s₁ → ∃ s', l.Passes s s' ∧ l.step s' = .inr (l.run s₁) := by
    intro s₁
    apply l.induct (motive := fun s₁ r => l.Passes s s₁ → ∃ s', l.Passes s s' ∧ l.step s' = .inr r)
    · intro s₁ r hstop hpasses
      exact ⟨s₁, hpasses, hstop⟩
    · intro s₁ s₂ hnext ih hpasses
      exact ih (hpasses.next hnext)
  exact h s .start

/-- What the steps keep holds in all states of a run. -/
theorem Passes.rule {l : Loop S R} {I : S → Prop}
    (hnext : ∀ s s', I s → l.step s = .inl s' → I s') (h : l.Passes s s') (hinv : I s) : I s' := by
  induction h with
  | start => exact hinv
  | next _ hstep ih => exact hnext _ _ ih hstep

end Loop

end Extern
