import Mathlib.Data.Nat.Notation

/-!
Runs of a machine whose steps may be refused: what a list of actions leads to when every step meets
a condition on the state before it, and the rule for what such runs keep.
-/

namespace Goav.Lib

variable {S A : Type*}

/-- What the machine reaches by steps that all meet the guard. -/
inductive Runs (act : S → A → Option S) (guard : S → A → Prop) (s₀ : S) : S → Prop
  | refl : Runs act guard s₀ s₀
  | step {s s' : S} {a : A} (before : Runs act guard s₀ s) (meets : guard s a)
      (moved : act s a = some s') : Runs act guard s₀ s'

section

variable {act : S → A → Option S} {guard : S → A → Prop} {s₀ s : S}

/-- **The invariant rule.** -/
theorem Runs.invariant (I : S → Prop) (h₀ : I s₀)
    (hstep : ∀ {s a s'}, I s → guard s a → act s a = some s' → I s') (h : Runs act guard s₀ s) :
    I s := by
  induction h with
  | refl => exact h₀
  | step _ meets moved ih => exact hstep ih meets moved

theorem Runs.mono {guard' : S → A → Prop} (himp : ∀ {s a}, guard s a → guard' s a)
    (h : Runs act guard s₀ s) : Runs act guard' s₀ s := by
  induction h with
  | refl => exact .refl
  | step _ meets moved ih => exact ih.step (himp meets) moved

theorem Runs.trans {s' : S} (h : Runs act guard s₀ s) (h' : Runs act guard s s') :
    Runs act guard s₀ s' := by
  induction h' with
  | refl => exact h
  | step _ meets moved ih => exact ih.step meets moved

def exec (act : S → A → Option S) (guard : S → A → Prop) [∀ s a, Decidable (guard s a)] :
    S → List A → Option S
  | s, [] => some s
  | s, a :: as => if guard s a then (act s a).bind fun s => exec act guard s as else none

theorem Runs.exec [∀ s a, Decidable (guard s a)] (as : List A) :
    ∀ {s s' : S}, Runs act guard s₀ s → exec act guard s as = some s' → Runs act guard s₀ s' := by
  induction as with
  | nil =>
    intro s s' h heq
    exact Option.some.inj heq ▸ h
  | cons a as ih =>
    intro s s' h heq
    rw [Lib.exec] at heq
    split at heq
    · rename_i meets
      obtain ⟨s₁, moved, hrest⟩ := Option.bind_eq_some_iff.mp heq
      exact ih (h.step meets moved) hrest
    · simp at heq

end

end Goav.Lib
