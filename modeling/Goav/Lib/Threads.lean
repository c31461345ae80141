import Mathlib.Algebra.BigOperators.Group.Finset.Basic

/-!
Threads that share a state and take atomic steps in any order. `Reaches.outline` is the rule of local
outlines: an invariant and an assertion for each thread hold if every step keeps them and those of the
others.
-/

namespace Goav.Lib

variable {S T A : Type*}

/-- A shared state, and one of each thread. -/
structure Threads (S T : Type*) where
  shared : S
  own : ℕ → T

/-- A step of thread `t`: the action, on the shared state and the thread's own. -/
def Threads.step (act : ℕ → A → S → T → Option (S × T)) (c : Threads S T) (t : ℕ) (a : A) :
    Option (Threads S T) :=
  (act t a c.shared (c.own t)).map fun r => { shared := r.1, own := Function.update c.own t r.2 }

/-- What an interleaving reaches whose steps all meet the guard. -/
inductive Reaches (act : ℕ → A → S → T → Option (S × T)) (guard : ℕ → A → S → T → Prop)
    (c₀ : Threads S T) : Threads S T → Prop
  | refl : Reaches act guard c₀ c₀
  | step {c c' : Threads S T} {t : ℕ} {a : A} (before : Reaches act guard c₀ c)
      (meets : guard t a c.shared (c.own t)) (moved : c.step act t a = some c') :
      Reaches act guard c₀ c'

section

variable {act : ℕ → A → S → T → Option (S × T)} {guard : ℕ → A → S → T → Prop} {c₀ : Threads S T}
  {c : Threads S T}

/-- **The outline rule.** -/
theorem Reaches.outline (G : S → Prop) (L : ℕ → S → T → Prop) (h₀ : G c₀.shared)
    (h₀' : ∀ t, L t c₀.shared (c₀.own t))
    (own : ∀ {t a s l s' l'}, G s → L t s l → guard t a s l → act t a s l = some (s', l') → G s' ∧ L t s' l')
    (others : ∀ {t a s l s' l'}, G s → L t s l → guard t a s l → act t a s l = some (s', l') →
      ∀ {t' m}, t' ≠ t → L t' s m → L t' s' m) (h : Reaches act guard c₀ c) :
    G c.shared ∧ ∀ t, L t c.shared (c.own t) := by
  induction h with
  | refl => exact ⟨h₀, h₀'⟩
  | @step c c' t a before meets moved ih =>
    obtain ⟨⟨s', l'⟩, hact, rfl⟩ := Option.map_eq_some_iff.mp moved
    obtain ⟨hG, hL⟩ := ih
    have hown := own hG (hL t) meets hact
    refine ⟨hown.1, fun t' => ?_⟩
    by_cases ht : t' = t
    · subst ht
      simpa using hown.2
    · simpa [Function.update_of_ne ht] using others hG (hL t) meets hact ht (hL t')

theorem Reaches.trans {c' : Threads S T} (h : Reaches act guard c₀ c)
    (h' : Reaches act guard c c') : Reaches act guard c₀ c' := by
  induction h' with
  | refl => exact h
  | step _ meets moved ih => exact ih.step meets moved

theorem Reaches.own_eq (h : Reaches act guard c₀ c) : ∃ N, ∀ t, N ≤ t → c.own t = c₀.own t := by
  induction h with
  | refl => exact ⟨0, fun _ _ => rfl⟩
  | @step c c' t a before meets moved ih =>
    obtain ⟨N, hN⟩ := ih
    obtain ⟨_, -, rfl⟩ := Option.map_eq_some_iff.mp moved
    refine ⟨max N (t + 1), fun u hu => ?_⟩
    rw [← hN u (by omega)]
    exact Function.update_of_ne (by omega) _ _

def Threads.exec (act : ℕ → A → S → T → Option (S × T)) (guard : ℕ → A → S → T → Prop)
    [∀ t a s l, Decidable (guard t a s l)] : Threads S T → List (ℕ × A) → Option (Threads S T)
  | c, [] => some c
  | c, (t, a) :: steps =>
    if guard t a c.shared (c.own t) then
      match c.step act t a with
      | some c => exec act guard c steps
      | none => none
    else none

theorem Reaches.exec [∀ t a s l, Decidable (guard t a s l)] (steps : List (ℕ × A)) :
    ∀ {c c' : Threads S T}, Reaches act guard c₀ c → c.exec act guard steps = some c' →
      Reaches act guard c₀ c' := by
  induction steps with
  | nil =>
    intro c c' h heq
    exact Option.some.inj heq ▸ h
  | cons x steps ih =>
    intro c c' h heq
    rw [Threads.exec] at heq
    split at heq
    · rename_i meets
      split at heq
      · rename_i c₁ moved
        exact ih (h.step meets moved) heq
      · simp at heq
    · simp at heq

/-- **Every interleaving ends** when every step lowers the rank of one of the first `n` threads. -/
theorem Threads.length_exec_le [∀ t a s l, Decidable (guard t a s l)] (rank : T → ℕ) (n : ℕ)
    (lowers : ∀ {c c' : Threads S T} {t a}, Reaches act guard c₀ c → guard t a c.shared (c.own t) →
      c.step act t a = some c' → t < n ∧ rank (c'.own t) < rank (c.own t)) (steps : List (ℕ × A)) :
    ∀ {c c' : Threads S T}, Reaches act guard c₀ c → c.exec act guard steps = some c' →
      steps.length ≤ ∑ t ∈ Finset.range n, rank (c.own t) := by
  induction steps with
  | nil => exact fun _ _ => Nat.zero_le _
  | cons x steps ih =>
    intro c c' h heq
    obtain ⟨t, a⟩ := x
    rw [Threads.exec] at heq
    split at heq
    · rename_i meets
      split at heq
      · rename_i c₁ moved
        have hlength := ih (h.step meets moved) heq
        obtain ⟨hlt, hrank⟩ := lowers h meets moved
        obtain ⟨r, -, rfl⟩ := Option.map_eq_some_iff.mp moved
        have hmem : t ∈ Finset.range n := Finset.mem_range.mpr hlt
        have hothers : ∑ u ∈ (Finset.range n).erase t, rank (Function.update c.own t r.2 u) =
            ∑ u ∈ (Finset.range n).erase t, rank (c.own u) :=
          Finset.sum_congr rfl fun u hu => by
            rw [Function.update_of_ne (Finset.ne_of_mem_erase hu)]
        rw [← Finset.add_sum_erase _ _ hmem, hothers] at hlength
        rw [← Finset.add_sum_erase _ _ hmem, List.length_cons]
        omega
      · simp at heq
    · simp at heq

end

end Goav.Lib
