import Mathlib.Data.List.Induction

/-!
Runs of a deterministic machine: the state after a list of calls, and the rule for an invariant
that speaks of the state and of the calls that led to it.
-/

namespace Goav.Lib

open List

variable {S C O : Type*}

def after (step : S → C → S) (s : S) (cs : List C) : S := cs.foldl step s

section

variable {step : S → C → S} {s : S}

@[simp] lemma after_nil : after step s [] = s := rfl

@[simp] lemma after_cons (c : C) (cs : List C) :
    after step s (c :: cs) = after step (step s c) cs := rfl

lemma after_append (cs cs' : List C) : after step s (cs ++ cs') = after step (after step s cs) cs' := by
  unfold after
  rw [foldl_append]

@[simp] lemma after_concat (cs : List C) (c : C) :
    after step s (cs ++ [c]) = step (after step s cs) c := by
  rw [after_append]
  rfl

/-- **The history rule.** What one more call of an admissible list keeps holds of every such list. -/
theorem history_invariant (ok : List C → Prop) (I : List C → S → Prop)
    (hok : ∀ cs c, ok (cs ++ [c]) → ok cs) (h0 : I [] s)
    (hstep : ∀ cs c, ok (cs ++ [c]) → I cs (after step s cs) →
      I (cs ++ [c]) (step (after step s cs) c)) : ∀ cs, ok cs → I cs (after step s cs) := by
  intro cs
  induction cs using reverseRecOn with
  | nil => exact fun _ => h0
  | append_singleton cs c ih =>
    intro h
    rw [after_concat]
    exact hstep cs c h (ih (hok cs c h))

end

/-! ### Machines with outputs -/

/-- The run of a machine with outputs: the state behind the calls, and all outputs. -/
def run (step : S → C → S × List O) : S → List C → S × List O
  | s, [] => (s, [])
  | s, c :: cs => ((run step (step s c).1 cs).1, (step s c).2 ++ (run step (step s c).1 cs).2)

section

variable {step : S → C → S × List O}

@[simp] lemma run_nil (s : S) : run step s [] = (s, []) := rfl

lemma run_cons (s : S) (c : C) (cs : List C) :
    run step s (c :: cs) =
      ((run step (step s c).1 cs).1, (step s c).2 ++ (run step (step s c).1 cs).2) := rfl

lemma run_append (s : S) (cs cs' : List C) :
    run step s (cs ++ cs') = ((run step (run step s cs).1 cs').1,
        (run step s cs).2 ++ (run step (run step s cs).1 cs').2) := by
  induction cs generalizing s with
  | nil => rfl
  | cons c cs ih =>
    rw [cons_append, run_cons, run_cons, ih]
    simp

end

theorem run_invariant (step : S → C → S × List O) (I : List O → S → Prop) {s : S} (h0 : I [] s)
    (hstep : ∀ out s c, I out s → I (out ++ (step s c).2) (step s c).1) (cs : List C) :
    I (run step s cs).2 (run step s cs).1 := by
  induction cs using reverseRecOn with
  | nil => exact h0
  | append_singleton cs c ih =>
    rw [run_append]
    simpa [run_cons] using hstep _ _ c ih

lemma forall_step_left {P : List C → C → Prop} {cs cs' : List C}
    (h : ∀ pre c post, cs ++ cs' = pre ++ c :: post → P pre c) :
    ∀ pre c post, cs = pre ++ c :: post → P pre c :=
  fun pre c post heq => h pre c (post ++ cs') (by simp [heq])

theorem forall_step_iff {P : List C → C → Prop} (cs : List C) :
    (∀ pre c post, cs = pre ++ c :: post → P pre c) ↔
      ∀ i : Fin cs.length, P (cs.take i) (cs.get i) := by
  constructor
  · intro h i
    refine h _ _ (cs.drop (i + 1)) ?_
    rw [get_eq_getElem, getElem_cons_drop, take_append_drop]
  · rintro h pre c post rfl
    simpa using h ⟨pre.length, by simp⟩

end Goav.Lib
