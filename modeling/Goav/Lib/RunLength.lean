import Mathlib.Algebra.GroupWithZero.Nat
import Mathlib.Algebra.Order.BigOperators.Group.List
import Mathlib.Algebra.Order.Group.Nat

/-!
Run-length coding: a list as its runs, each a count and a value, in the order of the list.
-/

namespace Goav.Lib

open List

variable {α : Type*}

def expandRuns (runs : List (ℕ × α)) : List α := runs.flatMap fun run => List.replicate run.1 run.2

@[simp] theorem expandRuns_nil : expandRuns ([] : List (ℕ × α)) = [] := rfl

@[simp] theorem expandRuns_cons (run : ℕ × α) (runs : List (ℕ × α)) :
    expandRuns (run :: runs) = List.replicate run.1 run.2 ++ expandRuns runs := rfl

theorem expandRuns_append (runs runs' : List (ℕ × α)) :
    expandRuns (runs ++ runs') = expandRuns runs ++ expandRuns runs' :=
  flatMap_append

theorem length_expandRuns (runs : List (ℕ × α)) :
    (expandRuns runs).length = (runs.map Prod.fst).sum := by
  simp [expandRuns]

theorem expandRuns_map {β : Type*} (f : α → β) (runs : List (ℕ × α)) :
    expandRuns (runs.map fun run => (run.1, f run.2)) = (expandRuns runs).map f := by
  simp [expandRuns, flatMap_map, map_flatMap]

section

variable [DecidableEq α]

def pushRun (runs : List (ℕ × α)) (v : α) : List (ℕ × α) :=
  match runs.getLast? with
  | some (count, w) => if w = v then runs.dropLast ++ [(count + 1, w)] else runs ++ [(1, v)]
  | none => [(1, v)]

variable (l : List α)

def runLength : List (ℕ × α) := l.foldl pushRun []

theorem expandRuns_pushRun (runs : List (ℕ × α)) (v : α) :
    expandRuns (pushRun runs v) = expandRuns runs ++ [v] := by
  unfold pushRun
  split
  · rename_i count w hlast
    obtain ⟨init, rfl⟩ := getLast?_eq_some_iff.mp hlast
    split_ifs with heq
    · subst heq
      simp [expandRuns_append, replicate_succ']
    · simp [expandRuns_append]
  · rename_i hlast
    obtain rfl := getLast?_eq_none_iff.mp hlast
    rfl

theorem expandRuns_runLength : expandRuns (runLength l) = l := by
  have h : ∀ runs, expandRuns (l.foldl pushRun runs) = expandRuns runs ++ l := by
    induction l with
    | nil => simp
    | cons v l ih =>
      intro runs
      rw [foldl_cons, ih, expandRuns_pushRun]
      simp
  exact h []

theorem pos_of_mem_runLength : ∀ run ∈ runLength l, 0 < run.1 := by
  have h : ∀ runs : List (ℕ × α), (∀ run ∈ runs, 0 < run.1) →
      ∀ run ∈ l.foldl pushRun runs, 0 < run.1 := by
    induction l with
    | nil => exact fun runs hruns => hruns
    | cons v l ih =>
      intro runs hruns
      refine ih _ fun run hrun => ?_
      unfold pushRun at hrun
      split at hrun
      · split at hrun
        · obtain hrun | hrun := mem_append.mp hrun
          · exact hruns run (dropLast_sublist _ |>.subset hrun)
          · rw [mem_singleton.mp hrun]
            exact Nat.succ_pos _
        · obtain hrun | hrun := mem_append.mp hrun
          · exact hruns run hrun
          · rw [mem_singleton.mp hrun]
            exact Nat.one_pos
      · rw [mem_singleton.mp hrun]
        exact Nat.one_pos
  exact h [] (by simp)

theorem sum_runLength : ((runLength l).map Prod.fst).sum = l.length := by
  rw [← length_expandRuns, expandRuns_runLength]

theorem length_runLength_le : (runLength l).length ≤ l.length := by
  rw [← sum_runLength l, ← length_map (f := Prod.fst)]
  refine length_le_sum_of_one_le _ fun count hcount => ?_
  obtain ⟨run, hrun, rfl⟩ := mem_map.mp hcount
  exact pos_of_mem_runLength l run hrun

end

end Goav.Lib
