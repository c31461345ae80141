import Mathlib.Data.List.Basic
import Mathlib.Logic.Relation

/-!
Marking what can be reached in a finite graph, with a worklist: a node is taken from the front, its
unmarked successors are marked, and those to be expanded are appended. `SearchInv` is what holds
throughout.
-/

namespace Goav.Lib

open List

structure Search where
  frontier : List ℕ
  marks : List Bool

namespace Search

variable (succ : ℕ → List ℕ) (expands : ℕ → Bool)

def mark (s : Search) (v : ℕ) : Search :=
  if s.marks[v]? = some false then
    { frontier := if expands v then s.frontier ++ [v] else s.frontier, marks := s.marks.set v true }
  else s

def scan (s : Search) (v : ℕ) : Search := (succ v).foldl (mark expands) s

/-- Work the worklist off, and return the marks; `none` if it takes more turns. -/
def search : ℕ → Search → Option (List Bool)
  | _, ⟨[], marks⟩ => some marks
  | 0, ⟨_ :: _, _⟩ => none
  | turns + 1, ⟨v :: frontier, marks⟩ => search turns (scan succ expands ⟨frontier, marks⟩ v)

def Hop (n v w : ℕ) : Prop := expands v = true ∧ w ∈ succ v ∧ w < n

variable {succ expands} {n : ℕ} {s : Search}

@[simp] lemma length_mark (v : ℕ) : (s.mark expands v).marks.length = s.marks.length := by
  unfold mark
  split <;> simp

lemma marks_mark (v w : ℕ) : (s.mark expands v).marks[w]? = some true ↔
    s.marks[w]? = some true ∨ (w = v ∧ w < s.marks.length) := by
  unfold mark
  split
  · rename_i hv
    obtain ⟨hlt, -⟩ := List.getElem?_eq_some_iff.mp hv
    by_cases hw : w = v
    · simp [hw, hlt]
    · simp [hw, List.getElem?_set_ne (Ne.symm hw)]
  · rename_i hv
    refine ⟨.inl, fun h => h.elim id ?_⟩
    rintro ⟨rfl, hlt⟩
    rw [List.getElem?_eq_getElem hlt] at hv ⊢
    simpa using hv

lemma frontier_mark (v w : ℕ) : w ∈ (s.mark expands v).frontier ↔ w ∈ s.frontier ∨
    (w = v ∧ w < s.marks.length ∧ s.marks[w]? ≠ some true ∧ expands w = true) := by
  unfold mark
  by_cases hv : s.marks[v]? = some false
  · obtain ⟨hlt, -⟩ := List.getElem?_eq_some_iff.mp hv
    rw [if_pos hv]
    by_cases he : expands v = true
    · simp only [he, if_true, List.mem_append, List.mem_singleton]
      constructor
      · rintro (hw | rfl)
        · exact .inl hw
        · exact .inr ⟨rfl, hlt, by rw [hv]; decide, he⟩
      · exact fun h => h.imp_right And.left
    · simp only [he]
      refine ⟨.inl, fun h => h.elim id ?_⟩
      rintro ⟨rfl, -, -, hexp⟩
      exact absurd hexp he
  · rw [if_neg hv]
    refine ⟨.inl, fun h => h.elim id ?_⟩
    rintro ⟨rfl, hlt, hnot, -⟩
    rw [List.getElem?_eq_getElem hlt] at hv hnot
    simp at hv hnot
    simp [hv] at hnot

def turns (s : Search) : ℕ := s.frontier.length + s.marks.count false

lemma turns_mark (v : ℕ) : (s.mark expands v).turns ≤ s.turns := by
  unfold mark turns
  split
  · rename_i hv
    obtain ⟨hlt, hv⟩ := List.getElem?_eq_some_iff.mp hv
    have hpos : 0 < s.marks.count false := List.count_pos_iff.mpr (hv ▸ List.getElem_mem hlt)
    simp only [List.count_set hlt, hv]
    split
    · simp
      omega
    · simp
  · exact Nat.le_refl _

theorem foldl_mark (expands : ℕ → Bool) (s : Search) (l : List ℕ) :
    (l.foldl (mark expands) s).marks.length = s.marks.length ∧
    (∀ w, (l.foldl (mark expands) s).marks[w]? = some true ↔
      s.marks[w]? = some true ∨ (w ∈ l ∧ w < s.marks.length)) ∧
    (∀ w, w ∈ (l.foldl (mark expands) s).frontier ↔ w ∈ s.frontier ∨
      (w ∈ l ∧ w < s.marks.length ∧ s.marks[w]? ≠ some true ∧ expands w = true)) ∧
    (l.foldl (mark expands) s).turns ≤ s.turns := by
  induction l generalizing s with
  | nil => simp
  | cons v l ih =>
    obtain ⟨hlen, hmarks, hfrontier, hturns⟩ := ih (s.mark expands v)
    rw [length_mark] at hlen hmarks hfrontier
    simp only [foldl_cons]
    refine ⟨hlen, fun w => ?_, fun w => ?_, Nat.le_trans hturns (turns_mark v)⟩
    · rw [hmarks, marks_mark, mem_cons]
      tauto
    · simp only [hfrontier, frontier_mark, ne_eq, marks_mark, mem_cons]
      by_cases hw : w = v
      · tauto
      · simp [hw]

variable (succ expands n) in
structure SearchInv (given : ℕ → Prop) (s : Search) : Prop where
  length : s.marks.length = n
  marked : ∀ {v}, given v → s.marks[v]? = some true
  sound : ∀ {v}, s.marks[v]? = some true →
    ∃ u, given u ∧ Relation.ReflTransGen (Hop succ expands n) u v
  frontier : ∀ {v}, v ∈ s.frontier → s.marks[v]? = some true ∧ expands v = true
  closed : ∀ {v}, s.marks[v]? = some true → expands v = true →
    v ∈ s.frontier ∨ ∀ w ∈ succ v, w < n → s.marks[w]? = some true

variable {given : ℕ → Prop}

theorem SearchInv.turn {v : ℕ} {frontier : List ℕ} {marks : List Bool}
    (h : SearchInv succ expands n given ⟨v :: frontier, marks⟩) :
    SearchInv succ expands n given (scan succ expands ⟨frontier, marks⟩ v) := by
  obtain ⟨hmarked, hexpands⟩ := h.frontier mem_cons_self
  obtain ⟨hlen, hmarks, hfrontier, -⟩ :=
    foldl_mark expands ⟨frontier, marks⟩ (succ v)
  have hn : marks.length = n := h.length
  simp only [hn] at hmarks hfrontier
  constructor
  case length => exact hlen.trans hn
  case marked => exact fun hu => (hmarks _).mpr (.inl (h.marked hu))
  case sound =>
    intro w hw
    rcases (hmarks w).mp hw with hw | ⟨hw, hlt⟩
    · exact h.sound hw
    · obtain ⟨u, hu, hreach⟩ := h.sound hmarked
      exact ⟨u, hu, hreach.tail ⟨hexpands, hw, hlt⟩⟩
  case frontier =>
    intro w hw
    rcases (hfrontier w).mp hw with hw | ⟨hw, hlt, -, he⟩
    · obtain ⟨hm, he⟩ := h.frontier (mem_cons_of_mem _ hw)
      exact ⟨(hmarks w).mpr (.inl hm), he⟩
    · exact ⟨(hmarks w).mpr (.inr ⟨hw, hlt⟩), he⟩
  case closed =>
    intro w hw he
    by_cases hold : marks[w]? = some true
    · rcases h.closed hold he with hmem | hsucc
      · rcases mem_cons.mp hmem with rfl | hmem
        · exact .inr fun x hx hlt => (hmarks x).mpr (.inr ⟨hx, hlt⟩)
        · exact .inl ((hfrontier w).mpr (.inl hmem))
      · exact .inr fun x hx hlt => (hmarks x).mpr (.inl (hsucc x hx hlt))
    · obtain ⟨hmem, hlt⟩ := ((hmarks w).mp hw).resolve_left hold
      exact .inl ((hfrontier w).mpr (.inr ⟨hmem, hlt, hold, he⟩))

theorem SearchInv.marks_iff {marks : List Bool} (h : SearchInv succ expands n given ⟨[], marks⟩)
    (v : ℕ) : marks[v]? = some true ↔
      ∃ u, given u ∧ Relation.ReflTransGen (Hop succ expands n) u v := by
  refine ⟨h.sound, ?_⟩
  rintro ⟨u, hu, hreach⟩
  induction hreach with
  | refl => exact h.marked hu
  | tail _ hop ih =>
    obtain ⟨he, hw, hlt⟩ := hop
    exact (h.closed ih he).resolve_left not_mem_nil _ hw hlt

/-- **The search ends, and marks what can be reached.** -/
theorem SearchInv.search {turns : ℕ} (h : SearchInv succ expands n given s) (hturns : s.turns ≤ turns) :
    ∃ marks, Search.search succ expands turns s = some marks ∧
      ∀ v, marks[v]? = some true ↔ ∃ u, given u ∧ Relation.ReflTransGen (Hop succ expands n) u v := by
  induction turns generalizing s with
  | zero =>
    obtain ⟨frontier, marks⟩ := s
    cases frontier with
    | nil => exact ⟨marks, rfl, h.marks_iff⟩
    | cons v frontier => simp [Search.turns] at hturns
  | succ turns ih =>
    obtain ⟨frontier, marks⟩ := s
    cases frontier with
    | nil => exact ⟨marks, rfl, h.marks_iff⟩
    | cons v frontier =>
      have hless := (foldl_mark expands ⟨frontier, marks⟩ (succ v)).2.2.2
      have hcost : Search.turns ⟨v :: frontier, marks⟩ = Search.turns ⟨frontier, marks⟩ + 1 := by
        simp only [Search.turns, length_cons]
        omega
      exact ih h.turn (Nat.le_trans hless (by omega))

end Search

end Goav.Lib
