import Mathlib.Data.List.Nodup

/-!
Counting the places of a list that satisfy a predicate.
-/

namespace Goav.Lib

open List

variable {α β : Type*} {p : α → Bool}

theorem countP_eq_zero_of_any {l : List α} (h : ∀ j : ℕ, l[j]?.any p = false) : l.countP p = 0 := by
  refine countP_eq_zero.mpr fun a ha hp => ?_
  obtain ⟨j, hj⟩ := mem_iff_getElem?.mp ha
  simpa [hj, hp] using h j

theorem countP_eq_of_any {q : β → Bool} : ∀ {l : List α} {m : List β}, (∀ j : ℕ, l[j]?.any p = m[j]?.any q) →
      l.countP p = m.countP q
  | [], m, h => (countP_eq_zero_of_any fun j => (h j).symm).symm
  | l, [], h => countP_eq_zero_of_any h
  | a :: l, b :: m, h => by
    have hhead := h 0
    have htail := countP_eq_of_any (l := l) (m := m) fun j => by simpa using h (j + 1)
    simp only [getElem?_cons_zero, Option.any_some] at hhead
    rw [countP_cons, countP_cons, htail, hhead]

theorem countP_eq_length {l : List α} {places : List ℕ} (hnodup : places.Nodup)
    (h : ∀ j : ℕ, l[j]?.any p = decide (j ∈ places)) : l.countP p = places.length := by
  have hrange : l.countP p = (List.range l.length).countP fun j => decide (j ∈ places) := by
    refine countP_eq_of_any fun j => ?_
    rw [h]
    by_cases hj : j < l.length
    · simp [getElem?_range hj]
    · have hnone := h j
      rw [getElem?_eq_none (by omega), Option.any_none] at hnone
      rw [getElem?_eq_none (by simp; omega), Option.any_none, ← hnone]
  rw [hrange, countP_eq_length_filter]
  refine List.Perm.length_eq ((perm_ext_iff_of_nodup (nodup_range.filter _) hnodup).mpr ?_)
  intro j
  simp only [mem_filter, mem_range, decide_eq_true_eq, and_iff_right_iff_imp]
  intro hj
  by_contra hge
  have := h j
  rw [getElem?_eq_none (by omega)] at this
  simp [hj] at this

theorem exists_count_take {α : Type*} [DecidableEq α] {l : List α} {a : α} {k : ℕ}
    (h : k < l.count a) : ∃ i, l[i]? = some a ∧ (l.take i).count a = k := by
  induction l generalizing k with
  | nil => simp at h
  | cons b l ih =>
    by_cases hb : b = a
    · subst hb
      cases k with
      | zero => exact ⟨0, rfl, rfl⟩
      | succ k =>
        obtain ⟨i, hi, hcount⟩ := ih (by simpa using h)
        exact ⟨i + 1, hi, by simp [hcount]⟩
    · obtain ⟨i, hi, hcount⟩ := ih (by simpa [count_cons_of_ne hb] using h)
      exact ⟨i + 1, hi, by simp [count_cons_of_ne hb, hcount]⟩

end Goav.Lib
