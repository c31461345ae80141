import Mathlib.Algebra.Order.BigOperators.Group.Finset

/-!
Merging lists by a key: the next element is the one with the least key among the heads, and that of
the first list among those with equal keys.
-/

namespace Goav.Lib

open Function

variable {α κ : Type*} [LinearOrder κ]

def earliest (key : ℕ → Option κ) : ℕ → Option (ℕ × κ)
  | 0 => none
  | n + 1 =>
    match key n, earliest key n with
    | none, best => best
    | some k, none => some (n, k)
    | some k, some (i, least) => if k < least then some (n, k) else some (i, least)

theorem earliest_eq_none_iff {key : ℕ → Option κ} {n : ℕ} :
    earliest key n = none ↔ ∀ j < n, key j = none := by
  induction n with
  | zero => simp [earliest]
  | succ n ih =>
    rw [Nat.forall_lt_succ_right, earliest]
    split
    · simp [*]
    · simp [*]
    · split <;> simp [*]

theorem earliest_spec {key : ℕ → Option κ} {n i : ℕ} {k : κ} (h : earliest key n = some (i, k)) :
    i < n ∧ key i = some k ∧ ∀ j < n, ∀ k' ∈ key j, k ≤ k' ∧ (j < i → k < k') := by
  induction n generalizing i k with
  | zero => simp [earliest] at h
  | succ n ih =>
    rw [earliest] at h
    split at h
    · rename_i hn
      obtain ⟨hlt, hkey, hleast⟩ := ih h
      refine ⟨hlt.trans (Nat.lt_succ_self n), hkey, Nat.forall_lt_succ_right.mpr ⟨hleast, ?_⟩⟩
      simp [hn]
    · rename_i hn hnone
      obtain ⟨rfl, rfl⟩ := h
      refine ⟨Nat.lt_succ_self _, hn, Nat.forall_lt_succ_right.mpr ⟨fun j hj k' hk' => ?_, ?_⟩⟩
      · rw [earliest_eq_none_iff.mp hnone j hj] at hk'
        simp at hk'
      · intro k' hk'
        obtain rfl := Option.some.inj (hn.symm.trans hk')
        exact ⟨le_refl _, fun hlt => absurd hlt (lt_irrefl _)⟩
    · rename_i kn i' least hn hbest
      obtain ⟨hlt, hkey, hleast⟩ := ih hbest
      split at h
      · rename_i hless
        obtain ⟨rfl, rfl⟩ := h
        refine ⟨Nat.lt_succ_self _, hn, Nat.forall_lt_succ_right.mpr ⟨fun j hj k' hk' => ?_, ?_⟩⟩
        · have hk := (hleast j hj k' hk').1
          exact ⟨(hless.trans_le hk).le, fun _ => hless.trans_le hk⟩
        · intro k' hk'
          obtain rfl := Option.some.inj (hn.symm.trans hk')
          exact ⟨le_refl _, fun hlt => absurd hlt (lt_irrefl _)⟩
      · rename_i hless
        obtain ⟨rfl, rfl⟩ := h
        refine ⟨hlt.trans (Nat.lt_succ_self n), hkey, Nat.forall_lt_succ_right.mpr ⟨hleast, ?_⟩⟩
        intro k' hk'
        obtain rfl := Option.some.inj (hn.symm.trans hk')
        exact ⟨not_lt.mp hless, fun hge => absurd hge (by omega)⟩

/-! ### Merging -/

section

variable (key : α → κ) (n : ℕ)

def headKey (lists : ℕ → List α) (i : ℕ) : Option κ := (lists i).head?.map key

/-- The first elements of the merge of the first `n` lists, with the number of the list of each. -/
def mergeTake : ℕ → (ℕ → List α) → List (ℕ × α)
  | 0, _ => []
  | count + 1, lists =>
    match earliest (headKey key lists) n with
    | none => []
    | some (i, _) =>
      match lists i with
      | [] => []
      | a :: rest => (i, a) :: mergeTake count (Function.update lists i rest)

def total (lists : ℕ → List α) : ℕ := ∑ i ∈ Finset.range n, (lists i).length

/-- The merge by least keys. -/
def merge (lists : ℕ → List α) : List (ℕ × α) := mergeTake key n (total n lists) lists

variable {key n} {lists : ℕ → List α} {i : ℕ}

lemma total_update {a : α} {rest : List α} (hi : i < n) (h : lists i = a :: rest) :
    total n lists = total n (update lists i rest) + 1 := by
  unfold total
  rw [← Finset.add_sum_erase _ _ (Finset.mem_range.mpr hi),
    ← Finset.add_sum_erase _ _ (Finset.mem_range.mpr hi)]
  have hothers : ∑ j ∈ (Finset.range n).erase i, (lists j).length =
      ∑ j ∈ (Finset.range n).erase i, (update lists i rest j).length :=
    Finset.sum_congr rfl fun j hj => by
      rw [update_of_ne (Finset.ne_of_mem_erase hj)]
  rw [h, update_self, List.length_cons]
  omega

theorem merge_cons {a : α} {rest : List α} {k : κ}
    (hi : earliest (headKey key lists) n = some (i, k)) (h : lists i = a :: rest) :
    merge key n lists = (i, a) :: merge key n (update lists i rest) := by
  unfold merge
  rw [total_update (earliest_spec hi).1 h, mergeTake, hi]
  simp [h]

theorem merge_nil (h : ∀ i < n, lists i = []) : merge key n lists = [] := by
  have hnone : earliest (headKey key lists) n = none :=
    earliest_eq_none_iff.mpr fun j hj => by simp [headKey, h j hj]
  unfold merge
  cases total n lists with
  | zero => rfl
  | succ count => rw [mergeTake, hnone]

end

end Goav.Lib
