import Mathlib.Data.List.Rotate
import Mathlib.Data.List.GetD
import Mathlib.Data.Nat.ModEq

/-!
A circular buffer read from its head: the cells of `l` from position `h` on are `l.rotate h`.
-/

namespace Goav.Lib

open List

variable {α : Type*}

def advance (n h : ℕ) : ℕ := if h + 1 = n then 0 else h + 1

lemma advance_lt {n h : ℕ} (hh : h < n) : advance n h < n := by
  unfold advance
  split <;> omega

variable (l : List α)

lemma rotate_set (h d : ℕ) (hd : d < l.length) (x : α) :
    (l.set ((h + d) % l.length) x).rotate h = (l.rotate h).set d x := by
  refine ext_getElem (by simp) fun k h₁ h₂ => ?_
  have hk : k < l.length := by simpa using h₁
  rw [getElem_rotate, getElem_set, getElem_set, getElem_rotate]
  simp only [length_set]
  by_cases hdk : d = k
  · subst hdk
    rw [if_pos rfl, if_pos (by rw [Nat.add_comm])]
  · rw [if_neg hdk, if_neg]
    -- two offsets below the length that meet modulo the length are equal
    intro heq
    rw [Nat.add_comm k h] at heq
    have := Nat.ModEq.add_left_cancel' h heq
    unfold Nat.ModEq at this
    rw [Nat.mod_eq_of_lt hd, Nat.mod_eq_of_lt hk] at this
    exact hdk this

lemma rotate_set_head {h : ℕ} (hh : h < l.length) (x : α) :
    (l.set h x).rotate h = (l.rotate h).set 0 x := by
  have := rotate_set l h 0 (by omega) x
  rwa [Nat.add_zero, Nat.mod_eq_of_lt hh] at this

lemma head_rotate {h : ℕ} (hh : h < l.length) (x : α) :
    l.getD h x = (l.rotate h).getD 0 x := by
  have h₂ : 0 < (l.rotate h).length := by simp; omega
  rw [getD_eq_getElem _ _ hh, getD_eq_getElem _ _ h₂]
  simp [Nat.mod_eq_of_lt hh]

lemma rotate_advance (h : ℕ) : l.rotate (advance l.length h) = (l.rotate h).rotate 1 := by
  rw [rotate_rotate]
  unfold advance
  split
  · next heq => rw [heq, rotate_length, rotate_zero]
  · rfl

end Goav.Lib
