import Mathlib.Data.List.TakeDrop

/-!
Slices of a list: the elements from an offset on, as many as there are. What is read of a slice, what is
left of it, and two slices one behind the other are slices.
-/

namespace Goav.Lib

open List

variable {α : Type*} {l data rest : List α} {off k : ℕ}

def IsSlice (l : List α) (off : ℕ) (data : List α) : Prop := (l.drop off).take data.length = data

@[simp] lemma isSlice_nil (l : List α) (off : ℕ) : IsSlice l off [] := rfl

lemma isSlice_drop (l : List α) (off : ℕ) : IsSlice l off (l.drop off) := take_length

lemma isSlice_zero (l : List α) : IsSlice l 0 l := isSlice_drop l 0

section

variable (h : IsSlice l off data)
include h

lemma IsSlice.take (k : ℕ) : IsSlice l off (data.take k) := by
  unfold IsSlice at *
  rw [length_take, ← take_take, h]

lemma IsSlice.drop (k : ℕ) : IsSlice l (off + k) (data.drop k) := by
  unfold IsSlice at *
  rw [length_drop, ← drop_drop, ← drop_take, h]

lemma IsSlice.append (h' : IsSlice l (off + data.length) rest) : IsSlice l off (data ++ rest) := by
  unfold IsSlice at *
  rw [length_append, take_add, h, drop_drop, h']

lemma IsSlice.le_length (hne : data ≠ []) : off + data.length ≤ l.length := by
  have hlength := congrArg List.length h
  have hpos := length_pos_iff.mpr hne
  rw [length_take, length_drop] at hlength
  omega

end

lemma IsSlice.length_le (h : IsSlice l 0 data) : data.length ≤ l.length := by
  have hlength := congrArg List.length h
  rw [length_take, length_drop] at hlength
  omega

lemma IsSlice.eq_of_length (h : IsSlice l 0 data) (hlength : data.length = l.length) : data = l := by
  unfold IsSlice at h
  rw [hlength, drop_zero, take_length] at h
  exact h.symm

end Goav.Lib
