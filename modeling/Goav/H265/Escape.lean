import Goav.Av.Types
import Mathlib.Data.List.Infix

/-!
The emulation-prevention bytes of H.265 and the two functions that remove them: `unescape` of
`internal/hevc/hevc.go` and `h265NALURBSP` of `container/matroska/h265.go`. After a byte that it drops, the
first counts zeros anew and the second goes on.
-/

namespace Goav.H265

open Goav.Av List

def unescapeLoop (zeros : ℕ) : Bytes → Bytes
  | [] => []
  | b :: rest =>
    if zeros ≥ 2 ∧ b = 3 then unescapeLoop 0 rest
    else b :: unescapeLoop (if b = 0 then zeros + 1 else 0) rest

def unescape (payload : Bytes) : Bytes := unescapeLoop 0 payload

def rbspLoop (zeros : ℕ) : Bytes → Bytes
  | [] => []
  | b :: rest =>
    if zeros ≥ 2 ∧ b = 3 then rbspLoop zeros rest
    else b :: rbspLoop (if b = 0 then zeros + 1 else 0) rest

def h265ValidateNALU : Bytes → Bool
  | a :: b :: _ => a &&& 0x80 = 0 && b &&& 0x07 ≠ 0
  | _ => false

/-- `h265NALURBSP`; `none` is `ErrInvalidData`. -/
def h265NALURBSP (nalu : Bytes) : Option Bytes :=
  if h265ValidateNALU nalu then
    let payload := nalu.drop 2
    some (if [0, 0, 3] <:+: payload then rbspLoop 0 payload else payload)
  else none

/-- Emulation prevention after some zeros. -/
def escapeFrom (zeros : ℕ) : Bytes → Bytes
  | [] => []
  | b :: rest =>
    if zeros ≥ 2 ∧ b ≤ 3 then 3 :: b :: escapeFrom (if b = 0 then 1 else 0) rest
    else b :: escapeFrom (if b = 0 then zeros + 1 else 0) rest

variable {data : Bytes} {z : ℕ}

lemma unescapeLoop_escapeFrom : unescapeLoop z (escapeFrom z data) = data := by
  induction data generalizing z with
  | nil => rfl
  | cons b rest ih =>
    rw [escapeFrom]
    split
    · simp_all [unescapeLoop]
    · rename_i h
      have hb : ¬ (z ≥ 2 ∧ b = 3) := by
        rintro ⟨hz, rfl⟩
        exact h ⟨hz, by decide⟩
      simp [unescapeLoop, hb, ih]

lemma rbspLoop_escapeFrom {z' : ℕ} (hz : z ≤ z') : rbspLoop z' (escapeFrom z data) = rbspLoop z' data := by
  induction data generalizing z z' with
  | nil => rfl
  | cons b rest ih =>
    have htake {y : ℕ} (hy : y ≤ if b = 0 then z' + 1 else 0) :
        rbspLoop z' (b :: escapeFrom y rest) = rbspLoop z' (b :: rest) := by
      rw [rbspLoop, rbspLoop]
      split
      · rename_i h
        simp [h.2] at hy
        exact ih (by omega)
      · rw [ih hy]
    rw [escapeFrom]
    split
    · rename_i h
      rw [rbspLoop, if_pos ⟨h.1.trans hz, rfl⟩]
      exact htake (by split <;> omega)
    · exact htake (by split <;> omega)

lemma infix_zeros {b : UInt8} (hb : b ≠ 0) :
    [0, 0, 3] <:+: replicate z 0 ++ b :: data ↔ z ≥ 2 ∧ b = 3 ∨ [0, 0, 3] <:+: data := by
  induction z with
  | zero => simp [infix_cons_iff, hb.symm]
  | succ z ih =>
    rw [replicate_succ, cons_append, infix_cons_iff, ih]
    match z with
    | 0 => simp [hb.symm]
    | 1 => simp [eq_comm]
    | z + 2 => simp [replicate_succ]

lemma length_rbspLoop_le : (rbspLoop z data).length ≤ data.length := by
  induction data generalizing z with
  | nil => simp [rbspLoop]
  | cons b rest ih =>
    rw [rbspLoop]
    split
    · exact ih.trans (Nat.le_succ _)
    · exact Nat.succ_le_succ ih

lemma rbspLoop_eq_self_iff : rbspLoop z data = data ↔ ¬ [0, 0, 3] <:+: replicate z 0 ++ data := by
  induction data generalizing z with
  | nil =>
    have : ¬ [0, 0, 3] <:+: replicate z (0 : UInt8) := by
      intro h
      have := eq_of_mem_replicate (h.subset (show 3 ∈ [0, 0, 3] by simp))
      simp at this
    simp [rbspLoop, this]
  | cons b rest ih =>
    rw [rbspLoop]
    by_cases hb : b = 0
    · subst hb
      simp [ih, replicate_succ']
    · rw [infix_zeros hb]
      split_ifs with h
      · have hlt : rbspLoop z rest ≠ b :: rest := by
          intro heq
          have := @length_rbspLoop_le rest z
          simp only [heq, length_cons] at this
          omega
        exact iff_of_false hlt (not_not_intro (.inl h))
      · simp [h, ih]

lemma h265NALURBSP_eq {a b : UInt8} (hvalid : h265ValidateNALU [a, b] = true) :
    h265NALURBSP (a :: b :: data) = some (rbspLoop 0 data) := by
  have hnalu : h265ValidateNALU (a :: b :: data) = true := hvalid
  simp only [h265NALURBSP, hnalu, if_true, drop_succ_cons, drop_zero, Option.some.injEq, ite_eq_left_iff]
  intro h
  exact ((@rbspLoop_eq_self_iff data 0).mpr h).symm

/-- **Emulation prevention is undone** by `unescape`, and by `h265NALURBSP` exactly without 00 00 03. -/
theorem emulation_prevention_undone (data : Bytes) : unescape (escapeFrom 0 data) = data ∧
    ∀ a b, h265ValidateNALU [a, b] = true →
      (h265NALURBSP (a :: b :: escapeFrom 0 data) = some data ↔ ¬ [0, 0, 3] <:+: data) := by
  refine ⟨unescapeLoop_escapeFrom, fun a b hvalid => ?_⟩
  rw [h265NALURBSP_eq hvalid, rbspLoop_escapeFrom le_rfl, Option.some.injEq]
  exact rbspLoop_eq_self_iff

theorem emulation_prevention_undone_zeros : escapeFrom 0 [0, 0, 0] = [0, 0, 3, 0] ∧
    h265NALURBSP (0x42 :: 1 :: escapeFrom 0 [0, 0, 0]) = some [0, 0, 0] :=
  ⟨by decide, ((emulation_prevention_undone [0, 0, 0]).2 0x42 1 (by decide)).mpr (by decide)⟩

/-- A 03 of the data is dropped with the byte inserted before it. -/
theorem h265NALURBSP_drops_data : ¬ ∀ data a b, h265ValidateNALU [a, b] = true →
    h265NALURBSP (a :: b :: escapeFrom 0 data) = some data := by
  intro h
  exact absurd (h [0, 0, 3] 0x42 1 (by decide)) (by decide)

end Goav.H265
