import Mathlib.Data.List.TakeDrop

/-!
Writing into a buffer in place: a block replaces as many elements from an offset on. A loop that writes
blocks of one size, one behind the other, writes their concatenation.
-/

namespace Goav.Lib

open List

variable {α : Type*}

def overwrite (buf : List α) (off : ℕ) (block : List α) : List α :=
  buf.take off ++ block ++ buf.drop (off + block.length)

@[simp] lemma overwrite_nil (buf : List α) (off : ℕ) : overwrite buf off [] = buf := by
  simp [overwrite]

variable {buf : List α} {off : ℕ} {block : List α}

lemma length_overwrite (h : off + block.length ≤ buf.length) :
    (overwrite buf off block).length = buf.length := by
  simp only [overwrite, length_append, length_take, length_drop]
  omega

lemma overwrite_all (h : buf.length = block.length) : overwrite buf 0 block = block := by
  simp [overwrite, h]

lemma overwrite_overwrite {block' : List α} (h : off + block.length ≤ buf.length) :
    overwrite (overwrite buf off block) (off + block.length) block' =
      overwrite buf off (block ++ block') := by
  have htake : (overwrite buf off block).take (off + block.length) = buf.take off ++ block := by
    unfold overwrite
    have hlength : (buf.take off ++ block).length = off + block.length := by
      rw [length_append, length_take, Nat.min_eq_left (by omega)]
    rw [take_append_of_le_length (Nat.le_of_eq hlength.symm), take_of_length_le (Nat.le_of_eq hlength)]
  have hdrop : (overwrite buf off block).drop (off + block.length + block'.length) =
      buf.drop (off + (block ++ block').length) := by
    unfold overwrite
    rw [drop_append, drop_eq_nil_of_le (by simp; omega), nil_append, drop_drop]
    congr 1
    simp only [length_append, length_take]
    omega
  conv_lhs => rw [overwrite]
  rw [htake, hdrop, overwrite, append_assoc (buf.take off)]

lemma set_set_eq_overwrite (h : off + 2 ≤ buf.length) (a b : α) :
    (buf.set off a).set (off + 1) b = overwrite buf off [a, b] := by
  have hsplit : buf = buf.take off ++ buf[off] :: buf[off + 1] :: buf.drop (off + 2) := by
    conv_lhs => rw [← take_append_drop off buf]
    rw [drop_eq_getElem_cons (by omega), drop_eq_getElem_cons (by omega)]
  have hlen : (buf.take off).length = off := by simp; omega
  generalize buf.drop (off + 2) = rest at hsplit ⊢
  generalize buf.take off = front at hsplit hlen ⊢
  generalize buf[off] = x at hsplit
  generalize buf[off + 1] = y at hsplit
  subst hsplit
  subst hlen
  simp [overwrite]

/-- A loop that writes blocks of one size writes their concatenation. -/
theorem foldl_eq_overwrite {w n : ℕ} {put : List α → ℕ → List α} {block : ℕ → List α}
    (hput : ∀ i < n, ∀ b, b.length = buf.length → put b i = overwrite b (off + i * w) (block i))
    (hw : ∀ i < n, (block i).length = w) (h : off + n * w ≤ buf.length) :
    (range n).foldl put buf = overwrite buf off ((range n).flatMap block) := by
  induction n with
  | zero => simp
  | succ n ih =>
    have hsize : ((range n).flatMap block).length = n * w := by
      have hmap : (range n).map (fun i => (block i).length) = (range n).map fun _ => w :=
        map_congr_left fun i hi => hw i (Nat.lt_succ_of_lt (mem_range.mp hi))
      rw [length_flatMap, hmap, map_const', sum_replicate_nat, length_range]
    have hroom : off + n * w ≤ buf.length := by
      rw [Nat.succ_mul] at h
      omega
    have hlength : (overwrite buf off ((range n).flatMap block)).length = buf.length :=
      length_overwrite (by omega)
    rw [range_succ, foldl_append,
      ih (fun i hi => hput i (by omega)) (fun i hi => hw i (by omega)) hroom, flatMap_append,
      foldl_cons, foldl_nil, hput n (Nat.lt_succ_self n) _ hlength, ← hsize,
      overwrite_overwrite (by omega), flatMap_singleton]

end Goav.Lib
