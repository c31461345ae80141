import Goav.Lib.Flags
import Goav.Pipeline.RingDefs

/-!
The invariant of the ring. The sequence number of a cell says in what state its last position is
(`RingOk`). The tail word holds the number of claims below its flags until there are 2^62; then that runs
into the flags (`TailOk`).
-/

namespace Goav.Pipeline

open Goav.Lib List

variable {V : Type}

/-! ### Cells -/

structure Shape (n : ℕ) (r : Ring V) : Prop where
  pos : 1 ≤ n
  le : n ≤ maxCells
  cells : r.cells.length = n
  size : r.size = UInt64.ofNat n
  mask : r.mask = UInt64.ofNat n - 1
  pow2 : r.pow2 = decide (UInt64.ofNat n &&& (UInt64.ofNat n - 1) = 0)

variable {n : ℕ} {r : Ring V}

lemma Shape.of_length {r' : Ring V} (h : Shape n r) (hcells : r'.cells.length = n)
    (hsize : r'.size = r.size) (hmask : r'.mask = r.mask) (hpow2 : r'.pow2 = r.pow2) : Shape n r' :=
  ⟨h.pos, h.le, hcells, hsize.trans h.size, hmask.trans h.mask, hpow2.trans h.pow2⟩

lemma Shape.lt (h : Shape n r) : n < 2 ^ 60 := by
  have := h.le
  unfold maxCells at this
  omega

lemma Shape.toNat_size (h : Shape n r) : r.size.toNat = n := by
  have := h.lt
  rw [h.size, UInt64.toNat_ofNat_of_lt']
  exact Nat.lt_trans this (by decide)

lemma Shape.cell_eq (h : Shape n r) (pos : UInt64) : r.cell pos = pos.toNat % n := by
  have hsize := h.toNat_size
  have hpos := h.pos
  rw [h.size] at hsize
  have hmask : (UInt64.ofNat n - 1).toNat = n - 1 := by
    rw [UInt64.toNat_sub_of_le _ _ (by rw [UInt64.le_iff_toNat_le, hsize]; exact hpos), hsize]
    rfl
  unfold Ring.cell
  rw [h.pow2, h.mask, h.size]
  split_ifs with hpow
  · rw [decide_eq_true_eq, ← UInt64.toNat_inj, UInt64.toNat_and, hsize, hmask] at hpow
    obtain ⟨k, rfl⟩ := (Nat.and_sub_one_eq_zero_iff_isPowerOfTwo (by omega)).mp hpow
    rw [UInt64.toNat_and, hmask, Nat.and_two_pow_sub_one_eq_mod]
  · rw [UInt64.toNat_mod, hsize]

namespace Ring

def seqAt (r : Ring V) (p : ℕ) : ℕ :=
  (r.cells[p % r.cells.length]?.map fun c => c.seq.toNat).getD 0

def valAt (r : Ring V) (p : ℕ) : Option V := r.cells[p % r.cells.length]?.bind RingCell.val

end Ring

namespace Shape

variable {n : ℕ} {r : Ring V}

section

variable (h : Shape n r)
include h

variable (pos : UInt64)

lemma toNat_seq : (r.seq pos).toNat = r.seqAt pos.toNat := by
  unfold Ring.seq Ring.seqAt
  rw [h.cell_eq, h.cells]
  cases r.cells[pos.toNat % n]? <;> rfl

lemma val_eq : r.val pos = r.valAt pos.toNat := by
  unfold Ring.val Ring.valAt
  rw [h.cell_eq, h.cells]

lemma exists_cell (p : ℕ) : ∃ c, r.cells[p % n]? = some c := by
  have hlt : p % n < r.cells.length := by
    rw [h.cells]
    exact Nat.mod_lt _ h.pos
  exact ⟨_, getElem?_eq_getElem hlt⟩

lemma storeSeq (s : UInt64) : Shape n (r.storeSeq pos s) :=
  h.of_length (by simp [Ring.storeSeq, h.cells]) rfl rfl rfl

lemma storeVal (v : Option V) : Shape n (r.storeVal pos v) :=
  h.of_length (by simp [Ring.storeVal, h.cells]) rfl rfl rfl

lemma seqAt_storeSeq (s : UInt64) (p : ℕ) :
    (r.storeSeq pos s).seqAt p = if p % n = pos.toNat % n then s.toNat else r.seqAt p := by
  obtain ⟨c, hc⟩ := h.exists_cell p
  unfold Ring.seqAt
  rw [(h.storeSeq pos s).cells, h.cells, Ring.storeSeq, h.cell_eq]
  simp only [getElem?_modify, hc]
  by_cases heq : p % n = pos.toNat % n
  · simp [heq]
  · simp [heq, Ne.symm heq]

lemma valAt_storeSeq (s : UInt64) (p : ℕ) : (r.storeSeq pos s).valAt p = r.valAt p := by
  obtain ⟨c, hc⟩ := h.exists_cell p
  unfold Ring.valAt
  rw [(h.storeSeq pos s).cells, h.cells, Ring.storeSeq, h.cell_eq]
  simp only [getElem?_modify, hc]
  by_cases heq : pos.toNat % n = p % n <;> simp [heq]

lemma seqAt_storeVal (v : Option V) (p : ℕ) : (r.storeVal pos v).seqAt p = r.seqAt p := by
  obtain ⟨c, hc⟩ := h.exists_cell p
  unfold Ring.seqAt
  rw [(h.storeVal pos v).cells, h.cells, Ring.storeVal, h.cell_eq]
  simp only [getElem?_modify, hc]
  by_cases heq : pos.toNat % n = p % n <;> simp [heq]

lemma valAt_storeVal (v : Option V) (p : ℕ) :
    (r.storeVal pos v).valAt p = if p % n = pos.toNat % n then v else r.valAt p := by
  obtain ⟨c, hc⟩ := h.exists_cell p
  unfold Ring.valAt
  rw [(h.storeVal pos v).cells, h.cells, Ring.storeVal, h.cell_eq]
  simp only [getElem?_modify, hc]
  by_cases heq : p % n = pos.toNat % n
  · simp [heq]
  · simp [heq, Ne.symm heq]

lemma seqAt_congr {p q : ℕ} (hpq : p % n = q % n) : r.seqAt p = r.seqAt q := by
  unfold Ring.seqAt
  rw [h.cells, hpq]

end

end Shape

/-! ### The tail word -/

def TailOk (w claims : ℕ) (holder : Option ℕ) : Prop :=
  (claims < 2 ^ 62 ∧ ((holder = none ∧ (w = claims ∨ w = claims + 2 ^ 63)) ∨
    (holder ≠ none ∧ w = claims + 2 ^ 62))) ∨
  (claims = 2 ^ 62 ∧ ((w = 2 ^ 62 ∧ holder = none) ∨ w = 2 ^ 63))

lemma closed_iff (w : UInt64) : w &&& ringClosed ≠ 0 ↔ 2 ^ 63 ≤ w.toNat := by
  have hlt := w.toNat_lt
  rw [ne_eq, show ringClosed = flag 63 by decide, and_flag_eq_zero_iff w (by decide)]
  omega

lemma locked_iff (w : UInt64) : w &&& ringLocked ≠ 0 ↔ w.toNat / 2 ^ 62 % 2 = 1 := by
  rw [ne_eq, show ringLocked = flag 62 by decide, and_flag_eq_zero_iff w (by decide)]
  omega

lemma toNat_pos (w : UInt64) : (w &&& ringPos).toNat = w.toNat % 2 ^ 62 := by
  rw [show ringPos = flag 62 - 1 by decide]
  exact toNat_and_mask w (by decide)

lemma toNat_lt_of_no_flags {w : UInt64} (hc : ¬ w &&& ringClosed ≠ 0) (hl : ¬ w &&& ringLocked ≠ 0) :
    w.toNat < 2 ^ 62 := by
  rw [closed_iff] at hc
  rw [locked_iff] at hl
  omega

/-! ### The invariant -/

structure RingOk (n : ℕ) (r : Ring V) : Prop where
  shape : Shape n r
  head : r.head.toNat = r.pops
  le : r.pops ≤ r.claims.length
  bound : r.claims.length ≤ r.pops + n
  tail : TailOk r.tail.toNat r.claims.length r.holder
  writing : ∀ {p t}, r.writer p = some t → r.pops ≤ p ∧ p < r.claims.length ∧ r.seqAt p = 2 * p
  published : ∀ {p}, r.pops ≤ p → p < r.claims.length → r.writer p = none →
    r.seqAt p = 2 * p + 1 ∧ r.valAt p = r.claims[p]?
  reading : ∀ {p t}, r.reader p = some t →
    p < r.pops ∧ r.claims.length ≤ p + n ∧ r.seqAt p = 2 * p + 1
  /-- A position that is not claimed yet: its cell is free, or still has the position before. -/
  free : ∀ {p}, r.claims.length ≤ p → p < r.claims.length + n →
    r.seqAt p = 2 * p ∨ n ≤ p ∧ (r.pops ≤ p - n ∨ r.reader (p - n) ≠ none)
  results : ∀ {p v}, (p, v) ∈ r.returned → p < r.pops ∧ r.reader p = none ∧ v = r.claims[p]?
  distinct : (r.returned.map Prod.fst).Nodup
  answered : ∀ {p}, p < r.pops → r.reader p = none → ∃ v, (p, v) ∈ r.returned

namespace RingOk

variable {n : ℕ} {r : Ring V}

lemma claims_le (h : RingOk n r) : r.claims.length ≤ 2 ^ 62 := by
  rcases h.tail with ⟨hlt, -⟩ | ⟨heq, -⟩ <;> omega

lemma exists_next (h : RingOk n r) (p : ℕ) :
    ∃ q, r.claims.length ≤ q ∧ q < r.claims.length + n ∧ q % n = p % n := by
  have hpos := h.shape.pos
  generalize r.claims.length = T
  refine ⟨T + (p + (n - T % n)) % n, by omega, ?_, ?_⟩
  · have := Nat.mod_lt (p + (n - T % n)) hpos
    omega
  · have hT := Nat.mod_lt T hpos
    rw [Nat.add_mod, Nat.mod_mod, ← Nat.add_mod, show T + (p + (n - T % n)) =
      p + n * (T / n) + n by have := Nat.div_add_mod T n; omega]
    simp

lemma lt_of_seqAt_odd (h : RingOk n r) {p : ℕ} (hp : r.seqAt p = 2 * p + 1) :
    p < r.claims.length ∧ r.writer p = none := by
  obtain ⟨q, hq, hq', hmod⟩ := h.exists_next p
  have hsame := h.shape.seqAt_congr hmod
  rcases h.free hq hq' with hfree | ⟨hn, hlast⟩
  · omega
  have hback : r.seqAt (q - n) = 2 * p + 1 := by
    rw [← hp]
    refine h.shape.seqAt_congr ?_
    rw [← hmod, Nat.mod_eq_sub_mod hn]
  by_cases hpops : r.pops ≤ q - n
  · cases hw : r.writer (q - n) with
    | some t =>
      have := (h.writing hw).2.2
      omega
    | none =>
      have := (h.published hpops (by omega) hw).1
      obtain rfl : p = q - n := by omega
      exact ⟨by omega, hw⟩
  · obtain ⟨t, ht⟩ := Option.ne_none_iff_exists'.mp (hlast.resolve_left hpops)
    obtain ⟨hlt, -, hseq⟩ := h.reading ht
    refine ⟨by omega, ?_⟩
    by_contra hw
    obtain ⟨t', ht'⟩ := Option.ne_none_iff_exists'.mp hw
    have := (h.writing ht').1
    omega

end RingOk

end Goav.Pipeline
