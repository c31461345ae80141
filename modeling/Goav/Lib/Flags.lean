import Mathlib.Data.Nat.Bitwise

/-!
Words of 64 bits that carry flags in their top bits, above a number: what testing, setting and
clearing a flag and masking the flags out mean for the number.
-/

namespace Goav.Lib

def flag (k : ℕ) : UInt64 := UInt64.ofNat (2 ^ k)

variable {k : ℕ}

lemma toNat_flag (hk : k < 64) : (flag k).toNat = 2 ^ k :=
  UInt64.toNat_ofNat_of_lt' (Nat.pow_lt_pow_right (by decide) hk)

variable (x : UInt64)

lemma and_flag_eq_zero_iff (hk : k < 64) : x &&& flag k = 0 ↔ x.toNat / 2 ^ k % 2 = 0 := by
  rw [← UInt64.toNat_inj, UInt64.toNat_and, toNat_flag hk, Nat.and_two_pow, Nat.testBit_eq_decide_div_mod_eq]
  rcases Nat.mod_two_eq_zero_or_one (x.toNat / 2 ^ k) with h | h <;> simp

lemma toNat_and_mask (hk : k < 64) : (x &&& (flag k - 1)).toNat = x.toNat % 2 ^ k := by
  have hpos : 1 ≤ 2 ^ k := Nat.one_le_two_pow
  have hsub : (flag k - 1).toNat = 2 ^ k - 1 := by
    rw [UInt64.toNat_sub_of_le _ _ (by rw [UInt64.le_iff_toNat_le, toNat_flag hk]; exact hpos),
      toNat_flag hk]
    rfl
  rw [UInt64.toNat_and, hsub, Nat.and_two_pow_sub_one_eq_mod]

lemma toNat_or_flag {x : UInt64} (hk : k < 64) (hx : x.toNat < 2 ^ k) :
    (x ||| flag k).toNat = x.toNat + 2 ^ k := by
  have h := Nat.two_pow_add_eq_or_of_lt hx 1
  rw [Nat.mul_one] at h
  rw [UInt64.toNat_or, toNat_flag hk, Nat.or_comm, ← h, Nat.add_comm]

lemma toNat_and_not_flag (hk : k < 64) :
    (x &&& ~~~flag k).toNat + 2 ^ k * (x.toNat / 2 ^ k % 2) = x.toNat := by
  -- the word is the disjoint union of its bits outside the flag and at the flag
  have hdisjoint : (x.toBitVec &&& ~~~(flag k).toBitVec) &&& (x.toBitVec &&& (flag k).toBitVec) = 0#64 := by
    ext i
    grind
  have hunion : (x.toBitVec &&& ~~~(flag k).toBitVec) + (x.toBitVec &&& (flag k).toBitVec) = x.toBitVec := by
    rw [BitVec.add_eq_or_of_and_eq_zero _ _ hdisjoint, ← BitVec.and_or_distrib_left, BitVec.or_comm,
      BitVec.or_not_self, BitVec.and_allOnes]
  have hsum := BitVec.toNat_add_of_and_eq_zero hdisjoint
  rw [hunion] at hsum
  have hflag : (x &&& flag k).toNat = 2 ^ k * (x.toNat / 2 ^ k % 2) := by
    rw [UInt64.toNat_and, toNat_flag hk, Nat.and_two_pow, Nat.testBit_eq_decide_div_mod_eq]
    rcases Nat.mod_two_eq_zero_or_one (x.toNat / 2 ^ k) with h | h <;> simp [h]
  rw [← hflag]
  exact hsum.symm

end Goav.Lib
