import Mathlib.Data.Nat.ModEq

/-!
A table that is indexed by a counter modulo its size, where the counter itself wraps at another
modulus: when a window of consecutive counter values has distinct places in the table.
-/

namespace Goav.Lib

lemma eq_of_mod_eq_of_lt {a b H : ℕ} (h : a % H = b % H) (hle : a ≤ b) (hlt : b - a < H) : a = b := by
  have hdvd : H ∣ b - a := (Nat.modEq_iff_dvd' hle).mp h
  have := Nat.eq_zero_of_dvd_of_lt hdvd hlt
  omega

lemma mod_ne_of_window {a b T H : ℕ} (ha : a < T) (ha' : T ≤ a + H) (hb : b < T) (hb' : T ≤ b + H)
    (hne : a ≠ b) : a % H ≠ b % H := by
  intro h
  rcases Nat.le_total a b with hle | hle
  · exact hne (eq_of_mod_eq_of_lt h hle (by omega))
  · exact hne (eq_of_mod_eq_of_lt h.symm hle (by omega)).symm

/-- Places modulo `H` of a counter that wraps at `W` are distinct unless the values straddle the wrap and
the remainder of `W` is an offset among them. -/
theorem wrapped_mod_injective_iff {W H start m : ℕ} (hstart : start < W) (hH : m ≤ H) (hW : m ≤ W) :
    (∀ a b, a < m → b < m → (start + a) % W % H = (start + b) % W % H → a = b) ↔
      ¬ (W < start + m ∧ W % H ≠ 0 ∧ W % H < m) := by
  have hdiv := Nat.div_add_mod W H
  constructor
  · -- the last place before the wrap and one behind it are a multiple of `H` apart
    rintro h ⟨hstraddle, hr, hrm⟩
    have heq := h (W - start - W % H) (W - start - W % H + W % H) (by omega) (by omega)
    rw [Nat.mod_eq_of_lt (show start + (W - start - W % H) < W by omega),
      Nat.mod_eq_sub_mod (show W ≤ start + (W - start - W % H + W % H) by omega),
      Nat.mod_eq_of_lt (show start + (W - start - W % H + W % H) - W < W by omega)] at heq
    have hmod : (start + (W - start - W % H)) % H = (start + (W - start - W % H + W % H) - W) % H := by
      rw [show start + (W - start - W % H) =
        start + (W - start - W % H + W % H) - W + H * (W / H) by omega, Nat.add_mul_mod_self_left]
    omega
  · intro hfree
    suffices hlt : ∀ a b, a < b → b < m → (start + a) % W % H ≠ (start + b) % W % H by
      intro a b ha hb heq
      rcases Nat.lt_trichotomy a b with h | h | h
      · exact absurd heq (hlt a b h hb)
      · exact h
      · exact absurd heq.symm (hlt b a h ha)
    intro a b hab hb heq
    by_cases hbW : start + b < W
    · rw [Nat.mod_eq_of_lt (show start + a < W by omega), Nat.mod_eq_of_lt hbW] at heq
      have := eq_of_mod_eq_of_lt heq (by omega) (by omega)
      omega
    rw [Nat.mod_eq_sub_mod (show W ≤ start + b by omega),
      Nat.mod_eq_of_lt (show start + b - W < W by omega)] at heq
    by_cases haW : start + a < W
    · rw [Nat.mod_eq_of_lt haW] at heq
      have hdvd : H ∣ start + a - (start + b - W) := (Nat.modEq_iff_dvd' (by omega)).mp heq.symm
      have hW' : W % H = b - a := by
        obtain ⟨k, hk⟩ := hdvd
        rw [show W = b - a + H * k by omega, Nat.add_mul_mod_self_left, Nat.mod_eq_of_lt (by omega)]
      exact hfree ⟨by omega, by omega, by omega⟩
    · rw [Nat.mod_eq_sub_mod (show W ≤ start + a by omega),
        Nat.mod_eq_of_lt (show start + a - W < W by omega)] at heq
      have := eq_of_mod_eq_of_lt heq (by omega) (by omega)
      omega

end Goav.Lib
