import Mathlib.Data.UInt
import Mathlib.Tactic.Ring

/-!
Numbers as bytes, the most significant one first.
-/

namespace Goav.Lib

def beBytes : ℕ → ℕ → List UInt8
  | 0, _ => []
  | w + 1, n => beBytes w (n / 256) ++ [UInt8.ofNat n]

variable (bytes : List UInt8)

def beNat : ℕ := bytes.foldl (fun n b => n * 256 + b.toNat) 0

@[simp] lemma length_beBytes (w n : ℕ) : (beBytes w n).length = w := by
  induction w generalizing n with
  | zero => rfl
  | succ w ih => simp [beBytes, ih]

lemma beNat_concat (b : UInt8) :
    beNat (bytes ++ [b]) = beNat bytes * 256 + b.toNat := by
  simp [beNat]

lemma beNat_cons (b : UInt8) (bytes : List UInt8) :
    beNat (b :: bytes) = b.toNat * 256 ^ bytes.length + beNat bytes := by
  induction bytes using List.reverseRecOn with
  | nil => simp [beNat]
  | append_singleton bytes c ih =>
    rw [← List.cons_append, beNat_concat, ih, beNat_concat, List.length_append, List.length_singleton,
      Nat.pow_succ]
    ring

theorem beNat_beBytes (w n : ℕ) : beNat (beBytes w n) = n % 256 ^ w := by
  induction w generalizing n with
  | zero => simp [beBytes, beNat, Nat.mod_one]
  | succ w ih =>
    rw [beBytes, beNat_concat, ih, Nat.pow_succ, Nat.mul_comm (256 ^ w), Nat.mod_mul]
    simp only [UInt8.toNat_ofNat']
    ring

lemma beNat_beBytes_of_lt {w n : ℕ} (h : n < 256 ^ w) : beNat (beBytes w n) = n := by
  rw [beNat_beBytes, Nat.mod_eq_of_lt h]

lemma beBytes_beNat : beBytes bytes.length (beNat bytes) = bytes := by
  induction bytes using List.reverseRecOn with
  | nil => rfl
  | append_singleton bytes b ih =>
    have hb := b.toNat_lt
    rw [List.length_append, List.length_singleton, beBytes, beNat_concat,
      show (beNat bytes * 256 + b.toNat) / 256 = beNat bytes by omega, ih,
      UInt8.ofNat_add, UInt8.ofNat_toNat, UInt8.ofNat_mul]
    simp

lemma beNat_lt : beNat bytes < 256 ^ bytes.length := by
  rw [← beBytes_beNat bytes, beNat_beBytes, length_beBytes]
  exact Nat.mod_lt _ (Nat.pow_pos (by decide))

end Goav.Lib
