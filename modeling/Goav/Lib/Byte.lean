import Mathlib.Data.UInt

/-!
Facts about bytes, by checking all of them.
-/

namespace Goav.Lib

theorem forall_byte {P : UInt8 → Prop} (h : ∀ n : Fin 256, P (UInt8.ofFin n)) (b : UInt8) : P b :=
  h b.toFin

theorem byte_or_and (a b c : UInt8) : (a ||| b) &&& c = (a &&& c) ||| (b &&& c) := by
  apply UInt8.toNat_inj.mp
  exact Nat.and_or_distrib_right ..

theorem high_low_byte {n : ℕ} (h : n < 65536) :
    (UInt8.ofNat (n >>> 8)).toNat * 256 + (UInt8.ofNat n).toNat = n := by
  simp only [UInt8.toNat_ofNat']
  omega

end Goav.Lib
