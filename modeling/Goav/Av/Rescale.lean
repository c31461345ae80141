import Goav.Av.Types
import Mathlib.Algebra.Order.Field.Basic
import Mathlib.Tactic.Ring

/-!
`RescaleValue` of `av/types.go` against the exact rational. The reductions leave numerator and
denominator coprime, so that a value is refused exactly if the reduced numerator does not fit.
`rescaleChecked` is the same code over operations that fail where those of `int64` do.
-/

namespace Goav.Av

open Option

def InInt64 (x : ℤ) : Prop := minInt64 ≤ x ∧ x ≤ maxInt64

instance (x : ℤ) : Decidable (InInt64 x) := inferInstanceAs (Decidable (_ ∧ _))

/-! ### The operations of the machine -/

def inRange (x : ℤ) : Option ℤ := if InInt64 x then some x else none

def neg64 (a : ℤ) : Option ℤ := inRange (-a)

def mul64 (a b : ℤ) : Option ℤ := inRange (a * b)

def div64 (a b : ℤ) : Option ℤ := if b = 0 then none else inRange (a.tdiv b)

def mod64 (a b : ℤ) : Option ℤ := if b = 0 then none else inRange (a.tmod b)

/-- The loop of `gcdInt64`; the fuel is more than its turns. -/
def gcdLoop64 : ℕ → ℤ → ℤ → Option ℤ
  | 0, _, _ => none
  | fuel + 1, a, b => if b = 0 then some a else (mod64 a b).bind (gcdLoop64 fuel b)

def gcd64 (a b : ℤ) : Option ℤ := do
  let a ← gcdLoop64 (b.natAbs + 1) a b
  if a < 0 then neg64 a else some a

def reducePair64 (a b : ℤ) : Option (ℤ × ℤ) := do
  let gcd ← gcd64 a b
  if gcd ≤ 1 then some (a, b)
  else do
    let a ← div64 a gcd
    let b ← div64 b gcd
    some (a, b)

def checkedMul64 (a b : ℤ) : Option (Option ℤ) :=
  if a = 0 ∨ b = 0 then some (some 0)
  else do
    let quotient ← div64 maxInt64 b
    if quotient < a then some none else (mul64 a b).map some

def abs64 (value : ℤ) : Option ℤ := if value < 0 then neg64 value else some value

def reduceFactors64 (a b c d e : ℤ) : Option ((ℤ × ℤ × ℤ) × ℤ × ℤ) := do
  let (a, d) ← reducePair64 a d
  let (a, e) ← reducePair64 a e
  let (b, d) ← reducePair64 b d
  let (b, e) ← reducePair64 b e
  let (c, d) ← reducePair64 c d
  let (c, e) ← reducePair64 c e
  some ((a, b, c), d, e)

def quotient64 (negative : Bool) (numerator d e : ℤ) : Option ℤ := do
  let quotient ← div64 numerator d
  let quotient ← div64 quotient e
  if negative then neg64 quotient else some quotient

def numerator64 (a b c : ℤ) : Option (Option ℤ) := do
  match ← checkedMul64 a b with
  | none => some none
  | some ab => checkedMul64 ab c

def rescaleChecked (value : ℤ) (src dst : TimeBase) : Option (Option ℤ) :=
  if !src.valid || !dst.valid then some none
  else if value = 0 then some (some 0)
  else if value = minInt64 then some none
  else do
    let a ← abs64 value
    let ((a, b, c), d, e) ← reduceFactors64 a src.num dst.den src.den dst.num
    match ← numerator64 a b c with
    | none => some none
    | some numerator => (quotient64 (value < 0) numerator d e).map some

/-! ### The reductions -/

/-- A factor of the numerator after its reductions with the two of the denominator, and these. -/
def reduceFactor (x d e : ℕ) : ℕ × ℕ × ℕ :=
  let (x, d) := reducePair x d
  let (x, e) := reducePair x e
  (x, d, e)

variable {b d e n a : ℕ}

lemma reducePair_spec (a : ℕ) (hb : 0 < b) :
    ∃ g, 0 < g ∧ a = g * (reducePair a b).1 ∧ b = g * (reducePair a b).2 ∧
      (reducePair a b).1.Coprime (reducePair a b).2 := by
  have hpos : 0 < Nat.gcd a b := Nat.gcd_pos_of_pos_right a hb
  unfold reducePair
  split
  · exact ⟨1, Nat.one_pos, (Nat.one_mul a).symm, (Nat.one_mul b).symm, by
      show Nat.gcd a b = 1
      omega⟩
  · exact ⟨Nat.gcd a b, hpos, (Nat.mul_div_cancel' (Nat.gcd_dvd_left a b)).symm,
      (Nat.mul_div_cancel' (Nat.gcd_dvd_right a b)).symm, Nat.coprime_div_gcd_div_gcd hpos⟩

/-- **A factor of the numerator is reduced**: it is coprime to what is left of the denominator. -/
lemma reduceFactor_spec (x : ℕ) (hd : 0 < d) (he : 0 < e) :
    ∃ g x' d' e', reduceFactor x d e = (x', d', e') ∧ x = g * x' ∧ d * e = g * (d' * e') ∧
      (0 < g ∧ 0 < d' ∧ 0 < e') ∧ (d' ∣ d ∧ e' ∣ e) ∧ x'.Coprime (d' * e') := by
  unfold reduceFactor
  obtain ⟨g, hg, hx, hd', hcop⟩ := reducePair_spec x hd
  generalize reducePair x d = pd at *
  obtain ⟨x₁, d'⟩ := pd
  obtain ⟨k, hk, hx₁, he', hcop'⟩ := reducePair_spec x₁ he
  generalize hpe : reducePair x₁ e = pe at *
  obtain ⟨x', e'⟩ := pe
  dsimp only at *
  have hxd : x'.Coprime d' := Nat.Coprime.coprime_dvd_left ⟨k, by rw [hx₁, Nat.mul_comm]⟩ hcop
  refine ⟨g * k, x', d', e', by rw [hpe], ?_, ?_, ⟨Nat.mul_pos hg hk, ?_, ?_⟩, ⟨?_, ?_⟩,
    hxd.mul_right hcop'⟩
  · rw [hx, hx₁, Nat.mul_assoc]
  · rw [hd', he']
    ac_rfl
  · exact Nat.pos_of_ne_zero fun h => by simp [h] at hd'; omega
  · exact Nat.pos_of_ne_zero fun h => by simp [h] at he'; omega
  · exact ⟨g, by rw [hd', Nat.mul_comm]⟩
  · exact ⟨k, by rw [he', Nat.mul_comm]⟩

/-- The three factors of the numerator and the two of the denominator after all reductions. -/
def reduceFactors (a b c d e : ℕ) : (ℕ × ℕ × ℕ) × ℕ × ℕ :=
  let (a, d, e) := reduceFactor a d e
  let (b, d, e) := reduceFactor b d e
  let (c, d, e) := reduceFactor c d e
  ((a, b, c), d, e)

/-- **The fraction is reduced to lowest terms.** -/
lemma reduceFactors_spec (a b c : ℕ) (hd : 0 < d) (he : 0 < e) :
    ∃ g a' b' c' d' e', reduceFactors a b c d e = ((a', b', c'), d', e') ∧
      a * b * c = g * (a' * b' * c') ∧ d * e = g * (d' * e') ∧ (0 < g ∧ 0 < d' ∧ 0 < e') ∧
      (a' * b' * c').Coprime (d' * e') := by
  obtain ⟨g₁, a', d₁, e₁, h₁, ha, hde₁, ⟨hg₁, hd₁, he₁⟩, -, hcop₁⟩ := reduceFactor_spec a hd he
  obtain ⟨g₂, b', d₂, e₂, h₂, hb, hde₂, ⟨hg₂, hd₂, he₂⟩, ⟨hdvd₂, hdve₂⟩, hcop₂⟩ :=
    reduceFactor_spec b hd₁ he₁
  obtain ⟨g₃, c', d₃, e₃, h₃, hc, hde₃, ⟨hg₃, hd₃, he₃⟩, ⟨hdvd₃, hdve₃⟩, hcop₃⟩ :=
    reduceFactor_spec c hd₂ he₂
  have hdvd : d₃ * e₃ ∣ d₂ * e₂ := Nat.mul_dvd_mul hdvd₃ hdve₃
  have hdvd' : d₃ * e₃ ∣ d₁ * e₁ := hdvd.trans (Nat.mul_dvd_mul hdvd₂ hdve₂)
  refine ⟨g₁ * g₂ * g₃, a', b', c', d₃, e₃, ?_, ?_, ?_,
    ⟨Nat.mul_pos (Nat.mul_pos hg₁ hg₂) hg₃, hd₃, he₃⟩, ?_⟩
  · simp [reduceFactors, h₁, h₂, h₃]
  · rw [ha, hb, hc]
    ac_rfl
  · rw [hde₁, hde₂, hde₃]
    ac_rfl
  · exact ((hcop₁.coprime_dvd_right hdvd').mul_left (hcop₂.coprime_dvd_right hdvd)).mul_left hcop₃

/-! ### The multiplications and divisions -/

lemma checkedMul_eq (a b : ℕ) :
    checkedMul a b = if a * b ≤ maxInt64 then some (a * b) else none := by
  unfold checkedMul
  split
  · rename_i hzero
    obtain rfl | rfl := hzero <;> simp
  have hb : 0 < b := by omega
  have hdiv : a ≤ maxInt64 / b ↔ a * b ≤ maxInt64 := Nat.le_div_iff_mul_le hb
  split
  · rw [if_neg (by omega)]
  · rw [if_pos (by omega)]

lemma TimeBase.valid_iff {b : TimeBase} : b.valid = true ↔ 0 < b.num ∧ 0 < b.den := by
  simp [TimeBase.valid]

section

variable {value : ℤ} {src dst : TimeBase}

lemma rescaleValue_factors (hsrc : src.valid = true) (hdst : dst.valid = true) (hzero : value ≠ 0)
    (hmin : value ≠ minInt64) {a b c d e : ℕ}
    (hfactors : reduceFactors value.natAbs src.num.natAbs dst.den.natAbs src.den.natAbs
      dst.num.natAbs = ((a, b, c), d, e)) :
    rescaleValue value src dst = ((checkedMul a b).bind (checkedMul · c)).map fun n : ℕ =>
      if value < 0 then -((n / d / e : ℕ) : ℤ) else ((n / d / e : ℕ) : ℤ) := by
  simp only [reduceFactors, reduceFactor] at hfactors
  obtain ⟨habc, hde⟩ := Prod.mk.inj hfactors
  obtain ⟨rfl, hbc⟩ := Prod.mk.inj habc
  cases hbc
  cases hde
  unfold rescaleValue
  rw [if_neg (by simp [hsrc, hdst]), if_neg hzero, if_neg hmin]
  dsimp only
  generalize checkedMul _ _ = ab
  cases ab with
  | none => rfl
  | some ab =>
    dsimp only [bind_some]
    generalize checkedMul _ _ = n
    cases n <;> rfl

lemma checkedMul_bind (a b : ℕ) {c : ℕ} (hc : 0 < c) :
    (checkedMul a b).bind (checkedMul · c) = if a * b * c ≤ maxInt64 then some (a * b * c) else none := by
  have hle : a * b ≤ a * b * c := Nat.le_mul_of_pos_right _ hc
  rw [checkedMul_eq]
  by_cases hab : a * b ≤ maxInt64
  · rw [if_pos hab, bind_some, checkedMul_eq]
  · rw [if_neg hab, if_neg (by omega), bind_none]

end

/-! ### The machine operations do not fail -/

lemma inRange_natCast (h : n ≤ maxInt64) : inRange n = some (n : ℤ) := by
  refine if_pos ⟨?_, by exact_mod_cast h⟩
  unfold minInt64
  omega

lemma neg64_natCast (h : n ≤ maxInt64) : neg64 n = some (-(n : ℤ)) := by
  refine if_pos ⟨?_, ?_⟩
  · unfold minInt64 maxInt64 at *
    omega
  · omega

lemma div64_natCast (ha : a ≤ maxInt64) (hb : 0 < b) : div64 a b = some ((a / b : ℕ) : ℤ) := by
  unfold div64
  rw [if_neg (by omega)]
  exact inRange_natCast ((Nat.div_le_self a b).trans ha)

lemma mod64_natCast (ha : a ≤ maxInt64) (hb : 0 < b) : mod64 a b = some ((a % b : ℕ) : ℤ) := by
  unfold mod64
  rw [if_neg (by omega)]
  exact inRange_natCast ((Nat.mod_le a b).trans ha)

lemma gcdLoop64_natCast (fuel : ℕ) : ∀ {a b : ℕ}, a ≤ maxInt64 → b ≤ maxInt64 → b < fuel →
    gcdLoop64 fuel a b = some ((Nat.gcd a b : ℕ) : ℤ) := by
  induction fuel with
  | zero => intro a b _ _ hfuel; omega
  | succ fuel ih =>
    intro a b ha hb hfuel
    unfold gcdLoop64
    split_ifs with hzero
    · obtain rfl : b = 0 := by exact_mod_cast hzero
      rw [Nat.gcd_zero_right]
    · have hpos : 0 < b := by omega
      have hlt := Nat.mod_lt a hpos
      rw [mod64_natCast ha hpos, bind_some, ih hb (by omega) (by omega), Nat.gcd_comm b,
        ← Nat.gcd_rec, Nat.gcd_comm]

lemma gcd64_natCast (ha : a ≤ maxInt64) (hb : b ≤ maxInt64) :
    gcd64 a b = some ((Nat.gcd a b : ℕ) : ℤ) := by
  unfold gcd64
  rw [Int.natAbs_natCast, gcdLoop64_natCast _ ha hb (Nat.lt_succ_self b)]
  rw [bind_eq_bind, bind_some, if_neg (not_lt.mpr (Int.natCast_nonneg _))]

lemma reducePair_le (a b : ℕ) : (reducePair a b).1 ≤ a ∧ (reducePair a b).2 ≤ b := by
  unfold reducePair
  split
  · exact ⟨le_rfl, le_rfl⟩
  · exact ⟨Nat.div_le_self a _, Nat.div_le_self b _⟩

lemma reducePair64_natCast (ha : a ≤ maxInt64) (hb : b ≤ maxInt64) :
    reducePair64 a b = some (((reducePair a b).1 : ℤ), ((reducePair a b).2 : ℤ)) := by
  unfold reducePair64 reducePair
  rw [gcd64_natCast ha hb, bind_eq_bind, bind_some]
  split
  · rename_i hone
    rw [if_pos (by exact_mod_cast hone)]
  · rename_i hone
    have hpos : 0 < Nat.gcd a b := by omega
    rw [if_neg (by exact_mod_cast hone), div64_natCast ha hpos, div64_natCast hb hpos]
    rfl

lemma checkedMul64_natCast (a b : ℕ) :
    checkedMul64 a b = some ((checkedMul a b).map fun n : ℕ => (n : ℤ)) := by
  unfold checkedMul64 checkedMul
  by_cases hzero : a = 0 ∨ b = 0
  · rw [if_pos (by exact_mod_cast hzero), if_pos hzero]
    rfl
  · have hpos : 0 < b := by omega
    rw [if_neg (by exact_mod_cast hzero), div64_natCast le_rfl hpos,
      bind_eq_bind, bind_some]
    split
    · rename_i hbig
      rw [if_pos (by exact_mod_cast hbig)]
      rfl
    · rename_i hfits
      have hle : a * b ≤ maxInt64 := (Nat.le_div_iff_mul_le hpos).mp (by omega)
      rw [if_neg (by exact_mod_cast hfits), mul64, ← Nat.cast_mul, inRange_natCast hle]
      rfl

lemma natAbs_le {x : ℤ} (h : InInt64 x) (hmin : x ≠ minInt64) : x.natAbs ≤ maxInt64 := by
  unfold InInt64 minInt64 maxInt64 at *
  omega

variable {value : ℤ}

lemma abs64_eq (hvalue : InInt64 value) (hmin : value ≠ minInt64) :
    abs64 value = some (value.natAbs : ℤ) := by
  have hle := natAbs_le hvalue hmin
  unfold abs64
  split
  · rw [neg64, show -value = (value.natAbs : ℤ) by omega, inRange_natCast hle]
  · rw [show value = (value.natAbs : ℤ) by omega]
    simp

lemma reduceFactors64_natCast {c : ℕ} (ha : a ≤ maxInt64) (hb : b ≤ maxInt64) (hc : c ≤ maxInt64)
    (hd : d ≤ maxInt64) (he : e ≤ maxInt64) :
    reduceFactors64 a b c d e =
      some ((((reduceFactors a b c d e).1.1 : ℤ), ((reduceFactors a b c d e).1.2.1 : ℤ),
        ((reduceFactors a b c d e).1.2.2 : ℤ)), ((reduceFactors a b c d e).2.1 : ℤ),
        ((reduceFactors a b c d e).2.2 : ℤ)) := by
  unfold reduceFactors64 reduceFactors reduceFactor
  have hd₁ := (reducePair_le a d).2.trans hd
  have ha₁ := (reducePair_le a d).1.trans ha
  have he₁ := (reducePair_le (reducePair a d).1 e).2.trans he
  have hd₂ := (reducePair_le b (reducePair a d).2).2.trans hd₁
  have hb₁ := (reducePair_le b (reducePair a d).2).1.trans hb
  have he₂ := (reducePair_le (reducePair b (reducePair a d).2).1
    (reducePair (reducePair a d).1 e).2).2.trans he₁
  have hc₁ := (reducePair_le c (reducePair b (reducePair a d).2).2).1.trans hc
  simp [reducePair64_natCast ha hd, reducePair64_natCast ha₁ he, reducePair64_natCast hb hd₁,
    reducePair64_natCast hb₁ he₁, reducePair64_natCast hc hd₂, reducePair64_natCast hc₁ he₂]

lemma numerator64_natCast (a b c : ℕ) :
    numerator64 a b c = some (((checkedMul a b).bind (checkedMul · c)).map fun n : ℕ => (n : ℤ)) := by
  unfold numerator64
  rw [checkedMul64_natCast]
  cases checkedMul a b with
  | none => rfl
  | some ab => exact checkedMul64_natCast ab c

lemma quotient64_natCast (negative : Bool) (hn : n ≤ maxInt64) (hd : 0 < d) (he : 0 < e) :
    quotient64 negative n d e =
      some (if negative then -((n / d / e : ℕ) : ℤ) else ((n / d / e : ℕ) : ℤ)) := by
  have hnd := (Nat.div_le_self n d).trans hn
  have hnde := (Nat.div_le_self (n / d) e).trans hnd
  unfold quotient64
  rw [div64_natCast hn hd, bind_eq_bind, bind_some, div64_natCast hnd he, bind_some, neg64_natCast hnde]
  split <;> rfl

/-- **No operation of `RescaleValue` overflows or divides by zero.** -/
lemma rescaleChecked_eq {src dst : TimeBase} (hvalue : InInt64 value)
    (hsrcNum : InInt64 src.num) (hsrcDen : InInt64 src.den) (hdstNum : InInt64 dst.num)
    (hdstDen : InInt64 dst.den) : rescaleChecked value src dst = some (rescaleValue value src dst) := by
  by_cases hvalid : src.valid = true ∧ dst.valid = true
  swap
  · have hnot : (!src.valid || !dst.valid) = true := by
      simpa [imp_iff_not_or] using hvalid
    rw [rescaleChecked, rescaleValue, if_pos hnot, if_pos hnot]
  obtain ⟨hsrc, hdst⟩ := hvalid
  by_cases hzero : value = 0
  · simp [rescaleChecked, rescaleValue, hsrc, hdst, hzero]
  by_cases hmin : value = minInt64
  · simp [rescaleChecked, rescaleValue, hdst, hmin, minInt64]
  obtain ⟨hb, hd⟩ := TimeBase.valid_iff.mp hsrc
  obtain ⟨he, hc⟩ := TimeBase.valid_iff.mp hdst
  have hle {x : ℤ} (hx : InInt64 x) (hpos : 0 < x) : x.natAbs ≤ maxInt64 :=
    natAbs_le hx (by unfold minInt64; omega)
  obtain ⟨g, a', b', c', d', e', hfactors, -, -, ⟨-, hd', he'⟩, -⟩ :=
    reduceFactors_spec value.natAbs src.num.natAbs dst.den.natAbs (Int.natAbs_pos.mpr hd.ne')
      (Int.natAbs_pos.mpr he.ne')
  have hcasts := reduceFactors64_natCast (natAbs_le hvalue hmin) (hle hsrcNum hb) (hle hdstDen hc)
    (hle hsrcDen hd) (hle hdstNum he)
  rw [Int.natAbs_of_nonneg hb.le, Int.natAbs_of_nonneg hc.le, Int.natAbs_of_nonneg hd.le,
    Int.natAbs_of_nonneg he.le, hfactors] at hcasts
  rw [rescaleValue_factors hsrc hdst hzero hmin hfactors]
  unfold rescaleChecked
  rw [if_neg (by simp [hsrc, hdst]), if_neg hzero, if_neg hmin, abs64_eq hvalue hmin,
    bind_eq_bind, bind_some, hcasts]
  simp only [bind_eq_bind, bind_some, numerator64_natCast]
  cases hn : (checkedMul a' b').bind (checkedMul · c') with
  | none => rfl
  | some n =>
    obtain ⟨ab, -, hn⟩ := bind_eq_some_iff.mp hn
    dsimp only [map_some]
    rw [quotient64_natCast _ (checkedMul_le hn) hd' he']
    simp

/-! ### The exact rational -/

def exactRescale (value : ℤ) (src dst : TimeBase) : ℚ :=
  (value * src.num * dst.den : ℤ) / (src.den * dst.num : ℤ)

lemma exactRescale_factors {src dst : TimeBase} (hsrc : src.valid = true)
    (hdst : dst.valid = true) {g m : ℕ} (hg : 0 < g) (hm : 0 < m)
    (hnum : value.natAbs * src.num.natAbs * dst.den.natAbs = g * n)
    (hden : src.den.natAbs * dst.num.natAbs = g * m) (hcop : n.Coprime m) :
    (exactRescale |value| src dst).num = n ∧
      (value * src.num * dst.den).tdiv (src.den * dst.num) =
        if value < 0 then -((n / m : ℕ) : ℤ) else ((n / m : ℕ) : ℤ) := by
  obtain ⟨hb, hd⟩ := TimeBase.valid_iff.mp hsrc
  obtain ⟨he, hc⟩ := TimeBase.valid_iff.mp hdst
  have hnumAbs : |value| * src.num * dst.den = ((g * n : ℕ) : ℤ) := by
    rw [← hnum]
    push_cast
    rw [abs_of_pos hb, abs_of_pos hc]
  have hdenAbs : src.den * dst.num = ((g * m : ℕ) : ℤ) := by
    rw [← hden]
    push_cast
    rw [abs_of_pos hd, abs_of_pos he]
  constructor
  · have hm' : (0 : ℤ) < m := by exact_mod_cast hm
    have hexact : exactRescale |value| src dst = ((n : ℤ) : ℚ) / ((m : ℤ) : ℚ) := by
      have hgne : (g : ℚ) ≠ 0 := by exact_mod_cast hg.ne'
      unfold exactRescale
      rw [hnumAbs, hdenAbs]
      push_cast
      exact mul_div_mul_left _ _ hgne
    rw [hexact]
    exact Rat.num_div_eq_of_coprime hm' hcop
  · have hquotient : (|value| * src.num * dst.den).tdiv (src.den * dst.num) = ((n / m : ℕ) : ℤ) := by
      rw [hnumAbs, hdenAbs, ← Int.ofNat_tdiv, Nat.mul_div_mul_left _ _ hg]
    split
    · rename_i hneg
      rw [← hquotient, abs_of_neg hneg, ← Int.neg_tdiv, neg_mul, neg_mul, neg_neg]
    · rename_i hnonneg
      rw [← hquotient, abs_of_nonneg (not_lt.mp hnonneg)]

/-- **`RescaleValue` is exact**: it refuses what is not valid and what does not fit, and else truncates
the rational toward zero. -/
theorem rescaleValue_exact (value : ℤ) (src dst : TimeBase) (hvalue : InInt64 value)
    (hsrcNum : InInt64 src.num) (hsrcDen : InInt64 src.den) (hdstNum : InInt64 dst.num)
    (hdstDen : InInt64 dst.den) :
    rescaleChecked value src dst = some (rescaleValue value src dst) ∧
      ((rescaleValue value src dst).isSome = true ↔
        src.valid = true ∧ dst.valid = true ∧ value ≠ minInt64 ∧
          (value = 0 ∨ (exactRescale |value| src dst).num ≤ maxInt64)) ∧
      ∀ v, rescaleValue value src dst = some v →
        v = (value * src.num * dst.den).tdiv (src.den * dst.num) := by
  refine ⟨rescaleChecked_eq hvalue hsrcNum hsrcDen hdstNum hdstDen, ?_⟩
  by_cases hvalid : src.valid = true ∧ dst.valid = true
  swap
  · have hnone : rescaleValue value src dst = none := by
      rw [rescaleValue, if_pos (by simpa [← Bool.not_eq_true, imp_iff_not_or] using hvalid)]
    rw [hnone]
    exact ⟨⟨nofun, fun h => absurd ⟨h.1, h.2.1⟩ hvalid⟩, nofun⟩
  obtain ⟨hsrc, hdst⟩ := hvalid
  by_cases hzero : value = 0
  · subst hzero
    have hsome : rescaleValue 0 src dst = some 0 := by simp [rescaleValue, hsrc, hdst]
    rw [hsome]
    refine ⟨⟨fun _ => ⟨hsrc, hdst, by decide, .inl rfl⟩, fun _ => rfl⟩, fun v hv => ?_⟩
    simpa using (Option.some.inj hv).symm
  by_cases hmin : value = minInt64
  · have hnone : rescaleValue value src dst = none := by
      simp [rescaleValue, hsrc, hdst, hmin, minInt64]
    rw [hnone]
    exact ⟨⟨nofun, fun h => absurd hmin h.2.2.1⟩, nofun⟩
  obtain ⟨hb, hd⟩ := TimeBase.valid_iff.mp hsrc
  obtain ⟨he, hc⟩ := TimeBase.valid_iff.mp hdst
  obtain ⟨g, a', b', c', d', e', hfactors, hnum, hden, ⟨hg, hd', he'⟩, hcop⟩ :=
    reduceFactors_spec value.natAbs src.num.natAbs dst.den.natAbs (Int.natAbs_pos.mpr hd.ne')
      (Int.natAbs_pos.mpr he.ne')
  have hc' : 0 < c' := by
    refine Nat.pos_of_ne_zero fun h => ?_
    rw [h, Nat.mul_zero, Nat.mul_zero] at hnum
    simp [hzero, hb.ne', hc.ne'] at hnum
  obtain ⟨hreduced, htrunc⟩ :=
    exactRescale_factors hsrc hdst hg (Nat.mul_pos hd' he') hnum hden hcop
  rw [rescaleValue_factors hsrc hdst hzero hmin hfactors, checkedMul_bind _ _ hc', hreduced, htrunc,
    ← Nat.div_div_eq_div_mul]
  constructor
  · simp only [hsrc, hdst, hzero, ne_eq, hmin, not_false_eq_true, true_and, false_or]
    by_cases hfits : a' * b' * c' ≤ maxInt64
    · rw [if_pos hfits]
      exact ⟨fun _ => by exact_mod_cast hfits, fun _ => rfl⟩
    · rw [if_neg hfits]
      exact ⟨nofun, fun h => absurd (by exact_mod_cast h) hfits⟩
  · intro v hv
    obtain ⟨n, hn, rfl⟩ := map_eq_some_iff.mp hv
    split at hn
    · rw [← Option.some.inj hn]
    · cases hn

theorem rescaleValue_exact_limit :
    InInt64 maxInt64 ∧ rescaleValue maxInt64 { num := 1, den := 3 } { num := 1, den := 3 } =
      some (maxInt64 : ℤ) ∧
      rescaleChecked maxInt64 { num := 1, den := 3 } { num := 1, den := 3 } =
        some (rescaleValue maxInt64 { num := 1, den := 3 } { num := 1, den := 3 }) :=
  ⟨by decide, by decide, (rescaleValue_exact maxInt64 { num := 1, den := 3 } { num := 1, den := 3 }
    (by decide) (by decide) (by decide) (by decide) (by decide)).1⟩

end Goav.Av
