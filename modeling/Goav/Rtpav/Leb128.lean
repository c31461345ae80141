import Mathlib.Data.Nat.Digits.Defs
import Goav.Av.Types
import Goav.Lib.Byte

/-!
The LEB128 numbers of `rtpav/av1.go`: little-endian groups of seven bits, the high bit set in all
bytes but the last. A 64-bit number has at most ten groups, which bounds the loops.
-/

namespace Goav.Rtpav

open Goav.Av Goav.Lib List

/-- The loop of `readLEB128`, at byte `i`: the number and the bytes read. -/
def readLEB128Loop (i out : ℕ) : Bytes → Option (ℕ × ℕ)
  | [] => none
  | b :: rest =>
    if i = 10 then none
    else
      let out := out ||| (((b &&& 0x7f).toNat <<< (7 * i)) % 2 ^ 64)
      if b &&& 0x80 = 0 then if maxInt64 < out then none else some (out, i + 1)
      else readLEB128Loop (i + 1) out rest

def readLEB128 (data : Bytes) : Option (ℕ × ℕ) := readLEB128Loop 0 0 data

def appendLEB128Loop : ℕ → ℕ → Bytes
  | 0, _ => []
  | fuel + 1, v =>
    let b := UInt8.ofNat (v &&& 0x7f)
    if v >>> 7 = 0 then [b] else (b ||| 0x80) :: appendLEB128Loop fuel (v >>> 7)

def appendLEB128 (out : Bytes) (value : ℕ) : Bytes :=
  out ++ appendLEB128Loop 10 (value % 2 ^ 64)

def leb128SizeLoop : ℕ → ℕ → ℕ
  | 0, _ => 0
  | fuel + 1, v => if v = 0 then 0 else leb128SizeLoop fuel (v >>> 7) + 1

/-- The number of bytes of the value, which is read as an unsigned number. -/
def leb128Size (value : ℤ) : ℕ := 1 + leb128SizeLoop 10 ((value % 2 ^ 64).toNat >>> 7)

/-! ### Numbers in bytes -/

/-- The number of the seven-bit groups. -/
def groupSum (bytes : Bytes) : ℕ := Nat.ofDigits 128 (bytes.map fun b => (b &&& 0x7f).toNat)

/-- All bytes but the last have their high bit set. -/
def EndsLast : Bytes → Prop
  | [] => False
  | b :: rest => if b &&& 0x80 = 0 then rest = [] else EndsLast rest

/-- The bytes stand for the value, in which a tenth group has one bit. -/
structure IsLEB128 (value : ℕ) (bytes : Bytes) : Prop where
  ends : EndsLast bytes
  length_le : bytes.length ≤ 10
  value_eq : value = groupSum bytes % 2 ^ 64
  value_le : value ≤ maxInt64

lemma groupSum_cons (b : UInt8) (bytes : Bytes) :
    groupSum (b :: bytes) = (b &&& 0x7f).toNat + 128 * groupSum bytes := by
  simp [groupSum, Nat.ofDigits_cons]

lemma group_le (b : UInt8) : (b &&& 0x7f).toNat < 128 :=
  Nat.lt_of_le_of_lt Nat.and_le_right (by decide)

lemma groupSum_lt (bytes : Bytes) : groupSum bytes < 128 ^ bytes.length := by
  rw [← length_map (f := fun b : UInt8 => (b &&& 0x7f).toNat)]
  refine Nat.ofDigits_lt_base_pow_length (by decide) fun g hg => ?_
  obtain ⟨b, -, rfl⟩ := mem_map.mp hg
  exact group_le b

/-! ### Reading -/

lemma group_or {i out g : ℕ} (hi : i < 10) (hout : out < 2 ^ (7 * i)) :
    out ||| ((g <<< (7 * i)) % 2 ^ 64) = (out + g * 2 ^ (7 * i)) % 2 ^ 64 := by
  have hw : 2 ^ 64 = 2 ^ (7 * i) * 2 ^ (64 - 7 * i) := by
    rw [← Nat.pow_add]
    congr 1
    omega
  rw [Nat.shiftLeft_eq, Nat.mul_comm g, hw, Nat.mul_mod_mul_left, Nat.or_comm,
    ← Nat.two_pow_add_eq_or_of_lt hout, Nat.mod_mul, Nat.add_mul_mod_self_left, Nat.mod_eq_of_lt hout,
    Nat.add_mul_div_left _ _ (Nat.two_pow_pos _), Nat.div_eq_of_lt hout, Nat.zero_add, Nat.add_comm]

variable {data : Bytes}

lemma exists_cons_eq_append {b : UInt8} {P : Bytes → Prop} (hnil : ¬ P []) :
    (∃ size rest, b :: data = size ++ rest ∧ P size) ↔ ∃ size rest, data = size ++ rest ∧ P (b :: size) := by
  constructor
  · rintro ⟨size, rest, heq, hP⟩
    obtain ⟨rfl, -⟩ | ⟨size, rfl, rfl⟩ := cons_eq_append_iff.mp heq
    · exact absurd hP hnil
    · exact ⟨size, rest, rfl, hP⟩
  · rintro ⟨size, rest, rfl, hP⟩
    exact ⟨b :: size, rest, rfl, hP⟩

variable {value : ℕ}

lemma readLEB128Loop_eq_some_iff {k : ℕ} : ∀ {i out : ℕ}, i ≤ 10 → out < 2 ^ (7 * i) →
      (readLEB128Loop i out data = some (value, k) ↔ ∃ size rest, data = size ++ rest ∧
        i + size.length = k ∧ k ≤ 10 ∧ EndsLast size ∧
        value = (out + 2 ^ (7 * i) * groupSum size) % 2 ^ 64 ∧ value ≤ maxInt64) := by
  induction data with
  | nil =>
    intro i out _ _
    refine iff_of_false (by simp [readLEB128Loop]) ?_
    rintro ⟨size, rest, heq, -, -, hends, -⟩
    rw [(append_eq_nil_iff.mp heq.symm).1] at hends
    exact hends
  | cons b data ih =>
    intro i out hi hout
    rw [readLEB128Loop]
    split
    · rename_i h10
      refine iff_of_false (by simp) ?_
      rintro ⟨size, rest, -, hk, hle, hends, -⟩
      obtain rfl : size = [] := length_eq_zero_iff.mp (by omega)
      exact hends
    have hi' : i < 10 := by omega
    simp only [group_or hi' hout]
    have hnext : (out + (b &&& 0x7f).toNat * 2 ^ (7 * i)) % 2 ^ 64 < 2 ^ (7 * (i + 1)) := by
      have hle := Nat.mul_le_mul_right (2 ^ (7 * i)) (Nat.le_of_lt_succ (group_le b))
      rw [Nat.mul_add, Nat.pow_add]
      omega
    have hsum (size : Bytes) : (out + 2 ^ (7 * i) * groupSum (b :: size)) % 2 ^ 64 =
        ((out + (b &&& 0x7f).toNat * 2 ^ (7 * i)) % 2 ^ 64 + 2 ^ (7 * (i + 1)) * groupSum size) %
          2 ^ 64 := by
      rw [groupSum_cons, Nat.mod_add_mod]
      congr 1
      ring
    rw [exists_cons_eq_append (by simp [EndsLast])]
    simp only [hsum, EndsLast, length_cons]
    split
    · constructor
      · intro h
        split at h
        · cases h
        · rename_i hmax
          cases h
          exact ⟨[], data, rfl, rfl, hi', rfl, by simp [groupSum], Nat.not_lt.mp hmax⟩
      · rintro ⟨size, rest, -, hk, -, rfl, hvalue, hmax⟩
        simp only [groupSum, map_nil, Nat.ofDigits_nil, Nat.mul_zero, Nat.add_zero, Nat.mod_mod] at hvalue
        rw [← hvalue, if_neg (Nat.not_lt.mpr hmax), ← hk]
        rfl
    · rw [ih (show i + 1 ≤ 10 from hi') hnext]
      refine exists_congr fun size => exists_congr fun rest => and_congr_right fun _ => ?_
      rw [show i + 1 + size.length = i + (size.length + 1) by omega]

/-- **What is read**: the bytes of a number, behind which others may be. -/
theorem readLEB128_eq_some_iff {k : ℕ} : readLEB128 data = some (value, k) ↔
      ∃ size rest, data = size ++ rest ∧ size.length = k ∧ IsLEB128 value size := by
  rw [readLEB128, readLEB128Loop_eq_some_iff (by decide) (by simp)]
  constructor
  · rintro ⟨size, rest, hdata, hk, hle, hends, hvalue, hmax⟩
    exact ⟨size, rest, hdata, by omega, hends, by omega, by simpa using hvalue, hmax⟩
  · rintro ⟨size, rest, hdata, hk, hends, hle, hvalue, hmax⟩
    exact ⟨size, rest, hdata, by omega, by omega, hends, by simpa using hvalue, hmax⟩

/-! ### Writing -/

lemma group_bits (b : UInt8) (h : b < 128) :
    b &&& 0x7f = b ∧ b &&& 0x80 = 0 ∧ (b ||| 0x80) &&& 0x7f = b ∧ (b ||| 0x80) &&& 0x80 ≠ 0 := by
  revert b
  exact forall_byte (by decide +kernel)

lemma group_lt (v : ℕ) : UInt8.ofNat (v &&& 0x7f) < 128 ∧
    (UInt8.ofNat (v &&& 0x7f)).toNat = v % 128 := by
  have h : v &&& 0x7f = v % 128 := Nat.and_two_pow_sub_one_eq_mod v 7
  have hn : (UInt8.ofNat (v &&& 0x7f)).toNat = v % 128 := by
    rw [UInt8.toNat_ofNat']
    omega
  refine ⟨?_, hn⟩
  rw [UInt8.lt_iff_toNat_lt, hn]
  exact Nat.mod_lt _ (by decide)

lemma appendLEB128Loop_spec {fuel : ℕ} :
    ∀ {v : ℕ}, v < 128 ^ fuel → 0 < fuel →
      EndsLast (appendLEB128Loop fuel v) ∧ groupSum (appendLEB128Loop fuel v) = v ∧
        (appendLEB128Loop fuel v).length ≤ fuel := by
  induction fuel with
  | zero => omega
  | succ fuel ih =>
    intro v hv _
    obtain ⟨hlt, hnat⟩ := group_lt v
    obtain ⟨hlow, hlast, hlow', hmore⟩ := group_bits _ hlt
    have hshift : v >>> 7 = v / 128 := Nat.shiftRight_eq_div_pow v 7
    rw [appendLEB128Loop]
    simp only [hshift]
    split
    · refine ⟨by rw [EndsLast, if_pos hlast], ?_, by simp⟩
      rw [groupSum_cons, hlow, hnat]
      simp [groupSum]
      omega
    · obtain ⟨hends, hsum, hle⟩ := ih (Nat.div_lt_of_lt_mul (by omega)) (v := v / 128) (by
        rcases Nat.eq_zero_or_pos fuel with rfl | h
        · omega
        · exact h)
      refine ⟨by rw [EndsLast, if_neg hmore]; exact hends, ?_, by rw [length_cons]; omega⟩
      rw [groupSum_cons, hlow', hnat, hsum]
      omega

lemma lt_of_le_maxInt64 {n : ℕ} (h : n ≤ maxInt64) : n < 2 ^ 64 := by
  unfold maxInt64 at h
  omega

lemma isLEB128_appendLEB128 (h : value ≤ maxInt64) : IsLEB128 value (appendLEB128 [] value) := by
  have hlt := lt_of_le_maxInt64 h
  have hten : value < 128 ^ 10 := by omega
  obtain ⟨hends, hsum, hle⟩ := appendLEB128Loop_spec hten (by decide)
  rw [appendLEB128, nil_append, Nat.mod_eq_of_lt hlt]
  exact ⟨hends, hle, by rw [hsum, Nat.mod_eq_of_lt hlt], h⟩

theorem readLEB128_append (h : value ≤ maxInt64) (rest : Bytes) :
    readLEB128 (appendLEB128 [] value ++ rest) = some (value, (appendLEB128 [] value).length) :=
  readLEB128_eq_some_iff.mpr ⟨_, rest, rfl, rfl, isLEB128_appendLEB128 h⟩

/-! ### Sizes -/

variable (fuel : ℕ)

lemma leb128SizeLoop_mono {v w : ℕ} (h : v ≤ w) :
    leb128SizeLoop fuel v ≤ leb128SizeLoop fuel w := by
  induction fuel generalizing v w with
  | zero => exact Nat.le_refl _
  | succ fuel ih =>
    rw [leb128SizeLoop, leb128SizeLoop]
    split
    · omega
    rw [if_neg (by omega)]
    have hshift : v >>> 7 ≤ w >>> 7 := by
      rw [Nat.shiftRight_eq_div_pow, Nat.shiftRight_eq_div_pow]
      exact Nat.div_le_div_right h
    have := ih hshift
    omega

lemma length_appendLEB128Loop {v : ℕ} (h : v < 128 ^ (fuel + 1)) :
    (appendLEB128Loop (fuel + 1) v).length = 1 + leb128SizeLoop (fuel + 1) (v >>> 7) := by
  induction fuel generalizing v with
  | zero =>
    have hz : v >>> 7 = 0 := by
      omega
    simp [appendLEB128Loop, leb128SizeLoop, hz]
  | succ fuel ih =>
    rw [appendLEB128Loop, leb128SizeLoop]
    split
    · rfl
    have hlt : v >>> 7 < 128 ^ (fuel + 1) := by
      rw [Nat.shiftRight_eq_div_pow]
      exact Nat.div_lt_of_lt_mul (by omega)
    rw [length_cons, ih hlt]
    omega

lemma toNat_emod_of_lt {n : ℕ} (h : n < 2 ^ 64) : ((n : ℤ) % 2 ^ 64).toNat = n := by
  omega

theorem length_appendLEB128 (value : ℕ) : (appendLEB128 [] value).length = leb128Size value := by
  exact length_appendLEB128Loop 9 (by omega)

theorem leb128Size_mono {m n : ℕ} (h : m ≤ n) (hn : n < 2 ^ 64) : leb128Size m ≤ leb128Size n := by
  unfold leb128Size
  rw [toNat_emod_of_lt hn, toNat_emod_of_lt (Nat.lt_of_le_of_lt h hn)]
  have hshift : m >>> 7 ≤ n >>> 7 := by
    rw [Nat.shiftRight_eq_div_pow, Nat.shiftRight_eq_div_pow]
    exact Nat.div_le_div_right h
  have := leb128SizeLoop_mono 10 hshift
  omega

lemma leb128SizeLoop_le_fuel (fuel v : ℕ) : leb128SizeLoop fuel v ≤ fuel := by
  induction fuel generalizing v with
  | zero => exact Nat.le_refl _
  | succ fuel ih =>
    rw [leb128SizeLoop]
    split
    · omega
    · have := ih (v >>> 7)
      omega

lemma leb128Size_le (value : ℤ) : leb128Size value ≤ 11 := by
  have := leb128SizeLoop_le_fuel 10 ((value % 2 ^ 64).toNat >>> 7)
  unfold leb128Size
  omega

/-! ### No shorter encoding -/

lemma leb128SizeLoop_le {v k : ℕ} (h : v < 128 ^ k) : leb128SizeLoop fuel v ≤ k := by
  induction fuel generalizing v k with
  | zero => exact Nat.zero_le _
  | succ fuel ih =>
    rw [leb128SizeLoop]
    split
    · exact Nat.zero_le _
    cases k with
    | zero => omega
    | succ k =>
      have hlt : v >>> 7 < 128 ^ k := by
        rw [Nat.shiftRight_eq_div_pow]
        exact Nat.div_lt_of_lt_mul (by omega)
      have := ih hlt
      omega

/-- The encoding is as short as one can be. -/
theorem length_appendLEB128_le {size : Bytes} (h : IsLEB128 value size) :
    (appendLEB128 [] value).length ≤ size.length := by
  have hlt : value < 128 ^ size.length := by
    rw [h.value_eq]
    exact Nat.lt_of_le_of_lt (Nat.mod_le _ _) (groupSum_lt size)
  rw [length_appendLEB128, leb128Size, toNat_emod_of_lt (lt_of_le_maxInt64 h.value_le)]
  cases size with
  | nil => exact h.ends.elim
  | cons b size =>
    rw [length_cons] at hlt ⊢
    have hshift : value >>> 7 < 128 ^ size.length := by
      rw [Nat.shiftRight_eq_div_pow]
      exact Nat.div_lt_of_lt_mul (by omega)
    have := leb128SizeLoop_le 10 hshift
    omega

/-! ### The value -/

lemma group_eq_zero : ∀ b : UInt8, b &&& 0x80 = 0 → ((b &&& 0x7f).toNat = 0 ↔ b = 0) :=
  forall_byte (by decide +kernel)

lemma EndsLast.eq_concat {bytes : Bytes} (h : EndsLast bytes) :
    ∃ init last, bytes = init ++ [last] ∧ (∀ b ∈ init, b &&& 0x80 ≠ 0) ∧ last &&& 0x80 = 0 := by
  induction bytes with
  | nil => exact h.elim
  | cons b rest ih =>
    rw [EndsLast] at h
    split at h
    · rename_i hlast
      exact ⟨[], b, by rw [h, nil_append], by simp, hlast⟩
    · rename_i hmore
      obtain ⟨init, last, rfl, hinit, hlast⟩ := ih h
      exact ⟨b :: init, last, rfl, forall_mem_cons.mpr ⟨hmore, hinit⟩, hlast⟩

/-- **The value of an encoding** is that of its groups exactly if one of the first nine bytes ends it or
the tenth is zero. -/
theorem readLEB128_value_iff (data : Bytes) (value : ℕ) :
    (∀ v k, readLEB128 data = some (v, k) →
      (v = groupSum (data.take k) ↔ (∃ b ∈ data.take 9, b &&& 0x80 = 0) ∨ data[9]? = some 0)) ∧
      (value ≤ maxInt64 → readLEB128 (appendLEB128 [] value) = some (value, leb128Size value)) := by
  constructor
  · intro v k h
    obtain ⟨size, rest, rfl, rfl, hsize⟩ := readLEB128_eq_some_iff.mp h
    obtain ⟨hends, hle, hvalue, hmax⟩ := hsize
    rw [take_left]
    obtain ⟨init, last, rfl, hinit, hlast⟩ := hends.eq_concat
    rw [length_append, length_singleton] at hle
    rw [append_assoc, singleton_append]
    rcases Nat.lt_or_ge init.length 9 with hshort | hlong
    · have hlt := groupSum_lt (init ++ [last])
      have hpow : 128 ^ (init ++ [last]).length ≤ 128 ^ 9 := by
        refine Nat.pow_le_pow_right (by decide) ?_
        rw [length_append, length_singleton]
        omega
      refine iff_of_true (hvalue.trans (Nat.mod_eq_of_lt (by omega))) (.inl ⟨last, ?_, hlast⟩)
      rw [take_append]
      refine mem_append_right _ ?_
      obtain ⟨n, hn⟩ : ∃ n, 9 - init.length = n + 1 := ⟨8 - init.length, by omega⟩
      simp [hn]
    · -- of the tenth group only the lowest bit is kept, which is refused
      have hnine : init.length = 9 := by omega
      have hsum : groupSum (init ++ [last]) = groupSum init + 2 ^ 63 * (last &&& 0x7f).toNat := by
        simp [groupSum, Nat.ofDigits_append, hnine]
      have hlt := groupSum_lt init
      rw [hnine] at hlt
      have hzero : ((last &&& 0x7f).toNat = 0 ↔ last = 0) := group_eq_zero last hlast
      have hnone : ¬ ∃ b ∈ (init ++ last :: rest).take 9, b &&& 0x80 = 0 := by
        rintro ⟨b, hb, hend⟩
        rw [← hnine, take_left] at hb
        exact hinit b hb hend
      have hget : (init ++ last :: rest)[9]? = some last := by
        rw [← hnine]
        simp
      rw [or_iff_right hnone, hget, Option.some.injEq, ← hzero, hvalue, hsum]
      rw [hvalue, hsum] at hmax
      unfold maxInt64 at hmax
      omega
  · intro hv
    simpa [length_appendLEB128] using readLEB128_append hv []

theorem readLEB128_value_iff_padded : readLEB128 [0x85, 0] = some (5, 2) ∧ 5 = groupSum [0x85, 0] :=
  ⟨by decide, ((readLEB128_value_iff [0x85, 0] 0).1 5 2 (by decide)).mpr (by decide)⟩

/-- The high bits of the tenth group are lost. -/
theorem readLEB128_drops_group : ¬ ∀ data v k, readLEB128 data = some (v, k) → v = groupSum (data.take k) := by
  intro h
  exact absurd (h (replicate 9 0x80 ++ [2]) 0 10 (by decide)) (by decide)

end Goav.Rtpav
