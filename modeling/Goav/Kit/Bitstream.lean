import Goav.H264.AnnexB
import Mathlib.Data.List.DropRight

/-!
How `libcodec/kit` reads a payload (`bitstream.go`): as Annex B where it begins with a start code, and
otherwise as units behind lengths. A length can look like a start code.
-/

namespace Goav.Kit

open Goav.Av Goav.Lib Goav.H264 List

def trimTrailingZeros (nal : Bytes) : Bytes := nal.rdropWhile (· = 0)

/-- The loop of `nalUnits`. A unit is open from the first start code on. -/
def nalUnitsFrom (unit : Option Bytes) : Bytes → List Bytes
  | a :: b :: c :: data =>
    if a = 0 ∧ b = 0 ∧ c = 1 then
      (unit.map trimTrailingZeros).toList ++ nalUnitsFrom (some []) data
    else nalUnitsFrom (unit.map (· ++ [a])) (b :: c :: data)
  | rest => (unit.map (· ++ rest)).toList.filter (· ≠ [])

variable (data : Bytes)

def nalUnits : List Bytes := nalUnitsFrom none data

def hasStartCode : Bool := [0, 0, 1].isPrefixOf data || startCode.isPrefixOf data

/-- The loop of `lengthPrefixed`; every turn takes a length. -/
def lengthPrefixedLoop : ℕ → Bytes → Option (List Bytes)
  | 0, _ => some []
  | fuel + 1, data =>
    if data = [] then some []
    else if data.length < 4 then none
    else
      let n := beNat (data.take 4)
      let data := data.drop 4
      if data.length < n then none
      else (lengthPrefixedLoop fuel (data.drop n)).map (data.take n :: ·)

def lengthPrefixed : Option (List Bytes) := lengthPrefixedLoop data.length data

def accessUnit : Option (List Bytes) :=
  if hasStartCode data then some (nalUnits data) else lengthPrefixed data

def appendAnnexB (dst : Bytes) (units : List Bytes) : Bytes :=
  units.foldl (fun dst unit => dst ++ (startCode ++ unit)) dst

def appendAVCC (dst : Bytes) (units : List Bytes) : Bytes :=
  units.foldl (fun dst unit => dst ++ (beBytes 4 unit.length ++ unit)) dst

/-- A unit that ends where it seems to: without a start code, and not in a zero. -/
structure PlainUnit (unit : Bytes) : Prop extends NALUnit unit where
  last : unit.getLast? ≠ some 0

instance (unit : Bytes) : Decidable (PlainUnit unit) :=
  decidable_of_iff ((unit ≠ [] ∧ unit.length < 2 ^ 32 ∧ ¬ [0, 0, 1] <:+: unit) ∧ unit.getLast? ≠ some 0)
    ⟨fun ⟨⟨hne, hlength, hfree⟩, hlast⟩ => ⟨⟨hne, hlength, hfree⟩, hlast⟩,
      fun h => ⟨⟨h.ne_nil, h.length_lt, h.free⟩, h.last⟩⟩

variable {units : List Bytes} {unit tail : Bytes}

/-! ### Start codes -/

lemma nalUnitsFrom_cons {a : UInt8} {data : Bytes} (h : codeWidth (a :: data) = 0) (before : Bytes) :
    nalUnitsFrom (some before) (a :: data) = nalUnitsFrom (some (before ++ [a])) data := by
  match data with
  | [] => simp [nalUnitsFrom]
  | [b] => simp [nalUnitsFrom]
  | b :: c :: data =>
    have hcode : ¬ (a = 0 ∧ b = 0 ∧ c = 1) := by
      rintro ⟨rfl, rfl, rfl⟩
      simp [codeWidth] at h
    rw [nalUnitsFrom, if_neg hcode]
    rfl

lemma nalUnitsFrom_unit (hfree : ¬ [0, 0, 1] <:+: unit) (htail : Follows tail) (before : Bytes) :
    nalUnitsFrom (some before) (unit ++ tail) = nalUnitsFrom (some (before ++ unit)) tail := by
  induction unit generalizing before with
  | nil => simp
  | cons a unit ih =>
    have hcode : codeWidth (a :: (unit ++ tail)) = 0 := codeWidth_unit hfree htail
    rw [cons_append, nalUnitsFrom_cons hcode, ih (free_tail hfree)]
    simp

lemma trimTrailingZeros_concat (h : unit.getLast? ≠ some 0) :
    trimTrailingZeros (unit ++ [0]) = unit := by
  refine (rdropWhile_concat_pos _ _ _ (by simp)).trans (rdropWhile_eq_self_iff.mpr fun hne => ?_)
  rw [getLast?_eq_getLast_of_ne_nil hne] at h
  simpa using h

/-- The first zero of a start code is taken for one of the unit before it, and trimmed. -/
lemma nalUnitsFrom_startCode (h : unit.getLast? ≠ some 0) (data : Bytes) :
    nalUnitsFrom (some unit) (startCode ++ data) = unit :: nalUnitsFrom (some []) data := by
  simp [nalUnitsFrom, startCode, trimTrailingZeros_concat h]

lemma nalUnitsFrom_annexB (hunits : ∀ unit ∈ units, PlainUnit unit) (hunit : PlainUnit unit) :
    nalUnitsFrom (some []) (unit ++ annexB units) = unit :: units := by
  rw [nalUnitsFrom_unit hunit.free (follows_annexB units), nil_append]
  induction units generalizing unit with
  | nil => simp [annexB, nalUnitsFrom, hunit.ne_nil]
  | cons next units ih =>
    have hnext := hunits next mem_cons_self
    rw [annexB, flatMap_cons, append_assoc, nalUnitsFrom_startCode hunit.last]
    rw [← annexB, nalUnitsFrom_unit hnext.free (follows_annexB units), nil_append,
      ih (fun unit h => hunits unit (mem_cons_of_mem _ h)) hnext]

/-! ### Lengths -/

lemma lengthPrefixedLoop_avccSample (hunits : ∀ unit ∈ units, PlainUnit unit) {fuel : ℕ}
    (hfuel : units.length ≤ fuel) : lengthPrefixedLoop fuel (avccSample units) = some units := by
  induction units generalizing fuel with
  | nil => cases fuel <;> rfl
  | cons unit units ih =>
    obtain ⟨fuel, rfl⟩ := Nat.exists_eq_succ_of_ne_zero (Nat.ne_zero_of_lt hfuel)
    have hlength := (hunits unit mem_cons_self).length_lt
    have hdata : avccSample (unit :: units) = beBytes 4 unit.length ++ (unit ++ avccSample units) := by
      simp [avccSample]
    have hne : beBytes 4 unit.length ++ (unit ++ avccSample units) ≠ [] := by simp [beBytes]
    rw [hdata, lengthPrefixedLoop, if_neg hne]
    simp only [take_left' (length_beBytes 4 _), drop_left' (length_beBytes 4 _),
      beNat_beBytes_of_lt (w := 4) hlength, length_append, length_beBytes, take_left, drop_left]
    rw [if_neg (by omega), if_neg (by omega),
      ih (fun unit h => hunits unit (mem_cons_of_mem _ h)) (Nat.le_of_succ_le_succ hfuel)]
    rfl

/-- The length begins with a start code. -/
def LooksLikeStartCode (length : ℕ) : Prop := length = 1 ∨ 256 ≤ length ∧ length < 512

lemma hasStartCode_length {n : ℕ} (hn : n < 2 ^ 32) (h : ¬ LooksLikeStartCode n) (data : Bytes) :
    hasStartCode (beBytes 4 n ++ data) = false := by
  unfold LooksLikeStartCode at h
  simp [hasStartCode, startCode, beBytes, isPrefixOf, ← UInt8.toNat_inj]
  omega

/-! ### Lengths that look like start codes -/

/-- The first unit is the rest of the data, or ends in front of a start code. -/
lemma head_nalUnitsFrom {before data w : Bytes} {ws : List Bytes}
    (h : nalUnitsFrom (some before) data = w :: ws) :
    w = before ++ data ∨ ∃ x rest, data = x ++ 0 :: 0 :: 1 :: rest ∧
      w = trimTrailingZeros (before ++ x) ∧ ws = nalUnitsFrom (some []) rest := by
  match data with
  | a :: b :: c :: data =>
    rw [nalUnitsFrom] at h
    split at h
    · rename_i hcode
      obtain ⟨rfl, rfl, rfl⟩ := hcode
      cases h
      exact .inr ⟨[], data, rfl, by simp, rfl⟩
    · rcases head_nalUnitsFrom h with rfl | ⟨x, rest, heq, rfl, rfl⟩
      · exact .inl (by simp)
      · exact .inr ⟨a :: x, rest, by simp [heq], by simp, rfl⟩
  | [] | [_] | [_, _] =>
    simp only [nalUnitsFrom, Option.map_some, Option.toList_some, filter_cons, filter_nil] at h
    split at h
    · exact .inl (cons.inj h).1.symm
    · cases h

/-- The unit that ends in front of a start code has zeros behind it at most. -/
lemma zeros_of_trim {x : Bytes} (h : unit = trimTrailingZeros x) :
    ∃ zeros, x = unit ++ zeros ∧ ∀ z ∈ zeros, z = 0 := by
  refine ⟨x.rtakeWhile (· = 0), ?_, fun z hz => by simpa using mem_rtakeWhile_imp hz⟩
  rw [h]
  exact rdropWhile_append_rtakeWhile.symm

/-- A length is a start code as a whole, or but for its last byte. -/
lemma length_of_startCode {n : ℕ} (hn : n < 2 ^ 32) (hpos : 0 < n) {zeros y rest : Bytes}
    (hzeros : ∀ z ∈ zeros, z = 0) (h : beBytes 4 n ++ y = zeros ++ 0 :: 0 :: 1 :: rest) :
    n = 1 ∧ rest = y ∨ ∃ b, rest = b :: y := by
  match zeros with
  | [] =>
    simp [beBytes] at h
    exact .inr ⟨_, h.2.2.2.symm⟩
  | [z] =>
    simp [beBytes, hzeros z, ← UInt8.toNat_inj] at h
    exact .inl ⟨by omega, h.2.2.2.2.symm⟩
  | [z, z'] | [z, z', z''] | z :: z' :: z'' :: z₃ :: zeros =>
    -- the length would be zero
    simp_all [beBytes, ← UInt8.toNat_inj]
    omega

/-- A unit with a byte in front of it is not read as itself. -/
lemma nalUnitsFrom_shifted (h : unit.getLast? ≠ some 0) (hne : unit ≠ []) (b : UInt8) (tail : Bytes)
    (ws : List Bytes) : nalUnitsFrom (some []) (b :: (unit ++ tail)) ≠ unit :: ws := by
  intro hread
  rcases head_nalUnitsFrom hread with heq | ⟨x, rest, heq, htrim, -⟩
  · have := congrArg length heq
    simp at this
    omega
  · obtain ⟨zeros, rfl, hzeros⟩ := zeros_of_trim htrim
    obtain ⟨init, last, rfl⟩ := (eq_nil_or_concat unit).resolve_left hne
    -- the byte behind the unit is its last one, and a zero
    have hbyte : last :: tail = zeros ++ 0 :: 0 :: 1 :: rest := by
      simpa using congrArg (drop (init.length + 1)) heq
    cases zeros <;> simp_all

lemma length_one_of_read (hunits : ∀ unit ∈ units, PlainUnit unit) (hunit : PlainUnit unit)
    (h : nalUnitsFrom (some []) (unit ++ avccSample units) = unit :: units) :
    ∀ unit ∈ units, unit.length = 1 := by
  induction units generalizing unit with
  | nil => simp
  | cons next units ih =>
    obtain ⟨hnext, hunits⟩ := forall_mem_cons.mp hunits
    have hdata : avccSample (next :: units) = beBytes 4 next.length ++ (next ++ avccSample units) := by
      simp [avccSample]
    rw [hdata] at h
    rcases head_nalUnitsFrom h with heq | ⟨x, rest, heq, htrim, hrest⟩
    · simp [beBytes] at heq
    · obtain ⟨zeros, rfl, hzeros⟩ := zeros_of_trim htrim
      rw [append_assoc, append_cancel_left_eq] at heq
      rcases length_of_startCode hnext.length_lt (length_pos_of_ne_nil hnext.ne_nil) hzeros heq with
        ⟨hone, rfl⟩ | ⟨b, rfl⟩
      · exact forall_mem_cons.mpr ⟨hone, ih hunits hnext hrest.symm⟩
      · exact absurd hrest.symm (nalUnitsFrom_shifted hnext.last hnext.ne_nil b _ _)

/-- **A packet is read back as it was written**: always from Annex B, and from lengths exactly if the
first one is no start code, or all are. -/
theorem accessUnit_reads_back (hunits : ∀ unit ∈ units, PlainUnit unit) (hne : units ≠ []) :
    accessUnit (appendAnnexB [] units) = some units ∧
    (accessUnit (appendAVCC [] units) = some units ↔
      (∀ unit ∈ units.head?, ¬ LooksLikeStartCode unit.length) ∨ ∀ unit ∈ units, unit.length = 1) := by
  have hannexB : appendAnnexB [] units = annexB units := (flatMap_eq_foldl ..).symm
  have havcc : appendAVCC [] units = avccSample units := (flatMap_eq_foldl ..).symm
  obtain ⟨unit, rest, rfl⟩ := exists_cons_of_ne_nil hne
  have hunit := hunits unit mem_cons_self
  have hrest := fun unit h => hunits unit (mem_cons_of_mem _ h)
  have hdata : annexB (unit :: rest) = startCode ++ (unit ++ annexB rest) := by simp [annexB]
  have hsample : avccSample (unit :: rest) = beBytes 4 unit.length ++ (unit ++ avccSample rest) := by
    simp [avccSample]
  have hread : accessUnit (annexB (unit :: rest)) = some (unit :: rest) := by
    simp [hdata, accessUnit, hasStartCode, nalUnits, nalUnitsFrom, startCode,
      nalUnitsFrom_annexB hrest hunit]
  rw [hannexB, havcc]
  refine ⟨hread, fun h => or_iff_not_imp_left.mpr fun hlooks => ?_, ?_⟩
  · have hlooks : LooksLikeStartCode unit.length := by simpa using hlooks
    rcases hlooks with hone | hlong
    · rw [hsample, hone] at h
      have hunits' := length_one_of_read hrest hunit (Option.some.inj h)
      exact forall_mem_cons.mpr ⟨hone, hunits'⟩
    · have hcode : beBytes 4 unit.length = [0, 0, 1, UInt8.ofNat unit.length] := by
        simp [beBytes, ← UInt8.toNat_inj]
        omega
      rw [hsample, hcode] at h
      exact absurd (Option.some.inj h) (nalUnitsFrom_shifted hunit.last hunit.ne_nil _ _ _)
  · rintro (hfirst | hone)
    · have hcode : hasStartCode (avccSample (unit :: rest)) = false := by
        rw [hsample]
        exact hasStartCode_length hunit.length_lt (hfirst unit rfl) _
      rw [accessUnit, hcode]
      exact lengthPrefixedLoop_avccSample hunits
        (length_le_flatMap (fun unit => beBytes 4 unit.length ++ unit) (by simp) _)
    · have hsame : avccSample (unit :: rest) = annexB (unit :: rest) :=
        flatMap_congr fun unit h => by rw [hone unit h]; rfl
      rw [hsame, hread]

/-- The length of a unit of one byte is taken for a start code. -/
theorem accessUnit_misreads_length :
    ¬ ∀ units : List Bytes, (∀ unit ∈ units, PlainUnit unit) → units ≠ [] →
      accessUnit (appendAnnexB [] units) = some units ∧ accessUnit (appendAVCC [] units) = some units := by
  intro h
  have hread := (h [[9], [0x65, 7]] (by decide) (by decide)).2
  exact absurd hread (by decide)

theorem accessUnit_reads_back_two :
    accessUnit (appendAnnexB [] [[0x67, 0, 3], [9]]) = some [[0x67, 0, 3], [9]] ∧
    accessUnit (appendAVCC [] [[0x67, 0, 3], [9]]) = some [[0x67, 0, 3], [9]] := by
  have hunits : ∀ unit ∈ [[0x67, 0, 3], [9]], PlainUnit unit := by decide
  obtain ⟨hannexB, havcc⟩ := accessUnit_reads_back hunits (by decide)
  exact ⟨hannexB, havcc.mpr (.inl (by simp [LooksLikeStartCode]))⟩

end Goav.Kit
