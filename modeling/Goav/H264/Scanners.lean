import Goav.H264.AnnexB
import Goav.Rtpav.H264Defs

/-!
The scanners `ForEachNAL` of `internal/h264` and `h264EachNALU` of `rtpav` find the same start codes.
Zeros behind a unit that belong to none are dropped by the second and stay in the unit with the first.
-/

namespace Goav.H264

open Goav.Av Goav.Rtpav List Option

/-! ### The same start codes -/

lemma codeWidth_cons (a : UInt8) (l : Bytes) : codeWidth (a :: l) =
    if [0, 0, 1].isPrefixOf (a :: l) then 3 else if a = 0 ∧ [0, 0, 1].isPrefixOf l then 4 else 0 := by
  match l with
  | [] => simp [codeWidth]
  | [b] => simp [codeWidth]
  | [b, c] => simp [codeWidth]; grind
  | b :: c :: d :: l => simp [codeWidth]; grind

lemma indexStartCode3_eq_zero_iff {l : Bytes} :
    indexStartCode3 l = some 0 ↔ [0, 0, 1].isPrefixOf l = true := by
  cases l with
  | nil => simp [indexStartCode3]
  | cons a l =>
    rw [indexStartCode3]
    split
    · next hhere => simp [hhere]
    · next hhere => simp [hhere]

lemma findFrom_eq (i : ℕ) (l : Bytes) : findFrom i l = (indexStartCode3 l).map fun j =>
    if 0 < j ∧ l[j - 1]? = some 0 then (i + j - 1, 4) else (i + j, 3) := by
  induction l generalizing i with
  | nil => rfl
  | cons a l ih =>
    rw [findFrom, codeWidth_cons, indexStartCode3]
    by_cases hhere : [0, 0, 1].isPrefixOf (a :: l) = true
    · simp [hhere]
    simp only [if_neg hhere, Option.map_map]
    by_cases hnext : [0, 0, 1].isPrefixOf l = true
    · have hindex := indexStartCode3_eq_zero_iff.mpr hnext
      by_cases ha : a = 0
      · simp [ha, hnext, hindex]
      · simp [ha, ih, hindex]
    · rw [if_neg (by simp [hnext]), ih]
      -- a later one: the byte before it is in the rest
      refine Option.map_congr fun j hj => ?_
      obtain ⟨j, rfl⟩ : ∃ k, j = k + 1 := by
        refine Nat.exists_eq_succ_of_ne_zero ?_
        rintro rfl
        exact hnext (indexStartCode3_eq_zero_iff.mp hj)
      simp only [Function.comp_apply, Nat.succ_pos]
      congr 2 <;> omega

lemma findStartCode_eq (data : Bytes) (offset : ℕ) :
    findStartCode data offset = h264StartCode data offset := by
  rw [findStartCode, h264StartCode, findFrom_eq]
  split
  · next hle => rw [drop_of_length_le hle]; rfl
  · cases indexStartCode3 (data.drop offset) with
    | none => rfl
    | some j =>
      cases j with
      | zero => simp
      | succ j =>
        simp [Nat.add_comm offset, apply_ite some]

/-! ### What stands between two start codes -/

def trimmed (nal : Bytes) : List Bytes :=
  if (h264TrimZeros nal).isEmpty then [] else [h264TrimZeros nal]

lemma naluBetween_eq (data : Bytes) (start stop : ℕ) :
    naluBetween data start stop = trimmed ((data.drop start).take (stop - start)) := by
  rw [naluBetween, trimmed, drop_take]

lemma trimmed_replicate (k : ℕ) : trimmed (replicate k 0) = [] := by
  have htrim : h264TrimZeros (replicate k 0) = [] :=
    rdropWhile_eq_nil_iff.mpr fun x hx => by rw [eq_of_mem_replicate hx]; rfl
  rw [trimmed, htrim]
  rfl

lemma findFrom_lt {i j width : ℕ} {l : Bytes} (h : findFrom i l = some (j, width)) :
    j < i + l.length := by
  induction l generalizing i with
  | nil => cases h
  | cons a l ih =>
    rw [findFrom] at h
    rw [length_cons]
    split at h
    · cases h
      omega
    · have := ih h
      omega

variable {data nal : Bytes}

lemma findStartCode_lt {offset j width : ℕ} (h : findStartCode data offset = some (j, width)) :
    j < data.length := by
  by_cases hle : data.length ≤ offset
  · rw [findStartCode, drop_of_length_le hle] at h
    cases h
  · have := findFrom_lt h
    rw [length_drop] at this
    omega

lemma h264NALUsFrom_end (data : Bytes) (fuel width : ℕ) :
    h264NALUsFrom data fuel data.length width = [] := by
  cases fuel with
  | zero => rfl
  | succ fuel => rw [h264NALUsFrom, if_pos le_rfl]

variable {nals : List Bytes}

lemma h264NALUsFrom_eq {fuel start width : ℕ} (hstart : start < data.length)
    (h : forEachNALLoop data fuel start width = (nals, none)) :
    h264NALUsFrom data fuel start width = nals.flatMap trimmed := by
  induction fuel generalizing start width nals with
  | zero =>
    cases h
    rfl
  | succ fuel ih =>
    rw [forEachNALLoop] at h
    rw [h264NALUsFrom, if_neg (Nat.not_le.mpr hstart)]
    simp only [naluBetween_eq, ← findStartCode_eq] at h ⊢
    split at h
    · cases h
    cases hnext : findStartCode data (start + width) with
    | none =>
      simp only [hnext] at h ⊢
      cases h
      simp [h264NALUsFrom_end]
    | some next =>
      simp only [hnext] at h ⊢
      obtain ⟨rfl, hrest⟩ := Prod.mk.inj h
      simp only [getD_some, map_some, flatMap_cons]
      rw [ih (findStartCode_lt hnext) (Prod.ext rfl hrest)]

/-- **The second scanner is the first one without the zeros**. -/
theorem h264EachNALU_eq (h : forEachNAL data = (nals, none)) : h264EachNALU data = nals.flatMap trimmed := by
  rw [forEachNAL] at h
  rw [h264EachNALU, ← findStartCode_eq]
  split at h
  · cases h
  next start width hnext =>
  split at h
  · cases h
  next hzeros =>
  simp only [hnext, getD_some, naluBetween_eq, drop_zero, Nat.sub_zero]
  have hlead : data.take start = replicate (data.take start).length 0 :=
    eq_replicate_of_mem fun x hx => by
      by_contra hne
      exact hzeros (any_eq_true.mpr ⟨x, hx, by simpa using hne⟩)
  rw [hlead, trimmed_replicate, nil_append, h264NALUsFrom_eq (findStartCode_lt hnext) h]

lemma h264EachNALU_reads {k : ℕ} (h : Reads data nals) (hskips : Skips (replicate k 0) data) :
    h264EachNALU (replicate k 0 ++ data) = nals.flatMap trimmed := by
  have hfor := forEachNAL_reads h hskips
  by_cases hnil : data = []
  · subst hnil
    obtain rfl := h.eq_nil
    have hnone : findStartCode (replicate k 0 ++ []) 0 = none := hskips 0
    rw [h264EachNALU, ← findStartCode_eq, hnone]
    simp only [getD_none, h264NALUsFrom_end, naluBetween_eq]
    simp [trimmed_replicate]
  · rw [if_neg hnil] at hfor
    exact h264EachNALU_eq hfor

/-! ### Renderings -/

/-- A unit as an encoder makes it: no two zeros stand before a byte below three. -/
structure EscapedUnit (nal : Bytes) : Prop where
  ne_nil : nal ≠ []
  last : nal.getLast? ≠ some 0
  escaped : ∀ b ∈ [0, 1, 2], ¬ [0, 0, b] <:+: nal

/-- Units behind zeros and a one. -/
def rendering (parts : List (ℕ × Bytes)) (trailing : ℕ) : Bytes :=
  parts.flatMap (fun part => List.replicate part.1 0 ++ 1 :: part.2) ++ List.replicate trailing 0

def spare : List (ℕ × Bytes) → ℕ → ℕ
  | [], trailing => trailing
  | next :: _, _ => next.1 - 3

def padded : List (ℕ × Bytes) → ℕ → List Bytes
  | [], _ => []
  | part :: parts, trailing =>
    (part.2 ++ List.replicate (spare parts trailing) 0) :: padded parts trailing

lemma Skips.append {zeros tail : Bytes} (h : Skips nal (zeros ++ tail)) (hzeros : Skips zeros tail) :
    Skips (nal ++ zeros) tail := by
  intro i
  rw [append_assoc, h, hzeros, length_append, Nat.add_assoc]

lemma codeWidth_of_ne {a b : UInt8} (h : a ≠ 0 ∨ b ≠ 0) (l : Bytes) : codeWidth (a :: b :: l) = 0 := by
  cases l with
  | nil => rfl
  | cons c l => exact if_pos h

lemma skips_escaped (hlast : nal.getLast? ≠ some 0)
    (hescaped : ∀ b ∈ [0, 1, 2], ¬ [0, 0, b] <:+: nal) (tail : Bytes) : Skips nal tail := by
  induction nal with
  | nil => exact fun i => rfl
  | cons a nal ih =>
    have hrest : Skips nal tail := by
      refine ih ?_ fun b hb h => hescaped b hb (infix_cons h)
      cases nal with
      | nil => simp
      | cons b nal => simpa using hlast
    refine .cons ?_ hrest
    match nal with
    | [] =>
      have ha : a ≠ 0 := by simpa using hlast
      cases tail with
      | nil => rfl
      | cons b tail => exact codeWidth_of_ne (.inl ha) tail
    | [b] =>
      have hb : b ≠ 0 := by simpa using hlast
      exact codeWidth_of_ne (.inr hb) tail
    | b :: c :: nal =>
      by_cases hne : a ≠ 0 ∨ b ≠ 0
      · exact codeWidth_of_ne hne _
      obtain ⟨rfl, rfl⟩ : a = 0 ∧ b = 0 := by simpa using hne
      have hzero : c ≠ 0 := fun hc => hescaped 0 (by simp) ⟨[], nal, by simp [hc]⟩
      have hone : c ≠ 1 := fun hc => hescaped 1 (by simp) ⟨[], nal, by simp [hc]⟩
      simp [codeWidth, hzero, hone]

lemma skips_zeros {tail : Bytes} (htail : Follows tail) (k : ℕ) : Skips (replicate k 0) tail := by
  refine skips_unit (fun h => ?_) htail
  have hone : (1 : UInt8) ∈ replicate k 0 := h.subset (by simp)
  exact absurd (eq_of_mem_replicate hone) (by decide)

/-- The zeros and the one before a unit are a start code and zeros before it. -/
lemma exists_code {zeros : ℕ} (h : 2 ≤ zeros) : ∃ code : Bytes, code ≠ [] ∧
    replicate zeros 0 ++ [1] = replicate (zeros - 3) 0 ++ code ∧
    (∀ rest, codeWidth (code ++ rest) = code.length) ∧
    ∀ rest, Skips (replicate (zeros - 3) 0) (code ++ rest) := by
  obtain rfl | h := Nat.eq_or_lt_of_le h
  · exact ⟨[0, 0, 1], by simp, rfl, fun rest => rfl, fun rest i => rfl⟩
  · refine ⟨startCode, by simp [startCode], ?_, fun rest => rfl, fun rest => skips_zeros (.inr ⟨rest, rfl⟩) _⟩
    obtain ⟨k, rfl⟩ := Nat.exists_eq_add_of_le' h
    simp [replicate_succ', startCode]

lemma reads_rendering {parts : List (ℕ × Bytes)} (hparts : ∀ p ∈ parts, 2 ≤ p.1 ∧ EscapedUnit p.2)
    (trailing : ℕ) : ∃ data, rendering parts trailing = replicate (spare parts trailing) 0 ++ data ∧
    Reads data (padded parts trailing) ∧ Skips (replicate (spare parts trailing) 0) data := by
  induction parts with
  | nil => exact ⟨[], by simp [rendering, spare], .nil, skips_zeros (.inl rfl) trailing⟩
  | cons part parts ih =>
    obtain ⟨hzeros, hunit⟩ := hparts part mem_cons_self
    obtain ⟨code, hne, hcode, hwidth, hskips⟩ := exists_code hzeros
    obtain ⟨data, hdata, hreads, hskipped⟩ := ih fun p hp => hparts p (mem_cons_of_mem _ hp)
    refine ⟨code ++ (part.2 ++ replicate (spare parts trailing) 0 ++ data), ?_, ?_, hskips _⟩
    · have hcons : rendering (part :: parts) trailing =
          replicate part.1 0 ++ [1] ++ (part.2 ++ rendering parts trailing) := by simp [rendering]
      rw [hcons, hcode, hdata]
      simp [spare]
    · refine .cons (hwidth _) hne (by simp [hunit.ne_nil]) ?_ hreads
      exact (skips_escaped hunit.last hunit.escaped _).append hskipped

lemma trimmed_append (hne : nal ≠ []) (hlast : nal.getLast? ≠ some 0) (k : ℕ) :
    trimmed (nal ++ replicate k 0) = [nal] := by
  have htrim : h264TrimZeros (nal ++ replicate k 0) = nal := by
    induction k with
    | zero =>
      rw [replicate_zero, append_nil]
      refine rdropWhile_eq_self_iff.mpr fun hl => ?_
      rw [getLast?_eq_getLast_of_ne_nil hl] at hlast
      simpa using hlast
    | succ k ih =>
      rw [replicate_succ', ← append_assoc]
      exact (rdropWhile_concat_pos _ _ _ rfl).trans ih
  rw [trimmed, htrim, if_neg (by simpa using hne)]

lemma flatMap_trimmed_padded {parts : List (ℕ × Bytes)}
    (hparts : ∀ p ∈ parts, 2 ≤ p.1 ∧ EscapedUnit p.2) (trailing : ℕ) :
    (padded parts trailing).flatMap trimmed = parts.map Prod.snd := by
  induction parts with
  | nil => rfl
  | cons part parts ih =>
    have hunit := (hparts part mem_cons_self).2
    rw [padded, flatMap_cons, trimmed_append hunit.ne_nil hunit.last,
      ih fun p hp => hparts p (mem_cons_of_mem _ hp)]
    rfl

lemma padded_eq_iff (parts : List (ℕ × Bytes)) (trailing : ℕ) :
    padded parts trailing = parts.map Prod.snd ↔
    parts = [] ∨ trailing = 0 ∧ ∀ p ∈ parts.tail, p.1 ≤ 3 := by
  induction parts with
  | nil => simp [padded]
  | cons part parts ih =>
    rw [padded, map_cons, cons.injEq, append_right_eq_self, replicate_eq_nil_iff, ih]
    cases parts with
    | nil => simp [spare]
    | cons next parts =>
      simp only [spare, Nat.sub_eq_zero_iff_le, tail_cons, forall_mem_cons]
      tauto

/-- **When the scanners agree**: `h264EachNALU` finds the units of every Annex B form, and `ForEachNAL`
exactly when no zeros stand between them but those of the start codes. -/
theorem scanners_find_units_iff (parts : List (ℕ × Bytes)) (trailing : ℕ)
    (hparts : ∀ p ∈ parts, 2 ≤ p.1 ∧ EscapedUnit p.2) :
    ((forEachNAL (rendering parts trailing)).1 = parts.map Prod.snd ∧
      h264EachNALU (rendering parts trailing) = parts.map Prod.snd) ↔
    parts = [] ∨ trailing = 0 ∧ ∀ p ∈ parts.tail, p.1 ≤ 3 := by
  obtain ⟨data, hdata, hreads, hskips⟩ := reads_rendering hparts trailing
  have hfor := forEachNAL_reads hreads hskips
  have heach := h264EachNALU_reads hreads hskips
  rw [← hdata] at hfor heach
  rw [hfor, heach, flatMap_trimmed_padded hparts, padded_eq_iff]
  exact and_iff_left rfl

theorem forEachNAL_keeps_zero :
    ¬ ∀ (parts : List (ℕ × Bytes)) (trailing : ℕ), (∀ p ∈ parts, 2 ≤ p.1 ∧ EscapedUnit p.2) →
      (forEachNAL (rendering parts trailing)).1 = parts.map Prod.snd ∧
        h264EachNALU (rendering parts trailing) = parts.map Prod.snd := by
  intro h
  have hunit : EscapedUnit [0x65] := ⟨by decide, by decide, by simp [infix_cons_iff]⟩
  have hnals := (h [(2, [0x65])] 1 (by simp [hunit])).1
  have hzero : (forEachNAL (rendering [(2, [0x65])] 1)).1 = [[0x65, 0]] := by decide
  rw [hzero] at hnals
  exact absurd hnals (by decide)

theorem scanners_find_units_two :
    (forEachNAL (rendering [(5, [0x67, 0, 0, 3]), (3, [0x65])] 0)).1 = [[0x67, 0, 0, 3], [0x65]] ∧
      h264EachNALU (rendering [(5, [0x67, 0, 0, 3]), (3, [0x65])] 0) = [[0x67, 0, 0, 3], [0x65]] := by
  have hunits : EscapedUnit [0x67, 0, 0, 3] ∧ EscapedUnit [0x65] :=
    ⟨⟨by decide, by decide, by simp [infix_cons_iff]⟩, ⟨by decide, by decide, by simp [infix_cons_iff]⟩⟩
  exact (scanners_find_units_iff _ 0 (by simp [hunits])).mpr (.inr ⟨rfl, by simp⟩)

end Goav.H264
