import Goav.Av.Types
import Goav.Lib.BigEndian

/-!
H.264 access units (`internal/h264`, `annexb.go`, `h264.go`): as Annex B, and as an AVCC sample. The
callbacks of `ForEachNAL` do not fail, so that it is the list of the units. Sizes are unbounded.
-/

namespace Goav.H264

open Goav.Av Goav.Lib List

inductive Err where
  | invalid

def startCode : Bytes := [0, 0, 0, 1]

/-! ### From AVCC to Annex B -/

/-- The loop of `AppendAnnexB`. Every turn takes a byte. -/
def appendAnnexBLoop (lengthSize : ℕ) : ℕ → Bytes → Bytes → Bytes × Option Err
  | 0, dst, _ => (dst, none)
  | fuel + 1, dst, src =>
    if src = [] then (dst, none)
    else if src.length < lengthSize then (dst, some .invalid)
    else
      let size := beNat (src.take lengthSize)
      let src := src.drop lengthSize
      if size = 0 ∨ src.length < size then (dst, some .invalid)
      else appendAnnexBLoop lengthSize fuel (dst ++ startCode ++ src.take size) (src.drop size)

def appendAnnexB (dst src : Bytes) (lengthSize : ℕ) : Bytes × Option Err :=
  appendAnnexBLoop lengthSize src.length dst src

/-! ### From Annex B to AVCC -/

def codeWidth : Bytes → ℕ
  | a :: b :: c :: rest =>
    if a ≠ 0 ∨ b ≠ 0 then 0
    else if c = 1 then 3
    else if c = 0 ∧ rest.head? = some 1 then 4
    else 0
  | _ => 0

/-- The first start code of the bytes that stand at an offset: where it is, and its width. -/
def findFrom : ℕ → Bytes → Option (ℕ × ℕ)
  | _, [] => none
  | i, a :: data =>
    if codeWidth (a :: data) ≠ 0 then some (i, codeWidth (a :: data)) else findFrom (i + 1) data

def findStartCode (data : Bytes) (offset : ℕ) : Option (ℕ × ℕ) := findFrom offset (data.drop offset)

/-- The loop of `ForEachNAL` from a start code on. -/
def forEachNALLoop (data : Bytes) : ℕ → ℕ → ℕ → List Bytes × Option Err
  | 0, _, _ => ([], none)
  | fuel + 1, start, width =>
    let nalStart := start + width
    let next := findStartCode data nalStart
    let nalEnd := (next.map Prod.fst).getD data.length
    if nalEnd ≤ nalStart then ([], some .invalid)
    else
      let nal := (data.drop nalStart).take (nalEnd - nalStart)
      match next with
      | none => ([nal], none)
      | some (start, width) =>
        let (nals, err) := forEachNALLoop data fuel start width
        (nal :: nals, err)

def forEachNAL (data : Bytes) : List Bytes × Option Err :=
  match findStartCode data 0 with
  | none => ([], some .invalid)
  | some (start, width) =>
    if (data.take start).any (· ≠ 0) then ([], some .invalid)
    else forEachNALLoop data data.length start width

def appendAVC (dst src : Bytes) : Bytes × Option Err :=
  let (nals, err) := forEachNAL src
  (dst ++ nals.flatMap fun nal => beBytes 4 nal.length ++ nal, err)

/-! ### Types -/

def typeAt (nalType : UInt8) : Bytes → Bool
  | a :: b :: c :: d :: rest =>
    if a ≠ 0 ∨ b ≠ 0 then false
    else if c = 1 then d &&& 0x1f = nalType
    else if c = 0 ∧ d = 1 then rest.head?.any (· &&& 0x1f = nalType)
    else false
  | _ => false

def containsNAL (nalType : UInt8) : Bytes → Bool
  | [] => false
  | a :: data => typeAt nalType (a :: data) || containsNAL nalType data

/-! ### The two forms of a list of units -/

def avccSample (units : List Bytes) : Bytes := units.flatMap fun nal => beBytes 4 nal.length ++ nal

def annexB (units : List Bytes) : Bytes := units.flatMap fun nal => startCode ++ nal

/-- A unit that either form can carry. -/
structure NALUnit (nal : Bytes) : Prop where
  ne_nil : nal ≠ []
  length_lt : nal.length < 2 ^ 32
  free : ¬ [0, 0, 1] <:+: nal

lemma length_le_flatMap (f : Bytes → Bytes) (hf : ∀ nal, 0 < (f nal).length) (units : List Bytes) :
    units.length ≤ (units.flatMap f).length := by
  induction units with
  | nil => exact le_rfl
  | cons nal units ih =>
    have := hf nal
    rw [flatMap_cons, length_append, length_cons]
    omega

variable {units : List Bytes} {nal tail : Bytes}

lemma appendAnnexBLoop_avccSample (hunits : ∀ nal ∈ units, NALUnit nal) (dst : Bytes) {fuel : ℕ}
    (hfuel : units.length ≤ fuel) :
    appendAnnexBLoop 4 fuel dst (avccSample units) = (dst ++ annexB units, none) := by
  induction units generalizing dst fuel with
  | nil => cases fuel <;> simp [appendAnnexBLoop, avccSample, annexB]
  | cons nal units ih =>
    obtain ⟨fuel, rfl⟩ := Nat.exists_eq_succ_of_ne_zero (Nat.ne_zero_of_lt hfuel)
    have hnal := hunits nal mem_cons_self
    have hsrc : avccSample (nal :: units) = beBytes 4 nal.length ++ (nal ++ avccSample units) := by
      simp [avccSample]
    have hsize : beNat (beBytes 4 nal.length) = nal.length := by
      rw [beNat_beBytes, Nat.mod_eq_of_lt (by simpa using hnal.length_lt)]
    have hne : avccSample (nal :: units) ≠ [] := by
      simp [hsrc, hnal.ne_nil]
    have hpos : nal.length ≠ 0 := mt length_eq_zero_iff.mp hnal.ne_nil
    rw [appendAnnexBLoop, if_neg hne, hsrc]
    simp only [take_left' (length_beBytes 4 _), drop_left' (length_beBytes 4 _), hsize,
      length_append, length_beBytes, drop_left]
    rw [if_neg (by omega), if_neg (by omega),
      ih (fun nal h => hunits nal (mem_cons_of_mem _ h)) _ (Nat.le_of_succ_le_succ hfuel)]
    simp [annexB]

def Follows (tail : Bytes) : Prop := tail = [] ∨ ∃ rest, tail = startCode ++ rest

/-- **No start code begins in a unit**: its `1` would be among the zeros of the code behind. -/
lemma codeWidth_unit {a : UInt8} (hfree : ¬ [0, 0, 1] <:+: a :: nal) (htail : Follows tail) :
    codeWidth (a :: nal ++ tail) = 0 := by
  obtain rfl | ⟨rest, rfl⟩ := htail
  all_goals
    match nal, hfree with
    | [], _ => simp [codeWidth, startCode]
    | [b], _ => simp [codeWidth, startCode]
    | b :: c :: nal, hfree =>
      have hcode : ¬ (a = 0 ∧ b = 0 ∧ c = 1) := by
        rintro ⟨rfl, rfl, rfl⟩
        exact hfree ⟨[], nal, rfl⟩
      have hlong : ¬ (b = 0 ∧ c = 0 ∧ nal.head? = some 1) := by
        rintro ⟨rfl, rfl, hhead⟩
        obtain ⟨nal, rfl⟩ := head?_eq_some_iff.mp hhead
        exact hfree ⟨[a], nal, rfl⟩
      cases nal <;> simp_all [codeWidth, startCode]

lemma free_tail {a : UInt8} (hfree : ¬ [0, 0, 1] <:+: a :: nal) : ¬ [0, 0, 1] <:+: nal :=
  fun h => hfree (infix_cons h)

def Skips (nal tail : Bytes) : Prop := ∀ i, findFrom i (nal ++ tail) = findFrom (i + nal.length) tail

lemma Skips.cons {a : UInt8} (hwidth : codeWidth (a :: nal ++ tail) = 0) (h : Skips nal tail) :
    Skips (a :: nal) tail := by
  intro i
  rw [cons_append] at hwidth ⊢
  rw [findFrom, if_neg (by simpa using hwidth), h, length_cons, Nat.add_right_comm, Nat.add_assoc]

lemma skips_unit (hfree : ¬ [0, 0, 1] <:+: nal) (htail : Follows tail) : Skips nal tail := by
  induction nal with
  | nil => exact fun i => rfl
  | cons a nal ih => exact .cons (codeWidth_unit hfree htail) (ih (free_tail hfree))

/-- Some bytes are start codes with a unit behind each. -/
inductive Reads : Bytes → List Bytes → Prop
  | nil : Reads [] []
  | cons {code nal data : Bytes} {nals : List Bytes} (hcode : codeWidth (code ++ (nal ++ data)) = code.length)
      (hne : code ≠ []) (hnal : nal ≠ []) (hskips : Skips nal data) (hdata : Reads data nals) :
      Reads (code ++ (nal ++ data)) (nal :: nals)

variable {data : Bytes} {nals : List Bytes}

lemma Reads.find (h : Reads data nals) (i : ℕ) :
    findFrom i data = if data = [] then none else some (i, codeWidth data) := by
  cases h with
  | nil => rfl
  | cons hcode hne _ _ _ =>
    obtain ⟨a, code, rfl⟩ := exists_cons_of_ne_nil hne
    rw [cons_append] at hcode ⊢
    rw [findFrom, if_pos (by simp [hcode]), if_neg (by simp)]

lemma Reads.length_le (h : Reads data nals) : nals.length ≤ data.length := by
  induction h with
  | nil => exact le_rfl
  | cons _ hne _ _ _ ih =>
    have := length_pos_iff.mpr hne
    simp only [length_cons, length_append]
    omega

lemma Reads.eq_nil (h : Reads [] nals) : nals = [] :=
  length_eq_zero_iff.mp (Nat.le_zero.mp h.length_le)

lemma forEachNALLoop_reads (h : Reads data nals) (hne : data ≠ []) (before : Bytes) (fuel : ℕ)
    (hfuel : nals.length ≤ fuel) :
    forEachNALLoop (before ++ data) fuel before.length (codeWidth data) = (nals, none) := by
  induction h generalizing before fuel with
  | nil => exact absurd rfl hne
  | @cons code nal data nals hcode _ hnal hskips hdata ih =>
    obtain ⟨fuel, rfl⟩ := Nat.exists_eq_succ_of_ne_zero (Nat.ne_zero_of_lt hfuel)
    have hsplit : before ++ (code ++ (nal ++ data)) = before ++ code ++ (nal ++ data) := by simp
    have hdrop : (before ++ (code ++ (nal ++ data))).drop (before.length + code.length) = nal ++ data := by
      rw [hsplit, ← length_append, drop_left]
    have hnext : findStartCode (before ++ (code ++ (nal ++ data))) (before.length + code.length) =
        if data = [] then none else some (before.length + code.length + nal.length, codeWidth data) := by
      rw [findStartCode, hdrop, hskips, hdata.find]
    have hpos : 0 < nal.length := length_pos_iff.mpr hnal
    rw [forEachNALLoop, hcode]
    simp only [hnext, hdrop]
    by_cases hnil : data = []
    · subst hnil
      obtain rfl := hdata.eq_nil
      have hlength : (before ++ (code ++ (nal ++ []))).length = before.length + code.length + nal.length := by
        simp [Nat.add_assoc]
      simp only [if_true, Option.map_none, Option.getD_none, hlength]
      rw [if_neg (by omega), Nat.add_sub_cancel_left, take_left]
    · have hrest := ih hnil (before ++ code ++ nal) fuel (Nat.le_of_succ_le_succ hfuel)
      rw [length_append, length_append, append_assoc, ← hsplit] at hrest
      simp only [if_neg hnil, Option.map_some, Option.getD_some]
      rw [if_neg (by omega), Nat.add_sub_cancel_left, take_left, hrest]

lemma forEachNAL_reads {k : ℕ} (h : Reads data nals) (hskips : Skips (replicate k 0) data) :
    forEachNAL (replicate k 0 ++ data) = (nals, if data = [] then some .invalid else none) := by
  have hstart : findStartCode (replicate k 0 ++ data) 0 =
      if data = [] then none else some (k, codeWidth data) := by
    rw [findStartCode, drop_zero, hskips, h.find, length_replicate, Nat.zero_add]
  have hzeros : ((replicate k 0 ++ data).take k).any (· ≠ 0) = false := by
    simp
  rw [forEachNAL, hstart]
  by_cases hnil : data = []
  · subst hnil
    obtain rfl := h.eq_nil
    rfl
  · have hloop := forEachNALLoop_reads h hnil (replicate k 0)
      (replicate k 0 ++ data).length (by simpa using Nat.le_add_left_of_le h.length_le)
    rw [length_replicate] at hloop
    simp only [if_neg hnil, hzeros]
    exact hloop

lemma follows_annexB (units : List Bytes) : Follows (annexB units) := by
  cases units with
  | nil => exact .inl rfl
  | cons nal units => exact .inr ⟨nal ++ annexB units, by simp [annexB]⟩

lemma reads_annexB (hunits : ∀ nal ∈ units, NALUnit nal) : Reads (annexB units) units := by
  induction units with
  | nil => exact .nil
  | cons nal units ih =>
    have hnal := hunits nal mem_cons_self
    have hdata : annexB (nal :: units) = startCode ++ (nal ++ annexB units) := by simp [annexB]
    rw [hdata]
    exact .cons rfl (by simp [startCode]) hnal.ne_nil (skips_unit hnal.free (follows_annexB units))
      (ih fun nal h => hunits nal (mem_cons_of_mem _ h))

lemma forEachNAL_annexB (hunits : ∀ nal ∈ units, NALUnit nal) (hne : units ≠ []) :
    forEachNAL (annexB units) = (units, none) := by
  have hdata : annexB units ≠ [] := by
    cases units with
    | nil => exact absurd rfl hne
    | cons nal units => simp [annexB, startCode]
  have hfor := forEachNAL_reads (k := 0) (reads_annexB hunits) fun i => rfl
  rwa [if_neg hdata] at hfor

/-! ### Types -/

lemma typeAt_of_codeWidth (h : codeWidth data = 0) (nalType : UInt8) : typeAt nalType data = false := by
  match data with
  | [] => rfl
  | [_] => rfl
  | [_, _] => rfl
  | [_, _, _] => rfl
  | a :: b :: c :: d :: rest =>
    simp only [codeWidth, head?_cons, Option.some.injEq] at h
    simp only [typeAt]
    split_ifs at h ⊢
    all_goals rfl

lemma containsNAL_unit (hfree : ¬ [0, 0, 1] <:+: nal) (htail : Follows tail) (nalType : UInt8) :
    containsNAL nalType (nal ++ tail) = containsNAL nalType tail := by
  induction nal with
  | nil => rfl
  | cons a nal ih =>
    rw [cons_append, containsNAL, ← cons_append,
      typeAt_of_codeWidth (codeWidth_unit hfree htail), Bool.false_or, ih (free_tail hfree)]

def typeOf (nal : Bytes) : UInt8 := nal.headD 0 &&& 0x1f

lemma containsNAL_annexB (hunits : ∀ nal ∈ units, NALUnit nal) (nalType : UInt8) :
    containsNAL nalType (annexB units) = units.any (typeOf · = nalType) := by
  induction units with
  | nil => rfl
  | cons nal units ih =>
    have hnal := hunits nal mem_cons_self
    have hrest := ih fun nal h => hunits nal (mem_cons_of_mem _ h)
    obtain ⟨a, nal, rfl⟩ := exists_cons_of_ne_nil hnal.ne_nil
    have hunit := containsNAL_unit hnal.free (follows_annexB units) nalType
    have hdata : annexB ((a :: nal) :: units) = 0 :: 0 :: 0 :: 1 :: (a :: nal ++ annexB units) := by
      simp [annexB, startCode]
    have hskip (b c : UInt8) (data : Bytes) (hne : b ≠ 0 ∨ c ≠ 0) :
        typeAt nalType (b :: c :: data) = false :=
      typeAt_of_codeWidth (by cases data <;> simp [codeWidth, hne]) nalType
    -- The code is met twice, as one of four bytes and as one of three.
    have hcode : typeAt nalType (0 :: 0 :: 0 :: 1 :: (a :: nal ++ annexB units)) =
          decide (typeOf (a :: nal) = nalType) ∧
        typeAt nalType (0 :: 0 :: 1 :: (a :: nal ++ annexB units)) =
          decide (typeOf (a :: nal) = nalType) := ⟨rfl, rfl⟩
    rw [hdata, any_cons, ← hrest, ← hunit, containsNAL, containsNAL, containsNAL, containsNAL,
      hcode.1, hcode.2, hskip 0 1 _ (.inr (by decide)), cons_append,
      hskip 1 a _ (.inl (by decide)), Bool.false_or, Bool.false_or, ← Bool.or_assoc, Bool.or_self]

/-- **The two forms carry the same units.** -/
theorem avcc_annexB_round_trip {units : List Bytes} (hunits : ∀ nal ∈ units, NALUnit nal)
    (hne : units ≠ []) (dst : Bytes) :
    appendAnnexB dst (avccSample units) 4 = (dst ++ annexB units, none) ∧
    appendAVC dst (annexB units) = (dst ++ avccSample units, none) ∧
    ∀ nalType, containsNAL nalType (annexB units) = true ↔ ∃ nal ∈ units, typeOf nal = nalType := by
  refine ⟨appendAnnexBLoop_avccSample hunits dst ?_, ?_, fun nalType => ?_⟩
  · exact length_le_flatMap (fun nal => beBytes 4 nal.length ++ nal) (by simp) units
  · rw [appendAVC, forEachNAL_annexB hunits hne]
    rfl
  · rw [containsNAL_annexB hunits, any_eq_true]
    simp

theorem avcc_annexB_round_trip_zeros :
    appendAVC [] (annexB [[0, 0], [0x65, 0, 0], [7]]) = (avccSample [[0, 0], [0x65, 0, 0], [7]], none) ∧
    containsNAL 5 (annexB [[0, 0], [0x65, 0, 0], [7]]) = true := by
  have hunits : ∀ nal ∈ [[0, 0], [0x65, 0, 0], [7]], NALUnit nal := by
    intro nal hnal
    simp only [mem_cons, not_mem_nil, or_false] at hnal
    obtain rfl | rfl | rfl := hnal
    all_goals exact ⟨by decide, by decide, by decide⟩
  obtain ⟨-, havc, htypes⟩ := avcc_annexB_round_trip hunits (by decide) []
  exact ⟨havc, (htypes 5).mpr ⟨[0x65, 0, 0], by decide, by decide⟩⟩

theorem empty_unit_refused : appendAnnexB [] (avccSample []) 4 = ([], none) ∧
    appendAVC [] (annexB []) = ([], some .invalid) := ⟨rfl, rfl⟩

end Goav.H264
