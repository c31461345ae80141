import Goav.Mp4.MuxDefs

/-!
The sample tables are read back as they were written: each is run-length coded, left out when it says
nothing, or walked with an index.
-/

namespace Goav.Mp4

open Goav.Av Goav.Lib MuxTrack List

/-! ### Machine integers -/

lemma int32_uint32 (x : ℤ) : int32 (uint32 (int32 x)) = int32 x := by
  unfold int32 uint32
  rw [Int.toNat_of_nonneg (Int.emod_nonneg _ (by decide))]
  exact (Int.emod_bmod _ _).trans Int.bmod_bmod

lemma int32_eq {x : ℤ} (hlo : -2 ^ 31 ≤ x) (hhi : x < 2 ^ 31) : int32 x = x := by
  unfold int32
  rw [Int.bmod_def]
  split <;> omega

lemma int64_eq {x : ℤ} (hlo : -2 ^ 63 ≤ x) (hhi : x < 2 ^ 63) : int64 x = x := by
  unfold int64
  rw [Int.bmod_def]
  split <;> omega

lemma uint32_eq {n : ℕ} (h : n ≤ maxUint32) : uint32 n = n := by
  unfold uint32 maxUint32 at *
  omega

/-! ### Sizes -/

section

variable {budget : SampleBudget} {samples : List MuxSample}

lemma claim_isSome_iff {count bytesEach : ℕ} :
    (budget.claim count bytesEach).isSome ↔
      count ≤ budget.left ∧ count ≤ maxSamples ∧
        (0 < bytesEach → count * bytesEach ≤ budget.fileSize) := by
  unfold SampleBudget.claim
  split
  · simp
    omega
  · split
    · simp
      omega
    · simp
      omega

lemma writeStsz_cases (samples : List MuxSample) :
    (∃ size, samples ≠ [] ∧ (∀ s ∈ samples, s.size = size) ∧
      writeStsz samples = { uniform := size, count := samples.length, entries := [] }) ∨
    writeStsz samples = { uniform := 0, count := samples.length, entries := samples.map (·.size) } := by
  unfold writeStsz
  dsimp only
  split_ifs with h
  · exact .inl ⟨_, h.1, by simpa using h.2, rfl⟩
  · exact .inr rfl

lemma claim_of_isSome {count bytesEach : ℕ} (h : (budget.claim count bytesEach).isSome) :
    budget.claim count bytesEach = some { budget with left := budget.left - count } := by
  obtain ⟨hleft, hmax, hbytes⟩ := claim_isSome_iff.mp h
  unfold SampleBudget.claim
  rw [if_neg (by omega), if_neg (by omega)]

lemma parseStsz_writeStsz (hsize : samples ≠ [] → ∃ s ∈ samples, s.size ≠ 0)
    (hclaim : (budget.claim samples.length (writeStsz samples).uniform).isSome) :
    parseStsz budget (writeStsz samples) =
      (samples.map (·.size), { budget with left := budget.left - samples.length }) := by
  have hmax := (claim_isSome_iff.mp hclaim).2.1
  have hclaim := claim_of_isSome hclaim
  obtain ⟨size, hne, hall, heq⟩ | heq := writeStsz_cases samples
  · obtain ⟨s, hs, hzero⟩ := hsize hne
    rw [hall s hs] at hzero
    rw [heq] at hclaim ⊢
    unfold parseStsz
    rw [if_neg (by simp [hzero])]
    simp only [hclaim, if_pos hzero]
    rw [map_congr_left hall, map_const']
  · rw [heq] at hclaim ⊢
    unfold parseStsz
    rw [if_neg (by simp; omega)]
    simp [hclaim]

lemma writeStsz_of_zero (h : ∀ s ∈ samples, s.size = 0) :
    writeStsz samples = { uniform := 0, count := samples.length, entries := [] } := by
  unfold writeStsz
  cases samples with
  | nil => rfl
  | cons s rest =>
    have hall : ∀ x ∈ s :: rest, x.size = s.size := fun x hx => by
      rw [h x hx, h s mem_cons_self]
    have hzero := h s mem_cons_self
    rw [if_pos ⟨by simp, all_eq_true.mpr fun x hx => decide_eq_true (hall x hx)⟩]
    simp [hzero]

lemma parseStsz_writeStsz_eq_nil (h : (∀ s ∈ samples, s.size = 0) ∨
    ¬ (budget.claim samples.length (writeStsz samples).uniform).isSome) :
    (parseStsz budget (writeStsz samples)).1 = [] := by
  obtain h | h := h
  · rw [writeStsz_of_zero h]
    unfold parseStsz
    split
    · rfl
    · split <;> simp
  · rw [Option.not_isSome_iff_eq_none] at h
    have hcount : (writeStsz samples).count = samples.length := by
      obtain ⟨_, _, _, heq⟩ | heq := writeStsz_cases samples <;> rw [heq]
    unfold parseStsz
    rw [hcount, h]
    split <;> rfl

end

/-! ### Chunks -/

def Describes (k : ℕ) (stsc : List StscEntry) : List ℕ → Prop
  | [] => True
  | count :: counts =>
    (entryFor k stsc).head?.map (·.samplesPerChunk) = some count ∧
      Describes (k + 1) (entryFor k stsc) counts

lemma entryFor_of_lt {k first : ℕ} (entry : StscEntry) (runs : List (ℕ × ℕ)) (h : k < first) :
    entryFor k (entry :: stscEntries first runs) = entry :: stscEntries first runs := by
  cases runs with
  | nil => rfl
  | cons run runs => exact if_neg (Nat.not_le.mpr h)

lemma describes_replicate (runs : List (ℕ × ℕ)) : ∀ {k : ℕ} (m : ℕ) (entry : StscEntry),
    (∀ run ∈ runs, 0 < run.1) →
      Describes k (entry :: stscEntries (k + m) runs)
        (List.replicate m entry.samplesPerChunk ++ expandRuns runs) := by
  induction runs with
  | nil =>
    intro k m entry hpos
    induction m generalizing k with
    | zero => trivial
    | succ m ih =>
      exact ⟨rfl, ih⟩
  | cons run runs ihRuns =>
    intro k m entry hpos
    induction m generalizing k with
    | zero =>
      -- the next run begins at this chunk
      obtain ⟨count, hcount⟩ := Nat.exists_eq_succ_of_ne_zero (hpos run mem_cons_self).ne'
      have hlater := ihRuns (k := k + 1) count { firstChunk := k, samplesPerChunk := run.2 }
        fun run' hrun' => hpos run' (mem_cons_of_mem _ hrun')
      have hentry : entryFor k (entry :: stscEntries (k + 0) (run :: runs)) =
          { firstChunk := k, samplesPerChunk := run.2 } :: stscEntries (k + 1 + count) runs := by
        rw [show k + 1 + count = k + run.1 by omega]
        refine (if_pos (Nat.le_refl k)).trans ?_
        exact entryFor_of_lt _ runs (by omega)
      rw [expandRuns_cons, hcount]
      refine ⟨?_, ?_⟩
      · rw [hentry]
        rfl
      · rw [hentry]
        exact hlater
    | succ m ih =>
      have hentry := entryFor_of_lt entry (run :: runs) (show k < k + (m + 1) by omega)
      refine ⟨by rw [hentry]; rfl, ?_⟩
      rw [hentry, show k + (m + 1) = k + 1 + m by omega]
      exact ih

@[simp] lemma length_stscEntries (first : ℕ) (runs : List (ℕ × ℕ)) :
    (stscEntries first runs).length = runs.length := by
  induction runs generalizing first with
  | nil => rfl
  | cons run runs ih => simp [stscEntries, ih]

lemma describes_stscEntries (counts : List ℕ) :
    Describes 1 (stscEntries 1 (runLength counts)) counts := by
  have hpos := pos_of_mem_runLength counts
  have hcounts := expandRuns_runLength counts
  cases hruns : runLength counts with
  | nil =>
    rw [hruns] at hcounts
    rw [← hcounts]
    trivial
  | cons run runs =>
    rw [hruns] at hcounts hpos
    have h := describes_replicate runs (k := 1) run.1 { firstChunk := 1, samplesPerChunk := run.2 }
      fun run' hrun' => hpos run' (mem_cons_of_mem _ hrun')
    rwa [← expandRuns_cons, hcounts] at h

def Placed (offset : ℕ) : List MuxSample → Prop
  | [] => True
  | s :: samples => s.offset = offset ∧ Placed (offset + s.size) samples

def Chunked (chunks : List MuxChunk) (samples : List MuxSample) : Prop :=
  ∃ groups : List (List MuxSample), samples = groups.flatten ∧
    List.Forall₂ (fun c group => group ≠ [] ∧ group.length = c.count ∧ Placed c.offset group) chunks groups

def setOffsets (samples : List MuxSample) (read : List Sample) : List Sample :=
  List.zipWith (fun (s : MuxSample) (x : Sample) => { x with offset := (s.offset : ℤ) }) samples read

abbrev SameSizes (samples : List MuxSample) (read : List Sample) : Prop :=
  List.Forall₂ (fun (s : MuxSample) (x : Sample) => x.size = s.size) samples read

variable {samples : List MuxSample} {chunks : List MuxChunk}

lemma placeFrom_eq {read : List Sample} (hsizes : SameSizes samples read) :
    ∀ {offset : ℕ}, Placed offset samples → placeFrom offset read = setOffsets samples read := by
  induction hsizes with
  | nil => exact fun _ => rfl
  | @cons s x samples read hsize hsizes ih =>
    intro offset hplaced
    obtain ⟨rfl, hplaced⟩ := hplaced
    have hrest := ih hplaced
    rw [Int.natCast_add, ← hsize] at hrest
    rw [placeFrom, hrest]
    rfl

lemma assignChunks_eq {groups : List (List MuxSample)} (hgroups : List.Forall₂
      (fun c group => group ≠ [] ∧ group.length = c.count ∧ Placed c.offset group) chunks groups) :
    ∀ {k : ℕ} {stsc : List StscEntry} {read : List Sample},
      Describes k stsc (chunks.map (·.count)) → SameSizes groups.flatten read →
      assignChunks k stsc (chunks.map fun c => (c.offset : ℤ)) read =
        (setOffsets groups.flatten read, []) := by
  induction hgroups with
  | nil =>
    intro k stsc read _ hsizes
    rw [forall₂_nil_left_iff.mp hsizes]
    rfl
  | @cons c group chunks groups hgroup hgroups ih =>
    intro k stsc read hdescribes hsizes
    obtain ⟨hne, hlength, hplaced⟩ := hgroup
    obtain ⟨hhead, hdescribes⟩ := hdescribes
    have hread := hsizes.length_eq
    rw [flatten_cons, length_append] at hread
    have hnonempty : read ≠ [] := by
      rintro rfl
      rw [length_nil, Nat.add_eq_zero_iff] at hread
      exact hne (length_eq_zero_iff.mp hread.1)
    rw [flatten_cons] at hsizes ⊢
    obtain ⟨hfirst, hrest⟩ : SameSizes group (read.take c.count) ∧
        SameSizes groups.flatten (read.drop c.count) := by
      have htake := forall₂_take c.count hsizes
      have hdrop := forall₂_drop c.count hsizes
      rw [← hlength, take_left' rfl] at htake
      rw [← hlength, drop_left' rfl] at hdrop
      exact ⟨hlength ▸ htake, hlength ▸ hdrop⟩
    simp only [map_cons, assignChunks, if_neg hnonempty, hhead, Option.getD_some]
    rw [ih hdescribes hrest, placeFrom_eq hfirst hplaced]
    unfold setOffsets
    rw [← zipWith_append hfirst.length_eq, take_append_drop]

lemma Chunked.assignChunks_eq {read : List Sample} {stsc : List StscEntry}
    (h : Chunked chunks samples) (hdescribes : Describes 1 stsc (chunks.map (·.count)))
    (hsizes : SameSizes samples read) :
    assignChunks 1 stsc (chunks.map fun c => (c.offset : ℤ)) read = (setOffsets samples read, []) := by
  obtain ⟨groups, rfl, hgroups⟩ := h
  exact Mp4.assignChunks_eq hgroups hdescribes hsizes

/-! ### The tables of a track -/

lemma capped_eq {α : Type} {entries : List α} (h : entries.length ≤ maxSamples) :
    capped entries = entries :=
  if_neg (Nat.not_lt.mpr h)

@[simp] lemma length_decodeTimes (dts : ℤ) (deltas : List ℕ) :
    (decodeTimes dts deltas).length = deltas.length := by
  induction deltas generalizing dts with
  | nil => rfl
  | cons delta deltas ih => simp [decodeTimes, ih]

section

variable {samples : List MuxSample}

lemma expandRuns_stts (hlength : samples.length ≤ maxSamples) :
    expandRuns (capped ((runLength (samples.map (·.duration))).map fun run =>
      (run.1, uint32 run.2))) = samples.map fun s => uint32 s.duration := by
  have hruns := length_runLength_le (samples.map (·.duration))
  rw [length_map] at hruns
  rw [capped_eq (by rw [length_map]; exact hruns.trans hlength),
    expandRuns_map (fun value => uint32 value), expandRuns_runLength, map_map]
  rfl

/-- The composition offsets are read back as far as 32 bits hold them. -/
lemma getD_ctts (hlength : samples.length ≤ maxSamples) (i : ℕ) :
    ((expandRuns (((writeCtts samples).map parseCtts).getD [])).take samples.length).getD i 0 =
      (samples[i]?.map fun s => int32 s.cts).getD 0 := by
  have hruns := length_runLength_le (samples.map (·.cts))
  rw [length_map] at hruns
  have hexpand := expandRuns_runLength (samples.map (·.cts))
  unfold writeCtts
  dsimp only
  split
  · have hread : expandRuns (parseCtts ((runLength (samples.map (·.cts))).map fun run =>
        (run.1, uint32 (int32 run.2)))) = samples.map fun s => int32 s.cts := by
      unfold parseCtts
      rw [capped_eq (by simpa using hruns.trans hlength), map_map]
      simp only [Function.comp_def, int32_uint32]
      rw [expandRuns_map (fun value => int32 value), hexpand, map_map]
      rfl
    rw [Option.map_some, Option.getD_some, hread, take_of_length_le (by simp),
      getD_eq_getElem?_getD, getElem?_map]
  · rename_i hzero
    rw [not_or] at hzero
    -- at most one run, of zeros
    have hcts : ∀ s ∈ samples, s.cts = 0 := by
      intro s hs
      have hmem : s.cts ∈ expandRuns (runLength (samples.map (·.cts))) := by
        rw [hexpand]
        exact mem_map_of_mem hs
      obtain ⟨run, hrun, hvalue⟩ := mem_flatMap.mp hmem
      rw [(mem_replicate.mp hvalue).2]
      by_contra hne
      exact hzero.2 (any_eq_true.mpr ⟨run, hrun, decide_eq_true hne⟩)
    cases hs : samples[i]? with
    | none => simp
    | some s => simp [hcts s (mem_of_getElem? hs), int32]

lemma contains_syncSamples (i : ℕ) :
    (syncSamples samples).contains (i + 1) = (samples[i]?.map (·.sync)).getD false := by
  have hiff : i + 1 ∈ syncSamples samples ↔ ∃ s, samples[i]? = some s ∧ s.sync = true := by
    simp only [syncSamples, mem_filterMap, Prod.exists, mk_mem_zipIdx_iff_le_and_getElem?_sub]
    constructor
    · rintro ⟨s, j, ⟨-, hs⟩, hsync⟩
      split at hsync
      · cases hsync
        exact ⟨s, by simpa using hs, ‹_›⟩
      · simp at hsync
    · rintro ⟨s, hs, hsync⟩
      exact ⟨s, i + 1, ⟨by omega, by simpa using hs⟩, if_pos hsync⟩
  rw [Bool.eq_iff_iff, contains_iff_mem, hiff]
  cases samples[i]? <;> simp

end

def readBack (allSync : Bool) (samples : List MuxSample) (dts : List ℤ) : List Sample :=
  List.zipWith (fun (s : MuxSample) (dts : ℤ) =>
    { offset := s.offset
      size := s.size
      dts
      cts := dts + int32 s.cts
      keyframe := allSync || s.sync }) samples dts

lemma sameSizes_mapIdx (samples : List MuxSample) (f : ℕ → ℕ → Sample)
    (hf : ∀ i size, (f i size).size = size) : SameSizes samples ((samples.map (·.size)).mapIdx f) := by
  induction samples generalizing f with
  | nil => exact .nil
  | cons s samples ih =>
    rw [map_cons, mapIdx_cons]
    exact .cons (hf 0 s.size) (ih _ fun i size => hf (i + 1) size)

lemma setOffsets_columns {allSync : Bool} {dts : List ℤ} {cts : ℕ → ℤ} {keyframe : ℕ → Bool}
    (hlength : dts.length = samples.length)
    (hcts : ∀ i, cts i = (samples[i]?.map fun s => int32 s.cts).getD 0)
    (hkeyframe : ∀ i, keyframe i = (allSync || (samples[i]?.map (·.sync)).getD false)) :
    setOffsets samples ((samples.map (·.size)).mapIdx fun i size =>
      { size, dts := dts.getD i 0, cts := dts.getD i 0 + cts i, keyframe := keyframe i }) =
      readBack allSync samples dts := by
  refine ext_getElem? fun i => ?_
  unfold setOffsets readBack
  rw [getElem?_zipWith, getElem?_zipWith, getElem?_mapIdx, getElem?_map, hcts, hkeyframe]
  cases hs : samples[i]? with
  | none => rfl
  | some s =>
    have hi : i < dts.length := hlength ▸ (List.getElem?_eq_some_iff.mp hs).1
    simp [getElem?_eq_getElem hi]

structure InOrder (chunks : List MuxChunk) : Prop where
  le_last : ∀ c ∈ chunks, ∀ last ∈ chunks.getLast?, c.offset ≤ last.offset
  lt : ∀ c ∈ chunks, c.offset < 2 ^ 63

lemma parseChunkOffsets_writeChunkOffsets (horder : InOrder chunks)
    (hlength : chunks.length ≤ maxSamples) :
    parseChunkOffsets (writeChunkOffsets chunks) = chunks.map fun c => (c.offset : ℤ) := by
  unfold writeChunkOffsets
  split
  · rw [parseChunkOffsets, capped_eq (by simpa using hlength), map_map]
    refine map_congr_left fun c hc => ?_
    have hlt := horder.lt c hc
    have hoffset : int64 c.offset = c.offset := int64_eq (by omega) (by omega)
    rw [Function.comp_apply, hoffset]
  · rename_i hwide
    rw [parseChunkOffsets, capped_eq (by simpa using hlength), map_map]
    refine map_congr_left fun c hc => ?_
    obtain ⟨last, hlast⟩ : ∃ last, chunks.getLast? = some last := by
      cases hlast : chunks.getLast? with
      | none => simp [getLast?_eq_none_iff.mp hlast] at hc
      | some last => exact ⟨last, rfl⟩
    rw [hlast, Option.any_some, decide_eq_true_eq, Nat.not_lt] at hwide
    have hoffset := uint32_eq ((horder.le_last c hc last hlast).trans hwide)
    rw [Function.comp_apply, hoffset]

lemma Chunked.length_le (h : Chunked chunks samples) : chunks.length ≤ samples.length := by
  obtain ⟨groups, rfl, hgroups⟩ := h
  induction hgroups with
  | nil => simp
  | @cons c group chunks groups hgroup hgroups ih =>
    have hpos := length_pos_iff.mpr hgroup.1
    simp only [length_cons, flatten_cons, length_append]
    omega

lemma Chunked.ne_nil (h : Chunked chunks samples) (hne : samples ≠ []) : chunks ≠ [] := by
  rintro rfl
  obtain ⟨groups, rfl, hgroups⟩ := h
  rw [forall₂_nil_left_iff.mp hgroups] at hne
  exact hne rfl

lemma contains_writeStss {t : MuxTrack} (hlength : t.samples.length ≤ maxSamples) (i : ℕ) :
    (!t.writeStss.isSome || ((t.writeStss.map capped).getD []).contains (i + 1)) =
      (t.writeStss.isNone || (t.samples[i]?.map (·.sync)).getD false) := by
  unfold writeStss
  dsimp only
  split
  · have hsyncs : (syncSamples t.samples).length ≤ maxSamples := by
      refine Nat.le_trans ?_ hlength
      simpa [syncSamples] using
        length_filterMap_le (fun x : MuxSample × ℕ => if x.1.sync then some x.2 else none)
          (t.samples.zipIdx 1)
    rw [Option.map_some, Option.getD_some, capped_eq hsyncs, contains_syncSamples]
    rfl
  · rfl

/-- **The tables are read back.** The samples have their place, size, offset and flag, at decode times
that add up their durations. -/
theorem build_writeStbl {t : MuxTrack} {budget : SampleBudget}
    (hchunks : Chunked t.chunks t.samples) (horder : InOrder t.chunks)
    (hsize : ∃ s ∈ t.samples, s.size ≠ 0)
    (hclaim : (budget.claim t.samples.length (writeStsz t.samples).uniform).isSome) :
    (parseStbl budget t.writeStbl).1.build = .ok (readBack t.writeStss.isNone t.samples
        (decodeTimes 0 (t.samples.map fun s => uint32 s.duration))) := by
  have hlength := (claim_isSome_iff.mp hclaim).2.1
  have hcount : t.chunks.length ≤ maxSamples := hchunks.length_le.trans hlength
  have hne : t.samples ≠ [] := by
    rintro heq
    simp [heq] at hsize
  have hpos := length_pos_iff.mpr hne
  have hchunksNe := hchunks.ne_nil hne
  have hstsc : capped (stscEntries 1 (runLength (t.chunks.map (·.count)))) =
      stscEntries 1 (runLength (t.chunks.map (·.count))) := by
    have hruns := length_runLength_le (t.chunks.map (·.count))
    rw [length_map] at hruns
    exact capped_eq (by rw [length_stscEntries]; exact hruns.trans hcount)
  have hdescribes := describes_stscEntries (t.chunks.map (·.count))
  have hstscNe : stscEntries 1 (runLength (t.chunks.map (·.count))) ≠ [] := by
    rintro heq
    obtain ⟨c, chunks, hc⟩ := exists_cons_of_ne_nil hchunksNe
    rw [heq, hc] at hdescribes
    simp [Describes, entryFor] at hdescribes
  unfold SampleTables.build
  simp only [parseStbl, writeStbl, parseStsz_writeStsz (fun _ => hsize) hclaim, expandRuns_stts hlength,
    hstsc, parseChunkOffsets_writeChunkOffsets horder hcount, length_map]
  rw [if_neg hpos.ne', if_neg (Nat.not_lt.mpr hlength), take_of_length_le (by simp)]
  unfold SampleTables.assignOffsets
  simp only [hstscNe, map_eq_nil_iff, hchunksNe]
  rw [hchunks.assignChunks_eq hdescribes (sameSizes_mapIdx _ _ fun _ _ => rfl),
    setOffsets_columns (by simp) (fun i => getD_ctts hlength i) (contains_writeStss hlength)]
  rfl

end Goav.Mp4
