import Goav.Lib.Slice
import Goav.Mp4.BoxDefs
import Goav.Mp4.DecodeTimes

/-!
The boxes that the muxer writes are read back: a walk visits each of them (`walkBoxes_eq`), and the parts
of a fragment give the samples of their runs (`readMoof_eq`).
-/

namespace Goav.Mp4

open Goav.Av Goav.Lib List

/-! ### Boxes -/

section Boxes

variable {file type payload : Bytes} {pos limit : ℕ}

@[simp] lemma length_box (type payload : Bytes) :
    (box type payload).length = 4 + type.length + payload.length := by
  simp [box, Nat.add_assoc]

def headerAt (pos : ℕ) (type payload : Bytes) : BoxHeader where
  type := type
  offset := pos
  size := 8 + payload.length
  payloadOffset := pos + 8
  payloadSize := payload.length

@[simp] lemma type_headerAt (pos : ℕ) (type payload : Bytes) :
    (headerAt pos type payload).type = type :=
  rfl

lemma readAt_of_slice {data : Bytes} (h : IsSlice file pos data)
    (hle : pos + data.length ≤ file.length) : readAt file pos data.length = .ok data := by
  rw [readAt, if_neg (by omega)]
  exact congrArg _ h

lemma readBoxHeader_eq (hslice : IsSlice file pos (box type payload)) (htype : type.length = 4)
    (hsize : 8 + payload.length < 2 ^ 32) (hlimit : pos + (8 + payload.length) ≤ limit)
    (hle : limit ≤ file.length) (hmax : file.length < 2 ^ 63) :
    readBoxHeader file pos limit = .ok (headerAt pos type payload) := by
  have hbuf : IsSlice file pos (beBytes 4 (8 + payload.length) ++ type) := by
    have htake := hslice.take 8
    rwa [box, take_append_of_le_length (by simp [htype]),
      take_of_length_le (by simp [htype])] at htake
  have hread : readAt file pos 8 = .ok (beBytes 4 (8 + payload.length) ++ type) := by
    have := readAt_of_slice hbuf (by simp; omega)
    simpa [htype] using this
  have hint : ∀ n : ℕ, pos + n ≤ limit → int64 ((pos : ℤ) + n) = pos + n := fun n hn =>
    int64_eq (by omega) (by omega)
  have hint8 := hint 8 (by omega)
  have hintEnd := hint (8 + payload.length) hlimit
  push_cast at hint8 hintEnd
  have hnat : beNat ((beBytes 4 (8 + payload.length) ++ type).take 4) = 8 + payload.length := by
    rw [take_append_of_le_length (by simp), take_of_length_le (by simp)]
    exact beNat_beBytes_of_lt (by omega)
  unfold readBoxHeader
  rw [if_neg (by rw [hint8]; omega), hread]
  simp only [bind, Except.bind, hnat]
  rw [if_neg (by omega), if_neg (by omega), boxHeader, if_neg]
  · simp only [headerAt, hint8]
    simp
  · push_cast
    omega

def headersAt (pos : ℕ) : List (Bytes × Bytes) → List BoxHeader
  | [] => []
  | b :: boxes => headerAt pos b.1 b.2 :: headersAt (pos + (8 + b.2.length)) boxes

def BoxesOk (boxes : List (Bytes × Bytes)) : Prop :=
  ∀ b ∈ boxes, b.1.length = 4 ∧ 8 + b.2.length < 2 ^ 32

variable {boxes : List (Bytes × Bytes)}

lemma length_boxBytes_cons (htype : type.length = 4) :
    (boxBytes ((type, payload) :: boxes)).length = 8 + payload.length + (boxBytes boxes).length := by
  simp [boxBytes, length_box, htype]

lemma boxesOk_of_length (htypes : ∀ b ∈ boxes, b.1.length = 4)
    (hlength : (boxBytes boxes).length < 2 ^ 32) : BoxesOk boxes := by
  induction boxes with
  | nil => simp [BoxesOk]
  | cons b boxes ih =>
    obtain ⟨hb, hrest⟩ := forall_mem_cons.mp htypes
    rw [length_boxBytes_cons hb] at hlength
    exact forall_mem_cons.mpr ⟨⟨hb, by omega⟩, ih hrest (by omega)⟩

lemma slice_boxes (htype : type.length = 4)
    (h : IsSlice file pos (boxBytes ((type, payload) :: boxes))) :
    IsSlice file pos (box type payload) ∧ IsSlice file (pos + (8 + payload.length)) (boxBytes boxes) := by
  have hlength : 8 + payload.length = (box type payload).length := by simp [htype]
  constructor
  · have htake := h.take (box type payload).length
    rwa [boxBytes, flatMap_cons, take_left] at htake
  · have hdrop := h.drop (8 + payload.length)
    rwa [boxBytes, flatMap_cons, hlength, drop_left, ← hlength] at hdrop

lemma slice_payload (htype : type.length = 4) (h : IsSlice file pos (box type payload)) :
    IsSlice file (pos + 8) payload := by
  have hdrop := h.drop 8
  rwa [box, drop_left' (by simp [htype])] at hdrop

lemma walkFrom_end {σ : Type} (visit : σ → BoxHeader → Except BoxErr σ) {fuel : ℕ} {s : σ}
    (hmax : file.length < 2 ^ 63) : walkFrom file visit limit fuel limit s = .ok s := by
  cases fuel with
  | zero => rfl
  | succ fuel =>
    by_cases hsmall : (limit : ℤ) + 8 < 2 ^ 63
    · rw [walkFrom, if_pos (by rw [int64_eq (by omega) hsmall]; omega)]
    · have hread : readAt file limit 8 = .error .eof := by
        rw [readAt, if_pos (by omega)]
      have hheader : readBoxHeader file limit limit = .error .eof := by
        unfold readBoxHeader
        split
        · rfl
        · rw [hread]
          rfl
      rw [walkFrom, hheader]
      split <;> rfl

lemma walkFrom_eq {σ : Type} (visit : σ → BoxHeader → Except BoxErr σ) (hle : limit ≤ file.length)
    (hmax : file.length < 2 ^ 63) :
    ∀ {boxes : List (Bytes × Bytes)} {pos fuel : ℕ} {s : σ}, BoxesOk boxes →
      IsSlice file pos (boxBytes boxes) → limit = pos + (boxBytes boxes).length →
      boxes.length ≤ fuel →
      walkFrom file visit limit fuel pos s = (headersAt pos boxes).foldlM visit s
  | [], pos, fuel, s, _, _, hlimit, _ => by
    obtain rfl : limit = pos := hlimit
    exact walkFrom_end visit hmax
  | b :: boxes, pos, 0, s, _, _, _, hfuel => absurd hfuel (by simp)
  | b :: boxes, pos, fuel + 1, s, hok, hslice, hlimit, hfuel => by
    obtain ⟨⟨htype, hsize⟩, hrest⟩ := forall_mem_cons.mp hok
    rw [length_boxBytes_cons htype] at hlimit
    obtain ⟨hfirst, hbehind⟩ := slice_boxes htype hslice
    have hheader := readBoxHeader_eq hfirst htype hsize (show pos + (8 + b.2.length) ≤ limit by omega)
      hle hmax
    have hboxEnd : (headerAt pos b.1 b.2).boxEnd = ((pos + (8 + b.2.length) : ℕ) : ℤ) := by
      simp only [BoxHeader.boxEnd, headerAt]
      rw [int64_eq (by omega) (by omega)]
      rfl
    have hnext : ¬ (limit : ℤ) < int64 ((pos : ℤ) + 8) := by
      rw [int64_eq (by omega) (by omega)]
      omega
    have hrun : ∀ s, walkFrom file visit limit fuel (pos + (8 + b.2.length) : ℕ) s =
        (headersAt (pos + (8 + b.2.length)) boxes).foldlM visit s := fun s =>
      walkFrom_eq visit hle hmax hrest hbehind (by omega) (Nat.le_of_succ_le_succ hfuel)
    rw [walkFrom, if_neg hnext, hheader, headersAt, foldlM_cons]
    dsimp only
    rw [hboxEnd, funext hrun]

/-- **A walk over boxes that stand one behind the other visits each of them.** -/
theorem walkBoxes_eq {σ : Type} (visit : σ → BoxHeader → Except BoxErr σ) {s : σ}
    (hok : BoxesOk boxes) (hslice : IsSlice file pos (boxBytes boxes))
    (hlimit : limit = pos + (boxBytes boxes).length) (hle : limit ≤ file.length)
    (hmax : file.length < 2 ^ 63) :
    walkBoxes file pos limit visit s = (headersAt pos boxes).foldlM visit s := by
  refine walkFrom_eq visit hle hmax hok hslice hlimit ?_
  have hmany : ∀ {boxes : List (Bytes × Bytes)}, BoxesOk boxes →
      boxes.length ≤ (boxBytes boxes).length := by
    intro boxes
    induction boxes with
    | nil => simp
    | cons b boxes ih =>
      intro hok
      obtain ⟨⟨htype, -⟩, hrest⟩ := forall_mem_cons.mp hok
      have := ih hrest
      rw [length_boxBytes_cons htype, length_cons]
      omega
  have := hmany hok
  omega

lemma readPayload_headerAt (hslice : IsSlice file pos (box type payload)) (htype : type.length = 4)
    (hle : pos + (8 + payload.length) ≤ file.length) :
    readPayload file (headerAt pos type payload) =
      if maxBoxPayload < payload.length then .error .invalidData else .ok payload := by
  have hpayload := slice_payload htype hslice
  have hsize : (headerAt pos type payload).payloadSize = payload.length := rfl
  have hoffset : (headerAt pos type payload).payloadOffset = ((pos + 8 : ℕ) : ℤ) := rfl
  rw [readPayload, hsize, hoffset]
  by_cases hlarge : maxBoxPayload < payload.length
  · rw [if_pos (by omega), if_pos hlarge]
  · rw [if_neg (by omega), if_neg hlarge]
    by_cases hnil : payload = []
    · simp [hnil]
    · have hpos := length_pos_iff.mpr hnil
      rw [if_neg (by omega), Int.toNat_natCast, readAt_of_slice hpayload (by omega)]

end Boxes

/-! ### Runs -/

section Runs

variable {rest : Bytes}

lemma take_beBytes (n v : ℕ) (rest : Bytes) :
    Parser.take { data := beBytes n v ++ rest } n = (v % 256 ^ n, { data := rest }) := by
  unfold Parser.take
  rw [if_neg (by simp)]
  simp [take_left' (length_beBytes n v), drop_left' (length_beBytes n v), beNat_beBytes]

variable {version flags flag : ℕ}

lemma fullBox_fullPayload (hflags : flags < 2 ^ 24) (payload : Bytes) :
    Parser.fullBox { data := fullPayload version flags payload } =
      ((version % 256, flags), { data := payload }) := by
  have hmod : flags % 256 ^ 3 = flags := Nat.mod_eq_of_lt hflags
  unfold Parser.fullBox fullPayload
  rw [append_assoc]
  simp only [take_beBytes, Nat.pow_one, hmod]

lemma takeIf_some (h : flags &&& flag ≠ 0) (n v : ℕ) (rest : Bytes) :
    Parser.takeIf { data := beBytes n v ++ rest } flags flag n = (some (v % 256 ^ n), { data := rest }) := by
  rw [Parser.takeIf, if_pos h, take_beBytes]

lemma takeIf_none (h : flags &&& flag = 0) (n : ℕ) (p : Parser) :
    p.takeIf flags flag n = (none, p) := by
  rw [Parser.takeIf, if_neg (not_not_intro h)]

/-- What is written of a sample fits in its fields. -/
structure FitsRun (hasCts : Bool) (s : TrunSample) : Prop where
  duration : s.duration < 2 ^ 32
  size : s.size < 2 ^ 32
  flags : s.flags < 2 ^ 32
  cts : s.cts.getD 0 < 2 ^ 32
  hasCts : s.cts.isSome = hasCts

def runFlags (hasCts : Bool) : ℕ := if hasCts then 0xf01 else 0x701

variable {hasCts : Bool}

lemma readTrunSample_eq {s : TrunSample} (hs : FitsRun hasCts s) (defaults : TrunDefaults)
    (firstFlags : Option ℕ) (offset dts : ℤ) :
    readTrunSample (runFlags hasCts) defaults firstFlags offset dts { data := trunEntry s ++ rest } =
      ({ trunSample dts (firstFlags.getD s.flags) s with offset }, s.duration, { data := rest }) := by
  have h1 : runFlags hasCts &&& 0x100 ≠ 0 := by cases hasCts <;> decide
  have h2 : runFlags hasCts &&& 0x200 ≠ 0 := by cases hasCts <;> decide
  have h4 : runFlags hasCts &&& 0x400 ≠ 0 := by cases hasCts <;> decide
  obtain ⟨duration, size, flags, cts, dtsGhost⟩ := s
  have hduration : duration % 256 ^ 4 = duration := Nat.mod_eq_of_lt hs.duration
  have hsize : size % 256 ^ 4 = size := Nat.mod_eq_of_lt hs.size
  have hflags : flags % 256 ^ 4 = flags := Nat.mod_eq_of_lt hs.flags
  unfold readTrunSample trunEntry
  simp only [append_assoc, takeIf_some h1, takeIf_some h2, takeIf_some h4, hduration, hsize, hflags]
  cases cts with
  | none =>
    obtain rfl : false = hasCts := hs.hasCts
    rfl
  | some c =>
    obtain rfl : true = hasCts := hs.hasCts
    have h8 : runFlags true &&& 0x800 ≠ 0 := by decide
    have hc : c % 256 ^ 4 = c := Nat.mod_eq_of_lt hs.cts
    simp only [Option.map_some, Option.getD_some, takeIf_some h8, hc]
    rfl

def samplesFrom (firstFlags : Option ℕ) (dts : ℤ) (run : List TrunSample) : List Sample :=
  match firstFlags with
  | none => trunSamples dts run
  | some flags => parseTrun flags dts run

lemma readTrunSamples_eq (defaults : TrunDefaults) :
    ∀ {run : List TrunSample} {offset : ℕ} (firstFlags : Option ℕ) (dts : ℤ),
      (∀ s ∈ run, FitsRun hasCts s) → offset + (run.map (·.size)).sum < 2 ^ 63 →
      ∃ dts', readTrunSamples (runFlags hasCts) defaults run.length firstFlags offset dts
        { data := run.flatMap trunEntry } =
          (placeFrom offset (samplesFrom firstFlags dts run), dts', { data := [] })
  | [], offset, firstFlags, dts, _, _ => ⟨dts, by cases firstFlags <;> rfl⟩
  | s :: run, offset, firstFlags, dts, hfits, hsum => by
    obtain ⟨hs, hrun⟩ := forall_mem_cons.mp hfits
    rw [map_cons, sum_cons] at hsum
    have hoffset : int64 ((offset : ℤ) + s.size) = ((offset + s.size : ℕ) : ℤ) := by
      rw [int64_eq (by omega) (by omega)]
      rfl
    have hsamples : samplesFrom firstFlags dts (s :: run) =
        trunSample dts (firstFlags.getD s.flags) s :: trunSamples (int64 (dts + s.duration)) run := by
      cases firstFlags <;> rfl
    obtain ⟨dts', heq⟩ := readTrunSamples_eq defaults none (int64 (dts + s.duration)) hrun
      (show offset + s.size + (run.map (·.size)).sum < 2 ^ 63 by omega)
    refine ⟨dts', ?_⟩
    rw [flatMap_cons, length_cons, readTrunSamples, readTrunSample_eq hs, hsamples]
    simp only [trunSample, hoffset, heq]
    rfl

lemma trunFlags_eq (run : List TrunSample) : trunFlags run = runFlags (run.any (·.cts.isSome)) := rfl

lemma length_trunEntry {s : TrunSample} (hs : FitsRun hasCts s) :
    (trunEntry s).length = trunFieldBytes (runFlags hasCts) := by
  obtain rfl := hs.hasCts
  cases hcts : s.cts <;> simp [trunEntry, hcts, runFlags, trunFieldBytes]

lemma length_flatMap_trunEntry {run : List TrunSample} (hfits : ∀ s ∈ run, FitsRun hasCts s) :
    (run.flatMap trunEntry).length = run.length * trunFieldBytes (runFlags hasCts) := by
  rw [length_flatMap, map_congr_left fun s hs => length_trunEntry (hfits s hs)]
  simp

lemma trunFieldBytes_cases (hasCts : Bool) :
    trunFieldBytes (runFlags hasCts) = 12 ∨ trunFieldBytes (runFlags hasCts) = 16 := by
  cases hasCts <;> decide

lemma claim_eq_none {budget : SampleBudget} {count : ℕ} (h : maxSamples < count) :
    budget.claim count 0 = none := by
  rw [SampleBudget.claim, if_pos (.inr h)]

/-- **A run is read**: its samples stand one behind the other in the data. -/
lemma readTrun_eq {file : Bytes} {pos base dataOffset : ℕ} {run : List TrunSample}
    (hslice : IsSlice file pos (box trunType (trunPayload version run dataOffset)))
    (hfits : ∀ s ∈ run, FitsRun (run.any (·.cts.isSome)) s) (hcount : run.length < 2 ^ 32)
    (hoffset : dataOffset < 2 ^ 31) (hend : base + dataOffset + (run.map (·.size)).sum < 2 ^ 63)
    (dts : ℤ) (defaults : TrunDefaults) (budget : SampleBudget) :
    ∃ dts', readTrun file (headerAt pos trunType (trunPayload version run dataOffset)) base dts defaults
        budget =
      match budget.claim run.length 0 with
      | none => .error .invalidData
      | some budget =>
        .ok (placeFrom ((base + dataOffset : ℕ) : ℤ) (parseTrun defaults.flags dts run), dts', budget) := by
  have hentries := length_flatMap_trunEntry hfits
  have hfields := trunFieldBytes_cases (run.any (·.cts.isSome))
  have hlength : (trunPayload version run dataOffset).length =
      12 + run.length * trunFieldBytes (trunFlags run) := by
    rw [trunFlags_eq]
    simp only [trunPayload, fullPayload, length_append, length_beBytes]
    omega
  have hle := hslice.le_length (ne_nil_of_length_pos (by simp))
  rw [length_box, show trunType.length = 4 from rfl] at hle
  have hflags : trunFlags run < 2 ^ 24 := by
    rw [trunFlags_eq]
    cases run.any (·.cts.isSome) <;> decide
  have h1 : trunFlags run &&& 0x000001 ≠ 0 := by
    rw [trunFlags_eq]
    cases run.any (·.cts.isSome) <;> decide
  have h4 : trunFlags run &&& 0x000004 = 0 := by
    rw [trunFlags_eq]
    cases run.any (·.cts.isSome) <;> decide
  have h200 : trunFlags run &&& 0x000200 ≠ 0 := by
    rw [trunFlags_eq]
    cases run.any (·.cts.isSome) <;> decide
  have hcountMod : run.length % 256 ^ 4 = run.length := Nat.mod_eq_of_lt hcount
  have hoffsetMod : dataOffset % 256 ^ 4 = dataOffset := Nat.mod_eq_of_lt (by omega)
  have hplace : int64 ((base : ℤ) + int32 (dataOffset : ℕ)) = ((base + dataOffset : ℕ) : ℤ) := by
    rw [int32_eq (by omega) (by omega), int64_eq (by omega) (by omega)]
    rfl
  obtain ⟨dts', hsamples⟩ := readTrunSamples_eq defaults (some defaults.flags) dts hfits hend
  refine ⟨dts', ?_⟩
  rw [readTrun, readPayload_headerAt hslice rfl (by omega)]
  by_cases hlong : maxSamples < run.length
  · -- refused for its size, or for its count
    rw [claim_eq_none hlong]
    split
    · rfl
    · simp only [bind, Except.bind, trunPayload, fullBox_fullPayload hflags, append_assoc,
        take_beBytes, hcountMod, if_pos hlong]
  · have hsmall : ¬ maxBoxPayload < (trunPayload version run dataOffset).length := by
      rw [hlength, trunFlags_eq]
      unfold maxBoxPayload
      unfold maxSamples at hlong
      obtain heq | heq := hfields <;> rw [heq] <;> omega
    rw [if_neg hsmall]
    simp only [bind, Except.bind, trunPayload, fullBox_fullPayload hflags, append_assoc,
      take_beBytes, hcountMod, if_neg hlong, takeIf_some h1, takeIf_none h4, hoffsetMod, if_pos h200,
      Option.getD_some, Option.getD_none, hplace]
    rw [if_neg (by rw [trunFlags_eq]; omega)]
    rw [trunFlags_eq, hsamples]
    cases budget.claim run.length 0 <;> simp [samplesFrom]

end Runs

/-! ### Parts -/

def addPart (s : DemuxState) (part : Traf × ℕ) : Except BoxErr DemuxState :=
  match s.1 part.1.id with
  | none => .ok s
  | some track =>
    match s.2.claim part.1.run.length 0 with
    | none => .error .invalidData
    | some budget =>
      .ok (Function.update s.1 part.1.id (some { track with
        samples := track.samples ++
          placeFrom part.2 (parseTrun track.defaultSampleFlags (int64 part.1.baseDTS) part.1.run) }),
        budget)

/-- What is written of a part fits in its fields, and so does the end of its data. -/
structure FitsPart (moofAt : ℕ) (traf : Traf) (dataOffset : ℕ) : Prop where
  id : traf.id < 2 ^ 32
  baseDTS : traf.baseDTS < 2 ^ 64
  run : ∀ s ∈ traf.run, FitsRun (traf.run.any (·.cts.isSome)) s
  dataEnd : dataOffset + (traf.run.map (·.size)).sum < 2 ^ 31
  fileEnd : moofAt + (dataOffset + (traf.run.map (·.size)).sum) < 2 ^ 63

section Parts

variable {file type payload : Bytes} {pos moofAt dataOffset version : ℕ} {traf : Traf}

lemma walkBoxes_headerAt {σ : Type} (visit : σ → BoxHeader → Except BoxErr σ)
    {boxes : List (Bytes × Bytes)} {s : σ} (htype : type.length = 4) (hok : BoxesOk boxes)
    (hslice : IsSlice file pos (box type (boxBytes boxes))) (hmax : file.length < 2 ^ 63) :
    walkBoxes file (headerAt pos type (boxBytes boxes)).payloadOffset
        (headerAt pos type (boxBytes boxes)).boxEnd visit s =
      (headersAt (pos + 8) boxes).foldlM visit s := by
  have hle := hslice.le_length (ne_nil_of_length_pos (by simp))
  rw [length_box, htype] at hle
  have hboxEnd : (headerAt pos type (boxBytes boxes)).boxEnd =
      ((pos + 8 + (boxBytes boxes).length : ℕ) : ℤ) := by
    simp only [BoxHeader.boxEnd, headerAt]
    rw [int64_eq (by omega) (by omega)]
    omega
  rw [hboxEnd]
  exact walkBoxes_eq visit hok (slice_payload htype hslice) rfl (by omega) hmax

variable (fields : TrafFields)

lemma readTfhd_eq {id : ℕ} (hid : id < 2 ^ 32) :
    readTfhd fields (fullPayload 0 0x020000 (beBytes 4 id)) = { fields with id := some id } := by
  have htake := take_beBytes 4 id []
  rw [append_nil, show id % 256 ^ 4 = id from Nat.mod_eq_of_lt hid] at htake
  unfold readTfhd
  simp [fullBox_fullPayload, htake, Parser.takeIf]

lemma readTfdt_eq {time : ℕ} (htime : time < 2 ^ 64) :
    readTfdt fields (fullPayload 1 0 (beBytes 8 time)) = { fields with baseDTS := int64 time } := by
  have htake := take_beBytes 8 time []
  rw [append_nil, show time % 256 ^ 8 = time from Nat.mod_eq_of_lt htime] at htake
  unfold readTfdt
  simp [fullBox_fullPayload, htake]

lemma readPayload_short (hslice : IsSlice file pos (box type payload)) (htype : type.length = 4)
    (hlength : payload.length ≤ 12) : readPayload file (headerAt pos type payload) = .ok payload := by
  have hle := hslice.le_length (ne_nil_of_length_pos (by simp))
  rw [length_box] at hle
  rw [readPayload_headerAt hslice htype (by omega), if_neg (by unfold maxBoxPayload; omega)]

lemma visitTraf_tfhd (hslice : IsSlice file pos (box tfhdType payload)) (hlength : payload.length ≤ 12) :
    visitTraf file fields (headerAt pos tfhdType payload) = .ok (readTfhd fields payload) := by
  rw [visitTraf, readPayload_short hslice rfl hlength]
  rfl

lemma visitTraf_tfdt (hslice : IsSlice file pos (box tfdtType payload)) (hlength : payload.length ≤ 12) :
    visitTraf file fields (headerAt pos tfdtType payload) = .ok (readTfdt fields payload) := by
  rw [visitTraf, readPayload_short hslice rfl hlength]
  rfl

lemma visitTraf_trun (payload : Bytes) (fields : TrafFields) :
    visitTraf file fields (headerAt pos trunType payload) =
      .ok { fields with runs := fields.runs ++ [headerAt pos trunType payload] } := by
  rw [visitTraf, if_neg (by rw [type_headerAt]; decide), if_neg (by rw [type_headerAt]; decide),
    if_pos (type_headerAt _ _ _)]

lemma visitTraf_eq (hslice : IsSlice file pos (boxBytes (trafBoxes version traf dataOffset)))
    (hid : traf.id < 2 ^ 32) (hbase : traf.baseDTS < 2 ^ 64) (fields : TrafFields) :
    ∃ at_, IsSlice file at_ (box trunType (trunPayload version traf.run dataOffset)) ∧
      (headersAt pos (trafBoxes version traf dataOffset)).foldlM (visitTraf file) fields = .ok { fields with
        id := some traf.id
        baseDTS := int64 traf.baseDTS
        runs := fields.runs ++ [headerAt at_ trunType (trunPayload version traf.run dataOffset)] } := by
  obtain ⟨htfhd, hslice⟩ := slice_boxes rfl hslice
  obtain ⟨htfdt, hslice⟩ := slice_boxes rfl hslice
  obtain ⟨htrun, -⟩ := slice_boxes rfl hslice
  refine ⟨_, htrun, ?_⟩
  simp only [trafBoxes, headersAt, foldlM_cons, visitTraf_tfhd _ htfhd (by simp [fullPayload]),
    readTfhd_eq _ hid, bind, Except.bind,
    visitTraf_tfdt _ htfdt (by simp [fullPayload]), readTfdt_eq _ hbase, visitTraf_trun]
  rfl

lemma readTraf_eq (hslice : IsSlice file pos (box trafType (boxBytes (trafBoxes version traf dataOffset))))
    (hfits : FitsPart moofAt traf dataOffset)
    (hsize : (boxBytes (trafBoxes version traf dataOffset)).length < 2 ^ 32)
    (hmax : file.length < 2 ^ 63) (s : DemuxState) :
    readTraf file moofAt s (headerAt pos trafType (boxBytes (trafBoxes version traf dataOffset))) =
      addPart s (traf, moofAt + dataOffset) := by
  have hok : BoxesOk (trafBoxes version traf dataOffset) :=
    boxesOk_of_length (by simp [trafBoxes, tfhdType, tfdtType, trunType]) hsize
  obtain ⟨at_, htrun, hfields⟩ := visitTraf_eq (slice_payload rfl hslice) hfits.id hfits.baseDTS
    { baseOffset := moofAt }
  have hcount : traf.run.length < 2 ^ 32 := by
    have hentries := length_flatMap_trunEntry hfits.run
    have hfields := trunFieldBytes_cases (traf.run.any (·.cts.isSome))
    simp only [trafBoxes, length_boxBytes_cons, tfhdType, tfdtType, trunType, trunPayload, fullPayload,
      length_append, hentries, length_cons, length_nil] at hsize
    obtain heq | heq := hfields <;> rw [heq] at hsize <;> omega
  have hend := hfits.dataEnd
  have hfileEnd := hfits.fileEnd
  unfold readTraf addPart
  rw [walkBoxes_headerAt _ rfl hok hslice hmax, hfields]
  simp only [bind, Except.bind, Option.bind_some, nil_append]
  cases hs : s.1 traf.id with
  | none => rfl
  | some track =>
    simp only [Option.map_some, Option.getD_none, readRuns]
    obtain ⟨dts', hread⟩ := readTrun_eq htrun hfits.run hcount (by omega)
      (show moofAt + dataOffset + (traf.run.map (·.size)).sum < 2 ^ 63 by omega) (int64 traf.baseDTS)
      { duration := track.defaultSampleDuration, size := track.defaultSampleSize,
        flags := track.defaultSampleFlags } s.2
    rw [hread]
    cases s.2.claim traf.run.length 0 with
    | none => rfl
    | some budget => simp [bind, Except.bind, pure, Except.pure]

def trafBox (version : Traf → ℕ) (part : (Traf × Bytes) × ℕ) : Bytes × Bytes :=
  (trafType, boxBytes (trafBoxes (version part.1.1) part.1.1 part.2))

lemma foldlM_trafBoxes {version : Traf → ℕ} (hmax : file.length < 2 ^ 63) :
    ∀ {parts : List ((Traf × Bytes) × ℕ)} {pos : ℕ} {s : DemuxState},
      IsSlice file pos (boxBytes (parts.map (trafBox version))) →
      (∀ part ∈ parts, FitsPart moofAt part.1.1 part.2) →
      (boxBytes (parts.map (trafBox version))).length < 2 ^ 32 →
      (headersAt pos (parts.map (trafBox version))).foldlM
          (fun s h => if h.type = trafType then readTraf file moofAt s h else .ok s) s =
        (parts.map fun part => (part.1.1, moofAt + part.2)).foldlM addPart s
  | [], _, _, _, _, _ => rfl
  | part :: parts, pos, s, hslice, hfits, hlength => by
    obtain ⟨hpart, hparts⟩ := forall_mem_cons.mp hfits
    rw [map_cons] at hslice hlength
    obtain ⟨hfirst, hslice⟩ := slice_boxes rfl hslice
    rw [length_boxBytes_cons rfl] at hlength
    have hread := readTraf_eq hfirst hpart
      (Nat.lt_of_le_of_lt (Nat.le_add_left _ 8) (Nat.lt_of_le_of_lt (Nat.le_add_right _ _) hlength)) hmax
    have hrest : ∀ s, _ := fun s => foldlM_trafBoxes (s := s) hmax hslice hparts (by omega)
    rw [map_cons, map_cons, headersAt, foldlM_cons, foldlM_cons,
      if_pos (show (headerAt _ (trafBox version part).1 _).type = trafType from rfl)]
    exact congrArg₂ bind (hread s) (funext hrest)

end Parts

/-! ### Fragments -/

section Fragments

variable {file : Bytes} {pos : ℕ} {version : Traf → ℕ} {sequence : ℕ} {parts : List (Traf × Bytes)}

lemma length_dataOffsets (at_ : ℕ) (parts : List (Traf × Bytes)) :
    (dataOffsets at_ parts).length = parts.length := by
  induction parts generalizing at_ with
  | nil => rfl
  | cons part parts ih => rw [dataOffsets, length_cons, ih, length_cons]

def placedParts (pos : ℕ) (version : Traf → ℕ) (sequence : ℕ) (parts : List (Traf × Bytes)) :
    List ((Traf × Bytes) × ℕ) :=
  (parts.zip (fragmentOffsets version sequence parts)).map fun part => (part.1, pos + part.2)

lemma length_moof {offsets : List ℕ} (hoffsets : offsets.length = parts.length) :
    8 + (boxBytes (moofBoxes version sequence parts offsets)).length = moofSize version sequence parts := by
  have hparts : ∀ {parts : List (Traf × Bytes)} {offsets : List ℕ}, offsets.length = parts.length →
      (boxBytes ((parts.zip offsets).map (trafBox version))).length =
        (boxBytes ((parts.zip (parts.map fun _ => 0)).map (trafBox version))).length := by
    intro parts
    induction parts with
    | nil => simp
    | cons part parts ih =>
      intro offsets hlength
      obtain ⟨offset, offsets, rfl⟩ := exists_cons_of_length_eq_add_one hlength
      rw [map_cons, zip_cons_cons, zip_cons_cons, map_cons, map_cons,
        length_boxBytes_cons rfl, length_boxBytes_cons rfl, ih (by simpa using hlength)]
      simp [trafBox, trafBoxes, boxBytes, trunPayload, fullPayload]
  have hboxes : ∀ offsets, moofBoxes version sequence parts offsets =
      (mfhdType, fullPayload 0 0 (beBytes 4 sequence)) :: (parts.zip offsets).map (trafBox version) :=
    fun _ => rfl
  rw [moofSize, length_box, hboxes, hboxes, length_boxBytes_cons rfl, length_boxBytes_cons rfl,
    hparts hoffsets]
  rfl

structure PartOk (part : Traf × Bytes) : Prop where
  id : part.1.id < 2 ^ 32
  baseDTS : part.1.baseDTS < 2 ^ 64
  run : ∀ s ∈ part.1.run, FitsRun (part.1.run.any (·.cts.isSome)) s
  data : (part.1.run.map (·.size)).sum = part.2.length

lemma dataOffsets_slice : ∀ {parts : List (Traf × Bytes)} {at_ : ℕ},
    IsSlice file (pos + at_) (parts.flatMap Prod.snd) →
      ∀ part ∈ parts.zip (dataOffsets at_ parts), IsSlice file (pos + part.2) part.1.2 ∧
        part.2 + part.1.2.length ≤ at_ + (parts.flatMap Prod.snd).length
  | [], _, _ => by simp
  | first :: parts, at_, hslice => by
    rw [flatMap_cons] at hslice ⊢
    have htake := hslice.take first.2.length
    have hdrop := hslice.drop first.2.length
    rw [take_left] at htake
    rw [drop_left, Nat.add_assoc] at hdrop
    rw [dataOffsets, zip_cons_cons, forall_mem_cons, length_append]
    refine ⟨⟨htake, by dsimp only; omega⟩, fun part hpart => ?_⟩
    obtain ⟨hdata, hle⟩ := dataOffsets_slice hdrop part hpart
    exact ⟨hdata, by omega⟩

lemma length_fragmentOffsets : (fragmentOffsets version sequence parts).length = parts.length :=
  length_dataOffsets _ _

lemma length_fragment : (boxBytes (fragmentBoxes version sequence parts)).length =
    moofSize version sequence parts + 8 + (parts.flatMap Prod.snd).length := by
  rw [fragmentBoxes, length_boxBytes_cons rfl, length_boxBytes_cons rfl, length_moof length_fragmentOffsets]
  simp [boxBytes]
  omega

section

variable (hslice : IsSlice file pos (boxBytes (fragmentBoxes version sequence parts)))
include hslice

lemma placedParts_slice :
    ∀ part ∈ placedParts pos version sequence parts, IsSlice file part.2 part.1.2 := by
  obtain ⟨-, hmdat⟩ := slice_boxes rfl hslice
  obtain ⟨hmdat, -⟩ := slice_boxes rfl hmdat
  have hdata := slice_payload rfl hmdat
  rw [length_moof length_fragmentOffsets, Nat.add_assoc] at hdata
  intro placed hplaced
  obtain ⟨part, hpart, rfl⟩ := mem_map.mp hplaced
  exact (dataOffsets_slice hdata part hpart).1

lemma readMoof_eq (hok : ∀ part ∈ parts, PartOk part)
    (hsmall : (boxBytes (fragmentBoxes version sequence parts)).length < 2 ^ 31)
    (hmax : file.length < 2 ^ 63) (s : DemuxState) :
    readMoof file s (headerAt pos moofType (boxBytes (moofBoxes version sequence parts
        (fragmentOffsets version sequence parts)))) =
      ((placedParts pos version sequence parts).map fun part => (part.1.1, part.2)).foldlM addPart s := by
  obtain ⟨hmoof, hmdat⟩ := slice_boxes rfl hslice
  have hle := hslice.le_length (ne_nil_of_length_pos (by rw [length_fragment]; omega))
  rw [length_fragment] at hle hsmall
  have hsize : 8 + (boxBytes (moofBoxes version sequence parts
      (fragmentOffsets version sequence parts))).length = moofSize version sequence parts :=
    length_moof length_fragmentOffsets
  have hdata := slice_payload rfl (slice_boxes rfl hmdat).1
  rw [hsize, Nat.add_assoc] at hdata
  have hboxes : moofBoxes version sequence parts (fragmentOffsets version sequence parts) =
      (mfhdType, fullPayload 0 0 (beBytes 4 sequence)) ::
        (parts.zip (fragmentOffsets version sequence parts)).map (trafBox version) := rfl
  have hinside : BoxesOk (moofBoxes version sequence parts (fragmentOffsets version sequence parts)) := by
    refine boxesOk_of_length ?_ (by omega)
    rw [hboxes, forall_mem_cons, forall_mem_map]
    exact ⟨rfl, fun _ _ => rfl⟩
  have hfits : ∀ part ∈ parts.zip (fragmentOffsets version sequence parts),
      FitsPart pos part.1.1 part.2 := by
    intro part hpart
    obtain ⟨hid, hbase, hrun, hsum⟩ := hok part.1 (of_mem_zip hpart).1
    obtain ⟨-, hend⟩ := dataOffsets_slice hdata part hpart
    exact ⟨hid, hbase, hrun, by omega, by omega⟩
  have htrafs := slice_payload rfl hmoof
  replace htrafs := (slice_boxes rfl htrafs).2
  have hlength : (boxBytes ((parts.zip (fragmentOffsets version sequence parts)).map
      (trafBox version))).length < 2 ^ 32 := by
    rw [hboxes, length_boxBytes_cons rfl] at hsize
    omega
  rw [readMoof, walkBoxes_headerAt _ rfl hinside hmoof hmax, hboxes]
  refine (foldlM_trafBoxes hmax htrafs hfits hlength).trans ?_
  rw [placedParts, map_map]
  rfl

end

/-! ### Files -/

def fragmentsBoxes (version : ℕ → Traf → ℕ) (fragments : List (ℕ × List (Traf × Bytes))) :
    List (Bytes × Bytes) :=
  fragments.flatMap fun f => fragmentBoxes (version f.1) f.1 f.2

def placedFragments (version : ℕ → Traf → ℕ) : ℕ → List (ℕ × List (Traf × Bytes)) →
    List ((Traf × Bytes) × ℕ)
  | _, [] => []
  | pos, f :: fragments =>
    placedParts pos (version f.1) f.1 f.2 ++
      placedFragments version (pos + (boxBytes (fragmentBoxes (version f.1) f.1 f.2)).length) fragments

structure FragmentOk (version : Traf → ℕ) (sequence : ℕ) (parts : List (Traf × Bytes)) : Prop where
  fits : ∀ part ∈ parts, PartOk part
  small : (boxBytes (fragmentBoxes version sequence parts)).length < 2 ^ 31

lemma boxBytes_append (boxes boxes' : List (Bytes × Bytes)) :
    boxBytes (boxes ++ boxes') = boxBytes boxes ++ boxBytes boxes' := flatMap_append

lemma headersAt_append {boxes boxes' : List (Bytes × Bytes)} (htypes : ∀ b ∈ boxes, b.1.length = 4) :
    headersAt pos (boxes ++ boxes') =
      headersAt pos boxes ++ headersAt (pos + (boxBytes boxes).length) boxes' := by
  induction boxes generalizing pos with
  | nil => rfl
  | cons b boxes ih =>
    obtain ⟨hb, hrest⟩ := forall_mem_cons.mp htypes
    rw [cons_append, headersAt, headersAt, ih hrest, cons_append, length_boxBytes_cons hb, Nat.add_assoc]

section

variable {version : ℕ → Traf → ℕ} {fragments : List (ℕ × List (Traf × Bytes))}

lemma slice_fragments {f : ℕ × List (Traf × Bytes)}
    (hslice : IsSlice file pos (boxBytes (fragmentsBoxes version (f :: fragments)))) :
    IsSlice file pos (boxBytes (fragmentBoxes (version f.1) f.1 f.2)) ∧
      IsSlice file (pos + (boxBytes (fragmentBoxes (version f.1) f.1 f.2)).length)
        (boxBytes (fragmentsBoxes version fragments)) := by
  rw [fragmentsBoxes, flatMap_cons, boxBytes_append] at hslice
  constructor
  · have htake := hslice.take (boxBytes (fragmentBoxes (version f.1) f.1 f.2)).length
    rwa [take_left] at htake
  · have hdrop := hslice.drop (boxBytes (fragmentBoxes (version f.1) f.1 f.2)).length
    rwa [drop_left] at hdrop

lemma placedFragments_slice : ∀ {fragments : List (ℕ × List (Traf × Bytes))} {pos : ℕ},
    IsSlice file pos (boxBytes (fragmentsBoxes version fragments)) →
      ∀ part ∈ placedFragments version pos fragments, IsSlice file part.2 part.1.2
  | [], _, _ => by simp [placedFragments]
  | f :: fragments, pos, hslice => by
    obtain ⟨hfirst, hrest⟩ := slice_fragments hslice
    intro part hpart
    obtain hpart | hpart := mem_append.mp hpart
    · exact placedParts_slice hfirst part hpart
    · exact placedFragments_slice hrest part hpart

lemma foldlM_fragments (hmax : file.length < 2 ^ 63) :
    ∀ {fragments : List (ℕ × List (Traf × Bytes))} {pos : ℕ} {s : DemuxState},
      IsSlice file pos (boxBytes (fragmentsBoxes version fragments)) →
      (∀ f ∈ fragments, FragmentOk (version f.1) f.1 f.2) →
      (headersAt pos (fragmentsBoxes version fragments)).foldlM
          (fun s h => if h.type = moofType then readMoof file s h else .ok s) s =
        ((placedFragments version pos fragments).map fun part => (part.1.1, part.2)).foldlM addPart s
  | [], _, _, _, _ => rfl
  | f :: fragments, pos, s, hslice, hok => by
    obtain ⟨hfirst, hslice⟩ := slice_fragments hslice
    obtain ⟨hf, hrest⟩ := forall_mem_cons.mp hok
    have htypes : ∀ b ∈ fragmentBoxes (version f.1) f.1 f.2, b.1.length = 4 := by
      simp [fragmentBoxes, moofType, mdatType]
    have hread : (headersAt pos (fragmentBoxes (version f.1) f.1 f.2)).foldlM
        (fun s h => if h.type = moofType then readMoof file s h else .ok s) s =
          ((placedParts pos (version f.1) f.1 f.2).map fun part => (part.1.1, part.2)).foldlM addPart s := by
      rw [fragmentBoxes, headersAt, headersAt, headersAt, foldlM_cons, if_pos (type_headerAt _ _ _),
        readMoof_eq hfirst hf.fits hf.small hmax]
      -- the `mdat` is skipped
      exact bind_pure _
    rw [fragmentsBoxes, flatMap_cons, headersAt_append htypes, foldlM_append, placedFragments,
      map_append, foldlM_append, hread]
    exact congrArg₂ bind rfl (funext fun s => foldlM_fragments hmax hslice hrest)

/-- **What a fragmented file says**: behind its header, the parts of its fragments. -/
theorem parseFragments_eq {ftyp moov : Bytes} (hmax : file.length < 2 ^ 63)
    (hfile : file = boxBytes ((ftypType, ftyp) :: (moovType, moov) :: fragmentsBoxes version fragments))
    (hftyp : 8 + ftyp.length < 2 ^ 32) (hmoov : 8 + moov.length < 2 ^ 32)
    (hok : ∀ f ∈ fragments, FragmentOk (version f.1) f.1 f.2) (s : DemuxState) :
    parseFragments file s =
      ((placedFragments version (8 + ftyp.length + (8 + moov.length)) fragments).map fun part =>
        (part.1.1, part.2)).foldlM addPart s := by
  have hslice : IsSlice file 0 (boxBytes ((ftypType, ftyp) :: (moovType, moov) ::
      fragmentsBoxes version fragments)) := hfile ▸ isSlice_zero file
  have hboxes : BoxesOk ((ftypType, ftyp) :: (moovType, moov) :: fragmentsBoxes version fragments) := by
    refine forall_mem_cons.mpr ⟨⟨rfl, hftyp⟩, forall_mem_cons.mpr ⟨⟨rfl, hmoov⟩, fun b hb => ?_⟩⟩
    obtain ⟨f, hf, hb⟩ := mem_flatMap.mp hb
    refine boxesOk_of_length ?_ (Nat.lt_trans (hok f hf).small (by decide)) b hb
    simp [fragmentBoxes, moofType, mdatType]
  have hlength := congrArg List.length hfile
  unfold parseFragments
  rw [← Nat.cast_zero, walkBoxes_eq _ hboxes hslice (by omega) le_rfl hmax]
  obtain ⟨-, hslice⟩ := slice_boxes rfl hslice
  obtain ⟨-, hslice⟩ := slice_boxes rfl hslice
  rw [Nat.zero_add] at hslice
  rw [headersAt, Nat.zero_add]
  exact foldlM_fragments hmax hslice hok

end

end Fragments

end Goav.Mp4
