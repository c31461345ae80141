import Goav.Compile.SolverDefs
import Mathlib.Data.Bool.Basic

/-!
The chain that the solver makes against the two walks over it. An operation is *settled* at a shape if
the solver passes over it; a chain of settled operations is valid, and nothing is inserted into it.
-/

namespace Goav.Compile

open Goav.Av Goav.Shape Goav.Lib Solver List Option

/-! ### Conversions -/

structure Refines (target expected : Spec) : Prop where
  mediaKind : target.mediaKind = expected.mediaKind
  sampleRate : expected.sampleRate ≠ 0 → target.sampleRate = expected.sampleRate
  channels : expected.channels ≠ 0 → target.channels = expected.channels
  sampleFormat : expected.sampleFormat ≠ "" → target.sampleFormat = expected.sampleFormat
  width : expected.width ≠ 0 → target.width = expected.width
  height : expected.height ≠ 0 → target.height = expected.height
  pixelFormat : expected.pixelFormat ≠ "" → target.pixelFormat = expected.pixelFormat

lemma Refines.refl (expected : Spec) : Refines expected expected := by
  constructor <;> simp

lemma refines_preferredConversionTarget (media : MediaType) (expected pref : Spec) :
    Refines (preferredConversionTarget media expected pref) expected := by
  unfold preferredConversionTarget
  split
  · constructor <;> simp +contextual
  · constructor <;> simp +contextual
  · exact .refl expected

def conversionMedia (actual expected : Spec) : MediaType :=
  firstNonEmptyMedia [expected.mediaKind, actual.mediaKind]

/-- A plan is the transform to a target that refines what is expected. -/
structure IsPlan (actual expected : Spec) (conversion : ShapeConversionPlan) : Prop where
  kind : conversion.operation.kind = .transform
  auto : conversion.operation.auto = none
  prefer : conversion.operation.prefer = none
  target : ∃ target, Refines target expected ∧
    synthesizeConversionTransform (conversionMedia actual expected) actual target =
      some conversion.operation.transform ∧
    conversion.needed = conversions actual target

variable {env : Env} {actual expected pref : Spec} {realtime : Bool} {policy : Policy}
  {prefActive : Bool} {node : String} {conversion : ShapeConversionPlan} {target : Spec}

lemma isPlan_of_planShapeConversionFor {resolved : Bool} (htarget : Refines target expected)
    (h : planShapeConversionFor env actual target realtime pref = .ok (some (conversion, resolved))) :
    IsPlan actual expected conversion := by
  unfold planShapeConversionFor at h
  dsimp only at h
  split at h
  · simp at h
  split at h
  · simp at h
  rename_i transform htransform
  split at h
  · simp at h
  · obtain ⟨rfl, -⟩ := h
    rw [htarget.mediaKind] at htransform
    exact ⟨rfl, rfl, rfl, target, htarget, htransform, rfl⟩

lemma planShapeConversionFor_eq_none
    (h : planShapeConversionFor env actual expected realtime pref = .ok none) :
    (conversions actual expected).empty = true ∨
      synthesizeConversionTransform (conversionMedia actual expected) actual expected = none := by
  unfold planShapeConversionFor at h
  dsimp only at h
  split at h
  · exact .inl ‹_›
  · split at h
    · exact .inr ‹_›
    · split at h <;> simp at h

theorem planShapeConversionPreferred_cases {result : Option (ShapeConversionPlan × List Diagnostic)}
    (hdeltas : env.shapeDeltas = [])
    (h : planShapeConversionPreferred env actual expected realtime policy pref prefActive node =
      .ok result) :
    (∀ p ∈ result, IsPlan actual expected p.1) ∧
    (result = none → (conversions actual expected).empty = true ∨
      synthesizeConversionTransform (conversionMedia actual expected) actual expected = none) := by
  have hbase (diagnostics : List Diagnostic)
      (h : (planShapeConversion env actual expected realtime).map (Option.map (·, diagnostics)) =
        .ok result) :
      (∀ p ∈ result, IsPlan actual expected p.1) ∧
      (result = none → (conversions actual expected).empty = true ∨
        synthesizeConversionTransform (conversionMedia actual expected) actual expected = none) := by
    obtain ⟨planned, hplanned, rfl⟩ := map_eq_ok.mp h
    obtain ⟨found, hfound, rfl⟩ := map_eq_ok.mp hplanned
    cases found with
    | none => exact ⟨by simp, fun _ => planShapeConversionFor_eq_none hfound⟩
    | some found =>
      refine ⟨?_, by simp⟩
      rintro p hp
      obtain rfl : (found.1, diagnostics) = p := by simpa using hp
      exact isPlan_of_planShapeConversionFor (.refl expected) hfound
  have hcustom : planCustomShapeConversion env actual expected realtime pref = .ok none := by
    simp [planCustomShapeConversion, hdeltas]
  rw [planShapeConversionPreferred, hcustom] at h
  unfold planFilterConversion at h
  dsimp only at h
  split at h
  · exact hbase _ h
  split at h
  · exact hbase _ h
  · exact hbase _ h
  rename_i planned resolved hplanned
  split at h
  · exact hbase _ h
  split at h
  · exact hbase _ h
  cases h
  refine ⟨?_, by simp⟩
  rintro p hp
  cases hp
  exact isPlan_of_planShapeConversionFor (refines_preferredConversionTarget _ expected pref) hplanned

/-! ### What a conversion does to the shape -/

lemma firstPositiveInt_pair (a b : ℤ) :
    firstPositiveInt [a, b] = if a > 0 then a else if b > 0 then b else 0 := rfl

lemma converted_iff {expected target actual : ℤ} (htarget : expected ≠ 0 → target = expected)
    (hpos : 0 < firstPositiveInt [target, actual]) :
    (expected = 0 ∨ firstPositiveInt [target, actual] = expected) ↔ 0 ≤ expected := by
  rw [firstPositiveInt_pair] at hpos ⊢
  grind

lemma firstNonEmpty_pair (a b : String) :
    firstNonEmpty [a, b] = if a ≠ "" then a else if b ≠ "" then b else "" := rfl

def resampled (actual target : Spec) : Spec :=
  { actual with
    domain := .frame
    mediaKind := .audio
    sampleRate := firstPositiveInt [target.sampleRate, actual.sampleRate]
    channels := firstPositiveInt [target.channels, actual.channels]
    sampleFormat := firstNonEmpty [target.sampleFormat, actual.sampleFormat] }

def resized (actual target : Spec) : Spec :=
  { actual with
    domain := .frame
    mediaKind := .video
    width := firstPositiveInt [target.width, actual.width]
    height := firstPositiveInt [target.height, actual.height]
    pixelFormat := firstNonEmpty [target.pixelFormat, actual.pixelFormat] }

theorem IsPlan.after_cases (h : IsPlan actual expected conversion) :
    ∃ target, Refines target expected ∧ conversion.needed = conversions actual target ∧
      ((conversionMedia actual expected = .audio ∧
        0 < (resampled actual target).sampleRate ∧ 0 < (resampled actual target).channels ∧
        recipeIRTransformInputShapes conversion.operation.transform = [frame .audio] ∧
        recipeIROperationOutputShape actual conversion.operation = resampled actual target) ∨
      (conversionMedia actual expected = .video ∧
        0 < (resized actual target).width ∧ 0 < (resized actual target).height ∧
        recipeIRTransformInputShapes conversion.operation.transform = [frame .video] ∧
        recipeIROperationOutputShape actual conversion.operation = resized actual target)) := by
  obtain ⟨target, htarget, hsynth, hneeded⟩ := h.target
  refine ⟨target, htarget, hneeded, ?_⟩
  have hformat (a b : String) :
      (if firstNonEmpty [a, b] ≠ "" then firstNonEmpty [a, b] else b) = firstNonEmpty [a, b] := by
    rw [firstNonEmpty_pair]
    grind
  unfold synthesizeConversionTransform at hsynth
  split at hsynth
  · rename_i hmedia
    dsimp only at hsynth
    split at hsynth
    · simp at hsynth
    rename_i hpos
    obtain ⟨hrate, hchannels⟩ := not_or.mp hpos
    refine .inl ⟨hmedia, not_le.mp hrate, not_le.mp hchannels, ?_⟩
    simp [recipeIROperationOutputShape, recipeIROperationOutputShapes, h.kind,
      ← some.inj hsynth, recipeIRTransformInputShapes, recipeIRTransformOutputShapes,
      resampled, hformat]
  · rename_i hmedia
    dsimp only at hsynth
    split at hsynth
    · simp at hsynth
    rename_i hpos
    obtain ⟨hwidth, hheight⟩ := not_or.mp hpos
    refine .inr ⟨hmedia, not_le.mp hwidth, not_le.mp hheight, ?_⟩
    simp [recipeIROperationOutputShape, recipeIROperationOutputShapes, h.kind,
      ← some.inj hsynth, recipeIRTransformInputShapes, recipeIRTransformOutputShapes,
      resized, hformat]
  · simp at hsynth

lemma covers_converted {policy : Policy} {actual target : Spec}
    (h : policy.covers (conversions actual target) = true) :
    policy.covers (conversions actual (resampled actual target)) = true ∧
      policy.covers (conversions actual (resized actual target)) = true := by
  simp only [Policy.covers, conversions, resampled, resized, firstPositiveInt_pair,
    firstNonEmpty_pair] at h ⊢
  constructor <;> grind

/-! ### Settled operations -/

variable {c : Solver} {current : Spec} {next : Operation}

def Settled (c : Solver) (current : Spec) (next : Operation) : Prop :=
  ∀ i, c.solveOperation i current next = .ok ([.own next], [], recipeIROperationOutputShape current next)

variable {i : ℕ} {insertion : Insertion} {diagnostics : List Diagnostic} {steps : List Step}
  {operations : List Operation} {operation : String}

lemma solveContract_eq_none_iff :
    c.solveContract i current next = .ok none ↔
      accepts (recipeIROperationInputShapes next) current = true := by
  unfold solveContract
  dsimp only
  split
  · simp [*]
  split
  · simp [*]
  split
  · simp [*]
  · split
    · simp [*]
    · simp [*]
    · split <;> simp [*]

lemma settled_iff (htap : next.kind ≠ .tap) (hann : carriesFacts next = false) :
    Settled c current next ↔ accepts (recipeIROperationInputShapes next) current = true ∧
      ∀ i, c.solvePinned i current next = .ok none := by
  unfold Settled solveOperation
  simp only [htap, hann]
  constructor
  · intro h
    have hnone (i : ℕ) : c.solveContract i current next = .ok none ∧
        c.solvePinned i current next = .ok none := by
      obtain ⟨contract, hcontract, hi⟩ := bind_eq_ok.mp (h i)
      obtain ⟨pinned, hpinned, hi⟩ := bind_eq_ok.mp hi
      have hsteps := (Prod.mk.inj (pure_eq_ok.mp hi)).1
      cases contract with
      | some contract => simp at hsteps
      | none =>
        cases pinned with
        | some pinned => simp at hsteps
        | none => exact ⟨hcontract, hpinned⟩
    exact ⟨solveContract_eq_none_iff.mp (hnone 0).1, fun i => (hnone i).2⟩
  · rintro ⟨haccepts, hpinned⟩ i
    rw [solveContract_eq_none_iff.mpr haccepts]
    simp only [bind, Except.bind, shapeAfter, hpinned i]
    rfl

lemma solvePinned_of_soft_empty (hsoft : recipeIROperationSoftInputShape next = {}) (i : ℕ) :
    c.solvePinned i current next = .ok none := by
  simp [solvePinned, hsoft, mediaShapeEmpty]

lemma plan_index {planned : Option (Insertion × List Diagnostic)}
    (h : c.plan i current next target = .ok planned) (j : ℕ) :
    c.plan j current next target = .ok planned := by
  unfold plan at h ⊢
  split at h
  · simp at h
  · exact h
  split at h
  · simp at h
  · rename_i hcovers
    rw [if_neg hcovers]
    exact h

lemma solvePinned_index {inserted : Option (Insertion × List Diagnostic)}
    (h : c.solvePinned i current next = .ok inserted) (j : ℕ) :
    c.solvePinned j current next = .ok inserted := by
  unfold solvePinned at h ⊢
  dsimp only at h ⊢
  split at h
  · rename_i hskip
    rw [if_pos hskip]
    exact h
  · rename_i hskip
    rw [if_neg hskip]
    exact plan_index h j

lemma settled_transform_iff (hkind : next.kind = .transform) :
    Settled c current next ↔ accepts (recipeIRTransformInputShapes next.transform) current = true := by
  rw [settled_iff (by simp [hkind]) (by simp [carriesFacts, hkind])]
  have hsoft : recipeIROperationSoftInputShape next = {} := by
    simp [recipeIROperationSoftInputShape, hkind]
  simp [recipeIROperationInputShapes, hkind, solvePinned_of_soft_empty hsoft]

/-! ### Insertions -/

structure Nonnegative (spec : Spec) : Prop where
  sampleRate : 0 ≤ spec.sampleRate
  channels : 0 ≤ spec.channels
  width : 0 ≤ spec.width
  height : 0 ≤ spec.height

/-- It is on frames, for nothing negative. -/
def Insertion.Fits (insertion : Insertion) : Prop :=
  insertion.before.domain = .frame ∧ Nonnegative (recipeIROperationSoftInputShape insertion.next)

structure Allowed (c : Solver) (insertion : Insertion) : Prop where
  active : c.policyActive = true
  needed : c.policy.covers insertion.conversion.needed = true
  changed : c.policy.covers (conversions insertion.before insertion.after) = true

structure Inserts (c : Solver) (current : Spec) (next : Operation) (insertion : Insertion) :
    Prop where
  before_eq : insertion.before = current
  next_eq : insertion.next = next
  allowed : Allowed c insertion
  auto : insertion.operation.auto = none
  prefer : insertion.operation.prefer = none
  settled : Settled c current insertion.operation ∧ Settled c insertion.after next ↔ insertion.Fits

lemma isPlan_of_plan (hdeltas : c.env.shapeDeltas = [])
    (h : c.plan i current next target = .ok (some (insertion, diagnostics))) :
    insertion.before = current ∧ insertion.next = next ∧
      IsPlan current target insertion.conversion ∧
      c.policy.covers insertion.conversion.needed = true := by
  unfold plan at h
  split at h
  · simp at h
  · simp at h
  rename_i conversion diagnostics hplan
  split at h
  · simp at h
  rename_i hcovers
  obtain ⟨rfl, -⟩ := h
  refine ⟨rfl, rfl, ?_, by simpa using hcovers⟩
  exact (planShapeConversionPreferred_cases hdeltas hplan).1 _ rfl

lemma plan_eq_none (hdeltas : c.env.shapeDeltas = []) (h : c.plan i current next target = .ok none) :
    (conversions current target).empty = true ∨
      synthesizeConversionTransform (conversionMedia current target) current target = none := by
  unfold plan at h
  split at h
  · simp at h
  · rename_i hplan
    exact (planShapeConversionPreferred_cases hdeltas hplan).2 rfl
  · split at h <;> simp at h

lemma allowed_of_isPlan (hactive : c.policyActive = true)
    (hplan : IsPlan insertion.before target insertion.conversion)
    (hcovers : c.policy.covers insertion.conversion.needed = true) : Allowed c insertion := by
  refine ⟨hactive, hcovers, ?_⟩
  obtain ⟨reached, -, hneeded, h⟩ := hplan.after_cases
  rw [hneeded] at hcovers
  unfold Insertion.after
  rcases h with ⟨-, -, -, -, hafter⟩ | ⟨-, -, -, -, hafter⟩
  · rw [hafter]
    exact (covers_converted hcovers).1
  · rw [hafter]
    exact (covers_converted hcovers).2

lemma settled_insertion_iff (hplan : IsPlan insertion.before target insertion.conversion) :
    Settled c current insertion.operation ↔ current.domain = .frame ∧
      current.mediaKind = conversionMedia insertion.before target := by
  obtain ⟨reached, -, -, h⟩ := hplan.after_cases
  have hkind : insertion.operation.kind = .transform := hplan.kind
  rw [settled_transform_iff hkind]
  have htransform : insertion.operation.transform = insertion.conversion.operation.transform := rfl
  rw [htransform]
  rcases h with ⟨hmedia, -, -, hinput, -⟩ | ⟨hmedia, -, -, hinput, -⟩
  · rw [hinput, accepts_frame, hmedia]
    simp
  · rw [hinput, accepts_frame, hmedia]
    simp

lemma target_spec {expected : ShapeSet} (h : shapeConversionTargetFromSet current expected = some target) :
    target ∈ expected ∧ conversionMedia current target = current.mediaKind ∧
      (conversions current target).empty = false := by
  have hfound := find?_some h
  simp only [Bool.and_eq_true, decide_eq_true_eq, Bool.not_eq_true'] at hfound
  obtain ⟨⟨⟨⟨⟨⟨⟨-, hmedia⟩, -⟩, -⟩, -⟩, -⟩, hneeded⟩, -⟩ := hfound
  refine ⟨mem_of_find?_eq_some h, ?_, hneeded⟩
  unfold conversionMedia firstNonEmptyMedia
  rcases hmedia with hmedia | hmedia
  · cases current.mediaKind <;> simp [hmedia, firstNonEmptyMedia]
  · cases hkind : current.mediaKind <;> simp [hmedia, hkind, firstNonEmptyMedia]

lemma conversions_codecSpecInputShapes {spec : CodecSpec} (h : target ∈ codecSpecInputShapes spec) :
    (conversions current target).empty = true := by
  unfold codecSpecInputShapes at h
  split at h
  · obtain rfl := mem_singleton.mp h
    simp [conversions, Policy.empty]
  · dsimp only at h
    split at h
    · simp at h
    · obtain rfl := mem_singleton.mp h
      simp [conversions, Policy.empty, frame]

lemma inserts_of_solveContract (hdeltas : c.env.shapeDeltas = []) (htap : next.kind ≠ .tap)
    (hann : carriesFacts next = false)
    (h : c.solveContract i current next = .ok (some (insertion, diagnostics))) :
    Inserts c current next insertion ∧ recipeIROperationSoftInputShape next = {} := by
  unfold solveContract at h
  dsimp only at h
  split at h
  · simp at h
  split at h
  · simp at h
  rename_i target htarget
  split at h
  · simp at h
  rename_i hactive
  split at h
  · simp at h
  · simp at h
  rename_i found found' hplan
  split at h
  · simp at h
  rename_i haccepts
  obtain ⟨rfl, -⟩ := h
  obtain ⟨rfl, hnext, hisplan, hcovers⟩ := isPlan_of_plan hdeltas hplan
  obtain ⟨hmem, hmedia, hneeded⟩ := target_spec htarget
  have hsoft : recipeIROperationSoftInputShape next = {} := by
    by_contra hne
    have hkind : next.kind = .encode := by
      by_contra hkind
      simp [recipeIROperationSoftInputShape, hkind] at hne
    simp only [recipeIROperationInputShapes, hkind] at hmem
    rw [conversions_codecSpecInputShapes hmem] at hneeded
    simp at hneeded
  refine ⟨⟨rfl, hnext, allowed_of_isPlan (by simpa using hactive) hisplan hcovers,
    hisplan.auto, hisplan.prefer, ?_⟩, hsoft⟩
  rw [settled_insertion_iff hisplan, hmedia, settled_iff htap hann, Insertion.Fits, hnext, hsoft]
  constructor
  · exact fun hsettled => ⟨hsettled.1.1, by constructor <;> simp⟩
  · exact fun hfits => ⟨⟨hfits.1, rfl⟩, by simpa using haccepts,
      solvePinned_of_soft_empty hsoft⟩

/-! ### Encoders -/

/-- An encoder that pins facts takes frames of one media, and pins facts of that media only. -/
lemma soft_cases (h : recipeIROperationSoftInputShape next ≠ {}) :
    (recipeIROperationInputShapes next = [frame .audio] ∧
      ∃ sampleRate channels sampleFormat, recipeIROperationSoftInputShape next =
        { domain := .frame, mediaKind := .audio, sampleRate, channels, sampleFormat }) ∨
    (recipeIROperationInputShapes next = [frame .video] ∧
      ∃ width height pixelFormat, recipeIROperationSoftInputShape next =
        { domain := .frame, mediaKind := .video, width, height, pixelFormat }) := by
  unfold recipeIROperationSoftInputShape at h ⊢
  split at h
  · simp at h
  rename_i hencode
  simp only [not_or, not_not] at hencode
  obtain ⟨hkind, hcopy, hid⟩ := hencode
  dsimp only at h ⊢
  split at h
  · rename_i hmedia
    refine .inl ⟨?_, ?_⟩
    · simp [recipeIROperationInputShapes, codecSpecInputShapes, hkind, hcopy, hmedia]
    · simp [hkind, hcopy, hid]
  · rename_i hmedia
    refine .inr ⟨?_, ?_⟩
    · simp [recipeIROperationInputShapes, codecSpecInputShapes, hkind, hcopy, hmedia]
    · simp [hkind, hcopy, hid]
  · simp at h

lemma converted_format {expected target actual : String} (htarget : expected ≠ "" → target = expected) :
    expected = "" ∨ firstNonEmpty [target, actual] = expected := by
  rw [firstNonEmpty_pair]
  grind

lemma firstPositiveInt_pos {a b : ℤ} (hb : 0 < b) : 0 < firstPositiveInt [a, b] := by
  rw [firstPositiveInt_pair]
  grind

/-- An encoder takes the shape, and a transform to the facts it pins could be made again. -/
lemma pinned_after (hsoft : recipeIROperationSoftInputShape next ≠ {})
    (hplan : IsPlan insertion.before (recipeIROperationSoftInputShape next) insertion.conversion) :
    accepts (recipeIROperationInputShapes next) insertion.after = true ∧
      (Satisfies insertion.after (recipeIROperationSoftInputShape next) ↔
        Nonnegative (recipeIROperationSoftInputShape next)) ∧
      synthesizeConversionTransform
        (conversionMedia insertion.after (recipeIROperationSoftInputShape next)) insertion.after
        (recipeIROperationSoftInputShape next) ≠ none := by
  obtain ⟨target, htarget, -, hcases⟩ := hplan.after_cases
  rcases soft_cases hsoft with ⟨hinput, rate, channels, format, hdesired⟩ |
    ⟨hinput, width, height, format, hdesired⟩
  · rw [hdesired] at htarget hcases
    obtain ⟨-, hrate, hchannels, -, hafter⟩ :=
      hcases.resolve_right fun h => absurd h.1 (by simp [conversionMedia, firstNonEmptyMedia])
    rw [hinput, hdesired, accepts_frame, Insertion.after, hafter]
    refine ⟨⟨rfl, .inr rfl⟩, ⟨fun h => ?_, fun h => ?_⟩, ?_⟩
    · exact ⟨(converted_iff htarget.sampleRate hrate).mp h.sampleRate,
        (converted_iff htarget.channels hchannels).mp h.channels, le_rfl, le_rfl⟩
    · exact ⟨(converted_iff htarget.sampleRate hrate).mpr h.sampleRate,
        (converted_iff htarget.channels hchannels).mpr h.channels,
        converted_format htarget.sampleFormat, .inl rfl, .inl rfl, .inl rfl⟩
    · have hrate' := firstPositiveInt_pos (a := rate) hrate
      have hchannels' := firstPositiveInt_pos (a := channels) hchannels
      simp [synthesizeConversionTransform, conversionMedia, firstNonEmptyMedia, hrate', hchannels']
  · rw [hdesired] at htarget hcases
    obtain ⟨-, hwidth, hheight, -, hafter⟩ :=
      hcases.resolve_left fun h => absurd h.1 (by simp [conversionMedia, firstNonEmptyMedia])
    rw [hinput, hdesired, accepts_frame, Insertion.after, hafter]
    refine ⟨⟨rfl, .inr rfl⟩, ⟨fun h => ?_, fun h => ?_⟩, ?_⟩
    · exact ⟨le_rfl, le_rfl, (converted_iff htarget.width hwidth).mp h.width,
        (converted_iff htarget.height hheight).mp h.height⟩
    · exact ⟨.inl rfl, .inl rfl, .inl rfl, (converted_iff htarget.width hwidth).mpr h.width,
        (converted_iff htarget.height hheight).mpr h.height, converted_format htarget.pixelFormat⟩
    · have hwidth' := firstPositiveInt_pos (a := width) hwidth
      have hheight' := firstPositiveInt_pos (a := height) hheight
      simp [synthesizeConversionTransform, conversionMedia, firstNonEmptyMedia, hwidth', hheight']

lemma inserts_of_solvePinned (hdeltas : c.env.shapeDeltas = []) (htap : next.kind ≠ .tap)
    (hann : carriesFacts next = false)
    (haccepts : accepts (recipeIROperationInputShapes next) current = true)
    (h : c.solvePinned i current next = .ok (some (insertion, diagnostics))) :
    Inserts c current next insertion := by
  unfold solvePinned at h
  dsimp only at h
  split at h
  · simp at h
  rename_i hneeded
  simp only [Bool.or_eq_true, Bool.not_eq_true', mediaShapeEmpty, decide_eq_true_eq, not_or,
    Bool.not_eq_false] at hneeded
  obtain ⟨⟨hactive, hsoft⟩, -⟩ := hneeded
  obtain ⟨rfl, hnext, hplan, hcovers⟩ := isPlan_of_plan hdeltas h
  obtain ⟨htaken, hsatisfies, hsynth⟩ := pinned_after hsoft hplan
  -- the encoder takes the shape before, so the conversion is of its media, and on frames
  have hframe : insertion.before.domain = .frame ∧
      insertion.before.mediaKind =
        conversionMedia insertion.before (recipeIROperationSoftInputShape next) := by
    rcases soft_cases hsoft with ⟨hinput, _, _, _, hdesired⟩ | ⟨hinput, _, _, _, hdesired⟩
    · rw [hinput, accepts_frame] at haccepts
      rw [hdesired]
      exact ⟨haccepts.1, haccepts.2.resolve_left (by simp)⟩
    · rw [hinput, accepts_frame] at haccepts
      rw [hdesired]
      exact ⟨haccepts.1, haccepts.2.resolve_left (by simp)⟩
  have hpinned : (∀ i, c.solvePinned i insertion.after next = .ok none) ↔
      Satisfies insertion.after (recipeIROperationSoftInputShape next) := by
    rw [← conversions_empty_iff]
    constructor
    · intro hall
      have hnone := hall 0
      unfold solvePinned at hnone
      dsimp only at hnone
      split at hnone
      · rename_i hskip
        simpa [hactive, mediaShapeEmpty, hsoft] using hskip
      · exact (plan_eq_none hdeltas hnone).resolve_right hsynth
    · intro hempty i
      simp [solvePinned, hempty]
  refine ⟨rfl, hnext, allowed_of_isPlan hactive hplan hcovers, hplan.auto, hplan.prefer, ?_⟩
  rw [settled_insertion_iff hplan, settled_iff htap hann, hpinned, hsatisfies, Insertion.Fits, hnext]
  constructor
  · exact fun hsettled => ⟨hframe.1, hsettled.2.2⟩
  · exact fun hfits => ⟨hframe, htaken, hfits.2⟩

/-! ### The chain -/

/-- **One operation of the chain.** It is settled, or one conversion is inserted before it. -/
theorem solveOperation_cases {current' : Spec} (hdeltas : c.env.shapeDeltas = [])
    (h : c.solveOperation i current next = .ok (steps, diagnostics, current')) :
    (Settled c current next ∧ steps = [.own next] ∧
      current' = recipeIROperationOutputShape current next) ∨
    ∃ insertion, Inserts c current next insertion ∧ steps = [.inserted insertion, .own next] ∧
      current' = recipeIROperationOutputShape insertion.after next := by
  by_cases htap : next.kind = .tap
  · have hsettled : Settled c current next := fun i => by simp [solveOperation, htap]
    have heq := (hsettled i).symm.trans h
    simp only [Except.ok.injEq, Prod.mk.injEq] at heq
    exact .inl ⟨hsettled, heq.1.symm, heq.2.2.symm⟩
  by_cases hann : carriesFacts next = true
  · simp only [solveOperation, htap, hann, if_true] at h
    obtain ⟨_, hvalid, h⟩ := bind_eq_ok.mp h
    have heq := pure_eq_ok.mp h
    simp only [Prod.mk.injEq] at heq
    refine .inl ⟨fun j => ?_, heq.1.symm, heq.2.2.symm⟩
    have hvalid' : validateShapeAnnotationDomain (c.site j) current next.shape = .ok () :=
      require_eq_ok.mpr (require_eq_ok.mp hvalid)
    simp only [solveOperation, htap, hann, if_true, hvalid']
    rfl
  have hann' : carriesFacts next = false := by simpa using hann
  simp only [solveOperation, htap, hann] at h
  obtain ⟨contract, hcontract, h⟩ := bind_eq_ok.mp h
  obtain ⟨pinned, hpinned, h⟩ := bind_eq_ok.mp h
  have heq := pure_eq_ok.mp h
  obtain ⟨rfl, -, rfl⟩ := heq
  cases contract with
  | none =>
    have haccepts := solveContract_eq_none_iff.mp hcontract
    cases pinned with
    | none => exact .inl ⟨(settled_iff htap hann').mpr ⟨haccepts, solvePinned_index hpinned⟩, rfl, rfl⟩
    | some pinned =>
      obtain ⟨insertion, found⟩ := pinned
      exact .inr ⟨insertion, inserts_of_solvePinned hdeltas htap hann' haccepts hpinned, rfl, rfl⟩
  | some contract =>
    obtain ⟨insertion, found⟩ := contract
    obtain ⟨hinserts, hsoft⟩ := inserts_of_solveContract hdeltas htap hann' hcontract
    have hnone : c.solvePinned i insertion.after next = .ok none :=
      solvePinned_of_soft_empty hsoft i
    obtain rfl : none = pinned := Except.ok.inj (hnone.symm.trans hpinned)
    exact .inr ⟨insertion, hinserts, rfl, rfl⟩

def SettledChain (c : Solver) : Spec → List Operation → Prop
  | _, [] => True
  | current, next :: rest =>
    Settled c current next ∧ SettledChain c (recipeIROperationOutputShape current next) rest

theorem SettledChain.validateOperations {node : String} (h : SettledChain c current operations) :
    Compile.validateOperations operation node i current operations = .ok () := by
  induction operations generalizing current i with
  | nil => rfl
  | cons next rest ih =>
    obtain ⟨hnext, hrest⟩ := h
    have hvalid : validateOperation { operation, node, index := i } current next = .ok () := by
      unfold validateOperation
      by_cases htap : next.kind = .tap
      · simp [htap]
      · by_cases hann : carriesFacts next = true
        · have hsolve := hnext 0
          simp only [solveOperation, htap, hann] at hsolve ⊢
          obtain ⟨_, hvalid, -⟩ := bind_eq_ok.mp hsolve
          exact require_eq_ok.mpr (require_eq_ok.mp hvalid)
        · simp only [htap, hann]
          exact require_eq_ok.mpr ((settled_iff htap (by simpa using hann)).mp hnext).1
    simp only [Compile.validateOperations, hvalid]
    exact ih hrest

theorem SettledChain.solveOperations (h : SettledChain c current operations) :
    c.solveOperations i current operations = .ok (operations.map .own, []) := by
  induction operations generalizing current i with
  | nil => rfl
  | cons next rest ih =>
    obtain ⟨hnext, hrest⟩ := h
    simp only [solveOperations, hnext i, bind, Except.bind, ih hrest]
    rfl

@[simp] lemma insertions_own (operations : List Operation) : insertions (operations.map .own) = [] := by
  simp [insertions]

lemma map_operation_of_insertions (h : insertions steps = []) :
    steps.map Step.operation = ownOperations steps := by
  induction steps with
  | nil => rfl
  | cons step steps ih =>
    cases step with
    | own operation =>
      rw [map_cons, ih h]
      rfl
    | inserted insertion => simp [insertions] at h

structure SolvedChain (c : Solver) (current : Spec) (operations : List Operation)
    (steps : List Step) : Prop where
  own : ownOperations steps = operations
  allowed : ∀ insertion ∈ insertions steps, Allowed c insertion
  auto : ∀ insertion ∈ insertions steps, insertion.operation.auto = none
  prefer : ∀ insertion ∈ insertions steps, insertion.operation.prefer = none
  settled : SettledChain c current (steps.map Step.operation) ↔
    ∀ insertion ∈ insertions steps, insertion.Fits

/-- **The whole chain.** It is that of the stream with insertions, and settled if every one fits. -/
theorem solveOperations_solved (hdeltas : c.env.shapeDeltas = [])
    (h : c.solveOperations i current operations = .ok (steps, diagnostics)) :
    SolvedChain c current operations steps := by
  induction operations generalizing current i steps diagnostics with
  | nil =>
    cases h
    constructor <;> simp [ownOperations, insertions, SettledChain]
  | cons next rest ih =>
    obtain ⟨⟨first, diagnostics', current'⟩, hfirst, h⟩ := bind_eq_ok.mp h
    obtain ⟨⟨steps', diagnostics''⟩, hrest, h⟩ := bind_eq_ok.mp h
    obtain ⟨rfl, -⟩ := Prod.mk.inj (pure_eq_ok.mp h)
    have hsolved := ih hrest
    rcases solveOperation_cases hdeltas hfirst with ⟨hsettled, rfl, rfl⟩ |
      ⟨insertion, hinserts, rfl, rfl⟩
    · constructor
      case own => simpa [ownOperations] using hsolved.own
      case allowed => simpa [insertions] using hsolved.allowed
      case auto => simpa [insertions] using hsolved.auto
      case prefer => simpa [insertions] using hsolved.prefer
      case settled =>
        have hiff := hsolved.settled
        simpa [insertions, SettledChain, Step.operation, hsettled] using hiff
    · have hafter : recipeIROperationOutputShape current insertion.operation = insertion.after := by
        rw [← hinserts.before_eq]
        rfl
      constructor
      case own => simpa [ownOperations] using hsolved.own
      case allowed => simpa [insertions, hinserts.allowed] using hsolved.allowed
      case auto => simpa [insertions, hinserts.auto] using hsolved.auto
      case prefer => simpa [insertions, hinserts.prefer] using hsolved.prefer
      case settled =>
        have hiff := hsolved.settled
        have hfits := hinserts.settled
        simp only [insertions, SettledChain, Step.operation, cons_append, nil_append,
          map_cons, filterMap_cons, forall_mem_cons, hafter] at hiff ⊢
        rw [← and_assoc, hfits, hiff]

lemma foldl_steps {α : Type} (f : α → Operation → α)
    (hskip : ∀ insertion ∈ insertions steps, ∀ a, f a insertion.operation = a) (a : α) :
    (steps.map Step.operation).foldl f a = (ownOperations steps).foldl f a := by
  induction steps generalizing a with
  | nil => rfl
  | cons step steps ih =>
    cases step with
    | own operation => exact ih hskip (f a operation)
    | inserted insertion =>
      have hrest := ih (fun other hother => hskip other (mem_cons_of_mem _ hother)) a
      rw [map_cons, foldl_cons, Step.operation, hskip insertion mem_cons_self]
      exact hrest

lemma SolvedChain.autoPolicy_eq (h : SolvedChain c current operations steps) :
    recipeIRChainAutoPolicy (steps.map Step.operation) = recipeIRChainAutoPolicy operations := by
  unfold recipeIRChainAutoPolicy
  rw [foldl_steps _ (fun insertion hmem a => by simp [h.auto insertion hmem]), h.own]

/-- Inserted operations carry no policy and no preference, so that the solver does as before. -/
lemma SolvedChain.newSolver_eq {stream : Stream} (h : SolvedChain c current stream.operations steps) :
    newSolver operation env { stream with operations := steps.map Step.operation } =
      newSolver operation env stream := by
  have hprefer : recipeIRChainPreference (steps.map Step.operation) =
      recipeIRChainPreference stream.operations := by
    unfold recipeIRChainPreference
    rw [foldl_steps _ (fun insertion hmem a => by simp [h.prefer insertion hmem]), h.own]
  unfold newSolver
  rw [h.autoPolicy_eq, hprefer]
  rfl

/-- What is asked of a solved chain. -/
structure ChainOk (operation : String) (env : Env) (stream : Stream) (initial : Spec)
    (steps : List Step) : Prop where
  valid : validateRecipeIROperationShapes operation stream (steps.map Step.operation) initial = .ok ()
  own : ownOperations steps = stream.operations
  active : insertions steps ≠ [] → (recipeIRChainAutoPolicy (steps.map Step.operation)).2 = true
  needed : ∀ insertion ∈ insertions steps,
    (recipeIRChainAutoPolicy (steps.map Step.operation)).1.covers insertion.conversion.needed = true
  changed : ∀ insertion ∈ insertions steps, (recipeIRChainAutoPolicy (steps.map Step.operation)).1.covers
      (conversions insertion.before insertion.after) = true
  again : solveRecipeIROperationShapes operation env
    { stream with operations := steps.map Step.operation } initial = .ok (none, [])

lemma solve_again_iff {stream : Stream} {initial : Spec} (hpresent : env.present = true)
    (hdeltas : env.shapeDeltas = [])
    (h : SolvedChain (newSolver operation env stream) current stream.operations steps) :
    solveRecipeIROperationShapes operation env
        { stream with operations := steps.map Step.operation } initial = .ok (none, []) ↔
      SettledChain (newSolver operation env stream) (startShape stream initial)
        (steps.map Step.operation) := by
  have hstart : startShape { stream with operations := steps.map Step.operation } initial =
      startShape stream initial := rfl
  simp only [solveRecipeIROperationShapes, hpresent, solveSteps, h.newSolver_eq, hstart]
  constructor
  · intro hsolve
    obtain ⟨⟨steps', diagnostics⟩, hsteps, hnone⟩ := bind_eq_ok.mp hsolve
    have hsolved := solveOperations_solved (c := newSolver operation env stream) hdeltas hsteps
    have hempty : insertions steps' = [] := by
      by_contra hne
      have hfalse := pure_eq_ok.mp hnone
      simp [hne] at hfalse
    have hchain : steps'.map Step.operation = steps.map Step.operation := by
      rw [map_operation_of_insertions hempty, hsolved.own]
    rw [← hchain]
    exact hsolved.settled.mpr (by simp [hempty])
  · intro hsettled
    rw [hsettled.solveOperations]
    simp only [bind, Except.bind, insertions_own]
    rfl

/-- **What a solved chain satisfies.** It is valid, it is the stream's chain with insertions that the
policy allows, and solving it again changes nothing exactly if every insertion is on frames and for no
negative number. -/
theorem solved_chain_ok_iff (operation : String) (env : Env) (stream : Stream) (initial : Spec)
    (solved : Option (List Operation)) (diagnostics : List Diagnostic)
    (hpresent : env.present = true) (hdeltas : env.shapeDeltas = [])
    (h : solveRecipeIROperationShapes operation env stream initial = .ok (solved, diagnostics)) :
    ∃ steps diagnostics', solveSteps operation env stream initial = .ok (steps, diagnostics') ∧
      solved.getD stream.operations = steps.map Step.operation ∧
      (ChainOk operation env stream initial steps ↔
        ∀ insertion ∈ insertions steps, insertion.Fits) := by
  simp only [solveRecipeIROperationShapes, hpresent, Bool.not_true, Bool.false_eq_true, if_false] at h
  obtain ⟨⟨steps, diagnostics'⟩, hsteps, h⟩ := bind_eq_ok.mp h
  have hsolved := solveOperations_solved (c := newSolver operation env stream) hdeltas hsteps
  refine ⟨steps, diagnostics', hsteps, ?_, ?_⟩
  · have heq := pure_eq_ok.mp h
    by_cases hempty : insertions steps = []
    · simp only [hempty, List.isEmpty_nil, if_true, Prod.mk.injEq] at heq
      rw [← heq.1, getD_none, map_operation_of_insertions hempty, hsolved.own]
    · simp only [List.isEmpty_iff, hempty, if_false, Prod.mk.injEq] at heq
      rw [← heq.1, getD_some]
  · rw [← hsolved.settled]
    constructor
    · exact fun hok => (solve_again_iff hpresent hdeltas hsolved).mp hok.again
    · intro hsettled
      constructor
      case valid => exact hsettled.validateOperations
      case own => exact hsolved.own
      case active =>
        intro hne
        obtain ⟨insertion, hmem⟩ := List.exists_mem_of_ne_nil _ hne
        rw [hsolved.autoPolicy_eq]
        exact (hsolved.allowed insertion hmem).active
      case needed =>
        rw [hsolved.autoPolicy_eq]
        exact fun insertion hmem => (hsolved.allowed insertion hmem).needed
      case changed =>
        rw [hsolved.autoPolicy_eq]
        exact fun insertion hmem => (hsolved.allowed insertion hmem).changed
      case again => exact (solve_again_iff hpresent hdeltas hsolved).mpr hsettled

def filterEnv : Env :=
  { present := true
    filters :=
      [{ name := "resample", input := .audio, output := .audio },
       { name := "resize", input := .video, output := .video }] }

def opusStream : Stream :=
  { operations :=
      [{ kind := .shape, auto := some { resample := true } },
       { kind := .encode
         encode :=
          { id := codecOpus, type := .audio
            parameters := { id := codecOpus, type := .audio, sampleRate := 48000, channels := 2 } } }] }

def audioFrames : Spec :=
  { domain := .frame, mediaKind := .audio, sampleRate := 44100, channels := 2 }

theorem solved_chain_ok_iff_opus :
    ∃ steps, (insertions steps).length = 1 ∧ ChainOk "build" filterEnv opusStream audioFrames steps := by
  obtain ⟨steps, diagnostics, hsteps, -, hok⟩ :=
    solved_chain_ok_iff "build" filterEnv opusStream audioFrames _ _ rfl rfl rfl
  obtain ⟨rfl, -⟩ := Prod.mk.inj (Except.ok.inj hsteps)
  refine ⟨_, rfl, hok.mpr fun insertion hmem => ?_⟩
  obtain rfl := mem_singleton.mp hmem
  exact ⟨rfl, by constructor <;> decide⟩

def requireStream : Stream :=
  { operations :=
      [{ kind := .shape, auto := some { resize := true } },
       { kind := .shape, require := some { mediaKind := .video, width := 640, height := 360 } }] }

def videoPackets : Spec :=
  { domain := .packet, mediaKind := .video, codec := codecVP8, width := 1280, height := 720 }

/-- A requirement that leaves the domain open is met on packets by a resize, which takes frames. -/
theorem resize_inserted_on_packets :
    ∃ chain diagnostics, solveRecipeIROperationShapes "build" filterEnv requireStream videoPackets =
        .ok (some chain, diagnostics) ∧
      validateRecipeIROperationShapes "build" requireStream chain videoPackets ≠ .ok () := by
  refine ⟨_, _, rfl, fun h => ?_⟩
  cases h

end Goav.Compile
