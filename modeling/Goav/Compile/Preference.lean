import Goav.Compile.Solver

/-!
What preferences do to the build of a chain. Only one that is honoured changes the shape that later
operations see; the chain builds exactly if they all take the shape that they are given
(`prefer_builds_iff`).
-/

namespace Goav.Compile

open Goav.Av Goav.Shape Goav.Lib Solver Option

/-- A `.Prefer(...)` as recipes have it (`opPrefer`): it says nothing else. -/
structure IsPrefer (operation : Operation) : Prop where
  kind : operation.kind = .shape
  shape : operation.shape = {}
  auto : operation.auto = none
  require : operation.require = none

/-- The stream without its `Prefer` operations. -/
def withoutPreferences (stream : Stream) : Stream :=
  { stream with operations := stream.operations.filter fun next => next.prefer.isNone }

/-- A tap takes any shape, a fact one whose domain it does not contradict, any other what it declares. -/
def Takes (shape : Spec) (next : Operation) : Prop :=
  next.kind = .tap ∨
    if carriesFacts next then
      next.shape.domain = .unset ∨ shape.domain = .unset ∨ next.shape.domain = shape.domain ∨
        ¬ (packetOrFrameDomain next.shape.domain ∧ packetOrFrameDomain shape.domain)
    else accepts (recipeIROperationInputShapes next) shape = true

namespace Solver

variable (c : Solver)

def plain : Solver := { c with preference := {}, preferenceActive := false }

/-- The conversion that an honoured preference has a target met by. -/
def honoured (current target : Spec) : Option ShapeConversionPlan :=
  let media := firstNonEmptyMedia [target.mediaKind, current.mediaKind]
  if !c.preferenceActive || mediaShapeEmpty c.preference ||
      (c.preference.mediaKind ≠ .unknown && c.preference.mediaKind ≠ media) then none
  else
    let effective := preferredConversionTarget media target c.preference
    match planShapeConversionFor c.env current effective c.env.realtime c.preference with
    | .ok (some (conversion, resolved)) =>
      if c.policy.covers conversion.needed && (effective ≠ target || resolved) then some conversion
      else none
    | _ => none

/-- What an operation wants instead: a member of what it declares, or the facts it pins. -/
def target (current : Spec) (next : Operation) : Option Spec :=
  let desired := recipeIROperationSoftInputShape next
  if next.kind = .tap ∨ carriesFacts next ∨ !c.policyActive then none
  else if accepts (recipeIROperationInputShapes next) current then
    if mediaShapeEmpty desired || (conversions current desired).empty then none else some desired
  else shapeConversionTargetFromSet current (recipeIROperationInputShapes next)

/-- The conversion towards a target: the honoured one, or else the one of a registered filter. -/
def conversion (c : Solver) (current target : Spec) : Except PlanError (Option ShapeConversionPlan) :=
  match c.honoured current target with
  | some conversion => .ok (some conversion)
  | none => planShapeConversion c.env current target c.env.realtime

/-- The shape that a conversion which the policy covers leads to, if one is needed. -/
def converted (current target : Spec) : Option Spec :=
  match c.conversion current target with
  | .error _ => none
  | .ok none => some current
  | .ok (some conversion) =>
    if c.policy.covers conversion.needed then
      some (recipeIROperationOutputShape current conversion.operation)
    else none

/-- The shape that an operation is given, as it is or converted. -/
def given (current : Spec) (next : Operation) : Option Spec :=
  match c.target current next with
  | none => some current
  | some target => c.converted current target

/-- Every operation takes the shape that it is given. -/
def AllTake (c : Solver) : Spec → List Operation → Prop
  | _, [] => True
  | current, next :: rest => ∃ shape, c.given current next = some shape ∧ Takes shape next ∧
      AllTake c (recipeIROperationOutputShape shape next) rest

/-- From the first operation that an honoured preference gives its shape, every one takes what it is
given. -/
def TakeFromPreferred (c : Solver) : Spec → List Operation → Prop
  | _, [] => True
  | current, next :: rest =>
    match (c.target current next).bind (c.honoured current) with
    | some _ => c.AllTake current (next :: rest)
    | none => ∀ shape, c.plain.given current next = some shape →
        TakeFromPreferred c (recipeIROperationOutputShape shape next) rest

end Solver

/-! ### Plans -/

open List

section

variable {c : Solver} {current target after : Spec} {next : Operation} {i : ℕ}

lemma planFilterConversion_fst :
    (planFilterConversion c.env current target c.env.realtime c.policy c.preference c.preferenceActive
      c.node).map (Option.map Prod.fst) = c.conversion current target := by
  have hbase (diagnostics : List Diagnostic) :
      ((planShapeConversion c.env current target c.env.realtime).map
        (Option.map (·, diagnostics))).map (Option.map Prod.fst) =
        planShapeConversion c.env current target c.env.realtime := by
    cases planShapeConversion c.env current target c.env.realtime with
    | error err => rfl
    | ok conversion => cases conversion <;> rfl
  unfold conversion honoured planFilterConversion
  dsimp only
  split
  · exact hbase _
  split
  · rename_i hplan
    rw [hplan]
    exact hbase _
  · rename_i hplan
    rw [hplan]
    exact hbase _
  · rename_i conversion resolved hplan
    rw [hplan]
    dsimp only
    cases hcovers : c.policy.covers conversion.needed with
    | false => exact hbase _
    | true =>
      by_cases hbias : preferredConversionTarget (firstNonEmptyMedia
          [target.mediaKind, current.mediaKind]) target c.preference = target
      · cases resolved with
        | false => simpa [hbias] using hbase _
        | true => simp [Except.map]
      · simp [hbias, Except.map]

section

variable (hdeltas : c.env.shapeDeltas = [])
include hdeltas

lemma plan_iff_converted (i : ℕ) (next : Operation) :
    (∃ inserted, c.plan i current next target = .ok inserted ∧ shapeAfter current inserted = after) ↔
      c.converted current target = some after := by
  have hplan : planShapeConversionPreferred c.env current target c.env.realtime c.policy c.preference
      c.preferenceActive c.node = planFilterConversion c.env current target c.env.realtime c.policy
        c.preference c.preferenceActive c.node := by
    simp [planShapeConversionPreferred, planCustomShapeConversion, hdeltas]
  unfold plan converted
  rw [hplan, ← planFilterConversion_fst]
  cases planFilterConversion c.env current target c.env.realtime c.policy c.preference
      c.preferenceActive c.node with
  | error err => simp [Except.map]
  | ok planned =>
    cases planned with
    | none => simp [Except.map, shapeAfter]
    | some planned =>
      cases hcovers : c.policy.covers planned.1.needed with
      | false => simp [Except.map, hcovers]
      | true => simp [Except.map, hcovers, shapeAfter, Insertion.after]

/-! ### One operation -/

variable {shape : Spec} (htap : next.kind ≠ .tap) (hfacts : carriesFacts next = false)
include htap hfacts

omit hdeltas in
lemma target_eq (hactive : c.policyActive = true) :
    c.target current next = if accepts (recipeIROperationInputShapes next) current then
        if mediaShapeEmpty (recipeIROperationSoftInputShape next) ||
            (conversions current (recipeIROperationSoftInputShape next)).empty then none
        else some (recipeIROperationSoftInputShape next)
      else shapeConversionTargetFromSet current (recipeIROperationInputShapes next) :=
  if_neg (by simp [htap, hfacts, hactive])

lemma solvePinned_iff_given (haccepts : accepts (recipeIROperationInputShapes next) current = true) :
    (∃ pinned, c.solvePinned i current next = .ok pinned ∧ shapeAfter current pinned = shape) ↔
      c.given current next = some shape := by
  unfold solvePinned given
  dsimp only
  cases hactive : c.policyActive with
  | false => simp [shapeAfter, Solver.target, hactive]
  | true =>
    rw [target_eq htap hfacts hactive, Bool.not_true, Bool.false_or]
    split
    · simp [shapeAfter]
    · exact plan_iff_converted hdeltas i next

lemma solveContract_iff_given (hrefuses : accepts (recipeIROperationInputShapes next) current = false) :
    (∃ insertion diagnostics, c.solveContract i current next = .ok (some (insertion, diagnostics)) ∧
      insertion.after = shape) ↔
      c.given current next = some shape ∧ accepts (recipeIROperationInputShapes next) shape = true := by
  have hnot : ¬ (current = shape ∧ accepts (recipeIROperationInputShapes next) shape = true) := by
    rintro ⟨rfl, haccepts⟩
    rw [haccepts] at hrefuses
    cases hrefuses
  have hrefuses' : ¬ accepts (recipeIROperationInputShapes next) current = true := by simp [hrefuses]
  unfold solveContract given
  rw [if_neg hrefuses']
  cases hactive : c.policyActive with
  | false =>
    cases shapeConversionTargetFromSet current (recipeIROperationInputShapes next) <;>
      simpa [Solver.target, hactive] using hnot
  | true =>
    rw [target_eq htap hfacts hactive, if_neg hrefuses']
    cases shapeConversionTargetFromSet current (recipeIROperationInputShapes next) with
    | none => simpa using hnot
    | some target =>
      simp only [← plan_iff_converted hdeltas i next]
      cases c.plan i current next target with
      | error err => simp
      | ok inserted =>
        rcases inserted with - | ⟨insertion, diagnostics⟩
        · simpa [shapeAfter] using hnot
        · cases haccepts : accepts (recipeIROperationInputShapes next) insertion.after
          all_goals
            simp [shapeAfter, haccepts]
            rintro rfl
            exact haccepts

end

lemma given_of_target (h : c.target current next = none) : c.given current next = some current := by
  unfold given
  rw [h]

lemma solveOperation_contract (htap : next.kind ≠ .tap) (hfacts : carriesFacts next = false) :
    (∃ steps diagnostics, c.solveOperation i current next = .ok (steps, diagnostics, after)) ↔
      ∃ contract, c.solveContract i current next = .ok contract ∧ ∃ pinned,
        c.solvePinned i (shapeAfter current contract) next = .ok pinned ∧
        recipeIROperationOutputShape (shapeAfter (shapeAfter current contract) pinned) next = after := by
  unfold solveOperation
  simp only [htap, hfacts, if_false, Bool.false_eq_true, bind_eq_ok, pure_eq_ok, Prod.mk.injEq]
  constructor
  · rintro ⟨_, _, contract, hcontract, pinned, hpinned, -, -, hafter⟩
    exact ⟨contract, hcontract, pinned, hpinned, hafter⟩
  · rintro ⟨contract, hcontract, pinned, hpinned, hafter⟩
    exact ⟨_, _, contract, hcontract, pinned, hpinned, rfl, rfl, hafter⟩

section

variable (hdeltas : c.env.shapeDeltas = [])
include hdeltas

lemma accepts_shapeAfter {pinned : Option (Insertion × List Diagnostic)}
    (haccepts : accepts (recipeIROperationInputShapes next) current = true)
    (h : c.solvePinned i current next = .ok pinned) :
    accepts (recipeIROperationInputShapes next) (shapeAfter current pinned) = true := by
  rcases pinned with - | ⟨insertion, diagnostics⟩
  · exact haccepts
  unfold solvePinned at h
  dsimp only at h
  split at h
  · cases h
  rename_i hskip
  obtain ⟨rfl, -, hplan, -⟩ := isPlan_of_plan hdeltas h
  refine (pinned_after (fun hsoft => hskip ?_) hplan).1
  simp [hsoft, mediaShapeEmpty]

/-- **What makes an operation build**: it takes the shape that it is given. -/
theorem solveOperation_iff :
    (∃ steps diagnostics, c.solveOperation i current next = .ok (steps, diagnostics, after)) ↔
      ∃ shape, c.given current next = some shape ∧ Takes shape next ∧
        recipeIROperationOutputShape shape next = after := by
  by_cases htap : next.kind = .tap
  · have htarget : c.target current next = none := if_pos (.inl htap)
    simp [solveOperation, Takes, htap, given_of_target htarget]
  cases hfacts : carriesFacts next with
  | true =>
    rw [given_of_target (if_pos (.inr (.inl hfacts)))]
    simp only [solveOperation, Takes, htap, hfacts, if_false, if_true, false_or, some.injEq,
      exists_eq_left', bind_eq_ok, pure_eq_ok, validateShapeAnnotationDomain, require_eq_ok, Prod.mk.injEq]
    constructor
    · rintro ⟨_, _, _, hdomain, -, -, hafter⟩
      exact ⟨hdomain, hafter⟩
    · rintro ⟨hdomain, hafter⟩
      exact ⟨_, _, (), hdomain, rfl, rfl, hafter⟩
  | false =>
    have htakes : ∀ shape, Takes shape next ↔ accepts (recipeIROperationInputShapes next) shape = true := by
      simp [Takes, htap, hfacts]
    rw [solveOperation_contract htap hfacts]
    simp only [htakes]
    cases haccepts : accepts (recipeIROperationInputShapes next) current with
    | true =>
      have hcontract : c.solveContract i current next = .ok none := solveContract_eq_none_iff.mpr haccepts
      simp only [hcontract, Except.ok.injEq, exists_eq_left']
      constructor
      · rintro ⟨pinned, hpinned, rfl⟩
        exact ⟨_, (solvePinned_iff_given hdeltas htap hfacts haccepts).mp ⟨pinned, hpinned, rfl⟩,
          accepts_shapeAfter hdeltas haccepts hpinned, rfl⟩
      · rintro ⟨shape, hgiven, -, rfl⟩
        obtain ⟨pinned, hpinned, rfl⟩ :=
          (solvePinned_iff_given (i := i) hdeltas htap hfacts haccepts).mpr hgiven
        exact ⟨pinned, hpinned, rfl⟩
    | false =>
      constructor
      · rintro ⟨contract, hcontract, pinned, hpinned, rfl⟩
        rcases contract with - | ⟨insertion, diagnostics⟩
        · rw [solveContract_eq_none_iff.mp hcontract] at haccepts
          cases haccepts
        have hsoft := (inserts_of_solveContract hdeltas htap hfacts hcontract).2
        rw [solvePinned_of_soft_empty hsoft] at hpinned
        cases hpinned
        obtain ⟨hgiven, htaken⟩ := (solveContract_iff_given (i := i) hdeltas htap hfacts haccepts).mp
          ⟨insertion, diagnostics, hcontract, rfl⟩
        exact ⟨_, hgiven, htaken, rfl⟩
      · rintro ⟨shape, hgiven, htaken, rfl⟩
        obtain ⟨insertion, diagnostics, hcontract, rfl⟩ :=
          (solveContract_iff_given (i := i) hdeltas htap hfacts haccepts).mpr ⟨hgiven, htaken⟩
        have hsoft := (inserts_of_solveContract hdeltas htap hfacts hcontract).2
        exact ⟨_, hcontract, none, solvePinned_of_soft_empty hsoft i, rfl⟩

/-! ### Whole chains -/

/-- **What makes a chain build**: every operation takes the shape that it is given. -/
theorem builds_iff_allTake {operations : List Operation} :
    (∃ built, c.solveOperations i current operations = .ok built) ↔ c.AllTake current operations := by
  induction operations generalizing current i with
  | nil => exact iff_of_true ⟨_, rfl⟩ trivial
  | cons next rest ih =>
    constructor
    · rintro ⟨built, h⟩
      obtain ⟨⟨steps, diagnostics, after⟩, hresult, h⟩ := bind_eq_ok.mp h
      obtain ⟨built', hbuilt', -⟩ := bind_eq_ok.mp h
      obtain ⟨shape, hgiven, htakes, rfl⟩ := (solveOperation_iff hdeltas).mp ⟨steps, diagnostics, hresult⟩
      exact ⟨shape, hgiven, htakes, ih.mp ⟨built', hbuilt'⟩⟩
    · rintro ⟨shape, hgiven, htakes, hrest⟩
      obtain ⟨steps, diagnostics, hresult⟩ :=
        (solveOperation_iff (i := i) hdeltas).mpr ⟨shape, hgiven, htakes, rfl⟩
      obtain ⟨built', hbuilt'⟩ := ih.mpr hrest
      exact ⟨_, bind_eq_ok.mpr ⟨_, hresult, bind_eq_ok.mpr ⟨built', hbuilt', rfl⟩⟩⟩

end

/-- A preference that is not honoured leaves the shape that an operation is given. -/
lemma given_plain (h : (c.target current next).bind (c.honoured current) = none) :
    c.plain.given current next = c.given current next := by
  have htarget : c.plain.target current next = c.target current next := rfl
  unfold given
  rw [htarget]
  cases htarget : c.target current next with
  | none => rfl
  | some target =>
    rw [htarget, bind_some] at h
    unfold converted conversion
    dsimp only
    rw [h]
    rfl

theorem allTake_iff {operations : List Operation} (hplain : c.plain.AllTake current operations) :
    c.AllTake current operations ↔ c.TakeFromPreferred current operations := by
  induction operations generalizing current with
  | nil => exact Iff.rfl
  | cons next rest ih =>
    obtain ⟨shape, hgiven, htakes, hrest⟩ := hplain
    unfold TakeFromPreferred
    split
    · exact Iff.rfl
    · rename_i hnone
      have hsame := given_plain hnone
      rw [hgiven] at hsame ⊢
      constructor
      · rintro ⟨shape', hgiven', -, hrest'⟩ _ heq
        rw [← hsame] at hgiven'
        cases hgiven'
        cases heq
        exact (ih hrest).mp hrest'
      · exact fun h => ⟨shape, hsame.symm, htakes, (ih hrest).mpr (h shape rfl)⟩

end

/-! ### Streams -/

section

variable {c : Solver} {current : Spec} {operation : String} {env : Env} {stream : Stream}

lemma merge_empty (spec : Spec) : Shape.merge spec {} = spec := by
  simp [Shape.merge, Shape.overlay]

lemma allTake_prefer {next : Operation} {rest : List Operation} (h : IsPrefer next) :
    c.AllTake current (next :: rest) ↔ c.AllTake current rest := by
  have hfacts : carriesFacts next = true := by simp [carriesFacts, h.kind, h.require]
  have hshape : recipeIROperationOutputShape current next = current := by
    simp [recipeIROperationOutputShape, recipeIROperationOutputShapes, h.kind, h.shape, merge_empty]
  have htakes : Takes current next := .inr (by rw [if_pos hfacts, h.shape]; exact .inl rfl)
  rw [AllTake, given_of_target (if_pos (.inr (.inl hfacts)))]
  simp [htakes, hshape]

lemma allTake_withoutPreferences {operations : List Operation}
    (hprefer : ∀ next ∈ operations, next.prefer ≠ none → IsPrefer next) :
    c.AllTake current operations ↔
      c.AllTake current (operations.filter fun next => next.prefer.isNone) := by
  induction operations generalizing current with
  | nil => exact Iff.rfl
  | cons next rest ih =>
    have hrest : ∀ next ∈ rest, next.prefer ≠ none → IsPrefer next := fun next hnext =>
      hprefer next (mem_cons_of_mem _ hnext)
    by_cases hnone : next.prefer = none
    · rw [filter_cons_of_pos (by simp [hnone]), AllTake, AllTake]
      simp [ih hrest]
    · rw [filter_cons_of_neg (by simpa using hnone), allTake_prefer (hprefer next mem_cons_self hnone)]
      exact ih hrest

lemma foldl_filter_of_skip {α : Type} {f : α → Operation → α} {keep : Operation → Bool}
    {operations : List Operation}
    (hskip : ∀ next ∈ operations, keep next = false → ∀ a, f a next = a) (a : α) :
    (operations.filter keep).foldl f a = operations.foldl f a := by
  induction operations generalizing a with
  | nil => rfl
  | cons next rest ih =>
    have hrest := fun a => ih (fun next hnext => hskip next (mem_cons_of_mem _ hnext)) a
    cases hkeep : keep next with
    | true => simp [hkeep, hrest]
    | false => simp [hkeep, hrest, hskip next mem_cons_self hkeep]

lemma newSolver_withoutPreferences
    (hprefer : ∀ next ∈ stream.operations, next.prefer ≠ none → IsPrefer next) :
    newSolver operation env (withoutPreferences stream) = (newSolver operation env stream).plain := by
  have hauto : recipeIRChainAutoPolicy (withoutPreferences stream).operations =
      recipeIRChainAutoPolicy stream.operations := by
    refine foldl_filter_of_skip (fun next hnext hkeep a => ?_) _
    have hprefers : next.prefer ≠ none := by
      rintro hnone
      simp [hnone] at hkeep
    rw [(hprefer next hnext hprefers).auto]
  have hpreference : recipeIRChainPreference (withoutPreferences stream).operations = ({}, false) := by
    unfold recipeIRChainPreference withoutPreferences
    induction stream.operations with
    | nil => rfl
    | cons next rest ih =>
      cases hnext : next.prefer with
      | none => simpa [hnext] using ih
      | some prefer => simpa [hnext] using ih
  unfold newSolver
  rw [hauto, hpreference]
  rfl

lemma solves_iff {initial : Spec} (hpresent : env.present = true) (hdeltas : env.shapeDeltas = []) :
    (∃ result, solveRecipeIROperationShapes operation env stream initial = .ok result) ↔
      (newSolver operation env stream).AllTake (startShape stream initial) stream.operations := by
  rw [← builds_iff_allTake (i := 0) hdeltas]
  unfold solveRecipeIROperationShapes solveSteps
  rw [if_neg (by simp [hpresent])]
  constructor
  · rintro ⟨result, h⟩
    obtain ⟨built, hbuilt, -⟩ := bind_eq_ok.mp h
    exact ⟨built, hbuilt⟩
  · rintro ⟨built, hbuilt⟩
    exact ⟨_, bind_eq_ok.mpr ⟨built, hbuilt, rfl⟩⟩

end

def resampleEnv : Env :=
  { present := true
    filters :=
      [{ name := "resample", input := .audio, output := .audio, sampleFormats := ["s16", "f32"] }] }

/-- Two channels preferred and 48 kHz required; a stage takes one channel, or 8 bits. -/
def preferStream : Stream :=
  { operations :=
      [{ kind := .shape, auto := some { resample := true, convert := true } },
       { kind := .shape, component := "prefer", prefer := some { channels := 2 } },
       { kind := .shape, require := some { sampleRate := 48000 } },
       { kind := .stage
         stage := some
           { name := "meter"
             contract := some
              { inputShapes := [{ sampleFormat := "u8" }, { channels := 1 }]
                outputShapes := fun _ => [] } } }] }

def monoFrames : Spec :=
  { domain := .frame, mediaKind := .audio, sampleRate := 44100, channels := 1, sampleFormat := "s16" }

def preferStreamStart : Stream := { operations := preferStream.operations.take 3 }

end Goav.Compile
