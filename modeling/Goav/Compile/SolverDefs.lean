import Goav.Lib.Except
import Goav.Shape.Spec

/-!
The shape solver of the compiler (`internal/compile/solver.go`) and the check of a chain
(`operations.go`). An error or a diagnostic is the data of its text. A stage is its name and its shape
contract, which answers the same each time.
-/

namespace Goav.Compile

open Goav.Av Goav.Shape Goav.Lib

/-! ### Recipes -/

inductive OperationKind where
  | unset | probe | demux | depacketize | select | decode | shape | transform | stage | join | encode
  | copy | mux | write | sink | tap | name | buffer
  deriving DecidableEq

structure CodecParameters where
  id : CodecID := ""
  type : MediaType := .unknown
  sampleRate : ℤ := 0
  channels : ℤ := 0
  width : ℤ := 0
  height : ℤ := 0
  pixelFormat : String := ""
  sampleFormat : String := ""

structure CodecSpec where
  id : CodecID := ""
  type : MediaType := .unknown
  parameters : CodecParameters := {}
  copy : Bool := false
  auto : Bool := false

inductive ResizeMode where
  | unset | exact | fit | fill | passthrough
  deriving DecidableEq

structure ResizeConfig where
  width : ℤ := 0
  height : ℤ := 0
  pixelFormat : String := ""
  mode : ResizeMode := .unset

structure ResampleConfig where
  sampleRate : ℤ := 0
  channels : ℤ := 0
  sampleFormat : String := ""

inductive Transform where
  | none
  | resize (config : ResizeConfig)
  | resample (config : ResampleConfig)

structure Contract where
  inputShapes : ShapeSet
  outputShapes : Spec → ShapeSet

structure Stage where
  name : String
  contract : Option Contract := none

structure Operation where
  kind : OperationKind
  component : String := ""
  detail : String := ""
  stage : Option Stage := none
  shape : Spec := {}
  transform : Transform := .none
  decode : CodecSpec := {}
  encode : CodecSpec := {}
  shared : Bool := false
  auto : Option Policy := none
  require : Option Spec := none
  prefer : Option Spec := none
  node : ℤ := 0

structure Selector where
  id : StreamID := ""
  type : MediaType := .unknown
  codec : CodecID := ""

structure Stream where
  name : String := ""
  selector : Selector := {}
  operations : List Operation

structure Descriptor where
  name : String
  input : MediaType
  output : MediaType
  pixelFormats : List String := []
  sampleFormats : List String := []
  resizeModes : List ResizeMode := []
  realtime : Bool := false

structure ShapeDeltaRequest where
  actual : Spec
  expected : Spec
  preference : Spec
  realtime : Bool

structure ShapeDeltaPlan where
  component : String
  detail : String
  needed : Policy
  stage : Option Stage

abbrev ShapeDeltaContributor := ShapeDeltaRequest → Except String (Option ShapeDeltaPlan)

structure Env where
  present : Bool
  filters : List Descriptor := []
  realtime : Bool := false
  shapeDeltas : List ShapeDeltaContributor := []

/-! ### Media -/

def codecPCM : CodecID := "pcm"
def codecHEVC : CodecID := "hevc"

def codecMedia (codecID : CodecID) : MediaType :=
  if codecID = codecOpus ∨ codecID = codecPCM then .audio
  else if codecID = codecVP8 ∨ codecID = codecVP9 ∨ codecID = codecH264 ∨ codecID = codecHEVC ∨
      codecID = codecAV1 then .video
  else .unknown

def firstNonEmptyMedia : List MediaType → MediaType
  | [] => .unknown
  | media :: rest => if media ≠ .unknown then media else firstNonEmptyMedia rest

def firstNonEmpty : List String → String
  | [] => ""
  | value :: rest => if value ≠ "" then value else firstNonEmpty rest

def firstPositiveInt : List ℤ → ℤ
  | [] => 0
  | value :: rest => if value > 0 then value else firstPositiveInt rest

def normalizeTapShape (spec : Spec) : Spec :=
  if spec.domain = .unset then { spec with domain := .packet } else spec

def mediaShapeEmpty (spec : Spec) : Bool := spec = {}

/-! ### The shapes of operations -/

def fromCodecParameters (parameters : CodecParameters) : Spec :=
  { mediaKind := parameters.type
    codec := parameters.id
    width := parameters.width
    height := parameters.height
    pixelFormat := parameters.pixelFormat
    sampleRate := parameters.sampleRate
    channels := parameters.channels
    sampleFormat := parameters.sampleFormat }

variable (spec : CodecSpec)

def mediaShapeFromCodecSpec (domain : MediaDomain) : Spec :=
  let out := fromCodecParameters spec.parameters
  { out with
    domain
    mediaKind :=
      if out.mediaKind = .unknown then firstNonEmptyMedia [spec.type, codecMedia spec.id]
      else out.mediaKind
    codec := if out.codec = "" then spec.id else out.codec }

def codecSpecInputShapes : ShapeSet :=
  if spec.copy then [{ domain := .packet }]
  else
    let media := firstNonEmptyMedia [spec.type, spec.parameters.type, codecMedia spec.id]
    if spec.id = "" ∧ spec.auto = false ∧ media = .unknown then [] else [frame media]

variable (input : Spec)

def codecSpecOutputShapes : ShapeSet :=
  if spec.copy then [{ input with domain := .packet }]
  else [merge { input with domain := .packet } (mediaShapeFromCodecSpec spec .packet)]

def recipeIRTransformInputShapes : Transform → ShapeSet
  | .resize _ => [frame .video]
  | .resample _ => [frame .audio]
  | .none => []

def recipeIRTransformOutputShapes (transform : Transform) (input : Spec) : ShapeSet :=
  match transform with
  | .resize config =>
    [{ input with
       domain := .frame
       mediaKind := .video
       width := config.width
       height := config.height
       pixelFormat := if config.pixelFormat ≠ "" then config.pixelFormat else input.pixelFormat }]
  | .resample config =>
    [{ input with
       domain := .frame
       mediaKind := .audio
       sampleRate := config.sampleRate
       channels := config.channels
       sampleFormat := if config.sampleFormat ≠ "" then config.sampleFormat else input.sampleFormat }]
  | .none => [input]

def recipeIROperationInputShapes (operation : Operation) : ShapeSet :=
  match operation.kind with
  | .decode =>
    let codecID := firstNonEmpty [operation.decode.id, operation.component]
    let media :=
      firstNonEmptyMedia [operation.decode.type, operation.decode.parameters.type, codecMedia codecID]
    [packet media codecID]
  | .shape => operation.require.toList
  | .transform => recipeIRTransformInputShapes operation.transform
  | .stage =>
    match operation.stage.bind Stage.contract with
    | some contract => contract.inputShapes
    | none => []
  | .encode | .copy => codecSpecInputShapes operation.encode
  | _ => []

def recipeIROperationOutputShapes (operation : Operation) : ShapeSet :=
  match operation.kind with
  | .decode => [{ input with domain := .frame }]
  | .shape => [merge input operation.shape]
  | .transform => recipeIRTransformOutputShapes operation.transform input
  | .stage =>
    match operation.stage.bind Stage.contract with
    | some contract =>
      let out := contract.outputShapes input
      if out.isEmpty then [input] else out
    | none => [input]
  | .encode | .copy => codecSpecOutputShapes operation.encode input
  | _ => [input]

def recipeIROperationOutputShape (operation : Operation) : Spec :=
  (recipeIROperationOutputShapes input operation).headD input

/-! ### Planning a conversion -/

inductive AdapterError where
  | missing
  | ambiguous (candidates : List String)

inductive PlanError where
  | adapter (media : MediaType) (needed : Policy) (cause : AdapterError)
  | shapeDelta (contributor : ℕ) (reason : String)

structure ShapeConversionPlan where
  operation : Operation
  transform : Transform
  factory : String
  needed : Policy

inductive DropReason where
  | unplanned | missing
  | ambiguous (candidates : List String)
  | policy (allowed needed : Policy)

inductive Diagnostic where
  | preferenceApplied (node : String) (pref : Spec) (conversion : ShapeConversionPlan)
      (targetBias resolved : Bool)
  | preferenceIgnored (node : String) (pref : Spec) (reason : DropReason)
  | conversionInserted (node : String) (conversion : ShapeConversionPlan) (step : Operation)
      (actual expected : Spec)

/-- The transform that makes the expected facts, with the actual ones where they are left open. -/
def synthesizeConversionTransform (media : MediaType) (actual expected : Spec) : Option Transform :=
  match media with
  | .audio =>
    let config : ResampleConfig :=
      { sampleRate := firstPositiveInt [expected.sampleRate, actual.sampleRate]
        channels := firstPositiveInt [expected.channels, actual.channels]
        sampleFormat := firstNonEmpty [expected.sampleFormat, actual.sampleFormat] }
    if config.sampleRate ≤ 0 ∨ config.channels ≤ 0 then none else some (.resample config)
  | .video =>
    let config : ResizeConfig :=
      { width := firstPositiveInt [expected.width, actual.width]
        height := firstPositiveInt [expected.height, actual.height]
        pixelFormat := firstNonEmpty [expected.pixelFormat, actual.pixelFormat]
        mode := .exact }
    if config.width ≤ 0 ∨ config.height ≤ 0 then none else some (.resize config)
  | _ => none

def formatAllowed (allowed : List String) (value : String) : Bool :=
  value = "" || allowed.isEmpty || allowed.contains value

def adapterMatches (media : MediaType) (transform : Transform) (realtime : Bool)
    (descriptor : Descriptor) : Bool :=
  descriptor.input = media && descriptor.output = media && (!realtime || descriptor.realtime) &&
  match transform with
  | .resample config => formatAllowed descriptor.sampleFormats config.sampleFormat
  | .resize config =>
    (descriptor.resizeModes.isEmpty || descriptor.resizeModes.contains .exact) &&
      formatAllowed descriptor.pixelFormats config.pixelFormat
  | .none => true

def narrowAdaptersByPreference (matched : List Descriptor) (media : MediaType) (pref : Spec) :
    List Descriptor :=
  if !pref.realtime && pref.sampleFormat = "" && pref.pixelFormat = "" then matched
  else
    matched.filter fun descriptor =>
      (!pref.realtime || descriptor.realtime) &&
      (media ≠ .audio || formatAllowed descriptor.sampleFormats pref.sampleFormat) &&
      (media ≠ .video || formatAllowed descriptor.pixelFormats pref.pixelFormat)

variable (env : Env)

def selectShapeConversionAdapter (media : MediaType) (transform : Transform)
    (realtime : Bool) (pref : Spec) : Except AdapterError (Descriptor × Bool) :=
  match env.filters.filter (adapterMatches media transform realtime) with
  | [] => .error .missing
  | [descriptor] => .ok (descriptor, false)
  | matched =>
    match narrowAdaptersByPreference matched media pref with
    | [descriptor] => .ok (descriptor, true)
    | _ => .error (.ambiguous (matched.map Descriptor.name))

/-- The conversion to the expected facts, and whether the preference chose its filter. -/
def planShapeConversionFor (actual expected : Spec) (realtime : Bool) (pref : Spec) :
    Except PlanError (Option (ShapeConversionPlan × Bool)) :=
  let needed := conversions actual expected
  if needed.empty then .ok none
  else
    let media := firstNonEmptyMedia [expected.mediaKind, actual.mediaKind]
    match synthesizeConversionTransform media actual expected with
    | none => .ok none
    | some transform =>
      match selectShapeConversionAdapter env media transform realtime pref with
      | .error cause => .error (.adapter media needed cause)
      | .ok (descriptor, resolved) =>
        .ok (some
          ({ operation := { kind := .transform, component := descriptor.name, transform }
             transform
             factory := descriptor.name
             needed }, resolved))

def planShapeConversion (actual expected : Spec) (realtime : Bool) :
    Except PlanError (Option ShapeConversionPlan) :=
  (planShapeConversionFor env actual expected realtime {}).map (Option.map Prod.fst)

def planShapeDeltas (request : ShapeDeltaRequest) (i : ℕ) :
    List ShapeDeltaContributor → Except PlanError (Option ShapeConversionPlan)
  | [] => .ok none
  | contributor :: rest =>
    match contributor request with
    | .error err => .error (.shapeDelta i err)
    | .ok none => planShapeDeltas request (i + 1) rest
    | .ok (some planned) =>
      match planned.stage with
      | none => .error (.shapeDelta i "returned a nil stage")
      | some stage =>
        let component := firstNonEmpty [planned.component, stage.name]
        if planned.needed.empty then .error (.shapeDelta i "returned an empty policy")
        else if component = "" then .error (.shapeDelta i "returned an unnamed stage")
        else
          .ok (some
            { operation :=
                { kind := .stage, component, stage
                  detail := firstNonEmpty [planned.detail, component] }
              transform := .none
              factory := component
              needed := planned.needed })

def planCustomShapeConversion (actual expected : Spec) (realtime : Bool) (pref : Spec) :
    Except PlanError (Option ShapeConversionPlan) :=
  if !env.present || env.shapeDeltas.isEmpty then .ok none
  else planShapeDeltas { actual, expected, preference := pref, realtime } 0 env.shapeDeltas

/-- The expected shape, with what the preference says of the facts it leaves open. -/
def preferredConversionTarget (media : MediaType) (expected pref : Spec) : Spec :=
  match media with
  | .audio =>
    { expected with
      sampleRate := if expected.sampleRate = 0 then pref.sampleRate else expected.sampleRate
      channels := if expected.channels = 0 then pref.channels else expected.channels
      sampleFormat := if expected.sampleFormat = "" then pref.sampleFormat else expected.sampleFormat }
  | .video =>
    { expected with
      width := if expected.width = 0 then pref.width else expected.width
      height := if expected.height = 0 then pref.height else expected.height
      pixelFormat := if expected.pixelFormat = "" then pref.pixelFormat else expected.pixelFormat }
  | _ => expected

def preferenceDropReason : PlanError → DropReason
  | .adapter _ _ (.ambiguous candidates) => .ambiguous candidates
  | .adapter _ _ .missing => .missing
  | .shapeDelta _ _ => .unplanned

/-- The plan by the registered filters, under a preference if it is one for this media. -/
def planFilterConversion (actual expected : Spec) (realtime : Bool) (policy : Policy)
    (pref : Spec) (prefActive : Bool) (node : String) :
    Except PlanError (Option (ShapeConversionPlan × List Diagnostic)) :=
  let media := firstNonEmptyMedia [expected.mediaKind, actual.mediaKind]
  let base (diagnostics : List Diagnostic) :=
    (planShapeConversion env actual expected realtime).map (Option.map (·, diagnostics))
  let dropped (reason : DropReason) := base [.preferenceIgnored node pref reason]
  if !prefActive || mediaShapeEmpty pref || (pref.mediaKind ≠ .unknown && pref.mediaKind ≠ media) then
    base []
  else
    let effective := preferredConversionTarget media expected pref
    let targetBias : Bool := effective ≠ expected
    match planShapeConversionFor env actual effective realtime pref with
    | .error err => dropped (preferenceDropReason err)
    | .ok none => dropped .unplanned
    | .ok (some (conversion, resolved)) =>
      if !policy.covers conversion.needed then dropped (.policy policy conversion.needed)
      else if !targetBias && !resolved then base []
      else
        .ok (some (conversion, [.preferenceApplied node pref conversion targetBias resolved]))

def planShapeConversionPreferred (actual expected : Spec) (realtime : Bool)
    (policy : Policy) (pref : Spec) (prefActive : Bool) (node : String) :
    Except PlanError (Option (ShapeConversionPlan × List Diagnostic)) :=
  match planCustomShapeConversion env actual expected realtime pref with
  | .error err => .error err
  | .ok none => planFilterConversion env actual expected realtime policy pref prefActive node
  | .ok (some custom) =>
    if policy.covers custom.needed || !policy.covers (conversions actual expected) then
      .ok (some (custom, []))
    else planFilterConversion env actual expected realtime policy pref prefActive node

def shapeConversionTargetFromSet (current : Spec) (expected : ShapeSet) : Option Spec :=
  expected.find? fun candidate =>
    decide (candidate.domain = .unset ∨ candidate.domain = current.domain) &&
    decide (candidate.mediaKind = .unknown ∨ candidate.mediaKind = current.mediaKind) &&
    decide (candidate.codec = "" ∨ candidate.codec = current.codec) &&
    decide (candidate.streamID = "" ∨ candidate.streamID = current.streamID) &&
    decide (candidate.format = "" ∨ candidate.format = current.format) &&
    (!candidate.realtime || current.realtime) &&
    !(conversions current candidate).empty &&
    (synthesizeConversionTransform
      (firstNonEmptyMedia [candidate.mediaKind, current.mediaKind]) current candidate).isSome

/-! ### Walking a chain -/

structure Site where
  operation : String
  node : String
  index : ℕ

inductive SolverError where
  | annotationDomain (site : Site) (current stated : Spec)
  | operationShapeMismatch (site : Site) (step : Operation) (expected : ShapeSet) (actual : Spec)
  | shapeRequirementUnmet (site : Site) (step : Operation) (expected : ShapeSet) (actual : Spec)
  /-- A mismatch that an automatic conversion would fix. -/
  | autoFix (mismatch : SolverError) (needed : Policy) (transform : Option Transform)
  | adapter (site : Site) (step : Operation) (actual expected : Spec) (err : PlanError)
  | conversionRefused (site : Site) (step : Operation) (allowed : Policy)
      (conversion : ShapeConversionPlan) (actual expected : Spec)

def recipeIROperationShapeFailureError (site : Site) (step : Operation) (expected : ShapeSet)
    (actual : Spec) : SolverError :=
  if step.kind = .shape ∧ step.require.isSome then .shapeRequirementUnmet site step expected actual
  else .operationShapeMismatch site step expected actual

def appendRecipeIRAutoFixSuggestions (err : SolverError) (actual expected : Spec) : SolverError :=
  .autoFix err (conversions actual expected)
    (synthesizeConversionTransform (firstNonEmptyMedia [expected.mediaKind, actual.mediaKind]) actual
      expected)

def packetOrFrameDomain (domain : MediaDomain) : Bool := domain = .packet || domain = .frame

def validateShapeAnnotationDomain (site : Site) (current stated : Spec) :
    Except SolverError Unit :=
  require (stated.domain = .unset ∨ current.domain = .unset ∨ stated.domain = current.domain ∨
      ¬ (packetOrFrameDomain stated.domain ∧ packetOrFrameDomain current.domain))
    (.annotationDomain site current stated)

def streamNode (stream : Stream) : String :=
  let type := match stream.selector.type with
    | .unknown => ""
    | .audio => "audio"
    | .video => "video"
    | .subtitle => "subtitle"
    | .data => "data"
  firstNonEmpty [stream.name, stream.selector.id, type, "stream"]

/-- The shape that the chain begins with. -/
def startShape (stream : Stream) (initial : Spec) : Spec :=
  let spec := normalizeTapShape initial
  { spec with
    mediaKind := if spec.mediaKind = .unknown then stream.selector.type else spec.mediaKind
    codec := if spec.codec = "" then stream.selector.codec else spec.codec }

def carriesFacts (operation : Operation) : Bool :=
  operation.kind = .shape && operation.require.isNone

def validateOperation (site : Site) (shape : Spec) (next : Operation) : Except SolverError Unit :=
  if next.kind = .tap then .ok ()
  else if carriesFacts next then validateShapeAnnotationDomain site shape next.shape
  else
    let expected := recipeIROperationInputShapes next
    require (accepts expected shape = true) (recipeIROperationShapeFailureError site next expected shape)

def validateOperations (operation node : String) : ℕ → Spec → List Operation →
    Except SolverError Unit
  | _, _, [] => .ok ()
  | i, shape, next :: rest => do
    validateOperation { operation, node, index := i } shape next
    validateOperations operation node (i + 1) (recipeIROperationOutputShape shape next) rest

def validateRecipeIROperationShapes (operation : String) (stream : Stream)
    (operations : List Operation) (initial : Spec) : Except SolverError Unit :=
  validateOperations operation (streamNode stream) 0 (startShape stream initial) operations

variable (operations : List Operation)

def recipeIRChainAutoPolicy : Policy × Bool :=
  operations.foldl (fun (policy, active) operation =>
      match operation.auto with
      | none => (policy, active)
      | some auto => (policy.union auto, true))
    ({}, false)

def recipeIRChainPreference : Spec × Bool :=
  operations.foldl (fun (preference, active) operation =>
      match operation.prefer with
      | none => (preference, active)
      | some prefer => (merge preference prefer, true))
    ({}, false)

def recipeIROperationSoftInputShape (operation : Operation) : Spec :=
  if operation.kind ≠ .encode ∨ operation.encode.copy ∨ operation.encode.id = "" then {}
  else
    let parameters := operation.encode.parameters
    match firstNonEmptyMedia [operation.encode.type, parameters.type, codecMedia operation.encode.id] with
    | .audio =>
      { domain := .frame
        mediaKind := .audio
        sampleRate := parameters.sampleRate
        channels := parameters.channels
        sampleFormat := parameters.sampleFormat }
    | .video =>
      { domain := .frame
        mediaKind := .video
        width := parameters.width
        height := parameters.height
        pixelFormat := parameters.pixelFormat }
    | _ => {}

structure Solver where
  operation : String
  env : Env
  node : String
  policy : Policy
  policyActive : Bool
  preference : Spec
  preferenceActive : Bool

def newSolver (operation : String) (env : Env) (stream : Stream) : Solver :=
  { operation, env
    node := streamNode stream
    policy := (recipeIRChainAutoPolicy stream.operations).1
    policyActive := (recipeIRChainAutoPolicy stream.operations).2
    preference := (recipeIRChainPreference stream.operations).1
    preferenceActive := (recipeIRChainPreference stream.operations).2 }

structure Insertion where
  before : Spec
  next : Operation
  conversion : ShapeConversionPlan

def Insertion.operation (insertion : Insertion) : Operation :=
  { insertion.conversion.operation with shared := insertion.next.shared, node := -1 }

def Insertion.after (insertion : Insertion) : Spec :=
  recipeIROperationOutputShape insertion.before insertion.conversion.operation

/-- An operation of the stream, or an inserted one. -/
inductive Step where
  | own (operation : Operation)
  | inserted (insertion : Insertion)

def Step.operation : Step → Operation
  | .own operation => operation
  | .inserted insertion => insertion.operation

namespace Solver

variable (c : Solver) (i : ℕ)

def site : Site := { operation := c.operation, node := c.node, index := i }

variable (current : Spec) (next : Operation)

def plan (target : Spec) :
    Except SolverError (Option (Insertion × List Diagnostic)) :=
  match planShapeConversionPreferred c.env current target c.env.realtime c.policy c.preference
    c.preferenceActive c.node with
  | .error err => .error (.adapter (c.site i) next current target err)
  | .ok none => .ok none
  | .ok (some (conversion, diagnostics)) =>
    if !c.policy.covers conversion.needed then
      .error (.conversionRefused (c.site i) next c.policy conversion current target)
    else
      .ok (some ({ before := current, next, conversion },
        .conversionInserted c.node conversion next current target :: diagnostics))

def solveContract :
    Except SolverError (Option (Insertion × List Diagnostic)) :=
  let expected := recipeIROperationInputShapes next
  if accepts expected current then .ok none
  else
    let mismatch := recipeIROperationShapeFailureError (c.site i) next expected current
    match shapeConversionTargetFromSet current expected with
    | none => .error mismatch
    | some target =>
      if !c.policyActive then .error (appendRecipeIRAutoFixSuggestions mismatch current target)
      else
        match c.plan i current next target with
        | .error err => .error err
        | .ok none => .error mismatch
        | .ok (some (insertion, diagnostics)) =>
          if !accepts expected insertion.after then .error mismatch
          else .ok (some (insertion, diagnostics))

def solvePinned :
    Except SolverError (Option (Insertion × List Diagnostic)) :=
  let desired := recipeIROperationSoftInputShape next
  if !c.policyActive || mediaShapeEmpty desired || (conversions current desired).empty then .ok none
  else c.plan i current next desired

def shapeAfter (inserted : Option (Insertion × List Diagnostic)) : Spec :=
  match inserted with
  | none => current
  | some (insertion, _) => insertion.after

def solveOperation :
    Except SolverError (List Step × List Diagnostic × Spec) :=
  if next.kind = .tap then
    .ok ([.own next], [], recipeIROperationOutputShape current next)
  else if carriesFacts next then do
    validateShapeAnnotationDomain (c.site i) current next.shape
    return ([.own next], [], recipeIROperationOutputShape current next)
  else do
    let contract ← c.solveContract i current next
    let current := shapeAfter current contract
    let pinned ← c.solvePinned i current next
    let current := shapeAfter current pinned
    let inserted := contract.toList ++ pinned.toList
    return (inserted.map (fun (insertion, _) => .inserted insertion) ++ [.own next],
      inserted.flatMap Prod.snd, recipeIROperationOutputShape current next)

def solveOperations : ℕ → Spec → List Operation → Except SolverError (List Step × List Diagnostic)
  | _, _, [] => .ok ([], [])
  | i, current, next :: rest => do
    let (steps, diagnostics, current) ← c.solveOperation i current next
    let (steps', diagnostics') ← solveOperations (i + 1) current rest
    return (steps ++ steps', diagnostics ++ diagnostics')

end Solver

def insertions (steps : List Step) : List Insertion :=
  steps.filterMap fun step => match step with
    | .own _ => none
    | .inserted insertion => some insertion

def ownOperations (steps : List Step) : List Operation :=
  steps.filterMap fun step => match step with
    | .own operation => some operation
    | .inserted _ => none

def solveSteps (operation : String) (env : Env) (stream : Stream) (initial : Spec) :
    Except SolverError (List Step × List Diagnostic) :=
  (newSolver operation env stream).solveOperations 0 (startShape stream initial) stream.operations

def solveRecipeIROperationShapes (operation : String) (env : Env) (stream : Stream)
    (initial : Spec) : Except SolverError (Option (List Operation) × List Diagnostic) :=
  if !env.present then
    (validateRecipeIROperationShapes operation stream stream.operations initial).map
      fun _ => (none, [])
  else do
    let (steps, diagnostics) ← solveSteps operation env stream initial
    return if (insertions steps).isEmpty then (none, []) else (some (steps.map Step.operation), diagnostics)

end Goav.Compile
