import Goav.Compile.BranchNames

/-!
The operations of a work plan (`internal/compile/work_plan.go`), numbered within their branches. What a
branch lists is found by its name.
-/

namespace Goav.Compile

open Goav.Av Goav.Shape Goav.Lib List

def OperationKind.text : OperationKind → String
  | .unset => ""
  | .probe => "probe"
  | .demux => "demux"
  | .depacketize => "depacketize"
  | .select => "select"
  | .decode => "decode"
  | .shape => "shape"
  | .transform => "transform"
  | .stage => "stage"
  | .join => "join"
  | .encode => "encode"
  | .copy => "copy"
  | .mux => "mux"
  | .write => "write"
  | .sink => "sink"
  | .tap => "tap"
  | .name => "name"
  | .buffer => "buffer"

structure PlanOperation where
  kind : OperationKind
  component : String := ""
  detail : String := ""
  codec : CodecSpec := {}
  shared : Bool := false
  shape : Spec := {}
  shapeIn : Spec := {}
  node : String := ""

structure PlanBranch where
  name : String
  shape : Spec := {}
  operations : List PlanOperation
  outputs : List String

structure PlanOutput where
  name : String
  operation : OperationKind := .unset
  component : String := ""

structure WorkOperation where
  id : String
  name : String
  kind : OperationKind
  branch : String
  node : String
  component : String
  detail : String
  codec : CodecSpec := {}
  shared : Bool := false
  shapeIn : Spec
  shapeOut : Spec
  destinations : List String := []

structure WorkBranch where
  id : String
  name : String
  sourceShape : Spec
  operations : List String
  destinations : List String

def workOperationIDForKind (branch : String) (index : ℕ) (kind : OperationKind) : String :=
  separated (separated (firstNonEmpty [branch, "branch"]) '/' (padded 3 index)) '/' kind.text

def workOperationName (node component detail : String) (index : ℕ) : String :=
  firstNonEmpty [node, component, detail, "op-" ++ toString index]

def workBranchID (name : String) (index : ℕ) : String :=
  "branch/" ++ firstNonEmpty [name, "main"] ++ "/" ++ toString index

def workDestinationID (name : String) : String := "destination/" ++ firstNonEmpty [name, "unnamed"]

def workOperationTerminal (kind : OperationKind) : Bool :=
  match kind with
  | .mux | .sink | .write => true
  | _ => false

def planOutputNamed (outputs : List PlanOutput) (name : String) : PlanOutput :=
  ((outputs.filter fun output => output.name ≠ "").reverse.find? fun output =>
    output.name = name).getD { name := "" }

def workOperation (branch : String) (index : ℕ) (current : Spec) (operation : PlanOperation) :
    WorkOperation :=
  let node := if operation.kind = .shape then "" else operation.node
  { id := workOperationIDForKind branch index operation.kind
    name := workOperationName node operation.component operation.detail index
    kind := operation.kind
    branch
    node
    component := operation.component
    detail := operation.detail
    codec := operation.codec
    shared := operation.shared
    shapeIn := if mediaShapeEmpty operation.shapeIn then current else operation.shapeIn
    shapeOut := if mediaShapeEmpty operation.shape then current else operation.shape }

variable (outputNode : String → String)

/-- One destination of a branch; `outputNode` is the node of a destination, if it has one. -/
def workDestination (outputs : List PlanOutput) (branch : String)
    (index : ℕ) (current : Spec) (destination : String) : WorkOperation :=
  let output := planOutputNamed outputs destination
  let node := firstNonEmpty [outputNode destination, output.name, destination]
  { id := workOperationIDForKind branch index output.operation
    name := workOperationName node output.component "destination" index
    kind := output.operation
    branch
    node
    component := output.component
    detail := "destination"
    shapeIn := current
    shapeOut := current
    destinations := [workDestinationID destination] }

section

variable (outputNode : String → String) (outputs : List PlanOutput) (branch : String)

def workDestinations (index : ℕ) (current : Spec) : List String → List WorkOperation
  | [] => []
  | destination :: rest =>
    workDestination outputNode outputs branch index current destination ::
      workDestinations (index + 1) current rest

def workOperations (destinations : List String) : ℕ → Spec → List PlanOperation → List WorkOperation
  | index, current, [] => workDestinations outputNode outputs branch index current destinations
  | index, current, operation :: rest =>
    let work := workOperation branch index current operation
    work :: workOperations destinations (index + 1)
      (if workOperationTerminal operation.kind then current else work.shapeOut) rest

end

def branchOperations (outputs : List PlanOutput) (branch : PlanBranch) :
    List WorkOperation :=
  workOperations outputNode outputs branch.name branch.outputs 0 (normalizeTapShape branch.shape)
    branch.operations

def workOperationsFromBranches (outputs : List PlanOutput)
    (branches : List PlanBranch) : List WorkOperation :=
  branches.flatMap (branchOperations outputNode outputs)

def workBranchesFromPlanAt (branches : List PlanBranch) (operations : List WorkOperation) (base : ℕ) :
    List WorkBranch :=
  branches.mapIdx fun i branch =>
    { id := workBranchID branch.name (base + i)
      name := branch.name
      sourceShape := branch.shape
      operations :=
        (operations.filter fun operation => operation.branch = branch.name).map WorkOperation.id
      destinations := branch.outputs.map workDestinationID }

/-- The work plan as it grows: the branches of input streams wait for a join to go in between. -/
structure WorkBuild where
  branches : List PlanBranch := []
  operations : List WorkOperation := []
  workBranches : List WorkBranch := []
  emitted : List ℕ := []

section

variable (outputNode : String → String) (outputs : List PlanOutput)

def WorkBuild.flush (b : WorkBuild) : WorkBuild :=
  let ops := workOperationsFromBranches outputNode outputs b.branches
  { b with
    branches := []
    operations := b.operations ++ ops
    workBranches := b.workBranches ++ workBranchesFromPlanAt b.branches ops b.workBranches.length }

/-- The work of a join, by its root, whether its branch is lone, and the branches before it. -/
abbrev JoinWork := ℕ → Bool → ℕ → List WorkOperation × List WorkBranch

variable (joinWork : JoinWork) (req : Request)

def WorkBuild.add (b : WorkBuild) (stream : DerivedBranch × PlanBranch) : WorkBuild :=
  let root := stream.1.root
  let b :=
    if (req.graph.node root).kind = .join ∧ root ∉ b.emitted then
      let b := b.flush outputNode outputs
      let (ops, joinBranches) := joinWork root stream.1.lone b.workBranches.length
      { b with
        operations := b.operations ++ ops
        workBranches := b.workBranches ++ joinBranches
        emitted := root :: b.emitted }
    else b
  { b with branches := b.branches ++ [stream.2] }

/-- The work of the streams that are routed, by branch and plan; no input is remuxed. -/
def buildRecipeWorkPlan (streams : List (DerivedBranch × PlanBranch)) : WorkBuild :=
  (streams.foldl (WorkBuild.add outputNode outputs joinWork req) {}).flush outputNode outputs

end

/-! ### Identifiers -/

lemma notMem_text (kind : OperationKind) : '/' ∉ kind.text.toList := by
  cases kind <;> decide

theorem workOperationIDForKind_inj {branch branch' : String} {index index' : ℕ}
    {kind kind' : OperationKind} (hbranch : branch ≠ "") (hbranch' : branch' ≠ "")
    (h : workOperationIDForKind branch index kind = workOperationIDForKind branch' index' kind') :
    branch = branch' ∧ index = index' := by
  obtain ⟨h, -⟩ := separated_inj (notMem_text kind) (notMem_text kind') h
  obtain ⟨hname, hindex⟩ := separated_inj (notMem_padded rfl 3 index) (notMem_padded rfl 3 index') h
  exact ⟨by simpa [firstNonEmpty, hbranch, hbranch'] using hname, padded_inj hindex⟩

section

variable {outputNode : String → String} {outputs : List PlanOutput} {branch : String}
  (destinations : List String)

lemma workDestinations_spec (index : ℕ) (current : Spec) :
    ∀ i operation,
      (workDestinations outputNode outputs branch index current destinations)[i]? = some operation →
      operation.branch = branch ∧
        operation.id = workOperationIDForKind branch (index + i) operation.kind := by
  induction destinations generalizing index with
  | nil => simp [workDestinations]
  | cons destination rest ih =>
    intro i operation hi
    cases i with
    | zero =>
      cases hi
      exact ⟨rfl, rfl⟩
    | succ i =>
      have := ih (index + 1) i operation hi
      rwa [show index + 1 + i = index + (i + 1) by omega] at this

lemma workOperations_spec (operations : List PlanOperation) (index : ℕ) (current : Spec) :
    ∀ i operation, (workOperations outputNode outputs branch destinations index current operations)[i]? = some operation →
      operation.branch = branch ∧
        operation.id = workOperationIDForKind branch (index + i) operation.kind := by
  induction operations generalizing index current with
  | nil => exact workDestinations_spec destinations index current
  | cons planned rest ih =>
    intro i operation hi
    cases i with
    | zero =>
      cases hi
      exact ⟨rfl, rfl⟩
    | succ i =>
      have := ih (index + 1) _ i operation hi
      rwa [show index + 1 + i = index + (i + 1) by omega] at this

lemma branchOperations_spec {branch : PlanBranch} {i : ℕ} {operation : WorkOperation}
    (h : (branchOperations outputNode outputs branch)[i]? = some operation) :
    operation.branch = branch.name ∧
      operation.id = workOperationIDForKind branch.name i operation.kind := by
  simpa using workOperations_spec _ _ 0 _ i operation h

lemma branch_eq_of_mem {branch : PlanBranch} {operation : WorkOperation}
    (h : operation ∈ branchOperations outputNode outputs branch) : operation.branch = branch.name := by
  obtain ⟨i, hi⟩ := mem_iff_getElem?.mp h
  exact (branchOperations_spec hi).1

lemma nodup_branch_ids {branch : PlanBranch} (hname : branch.name ≠ "") :
    ((branchOperations outputNode outputs branch).map WorkOperation.id).Nodup := by
  rw [nodup_iff_getElem?_ne_getElem?]
  intro i j hij hj heq
  rw [length_map] at hj
  rw [getElem?_map, getElem?_map, getElem?_eq_getElem (hij.trans hj), getElem?_eq_getElem hj] at heq
  have hid := Option.some.inj heq
  rw [(branchOperations_spec (getElem?_eq_getElem (hij.trans hj))).2,
    (branchOperations_spec (getElem?_eq_getElem hj)).2] at hid
  have := (workOperationIDForKind_inj hname hname hid).2
  omega

variable {branches : List PlanBranch} (hnames : (branches.map PlanBranch.name).Nodup)
include hnames

theorem nodup_ids (hne : ∀ branch ∈ branches, branch.name ≠ "") :
    ((workOperationsFromBranches outputNode outputs branches).map WorkOperation.id).Nodup := by
  induction branches with
  | nil => simp [workOperationsFromBranches]
  | cons branch rest ih =>
    rw [map_cons, nodup_cons] at hnames
    rw [workOperationsFromBranches, flatMap_cons, map_append, nodup_append']
    refine ⟨nodup_branch_ids (hne _ mem_cons_self),
      ih hnames.2 fun other hother => hne other (mem_cons_of_mem _ hother), ?_⟩
    intro id hid hid'
    obtain ⟨operation, hoperation, rfl⟩ := mem_map.mp hid
    obtain ⟨operation', hoperation', heq⟩ := mem_map.mp hid'
    obtain ⟨other, hother, hoperation'⟩ := mem_flatMap.mp hoperation'
    obtain ⟨i, hi⟩ := mem_iff_getElem?.mp hoperation
    obtain ⟨j, hj⟩ := mem_iff_getElem?.mp hoperation'
    rw [(branchOperations_spec hi).2, (branchOperations_spec hj).2] at heq
    have hname := (workOperationIDForKind_inj (hne other (mem_cons_of_mem _ hother))
      (hne _ mem_cons_self) heq).1
    exact hnames.1 (mem_map.mpr ⟨other, hother, hname⟩)

lemma filter_branch {branch : PlanBranch} (hbranch : branch ∈ branches) :
    ((workOperationsFromBranches outputNode outputs branches).filter fun operation =>
      operation.branch = branch.name) = branchOperations outputNode outputs branch := by
  induction branches with
  | nil => simp at hbranch
  | cons first rest ih =>
    rw [map_cons, nodup_cons] at hnames
    rw [workOperationsFromBranches, flatMap_cons, filter_append]
    rcases mem_cons.mp hbranch with rfl | hrest
    · rw [filter_eq_self.mpr, filter_eq_nil_iff.mpr, append_nil]
      · intro operation hoperation
        obtain ⟨other, hother, hmem⟩ := mem_flatMap.mp hoperation
        have hne : other.name ≠ branch.name := fun heq =>
          hnames.1 (mem_map.mpr ⟨other, hother, heq⟩)
        simpa [branch_eq_of_mem hmem] using hne
      · intro operation hoperation
        simp [branch_eq_of_mem hoperation]
    · have hne : first.name ≠ branch.name := fun heq =>
        hnames.1 (mem_map.mpr ⟨branch, hrest, heq.symm⟩)
      have hnone : (branchOperations outputNode outputs first).filter
          (fun operation => operation.branch = branch.name) = [] := by
        rw [filter_eq_nil_iff]
        intro operation hoperation
        simpa [branch_eq_of_mem hoperation] using hne
      rw [hnone]
      exact ih hnames.2 hrest

theorem lists_own (base : ℕ) :
    (workBranchesFromPlanAt branches (workOperationsFromBranches outputNode outputs branches)
      base).map WorkBranch.operations =
        branches.map fun branch => (branchOperations outputNode outputs branch).map WorkOperation.id := by
  unfold workBranchesFromPlanAt
  refine ext_getElem (by simp) fun i hi hi' => ?_
  rw [getElem_map, getElem_mapIdx, getElem_map]
  exact congrArg (List.map WorkOperation.id) (filter_branch hnames (getElem_mem _))

end

/-! ### The plan of a recipe -/

lemma forkName_base_ne (req : Request) (leaf : StreamPath) : (forkName req leaf).base ≠ "" := by
  unfold forkName
  split
  · rename_i name hname
    obtain ⟨-, id, -, -, hid, -⟩ := findSome?_eq_some_iff.mp hname
    split at hid
    · rename_i hne
      cases hid
      exact hne.2
    · simp at hid
  · dsimp only [ForkName.base]
    split
    · decide
    · assumption

lemma numbered_ne_empty (base : String) (n : ℕ) : numbered base n ≠ "" := by
  intro h
  have := length_lt_separated base (toString n) '-'
  rw [show separated base '-' (toString n) = "" from h] at this
  simp at this

lemma nameAfter_ne {before : List ForkName} {fork : ForkName} (h : fork.base ≠ "") :
    nameAfter before fork ≠ "" := by
  cases fork with
  | explicit name => exact h
  | derived name =>
    dsimp only [nameAfter]
    split
    · exact numbered_ne_empty _ _
    · exact h

lemma namesFrom_ne {before rest : List ForkName} (h : ∀ fork ∈ rest, fork.base ≠ "") :
    ∀ name ∈ namesFrom before rest, name ≠ "" := by
  induction rest generalizing before with
  | nil => simp [namesFrom]
  | cons fork rest ih =>
    intro name hname
    rcases mem_cons.mp hname with rfl | hname
    · exact nameAfter_ne (h fork mem_cons_self)
    · exact ih (fun other hother => h other (mem_cons_of_mem _ hother)) name hname

lemma firstFree_ne {taken : List String} {base name : String} (h : name ≠ "") (tries n : ℕ) :
    firstFree taken base tries n name ≠ "" := by
  induction tries generalizing n name with
  | zero => exact h
  | succ tries ih =>
    rw [firstFree]
    split
    · exact ih (numbered_ne_empty base n) (n + 1)
    · exact h

lemma loneNames_ne {taken bases : List String} (h : ∀ base ∈ bases, base ≠ "") :
    ∀ name ∈ loneNames taken bases, name ≠ "" := by
  induction bases generalizing taken with
  | nil => simp [loneNames]
  | cons base bases ih =>
    intro name hname
    rcases mem_cons.mp hname with rfl | hname
    · exact firstFree_ne (h base mem_cons_self) _ _
    · exact ih (fun other hother => h other (mem_cons_of_mem _ hother)) name hname

lemma rootName_ne (req : Request) (root : ℕ) : rootName req root ≠ "" := by
  unfold rootName
  split
  · exact req.joinNames_ne root _ ‹_›
  · split <;> decide

lemma name_ne_of_deriveBranches {req : Request} {branches : List DerivedBranch}
    (h : deriveBranches req = .ok branches) : ∀ name ∈ branches.map DerivedBranch.name, name ≠ "" := by
  rw [(map_name_deriveBranches h).1]
  intro name hname
  rcases mem_append.mp hname with hname | hname
  · refine namesFrom_ne (fun fork hfork => ?_) name hname
    obtain ⟨leaf, -, rfl⟩ := mem_map.mp hfork
    exact forkName_base_ne req leaf.2
  · refine loneNames_ne (fun base hbase => ?_) name hname
    obtain ⟨root, -, rfl⟩ := mem_map.mp hbase
    exact rootName_ne req root

lemma foldl_add_of_no_join {outputNode : String → String} {outputs : List PlanOutput} {joinWork : JoinWork}
    {req : Request} {streams : List (DerivedBranch × PlanBranch)} (b : WorkBuild)
    (h : ∀ stream ∈ streams, (req.graph.node stream.1.root).kind ≠ .join) :
    streams.foldl (WorkBuild.add outputNode outputs joinWork req) b =
      { b with branches := b.branches ++ streams.map Prod.snd } := by
  induction streams generalizing b with
  | nil => simp
  | cons stream streams ih =>
    have hstream : ¬ ((req.graph.node stream.1.root).kind = .join ∧ stream.1.root ∉ b.emitted) :=
      fun hjoin => h stream mem_cons_self hjoin.1
    rw [foldl_cons, ih _ fun other hother => h other (mem_cons_of_mem _ hother)]
    simp [WorkBuild.add, if_neg hstream]

def threeEncodes : Graph :=
  { nodes :=
      [{ kind := .input }, { kind := .select, parents := [0], select := { type := .video } },
       { kind := .op, parents := [1], op := { kind := .decode } },
       { kind := .op, parents := [2], op := { kind := .encode } },
       { kind := .op, parents := [2], op := { kind := .encode } },
       { kind := .op, parents := [2], op := { kind := .encode } },
       { kind := .output, parents := [3], output := 0 },
       { kind := .output, parents := [4], output := 1 },
       { kind := .output, parents := [5], output := 2 }]
    ordered := by
      intro i node hnode parent hparent
      match i with
      | 0 | 1 | 2 | 3 | 4 | 5 | 6 | 7 | 8 =>
        cases hnode
        simp at hparent
        try omega
      | i + 9 => simp at hnode }

def labelled (labels : List String) : Request :=
  { graph := threeEncodes
    outputs := [{ source := 3, dests := [6] }, { source := 4, dests := [7] },
      { source := 5, dests := [8] }]
    labels
    joinNames := fun _ => none
    joinNames_ne := by simp }

def planOf (branch : DerivedBranch) : PlanBranch :=
  { name := branch.name, operations := [{ kind := .decode }, { kind := .encode }],
    outputs := [branch.name] }

end Goav.Compile
