import Goav.Compile.SolverDefs
import Goav.Lib.Text

/-!
The recipe graph (`internal/recipeir/recipe.go`) and the branches derived from it (`branches.go`). A fork
is named by its last `As(...)`, or after its first destination, with a number if that was derived before;
a lone branch is named after its root.
-/

namespace Goav.Compile

open Goav.Av Goav.Lib

/-! ### Graphs -/

inductive NodeKind where
  | input | select | rule | anchor | op | join | output
  deriving DecidableEq

structure Node where
  kind : NodeKind
  parents : List ℕ := []
  input : ℕ := 0
  select : Selector := {}
  op : Operation := { kind := .unset }
  opName : String := ""
  output : ℕ := 0

instance : Inhabited Node := ⟨{ kind := .input }⟩

/-- A recipe as a graph: every parent precedes its children. -/
structure Graph where
  nodes : List Node
  ordered : ∀ (i : ℕ) (node : Node), nodes[i]? = some node → ∀ parent ∈ node.parents, parent < i

namespace Graph

variable (g : Graph)

def node (id : ℕ) : Node := g.nodes.getD id default

/-- The nodes from a stream's root to `id`; each step goes to a smaller node. -/
def pathFrom (g : Graph) : ℕ → ℕ → List ℕ
  | 0, id => [id]
  | steps + 1, id =>
    if (g.node id).kind = .op then g.pathFrom steps ((g.node id).parents.headD 0) ++ [id] else [id]

def path (id : ℕ) : List ℕ := g.pathFrom id id

def hasOp (nodes : List ℕ) (kind : OperationKind) : Bool :=
  nodes.any fun id => (g.node id).kind = .op && (g.node id).op.kind = kind

def isName (id : ℕ) : Bool := (g.node id).op.kind = .name

end Graph

/-! ### Leaves -/

/-- One output's chain: the nodes from its root to the stream it routes, and its destinations. -/
structure StreamPath where
  nodes : List ℕ
  dests : List ℕ

variable (g : Graph) (nodes : List ℕ)

def trailingName : String :=
  match nodes.reverse with
  | last :: _ :: _ => if g.isName last then (g.node last).opName else ""
  | _ => ""

def workLeafOf (g : Graph) : List ℕ → ℕ
  | [] => 0
  | [root] => root
  | last :: rest => if g.isName last then workLeafOf g rest else last

def workLeaf : ℕ := workLeafOf g nodes.reverse

def placePath (g : Graph) (path : StreamPath) : List StreamPath → List StreamPath
  | [] => [path]
  | group :: rest =>
    let name := trailingName g path.nodes
    let groupName := trailingName g group.nodes
    if workLeaf g group.nodes = workLeaf g path.nodes ∧
        ¬ (name ≠ "" ∧ groupName ≠ "" ∧ name ≠ groupName) then
      { nodes := if groupName = "" then path.nodes else group.nodes
        dests := group.dests ++ path.dests } :: rest
    else group :: placePath g path rest

variable (paths : List StreamPath)

def groupLeaves : List StreamPath :=
  paths.foldl (fun groups path => placePath g path groups) []

/-! ### Names -/

/-- A text without the part from its last dot on, if there is one after the last slash. -/
def trimExt (label : String) : String :=
  let rest := label.toList.reverse.dropWhile fun c => c ≠ '.' && c ≠ '/'
  match rest with
  | '.' :: rest => String.ofList rest.reverse
  | _ => label

structure Output where
  source : ℕ
  dests : List ℕ

/-- What a recipe asks of the compiler. A join without a name is refused before there is a plan. -/
structure Request where
  graph : Graph
  outputs : List Output
  labels : List String
  joinNames : ℕ → Option String
  joinNames_ne : ∀ root name, joinNames root = some name → name ≠ ""

/-- Where a fork's name comes from: an `As(...)`, or its destination. -/
inductive ForkName where
  | explicit (name : String)
  | derived (name : String)
  deriving DecidableEq

def ForkName.base : ForkName → String
  | .explicit name | .derived name => name

def lastName : Option String :=
  nodes.reverse.findSome? fun id =>
    if g.isName id ∧ (g.node id).opName ≠ "" then some (g.node id).opName else none

variable (req : Request)

def destinationName (leaf : StreamPath) : String :=
  match leaf.dests with
  | [] => ""
  | dest :: _ => trimExt (req.labels.getD (req.graph.node dest).output "")

def forkName (leaf : StreamPath) : ForkName :=
  match lastName req.graph leaf.nodes with
  | some name => .explicit name
  | none =>
    let name := destinationName req leaf
    .derived (if name = "" then "branch" else name)

/-- The names of forks so far, how often each was asked for, and which were explicit. -/
structure StreamBranchNames where
  counts : String → ℕ := fun _ => 0
  explicit : String → Bool := fun _ => false
  err : Option String := none

def StreamBranchNames.next (n : StreamBranchNames) (fork : ForkName) : String × StreamBranchNames :=
  let name := fork.base
  let n :=
    match fork with
    | .explicit _ =>
      { n with
        err := if n.explicit name then n.err <|> some name else n.err
        explicit := Function.update n.explicit name true }
    | .derived _ => n
  let count := n.counts name + 1
  (if count > 1 && !n.explicit name then numbered name count else name,
    { n with counts := Function.update n.counts name count })

def StreamBranchNames.nextAll (n : StreamBranchNames) :
    List ForkName → List String × StreamBranchNames
  | [] => ([], n)
  | fork :: rest =>
    let (name, n) := n.next fork
    let (names, n) := n.nextAll rest
    (name :: names, n)

def loneNames (taken : List String) : List String → List String
  | [] => []
  | base :: rest =>
    let name := firstFree taken base taken.length 2 base
    name :: loneNames (name :: taken) rest

/-! ### Branches -/

structure DerivedBranch where
  root : ℕ
  leaf : StreamPath
  name : String
  named : Bool
  lone : Bool

inductive DeriveError where
  | copiesEveryStream
  | anchored (root : ℕ)
  | duplicateName (name : String)

def streamPaths : List StreamPath :=
  (req.outputs.filter fun out => (req.graph.node out.source).kind ≠ .input).map fun out =>
    { nodes := req.graph.path out.source, dests := out.dests }

def pathRoots : List ℕ := (paths.map fun path => path.nodes.headD 0).eraseDups

variable (root : ℕ)

def rootLeaves : List StreamPath :=
  groupLeaves req.graph ((streamPaths req).filter fun path => path.nodes.headD 0 = root)

def isLone : Bool :=
  match rootLeaves req root with
  | [leaf] => !req.graph.hasOp leaf.nodes.tail .buffer && !req.graph.hasOp leaf.nodes.tail .name
  | _ => false

def branchRoots : List ℕ :=
  (pathRoots (streamPaths req)).filter fun root => (req.graph.node root).kind ≠ .rule

def forkLeaves : List (ℕ × StreamPath) :=
  ((branchRoots req).filter fun root => !isLone req root).flatMap fun root =>
    (rootLeaves req root).map fun leaf => (root, leaf)

def loneRoots : List ℕ := (branchRoots req).filter (isLone req)

def rootName : String :=
  match req.joinNames root with
  | some name => name
  | none =>
    match (req.graph.node root).select.type with
    | .video => "video"
    | .audio => "audio"
    | _ => "stream"

/-- What each fork is to be named. -/
def forkNames : List ForkName := (forkLeaves req).map fun (_, leaf) => forkName req leaf

def forkBranch (fork : ℕ × StreamPath) (name : String) : DerivedBranch :=
  { root := fork.1, leaf := fork.2, name, named := true, lone := false }

def loneBranch (name : String) : DerivedBranch :=
  { root, leaf := (rootLeaves req root).headD { nodes := [], dests := [] }, name
    named := false, lone := true }

def deriveBranches : Except DeriveError (List DerivedBranch) :=
  if streamPaths req ≠ [] ∧ ∃ out ∈ req.outputs, (req.graph.node out.source).kind = .input then
    .error .copiesEveryStream
  else
    match (pathRoots (streamPaths req)).find? fun root => (req.graph.node root).kind = .anchor with
    | some root => .error (.anchored root)
    | none =>
      let (names, state) := ({} : StreamBranchNames).nextAll (forkNames req)
      match state.err with
      | some name => .error (.duplicateName name)
      | none =>
        .ok (List.zipWith forkBranch (forkLeaves req) names ++ List.zipWith (loneBranch req) (loneRoots req)
            (loneNames names ((loneRoots req).map (rootName req))))

end Goav.Compile
