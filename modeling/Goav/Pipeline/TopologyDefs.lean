import Goav.Lib.Except
import Goav.Pipeline.Message

/-!
The topology that both runners share (`topology.go`, `fault_domain.go`): the table of nodes, the routes,
which hold indices into it, and the snapshot. A change is what the source does under `topology.mu` in one
go; a removal is three. A node has a number, also where its index is reused. Ghost are the number and
name that a route was connected to, and the members of a domain. What closing nodes returns is left out.
-/

namespace Goav.Pipeline

open Goav.Lib

/-- A route policy; `other` is one that the graph does not know. -/
inductive RoutePolicy where
  | unset | all | byStream | byEvent
  | other (name : String)
  deriving DecidableEq

/-- One edge declaration: messages leaving `origin` reach every node in `destinations`. -/
structure Route where
  origin : String
  destinations : List String
  policy : RoutePolicy := .unset
  label : String := ""

inductive TopologyError where
  | closed | dynamicGraphUnsupported | invalidLink | nodeExists | unsupportedRoute
  | unknownNode (detail : String := "")
  | unsafeFaultDomain (detail : String := "")
  deriving DecidableEq

structure Target where
  index : ℕ
  /-- Ghost: the number of the node that the route was connected to. -/
  id : ℕ
  /-- Ghost: the name it was connected by. -/
  name : String
  deriving DecidableEq

structure NodeRoute where
  destinations : List Target
  policy : RoutePolicy
  label : String
  deriving DecidableEq

structure GraphNode where
  name : String
  kind : NodeKind
  admitter : Bool
  id : ℕ
  /-- The place in the table; `none` once it is given back. -/
  index : Option ℕ
  active : Bool := true
  retiring : Bool := false
  finalized : Bool := false
  opened : Bool := false
  routes : List NodeRoute := []
  domain : Option ℕ := none

/-- A node in a routing snapshot: the pointer, by its number and name, and copies of the rest. -/
structure SnapshotNode where
  id : ℕ
  name : String
  active : Bool
  routes : List NodeRoute

structure FaultDomain where
  id : String
  members : List String
  remaining : ℤ
  /-- How often `done` was closed. -/
  closes : ℕ := 0
  /-- Ghost: the numbers of the members. -/
  memberIDs : List ℕ

inductive Runner where
  | direct | buffered
  deriving DecidableEq

structure Topology where
  runner : Runner
  running : Bool := false
  draining : Bool := false
  closed : Bool := false
  index : String → Option ℕ := fun _ => none
  nodes : List GraphNode := []
  sources : List ℕ := []
  reusable : List ℕ := []
  domains : List ℕ := []
  nextNodeID : ℕ := 0
  snap : Option (List SnapshotNode) := none
  allDomains : List FaultDomain := []
  /-- Ghost: the numbers of the nodes that are finalized, in order. -/
  finalizedIDs : List ℕ := []

/-! ### Nodes and routes -/

def normalizeRoutePolicy : RoutePolicy → Except TopologyError RoutePolicy
  | .unset | .all => .ok .all
  | .byStream => .ok .byStream
  | .byEvent => .ok .byEvent
  | .other _ => .error .unsupportedRoute

def dropTargets (dropped : ℕ → Bool) (routes : List NodeRoute) : List NodeRoute :=
  routes.filterMap fun route =>
    let destinations := route.destinations.filter fun target => !dropped target.index
    if destinations.isEmpty then none else some { route with destinations }

namespace GraphNode

variable (n : GraphNode)

def targets : List Target := n.routes.flatMap NodeRoute.destinations

def snapshot : SnapshotNode :=
  { id := n.id, name := n.name, active := n.active, routes := n.routes }

def retired : GraphNode := { n with active := false, routes := [] }

end GraphNode

def FaultDomain.memberFinalized (d : FaultDomain) : FaultDomain × Bool :=
  let remaining := d.remaining - 1
  if remaining ≠ 0 then ({ d with remaining }, false)
  else ({ d with remaining, closes := d.closes + 1 }, true)

inductive WaitResult where
  | finished | contextError

/-- What `Wait` may return: the select takes any ready channel. -/
def FaultDomain.wait (d : FaultDomain) (ctxDone : Bool) : List WaitResult :=
  (if 0 < d.closes then [.finished] else []) ++ (if ctxDone then [.contextError] else [])

namespace Topology

variable (t : Topology)

def rebuildLocked : Topology :=
  { t with snap := if t.closed then none else some (t.nodes.map GraphNode.snapshot) }

def mutable (source : Bool) : Except TopologyError Unit :=
  match t.runner with
  | .direct => .ok ()
  | .buffered =>
    if t.running && (source || t.draining) then .error .dynamicGraphUnsupported else .ok ()

variable (name : String)

def find : Option (ℕ × GraphNode) :=
  (t.index name).bind fun i => t.nodes[i]?.map fun n => (i, n)

def findActive : Except TopologyError (ℕ × GraphNode) :=
  match t.find name with
  | some (i, n) => if n.active then .ok (i, n) else .error .unknownNode
  | none => .error .unknownNode

/-! ### Adding nodes -/

def install (n : ℕ → GraphNode) : Topology :=
  match t.reusable.getLast? with
  | some i => { t with nodes := t.nodes.set i (n i), reusable := t.reusable.dropLast }
  | none => { t with nodes := t.nodes ++ [n t.nodes.length] }

def add (kind : NodeKind) (admitter : Bool) :
    Except TopologyError Topology := do
  require (t.closed = false) .closed
  t.mutable (kind == .source)
  require (name ≠ "") .unknownNode
  require (t.index name = none) .nodeExists
  let index := t.reusable.getLast?.getD t.nodes.length
  let t' := t.install fun i =>
    { name, kind, admitter, id := t.nextNodeID + 1, index := some i
      opened := t.runner = .buffered && t.running && kind != .source }
  return rebuildLocked
    { t' with nextNodeID := t.nextNodeID + 1
              index := Function.update t.index name (some index)
              sources := if kind = .source then t.sources ++ [index] else t.sources }

def addSource : Except TopologyError Topology :=
  t.add name .source false

def addStage (admitter : Bool) : Except TopologyError Topology :=
  t.add name .stage admitter

def addSink : Except TopologyError Topology :=
  t.add name .sink false

/-! ### Routes -/

def destination (src : GraphNode) (name : String) : Except TopologyError Target := do
  let (index, dst) ← t.findActive name
  require (dst.kind ≠ .source) .invalidLink
  require (¬ (src.domain ≠ none ∧ src.domain ≠ dst.domain ∨
      (src.domain ≠ none ∨ dst.domain ≠ none) ∧ (src.admitter = true ∨ dst.admitter = true)))
    .unsafeFaultDomain
  return { index, id := dst.id, name }

def connect (route : Route) : Except TopologyError Topology := do
  require (route.destinations ≠ []) .invalidLink
  let policy ← normalizeRoutePolicy route.policy
  t.mutable false
  let (origin, src) ← t.findActive route.origin
  require (src.kind ≠ .sink) .invalidLink
  let destinations ← route.destinations.mapM (t.destination src)
  return rebuildLocked { t with nodes := t.nodes.modify origin fun n =>
        { n with routes := n.routes ++ [{ destinations, policy, label := route.label }] } }

def indexOf : Except TopologyError ℕ :=
  match t.index name with
  | some i => .ok i
  | none => .error .unknownNode

def disconnectRoutes (policy : RoutePolicy) (label : String) (destinations : List ℕ)
    (routes : List NodeRoute) : List NodeRoute × Bool :=
  (routes.flatMap fun route =>
      if route.policy ≠ policy ∨ route.label ≠ label then [route]
      else dropTargets destinations.contains [route],
    routes.any fun route => decide (route.policy = policy ∧ route.label = label) &&
      route.destinations.any fun target => destinations.contains target.index)

def disconnect (route : Route) : Except TopologyError Topology := do
  require (route.destinations ≠ []) .invalidLink
  let policy ← normalizeRoutePolicy route.policy
  t.mutable false
  let (origin, src) ← t.findActive route.origin
  let destinations ← route.destinations.mapM t.indexOf
  let (routes, removed) := disconnectRoutes policy route.label destinations src.routes
  require (removed = true) .invalidLink
  return rebuildLocked { t with nodes := t.nodes.modify origin fun n => { n with routes } }

/-! ### Removing nodes -/

/-- The front half of a removal: the node is out of the names, and no route leads to it. -/
def detachLocked (ref : String) : Except TopologyError (ℕ × GraphNode × Topology) := do
  require (t.closed = false) .closed
  t.mutable false
  let (index, n) ← t.findActive ref
  require (n.kind ≠ .source) .invalidLink
  return (index, n, { t with
      index := Function.update t.index ref none
      nodes := (t.nodes.modify index fun n => { n with retiring := true }).map fun n =>
        if n.active then { n with routes := dropTargets (· == index) n.routes } else n })

/-- `Remove`, up to its first wait. A buffered node with an open queue stays active while it drains. -/
def remove (ref : String) : Except TopologyError Topology := do
  let (index, n, t) ← t.detachLocked ref
  return rebuildLocked (if t.runner = .buffered ∧ t.running = true ∧ n.opened = true then t
    else { t with nodes := t.nodes.modify index GraphNode.retired })

/-- The removal of a buffered node goes on after its drain, or when the wait for it ended. -/
def retireLocked (index : ℕ) : Topology :=
  match t.nodes[index]? with
  | some n =>
    if n.retiring ∧ n.finalized = false then
      rebuildLocked { t with nodes := t.nodes.modify index GraphNode.retired }
    else t
  | none => t

/-- The index of a removed node is reusable once nothing can deliver into it. -/
def reclaimLocked (n : GraphNode) : Topology × GraphNode :=
  match n.index with
  | none => (t, n)
  | some i =>
    if n.active = true ∨ t.nodes[i]?.map GraphNode.id ≠ some n.id then (t, n)
    else ({ t with reusable := t.reusable ++ [i] }, { n with index := none })

def finalizeMember (domain : Option ℕ) : Topology :=
  match domain with
  | none => t
  | some d =>
    { t with
      allDomains := t.allDomains.modify d fun domain => domain.memberFinalized.1
      domains :=
        if (t.allDomains[d]?.map fun domain => domain.memberFinalized.2) = some true then
          t.domains.erase d
        else t.domains }

/-- `finalize` of the node at an index, once; every caller has taken the node out of the graph. -/
def finalize (index : ℕ) : Topology :=
  match t.nodes[index]? with
  | none => t
  | some n =>
    if n.finalized ∨ n.retiring = false then t
    else
      let n := { n.retired with finalized := true }
      let (t, n) := (t.finalizeMember n.domain).reclaimLocked n
      { t with nodes := t.nodes.set index n, finalizedIDs := t.finalizedIDs ++ [n.id] }

/-! ### Fault domains -/

def memberIndex (set : List ℕ) (ref : String) : Except TopologyError ℕ :=
  match t.find ref with
  | none => .error (.unknownNode ref)
  | some (i, b) =>
    if b.active = false ∨ b.kind = .source ∨ b.admitter = true ∨ b.domain ≠ none ∨ i ∈ set then
      .error (.unsafeFaultDomain ref)
    else .ok i

def memberIndices (members : List String) : Except TopologyError (List ℕ) :=
  members.foldlM (fun set ref => (t.memberIndex set ref).map fun i => set ++ [i]) []

/-- Whether a route leads out of the set, or to or from an admitter across its border or inside. -/
def unsafeSet (set : List ℕ) : Bool :=
  t.nodes.zipIdx.any fun (n, i) => n.targets.any fun target =>
    decide (i ∈ set ∧ target.index ∉ set ∨ (i ∈ set ∨ target.index ∈ set) ∧
      (n.admitter = true ∨ t.nodes[target.index]?.any GraphNode.admitter))

def isolateFaults (id : String) (members : List String) :
    Except TopologyError Topology := do
  require (t.closed = false) .closed
  require (id ≠ "" ∧ members ≠ []) .unsafeFaultDomain
  require (∀ d ∈ t.domains, (t.allDomains[d]?.map FaultDomain.id) ≠ some id)
    (.unsafeFaultDomain ("duplicate domain " ++ id.quote))
  let set ← t.memberIndices members
  require (t.unsafeSet set = false) .unsafeFaultDomain
  let d := t.allDomains.length
  return { t with
    allDomains := t.allDomains ++
      [{ id, members, remaining := members.length
         memberIDs := set.filterMap fun i => t.nodes[i]?.map GraphNode.id }]
    domains := t.domains ++ [d]
    nodes := t.nodes.mapIdx fun i n => if i ∈ set then { n with domain := some d } else n }

def retires (d : ℕ) (b : GraphNode) : Bool :=
  decide (b.domain = some d) && !b.retiring && !b.finalized && b.index.isSome

def retireMember (d : ℕ) (left : ℕ → Bool) (b : GraphNode) : GraphNode :=
  if retires d b then { b.retired with retiring := true }
  else { b with routes := dropTargets left b.routes }

/-- `retireFaultDomain` up to its waits: the members leave the graph at once. -/
def retireFaultDomain (d : ℕ) : Topology :=
  let set (i : ℕ) : Bool := t.nodes[i]?.any (retires d)
  rebuildLocked { t with
      index := fun name => (t.index name).filter fun i =>
        !(set i && decide (t.nodes[i]?.map GraphNode.name = some name))
      nodes := t.nodes.map (retireMember d set) }

/-! ### Runs and shutdown -/

def run : Topology :=
  if t.closed ∨ t.runner = .direct then t
  else
    rebuildLocked { t with
        running := true, draining := false
        nodes := t.nodes.map fun n =>
          if n.active && n.kind != .source then { n with opened := true } else n }

def drain : Topology := { t with draining := true }

def stop : Topology := { t with running := false, draining := false }

def close : Topology :=
  { t with
    closed := true, snap := none
    nodes := t.nodes.map fun n =>
      if n.index.isSome then { n with active := false, retiring := true } else n }

/-! ### Histories -/

inductive Action where
  | addSource (name : String)
  | addStage (name : String) (admitter : Bool)
  | addSink (name : String)
  | connect (route : Route)
  | disconnect (route : Route)
  | remove (ref : String)
  | retireLocked (index : ℕ)
  | finalize (index : ℕ)
  | isolateFaults (id : String) (members : List String)
  | retireFaultDomain (d : ℕ)
  | run | drain | stop | close

/-- What a call makes of the topology; a call that returns an error leaves it. -/
def orElse (result : Except TopologyError Topology) : Topology :=
  match result with
  | .ok t' => t'
  | .error _ => t

def act : Action → Topology
  | .addSource name => t.orElse (t.addSource name)
  | .addStage name admitter => t.orElse (t.addStage name admitter)
  | .addSink name => t.orElse (t.addSink name)
  | .connect route => t.orElse (t.connect route)
  | .disconnect route => t.orElse (t.disconnect route)
  | .remove ref => t.orElse (t.remove ref)
  | .retireLocked index => t.retireLocked index
  | .finalize index => t.finalize index
  | .isolateFaults id members => t.orElse (t.isolateFaults id members)
  | .retireFaultDomain d => t.retireFaultDomain d
  | .run => t.run
  | .drain => t.drain
  | .stop => t.stop
  | .close => t.close

end Topology

end Goav.Pipeline
