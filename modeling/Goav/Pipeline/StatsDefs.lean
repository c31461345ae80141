import Mathlib.Data.Fin.VecNotation
import Goav.Pipeline.DropDefs
import Goav.Pipeline.TopologyDefs

/-!
The counters of a graph (`stats.go`) over its topology. A node's counters, and what its component has
reported, are found by its number, and are unbounded. A reason map without an entry is zero there.
-/

namespace Goav.Pipeline

open Goav.Av

def dropStale : DropPolicy := .other "stale"
def dropOverflow : DropPolicy := .other "overflow"
def dropSync : DropPolicy := .other "sync"
def dropFlush : DropPolicy := .other "flush"
def dropObserver : DropPolicy := .other "observer"

/-! ### Drops by reason -/

def dropReasons : Fin 11 → DropPolicy :=
  ![.never, .oldest, .newest, .untilSync, .nonKeyVideo, .block, dropStale, dropOverflow, dropSync,
    dropFlush, dropObserver]

def dropReasonSlot (policy : DropPolicy) : Option (Fin 11) :=
  if policy = .never then some 0
  else if policy = .oldest then some 1
  else if policy = .newest then some 2
  else if policy = .untilSync then some 3
  else if policy = .nonKeyVideo then some 4
  else if policy = .block then some 5
  else if policy = dropStale then some 6
  else if policy = dropOverflow then some 7
  else if policy = dropSync then some 8
  else if policy = dropFlush then some 9
  else if policy = dropObserver then some 10
  else none

/-- The drops, by known reason, and a map for others. -/
structure DropCounts where
  known : Fin 11 → ℕ := fun _ => 0
  other : DropPolicy → ℕ := fun _ => 0

namespace DropCounts

def addTo (d : DropCounts) (reasons : DropPolicy → ℕ) : DropPolicy → ℕ :=
  let reasons := (List.finRange 11).foldl (fun reasons i =>
    if 0 < d.known i then
      Function.update reasons (dropReasons i) (reasons (dropReasons i) + d.known i)
    else reasons) reasons
  fun policy => reasons policy + d.other policy

def recordDrop (d : DropCounts) (policy : DropPolicy) : DropCounts :=
  let policy := if policy = .unset then .never else policy
  match dropReasonSlot policy with
  | some i => { d with known := Function.update d.known i (d.known i + 1) }
  | none => { d with other := Function.update d.other policy (d.other policy + 1) }

end DropCounts

/-! ### The counters of a node -/

structure NodeCounters where
  inMessages : ℕ := 0
  inPackets : ℕ := 0
  inFrames : ℕ := 0
  inEvents : ℕ := 0
  outMessages : ℕ := 0
  outPackets : ℕ := 0
  outFrames : ℕ := 0
  outEvents : ℕ := 0
  dropped : ℕ := 0
  drops : DropCounts := {}
  lastEvent : Option Event := none

structure ColdStats where
  eventsByType : EventType → ℕ := fun _ => 0
  drops : DropCounts := {}
  lastEvent : Option Event := none

variable (n : NodeCounters)

def observeOut (msg : Message) (cold : ColdStats) : NodeCounters × ColdStats :=
  let n := { n with outMessages := n.outMessages + 1 }
  match msg with
  | .packet (some _) => ({ n with outPackets := n.outPackets + 1 }, cold)
  | .frame (some _) => ({ n with outFrames := n.outFrames + 1 }, cold)
  | .event (some event) =>
    ({ n with outEvents := n.outEvents + 1, lastEvent := some event },
      { cold with
        eventsByType := Function.update cold.eventsByType event.type (cold.eventsByType event.type + 1)
        lastEvent := some event })
  | .packet none | .frame none | .event none => (n, cold)

def observeIn (msg : Message) : NodeCounters :=
  let n := { n with inMessages := n.inMessages + 1 }
  match msg with
  | .packet (some _) => { n with inPackets := n.inPackets + 1 }
  | .frame (some _) => { n with inFrames := n.inFrames + 1 }
  | .event (some event) => { n with inEvents := n.inEvents + 1, lastEvent := some event }
  | .packet none | .frame none | .event none => n

def NodeCounters.observeDrop (policy : DropPolicy) : NodeCounters :=
  { n with dropped := n.dropped + 1, drops := n.drops.recordDrop policy }

/-! ### Snapshots -/

structure NodeStats where
  inMessages : ℕ
  inPackets : ℕ
  inFrames : ℕ
  inEvents : ℕ
  outMessages : ℕ
  outPackets : ℕ
  outFrames : ℕ
  outEvents : ℕ
  dropped : ℕ
  dropReasons : DropPolicy → ℕ
  lastEvent : Option Event

structure GraphStats where
  pendingCleanup : ℕ := 0
  messages : ℕ := 0
  packets : ℕ := 0
  frames : ℕ := 0
  events : ℕ := 0
  eventsByType : EventType → ℕ := fun _ => 0
  dropped : ℕ := 0
  dropReasons : DropPolicy → ℕ := fun _ => 0
  delivered : ℕ := 0
  lastEvent : Option Event := none
  nodes : List (String × NodeStats) := []

def NodeCounters.snapshotLocked : NodeStats where
  inMessages := n.inMessages
  inPackets := n.inPackets
  inFrames := n.inFrames
  inEvents := n.inEvents
  outMessages := n.outMessages
  outPackets := n.outPackets
  outFrames := n.outFrames
  outEvents := n.outEvents
  dropped := n.dropped
  dropReasons := n.drops.addTo fun _ => 0
  lastEvent := n.lastEvent

def NodeStats.report (ns : NodeStats) (reported : ℕ) : NodeStats :=
  if 0 < reported then
    { ns with
      dropped := ns.dropped + reported
      dropReasons := Function.update ns.dropReasons dropSync (ns.dropReasons dropSync + reported) }
  else ns

/-- The name (empty if not listed), the counters and the component's report. -/
structure StatsEntry where
  name : String
  counters : NodeCounters
  reported : ℕ

def GraphStats.addNode (stats : GraphStats) (entry : StatsEntry) : GraphStats :=
  let own := entry.counters.snapshotLocked
  let ns := own.report entry.reported
  -- the reasons are added apart from the reported drops, as the source does
  let reasons := fun policy => stats.dropReasons policy + own.dropReasons policy
  let reasons :=
    if 0 < entry.reported then
      Function.update reasons dropSync (reasons dropSync + entry.reported)
    else reasons
  { stats with
    dropReasons := reasons
    messages := stats.messages + ns.outMessages
    packets := stats.packets + ns.outPackets
    frames := stats.frames + ns.outFrames
    events := stats.events + ns.outEvents
    delivered := stats.delivered + ns.inMessages
    dropped := stats.dropped + ns.dropped
    nodes := if entry.name = "" then stats.nodes else stats.nodes ++ [(entry.name, ns)] }

def snapshotStats (cold : ColdStats) (entries : List StatsEntry) : GraphStats :=
  entries.foldl GraphStats.addNode {
    eventsByType := cold.eventsByType
    dropReasons := cold.drops.addTo fun _ => 0
    lastEvent := cold.lastEvent }

structure RetiredCounts where
  counters : NodeCounters := {}
  reported : ℕ := 0

def RetiredCounts.fold (r : RetiredCounts) (c : NodeCounters) (reported : ℕ) : RetiredCounts where
  counters := { r.counters with
    inMessages := r.counters.inMessages + c.inMessages
    inPackets := r.counters.inPackets + c.inPackets
    inFrames := r.counters.inFrames + c.inFrames
    inEvents := r.counters.inEvents + c.inEvents
    outMessages := r.counters.outMessages + c.outMessages
    outPackets := r.counters.outPackets + c.outPackets
    outFrames := r.counters.outFrames + c.outFrames
    outEvents := r.counters.outEvents + c.outEvents
    dropped := r.counters.dropped + c.dropped
    drops := {
      known := fun i => r.counters.drops.known i + c.drops.known i
      other := fun policy => r.counters.drops.other policy + c.drops.other policy } }
  reported := r.reported + reported

/-! ### The graph -/

/-- A topology with its counters. -/
structure Metered where
  topology : Topology
  counters : ℕ → NodeCounters := fun _ => {}
  reporter : ℕ → ℕ := fun _ => 0
  retired : RetiredCounts := {}
  cold : ColdStats := {}
  /-- Ghost: how many events of the graph's own found the observer stream full. -/
  unseen : ℕ := 0
  waiting : ℕ := 0
  capacity : ℕ
  eventsClosed : Bool := false
  deferred : ℕ → Bool := fun _ => false
  closeFailed : ℕ → Bool := fun _ => false
  cleanupReported : ℕ → Bool := fun _ => false

namespace Metered

variable (s : Metered)

def stats : GraphStats :=
  let entries := s.topology.nodes.map fun n =>
    { name := if n.active then n.name else "", counters := s.counters n.id, reported := s.reporter n.id }
  let retired := { name := "", counters := s.retired.counters, reported := s.retired.reported }
  { snapshotStats s.cold (entries ++ [retired]) with
    pendingCleanup := s.topology.nodes.countP fun n => n.retiring && n.index.isSome }

variable (id : ℕ)

/-- The counts of a node, whatever became of it. -/
def finalStats : NodeStats :=
  (s.counters id).snapshotLocked.report (s.reporter id)

def observeDrop (s : Metered) (node : Option ℕ) (policy : DropPolicy) : Metered :=
  match node with
  | some id => { s with counters := Function.update s.counters id ((s.counters id).observeDrop policy) }
  | none => { s with cold := { s.cold with drops := s.cold.drops.recordDrop policy } }

/-- An event for the observer stream, of a node or of the graph itself. -/
def observe (node : Option ℕ) : Metered :=
  if s.eventsClosed then s
  else if s.waiting < s.capacity then { s with waiting := s.waiting + 1 }
  else
    let s := { s with unseen := if node = none then s.unseen + 1 else s.unseen }
    s.observeDrop node dropObserver

def emit (msg : Message) : Metered :=
  let (n, cold) := observeOut (s.counters id) msg s.cold
  let s := { s with counters := Function.update s.counters id n, cold }
  match msg with
  | .event (some _) => s.observe (some id)
  | _ => s

def rememberDeferredLocked (finalized : Bool) : Metered :=
  if s.deferred id && finalized && !s.cleanupReported id && s.closeFailed id then
    { s with cleanupReported := Function.update s.cleanupReported id true }.observe none
  else s

/-- A new node; if it gets the index of a removed one, that one joins the retired counts. -/
def add (s : Metered) (name : String) (kind : NodeKind) (admitter : Bool) (reported : ℕ) : Metered :=
  match s.topology.add name kind admitter with
  | .error _ => s
  | .ok t =>
    let retired :=
      match s.topology.reusable.getLast?.bind fun i => s.topology.nodes[i]? with
      | some old => s.retired.fold (s.counters old.id) (s.reporter old.id)
      | none => s.retired
    { s with
      topology := t, retired
      counters := Function.update s.counters t.nextNodeID {}
      reporter := Function.update s.reporter t.nextNodeID reported }

/-- `finalize` of the node at an index: its component was closed, with an error or without. -/
def finalize (s : Metered) (index : ℕ) (failed : Bool) : Metered :=
  match s.topology.nodes[index]? with
  | none => s
  | some n =>
    if n.finalized ∨ n.retiring = false then s
    else
      { s with
        topology := s.topology.finalize index
        closeFailed := Function.update s.closeFailed n.id failed }.rememberDeferredLocked n.id true

def reap (index : ℕ) : Metered :=
  match s.topology.nodes[index]? with
  | none => s
  | some n =>
    { s with deferred := Function.update s.deferred n.id true }.rememberDeferredLocked n.id n.finalized

def retireFaultDomain (s : Metered) (d : ℕ) : Metered :=
  { s with
    topology := s.topology.retireFaultDomain d
    deferred := fun id => s.deferred id ||
      s.topology.nodes.any fun n => decide (n.id = id) && Topology.retires d n }

inductive Action where
  | addSource (name : String) (reported : ℕ)
  | addStage (name : String) (admitter : Bool) (reported : ℕ)
  | addSink (name : String) (reported : ℕ)
  | connect (route : Route)
  | disconnect (route : Route)
  | remove (ref : String)
  | retireLocked (index : ℕ)
  | reap (index : ℕ)
  | finalize (index : ℕ) (failed : Bool)
  | isolateFaults (id : String) (members : List String)
  | retireFaultDomain (d : ℕ)
  | run | drain | stop | close
  | emit (id : ℕ) (msg : Message)
  | deliver (id : ℕ) (msg : Message)
  | drop (id : ℕ) (policy : DropPolicy)
  | report (id : ℕ) (count : ℕ)
  | observe
  | receive
  | closeEvents

def act (s : Metered) : Action → Metered
  | .addSource name reported => s.add name .source false reported
  | .addStage name admitter reported => s.add name .stage admitter reported
  | .addSink name reported => s.add name .sink false reported
  | .connect route => { s with topology := s.topology.act (.connect route) }
  | .disconnect route => { s with topology := s.topology.act (.disconnect route) }
  | .remove ref => { s with topology := s.topology.act (.remove ref) }
  | .retireLocked index => { s with topology := s.topology.retireLocked index }
  | .reap index => s.reap index
  | .finalize index failed => s.finalize index failed
  | .isolateFaults id members => { s with topology := s.topology.act (.isolateFaults id members) }
  | .retireFaultDomain d => s.retireFaultDomain d
  | .run => { s with topology := s.topology.run }
  | .drain => { s with topology := s.topology.drain }
  | .stop => { s with topology := s.topology.stop }
  | .close => { s with topology := s.topology.close }
  | .emit id msg => s.emit id msg
  | .deliver id msg =>
    { s with counters := Function.update s.counters id (observeIn (s.counters id) msg) }
  | .drop id policy => s.observeDrop (some id) policy
  | .report id count => { s with reporter := Function.update s.reporter id (s.reporter id + count) }
  | .observe => s.observe none
  | .receive => { s with waiting := s.waiting - 1 }
  | .closeEvents => { s with eventsClosed := true }

def live : Bool := s.topology.nodes.any fun n => n.id == id && !n.finalized

def allowed : Action → Bool
  | .emit id _ | .deliver id _ | .drop id _ | .report id _ => s.live id
  | _ => true

end Metered

end Goav.Pipeline
