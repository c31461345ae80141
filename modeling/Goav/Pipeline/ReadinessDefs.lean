import Goav.Lib.Threads
import Goav.Pipeline.Message

/-!
The readiness countdown behind `EventTaskReady` (`pipeline/readiness.go` and the places that touch it),
as the atomic steps of any number of threads. A note is a compare-and-swap on `sawMedia`, an addition to
the countdown and, for whoever takes it to zero, a compare-and-swap on `fired` and the publication. The
model begins where `Run` has armed the countdown. Ghost fields record who did what.
-/

namespace Goav.Pipeline

open Goav.Lib

inductive MessageKind where
  | packet | frame | event
  deriving DecidableEq

/-- In the graph, taken out while it runs (deliveries still reach it), or before the run. -/
inductive Presence where
  | present | left | gone
  deriving DecidableEq

structure Node where
  kind : NodeKind
  domain : Option ℕ := none
  presence : Presence := .present
  sawMedia : Bool := false
  /-- Ghost: the node received media, was removed or was retired since the run began. -/
  out : Bool := false
  /-- Ghost: the last thread that set out to note the node. -/
  noter : Option ℕ := none
  /-- Ghost: the thread whose compare-and-swap on `sawMedia` succeeded. -/
  taker : Option ℕ := none

structure Countdown where
  nodes : List Node := []
  remaining : ℤ := 0
  fired : Bool := false
  published : ℕ := 0
  /-- Ghost: the sinks that were active and unfed when the run began. -/
  counted : Finset ℕ := ∅
  /-- Ghost: the sinks whose note has been subtracted. -/
  subtracted : Finset ℕ := ∅
  /-- Ghost: the thread that took the countdown to zero. -/
  closer : Option ℕ := none
  /-- Ghost: the thread that won the publication. -/
  winner : Option ℕ := none

structure Graph extends Countdown where
  locked : Bool := false

def Graph.nodeIs (s : Graph) (p : Node → Bool) (i : ℕ) : Bool := s.nodes[i]?.any p

def Node.activeSink (n : Node) : Bool := n.kind = .sink && n.presence = .present

def Node.unfed (n : Node) : Bool := n.activeSink && !n.sawMedia

def Graph.unfedSinks (g : Graph) : Finset ℕ :=
  (Finset.range g.nodes.length).filter fun i => g.nodeIs Node.unfed i

/-- The sinks that a call has yet to note. `cause` is the sink that took the countdown to zero. -/
inductive Call where
  | idle
  | cas (sink : ℕ) (rest : List ℕ) (locks : Bool)
  | subtract (sink : ℕ) (rest : List ℕ) (locks : Bool)
  | claim (cause : Option ℕ) (rest : List ℕ) (locks : Bool)
  | observe (cause : Option ℕ) (rest : List ℕ) (locks : Bool)

/-- `armReadinessLocked`: `Run` publishes when there are sinks and none is unfed. -/
def arm (g : Graph) : Threads Graph Call :=
  let sinks := g.nodes.countP Node.activeSink
  let unfed := g.nodes.countP Node.unfed
  let ready := 0 < sinks && unfed = 0
  { shared :=
      { nodes := g.nodes.map fun n =>
          { n with presence := if n.presence = .present then .present else .gone,
                   out := false, noter := none, taker := none }
        remaining := unfed
        fired := g.fired
        locked := ready
        counted := g.unfedSinks
        closer := if ready then some 0 else none }
    own := fun t => if ready && t = 0 then .claim none [] true else .idle }

namespace Graph

variable (s : Graph) (p : ℕ → Node → Bool)

def change (f : Node → Node) : Graph :=
  { s with nodes := s.nodes.mapIdx fun i n => if p i n then f n else n }

def sinksWith : List ℕ :=
  (List.range s.nodes.length).filter fun i => s.nodeIs (fun n => n.kind = .sink && p i n) i

def proceed (rest : List ℕ) (locks : Bool) : Graph × Call :=
  match rest with
  | i :: rest => (s, .cas i rest locks)
  | [] => (if locks then { s with locked := false } else s, .idle)

def swapSawMedia (t i : ℕ) : Graph :=
  s.change (fun j _ => j = i) fun n => { n with sawMedia := true, taker := some t }

def subtract (i : ℕ) : Graph :=
  { s with remaining := s.remaining - 1, subtracted := insert i s.subtracted }

def takeOut (t : ℕ) (p : ℕ → Node → Bool) : Graph × Call :=
  let s' := s.change p fun n => { n with presence := .left, out := true, noter := some t }
  ({ s' with locked := true }).proceed (s.sinksWith p) true

end Graph

inductive Action where
  | add (kind : NodeKind) (domain : Option ℕ)
  | deliver (node : ℕ) (kind : MessageKind)
  | remove (node : ℕ)
  | retire (domain : ℕ)
  | next

def act (t : ℕ) (a : Action) (s : Graph) (l : Call) : Option (Graph × Call) :=
  match l, a with
  | .idle, .add kind domain =>
    if s.locked then none else some ({ s with nodes := s.nodes ++ [{ kind, domain }] }, .idle)
  | .idle, .deliver i kind =>
    if s.nodeIs (fun n => n.presence ≠ .gone) i then
      if s.nodeIs (fun n => n.kind = .sink) i && kind ≠ .event then
        -- the load of `sawMedia`, in front of the note
        if s.nodeIs (·.sawMedia) i then
          some (s.change (fun j _ => j = i) fun n => { n with out := true }, .idle)
        else
          some (s.change (fun j _ => j = i) fun n => { n with out := true, noter := some t },
            .cas i [] false)
      else some (s, .idle)
    else none
  | .idle, .remove i =>
    if s.locked || !s.nodeIs (fun n => n.presence = .present) i then none
    else some (s.takeOut t fun j _ => j = i)
  | .idle, .retire d =>
    if s.locked then none
    else some (s.takeOut t fun _ n => n.domain = some d && n.presence = .present)
  | .cas i rest locks, .next =>
    if s.nodeIs (·.sawMedia) i then some (s.proceed rest locks)
    else some (s.swapSawMedia t i, .subtract i rest locks)
  | .subtract i rest locks, .next =>
    let s := s.subtract i
    if s.remaining = 0 then some ({ s with closer := some t }, .claim (some i) rest locks)
    else some (s.proceed rest locks)
  | .claim cause rest locks, .next =>
    if s.fired then some (s.proceed rest locks)
    else some ({ s with fired := true, winner := some t }, .observe cause rest locks)
  | .observe _ rest locks, .next =>
    some (({ s with published := s.published + 1 }).proceed rest locks)
  | _, _ => none

end Goav.Pipeline
