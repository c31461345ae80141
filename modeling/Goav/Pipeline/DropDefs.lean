import Mathlib.Algebra.Order.Ring.Int
import Goav.Pipeline.Message

/-!
The drop policy of a node's queue (`drop.go`) and the enqueue (`buffered.go`), one at a time; the worker
may take a message in between. A slot is queued, in delivery, bound or free. A message that is shed
before it gets to the queue is the action `refuse`. The queue, which is what the ring is, holds positions
in the list of all messages.
-/

namespace Goav.Pipeline

open Goav.Av

/-- Why a message is shed; `other` are the constants that are reasons only. -/
inductive DropPolicy where
  | unset | never | oldest | newest | untilSync | nonKeyVideo | block
  | other (name : String)
  deriving DecidableEq

structure BufferPolicy where
  capacity : ℤ
  drop : DropPolicy

def normalizeBufferedPolicy (policy : BufferPolicy) : BufferPolicy :=
  { capacity := if policy.capacity < 1 then 1 else policy.capacity
    drop := if policy.drop = .unset then .never else policy.drop }

inductive BufferAction where
  | bufferAdmit | bufferDropIncoming | bufferDropOldest | bufferBackpressure | bufferBlock
  deriving DecidableEq

/-! ### Messages -/

def packetMediaType (packet : Packet) : MediaType :=
  if packet.type ≠ .unknown then packet.type else packet.metadataType

def eventIsSync (event : Event) : Bool :=
  match event.type with
  | .codecChanged | .discontinuity | .endOfStream => true
  | _ => false

def messageIsSync : Message → Bool
  | .packet none | .frame none | .event none => false
  | .packet (some packet) => packet.keyframe || packetMediaType packet == .audio
  | .frame (some frame) => frame.type != .video
  | .event (some event) => eventIsSync event

def messageIsNonKeyVideo : Message → Bool
  | .packet none | .frame none | .event _ => false
  | .packet (some packet) => !packet.keyframe && packetMediaType packet == .video
  | .frame (some frame) => frame.type == .video

/-! ### The controller -/

structure DropController where
  policy : BufferPolicy
  droppingUntilSync : Bool := false

def DropController.decide (c : DropController) (full : Bool) (msg : Message) :
    DropController × BufferAction :=
  if c.policy.capacity ≤ 0 then (c, .bufferAdmit)
  else if c.droppingUntilSync then
    if messageIsSync msg then
      ({ c with droppingUntilSync := false }, if full then .bufferDropOldest else .bufferAdmit)
    else (c, .bufferDropIncoming)
  else if !full then (c, .bufferAdmit)
  else
    match c.policy.drop with
    | .block => (c, .bufferBlock)
    | .oldest => (c, .bufferDropOldest)
    | .newest => (c, .bufferDropIncoming)
    | .untilSync =>
      if messageIsSync msg then (c, .bufferDropOldest)
      else ({ c with droppingUntilSync := true }, .bufferDropIncoming)
    | .nonKeyVideo =>
      (c, if messageIsNonKeyVideo msg then .bufferDropIncoming else .bufferBackpressure)
    | .unset | .never | .other _ => (c, .bufferBackpressure)

/-! ### The node -/

inductive Enqueue where
  | idle
  | looking (i : ℕ)
  | acting (i : ℕ) (action : BufferAction)
  deriving DecidableEq

structure DropNode where
  drop : DropController
  queue : List ℕ := []
  enqueue : Enqueue := .idle
  /-- The enqueue has bound a slot to its message. -/
  bound : Bool := false
  /-- The worker is delivering what it took last. -/
  delivering : Bool := false
  /-- Ghost: everything that was offered to the node. -/
  offered : List Message := []
  /-- Ghost: what the worker took, in order. -/
  taken : List ℕ := []

def openQueue (policy : BufferPolicy) : DropNode :=
  { drop := { policy := normalizeBufferedPolicy policy } }

inductive DropAction where
  /-- A message is offered and shed before it gets to the queue. -/
  | refuse (msg : Message)
  | offer (msg : Message)
  | next
  | take
  | release

namespace DropNode

variable (n : DropNode)

def full : Bool := decide (n.drop.policy.capacity ≤ n.queue.length)

def free : ℤ :=
  n.drop.policy.capacity + 1 - n.queue.length - n.bound.toNat - n.delivering.toNat

/-- The next step of the enqueue. -/
def next : Option DropNode :=
  match n.enqueue with
  | .idle => none
  | .looking i =>
    n.offered[i]?.map fun msg =>
      { n with drop := (n.drop.decide n.full msg).1
               enqueue := .acting i (n.drop.decide n.full msg).2 }
  | .acting i .bufferAdmit =>
    -- without a slot it is refused, and a push that finds no room decides again
    if !n.bound && n.free ≤ 0 then some { n with enqueue := .idle }
    else if n.full then some { n with enqueue := .looking i, bound := true }
    else some { n with queue := n.queue ++ [i], enqueue := .idle, bound := false }
  | .acting i .bufferDropOldest =>
    -- an empty queue is looked at again
    some { n with queue := n.queue.tail, enqueue := .looking i }
  | .acting _ .bufferDropIncoming | .acting _ .bufferBackpressure | .acting _ .bufferBlock =>
    some { n with enqueue := .idle, bound := false }

def act : DropAction → Option DropNode
  | .refuse msg => if n.enqueue = .idle then some { n with offered := n.offered ++ [msg] } else none
  | .offer msg =>
    if n.enqueue = .idle then
      some { n with offered := n.offered ++ [msg], enqueue := .looking n.offered.length }
    else none
  | .next => n.next
  | .take =>
    match n.delivering, n.queue with
    | false, i :: queue => some { n with queue, taken := n.taken ++ [i], delivering := true }
    | _, _ => none
  | .release => if n.delivering then some { n with delivering := false } else none

end DropNode

end Goav.Pipeline
