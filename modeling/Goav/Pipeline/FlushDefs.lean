import Goav.Lib.Fifo
import Goav.Lib.Runs
import Goav.Pipeline.Message

/-!
`flushNodeQueue` of `flush.go` beside the node's worker and its producers: the flush locks the tail, pops
until nothing is claimed, pushes back what it preserved, and unlocks. The queue is the one that the ring
is (`ring_refines_fifo`). A slot has the number of its message in the order of queueing.
-/

namespace Goav.Pipeline

open Goav.Av Goav.Lib

structure Slot where
  id : ℕ
  message : Message
  deriving DecidableEq

def Slot.isEvent (slot : Slot) : Bool :=
  match slot.message with
  | .event _ => true
  | .packet _ | .frame _ => false

def Slot.isDiscontinuity (slot : Slot) : Bool :=
  match slot.message with
  | .event (some event) => event.type == .discontinuity
  | .event none | .packet _ | .frame _ => false

/-- Where the flush is; the constructors are named after the step that comes next. -/
inductive FlushCall where
  | locking
  | popping (preserved : List Slot) (keepRest : Bool)
  /-- The last pop returned nothing. -/
  | checking (preserved : List Slot) (keepRest : Bool)
  | pushing (preserved : List Slot)
  /-- The slot at the end of the queue is claimed for the one that is pushed back. -/
  | publishing (preserved : List Slot)
  | returned
  deriving DecidableEq

structure FlushNode where
  capacity : ℕ
  queue : Fifo Slot
  locked : Bool := false
  flush : FlushCall := .locking
  dropFlush : ℕ := 0
  /-- Ghost: everything that was queued, in order. -/
  queued : List Slot
  /-- Ghost: what the worker took, in order. -/
  taken : List Slot := []
  /-- Ghost: the first discontinuity in the queue when the flush locked it. -/
  mark : Option Slot := none

inductive FlushAction where
  | push (msg : Message)
  | publish (i : ℕ)
  | take
  | next
  deriving DecidableEq

def slots (messages : List Message) : List Slot := messages.mapIdx fun i msg => ⟨i, msg⟩

def queueOf (capacity : ℕ) (messages : List Message) : FlushNode :=
  { capacity, queue := (slots messages).map (·, true), queued := slots messages }

namespace FlushNode

def next (s : FlushNode) : Option FlushNode :=
  match s.flush with
  | .locking =>
    if s.locked then none
    else
      some { s with locked := true, flush := .popping [] false,
                    mark := s.queue.values.find? Slot.isDiscontinuity }
  | .popping preserved keepRest =>
    match s.queue.pop with
    | none => some { s with flush := .checking preserved keepRest }
    | some (slot, queue) =>
      if keepRest || slot.isEvent then
        -- from the first discontinuity on everything is kept
        some { s with queue, flush := .popping (preserved ++ [slot])
                                        (keepRest || slot.isDiscontinuity) }
      else some { s with queue, dropFlush := s.dropFlush + 1 }
  | .checking preserved keepRest =>
    if s.queue.isEmpty then some { s with flush := .pushing preserved }
    else some { s with flush := .popping preserved keepRest }
  | .pushing [] => some { s with locked := false, flush := .returned }
  | .pushing (slot :: preserved) =>
    if s.queue.length < s.capacity then
      some { s with queue := s.queue.claim slot, flush := .publishing preserved }
    else some s
  | .publishing preserved =>
    some { s with queue := s.queue.publish (s.queue.length - 1), flush := .pushing preserved }
  | .returned => none

def act (s : FlushNode) : FlushAction → Option FlushNode
  | .push msg =>
    if s.locked || decide (s.capacity ≤ s.queue.length) then none
    else
      some { s with queue := s.queue.claim ⟨s.queued.length, msg⟩
                    queued := s.queued ++ [⟨s.queued.length, msg⟩] }
  | .publish i =>
    match s.flush with
    -- nobody but the flush has a place to publish
    | .publishing _ => none
    | _ =>
      match s.queue[i]? with
      | some (_, false) => some { s with queue := s.queue.publish i }
      | _ => none
  | .take =>
    s.queue.pop.map fun (slot, queue) => { s with queue, taken := s.taken ++ [slot] }
  | .next => s.next

def preserved (s : FlushNode) : List Slot :=
  match s.flush with
  | .locking | .returned => []
  | .popping preserved _ | .checking preserved _ | .pushing preserved | .publishing preserved =>
    preserved

end FlushNode

def drainKeeps : Bool → List Slot → List Slot
  | _, [] => []
  | keepRest, slot :: rest =>
    if keepRest || slot.isEvent then slot :: drainKeeps (keepRest || slot.isDiscontinuity) rest
    else drainKeeps keepRest rest

def FlushNode.draining (s : FlushNode) : Option (List Slot) :=
  match s.flush with
  | .popping preserved _ | .checking preserved _ => some preserved
  | .locking | .pushing _ | .publishing _ | .returned => none

/-- During the drain the worker takes a slot only while nothing is preserved, and a discontinuity only if
all behind it is. -/
def FlushNode.LeavesDrain (s : FlushNode) (a : FlushAction) : Prop :=
  a = .take → ∀ preserved ∈ s.draining,
    preserved = [] ∧ ∀ slot ∈ s.queue.values.head?, slot.isDiscontinuity = true →
      drainKeeps false s.queue.values.tail = s.queue.values.tail

instance (s : FlushNode) (a : FlushAction) : Decidable (s.LeavesDrain a) :=
  inferInstanceAs (Decidable (_ → _))

end Goav.Pipeline
