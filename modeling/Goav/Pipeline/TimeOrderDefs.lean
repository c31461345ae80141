import Goav.Lib.Merge
import Goav.Lib.Threads
import Goav.Pipeline.Message

/-!
The time order of offline sources (`time_order.go`): at every packet the turn goes to the source whose
packet is earliest. Every load, store, compare-and-swap, send and receive is a step. There are no gates,
and `settle`, which touches nothing of the order, is left out. Ghost fields record who did what.
-/

namespace Goav.Pipeline

open Goav.Av Goav.Lib

inductive TurnState where
  /-- Waiting to run its `Start`. -/
  | unstarted
  /-- Parked on a packet. -/
  | waiting
  /-- Holds the turn. -/
  | running
  /-- Ended, or left the order. -/
  | done
  deriving DecidableEq

structure TimeTurn where
  state : TurnState := .done
  parkedAt : ℤ := 0
  /-- Whether the turn is in the channel of the source. -/
  grant : Bool := false

structure TimeOrder where
  count : ℕ
  turns : ℕ → TimeTurn
  holder : ℕ := 0
  ctxDone : ℕ → Bool := fun _ => false
  delivered : List (ℕ × Packet) := []
  /-- Ghost: the source that has the turn or passes it on. -/
  turn : Option ℕ
  /-- Ghost: who sends a source the turn. -/
  sender : ℕ → Option ℕ := fun _ => none
  /-- Ghost: the source that was chosen for its packet. -/
  chosen : Option ℕ := none
  /-- Ghost: what the sources have not delivered. -/
  remaining : ℕ → List Packet

/-- The time that a packet is ordered by: its decoding time, or else its presentation time. -/
def packetTime (p : Packet) : Option ℤ := p.dts.toDuration <|> p.pts.toDuration

/-- A source leaves with its context done, before its first turn or a packet's, or at the end. -/
inductive Leaving where
  | enter | yield | deferred

inductive PassBy where
  | yielding (p : Packet)
  | leaving (by_ : Leaving)

/-- Where a source is; the constructors are named after the step that comes next. -/
inductive OrderCall where
  | enterSelect
  | start
  | yieldLoadState (p : Packet) (at_ : ℤ)
  | yieldStoreAt (p : Packet) (at_ : ℤ)
  | yieldStoreState (p : Packet)
  | yieldSelect (p : Packet)
  | emit (p : Packet)
  | leaveLoadState (by_ : Leaving)
  | leaveSwapState (by_ : Leaving) (seen : TurnState)
  | leaveStoreState (by_ : Leaving)
  | passLoadUnstarted (by_ : PassBy) (i : ℕ)
  | passLoadWaiting (by_ : PassBy) (i : ℕ) (best : Option (ℕ × ℤ))
  | passLoadAt (by_ : PassBy) (i : ℕ) (best : Option (ℕ × ℤ))
  | passLoadState (by_ : PassBy) (next : ℕ)
  | passSwapState (by_ : PassBy) (next : ℕ) (seen : TurnState)
  | passStoreHolder (by_ : PassBy) (next : ℕ)
  | passSend (by_ : PassBy) (next : ℕ)
  | finished

structure SourceRun where
  call : OrderCall
  todo : List Packet

namespace TimeOrder

variable (s : TimeOrder) (i : ℕ)

def stateOf : TurnState := (s.turns i).state

def setState (state : TurnState) : TimeOrder :=
  { s with turns := Function.update s.turns i { s.turns i with state } }

def setAt (parkedAt : ℤ) : TimeOrder :=
  { s with turns := Function.update s.turns i { s.turns i with parkedAt } }

def setGrant (grant : Bool) : TimeOrder :=
  { s with turns := Function.update s.turns i { s.turns i with grant } }

def give (t next : ℕ) (seen : TurnState) (sends : Bool) : TimeOrder :=
  { s.setState next .running with
    turn := some next
    sender := if sends then Function.update s.sender next (some t) else s.sender
    chosen := if seen = .waiting then some next else none }

def deliver (t : ℕ) (p : Packet) : TimeOrder :=
  { s with
    delivered := s.delivered ++ [(t, p)]
    chosen := none
    remaining := Function.update s.remaining t (s.remaining t).tail }

end TimeOrder

/-- Where a source goes on that left: its `Start`, the error of `yield`, or nowhere. -/
def Leaving.after : Leaving → OrderCall
  | .enter | .yield => .start
  | .deferred => .finished

def PassBy.after : PassBy → OrderCall
  | .yielding p => .yieldSelect p
  | .leaving by_ => by_.after

def PassBy.gotBack (by_ : PassBy) (t next : ℕ) : Bool :=
  match by_ with
  | .yielding _ => t = next
  | .leaving _ => false

def OrderCall.next (t : ℕ) (s : TimeOrder) (todo : List Packet) :
    OrderCall → Option (TimeOrder × SourceRun)
  | .enterSelect =>
    if (s.turns t).grant then some (s.setGrant t false, { call := .start, todo }) else none
  | .start =>
    match todo with
    | [] => some (s, { call := .leaveLoadState .deferred, todo })
    | p :: todo =>
      -- a packet without a time is delivered in place, keeping the turn
      match packetTime p with
      | none => some (s, { call := .emit p, todo })
      | some at_ => some (s, { call := .yieldLoadState p at_, todo })
  | .yieldLoadState p at_ =>
    if s.stateOf t ≠ .running then some (s, { call := .emit p, todo })
    else some (s, { call := .yieldStoreAt p at_, todo })
  | .yieldStoreAt p at_ => some (s.setAt t at_, { call := .yieldStoreState p, todo })
  | .yieldStoreState p =>
    some ({ s.setState t .waiting with chosen := none },
      { call := .passLoadUnstarted (.yielding p) 0, todo })
  | .yieldSelect p =>
    if (s.turns t).grant then some (s.setGrant t false, { call := .emit p, todo }) else none
  | .emit p => some (s.deliver t p, { call := .start, todo })
  | .leaveLoadState by_ =>
    match s.stateOf t with
    | .done => some (s, { call := by_.after, todo })
    | .running => some (s, { call := .leaveStoreState by_, todo })
    | seen => some (s, { call := .leaveSwapState by_ seen, todo })
  | .leaveSwapState by_ seen =>
    if s.stateOf t = seen then some (s.setState t .done, { call := by_.after, todo })
    else some (s, { call := .leaveLoadState by_, todo })
  | .leaveStoreState by_ =>
    some ({ s.setState t .done with chosen := none },
      { call := .passLoadUnstarted (.leaving by_) 0, todo })
  | .passLoadUnstarted by_ i =>
    if i < s.count then
      if s.stateOf i = .unstarted then some (s, { call := .passLoadState by_ i, todo })
      else some (s, { call := .passLoadUnstarted by_ (i + 1), todo })
    else some (s, { call := .passLoadWaiting by_ 0 none, todo })
  | .passLoadWaiting by_ i best =>
    if i < s.count then
      if s.stateOf i = .waiting then some (s, { call := .passLoadAt by_ i best, todo })
      else some (s, { call := .passLoadWaiting by_ (i + 1) best, todo })
    else
      match best with
      | none => some ({ s with turn := none }, { call := by_.after, todo })
      | some (next, _) => some (s, { call := .passLoadState by_ next, todo })
  | .passLoadAt by_ i best =>
    let at_ := (s.turns i).parkedAt
    let best :=
      match best with
      | none => some (i, at_)
      | some (next, least) => if at_ < least then some (i, at_) else some (next, least)
    some (s, { call := .passLoadWaiting by_ (i + 1) best, todo })
  | .passLoadState by_ next =>
    some (s, { call := .passSwapState by_ next (s.stateOf next), todo })
  | .passSwapState by_ next seen =>
    if (seen = .unstarted ∨ seen = .waiting) ∧ s.stateOf next = seen then
      some (s.give t next seen (!by_.gotBack t next), { call := .passStoreHolder by_ next, todo })
    else some (s, { call := .passLoadUnstarted by_ 0, todo })
  | .passStoreHolder by_ next =>
    let call :=
      match by_ with
      | .yielding p => if t = next then .emit p else .passSend by_ next
      | .leaving _ => .passSend by_ next
    some ({ s with holder := next }, { call, todo })
  | .passSend by_ next =>
    if (s.turns next).grant then none
    else
      some ({ s.setGrant next true with sender := Function.update s.sender next none },
        { call := by_.after, todo })
  | .finished => none

/-- The next step, the branch of a `select` for a context that is done, an early end, or `cancel`. -/
inductive OrderAction where
  | next | cancel | contextDone | stop
  deriving DecidableEq

def orderAct (t : ℕ) (a : OrderAction) (s : TimeOrder) (l : SourceRun) :
    Option (TimeOrder × SourceRun) :=
  match a with
  | .next => l.call.next t s l.todo
  | .cancel => some ({ s with ctxDone := Function.update s.ctxDone t true }, l)
  | .contextDone =>
    match l.call with
    | .enterSelect =>
      if s.ctxDone t then some (s, { l with call := .leaveLoadState .enter }) else none
    | .yieldSelect _ =>
      if s.ctxDone t then some (s, { l with call := .leaveLoadState .yield }) else none
    | _ => none
  | .stop =>
    match l.call with
    | .start =>
      if s.ctxDone t then some (s, { l with call := .leaveLoadState .deferred }) else none
    | _ => none

/-- `newTimeOrder`. None runs yet when the first source is given the turn. -/
def newTimeOrder (ordered : List Bool) (sources : ℕ → List Packet) :
    Threads TimeOrder SourceRun :=
  let isOrdered (i : ℕ) : Bool := ordered.getD i false
  let first := ordered.findIdx? id
  { shared :=
      { count := ordered.length
        turns := fun i =>
          if some i = first then { state := .running, grant := true }
          else if isOrdered i then { state := .unstarted }
          else {}
        holder := first.getD 0
        turn := first
        remaining := fun i => if isOrdered i then sources i else [] }
    own := fun i =>
      if isOrdered i then { call := .enterSelect, todo := sources i }
      else { call := .finished, todo := [] } }

end Goav.Pipeline
