import Goav.Lib.Rotate
import Goav.Rtpav.Types

/-!
The jitter ring of `rtpav/jitter.go`. Sequence numbers are `UInt16`, so `seq - expected` wraps as in the
source. The loops make no more turns than there are slots, which is their fuel.
-/

namespace Goav.Rtpav

open Goav.Av Goav.Lib

structure JitterConfig where
  capacity : ℤ

/-- One slot. The source's `full` is set exactly when its `packet` is, and cleared with it. -/
structure JitterSlot where
  seq : UInt16 := 0
  packet : Option Packet := none

def JitterSlot.full (s : JitterSlot) : Bool := s.packet.isSome

structure JitterStats where
  ssrc : UInt32 := 0
  buffered : ℕ := 0
  expected : UInt16 := 0
  lost : ℕ := 0
  late : ℕ := 0
  reordered : ℕ := 0

structure SequenceState where
  ssrc : UInt32 := 0
  expected : UInt16 := 0
  lossBefore : Bool := false
  discontinuous : Bool := false

/-- The output of a jitter operation: two slices with their capacities, and the state observed. -/
structure JitterResult where
  ready : List Packet := []
  readyCap : ℕ
  events : List Event := []
  eventsCap : ℕ
  state : SequenceState := {}

structure JitterRing where
  slots : List JitterSlot
  initialized : Bool := false
  ssrc : UInt32 := 0
  expected : UInt16 := 0
  head : ℕ := 0
  stats : JitterStats := {}

def newJitterRing (config : JitterConfig) : Except Err JitterRing :=
  if config.capacity ≤ 0 then .error .invalidJitterCapacity
  else .ok { slots := List.replicate config.capacity.toNat {} }

def appendReady (out : JitterResult) (pkt : Packet) : Except Err JitterResult :=
  if out.ready.length = out.readyCap then .error .resultFull
  else .ok { out with ready := out.ready ++ [pkt] }

def appendJitterEvent (out : JitterResult) (event : Event) : Except Err JitterResult :=
  if out.events.length = out.eventsCap then .error .resultFull
  else .ok { out with events := out.events ++ [event] }

namespace JitterRing

variable (b : JitterRing)

def reset : JitterRing :=
  { slots := List.replicate b.slots.length {} }

variable (pkt : Packet)

def init : JitterRing :=
  { b with initialized := true, ssrc := pkt.ssrc, expected := pkt.sequenceNumber, head := 0 }

def buffered : ℕ := b.slots.countP JitterSlot.full

def dropUntil (seq : UInt16) : JitterRing :=
  { b with slots := List.replicate b.slots.length {}, expected := seq, head := 0,
           stats := { b.stats with buffered := 0 } }

def slotFor (seq : UInt16) : ℕ :=
  (b.head + (seq - b.expected).toNat) % b.slots.length

def advance (b : JitterRing) : JitterRing :=
  { b with expected := b.expected + 1, head := Lib.advance b.slots.length b.head }

def headSlot : JitterSlot := b.slots.getD b.head {}

/-- `slot.full = false; slot.packet = nil` for the head slot. -/
def clearHead : JitterRing :=
  { b with slots := b.slots.set b.head { b.headSlot with packet := none } }

def drainReadyLoop : ℕ → JitterRing → JitterResult → JitterRing × JitterResult × Option Err
  | 0, b, out => (b, out, none)
  | n + 1, b, out =>
    match b.headSlot.packet with
    | none => (b, out, none)
    | some pkt =>
      if b.headSlot.seq ≠ b.expected then (b, out, none)
      else
        match appendReady out pkt with
        | .error e => (b, out, some e)
        | .ok out => drainReadyLoop n b.clearHead.advance out

variable (out : JitterResult)

def drainReady : JitterRing × JitterResult × Option Err :=
  drainReadyLoop b.slots.length b out

def place (lossBefore discontinuous : Bool) :
    JitterRing × JitterResult × Option Err :=
  let seq := pkt.sequenceNumber
  let i := b.slotFor seq
  let stats :=
    if (b.slots.getD i {}).full then { b.stats with reordered := b.stats.reordered + 1 }
    else { b.stats with buffered := b.stats.buffered + 1 }
  let b := { b with slots := b.slots.set i { seq := seq, packet := some pkt }, stats := stats }
  match b.drainReady out with
  | (b, out, some e) => (b, out, some e)
  | (b, out, none) =>
    let state : SequenceState :=
      { ssrc := b.ssrc, expected := b.expected, lossBefore := lossBefore,
        discontinuous := discontinuous }
    ({ b with stats := { b.stats with expected := b.expected, buffered := b.buffered } },
      { out with state := state }, none)

/-- `PushInto` past the stream check: a late packet is dropped, one past the window moves it. -/
def admitPacket (discontinuous : Bool) :
    JitterRing × JitterResult × Option Err :=
  let seq := pkt.sequenceNumber
  let delta := seq - b.expected
  if 0x8000 ≤ delta.toNat then
    ({ b with stats := { b.stats with late := b.stats.late + 1 } }, out, none)
  else if b.slots.length ≤ delta.toNat then
    -- buffered packets are not lost; a difference that is not positive adds nothing
    let b := { b with stats := { b.stats with lost := b.stats.lost + (delta.toNat - b.buffered) } }
    match appendJitterEvent out { type := .packetLoss } with
    | .error e => (b, out, some e)
    | .ok out => (b.dropUntil seq).place pkt out true discontinuous
  else b.place pkt out false discontinuous

def pushInto (ctx : Ctx) (pkt : Packet) (out : JitterResult) :
    JitterRing × JitterResult × Option Err :=
  match ctx with
  | some e => (b, out, some e)
  | none =>
    let b := if b.initialized then b else b.init pkt
    if pkt.ssrc ≠ b.ssrc then
      let b := b.reset.init pkt
      match appendJitterEvent out { type := .discontinuity } with
      | .error e => (b, out, some e)
      | .ok out => b.admitPacket pkt out true
    else b.admitPacket pkt out false

def popInto (ctx : Ctx) : JitterRing × Option Packet × Option Err :=
  match ctx with
  | some e => (b, none, some e)
  | none =>
    if !b.initialized then (b, none, none)
    else
      match b.headSlot.packet with
      | none => (b, none, none)
      | some pkt =>
        if b.headSlot.seq ≠ b.expected then (b, none, none)
        else
          let b := b.clearHead.advance
          ({ b with stats := { b.stats with expected := b.expected, buffered := b.buffered } },
            some pkt, none)

def flushLoop : ℕ → ℕ → JitterRing → JitterResult → JitterRing × JitterResult × Option Err
  | _, 0, b, out => (b, out, none)
  | 0, _ + 1, b, out => (b, out, none)
  | n + 1, remaining + 1, b, out =>
    match b.headSlot.packet with
    | none => flushLoop n (remaining + 1) b.advance out
    | some pkt =>
      match appendReady out pkt with
      | .error e => (b, out, some e)
      | .ok out => flushLoop n remaining b.clearHead.advance out

def flushInto (ctx : Ctx) (out : JitterResult) :
    JitterRing × JitterResult × Option Err :=
  match ctx with
  | some e => (b, out, some e)
  | none =>
    match flushLoop b.slots.length b.buffered b out with
    | (b, out, some e) => (b, out, some e)
    | (b, out, none) =>
      ({ b with stats := { b.stats with expected := b.expected, buffered := 0 } }, out, none)

end JitterRing

end Goav.Rtpav
