import Mathlib.Data.Finset.Card
import Goav.Av.Types

/-!
The arms of a join (`joinSyncState` of `join_sync.go`). A queue is a list, oldest frame first. Times are
64-bit nanoseconds.
-/

namespace Goav.Join

open Goav.Av

inductive JoinSyncMode where
  | arrival | pts

def wrap64 (x : ℤ) : ℤ := x.bmod (2 ^ 64)

def joinSyncNSUnset : ℤ := minInt64

variable (frame : Frame)

def framePTSNS : Option ℤ := frame.pts.toDuration

def audioLengthNS : ℤ :=
  match frame.audio with
  | none => 0
  | some a =>
    if 0 < a.sampleRate ∧ 0 < a.samples then (wrap64 (1000000000 * a.samples)).tdiv a.sampleRate
    else 0

/-- The declared duration when usable, else the audio length, else 0. -/
def frameDurationNS : ℤ :=
  match frame.duration.toDuration with
  | some d => if 0 < d then d else audioLengthNS frame
  | none => audioLengthNS frame

structure JoinSync where
  mode : JoinSyncMode
  inputs : List StreamID
  pending : StreamID → List Frame := fun _ => []
  eos : Finset StreamID := ∅
  nextNS : ℤ := joinSyncNSUnset
  dropped : ℕ := 0

namespace JoinSync

variable (s : JoinSync) (id : StreamID)

def setPending (queue : List Frame) : JoinSync :=
  { s with pending := Function.update s.pending id queue }

def buffer (frame : Frame) : JoinSync :=
  s.setPending frame.streamID (s.pending frame.streamID ++ [frame])

def markEOS : JoinSync × Bool :=
  let eos := insert id s.eos
  ({ s with eos }, decide (s.inputs.length ≤ eos.card))

def flushArm (s : JoinSync) (arm : StreamID) : JoinSync :=
  if id ≠ "" ∧ arm ≠ id then s
  else { s.setPending arm [] with dropped := s.dropped + (s.pending arm).length }

/-- Flush the named arm, or every one; a join by arrival does not act. -/
def discontinuity : Option JoinSync :=
  match s.mode with
  | .arrival => none
  | .pts => some { s.inputs.foldl (flushArm id) s with nextNS := joinSyncNSUnset }

def readyLoop (s : JoinSync) : Bool → List StreamID → Bool
  | any, [] => any
  | any, id :: ids =>
    if s.pending id ≠ [] then readyLoop s true ids
    else if id ∈ s.eos then readyLoop s any ids
    else false

def ready : Bool := s.readyLoop false s.inputs

def stale (frame : Frame) : Bool :=
  match framePTSNS frame with
  | none => false
  | some ns => decide (ns < wrap64 (s.nextNS - (frameDurationNS frame).tdiv 2))

def dropStaleArm : JoinSync :=
  let queue := (s.pending id).dropWhile s.stale
  { s.setPending id queue with
    dropped := s.dropped + ((s.pending id).length - queue.length) }

def dropStale : JoinSync :=
  if s.nextNS = joinSyncNSUnset then s else s.inputs.foldl dropStaleArm s

/-- The frames of one step, and the index of the one that times it; `none` is the code's −1. -/
structure Step where
  frames : List (Option Frame)
  ref : Option ℕ

def Step.timing (st : Step) : Option Frame := st.ref.bind fun i => (st.frames[i]?).join

def selectArrival : Step :=
  { frames := s.inputs.map fun id => (s.pending id).head?
    ref := s.inputs.findIdx? fun id => !(s.pending id).isEmpty }

def earliest (s : JoinSync) : ℕ → Option (ℕ × ℤ) → List StreamID → Option (ℕ × ℤ)
  | _, best, [] => best
  | i, best, id :: ids =>
    match (s.pending id).head?.bind framePTSNS with
    | none => earliest s (i + 1) best ids
    | some ns =>
      match best with
      | none => earliest s (i + 1) (some (i, ns)) ids
      | some (_, t) => earliest s (i + 1) (if ns < t then some (i, ns) else best) ids

def headUpTo (limit : ℤ) (id : StreamID) : Option Frame :=
  (s.pending id).head?.filter fun frame =>
    match framePTSNS frame with
    | none => true
    | some ns => decide (ns ≤ limit)

def headDurationNS (i : ℕ) : ℤ :=
  match s.inputs[i]?.bind fun id => (s.pending id).head? with
  | none => 0
  | some frame => frameDurationNS frame

def selectPTS : JoinSync × Step :=
  match s.earliest 0 none s.inputs with
  | none => (s, s.selectArrival)
  | some (i, t) =>
    let limit := wrap64 (t + (s.headDurationNS i).tdiv 2)
    ({ s with nextNS := wrap64 (t + s.headDurationNS i) },
      { frames := s.inputs.map (s.headUpTo limit), ref := some i })

def popSlot (slot : StreamID × Option Frame) : JoinSync :=
  match slot.2 with
  | none => s
  | some _ => s.setPending slot.1 (s.pending slot.1).tail

def popStep (st : Step) : JoinSync := (s.inputs.zip st.frames).foldl popSlot s

def step : JoinSync × Option Step :=
  let s := match s.mode with
    | .arrival => s
    | .pts => s.dropStale
  if s.ready then
    match s.mode with
    | .arrival => (s.popStep s.selectArrival, some s.selectArrival)
    | .pts => (s.selectPTS.1.popStep s.selectPTS.2, some s.selectPTS.2)
  else (s, none)

end JoinSync

end Goav.Join
