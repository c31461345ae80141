import Mathlib.Algebra.Order.Field.Rat
import Goav.Lib.Threads

/-!
The task clock of `timeline.go`: the atomic loads and stores of the epoch and the readings of the inner
clock, in any interleaving. Durations and rates are rational. Ghost fields say what the clock should
show: the integral of the rate over the inner time that was not paused.
-/

namespace Goav.Clock

structure Epoch where
  wallAnchor : ℚ := 0
  mediaAnchor : ℚ := 0
  rate : ℚ
  paused : Bool := false
  deriving DecidableEq

def Epoch.readingAt (e : Epoch) (wall : ℚ) : ℚ :=
  if e.paused then e.mediaAnchor else e.mediaAnchor + (wall - e.wallAnchor) * e.rate

structure Timeline where
  inner : ℚ
  epoch : Epoch
  mu : Option ℕ := none
  /-- Ghost: the integral of the rate over unpaused inner time. -/
  media : ℚ := 0
  /-- Ghost: the rate in force. -/
  rate : ℚ := 1
  /-- Ghost: whether the clock is paused. -/
  paused : Bool := false
  /-- Ghost: the epoch of a setter that has read the inner clock and not stored it yet. -/
  anchored : Option Epoch := none

def newTimeline (inner : ℚ) : Timeline := { inner, epoch := { wallAnchor := inner, rate := 1 } }

/-- Where a call is, named after the next step. `start` and `finish` are ghost: the integral then. -/
inductive Call where
  | idle
  | nowLoad (start : ℚ)
  | nowRead (start : ℚ) (e : Epoch)
  | nowReturned (start value finish : ℚ)
  | setRateLock (rate : ℚ)
  | setRateLoad (rate : ℚ)
  | setRateRead (rate : ℚ) (e : Epoch)
  | setRateRefused
  | pauseLock
  | pauseLoad
  | pauseRead (e : Epoch)
  | resumeLock
  | resumeLoad
  | resumeRead (e : Epoch)
  | store (e : Epoch)
  | unlock
  deriving DecidableEq

/-- What a goroutine has of its own; `last` is ghost: what its latest finished `Now` returned. -/
structure Routine where
  call : Call := .idle
  last : Option ℚ := none
  deriving DecidableEq

/-- What happens next: the inner clock goes on, a goroutine starts a call or goes on with it. -/
inductive Action where
  | tick (d : ℚ)
  | now
  | setRate (rate : ℚ)
  | pause
  | resume
  | next

namespace Timeline

variable (s : Timeline)

def tick (d : ℚ) : Timeline :=
  { s with inner := s.inner + d, media := s.media + if s.paused then 0 else d * s.rate }

def current : Epoch := s.anchored.getD s.epoch

/-- A setter has read the inner clock: from here on its rate and pause are in force. -/
def anchor (e : Epoch) : Timeline :=
  { s with rate := e.rate, paused := e.paused, anchored := some e }

end Timeline

def Action.start (a : Action) (s : Timeline) : Option Call :=
  match a with
  | .now => some (.nowLoad s.media)
  | .setRate rate => some (if 0 < rate then .setRateLock rate else .setRateRefused)
  | .pause => some .pauseLock
  | .resume => some .resumeLock
  | .tick _ | .next => none

def Timeline.lock (s : Timeline) (tid : ℕ) (next : Call) : Option (Timeline × Call) :=
  if s.mu = none then some ({ s with mu := some tid }, next) else none

def Call.next (tid : ℕ) (s : Timeline) : Call → Option (Timeline × Call)
  | .idle => none
  | .nowLoad start => some (s, .nowRead start s.epoch)
  | .nowRead start e => some (s, .nowReturned start (e.readingAt s.inner) s.media)
  | .nowReturned .. => some (s, .idle)
  | .setRateLock rate => s.lock tid (.setRateLoad rate)
  | .setRateLoad rate => some (s, .setRateRead rate s.epoch)
  | .setRateRead rate e =>
    let wall := s.inner
    let e' : Epoch :=
      { wallAnchor := wall, mediaAnchor := e.readingAt wall, rate, paused := e.paused }
    some (s.anchor e', .store e')
  | .setRateRefused => some (s, .idle)
  | .pauseLock => s.lock tid .pauseLoad
  | .pauseLoad => some (s, if s.epoch.paused then .unlock else .pauseRead s.epoch)
  | .pauseRead e =>
    let e' : Epoch := { mediaAnchor := e.readingAt s.inner, rate := e.rate, paused := true }
    some (s.anchor e', .store e')
  | .resumeLock => s.lock tid .resumeLoad
  | .resumeLoad => some (s, if s.epoch.paused then .resumeRead s.epoch else .unlock)
  | .resumeRead e =>
    let e' : Epoch := { wallAnchor := s.inner, mediaAnchor := e.mediaAnchor, rate := e.rate }
    some (s.anchor e', .store e')
  | .store e => some ({ s with epoch := e, anchored := none }, .unlock)
  | .unlock => some ({ s with mu := none }, .idle)

def Routine.remember (l : Routine) : Option ℚ :=
  match l.call with
  | .nowReturned _ value _ => some value
  | _ => l.last

def timelineAct (tid : ℕ) (a : Action) (s : Timeline) (l : Routine) :
    Option (Timeline × Routine) :=
  match a with
  | .tick d => if 0 ≤ d then some (s.tick d, l) else none
  | .next =>
    (l.call.next tid s).map fun r => (r.1, { call := r.2, last := l.remember })
  | a => if l.call = .idle then (a.start s).map fun call => (s, { l with call }) else none

end Goav.Clock
