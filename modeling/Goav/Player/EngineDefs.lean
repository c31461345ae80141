import Goav.Lib.Runs
import Mathlib.Algebra.Group.Int.Defs
import Mathlib.Algebra.Group.Nat.Defs
import Mathlib.Data.Int.Order.Basic
import Mathlib.Logic.Function.Basic

/-!
The player's engine (`player/internal/engine/engine.go`): its queues, and how a seek cuts old media.
Media is its presentation time in nanoseconds. What the renderer and the clocks compute in floating point
are parameters.
-/

namespace Goav.Player

inductive Kind where
  | audio | video
  deriving DecidableEq

def staleBehind : ℤ := 50000000
def staleAhead : ℤ := 250000000
def seekWait : ℤ := 1000000000
def earlyTolerance : ℤ := 4000000
def videoHardCap : ℕ := 48

def toDuration (x : ℤ) : ℤ := x.bmod (2 ^ 64)

structure Engine where
  epoch : ℕ := 0
  audio : List ℤ := []
  video : List ℤ := []
  presentedFresh : Bool := false
  paused : Bool := false
  ended : Bool := false
  closed : Bool := false
  /-- Set while a seek cuts the media of the old position. -/
  seeking : Bool := false
  seekBudget : ℤ := 0
  seekAt : ℤ := 0
  /-- The newest time that a kind had queued, and whether the kind is still on the old timeline. -/
  cutAt : Kind → ℤ := fun _ => 0
  cutting : Kind → Bool := fun _ => false
  newest : Kind → ℤ := fun _ => 0
  have_ : Kind → Bool := fun _ => false
  played : Bool := false
  pictured : Bool := false

inductive PushResult where
  | dropped | queued | waits
  deriving DecidableEq

/-- The presenter's rule: drop every frame whose successor is due, then present the head if due. -/
def decideVideo (m early : ℤ) : List ℤ → ℕ × Bool
  | pts :: next :: rest =>
    if next ≤ m then
      let (drop, present) := decideVideo m early (next :: rest)
      (drop + 1, present)
    else (0, pts ≤ m + early)
  | [pts] => (0, pts ≤ m + early)
  | [] => (0, false)

namespace Engine

variable (e : Engine)

def queue : Kind → List ℤ
  | .audio => e.audio
  | .video => e.video

def flushLocked : Engine :=
  { e with
    seeking := false
    played := false
    pictured := false
    newest := fun _ => 0
    have_ := fun _ => false
    epoch := e.epoch + 1
    audio := []
    video := []
    presentedFresh := false }

def beginSeekLocked (now : ℤ) : Engine :=
  { e.flushLocked with
    seeking := true
    seekBudget := seekWait
    seekAt := now
    cutAt := e.newest
    cutting := e.have_ }

def endSeek : Engine := { e with seeking := false }

def charge (now : ℤ) : Engine :=
  { e with
    seekBudget := if e.paused then e.seekBudget else e.seekBudget - max (now - e.seekAt) 0
    seekAt := now }

def inSpan (cutAt pts : ℤ) : Bool :=
  toDuration (cutAt - staleBehind) ≤ pts && pts ≤ toDuration (cutAt + staleAhead)

variable (kind : Kind)

def land : Engine :=
  let cutting := Function.update e.cutting kind false
  { e with cutting, seeking := e.seeking && (cutting .audio || cutting .video) }

/-- Whether media of a kind is that of the old position, arriving after a seek. -/
def staleLocked (pts now : ℤ) : Engine × Bool :=
  if !e.seeking then (e, false)
  else
    let e := e.charge now
    if e.seekBudget ≤ 0 then ({ e with seeking := false }, false)
    else if !e.cutting kind then (e, false)
    else if inSpan (e.cutAt kind) pts then
      -- still the old timeline: it is followed
      ({ e with cutAt := Function.update e.cutAt kind (max (e.cutAt kind) pts) }, true)
    else (e.land kind, false)

def setPaused (paused : Bool) : Engine := { e with paused }

def noteNewest (pts : ℤ) : Engine :=
  { e with
    newest := Function.update e.newest kind (max (e.newest kind) pts)
    have_ := Function.update e.have_ kind true }

/-- One turn of `PushAudio`, for a call begun in `epoch`; `room` is that of the queue. -/
def pushAudio (epoch : ℕ) (pts now : ℤ) (room : Bool) : Engine × PushResult :=
  if e.closed || e.epoch ≠ epoch then (e, .dropped)
  else
    let (e, stale) := e.staleLocked .audio pts now
    if stale then (e, .dropped)
    else if room then ({ e with audio := e.audio ++ [pts] }.noteNewest .audio pts, .queued)
    else (e, .waits)

/-- One turn of `PushVideo`; `near` says that the frame is not too far ahead. -/
def pushVideo (epoch : ℕ) (pts now : ℤ) (near audioNeedsData : Bool) :
    Engine × PushResult :=
  if e.closed || e.epoch ≠ epoch then (e, .dropped)
  else
    let (e, stale) := e.staleLocked .video pts now
    if stale then (e, .dropped)
    else if e.video.length < videoHardCap ∧ (near || audioNeedsData) then
      ({ e with video := e.video ++ [pts], pictured := true }.noteNewest .video pts, .queued)
    else if audioNeedsData then
      -- the oldest frame is shed
      ({ e with video := e.video.tail ++ [pts], pictured := true }.noteNewest .video pts, .queued)
    else (e, .waits)

/-- `Fill`, of which some audio may be rendered and some chunks be done. -/
def fill (rendered : Bool) (done : ℕ) : Engine :=
  if e.paused then e
  else { e with audio := e.audio.drop done, played := e.played || (rendered && e.audio ≠ []) }

/-- `NextVideo`. While paused, an epoch's first picture is a preview. -/
def nextVideo (master : Option ℤ) : Engine :=
  let decided := (master.map fun m => decideVideo m earlyTolerance e.video).getD (0, false)
  let e := { e with video := e.video.drop decided.1 }
  if decided.2 then { e with video := e.video.tail, presentedFresh := true, played := true }
  else if e.paused && !e.presentedFresh && e.video ≠ [] then
    { e with video := e.video.tail, presentedFresh := true }
  else e

def end_ : Engine := { e with ended := true }

def close : Engine := { e.flushLocked with closed := true, ended := true }

end Engine

/-! ### Runs -/

/-- What there is for a frame: room (for video: it is near), and whether audio needs data. -/
structure Space where
  room : Bool
  audioNeedsData : Bool

def Engine.push (e : Engine) (kind : Kind) (epoch : ℕ) (pts now : ℤ) (space : Space) :
    Engine × PushResult :=
  match kind with
  | .audio => e.pushAudio epoch pts now space.room
  | .video => e.pushVideo epoch pts now space.room space.audioNeedsData

/-- What happens to an engine; `now` is what the call read of the device clock. -/
inductive EngineAction where
  | beginSeek (now : ℤ)
  | endSeek
  | discontinuity (now : ℤ)
  | setPaused (paused : Bool) (now : ℤ)
  | push (kind : Kind) (epoch : ℕ) (pts now : ℤ) (space : Space)
  | fill (rendered : Bool) (done : ℕ)
  | nextVideo (master : Option ℤ)
  | end_
  | close

/-- An engine, and what its calls mean, which no operation reads. -/
structure SeekRun where
  engine : Engine := {}
  clockAt : ℤ := 0
  waited : ℤ := 0
  line : Kind → Option ℤ := fun _ => none
  /-- Whether a seek was begun and no media of the kind off that timeline has arrived since. -/
  old : Kind → Bool := fun _ => false

namespace SeekRun

variable (s : SeekRun)

def tick (now : ℤ) : SeekRun :=
  { s with
    clockAt := max s.clockAt now
    waited := s.waited + if s.engine.paused then 0 else max (now - s.clockAt) 0 }

/-- A seek was begun, its unpaused wait is not used up, no media off the old timeline has arrived, and
the time is within its span. -/
def OnOldTimeline (kind : Kind) (pts : ℤ) : Prop :=
  s.old kind = true ∧ s.waited < seekWait ∧
    (s.line kind).any fun newest => newest - staleBehind ≤ pts ∧ pts ≤ newest + staleAhead

instance (s : SeekRun) (kind : Kind) (pts : ℤ) : Decidable (s.OnOldTimeline kind pts) :=
  inferInstanceAs (Decidable (_ ∧ _ ∧ _))

/-- Media on the old timeline is followed; any other begins one, or goes on with its kind's. -/
def arrive (kind : Kind) (pts : ℤ) (queued : Bool) : SeekRun :=
  if s.OnOldTimeline kind pts then
    { s with line := Function.update s.line kind ((s.line kind).map (max · pts)) }
  else
    let line := if s.old kind then none else s.line kind
    { s with
      old := Function.update s.old kind false
      line := Function.update s.line kind (if queued then some (max (line.getD pts) pts) else line) }

def begin_ (now : ℤ) : SeekRun :=
  { s.tick now with
    engine := s.engine.beginSeekLocked now
    waited := 0
    old := fun kind => (s.line kind).isSome }

def act : EngineAction → SeekRun
  | .beginSeek now => s.begin_ now
  | .endSeek => { s with engine := s.engine.endSeek, old := fun _ => false }
  | .discontinuity now =>
    if !s.engine.seeking && s.engine.played then s.begin_ now else s.tick now
  | .setPaused paused now => { s.tick now with engine := s.engine.setPaused paused }
  | .push kind epoch pts now space =>
    let (engine, result) := s.engine.push kind epoch pts now space
    let s := s.tick now
    if s.engine.closed || s.engine.epoch ≠ epoch then s
    else { s.arrive kind pts (result = .queued) with engine }
  | .fill rendered done => { s with engine := s.engine.fill rendered done }
  | .nextVideo master => { s with engine := s.engine.nextVideo master }
  | .end_ => { s with engine := s.engine.end_ }
  | .close => { s with engine := s.engine.close }

end SeekRun

end Goav.Player
