import Mathlib.Algebra.BigOperators.Group.Finset.Defs
import Mathlib.Data.List.ReduceOption
import Goav.Join.SyncDefs
import Goav.Pipeline.Message

/-!
The converging stages: the audio mix (`audio_mix.go`), the video composite (`video_composite.go`) and the
selector (`selector.go`). How the samples or pixels of a step are put together is a parameter.
-/

namespace Goav.Join

open Goav.Av Goav.Pipeline

def selectorActiveReason : String := "select.active"

inductive HandleError where
  | join (reason : String)
  | nilFrame
  | noInput (name : String) (id : StreamID) (inputs : List StreamID)

/-- A message that a stage emits; `parts` is ghost: the buffered frames it was made of. -/
structure Emission where
  msg : Message
  parts : List Frame := []
  deriving DecidableEq

/-- What a `Handle` does: the state it leaves, what it emits, and the error it returns. -/
structure Outcome (S : Type*) where
  state : S
  emitted : List Emission := []
  err : Option HandleError := none

def Outcome.joinFailed {S : Type*} (r : Outcome S) : Bool :=
  match r.err with
  | some (.join _) | some .nilFrame => true
  | _ => false

def endOf (out : StreamID) : Emission :=
  { msg := .event (some { type := .endOfStream, streamID := out }) }

/-! ### The drain of a join -/

abbrev JoinFrames := List (Option Frame) → Except String Frame

def joinFirst (empty : String) (join : Frame → List (Option Frame) → Except String Frame) :
    JoinFrames :=
  fun frames =>
    match frames.reduceOption.head? with
    | none => .error empty
    | some base => join base frames

/-- Steps are taken until there is none; every one takes a queued frame. -/
def drainLoop (join : JoinFrames) : ℕ → JoinSync → Outcome JoinSync
  | 0, s => { state := s }
  | turns + 1, s =>
    match s.step with
    | (s, none) => { state := s }
    | (s, some st) =>
      match join st.frames with
      | .error reason => { state := s, err := some (.join reason) }
      | .ok joined =>
        match st.timing with
        | none => { state := s, err := some .nilFrame }
        | some ref =>
          let rest := drainLoop join turns s
          { rest with
            emitted :=
              { msg := .frame (some { joined with pts := ref.pts, duration := ref.duration })
                parts := st.frames.reduceOption } :: rest.emitted }

def JoinSync.held (s : JoinSync) : ℕ := ∑ id ∈ s.inputs.toFinset, (s.pending id).length

def drain (join : JoinFrames) (s : JoinSync) : Outcome JoinSync := drainLoop join (s.held + 1) s

def joinHandle (hasMedia : Frame → Bool) (join : JoinFrames) (out : StreamID) (s : JoinSync) :
    Message → Outcome JoinSync
  | .frame none | .event none | .packet _ => { state := s }
  | .frame (some frame) => if hasMedia frame then drain join (s.buffer frame) else { state := s }
  | .event (some event) =>
    match event.type with
    | .endOfStream =>
      let marked := s.markEOS event.streamID
      let r := drain join marked.1
      if r.err.isNone && marked.2 then { r with emitted := r.emitted ++ [endOf out] } else r
    | .discontinuity =>
      match s.discontinuity event.streamID with
      | none => { state := s }
      | some s => { state := s, emitted := [{ msg := .event (some { event with streamID := out }) }] }
    | _ =>
      -- control events ride through joins unchanged
      if event.reason = selectorActiveReason then
        { state := s, emitted := [{ msg := .event (some event) }] }
      else { state := s }

/-! ### The audio mix -/

structure AudioMixStage where
  out : StreamID
  sync : JoinSync

def newAudioMixStage (inputs : List StreamID) (out : StreamID) (mode : JoinSyncMode) :
    AudioMixStage :=
  { out, sync := { mode, inputs } }

def mixS16FramesInto (mix : Frame → List (Option Frame) → Except String Frame) : JoinFrames :=
  joinFirst "goav: audio mix has no participating frames" mix

def AudioMixStage.handle (mix : Frame → List (Option Frame) → Except String Frame)
    (s : AudioMixStage) (msg : Message) : Outcome AudioMixStage :=
  let r := joinHandle (fun frame => frame.audio.isSome) (mixS16FramesInto mix) s.out s.sync msg
  { state := { s with sync := r.state }, emitted := r.emitted, err := r.err }

/-! ### The video composite -/

structure CompositeLayout where
  x : ℤ := 0
  y : ℤ := 0

structure CompositeArmSize where
  w : ℤ
  h : ℤ

structure VideoCompositeStage where
  out : StreamID
  layout : List CompositeLayout
  sizes : StreamID → Option CompositeArmSize := fun _ => none
  sync : JoinSync

def newVideoCompositeStage (inputs : List StreamID) (out : StreamID)
    (layout : List CompositeLayout) (mode : JoinSyncMode) : VideoCompositeStage :=
  { out, layout, sync := { mode, inputs } }

def canvasFloor (sizes : StreamID → Option CompositeArmSize) :
    List (StreamID × CompositeLayout × Option Frame) → ℤ × ℤ
  | [] => (0, 0)
  | (id, at_, slot) :: arms =>
    let floor := canvasFloor sizes arms
    match slot, sizes id with
    | none, some size => (max floor.1 (at_.x + size.w), max floor.2 (at_.y + size.h))
    | _, _ => floor

/-- How the canvas is painted: from its least size, the layout, the first frame and the slots. -/
abbrev Composite :=
  ℤ × ℤ → List CompositeLayout → Frame → List (Option Frame) → Except String Frame

def VideoCompositeStage.join (composite : Composite) (s : VideoCompositeStage) : JoinFrames :=
  fun frames =>
    let floor := canvasFloor s.sizes (s.sync.inputs.zip (s.layout.zip frames))
    joinFirst "goav: video composite has no participating frames" (composite floor s.layout) frames

def VideoCompositeStage.noteSize (s : VideoCompositeStage) : Message → VideoCompositeStage
  | .frame (some frame) =>
    match frame.video with
    | none => s
    | some video =>
      { s with sizes := Function.update s.sizes frame.streamID (some ⟨video.width, video.height⟩) }
  | _ => s

def VideoCompositeStage.handle (composite : Composite) (s : VideoCompositeStage) (msg : Message) :
    Outcome VideoCompositeStage :=
  let s := s.noteSize msg
  let r := joinHandle (fun frame => frame.video.isSome) (s.join composite) s.out s.sync msg
  { state := { s with sync := r.state }, emitted := r.emitted, err := r.err }

/-! ### The selector -/

structure SelectorStage where
  name : String
  inputs : List StreamID
  out : StreamID
  activeIndex : ℤ := 0
  eos : Finset StreamID := ∅

def newSelectorStage (name : String) (inputs : List StreamID) (out : StreamID) : SelectorStage :=
  { name, inputs, out }

namespace SelectorStage

variable (s : SelectorStage)

def setActive (id : StreamID) : Outcome SelectorStage :=
  match s.inputs.findIdx? (· == id) with
  | some i => { state := { s with activeIndex := (i : ℤ).bmod (2 ^ 32) } }
  | none => { state := s, err := some (.noInput s.name id s.inputs) }

def activeID : StreamID :=
  if s.activeIndex < 0 then "" else s.inputs.getD s.activeIndex.toNat ""

def handle : Message → Outcome SelectorStage
  | .frame none | .packet none | .event none => { state := s }
  | .frame (some frame) =>
    if frame.streamID ≠ s.activeID then { state := s }
    else { state := s, emitted := [{ msg := .frame (some { frame with streamID := s.out }) }] }
  | .packet (some packet) =>
    if packet.streamID ≠ s.activeID then { state := s }
    else { state := s, emitted := [{ msg := .packet (some { packet with streamID := s.out }) }] }
  | .event (some event) =>
    if event.reason = selectorActiveReason then s.setActive event.streamID
    else if event.type = .endOfStream then
      let eos := insert event.streamID s.eos
      { state := { s with eos }
        emitted := if s.inputs.length ≤ eos.card then [endOf s.out] else [] }
    else if event.streamID ≠ s.activeID then { state := s }
    else { state := s, emitted := [{ msg := .event (some { event with streamID := s.out }) }] }

end SelectorStage

end Goav.Join
