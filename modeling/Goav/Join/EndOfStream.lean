import Goav.Join.Drain
import Goav.Lib.History

/-!
When a converging stage ends its output: it counts the ids of the end-of-stream events against its arms,
whatever the ids are. If each is that of an arm, and none comes after the last, the count is right.
-/

namespace Goav.Join

open Goav.Av Goav.Pipeline Goav.Lib List

/-! ### The three stages as one -/

inductive Stage where
  | audioMix (s : AudioMixStage)
  | videoComposite (s : VideoCompositeStage)
  | selector (s : SelectorStage)

inductive StageKind where
  | audioMix (mode : JoinSyncMode)
  | videoComposite (layout : List CompositeLayout) (mode : JoinSyncMode)
  | selector (name : String)

def newStage (kind : StageKind) (inputs : List StreamID) (out : StreamID) : Stage :=
  match kind with
  | .audioMix mode => .audioMix (newAudioMixStage inputs out mode)
  | .videoComposite layout mode => .videoComposite (newVideoCompositeStage inputs out layout mode)
  | .selector name => .selector (newSelectorStage name inputs out)

structure Media where
  mix : Frame → List (Option Frame) → Except String Frame
  composite : Composite

def Outcome.map {S T : Type*} (f : S → T) (r : Outcome S) : Outcome T :=
  { state := f r.state, emitted := r.emitted, err := r.err }

def Stage.handle (media : Media) : Stage → Message → Outcome Stage
  | .audioMix s, msg => (s.handle media.mix msg).map .audioMix
  | .videoComposite s, msg => (s.handle media.composite msg).map .videoComposite
  | .selector s, msg => (s.handle msg).map .selector

structure View where
  inputs : List StreamID
  out : StreamID
  eos : Finset StreamID
  held : ℕ := 0
  dropped : ℕ := 0

def JoinSync.view (s : JoinSync) (out : StreamID) : View :=
  { inputs := s.inputs, out, eos := s.eos, held := s.held, dropped := s.dropped }

def Stage.view : Stage → View
  | .audioMix s => s.sync.view s.out
  | .videoComposite s => s.sync.view s.out
  | .selector s => { inputs := s.inputs, out := s.out, eos := s.eos }

def Stage.Counts : Stage → Event → Prop
  | .selector _ => fun event => event.reason ≠ selectorActiveReason
  | .audioMix _ | .videoComposite _ => fun _ => True

instance (event : Event) : (s : Stage) → Decidable (s.Counts event)
  | .selector _ => inferInstanceAs (Decidable (event.reason ≠ selectorActiveReason))
  | .audioMix _ | .videoComposite _ => inferInstanceAs (Decidable True)

def joinBuffers (hasMedia : Frame → Bool) (inputs : List StreamID) : Message → Bool
  | .frame (some f) => hasMedia f && decide (f.streamID ∈ inputs)
  | _ => false

def Stage.buffers : Stage → Message → Bool
  | .audioMix s => joinBuffers (fun f => f.audio.isSome) s.sync.inputs
  | .videoComposite s => joinBuffers (fun f => f.video.isSome) s.sync.inputs
  | .selector _ => fun _ => false

def Emission.isEnd (e : Emission) : Prop :=
  ∃ event, e.msg = .event (some event) ∧ event.type = .endOfStream

lemma Emission.isFrame.not_isEnd {e : Emission} (h : e.isFrame) : ¬ e.isEnd := by
  obtain ⟨f, hf⟩ := h
  rintro ⟨event, hevent, -⟩
  simp [hf] at hevent

/-! ### One message -/

structure Handles (counts : Event → Prop) (buffers : Message → Bool) (v : View) (msg : Message)
    (v' : View) (emitted : List Emission) : Prop where
  inputs : v'.inputs = v.inputs
  out : v'.out = v.out
  frame : ∀ f, msg = .frame (some f) → v'.eos = v.eos ∧ ∀ e ∈ emitted, e.isFrame
  ended : ∀ event, msg = .event (some event) → event.type = .endOfStream → counts event →
    v'.eos = insert event.streamID v.eos ∧
    ((∀ id ∈ v.inputs, id ∈ v'.eos) → v'.held = 0) ∧
    ∃ frames, (∀ e ∈ frames, e.isFrame) ∧
      emitted = frames ++ if v.inputs.length ≤ v'.eos.card then [endOf v.out] else []
  jump : ∀ event, msg = .event (some event) → event.type = .discontinuity →
    v'.eos = v.eos ∧ ∀ e ∈ emitted, ¬ e.isFrame ∧ ¬ e.isEnd
  account : v'.held + v'.dropped + partsCount emitted = v.held + v.dropped + if buffers msg then 1 else 0

lemma Handles.idle {counts : Event → Prop} {buffers : Message → Bool} {v : View} {msg : Message}
    (hbuffers : buffers msg = false)
    (hevent : ∀ event, msg = .event (some event) → event.type ≠ .endOfStream) :
    Handles counts buffers v msg v [] :=
  ⟨rfl, rfl, fun _ _ => ⟨rfl, by simp⟩, fun event h ht => absurd ht (hevent event h),
    fun _ _ _ => ⟨rfl, by simp⟩, by simp [partsCount, hbuffers]⟩

lemma Handles.forwards {counts : Event → Prop} {buffers : Message → Bool} {v v' : View}
    {event event' : Event} (hinputs : v'.inputs = v.inputs) (hout : v'.out = v.out)
    (heos : v'.eos = v.eos) (haccount : v'.held + v'.dropped = v.held + v.dropped)
    (hbuffers : buffers (.event (some event)) = false) (htype : event.type ≠ .endOfStream)
    (htype' : event'.type ≠ .endOfStream) :
    Handles counts buffers v (.event (some event)) v' [{ msg := .event (some event') }] where
  inputs := hinputs
  out := hout
  frame := fun f h => by simp at h
  ended := fun e h ht => by
    obtain rfl : event = e := by simpa using h
    exact absurd ht htype
  jump := fun e h ht => by
    refine ⟨heos, fun x hx => ?_⟩
    obtain rfl := mem_singleton.mp hx
    exact ⟨by simp [Emission.isFrame], by simpa [Emission.isEnd] using htype'⟩
  account := by simpa [partsCount, hbuffers] using haccount

lemma JoinSync.held_eq_zero {s : JoinSync} (hready : s.ready = false)
    (hended : ∀ id ∈ s.inputs, id ∈ s.eos) : s.held = 0 := by
  refine Finset.sum_eq_zero fun id hid => ?_
  rw [length_eq_zero_iff]
  by_contra hne
  have : s.ready = true :=
    ready_iff.mpr ⟨⟨id, mem_toFinset.mp hid, hne⟩, fun id' hid' => .inr (hended id' hid')⟩
  simp [hready] at this

section

variable {hasMedia : Frame → Bool} {join : JoinFrames} {out : StreamID} {s : JoinSync}

lemma JoinSync.account_buffer (s : JoinSync) (f : Frame) :
    (s.buffer f).account = s.account + if f.streamID ∈ s.inputs then 1 else 0 := by
  unfold buffer account
  split_ifs with hid
  · have := held_setPending hid (s.pending f.streamID ++ [f])
    simp only [length_append, length_singleton] at this
    rw [setPending_dropped]
    omega
  · have : (s.setPending f.streamID (s.pending f.streamID ++ [f])).held = s.held := by
      refine Finset.sum_congr rfl fun id hid' => ?_
      rw [setPending_pending_of_ne]
      rintro rfl
      exact hid (mem_toFinset.mp hid')
    rw [this]
    rfl

lemma joinHandle_ended
    (hempty : ∀ frames, frames.reduceOption = [] → ∃ reason, join frames = .error reason)
    (hnodup : s.inputs.Nodup) {event : Event} (htype : event.type = .endOfStream)
    {r : Outcome JoinSync} (hr : r = drain join (s.markEOS event.streamID).1)
    {r' : Outcome JoinSync} (hr' : r' = if r.err.isNone && (s.markEOS event.streamID).2 then
      { r with emitted := r.emitted ++ [endOf out] } else r) (hok : r'.joinFailed = false) :
    Handles (fun _ => True) (joinBuffers hasMedia s.inputs) (s.view out) (.event (some event))
      (r'.state.view out) r'.emitted := by
  have hdrained : Drained (s.markEOS event.streamID).1 r := hr ▸ drain_spec hempty hnodup
  have hnone : r.err = none := by
    refine hdrained.noError ?_
    rw [hr'] at hok
    split at hok <;> exact hok
  obtain ⟨hready, haccount⟩ := hdrained.settled hnone
  have hstate : r'.state = r.state := by
    rw [hr']
    split <;> rfl
  have hemitted : r'.emitted = r.emitted ++
      if s.inputs.length ≤ r.state.eos.card then [endOf out] else [] := by
    rw [hr', hdrained.eos]
    by_cases hcount : s.inputs.length ≤ (insert event.streamID s.eos).card <;>
      simp [hnone, JoinSync.markEOS, hcount]
  have hparts : partsCount r'.emitted = partsCount r.emitted := by
    rw [hemitted]
    split <;> simp [partsCount, endOf]
  rw [hstate]
  refine ⟨hdrained.inputs, rfl, by simp, ?_, ?_, ?_⟩
  · intro e he _ _
    obtain rfl : event = e := by simpa using he
    refine ⟨hdrained.eos, fun hall => ?_, r.emitted, hdrained.frames, hemitted⟩
    refine JoinSync.held_eq_zero hready fun id hid => hall id ?_
    rwa [hdrained.inputs] at hid
  · intro e he ht
    obtain rfl : event = e := by simpa using he
    simp [htype] at ht
  · rw [hparts]
    exact haccount

theorem joinHandle_spec (hasMedia : Frame → Bool) (out : StreamID)
    (hempty : ∀ frames, frames.reduceOption = [] → ∃ reason, join frames = .error reason)
    (hnodup : s.inputs.Nodup) (msg : Message)
    (hok : (joinHandle hasMedia join out s msg).joinFailed = false) :
    Handles (fun _ => True) (joinBuffers hasMedia s.inputs) (s.view out) msg
      ((joinHandle hasMedia join out s msg).state.view out)
      (joinHandle hasMedia join out s msg).emitted := by
  match msg with
  | .frame none => exact .idle rfl (by simp)
  | .packet p => exact .idle rfl (by simp)
  | .event none => exact .idle rfl (by simp)
  | .frame (some f) =>
    simp only [joinHandle] at hok ⊢
    split_ifs with hmedia
    · rw [if_pos hmedia] at hok
      have hdrained := drain_spec hempty (s := s.buffer f) hnodup
      have haccount := (hdrained.settled (hdrained.noError hok)).2
      rw [s.account_buffer f] at haccount
      refine ⟨hdrained.inputs, rfl, fun g _ => ⟨hdrained.eos, hdrained.frames⟩, by simp, by simp, ?_⟩
      simpa [joinBuffers, hmedia, JoinSync.view, JoinSync.account] using haccount
    · exact .idle (by simp [joinBuffers, hmedia]) (by simp)
  | .event (some event) =>
    simp only [joinHandle] at hok ⊢
    cases htype : event.type <;> simp only [htype] at hok ⊢
    case endOfStream => exact joinHandle_ended hempty hnodup htype rfl rfl hok
    case discontinuity =>
      cases hjump : s.discontinuity event.streamID with
      | none => exact .idle rfl (by simp [htype])
      | some s' =>
        obtain ⟨hinputs, heos, haccount⟩ := JoinSync.discontinuity_spec hjump
        exact .forwards hinputs rfl heos haccount rfl (by simp [htype]) (by simp)
    all_goals
      split
      · exact .forwards rfl rfl rfl rfl rfl (by simp [htype]) (by simp [htype])
      · exact .idle rfl (by simp [htype])

end

lemma SelectorStage.setActive_eq (s : SelectorStage) (id : StreamID) :
    ∃ i err, s.setActive id = { state := { s with activeIndex := i }, err } := by
  unfold setActive
  split
  · exact ⟨_, _, rfl⟩
  · exact ⟨s.activeIndex, _, rfl⟩

theorem SelectorStage.handle_spec (s : SelectorStage) (msg : Message) :
    Handles (fun event => event.reason ≠ selectorActiveReason) (fun _ => false)
      (Stage.selector s).view msg (Stage.selector (s.handle msg).state).view
      (s.handle msg).emitted := by
  match msg with
  | .frame none | .packet none | .event none => exact .idle rfl (by simp)
  | .packet (some packet) =>
    simp only [SelectorStage.handle]
    split
    · exact .idle rfl (by simp)
    · exact ⟨rfl, rfl, by simp, by simp, by simp, by simp [partsCount]⟩
  | .frame (some frame) =>
    simp only [SelectorStage.handle]
    split
    · exact .idle rfl (by simp)
    · refine ⟨rfl, rfl, fun f _ => ⟨rfl, fun e he => ?_⟩, by simp, by simp, by simp [partsCount]⟩
      obtain rfl := mem_singleton.mp he
      exact ⟨_, rfl⟩
  | .event (some event) =>
    simp only [SelectorStage.handle]
    split
    · -- a request to switch is never forwarded, nor taken for the end of a stream
      rename_i hswitch
      obtain ⟨i, err, hset⟩ := s.setActive_eq event.streamID
      rw [hset]
      refine ⟨rfl, rfl, by simp, fun e he _ hcounts => ?_, fun _ _ _ => ⟨rfl, by simp⟩, rfl⟩
      obtain rfl : event = e := by simpa using he
      exact absurd hswitch hcounts
    · split
      · rename_i htype
        refine ⟨rfl, rfl, by simp, fun e he _ _ => ?_, fun e he ht => ?_, ?_⟩
        · obtain rfl : event = e := by simpa using he
          exact ⟨rfl, fun _ => rfl, [], by simp, rfl⟩
        · obtain rfl : event = e := by simpa using he
          simp [htype] at ht
        · split <;> simp [partsCount, endOf, Stage.view]
      · rename_i htype
        split
        · refine .idle rfl fun e he => ?_
          obtain rfl : event = e := by simpa using he
          exact htype
        · exact .forwards rfl rfl rfl rfl rfl htype htype

lemma VideoCompositeStage.join_empty (composite : Composite) (s : VideoCompositeStage)
    (frames : List (Option Frame)) (h : frames.reduceOption = []) :
    ∃ reason, s.join composite frames = .error reason :=
  joinFirst_empty _ _ frames h

lemma VideoCompositeStage.noteSize_sync (s : VideoCompositeStage) (msg : Message) :
    (s.noteSize msg).sync = s.sync ∧ (s.noteSize msg).out = s.out := by
  unfold VideoCompositeStage.noteSize
  split
  · split <;> exact ⟨rfl, rfl⟩
  · exact ⟨rfl, rfl⟩

theorem Stage.handle_spec (media : Media) (s : Stage) (hnodup : s.view.inputs.Nodup) (msg : Message)
    (hok : (s.handle media msg).joinFailed = false) :
    Handles s.Counts s.buffers s.view msg (s.handle media msg).state.view (s.handle media msg).emitted := by
  cases s with
  | audioMix s =>
    exact joinHandle_spec (fun f => f.audio.isSome) s.out (joinFirst_empty _ media.mix) hnodup msg hok
  | videoComposite s =>
    obtain ⟨hsync, hout⟩ := s.noteSize_sync msg
    have hspec := joinHandle_spec (fun f => f.video.isSome) (s.noteSize msg).out
      (VideoCompositeStage.join_empty media.composite _) (hsync ▸ hnodup) msg hok
    simp only [Stage.handle, VideoCompositeStage.handle] at hspec ⊢
    rw [hsync, hout] at hspec ⊢
    exact hspec
  | selector s => exact s.handle_spec msg

/-! ### Runs -/

structure StageRun where
  stage : Stage
  emitted : List Emission := []

variable (media : Media)

def StageRun.call (r : StageRun) (msg : Message) : StageRun :=
  { stage := (r.stage.handle media msg).state
    emitted := r.emitted ++ (r.stage.handle media msg).emitted }

variable (s : Stage)

def stageRun (msgs : List Message) : StageRun :=
  after (StageRun.call media) { stage := s } msgs

def outcomeAt (before : List Message) (msg : Message) : Outcome Stage :=
  (stageRun media s before).stage.handle media msg

def ended : Message → Option Event
  | .event (some event) => if event.type = .endOfStream then some event else none
  | _ => none

def endedIDs (msgs : List Message) : Finset StreamID :=
  (msgs.filterMap fun msg => (ended msg).map (·.streamID)).toFinset

variable (inputs : List StreamID)

def AllEnded (msgs : List Message) : Prop :=
  ∀ id ∈ inputs, id ∈ endedIDs msgs

instance (inputs : List StreamID) (msgs : List Message) : Decidable (AllEnded inputs msgs) :=
  inferInstanceAs (Decidable (∀ id ∈ inputs, id ∈ endedIDs msgs))

/-- The message with which the last of the arms has had an end-of-stream event of its own id. -/
def Completes (before : List Message) (msg : Message) : Prop :=
  ¬ AllEnded inputs before ∧ AllEnded inputs (before ++ [msg])

/-- What a stage is sent: a frame of an arm that has not ended, an end, or a discontinuity. -/
def Allowed (before : List Message) : Message → Prop
  | .frame (some f) => f.streamID ∈ inputs ∧ f.streamID ∉ endedIDs before
  | .event (some event) => event.type = .endOfStream ∨ event.type = .discontinuity
  | _ => False

instance (inputs : List StreamID) (before : List Message) :
    (msg : Message) → Decidable (Allowed inputs before msg)
  | .frame (some f) => inferInstanceAs (Decidable (f.streamID ∈ inputs ∧ _ ∉ endedIDs before))
  | .event (some event) => inferInstanceAs (Decidable (event.type = .endOfStream ∨ event.type = _))
  | .frame none | .event none | .packet _ => inferInstanceAs (Decidable False)

/-- Every message is one of an arm. -/
def ArmTraffic (msgs : List Message) : Prop :=
  ∀ before msg behind, msgs = before ++ msg :: behind → Allowed inputs before msg

/-- No join fails. -/
def JoinsOk (msgs : List Message) : Prop :=
  ∀ before msg behind, msgs = before ++ msg :: behind →
    (outcomeAt media s before msg).joinFailed = false

/-- One end of stream goes out. -/
structure EndsOnce (media : Media) (s : Stage) (msgs : List Message) : Prop where
  /-- It comes with the last arm's end, when nothing is queued. -/
  ends : ∀ before msg behind, msgs = before ++ msg :: behind → Completes s.view.inputs before msg →
    (∃ frames, (∀ e ∈ frames, e.isFrame) ∧
      (outcomeAt media s before msg).emitted = frames ++ [endOf s.view.out]) ∧
    (stageRun media s (before ++ [msg])).stage.view.held = 0 ∧
    (before ++ [msg]).countP s.buffers = partsCount (stageRun media s (before ++ [msg])).emitted +
      (stageRun media s (before ++ [msg])).stage.view.dropped
  only : ∀ before msg behind, msgs = before ++ msg :: behind → ¬ Completes s.view.inputs before msg →
    ∀ e ∈ (outcomeAt media s before msg).emitted, ¬ e.isEnd
  silent : ∀ before msg behind, msgs = before ++ msg :: behind → AllEnded s.view.inputs before →
    ∀ e ∈ (outcomeAt media s before msg).emitted, ¬ e.isFrame

/-- Each end of stream is that of an arm and comes before all arms have ended. -/
def OwnEnds (msgs : List Message) : Prop :=
  ∀ before msg behind, msgs = before ++ msg :: behind → ∀ event ∈ ended msg,
    event.streamID ∈ s.view.inputs ∧ ¬ AllEnded s.view.inputs before ∧ s.Counts event

/-! ### The invariant of a run -/

lemma ended_eq {event : Event} (h : event.type = .endOfStream) :
    event ∈ ended (.event (some event)) := by simp [ended, h]

lemma endedIDs_append (msgs msgs' : List Message) :
    endedIDs (msgs ++ msgs') = endedIDs msgs ∪ endedIDs msgs' := by
  simp [endedIDs]

structure RunInv (s : Stage) (msgs : List Message) (r : StageRun) : Prop where
  inputs : r.stage.view.inputs = s.view.inputs
  out : r.stage.view.out = s.view.out
  counts : r.stage.Counts = s.Counts
  buffers : r.stage.buffers = s.buffers
  eos : r.stage.view.eos = endedIDs msgs
  arms : ∀ id ∈ endedIDs msgs, id ∈ s.view.inputs
  account : r.stage.view.held + r.stage.view.dropped + partsCount r.emitted = msgs.countP s.buffers

lemma Stage.handle_same (media : Media) (s : Stage) (msg : Message)
    (hinputs : (s.handle media msg).state.view.inputs = s.view.inputs) :
    (s.handle media msg).state.Counts = s.Counts ∧ (s.handle media msg).state.buffers = s.buffers := by
  cases s with
  | audioMix s => exact ⟨rfl, congrArg (joinBuffers _) hinputs⟩
  | videoComposite s => exact ⟨rfl, congrArg (joinBuffers _) hinputs⟩
  | selector s => exact ⟨rfl, rfl⟩

section

variable {media : Media} {s : Stage} {before behind msgs : List Message} {msg : Message}

lemma ArmTraffic.cases {inputs : List StreamID} (h : ArmTraffic inputs msgs)
    (heq : msgs = before ++ msg :: behind) :
    (∃ f, msg = .frame (some f) ∧ f.streamID ∈ inputs ∧ f.streamID ∉ endedIDs before) ∨
      (∃ event, msg = .event (some event) ∧ event.type = .endOfStream) ∨
      ∃ event, msg = .event (some event) ∧ event.type = .discontinuity := by
  have := h before msg behind heq
  match msg with
  | .frame (some f) => exact .inl ⟨f, rfl, this⟩
  | .frame none | .event none | .packet _ => exact this.elim
  | .event (some event) =>
    exact .inr (this.imp (fun ht => ⟨event, rfl, ht⟩) fun ht => ⟨event, rfl, ht⟩)

lemma endedIDs_frame (f : Frame) : endedIDs [.frame (some f)] = ∅ := rfl

lemma endedIDs_ended {event : Event} (h : event.type = .endOfStream) :
    endedIDs [.event (some event)] = {event.streamID} := by
  simp [endedIDs, ended, h]

lemma endedIDs_jump {event : Event} (h : event.type = .discontinuity) :
    endedIDs [.event (some event)] = ∅ := by
  simp [endedIDs, ended, h]

lemma RunInv.handles {r : StageRun} (h : RunInv s before r) (hnodup : s.view.inputs.Nodup)
    (hok : (r.stage.handle media msg).joinFailed = false) :
    Handles s.Counts s.buffers r.stage.view msg (r.stage.handle media msg).state.view
      (r.stage.handle media msg).emitted := by
  have := r.stage.handle_spec media (h.inputs ▸ hnodup) msg hok
  rwa [h.counts, h.buffers] at this

lemma RunInv.call {r : StageRun} (h : RunInv s before r) (hnodup : s.view.inputs.Nodup)
    (hok : (r.stage.handle media msg).joinFailed = false)
    (htraffic : ArmTraffic s.view.inputs (before ++ [msg])) (hown : OwnEnds s (before ++ [msg])) :
    RunInv s (before ++ [msg]) (r.call media msg) := by
  have hhandles := h.handles hnodup hok
  obtain ⟨hcounts, hbuffers⟩ := r.stage.handle_same media msg hhandles.inputs
  refine ⟨hhandles.inputs.trans h.inputs, hhandles.out.trans h.out, hcounts.trans h.counts,
    hbuffers.trans h.buffers, ?_, ?_, ?_⟩
  · rw [endedIDs_append, ← h.eos]
    rcases htraffic.cases rfl with ⟨f, rfl, -⟩ | ⟨event, rfl, htype⟩ | ⟨event, rfl, htype⟩
    · rw [endedIDs_frame, Finset.union_empty]
      exact (hhandles.frame f rfl).1
    · obtain ⟨-, -, hcounted⟩ := hown before _ [] rfl event (ended_eq htype)
      rw [endedIDs_ended htype, Finset.union_comm]
      exact (hhandles.ended event rfl htype hcounted).1
    · rw [endedIDs_jump htype, Finset.union_empty]
      exact (hhandles.jump event rfl htype).1
  · intro id hid
    rw [endedIDs_append] at hid
    rcases Finset.mem_union.mp hid with hid | hid
    · exact h.arms id hid
    · rcases htraffic.cases rfl with ⟨f, rfl, -⟩ | ⟨event, rfl, htype⟩ | ⟨event, rfl, htype⟩
      · simp [endedIDs_frame] at hid
      · rw [endedIDs_ended htype, Finset.mem_singleton] at hid
        exact hid ▸ (hown before _ [] rfl event (ended_eq htype)).1
      · simp [endedIDs_jump htype] at hid
  · have haccount := hhandles.account
    have hbefore := h.account
    simp only [StageRun.call, partsCount, map_append, sum_append, countP_append,
      countP_singleton] at haccount hbefore ⊢
    omega

theorem runInv_stageRun (hnodup : s.view.inputs.Nodup) (heos : s.view.eos = ∅)
    (hheld : s.view.held = 0) (hdropped : s.view.dropped = 0) (msgs : List Message)
    (h : ArmTraffic s.view.inputs msgs ∧ OwnEnds s msgs ∧ JoinsOk media s msgs) :
    RunInv s msgs (stageRun media s msgs) := by
  refine history_invariant
    (fun msgs => ArmTraffic s.view.inputs msgs ∧ OwnEnds s msgs ∧ JoinsOk media s msgs)
    (RunInv s) (fun cs c hok =>
      ⟨forall_step_left hok.1, forall_step_left hok.2.1, forall_step_left hok.2.2⟩) ?_ ?_ msgs h
  · exact ⟨rfl, rfl, rfl, rfl, heos, by simp [endedIDs], by simp [hheld, hdropped, partsCount]⟩
  · rintro before msg ⟨htraffic, hown, hjoins⟩ hinv
    exact hinv.call hnodup (hjoins before msg [] rfl) htraffic hown

end

section

variable {s : Stage} {before : List Message} {msg : Message}

lemma length_le_card_iff {inputs : List StreamID} (hnodup : inputs.Nodup) {eos : Finset StreamID}
    (harms : ∀ id ∈ eos, id ∈ inputs) : inputs.length ≤ eos.card ↔ ∀ id ∈ inputs, id ∈ eos := by
  rw [← toFinset_card_of_nodup hnodup]
  constructor
  · intro hle id hid
    have heq := Finset.eq_of_subset_of_card_le
      (fun x hx => mem_toFinset.mpr (harms x hx) : eos ⊆ inputs.toFinset) hle
    rw [heq]
    exact mem_toFinset.mpr hid
  · intro hall
    exact Finset.card_le_card fun x hx => hall x (mem_toFinset.mp hx)

lemma not_completes {inputs : List StreamID} (h : endedIDs [msg] = ∅) :
    ¬ Completes inputs before msg := by
  rintro ⟨hnot, hall⟩
  refine hnot fun id hid => ?_
  have := hall id hid
  rwa [endedIDs_append, h, Finset.union_empty] at this

/-- The output ends exactly when all arms have, and then nothing is queued. -/
lemma RunInv.emitted_ended {media : Media} {event : Event}
    (hbefore : RunInv s before (stageRun media s before))
    (hafter : RunInv s (before ++ [.event (some event)])
      (stageRun media s (before ++ [.event (some event)])))
    (hnodup : s.view.inputs.Nodup) (htype : event.type = .endOfStream) (hcounted : s.Counts event)
    (hok : (outcomeAt media s before (.event (some event))).joinFailed = false) :
    ∃ frames, (∀ e ∈ frames, e.isFrame) ∧
      (AllEnded s.view.inputs (before ++ [.event (some event)]) →
        (stageRun media s (before ++ [.event (some event)])).stage.view.held = 0 ∧
        (outcomeAt media s before (.event (some event))).emitted = frames ++ [endOf s.view.out]) ∧
      (¬ AllEnded s.view.inputs (before ++ [.event (some event)]) →
        (outcomeAt media s before (.event (some event))).emitted = frames) := by
  obtain ⟨-, hdone, frames, hframes, hemitted⟩ :=
    (hbefore.handles hnodup hok).ended event rfl htype hcounted
  have hrun : (stageRun media s (before ++ [.event (some event)])).stage =
      ((stageRun media s before).stage.handle media (.event (some event))).state := by
    simp [stageRun, StageRun.call]
  rw [← hrun, hafter.eos, hbefore.inputs] at hdone
  rw [← hrun, hafter.eos, hbefore.inputs, hbefore.out] at hemitted
  have hcount := length_le_card_iff hnodup hafter.arms
  refine ⟨frames, hframes, fun hall => ⟨hdone hall, ?_⟩, fun hnot => ?_⟩
  · rw [if_pos (hcount.mpr hall)] at hemitted
    exact hemitted
  · rw [if_neg fun hle => hnot (hcount.mp hle), append_nil] at hemitted
    exact hemitted

end

/-- **A converging stage ends its output once**, with its last arm, when the events are those of its
arms. -/
theorem ends_once {media : Media} (kind : StageKind) {inputs : List StreamID} (out : StreamID)
    (hnodup : inputs.Nodup) {msgs : List Message} (htraffic : ArmTraffic inputs msgs)
    (hjoins : JoinsOk media (newStage kind inputs out) msgs)
    (hown : OwnEnds (newStage kind inputs out) msgs) :
    EndsOnce media (newStage kind inputs out) msgs := by
  obtain ⟨hinputs, heos, hheld, hdropped⟩ : (newStage kind inputs out).view.inputs = inputs ∧
      (newStage kind inputs out).view.eos = ∅ ∧ (newStage kind inputs out).view.held = 0 ∧
      (newStage kind inputs out).view.dropped = 0 := by
    cases kind <;>
      simp [newStage, newAudioMixStage, newVideoCompositeStage, newSelectorStage, Stage.view,
        JoinSync.view, JoinSync.held]
  generalize newStage kind inputs out = s at *
  subst hinputs
  have hinv : ∀ before behind, msgs = before ++ behind →
      RunInv s before (stageRun media s before) := by
    rintro before behind rfl
    exact runInv_stageRun hnodup heos hheld hdropped before
      ⟨forall_step_left htraffic, forall_step_left hown, forall_step_left hjoins⟩
  have hhandles : ∀ {before msg behind}, msgs = before ++ msg :: behind →
      Handles s.Counts s.buffers (stageRun media s before).stage.view msg
        (outcomeAt media s before msg).state.view (outcomeAt media s before msg).emitted :=
    fun {before msg behind} heq => (hinv before _ heq).handles hnodup (hjoins before msg behind heq)
  refine ⟨fun before msg behind heq hcompletes => ?_, fun before msg behind heq hnot => ?_,
    fun before msg behind heq hall => ?_⟩
  · have hafter : RunInv s (before ++ [msg]) (stageRun media s (before ++ [msg])) :=
      hinv _ behind (by simp [heq])
    rcases htraffic.cases heq with ⟨f, rfl, -⟩ | ⟨event, rfl, htype⟩ | ⟨event, rfl, htype⟩
    · exact absurd hcompletes (not_completes (endedIDs_frame f))
    · obtain ⟨-, -, hcounted⟩ := hown before _ behind heq event (ended_eq htype)
      obtain ⟨frames, hframes, hdone, -⟩ := (hinv _ _ heq).emitted_ended hafter hnodup htype hcounted
        (hjoins before _ behind heq)
      obtain ⟨hempty, hemitted⟩ := hdone hcompletes.2
      have haccount := hafter.account
      exact ⟨⟨frames, hframes, hemitted⟩, hempty, by omega⟩
    · exact absurd hcompletes (not_completes (endedIDs_jump htype))
  · rcases htraffic.cases heq with ⟨f, rfl, -⟩ | ⟨event, rfl, htype⟩ | ⟨event, rfl, htype⟩
    · exact fun e he => (((hhandles heq).frame f rfl).2 e he).not_isEnd
    · obtain ⟨-, hopen, hcounted⟩ := hown before _ behind heq event (ended_eq htype)
      obtain ⟨frames, hframes, -, hmore⟩ := (hinv _ _ heq).emitted_ended
        (hinv _ behind (by simp [heq])) hnodup htype hcounted (hjoins before _ behind heq)
      rw [hmore fun hall => hnot ⟨hopen, hall⟩]
      exact fun e he => (hframes e he).not_isEnd
    · exact fun e he => (((hhandles heq).jump event rfl htype).2 e he).2
  · rcases htraffic.cases heq with ⟨f, rfl, harm, hopen⟩ | ⟨event, rfl, htype⟩ | ⟨event, rfl, htype⟩
    · exact absurd (hall f.streamID harm) hopen
    · exact absurd hall (hown before _ behind heq event (ended_eq htype)).2.1
    · exact fun e he => (((hhandles heq).jump event rfl htype).2 e he).1

def firstFrame : Media := { mix := fun base _ => .ok base, composite := fun _ _ base _ => .ok base }

def audioOf (id : StreamID) : Message := .frame (some { streamID := id, audio := some {} })

def endOfArm (id : StreamID) : Message := .event (some { type := .endOfStream, streamID := id })

/-- A frame of each of two arms, the end of the first, another frame of the second, its end. -/
def twoEnds : List Message :=
  [audioOf "a", audioOf "b", audioOf "b", endOfArm "a", endOfArm "b"]

theorem ends_once_twoEnds :
    ArmTraffic ["a", "b"] twoEnds ∧
      EndsOnce firstFrame (newStage (.audioMix .arrival) ["a", "b"] "mix") twoEnds := by
  have htraffic : ArmTraffic ["a", "b"] twoEnds := (forall_step_iff twoEnds).mpr (by decide +kernel)
  refine ⟨htraffic, ends_once (.audioMix .arrival) "mix" (by decide) htraffic ?_ ?_⟩
  · exact (forall_step_iff twoEnds).mpr (by decide +kernel)
  · exact (forall_step_iff twoEnds).mpr (by decide +kernel)

def strayEnd : List Message := [endOfArm "", endOfArm "a"]

/-- The mix ends its output with the first arm's end: the stray event was counted as an arm's. -/
theorem stray_end_counted :
    ["a", "b"].Nodup ∧ ArmTraffic ["a", "b"] strayEnd ∧
      JoinsOk firstFrame (newStage (.audioMix .arrival) ["a", "b"] "mix") strayEnd ∧
      ¬ EndsOnce firstFrame (newStage (.audioMix .arrival) ["a", "b"] "mix") strayEnd := by
  refine ⟨by decide, (forall_step_iff strayEnd).mpr (by decide +kernel),
    (forall_step_iff strayEnd).mpr (by decide +kernel), fun h => ?_⟩
  have hend : (outcomeAt firstFrame (newStage (.audioMix .arrival) ["a", "b"] "mix")
      [endOfArm ""] (endOfArm "a")).emitted = [endOf "mix"] := by decide +kernel
  refine h.only [endOfArm ""] (endOfArm "a") [] rfl (fun hcompletes => ?_) (endOf "mix")
    (by simp [hend]) ⟨_, rfl, rfl⟩
  have : ¬ AllEnded ["a", "b"] ([endOfArm ""] ++ [endOfArm "a"]) := by decide +kernel
  exact this hcompletes.2

end Goav.Join
