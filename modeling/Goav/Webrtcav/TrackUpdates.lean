import Goav.Lib.Except
import Goav.Webrtcav.TrackDefs
import Mathlib.Data.List.Induction

/-!
Calls of `UpdateTrack` that run at once. Each one has two critical sections, and those of the calls come in any
order.
-/

namespace Goav.Webrtcav

open Goav.Lib List

/-- A critical section of a call. -/
inductive UpdateStep where
  | applyCodecUpdate (call : ℕ)
  | mergeRemoteTrack (call : ℕ)

namespace UpdateStep

def applied : UpdateStep → Option ℕ
  | .applyCodecUpdate call => some call
  | .mergeRemoteTrack _ => none

def merged : UpdateStep → Option ℕ
  | .applyCodecUpdate _ => none
  | .mergeRemoteTrack call => some call

def run (remotes : ℕ → RemoteTrack) (r : TrackReader) : UpdateStep → Except Err TrackReader
  | .applyCodecUpdate call => r.updateTrack none (remotes call) none
  | .mergeRemoteTrack call => .ok (r.mergeRemoteTrack (normalizeRemoteTrack (remotes call)))

def Interleaves (n : ℕ) (steps : List UpdateStep) : Prop :=
  ∀ call, steps.filter (fun step => step.applied = some call ∨ step.merged = some call) =
    if call < n then [.applyCodecUpdate call, .mergeRemoteTrack call] else []

end UpdateStep

/-- It has a track, a writer and a stream. -/
def RemoteTrack.Brings (remote : RemoteTrack) : Prop :=
  remote.track.isSome ∧ remote.feedback.isSome ∧ (normalizeRemoteTrack remote).stream.id ≠ ""

/-- All parts are those of one call. -/
def TrackReader.InstalledBy (r : TrackReader) (remote : RemoteTrack) : Prop :=
  (r.reader = remote.track.map (·.transport) ∧ r.remote.stream.id = (normalizeRemoteTrack remote).stream.id) ∧
    r.remote.track = remote.track ∧ r.remote.feedback = remote.feedback

variable {remotes : ℕ → RemoteTrack} {r r' : TrackReader}

lemma track_normalizeRemoteTrack (remote : RemoteTrack) :
    (normalizeRemoteTrack remote).track = remote.track ∧
      (normalizeRemoteTrack remote).feedback = remote.feedback := by
  unfold normalizeRemoteTrack
  split <;> simp

lemma updateTrack_installs {remote : RemoteTrack} (hbrings : remote.Brings)
    (h : r.updateTrack none remote none = .ok r') :
    (r'.reader = remote.track.map (·.transport) ∧
      r'.remote.stream.id = (normalizeRemoteTrack remote).stream.id) ∧
    r'.remote.track = r.remote.track ∧ r'.remote.feedback = r.remote.feedback := by
  obtain ⟨track, htrack⟩ := Option.isSome_iff_exists.mp hbrings.1
  have hreplacement : TrackReader.replacementOf (normalizeRemoteTrack remote) none = some track.transport := by
    simp [TrackReader.replacementOf, track_normalizeRemoteTrack, htrack]
  simp only [TrackReader.updateTrack, hreplacement, TrackReader.applyCodecUpdate] at h
  split_ifs at h
  obtain rfl := Except.ok.inj h
  have hid (current : Av.Stream) (update : TrackCodecUpdate) (hid : update.stream.id ≠ "") :
      (streamFromCodecUpdate current update).id = update.stream.id := by
    unfold streamFromCodecUpdate
    simp only [fillFromCodec]
    split <;> simp [mergeWebRTCCodec, mergeStream, hid]
  refine ⟨⟨by simp [TrackReader.configure, TrackReader.replaceReader, htrack], hid _ _ hbrings.2.2⟩, ?_⟩
  simp only [TrackReader.configure, TrackReader.replaceReader, TrackReader.expireLocked]
  split <;> simp

/-- The transport and the stream are those of the last update, the rest those of the last merge. -/
lemma installed_by_last (hbrings : ∀ call, (remotes call).Brings) {steps : List UpdateStep} :
    ∀ {r'}, steps.foldlM (UpdateStep.run remotes) r = .ok r' →
    (∀ call, (steps.filterMap UpdateStep.applied).getLast? = some call →
      r'.reader = (remotes call).track.map (·.transport) ∧
        r'.remote.stream.id = (normalizeRemoteTrack (remotes call)).stream.id) ∧
    ∀ call, (steps.filterMap UpdateStep.merged).getLast? = some call →
      r'.remote.track = (remotes call).track ∧ r'.remote.feedback = (remotes call).feedback := by
  induction steps using reverseRecOn with
  | nil => simp
  | append_singleton steps step ih =>
    intro r' h
    rw [foldlM_append] at h
    obtain ⟨r₁, h₁, h⟩ := bind_eq_ok.mp h
    obtain ⟨r₂, h₂, h⟩ := bind_eq_ok.mp h
    obtain rfl := pure_eq_ok.mp h
    obtain ⟨happlied, hmerged⟩ := ih h₁
    cases step with
    | applyCodecUpdate call =>
      obtain ⟨hinstalled, htrack, hfeedback⟩ := updateTrack_installs (hbrings call) h₂
      simp only [filterMap_append, filterMap_cons, UpdateStep.applied, getLast?_append, htrack, hfeedback]
      exact ⟨by simpa using hinstalled, hmerged⟩
    | mergeRemoteTrack call =>
      obtain rfl := Except.ok.inj h₂
      obtain ⟨⟨track, htrack⟩, ⟨feedback, hfeedback⟩⟩ :=
        And.intro (Option.isSome_iff_exists.mp (hbrings call).1)
          (Option.isSome_iff_exists.mp (hbrings call).2.1)
      simp only [filterMap_append, filterMap_cons, UpdateStep.applied, UpdateStep.merged, filterMap_nil,
        append_nil]
      exact ⟨happlied, by simp [TrackReader.mergeRemoteTrack, track_normalizeRemoteTrack, htrack, hfeedback]⟩

/-- **Updates install the parts of one call** if the call that updates the codec last is also the last to
merge, and only then if every call has a track of its own. -/
theorem updates_from_one_call (hbrings : ∀ call, (remotes call).Brings) {steps : List UpdateStep}
    (hrun : steps.foldlM (UpdateStep.run remotes) r = .ok r') {call merged : ℕ}
    (happlied : (steps.filterMap UpdateStep.applied).getLast? = some call)
    (hmerged : (steps.filterMap UpdateStep.merged).getLast? = some merged) :
    (merged = call → r'.InstalledBy (remotes call)) ∧
      ((∀ a b, (remotes a).track = (remotes b).track → a = b) →
        r'.InstalledBy (remotes call) → merged = call) := by
  obtain ⟨hreader, htrack⟩ := installed_by_last hbrings hrun
  refine ⟨?_, fun hown hinstalled => ?_⟩
  · rintro rfl
    exact ⟨hreader _ happlied, htrack _ hmerged⟩
  · exact hown _ _ ((htrack _ hmerged).1.symm.trans hinstalled.2.1)

def ownTrack (call : ℕ) : RemoteTrack :=
  { track := some { transport := call }, stream := { id := if call = 0 then "a" else "b" },
    feedback := some call }

lemma brings_ownTrack (call : ℕ) : (ownTrack call).Brings := by
  refine ⟨rfl, rfl, ?_⟩
  simp only [normalizeRemoteTrack, ownTrack]
  split_ifs <;> simp_all

theorem updates_from_one_call_two :
    ∃ r', [.applyCodecUpdate 0, .applyCodecUpdate 1, .mergeRemoteTrack 0, .mergeRemoteTrack 1].foldlM
        (UpdateStep.run ownTrack) (newTrackReader {} none) = .ok r' ∧ r'.InstalledBy (ownTrack 1) :=
  ⟨_, rfl, (@updates_from_one_call ownTrack (newTrackReader {} none) _ brings_ownTrack
    [.applyCodecUpdate 0, .applyCodecUpdate 1, .mergeRemoteTrack 0, .mergeRemoteTrack 1] rfl 1 1 rfl rfl).1 rfl⟩

/-- The second call merges first: the first one's track and feedback writer stay. -/
theorem updates_mixed : ¬ ∀ (remotes : ℕ → RemoteTrack) (r r' : TrackReader) (n : ℕ) (steps : List UpdateStep)
    (call : ℕ), (∀ call, (remotes call).Brings) → UpdateStep.Interleaves n steps →
    steps.foldlM (UpdateStep.run remotes) r = .ok r' →
    (steps.filterMap UpdateStep.applied).getLast? = some call → r'.InstalledBy (remotes call) := by
  intro h
  have hinstalled := h ownTrack (newTrackReader {} none) _ 2
    [.applyCodecUpdate 0, .applyCodecUpdate 1, .mergeRemoteTrack 1, .mergeRemoteTrack 0] 1
    brings_ownTrack (fun call => ?_) rfl rfl
  · exact absurd hinstalled.2.2 (by decide)
  · rcases call with _ | _ | call <;> simp [UpdateStep.applied, UpdateStep.merged]

end Goav.Webrtcav
