import Goav.Clock.TimelineDefs
import Mathlib.Tactic.Linarith
import Mathlib.Tactic.Ring

/-!
What `Now` returns. The epoch that is stored, or about to be, maps the inner clock to the integral of the
rate (`Sound`); a `Now` under another epoch returns what the integral would be without the change.
-/

namespace Goav.Clock

open Goav.Lib Option

/-! ### Epochs and the integral -/

structure Epoch.Tracks (e : Epoch) (s : Timeline) : Prop where
  rate : e.rate = s.rate
  paused : e.paused = s.paused
  reading : e.readingAt s.inner = s.media

variable {s : Timeline}

lemma Epoch.Tracks.tick {e : Epoch} (h : e.Tracks s) (d : ℚ) : e.Tracks (s.tick d) := by
  refine ⟨h.rate, h.paused, ?_⟩
  have hreading := h.reading
  unfold Epoch.readingAt at hreading ⊢
  simp only [Timeline.tick, ← h.paused, ← hreading]
  split
  · simp
  · rw [← h.rate]
    ring

structure Sound (s : Timeline) : Prop where
  rate_pos : 0 < s.rate
  tracks : s.current.Tracks s
  anchored : s.mu = none → s.anchored = none

lemma Sound.tracks_epoch (h : Sound s) (hnone : s.anchored = none) : s.epoch.Tracks s := by
  have := h.tracks
  rwa [Timeline.current, hnone] at this

lemma media_le_tick (h : Sound s) {d : ℚ} (hd : 0 ≤ d) : s.media ≤ (s.tick d).media := by
  simp only [Timeline.tick]
  split
  · linarith
  · have := mul_nonneg hd h.rate_pos.le
    linarith

lemma sound_tick (h : Sound s) (d : ℚ) : Sound (s.tick d) :=
  ⟨h.rate_pos, h.tracks.tick d, h.anchored⟩

/-! ### Assertions -/

def Holds (t : ℕ) (s : Timeline) : Prop := s.mu = some t ∧ s.anchored = none

def CallOk (t : ℕ) (s : Timeline) : Call → Prop
  | .nowLoad start | .nowRead start _ => start ≤ s.media
  | .nowReturned start value finish => start ≤ value ∧ value ≤ finish ∧ finish ≤ s.media
  | .setRateLock rate => 0 < rate
  | .setRateLoad rate => 0 < rate ∧ Holds t s
  | .setRateRead rate e => 0 < rate ∧ Holds t s ∧ e = s.epoch
  | .pauseLoad | .resumeLoad | .unlock => Holds t s
  | .pauseRead e => Holds t s ∧ e = s.epoch
  | .resumeRead e => Holds t s ∧ e = s.epoch ∧ e.paused = true
  | .store e => s.mu = some t ∧ s.anchored = some e
  | _ => True

def Call.since (s : Timeline) : Call → ℚ
  | .nowLoad start | .nowRead start _ | .nowReturned start _ _ => start
  | _ => s.media

structure RoutineOk (t : ℕ) (s : Timeline) (l : Routine) : Prop where
  call : CallOk t s l.call
  last : ∀ v ∈ l.last, v ≤ l.call.since s

/-! ### The steps of the others -/

/-- What goroutine `u` can rely on across the steps of the others and of the inner clock. -/
structure Later (u : ℕ) (s s' : Timeline) : Prop where
  media : s.media ≤ s'.media
  holder : s.mu = some u → s'.mu = some u ∧ s'.anchored = s.anchored ∧ s'.epoch = s.epoch

lemma Later.rfl {u : ℕ} : Later u s s :=
  ⟨le_refl _, fun h => ⟨h, Eq.refl _, Eq.refl _⟩⟩

lemma Holds.later {u : ℕ} {s' : Timeline} (h : Holds u s) (hlater : Later u s s') :
    Holds u s' ∧ s'.epoch = s.epoch := by
  obtain ⟨hmu, hanchored, hepoch⟩ := hlater.holder h.1
  exact ⟨⟨hmu, hanchored.trans h.2⟩, hepoch⟩

theorem RoutineOk.later {u : ℕ} {s' : Timeline} (hlater : Later u s s') {l : Routine}
    (h : RoutineOk u s l) : RoutineOk u s' l := by
  obtain ⟨hcall, hlast⟩ := h
  have hmedia := hlater.media
  refine ⟨?_, fun v hv => (hlast v hv).trans ?_⟩
  · cases hl : l.call <;> rw [hl] at hcall
    case nowLoad start => exact le_trans hcall hmedia
    case nowRead start e => exact le_trans hcall hmedia
    case nowReturned start value finish => exact ⟨hcall.1, hcall.2.1, hcall.2.2.trans hmedia⟩
    case setRateLoad rate => exact ⟨hcall.1, (hcall.2.later hlater).1⟩
    case setRateRead rate e =>
      obtain ⟨hholds, hepoch⟩ := hcall.2.1.later hlater
      exact ⟨hcall.1, hholds, hcall.2.2.trans hepoch.symm⟩
    case pauseLoad => exact (Holds.later hcall hlater).1
    case resumeLoad => exact (Holds.later hcall hlater).1
    case unlock => exact (Holds.later hcall hlater).1
    case pauseRead e =>
      obtain ⟨hholds, hepoch⟩ := hcall.1.later hlater
      exact ⟨hholds, hcall.2.trans hepoch.symm⟩
    case resumeRead e =>
      obtain ⟨hholds, hepoch⟩ := hcall.1.later hlater
      exact ⟨hholds, hcall.2.1.trans hepoch.symm, hcall.2.2⟩
    case store e =>
      obtain ⟨hmu, hanchored, -⟩ := hlater.holder hcall.1
      exact ⟨hmu, hanchored.trans hcall.2⟩
    all_goals trivial
  · cases l.call <;> first | exact le_refl _ | exact hmedia

/-! ### The steps of the goroutine itself -/

def Routine.reads (l : Routine) (a : Action) : Option Epoch :=
  match a, l.call with
  | .next, .nowRead _ e => some e
  | _, _ => none

/-- When a `Now` reads the inner clock, the epoch it has loaded is the one in force. -/
def Undisturbed (_ : ℕ) (a : Action) (s : Timeline) (l : Routine) : Prop :=
  ∀ e ∈ l.reads a, e = s.current

instance (t : ℕ) (a : Action) (s : Timeline) (l : Routine) : Decidable (Undisturbed t a s l) :=
  inferInstanceAs (Decidable (∀ e ∈ l.reads a, e = s.current))

structure StepOk (t : ℕ) (s s' : Timeline) (l' : Routine) : Prop where
  sound : Sound s'
  later : ∀ u, u ≠ t → Later u s s'
  routine : RoutineOk t s' l'

section

variable {t : ℕ} {s s' : Timeline} {l : Routine} {call' : Call}

lemma StepOk.locks (hs : Sound s) {next : Call} (h : s.lock t next = some (s', call'))
    (hnext : ∀ {s'}, Holds t s' → CallOk t s' next) (hsince : ∀ s, next.since s = s.media)
    {last : Option ℚ} (hlast : ∀ v ∈ last, v ≤ s.media) : StepOk t s s' { call := call', last } := by
  unfold Timeline.lock at h
  split at h
  · rename_i hfree
    cases h
    have htracks := hs.tracks
    refine ⟨⟨hs.rate_pos, ⟨htracks.rate, htracks.paused, htracks.reading⟩,
      fun hmu => absurd hmu (by simp)⟩, fun _ _ => ⟨le_refl _,
        fun hmu => absurd (hfree.symm.trans hmu) (by simp)⟩,
      hnext ⟨rfl, hs.anchored hfree⟩, fun v hv => ?_⟩
    exact (hlast v hv).trans_eq (hsince _).symm
  · simp at h

lemma ne_of_holder (hmu : s.mu = some t) {u : ℕ} (hu : u ≠ t) : s.mu ≠ some u :=
  fun h => hu (some.inj (h.symm.trans hmu))

/-- A setter reads the inner clock: the new epoch goes on where the old one is. -/
lemma StepOk.anchors (hholds : Holds t s) {e : Epoch} (hrate : 0 < e.rate)
    (hreading : e.readingAt s.inner = s.media) {last : Option ℚ} (hlast : ∀ v ∈ last, v ≤ s.media) :
    StepOk t s (s.anchor e) { call := .store e, last } := by
  refine ⟨⟨hrate, ⟨rfl, rfl, hreading⟩, fun hmu => ?_⟩, fun u hu => ⟨le_refl _, ?_⟩, ⟨hholds.1, rfl⟩, hlast⟩
  · exact absurd (hholds.1.symm.trans hmu) (by simp)
  · exact fun hmu => absurd hmu (ne_of_holder hholds.1 hu)

theorem next_ok (hs : Sound s) (hl : RoutineOk t s l) (hg : Undisturbed t .next s l)
    (h : l.call.next t s = some (s', call')) : StepOk t s s' { call := call', last := l.remember } := by
  obtain ⟨call, last⟩ := l
  obtain ⟨hcall, hlast⟩ := hl
  have hrate := hs.rate_pos
  cases call with
  | idle => simp [Call.next] at h
  | nowLoad start =>
    cases h
    exact ⟨hs, fun _ _ => .rfl, hcall, hlast⟩
  | nowRead start e =>
    -- the epoch that was loaded is the one in force, so the reading is the integral
    have hreading : e.readingAt s.inner = s.media := by
      rw [hg e rfl]
      exact hs.tracks.reading
    cases h
    exact ⟨hs, fun _ _ => .rfl, ⟨hcall.trans_eq hreading.symm, hreading.le, le_refl _⟩, hlast⟩
  | nowReturned start value finish =>
    cases h
    refine ⟨hs, fun _ _ => .rfl, trivial, ?_⟩
    rintro v ⟨⟩
    exact hcall.2.1.trans hcall.2.2
  | setRateLock rate => exact .locks hs h (fun hholds => ⟨hcall, hholds⟩) (fun _ => rfl) hlast
  | setRateLoad rate =>
    cases h
    exact ⟨hs, fun _ _ => .rfl, ⟨hcall.1, hcall.2, rfl⟩, hlast⟩
  | setRateRead rate e =>
    obtain ⟨hpos, hholds, rfl⟩ := hcall
    cases h
    refine .anchors hholds hpos ?_ hlast
    rw [← (hs.tracks_epoch hholds.2).reading]
    simp [Epoch.readingAt]
  | setRateRefused =>
    cases h
    exact ⟨hs, fun _ _ => .rfl, trivial, hlast⟩
  | pauseLock => exact .locks hs h (fun hholds => hholds) (fun _ => rfl) hlast
  | pauseLoad =>
    cases h
    split
    · exact ⟨hs, fun _ _ => .rfl, hcall, hlast⟩
    · exact ⟨hs, fun _ _ => .rfl, ⟨hcall, rfl⟩, hlast⟩
  | pauseRead e =>
    obtain ⟨hholds, rfl⟩ := hcall
    cases h
    have htracks := hs.tracks_epoch hholds.2
    refine .anchors hholds (by rw [htracks.rate]; exact hrate) ?_ hlast
    rw [← htracks.reading]
    simp [Epoch.readingAt]
  | resumeLock => exact .locks hs h (fun hholds => hholds) (fun _ => rfl) hlast
  | resumeLoad =>
    cases h
    split_ifs with hpaused
    · exact ⟨hs, fun _ _ => .rfl, ⟨hcall, rfl, hpaused⟩, hlast⟩
    · exact ⟨hs, fun _ _ => .rfl, hcall, hlast⟩
  | resumeRead e =>
    obtain ⟨hholds, rfl, hpaused⟩ := hcall
    cases h
    have htracks := hs.tracks_epoch hholds.2
    refine .anchors hholds (by rw [htracks.rate]; exact hrate) ?_ hlast
    rw [← htracks.reading]
    simp [Epoch.readingAt, hpaused]
  | store e =>
    obtain ⟨hmu, hanchored⟩ := hcall
    cases h
    have htracks := hs.tracks
    rw [Timeline.current, hanchored] at htracks
    exact ⟨⟨hrate, ⟨htracks.rate, htracks.paused, htracks.reading⟩, fun _ => rfl⟩,
      fun u hu => ⟨le_refl _, fun h => absurd h (ne_of_holder hmu hu)⟩, ⟨hmu, rfl⟩, hlast⟩
  | unlock =>
    obtain ⟨hmu, hanchored⟩ := hcall
    cases h
    have htracks := hs.tracks
    exact ⟨⟨hrate, ⟨htracks.rate, htracks.paused, htracks.reading⟩, fun _ => hanchored⟩, fun u hu => ⟨le_refl _,
      fun h => absurd h (ne_of_holder hmu hu)⟩, trivial, hlast⟩

theorem start_ok (hs : Sound s) (hl : RoutineOk t s l) (hidle : l.call = .idle) {a : Action}
    (h : a.start s = some call') : StepOk t s s { l with call := call' } := by
  obtain ⟨call, last⟩ := l
  obtain rfl : call = .idle := hidle
  refine ⟨hs, fun _ _ => .rfl, ?_⟩
  cases a <;> simp only [Action.start, reduceCtorEq, some.injEq] at h <;> subst h
  case now => exact ⟨le_refl s.media, hl.last⟩
  case setRate rate =>
    split_ifs with hpos
    · exact ⟨hpos, hl.last⟩
    · exact ⟨trivial, hl.last⟩
  case pause => exact ⟨trivial, hl.last⟩
  case resume => exact ⟨trivial, hl.last⟩

theorem timelineAct_ok (hs : Sound s) (hl : RoutineOk t s l) {a : Action} {l' : Routine}
    (hg : Undisturbed t a s l) (h : timelineAct t a s l = some (s', l')) : StepOk t s s' l' := by
  unfold timelineAct at h
  split at h
  case h_1 d =>
    split at h
    · rename_i hd
      cases h
      -- the goroutine whose turn it is relies on no more than the others do
      have hlater : ∀ u, Later u s (s.tick d) := fun u =>
        ⟨media_le_tick hs hd, fun hmu => ⟨hmu, rfl, rfl⟩⟩
      exact ⟨sound_tick hs d, fun u _ => hlater u, hl.later (hlater t)⟩
    · simp at h
  case h_2 =>
    obtain ⟨⟨s₁, call'⟩, hnext, heq⟩ := map_eq_some_iff.mp h
    cases heq
    exact next_ok hs hl hg hnext
  case h_3 =>
    split at h
    · rename_i hidle
      obtain ⟨call', hstart, heq⟩ := map_eq_some_iff.mp h
      cases heq
      exact start_ok hs hl hidle hstart
    · simp at h

end

/-! ### Every interleaving -/

def timelineStart (inner : ℚ) : Threads Timeline Routine :=
  { shared := newTimeline inner, own := fun _ => {} }

lemma sound_newTimeline (inner : ℚ) : Sound (newTimeline inner) := by
  refine ⟨?_, ⟨rfl, rfl, ?_⟩, fun _ => rfl⟩
  · norm_num [newTimeline]
  · simp [newTimeline, Timeline.current, Epoch.readingAt]

theorem reaches_ok {inner : ℚ} {c : Threads Timeline Routine}
    (h : Reaches timelineAct Undisturbed (timelineStart inner) c) :
    Sound c.shared ∧ ∀ t, RoutineOk t c.shared (c.own t) := by
  refine h.outline Sound RoutineOk (sound_newTimeline inner) ?_ ?_ ?_
  · exact fun t => ⟨trivial, fun v hv => absurd hv (by simp [timelineStart])⟩
  · intro t a s l s' l' hs hl hg hact
    have hstep := timelineAct_ok hs hl hg hact
    exact ⟨hstep.sound, hstep.routine⟩
  · intro t a s l s' l' hs hl hg hact u m hu hm
    exact hm.later ((timelineAct_ok hs hl hg hact).later u hu)

/-- The value of a `Now` is between the integral at its start and at its end, and no less than the one
before. -/
def NowFollowsIntegral (l : Routine) : Prop :=
  ∀ {start value finish}, l.call = .nowReturned start value finish →
    start ≤ value ∧ value ≤ finish ∧ ∀ v ∈ l.last, v ≤ value

/-- **`Now` follows the integral** where each `Now` reads the inner clock under the epoch it loaded. -/
theorem now_follows_integral {inner : ℚ} {c : Threads Timeline Routine}
    (h : Reaches timelineAct Undisturbed (timelineStart inner) c) (t : ℕ) :
    NowFollowsIntegral (c.own t) := by
  intro start value finish hcall
  obtain ⟨hok, hlast⟩ := (reaches_ok h).2 t
  rw [hcall] at hok hlast
  exact ⟨hok.1, hok.2.1, fun v hv => (hlast v hv).trans hok.1⟩

def pausedBetween : List (ℕ × Action) :=
  [(0, .tick 1), (0, .now), (0, .next), (0, .tick 1), (0, .next), (0, .next), (1, .pause), (1, .next),
    (1, .next), (1, .next), (1, .next), (0, .tick 1), (0, .now), (0, .next), (0, .next)]

theorem now_follows_integral_paused_between :
    ∃ c, Reaches timelineAct Undisturbed (timelineStart 0) c ∧
      c.own 0 = { call := .nowReturned 2 2 2, last := some 2 } ∧ NowFollowsIntegral (c.own 0) := by
  have hrun : ((timelineStart 0).exec timelineAct Undisturbed pausedBetween).map (·.own 0) =
      some { call := .nowReturned 2 2 2, last := some 2 } := by decide +kernel
  obtain ⟨c, hc, hown⟩ := map_eq_some_iff.mp hrun
  have hreaches := Reaches.exec pausedBetween .refl hc
  exact ⟨c, hreaches, hown, now_follows_integral hreaches 0⟩

def pausedInside : List (ℕ × Action) :=
  [(0, .now), (0, .next), (1, .pause), (1, .next), (1, .next), (1, .next), (1, .next), (1, .next),
    (0, .tick 10), (0, .next), (0, .next), (0, .now), (0, .next), (0, .next)]

/-- The pause was over before the inner clock went on. -/
theorem now_goes_backwards :
    ∃ c, Reaches timelineAct (fun _ _ _ _ => True) (timelineStart 0) c ∧
      c.own 0 = { call := .nowReturned 0 0 0, last := some 10 } ∧
      ¬ NowFollowsIntegral (c.own 0) := by
  have hrun : ((timelineStart 0).exec timelineAct (fun _ _ _ _ => True) pausedInside).map
      (·.own 0) = some { call := .nowReturned 0 0 0, last := some 10 } := by decide +kernel
  obtain ⟨c, hc, hown⟩ := map_eq_some_iff.mp hrun
  refine ⟨c, Reaches.exec pausedInside .refl hc, hown, fun hfollows => ?_⟩
  rw [hown] at hfollows
  have := (hfollows rfl).2.2 10 rfl
  norm_num at this

end Goav.Clock
