import Goav.Player.EngineDefs

/-!
What a seek cuts. Two steps let old media through: a seek that is begun while a kind is still on an old
timeline, and a pause that ends during the cut.
-/

namespace Goav.Player

open Goav.Lib Function Option

/-! ### Steps of the engine -/

structure SameCut (e e' : Engine) : Prop where
  seeking : e'.seeking = e.seeking
  seekBudget : e'.seekBudget = e.seekBudget
  seekAt : e'.seekAt = e.seekAt
  cutAt : e'.cutAt = e.cutAt
  cutting : e'.cutting = e.cutting
  paused : e'.paused = e.paused
  closed : e'.closed = e.closed

namespace Engine

variable {e : Engine} {kind : Kind} {pts now : ℤ}

lemma sameCut_fill (rendered : Bool) (done : ℕ) : SameCut e (e.fill rendered done) := by
  unfold fill
  split <;> exact ⟨rfl, rfl, rfl, rfl, rfl, rfl, rfl⟩

lemma sameCut_nextVideo (master : Option ℤ) : SameCut e (e.nextVideo master) := by
  unfold nextVideo
  dsimp only
  split
  · exact ⟨rfl, rfl, rfl, rfl, rfl, rfl, rfl⟩
  · split <;> exact ⟨rfl, rfl, rfl, rfl, rfl, rfl, rfl⟩

lemma staleLocked_cases (e : Engine) (kind : Kind) (pts now : ℤ) :
    (e.seeking = false ∧ e.staleLocked kind pts now = (e, false)) ∨
    (e.seeking = true ∧
      ((e.charge now).seekBudget ≤ 0 ∧
          e.staleLocked kind pts now = ({ e.charge now with seeking := false }, false) ∨
        0 < (e.charge now).seekBudget ∧
          (e.cutting kind = false ∧ e.staleLocked kind pts now = (e.charge now, false) ∨
            e.cutting kind = true ∧ inSpan (e.cutAt kind) pts = true ∧
              e.staleLocked kind pts now = ({ e.charge now with
                cutAt := update e.cutAt kind (max (e.cutAt kind) pts) }, true) ∨
            e.cutting kind = true ∧ inSpan (e.cutAt kind) pts = false ∧
              e.staleLocked kind pts now = ((e.charge now).land kind, false)))) := by
  unfold staleLocked
  cases hseeking : e.seeking with
  | false => exact .inl ⟨rfl, rfl⟩
  | true =>
    refine .inr ⟨rfl, ?_⟩
    simp only [Bool.not_true, Bool.false_eq_true, if_false]
    by_cases hbudget : (e.charge now).seekBudget ≤ 0
    · exact .inl ⟨hbudget, by rw [if_pos hbudget]⟩
    · refine .inr ⟨not_le.mp hbudget, ?_⟩
      rw [if_neg hbudget]
      have hcutting : (e.charge now).cutting kind = e.cutting kind := rfl
      have hcutAt : (e.charge now).cutAt = e.cutAt := rfl
      rw [hcutting, hcutAt]
      cases e.cutting kind with
      | false => exact .inl ⟨rfl, rfl⟩
      | true =>
        cases inSpan (e.cutAt kind) pts with
        | true => exact .inr (.inl ⟨rfl, rfl, rfl⟩)
        | false => exact .inr (.inr ⟨rfl, rfl, rfl⟩)

lemma charged_of_seeking (h : (e.staleLocked kind pts now).1.seeking = true) :
    e.seeking = true ∧ (e.staleLocked kind pts now).1.seekAt = now ∧
      (e.staleLocked kind pts now).1.seekBudget = (e.charge now).seekBudget ∧
      (e.staleLocked kind pts now).1.paused = e.paused := by
  obtain ⟨hseeking, heq⟩ | ⟨hseeking, ⟨-, heq⟩ | ⟨-, ⟨-, heq⟩ | ⟨-, -, heq⟩ | ⟨-, -, heq⟩⟩⟩ :=
    e.staleLocked_cases kind pts now <;> rw [heq] at h ⊢
  · rw [hseeking] at h
    cases h
  all_goals exact ⟨hseeking, rfl, rfl, rfl⟩

lemma staleLocked_other {k : Kind} (pts : ℤ) (hk : k ≠ kind) (hseeking : e.seeking = true)
    (hcutting : e.cutting k = true) (hbudget : 0 < (e.charge now).seekBudget) :
    (e.staleLocked kind pts now).1.seeking = true ∧
      (e.staleLocked kind pts now).1.cutting k = true ∧
      (e.staleLocked kind pts now).1.cutAt k = e.cutAt k := by
  obtain ⟨hnone, -⟩ | ⟨-, ⟨hspent, -⟩ | ⟨-, ⟨-, heq⟩ | ⟨-, -, heq⟩ | ⟨-, -, heq⟩⟩⟩ :=
    e.staleLocked_cases kind pts now
  · rw [hseeking] at hnone
    cases hnone
  · omega
  all_goals rw [heq]
  · exact ⟨hseeking, hcutting, rfl⟩
  · exact ⟨hseeking, hcutting, update_of_ne hk _ _⟩
  · have hcutting' : update e.cutting kind false k = true := by
      rwa [update_of_ne hk]
    refine ⟨?_, hcutting', rfl⟩
    show (e.seeking && (update e.cutting kind false .audio || update e.cutting kind false .video)) = true
    cases k <;> simp [hseeking, hcutting']

lemma staleLocked_of_inSpan (hseeking : e.seeking = true) (hcutting : e.cutting kind = true)
    (hbudget : 0 < (e.charge now).seekBudget) (hspan : inSpan (e.cutAt kind) pts = true) :
    e.staleLocked kind pts now = ({ e.charge now with
      cutAt := update e.cutAt kind (max (e.cutAt kind) pts) }, true) := by
  obtain ⟨hnone, -⟩ | ⟨-, ⟨hspent, -⟩ | ⟨-, ⟨hnot, -⟩ | ⟨-, -, heq⟩ | ⟨-, hoff, -⟩⟩⟩ :=
    e.staleLocked_cases kind pts now
  · rw [hseeking] at hnone
    cases hnone
  · omega
  · rw [hcutting] at hnot
    cases hnot
  · exact heq
  · rw [hspan] at hoff
    cases hoff

lemma queue_staleLocked (e : Engine) (kind : Kind) (pts now : ℤ) :
    (e.staleLocked kind pts now).1.queue = e.queue := by
  obtain ⟨-, heq⟩ | ⟨-, ⟨-, heq⟩ | ⟨-, ⟨-, heq⟩ | ⟨-, -, heq⟩ | ⟨-, -, heq⟩⟩⟩ :=
    e.staleLocked_cases kind pts now <;> rw [heq] <;> rfl

variable {epoch : ℕ}

/-- **What a push does**: it is given up, or goes on to the queue. -/
lemma push_cases (e : Engine) (kind : Kind) (pts now : ℤ) (space : Space)
    (hclosed : e.closed = false) (hepoch : e.epoch = epoch) :
    SameCut (e.staleLocked kind pts now).1 (e.push kind epoch pts now space).1 ∧
      ((e.staleLocked kind pts now).2 = true →
        e.push kind epoch pts now space = ((e.staleLocked kind pts now).1, .dropped)) := by
  have hgo : ¬ (e.closed || decide (e.epoch ≠ epoch)) = true := by simp [hclosed, hepoch]
  cases kind with
  | audio =>
    simp only [push, pushAudio, if_neg hgo]
    cases hstale : (e.staleLocked .audio pts now).2 with
    | true => exact ⟨⟨rfl, rfl, rfl, rfl, rfl, rfl, rfl⟩, fun _ => rfl⟩
    | false =>
      refine ⟨?_, fun h => by cases h⟩
      simp only [Bool.false_eq_true, if_false]
      split <;> exact ⟨rfl, rfl, rfl, rfl, rfl, rfl, rfl⟩
  | video =>
    simp only [push, pushVideo, if_neg hgo]
    cases hstale : (e.staleLocked .video pts now).2 with
    | true => exact ⟨⟨rfl, rfl, rfl, rfl, rfl, rfl, rfl⟩, fun _ => rfl⟩
    | false =>
      refine ⟨?_, fun h => by cases h⟩
      simp only [Bool.false_eq_true, if_false]
      split
      · exact ⟨rfl, rfl, rfl, rfl, rfl, rfl, rfl⟩
      · split <;> exact ⟨rfl, rfl, rfl, rfl, rfl, rfl, rfl⟩

lemma push_queued {space : Space} (hclosed : e.closed = false)
    (hepoch : e.epoch = epoch) (hstale : (e.staleLocked kind pts now).2 = false)
    (hroom : space.room = true) (hshort : (e.queue .video).length < videoHardCap) :
    (e.push kind epoch pts now space).2 = .queued := by
  cases kind with
  | audio => simp [push, pushAudio, hclosed, hepoch, hstale, hroom]
  | video =>
    have hqueue : (e.staleLocked .video pts now).1.video = e.video :=
      congrFun (e.queue_staleLocked .video pts now) .video
    change e.video.length < videoHardCap at hshort
    simp [push, pushVideo, hclosed, hepoch, hstale, hroom, hqueue, hshort]

lemma push_of_gone {space : Space} (h : (e.closed || decide (e.epoch ≠ epoch)) = true) :
    e.push kind epoch pts now space = (e, .dropped) := by
  cases kind with
  | audio => exact if_pos h
  | video => exact if_pos h

end Engine

/-! ### The condition -/

/-- The window around a time does not wrap. -/
def Fits (newest : ℤ) : Prop := -2 ^ 63 ≤ newest - staleBehind ∧ newest + staleAhead < 2 ^ 63

instance (newest : ℤ) : Decidable (Fits newest) := inferInstanceAs (Decidable (_ ∧ _))

lemma toDuration_eq {x : ℤ} (hlo : -2 ^ 63 ≤ x) (hhi : x < 2 ^ 63) : toDuration x = x := by
  unfold toDuration
  rw [Int.bmod_def]
  split <;> omega

lemma inSpan_iff {newest pts : ℤ} (h : Fits newest) :
    Engine.inSpan newest pts = true ↔ newest - staleBehind ≤ pts ∧ pts ≤ newest + staleAhead := by
  have hbehind : staleBehind = 50000000 := rfl
  have hahead : staleAhead = 250000000 := rfl
  obtain ⟨hlo, hhi⟩ := h
  unfold Engine.inSpan
  rw [toDuration_eq hlo (by omega), toDuration_eq (by omega) hhi]
  simp

namespace SeekRun

/-- The engine has the newest time. -/
def Knows (s : SeekRun) (kind : Kind) : Prop :=
  (s.line kind).all fun newest => s.engine.have_ kind ∧ s.engine.newest kind = newest

instance (s : SeekRun) (kind : Kind) : Decidable (s.Knows kind) := inferInstanceAs (Decidable (_ = _))

/-- A seek is begun while the engine knows the timelines; a pause that ends during a cut ends where the
wait was settled; media arrives with readings in order. -/
def Meets (s : SeekRun) : EngineAction → Prop
  | .beginSeek now => s.clockAt ≤ now ∧ s.Knows .audio ∧ s.Knows .video
  | .discontinuity now =>
    s.engine.seeking = false ∧ s.engine.played = true →
      s.clockAt ≤ now ∧ s.Knows .audio ∧ s.Knows .video
  | .setPaused paused now =>
    s.engine.seeking = true ∧ s.engine.paused = true ∧ paused = false →
      max s.clockAt now ≤ s.engine.seekAt
  | .push kind _ _ now _ =>
    (s.engine.seeking = true ∧ s.engine.paused = false → s.engine.seekAt ≤ now) ∧
      (s.old kind = true → (s.line kind).all (Fits ·))
  | _ => True

instance (s : SeekRun) (a : EngineAction) : Decidable (s.Meets a) := by
  cases a <;> unfold Meets <;> infer_instance

/-! ### The invariant -/

/-- A kind on an old timeline is cut at the newest time there, and the wait is long enough. -/
structure CutOk (s : SeekRun) : Prop where
  cut : ∀ kind newest, s.old kind = true → s.line kind = some newest → s.waited < seekWait →
    s.engine.closed = false →
      s.engine.seeking = true ∧ s.engine.cutting kind = true ∧ s.engine.cutAt kind = newest
  settled : s.engine.seeking = true → s.engine.seekAt ≤ s.clockAt
  budget : s.engine.seeking = true → seekWait - s.waited ≤
    s.engine.seekBudget - if s.engine.paused then 0 else s.clockAt - s.engine.seekAt

variable {s : SeekRun}

lemma CutOk.of_not_seeking (hseeking : s.engine.seeking = false)
    (hold : s.engine.closed = false → ∀ kind, s.old kind = false) : CutOk s := by
  refine ⟨fun kind newest hkind _ _ hopen => ?_, fun h => ?_, fun h => ?_⟩
  · rw [hold hopen kind] at hkind
    cases hkind
  all_goals
    rw [hseeking] at h
    cases h

lemma CutOk.sameCut {e : Engine} (h : CutOk s) (hsame : SameCut s.engine e) :
    CutOk { s with engine := e } := by
  obtain ⟨hseeking, hbudget, hat, hcutAt, hcutting, hpaused, hclosed⟩ := hsame
  refine ⟨?_, ?_, ?_⟩
  · intro kind newest hold hline hwait hopen
    rw [hseeking, hcutting, hcutAt]
    exact h.cut kind newest hold hline hwait (hclosed ▸ hopen)
  · rw [hseeking, hat]
    exact h.settled
  · rw [hseeking, hbudget, hat, hpaused]
    exact h.budget

lemma CutOk.tick (h : CutOk s) (now : ℤ) : CutOk (s.tick now) := by
  refine ⟨fun kind newest hold hline hwait hopen => ?_, fun hseeking => ?_, fun hseeking => ?_⟩
  · refine h.cut kind newest hold hline (lt_of_le_of_lt ?_ hwait) hopen
    show s.waited ≤ s.waited + _
    split <;> omega
  · exact le_trans (h.settled hseeking) (le_max_left _ _)
  · have hbudget := h.budget hseeking
    show seekWait - (s.waited + if s.engine.paused then 0 else max (now - s.clockAt) 0) ≤
      s.engine.seekBudget - if s.engine.paused then 0 else max s.clockAt now - s.engine.seekAt
    split_ifs at hbudget ⊢
    all_goals omega

lemma CutOk.begin_ {now : ℤ} (hclock : s.clockAt ≤ now) (hknows : ∀ kind, s.Knows kind) :
    CutOk (s.begin_ now) := by
  refine ⟨fun kind newest _ hline _ _ => ?_, fun _ => ?_, fun _ => ?_⟩
  · have hknown := hknows kind
    change s.line kind = some newest at hline
    rw [Knows, hline, all_some, decide_eq_true_eq] at hknown
    exact ⟨rfl, hknown.1, hknown.2⟩
  · exact le_max_right _ _
  · show seekWait - 0 ≤ seekWait - if s.engine.paused then 0 else max s.clockAt now - now
    split <;> omega

lemma CutOk.setPaused (h : CutOk s) (paused : Bool)
    (hresume : s.engine.seeking = true ∧ s.engine.paused = true ∧ paused = false →
      s.clockAt ≤ s.engine.seekAt) :
    CutOk { s with engine := s.engine.setPaused paused } := by
  refine ⟨h.cut, h.settled, fun hseeking => ?_⟩
  have hbudget := h.budget hseeking
  have hsettled := h.settled hseeking
  show seekWait - s.waited ≤ s.engine.seekBudget - if paused then 0 else s.clockAt - s.engine.seekAt
  cases paused with
  | true =>
    simp only [if_true]
    split at hbudget <;> omega
  | false =>
    cases hwas : s.engine.paused with
    | true =>
      have := hresume ⟨hseeking, hwas, rfl⟩
      omega
    | false =>
      simp only [hwas] at hbudget
      exact hbudget

lemma CutOk.charge {now : ℤ} (h : CutOk s) (hseeking : s.engine.seeking = true)
    (hread : s.engine.seeking = true ∧ s.engine.paused = false → s.engine.seekAt ≤ now) :
    seekWait - s.waited ≤ (s.engine.charge now).seekBudget -
      if s.engine.paused then 0 else s.clockAt - now := by
  have hbudget := h.budget hseeking
  unfold Engine.charge
  cases hpaused : s.engine.paused with
  | true => simpa [hpaused] using hbudget
  | false =>
    have := hread ⟨hseeking, hpaused⟩
    simp only [hpaused, Bool.false_eq_true, if_false] at hbudget ⊢
    omega

section

variable {kind k : Kind} {pts : ℤ} {queued : Bool}

lemma waited_arrive : (s.arrive kind pts queued).waited = s.waited := by
  unfold arrive
  split <;> rfl

lemma clockAt_arrive : (s.arrive kind pts queued).clockAt = s.clockAt := by
  unfold arrive
  split <;> rfl

lemma old_arrive_of_ne (hk : k ≠ kind) : (s.arrive kind pts queued).old k = s.old k := by
  unfold arrive
  split
  · rfl
  · exact update_of_ne hk _ _

lemma line_arrive_of_ne (hk : k ≠ kind) : (s.arrive kind pts queued).line k = s.line k := by
  unfold arrive
  split <;> exact update_of_ne hk _ _

end

/-- **Media arrives**: what lies on the old timeline is recognized, and the cut goes on. -/
lemma CutOk.stale {kind : Kind} {pts now : ℤ} (h : CutOk s) (hnow : now ≤ s.clockAt)
    (hread : s.engine.seeking = true ∧ s.engine.paused = false → s.engine.seekAt ≤ now)
    (hfits : s.old kind = true → (s.line kind).all (Fits ·)) (hclosed : s.engine.closed = false)
    (queued : Bool) :
    CutOk { s.arrive kind pts queued with engine := (s.engine.staleLocked kind pts now).1 } ∧
      (s.OnOldTimeline kind pts → (s.engine.staleLocked kind pts now).2 = true) := by
  have hleft : s.engine.seeking = true → s.waited < seekWait → 0 < (s.engine.charge now).seekBudget := by
    intro hseeking hwait
    have := h.charge hseeking hread
    split at this <;> omega
  have hold : s.OnOldTimeline kind pts → ∃ newest, s.line kind = some newest ∧
      s.engine.staleLocked kind pts now = ({ s.engine.charge now with
        cutAt := update s.engine.cutAt kind (max newest pts) }, true) := by
    rintro ⟨hold, hwait, hspan⟩
    cases hline : s.line kind with
    | none =>
      rw [hline] at hspan
      cases hspan
    | some newest =>
      rw [hline, any_some, decide_eq_true_eq] at hspan
      have hfit := hfits hold
      rw [hline, all_some, decide_eq_true_eq] at hfit
      obtain ⟨hseeking, hcutting, rfl⟩ := h.cut kind newest hold hline hwait hclosed
      exact ⟨_, rfl, Engine.staleLocked_of_inSpan hseeking hcutting (hleft hseeking hwait)
        ((inSpan_iff hfit).mpr hspan)⟩
  refine ⟨⟨?_, ?_, ?_⟩, fun honold => ?_⟩
  · intro k newest hk hline hwait _
    rw [waited_arrive] at hwait
    by_cases hkind : k = kind
    · subst hkind
      by_cases honold : s.OnOldTimeline k pts
      · obtain ⟨n, hn, heq⟩ := hold honold
        have hcut := h.cut k n honold.1 hn hwait hclosed
        have hmax : newest = max n pts := by
          simp only [arrive, if_pos honold, update_self, hn] at hline
          exact (some.inj hline).symm
        rw [heq]
        exact ⟨hcut.1, hcut.2.1, (update_self k _ _).trans hmax.symm⟩
      · simp [arrive, honold] at hk
    · rw [old_arrive_of_ne hkind] at hk
      rw [line_arrive_of_ne hkind] at hline
      obtain ⟨hseeking, hcutting, hcutAt⟩ := h.cut k newest hk hline hwait hclosed
      obtain ⟨hs, hc, ha⟩ := Engine.staleLocked_other pts hkind hseeking hcutting
        (hleft hseeking hwait)
      exact ⟨hs, hc, ha.trans hcutAt⟩
  · intro hseeking
    obtain ⟨-, hat, -, -⟩ := Engine.charged_of_seeking hseeking
    rw [hat, clockAt_arrive]
    exact hnow
  · intro hseeking
    obtain ⟨hwas, hat, hbudget, hpaused⟩ := Engine.charged_of_seeking hseeking
    rw [hat, hbudget, hpaused, waited_arrive, clockAt_arrive]
    exact h.charge hwas hread
  · obtain ⟨_, -, heq⟩ := hold honold
    rw [heq]

lemma meets_knows {s : SeekRun} (h : s.Knows .audio ∧ s.Knows .video) (kind : Kind) : s.Knows kind := by
  cases kind with
  | audio => exact h.1
  | video => exact h.2

lemma CutOk.act {a : EngineAction} (h : CutOk s) (hmeets : s.Meets a) : CutOk (s.act a) := by
  cases a with
  | beginSeek now => exact .begin_ hmeets.1 (meets_knows hmeets.2)
  | endSeek => exact .of_not_seeking rfl fun _ _ => rfl
  | discontinuity now =>
    unfold SeekRun.act
    dsimp only
    split_ifs with hbegins
    · rw [Bool.and_eq_true, Bool.not_eq_true'] at hbegins
      obtain ⟨hclock, hknows⟩ := hmeets hbegins
      exact .begin_ hclock (meets_knows hknows)
    · exact h.tick now
  | setPaused paused now => exact (h.tick now).setPaused paused hmeets
  | push kind epoch pts now space =>
    unfold SeekRun.act
    dsimp only
    split
    · exact h.tick now
    rename_i hgo
    have hgo' : s.engine.closed = false ∧ s.engine.epoch = epoch := by
      change ¬ (s.engine.closed || decide (s.engine.epoch ≠ epoch)) = true at hgo
      simpa using hgo
    have hcases := s.engine.push_cases kind pts now space hgo'.1 hgo'.2
    exact ((h.tick now).stale (le_max_right _ _) hmeets.1 hmeets.2 hgo'.1 _).1.sameCut hcases.1
  | fill rendered done => exact h.sameCut (Engine.sameCut_fill rendered done)
  | nextVideo master => exact h.sameCut (Engine.sameCut_nextVideo master)
  | end_ => exact h.sameCut ⟨rfl, rfl, rfl, rfl, rfl, rfl, rfl⟩
  | close => exact .of_not_seeking rfl fun hopen => by cases hopen

/-! ### Runs -/

theorem cutOk_of_runs (h : Runs (fun s a => some (SeekRun.act s a)) Meets {} s) : CutOk s := by
  refine h.invariant CutOk ?_ fun hok hmeets hact => some.inj hact ▸ hok.act hmeets
  exact .of_not_seeking rfl fun _ _ => rfl

end SeekRun

open SeekRun

/-- **Media of the old position is not queued**, in every run whose steps all meet the condition. -/
theorem stale_media_cut {s : SeekRun} {kind : Kind} {epoch : ℕ} {pts now : ℤ} {space : Space}
    (h : Runs (fun s a => some (SeekRun.act s a)) Meets {} s)
    (hmeets : s.Meets (.push kind epoch pts now space)) (hold : (s.tick now).OnOldTimeline kind pts) :
    (s.engine.push kind epoch pts now space).2 = .dropped ∧
      (s.engine.push kind epoch pts now space).1.queue = s.engine.queue := by
  have hok := cutOk_of_runs h
  by_cases hgone : (s.engine.closed || decide (s.engine.epoch ≠ epoch)) = true
  · rw [Engine.push_of_gone hgone]
    exact ⟨rfl, rfl⟩
  · have hgo : s.engine.closed = false ∧ s.engine.epoch = epoch := by simpa using hgone
    have hstale := ((hok.tick now).stale (le_max_right _ _) hmeets.1 hmeets.2 hgo.1 false).2 hold
    obtain ⟨-, hdropped⟩ := s.engine.push_cases kind pts now space hgo.1 hgo.2
    rw [hdropped hstale]
    exact ⟨rfl, s.engine.queue_staleLocked kind pts now⟩

/-- **A seek needs to know the timelines**: else it lets some old media be queued. -/
theorem slips_of_not_knows {s : SeekRun} {kind : Kind} {now : ℤ} (hclosed : s.engine.closed = false)
    (hfits : Fits (s.engine.newest kind)) (hnot : ¬ s.Knows kind) :
    ∃ pts, ((s.begin_ now).tick now).OnOldTimeline kind pts ∧
      ((s.begin_ now).engine.push kind (s.engine.epoch + 1) pts now
        { room := true, audioNeedsData := false }).2 = .queued := by
  obtain ⟨newest, hline, hdiffers⟩ : ∃ newest, s.line kind = some newest ∧
      ¬ (s.engine.have_ kind = true ∧ s.engine.newest kind = newest) := by
    unfold Knows at hnot
    cases hline : s.line kind with
    | none => simp [hline] at hnot
    | some newest => exact ⟨newest, rfl, by simpa [hline] using hnot⟩
  have hbehind : staleBehind = 50000000 := rfl
  have hahead : staleAhead = 250000000 := rfl
  -- a time in the span of the newest one, but not in the span that is cut
  obtain ⟨pts, hspan, hmissed⟩ : ∃ pts, (newest - staleBehind ≤ pts ∧ pts ≤ newest + staleAhead) ∧
        (s.engine.have_ kind = true → Engine.inSpan (s.engine.newest kind) pts = false) := by
    rcases lt_trichotomy (s.engine.newest kind) newest with hlt | heq | hgt
    · refine ⟨newest + staleAhead, by omega, fun _ => ?_⟩
      rw [Bool.eq_false_iff, ne_eq, inSpan_iff hfits]
      omega
    · exact ⟨newest, by omega, fun hhave => absurd ⟨hhave, heq⟩ hdiffers⟩
    · refine ⟨newest - staleBehind, by omega, fun _ => ?_⟩
      rw [Bool.eq_false_iff, ne_eq, inSpan_iff hfits]
      omega
  have hstale : ((s.begin_ now).engine.staleLocked kind pts now).2 = false := by
    obtain ⟨-, heq⟩ | ⟨-, ⟨-, heq⟩ | ⟨-, ⟨-, heq⟩ | ⟨hcutting, hin, -⟩ | ⟨-, -, heq⟩⟩⟩ :=
      (s.begin_ now).engine.staleLocked_cases kind pts now
    case inr.inr.inr.inl =>
      change Engine.inSpan (s.engine.newest kind) pts = true at hin
      rw [hmissed hcutting] at hin
      cases hin
    all_goals rw [heq]
  refine ⟨pts, ⟨?_, ?_, ?_⟩, ?_⟩
  · show (s.line kind).isSome = true
    rw [hline]
    rfl
  · have hwait : seekWait = 1000000000 := rfl
    show 0 + (if s.engine.paused then 0 else max (now - max s.clockAt now) 0) < seekWait
    split <;> omega
  · show (s.line kind).any _ = true
    rw [hline, any_some, decide_eq_true_eq]
    exact hspan
  · exact Engine.push_queued hclosed rfl hstale rfl (show 0 < videoHardCap by decide)

def roomy : Space := { room := true, audioNeedsData := false }

def milliseconds (n : ℤ) : ℤ := n * 1000000

def queuedRun : SeekRun := SeekRun.act {} (.push .video 0 (milliseconds 10000) 0 roomy)

def soughtRun : SeekRun := queuedRun.act (.beginSeek 0)

theorem slips_of_not_knows_sought : ¬ soughtRun.Knows .video ∧
    ∃ pts, ((soughtRun.begin_ 0).tick 0).OnOldTimeline .video pts ∧
      ((soughtRun.begin_ 0).engine.push .video 2 pts 0 roomy).2 = .queued :=
  ⟨by decide, @slips_of_not_knows soughtRun .video 0 rfl (by decide) (by decide)⟩

theorem stale_media_cut_once :
    Runs (fun s a => some (SeekRun.act s a)) Meets {} soughtRun ∧
      soughtRun.Meets (.push .video 1 (milliseconds 10040) (milliseconds 20) roomy) ∧
      (soughtRun.tick (milliseconds 20)).OnOldTimeline .video (milliseconds 10040) ∧
      (soughtRun.engine.push .video 1 (milliseconds 10040) (milliseconds 20) roomy).2 = .dropped ∧
      (soughtRun.engine.push .video 1 (milliseconds 10040) (milliseconds 20) roomy).1.queue =
        soughtRun.engine.queue := by
  have hqueued : Runs (fun s a => some (SeekRun.act s a)) Meets {} queuedRun :=
    Runs.refl.step (by decide) rfl
  have hsought : Runs (fun s a => some (SeekRun.act s a)) Meets {} soughtRun :=
    hqueued.step (by decide) rfl
  have hmeets : soughtRun.Meets (.push .video 1 (milliseconds 10040) (milliseconds 20) roomy) := by
    decide
  have hold : (soughtRun.tick (milliseconds 20)).OnOldTimeline .video (milliseconds 10040) := by decide
  exact ⟨hsought, hmeets, hold, stale_media_cut hsought hmeets hold⟩

def soughtTwice : SeekRun := soughtRun.act (.beginSeek 0)

def soughtPaused : SeekRun :=
  ((queuedRun.act (.setPaused true 0)).act (.beginSeek 0)).act (.setPaused false (milliseconds 10000))

/-- Media of the old position is queued after the second seek, and after the pause. -/
theorem stale_media_queued :
    (Runs (fun s a => some (SeekRun.act s a)) (fun _ _ => True) {} soughtTwice ∧
      (soughtTwice.tick (milliseconds 20)).OnOldTimeline .video (milliseconds 10040) ∧
      (soughtTwice.engine.push .video 2 (milliseconds 10040) (milliseconds 20) roomy).1.video =
        [milliseconds 10040]) ∧
    Runs (fun s a => some (SeekRun.act s a)) (fun _ _ => True) {} soughtPaused ∧
      (soughtPaused.tick (milliseconds 10020)).OnOldTimeline .video (milliseconds 10040) ∧
      (soughtPaused.engine.push .video 1 (milliseconds 10040) (milliseconds 10020) roomy).1.video =
        [milliseconds 10040] := by
  have hqueued : Runs (fun s a => some (SeekRun.act s a)) (fun _ _ => True) {} queuedRun :=
    Runs.refl.step trivial rfl
  refine ⟨⟨?_, by decide, by decide⟩, ?_, by decide, by decide⟩
  · exact (hqueued.step trivial rfl).step trivial rfl
  · exact ((hqueued.step trivial rfl).step trivial rfl).step trivial rfl

end Goav.Player
