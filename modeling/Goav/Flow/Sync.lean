import Goav.Av.Types
import Goav.Lib.History
import Mathlib.Order.Lattice

/-!
The shared timeline of sync gates (`flow/sync.go`, `sync.go`). Every critical section is one step, and
the steps come in any order. `closed` is left out: nothing sets it.
-/

namespace Goav.Flow

open Goav.Av Goav.Lib List Function

def streamRemoved : EventType := .other "stream_removed"

inductive SyncMode where
  | holdLate | dropLate

abbrev Latest := List (StreamID × ℤ)

variable (latest : Latest)

def Latest.set (stream : StreamID) (pts : ℤ) : Latest :=
  (stream, pts) :: latest.filter (·.1 ≠ stream)

def maxLocked : Option ℤ := (latest.map (·.2)).max?

def minLocked : Option ℤ := (latest.map (·.2)).min?

/-- The sum of two durations, which are 64-bit. -/
def addDuration (a b : ℤ) : ℤ := (a + b).bmod (2 ^ 64)

def tooEarlyLocked (pts tolerance : ℤ) : Bool :=
  if latest.length ≤ 1 then false else (minLocked latest).any (pts > addDuration · tolerance)

inductive Verdict where
  | drop (late : ℤ)
  | pass
  | wait
  deriving DecidableEq

/-- How far a time is behind a bound that it trails by more than the tolerance. -/
def lateness (pts tolerance : ℤ) (bound : Option ℤ) : Option ℤ :=
  bound.bind fun bound =>
    if addDuration pts tolerance < bound then some (addDuration bound (-pts)) else none

def streamKey (stream : StreamID) : StreamID := if stream = "" then "_" else stream

def syncAdmit (mode : SyncMode) (tolerance : ℤ) (latest : Latest) (stream : StreamID) (pts : ℤ) :
    Latest × Verdict :=
  let stream := streamKey stream
  match lateness pts tolerance (latest.lookup stream), mode with
  | some late, _ => (latest, .drop late)
  | none, .dropLate =>
    match lateness pts tolerance (maxLocked latest) with
    | some late => (latest, .drop late)
    | none => (latest.set stream pts, .pass)
  | none, .holdLate =>
    let latest := latest.set stream pts
    (latest, if tooEarlyLocked latest pts tolerance then .wait else .pass)

def names (types : List EventType) (event : Event) (stream : StreamID) : Bool :=
  event.type ∈ types && (event.streamID = "" || event.streamID = stream)

def observeEvent (event : Event) : Latest :=
  latest.filter fun entry => !names [.discontinuity, .codecChanged, streamRemoved] event entry.1

/-- The sum of a time and the tolerance does not overflow. -/
def Fits (tolerance pts : ℤ) : Prop := -2 ^ 63 ≤ pts + tolerance ∧ pts + tolerance < 2 ^ 63

lemma Fits.add {pts tolerance : ℤ} (h : Fits tolerance pts) : addDuration pts tolerance = pts + tolerance :=
  Int.bmod_eq_of_le (by have := h.1; omega) (by have := h.2; omega)

lemma mem_set {latest : Latest} {stream k : StreamID} {pts v : ℤ} :
    (k, v) ∈ latest.set stream pts ↔ k = stream ∧ v = pts ∨ k ≠ stream ∧ (k, v) ∈ latest := by
  simp only [Latest.set, mem_cons, Prod.mk.injEq, mem_filter, decide_eq_true_eq, and_comm]

lemma admit_cases (mode : SyncMode) (tolerance : ℤ) (latest : Latest) (stream : StreamID) (pts : ℤ) :
    (∃ late, syncAdmit mode tolerance latest stream pts = (latest, .drop late)) ∨
      ∃ v, syncAdmit mode tolerance latest stream pts = (latest.set (streamKey stream) pts, v) ∧
        (mode = .dropLate → v = .pass ∧ lateness pts tolerance (maxLocked latest) = none) := by
  simp only [syncAdmit]
  cases lateness pts tolerance (latest.lookup (streamKey stream)) with
  | some late => exact .inl ⟨late, rfl⟩
  | none =>
    cases mode with
    | holdLate => exact .inr ⟨_, rfl, nofun⟩
    | dropLate =>
      cases lateness pts tolerance (maxLocked latest) with
      | some late => exact .inl ⟨late, rfl⟩
      | none => exact .inr ⟨_, rfl, fun _ => ⟨rfl, rfl⟩⟩

/-! ### Dropping late media -/

/-- The messages that are admitted of a sequence of calls. -/
def admitted (tolerance : ℤ) : Latest → List (StreamID × ℤ) → List (StreamID × ℤ)
  | _, [] => []
  | latest, (stream, pts) :: calls =>
    let r := syncAdmit .dropLate tolerance latest stream pts
    if r.2 = .pass then (stream, pts) :: admitted tolerance r.1 calls else admitted tolerance r.1 calls

/-- A later message of the same stream is not before an earlier one. -/
def InOrder (a b : StreamID × ℤ) : Prop := streamKey a.1 = streamKey b.1 → a.2 ≤ b.2

/-- The earlier message is ahead of the later one by the tolerance at most. -/
def InTolerance (tolerance : ℤ) (a b : StreamID × ℤ) : Prop := a.2 ≤ b.2 + tolerance

lemma le_of_maxLocked {latest : Latest} {k : StreamID} {v pts tolerance : ℤ} (hfits : Fits tolerance pts)
    (h : lateness pts tolerance (maxLocked latest) = none) (hv : (k, v) ∈ latest) : v ≤ pts + tolerance := by
  have hmem : v ∈ latest.map (·.2) := mem_map_of_mem hv
  obtain ⟨bound, hbound⟩ := Option.ne_none_iff_exists'.mp (mt max?_eq_none_iff.mp (ne_nil_of_mem hmem))
  have hle : v ≤ bound := (max?_eq_some_iff.mp hbound).2 v hmem
  by_contra hlt
  simp [lateness, maxLocked, hbound, hfits.add, show pts + tolerance < bound by omega] at h

lemma admitted_of_past {tolerance : ℤ} (calls : List (StreamID × ℤ)) :
    ∀ {latest : Latest} {past : List (StreamID × ℤ)}, (∀ c ∈ calls, Fits tolerance c.2) →
      (∀ c ∈ past, ∃ v, (streamKey c.1, v) ∈ latest ∧ c.2 ≤ v) →
      (past ++ admitted tolerance latest calls).Pairwise InOrder →
      (admitted tolerance latest calls).Pairwise (InTolerance tolerance) ∧
        ∀ c ∈ past, ∀ p ∈ admitted tolerance latest calls, InTolerance tolerance c p := by
  induction calls with
  | nil => simp [admitted]
  | cons call calls ih =>
    obtain ⟨stream, pts⟩ := call
    intro latest past hfits hpast horder
    obtain ⟨hpts, hfits⟩ := forall_mem_cons.mp hfits
    rcases admit_cases .dropLate tolerance latest stream pts with ⟨late, hdrop⟩ | ⟨v, heq, hadmit⟩
    · simp only [admitted, hdrop] at horder ⊢
      exact ih hfits hpast horder
    obtain ⟨rfl, hmax⟩ := hadmit rfl
    simp only [admitted, heq] at horder ⊢
    have hset : ∀ c ∈ past ++ [(stream, pts)],
        ∃ v, (streamKey c.1, v) ∈ latest.set (streamKey stream) pts ∧ c.2 ≤ v := by
      intro c hc
      by_cases hkey : streamKey c.1 = streamKey stream
      · refine ⟨pts, mem_set.mpr (.inl ⟨hkey, rfl⟩), ?_⟩
        rcases mem_append.mp hc with hc | hc
        · exact (pairwise_append.mp horder).2.2 c hc _ mem_cons_self hkey
        · rw [mem_singleton.mp hc]
      · have hc : c ∈ past := (mem_append.mp hc).resolve_right fun h => hkey (by rw [mem_singleton.mp h])
        obtain ⟨v, hv, hle⟩ := hpast c hc
        exact ⟨v, mem_set.mpr (.inr ⟨hkey, hv⟩), hle⟩
    obtain ⟨hpair, hall⟩ := ih hfits hset (by simpa using horder)
    refine ⟨pairwise_cons.mpr ⟨hall (stream, pts) (by simp), hpair⟩, fun c hc p hp => ?_⟩
    rcases mem_cons.mp hp with rfl | hp
    · obtain ⟨v, hv, hle⟩ := hpast c hc
      exact hle.trans (le_of_maxLocked hpts hmax hv)
    · exact hall c (mem_append_left _ hc) p hp

/-- **No admitted message is late**, if the admitted messages of no stream go back. -/
theorem dropLate_admits_in_tolerance {tolerance : ℤ} {calls : List (StreamID × ℤ)}
    (hfits : ∀ c ∈ calls, Fits tolerance c.2) (h : (admitted tolerance [] calls).Pairwise InOrder) :
    (admitted tolerance [] calls).Pairwise (InTolerance tolerance) :=
  (@admitted_of_past tolerance calls [] [] hfits (by simp) h).1

/-- The message of `a` at 50 is dropped. -/
theorem dropLate_admits_in_tolerance_two :
    admitted 10 [] [("a", 100), ("a", 50), ("b", 91)] = [("a", 100), ("b", 91)] ∧
      [("a", 100), ("b", 91)].Pairwise (InTolerance 10) :=
  ⟨by decide, @dropLate_admits_in_tolerance 10 [("a", 100), ("a", 50), ("b", 91)] (by simp [Fits])
    (by simp [show admitted 10 [] [("a", 100), ("a", 50), ("b", 91)] = [("a", 100), ("b", 91)] by decide,
      InOrder, streamKey])⟩

/-- A stream goes back twice by less than the tolerance. -/
theorem dropLate_admits_late : ¬ ∀ tolerance ≥ 0, ∀ calls : List (StreamID × ℤ),
    (∀ c ∈ calls, Fits tolerance c.2) → (admitted tolerance [] calls).Pairwise (InTolerance tolerance) := by
  intro h
  have hlate := h 10 (by decide) [("a", 100), ("a", 91), ("a", 82)] (by simp [Fits])
  rw [show admitted 10 [] [("a", 100), ("a", 91), ("a", 82)] = [("a", 100), ("a", 91), ("a", 82)] by
    decide] at hlate
  simp [InTolerance] at hlate

/-! ### Holding early media -/

/-- The policy's table, and the calls that wait. -/
structure Timeline where
  latest : Latest := []
  waiting : StreamID → Option ℤ := fun _ => none
  /-- Ghost: the stream has offered a message since it was last reset, removed or ended. -/
  live : StreamID → Bool := fun _ => false

/-- A critical section of the scheduler. -/
inductive SyncAction where
  | offer (stream : StreamID) (pts : ℤ)
  | recheck (stream : StreamID) (ctxDone : Bool)
  | observe (event : Event)

/-- One critical section of `admit` or `observeEvent`. -/
def Timeline.step (tolerance : ℤ) (t : Timeline) : SyncAction → Timeline
  | .offer stream pts =>
    let key := streamKey stream
    if (t.waiting key).isSome then t
    else
      let r := syncAdmit .holdLate tolerance t.latest stream pts
      { latest := r.1
        waiting := if r.2 = .wait then update t.waiting key (some pts) else t.waiting
        live := update t.live key true }
  | .recheck stream ctxDone =>
    let key := streamKey stream
    if (t.waiting key).any (tooEarlyLocked t.latest · tolerance) && !ctxDone then t
    else { t with waiting := update t.waiting key none }
  | .observe event =>
    { t with
      latest := observeEvent t.latest event
      live := fun k =>
        t.live k && !names [.discontinuity, .codecChanged, streamRemoved, .endOfStream] event k }

/-- Every call that is too early waits for a stream that is behind it and live. -/
def WaitsForLive (tolerance : ℤ) (t : Timeline) : Prop :=
  ∀ stream pts, t.waiting stream = some pts → tooEarlyLocked t.latest pts tolerance = true →
    ∃ other v, other ≠ stream ∧ t.live other = true ∧ (other, v) ∈ t.latest ∧ v < pts - tolerance

/-- What each step has to meet: no sum overflows, and no stream ends that has a recorded time. -/
def Meets (tolerance : ℤ) (t : Timeline) : SyncAction → Prop
  | .offer _ pts => Fits tolerance pts
  | .recheck _ _ => True
  | .observe event => ∀ e ∈ t.latest, names [.endOfStream] event e.1 = false

structure TimelineOk (tolerance : ℤ) (t : Timeline) : Prop where
  live : ∀ k v, (k, v) ∈ t.latest → t.live k = true
  own : ∀ k v pts, t.waiting k = some pts → (k, v) ∈ t.latest → v = pts
  fits : ∀ k v, (k, v) ∈ t.latest → Fits tolerance v

variable {t : Timeline} {tolerance : ℤ}

section

variable (h : TimelineOk tolerance t)
include h

lemma TimelineOk.exists_least {pts : ℤ} (hearly : tooEarlyLocked t.latest pts tolerance = true) :
    ∃ k v, (k, v) ∈ t.latest ∧ v + tolerance < pts ∧ ∀ e ∈ t.latest, v ≤ e.2 := by
  unfold tooEarlyLocked at hearly
  split at hearly
  · simp at hearly
  obtain ⟨least, hleast⟩ := Option.isSome_iff_exists.mp (Option.isSome_of_any hearly)
  obtain ⟨hleast', hle⟩ := min?_eq_some_iff.mp hleast
  obtain ⟨⟨k, v⟩, hmem, rfl⟩ := mem_map.mp hleast'
  have hlt : addDuration v tolerance < pts := by simpa [hleast] using hearly
  rw [(h.fits k v hmem).add] at hlt
  exact ⟨k, v, hmem, hlt, fun e he => hle e.2 (mem_map_of_mem he)⟩

lemma TimelineOk.waitsForLive (htolerance : 0 ≤ tolerance) :
    WaitsForLive tolerance t := by
  intro stream pts hwaiting hearly
  obtain ⟨other, v, hmem, hlt, -⟩ := h.exists_least hearly
  refine ⟨other, v, ?_, h.live _ _ hmem, hmem, by omega⟩
  rintro rfl
  have := h.own _ _ _ hwaiting hmem
  omega

lemma TimelineOk.offer (stream : StreamID) {pts : ℤ}
    (hfits : Fits tolerance pts) : TimelineOk tolerance (t.step tolerance (.offer stream pts)) := by
  simp only [Timeline.step]
  split
  · exact h
  rename_i hnone
  rw [Option.not_isSome_iff_eq_none] at hnone
  have hlive {j : StreamID} (hj : t.live j = true) : update t.live (streamKey stream) true j = true := by
    by_cases heq : j = streamKey stream <;> simp [heq, hj]
  rcases admit_cases .holdLate tolerance t.latest stream pts with ⟨late, heq⟩ | ⟨verdict, heq, -⟩
  · simp only [heq]
    exact ⟨fun k v hmem => hlive (h.live k v hmem), h.own, h.fits⟩
  simp only [heq]
  constructor
  · intro k v hmem
    rcases mem_set.mp hmem with ⟨rfl, -⟩ | ⟨-, hmem⟩
    · simp
    · exact hlive (h.live k v hmem)
  · intro k v p hwaiting hmem
    dsimp only at hwaiting
    rcases mem_set.mp hmem with ⟨rfl, rfl⟩ | ⟨hk, hmem⟩
    · split at hwaiting
      · simpa using hwaiting
      · simp [hnone] at hwaiting
    · refine h.own k v p ?_ hmem
      split at hwaiting
      · rwa [update_of_ne hk] at hwaiting
      · exact hwaiting
  · intro k v hmem
    rcases mem_set.mp hmem with ⟨-, rfl⟩ | ⟨-, hmem⟩
    · exact hfits
    · exact h.fits k v hmem

lemma TimelineOk.step {a : SyncAction} (ha : Meets tolerance t a) :
    TimelineOk tolerance (t.step tolerance a) := by
  cases a with
  | offer stream pts => exact h.offer stream ha
  | recheck stream ctxDone =>
    simp only [Timeline.step]
    split
    · exact h
    refine ⟨h.live, fun k v pts hwaiting => h.own k v pts ?_, h.fits⟩
    by_cases hk : k = streamKey stream
    · simp [hk] at hwaiting
    · simpa [hk] using hwaiting
  | observe event =>
    refine ⟨fun k v hmem => ?_, fun k v pts hwaiting hmem => h.own k v pts hwaiting (mem_filter.mp hmem).1,
      fun k v hmem => h.fits k v (mem_filter.mp hmem).1⟩
    obtain ⟨hmem, hnot⟩ := mem_filter.mp hmem
    have hend := ha _ hmem
    have hlive := h.live k v hmem
    simp only [names, mem_cons] at hnot hend
    simp only [Timeline.step, names, hlive, mem_cons, not_mem_nil, or_false]
    grind

end

/-- **No call waits for a stream that cannot catch up**, if no stream with a recorded time ends. -/
theorem holdLate_waits_for_live (htolerance : 0 ≤ tolerance) {actions : List SyncAction}
    (hmeets : ∀ pre a post, actions = pre ++ a :: post →
      Meets tolerance (after (Timeline.step tolerance) {} pre) a) :
    WaitsForLive tolerance (after (Timeline.step tolerance) {} actions) := by
  refine TimelineOk.waitsForLive ?_ htolerance
  refine history_invariant (fun acts => ∀ pre a post, acts = pre ++ a :: post →
    Meets tolerance (after (Timeline.step tolerance) {} pre) a) (fun _ t => TimelineOk tolerance t)
    (fun _ _ h => forall_step_left h) ⟨by simp, by simp, by simp⟩ ?_ _ hmeets
  exact fun acts a h hok => hok.step (h acts a [] rfl)

/-- The stream `c` ends before it offers anything. -/
theorem holdLate_waits_for_live_two :
    (after (Timeline.step 0) {} [.observe { type := .endOfStream, streamID := "c" }, .offer "b" 0,
      .offer "a" 5]).waiting "a" = some 5 ∧
    WaitsForLive 0 (after (Timeline.step 0) {} [.observe { type := .endOfStream, streamID := "c" },
      .offer "b" 0, .offer "a" 5]) := by
  refine ⟨by decide, holdLate_waits_for_live le_rfl ((forall_step_iff _).mpr fun i => ?_)⟩
  match i with
  | 0 => exact fun e he => by cases he
  | 1 | 2 => exact ⟨by decide, by decide⟩

/-- The stream `b` has ended, and `a` waits for it. -/
theorem holdLate_waits_for_ended : ¬ ∀ tolerance ≥ 0, ∀ actions : List SyncAction,
    (∀ stream pts, .offer stream pts ∈ actions → Fits tolerance pts) →
    WaitsForLive tolerance (after (Timeline.step tolerance) {} actions) := by
  intro h
  obtain ⟨other, v, hother, hlive, hmem, -⟩ :=
    h 0 le_rfl [.offer "b" 0, .observe { type := .endOfStream, streamID := "b" }, .offer "a" 5]
      (by grind [Fits]) "a" 5 (by decide) (by decide)
  have hcases : other = "a" ∨ other = "b" := by
    rcases mem_cons.mp hmem with heq | hmem
    · exact .inl (Prod.mk.inj heq).1
    · exact .inr (Prod.mk.inj (mem_singleton.mp hmem)).1
  rcases hcases with rfl | rfl
  · exact hother rfl
  · exact absurd hlive (by decide)

/-! ### Progress -/

/-- Calls wait, as does every stream that has a time, and all of the calls are too early. -/
def Timeline.Stuck (tolerance : ℤ) (t : Timeline) : Prop :=
  (∃ k pts, t.waiting k = some pts) ∧ (∀ e ∈ t.latest, ∃ pts, t.waiting e.1 = some pts) ∧
    ∀ k pts, t.waiting k = some pts → tooEarlyLocked t.latest pts tolerance = true

lemma TimelineOk.not_stuck (h : TimelineOk tolerance t) (htolerance : 0 ≤ tolerance) :
    ¬ t.Stuck tolerance := by
  rintro ⟨⟨k, pts, hk⟩, hall, hearly⟩
  obtain ⟨first, v, hmem, -, hleast⟩ := h.exists_least (hearly k pts hk)
  -- the stream with the least time waits with that time
  obtain ⟨pts, hpts⟩ := hall _ hmem
  obtain rfl := h.own first v pts hpts hmem
  obtain ⟨k', v', hmem', hlt, -⟩ := h.exists_least (hearly first v hpts)
  have := hleast _ hmem'
  omega

lemma step_live (live : StreamID → Bool) (a : SyncAction) : ({ t with live } : Timeline).step tolerance a =
    { t.step tolerance a with live := (({ t with live } : Timeline).step tolerance a).live } := by
  cases a <;> simp only [Timeline.step]
  all_goals split <;> rfl

lemma TimelineOk.step_own (h : TimelineOk tolerance { t with live := fun _ => true }) (a : SyncAction)
    (hfits : ∀ stream pts, a = .offer stream pts → Fits tolerance pts) :
    TimelineOk tolerance { t.step tolerance a with live := fun _ => true } := by
  by_cases ha : ∃ event, a = .observe event
  · obtain ⟨event, rfl⟩ := ha
    exact ⟨fun _ _ _ => rfl, fun k v pts hwaiting hmem => h.own k v pts hwaiting (mem_filter.mp hmem).1,
      fun k v hmem => h.fits k v (mem_filter.mp hmem).1⟩
  · have hstep := h.step (a := a) (by
      cases a with
      | offer stream pts => exact hfits stream pts rfl
      | recheck stream ctxDone => trivial
      | observe event => exact absurd ⟨event, rfl⟩ ha)
    rw [step_live] at hstep
    exact ⟨fun _ _ _ => rfl, hstep.own, hstep.fits⟩

/-- **Calls that wait for each other do not block each other**, also where streams end. -/
theorem holdLate_never_stuck (htolerance : 0 ≤ tolerance) (actions : List SyncAction)
    (hfits : ∀ stream pts, .offer stream pts ∈ actions → Fits tolerance pts) :
    ¬ (after (Timeline.step tolerance) {} actions).Stuck tolerance := by
  have hok : TimelineOk tolerance
      { after (Timeline.step tolerance) {} actions with live := fun _ => true } := by
    induction actions using reverseRecOn with
    | nil => exact ⟨by simp, by simp, by simp⟩
    | append_singleton actions a ih =>
      rw [after_concat]
      refine (ih fun stream pts hmem => hfits stream pts (mem_append_left _ hmem)).step_own a ?_
      exact fun stream pts heq => hfits stream pts (by simp [heq])
  exact fun hstuck => hok.not_stuck htolerance hstuck

theorem holdLate_never_stuck_two : ¬ (after (Timeline.step 0) {} [.offer "b" 0, .offer "a" 5]).Stuck 0 :=
  holdLate_never_stuck le_rfl _ (by grind [Fits])

end Goav.Flow
