import Mathlib.Algebra.Order.BigOperators.Group.Finset
import Goav.Join.SyncSteps
import Goav.Join.StageDefs

/-!
What draining a join does. A frame that leaves a queue is either part of a step or counted as
dropped (`balance` lemmas), so the drain takes at most as many turns as frames are queued, and it
ends where no step is ready.
-/

namespace Goav.Join

open Goav.Av Goav.Pipeline List

namespace JoinSync

variable {s s' : JoinSync} {id : StreamID}

/-! ### Counting the queued frames -/

def account (s : JoinSync) : ℕ := s.held + s.dropped

lemma held_setPending (hid : id ∈ s.inputs) (queue : List Frame) :
    (s.setPending id queue).held + (s.pending id).length = s.held + queue.length := by
  have hmem : id ∈ s.inputs.toFinset := mem_toFinset.mpr hid
  have hrest : ∑ x ∈ s.inputs.toFinset.erase id, ((s.setPending id queue).pending x).length =
      ∑ x ∈ s.inputs.toFinset.erase id, (s.pending x).length := by
    refine Finset.sum_congr rfl fun x hx => ?_
    rw [setPending_pending_of_ne (Finset.ne_of_mem_erase hx)]
  unfold held
  rw [setPending_inputs, ← Finset.add_sum_erase _ _ hmem, ← Finset.add_sum_erase _ _ hmem,
    setPending_pending_self]
  omega

lemma account_dropStaleArm (hid : id ∈ s.inputs) : (s.dropStaleArm id).account = s.account := by
  have h := held_setPending hid ((s.pending id).dropWhile s.stale)
  have hle := (dropWhile_suffix (l := s.pending id) s.stale).length_le
  simp only [account, dropStaleArm]
  change (s.setPending id _).held + _ = _
  omega

lemma account_flushArm {event : StreamID} (hid : id ∈ s.inputs) :
    (s.flushArm event id).account = s.account := by
  unfold flushArm
  split
  · rfl
  have h := held_setPending hid []
  simp only [account]
  change (s.setPending id []).held + _ = _
  simp only [length_nil] at h
  omega

lemma account_foldl {f : JoinSync → StreamID → JoinSync} (hinputs : ∀ s id, (f s id).inputs = s.inputs)
    (hf : ∀ {s id}, id ∈ s.inputs → (f s id).account = s.account) (ids : List StreamID) :
    ∀ s : JoinSync, (∀ id ∈ ids, id ∈ s.inputs) → (ids.foldl f s).account = s.account := by
  induction ids with
  | nil => exact fun s _ => rfl
  | cons id ids ih =>
    intro s hids
    rw [foldl_cons, ih _ fun x hx => by rw [hinputs]; exact hids x (by simp [hx]), hf (hids id (by simp))]

lemma account_dropStale (s : JoinSync) : s.dropStale.account = s.account := by
  unfold dropStale
  split
  · rfl
  · exact account_foldl (f := dropStaleArm) (fun _ _ => rfl) account_dropStaleArm _ s fun _ h => h

lemma held_dropStale_le (s : JoinSync) : s.dropStale.held ≤ s.held := by
  obtain ⟨pending, dropped, heq, hsuffix⟩ := s.dropStale_eq
  rw [heq]
  exact Finset.sum_le_sum fun id _ => (hsuffix id).length_le

lemma flushArm_eq (event : StreamID) (ids : List StreamID) (s : JoinSync) :
    ∃ pending dropped, ids.foldl (flushArm event) s = { s with pending, dropped } := by
  induction ids generalizing s with
  | nil => exact ⟨s.pending, s.dropped, rfl⟩
  | cons id ids ih =>
    obtain ⟨pending, dropped, heq⟩ := ih (s.flushArm event id)
    refine ⟨pending, dropped, ?_⟩
    rw [foldl_cons, heq]
    unfold flushArm
    split <;> rfl

theorem discontinuity_spec {event : StreamID} (h : s.discontinuity event = some s') :
    s'.inputs = s.inputs ∧ s'.eos = s.eos ∧ s'.account = s.account := by
  unfold discontinuity at h
  split at h
  · simp at h
  cases h
  have haccount : (s.inputs.foldl (flushArm event) s).account = s.account :=
    account_foldl (fun _ _ => by unfold flushArm; split <;> rfl) account_flushArm _ s fun _ h => h
  obtain ⟨pending, dropped, heq⟩ := flushArm_eq event s.inputs s
  rw [heq] at haccount ⊢
  exact ⟨rfl, rfl, haccount⟩

/-! ### A step takes what it hands out -/

structure Takes (pre s' : JoinSync) (st : Step) : Prop where
  frames : ∃ sel : StreamID → Option Frame, st.frames = pre.inputs.map sel ∧
    (∀ id f, sel id = some f → (pre.pending id).head? = some f) ∧
    ∃ pending nextNS, s' = { pre with pending, nextNS } ∧
      ∀ id, pending id =
        if (sel id).isSome then (pre.pending id).drop (pre.inputs.count id) else pre.pending id

lemma takes_selectArrival (s : JoinSync) : Takes s (s.popStep s.selectArrival) s.selectArrival := by
  obtain ⟨pending, heq, hpending⟩ := popStep_eq s (fun id => (s.pending id).head?) s.selectArrival.ref
  exact ⟨_, rfl, fun _ _ h => h, pending, s.nextNS, heq, hpending⟩

lemma takes_selectPTS (s : JoinSync) : Takes s (s.selectPTS.1.popStep s.selectPTS.2) s.selectPTS.2 := by
  unfold selectPTS
  split
  · exact takes_selectArrival s
  rename_i i t _
  obtain ⟨pending, heq, hpending⟩ := popStep_eq { s with nextNS := wrap64 (t + s.headDurationNS i) }
    (s.headUpTo (wrap64 (t + (s.headDurationNS i).tdiv 2))) (some i)
  refine ⟨_, rfl, fun id f h => ?_, pending, _, heq, hpending⟩
  simp only [headUpTo, Option.filter_eq_some_iff] at h
  exact h.1

theorem step_takes (s : JoinSync) :
    ∃ pre : JoinSync, pre.inputs = s.inputs ∧ pre.eos = s.eos ∧ pre.account = s.account ∧
      pre.held ≤ s.held ∧ (s.step = (pre, none) ∧ pre.ready = false ∨
        ∃ s' st, s.step = (s', some st) ∧ Takes pre s' st) := by
  unfold step
  cases hmode : s.mode with
  | arrival =>
    refine ⟨s, rfl, rfl, rfl, le_rfl, ?_⟩
    simp only [hmode]
    by_cases hready : s.ready = true
    · simp only [hready]
      exact .inr ⟨_, _, rfl, takes_selectArrival s⟩
    · simp only [Bool.not_eq_true] at hready
      exact .inl ⟨by simp [hready], hready⟩
  | pts =>
    obtain ⟨pending, dropped, heq, -⟩ := s.dropStale_eq
    have hmode' : s.dropStale.mode = .pts := by rw [heq]; exact hmode
    refine ⟨s.dropStale, by rw [heq], by rw [heq], account_dropStale s, held_dropStale_le s, ?_⟩
    simp only [hmode']
    by_cases hready : s.dropStale.ready = true
    · simp only [hready, if_true]
      exact .inr ⟨_, _, rfl, takes_selectPTS _⟩
    · simp only [Bool.not_eq_true] at hready
      exact .inl ⟨by simp [hready], hready⟩

lemma length_reduceOption_map {α β : Type*} (sel : α → Option β) (l : List α) :
    (l.map sel).reduceOption.length = (l.map fun x => if (sel x).isSome then 1 else 0).sum := by
  induction l with
  | nil => rfl
  | cons x l ih =>
    cases h : sel x with
    | none => simpa [h] using ih
    | some y =>
      simp only [map_cons, h, reduceOption_cons_of_some, length_cons, ih]
      simp [Nat.add_comm]

theorem Takes.held {pre : JoinSync} {st : Step} (h : Takes pre s' st) (hnodup : pre.inputs.Nodup) :
    s'.held + st.frames.reduceOption.length = pre.held := by
  obtain ⟨sel, hframes, hhead, pending, nextNS, rfl, hpending⟩ := h.frames
  have hlength : ∀ id ∈ pre.inputs.toFinset,
      (pending id).length + (if (sel id).isSome then 1 else 0) = (pre.pending id).length := by
    intro id hid
    rw [hpending id]
    cases hsel : sel id with
    | none => simp
    | some f =>
      obtain ⟨queue, hqueue⟩ := head?_eq_some_iff.mp (hhead id f hsel)
      rw [count_eq_one_of_mem hnodup (mem_toFinset.mp hid), hqueue]
      simp
  rw [hframes, length_reduceOption_map, ← sum_toFinset _ hnodup]
  simp only [JoinSync.held]
  rw [← Finset.sum_congr rfl hlength, Finset.sum_add_distrib]

lemma Takes.same {pre : JoinSync} {st : Step} (h : Takes pre s' st) :
    s'.inputs = pre.inputs ∧ s'.eos = pre.eos ∧ s'.dropped = pre.dropped := by
  obtain ⟨sel, -, -, pending, nextNS, rfl, -⟩ := h.frames
  exact ⟨rfl, rfl, rfl⟩

end JoinSync

/-! ### The drain -/

def partsCount (emitted : List Emission) : ℕ := (emitted.map (·.parts.length)).sum

def Emission.isFrame (e : Emission) : Prop := ∃ f, e.msg = .frame f

structure Drained (s : JoinSync) (r : Outcome JoinSync) : Prop where
  inputs : r.state.inputs = s.inputs
  eos : r.state.eos = s.eos
  frames : ∀ e ∈ r.emitted, e.isFrame
  settled : r.err = none →
    r.state.ready = false ∧ r.state.account + partsCount r.emitted = s.account
  noError : r.joinFailed = false → r.err = none

theorem drainLoop_spec {join : JoinFrames}
    (hempty : ∀ frames, frames.reduceOption = [] → ∃ reason, join frames = .error reason)
    (turns : ℕ) : ∀ s : JoinSync, s.inputs.Nodup → s.held < turns →
      Drained s (drainLoop join turns s) := by
  induction turns with
  | zero => exact fun s _ h => absurd h (Nat.not_lt_zero _)
  | succ turns ih =>
    intro s hnodup hturns
    obtain ⟨pre, hinputs, heos, haccount, hheld, ⟨hstep, hready⟩ | ⟨s', st, hstep, htakes⟩⟩ :=
      s.step_takes
    · unfold drainLoop
      rw [hstep]
      exact ⟨hinputs, heos, by simp, fun _ => ⟨hready, haccount⟩, fun _ => rfl⟩
    · obtain ⟨hinputs', heos', hdropped⟩ := htakes.same
      have htaken := htakes.held (hinputs ▸ hnodup)
      unfold drainLoop
      rw [hstep]
      dsimp only
      split
      · exact ⟨hinputs'.trans hinputs, heos'.trans heos, by simp, by simp, by simp [Outcome.joinFailed]⟩
      rename_i joined hjoin
      -- something was handed out, or the step would not have joined
      have hpos : 0 < st.frames.reduceOption.length := by
        rw [length_pos_iff]
        intro hnil
        obtain ⟨reason, herr⟩ := hempty st.frames hnil
        rw [hjoin] at herr
        simp at herr
      split
      · exact ⟨hinputs'.trans hinputs, heos'.trans heos, by simp, by simp, by simp [Outcome.joinFailed]⟩
      have hrest := ih s' (by rw [hinputs', hinputs]; exact hnodup) (by omega)
      refine ⟨hrest.inputs.trans (hinputs'.trans hinputs), hrest.eos.trans (heos'.trans heos), ?_,
        fun hok => ?_, hrest.noError⟩
      · intro e he
        rcases mem_cons.mp he with rfl | he
        · exact ⟨_, rfl⟩
        · exact hrest.frames e he
      · obtain ⟨hready, hrestAccount⟩ := hrest.settled hok
        refine ⟨hready, ?_⟩
        simp only [partsCount, map_cons, sum_cons] at hrestAccount ⊢
        simp only [JoinSync.account] at hrestAccount haccount ⊢
        omega

theorem drain_spec {join : JoinFrames}
    (hempty : ∀ frames, frames.reduceOption = [] → ∃ reason, join frames = .error reason)
    {s : JoinSync} (hnodup : s.inputs.Nodup) : Drained s (drain join s) :=
  drainLoop_spec hempty _ s hnodup (Nat.lt_succ_self _)

lemma joinFirst_empty (empty : String) (join : Frame → List (Option Frame) → Except String Frame)
    (frames : List (Option Frame)) (h : frames.reduceOption = []) :
    ∃ reason, joinFirst empty join frames = .error reason :=
  ⟨empty, by simp [joinFirst, h]⟩

end Goav.Join
