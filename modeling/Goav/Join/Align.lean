import Mathlib.Data.List.Chain
import Mathlib.Algebra.Order.Group.Abs
import Goav.Join.SyncSteps
import Goav.Lib.History

/-!
A join by presentation time over a whole run. What stays queued is later than the step by a margin, and
what an arm sends afterwards by the gap between its frames (`AlignInv`).
-/

namespace Goav.Join

open Goav.Av Goav.Lib List JoinSync Option

/-! ### Runs -/

inductive JoinCall where
  | buffer (frame : Frame)
  | markEOS (id : StreamID)
  | step
  deriving DecidableEq

structure JoinRun where
  sync : JoinSync
  steps : List JoinSync.Step := []

def JoinRun.call (r : JoinRun) : JoinCall → JoinRun
  | .buffer frame => { r with sync := r.sync.buffer frame }
  | .markEOS id => { r with sync := (r.sync.markEOS id).1 }
  | .step => { sync := r.sync.step.1, steps := r.steps ++ r.sync.step.2.toList }

def joinRun (inputs : List StreamID) (calls : List JoinCall) : JoinRun :=
  after JoinRun.call { sync := { mode := .pts, inputs } } calls

def ptsNS (frame : Frame) : ℤ := (framePTSNS frame).getD 0

variable (id : StreamID)

def JoinCall.frameOf : JoinCall → Option Frame
  | .buffer frame => if frame.streamID = id then some frame else none
  | _ => none

def buffered (calls : List JoinCall) : List Frame := calls.filterMap (·.frameOf id)

/-- The frame of an arm in a step. -/
def handedOut (inputs : List StreamID) (id : StreamID) (st : JoinSync.Step) : Option Frame :=
  ((inputs.zip st.frames).lookup id).join

def refTimes (steps : List JoinSync.Step) : List ℤ := steps.filterMap fun st => st.timing.map ptsNS

def JoinSync.StepFits (s : JoinSync) : Prop :=
  ∀ best ∈ s.dropStale.earliest 0 none s.dropStale.inputs,
    0 ≤ s.dropStale.headDurationNS best.1 ∧ best.2 + s.dropStale.headDurationNS best.1 ≤ maxInt64

instance (s : JoinSync) : Decidable s.StepFits :=
  inferInstanceAs (Decidable (∀ best ∈ s.dropStale.earliest 0 none s.dropStale.inputs, _ ∧ _))

/-- Frames are of arms, and timed in order. -/
structure Proper (inputs : List StreamID) (calls : List JoinCall) : Prop where
  arm : ∀ frame, .buffer frame ∈ calls → frame.streamID ∈ inputs
  usable : ∀ frame, .buffer frame ∈ calls → (framePTSNS frame).isSome
  ordered : ∀ id, (buffered id calls).IsChain fun f g => ptsNS f ≤ ptsNS g
  open_ : ∀ before frame behind, calls = before ++ .buffer frame :: behind →
    .markEOS frame.streamID ∉ before
  fits : ∀ before behind, calls = before ++ .step :: behind → (joinRun inputs before).sync.StepFits

/-! ### One step -/

namespace JoinSync

variable {s : JoinSync}

lemma headUpTo_eq {limit : ℤ} {id : StreamID} {f : Frame} (hf : (s.pending id).head? = some f)
    (husable : (framePTSNS f).isSome) :
    s.headUpTo limit id = if ptsNS f ≤ limit then some f else none := by
  obtain ⟨ns, hns⟩ := isSome_iff_exists.mp husable
  by_cases h : ns ≤ limit <;> simp [headUpTo, hf, hns, ptsNS, h]

lemma headUpTo_some {limit : ℤ} {id : StreamID} {f : Frame} (h : s.headUpTo limit id = some f) :
    (s.pending id).head? = some f := by
  simp only [headUpTo, filter_eq_some_iff] at h
  exact h.1

/-- A step with times: `ref` is the reference frame, `pre` the state without the stale heads. -/
structure Aligned (pre s' : JoinSync) (st : Step) (ref : Frame) : Prop where
  timing : st.timing = some ref
  isHead : ∃ id ∈ pre.inputs, (pre.pending id).head? = some ref
  least : ∀ id ∈ pre.inputs, ∀ f, (pre.pending id).head? = some f → ptsNS ref ≤ ptsNS f
  waits : ∀ id ∈ pre.inputs, pre.pending id ≠ [] ∨ id ∈ pre.eos
  span : 0 ≤ frameDurationNS ref
  frames : st.frames = pre.inputs.map (pre.headUpTo (ptsNS ref + (frameDurationNS ref).tdiv 2))
  left : ∃ pending, s' = { pre with pending, nextNS := ptsNS ref + frameDurationNS ref } ∧
    ∀ id, pending id =
      if (pre.headUpTo (ptsNS ref + (frameDurationNS ref).tdiv 2) id).isSome then
        (pre.pending id).drop (pre.inputs.count id)
      else pre.pending id

lemma selectPTS_aligned (hready : s.ready = true)
    (husable : ∀ id ∈ s.inputs, ∀ f ∈ s.pending id, (framePTSNS f).isSome)
    (hfits : ∀ best ∈ s.earliest 0 none s.inputs,
      0 ≤ s.headDurationNS best.1 ∧ best.2 + s.headDurationNS best.1 ≤ maxInt64) :
    ∃ ref, Aligned s (s.selectPTS.1.popStep s.selectPTS.2) s.selectPTS.2 ref := by
  obtain ⟨⟨id₀, hid₀, hne₀⟩, hwaits⟩ := ready_iff.mp hready
  have husableHead : ∀ id ∈ s.inputs, ∀ f, (s.pending id).head? = some f → (framePTSNS f).isSome :=
    fun id hid f hf => husable id hid f (mem_of_mem_head? hf)
  have hspec := s.earliest_spec
  -- some head has a time, so the search finds one
  obtain ⟨f₀, hf₀⟩ : ∃ f, (s.pending id₀).head? = some f :=
    ⟨_, head?_eq_some_head hne₀⟩
  obtain ⟨ns₀, hns₀⟩ := isSome_iff_exists.mp (husableHead id₀ hid₀ f₀ hf₀)
  obtain ⟨i, t, hbest, -⟩ := hspec.least id₀ hid₀ f₀ hf₀ ns₀ hns₀
  obtain ⟨id, ref, harm, href, ht⟩ := hspec.attained i t hbest
  obtain ⟨hspan, hend⟩ := hfits (i, t) hbest
  have hid : id ∈ s.inputs := mem_of_getElem? harm
  have hpts : ptsNS ref = t := by simp [ptsNS, ht]
  have hdur : s.headDurationNS i = frameDurationNS ref := by simp [headDurationNS, harm, href]
  rw [hdur] at hspan hend
  have hrange := (rescaleValue_range ht).1
  have hhalf : 0 ≤ (frameDurationNS ref).tdiv 2 ∧ (frameDurationNS ref).tdiv 2 ≤ frameDurationNS ref := by
    rw [Int.tdiv_eq_ediv_of_nonneg hspan]
    omega
  have hsel : s.selectPTS = ({ s with nextNS := t + frameDurationNS ref },
      { frames := s.inputs.map (s.headUpTo (t + (frameDurationNS ref).tdiv 2)), ref := some i }) := by
    unfold selectPTS
    rw [hbest]
    simp only [hdur]
    rw [wrap64_eq (by omega) hend, wrap64_eq (by omega) (by omega)]
  refine ⟨ref, ?_⟩
  rw [hsel]
  refine ⟨?_, ⟨id, hid, href⟩, ?_, hwaits, hspan, by rw [hpts], ?_⟩
  · have hslot : s.headUpTo (t + (frameDurationNS ref).tdiv 2) id = some ref := by
      rw [headUpTo_eq href (husableHead id hid ref href), if_pos (by omega)]
    simp [Step.timing, harm, hslot]
  · intro id' hid' f hf
    obtain ⟨ns, hns⟩ := isSome_iff_exists.mp (husableHead id' hid' f hf)
    obtain ⟨i', t', hbest', hle⟩ := hspec.least id' hid' f hf ns hns
    obtain ⟨-, rfl⟩ := Prod.mk.inj (some.inj (hbest.symm.trans hbest'))
    have hpts' : ptsNS f = ns := by simp [ptsNS, hns]
    rw [hpts, hpts']
    exact hle
  · rw [hpts]
    exact popStep_eq { s with nextNS := t + frameDurationNS ref } _ _

theorem step_aligned (hmode : s.mode = .pts)
    (husable : ∀ id ∈ s.inputs, ∀ f ∈ s.pending id, (framePTSNS f).isSome) (hfits : s.StepFits) :
    s.step = (s.dropStale, none) ∨
      ∃ st ref, s.step.2 = some st ∧ Aligned s.dropStale s.step.1 st ref := by
  obtain ⟨pending, dropped, heq, hsuffix⟩ := s.dropStale_eq
  unfold step
  simp only [hmode]
  by_cases hready : s.dropStale.ready = true
  · have hmode' : s.dropStale.mode = .pts := by rw [heq]; exact hmode
    have husable' : ∀ id ∈ s.dropStale.inputs, ∀ f ∈ s.dropStale.pending id, (framePTSNS f).isSome := by
      rw [heq]
      exact fun id hid f hf => husable id hid f ((hsuffix id).subset hf)
    obtain ⟨ref, haligned⟩ := selectPTS_aligned hready husable' hfits
    simp only [hready, hmode']
    exact .inr ⟨_, ref, rfl, haligned⟩
  · exact .inl (by simp [hready])

lemma handedOut_map (inputs : List StreamID) (sel : StreamID → Option Frame) (ref : Option ℕ)
    (id : StreamID) :
    handedOut inputs id { frames := inputs.map sel, ref } = if id ∈ inputs then sel id else none := by
  unfold handedOut
  induction inputs with
  | nil => simp
  | cons arm inputs ih =>
    rw [map_cons, zip_cons_cons, lookup_cons]
    by_cases hid : id = arm
    · subst hid
      simp
    · simp only [beq_eq_false_iff_ne.mpr hid, mem_cons, hid, false_or]
      exact ih

end JoinSync

/-! ### The invariant of a run -/

section

variable {inputs : List StreamID} {gap margin : ℤ}

/-- The frames of an arm are spaced by the gap, and the tolerance leaves the margin. -/
structure Spaced (inputs : List StreamID) (gap margin : ℤ) (calls : List JoinCall) : Prop where
  proper : Proper inputs calls
  spaced : ∀ id, (buffered id calls).Pairwise fun f g => ptsNS f + gap ≤ ptsNS g
  slack : ∀ frame, .buffer frame ∈ calls → 0 ≤ frameDurationNS frame →
    margin ≤ (frameDurationNS frame).tdiv 2 + 1

lemma buffered_append (id : StreamID) (calls calls' : List JoinCall) :
    buffered id (calls ++ calls') = buffered id calls ++ buffered id calls' :=
  filterMap_append ..

variable {calls : List JoinCall} {f : Frame} {r : JoinRun}

lemma Proper.before {calls' : List JoinCall} (h : Proper inputs (calls ++ calls')) :
    Proper inputs calls where
  arm := fun f hf => h.arm f (mem_append_left _ hf)
  usable := fun f hf => h.usable f (mem_append_left _ hf)
  ordered := fun id => by
    have := h.ordered id
    rw [buffered_append] at this
    exact this.left_of_append
  open_ := fun before f behind heq => h.open_ before f (behind ++ calls') (by simp [heq])
  fits := fun before behind heq => h.fits before (behind ++ calls') (by simp [heq])

lemma Spaced.before {calls' : List JoinCall} (h : Spaced inputs gap margin (calls ++ calls')) :
    Spaced inputs gap margin calls where
  proper := h.proper.before
  spaced := fun id => by
    have := h.spaced id
    rw [buffered_append] at this
    exact (pairwise_append.mp this).1
  slack := fun f hf => h.slack f (mem_append_left _ hf)

lemma mem_buffered {id : StreamID} (h : f ∈ buffered id calls) :
    .buffer f ∈ calls ∧ f.streamID = id := by
  obtain ⟨c, hc, hf⟩ := mem_filterMap.mp h
  cases c with
  | buffer g =>
    simp only [JoinCall.frameOf, ite_none_right_eq_some, some.injEq] at hf
    obtain ⟨hid, rfl⟩ := hf
    exact ⟨hc, hid⟩
  | markEOS id => simp [JoinCall.frameOf] at hf
  | step => simp [JoinCall.frameOf] at hf

structure AlignInv (inputs : List StreamID) (gap margin : ℤ) (calls : List JoinCall)
    (r : JoinRun) : Prop where
  mode : r.sync.mode = .pts
  inputs_eq : r.sync.inputs = inputs
  eos : ∀ id, id ∈ r.sync.eos ↔ .markEOS id ∈ calls
  /-- A queue holds the end of what was buffered; what was handed out comes before it, in order. -/
  queue : ∀ id, ∃ taken, buffered id calls = taken ++ r.sync.pending id ∧
    (r.steps.filterMap (handedOut inputs id)).Sublist taken
  timed : ∀ st ∈ r.steps, st.timing.isSome
  times : (refTimes r.steps).IsChain fun a b => a + margin ≤ b
  /-- What is queued, and what an arm can still send, is past the last step by the margin. -/
  ahead : ∀ t ∈ (refTimes r.steps).getLast?, ∀ id ∈ inputs, (∀ f ∈ r.sync.pending id, t + margin ≤ ptsNS f) ∧
      (.markEOS id ∈ calls ∨ ∃ f, (buffered id calls).getLast? = some f ∧ t + margin ≤ ptsNS f + gap)

section

variable (h : AlignInv inputs gap margin calls r)
include h

lemma AlignInv.mem_calls {id : StreamID} (hf : f ∈ r.sync.pending id) :
    .buffer f ∈ calls ∧ f.streamID = id := by
  obtain ⟨taken, heq, -⟩ := h.queue id
  exact mem_buffered (heq ▸ mem_append_right _ hf)

lemma AlignInv.buffer (hgap : 0 ≤ gap) {frame : Frame}
    (hok : Spaced inputs gap margin (calls ++ [.buffer frame])) :
    AlignInv inputs gap margin (calls ++ [.buffer frame]) (r.call (.buffer frame)) := by
  have hnew : ∀ id, buffered id (calls ++ [.buffer frame]) =
      buffered id calls ++ if frame.streamID = id then [frame] else [] := by
    intro id
    by_cases hid : frame.streamID = id <;> simp [buffered, JoinCall.frameOf, hid]
  refine ⟨h.mode, h.inputs_eq, fun id => ?_, fun id => ?_, h.timed, h.times, fun t ht id hid => ?_⟩
  · simpa [JoinRun.call, JoinSync.buffer] using h.eos id
  · obtain ⟨taken, heq, hsub⟩ := h.queue id
    refine ⟨taken, ?_, hsub⟩
    rw [hnew, heq]
    by_cases hid : frame.streamID = id
    · subst hid
      simp [JoinRun.call, JoinSync.buffer]
    · simp [JoinRun.call, JoinSync.buffer, hid, JoinSync.setPending_pending_of_ne (Ne.symm hid)]
  · obtain ⟨hpending, hlast⟩ := h.ahead t ht id hid
    by_cases harm : frame.streamID = id
    · subst harm
      -- the arm has not ended, so it has a last frame, and the new one is past it by the gap
      have hopen := hok.proper.open_ calls frame [] rfl
      obtain ⟨f, hf, hle⟩ := hlast.resolve_left hopen
      have hspaced := hok.spaced frame.streamID
      rw [hnew] at hspaced
      have hnext := (pairwise_append.mp hspaced).2.2 f (mem_of_mem_getLast? hf) frame (by simp)
      refine ⟨fun g hg => ?_, .inr ⟨frame, ?_, ?_⟩⟩
      · simp only [JoinRun.call, JoinSync.buffer, JoinSync.setPending_pending_self,
          mem_append, mem_singleton] at hg
        rcases hg with hg | rfl
        · exact hpending g hg
        · exact hle.trans hnext
      · simp [hnew]
      · exact (hle.trans hnext).trans (by omega)
    · refine ⟨fun g hg => hpending g ?_, ?_⟩
      · simpa [JoinRun.call, JoinSync.buffer, JoinSync.setPending_pending_of_ne (Ne.symm harm)]
          using hg
      · simpa [hnew, harm] using hlast

lemma AlignInv.markEOS (id : StreamID) :
    AlignInv inputs gap margin (calls ++ [.markEOS id]) (r.call (.markEOS id)) := by
  have hnew : ∀ arm, buffered arm (calls ++ [.markEOS id]) = buffered arm calls := by
    simp [buffered, JoinCall.frameOf]
  refine ⟨h.mode, h.inputs_eq, fun arm => ?_, fun arm => ?_, h.timed, h.times,
    fun t ht arm harm => ?_⟩
  · simp [JoinRun.call, JoinSync.markEOS, h.eos, or_comm]
  · rw [hnew]
    exact h.queue arm
  · obtain ⟨hpending, hlast⟩ := h.ahead t ht arm harm
    rw [hnew]
    exact ⟨hpending, hlast.imp_left (mem_append_left _)⟩

lemma AlignInv.dropStale :
    AlignInv inputs gap margin calls { r with sync := r.sync.dropStale } := by
  obtain ⟨pending, dropped, heq, hsuffix⟩ := r.sync.dropStale_eq
  rw [heq]
  refine ⟨h.mode, h.inputs_eq, h.eos, fun id => ?_, h.timed, h.times, fun t ht id hid => ?_⟩
  · obtain ⟨taken, hbuffered, hsub⟩ := h.queue id
    obtain ⟨gone, hgone⟩ := hsuffix id
    refine ⟨taken ++ gone, ?_, hsub.trans (sublist_append_left _ _)⟩
    rw [hbuffered, ← hgone, append_assoc]
  · obtain ⟨hpending, hlast⟩ := h.ahead t ht id hid
    exact ⟨fun f hf => hpending f ((hsuffix id).subset hf), hlast⟩

end

lemma le_of_head {queue : List Frame} (hgap : 0 ≤ gap)
    (h : queue.Pairwise fun f g => ptsNS f + gap ≤ ptsNS g) (hf : queue.head? = some f) :
    (∀ g ∈ queue, ptsNS f ≤ ptsNS g) ∧ ∀ g ∈ queue.tail, ptsNS f + gap ≤ ptsNS g := by
  cases queue with
  | nil => simp at hf
  | cons f' queue =>
    cases hf
    have htail := (pairwise_cons.mp h).1
    refine ⟨fun g hg => ?_, htail⟩
    rcases mem_cons.mp hg with rfl | hg
    · exact le_refl _
    · have := htail g hg
      omega

section

variable {calls : List JoinCall} {pre s' : JoinSync} {steps : List JoinSync.Step}
  {st : JoinSync.Step} {ref : Frame}

lemma JoinSync.Aligned.pending_eq (h : pre.Aligned s' st ref) (id : StreamID) :
    s'.pending id = if (pre.headUpTo (ptsNS ref + (frameDurationNS ref).tdiv 2) id).isSome then
        (pre.pending id).drop (pre.inputs.count id)
      else pre.pending id := by
  obtain ⟨pending, rfl, hpending⟩ := h.left
  exact hpending id

lemma JoinSync.Aligned.handedOut_eq (h : pre.Aligned s' st ref) (id : StreamID) :
    handedOut pre.inputs id st =
      if id ∈ pre.inputs then pre.headUpTo (ptsNS ref + (frameDurationNS ref).tdiv 2) id
      else none := by
  obtain ⟨frames, i⟩ := st
  obtain rfl := h.frames
  exact handedOut_map ..

section

variable (h : AlignInv inputs gap margin calls { sync := pre, steps })
include h

lemma AlignInv.queue_aligned (haligned : pre.Aligned s' st ref) (id : StreamID) :
    ∃ taken, buffered id calls = taken ++ s'.pending id ∧
      ((steps ++ [st]).filterMap (handedOut inputs id)).Sublist taken := by
  obtain ⟨taken, hbuffered, hsub⟩ := h.queue id
  have hpending := haligned.pending_eq id
  have hhanded := haligned.handedOut_eq id
  rw [show pre.inputs = inputs from h.inputs_eq] at hhanded hpending
  rw [filterMap_append, filterMap_cons, hhanded, hpending]
  by_cases hid : id ∈ inputs
  · cases hsel : pre.headUpTo (ptsNS ref + (frameDurationNS ref).tdiv 2) id with
    | none => exact ⟨taken, by simpa using hbuffered, by simpa using hsub⟩
    | some f =>
      -- the head goes, and with it what further slots of the same arm take off
      obtain ⟨k, hk⟩ := Nat.exists_eq_succ_of_ne_zero (count_pos_iff.mpr hid).ne'
      obtain ⟨queue, hqueue⟩ := head?_eq_some_iff.mp (headUpTo_some hsel)
      refine ⟨taken ++ f :: queue.take k, ?_, ?_⟩
      · rw [hbuffered, hqueue, hk]
        simp
      · simp only [hid]
        exact hsub.append (by simp)
  · have hcount : inputs.count id = 0 := count_eq_zero_of_not_mem hid
    exact ⟨taken, by simpa [hcount] using hbuffered, by simpa [hid] using hsub⟩

lemma AlignInv.ahead_aligned (hmargin : margin ≤ gap) (hok : Spaced inputs gap margin calls)
    (hgap : 0 ≤ gap) (haligned : pre.Aligned s' st ref) {id : StreamID} (hid : id ∈ inputs) :
    (∀ f ∈ s'.pending id, ptsNS ref + margin ≤ ptsNS f) ∧
      (.markEOS id ∈ calls ∨
        ∃ f, (buffered id calls).getLast? = some f ∧ ptsNS ref + margin ≤ ptsNS f + gap) := by
  have hid' : id ∈ pre.inputs := by
    rw [show pre.inputs = inputs from h.inputs_eq]
    exact hid
  obtain ⟨taken, hbuffered, -⟩ := h.queue id
  have hpending := haligned.pending_eq id
  have hsuffix : pre.pending id <:+ buffered id calls := ⟨taken, hbuffered.symm⟩
  have hspaced := (hok.spaced id).sublist hsuffix.sublist
  cases hqueue : pre.pending id with
  | nil =>
    refine ⟨fun f hf => ?_, .inl ((h.eos id).mp ?_)⟩
    · rw [hpending, hqueue] at hf
      simp at hf
    · exact (haligned.waits id hid').resolve_left (not_not.mpr hqueue)
  | cons f queue =>
    have hhead : (pre.pending id).head? = some f := by simp [hqueue]
    obtain ⟨hall, htail⟩ := le_of_head hgap hspaced hhead
    have hleast := haligned.least id hid' f hhead
    refine ⟨fun g hg => ?_, .inr ?_⟩
    · rw [hpending] at hg
      split at hg
      · have hg : g ∈ (pre.pending id).tail := by
          refine mem_of_mem_drop (?_ : g ∈ (pre.pending id).tail.drop (pre.inputs.count id - 1))
          rwa [← drop_one, drop_drop, Nat.add_sub_cancel' (count_pos_iff.mpr hid')]
        have := htail g hg
        omega
      · -- the head was not selected: it is past the tolerance
        rename_i hsel
        have hf : f ∈ pre.pending id := by simp [hqueue]
        have husable := hok.proper.usable f (h.mem_calls hf).1
        rw [headUpTo_eq hhead husable] at hsel
        have hlate : ¬ ptsNS f ≤ ptsNS ref + (frameDurationNS ref).tdiv 2 := by
          intro hle
          simp [hle] at hsel
        obtain ⟨arm, harm, href⟩ := haligned.isHead
        have hslack := hok.slack ref (h.mem_calls (mem_of_mem_head? href)).1 haligned.span
        have := hall g hg
        omega
    · have hlast : (buffered id calls).getLast? = (pre.pending id).getLast? := by
        rw [hbuffered, getLast?_append_of_ne_nil _ (by simp [hqueue])]
      obtain ⟨l, hl⟩ : ∃ l, (pre.pending id).getLast? = some l :=
        ⟨_, getLast?_eq_some_getLast (by simp [hqueue])⟩
      refine ⟨l, hlast.trans hl, ?_⟩
      have := hall l (mem_of_mem_getLast? hl)
      omega

lemma AlignInv.aligned (hmargin : margin ≤ gap) (hok : Spaced inputs gap margin calls)
    (hgap : 0 ≤ gap) (haligned : pre.Aligned s' st ref) :
    AlignInv inputs gap margin calls { sync := s', steps := steps ++ [st] } := by
  have htimes : refTimes (steps ++ [st]) = refTimes steps ++ [ptsNS ref] := by
    simp [refTimes, haligned.timing]
  obtain ⟨pending, hs', -⟩ := haligned.left
  refine ⟨?_, ?_, ?_, h.queue_aligned haligned, ?_, ?_, ?_⟩
  · rw [hs']
    exact h.mode
  · rw [hs']
    exact h.inputs_eq
  · rw [hs']
    exact h.eos
  · intro x hx
    rcases mem_append.mp hx with hx | hx
    · exact h.timed x hx
    · obtain rfl := mem_singleton.mp hx
      simp [haligned.timing]
  · rw [htimes]
    refine h.times.append (by simp) fun t ht u hu => ?_
    cases hu
    obtain ⟨id, hid, href⟩ := haligned.isHead
    rw [show pre.inputs = inputs from h.inputs_eq] at hid
    exact (h.ahead t ht id hid).1 ref (mem_of_mem_head? href)
  · intro t ht id hid
    rw [htimes, getLast?_concat] at ht
    cases ht
    exact h.ahead_aligned hmargin hok hgap haligned hid

end

end

lemma AlignInv.step (h : AlignInv inputs gap margin calls r) (hmargin : margin ≤ gap)
    (hok : Spaced inputs gap margin calls) (hgap : 0 ≤ gap) (hfits : r.sync.StepFits) :
    AlignInv inputs gap margin (calls ++ [.step]) (r.call .step) := by
  have hnew : ∀ r', AlignInv inputs gap margin calls r' →
      AlignInv inputs gap margin (calls ++ [.step]) r' := by
    intro r' h'
    have hbuffered : ∀ id, buffered id (calls ++ [.step]) = buffered id calls := by
      simp [buffered, JoinCall.frameOf]
    have hended : ∀ id, .markEOS id ∈ calls ++ [.step] ↔ .markEOS id ∈ calls := by simp
    refine ⟨h'.mode, h'.inputs_eq, fun id => ?_, fun id => ?_, h'.timed, h'.times,
      fun t ht id hid => ?_⟩
    · rw [hended]
      exact h'.eos id
    · rw [hbuffered]
      exact h'.queue id
    · rw [hbuffered, hended]
      exact h'.ahead t ht id hid
  refine hnew _ ?_
  have husable : ∀ id ∈ r.sync.inputs, ∀ f ∈ r.sync.pending id, (framePTSNS f).isSome :=
    fun id _ f hf => hok.proper.usable f (h.mem_calls hf).1
  unfold JoinRun.call
  rcases step_aligned h.mode husable hfits with hstep | ⟨st, ref, hst, haligned⟩
  · simpa [hstep] using h.dropStale
  · rw [hst]
    exact h.dropStale.aligned hmargin hok hgap haligned

theorem alignInv_joinRun (hgap : 0 ≤ gap) (hmargin : margin ≤ gap) (calls : List JoinCall)
    (h : Spaced inputs gap margin calls) : AlignInv inputs gap margin calls (joinRun inputs calls) := by
  refine history_invariant (Spaced inputs gap margin) (AlignInv inputs gap margin)
    (fun cs c hok => hok.before) ?_ ?_ calls h
  · exact ⟨rfl, rfl, by simp, fun id => ⟨[], rfl, .slnil⟩, nofun, .nil, nofun⟩
  · intro cs c hok hinv
    cases c with
    | buffer frame => exact hinv.buffer hgap hok
    | markEOS id => exact hinv.markEOS id
    | step => exact hinv.step hmargin hok.before hgap (hok.proper.fits cs [] rfl)

/-! ### Frames of one duration -/

structure EvenInv (D : ℤ) (r : JoinRun) : Prop where
  dropped : r.sync.dropped = 0
  next : r.sync.nextNS = joinSyncNSUnset ∨
    ∃ t ∈ (refTimes r.steps).getLast?, minInt64 < t ∧ r.sync.nextNS = t + D
  spread : ∀ st ∈ r.steps, ∀ f g, some f ∈ st.frames → some g ∈ st.frames →
    2 * |ptsNS f - ptsNS g| ≤ D

variable {D : ℤ} {calls : List JoinCall} {r : JoinRun}

lemma EvenInv.dropStale_eq_self (h : EvenInv D r) (hinv : AlignInv inputs D (D.tdiv 2 + 1) calls r)
    (hD : 0 < D) (hspan : ∀ f, .buffer f ∈ calls → frameDurationNS f = D)
    (husable : ∀ f, .buffer f ∈ calls → (framePTSNS f).isSome) : r.sync.dropStale = r.sync := by
  rcases h.next with hunset | ⟨t, ht, hlo, hnext⟩
  · simp [dropStale, hunset]
  · refine JoinSync.dropStale_eq_self fun id hid f hf => ?_
    rw [hinv.inputs_eq] at hid
    have hahead := (hinv.ahead t ht id hid).1 f hf
    obtain ⟨hcall, -⟩ := hinv.mem_calls hf
    obtain ⟨ns, hns⟩ := isSome_iff_exists.mp (husable f hcall)
    have hhi := (rescaleValue_range hns).2
    have hpts : ptsNS f = ns := by simp [ptsNS, hns]
    rw [Int.tdiv_eq_ediv_of_nonneg hD.le] at hahead
    simp only [stale, hns, hspan f hcall, decide_eq_false_iff_not]
    rw [Int.tdiv_eq_ediv_of_nonneg hD.le, wrap64_eq (by omega) (by omega)]
    omega

lemma JoinSync.Aligned.spread {pre s' : JoinSync} {st : JoinSync.Step} {ref : Frame}
    (h : pre.Aligned s' st ref)
    (husable : ∀ id ∈ pre.inputs, ∀ f ∈ pre.pending id, (framePTSNS f).isSome)
    (hf : some f ∈ st.frames) :
    ptsNS ref ≤ ptsNS f ∧ ptsNS f ≤ ptsNS ref + (frameDurationNS ref).tdiv 2 := by
  rw [h.frames] at hf
  obtain ⟨id, hid, hsel⟩ := mem_map.mp hf
  have hhead := headUpTo_some hsel
  refine ⟨h.least id hid f hhead, ?_⟩
  rw [headUpTo_eq hhead (husable id hid f (mem_of_mem_head? hhead))] at hsel
  simpa using hsel

lemma EvenInv.step (h : EvenInv D r) (hinv : AlignInv inputs D (D.tdiv 2 + 1) calls r) (hD : 0 < D)
    (hspan : ∀ f, .buffer f ∈ calls → frameDurationNS f = D)
    (husable : ∀ f, .buffer f ∈ calls → (framePTSNS f).isSome) (hfits : r.sync.StepFits) :
    EvenInv D (r.call .step) := by
  have hstay := h.dropStale_eq_self hinv hD hspan husable
  have husable' : ∀ id ∈ r.sync.inputs, ∀ f ∈ r.sync.pending id, (framePTSNS f).isSome :=
    fun id _ f hf => husable f (hinv.mem_calls hf).1
  unfold JoinRun.call
  rcases step_aligned hinv.mode husable' hfits with hstep | ⟨st, ref, hst, haligned⟩
  · simpa [hstep, hstay] using h
  · rw [hstay] at haligned
    obtain ⟨id, hid, href⟩ := haligned.isHead
    obtain ⟨hcall, -⟩ := hinv.mem_calls (mem_of_mem_head? href)
    obtain ⟨t, ht⟩ := isSome_iff_exists.mp (husable ref hcall)
    have hpts : ptsNS ref = t := by simp [ptsNS, ht]
    obtain ⟨pending, hs', -⟩ := haligned.left
    simp only [hst]
    refine ⟨?_, .inr ⟨t, ?_, (rescaleValue_range ht).1, ?_⟩, fun x hx f g hf hg => ?_⟩
    · rw [hs']
      exact h.dropped
    · simp [refTimes, haligned.timing, hpts]
    · rw [hs', hpts, hspan ref hcall]
    · rcases mem_append.mp hx with hx | hx
      · exact h.spread x hx f g hf hg
      · obtain rfl := mem_singleton.mp hx
        obtain ⟨hf₁, hf₂⟩ := haligned.spread husable' hf
        obtain ⟨hg₁, hg₂⟩ := haligned.spread husable' hg
        rw [hspan ref hcall, Int.tdiv_eq_ediv_of_nonneg hD.le] at hf₂ hg₂
        have : |ptsNS f - ptsNS g| ≤ D / 2 := abs_le.mpr ⟨by omega, by omega⟩
        omega

theorem evenInv_joinRun (hD : 0 < D) (calls : List JoinCall) (h : Spaced inputs D (D.tdiv 2 + 1) calls)
    (hspan : ∀ f, .buffer f ∈ calls → frameDurationNS f = D) : EvenInv D (joinRun inputs calls) := by
  have hmargin : D.tdiv 2 + 1 ≤ D := by
    rw [Int.tdiv_eq_ediv_of_nonneg hD.le]
    omega
  refine history_invariant
    (fun cs => Spaced inputs D (D.tdiv 2 + 1) cs ∧ ∀ f, .buffer f ∈ cs → frameDurationNS f = D)
    (fun _ r => EvenInv D r)
    (fun cs c hok => ⟨hok.1.before, fun f hf => hok.2 f (mem_append_left _ hf)⟩) ?_ ?_ calls
    ⟨h, hspan⟩
  · exact ⟨rfl, .inl rfl, nofun⟩
  · rintro cs c ⟨hok, hspan⟩ heven
    cases c with
    | buffer frame => exact ⟨heven.dropped, heven.next, heven.spread⟩
    | markEOS id => exact ⟨heven.dropped, heven.next, heven.spread⟩
    | step =>
      exact heven.step (alignInv_joinRun hD.le hmargin cs hok.before) hD
        (fun f hf => hspan f (mem_append_left _ hf)) hok.before.proper.usable
        (hok.proper.fits cs [] rfl)

end

/-- **A join by presentation time.** Reference times never decrease, and an arm's frames come out in
order, each once. When all frames last `D` and an arm's are `D` apart, none is stale, and the frames of a
step are at most half of `D` apart. -/
theorem pts_join_aligned {inputs : List StreamID} {calls : List JoinCall} (h : Proper inputs calls) :
    ((∀ st ∈ (joinRun inputs calls).steps, st.timing.isSome) ∧
      (refTimes (joinRun inputs calls).steps).IsChain (· ≤ ·) ∧
      ∀ id, ((joinRun inputs calls).steps.filterMap (handedOut inputs id)).Sublist (buffered id calls)) ∧
    ∀ D, 0 < D → (∀ f, .buffer f ∈ calls → frameDurationNS f = D) →
      (∀ id, (buffered id calls).IsChain fun f g => D ≤ ptsNS g - ptsNS f) →
      (joinRun inputs calls).sync.dropped = 0 ∧
      (∀ st ∈ (joinRun inputs calls).steps, ∀ f g, some f ∈ st.frames → some g ∈ st.frames →
        2 * |ptsNS f - ptsNS g| ≤ D) ∧
      (refTimes (joinRun inputs calls).steps).IsChain fun a b => D < 2 * (b - a) := by
  refine ⟨?_, fun D hD hspan hchain => ?_⟩
  · have hspaced : Spaced inputs 0 0 calls := by
      refine ⟨h, fun id => ?_, fun f _ hf => by have := Int.tdiv_nonneg hf (by decide : (0 : ℤ) ≤ 2); omega⟩
      simpa using isChain_iff_pairwise.mp (h.ordered id)
    have hinv := alignInv_joinRun le_rfl le_rfl calls hspaced
    refine ⟨hinv.timed, ?_, fun id => ?_⟩
    · simpa using hinv.times
    · obtain ⟨taken, heq, hsub⟩ := hinv.queue id
      rw [heq]
      exact hsub.trans (sublist_append_left _ _)
  · have hhalf : D.tdiv 2 = D / 2 := Int.tdiv_eq_ediv_of_nonneg hD.le
    have hspaced : Spaced inputs D (D.tdiv 2 + 1) calls := by
      refine ⟨h, fun id => ?_, fun f hf _ => by rw [hspan f hf]⟩
      have : IsTrans Frame fun f g => ptsNS f + D ≤ ptsNS g := ⟨fun _ _ _ _ _ => by omega⟩
      exact isChain_iff_pairwise.mp ((hchain id).imp fun f g hfg => by omega)
    have hinv := alignInv_joinRun hD.le (by omega) calls hspaced
    have heven := evenInv_joinRun hD calls hspaced hspan
    exact ⟨heven.dropped, heven.spread, hinv.times.imp fun a b hab => by omega⟩

def frameAt (ms : ℤ) : Frame :=
  { streamID := id, pts := ⟨ms, ⟨1, 1000⟩⟩, duration := ⟨20, ⟨1, 1000⟩⟩ }

def twoArms : List JoinCall :=
  [.buffer (frameAt "a" 0), .buffer (frameAt "b" 5), .step, .buffer (frameAt "a" 20),
    .buffer (frameAt "b" 25), .step]

lemma forall_twoArms {P : Frame → Prop}
    (h : ∀ f ∈ [frameAt "a" 0, frameAt "b" 5, frameAt "a" 20, frameAt "b" 25], P f) :
    ∀ f, .buffer f ∈ twoArms → P f := by
  intro f hf
  refine h f ?_
  simpa [twoArms] using hf

lemma buffered_twoArms :
    buffered id twoArms = buffered "a" twoArms ∨ buffered id twoArms = buffered "b" twoArms ∨
      buffered id twoArms = [] := by
  by_cases ha : "a" = id
  · exact .inl (ha ▸ rfl)
  · by_cases hb : "b" = id
    · exact .inr (.inl (hb ▸ rfl))
    · exact .inr (.inr (by simp [twoArms, buffered, JoinCall.frameOf, frameAt, ha, hb]))

lemma proper_twoArms : Proper ["a", "b"] twoArms where
  arm := forall_twoArms (by decide)
  usable := forall_twoArms (by decide)
  ordered := fun id => by
    rcases buffered_twoArms id with h | h | h <;> rw [h] <;> decide
  open_ := fun before frame behind heq hmem => by
    have : .markEOS frame.streamID ∈ twoArms := heq ▸ mem_append_left _ hmem
    simp [twoArms] at this
  fits := fun before behind heq => by
    have hsteps : ∀ i : Fin twoArms.length, twoArms.get i = .step →
        (joinRun ["a", "b"] (twoArms.take i)).sync.StepFits := by decide +kernel
    exact (forall_step_iff (P := fun before c => c = .step →
      (joinRun ["a", "b"] before).sync.StepFits) twoArms).mpr hsteps before .step behind heq rfl

theorem pts_join_aligned_twoArms :
    Proper ["a", "b"] twoArms ∧ refTimes (joinRun ["a", "b"] twoArms).steps = [0, 20000000] ∧
      (joinRun ["a", "b"] twoArms).sync.dropped = 0 := by
  have h := proper_twoArms
  refine ⟨h, by decide +kernel, ((pts_join_aligned h).2 20000000 (by decide) ?_ ?_).1⟩
  · exact forall_twoArms (by decide)
  · intro id
    rcases buffered_twoArms id with h | h | h <;> rw [h] <;> decide

end Goav.Join
