import Mathlib.Algebra.Order.Ring.Int
import Goav.Join.SyncDefs

/-!
What the operations of a join's arm state do to each queue: which heads a step selects, what it
takes off the queues, and what the drop of stale heads leaves.
-/

namespace Goav.Join

open Goav.Av List Option

/-! ### Numbers -/

lemma wrap64_eq {x : ℤ} (hlo : minInt64 ≤ x) (hhi : x ≤ maxInt64) : wrap64 x = x := by
  unfold minInt64 maxInt64 at *
  exact Int.bmod_eq_of_le (by omega) (by omega)

namespace JoinSync

variable {s : JoinSync} {id : StreamID} (queue : List Frame)

@[simp] lemma setPending_inputs : (s.setPending id queue).inputs = s.inputs :=
  rfl

@[simp] lemma setPending_eos : (s.setPending id queue).eos = s.eos := rfl

@[simp] lemma setPending_dropped : (s.setPending id queue).dropped = s.dropped := rfl

@[simp] lemma setPending_pending_self :
    (s.setPending id queue).pending id = queue := Function.update_self ..

lemma setPending_pending_of_ne {id' : StreamID} (h : id' ≠ id) (queue : List Frame) :
    (s.setPending id queue).pending id' = s.pending id' := Function.update_of_ne h ..

/-! ### Ready -/

lemma readyLoop_iff (any : Bool) (ids : List StreamID) :
    s.readyLoop any ids = true ↔
      (any = true ∨ ∃ id ∈ ids, s.pending id ≠ []) ∧ ∀ id ∈ ids, s.pending id ≠ [] ∨ id ∈ s.eos := by
  induction ids generalizing any with
  | nil => simp [readyLoop]
  | cons id ids ih =>
    rw [readyLoop]
    by_cases hp : s.pending id = []
    · by_cases he : id ∈ s.eos
      · simp [hp, he, ih]
      · simp [hp, he]
    · simp [hp, ih]

theorem ready_iff :
    s.ready = true ↔ (∃ id ∈ s.inputs, s.pending id ≠ []) ∧
      ∀ id ∈ s.inputs, s.pending id ≠ [] ∨ id ∈ s.eos := by
  simp [ready, readyLoop_iff]

/-! ### Stale heads -/

lemma foldl_dropStaleArm (ids : List StreamID) (s : JoinSync) :
    ∃ pending dropped, ids.foldl dropStaleArm s = { s with pending, dropped } ∧
      ∀ id, pending id <:+ s.pending id := by
  induction ids generalizing s with
  | nil => exact ⟨s.pending, s.dropped, rfl, fun id => suffix_rfl⟩
  | cons arm ids ih =>
    obtain ⟨pending, dropped, heq, hpending⟩ := ih (s.dropStaleArm arm)
    refine ⟨pending, dropped, heq, fun id => (hpending id).trans ?_⟩
    by_cases hid : id = arm
    · subst hid
      have : (s.dropStaleArm id).pending id = (s.pending id).dropWhile s.stale :=
        Function.update_self ..
      rw [this]
      exact dropWhile_suffix _
    · have : (s.dropStaleArm arm).pending id = s.pending id := Function.update_of_ne hid ..
      rw [this]

theorem dropStale_eq (s : JoinSync) :
    ∃ pending dropped, s.dropStale = { s with pending, dropped } ∧
      ∀ id, pending id <:+ s.pending id := by
  unfold dropStale
  split
  · exact ⟨s.pending, s.dropped, rfl, fun id => suffix_rfl⟩
  · exact foldl_dropStaleArm s.inputs s

lemma dropStaleArm_eq_self (h : ∀ f ∈ s.pending id, s.stale f = false) : s.dropStaleArm id = s := by
  have hqueue : (s.pending id).dropWhile s.stale = s.pending id := by
    cases hp : s.pending id with
    | nil => rfl
    | cons f queue => rw [dropWhile_cons_of_neg (by simp [h f (by simp [hp])])]
  simp [dropStaleArm, hqueue, setPending]

theorem dropStale_eq_self (h : ∀ id ∈ s.inputs, ∀ f ∈ s.pending id, s.stale f = false) :
    s.dropStale = s := by
  unfold dropStale
  split
  · rfl
  generalize s.inputs = ids at h
  induction ids with
  | nil => rfl
  | cons id ids ih =>
    rw [foldl_cons, dropStaleArm_eq_self (h id (by simp))]
    exact ih fun id' hid' => h id' (by simp [hid'])

/-! ### The selection by presentation time -/

structure IsEarliest (s : JoinSync) (arms : List StreamID) (best : Option (ℕ × ℤ)) : Prop where
  attained : ∀ i t, best = some (i, t) →
    ∃ id f, arms[i]? = some id ∧ (s.pending id).head? = some f ∧ framePTSNS f = some t
  least : ∀ id ∈ arms, ∀ f, (s.pending id).head? = some f → ∀ ns, framePTSNS f = some ns →
    ∃ i t, best = some (i, t) ∧ t ≤ ns

variable {arms : List StreamID} {best : Option (ℕ × ℤ)} {ns : ℤ}

lemma IsEarliest.concat (h : s.IsEarliest arms best) (hlast : ∀ ns,
    (s.pending id).head?.bind framePTSNS = some ns → ∃ i t, best = some (i, t) ∧ t ≤ ns) :
    s.IsEarliest (arms ++ [id]) best := by
  refine ⟨fun i t hbest => ?_, fun id' hid' f hf ns hns => ?_⟩
  · obtain ⟨id', f, harm, hf, ht⟩ := h.attained i t hbest
    exact ⟨id', f, by rw [List.getElem?_append_left (List.getElem?_eq_some_iff.mp harm).1, harm], hf, ht⟩
  · rcases mem_append.mp hid' with hid' | hid'
    · exact h.least id' hid' f hf ns hns
    · obtain rfl := mem_singleton.mp hid'
      exact hlast ns (by rw [hf, bind_some, hns])

lemma IsEarliest.take (h : s.IsEarliest arms best) (hsome : (s.pending id).head?.bind framePTSNS = some ns)
    (hless : ∀ i t, best = some (i, t) → ns < t) :
    s.IsEarliest (arms ++ [id]) (some (arms.length, ns)) := by
  obtain ⟨f, hf, hns⟩ := bind_eq_some_iff.mp hsome
  refine ⟨fun i t hbest => ?_, fun id' hid' f' hf' ns' hns' => ⟨_, _, rfl, ?_⟩⟩
  · cases hbest
    exact ⟨id, f, by simp, hf, hns⟩
  · rcases mem_append.mp hid' with hid' | hid'
    · obtain ⟨i, t, hbest, ht⟩ := h.least id' hid' f' hf' ns' hns'
      exact (hless i t hbest).le.trans ht
    · obtain rfl := mem_singleton.mp hid'
      obtain rfl := some.inj (hf.symm.trans hf')
      exact (some.inj (hns.symm.trans hns')).le

lemma earliest_append (ids : List StreamID) :
    ∀ {arms : List StreamID} {best : Option (ℕ × ℤ)}, s.IsEarliest arms best →
      s.IsEarliest (arms ++ ids) (s.earliest arms.length best ids) := by
  induction ids with
  | nil => simp [earliest]
  | cons id ids ih =>
    intro arms best h
    have hnext : ∀ {best'}, s.IsEarliest (arms ++ [id]) best' →
        s.IsEarliest (arms ++ id :: ids) (s.earliest (arms.length + 1) best' ids) := by
      intro best' h'
      simpa using ih h'
    unfold earliest
    split
    · rename_i hnone
      exact hnext (h.concat (by simp [hnone]))
    rename_i ns hsome
    split
    · exact hnext (h.take hsome nofun)
    split
    · rename_i hlt
      refine hnext (h.take hsome fun i' t' heq => ?_)
      obtain ⟨-, rfl⟩ := Prod.mk.inj (some.inj heq)
      exact hlt
    · rename_i hge
      refine hnext (h.concat fun ns' hns' => ⟨_, _, rfl, ?_⟩)
      rw [← some.inj (hsome.symm.trans hns')]
      exact not_lt.mp hge

theorem earliest_spec (s : JoinSync) : s.IsEarliest s.inputs (s.earliest 0 none s.inputs) := by
  have h : s.IsEarliest [] none := ⟨nofun, nofun⟩
  simpa using earliest_append s.inputs h

/-! ### Taking a step off the queues -/

lemma foldl_popSlot (sel : StreamID → Option Frame) (ids : List StreamID) (s : JoinSync) :
    ∃ pending, ids.foldl (fun s id => s.popSlot (id, sel id)) s = { s with pending } ∧
      ∀ id, pending id = if (sel id).isSome then (s.pending id).drop (ids.count id) else s.pending id := by
  induction ids generalizing s with
  | nil => exact ⟨s.pending, rfl, fun id => by simp⟩
  | cons arm ids ih =>
    obtain ⟨pending, heq, hpending⟩ := ih (s.popSlot (arm, sel arm))
    rw [foldl_cons, heq]
    cases hsel : sel arm with
    | none =>
      have hpop : s.popSlot (arm, sel arm) = s := by simp [popSlot, hsel]
      rw [hsel] at hpop hpending
      rw [hpop] at hpending ⊢
      refine ⟨pending, rfl, fun id => ?_⟩
      by_cases hid : arm = id
      · subst hid
        simp [hpending, hsel]
      · simp [hpending, hid]
    | some f =>
      rw [hsel] at hpending
      refine ⟨pending, rfl, fun id => ?_⟩
      rw [hpending id, popSlot]
      by_cases hid : arm = id
      · subst hid
        simp [hsel]
      · rw [setPending_pending_of_ne (Ne.symm hid)]
        simp [hid]

theorem popStep_eq (s : JoinSync) (sel : StreamID → Option Frame) (ref : Option ℕ) :
    ∃ pending, s.popStep { frames := s.inputs.map sel, ref } = { s with pending } ∧
      ∀ id, pending id =
        if (sel id).isSome then (s.pending id).drop (s.inputs.count id) else s.pending id := by
  unfold popStep
  rw [← map_prod_left_eq_zip, foldl_map]
  exact foldl_popSlot sel s.inputs s

end JoinSync

end Goav.Join
