import Mathlib.Data.List.Sublists
import Goav.Pipeline.FlushDefs

/-!
What the worker takes while a queue is flushed. As long as it leaves the drain alone (`LeavesDrain`),
what it has taken, what the flush holds and the queue are one line. A slot taken in the middle of the
drain overtakes those preserved before.
-/

namespace Goav.Pipeline

open Goav.Lib List FlushNode Option

/-! ### What a drain preserves -/

lemma drainKeeps_sublist (keepRest : Bool) (l : List Slot) : (drainKeeps keepRest l).Sublist l := by
  induction l generalizing keepRest with
  | nil => exact .slnil
  | cons slot rest ih =>
    rw [drainKeeps]
    split
    · exact (ih _).cons_cons slot
    · exact (ih _).cons slot

@[simp] lemma drainKeeps_true (l : List Slot) : drainKeeps true l = l := by
  induction l with
  | nil => rfl
  | cons slot rest ih => simp [drainKeeps, ih]

lemma isEvent_of_isDiscontinuity {slot : Slot} (h : slot.isDiscontinuity = true) :
    slot.isEvent = true := by
  unfold Slot.isDiscontinuity at h
  unfold Slot.isEvent
  split at h <;> simp_all

lemma mem_drainKeeps_tail {slot x : Slot} {rest : List Slot}
    (hdisc : slot.isDiscontinuity = true → drainKeeps false rest = rest)
    (hx : x ∈ drainKeeps false (slot :: rest)) : x = slot ∨ x ∈ drainKeeps false rest := by
  cases hd : slot.isDiscontinuity with
  | true =>
    rw [hdisc hd]
    exact mem_cons.mp ((drainKeeps_sublist false _).subset hx)
  | false =>
    rw [drainKeeps, hd] at hx
    split at hx
    · exact mem_cons.mp hx
    · exact .inr hx

lemma drainKeeps_of_find {l : List Slot} {d : Slot} (h : l.find? Slot.isDiscontinuity = some d) :
    ∃ before after, l = before ++ d :: after ∧ ∀ x ∈ d :: after, x ∈ drainKeeps false l := by
  obtain ⟨hd, before, after, rfl, hno⟩ := find?_eq_some_iff_append.mp h
  refine ⟨before, after, rfl, fun x hx => ?_⟩
  clear h
  induction before with
  | nil => simpa [drainKeeps, isEvent_of_isDiscontinuity hd, hd] using hx
  | cons slot before ih =>
    have hslot : slot.isDiscontinuity = false := by simpa using hno slot (by simp)
    have hmem := ih fun y hy => hno y (mem_cons_of_mem _ hy)
    rw [cons_append, drainKeeps, hslot]
    split
    · exact mem_cons_of_mem _ hmem
    · exact hmem

namespace FlushNode

/-- The steps of a flush are steps of the queue that the ring is. -/
theorem act_fifo {s s' : FlushNode} {a : FlushAction} (hact : s.act a = some s') :
    Fifo.Step s.capacity s.queue s'.queue := by
  cases a with
  | push msg =>
    simp only [act] at hact
    split at hact
    · simp at hact
    · rename_i hopen
      simp only [Bool.or_eq_true, decide_eq_true_eq, not_or, Nat.not_le] at hopen
      exact some.inj hact ▸ .claims _ hopen.2
  | publish i =>
    simp only [act] at hact
    repeat' split at hact
    all_goals first | simp at hact; done | exact some.inj hact ▸ .publishes i
  | take =>
    obtain ⟨⟨slot, queue⟩, hpop, rfl⟩ := map_eq_some_iff.mp hact
    exact .pops hpop
  | next =>
    simp only [act, next] at hact
    split at hact
    case h_2 =>
      split at hact
      · exact some.inj hact ▸ .stays
      · rename_i hpop
        split at hact <;> exact some.inj hact ▸ .pops hpop
    case h_5 =>
      split at hact
      · rename_i hroom
        exact some.inj hact ▸ .claims _ hroom
      · exact some.inj hact ▸ .stays
    case h_6 => exact some.inj hact ▸ .publishes _
    all_goals
      repeat' split at hact
      all_goals first | simp at hact; done | exact some.inj hact ▸ .stays

/-! ### The line -/

variable (s : FlushNode)

def line : List Slot :=
  match s.flush with
  | .locking | .returned => s.taken ++ s.queue.values
  | .popping preserved _ | .checking preserved _ => s.taken ++ (preserved ++ s.queue.values)
  | .pushing preserved | .publishing preserved => s.taken ++ (s.queue.values ++ preserved)

def kept : List Slot :=
  match s.flush with
  | .popping preserved keepRest | .checking preserved keepRest =>
    s.taken ++ (preserved ++ drainKeeps keepRest s.queue.values)
  | _ => s.line

lemma kept_sublist : s.kept.Sublist s.line := by
  unfold kept line
  cases s.flush with
  | popping p k | checking p k =>
    exact ((drainKeeps_sublist k _).append_left p).append_left s.taken
  | _ => exact List.Sublist.refl _

lemma taken_prefix : s.taken <+: s.line := by
  unfold line
  cases s.flush <;> exact prefix_append _ _

lemma line_perm : s.line.Perm (s.taken ++ s.preserved ++ s.queue.values) := by
  unfold line preserved
  cases s.flush with
  | pushing p | publishing p =>
    rw [append_assoc]
    exact perm_append_comm.append_left s.taken
  | _ => simp

end FlushNode

structure FlushInv (s : FlushNode) : Prop where
  ids : ∀ {i : ℕ} {slot : Slot}, s.queued[i]? = some slot → slot.id = i
  line : s.line.Sublist s.queued
  locked : s.locked = false → s.flush = .locking ∨ s.flush = .returned
  fresh : ∀ {keepRest : Bool}, s.flush = .popping [] keepRest ∨ s.flush = .checking [] keepRest →
    keepRest = false
  whole : s.flush = .locking → s.taken ++ s.queue.values = s.queued ∧ s.mark = none
  room : s.preserved.length + s.queue.length ≤ s.capacity
  marked : ∀ {d : Slot}, s.mark = some d → d ∈ s.queued
  kept : ∀ {d : Slot}, s.mark = some d → ∀ x ∈ s.queued, d.id ≤ x.id → x ∈ s.kept

lemma flushInv_queueOf {capacity : ℕ} {messages : List Message} (hlen : messages.length ≤ capacity) :
    FlushInv (queueOf capacity messages) where
  ids := by
    intro i slot h
    simp only [queueOf, slots, getElem?_mapIdx] at h
    obtain ⟨msg, -, rfl⟩ := map_eq_some_iff.mp h
    rfl
  line := by simp [queueOf, line, Fifo.values, Function.comp_def]
  locked _ := .inl rfl
  fresh h := by simp [queueOf] at h
  whole _ := by simp [queueOf, Fifo.values, Function.comp_def]
  room := by simpa [queueOf, preserved, slots] using hlen
  marked h := by simp [queueOf] at h
  kept h := by simp [queueOf] at h

namespace FlushInv

variable {s s' : FlushNode} (h : FlushInv s)
include h

lemma pairwise_queued : s.queued.Pairwise fun x y => x.id < y.id := by
  rw [pairwise_iff_getElem]
  intro i j hi hj hij
  rw [h.ids (getElem?_eq_getElem hi), h.ids (getElem?_eq_getElem hj)]
  exact hij

lemma pairwise_line : s.line.Pairwise fun x y => x.id < y.id :=
  h.pairwise_queued.sublist h.line

/-! ### Steps -/

lemma push {msg : Message} (hact : s.act (.push msg) = some s') : FlushInv s' := by
  simp only [FlushNode.act] at hact
  split at hact
  · simp at hact
  rename_i hopen
  simp only [Bool.or_eq_true, decide_eq_true_eq, not_or] at hopen
  obtain ⟨hlock, hroom⟩ := hopen
  cases hact
  have hflush := h.locked (by simpa using hlock)
  have hline := h.line
  have hcap := h.room
  have hkept := fun {d} => h.kept (d := d)
  have hwhole := h.whole
  constructor
  case ids =>
    intro i slot hi
    rcases Nat.lt_trichotomy i s.queued.length with hlt | heq | hgt
    · rw [getElem?_append_left hlt] at hi
      exact h.ids hi
    · subst heq
      rw [getElem?_concat_length] at hi
      rw [← some.inj hi]
    · rw [getElem?_eq_none (by simp; omega)] at hi
      simp at hi
  case line =>
    rcases hflush with hf | hf <;>
    · simp only [FlushNode.line, hf] at hline ⊢
      rw [Fifo.values_claim, ← append_assoc]
      exact hline.append (List.Sublist.refl _)
  case locked => exact fun _ => hflush
  case fresh =>
    intro k hk
    rcases hflush with hf | hf <;> simp [hf] at hk
  case whole =>
    intro hf
    obtain ⟨hall, hmark⟩ := hwhole hf
    refine ⟨?_, hmark⟩
    rw [Fifo.values_claim, ← append_assoc, hall]
  case room =>
    rcases hflush with hf | hf <;>
    · simp only [FlushNode.preserved, hf, length_nil, Fifo.length_claim] at hcap ⊢
      omega
  case marked => exact fun hd => mem_append_left _ (h.marked hd)
  case kept =>
    intro d hd x hx hle
    rcases hflush with hf | hf
    · rw [(hwhole hf).2] at hd
      simp at hd
    · have hold := hkept hd
      simp only [FlushNode.kept, FlushNode.line, hf, Fifo.values_claim] at hold ⊢
      rcases mem_append.mp hx with hx | hx
      · have := hold x hx hle
        rw [← append_assoc]
        exact mem_append_left _ this
      · simp [hx]

lemma of_eq (hqueued : s'.queued = s.queued) (hmark : s'.mark = s.mark)
    (hcap : s'.capacity = s.capacity) (hline : s'.line.Sublist s.line)
    (hkept : ∀ x ∈ s.kept, x ∈ s'.kept)
    (hlocked : s'.locked = false → s'.flush = .locking ∨ s'.flush = .returned)
    (hfresh : ∀ {keepRest}, s'.flush = .popping [] keepRest ∨ s'.flush = .checking [] keepRest →
      keepRest = false)
    (hwhole : s'.flush = .locking → s'.taken ++ s'.queue.values = s.queued ∧ s.mark = none)
    (hroom : s'.preserved.length + s'.queue.length ≤ s.preserved.length + s.queue.length) :
    FlushInv s' where
  ids hi := h.ids (hqueued ▸ hi)
  line := hqueued ▸ hline.trans h.line
  locked := hlocked
  fresh := hfresh
  whole hf := by
    rw [hqueued, hmark]
    exact hwhole hf
  room := by
    rw [hcap]
    exact hroom.trans h.room
  marked hd := hqueued ▸ h.marked (hmark ▸ hd)
  kept hd x hx hle := hkept x (h.kept (hmark ▸ hd) x (hqueued ▸ hx) hle)

lemma publish {i : ℕ} (hact : s.act (.publish i) = some s') : FlushInv s' := by
  have hs' : s' = { s with queue := s.queue.publish i } := by
    simp only [act] at hact
    split at hact
    · simp at hact
    · split at hact
      · exact (some.inj hact).symm
      · simp at hact
  subst hs'
  refine h.of_eq rfl rfl rfl ?_ ?_ h.locked h.fresh ?_ ?_
  · simp [FlushNode.line]
  · simp [FlushNode.kept, FlushNode.line]
  · simpa using h.whole
  · simp [preserved]

lemma take (hleaves : s.LeavesDrain .take) (hact : s.act .take = some s') : FlushInv s' := by
  obtain ⟨⟨slot, queue⟩, hpop, rfl⟩ := map_eq_some_iff.mp hact
  have hqueue := Fifo.pop_eq_some.mp hpop
  have hmoved : s.taken ++ s.queue.values = s.taken ++ [slot] ++ Fifo.values queue := by
    simp [hqueue]
  refine h.of_eq rfl rfl rfl ?_ ?_ h.locked h.fresh ?_ ?_
  · unfold FlushNode.line
    cases hf : s.flush with
    | popping p k | checking p k =>
      obtain ⟨rfl, -⟩ := hleaves rfl p (by simp [draining, hf])
      simp [hqueue]
    | _ => simp [hqueue]
  · unfold FlushNode.kept FlushNode.line
    cases hf : s.flush with
    | popping p k | checking p k =>
      obtain ⟨rfl, hdisc⟩ := hleaves rfl p (by simp [draining, hf])
      obtain rfl : k = false := h.fresh (by simp [hf])
      intro x hx
      simp only [hqueue] at hx ⊢
      have hrest := fun hd => by simpa [hqueue] using hdisc slot (by simp [hqueue]) hd
      rcases mem_append.mp hx with hx | hx
      · simp [hx]
      · rcases mem_drainKeeps_tail hrest hx with rfl | hx <;> simp [*]
    | _ => simp [hqueue]
  · intro hf
    obtain ⟨hall, hmark⟩ := h.whole hf
    exact ⟨hmoved.symm.trans hall, hmark⟩
  · simp [preserved, hqueue]

lemma lock (hf : s.flush = .locking) :
    FlushInv { s with locked := true, flush := .popping [] false,
                      mark := s.queue.values.find? Slot.isDiscontinuity } := by
  obtain ⟨hall, -⟩ := h.whole hf
  have hcap := h.room
  refine ⟨h.ids, ?_, by simp, by simp, by simp, ?_, ?_, ?_⟩
  · simp [FlushNode.line, hall]
  · simpa [preserved, hf] using hcap
  · intro d hd
    have := mem_of_find?_eq_some hd
    rw [← hall]
    exact mem_append_right _ this
  · intro d hd x hx hle
    obtain ⟨before, after, heq, hkeeps⟩ := drainKeeps_of_find hd
    have hpair := h.pairwise_queued
    rw [← hall, heq] at hx hpair
    rcases mem_append.mp hx with hx | hx
    · exact mem_append_left _ hx
    rcases mem_append.mp hx with hx | hx
    · -- a slot before the discontinuity has a smaller number
      have hlt := (pairwise_append.mp (pairwise_append.mp hpair).2.1).2.2 x hx d (by simp)
      omega
    · exact mem_append_right _ (hkeeps x hx)

lemma flushes {queue : Fifo Slot} {flush : FlushCall} {dropFlush : ℕ}
    (hbusy : ¬ (s.flush = .locking ∨ s.flush = .returned)) (hflush : flush ≠ .locking)
    (hline : ({ s with queue, flush, dropFlush } : FlushNode).line.Sublist s.line)
    (hkept : s.kept = ({ s with queue, flush, dropFlush } : FlushNode).kept)
    (hfresh : ∀ {keepRest}, flush = .popping [] keepRest ∨ flush = .checking [] keepRest →
      keepRest = false)
    (hroom : ({ s with queue, flush, dropFlush } : FlushNode).preserved.length + queue.length ≤
      s.preserved.length + s.queue.length) :
    FlushInv { s with queue, flush, dropFlush } :=
  h.of_eq rfl rfl rfl hline (fun _ hx => hkept ▸ hx) (fun hl => absurd (h.locked hl) hbusy) hfresh
    (fun hf => absurd hf hflush) hroom

lemma next (hact : s.act .next = some s') : FlushInv s' := by
  simp only [FlushNode.act, FlushNode.next] at hact
  split at hact
  · -- locking
    rename_i hf
    split at hact
    · simp at hact
    · cases hact
      exact h.lock hf
  · rename_i p k hf
    split at hact
    · -- a pop that returns nothing
      cases hact
      refine h.flushes (by simp [hf]) (by simp) ?_ ?_ ?_ ?_
      · simp [FlushNode.line, hf]
      · simp [FlushNode.kept, hf]
      · rintro _ (hk | hk)
        · simp at hk
        · simp only [FlushCall.checking.injEq] at hk
          exact h.fresh (by simp [hf, hk])
      · simp [FlushNode.preserved, hf]
    · rename_i slot queue hpop
      have hqueue := Fifo.pop_eq_some.mp hpop
      split at hact
      · -- a slot that is preserved
        rename_i hkeep
        cases hact
        refine h.flushes (by simp [hf]) (by simp) ?_ ?_ (by simp) ?_
        · simp [FlushNode.line, hf, hqueue]
        · simp [FlushNode.kept, hf, hqueue, drainKeeps, hkeep]
        · simp only [FlushNode.preserved, hf, hqueue, length_append, length_cons, length_nil]
          omega
      · -- a slot that is dropped
        rename_i hdrop
        cases hact
        refine h.flushes (by simp [hf]) (by simp [hf]) ?_ ?_ h.fresh ?_
        · simp [FlushNode.line, hf, hqueue]
        · simp [FlushNode.kept, hf, hqueue, drainKeeps, hdrop]
        · simp [FlushNode.preserved, hf, hqueue]
  · rename_i p k hf
    split at hact
    · -- everything is drained
      rename_i hempty
      cases hact
      have hnil : s.queue = [] := isEmpty_iff.mp hempty
      refine h.flushes (by simp [hf]) (by simp) ?_ ?_ (by simp) ?_
      · simp [FlushNode.line, hf, hnil]
      · simp [FlushNode.kept, FlushNode.line, hf, hnil, drainKeeps]
      · simp [FlushNode.preserved, hf]
    · cases hact
      refine h.flushes (by simp [hf]) (by simp) ?_ ?_ ?_ ?_
      · simp [FlushNode.line, hf]
      · simp [FlushNode.kept, hf]
      · rintro _ (hk | hk)
        · simp only [FlushCall.popping.injEq] at hk
          exact h.fresh (by simp [hf, hk])
        · simp at hk
      · simp [FlushNode.preserved, hf]
  · -- the unlock
    rename_i hf
    cases hact
    refine h.of_eq rfl rfl rfl ?_ ?_ (by simp) (by simp) (by simp) ?_
    · simp [FlushNode.line, hf]
    · simp [FlushNode.kept, FlushNode.line, hf]
    · simp [FlushNode.preserved]
  · rename_i slot p hf
    split at hact
    · -- a place for a preserved slot
      cases hact
      refine h.flushes (by simp [hf]) (by simp) ?_ ?_ (by simp) ?_
      · simp [FlushNode.line, hf]
      · simp [FlushNode.kept, FlushNode.line, hf]
      · simp only [FlushNode.preserved, hf, Fifo.length_claim, length_cons]
        omega
    · exact some.inj hact ▸ h
  · -- the slot is published
    rename_i p hf
    cases hact
    refine h.flushes (by simp [hf]) (by simp) ?_ ?_ (by simp) ?_
    · simp [FlushNode.line, hf]
    · simp [FlushNode.kept, FlushNode.line, hf]
    · simp [FlushNode.preserved, hf]
  · simp at hact

theorem step {a : FlushAction} (hleaves : s.LeavesDrain a) (hact : s.act a = some s') : FlushInv s' := by
  cases a with
  | push msg => exact h.push hact
  | publish i => exact h.publish hact
  | take => exact h.take hleaves hact
  | next => exact h.next hact

lemma count_line {x : Slot} (hx : x ∈ s.kept) :
    s.taken.count x + s.preserved.count x + s.queue.values.count x = 1 := by
  have hnodup : s.line.Nodup := h.pairwise_line.imp fun hlt heq => by simp [heq] at hlt
  have hcount := count_eq_one_of_mem hnodup (s.kept_sublist.subset hx)
  rwa [s.line_perm.count_eq, count_append, count_append] at hcount

lemma taken_before {d x : Slot} (hd : d ∈ s.kept) (hx : x ∈ s.taken) (hle : d.id ≤ x.id) :
    d ∈ s.taken ∧ (x ≠ d → [d, x].Sublist s.taken) := by
  obtain ⟨rest, hrest⟩ := s.taken_prefix
  have hpair := h.pairwise_line
  rw [← hrest] at hpair
  obtain ⟨htaken, -, hbetween⟩ := pairwise_append.mp hpair
  have hmem : d ∈ s.taken := by
    have := s.kept_sublist.subset hd
    rw [← hrest] at this
    refine (mem_append.mp this).resolve_right fun hd => ?_
    have := hbetween x hx d hd
    omega
  refine ⟨hmem, fun hne => ?_⟩
  obtain ⟨l₁, l₂, heq⟩ := append_of_mem hx
  rw [heq] at hmem htaken ⊢
  have hfront : d ∈ l₁ := by
    refine (mem_append.mp hmem).resolve_right fun hd => ?_
    rcases mem_cons.mp hd with hd | hd
    · exact hne hd.symm
    · have := (pairwise_cons.mp (pairwise_append.mp htaken).2.1).1 d hd
      omega
  exact (singleton_sublist.mpr hfront).append (singleton_sublist.mpr mem_cons_self)

end FlushInv

/-! ### The end of the flush -/

/-- A continuation in which nothing more is queued and the worker leaves the drain alone. -/
structure Completes (s s' : FlushNode) : Prop where
  runs : Runs FlushNode.act FlushNode.LeavesDrain s s'
  queued : s'.queued = s.queued
  mark : s'.mark = s.mark

namespace Completes

variable {s s' s'' : FlushNode}

lemma rfl : Completes s s := ⟨.refl, Eq.refl _, Eq.refl _⟩

lemma trans (h : Completes s s') (h' : Completes s' s'') : Completes s s'' :=
  ⟨h.runs.trans h'.runs, h'.queued.trans h.queued, h'.mark.trans h.mark⟩

lemma inv (h : Completes s s') (hs : FlushInv s) : FlushInv s' :=
  h.runs.invariant FlushInv hs fun hinv => hinv.step

lemma next (hact : s.next = some s') (hflush : s.flush ≠ .locking) : Completes s s' := by
  refine ⟨.step (a := .next) .refl (by simp [FlushNode.LeavesDrain]) hact, ?_, ?_⟩ <;>
  · simp only [FlushNode.next] at hact
    repeat' split at hact
    all_goals first | contradiction | exact some.inj hact ▸ Eq.refl _

lemma publish {slot : Slot} {b : Bool} {q : Fifo Slot} (hqueue : s.queue = (slot, b) :: q)
    (hflush : ∀ p, s.flush ≠ .publishing p) :
    Completes s { s with queue := (slot, true) :: q } := by
  cases b with
  | true => exact hqueue ▸ .rfl
  | false =>
    have hact : s.act (.publish 0) = some { s with queue := (slot, true) :: q } := by
      cases hf : s.flush with
      | publishing p => exact absurd hf (hflush p)
      | _ => simp [act, hf, hqueue, Fifo.publish]
    exact ⟨.step .refl (by simp [FlushNode.LeavesDrain]) hact, Eq.refl _, Eq.refl _⟩

lemma drain (q : Fifo Slot) {p : List Slot} {k : Bool} (hqueue : s.queue = q)
    (hflush : s.flush = .popping p k) : ∃ s' p', Completes s s' ∧ s'.flush = .pushing p' := by
  induction q generalizing s p k with
  | nil =>
    have hnil : s.next = some { s with flush := .checking p k } := by
      simp [FlushNode.next, hflush, hqueue, Fifo.pop]
    have hdone : FlushNode.next { s with flush := .checking p k } =
        some { s with flush := .pushing p } := by
      simp [FlushNode.next, hqueue]
    exact ⟨_, p, (next hnil (by simp [hflush])).trans (next hdone (by simp)), Eq.refl _⟩
  | cons e q ih =>
    obtain ⟨slot, b⟩ := e
    have hpublish := publish hqueue (by simp [hflush])
    by_cases hkeep : (k || slot.isEvent) = true
    · have hpop : FlushNode.next { s with queue := (slot, true) :: q } =
          some { s with queue := q, flush := .popping (p ++ [slot]) (k || slot.isDiscontinuity) } := by
        simp [FlushNode.next, hflush, Fifo.pop, hkeep]
      obtain ⟨s', p', hs', hpushing⟩ := ih (s := { s with
        queue := q, flush := .popping (p ++ [slot]) (k || slot.isDiscontinuity) })
        (Eq.refl _) (Eq.refl _)
      exact ⟨s', p', (hpublish.trans (next hpop (by simp [hflush]))).trans hs', hpushing⟩
    · have hpop : FlushNode.next { s with queue := (slot, true) :: q } =
          some { s with queue := q, dropFlush := s.dropFlush + 1 } := by
        simp [FlushNode.next, hflush, Fifo.pop, hkeep]
      obtain ⟨s', p', hs', hpushing⟩ := ih (s := { s with
        queue := q, dropFlush := s.dropFlush + 1 }) (Eq.refl _) hflush
      exact ⟨s', p', (hpublish.trans (next hpop (by simp [hflush]))).trans hs', hpushing⟩

lemma requeue (p : List Slot) (hs : FlushInv s) (hflush : s.flush = .pushing p) :
    ∃ s', Completes s s' ∧ s'.flush = .returned := by
  induction p generalizing s with
  | nil =>
    have hunlock : s.next = some { s with locked := false, flush := .returned } := by
      simp [FlushNode.next, hflush]
    exact ⟨_, next hunlock (by simp [hflush]), Eq.refl _⟩
  | cons slot p ih =>
    have hroom : s.queue.length < s.capacity := by
      have := hs.room
      simp only [preserved, hflush, length_cons] at this
      omega
    have hclaim : s.next = some { s with queue := s.queue.claim slot, flush := .publishing p } := by
      simp [FlushNode.next, hflush, hroom]
    have hpublish := next (s := { s with queue := s.queue.claim slot, flush := .publishing p })
      (Eq.refl _) (by simp)
    have hboth := (next hclaim (by simp [hflush])).trans hpublish
    obtain ⟨s', hs', hreturned⟩ := ih (hboth.inv hs) (Eq.refl _)
    exact ⟨s', hboth.trans hs', hreturned⟩

lemma empty (q : Fifo Slot) (hqueue : s.queue = q) (hflush : s.flush = .returned) :
    ∃ s', Completes s s' ∧ s'.flush = .returned ∧ s'.queue = [] := by
  induction q generalizing s with
  | nil => exact ⟨s, .rfl, hflush, hqueue⟩
  | cons e q ih =>
    obtain ⟨slot, b⟩ := e
    have hpublish := publish hqueue (by simp [hflush])
    have htake : Completes { s with queue := (slot, true) :: q }
        { s with queue := q, taken := s.taken ++ [slot] } := by
      refine ⟨.step .refl ?_ (a := .take) (Eq.refl _), Eq.refl _, Eq.refl _⟩
      simp [FlushNode.LeavesDrain, draining, hflush]
    obtain ⟨s', hs', hend⟩ := ih (s := { s with queue := q, taken := s.taken ++ [slot] })
      (Eq.refl _) hflush
    exact ⟨s', (hpublish.trans htake).trans hs', hend⟩

/-- **A flush that is under way can end, and the worker take everything.** -/
theorem exists_end (hs : FlushInv s) (hflush : s.flush ≠ .locking) :
    ∃ s', Completes s s' ∧ s'.flush = .returned ∧ s'.queue = [] := by
  have ofReturned {s : FlushNode} (hf : s.flush = .returned) := empty s.queue (Eq.refl _) hf
  have ofPushing {s : FlushNode} {p : List Slot} (hs : FlushInv s) (hf : s.flush = .pushing p) :
      ∃ s', Completes s s' ∧ s'.flush = .returned ∧ s'.queue = [] := by
    obtain ⟨s₁, h₁, hf₁⟩ := requeue p hs hf
    obtain ⟨s₂, h₂, hend⟩ := ofReturned hf₁
    exact ⟨s₂, h₁.trans h₂, hend⟩
  have ofPopping {s : FlushNode} {p : List Slot} {k : Bool} (hs : FlushInv s) (hf : s.flush = .popping p k) :
      ∃ s', Completes s s' ∧ s'.flush = .returned ∧ s'.queue = [] := by
    obtain ⟨s₁, p₁, h₁, hf₁⟩ := drain s.queue (Eq.refl _) hf
    obtain ⟨s₂, h₂, hend⟩ := ofPushing (h₁.inv hs) hf₁
    exact ⟨s₂, h₁.trans h₂, hend⟩
  cases hf : s.flush with
  | locking => exact absurd hf hflush
  | popping p k => exact ofPopping hs hf
  | checking p k =>
    by_cases hempty : s.queue.isEmpty = true
    · have hstep : s.next = some { s with flush := .pushing p } := by
        simp [FlushNode.next, hf, hempty]
      have h₁ := next hstep hflush
      obtain ⟨s₂, h₂, hend⟩ := ofPushing (h₁.inv hs) (Eq.refl _)
      exact ⟨s₂, h₁.trans h₂, hend⟩
    · have hstep : s.next = some { s with flush := .popping p k } := by
        simp [FlushNode.next, hf, hempty]
      have h₁ := next hstep hflush
      obtain ⟨s₂, h₂, hend⟩ := ofPopping (h₁.inv hs) (Eq.refl _)
      exact ⟨s₂, h₁.trans h₂, hend⟩
  | pushing p => exact ofPushing hs hf
  | publishing p =>
    have hstep : s.next =
        some { s with queue := s.queue.publish (s.queue.length - 1), flush := .pushing p } := by
      simp [FlushNode.next, hf]
    have h₁ := next hstep hflush
    obtain ⟨s₂, h₂, hend⟩ := ofPushing (h₁.inv hs) (Eq.refl _)
    exact ⟨s₂, h₁.trans h₂, hend⟩
  | returned => exact ofReturned hf

end Completes

/-! ### The order -/

/-- **A flush that the worker leaves alone keeps the order**, and from the first discontinuity on each
message is taken, queued or held, once, and can still be taken. -/
theorem flush_keeps_order {capacity : ℕ} {messages : List Message}
    (hlen : messages.length ≤ capacity) {s : FlushNode}
    (hrun : Runs FlushNode.act FlushNode.LeavesDrain (queueOf capacity messages) s) :
    s.taken.Sublist s.queued ∧
    ∀ d, s.mark = some d →
      (∀ x ∈ s.queued, d.id ≤ x.id →
        s.taken.count x + s.preserved.count x + s.queue.values.count x = 1 ∧
        (x ∈ s.taken → d ∈ s.taken ∧ (x ≠ d → [d, x].Sublist s.taken)) ∧
        (s.flush = .returned → s.queue = [] → s.taken.count x = 1)) ∧
      ∃ s', Runs FlushNode.act FlushNode.LeavesDrain s s' ∧ s'.queued = s.queued ∧
        s'.mark = some d ∧ s'.flush = .returned ∧ s'.queue = [] := by
  have hinv := hrun.invariant FlushInv (flushInv_queueOf hlen) fun hinv => hinv.step
  refine ⟨s.taken_prefix.sublist.trans hinv.line, fun d hd => ⟨fun x hx hle => ?_, ?_⟩⟩
  · have hcount := hinv.count_line (hinv.kept hd x hx hle)
    refine ⟨hcount, fun htaken => ?_, fun hflush hqueue => ?_⟩
    · exact hinv.taken_before (hinv.kept hd d (hinv.marked hd) (Nat.le_refl _)) htaken hle
    · simpa [preserved, hflush, hqueue] using hcount
  · have hflush : s.flush ≠ .locking := by
      intro hf
      simp [(hinv.whole hf).2] at hd
    obtain ⟨s', hs', hend⟩ := Completes.exists_end hinv hflush
    exact ⟨s', hs'.runs, hs'.queued, hs'.mark.trans hd, hend⟩

/-- The worker takes a packet in the middle of the drain, and the rest when it is back. -/
theorem flush_keeps_order_drain :
    ∃ s d, Runs FlushNode.act FlushNode.LeavesDrain
        (queueOf 3 [.packet none, .event (some { type := .discontinuity }), .packet none]) s ∧
      s.mark = some d ∧ s.flush = .returned ∧ s.taken.length = 3 ∧
      ∀ x ∈ s.queued, d.id ≤ x.id → s.taken.count x = 1 := by
  obtain ⟨s, hs⟩ : ∃ s, exec act FlushNode.LeavesDrain
      (queueOf 3 [.packet none, .event (some { type := .discontinuity }), .packet none])
      ([.next, .take] ++ List.replicate 9 .next ++ [.take, .take]) = some s := by
    exact ⟨_, rfl⟩
  have hrun := Runs.exec _ .refl hs
  obtain ⟨hmark, hflush, hqueue, hlen⟩ : s.mark = some ⟨1, .event (some { type := .discontinuity })⟩ ∧
      s.flush = .returned ∧ s.queue = [] ∧ s.taken.length = 3 := by
    rw [← some.inj hs]
    decide +kernel
  obtain ⟨-, hkeeps⟩ := flush_keeps_order (by decide) hrun
  exact ⟨s, _, hrun, hmark, hflush, hlen, fun x hx hle =>
    ((hkeeps _ hmark).1 x hx hle).2.2 hflush hqueue⟩

/-- The worker takes the packet before the discontinuity; or it takes that, and the packet is dropped. -/
theorem drain_overtaken :
    (∃ s, Runs FlushNode.act (fun _ _ => True)
        (queueOf 2 [.event (some { type := .discontinuity }), .packet none]) s ∧
      s.mark.map Slot.id = some 0 ∧ s.flush = .returned ∧ s.queue = [] ∧
      s.taken.map Slot.id = [1, 0] ∧ s.queued.map Slot.id = [0, 1]) ∧
    ∃ s, Runs FlushNode.act (fun _ _ => True)
        (queueOf 2 [.event (some { type := .discontinuity }), .packet none]) s ∧
      s.mark.map Slot.id = some 0 ∧ s.flush = .returned ∧ s.queue = [] ∧
      s.taken.map Slot.id = [0] ∧ s.queued.map Slot.id = [0, 1] := by
  constructor
  · obtain ⟨s, hs⟩ : ∃ s, exec act (fun _ _ => True)
        (queueOf 2 [.event (some { type := .discontinuity }), .packet none])
        ([.next, .next, .take] ++ List.replicate 5 .next ++ [.take]) = some s := ⟨_, rfl⟩
    refine ⟨s, Runs.exec _ .refl hs, ?_⟩
    rw [← some.inj hs]
    decide +kernel
  · obtain ⟨s, hs⟩ : ∃ s, exec act (fun _ _ => True)
        (queueOf 2 [.event (some { type := .discontinuity }), .packet none])
        ([.next, .take] ++ List.replicate 4 .next) = some s := ⟨_, rfl⟩
    refine ⟨s, Runs.exec _ .refl hs, ?_⟩
    rw [← some.inj hs]
    decide +kernel

/-! ### Any worker -/

/-- Every slot that was queued is taken, held by the flush, queued, or counted as dropped, once. -/
def FlushNode.Accounted (s : FlushNode) : Prop :=
  ∃ dropped : List Slot, dropped.length = s.dropFlush ∧
    s.taken ++ s.preserved ++ s.queue.values ++ dropped ~ s.queued

namespace FlushNode.Accounted

variable {s s' : FlushNode}

lemma of_perm (h : s.Accounted)
    (hslots : s'.taken ++ s'.preserved ++ s'.queue.values ~ s.taken ++ s.preserved ++ s.queue.values)
    (hdrop : s'.dropFlush = s.dropFlush) (hqueued : s'.queued = s.queued) : s'.Accounted := by
  obtain ⟨dropped, hlen, hperm⟩ := h
  exact ⟨dropped, hlen.trans hdrop.symm, hqueued ▸ (hslots.append_right dropped).trans hperm⟩

lemma next (h : s.Accounted) (hnext : s.next = some s') : s'.Accounted := by
  unfold FlushNode.next at hnext
  split at hnext
  case h_2 hflush =>
    split at hnext
    · cases hnext
      exact h.of_perm (by simp [preserved, hflush]) rfl rfl
    · rename_i slot queue hpop
      have hqueue := Fifo.pop_eq_some.mp hpop
      split at hnext
      · cases hnext
        exact h.of_perm (by simp [preserved, hflush, hqueue]) rfl rfl
      · cases hnext
        obtain ⟨dropped, hlen, hperm⟩ := h
        refine ⟨slot :: dropped, by simp [hlen], .trans ?_ hperm⟩
        simp [preserved, hflush, hqueue, perm_append_left_iff, perm_middle]
  case h_5 slot held hflush =>
    split at hnext
    · cases hnext
      refine h.of_perm ?_ rfl rfl
      simp only [preserved, hflush, Fifo.values_claim, append_assoc, perm_append_left_iff]
      rw [← append_assoc]
      exact perm_append_singleton _ _
    · cases hnext
      exact h
  all_goals
    rename_i hflush
    repeat' split at hnext
    all_goals cases hnext
    all_goals exact h.of_perm (by simp [preserved, hflush]) rfl rfl

lemma act {a : FlushAction} (h : s.Accounted) (hact : s.act a = some s') : s'.Accounted := by
  cases a with
  | next => exact h.next hact
  | push msg =>
    simp only [FlushNode.act] at hact
    split at hact
    · cases hact
    · cases hact
      obtain ⟨dropped, hlen, hperm⟩ := h
      refine ⟨dropped, hlen, .trans ?_ (hperm.append_right _)⟩
      simp only [preserved, Fifo.values_claim, append_assoc, perm_append_left_iff]
      exact (perm_append_singleton _ _).symm
  | publish i =>
    simp only [FlushNode.act] at hact
    repeat' split at hact
    all_goals cases hact
    all_goals exact h.of_perm (by simp [preserved]) rfl rfl
  | take =>
    obtain ⟨⟨slot, queue⟩, hpop, rfl⟩ := map_eq_some_iff.mp hact
    refine h.of_perm ?_ rfl rfl
    simp only [preserved, Fifo.pop_eq_some.mp hpop, Fifo.values_cons, append_assoc, perm_append_left_iff,
      singleton_append]
    exact perm_middle.symm

end FlushNode.Accounted

/-- **No flush loses or doubles a message**, however the worker and the producers step. -/
theorem flush_conserves {capacity : ℕ} {messages : List Message} {s : FlushNode}
    (hrun : Runs FlushNode.act (fun _ _ => True) (queueOf capacity messages) s) : s.Accounted :=
  hrun.invariant _ ⟨[], rfl, by simp [queueOf, preserved, Fifo.values, Function.comp_def]⟩ fun h _ => h.act

theorem flush_conserves_dropped : ∃ s, exec FlushNode.act (fun _ _ => True)
    (queueOf 2 [.packet none, .packet none]) (.next :: .take :: replicate 4 .next) = some s ∧
      s.dropFlush = 1 ∧ s.Accounted :=
  ⟨_, rfl, rfl, @flush_conserves 2 [.packet none, .packet none] _
      (.exec (.next :: .take :: replicate 4 .next) .refl rfl)⟩

end Goav.Pipeline
