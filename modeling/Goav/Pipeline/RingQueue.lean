import Goav.Lib.Fifo
import Goav.Pipeline.Ring

/-!
What the ring is to its users: the queue of the positions that are claimed and not popped, each with
whether it is published. Every atomic step is one step of that queue.
-/

namespace Goav.Pipeline

open Goav.Lib List Option

variable {V : Type} {n t : ℕ} {r r' : Ring V} {l l' : RingCall V}

/-- The queue that the ring is. -/
def Ring.fifo (r : Ring V) : Fifo V :=
  (r.claims.drop r.pops).mapIdx fun i v => (v, (r.writer (r.pops + i)).isNone)

namespace Ring

lemma getElem?_fifo (r : Ring V) (i : ℕ) :
    r.fifo[i]? = r.claims[r.pops + i]?.map fun v => (v, (r.writer (r.pops + i)).isNone) := by
  simp [fifo]

lemma length_fifo (r : Ring V) : r.fifo.length = r.claims.length - r.pops := by simp [fifo]

lemma fifo_congr (hclaims : r'.claims = r.claims) (hpops : r'.pops = r.pops)
    (hwriter : r'.writer = r.writer) : r'.fifo = r.fifo := by
  simp [fifo, hclaims, hpops, hwriter]

lemma fifo_claim (hr : RingOk n r) (v : V) : (r.claim t v).fifo = r.fifo.claim v := by
  have hle := hr.le
  refine ext_getElem? fun i => ?_
  rw [getElem?_fifo]
  simp only [claim, Fifo.claim]
  rcases Nat.lt_trichotomy (r.pops + i) r.claims.length with hlt | heq | hgt
  · rw [getElem?_append_left hlt, getElem?_append_left (by rw [length_fifo]; omega),
      getElem?_fifo, Function.update_of_ne (by omega)]
  · have hi : i = r.fifo.length := by rw [length_fifo]; omega
    rw [heq, hi]
    simp
  · rw [getElem?_eq_none (by simp; omega), getElem?_eq_none (by simp [length_fifo]; omega)]
    rfl

lemma fifo_publish (hr : RingOk n r) {pos : UInt64} (hpos : r.writer pos.toNat = some t) :
    (r.publish pos).fifo = r.fifo.publish (pos.toNat - r.pops) := by
  have hle := (hr.writing hpos).1
  refine ext_getElem? fun i => ?_
  rw [getElem?_fifo, Fifo.publish, getElem?_modify, getElem?_fifo]
  simp only [publish, storeSeq]
  by_cases hi : pos.toNat - r.pops = i
  · obtain hp : r.pops + i = pos.toNat := by omega
    rw [hp]
    cases r.claims[pos.toNat]? <;> simp [hi]
  · rw [Function.update_of_ne (by omega)]
    cases r.claims[r.pops + i]? <;> simp [hi]

lemma pop_fifo (hlt : r.pops < r.claims.length) (hw : r.writer r.pops = none) :
    ∃ v, r.fifo.pop = some (v, (r.take t).fifo) := by
  have hdrop : r.claims.drop r.pops = r.claims[r.pops] :: r.claims.drop (r.pops + 1) :=
    drop_eq_getElem_cons hlt
  refine ⟨r.claims[r.pops], Fifo.pop_eq_some.mpr ?_⟩
  simp only [fifo, take]
  rw [hdrop, mapIdx_cons]
  simp [hw, Nat.add_assoc, Nat.add_comm 1]

end Ring

theorem next_fifo (hr : RingOk n r) (hl : ThreadOk t r l) (h : l.next t r = some (r', l')) :
    Fifo.Step n r.fifo r'.fifo := by
  have hcall := hl.call
  have stays {r' : Ring V} (hclaims : r'.claims = r.claims) (hpops : r'.pops = r.pops)
      (hwriter : r'.writer = r.writer) : Fifo.Step n r.fifo r'.fifo :=
    Ring.fifo_congr hclaims hpops hwriter ▸ .stays
  cases l with
  | pushSwapTail v owner w =>
    simp only [RingCall.next] at h
    split at h
    · rename_i htail
      cases h
      subst htail
      obtain ⟨hloaded, hfree⟩ := hcall
      have hroom := hr.room (hfree (hloaded.claimable hr).2)
      change Fifo.Step n r.fifo (r.claim t v).fifo
      rw [Ring.fifo_claim hr]
      have := hr.le
      exact .claims v (by rw [Ring.length_fifo]; omega)
    · cases h
      exact .stays
  | pushStoreSeq pos =>
    cases h
    change Fifo.Step n r.fifo (r.publish pos).fifo
    rw [Ring.fifo_publish hr hcall.1]
    exact .publishes _
  | popSwapHead w =>
    simp only [RingCall.next] at h
    split at h
    · rename_i hhead
      cases h
      subst hhead
      obtain ⟨hlt, hw⟩ := hcall
      rw [hr.head] at hlt hw
      obtain ⟨v, hpop⟩ := Ring.pop_fifo (t := t) hlt hw
      exact .pops hpop
    · cases h
      exact .stays
  | idle => simp [RingCall.next] at h
  | returned | pushStoreVal | popLoadHead | popLoadVal | popClearVal | popStoreSeq =>
    cases h
    exact stays rfl rfl rfl
  | pushLoadTail | pushLoadSeq | pushReloadTail | pushLoadHead | popLoadSeq | lockLoadTail
  | lockSwapTail | closeLoadTail | closeSwapTail =>
    simp only [RingCall.next] at h
    repeat' split at h
    all_goals
      cases h
      exact stays rfl rfl rfl

theorem start_fifo {a : RingAction V} (h : a.start t r = some (r', l')) : r'.fifo = r.fifo := by
  cases a with
  | next => simp [RingAction.start] at h
  | pop | lock | close =>
    cases h
    rfl
  | push | unlock =>
    simp only [RingAction.start] at h
    split at h
    all_goals simp only [reduceCtorEq, some.injEq] at h
    all_goals
      obtain ⟨rfl, rfl⟩ := h
      rfl

/-! ### Pops that return nothing -/

lemma seqAt_of_popped (hr : RingOk n r) {p : ℕ} (hp : p < r.pops) :
    2 * p + 1 ≤ r.seqAt p ∧ r.seqAt p < 2 * (r.claims.length + n) := by
  have hle := hr.le
  obtain ⟨q, hq, hq', hmod⟩ := hr.exists_next p
  rw [← hr.shape.seqAt_congr hmod]
  rcases hr.free hq hq' with hfree | ⟨hn, hlast⟩
  · omega
  -- the cell still has the position before, which is `p` or a later one
  have hback : r.seqAt q = r.seqAt (q - n) :=
    hr.shape.seqAt_congr (Nat.mod_eq_sub_mod hn)
  have hlater : p ≤ q - n := by
    have hsub := (Nat.modEq_iff_dvd' (by omega : p ≤ q)).mp hmod.symm
    have := Nat.le_of_dvd (by omega) hsub
    omega
  by_cases hpops : r.pops ≤ q - n
  · cases hw : r.writer (q - n) with
    | some t =>
      have := (hr.writing hw).2.2
      omega
    | none =>
      have := (hr.published hpops (by omega) hw).1
      omega
  · obtain ⟨t, ht⟩ := ne_none_iff_exists'.mp (hlast.resolve_left hpops)
    have := (hr.reading ht).2.2
    omega

/-- **A pop that returns nothing has seen a queue** that is empty, or whose oldest position is not
published. -/
theorem pop_eq_none_of_returned {r₀ : Ring V} (hnew : newRing V n = some r₀) {c : Threads (Ring V) (RingCall V)}
    (hreach : RingReaches (ringStart r₀) c) (hbound : c.shared.claims.length + n ≤ 2 ^ 62)
    (h : (c.own t).next t c.shared = some (r', .returned (.pop none))) (hload : (c.own t).reading = none) :
    c.shared.fifo.pop = none := by
  obtain ⟨hr, hall⟩ := (runOk_start hnew).reaches hreach
  have hl := hall t
  generalize c.shared = r, c.own t = l at hr hl hbound h hload ⊢
  have hcall := hl.call
  cases l with
  | popLoadSeq w =>
    simp only [RingCall.next] at h
    split at h
    · simp at h
    split at h
    · rename_i hneg
      by_contra hsome
      obtain ⟨⟨v, q⟩, hpop⟩ := ne_none_iff_exists'.mp hsome
      have hhead := congrArg (·[0]?) (Fifo.pop_eq_some.mp hpop)
      rw [Ring.getElem?_fifo] at hhead
      obtain ⟨w', hw', hpub⟩ := map_eq_some_iff.mp hhead
      have hwriter : r.writer r.pops = none := by simpa using (Prod.mk.inj hpub).2
      obtain ⟨hlt, -⟩ := List.getElem?_eq_some_iff.mp hw'
      have hseq := hr.shape.toNat_seq w
      have hle : w.toNat ≤ r.pops := hcall
      have hmul : (2 * w + 1).toNat = 2 * w.toNat + 1 := by
        change (2 * w.toNat % 2 ^ 64 + 1) % 2 ^ 64 = _
        omega
      have hbounds : 2 * w.toNat + 1 ≤ r.seqAt w.toNat ∧
          r.seqAt w.toNat < 2 * (r.claims.length + n) := by
        rcases Nat.lt_or_eq_of_le hle with hold | heq
        · exact seqAt_of_popped hr hold
        · have := (hr.published (Nat.le_refl _) (by omega) hwriter).1
          rw [heq]
          omega
      rw [Int64.lt_iff_toInt_lt, toInt_toInt64, UInt64.toNat_sub] at hneg
      have hzero : (0 : Int64).toInt = 0 := rfl
      split at hneg <;> omega
    · simp at h
  | popStoreSeq => simp [RingCall.reading] at hload
  | _ =>
    simp only [RingCall.next] at h
    repeat' split at h
    all_goals simp at h

theorem pop_eq_none_of_returned_fresh : ∃ r c r', newRing ℕ 2 = some r ∧ (ringStart r).exec ringAct
    (fun _ _ _ _ => True) [(0, .pop), (0, .next)] = some c ∧
    (c.own 0).next 0 c.shared = some (r', .returned (.pop none)) ∧ c.shared.fifo.pop = none :=
  ⟨_, _, _, rfl, rfl, rfl, pop_eq_none_of_returned (t := 0) (n := 2) rfl
    (Reaches.refl.exec [(0, .pop), (0, .next)] rfl) (by decide) rfl rfl⟩

/-- **The ring refines the queue.** -/
theorem ring_refines_fifo (hnew : newRing V n = some r) {c c' : Threads (Ring V) (RingCall V)}
    (hreach : RingReaches (ringStart r) c) {a : RingAction V} (hstep : c.step ringAct t a = some c') :
    Fifo.Step n c.shared.fifo c'.shared.fifo := by
  obtain ⟨hr, hl⟩ := (runOk_start hnew).reaches hreach
  obtain ⟨⟨r', l'⟩, hact, rfl⟩ := map_eq_some_iff.mp hstep
  rcases ringAct_cases hact with ⟨-, hstart⟩ | hnext
  · exact start_fifo hstart ▸ .stays
  · exact next_fifo hr (hl t) hnext

theorem ring_refines_fifo_claim : ∃ r c c', newRing ℕ 2 = some r ∧
    (ringStart r).exec ringAct (fun _ _ _ _ => True) [(0, .push 7 false), (0, .next), (0, .next)] = some c ∧
    c.step ringAct 0 .next = some c' ∧ c'.shared.claims = [7] ∧ Fifo.Step 2 c.shared.fifo c'.shared.fifo :=
  ⟨_, _, _, rfl, rfl, rfl, rfl, ring_refines_fifo (t := 0) (a := .next) (n := 2) rfl
    (Reaches.refl.exec [(0, .push 7 false), (0, .next), (0, .next)] rfl) rfl⟩

/-- **The lock excludes**: while a thread holds it, no other claims a position or takes the lock. -/
theorem lock_excludes (hnew : newRing V n = some r) {c c' : Threads (Ring V) (RingCall V)}
    (hreach : RingReaches (ringStart r) c) (hlock : c.shared.holder = some t)
    (hothers : Reaches ringAct (fun u _ _ _ => u ≠ t) c c') :
    c'.shared.holder = some t ∧ c'.shared.claims = c.shared.claims := by
  suffices h : RunOk n c' ∧ c'.shared.holder = some t ∧ c'.shared.claims = c.shared.claims from h.2
  induction hothers with
  | refl => exact ⟨(runOk_start hnew).reaches hreach, hlock, rfl⟩
  | step _ hu hstep ih =>
    obtain ⟨hok, hholder, hclaims⟩ := ih
    obtain ⟨hholder', hclaims'⟩ := (hok.step hstep).later.holder hu.symm hholder
    exact ⟨hok.reaches (.step .refl trivial hstep), hholder', hclaims'.trans hclaims⟩

theorem lock_excludes_push : ∃ r c c', newRing ℕ 2 = some r ∧ (ringStart r).exec ringAct (fun _ _ _ _ => True)
      [(0, .lock), (0, .next), (0, .next)] = some c ∧
    c.exec ringAct (fun u _ _ _ => u ≠ 0) [(1, .push 7 false), (1, .next)] = some c' ∧
      c'.shared.claims = c.shared.claims :=
  ⟨_, _, _, rfl, rfl, rfl, (lock_excludes (t := 0) (n := 2) rfl
    (Reaches.refl.exec [(0, .lock), (0, .next), (0, .next)] rfl) rfl
    (Reaches.refl.exec [(1, .push 7 false), (1, .next)] rfl)).2⟩

end Goav.Pipeline
