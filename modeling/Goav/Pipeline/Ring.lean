import Goav.Pipeline.RingSteps

/-!
The calls of the ring in any interleaving. `ThreadOk` is the assertion of a thread at each of its program
counters, and `Later` lets it survive the steps of the others.
-/

namespace Goav.Pipeline

open Goav.Lib Function RingCall Option

variable {V : Type} {n t : ℕ} {r r' : Ring V}

/-! ### Assertions -/

def LoadedTail (t : ℕ) (r : Ring V) (owner : Bool) (w : UInt64) : Prop :=
  if owner then
    r.holder = some t ∧ r.claims.length < 2 ^ 62 ∧ w.toNat = r.claims.length + 2 ^ 62
  else w.toNat < 2 ^ 62 ∧ w.toNat ≤ r.claims.length

def CallOk (t : ℕ) (r : Ring V) : RingCall V → Prop
  | .returned (.close _) => 2 ^ 63 ≤ r.tail.toNat
  | .pushLoadTail _ owner => owner = true → r.holder = some t
  | .pushLoadSeq _ owner w | .pushReloadTail _ owner w | .pushLoadHead _ owner w =>
    LoadedTail t r owner w
  | .pushSwapTail _ owner w =>
    -- the cell was seen free, which is of use as long as its position is the next one
    LoadedTail t r owner w ∧ (r.claims.length = w.toNat % 2 ^ 62 →
      r.seqAt r.claims.length = 2 * r.claims.length)
  | .pushStoreVal v pos => r.writer pos.toNat = some t ∧ r.claims[pos.toNat]? = some v
  | .pushStoreSeq pos => r.writer pos.toNat = some t ∧ r.valAt pos.toNat = r.claims[pos.toNat]?
  | .popLoadSeq h => h.toNat ≤ r.pops
  | .popSwapHead h => h.toNat < r.claims.length ∧ r.writer h.toNat = none
  | .popLoadVal h => r.reader h.toNat = some t ∧ r.valAt h.toNat = r.claims[h.toNat]?
  | .popClearVal h v | .popStoreSeq h v => r.reader h.toNat = some t ∧ v = r.claims[h.toNat]?
  | .lockSwapTail w | .closeSwapTail w => w.toNat < 2 ^ 62
  | _ => True

def RingCall.writing : RingCall V → Option ℕ
  | .pushStoreVal _ pos | .pushStoreSeq pos => some pos.toNat
  | _ => none

def RingCall.reading : RingCall V → Option ℕ
  | .popLoadVal h | .popClearVal h _ | .popStoreSeq h _ => some h.toNat
  | _ => none

structure ThreadOk (t : ℕ) (r : Ring V) (l : RingCall V) : Prop where
  call : CallOk t r l
  writes : ∀ {p}, r.writer p = some t → l.writing = some p
  reads : ∀ {p}, r.reader p = some t → l.reading = some p

/-! ### The steps of the others -/

variable {p u : ℕ} {owner : Bool} {w pos : UInt64} {a : RingAction V}

lemma Later.getElem?_claims (h : Later t r r') (hp : p < r.claims.length) :
    r'.claims[p]? = r.claims[p]? := by
  obtain ⟨more, hmore⟩ := h.claims
  rw [← hmore, List.getElem?_append_left hp]

lemma Later.length_le (h : Later t r r') : r.claims.length ≤ r'.claims.length :=
  h.claims.length_le

lemma LoadedTail.holder (h : LoadedTail t r owner w) (howner : owner = true) : r.holder = some t := by
  subst howner
  exact h.1

lemma LoadedTail.pos_le (h : LoadedTail t r owner w) : w.toNat % 2 ^ 62 ≤ r.claims.length := by
  unfold LoadedTail at h
  split at h <;> omega

lemma LoadedTail.later (h : LoadedTail u r owner w) (hlater : Later t r r') (hu : u ≠ t) :
    LoadedTail u r' owner w := by
  unfold LoadedTail at h ⊢
  cases owner with
  | true =>
    obtain ⟨hhold, hrest⟩ := h
    obtain ⟨hhold', hclaims⟩ := hlater.holder hu hhold
    rw [hclaims]
    exact ⟨hhold', hrest⟩
  | false => exact ⟨h.1, Nat.le_trans h.2 hlater.length_le⟩

theorem CallOk.later (hr : RingOk n r) (hlater : Later t r r') (hu : u ≠ t) {l : RingCall V}
    (h : CallOk u r l) : CallOk u r' l := by
  have hle := hlater.length_le
  cases l with
  | idle => trivial
  | returned res =>
    cases res with
    | close ok => exact (hlater.closed h).1
    | push status => trivial
    | pop v => trivial
    | lock ok => trivial
  | pushLoadTail v owner => exact fun ho => (hlater.holder hu (h ho)).1
  | pushLoadSeq v owner w => exact LoadedTail.later h hlater hu
  | pushReloadTail v owner w => exact LoadedTail.later h hlater hu
  | pushLoadHead v owner w => exact LoadedTail.later h hlater hu
  | pushSwapTail v owner w =>
    obtain ⟨hloaded, hfree⟩ := h
    refine ⟨hloaded.later hlater hu, fun hpos => ?_⟩
    have hle' := hloaded.pos_le
    have hsame : r.claims.length = r'.claims.length := by omega
    rw [← hsame]
    exact hlater.free rfl hsame.symm (hfree (by omega))
  | pushStoreVal v pos =>
    obtain ⟨hw, hv⟩ := h
    refine ⟨(hlater.writer hu).mpr hw, ?_⟩
    rw [hlater.getElem?_claims (hr.writer_window hw).1]
    exact hv
  | pushStoreSeq pos =>
    obtain ⟨hw, hv⟩ := h
    refine ⟨(hlater.writer hu).mpr hw, ?_⟩
    rw [hlater.getElem?_claims (hr.writer_window hw).1, hlater.wrote hu hw]
    exact hv
  | popLoadHead => trivial
  | popLoadSeq h' => exact Nat.le_trans h hlater.pops
  | popSwapHead h' => exact ⟨by have := h.1; omega, hlater.settled h.1 h.2⟩
  | popLoadVal h' =>
    obtain ⟨hrd, hv⟩ := h
    refine ⟨(hlater.reader hu).mpr hrd, ?_⟩
    rw [hlater.getElem?_claims (hr.reader_window hrd).1, hlater.reads hu hrd]
    exact hv
  | popClearVal h' v =>
    obtain ⟨hrd, hv⟩ := h
    refine ⟨(hlater.reader hu).mpr hrd, ?_⟩
    rw [hlater.getElem?_claims (hr.reader_window hrd).1]
    exact hv
  | popStoreSeq h' v =>
    obtain ⟨hrd, hv⟩ := h
    refine ⟨(hlater.reader hu).mpr hrd, ?_⟩
    rw [hlater.getElem?_claims (hr.reader_window hrd).1]
    exact hv
  | lockLoadTail => trivial
  | lockSwapTail w => exact h
  | closeLoadTail => trivial
  | closeSwapTail w => exact h

theorem ThreadOk.later (hr : RingOk n r) (hlater : Later t r r') (hu : u ≠ t) {l : RingCall V}
    (h : ThreadOk u r l) : ThreadOk u r' l where
  call := h.call.later hr hlater hu
  writes hp := h.writes ((hlater.writer hu).mp hp)
  reads hp := h.reads ((hlater.reader hu).mp hp)

/-! ### The steps of the thread itself -/

structure StepOk (n t : ℕ) (r r' : Ring V) (l' : RingCall V) : Prop where
  ok : RingOk n r'
  later : Later t r r'
  thread : ThreadOk t r' l'

variable {l l' : RingCall V}

lemma StepOk.stays (hr : RingOk n r) (hl : ThreadOk t r l) (hcall : CallOk t r l')
    (hw : l'.writing = l.writing := by rfl) (hrd : l'.reading = l.reading := by rfl) :
    StepOk n t r r l' :=
  ⟨hr, Later.rfl, hcall, fun hp => hw ▸ hl.writes hp, fun hp => hrd ▸ hl.reads hp⟩

lemma StepOk.sets {holder : Option ℕ} (hl : ThreadOk t r l)
    (h : RingOk n (r.setTail w holder) ∧ Later t r (r.setTail w holder))
    (hcall : CallOk t (r.setTail w holder) l') (hw : l'.writing = l.writing := by rfl)
    (hrd : l'.reading = l.reading := by rfl) : StepOk n t r (r.setTail w holder) l' :=
  ⟨h.1, h.2, hcall, fun hp => hw ▸ hl.writes hp, fun hp => hrd ▸ hl.reads hp⟩

section

variable (hr : RingOk n r)
include hr

lemma loadedTail_tail (hhold : owner = true → r.holder = some t) (hclosed : ¬ r.tail &&& ringClosed ≠ 0)
    (hlocked : ¬ (r.tail &&& ringLocked ≠ 0 ∧ owner = false)) : LoadedTail t r owner r.tail := by
  cases owner with
  | true =>
    have hhold := hhold rfl
    rw [closed_iff] at hclosed
    rcases hr.tail with ⟨hlt, ⟨hnone, -⟩ | ⟨-, hw⟩⟩ | ⟨-, ⟨-, hnone⟩ | hw⟩
    · simp [hhold] at hnone
    · exact ⟨hhold, hlt, hw⟩
    · simp [hhold] at hnone
    · omega
  | false =>
    have hlt := toNat_lt_of_no_flags hclosed (by simpa using hlocked)
    exact ⟨hlt, (hr.of_no_flags hlt).1.le⟩

lemma LoadedTail.claimable (h : LoadedTail t r owner r.tail) :
    r.Claimable t ∧ r.claims.length = r.tail.toNat % 2 ^ 62 := by
  cases owner with
  | true =>
    obtain ⟨hhold, hlt, hw⟩ := h
    exact ⟨⟨hlt, .inr ⟨hhold, hw⟩⟩, by omega⟩
  | false =>
    obtain ⟨hw, hnone⟩ := hr.of_no_flags h.1
    exact ⟨⟨by have := h.1; omega, .inl ⟨hnone, hw⟩⟩, by have := h.1; omega⟩

lemma free_of_seq_eq (h : r.seq (w &&& ringPos) = 2 * (w &&& ringPos))
    (hpos : r.claims.length = w.toNat % 2 ^ 62) : r.seqAt r.claims.length = 2 * r.claims.length := by
  rw [← UInt64.toNat_inj, hr.shape.toNat_seq, UInt64.toNat_mul, toNat_pos, ← hpos] at h
  rw [h]
  change 2 * r.claims.length % 2 ^ 64 = _
  omega

lemma published_of_seq_eq {h : UInt64} (hle : h.toNat ≤ r.pops) (hseq : r.seq h = 2 * h + 1) :
    h.toNat < r.claims.length ∧ r.writer h.toNat = none := by
  have hpops := hr.le
  have hclaims := hr.claims_le
  refine hr.lt_of_seqAt_odd ?_
  rw [← hr.shape.toNat_seq, hseq]
  change (2 * h.toNat % 2 ^ 64 + 1) % 2 ^ 64 = _
  omega

lemma StepOk.claims (hl : ThreadOk t r l) (hidle : l.writing = none) (hidle' : l.reading = none)
    {v : V} (h : LoadedTail t r owner r.tail) (hfree : r.seqAt r.claims.length = 2 * r.claims.length) :
    StepOk n t r (r.claim t v) (.pushStoreVal v (r.tail &&& ringPos)) := by
  obtain ⟨hclaimable, hpos⟩ := h.claimable hr
  obtain ⟨hok, hlater⟩ := hr.keeps_claim hclaimable hfree v
  have hwriter : (r.claim t v).writer r.claims.length = some t := update_self _ _ _
  refine ⟨hok, hlater, ?_, ?_, fun hp => ?_⟩
  · simp only [CallOk, toNat_pos, ← hpos]
    exact ⟨hwriter, List.getElem?_concat_length⟩
  · intro p hp
    simp only [writing, toNat_pos, ← hpos]
    by_cases hne : p = r.claims.length
    · rw [hne]
    · have : r.writer p = some t := (update_of_ne hne _ _).symm.trans hp
      simp [hl.writes this] at hidle
  · exact absurd (hl.reads hp) (by simp [hidle'])

lemma StepOk.takes (hl : ThreadOk t r l) (hidle : l.writing = none) (hidle' : l.reading = none)
    (hlt : r.pops < r.claims.length) (hw : r.writer r.pops = none) :
    StepOk n t r (r.take t) (.popLoadVal r.head) := by
  obtain ⟨hok, hlater⟩ := hr.keeps_take (t := t) hlt hw
  have hreader : (r.take t).reader r.pops = some t := update_self _ _ _
  refine ⟨hok, hlater, ?_, fun hp => ?_, ?_⟩
  · simp only [CallOk, hr.head]
    exact ⟨hreader, (hr.published (Nat.le_refl _) hlt hw).2⟩
  · exact absurd (hl.writes hp) (by simp [hidle])
  · intro p hp
    simp only [reading, hr.head]
    by_cases hne : p = r.pops
    · rw [hne]
    · have : r.reader p = some t := (update_of_ne hne _ _).symm.trans hp
      simp [hl.reads this] at hidle'

end

lemma ne_of_update_none {f : ℕ → Option ℕ} {q : ℕ} (h : Function.update f p none q = some t)
    (hf : ∀ {q}, f q = some t → q = p) : False := by
  by_cases hq : q = p
  · simp [hq] at h
  · rw [update_of_ne hq] at h
    exact hq (hf h)

theorem next_ok (hr : RingOk n r) (hl : ThreadOk t r l) (h : l.next t r = some (r', l')) :
    StepOk n t r r' l' := by
  have hcall := hl.call
  cases l with
  | idle => simp [next] at h
  | returned res =>
    obtain ⟨rfl, rfl⟩ : r = r' ∧ .idle = l' := by simpa [next] using h
    exact .stays hr hl trivial
  | pushLoadTail v owner =>
    simp only [next] at h
    split at h
    · cases h
      exact .stays hr hl trivial
    rename_i hclosed
    split at h
    · cases h
      exact .stays hr hl trivial
    · rename_i hlocked
      cases h
      exact .stays hr hl (loadedTail_tail hr hcall hclosed hlocked)
  | pushLoadSeq v owner w =>
    simp only [next] at h
    split at h
    · rename_i hseq
      cases h
      exact .stays hr hl ⟨hcall, free_of_seq_eq hr hseq⟩
    split at h
    · cases h
      exact .stays hr hl hcall
    · cases h
      exact .stays hr hl (LoadedTail.holder hcall)
  | pushSwapTail v owner w =>
    simp only [next] at h
    split at h
    · rename_i htail
      subst htail
      cases h
      exact .claims hr hl rfl rfl hcall.1 (hcall.2 (hcall.1.claimable hr).2)
    · cases h
      exact .stays hr hl hcall.1.holder
  | pushStoreVal v pos =>
    obtain ⟨hw, hv⟩ := hcall
    cases h
    obtain ⟨hok, hlater⟩ := hr.keeps_storeVal (.inl hw) (some v)
    refine ⟨hok, hlater, ⟨hw, ?_⟩, hl.writes, hl.reads⟩
    rw [hr.shape.valAt_storeVal, if_pos rfl]
    exact hv.symm
  | pushStoreSeq pos =>
    obtain ⟨hw, hv⟩ := hcall
    cases h
    obtain ⟨hok, hlater⟩ := hr.keeps_publish hw hv
    refine ⟨hok, hlater, trivial, fun hp => ?_, hl.reads⟩
    exact (ne_of_update_none hp fun hq => (some.inj (hl.writes hq)).symm).elim
  | pushReloadTail v owner w =>
    simp only [next] at h
    split at h
    · cases h
      exact .stays hr hl (LoadedTail.holder hcall)
    · cases h
      exact .stays hr hl hcall
  | pushLoadHead v owner w =>
    simp only [next] at h
    split at h
    · cases h
      exact .stays hr hl trivial
    · cases h
      exact .stays hr hl (LoadedTail.holder hcall)
  | popLoadHead =>
    cases h
    exact .stays hr hl hr.head.le
  | popLoadSeq w =>
    simp only [next] at h
    split at h
    · rename_i hseq
      cases h
      exact .stays hr hl (published_of_seq_eq hr hcall hseq)
    split at h
    · cases h
      exact .stays hr hl trivial
    · cases h
      exact .stays hr hl trivial
  | popSwapHead w =>
    simp only [next] at h
    split at h
    · rename_i hhead
      subst hhead
      cases h
      simp only [CallOk, hr.head] at hcall
      exact .takes hr hl rfl rfl hcall.1 hcall.2
    · cases h
      exact .stays hr hl trivial
  | popLoadVal w =>
    cases h
    refine .stays hr hl ⟨hcall.1, ?_⟩
    rw [hr.shape.val_eq]
    exact hcall.2
  | popClearVal w v =>
    obtain ⟨hrd, hv⟩ := hcall
    cases h
    obtain ⟨hok, hlater⟩ := hr.keeps_storeVal (.inr hrd) none
    exact ⟨hok, hlater, ⟨hrd, hv⟩, hl.writes, hl.reads⟩
  | popStoreSeq w v =>
    obtain ⟨hrd, hv⟩ := hcall
    cases h
    obtain ⟨hok, hlater⟩ := hr.keeps_handBack hrd hv
    refine ⟨hok, hlater, trivial, hl.writes, fun hp => ?_⟩
    exact (ne_of_update_none hp fun hq => (some.inj (hl.reads hq)).symm).elim
  | lockLoadTail =>
    simp only [next] at h
    split at h
    · cases h
      exact .stays hr hl trivial
    rename_i hclosed
    split at h
    · rename_i hlocked
      cases h
      exact .stays hr hl (toNat_lt_of_no_flags hclosed (by simpa using hlocked))
    · cases h
      exact .stays hr hl trivial
  | lockSwapTail w =>
    simp only [next] at h
    split at h
    · rename_i htail
      subst htail
      cases h
      exact .sets hl (hr.keeps_lock hcall) trivial
    · cases h
      exact .stays hr hl trivial
  | closeLoadTail =>
    simp only [next] at h
    split at h
    · rename_i hclosed
      cases h
      exact .stays hr hl ((closed_iff _).mp hclosed)
    rename_i hclosed
    split at h
    · cases h
      exact .stays hr hl trivial
    · rename_i hlocked
      cases h
      exact .stays hr hl (toNat_lt_of_no_flags hclosed hlocked)
  | closeSwapTail w =>
    simp only [next] at h
    split at h
    · rename_i htail
      subst htail
      cases h
      refine .sets hl (hr.keeps_close hcall) ?_
      change 2 ^ 63 ≤ (r.tail ||| ringClosed).toNat
      rw [show ringClosed = flag 63 by decide, toNat_or_flag (by decide) (by
        change r.tail.toNat < 2 ^ 62 at hcall; omega)]
      omega
    · cases h
      exact .stays hr hl trivial

theorem start_ok (hr : RingOk n r) (hl : ThreadOk t r .idle) (h : a.start t r = some (r', l')) :
    StepOk n t r r' l' := by
  cases a with
  | push v owner =>
    simp only [RingAction.start] at h
    split at h
    · simp at h
    · rename_i hhold
      cases h
      exact .stays hr hl (fun ho => by simpa [ho] using hhold)
  | pop =>
    cases h
    exact .stays hr hl trivial
  | lock =>
    cases h
    exact .stays hr hl trivial
  | unlock =>
    simp only [RingAction.start] at h
    split at h
    · rename_i hhold
      cases h
      exact .sets hl (hr.keeps_unlock hhold) trivial
    · simp at h
  | close =>
    cases h
    exact .stays hr hl trivial
  | next => simp [RingAction.start] at h

lemma ringAct_cases (h : ringAct t a r l = some (r', l')) :
    (l = .idle ∧ a.start t r = some (r', l')) ∨ l.next t r = some (r', l') := by
  unfold ringAct at h
  split at h
  · exact .inl ⟨rfl, h⟩
  · exact .inr h
  · simp at h

theorem ringAct_ok (hr : RingOk n r) (hl : ThreadOk t r l) (h : ringAct t a r l = some (r', l')) :
    StepOk n t r r' l' := by
  rcases ringAct_cases h with ⟨rfl, h⟩ | h
  · exact start_ok hr hl h
  · exact next_ok hr hl h

/-! ### Runs -/

def ringStart (r : Ring V) : Threads (Ring V) (RingCall V) := { shared := r, own := fun _ => .idle }

abbrev RingReaches (c c' : Threads (Ring V) (RingCall V)) : Prop :=
  Reaches ringAct (fun _ _ _ _ => True) c c'

def RunOk (n : ℕ) (c : Threads (Ring V) (RingCall V)) : Prop :=
  RingOk n c.shared ∧ ∀ t, ThreadOk t c.shared (c.own t)

section

variable (hnew : newRing V n = some r)
include hnew

lemma seqAt_newRing (hp : p < n) : r.seqAt p = 2 * p := by
  unfold newRing at hnew
  split at hnew
  · simp at hnew
  rename_i hn
  cases hnew
  have hsmall : n < 2 ^ 60 := by
    unfold maxCells at hn
    omega
  have heven : ((2 : UInt64) * UInt64.ofNat p).toNat = 2 * p := by
    rw [UInt64.toNat_mul, UInt64.toNat_ofNat']
    change 2 * (p % 2 ^ 64) % 2 ^ 64 = _
    omega
  simp [Ring.seqAt, Nat.mod_eq_of_lt hp, hp, heven]

lemma ringOk_newRing : RingOk n r := by
  have hseq := fun p => seqAt_newRing hnew (p := p)
  unfold newRing at hnew
  split at hnew
  · simp at hnew
  rename_i hn
  cases hnew
  refine ⟨⟨by omega, by omega, by simp, rfl, rfl, rfl⟩, rfl, Nat.le_refl _, Nat.zero_le _, ?_, ?_, ?_,
    ?_, ?_, ?_, List.nodup_nil, ?_⟩
  · exact .inl ⟨Nat.two_pow_pos 62, .inl ⟨rfl, .inl rfl⟩⟩
  · intro p t hp
    simp at hp
  · intro p _ hp
    simp at hp
  · intro p t hp
    simp at hp
  · intro p _ hp
    exact .inl (hseq p (by simpa using hp))
  · intro p v hp
    simp at hp
  · intro p hp
    simp at hp

lemma runOk_start : RunOk n (ringStart r) := by
  refine ⟨ringOk_newRing hnew, fun t => ⟨trivial, ?_, ?_⟩⟩ <;>
  · unfold newRing at hnew
    split at hnew
    · simp at hnew
    · cases hnew
      intro p hp
      simp [ringStart] at hp

end

theorem RunOk.reaches {c c' : Threads (Ring V) (RingCall V)} (h : RunOk n c)
    (hreach : RingReaches c c') : RunOk n c' :=
  hreach.outline (RingOk n) ThreadOk h.1 h.2
    (fun hr hl _ hact => ⟨(ringAct_ok hr hl hact).ok, (ringAct_ok hr hl hact).thread⟩)
    (fun hr hl _ hact _ _ hu hm => hm.later hr (ringAct_ok hr hl hact).later hu)

lemma RunOk.step {c c' : Threads (Ring V) (RingCall V)} (h : RunOk n c)
    (hstep : c.step ringAct t a = some c') : StepOk n t c.shared c'.shared (c'.own t) := by
  obtain ⟨⟨r', l'⟩, hact, rfl⟩ := map_eq_some_iff.mp hstep
  simpa using ringAct_ok h.1 (h.2 t) hact

/-! ### A full ring -/

lemma toInt_toInt64 (x : UInt64) :
    x.toInt64.toInt = if 2 * x.toNat < 2 ^ 64 then (x.toNat : ℤ) else (x.toNat : ℤ) - 2 ^ 64 := by
  change x.toBitVec.toInt = _
  rw [BitVec.toInt_eq_toNat_cond]
  rfl

lemma le_of_occupied (hr : RingOk n r) (hpos : pos.toNat < 2 ^ 62)
    (h : r.size.toInt64 ≤ (pos - r.head).toInt64) : r.pops + n ≤ pos.toNat := by
  have hn := hr.shape.lt
  have hhead := hr.head
  have hpops := Nat.le_trans hr.le hr.claims_le
  rw [Int64.le_iff_toInt_le, toInt_toInt64, toInt_toInt64, hr.shape.toNat_size, UInt64.toNat_sub] at h
  split at h <;> omega

/-- **A push reports a full ring only when it is full**: at the load of the head. -/
lemma full_of_returned (hr : RingOk n r) (hl : ThreadOk t r l)
    (h : ringAct t a r l = some (r', .returned (.push .full))) : r.claims.length = r.pops + n := by
  have hcall := hl.call
  rcases ringAct_cases h with ⟨rfl, hstart⟩ | h
  · cases a <;> simp [RingAction.start] at hstart
  · unfold next at h
    cases l with
    | pushLoadHead v owner w =>
      simp only at h
      split at h
      · rename_i hocc
        have hle := le_of_occupied hr (by rw [toNat_pos]; exact Nat.mod_lt _ (by decide)) hocc
        have hbound := hr.bound
        have hpos := LoadedTail.pos_le hcall
        rw [toNat_pos] at hle
        omega
      · simp at h
    | _ =>
      dsimp only at h
      repeat' split at h
      all_goals simp at h

/-! ### Draining -/

variable {c c' : Threads (Ring V) (RingCall V)}

structure Drains (c c' : Threads (Ring V) (RingCall V)) : Prop where
  reaches : RingReaches c c'
  claims : c'.shared.claims = c.shared.claims
  returned : c.shared.returned <+: c'.shared.returned

lemma Drains.rfl : Drains c c := ⟨.refl, Eq.refl _, List.prefix_rfl⟩

lemma Drains.trans {c'' : Threads (Ring V) (RingCall V)} (h : Drains c c') (h' : Drains c' c'') :
    Drains c c'' :=
  ⟨h.reaches.trans h'.reaches, h'.claims.trans h.claims, h.returned.trans h'.returned⟩

lemma Drains.one (a : RingAction V) (hown : c.own t = l)
    (hact : ringAct t a c.shared l = some (r', l')) (hclaims : r'.claims = c.shared.claims)
    (hreturned : c.shared.returned <+: r'.returned) :
    ∃ c', Drains c c' ∧ c'.shared = r' ∧ c'.own t = l' := by
  have hstep : c.step ringAct t a = some { shared := r', own := Function.update c.own t l' } := by
    rw [Threads.step, hown, hact]
    rfl
  exact ⟨_, ⟨Reaches.refl.step trivial hstep, hclaims, hreturned⟩, Eq.refl _, update_self _ _ _⟩

lemma drains_pushStoreSeq (hown : c.own t = .pushStoreSeq pos) :
    ∃ c', Drains c c' ∧ c'.shared.writer pos.toNat = none ∧ c'.shared.pops = c.shared.pops := by
  obtain ⟨c', hdrains, hshared, -⟩ := Drains.one .next hown (Eq.refl _) (Eq.refl _) List.prefix_rfl
  refine ⟨c', hdrains, ?_, ?_⟩ <;> rw [hshared]
  · exact update_self _ _ _
  · exact Eq.refl _

lemma drains_pushStoreVal {v : V} (hown : c.own t = .pushStoreVal v pos) :
    ∃ c', Drains c c' ∧ c'.shared.writer pos.toNat = none ∧ c'.shared.pops = c.shared.pops := by
  obtain ⟨c₁, hdrains, hshared, hown₁⟩ :=
    Drains.one .next hown (Eq.refl _) (Eq.refl _) List.prefix_rfl
  obtain ⟨c', hdrains', hw, hpops⟩ := drains_pushStoreSeq hown₁
  refine ⟨c', hdrains.trans hdrains', hw, ?_⟩
  rw [hpops, hshared]
  rfl

lemma drains_write (h : RunOk n c) (hp : c.shared.writer p = some t) :
    ∃ c', Drains c c' ∧ c'.shared.writer p = none ∧ c'.shared.pops = c.shared.pops := by
  have hwriting := (h.2 t).writes hp
  cases hown : c.own t with
  | pushStoreVal v pos =>
    rw [hown] at hwriting
    rw [← some.inj hwriting]
    exact drains_pushStoreVal hown
  | pushStoreSeq pos =>
    rw [hown] at hwriting
    rw [← some.inj hwriting]
    exact drains_pushStoreSeq hown
  | _ => simp [hown, writing] at hwriting

lemma drains_popStoreSeq {h : UInt64} {v : Option V} (hown : c.own t = .popStoreSeq h v) :
    ∃ c' v, Drains c c' ∧ (h.toNat, v) ∈ c'.shared.returned := by
  obtain ⟨c', hdrains, hshared, -⟩ :=
    Drains.one .next hown (Eq.refl _) (Eq.refl _) (List.prefix_append _ _)
  exact ⟨c', v, hdrains, by simp [hshared]⟩

lemma drains_popClearVal {h : UInt64} {v : Option V} (hown : c.own t = .popClearVal h v) :
    ∃ c' v, Drains c c' ∧ (h.toNat, v) ∈ c'.shared.returned := by
  obtain ⟨c₁, hdrains, -, hown₁⟩ := Drains.one .next hown (Eq.refl _) (Eq.refl _) List.prefix_rfl
  obtain ⟨c', w, hdrains', hmem⟩ := drains_popStoreSeq hown₁
  exact ⟨c', w, hdrains.trans hdrains', hmem⟩

lemma drains_popLoadVal {h : UInt64} (hown : c.own t = .popLoadVal h) :
    ∃ c' v, Drains c c' ∧ (h.toNat, v) ∈ c'.shared.returned := by
  obtain ⟨c₁, hdrains, -, hown₁⟩ := Drains.one .next hown (Eq.refl _) (Eq.refl _) List.prefix_rfl
  obtain ⟨c', w, hdrains', hmem⟩ := drains_popClearVal hown₁
  exact ⟨c', w, hdrains.trans hdrains', hmem⟩

lemma drains_read (h : RunOk n c) (hp : c.shared.reader p = some t) :
    ∃ c' v, Drains c c' ∧ (p, v) ∈ c'.shared.returned := by
  have hreading := (h.2 t).reads hp
  cases hown : c.own t with
  | popLoadVal w =>
    rw [hown] at hreading
    rw [← some.inj hreading]
    exact drains_popLoadVal hown
  | popClearVal w v =>
    rw [hown] at hreading
    rw [← some.inj hreading]
    exact drains_popClearVal hown
  | popStoreSeq w v =>
    rw [hown] at hreading
    rw [← some.inj hreading]
    exact drains_popStoreSeq hown
  | _ => simp [hown, reading] at hreading

lemma drains_take (h : RunOk n c) (hidle : c.own t = .idle)
    (hlt : c.shared.pops < c.shared.claims.length) (hw : c.shared.writer c.shared.pops = none) :
    ∃ c', Drains c c' ∧ c'.shared.reader c.shared.pops = some t := by
  have hseq : c.shared.seq c.shared.head = 2 * c.shared.head + 1 := by
    have hclaims := h.1.claims_le
    rw [← UInt64.toNat_inj, h.1.shape.toNat_seq, h.1.head,
      (h.1.published (Nat.le_refl _) hlt hw).1, UInt64.toNat_add, UInt64.toNat_mul, h.1.head]
    change _ = (2 * c.shared.pops % 2 ^ 64 + 1) % 2 ^ 64
    omega
  obtain ⟨c₁, hd₁, hs₁, ho₁⟩ := Drains.one .pop hidle (Eq.refl _) (Eq.refl _) List.prefix_rfl
  obtain ⟨c₂, hd₂, hs₂, ho₂⟩ := Drains.one .next ho₁ (Eq.refl _) (Eq.refl _) List.prefix_rfl
  rw [hs₁] at hs₂ ho₂
  have hload : ringAct t .next c₂.shared (.popLoadSeq c.shared.head) =
      some (c.shared, .popSwapHead c.shared.head) := by
    simp [ringAct, next, hs₂, hseq]
  obtain ⟨c₃, hd₃, hs₃, ho₃⟩ :=
    Drains.one .next ho₂ hload (by rw [hs₂]) (hs₂ ▸ List.prefix_rfl)
  have hswap : ringAct t .next c₃.shared (.popSwapHead c.shared.head) =
      some (c.shared.take t, .popLoadVal c.shared.head) := by
    simp [ringAct, next, hs₃, Ring.take]
  obtain ⟨c₄, hd₄, hs₄, -⟩ :=
    Drains.one .next ho₃ hswap (by rw [hs₃]; rfl) (hs₃ ▸ List.prefix_rfl)
  refine ⟨c₄, ((hd₁.trans hd₂).trans hd₃).trans hd₄, ?_⟩
  rw [hs₄]
  exact update_self _ _ _

lemma exists_idle (h : RingReaches (ringStart r) c) : ∃ u, c.own u = .idle := by
  obtain ⟨N, hN⟩ := h.own_eq
  exact ⟨N, hN N (Nat.le_refl _)⟩

section

variable (hnew : newRing V n = some r)
include hnew

variable (h : RingReaches (ringStart r) c)
include h

lemma drains_oldest (hlt : c.shared.pops < c.shared.claims.length)
    (hw : c.shared.writer c.shared.pops = none) :
    ∃ c' v, Drains c c' ∧ (c.shared.pops, v) ∈ c'.shared.returned := by
  obtain ⟨u, hidle⟩ := exists_idle h
  have hok := (runOk_start hnew).reaches h
  obtain ⟨c₁, hdrains, hreader⟩ := drains_take hok hidle hlt hw
  obtain ⟨c', v, hdrains', hmem⟩ := drains_read (hok.reaches hdrains.reaches) hreader
  exact ⟨c', v, hdrains.trans hdrains', hmem⟩

lemma drains_next (hp : p < c.shared.claims.length) (hbefore : p ≤ c.shared.pops) :
    ∃ c' v, Drains c c' ∧ (p, v) ∈ c'.shared.returned := by
  have hok := (runOk_start hnew).reaches h
  rcases Nat.lt_or_eq_of_le hbefore with hpopped | rfl
  · cases hreader : c.shared.reader p with
    | none =>
      obtain ⟨v, hv⟩ := hok.1.answered hpopped hreader
      exact ⟨c, v, .rfl, hv⟩
    | some t => exact drains_read hok hreader
  · cases hwriter : c.shared.writer c.shared.pops with
    | none => exact drains_oldest hnew h hp hwriter
    | some t =>
      obtain ⟨c₁, hdrains, hw, hpops⟩ := drains_write hok hwriter
      rw [← hpops] at hw hp ⊢
      rw [← hdrains.claims] at hp
      obtain ⟨c', v, hdrains', hmem⟩ := drains_oldest hnew (h.trans hdrains.reaches) hp hw
      exact ⟨c', v, hdrains.trans hdrains', hmem⟩

theorem drains_upTo (k : ℕ) (hk : k ≤ c.shared.claims.length) :
    ∃ c', Drains c c' ∧ ∀ p < k, ∃ v, (p, v) ∈ c'.shared.returned := by
  induction k with
  | zero => exact ⟨c, .rfl, fun p hp => absurd hp (Nat.not_lt_zero p)⟩
  | succ k ih =>
    obtain ⟨c₁, hdrains, hall⟩ := ih (by omega)
    have hreach := h.trans hdrains.reaches
    have hok := (runOk_start hnew).reaches hreach
    have hbefore : k ≤ c₁.shared.pops := by
      rcases Nat.eq_zero_or_pos k with rfl | hpos
      · exact Nat.zero_le _
      · obtain ⟨v, hv⟩ := hall (k - 1) (by omega)
        have := (hok.1.results hv).1
        omega
    obtain ⟨c', v, hdrains', hmem⟩ :=
      drains_next hnew hreach (p := k) (by rw [hdrains.claims]; omega) hbefore
    refine ⟨c', hdrains.trans hdrains', fun p hp => ?_⟩
    rcases Nat.lt_or_eq_of_le (Nat.le_of_lt_succ hp) with hlt | rfl
    · obtain ⟨w, hw⟩ := hall p hlt
      exact ⟨w, hdrains'.returned.subset hw⟩
    · exact ⟨v, hmem⟩

theorem drains_all :
    ∃ c', RingReaches c c' ∧
      ∀ p v, c.shared.claims[p]? = some v → (p, some v) ∈ c'.shared.returned := by
  obtain ⟨c', hdrains, hall⟩ := drains_upTo hnew h _ (Nat.le_refl _)
  have hok := (runOk_start hnew).reaches (h.trans hdrains.reaches)
  refine ⟨c', hdrains.reaches, fun p v hp => ?_⟩
  obtain ⟨hlt, -⟩ := List.getElem?_eq_some_iff.mp hp
  obtain ⟨w, hw⟩ := hall p hlt
  have := (hok.1.results hw).2.2
  rw [hdrains.claims, hp] at this
  rwa [this] at hw

end

/-! ### The queue -/

theorem claims_eq_of_closed (h : RunOk n c) (hclosed : 2 ^ 63 ≤ c.shared.tail.toNat)
    (hreach : RingReaches c c') :
    2 ^ 63 ≤ c'.shared.tail.toNat ∧ c'.shared.claims = c.shared.claims := by
  induction hreach with
  | refl => exact ⟨hclosed, rfl⟩
  | step before _ moved ih =>
    obtain ⟨hclosed', hclaims⟩ := ((h.reaches before).step moved).later.closed ih.1
    exact ⟨hclosed', hclaims.trans ih.2⟩

/-- **The ring is a bounded queue in every interleaving.** Pops return the values in the order of the
claims, none twice; at most `n` are claimed and not popped; a full push has seen `n`; after a close
nothing is claimed, and all that was can be popped. -/
theorem ring_is_queue {n : ℕ} {r : Ring V} (hnew : newRing V n = some r)
    {c : Threads (Ring V) (RingCall V)} (hreach : RingReaches (ringStart r) c) :
    (c.shared.head.toNat = c.shared.pops ∧ (c.shared.returned.map Prod.fst).Nodup ∧
      ∀ p v, (p, v) ∈ c.shared.returned →
        p < c.shared.pops ∧ ∃ w, c.shared.claims[p]? = some w ∧ v = some w) ∧
    (c.shared.pops ≤ c.shared.claims.length ∧ c.shared.claims.length ≤ c.shared.pops + n) ∧
    (∀ t a c', c.step ringAct t a = some c' → c'.own t = .returned (.push .full) →
      c.shared.claims.length = c.shared.pops + n) ∧
    ∀ t b, c.own t = .returned (.close b) → ∀ c', RingReaches c c' →
      c'.shared.claims = c.shared.claims ∧ ∃ c'', RingReaches c' c'' ∧
        ∀ p v, c'.shared.claims[p]? = some v → (p, some v) ∈ c''.shared.returned := by
  have hok := (runOk_start hnew).reaches hreach
  refine ⟨⟨hok.1.head, hok.1.distinct, ?_⟩, ⟨hok.1.le, hok.1.bound⟩, ?_, ?_⟩
  · intro p v hp
    obtain ⟨hlt, -, hv⟩ := hok.1.results hp
    have hle := hok.1.le
    rw [List.getElem?_eq_getElem (by omega)] at hv
    exact ⟨hlt, _, List.getElem?_eq_getElem (by omega), hv⟩
  · intro t a c' hstep hfull
    obtain ⟨⟨r', l'⟩, hact, rfl⟩ := map_eq_some_iff.mp hstep
    obtain rfl : l' = .returned (.push .full) := by simpa using hfull
    exact full_of_returned hok.1 (hok.2 t) hact
  · intro t b hclose c' hreach'
    have hclosed := (hok.2 t).call
    rw [hclose] at hclosed
    exact ⟨(claims_eq_of_closed hok hclosed hreach').2, drains_all hnew (hreach.trans hreach')⟩

/-- One cell, filled, found full, closed and emptied. -/
theorem ring_is_queue_of_one :
    ∃ r c, newRing ℕ 1 = some r ∧ RingReaches (ringStart r) c ∧
      c.shared.returned = [(0, some 7)] ∧ c.own 1 = .returned (.push .full) ∧
      c.own 2 = .returned (.close true) ∧ ∀ c', RingReaches c c' → c'.shared.claims = [7] := by
  obtain ⟨r, hr⟩ : ∃ r, newRing ℕ 1 = some r := ⟨_, rfl⟩
  obtain ⟨c, hc⟩ : ∃ c, (ringStart r).exec ringAct (fun _ _ _ _ => True)
      [(0, .push 7 false), (0, .next), (0, .next), (0, .next), (0, .next), (0, .next),
        (1, .push 8 false), (1, .next), (1, .next), (1, .next), (1, .next),
        (2, .close), (2, .next), (2, .next),
        (3, .pop), (3, .next), (3, .next), (3, .next), (3, .next), (3, .next), (3, .next)] =
      some c := by
    rw [← some.inj hr]
    exact ⟨_, rfl⟩
  have hreaches := Reaches.refl.exec _ hc
  have hclose : c.own 2 = .returned (.close true) := by
    cases hr
    rw [← some.inj hc]
    rfl
  have hclaims : c.shared.claims = [7] := by
    cases hr
    rw [← some.inj hc]
    rfl
  refine ⟨r, c, hr, hreaches, ?_, ?_, hclose, fun c' hreach => ?_⟩
  · cases hr
    rw [← some.inj hc]
    rfl
  · cases hr
    rw [← some.inj hc]
    rfl
  · rw [((ring_is_queue hr hreaches).2.2.2 2 true hclose c' hreach).1, hclaims]

end Goav.Pipeline
