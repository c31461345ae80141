import Goav.Lib.Wrap
import Goav.Pipeline.RingInv

/-!
The steps that change the ring: each keeps the invariant, and `Later` says what it leaves to the
other threads.
-/

namespace Goav.Pipeline

open Goav.Lib Function Option List

variable {V : Type}

/-- What the other threads can rely on across a step of thread `t`. -/
structure Later (t : ℕ) (r r' : Ring V) : Prop where
  claims : r.claims <+: r'.claims
  pops : r.pops ≤ r'.pops
  returned : r.returned <+: r'.returned
  holder : ∀ {u}, u ≠ t → r.holder = some u → r'.holder = some u ∧ r'.claims = r.claims
  writer : ∀ {u p}, u ≠ t → (r'.writer p = some u ↔ r.writer p = some u)
  reader : ∀ {u p}, u ≠ t → (r'.reader p = some u ↔ r.reader p = some u)
  wrote : ∀ {u p}, u ≠ t → r.writer p = some u → r'.valAt p = r.valAt p
  reads : ∀ {u p}, u ≠ t → r.reader p = some u → r'.valAt p = r.valAt p
  free : ∀ {p}, r.claims.length = p → r'.claims.length = p → r.seqAt p = 2 * p →
    r'.seqAt p = 2 * p
  settled : ∀ {p}, p < r.claims.length → r.writer p = none → r'.writer p = none
  closed : 2 ^ 63 ≤ r.tail.toNat → 2 ^ 63 ≤ r'.tail.toNat ∧ r'.claims = r.claims

lemma Later.rfl {t : ℕ} {r : Ring V} : Later t r r where
  claims := prefix_rfl
  pops := Nat.le_refl _
  returned := prefix_rfl
  holder _ h := ⟨h, Eq.refl _⟩
  writer _ := Iff.rfl
  reader _ := Iff.rfl
  wrote _ _ := Eq.refl _
  reads _ _ := Eq.refl _
  free _ _ h := h
  settled _ h := h
  closed h := ⟨h, Eq.refl _⟩

/-! ### The steps -/

namespace Ring

variable (r : Ring V)

/-- A number without flags, or with the lock of the thread itself. -/
def Claimable (t : ℕ) : Prop :=
  r.claims.length < 2 ^ 62 ∧ ((r.holder = none ∧ r.tail.toNat = r.claims.length) ∨
    (r.holder = some t ∧ r.tail.toNat = r.claims.length + 2 ^ 62))

def claim (t : ℕ) (v : V) : Ring V :=
  { r with tail := r.tail + 1, claims := r.claims ++ [v],
           writer := Function.update r.writer r.claims.length (some t) }

def publish (pos : UInt64) : Ring V :=
  { r.storeSeq pos (2 * pos + 1) with writer := Function.update r.writer pos.toNat none }

def take (t : ℕ) : Ring V :=
  { r with head := r.head + 1, pops := r.pops + 1,
           reader := Function.update r.reader r.pops (some t) }

def handBack (h : UInt64) (v : Option V) : Ring V :=
  { r.storeSeq h (2 * (h + r.size)) with
      reader := Function.update r.reader h.toNat none
      returned := r.returned ++ [(h.toNat, v)] }

def setTail (w : UInt64) (holder : Option ℕ) : Ring V :=
  { r with tail := w, holder := holder }

end Ring

namespace RingOk

variable {n t : ℕ} {r : Ring V}

/-! ### Positions at work -/

variable {p u : ℕ} (h : RingOk n r)
include h

lemma writer_window (hp : r.writer p = some t) : p < r.claims.length ∧ r.claims.length ≤ p + n := by
  have := h.writing hp
  have := h.bound
  omega

lemma reader_window (hp : r.reader p = some t) : p < r.claims.length ∧ r.claims.length ≤ p + n := by
  have := h.reading hp
  have := h.le
  omega

lemma reader_eq_none (hp : r.pops ≤ p) : r.reader p = none := by
  by_contra hw
  obtain ⟨t, ht⟩ := ne_none_iff_exists'.mp hw
  have := (h.reading ht).1
  omega

lemma not_returned (hp : r.reader p = some t) : p ∉ r.returned.map Prod.fst := by
  rintro hmem
  obtain ⟨⟨q, v⟩, hqv, rfl⟩ := mem_map.mp hmem
  have := (h.results hqv).2.1
  simp_all

lemma room (hfree : r.seqAt r.claims.length = 2 * r.claims.length) : r.claims.length < r.pops + n := by
  have hpos := h.shape.pos
  have hbound := h.bound
  by_contra hfull
  have heq : r.claims.length = r.pops + n := by omega
  have hsame : r.seqAt r.pops = 2 * r.claims.length := by
    rw [← hfree]
    refine h.shape.seqAt_congr ?_
    rw [heq, Nat.add_mod_right]
  cases hw : r.writer r.pops with
  | some t =>
    have := (h.writing hw).2.2
    omega
  | none =>
    have := (h.published (Nat.le_refl _) (by omega) hw).1
    omega

/-! ### Push -/

omit h in
lemma tail_claim (hc : r.Claimable t) : TailOk (r.tail + 1).toNat (r.claims.length + 1) r.holder := by
  obtain ⟨hlt, hword⟩ := hc
  have hsucc : (r.tail + 1).toNat = r.tail.toNat + 1 := by
    rw [UInt64.toNat_add, UInt64.toNat_one]
    omega
  rcases Nat.lt_or_ge (r.claims.length + 1) (2 ^ 62) with hmore | hlast
  · refine .inl ⟨hmore, ?_⟩
    rcases hword with ⟨hnone, hw⟩ | ⟨hsome, hw⟩
    · exact .inl ⟨hnone, .inl (by omega)⟩
    · exact .inr ⟨by simp [hsome], by omega⟩
  · refine .inr ⟨by omega, ?_⟩
    rcases hword with ⟨hnone, hw⟩ | ⟨hsome, hw⟩
    · exact .inl ⟨by omega, hnone⟩
    · exact .inr (by omega)

theorem keeps_claim (hc : r.Claimable t) (hfree : r.seqAt r.claims.length = 2 * r.claims.length)
    (v : V) : RingOk n (r.claim t v) ∧ Later t r (r.claim t v) := by
  have hlen : (r.claim t v).claims.length = r.claims.length + 1 := length_append
  have hroom := h.room hfree
  have hle := h.le
  have hwriter : ∀ {p}, p ≠ r.claims.length → (r.claim t v).writer p = r.writer p :=
    fun hp => update_of_ne hp _ _
  have hself : (r.claim t v).writer r.claims.length = some t := update_self _ _ _
  have hclaims : ∀ {p}, p < r.claims.length → (r.claim t v).claims[p]? = r.claims[p]? :=
    fun hp => getElem?_append_left hp
  refine ⟨⟨h.shape.of_length h.shape.cells rfl rfl rfl,
    h.head, ?_, ?_, ?_, ?_, ?_, ?_, ?_, ?_, h.distinct, h.answered⟩, ?_⟩
  · rw [hlen]
    exact Nat.le_succ_of_le hle
  · rw [hlen]
    exact hroom
  · rw [hlen]
    exact tail_claim hc
  · intro p u hp
    rw [hlen]
    by_cases hpT : p = r.claims.length
    · subst hpT
      exact ⟨hle, Nat.lt_succ_self _, hfree⟩
    · rw [hwriter hpT] at hp
      have := h.writing hp
      exact ⟨this.1, Nat.lt_succ_of_lt this.2.1, this.2.2⟩
  · intro p hp hlt hw
    have hpT : p ≠ r.claims.length := by
      rintro rfl
      simp [hself] at hw
    rw [hwriter hpT] at hw
    rw [hclaims (by omega)]
    exact h.published hp (by omega) hw
  · intro p u hp
    obtain ⟨hlt, hwin, hseq⟩ := h.reading hp
    refine ⟨hlt, ?_, hseq⟩
    rw [hlen]
    -- the next cell is free, so it is not the reader's
    rcases Nat.lt_or_ge r.claims.length (p + n) with hlt' | hge
    · exact hlt'
    · have hsame : r.seqAt r.claims.length = r.seqAt p := by
        refine h.shape.seqAt_congr ?_
        rw [show r.claims.length = p + n by omega, Nat.add_mod_right]
      omega
  · intro p hp hlt
    by_cases hlast : p = r.claims.length + n
    · subst hlast
      exact .inr ⟨Nat.le_add_left _ _, .inl (by rw [Nat.add_sub_cancel]; exact hle)⟩
    · exact h.free (by omega) (by omega)
  · intro p w hp
    obtain ⟨hlt, hreader, heq⟩ := h.results hp
    refine ⟨hlt, hreader, ?_⟩
    rw [hclaims (by omega)]
    exact heq
  · refine { Later.rfl with
      claims := prefix_append _ _, holder := ?_, writer := ?_, free := ?_, settled := ?_, closed := ?_ }
    · intro u hu hhold
      rcases hc.2 with ⟨hnone, -⟩ | ⟨hsome, -⟩
      · simp [hnone] at hhold
      · simp_all
    · intro u p hu
      by_cases hpT : p = r.claims.length
      · subst hpT
        rw [hself]
        constructor
        · intro heq
          exact absurd (some.inj heq).symm hu
        · intro hw
          have := (h.writing hw).2.1
          omega
      · rw [hwriter hpT]
    · omega
    · intro p hp hw
      rw [hwriter (by omega)]
      exact hw
    · obtain ⟨hlt, hword⟩ := hc
      omega

section

variable (hp : r.writer p = some t ∨ r.reader p = some t)
include hp

lemma window :
    p < r.claims.length ∧ r.claims.length ≤ p + n :=
  hp.elim h.writer_window h.reader_window

lemma at_work_unique (hp' : r.writer p = some u ∨ r.reader p = some u) : t = u := by
  rcases hp with hw | hr <;> rcases hp' with hw' | hr'
  · exact some.inj (hw.symm.trans hw')
  · exact absurd (h.writing hw).1 (Nat.not_le.mpr (h.reading hr').1)
  · exact absurd (h.writing hw').1 (Nat.not_le.mpr (h.reading hr).1)
  · exact some.inj (hr.symm.trans hr')

end

variable {pos : UInt64}

theorem keeps_storeVal (hpos : r.writer pos.toNat = some t ∨ r.reader pos.toNat = some t) (v : Option V) :
    RingOk n (r.storeVal pos v) ∧ Later t r (r.storeVal pos v) := by
  obtain ⟨hlt, hwin⟩ := h.window hpos
  have hseq := h.shape.seqAt_storeVal pos v
  have hval : ∀ {q}, q < r.claims.length → r.claims.length ≤ q + n → q ≠ pos.toNat →
      (r.storeVal pos v).valAt q = r.valAt q := by
    intro q hq hq' hne
    rw [h.shape.valAt_storeVal, if_neg (mod_ne_of_window hq hq' hlt hwin hne)]
  have hothers : ∀ {u p}, u ≠ t → (r.writer p = some u ∨ r.reader p = some u) →
      (r.storeVal pos v).valAt p = r.valAt p := by
    intro u p hu hp
    obtain ⟨hp', hp''⟩ := h.window hp
    refine hval hp' hp'' ?_
    rintro rfl
    exact hu (h.at_work_unique hp hpos)
  refine ⟨{ h with
    shape := h.shape.storeVal pos _, writing := ?_, published := ?_, reading := ?_, free := ?_ }, ?_⟩
  · intro p u hp
    rw [hseq]
    exact h.writing hp
  · intro p (hp : r.pops ≤ p) hp' (hw : r.writer p = none)
    have hne : p ≠ pos.toNat := by
      rintro rfl
      rw [hw, h.reader_eq_none hp] at hpos
      simp at hpos
    have hbound := h.bound
    rw [hseq, hval hp' (by omega) hne]
    exact h.published hp hp' hw
  · intro p u hp
    rw [hseq]
    exact h.reading hp
  · intro p hp hp'
    rw [hseq]
    exact h.free hp hp'
  · refine { Later.rfl with
      wrote := fun hu hp => hothers hu (.inl hp), reads := fun hu hp => hothers hu (.inr hp), free := ?_ }
    intro p _ _ hfree
    rw [hseq]
    exact hfree

omit h in
lemma update_none_iff {f : ℕ → Option ℕ} {q : ℕ} (hf : f p = some t) (hu : u ≠ t) :
    Function.update f p none q = some u ↔ f q = some u := by
  by_cases hq : q = p
  · subst hq
    simp [hf, hu.symm]
  · rw [update_of_ne hq]

theorem keeps_publish (hpos : r.writer pos.toNat = some t) (hval : r.valAt pos.toNat = r.claims[pos.toNat]?) :
    RingOk n (r.publish pos) ∧ Later t r (r.publish pos) := by
  obtain ⟨hH, hlt, hold⟩ := h.writing hpos
  obtain ⟨-, hwin⟩ := h.writer_window hpos
  have hclaims := h.claims_le
  have hodd : (2 * pos + 1).toNat = 2 * pos.toNat + 1 := by
    change ((2 * pos.toNat) % 2 ^ 64 + 1) % 2 ^ 64 = _
    omega
  have hseq : ∀ q, (r.publish pos).seqAt q =
      if q % n = pos.toNat % n then 2 * pos.toNat + 1 else r.seqAt q := by
    intro q
    rw [← hodd]
    exact h.shape.seqAt_storeSeq pos _ q
  have hvals : ∀ q, (r.publish pos).valAt q = r.valAt q := h.shape.valAt_storeSeq pos _
  have hother : ∀ {q}, q < r.claims.length → r.claims.length ≤ q + n → q ≠ pos.toNat →
      (r.publish pos).seqAt q = r.seqAt q := by
    intro q hq hq' hne
    rw [hseq, if_neg (mod_ne_of_window hq hq' hlt hwin hne)]
  have hwriter : ∀ {p}, p ≠ pos.toNat → (r.publish pos).writer p = r.writer p :=
    fun hp => update_of_ne hp _ _
  have hself : (r.publish pos).writer pos.toNat = none := update_self _ _ _
  have hbound := h.bound
  refine ⟨{ h with
    shape := h.shape.of_length (h.shape.storeSeq pos (2 * pos + 1)).cells rfl rfl rfl
    writing := ?_, published := ?_, reading := ?_, free := ?_ }, ?_⟩
  · intro p u hp
    have hne : p ≠ pos.toNat := by
      rintro rfl
      simp [hself] at hp
    rw [hwriter hne] at hp
    obtain ⟨hp', hp''⟩ := h.writer_window hp
    rw [hother hp' hp'' hne]
    exact h.writing hp
  · intro p (hp : r.pops ≤ p) (hp' : p < r.claims.length) hw
    rw [hvals]
    by_cases hne : p = pos.toNat
    · subst hne
      rw [hseq, if_pos rfl]
      exact ⟨rfl, hval⟩
    · rw [hwriter hne] at hw
      rw [hother hp' (by omega) hne]
      exact h.published hp hp' hw
  · intro p u (hp : r.reader p = some u)
    obtain ⟨hp', hp''⟩ := h.reader_window hp
    have := h.reading hp
    rw [hother hp' hp'' (by omega)]
    exact this
  · intro p (hp : r.claims.length ≤ p) (hp' : p < r.claims.length + n)
    rcases h.free hp hp' with hfree | hlast
    · -- a cell that is free for its next position is not the one that was written
      refine .inl ?_
      rw [hseq, if_neg, hfree]
      intro hmod
      have := h.shape.seqAt_congr hmod
      omega
    · exact .inr hlast
  · refine { Later.rfl with
      writer := update_none_iff hpos, wrote := fun _ _ => hvals _, reads := fun _ _ => hvals _,
      free := ?_, settled := ?_ }
    · intro p hp _ hfree
      rw [hseq, if_neg, hfree]
      intro hmod
      have := h.shape.seqAt_congr hmod
      omega
    · intro p _ hw
      by_cases hne : p = pos.toNat
      · rw [hne]
        exact hself
      · rw [hwriter hne]
        exact hw

/-! ### Pop -/

theorem keeps_take (hlt : r.pops < r.claims.length) (hw : r.writer r.pops = none) :
    RingOk n (r.take t) ∧ Later t r (r.take t) := by
  have hclaims := h.claims_le
  have hhead : (r.head + 1).toNat = r.pops + 1 := by
    rw [UInt64.toNat_add, h.head]
    change (r.pops + 1) % 2 ^ 64 = _
    omega
  have hreader : ∀ {p}, p ≠ r.pops → (r.take t).reader p = r.reader p :=
    fun hp => update_of_ne hp _ _
  have hself : (r.take t).reader r.pops = some t := update_self _ _ _
  have hbound := h.bound
  refine ⟨⟨h.shape.of_length h.shape.cells rfl rfl rfl,
    hhead, hlt, Nat.le_trans hbound (by change _ ≤ r.pops + 1 + n; omega), h.tail, ?_, ?_, ?_, ?_, ?_,
    h.distinct, ?_⟩, ?_⟩
  · intro p u (hp : r.writer p = some u)
    obtain ⟨hp', hrest⟩ := h.writing hp
    have hne : p ≠ r.pops := by
      rintro rfl
      simp [hw] at hp
    exact ⟨Nat.lt_of_le_of_ne hp' hne.symm, hrest⟩
  · intro p (hp : r.pops + 1 ≤ p)
    exact h.published (by omega)
  · intro p u hp
    by_cases hne : p = r.pops
    · subst hne
      exact ⟨Nat.lt_succ_self _, hbound, (h.published (Nat.le_refl _) hlt hw).1⟩
    · rw [hreader hne] at hp
      obtain ⟨hp', hrest⟩ := h.reading hp
      exact ⟨Nat.lt_succ_of_lt hp', hrest⟩
  · intro p hp hp'
    refine (h.free hp hp').imp_right fun ⟨hn, hlast⟩ => ⟨hn, ?_⟩
    by_cases hne : p - n = r.pops
    · rw [hne, hself]
      exact .inr (by simp)
    · rw [hreader hne]
      refine hlast.imp_left fun hle => ?_
      exact Nat.lt_of_le_of_ne hle (Ne.symm hne)
  · intro p v hp
    obtain ⟨hp', hr, heq⟩ := h.results hp
    rw [hreader (by omega)]
    exact ⟨Nat.lt_succ_of_lt hp', hr, heq⟩
  · intro p (hp : p < r.pops + 1) hr
    have hne : p ≠ r.pops := by
      rintro rfl
      simp [hself] at hr
    rw [hreader hne] at hr
    exact h.answered (by omega) hr
  · refine { Later.rfl with pops := Nat.le_succ _, reader := ?_ }
    intro u p hu
    by_cases hne : p = r.pops
    · subst hne
      rw [hself, h.reader_eq_none (Nat.le_refl _)]
      simp [hu.symm]
    · rw [hreader hne]

theorem keeps_handBack {v : Option V} (hpos : r.reader pos.toNat = some t)
    (hv : v = r.claims[pos.toNat]?) : RingOk n (r.handBack pos v) ∧ Later t r (r.handBack pos v) := by
  obtain ⟨hH, hwin, hold⟩ := h.reading hpos
  obtain ⟨hlt, -⟩ := h.reader_window hpos
  have hclaims := h.claims_le
  have hn := h.shape.lt
  have hnext : (2 * (pos + r.size)).toNat = 2 * (pos.toNat + n) := by
    rw [UInt64.toNat_mul, UInt64.toNat_add, h.shape.toNat_size]
    change (2 * ((pos.toNat + n) % 2 ^ 64)) % 2 ^ 64 = _
    omega
  have hseq : ∀ q, (r.handBack pos v).seqAt q =
      if q % n = pos.toNat % n then 2 * (pos.toNat + n) else r.seqAt q := by
    intro q
    rw [← hnext]
    exact h.shape.seqAt_storeSeq pos _ q
  have hvals : ∀ q, (r.handBack pos v).valAt q = r.valAt q := h.shape.valAt_storeSeq pos _
  have hother : ∀ {q}, q < r.claims.length → r.claims.length ≤ q + n → q ≠ pos.toNat →
      (r.handBack pos v).seqAt q = r.seqAt q := by
    intro q hq hq' hne
    rw [hseq, if_neg (mod_ne_of_window hq hq' hlt hwin hne)]
  have hreader : ∀ {p}, p ≠ pos.toNat → (r.handBack pos v).reader p = r.reader p :=
    fun hp => update_of_ne hp _ _
  have hself : (r.handBack pos v).reader pos.toNat = none := update_self _ _ _
  have hmem : ∀ {x}, x ∈ (r.handBack pos v).returned ↔ x ∈ r.returned ∨ x = (pos.toNat, v) := by
    intro x
    simp [Ring.handBack]
  refine ⟨⟨h.shape.of_length (h.shape.storeSeq pos (2 * (pos + r.size))).cells rfl rfl rfl, h.head,
    h.le, h.bound, h.tail, ?_, ?_, ?_, ?_, ?_, ?_, ?_⟩, ?_⟩
  · intro p u (hp : r.writer p = some u)
    have := h.writing hp
    obtain ⟨hp', hp''⟩ := h.writer_window hp
    rw [hother hp' hp'' (by omega)]
    exact this
  · intro p (hp : r.pops ≤ p) (hp' : p < r.claims.length) hw
    rw [hvals, hother hp' (by omega) (by omega)]
    exact h.published hp hp' hw
  · intro p u hp
    have hne : p ≠ pos.toNat := by
      rintro rfl
      simp [hself] at hp
    rw [hreader hne] at hp
    obtain ⟨hp', hp''⟩ := h.reader_window hp
    rw [hother hp' hp'' hne]
    exact h.reading hp
  · intro p (hp : r.claims.length ≤ p) (hp' : p < r.claims.length + n)
    rw [hseq]
    split
    · -- the cell is free now for the position a lap later
      rename_i hmod
      have : pos.toNat + n = p := by
        have hmod' : (pos.toNat + n) % n = p % n := by rw [Nat.add_mod_right, hmod]
        rcases Nat.le_total (pos.toNat + n) p with hle | hle
        · exact eq_of_mod_eq_of_lt hmod' hle (by omega)
        · exact (eq_of_mod_eq_of_lt hmod'.symm hle (by omega)).symm
      exact .inl (by omega)
    · rename_i hmod
      refine (h.free hp hp').imp_right fun ⟨hle, hlast⟩ => ⟨hle, ?_⟩
      rw [hreader]
      · exact hlast
      · rintro heq
        apply hmod
        rw [← heq, Nat.mod_eq_sub_mod hle]
  · intro p w hp
    rcases hmem.mp hp with hp | hp
    · obtain ⟨hp', hr, heq⟩ := h.results hp
      rw [hreader]
      · exact ⟨hp', hr, heq⟩
      · rintro rfl
        simp [hpos] at hr
    · cases hp
      exact ⟨hH, hself, hv⟩
  · rw [Ring.handBack, map_append, nodup_append]
    refine ⟨h.distinct, by simp, ?_⟩
    intro a ha b hb heq
    obtain rfl : b = pos.toNat := by simpa using hb
    exact h.not_returned hpos (heq ▸ ha)
  · intro p hp hr
    by_cases hne : p = pos.toNat
    · exact ⟨v, hmem.mpr (.inr (by rw [hne]))⟩
    · rw [hreader hne] at hr
      obtain ⟨w, hw⟩ := h.answered hp hr
      exact ⟨w, hmem.mpr (.inl hw)⟩
  · refine { Later.rfl with
      returned := prefix_append _ _, reader := update_none_iff hpos, wrote := fun _ _ => hvals _,
      reads := fun _ _ => hvals _, free := ?_ }
    intro p hp _ hfree
    rw [hseq, if_neg, hfree]
    intro hmod
    have := h.shape.seqAt_congr hmod
    omega

/-! ### Lock and close -/

theorem keeps_setTail {w : UInt64} {holder : Option ℕ} (hw : TailOk w.toNat r.claims.length holder)
    (hfree : ∀ u, u ≠ t → r.holder ≠ some u) (hclosed : 2 ^ 63 ≤ r.tail.toNat → 2 ^ 63 ≤ w.toNat) :
    RingOk n (r.setTail w holder) ∧ Later t r (r.setTail w holder) := by
  refine ⟨{ h with shape := h.shape.of_length h.shape.cells rfl rfl rfl, tail := hw }, ?_⟩
  exact { Later.rfl with
    holder := fun hu hhold => absurd hhold (hfree _ hu)
    closed := fun hc => ⟨hclosed hc, rfl⟩ }

section

variable (hlt : r.tail.toNat < 2 ^ 62)
include hlt

lemma of_no_flags : r.tail.toNat = r.claims.length ∧ r.holder = none := by
  rcases h.tail with ⟨-, ⟨hnone, hw⟩ | ⟨-, hw⟩⟩ | ⟨-, ⟨hw, -⟩ | hw⟩
  · exact ⟨by omega, hnone⟩
  all_goals omega

theorem keeps_lock :
    RingOk n (r.setTail (r.tail ||| ringLocked) (some t)) ∧
      Later t r (r.setTail (r.tail ||| ringLocked) (some t)) := by
  obtain ⟨hw, hnone⟩ := h.of_no_flags hlt
  refine h.keeps_setTail (.inl ⟨by omega, .inr ⟨by simp, ?_⟩⟩) (by simp [hnone]) (by omega)
  rw [show ringLocked = flag 62 by decide, toNat_or_flag (by decide) hlt, hw]

theorem keeps_close :
    RingOk n (r.setTail (r.tail ||| ringClosed) r.holder) ∧
      Later t r (r.setTail (r.tail ||| ringClosed) r.holder) := by
  obtain ⟨hw, hnone⟩ := h.of_no_flags hlt
  refine h.keeps_setTail (.inl ⟨by omega, .inl ⟨hnone, .inr ?_⟩⟩) (by simp [hnone]) (by omega)
  rw [show ringClosed = flag 63 by decide, toNat_or_flag (by decide) (by omega), hw]

end

theorem keeps_unlock (hhold : r.holder = some t) :
    RingOk n (r.setTail (r.tail &&& ~~~ringLocked) none) ∧
      Later t r (r.setTail (r.tail &&& ~~~ringLocked) none) := by
  have hclear := toNat_and_not_flag r.tail (show 62 < 64 by decide)
  rw [← show ringLocked = flag 62 by decide] at hclear
  have hothers : ∀ u, u ≠ t → r.holder ≠ some u := by
    rintro u hu heq
    exact hu (some.inj (heq.symm.trans hhold))
  rcases h.tail with ⟨hlt, ⟨hnone, -⟩ | ⟨-, hw⟩⟩ | ⟨hlt, ⟨-, hnone⟩ | hw⟩
  · simp [hhold] at hnone
  · exact h.keeps_setTail (.inl ⟨hlt, .inl ⟨rfl, .inl (by omega)⟩⟩) hothers (by omega)
  · simp [hhold] at hnone
  · exact h.keeps_setTail (.inr ⟨hlt, .inr (by omega)⟩) hothers (by omega)

end RingOk

end Goav.Pipeline
