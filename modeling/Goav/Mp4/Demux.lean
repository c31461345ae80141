import Goav.Mp4.DemuxDefs
import Goav.Mp4.Tables
import Mathlib.Tactic.Linarith
import Mathlib.Tactic.Positivity
import Mathlib.Tactic.Ring

/-!
What the demuxer's edits and its seek come to. `applyEdits` lifts all tracks by one span of time; `seek`
lands right if and only if nothing that presents in time decodes behind the point where it stops.
-/

namespace Goav.Mp4

open Goav.Av Goav.Lib List

/-! ### Nanoseconds -/

def InInt64 (x : ℤ) : Prop := -2 ^ 63 ≤ x ∧ x < 2 ^ 63

instance (x : ℤ) : Decidable (InInt64 x) := inferInstanceAs (Decidable (_ ∧ _))

def toNS (ticks : ℤ) (timescale : UInt32) : ℤ := (ticks * second).tdiv timescale.toNat

variable {x ts ticks ns : ℤ} {timescale : UInt32}

lemma InInt64.int64_eq (h : InInt64 x) : int64 x = x := Mp4.int64_eq h.1 h.2

lemma tdiv_mul_add_of_nonneg (hx : 0 ≤ x) (hts : 0 < ts) :
    x.tdiv ts * second + (x.tmod ts * second).tdiv ts = (x * second).tdiv ts := by
  have hmod : 0 ≤ x % ts := Int.emod_nonneg x hts.ne'
  have hsecond : 0 ≤ second := by decide
  rw [Int.tdiv_eq_ediv_of_nonneg hx, Int.tmod_eq_emod_of_nonneg hx,
    Int.tdiv_eq_ediv_of_nonneg (Int.mul_nonneg hmod hsecond),
    Int.tdiv_eq_ediv_of_nonneg (Int.mul_nonneg hx hsecond)]
  have hsplit : x * second = x % ts * second + ts * (x / ts * second) := by
    conv_lhs => rw [← Int.emod_add_mul_ediv x ts]
    ring
  rw [hsplit, Int.add_mul_ediv_left _ _ hts.ne', add_comm]

lemma tdiv_mul_add (x : ℤ) (hts : 0 < ts) :
    x.tdiv ts * second + (x.tmod ts * second).tdiv ts = (x * second).tdiv ts := by
  obtain hx | hx := Int.le_total 0 x
  · exact tdiv_mul_add_of_nonneg hx hts
  · have h := tdiv_mul_add_of_nonneg (Int.neg_nonneg_of_nonpos hx) hts
    simp only [Int.neg_tdiv, Int.neg_tmod, Int.neg_mul] at h
    omega

lemma timescaleNS_eq (hts : timescale ≠ 0) (h : InInt64 (toNS ticks timescale)) :
    timescaleNS ticks timescale = toNS ticks timescale := by
  have hpos : 0 < (timescale.toNat : ℤ) := by
    have : timescale.toNat ≠ 0 := fun h0 => hts (UInt32.toNat_inj.mp h0)
    omega
  unfold timescaleNS
  simp only [hpos.ne', tdiv_mul_add _ hpos]
  exact h.int64_eq

lemma mul_le_ceilTicks (hns : 0 ≤ ns) (h : InInt64 (ns.tdiv second * timescale.toNat
      + (ns.tmod second * timescale.toNat + second - 1).tdiv second)) :
    ns * timescale.toNat ≤ ceilTicks ns timescale * second := by
  have hsecond : (0 : ℤ) < second := by decide
  have hmod : 0 ≤ ns % second := Int.emod_nonneg ns hsecond.ne'
  have hrest : 0 ≤ ns % second * timescale.toNat + second - 1 := by
    have := Int.mul_nonneg hmod (Int.natCast_nonneg timescale.toNat)
    omega
  have hceil : ceilTicks ns timescale = ns / second * timescale.toNat
      + (ns % second * timescale.toNat + second - 1) / second := by
    unfold ceilTicks
    rw [h.int64_eq, Int.tdiv_eq_ediv_of_nonneg hns, Int.tmod_eq_emod_of_nonneg hns,
      Int.tdiv_eq_ediv_of_nonneg hrest]
  have hround := Int.lt_ediv_add_one_mul_self (ns % second * timescale.toNat + second - 1) hsecond
  have hsplit : ns * timescale.toNat
      = ns % second * timescale.toNat + second * (ns / second * timescale.toNat) := by
    conv_lhs => rw [← Int.emod_add_mul_ediv ns second]
    ring
  rw [hceil]
  linarith

/-- A sample at most `ns` before zero starts at zero or later once the lift covers `ns`. -/
lemma le_toNS_add {lift pre : ℤ} (hts : timescale ≠ 0) (hpre : 0 ≤ pre) (hns : 0 ≤ ns)
    (hx : -ns ≤ toNS x timescale + pre) (hlift : ns * timescale.toNat ≤ lift * second) :
    0 ≤ toNS (x + lift) timescale + pre := by
  have hpos : 0 < (timescale.toNat : ℤ) := by
    have : timescale.toNat ≠ 0 := fun h0 => hts (UInt32.toNat_inj.mp h0)
    omega
  have hsecond : (0 : ℤ) < second := by decide
  unfold toNS at *
  obtain hge | hlt := le_or_gt 0 (x + lift)
  · have := Int.tdiv_nonneg (Int.mul_nonneg hge hsecond.le) hpos.le
    omega
  · have hlift0 : 0 ≤ lift := by
      by_contra hneg
      have h1 : lift * second < 0 := Int.mul_neg_of_neg_of_pos (by omega) hsecond
      have h2 := Int.mul_nonneg hns hpos.le
      omega
    have hneg (y : ℤ) (hy : y ≤ 0) : (y * second).tdiv timescale.toNat
        = -(-y * second / timescale.toNat) := by
      rw [← Int.tdiv_eq_ediv_of_nonneg (Int.mul_nonneg (by omega) hsecond.le), Int.neg_mul,
        Int.neg_tdiv, neg_neg]
    rw [hneg x (by omega)] at hx
    rw [hneg _ hlt.le]
    have hbefore : -x * second < (ns + pre + 1) * timescale.toNat :=
      calc -x * second < (-x * second / timescale.toNat + 1) * timescale.toNat :=
            Int.lt_ediv_add_one_mul_self _ hpos
        _ ≤ (ns + pre + 1) * timescale.toNat := Int.mul_le_mul_of_nonneg_right (by omega) hpos.le
    have hafter : -(x + lift) * second < (pre + 1) * timescale.toNat := by linarith
    have := Int.ediv_lt_of_lt_mul hpos hafter
    omega

/-! ### Edits -/

lemma le_foldl_min (x m : ℤ) (l : List ℤ) : x ≤ l.foldl min m ↔ x ≤ m ∧ ∀ a ∈ l, x ≤ a := by
  induction l generalizing m with
  | nil => simp
  | cons a l ih => simp [ih, and_assoc]

lemma minNS_le {tracks : List Track} {tr : Track} (htr : tr ∈ tracks) {start : ℤ}
    (hstart : start ∈ tr.startsNS) : minNS tracks ≤ start :=
  ((le_foldl_min _ _ _).mp le_rfl).2 _ (mem_flatMap.mpr ⟨tr, htr, hstart⟩)

lemma minNS_nonneg {tracks : List Track} (h : ∀ tr ∈ tracks, ∀ start ∈ tr.startsNS, 0 ≤ start) :
    0 ≤ minNS tracks := by
  refine (le_foldl_min _ _ _).mpr ⟨by decide, fun start hstart => ?_⟩
  obtain ⟨tr, htr, hstart⟩ := mem_flatMap.mp hstart
  exact h tr htr start hstart

lemma opusPreSkipNS_nonneg (params : CodecParameters) : 0 ≤ opusPreSkipNS params := by
  unfold opusPreSkipNS second
  dsimp only
  split
  · exact le_rfl
  · positivity

def Track.startNS (tr : Track) (cts : ℤ) : ℤ := toNS cts tr.timescale + opusPreSkipNS tr.params

/-- No time overflows in the edits. -/
structure EditsFit (tracks : List Track) : Prop where
  shift : ∀ tr ∈ tracks, ∀ s ∈ tr.samples, InInt64 (s.dts + tr.shift) ∧ InInt64 (s.cts + tr.shift) ∧
    InInt64 (toNS (s.cts + tr.shift) tr.timescale) ∧ InInt64 (tr.startNS (s.cts + tr.shift))
  span : InInt64 (-minNS (shifted tracks))
  lift : minNS (shifted tracks) < 0 → ∀ tr ∈ tracks,
    InInt64 ((-minNS (shifted tracks)).tdiv second * tr.timescale.toNat
      + ((-minNS (shifted tracks)).tmod second * tr.timescale.toNat + second - 1).tdiv second) ∧
    ∀ s ∈ tr.samples, InInt64 (s.dts + tr.shift + liftOf tracks tr.timescale) ∧
      InInt64 (s.cts + tr.shift + liftOf tracks tr.timescale)

def Track.later (ticks : ℤ) (tr : Track) : Track :=
  { tr with samples := tr.samples.map fun s => { s with dts := s.dts + ticks, cts := s.cts + ticks } }

lemma Track.moved_eq {tr : Track} (h : ∀ s ∈ tr.samples, InInt64 (s.dts + ticks) ∧ InInt64 (s.cts + ticks)) :
    tr.moved ticks = tr.later ticks := by
  unfold Track.moved Track.later
  congr 1
  refine map_congr_left fun s hs => ?_
  rw [Sample.moved, (h s hs).1.int64_eq, (h s hs).2.int64_eq]

@[simp] lemma Track.later_later (tr : Track) (a b : ℤ) : (tr.later a).later b = tr.later (a + b) := by
  simp [Track.later, add_assoc]

namespace EditsFit

variable {tracks : List Track} (hfit : EditsFit tracks)

include hfit

lemma shifted_eq : shifted tracks = tracks.map fun tr => tr.later tr.shift :=
  map_congr_left fun tr htr => Track.moved_eq fun s hs =>
    ⟨(hfit.shift tr htr s hs).1, (hfit.shift tr htr s hs).2.1⟩

lemma startsNS_eq (hts : ∀ tr ∈ tracks, tr.timescale ≠ 0) {tr : Track} (htr : tr ∈ tracks) :
    (tr.later tr.shift).startsNS = tr.samples.map fun s => tr.startNS (s.cts + tr.shift) := by
  simp only [Track.startsNS, Track.later, map_map]
  refine map_congr_left fun s hs => ?_
  obtain ⟨-, -, hns, hstart⟩ := hfit.shift tr htr s hs
  simp only [Function.comp_apply, timescaleNS_eq (hts tr htr) hns]
  exact hstart.int64_eq

lemma applyEdits_eq : applyEdits tracks = tracks.map fun tr =>
    tr.later (tr.shift + if minNS (shifted tracks) < 0 then liftOf tracks tr.timescale else 0) := by
  unfold applyEdits
  split
  · next h =>
    simp only [Int.not_lt.mpr h, if_false, add_zero]
    exact hfit.shifted_eq
  next h =>
  rw [Int.not_le] at h
  simp only [if_pos h]
  rw [hfit.shifted_eq, map_map]
  refine map_congr_left fun tr htr => ?_
  rw [← Track.later_later]
  refine Track.moved_eq fun s' hs' => ?_
  obtain ⟨s, hs, rfl⟩ := mem_map.mp hs'
  exact (hfit.lift h tr htr).2 s hs

end EditsFit

/-- **Nothing starts before zero once the edits are applied**; all samples of a track move alike, and by
the edit list alone if that is enough. -/
theorem applyEdits_spec {tracks : List Track} (hts : ∀ tr ∈ tracks, tr.timescale ≠ 0)
    (hfit : EditsFit tracks) :
    (∃ ticks : Track → ℤ, applyEdits tracks = tracks.map (fun tr => tr.later (ticks tr)) ∧
      ((∀ tr ∈ tracks, ∀ s ∈ tr.samples, 0 ≤ tr.startNS (s.cts + tr.shift)) →
        ∀ tr ∈ tracks, ticks tr = tr.shift)) ∧
    ∀ tr ∈ applyEdits tracks, ∀ s ∈ tr.samples, 0 ≤ tr.startNS s.cts ∧
      (InInt64 (toNS s.cts tr.timescale) →
        0 ≤ timescaleNS s.cts tr.timescale + opusPreSkipNS tr.params) := by
  have hmem {tr : Track} (htr : tr ∈ tracks) : tr.later tr.shift ∈ shifted tracks := by
    rw [hfit.shifted_eq]
    exact mem_map_of_mem htr
  have hleast {tr : Track} (htr : tr ∈ tracks) {s : Sample} (hs : s ∈ tr.samples) :
      minNS (shifted tracks) ≤ tr.startNS (s.cts + tr.shift) := by
    refine minNS_le (hmem htr) ?_
    rw [hfit.startsNS_eq hts htr]
    exact mem_map_of_mem hs
  refine ⟨⟨_, hfit.applyEdits_eq, fun hzero tr _ => ?_⟩, ?_⟩
  · have hnonneg : 0 ≤ minNS (shifted tracks) := by
      refine minNS_nonneg fun tr' htr' start hstart => ?_
      rw [hfit.shifted_eq] at htr'
      obtain ⟨tr, htr, rfl⟩ := mem_map.mp htr'
      rw [hfit.startsNS_eq hts htr] at hstart
      obtain ⟨s, hs, rfl⟩ := mem_map.mp hstart
      exact hzero tr htr s hs
    simp [Int.not_lt.mpr hnonneg]
  · rw [hfit.applyEdits_eq]
    intro tr' htr'
    obtain ⟨tr, htr, rfl⟩ := mem_map.mp htr'
    intro s' hs'
    obtain ⟨s, hs, rfl⟩ := mem_map.mp hs'
    have hstart : 0 ≤ tr.startNS
        (s.cts + (tr.shift + if minNS (shifted tracks) < 0 then liftOf tracks tr.timescale else 0)) := by
      have hle := hleast htr hs
      split
      · next hneg =>
        rw [← add_assoc]
        have hspan : 0 ≤ -minNS (shifted tracks) := by omega
        refine le_toNS_add (hts tr htr) (opusPreSkipNS_nonneg _) hspan (by rw [neg_neg]; exact hle) ?_
        have := mul_le_ceilTicks hspan (hfit.lift hneg tr htr).1
        rwa [liftOf, hfit.span.int64_eq]
      · rw [add_zero]
        omega
    refine ⟨hstart, fun hns => ?_⟩
    change 0 ≤ timescaleNS (s.cts + _) tr.timescale + opusPreSkipNS tr.params
    rw [timescaleNS_eq (hts tr htr) hns]
    exact hstart

def primedTracks : List Track :=
  [{ media := .audio, timescale := 48000, shift := -1024, samples := [{}, { dts := 1024, cts := 1024 }] },
    { media := .video, timescale := 3, samples := [{ keyframe := true }] }]

theorem applyEdits_spec_primed :
    applyEdits primedTracks = [
      { media := .audio, timescale := 48000, shift := -1024,
        samples := [{}, { dts := 1024, cts := 1024 }] },
      { media := .video, timescale := 3, samples := [{ dts := 1, cts := 1, keyframe := true }] }] ∧
    ∀ tr ∈ applyEdits primedTracks, ∀ s ∈ tr.samples, 0 ≤ tr.startNS s.cts := by
  refine ⟨by decide, fun tr htr s hs => ((applyEdits_spec ?_ ⟨?_, ?_, ?_⟩).2 tr htr s hs).1⟩
  all_goals decide

/-! ### Seeking -/

variable {α : Type*}

/-- `i` is the last place of a list that satisfies `p`, or the first place if none does. -/
def Latest (p : α → Bool) (l : List α) (i : ℕ) : Prop :=
  (∃ a, l[i]? = some a ∧ p a ∧ ∀ j, i < j → ∀ b, l[j]? = some b → ¬ p b) ∨ i = 0 ∧ ∀ b ∈ l, ¬ p b

/-- The last place of an initial part is that of the list exactly if nothing of the rest satisfies `p`.
-/
lemma latest_take_iff {p : α → Bool} {l : List α} {n i : ℕ} (h : Latest p (l.take n) i) :
    Latest p l i ↔ ∀ k, 0 < k → ∀ a, l[k]? = some a → p a → k < n := by
  constructor
  · rintro (⟨-, -, -, hlast⟩ | ⟨-, hnone⟩) k hk a ha hpa
    · have hki : k ≤ i := Nat.le_of_not_lt fun hik => hlast k hik a ha hpa
      obtain ⟨b, hb, -⟩ | ⟨rfl, -⟩ := h
      · have := (List.getElem?_eq_some_iff.mp hb).1
        rw [length_take] at this
        omega
      · omega
    · exact absurd hpa (hnone a (mem_of_getElem? ha))
  · intro hrest
    obtain ⟨b, hb, hpb, hlast⟩ | ⟨rfl, hnone⟩ := h
    · rw [getElem?_take] at hb
      split at hb
      · refine .inl ⟨b, hb, hpb, fun j hij a ha hpa => hlast j hij a ?_ hpa⟩
        rwa [getElem?_take_of_lt (hrest j (by omega) a ha hpa)]
      · cases hb
    · -- Nothing before `n`: what satisfies `p` can only stand at the first place.
      have hplace (k : ℕ) (a : α) (ha : l[k]? = some a) (hpa : p a) : k = 0 := by
        by_contra hk
        have hkn := hrest k (by omega) a ha hpa
        exact hnone a (mem_of_getElem? ((getElem?_take_of_lt hkn).trans ha)) hpa
      by_cases hsome : ∃ a ∈ l, p a
      · obtain ⟨a, ha, hpa⟩ := hsome
        obtain ⟨k, hk⟩ := mem_iff_getElem?.mp ha
        obtain rfl := hplace k a hk hpa
        refine .inl ⟨a, hk, hpa, fun j hj b hb hpb => ?_⟩
        have := hplace j b hb hpb
        omega
      · exact .inr ⟨rfl, fun b hb hpb => hsome ⟨b, hb, hpb⟩⟩

lemma lt_length_takeWhile_iff {p : α → Bool} {l : List α} {k : ℕ} (hk : k < l.length) :
    k < (l.takeWhile p).length ↔ ∀ j ≤ k, ∀ a, l[j]? = some a → p a := by
  induction l generalizing k with
  | nil => cases hk
  | cons x l ih =>
    rw [takeWhile_cons]
    split
    · next hx =>
      cases k with
      | zero => simp [hx]
      | succ k =>
        rw [length_cons, Nat.succ_lt_succ_iff, ih (Nat.lt_of_succ_lt_succ hk)]
        constructor
        · intro h j hj a ha
          cases j with
          | zero => exact Option.some.inj ha ▸ hx
          | succ j => exact h j (Nat.le_of_succ_le_succ hj) a ha
        · exact fun h j hj a ha => h (j + 1) (Nat.succ_le_succ hj) a ha
    · next hx => exact iff_of_false (Nat.not_lt_zero k) fun h => hx (h 0 (Nat.zero_le k) x rfl)

namespace Demuxer

variable (d : Demuxer) (position : ℤ)

def inTime (s : Sample) : Bool := timescaleNS s.dts d.anchorTrack.timescale ≤ position

def scanned : List Sample := d.anchorTrack.samples.takeWhile (d.inTime position)

lemma scan_spec (si best : ℕ) (samples : List Sample) :
    let seen := samples.takeWhile (d.inTime position)
    (∃ k s, d.scan position si best samples = si + k ∧ seen[k]? = some s ∧ d.seekable position s ∧
      ∀ j, k < j → ∀ s', seen[j]? = some s' → ¬ d.seekable position s') ∨
    d.scan position si best samples = best ∧ ∀ s ∈ seen, ¬ d.seekable position s := by
  induction samples generalizing si best with
  | nil => exact .inr ⟨rfl, by simp⟩
  | cons s samples ih =>
    by_cases hs : position < timescaleNS s.dts d.anchorTrack.timescale
    · have hstop : d.inTime position s = false := by simpa [inTime] using hs
      simp [scan, hs, hstop]
    · have hgo : d.inTime position s = true := by simpa [inTime] using hs
      simp only [scan, if_neg hs, takeWhile_cons, hgo]
      obtain ⟨k, s', hscan, hk, hpos, hlast⟩ | ⟨hscan, hnone⟩ :=
        ih (si + 1) (if d.seekable position s then si else best)
      · refine .inl ⟨k + 1, s', by omega, hk, hpos, fun j hj b hb => ?_⟩
        obtain ⟨j, rfl⟩ := Nat.exists_eq_succ_of_ne_zero (Nat.ne_zero_of_lt hj)
        exact hlast j (by omega) b hb
      · by_cases hseek : d.seekable position s
        · refine .inl ⟨0, s, by rw [hscan, if_pos hseek, add_zero], rfl, hseek, fun j hj b hb => ?_⟩
          obtain ⟨j, rfl⟩ := Nat.exists_eq_succ_of_ne_zero (Nat.ne_zero_of_lt hj)
          exact hnone b (mem_of_getElem? hb)
        · refine .inr ⟨by rw [hscan, if_neg hseek], fun b hb => ?_⟩
          obtain rfl | hb := mem_cons.mp hb
          · exact hseek
          · exact hnone b hb

def best : ℕ := d.scan position 0 0 d.anchorTrack.samples

lemma latest_best : Latest (d.seekable position) (d.scanned position) (d.best position) := by
  obtain ⟨k, s, hscan, hk, hseek, hlast⟩ | ⟨hscan, hnone⟩ :=
    d.scan_spec position 0 0 d.anchorTrack.samples
  · rw [zero_add] at hscan
    exact .inl ⟨s, by rw [best, hscan]; exact hk, hseek, by rw [best, hscan]; exact hlast⟩
  · exact .inr ⟨hscan, hnone⟩

lemma best_lt : d.best position < d.anchorTrack.samples.length := by
  obtain ⟨s, hs, -⟩ | ⟨hzero, -⟩ := d.latest_best position
  · have hlt := (List.getElem?_eq_some_iff.mp hs).1
    exact hlt.trans_le (takeWhile_sublist _).length_le
  · rw [hzero]
    exact length_pos_iff.mpr (d.samples_ne _ (get_mem _ _))

lemma exists_mem_order {track sample : ℕ} {tr : Track} (htr : d.tracks[track]? = some tr)
    (hs : sample < tr.samples.length) : ∃ item ∈ d.order, item.track = track ∧ item.sample = sample := by
  refine ⟨⟨track, sample, tr.samples[sample].offset, timescaleNS tr.samples[sample].dts tr.timescale⟩,
    mem_mergeSort.mpr (mem_flatMap.mpr ⟨(tr, track), ?_, ?_⟩), rfl, rfl⟩
  · exact mem_zipIdx_iff_getElem?.mpr htr
  · exact mem_map.mpr ⟨(tr.samples[sample], sample),
      mem_zipIdx_iff_getElem?.mpr (getElem?_eq_getElem hs), rfl⟩

lemma nextItem_seek : ∃ item, (d.seek position).nextItem = some item ∧ item.track = d.anchor ∧
    item.sample = d.best position := by
  have htr : d.tracks[d.anchor]? = some d.anchorTrack := getElem?_eq_getElem d.anchor_lt
  obtain ⟨item, hmem, htrack, hsample⟩ := d.exists_mem_order htr (d.best_lt position)
  let wanted (item : DemuxItem) : Bool := item.track = d.anchor ∧ item.sample = d.best position
  have hany : d.order.any wanted = true :=
    any_eq_true.mpr ⟨item, hmem, decide_eq_true ⟨htrack, hsample⟩⟩
  obtain ⟨pos, hpos⟩ := Option.isSome_iff_exists.mp (findIdx?_isSome.trans hany)
  obtain ⟨hlt, hfound, -⟩ := findIdx?_eq_some_iff_getElem.mp hpos
  obtain ⟨htrack, hsample⟩ := of_decide_eq_true hfound
  refine ⟨d.order[pos], ?_, htrack, hsample⟩
  change d.order[(d.order.findIdx? wanted).getD 0]? = _
  rw [hpos]
  exact getElem?_eq_getElem hlt

/-- A seek is for the anchor's latest sync sample that presents at or before the position, or the first.
-/
def Lands : Prop :=
  ∃ item, (d.seek position).nextItem = some item ∧ item.track = d.anchor ∧
    Latest (d.seekable position) d.anchorTrack.samples item.sample

/-- Every sample up to a sync sample that presents in time decodes in time. -/
def DecodesInTime : Prop :=
  ∀ k, 0 < k → ∀ s, d.anchorTrack.samples[k]? = some s → d.seekable position s →
    ∀ j ≤ k, ∀ s', d.anchorTrack.samples[j]? = some s' →
      timescaleNS s'.dts d.anchorTrack.timescale ≤ position

/-- **A seek lands on the sample it is for exactly if that one decodes in time**, and all before it. -/
theorem lands_iff_decodesInTime : d.Lands position ↔ d.DecodesInTime position := by
  obtain ⟨item, hnext, htrack, hsample⟩ := d.nextItem_seek position
  have hlands : d.Lands position
      ↔ Latest (d.seekable position) d.anchorTrack.samples (d.best position) := by
    constructor
    · rintro ⟨item', hnext', -, hlatest⟩
      obtain rfl := Option.some.inj (hnext.symm.trans hnext')
      rwa [← hsample]
    · exact fun hlatest => ⟨item, hnext, htrack, hsample ▸ hlatest⟩
  have hlatest := d.latest_best position
  rw [scanned, prefix_iff_eq_take.mp ( takeWhile_prefix _)] at hlatest
  rw [hlands, latest_take_iff hlatest]
  refine forall₅_congr fun k _ s hk _ => ?_
  rw [lt_length_takeWhile_iff (List.getElem?_eq_some_iff.mp hk).1]
  simp [inTime]

end Demuxer

/-- The second keyframe is decoded at two seconds and shown at one. -/
def earlyTables : SampleTables :=
  { stts := [(2, 2)]
    ctts := [(1, 0), (1, -1)]
    stsc := [{ firstChunk := 1, samplesPerChunk := 2 }]
    sizes := [1, 1]
    chunkOffsets := [0] }

def earlyTrack : Track :=
  { media := .video, timescale := 1, samples := earlyTables.build.toOption.getD [] }

def earlyDemuxer : Demuxer := (newDemuxer [earlyTrack]).get (by decide)

/-- A seek to one second goes to the first keyframe, although the second one is shown then. -/
theorem seek_misses_keyframe :
    earlyTables.build = .ok earlyTrack.samples ∧ newDemuxer [earlyTrack] = some earlyDemuxer ∧
    earlyDemuxer.anchorTrack.samples.map (·.dts) = [0, 2] ∧
    earlyDemuxer.anchorTrack.samples.map (fun s => (s.keyframe, s.cts)) = [(true, 0), (true, 1)] ∧
    earlyDemuxer.best second = 0 ∧ ¬ earlyDemuxer.Lands second := by
  have hbest : earlyDemuxer.best second = 0 := by decide
  refine ⟨by decide, by simp [earlyDemuxer], by decide, by decide, hbest, ?_⟩
  rintro ⟨item, hnext, -, hlatest⟩
  obtain ⟨item', hnext', -, hsample⟩ := earlyDemuxer.nextItem_seek second
  obtain rfl := Option.some.inj (hnext.symm.trans hnext')
  rw [hsample, hbest] at hlatest
  obtain ⟨-, -, -, hlast⟩ | ⟨-, hnone⟩ := hlatest
  · exact hlast 1 (by decide) _ rfl (by decide)
  · exact absurd hnone (by decide)

end Goav.Mp4
