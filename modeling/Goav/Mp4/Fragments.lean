import Goav.Mp4.Progressive
import Mathlib.Data.List.Chain

/-!
A fragmented file: the parts of a track hold the samples of its packets, in their order, and at the end
all of them.
-/

namespace Goav.Mp4

open Goav.Av Goav.Lib MuxTrack List Function FormatMuxer

/-! ### What a fragment writes -/

def trafsOf (m : FormatMuxer) (id : ℕ) : List Traf :=
  (m.fragments.flatten.map Prod.fst).filter (·.id = id)

structure Places (place : MuxTrack → MuxTrack) : Prop where
  cases : ∀ t, place t = t ∨
    t.started = false ∧ ∃ startDTS, place t = { t with startDTS, based := true }

namespace Places

variable {place : MuxTrack → MuxTrack} (h : Places place)
include h

variable (t : MuxTrack)

lemma id : (place t).id = t.id := by
  obtain heq | ⟨_, _, heq⟩ := h.cases t <;> rw [heq]

lemma samples : (place t).samples = t.samples := by
  obtain heq | ⟨_, _, heq⟩ := h.cases t <;> rw [heq]

lemma timescale : (place t).timescale = t.timescale := by
  obtain heq | ⟨_, _, heq⟩ := h.cases t <;> rw [heq]

lemma data : (place t).data = t.data := by
  obtain heq | ⟨_, _, heq⟩ := h.cases t <;> rw [heq]

lemma kind : (place t).kind = t.kind := by
  obtain heq | ⟨_, _, heq⟩ := h.cases t <;> rw [heq]
  rfl

end Places

section

variable {env : Env} {m : FormatMuxer}

lemma writeHeader_spec (herr : (m.writeHeader env).err = none) : ∃ place, Places place ∧
    (m.writeHeader env).tracks = m.tracks.map place ∧
    (m.writeHeader env).fragments = m.fragments ∧ (m.writeHeader env).seekable = m.seekable := by
  unfold writeHeader at herr ⊢
  dsimp only at herr ⊢
  split_ifs at herr ⊢ with hdone hready hfailed
  · exact ⟨fun t => t, ⟨fun _ => .inl rfl⟩, by simp, rfl, rfl⟩
  · simp [herr] at hfailed
  · refine ⟨_, ⟨fun t => ?_⟩, rfl, rfl, rfl⟩
    split
    · exact .inl rfl
    · rename_i hstarted
      exact .inr ⟨by simpa using hstarted, _, rfl⟩

lemma dropFragment_zero (t : MuxTrack) : t.dropFragment 0 = t := rfl

section

variable (t : MuxTrack) (n : ℕ)

@[simp] lemma id_dropFragment : (t.dropFragment n).id = t.id := by
  unfold dropFragment
  split <;> rfl

@[simp] lemma timescale_dropFragment : (t.dropFragment n).timescale = t.timescale := by
  unfold dropFragment
  split <;> rfl

@[simp] lemma startDTS_dropFragment : (t.dropFragment n).startDTS = t.startDTS := by
  unfold dropFragment
  split <;> rfl

lemma kind_dropFragment : (t.dropFragment n).kind = t.kind := by
  unfold dropFragment
  split <;> rfl

@[simp] lemma started_dropFragment : (t.dropFragment n).started = t.started := by
  unfold dropFragment
  split <;> rfl

end

variable {last : Bool} (herr : (m.flushFragment env last).err = none)
include herr

lemma err_writeHeader : (m.writeHeader env).err = none := by
  cases hfailed : (m.writeHeader env).err with
  | none => rfl
  | some err =>
    unfold flushFragment at herr
    simp only [hfailed, Option.isSome_some, if_true] at herr
    cases herr

/-- **What a flush does**: the ready samples of every track are a part of the fragment. -/
lemma flushFragment_spec :
    ∃ place, Places place ∧
      (m.flushFragment env last).tracks =
        m.tracks.map (fun t => (place t).dropFragment (t.readyCount last)) ∧
      (m.flushFragment env last).fragments.flatten = m.fragments.flatten ++
        (m.tracks.filter fun t => t.readyCount last ≠ 0).map (fun t =>
          ((place t).writeTraf (t.readyCount last), t.data.take (t.fragmentBytes (t.readyCount last)))) ∧
      (m.flushFragment env last).seekable = m.seekable := by
  have hheader := err_writeHeader herr
  obtain ⟨place, hplace, htracks, hfragments, hseekable⟩ := writeHeader_spec hheader
  have hready : ∀ t, (place t).readyCount last = t.readyCount last := fun t => by
    unfold readyCount
    rw [hplace.samples]
  have hparts : ((m.writeHeader env).tracks.filter fun t => t.readyCount last ≠ 0) =
      (m.tracks.filter fun t => t.readyCount last ≠ 0).map place := by
    rw [htracks, filter_map]
    simp only [comp_def, hready]
  refine ⟨place, hplace, ?_⟩
  unfold flushFragment at herr ⊢
  simp only [hheader, Option.isSome_none, Bool.false_eq_true, if_false, hparts, map_eq_nil_iff] at herr ⊢
  split_ifs at herr ⊢ with hnone hfailed
  · rw [hnone]
    refine ⟨?_, by rw [hfragments]; simp, hseekable⟩
    rw [htracks]
    refine map_congr_left fun t ht => ?_
    have hzero : t.readyCount last = 0 := by
      by_contra hne
      exact filter_eq_nil_iff.mp hnone t ht (decide_eq_true hne)
    rw [hzero, dropFragment_zero]
  · rw [herr] at hfailed
    cases hfailed
  · refine ⟨?_, ?_, hseekable⟩
    · show (m.writeHeader env).tracks.map (fun t => t.dropFragment (t.readyCount last)) = _
      rw [htracks, map_map]
      exact map_congr_left fun t _ => by simp [hready]
    · show ((m.writeHeader env).fragments ++ [_]).flatten = _
      have hbytes : ∀ t n, (place t).fragmentBytes n = t.fragmentBytes n := fun t n => by
        unfold MuxTrack.fragmentBytes
        rw [hplace.samples]
      rw [hfragments]
      simp [comp_def, hready, hplace.data, hbytes]

lemma kinds_flush : (m.flushFragment env last).tracks.map kind = m.tracks.map kind := by
  obtain ⟨place, hplace, htracks, -, -⟩ := flushFragment_spec herr
  rw [htracks, map_map]
  exact map_congr_left fun t _ => (kind_dropFragment _ _).trans (hplace.kind t)

end

lemma filter_parts {β : Type} {f : MuxTrack → β} (idOf : β → ℕ) (ready : MuxTrack → Bool)
    (hid : ∀ t, idOf (f t) = t.id) {tracks : List MuxTrack} {n : ℕ}
    (hids : ∀ i t, tracks[i]? = some t → t.id = n + i) :
    ∀ {i : ℕ} {t : MuxTrack}, tracks[i]? = some t →
      ((tracks.filter ready).map f).filter (idOf · = n + i) = if ready t then [f t] else [] := by
  induction tracks generalizing n with
  | nil => simp
  | cons t₀ tracks ih =>
    have hhead : t₀.id = n := hids 0 t₀ rfl
    have htail : ∀ i t, tracks[i]? = some t → t.id = n + 1 + i := fun i t ht => by
      have := hids (i + 1) t ht
      omega
    intro i t ht
    cases i with
    | zero =>
      cases ht
      have hrest : ((tracks.filter ready).map f).filter (idOf · = n + 0) = [] := by
        refine filter_eq_nil_iff.mpr fun part hpart => ?_
        obtain ⟨t', ht', rfl⟩ := mem_map.mp hpart
        obtain ⟨j, hj⟩ := mem_iff_getElem?.mp (mem_of_mem_filter ht')
        have := htail j t' hj
        simp only [hid, decide_eq_true_eq]
        omega
      rw [filter_cons]
      split
      · rw [map_cons, filter_cons, if_pos (by simp [hid, hhead]), hrest]
      · exact hrest
    | succ i =>
      rw [show n + (i + 1) = n + 1 + i by omega, filter_cons]
      have hrest := ih htail ht
      split
      · rw [map_cons, filter_cons, if_neg (by simp [hid]; omega), hrest]
      · exact hrest

/-! ### The samples of a track -/

def keyOf (s : MuxSample) : ℤ × ℤ := (s.dts, s.duration)

lemma Gaps.congr {timescale : ℕ} {ps : List MuxPacket} {ss : List MuxSample} :
    ∀ {ss' : List MuxSample}, ss.map keyOf = ss'.map keyOf → Gaps timescale ps ss →
      Gaps timescale ps ss' := by
  induction ps generalizing ss with
  | nil =>
    intro ss' heq h
    cases ss with
    | nil =>
      obtain rfl := map_eq_nil_iff.mp heq.symm
      exact trivial
    | cons s ss => exact h.elim
  | cons p ps ih =>
    intro ss' heq h
    cases ss with
    | nil => cases ps <;> exact False.elim h
    | cons s ss =>
      obtain ⟨s', rest', rfl, hkey, hrest⟩ := map_eq_cons_iff.mp heq.symm
      obtain ⟨hdts, hduration⟩ := Prod.mk.inj hkey
      cases ps with
      | nil =>
        cases ss with
        | nil =>
          obtain rfl := map_eq_nil_iff.mp hrest
          exact hdts.trans h
        | cons r ss => exact h.elim
      | cons q ps =>
        cases ss with
        | nil => exact h.elim
        | cons r ss =>
          have htail := ih hrest.symm h.2.2
          obtain ⟨r', ss', rfl, _, _⟩ := map_eq_cons_iff.mp hrest
          exact ⟨hdts.trans h.1, hduration.trans h.2.1, htail⟩

structure TrafOf (id : ℕ) (startDTS : ℤ) (group : List MuxSample) (traf : Traf) : Prop where
  ne_nil : group ≠ []
  id : traf.id = id
  base : traf.baseDTS = uint64 (max (int64 ((group.head?.map (·.dts)).getD 0 - startDTS)) 0)
  run : ∃ hasCts, traf.run = group.map (trunSampleOf hasCts)
  sorted : (group.map (·.dts)).IsChain (· ≤ ·)

structure Split (t : MuxTrack) (trafs : List Traf) (groups : List (List MuxSample)) : Prop where
  trafs : List.Forall₂ (TrafOf t.id t.startDTS) groups trafs
  sorted : (t.samples.map (·.dts)).IsChain (· ≤ ·)
  started : groups ≠ [] ∨ t.samples ≠ [] → t.started = true

def Known (t : MuxTrack) (groups : List (List MuxSample)) : Prop :=
  t.samples = [] → ∀ s ∈ groups.flatten.getLast?, 0 ≤ s.duration

section

variable {t t' : MuxTrack} {trafs : List Traf} {groups : List (List MuxSample)} {n : ℕ} {dts : ℤ}

lemma Split.place {place : MuxTrack → MuxTrack} (h : Split t trafs groups) (hplace : Places place) :
    Split (place t) trafs groups := by
  obtain heq | ⟨hstarted, _, heq⟩ := hplace.cases t
  · exact heq.symm ▸ h
  · have hnone : groups = [] := by
      by_contra hne
      rw [h.started (.inl hne)] at hstarted
      cases hstarted
    subst hnone
    rw [forall₂_nil_left_iff.mp h.trafs, heq]
    exact ⟨.nil, h.sorted, h.started⟩

def groupsAfter (t : MuxTrack) (groups : List (List MuxSample)) (n : ℕ) : List (List MuxSample) :=
  if n = 0 then groups else groups ++ [t.samples.take n]

lemma samples_dropFragment (t : MuxTrack) (n : ℕ) : ∃ cut, (t.dropFragment n).samples =
    (t.samples.drop n).map fun s => { s with offset := s.offset - cut } := by
  unfold dropFragment
  split_ifs with hzero
  · exact ⟨0, by simp [hzero]⟩
  · exact ⟨_, rfl⟩

lemma map_keyOf_dropFragment (t : MuxTrack) (n : ℕ) :
    (t.dropFragment n).samples.map keyOf = (t.samples.drop n).map keyOf := by
  obtain ⟨cut, heq⟩ := samples_dropFragment t n
  rw [heq, map_map]
  rfl

lemma map_dts_dropFragment (t : MuxTrack) (n : ℕ) :
    (t.dropFragment n).samples.map (·.dts) = (t.samples.drop n).map (·.dts) := by
  obtain ⟨cut, heq⟩ := samples_dropFragment t n
  rw [heq, map_map]
  rfl

lemma Split.drop (h : Split t trafs groups) (hn : n ≤ t.samples.length) :
    Split (t.dropFragment n) (trafs ++ if n ≠ 0 then [t.writeTraf n] else []) (groupsAfter t groups n) ∧
      ((groupsAfter t groups n).flatten ++ (t.dropFragment n).samples).map keyOf =
        (groups.flatten ++ t.samples).map keyOf := by
  by_cases hzero : n = 0
  · subst hzero
    simpa [groupsAfter, dropFragment_zero] using h
  · have hne : t.samples ≠ [] := by
      rintro heq
      rw [heq] at hn
      exact hzero (Nat.le_zero.mp hn)
    have htake : t.samples.take n ≠ [] := by simp [hzero, hne]
    unfold groupsAfter
    rw [if_neg hzero, if_pos hzero]
    refine ⟨⟨?_, ?_, fun _ => ?_⟩, ?_⟩
    · rw [id_dropFragment, startDTS_dropFragment]
      refine forall₂_concat h.trafs ⟨htake, rfl, rfl, ⟨_, rfl⟩, ?_⟩
      rw [map_take]
      exact h.sorted.take n
    · rw [map_dts_dropFragment, map_drop]
      exact h.sorted.drop n
    · rw [started_dropFragment]
      exact h.started (.inr hne)
    · rw [map_append, map_keyOf_dropFragment]
      simp

lemma readyCount_le (last : Bool) (t : MuxTrack) : t.readyCount last ≤ t.samples.length := by
  unfold readyCount
  split
  · exact Nat.zero_le _
  · split <;> omega

lemma readyCount_last (t : MuxTrack) : t.readyCount true = t.samples.length := by
  unfold readyCount
  split
  · rename_i hnone
    rw [getLast?_eq_none_iff.mp hnone]
    rfl
  · simp

lemma Known.drop (h : Known t groups) :
    Known (t.dropFragment (t.readyCount false)) (groupsAfter t groups (t.readyCount false)) := by
  intro hnil s hs
  have hlength := congrArg List.length (map_keyOf_dropFragment t (t.readyCount false))
  rw [hnil, map_nil, length_nil, length_map, length_drop] at hlength
  have hle := readyCount_le false t
  have hcount : t.readyCount false = t.samples.length := by omega
  unfold groupsAfter at hs
  split at hs
  · rename_i hzero
    refine h ?_ s hs
    exact length_eq_zero_iff.mp (hcount.symm.trans hzero)
  rename_i hpos
  rw [flatten_append, flatten_singleton, hcount, take_length, getLast?_append] at hs
  cases hlast : t.samples.getLast? with
  | none =>
    rw [getLast?_eq_none_iff.mp hlast] at hcount
    exact absurd hcount hpos
  | some x =>
    rw [hlast, Option.some_or, Option.mem_some_iff] at hs
    subst hs
    by_contra hneg
    unfold readyCount at hcount hpos
    simp only [hlast, Bool.not_false, Bool.true_and, decide_eq_true (not_le.mp hneg), if_true] at hcount hpos
    omega

end

/-! ### The invariant -/

/-- The tracks, with what holds of all samples that each of them ever had. -/
structure Recorded (scales : ℕ → ℕ) (P : ℕ → List MuxSample → Prop) (m : FormatMuxer) : Prop where
  seekable : m.seekable = false
  closed : m.closed = false
  id : ∀ i t, m.tracks[i]? = some t → t.id = i + 1
  timescale : ∀ i t, m.tracks[i]? = some t → t.timescale = scales i
  split : ∀ i t, m.tracks[i]? = some t → ∃ groups, Split t (trafsOf m (i + 1)) groups ∧
    Known t groups ∧ P i (groups.flatten ++ t.samples)

def ByKeys (P : List MuxSample → Prop) : Prop :=
  ∀ ss ss', ss.map keyOf = ss'.map keyOf → P ss → P ss'

section

variable {env : Env} {m : FormatMuxer} {scales : ℕ → ℕ} {P : ℕ → List MuxSample → Prop}
  {Q : List MuxSample → Prop} {i : ℕ} {e : Entry}

lemma Recorded.modify {f : MuxTrack → MuxTrack} (h : Recorded scales P m) (hkind : ∀ t, (f t).kind = t.kind)
    (hsplit : ∀ t trafs groups, m.tracks[i]? = some t → Split t trafs groups → Known t groups →
      P i (groups.flatten ++ t.samples) → Split (f t) trafs groups ∧ Known (f t) groups ∧
        Q (groups.flatten ++ (f t).samples)) :
    Recorded scales (update P i Q) (m.modifyTrack i f) where
  seekable := h.seekable
  closed := h.closed
  id := forall_kind (P := fun j kind => kind.id = j + 1) (map_modifyTrack hkind i) h.id
  timescale :=
    forall_kind (P := fun j kind => kind.timescale = scales j) (map_modifyTrack hkind i) h.timescale
  split := by
    intro j t ht
    rw [modifyTrack, getElem?_modify] at ht
    obtain ⟨t, ht', rfl⟩ := Option.map_eq_some_iff.mp ht
    obtain ⟨groups, hgroups, hknown, hP⟩ := h.split j t ht'
    split_ifs with hij
    · subst hij
      rw [update_self]
      exact ⟨groups, hsplit t _ groups ht' hgroups hknown hP⟩
    · rw [update_of_ne (Ne.symm hij)]
      exact ⟨groups, hgroups, hknown, hP⟩

lemma Recorded.learn (h : Recorded scales P m) (i : ℕ) (payload : Bytes) :
    Recorded scales P (m.modifyTrack i (·.learn env payload)) := by
  have hlearn := h.modify (i := i) (Q := P i) (f := (·.learn env payload)) (fun _ => rfl)
    fun t trafs groups _ hgroups hknown hP =>
      ⟨⟨hgroups.trafs, hgroups.sorted, hgroups.started⟩, hknown, hP⟩
  rwa [update_eq_self] at hlearn

lemma closeSamples_eq_nil {samples : List MuxSample} {dts : ℤ} :
    closeSamples samples dts = [] ↔ samples = [] := by
  rw [← map_eq_nil_iff (f := (·.dts)), map_closeSamples (fun _ _ => rfl), map_eq_nil_iff]

lemma Recorded.closeLast (h : Recorded scales P m) {dts : ℤ}
    (hQ : ∀ ss, P i ss → Q (closeSamples ss dts)) :
    Recorded scales (update P i Q) (m.modifyTrack i (·.closeLast dts)) := by
  refine h.modify (fun _ => rfl) fun t trafs groups _ hgroups hknown hP => ?_
  refine ⟨⟨hgroups.trafs, ?_, fun hne => hgroups.started ?_⟩, fun hnil => ?_, ?_⟩
  · rw [MuxTrack.closeLast, map_closeSamples (fun _ _ => rfl)]
    exact hgroups.sorted
  · exact hne.imp_right fun hne heq => hne (closeSamples_eq_nil.mpr heq)
  · exact hknown (closeSamples_eq_nil.mp hnil)
  · show Q (groups.flatten ++ closeSamples t.samples dts)
    by_cases hnil : t.samples = []
    · have hsame := hQ _ hP
      rw [hnil, append_nil] at hsame
      rw [closeSamples_of_known (hknown hnil)] at hsame
      rw [hnil]
      exact (append_nil _).symm ▸ hsame
    · rw [← closeSamples_append _ hnil]
      exact hQ _ hP

lemma trafsOf_flush {last : Bool} {place : MuxTrack → MuxTrack} {t : MuxTrack} (hplace : Places place)
    (hids : ∀ i t, m.tracks[i]? = some t → t.id = i + 1)
    (hfragments : (m.flushFragment env last).fragments.flatten = m.fragments.flatten ++
      (m.tracks.filter fun t => t.readyCount last ≠ 0).map (fun t =>
        ((place t).writeTraf (t.readyCount last), t.data.take (t.fragmentBytes (t.readyCount last)))))
    (ht : m.tracks[i]? = some t) :
    trafsOf (m.flushFragment env last) (i + 1) = trafsOf m (i + 1) ++
      if t.readyCount last ≠ 0 then [(place t).writeTraf (t.readyCount last)] else [] := by
  have hparts := filter_parts (f := fun t => (place t).writeTraf (t.readyCount last)) Traf.id
    (fun t => t.readyCount last ≠ 0) (n := 1) (fun t => hplace.id t)
    (fun j t ht => by rw [hids j t ht, Nat.add_comm]) ht
  unfold trafsOf
  rw [hfragments, map_append, map_map, filter_append, Nat.add_comm i 1]
  refine congrArg _ (hparts.trans ?_)
  simp

lemma Recorded.flush (h : Recorded scales P m) (hP : ∀ i, ByKeys (P i))
    (herr : (m.flushFragment env false).err = none) :
    Recorded scales P (m.flushFragment env false) := by
  obtain ⟨place, hplace, htracks, hfragments, hseekable⟩ := flushFragment_spec herr
  constructor
  case seekable => exact hseekable.trans h.seekable
  case closed => exact (congrArg Prod.snd (mode_flushFragment false)).trans h.closed
  case id => exact forall_kind (P := fun j kind => kind.id = j + 1) (kinds_flush herr) h.id
  case timescale =>
    exact forall_kind (P := fun j kind => kind.timescale = scales j) (kinds_flush herr) h.timescale
  case split =>
    intro i t ht
    rw [htracks, getElem?_map] at ht
    obtain ⟨t, ht', rfl⟩ := Option.map_eq_some_iff.mp ht
    obtain ⟨groups, hgroups, hknown, hholds⟩ := h.split i t ht'
    have hready : (place t).readyCount false = t.readyCount false := by
      unfold readyCount
      rw [hplace.samples]
    have hknown' : Known (place t) groups := fun hnil => hknown (hplace.samples t ▸ hnil)
    obtain ⟨hsplit, hkeys⟩ := (hgroups.place hplace).drop (readyCount_le false (place t))
    rw [hready] at hsplit hkeys
    refine ⟨_, trafsOf_flush hplace h.id hfragments ht' ▸ hsplit, ?_, hP i _ _ hkeys.symm ?_⟩
    · have hdrop := hknown'.drop
      rwa [hready] at hdrop
    · rwa [hplace.samples]

def LastLe (m : FormatMuxer) (i : ℕ) (dts : ℤ) : Prop :=
  ∀ t, m.tracks[i]? = some t → ∀ d ∈ (t.samples.map (·.dts)).getLast?, d ≤ dts

lemma LastLe.flush {last : Bool} {dts : ℤ} (h : LastLe m i dts)
    (herr : (m.flushFragment env last).err = none) : LastLe (m.flushFragment env last) i dts := by
  obtain ⟨place, hplace, htracks, -, -⟩ := flushFragment_spec herr
  intro t ht d hd
  rw [htracks, getElem?_map] at ht
  obtain ⟨t, ht', rfl⟩ := Option.map_eq_some_iff.mp ht
  rw [map_dts_dropFragment, hplace.samples, map_drop, getLast?_drop] at hd
  split at hd
  · cases hd
  · exact h t ht' d hd

lemma Recorded.append (h : Recorded scales P m) (hle : LastLe m i e.dts)
    (hQ : ∀ ss x, P i ss → x.dts = e.dts → x.duration = e.duration → Q (ss ++ [x])) :
    Recorded scales (update P i Q) (m.append i e) := by
  unfold FormatMuxer.append
  rw [if_neg (by simp [h.seekable])]
  refine h.modify (fun _ => rfl) fun t trafs groups ht hgroups hknown hP => ?_
  refine ⟨⟨?_, ?_, fun _ => rfl⟩, fun hnil => ?_, ?_⟩
  · show List.Forall₂ (TrafOf t.id (if !t.started && !t.based then e.dts else t.startDTS)) groups trafs
    cases hgroupsNil : groups with
    | nil =>
      have hnone : trafs = [] := forall₂_nil_left_iff.mp (hgroupsNil ▸ hgroups.trafs)
      exact hnone ▸ .nil
    | cons group rest =>
      rw [hgroups.started (.inl (by simp [hgroupsNil])), ← hgroupsNil]
      exact hgroups.trafs
  · show ((t.samples ++ [newSample e t.data.length]).map (·.dts)).IsChain (· ≤ ·)
    rw [map_append]
    refine hgroups.sorted.append (.singleton _) fun d hd d' hd' => ?_
    obtain rfl : e.dts = d' := Option.some.inj hd'
    exact hle t ht d hd
  · exact absurd hnil (by simp [MuxTrack.add])
  · show Q (groups.flatten ++ (t.samples ++ [newSample e t.data.length]))
    rw [← append_assoc]
    exact hQ _ _ hP rfl rfl

end

/-! ### Runs -/

def SamplesOf (timescale : ℕ) (packets : List MuxPacket) (samples : List MuxSample) : Prop :=
  Gaps timescale packets samples ∧
    ∀ p ∈ packets.getLast?, ∀ s ∈ samples.getLast?, s.duration = durationOf timescale p

lemma byKeys_samplesOf (timescale : ℕ) (packets : List MuxPacket) :
    ByKeys (SamplesOf timescale packets) := by
  intro ss ss' heq h
  refine ⟨h.1.congr heq, fun p hp s' hs' => ?_⟩
  have hkey : keyOf s' ∈ (ss.map keyOf).getLast? := by
    rw [heq, getLast?_map, Option.mem_def.mp hs']
    rfl
  rw [getLast?_map] at hkey
  obtain ⟨s, hs, hkey⟩ := Option.map_eq_some_iff.mp hkey
  rw [← h.2 p hp s hs]
  exact (Prod.mk.inj hkey).2.symm

abbrev Fragmented (scales : ℕ → ℕ) (m : FormatMuxer) (accepted : List (ℕ × MuxPacket)) : Prop :=
  Recorded scales (fun i => SamplesOf (scales i) (packetsOf accepted i)) m

section

variable {env : Env} {m : FormatMuxer} {scales : ℕ → ℕ} {accepted : List (ℕ × MuxPacket)}

lemma Fragmented.put {p : MuxPacket} {i : ℕ} {t : MuxTrack} {dts pts : ℤ} {data : Bytes}
    (h : Fragmented scales m accepted) (htakes : Takes env m p i t dts pts data)
    (herr : ((m.modifyTrack i (·.learn env p.payload)).put env i (entryOf t p dts pts data)).err =
      none) :
    Fragmented scales ((m.modifyTrack i (·.learn env p.payload)).put env i (entryOf t p dts pts data))
      (accepted ++ [(i, p)]) := by
  have hscale : t.timescale = scales i := h.timescale i t htakes.track
  obtain ⟨hticks, hlast⟩ := Option.filter_eq_some_iff.mp htakes.times
  have hdts : dtsOf (scales i) p = dts := by simp [dtsOf, ← hscale, hticks]
  -- between the two samples of a gap, a fragment may be cut
  let Q : List MuxSample → Prop := fun ss => ∀ x : MuxSample, x.dts = dts →
    Gaps (scales i) (packetsOf accepted i ++ [p]) (ss ++ [x])
  have hQ : ByKeys Q := by
    intro ss ss' heq hgaps x hx
    exact (hgaps x hx).congr (by rw [map_append, map_append, heq])
  have hclosed : Recorded scales (update (fun i => SamplesOf (scales i) (packetsOf accepted i)) i Q)
      ((m.modifyTrack i (·.learn env p.payload)).modifyTrack i (·.closeLast dts)) := by
    refine (h.learn i p.payload).closeLast fun ss hss x hx => ?_
    have hgaps := Gaps.concat (hx.trans hdts.symm) hss.1 hss.2
    rwa [hdts] at hgaps
  have hle : LastLe ((m.modifyTrack i (·.learn env p.payload)).modifyTrack i (·.closeLast dts)) i
      dts := by
    intro t' ht' d hd
    simp only [modifyTrack, getElem?_modify, htakes.track] at ht'
    cases ht'
    change d ∈ ((closeSamples t.samples dts).map (·.dts)).getLast? at hd
    rw [map_closeSamples (fun _ _ => rfl), getLast?_map] at hd
    obtain ⟨s, hs, rfl⟩ := Option.map_eq_some_iff.mp hd
    rw [hs] at hlast
    simpa using hlast
  have hbyKeys : ∀ j, ByKeys (update (fun i => SamplesOf (scales i) (packetsOf accepted i)) i Q j) := by
    intro j
    by_cases hij : j = i
    · subst hij
      rwa [update_self]
    · rw [update_of_ne hij]
      exact byKeys_samplesOf _ _
  obtain ⟨m', hcases, hcutErr, hput⟩ := put_eq herr
  obtain ⟨hcut, hcutLe⟩ : Recorded scales
      (update (fun i => SamplesOf (scales i) (packetsOf accepted i)) i Q) m' ∧
        LastLe m' i dts := by
    obtain rfl | ⟨-, rfl⟩ := hcases
    · exact ⟨hclosed, hle⟩
    · exact ⟨hclosed.flush hbyKeys hcutErr, hle.flush hcutErr⟩
  rw [hput]
  have happend := hcut.append (Q := SamplesOf (scales i) (packetsOf accepted i ++ [p]))
    (e := entryOf t p dts pts data) hcutLe fun ss x hss hxdts hxduration => by
      rw [update_self] at hss
      refine ⟨hss x hxdts, fun p' hp' s hs => ?_⟩
      rw [getLast?_concat, Option.mem_some_iff] at hp' hs
      rw [← hp', ← hs, hxduration, ← hscale]
      rfl
  have heq : update (update (fun i => SamplesOf (scales i) (packetsOf accepted i)) i Q) i
        (SamplesOf (scales i) (packetsOf accepted i ++ [p])) =
      fun j => SamplesOf (scales j) (packetsOf (accepted ++ [(i, p)]) j) := by
    rw [update_idem, packetsOf_concat]
    funext j
    exact (apply_update (fun j => SamplesOf (scales j)) _ i _ j).symm
  rw [heq] at happend
  exact happend

end

section

variable {env : Env} {seekable : Bool} {file : Bytes} {offset : ℕ} {capacity : Fin (2 ^ 63)}
  {fragment : ℤ} {streams : List MuxStream} {m₀ m : FormatMuxer}
  {calls : List (Option Err × Option MuxPacket)}

lemma fragmented_open
    (hopen : FormatMuxer.openOutput env seekable file offset capacity fragment streams = .ok m₀)
    (hmode : m₀.seekable = false) : ∃ scales, Fragmented scales m₀ [] := by
  obtain ⟨tracks, htracks, hopen⟩ := bind_eq_ok.mp hopen
  obtain ⟨-, hfresh⟩ := newMuxTracks_fresh htracks
  dsimp only at hopen
  split at hopen
  · rename_i hseekable
    split at hopen
    · cases hopen
    · cases hopen
      exact absurd (hseekable.symm.trans hmode) (by decide)
  · cases hopen
    refine ⟨fun i => (tracks[i]?.map (·.timescale)).getD 0, hmode, rfl, fun i t ht => ?_,
      fun i t ht => ?_, fun i t ht => ?_⟩
    · rw [(hfresh i t ht).id, Nat.add_comm]
    · simp [ht]
    · obtain ⟨-, hsamples, -, -, -⟩ := hfresh i t ht
      refine ⟨[], ⟨.nil, by simp [hsamples], by simp [hsamples]⟩, by simp [Known], ?_,
        by simp [packetsOf]⟩
      rw [hsamples]
      exact trivial

theorem fragmented_writeAll (env : Env) {scales : ℕ → ℕ} (hopen : Fragmented scales m₀ [])
    (calls : List (Option Err × Option MuxPacket)) :
    (MuxRun.writeAll env m₀ calls).muxer.err = none →
      Fragmented scales (MuxRun.writeAll env m₀ calls).muxer (MuxRun.writeAll env m₀ calls).accepted := by
  refine MuxRun.invariant (I := Fragmented scales) ?_ ?_ hopen calls
  · exact fun m accepted i payload h => h.learn i payload
  · exact fun m accepted p i t dts pts data h htakes herr => h.put htakes herr

/-! ### The end -/

structure FragmentsOk (m : FormatMuxer) (t : MuxTrack) (packets : List MuxPacket)
    (groups : List (List MuxSample)) : Prop where
  trafs : List.Forall₂ (TrafOf t.id t.startDTS) groups (trafsOf m t.id)
  gaps : Gaps t.timescale packets groups.flatten

lemma fragmentsOk_flush {packets : ℕ → List MuxPacket} (herr : (m.flushFragment env true).err = none)
    (hids : ∀ i t, m.tracks[i]? = some t → t.id = i + 1)
    (hsplit : ∀ i t, m.tracks[i]? = some t → ∃ groups, Split t (trafsOf m (i + 1)) groups ∧
      Gaps t.timescale (packets i) (groups.flatten ++ t.samples)) :
    ∀ i t, (m.flushFragment env true).tracks[i]? = some t → ∃ groups,
      FragmentsOk (m.flushFragment env true) t (packets i) groups := by
  obtain ⟨place, hplace, htracks, hfragments, -⟩ := flushFragment_spec herr
  intro i t ht
  rw [htracks, getElem?_map] at ht
  obtain ⟨t, ht', rfl⟩ := Option.map_eq_some_iff.mp ht
  obtain ⟨groups, hgroups, hgaps⟩ := hsplit i t ht'
  have hcount := readyCount_last t
  obtain ⟨hsplit', hkeys⟩ := (hgroups.place hplace).drop (n := t.readyCount true)
    (by rw [hplace.samples, hcount])
  have hnil : ((place t).dropFragment (t.readyCount true)).samples = [] := by
    obtain ⟨cut, heq⟩ := samples_dropFragment (place t) (t.readyCount true)
    rw [heq, hplace.samples, hcount, drop_length]
    rfl
  rw [hnil, append_nil, hplace.samples] at hkeys
  refine ⟨groupsAfter (place t) groups (t.readyCount true), ?_, ?_⟩
  · have htrafs := hsplit'.trafs
    rw [← trafsOf_flush hplace hids hfragments ht'] at htrafs
    rw [id_dropFragment, hplace.id, hids i t ht'] at htrafs ⊢
    exact htrafs
  · rw [timescale_dropFragment, hplace.timescale]
    exact hgaps.congr hkeys.symm

theorem fragmentsOk_close
    (hopen : FormatMuxer.openOutput env seekable file offset capacity fragment streams = .ok m₀)
    (hmode : m₀.seekable = false)
    (hclose : (MuxRun.writeAll env m₀ calls).muxer.close env = (m, none)) :
    ∀ i t, m.tracks[i]? = some t → ∃ groups,
      FragmentsOk m t (packetsOf (MuxRun.writeAll env m₀ calls).accepted i) groups := by
  obtain ⟨scales, hinit⟩ := fragmented_open hopen hmode
  have hruns := fragmented_writeAll env hinit calls
  have hclosed : (MuxRun.writeAll env m₀ calls).muxer.closed = false :=
    (closed_writeAll m₀ calls).trans hinit.closed
  unfold close at hclose
  rw [hclosed] at hclose
  simp only [Bool.false_eq_true, if_false] at hclose
  split at hclose
  · cases hclose
  rename_i herr
  have hok := hruns herr
  simp only [hok.seekable] at hclose
  obtain ⟨rfl, herr'⟩ := Prod.mk.inj hclose
  refine fragmentsOk_flush herr' (fun i t ht => ?_) fun i t ht => ?_
  all_goals
    rw [getElem?_map] at ht
    obtain ⟨t, ht', rfl⟩ := Option.map_eq_some_iff.mp ht
  · exact hok.id i t ht'
  · obtain ⟨groups, hgroups, -, hgaps, -⟩ := hok.split i t ht'
    refine ⟨groups, ⟨hgroups.trafs, ?_, fun hne => hgroups.started ?_⟩, ?_⟩
    · rw [finish, map_finishSamples (fun _ _ => rfl)]
      exact hgroups.sorted
    · refine hne.imp_right fun hne heq => hne ?_
      rw [finish, heq]
      rfl
    · rw [← hok.timescale i t ht'] at hgaps
      exact hgaps.finish groups.flatten

end

end Goav.Mp4
