import Goav.Mp4.Fragments
import Goav.Mp4.RoundTrip
import Mathlib.Data.List.SplitLengths

/-!
The decode times read from a file are sums of durations. They keep the distances of the packets just if
the durations that were written are those distances.
-/

namespace Goav.Mp4

open Goav.Av Goav.Lib MuxTrack List

/-- The decode times that are read of a track, before edit lists; none, if the file is refused. -/
def FormatMuxer.demuxedDTS (m : FormatMuxer) (budget : SampleBudget) (i : ℕ) (t : MuxTrack) : List ℤ :=
  let samples : Except Err (List Sample) :=
    if m.seekable then
      match m.tables[i]? with
      | some stbl => (parseStbl budget stbl).1.build
      | none => .error .invalidData
    else parseTrafs budget t.id (m.fragments.flatten.map Prod.fst)
  (samples.toOption.getD []).map (·.dts)

/-- The times differ by a constant. -/
def SameDistances (times written : List ℤ) : Prop :=
  times.map (· - times.headD 0) = written.map (· - written.headD 0)

instance (times written : List ℤ) : Decidable (SameDistances times written) :=
  inferInstanceAs (Decidable (_ = _))

lemma sameDistances_iff {times written : List ℤ} :
    SameDistances times written ↔ times = written.map (· - (written.headD 0 - times.headD 0)) := by
  unfold SameDistances
  constructor
  · intro h
    have hback := congrArg (map (· + times.headD 0)) h
    simp only [map_map, Function.comp_def, Int.sub_add_cancel, map_id'] at hback
    rw [hback]
    refine map_congr_left fun w _ => ?_
    rw [← hback]
    omega
  · intro h
    rw [h, map_map]
    refine map_congr_left fun w _ => ?_
    simp only [Function.comp_apply]
    rw [← h]
    omega

/-! ### Sums of durations -/

def GapKept (timescale : ℕ) (p q : MuxPacket) : Prop :=
  (uint32 (durationTo timescale p q) : ℤ) = dtsOf timescale q - dtsOf timescale p

def StepKept (s r : MuxSample) : Prop := (uint32 s.duration : ℤ) = r.dts - s.dts

section

variable {c : ℤ}

lemma decodeTimes_eq_iff {samples : List MuxSample} : ∀ {b : ℤ},
    decodeTimes b (samples.map fun s => uint32 s.duration) = samples.map (·.dts - c) ↔
      (∀ s ∈ samples.head?, b = s.dts - c) ∧ samples.IsChain StepKept := by
  induction samples with
  | nil => simp [decodeTimes]
  | cons s samples ih =>
    intro b
    rw [map_cons, map_cons, decodeTimes, cons.injEq, ih, isChain_cons]
    simp only [head?_cons, Option.mem_some_iff, forall_eq']
    constructor
    · rintro ⟨hb, hhead, hchain⟩
      refine ⟨hb, fun r hr => ?_, hchain⟩
      have := hhead r hr
      unfold StepKept
      omega
    · rintro ⟨hb, hhead, hchain⟩
      refine ⟨hb, fun r hr => ?_, hchain⟩
      have := hhead r hr
      unfold StepKept at this
      omega

def wrapTimes (dts : ℤ) : List ℕ → List ℤ
  | [] => []
  | delta :: deltas => dts :: wrapTimes (int64 (dts + delta)) deltas

lemma map_dts_trunSamples (run : List TrunSample) : ∀ dts : ℤ,
    (trunSamples dts run).map (·.dts) = wrapTimes dts (run.map (·.duration)) := by
  induction run with
  | nil => exact fun dts => rfl
  | cons s run ih =>
    intro dts
    rw [trunSamples, map_cons, ih]
    rfl

lemma map_dts_parseTrun (flags : ℕ) (dts : ℤ) (run : List TrunSample) :
    (parseTrun flags dts run).map (·.dts) = wrapTimes dts (run.map (·.duration)) := by
  cases run with
  | nil => rfl
  | cons s run =>
    rw [parseTrun, map_cons, map_dts_trunSamples]
    rfl

lemma length_wrapTimes (dts : ℤ) (deltas : List ℕ) : (wrapTimes dts deltas).length = deltas.length := by
  induction deltas generalizing dts with
  | nil => rfl
  | cons delta deltas ih => rw [wrapTimes, length_cons, ih, length_cons]

lemma int64_add_eq_iff {b y : ℤ} {d : ℕ} (hb : 0 ≤ b) (hb' : b < 2 ^ 63) (hd : d < 2 ^ 32)
    (hy : b ≤ y) : int64 (b + d) = y ↔ (d : ℤ) = y - b ∧ y < 2 ^ 63 := by
  unfold int64
  rw [Int.bmod_def]
  split <;> omega

lemma uint32_lt (x : ℤ) : uint32 x < 2 ^ 32 := by
  unfold uint32
  omega

lemma wrapTimes_eq_iff {samples : List MuxSample} : ∀ {b : ℤ},
    0 ≤ b → b < 2 ^ 63 → (samples.map (·.dts)).IsChain (· ≤ ·) →
    (wrapTimes b (samples.map fun s => uint32 s.duration) = samples.map (·.dts - c) ↔
      (∀ s ∈ samples.head?, b = s.dts - c) ∧ samples.IsChain StepKept ∧
        ∀ s ∈ samples, s.dts - c < 2 ^ 63) := by
  induction samples with
  | nil => simp [wrapTimes]
  | cons s samples ih =>
    intro b hb hb' hsorted
    rw [map_cons, isChain_cons] at hsorted
    obtain ⟨hle, hsorted⟩ := hsorted
    have hduration := uint32_lt s.duration
    rw [map_cons, map_cons, wrapTimes, cons.injEq, isChain_cons]
    simp only [forall_mem_cons]
    cases samples with
    | nil => simp [wrapTimes]; omega
    | cons r samples =>
      have hr : s.dts ≤ r.dts := hle r.dts rfl
      simp only [head?_cons, Option.mem_some_iff, forall_eq'] at ih ⊢
      refine and_congr_right fun hbs => ?_
      have hstep := int64_add_eq_iff (y := r.dts - c) hb hb' hduration (by omega)
      by_cases hfits : b + (uint32 s.duration : ℤ) < 2 ^ 63
      · have hsum : int64 (b + uint32 s.duration) = b + uint32 s.duration :=
          int64_eq (by omega) hfits
        rw [hsum] at hstep ⊢
        rw [ih (by omega) hfits hsorted]
        unfold StepKept
        constructor
        · rintro ⟨hhead, hchain, hrange⟩
          exact ⟨⟨by omega, hchain⟩, by omega, hrange⟩
        · rintro ⟨⟨hkept, hchain⟩, -, hrange⟩
          exact ⟨by omega, hchain, hrange⟩
      · -- the sum wraps, and no time is that early
        have hne : int64 (b + uint32 s.duration) ≠ r.dts - c := by
          omega
        constructor
        · intro heq
          exact absurd (cons.inj heq).1 hne
        · rintro ⟨⟨hkept, -⟩, -, hrange⟩
          unfold StepKept at hkept
          have := hrange r mem_cons_self
          omega

end

/-! ### Samples and packets -/

section

variable {timescale : ℕ}

lemma Gaps.isChain_iff : ∀ {ps : List MuxPacket} {ss : List MuxSample}, Gaps timescale ps ss →
    (ss.IsChain StepKept ↔ ps.IsChain (GapKept timescale)) := by
  intro ps
  induction ps with
  | nil =>
    intro ss h
    cases ss with
    | nil => simp
    | cons s ss => exact h.elim
  | cons p ps ih =>
    intro ss h
    cases ps with
    | nil =>
      match ss, h with
      | [s], h => simp
    | cons q ps =>
      match ss, h with
      | s :: r :: ss, ⟨hdts, hduration, h⟩ =>
        have hr : r.dts = dtsOf timescale q := by
          have hmap := h.map_dts
          exact (cons.inj hmap).1
        rw [isChain_cons_cons, isChain_cons_cons, ih h]
        unfold StepKept GapKept
        rw [hdts, hduration, hr]

lemma Gaps.append : ∀ {ss ss' : List MuxSample} {ps : List MuxPacket}, Gaps timescale ps (ss ++ ss') →
      Gaps timescale (ps.take ss.length) ss ∧ Gaps timescale (ps.drop ss.length) ss' := by
  intro ss
  induction ss with
  | nil => exact fun h => ⟨trivial, h⟩
  | cons s ss ih =>
    intro ss' ps h
    cases ps with
    | nil => exact h.elim
    | cons p ps =>
      cases ps with
      | nil =>
        cases hrest : ss ++ ss' with
        | nil =>
          obtain ⟨rfl, rfl⟩ := append_eq_nil_iff.mp hrest
          exact ⟨h, trivial⟩
        | cons r rest =>
          rw [cons_append, hrest] at h
          exact h.elim
      | cons q ps =>
        cases hrest : ss ++ ss' with
        | nil =>
          rw [cons_append, hrest] at h
          exact h.elim
        | cons r rest =>
          rw [cons_append, hrest] at h
          obtain ⟨hdts, hduration, h⟩ := h
          rw [← hrest] at h
          obtain ⟨hleft, hright⟩ := ih h
          refine ⟨?_, hright⟩
          cases ss with
          | nil => exact hdts
          | cons r' ss => exact ⟨hdts, hduration, hleft⟩

lemma Gaps.groups : ∀ {groups : List (List MuxSample)} {ps : List MuxPacket},
    Gaps timescale ps groups.flatten →
      List.Forall₂ (Gaps timescale) ((groups.map length).splitLengths ps) groups := by
  intro groups
  induction groups with
  | nil => exact fun _ => .nil
  | cons group groups ih =>
    intro ps h
    obtain ⟨hgroup, hrest⟩ := h.append
    rw [map_cons, splitLengths_cons]
    exact .cons hgroup (ih hrest)

end

/-! ### Progressive files -/

/-- A progressive file keeps the distances: each is the duration written. -/
structure ProgressiveKept (budget : SampleBudget) (t : MuxTrack) (packets : List MuxPacket) : Prop where
  granted : (budget.claim t.samples.length (writeStsz t.samples).uniform).isSome
  sized : ∃ s ∈ t.samples, s.size ≠ 0
  gaps : packets.IsChain (GapKept t.timescale)

lemma map_dts_readBack (allSync : Bool) : ∀ {samples : List MuxSample} {dts : List ℤ},
    dts.length = samples.length → (readBack allSync samples dts).map (·.dts) = dts
  | [], [], _ => rfl
  | _ :: _, d :: _, hlength =>
    congrArg (d :: ·) (map_dts_readBack allSync (Nat.succ.inj hlength))

section

variable {env : Env} {file : Bytes} {offset : ℕ} {capacity : Fin (2 ^ 63)} {streams : List MuxStream}
  {m₀ m : FormatMuxer} {calls : List (Option Err × Option MuxPacket)} {i : ℕ} {t : MuxTrack}
  {budget : SampleBudget}

lemma FinishedOk.sameDistances_iff {packets : List MuxPacket} (h : FinishedOk env m t packets)
    (hne : packets ≠ []) :
    SameDistances ((((parseStbl budget t.writeStbl).1.build).toOption.getD []).map (·.dts))
      (packets.map (dtsOf t.timescale)) ↔ ProgressiveKept budget t packets := by
  have hdts := h.gaps.map_dts
  have hsamples : t.samples ≠ [] := by
    rintro heq
    rw [heq, map_nil, eq_comm, map_eq_nil_iff] at hdts
    exact hne hdts
  rw [← hdts]
  by_cases hread : (∃ s ∈ t.samples, s.size ≠ 0) ∧
      (budget.claim t.samples.length (writeStsz t.samples).uniform).isSome
  · rw [build_writeStbl h.chunked h.inOrder hread.1 hread.2, Except.toOption, Option.getD_some,
      map_dts_readBack _ (by simp), Mp4.sameDistances_iff, map_map]
    refine (decodeTimes_eq_iff (c := _)).trans ?_
    rw [h.gaps.isChain_iff]
    obtain ⟨s, rest, hcons⟩ := exists_cons_of_ne_nil hsamples
    constructor
    · rintro ⟨-, hchain⟩
      exact ⟨hread.2, hread.1, hchain⟩
    · rintro ⟨-, -, hchain⟩
      refine ⟨?_, hchain⟩
      rw [hcons]
      simp [decodeTimes]
  · have hsizes : (parseStbl budget t.writeStbl).1.sizes = [] := by
      refine parseStsz_writeStsz_eq_nil ?_
      by_contra hcontra
      push Not at hcontra
      exact hread ⟨hcontra.1, hcontra.2⟩
    rw [build_of_sizes_eq_nil hsizes]
    refine iff_of_false (fun hsame => hsamples ?_) fun hkept => hread ⟨hkept.sized, hkept.granted⟩
    have hnil := (map_eq_nil_iff.mp hsame.symm)
    exact map_eq_nil_iff.mp hnil

end

/-! ### Fragmented files -/

def mediaTime (t : MuxTrack) (p : MuxPacket) : ℤ :=
  max (int64 (dtsOf t.timescale p - t.startDTS)) 0

def packetGroups (m : FormatMuxer) (t : MuxTrack) (packets : List MuxPacket) : List (List MuxPacket) :=
  ((trafsOf m t.id).map (·.run.length)).splitLengths packets

/-- A fragmented file keeps the distances, also at the start of each fragment, in 64 bits. -/
structure FragmentsKept (budget : SampleBudget) (m : FormatMuxer) (t : MuxTrack)
    (packets : List MuxPacket) : Prop where
  runs : ∀ traf ∈ m.fragments.flatten.map Prod.fst, traf.run.length ≤ maxSamples
  total : ((m.fragments.flatten.map Prod.fst).map (·.run.length)).sum ≤ budget.left
  gaps : ∀ group ∈ packetGroups m t packets, group.IsChain (GapKept t.timescale)
  starts : ∀ first ∈ packets.head?, ∀ group ∈ packetGroups m t packets, ∀ p ∈ group.head?,
    mediaTime t p - mediaTime t first = dtsOf t.timescale p - dtsOf t.timescale first
  range : ∀ first ∈ packets.head?, ∀ p ∈ packets,
    mediaTime t first + (dtsOf t.timescale p - dtsOf t.timescale first) < 2 ^ 63

lemma parseTrafs_eq (id : ℕ) (trafs : List Traf) : ∀ budget : SampleBudget, parseTrafs budget id trafs =
      if (∀ traf ∈ trafs, traf.run.length ≤ maxSamples) ∧
          (trafs.map (·.run.length)).sum ≤ budget.left then
        .ok ((trafs.filter (·.id = id)).flatMap fun traf =>
          parseTrun defaultSampleFlags (int64 traf.baseDTS) traf.run)
      else .error .invalidData := by
  induction trafs with
  | nil => simp [parseTrafs]
  | cons traf trafs ih =>
    intro budget
    rw [parseTrafs]
    simp only [forall_mem_cons, map_cons, sum_cons]
    split
    · rename_i hlong
      rw [if_neg (fun h => absurd h.1.1 (Nat.not_le.mpr hlong))]
    split
    · rename_i hclaim
      refine (if_neg fun h => ?_).symm
      have hsome : (budget.claim traf.run.length 0).isSome :=
        claim_isSome_iff.mpr ⟨by omega, h.1.1, by simp⟩
      rw [hclaim] at hsome
      cases hsome
    · rename_i budget' hclaim
      have hsome : (budget.claim traf.run.length 0).isSome := by rw [hclaim]; rfl
      obtain ⟨hleft, hmax, -⟩ := claim_isSome_iff.mp hsome
      have hbudget : budget'.left = budget.left - traf.run.length := by
        unfold SampleBudget.claim at hclaim
        rw [if_neg (by omega)] at hclaim
        rw [← Option.some.inj hclaim]
      rw [ih, hbudget]
      by_cases hrest : (∀ traf ∈ trafs, traf.run.length ≤ maxSamples) ∧
          (trafs.map (·.run.length)).sum ≤ budget.left - traf.run.length
      · rw [if_pos hrest, if_pos ⟨⟨hmax, hrest.1⟩, by omega⟩]
        by_cases hid : traf.id = id <;> simp [hid, Except.map]
      · rw [if_neg hrest, if_neg (fun h => hrest ⟨h.1.2, by omega⟩)]
        rfl

lemma flatMap_eq_flatMap_iff {α β γ : Type*} {f : α → List γ} {g : β → List γ} {l : List α}
    {l' : List β} (h : List.Forall₂ (fun a b => (f a).length = (g b).length) l l') :
    l.flatMap f = l'.flatMap g ↔ List.Forall₂ (fun a b => f a = g b) l l' := by
  induction h with
  | nil => simp
  | cons hlength _ ih =>
    rw [flatMap_cons, flatMap_cons, forall₂_cons, ← ih]
    exact ⟨fun heq => append_inj heq hlength, fun ⟨hhead, htail⟩ => by rw [hhead, htail]⟩

lemma forall₂_iff_forall {α β γ : Type*} {A : α → β → Prop} {B C : β → γ → Prop} {P : α → Prop}
    (hiff : ∀ a b c, A a b → B b c → (C b c ↔ P a)) :
    ∀ {l : List α} {l' : List β} {l'' : List γ}, List.Forall₂ A l l' → List.Forall₂ B l' l'' →
      (List.Forall₂ C l' l'' ↔ ∀ a ∈ l, P a)
  | _, _, _, .nil, .nil => by simp
  | _, _, _, .cons hA hAs, .cons hB hBs => by
    rw [forall₂_cons, forall_mem_cons, hiff _ _ _ hA hB, forall₂_iff_forall hiff hAs hBs]

section

variable {m : FormatMuxer} {t : MuxTrack} {packets : List MuxPacket} {groups : List (List MuxSample)}
  {budget : SampleBudget}

lemma int64_uint64 {x : ℤ} (h : 0 ≤ x) (h' : x < 2 ^ 63) : int64 (uint64 x) = x := by
  have huint : (uint64 x : ℤ) = x := by
    unfold uint64
    omega
  rw [huint, int64_eq (by omega) h']

lemma int64_lt (x : ℤ) : int64 x < 2 ^ 63 := by
  unfold int64
  rw [Int.bmod_def]
  split <;> omega

lemma mediaTime_nonneg (t : MuxTrack) (p : MuxPacket) : 0 ≤ mediaTime t p := le_max_right _ _

lemma mediaTime_lt (t : MuxTrack) (p : MuxPacket) : mediaTime t p < 2 ^ 63 :=
  max_lt (int64_lt _) (by decide)

lemma TrafOf.int64_base {group : List MuxSample} {ps : List MuxPacket} {traf : Traf} {p : MuxPacket}
    (h : TrafOf t.id t.startDTS group traf) (hgaps : Gaps t.timescale ps group) (hp : p ∈ ps.head?) :
    int64 traf.baseDTS = mediaTime t p := by
  have hfirst : (group.head?.map (·.dts)).getD 0 = dtsOf t.timescale p := by
    rw [← head?_map, hgaps.map_dts, head?_map, Option.mem_def.mp hp]
    rfl
  rw [h.base, hfirst]
  exact int64_uint64 (mediaTime_nonneg t p) (mediaTime_lt t p)

lemma TrafOf.times_eq_iff {group : List MuxSample} {ps : List MuxPacket} {traf : Traf} {c : ℤ}
    (h : TrafOf t.id t.startDTS group traf) (hgaps : Gaps t.timescale ps group) :
    group.map (·.dts - c) = wrapTimes (int64 traf.baseDTS) (traf.run.map (·.duration)) ↔
      (∀ p ∈ ps.head?, mediaTime t p = dtsOf t.timescale p - c) ∧
        ps.IsChain (GapKept t.timescale) ∧ ∀ p ∈ ps, dtsOf t.timescale p - c < 2 ^ 63 := by
  have hdts := hgaps.map_dts
  obtain ⟨s, rest, hgroup⟩ := exists_cons_of_ne_nil h.ne_nil
  obtain ⟨p, ps', hps⟩ : ∃ p ps', ps = p :: ps' := by
    refine exists_cons_of_ne_nil ?_
    rintro rfl
    rw [map_nil, map_eq_nil_iff] at hdts
    exact h.ne_nil hdts
  have hhead : p ∈ ps.head? := by rw [hps]; rfl
  have hs : s.dts = dtsOf t.timescale p := by
    rw [hgroup, hps] at hdts
    exact (cons.inj hdts).1
  have hbase := h.int64_base hgaps hhead
  obtain ⟨hasCts, hrun⟩ := h.run
  have hdurations : traf.run.map (·.duration) = group.map fun s => uint32 s.duration := by
    rw [hrun, map_map]
    rfl
  have hrange : (∀ s ∈ group, s.dts - c < 2 ^ 63) ↔ ∀ p ∈ ps, dtsOf t.timescale p - c < 2 ^ 63 := by
    have hmem : (∀ dts ∈ group.map (·.dts), dts - c < 2 ^ 63) ↔
        ∀ dts ∈ ps.map (dtsOf t.timescale), dts - c < 2 ^ 63 := by rw [hdts]
    rwa [forall_mem_map, forall_mem_map] at hmem
  rw [eq_comm, hdurations, hbase, wrapTimes_eq_iff (mediaTime_nonneg t p) (mediaTime_lt t p) h.sorted,
    hgaps.isChain_iff, hrange]
  rw [hgroup, hps]
  simp [hs]

variable (h : FragmentsOk m t packets groups)
include h

lemma FragmentsOk.packetGroups_eq :
    packetGroups m t packets = (groups.map length).splitLengths packets := by
  have hlengths : (trafsOf m t.id).map (·.run.length) = groups.map length := by
    refine forall₂_eq_eq_eq ▸ forall₂_map_left_iff.mpr (forall₂_map_right_iff.mpr ?_)
    refine h.trafs.flip.imp fun traf group htraf => ?_
    obtain ⟨_, hrun⟩ := htraf.run
    rw [hrun, length_map]
  rw [packetGroups, hlengths]

lemma FragmentsOk.forall₂_gaps : List.Forall₂ (Gaps t.timescale) (packetGroups m t packets) groups :=
  h.packetGroups_eq ▸ h.gaps.groups

lemma FragmentsOk.flatten_packetGroups : (packetGroups m t packets).flatten = packets := by
  rw [h.packetGroups_eq]
  refine flatten_splitLengths _ _ ?_
  have hlength := congrArg length h.gaps.map_dts
  rw [length_map, length_map, length_flatten] at hlength
  exact hlength.ge

def timesOf (trafs : List Traf) : List ℤ :=
  trafs.flatMap fun traf => wrapTimes (int64 traf.baseDTS) (traf.run.map (·.duration))

lemma FragmentsOk.headD_timesOf {first : MuxPacket} (hfirst : first ∈ packets.head?) :
    (timesOf (trafsOf m t.id)).headD 0 = mediaTime t first := by
  have hflatten := h.flatten_packetGroups
  have hgaps := h.forall₂_gaps
  have htrafs := h.trafs
  generalize trafsOf m t.id = trafs at htrafs
  generalize packetGroups m t packets = parts at hflatten hgaps
  subst hflatten
  cases hgaps with
  | nil => simp at hfirst
  | @cons ps group parts groups hps hgaps =>
    cases htrafs with
    | cons htraf htrafs =>
      obtain ⟨s, rest, hgroup⟩ := exists_cons_of_ne_nil htraf.ne_nil
      obtain ⟨hasCts, hrun⟩ := htraf.run
      have hne : ps ≠ [] := by
        rintro rfl
        exact htraf.ne_nil (map_eq_nil_iff.mp hps.map_dts)
      have hhead : first ∈ ps.head? := by
        rwa [flatten_cons, head?_append_of_ne_nil _ hne] at hfirst
      rw [timesOf, flatMap_cons, htraf.int64_base hps hhead, hrun, hgroup]
      rfl

lemma FragmentsOk.sameDistances_iff (hne : packets ≠ []) :
    SameDistances (((parseTrafs budget t.id (m.fragments.flatten.map Prod.fst)).toOption.getD []).map
      (·.dts)) (packets.map (dtsOf t.timescale)) ↔ FragmentsKept budget m t packets := by
  rw [parseTrafs_eq]
  by_cases hlimits : (∀ traf ∈ m.fragments.flatten.map Prod.fst, traf.run.length ≤ maxSamples) ∧
      ((m.fragments.flatten.map Prod.fst).map (·.run.length)).sum ≤ budget.left
  · obtain ⟨first, rest, hpackets⟩ := exists_cons_of_ne_nil hne
    have hfirst : first ∈ packets.head? := by rw [hpackets]; rfl
    rw [if_pos hlimits, Except.toOption, Option.getD_some, map_flatMap]
    simp only [map_dts_parseTrun]
    change SameDistances (timesOf (trafsOf m t.id)) _ ↔ _
    have hwritten : (packets.map (dtsOf t.timescale)).headD 0 = dtsOf t.timescale first := by
      rw [hpackets]
      rfl
    rw [Mp4.sameDistances_iff, h.headD_timesOf hfirst, hwritten, ← h.gaps.map_dts, map_map]
    generalize hc : dtsOf t.timescale first - mediaTime t first = c
    -- part by part
    have hparts : timesOf (trafsOf m t.id) = groups.flatten.map (·.dts - c) ↔
        ∀ ps ∈ packetGroups m t packets, (∀ p ∈ ps.head?, mediaTime t p = dtsOf t.timescale p - c) ∧
            ps.IsChain (GapKept t.timescale) ∧ ∀ p ∈ ps, dtsOf t.timescale p - c < 2 ^ 63 := by
      rw [eq_comm, map_flatten, ← flatMap_def, timesOf, flatMap_eq_flatMap_iff]
      · exact forall₂_iff_forall (fun ps group traf hps htraf => htraf.times_eq_iff hps)
          h.forall₂_gaps h.trafs
      · refine h.trafs.imp fun group traf htraf => ?_
        obtain ⟨_, hrun⟩ := htraf.run
        rw [length_wrapTimes, length_map, length_map, hrun, length_map]
    refine hparts.trans ⟨fun hkept => ?_, fun hkept ps hps => ?_⟩
    · refine ⟨hlimits.1, hlimits.2, fun ps hps => (hkept ps hps).2.1, ?_, ?_⟩
      · intro first' hfirst' ps hps p hp
        obtain rfl := Option.mem_unique hfirst' hfirst
        have := (hkept ps hps).1 p hp
        omega
      · intro first' hfirst' p hp
        obtain rfl := Option.mem_unique hfirst' hfirst
        rw [← h.flatten_packetGroups] at hp
        obtain ⟨ps, hps, hp⟩ := mem_flatten.mp hp
        have := (hkept ps hps).2.2 p hp
        omega
    · refine ⟨fun p hp => ?_, hkept.gaps ps hps, fun p hp => ?_⟩
      · have := hkept.starts first hfirst ps hps p hp
        omega
      · have hmem : p ∈ packets := by
          rw [← h.flatten_packetGroups]
          exact mem_flatten.mpr ⟨ps, hps, hp⟩
        have := hkept.range first hfirst p hmem
        omega
  · rw [if_neg hlimits]
    refine iff_of_false (fun hsame => hne ?_) fun hkept => hlimits ⟨hkept.runs, hkept.total⟩
    exact map_eq_nil_iff.mp (map_eq_nil_iff.mp hsame.symm)

end

/-! ### Every file -/

/-- **When a file keeps the distances of the decode times of a track.** -/
def DecodeTimesKept (budget : SampleBudget) (m : FormatMuxer) (t : MuxTrack)
    (packets : List MuxPacket) : Prop :=
  packets = [] ∨
    if m.seekable then ProgressiveKept budget t packets else FragmentsKept budget m t packets

section

variable {env : Env} {m : FormatMuxer} {t : MuxTrack} {budget : SampleBudget}

lemma FragmentsOk.parseTrafs_of_nil {groups : List (List MuxSample)} (h : FragmentsOk m t [] groups) :
    (parseTrafs budget t.id (m.fragments.flatten.map Prod.fst)).toOption.getD [] = [] := by
  have hflatten : groups.flatten = [] := map_eq_nil_iff.mp h.gaps.map_dts
  have htrafs : trafsOf m t.id = [] := by
    have htrafs := h.trafs
    generalize trafsOf m t.id = trafs at htrafs
    cases htrafs with
    | nil => rfl
    | cons htraf _ => exact absurd (append_eq_nil_iff.mp hflatten).1 htraf.ne_nil
  rw [parseTrafs_eq]
  split
  · change (flatMap _ (trafsOf m t.id)) = []
    rw [htrafs]
    rfl
  · rfl

end

/-- **The decode times that are read keep their distances just if the durations do**: the file is within
the demuxer's limits, and the durations and starts written are the distances. -/
theorem decode_times_kept_iff {env : Env} {seekable : Bool} {file : Bytes} {offset : ℕ}
    {capacity : Fin (2 ^ 63)} {fragment : ℤ} {streams : List MuxStream} {m₀ m : FormatMuxer}
    {r : MuxRun} {calls : List (Option Err × Option MuxPacket)}
    (hopen : FormatMuxer.openOutput env seekable file offset capacity fragment streams = .ok m₀)
    (hr : MuxRun.writeAll env m₀ calls = r) (hclose : r.muxer.close env = (m, none))
    (budget : SampleBudget) {i : ℕ} {t : MuxTrack} (ht : m.tracks[i]? = some t) :
    SameDistances (m.demuxedDTS budget i t) ((packetsOf r.accepted i).map (dtsOf t.timescale)) ↔
      DecodeTimesKept budget m t (packetsOf r.accepted i) := by
  subst hr
  have hmode : m.seekable = m₀.seekable := by
    have hsame := seekable_close env (MuxRun.writeAll env m₀ calls).muxer
    rw [hclose] at hsame
    exact hsame.trans (congrArg Prod.fst (mode_writeAll m₀ calls))
  unfold DecodeTimesKept FormatMuxer.demuxedDTS
  rw [hmode]
  cases hseekable : m₀.seekable with
  | true =>
    obtain ⟨rfl, rfl⟩ : seekable = true ∧ fragment = 0 := by
      obtain ⟨tracks, -, hopen⟩ := bind_eq_ok.mp hopen
      dsimp only at hopen
      split at hopen
      · rename_i h
        simpa using h
      · cases hopen
        exact absurd hseekable ‹_›
    obtain ⟨htables, -, htracks⟩ := finishedOk_close hopen hclose
    have hok := htracks i t ht
    have htable : m.tables[i]? = some t.writeStbl := by
      rw [htables, getElem?_map, ht]
      rfl
    generalize packetsOf (MuxRun.writeAll env m₀ calls).accepted i = packets at hok
    simp only [if_true, htable]
    by_cases hnil : packets = []
    · subst hnil
      rw [hok.build_of_nil]
      exact iff_of_true rfl (.inl rfl)
    · rw [hok.sameDistances_iff hnil, or_iff_right hnil]
  | false =>
    obtain ⟨groups, hok⟩ := fragmentsOk_close hopen hseekable hclose i t ht
    generalize packetsOf (MuxRun.writeAll env m₀ calls).accepted i = packets at hok
    simp only [Bool.false_eq_true, if_false]
    by_cases hnil : packets = []
    · subst hnil
      rw [hok.parseTrafs_of_nil]
      exact iff_of_true rfl (.inl rfl)
    · rw [hok.sameDistances_iff hnil, or_iff_right hnil]

/-- The second keyframe cuts the output. -/
def cutCalls : List (Option Err × Option MuxPacket) :=
  [(none, packetAt "v" 0 0 true [1, 2]), (none, some { packetAt "v" 10 30 false [3] with
      duration := { value := 10, base := { num := 1, den := 1000 } } }),
    (none, packetAt "v" 20 20 true [4])]

def cutMuxer : FormatMuxer :=
  (FormatMuxer.openOutput bareEnv false [] 0 1000 0 [videoStream]).toOption.get (by decide)

def cutRun : MuxRun := MuxRun.writeAll bareEnv cutMuxer cutCalls

theorem decode_times_kept_iff_cut :
    FormatMuxer.openOutput bareEnv false [] 0 1000 0 [videoStream] = .ok cutMuxer ∧
    (packetsOf cutRun.accepted 0).length = 3 ∧
    ∃ m t, cutRun.muxer.close bareEnv = (m, none) ∧ m.tracks[0]? = some t ∧
      (SameDistances (m.demuxedDTS (newSampleBudget 1000) 0 t)
        ((packetsOf cutRun.accepted 0).map (dtsOf t.timescale)) ↔
          DecodeTimesKept (newSampleBudget 1000) m t (packetsOf cutRun.accepted 0)) := by
  have hopen : FormatMuxer.openOutput bareEnv false [] 0 1000 0 [videoStream] = .ok cutMuxer := rfl
  have hclose : cutRun.muxer.close bareEnv = ((cutRun.muxer.close bareEnv).1, none) :=
    Prod.ext rfl (by decide)
  have ht : (cutRun.muxer.close bareEnv).1.tracks[0]? =
      some ((cutRun.muxer.close bareEnv).1.tracks[0]?.get (by decide)) := by simp
  exact ⟨hopen, by decide, _, _, hclose, ht, decode_times_kept_iff hopen rfl hclose _ ht⟩

def shortCalls : List (Option Err × Option MuxPacket) :=
  [(none, some { packetAt "v" 0 0 true [1, 2] with
      duration := { value := 10, base := { num := 1, den := 1000 } } }),
    (none, packetAt "v" 20 20 false [3])]

def shortMuxer : FormatMuxer :=
  (FormatMuxer.openOutput bareEnv true [] 0 1000 0 [videoStream]).toOption.get (by decide)

def shortRun : MuxRun := MuxRun.writeAll bareEnv shortMuxer shortCalls

theorem decode_times_moved :
    FormatMuxer.openOutput bareEnv true [] 0 1000 0 [videoStream] = .ok shortMuxer ∧
    ∃ m t, shortRun.muxer.close bareEnv = (m, none) ∧ m.tracks[0]? = some t ∧
      (packetsOf shortRun.accepted 0).map (dtsOf t.timescale) = [0, 1800] ∧
      m.demuxedDTS (newSampleBudget m.file.length) 0 t = [0, 900] ∧
      ¬ SameDistances (m.demuxedDTS (newSampleBudget m.file.length) 0 t)
        ((packetsOf shortRun.accepted 0).map (dtsOf t.timescale)) := by
  have hclose : shortRun.muxer.close bareEnv = ((shortRun.muxer.close bareEnv).1, none) :=
    Prod.ext rfl (by decide)
  have ht : (shortRun.muxer.close bareEnv).1.tracks[0]? =
      some ((shortRun.muxer.close bareEnv).1.tracks[0]?.get (by decide)) := by simp
  exact ⟨rfl, _, _, hclose, ht, by decide, by decide, by decide⟩

end Goav.Mp4
