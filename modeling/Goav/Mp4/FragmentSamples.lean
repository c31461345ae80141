import Goav.Mp4.BoxRead
import Goav.Mp4.FragmentParts

/-!
What is read of a fragmented file. The composition offset has 32 bits, and the first sample of a run
takes its keyframe flag from the defaults of the file.
-/

namespace Goav.Mp4

open Goav.Av Goav.Lib MuxTrack List

/-! ### Reading parts -/

def partSamples (defFlags : ℕ) (part : Traf × ℕ) : List Sample :=
  placeFrom part.2 (parseTrun defFlags (int64 part.1.baseDTS) part.1.run)

def DemuxTrack.withParts (track : DemuxTrack) (id : ℕ) (parts : List (Traf × ℕ)) : DemuxTrack :=
  { track with
    samples := track.samples ++
      (parts.filter (·.1.id = id)).flatMap (partSamples track.defaultSampleFlags) }

lemma claim_eq {budget : SampleBudget} {count : ℕ} :
    budget.claim count 0 =
      if count ≤ maxSamples ∧ count ≤ budget.left then some { budget with left := budget.left - count }
      else none := by
  unfold SampleBudget.claim
  by_cases h : budget.left < count ∨ maxSamples < count
  · rw [if_pos h, if_neg (by omega)]
  · rw [if_neg h, if_neg (by simp), if_pos (by omega)]

/-- **Parts of tracks that the demuxer has are all read**, if the file may have so many samples. -/
lemma foldlM_addPart : ∀ {parts : List (Traf × ℕ)} {s : DemuxState},
    (∀ part ∈ parts, (s.1 part.1.id).isSome) →
      parts.foldlM addPart s = if (∀ part ∈ parts, part.1.run.length ≤ maxSamples) ∧
            (parts.map (·.1.run.length)).sum ≤ s.2.left then
          .ok (fun id => (s.1 id).map (·.withParts id parts),
            { s.2 with left := s.2.left - (parts.map (·.1.run.length)).sum })
        else .error .invalidData
  | [], s, _ => by
    simp [DemuxTrack.withParts]
    rfl
  | part :: parts, s, hknown => by
    obtain ⟨hpart, hparts⟩ := forall_mem_cons.mp hknown
    obtain ⟨track, htrack⟩ := Option.isSome_iff_exists.mp hpart
    rw [foldlM_cons, addPart, htrack, claim_eq]
    simp only [forall_mem_cons, map_cons, sum_cons]
    by_cases hclaim : part.1.run.length ≤ maxSamples ∧ part.1.run.length ≤ s.2.left
    · rw [if_pos hclaim]
      -- the state behind the first part
      let s' : DemuxState := (Function.update s.1 part.1.id (some { track with
        samples := track.samples ++ partSamples track.defaultSampleFlags part }),
          { s.2 with left := s.2.left - part.1.run.length })
      have hself : s'.1 part.1.id = some { track with
          samples := track.samples ++ partSamples track.defaultSampleFlags part } :=
        Function.update_self _ _ _
      have hother : ∀ {id : ℕ}, id ≠ part.1.id → s'.1 id = s.1 id := fun hne => Function.update_of_ne hne _ _
      have hknown' : ∀ other ∈ parts, (s'.1 other.1.id).isSome := by
        intro other hmem
        by_cases heq : other.1.id = part.1.id
        · rw [heq, hself]
          rfl
        · rw [hother heq]
          exact hparts other hmem
      have htracks : (fun id => (s'.1 id).map (·.withParts id parts)) =
          fun id => (s.1 id).map (·.withParts id (part :: parts)) := by
        funext id
        by_cases heq : id = part.1.id
        · rw [heq, hself, htrack]
          simp [DemuxTrack.withParts]
        · rw [hother heq]
          simp [DemuxTrack.withParts, Ne.symm heq]
      refine (foldlM_addPart hknown').trans ?_
      rw [htracks]
      by_cases hfits : (∀ part ∈ parts, part.1.run.length ≤ maxSamples) ∧
          (parts.map (·.1.run.length)).sum ≤ s.2.left - part.1.run.length
      · rw [if_pos hfits, if_pos ⟨⟨hclaim.1, hfits.1⟩, by omega⟩, Nat.sub_sub]
      · rw [if_neg hfits, if_neg fun h => hfits ⟨h.1.2, by omega⟩]
    · rw [if_neg hclaim, if_neg (by omega)]
      rfl

/-! ### Reading samples -/

/-- A packet is read back: its payload, its composition offset, its keyframe flag. -/
structure SampleKept (file : Bytes) (timescale : ℕ) (p : MuxPacket) (s : Sample) : Prop where
  payload : readAt file s.offset s.size = .ok p.payload
  composition : int64 (s.cts - s.dts) = compositionOf timescale p
  keyframe : s.keyframe = p.keyframe

def CompositionFits (timescale : ℕ) (p : MuxPacket) : Prop :=
  -2 ^ 31 ≤ compositionOf timescale p ∧ compositionOf timescale p < 2 ^ 31

lemma int64_add_sub {d c : ℤ} (hlo : -2 ^ 31 ≤ c) (hhi : c < 2 ^ 31) : int64 (int64 (d + c) - d) = c := by
  unfold int64
  rw [Int.bmod_sub_bmod, add_sub_cancel_left]
  exact int64_eq (by omega) (by omega)

lemma int32_range (x : ℤ) : -2 ^ 31 ≤ int32 x ∧ int32 x < 2 ^ 31 := by
  unfold int32
  rw [Int.bmod_def]
  split <;> omega

lemma int32_int64 (x : ℤ) : int32 (int64 x) = int32 x := by
  unfold int32 int64
  exact Int.bmod_bmod_of_dvd (by decide)

section

variable {file : Bytes} {kind : TrackKind} {hasCts : Bool} {p : MuxPacket} {s : MuxSample}

lemma SampleOf.composition (h : SampleOf kind p s) (hcts : hasCts = false → s.cts = 0) :
    int32 ((trunSampleOf hasCts s).cts.getD 0 : ℕ) = int32 (compositionOf kind.timescale p) := by
  rw [← int32_int64 (compositionOf kind.timescale p), ← h.cts]
  cases hasCts with
  | true => exact int32_uint32 s.cts
  | false =>
    rw [hcts rfl]
    rfl

variable {offset : ℕ}

lemma SampleOf.kept_iff {dts : ℤ} {flags : ℕ} (h : SampleOf kind p s)
    (hcts : hasCts = false → s.cts = 0) (hslice : IsSlice file offset p.payload)
    (hle : offset + p.payload.length ≤ file.length) :
    SampleKept file kind.timescale p { trunSample dts flags (trunSampleOf hasCts s) with offset } ↔
      CompositionFits kind.timescale p ∧ decide (flags &&& sampleNonSync = 0) = p.keyframe := by
  have hread : readAt file offset s.size = .ok p.payload := by
    rw [h.size]
    exact readAt_of_slice hslice hle
  have hcomp : int64 (int64 (dts + int32 ((trunSampleOf hasCts s).cts.getD 0 : ℕ)) - dts) =
      int32 (compositionOf kind.timescale p) := by
    rw [h.composition hcts]
    exact int64_add_sub (int32_range _).1 (int32_range _).2
  have hfits : int32 (compositionOf kind.timescale p) = compositionOf kind.timescale p ↔
      CompositionFits kind.timescale p := by
    refine ⟨fun heq => ?_, fun hfits => int32_eq hfits.1 hfits.2⟩
    have hrange := int32_range (compositionOf kind.timescale p)
    rwa [heq] at hrange
  constructor
  · rintro ⟨-, hcomposition, hkeyframe⟩
    exact ⟨hfits.mp (hcomp.symm.trans hcomposition), hkeyframe⟩
  · rintro ⟨hcomposition, hkeyframe⟩
    exact ⟨hread, hcomp.trans (hfits.mpr hcomposition), hkeyframe⟩

lemma flags_trunSampleOf (hasCts : Bool) (s : MuxSample) :
    decide ((trunSampleOf hasCts s).flags &&& sampleNonSync = 0) = s.sync := by
  show decide ((if s.sync then 0x02000000 else 0x01010000) &&& sampleNonSync = 0) = s.sync
  cases s.sync <;> decide

def FlagFits (kind : TrackKind) (p : MuxPacket) : Prop := kind.media = .video ∨ p.keyframe = true

lemma SampleOf.sync_iff (h : SampleOf kind p s) : s.sync = p.keyframe ↔ FlagFits kind p := by
  rw [h.sync, FlagFits]
  cases p.keyframe <;> simp

variable {packets : List MuxPacket}

lemma slice_payloads (h : IsSlice file offset ((p :: packets).flatMap (·.payload))) :
    IsSlice file offset p.payload ∧
      IsSlice file (offset + p.payload.length) (packets.flatMap (·.payload)) := by
  have htake := h.take p.payload.length
  have hdrop := h.drop p.payload.length
  rw [flatMap_cons, take_left] at htake
  rw [flatMap_cons, drop_left] at hdrop
  exact ⟨htake, hdrop⟩

lemma SampleOf.next (h : SampleOf kind p s) (hasCts : Bool) (offset : ℕ) :
    (offset : ℤ) + ((trunSampleOf hasCts s).size : ℕ) = ((offset + p.payload.length : ℕ) : ℤ) := by
  rw [← h.size]
  rfl

lemma kept_trunSamples_iff {samples : List MuxSample} {dts : ℤ}
    (hsamples : List.Forall₂ (SampleOf kind) packets samples)
    (hcts : hasCts = false → ∀ s ∈ samples, s.cts = 0)
    (hslice : IsSlice file offset (packets.flatMap (·.payload)))
    (hle : offset + (packets.flatMap (·.payload)).length ≤ file.length) :
    List.Forall₂ (SampleKept file kind.timescale) packets
        (placeFrom offset (trunSamples dts (samples.map (trunSampleOf hasCts)))) ↔
      ∀ p ∈ packets, CompositionFits kind.timescale p ∧ FlagFits kind p := by
  induction hsamples generalizing offset dts with
  | nil => simp [trunSamples, placeFrom]
  | @cons p s packets samples hs hsamples ih =>
    obtain ⟨hfirst, hrest⟩ := slice_payloads hslice
    rw [flatMap_cons, length_append] at hle
    rw [map_cons, trunSamples, placeFrom, forall₂_cons, forall_mem_cons,
      hs.kept_iff (fun h => hcts h s mem_cons_self) hfirst (by omega), flags_trunSampleOf, hs.sync_iff]
    refine and_congr_right fun _ => ?_
    change List.Forall₂ _ _ (placeFrom ((offset : ℤ) + ((trunSampleOf hasCts s).size : ℕ)) _) ↔ _
    rw [hs.next]
    exact ih (fun h s hmem => hcts h s (mem_cons_of_mem _ hmem)) hrest (by omega)

structure GroupKept (kind : TrackKind) (packets : List MuxPacket) : Prop where
  composition : ∀ p ∈ packets, CompositionFits kind.timescale p
  first : ∀ p ∈ packets.head?, p.keyframe = true
  flags : ∀ p ∈ packets, FlagFits kind p

lemma PartOf.kept_iff {part : Traf × Bytes}
    (h : PartOf kind packets part) (hslice : IsSlice file offset part.2)
    (hle : offset + part.2.length ≤ file.length) : List.Forall₂ (SampleKept file kind.timescale) packets
        (partSamples defaultSampleFlags (part.1, offset)) ↔ GroupKept kind packets := by
  obtain ⟨samples, hne, hsamples, hrun⟩ := h.run
  have hcts : (samples.any (·.cts ≠ 0)) = false → ∀ s ∈ samples, s.cts = 0 := by simp
  rw [h.data] at hslice hle
  unfold partSamples
  rw [hrun]
  cases hsamples with
  | nil => exact absurd rfl hne
  | @cons p s packets samples hs hsamples =>
    obtain ⟨hfirst, hrest⟩ := slice_payloads hslice
    rw [flatMap_cons, length_append] at hle
    generalize (s :: samples).any (·.cts ≠ 0) = hasCts at hcts
    rw [map_cons, parseTrun, placeFrom, forall₂_cons,
      hs.kept_iff (fun h => hcts h s mem_cons_self) hfirst (by omega)]
    change _ ∧ List.Forall₂ _ _ (placeFrom ((offset : ℤ) + ((trunSampleOf hasCts s).size : ℕ)) _) ↔ _
    rw [hs.next, kept_trunSamples_iff hsamples (fun h s hmem => hcts h s (mem_cons_of_mem _ hmem)) hrest
      (by omega)]
    constructor
    · rintro ⟨⟨hcomposition, hkeyframe⟩, hkept⟩
      have hkey : p.keyframe = true := hkeyframe.symm
      refine ⟨forall_mem_cons.mpr ⟨hcomposition, fun q hq => (hkept q hq).1⟩, ?_,
        forall_mem_cons.mpr ⟨.inr hkey, fun q hq => (hkept q hq).2⟩⟩
      rintro q hq
      exact Option.mem_some_iff.mp hq ▸ hkey
    · rintro ⟨hcomposition, hkeyframe, hflags⟩
      obtain ⟨hcomp, hcomps⟩ := forall_mem_cons.mp hcomposition
      obtain ⟨-, hflags⟩ := forall_mem_cons.mp hflags
      exact ⟨⟨hcomp, (hkeyframe p rfl).symm⟩, fun q hq => ⟨hcomps q hq, hflags q hq⟩⟩

end

/-! ### Reading files -/

section

variable {version : ℕ → Traf → ℕ}

lemma map_fst_placedParts (pos : ℕ) (version : Traf → ℕ) (sequence : ℕ) (parts : List (Traf × Bytes)) :
    (placedParts pos version sequence parts).map Prod.fst = parts := by
  rw [placedParts, map_map]
  exact map_fst_zip (show _ ≤ (fragmentOffsets version sequence parts).length from length_fragmentOffsets.ge)

lemma map_fst_placedFragments : ∀ (fragments : List (ℕ × List (Traf × Bytes))) (pos : ℕ),
    (placedFragments version pos fragments).map Prod.fst = fragments.flatMap Prod.snd
  | [], _ => rfl
  | f :: fragments, pos => by
    rw [placedFragments, map_append, map_fst_placedParts, map_fst_placedFragments, flatMap_cons]

lemma flatMap_numbered (fragments : List (List (Traf × Bytes))) :
    (numbered fragments).flatMap Prod.snd = fragments.flatten := by
  rw [numbered, flatMap_map, ← flatMap_id', ← zipIdx_map_fst 1 fragments, flatMap_map, zipIdx_map_fst]

lemma data_le_fragments (version : ℕ → Traf → ℕ) : ∀ fragments : List (ℕ × List (Traf × Bytes)),
    ((fragments.flatMap Prod.snd).map (·.2.length)).sum ≤
      (boxBytes (fragmentsBoxes version fragments)).length
  | [] => Nat.zero_le _
  | f :: fragments => by
    have hrest := data_le_fragments version fragments
    have hfirst : (f.2.flatMap Prod.snd).length = (f.2.map (·.2.length)).sum := length_flatMap
    have hboxes : fragmentsBoxes version (f :: fragments) =
        fragmentBoxes (version f.1) f.1 f.2 ++ fragmentsBoxes version fragments := flatMap_cons
    rw [hboxes, boxBytes_append, length_append, length_fragment, flatMap_cons, map_append,
      sum_append, ← hfirst]
    omega

/-- The boxes of an environment: a header whose sizes fit in their fields, and the fragments. -/
structure BoxForms (env : Env) (version : ℕ → Traf → ℕ) : Prop where
  ftyp : ∀ tracks, ∃ body, env.ftyp tracks true = box ftypType body ∧ 8 + body.length < 2 ^ 32
  moov : ∀ tracks, ∃ body, env.moov tracks true = box moovType body ∧ 8 + body.length < 2 ^ 32
  moof : env.moof = fragmentBytes version

lemma fragmentedFile_eq {env : Env} (hforms : BoxForms env version) (tracks : List MuxTrack)
    (fragments : List (List (Traf × Bytes))) : ∃ ftyp moov, 8 + ftyp.length < 2 ^ 32 ∧
      8 + moov.length < 2 ^ 32 ∧ fragmentedFile env tracks fragments =
        boxBytes ((ftypType, ftyp) :: (moovType, moov) :: fragmentsBoxes version (numbered fragments)) := by
  obtain ⟨ftyp, hftyp, hftypSize⟩ := hforms.ftyp tracks
  obtain ⟨moov, hmoov, hmoovSize⟩ := hforms.moov tracks
  refine ⟨ftyp, moov, hftypSize, hmoovSize, ?_⟩
  rw [fragmentedFile, hftyp, hmoov, hforms.moof, append_assoc]
  simp only [boxBytes, fragmentsBoxes, flatMap_cons, flatMap_assoc]
  rfl

end

/-- The demuxer's tracks behind the header: without samples, and with the header's defaults. -/
def demuxStart (m : FormatMuxer) : DemuxState :=
  (fun id => if id ∈ m.tracks.map (·.id) then some { defaultSampleFlags := defaultSampleFlags } else none,
    newSampleBudget m.file.length)

/-- The fragments are within the limits. -/
structure FragmentLimits (m : FormatMuxer) : Prop where
  runs : ∀ part ∈ m.fragments.flatten, part.1.run.length ≤ maxSamples
  total : (m.fragments.flatten.map (·.1.run.length)).sum ≤ maxFileSamples

/-- Offsets fit in 32 bits, a fragment begins with a keyframe, and the rest but video are keyframes. -/
structure PacketsKept (m : FormatMuxer) (t : MuxTrack) (packets : List MuxPacket) : Prop where
  composition : ∀ p ∈ packets, CompositionFits t.timescale p
  first : ∀ group ∈ packetGroups m t packets, ∀ p ∈ group.head?, p.keyframe = true
  flags : ∀ p ∈ packets, FlagFits t.kind p

section

variable {file : Bytes} {kind : TrackKind}

lemma forall₂_append_iff {α β : Type*} {R : α → β → Prop} : ∀ {l₁ : List α} {l₁' : List β} {l₂ l₂'},
    l₁.length = l₁'.length →
      (List.Forall₂ R (l₁ ++ l₂) (l₁' ++ l₂') ↔ List.Forall₂ R l₁ l₁' ∧ List.Forall₂ R l₂ l₂')
  | [], [], _, _, _ => by simp
  | _ :: _, _ :: _, _, _, h => by
    rw [cons_append, cons_append, forall₂_cons, forall₂_cons, forall₂_append_iff (Nat.succ.inj h), and_assoc]

lemma length_placeFrom (samples : List Sample) (offset : ℤ) :
    (placeFrom offset samples).length = samples.length := by
  induction samples generalizing offset with
  | nil => rfl
  | cons s samples ih => rw [placeFrom, length_cons, ih, length_cons]

lemma length_trunSamples (run : List TrunSample) (dts : ℤ) :
    (trunSamples dts run).length = run.length := by
  induction run generalizing dts with
  | nil => rfl
  | cons s run ih => rw [trunSamples, length_cons, ih, length_cons]

lemma length_partSamples (defFlags : ℕ) (part : Traf × ℕ) :
    (partSamples defFlags part).length = part.1.run.length := by
  rw [partSamples, length_placeFrom]
  cases part.1.run with
  | nil => rfl
  | cons s run => rw [parseTrun, length_cons, length_trunSamples, length_cons]

lemma PartOf.length_run {packets : List MuxPacket} {part : Traf × Bytes}
    (h : PartOf kind packets part) : part.1.run.length = packets.length := by
  obtain ⟨samples, -, hsamples, hrun⟩ := h.run
  rw [hrun, length_map, hsamples.length_eq]

lemma kept_parts_iff : ∀ {sent : List (List MuxPacket)} {placed : List ((Traf × Bytes) × ℕ)},
    List.Forall₂ (PartOf kind) sent (placed.map Prod.fst) →
    (∀ part ∈ placed, IsSlice file part.2 part.1.2 ∧ part.2 + part.1.2.length ≤ file.length) →
    (List.Forall₂ (SampleKept file kind.timescale) sent.flatten
        (placed.flatMap fun part => partSamples defaultSampleFlags (part.1.1, part.2)) ↔
      ∀ group ∈ sent, GroupKept kind group)
  | [], [], _, _ => by simp
  | group :: sent, part :: placed, .cons hpart hparts, hslices => by
    obtain ⟨⟨hslice, hle⟩, hrest⟩ := forall_mem_cons.mp hslices
    rw [flatten_cons, flatMap_cons, forall₂_append_iff, hpart.kept_iff hslice hle,
      kept_parts_iff hparts hrest, forall_mem_cons]
    rw [length_partSamples]
    exact hpart.length_run.symm

lemma packetGroups_eq {m : FormatMuxer} {t : MuxTrack} {sent : List (List MuxPacket)}
    (h : List.Forall₂ (PartOf kind) sent (partsOf m t.id)) : packetGroups m t sent.flatten = sent := by
  have hlengths : (trafsOf m t.id).map (·.run.length) = sent.map List.length := by
    have htrafs : trafsOf m t.id = (partsOf m t.id).map Prod.fst := by
      rw [trafsOf, filter_map]
      rfl
    rw [htrafs, map_map]
    refine forall₂_eq_eq_eq ▸ forall₂_map_left_iff.mpr (forall₂_map_right_iff.mpr ?_)
    exact h.flip.imp fun _ _ hpart => hpart.length_run
  rw [packetGroups, hlengths]
  clear h hlengths
  induction sent with
  | nil => rfl
  | cons group sent ih =>
    rw [map_cons, flatten_cons, splitLengths_cons, take_left, drop_left, ih]

lemma forall_groupKept_iff {m : FormatMuxer} {t : MuxTrack} {sent : List (List MuxPacket)}
    (h : List.Forall₂ (PartOf t.kind) sent (partsOf m t.id)) :
    (∀ group ∈ sent, GroupKept t.kind group) ↔ PacketsKept m t sent.flatten := by
  constructor
  · intro hkept
    refine ⟨fun p hp => ?_, fun group hgroup => ?_, fun p hp => ?_⟩
    · obtain ⟨group, hgroup, hp⟩ := mem_flatten.mp hp
      exact (hkept group hgroup).composition p hp
    · rw [packetGroups_eq h] at hgroup
      exact (hkept group hgroup).first
    · obtain ⟨group, hgroup, hp⟩ := mem_flatten.mp hp
      exact (hkept group hgroup).flags p hp
  · rintro ⟨hcomposition, hfirst, hflags⟩ group hgroup
    rw [packetGroups_eq h] at hfirst
    exact ⟨fun p hp => hcomposition p (mem_flatten.mpr ⟨group, hgroup, hp⟩), hfirst group hgroup,
      fun p hp => hflags p (mem_flatten.mpr ⟨group, hgroup, hp⟩)⟩

end

section

variable {env : Env} {m : FormatMuxer} {accepted : List (ℕ × MuxPacket)} {kind : TrackKind}
  {packets : List MuxPacket} {part : Traf × Bytes}

lemma PartOf.partOk (h : PartOf kind packets part) (hid : kind.id < 2 ^ 32) : PartOk part := by
  obtain ⟨samples, hne, hsamples, hrun⟩ := h.run
  have hany : part.1.run.any (·.cts.isSome) = samples.any (·.cts ≠ 0) := by
    rw [hrun]
    obtain ⟨s, rest, rfl⟩ := exists_cons_of_ne_nil hne
    generalize (s :: rest).any (·.cts ≠ 0) = hasCts
    cases hasCts <;> simp [trunSampleOf]
  refine ⟨h.id ▸ hid, h.baseDTS, ?_, ?_⟩
  · rw [hany, hrun, forall_mem_map]
    intro s hs
    obtain ⟨p, -, hp⟩ := forall₂_exists_left hsamples hs
    have hle := hp.le
    refine ⟨uint32_lt _, ?_, ?_, ?_, ?_⟩
    · show s.size < 2 ^ 32
      unfold maxUint32 at hle
      omega
    · unfold trunSampleOf
      dsimp only
      split <;> decide
    · unfold trunSampleOf
      dsimp only
      split
      · exact uint32_lt _
      · decide
    · cases samples.any (·.cts ≠ 0) <;> rfl
  · rw [h.data, length_flatMap, hrun, map_map]
    have hsizes : List.Forall₂ (fun n n' => n = n') (samples.map (·.size))
        (packets.map (·.payload.length)) :=
      forall₂_map_left_iff.mpr (forall₂_map_right_iff.mpr (hsamples.flip.imp fun _ _ hs => hs.size))
    exact congrArg List.sum (forall₂_eq_eq_eq ▸ hsizes)

lemma PartOf.length_le (h : PartOf kind packets part) (hpayload : ∀ p ∈ packets, p.payload ≠ []) :
    0 < part.1.run.length ∧ part.1.run.length ≤ part.2.length := by
  constructor
  · obtain ⟨samples, hne, -, hrun⟩ := h.run
    rw [hrun, length_map]
    exact length_pos_iff.mpr hne
  · rw [h.length_run, h.data]
    have hbound := card_nsmul_le_sum (packets.map (·.payload.length)) 1 fun n hn => by
      obtain ⟨p, hp, rfl⟩ := mem_map.mp hn
      exact length_pos_iff.mpr (hpayload p hp)
    simpa using hbound

lemma FinishedParts.exists_partOf (h : FinishedParts env m accepted) (hpart : part ∈ m.fragments.flatten) :
    ∃ i t group, m.tracks[i]? = some t ∧ part.1.id = i + 1 ∧ PartOf t.kind group part ∧
      ∀ p ∈ group, p ∈ packetsOf accepted i := by
  obtain ⟨i, hi, hid⟩ := h.known part hpart
  have ht : m.tracks[i]? = some m.tracks[i] := getElem?_eq_getElem hi
  obtain ⟨sent, hpackets, hparts⟩ := h.carried i _ ht
  obtain ⟨group, hgroup, hof⟩ := forall₂_exists_left hparts (mem_filter.mpr ⟨hpart, decide_eq_true hid⟩)
  refine ⟨i, _, group, ht, hid, hof, fun p hp => ?_⟩
  rw [hpackets]
  exact mem_flatten.mpr ⟨group, hgroup, hp⟩

end

/-- What the demuxer reads of the file is what was written: every track has its packets. -/
def ParsedBack (m : FormatMuxer) (accepted : List (ℕ × MuxPacket)) : Prop :=
  ∃ s, parseFragments m.file (demuxStart m) = .ok s ∧
    ∀ i t, m.tracks[i]? = some t → ∃ track, s.1 t.id = some track ∧
      List.Forall₂ (SampleKept m.file t.timescale) (packetsOf accepted i) track.samples

section

variable {env : Env} {m : FormatMuxer} {accepted : List (ℕ × MuxPacket)} {version : ℕ → Traf → ℕ}
  (h : FinishedParts env m accepted)
include h

lemma limits_iff {placed : List ((Traf × Bytes) × ℕ)} (hfst : placed.map Prod.fst = m.fragments.flatten)
    (hpayload : ∀ i, ∀ p ∈ packetsOf accepted i, p.payload ≠ [])
    (hdata : (m.fragments.flatten.map (·.2.length)).sum ≤ m.file.length) :
    ((∀ part ∈ placed.map (fun part => (part.1.1, part.2)), part.1.run.length ≤ maxSamples) ∧
      ((placed.map fun part => (part.1.1, part.2)).map (·.1.run.length)).sum ≤
        (demuxStart m).2.left) ↔ FragmentLimits m := by
  have hsum : ((placed.map fun part => (part.1.1, part.2)).map (·.1.run.length)).sum =
      (m.fragments.flatten.map (·.1.run.length)).sum := by
    rw [← hfst, map_map, map_map]
    rfl
  have hruns : (∀ part ∈ placed.map (fun part => (part.1.1, part.2)), part.1.run.length ≤ maxSamples) ↔
      ∀ part ∈ m.fragments.flatten, part.1.run.length ≤ maxSamples := by
    rw [← hfst, forall_mem_map, forall_mem_map]
  have hle : (m.fragments.flatten.map (·.1.run.length)).sum ≤ m.file.length := by
    refine (sum_le_sum fun part hpart => ?_).trans hdata
    obtain ⟨i, t, group, -, -, hof, hgroup⟩ := h.exists_partOf hpart
    exact (hof.length_le fun p hp => hpayload i p (hgroup p hp)).2
  rw [hsum, hruns]
  constructor
  · rintro ⟨hruns, htotal⟩
    exact ⟨hruns, htotal.trans (min_le_right _ _)⟩
  · rintro ⟨hruns, htotal⟩
    exact ⟨hruns, le_min hle htotal⟩

lemma track_kept_iff {placed : List ((Traf × Bytes) × ℕ)} (hfst : placed.map Prod.fst = m.fragments.flatten)
    (hslices : ∀ part ∈ placed, IsSlice m.file part.2 part.1.2 ∧ part.2 + part.1.2.length ≤ m.file.length)
    {i : ℕ} {t : MuxTrack} (ht : m.tracks[i]? = some t) :
    (∃ track, ((demuxStart m).1 t.id).map (·.withParts t.id (placed.map fun part => (part.1.1, part.2))) =
        some track ∧
      List.Forall₂ (SampleKept m.file t.timescale) (packetsOf accepted i) track.samples) ↔
      PacketsKept m t (packetsOf accepted i) := by
  obtain ⟨sent, hpackets, hparts⟩ := h.carried i t ht
  rw [← h.id i t ht] at hparts
  have hstart : (demuxStart m).1 t.id = some { defaultSampleFlags := defaultSampleFlags } :=
    if_pos (mem_map_of_mem (mem_of_getElem? ht))
  have hplaced : (placed.filter (·.1.1.id = t.id)).map Prod.fst = partsOf m t.id := by
    rw [partsOf, ← hfst, filter_map]
    rfl
  have hkept := kept_parts_iff (hplaced ▸ hparts) fun part hpart =>
    hslices part (mem_of_mem_filter hpart)
  rw [hstart, hpackets, ← forall_groupKept_iff hparts, ← hkept]
  have hsamples : ((placed.map fun part => (part.1.1, part.2)).filter (·.1.id = t.id)).flatMap
      (partSamples defaultSampleFlags) = (placed.filter (·.1.1.id = t.id)).flatMap fun part =>
          partSamples defaultSampleFlags (part.1.1, part.2) := by
    rw [filter_map, flatMap_map]
    rfl
  constructor
  · rintro ⟨track, htrack, hall⟩
    cases htrack
    change List.Forall₂ _ _ ([] ++ _) at hall
    rw [hsamples] at hall
    exact hall
  · intro hall
    refine ⟨_, rfl, ?_⟩
    change List.Forall₂ _ _ ([] ++ _)
    rw [hsamples]
    exact hall

lemma FinishedParts.parsedBack_iff (hforms : BoxForms env version)
    (hcount : m.tracks.length < 2 ^ 32) (hpayload : ∀ taken ∈ accepted, taken.2.payload ≠ [])
    (hsmall : ∀ f ∈ numbered m.fragments, (env.moof f.1 f.2).length < 2 ^ 31) :
    ParsedBack m accepted ↔ FragmentLimits m ∧
      ∀ i t, m.tracks[i]? = some t → PacketsKept m t (packetsOf accepted i) := by
  obtain ⟨tracks, hfile⟩ := h.file
  obtain ⟨ftyp, moov, hftyp, hmoov, hboxes⟩ := fragmentedFile_eq hforms tracks m.fragments
  rw [hboxes] at hfile
  have hpayloads : ∀ i, ∀ p ∈ packetsOf accepted i, p.payload ≠ [] := by
    intro i p hp
    obtain ⟨taken, htaken, rfl⟩ := mem_map.mp hp
    exact hpayload taken (mem_of_mem_filter htaken)
  have hok : ∀ f ∈ numbered m.fragments, FragmentOk (version f.1) f.1 f.2 := by
    intro f hf
    refine ⟨fun part hpart => ?_, ?_⟩
    · have hmem : part ∈ m.fragments.flatten := by
        rw [← flatMap_numbered]
        exact mem_flatMap.mpr ⟨f, hf, hpart⟩
      obtain ⟨i, t, group, ht, -, hof, -⟩ := h.exists_partOf hmem
      refine hof.partOk ?_
      have hlt := (List.getElem?_eq_some_iff.mp ht).1
      show t.id < 2 ^ 32
      rw [h.id i t ht]
      omega
    · have hlength := hsmall f hf
      rwa [hforms.moof] at hlength
  generalize hplaced : placedFragments version (8 + ftyp.length + (8 + moov.length))
    (numbered m.fragments) = placed
  have hfst : placed.map Prod.fst = m.fragments.flatten := by
    rw [← hplaced, map_fst_placedFragments, flatMap_numbered]
  have hknown : ∀ part ∈ placed.map (fun part => (part.1.1, part.2)),
      ((demuxStart m).1 part.1.id).isSome := by
    intro read hread
    obtain ⟨part, hpart, rfl⟩ := mem_map.mp hread
    have hmem : part.1 ∈ m.fragments.flatten := hfst ▸ mem_map_of_mem hpart
    obtain ⟨i, t, group, ht, hid, -, -⟩ := h.exists_partOf hmem
    have hstart : part.1.1.id ∈ m.tracks.map (·.id) := by
      rw [hid, ← h.id i t ht]
      exact mem_map_of_mem (mem_of_getElem? ht)
    show (if _ then _ else _ : Option DemuxTrack).isSome
    rw [if_pos hstart]
    rfl
  have hdata : (m.fragments.flatten.map (·.2.length)).sum ≤ m.file.length := by
    have hle := data_le_fragments version (numbered m.fragments)
    rw [flatMap_numbered] at hle
    rw [hfile, length_boxBytes_cons rfl, length_boxBytes_cons rfl]
    omega
  have hslices : ∀ part ∈ placed, IsSlice m.file part.2 part.1.2 ∧
      part.2 + part.1.2.length ≤ m.file.length := by
    intro part hpart
    have hslice : IsSlice m.file 0 (boxBytes ((ftypType, ftyp) :: (moovType, moov) ::
        fragmentsBoxes version (numbered m.fragments))) := hfile ▸ isSlice_zero m.file
    obtain ⟨-, hslice⟩ := slice_boxes rfl hslice
    obtain ⟨-, hslice⟩ := slice_boxes rfl hslice
    rw [Nat.zero_add] at hslice
    have hin := placedFragments_slice hslice part (hplaced ▸ hpart)
    obtain ⟨i, t, group, -, -, hof, hgroup⟩ := h.exists_partOf (hfst ▸ mem_map_of_mem hpart)
    have hlength := hof.length_le fun p hp => hpayloads i p (hgroup p hp)
    exact ⟨hin, hin.le_length (ne_nil_of_length_pos (by omega))⟩
  have hparse := parseFragments_eq h.length hfile hftyp hmoov hok (demuxStart m)
  rw [hplaced, foldlM_addPart hknown] at hparse
  have hlimits := limits_iff h hfst hpayloads hdata
  unfold ParsedBack
  by_cases hfits : FragmentLimits m
  · rw [hparse, if_pos (hlimits.mpr hfits), and_iff_right hfits]
    have hall : ∀ i t, m.tracks[i]? = some t → _ := fun i t ht => track_kept_iff h hfst hslices ht
    constructor
    · rintro ⟨s, hs, htracks⟩ i t ht
      cases hs
      exact (hall i t ht).mp (htracks i t ht)
    · intro hkept
      exact ⟨_, rfl, fun i t ht => (hall i t ht).mpr (hkept i t ht)⟩
  · rw [hparse, if_neg fun hread => hfits (hlimits.mp hread)]
    refine iff_of_false ?_ fun hkept => hfits hkept.1
    rintro ⟨s, hs, -⟩
    cases hs

end

/-- **What is read of a fragmented file is what was written**, with codecs stored unchanged, just if the
file is within the demuxer's limits, composition offsets fit in 32 bits, and the first packet of every
run, and all that is not video, is a keyframe. -/
theorem fragments_parsed_iff {env : Env} {version : ℕ → Traf → ℕ} {seekable : Bool}
    {capacity : Fin (2 ^ 63)} {fragment : ℤ} {streams : List MuxStream} {m₀ m : FormatMuxer}
    {r : MuxRun} {calls : List (Option Err × Option MuxPacket)} (hforms : BoxForms env version)
    (hopen : FormatMuxer.openOutput env seekable [] 0 capacity fragment streams = .ok m₀)
    (hmode : m₀.seekable = false) (hstored : ∀ s ∈ streams, Stored s.codec.id)
    (hr : MuxRun.writeAll env m₀ calls = r) (hclose : r.muxer.close env = (m, none))
    (hcount : m.tracks.length < 2 ^ 32) (hpayload : ∀ taken ∈ r.accepted, taken.2.payload ≠ [])
    (hsmall : ∀ f ∈ numbered m.fragments, (env.moof f.1 f.2).length < 2 ^ 31) :
    ParsedBack m r.accepted ↔ FragmentLimits m ∧
      ∀ i t, m.tracks[i]? = some t → PacketsKept m t (packetsOf r.accepted i) := by
  subst hr
  exact (finishedParts_close hopen hmode hstored hclose).parsedBack_iff hforms hcount hpayload hsmall

def boxEnv : Env :=
  { bareEnv with
    ftyp := fun _ _ => box ftypType []
    moov := fun _ _ => box moovType []
    moof := fragmentBytes fun _ _ => 0 }

lemma boxForms_boxEnv : BoxForms boxEnv fun _ _ => 0 where
  ftyp := fun _ => ⟨[], rfl, by decide⟩
  moov := fun _ => ⟨[], rfl, by decide⟩
  moof := rfl

def pairCalls : List (Option Err × Option MuxPacket) :=
  [(none, packetAt "v" 0 0 true [1, 2]), (none, packetAt "v" 10 30 false [3])]

def pairMuxer (fragment : ℤ) : FormatMuxer :=
  ((FormatMuxer.openOutput boxEnv false [] 0 1000 fragment [videoStream]).toOption).getD
    { seekable := true, tracks := [], file := [], capacity := 0, offset := 0 }

def pairRun (fragment : ℤ) : MuxRun := MuxRun.writeAll boxEnv (pairMuxer fragment) pairCalls

theorem fragments_parsed_iff_whole :
    FormatMuxer.openOutput boxEnv false [] 0 1000 0 [videoStream] = .ok (pairMuxer 0) ∧
    (pairRun 0).accepted.length = 2 ∧
    ∃ m, (pairRun 0).muxer.close boxEnv = (m, none) ∧ m.fragments.length = 1 ∧
      (ParsedBack m (pairRun 0).accepted ↔ FragmentLimits m ∧
        ∀ i t, m.tracks[i]? = some t → PacketsKept m t (packetsOf (pairRun 0).accepted i)) := by
  have hopen : FormatMuxer.openOutput boxEnv false [] 0 1000 0 [videoStream] = .ok (pairMuxer 0) := rfl
  have herr : ((pairRun 0).muxer.close boxEnv).2 = none := by decide +kernel
  have hclose := Prod.mk.eta.symm.trans (congrArg (Prod.mk ((pairRun 0).muxer.close boxEnv).1) herr)
  exact ⟨hopen, by decide +kernel, _, hclose, by decide +kernel,
    fragments_parsed_iff boxForms_boxEnv hopen rfl (by decide) rfl hclose (by decide +kernel)
      (by decide +kernel) (by decide +kernel)⟩

theorem fragments_parsed_cut :
    FormatMuxer.openOutput boxEnv false [] 0 1000 1 [videoStream] = .ok (pairMuxer 1) ∧
    (pairMuxer 1).seekable = false ∧ (∀ s ∈ [videoStream], Stored s.codec.id) ∧
    (∀ taken ∈ (pairRun 1).accepted, taken.2.payload ≠ []) ∧
    (packetsOf (pairRun 1).accepted 0).map (·.keyframe) = [true, false] ∧
    ∃ m, (pairRun 1).muxer.close boxEnv = (m, none) ∧
      (∀ f ∈ numbered m.fragments, (boxEnv.moof f.1 f.2).length < 2 ^ 31) ∧
      ((parseFragments m.file (demuxStart m)).toOption.bind (·.1 1)).map
        (·.samples.map (·.keyframe)) = some [true, true] ∧ ¬ ParsedBack m (pairRun 1).accepted := by
  have herr : ((pairRun 1).muxer.close boxEnv).2 = none := by decide +kernel
  have hclose := Prod.mk.eta.symm.trans (congrArg (Prod.mk ((pairRun 1).muxer.close boxEnv).1) herr)
  have hid : ((pairRun 1).muxer.close boxEnv).1.tracks[0]?.map (·.id) = some 1 := by decide +kernel
  have hkeyframes : (packetsOf (pairRun 1).accepted 0).map (·.keyframe) = [true, false] := by
    decide +kernel
  generalize hm : ((pairRun 1).muxer.close boxEnv).1 = m at hclose hid
  have hread : ((parseFragments m.file (demuxStart m)).toOption.bind (·.1 1)).map
      (·.samples.map (·.keyframe)) = some [true, true] := by
    rw [← hm]
    decide +kernel
  refine ⟨rfl, rfl, by decide, by decide +kernel, hkeyframes, m, hclose, ?_, hread, ?_⟩
  · rw [← hm]
    decide +kernel
  · rintro ⟨s, hs, htracks⟩
    obtain ⟨t, ht, hone⟩ := Option.map_eq_some_iff.mp hid
    obtain ⟨track, htrack, hkept⟩ := htracks 0 t ht
    have hsame : (packetsOf (pairRun 1).accepted 0).map (·.keyframe) = track.samples.map (·.keyframe) := by
      refine forall₂_eq_eq_eq ▸ forall₂_map_left_iff.mpr (forall₂_map_right_iff.mpr ?_)
      exact hkept.imp fun _ _ hsample => hsample.keyframe.symm
    rw [hone] at htrack
    rw [hs, Except.toOption, Option.bind_some, htrack, Option.map_some, ← hsame, hkeyframes] at hread
    cases hread

end Goav.Mp4
