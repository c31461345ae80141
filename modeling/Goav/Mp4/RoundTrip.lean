import Goav.Mp4.Progressive

/-!
What a progressive file says of its samples: the tables of the tracks, read as the demuxer reads them, give
the packets of every track back, as long as one budget of samples covers them all.
-/

namespace Goav.Mp4

open Goav.Av Goav.Lib MuxTrack List FormatMuxer

/-! ### Sync samples -/

variable {samples : List MuxSample}

lemma sync_of_length_syncSamples (h : (syncSamples samples).length = samples.length) :
    ∀ s ∈ samples, s.sync = true := by
  have hall : ∀ x ∈ samples.zipIdx 1, (if x.1.sync then some x.2 else none).isSome := by
    refine filterMap_length_eq_length.mp ?_
    rw [length_zipIdx]
    exact h
  intro s hs
  obtain ⟨i, hi, rfl⟩ := mem_iff_getElem.mp hs
  have hsome := hall (samples[i], i + 1) (mk_mem_zipIdx_iff_le_and_getElem?_sub.mpr ⟨by omega, by simp⟩)
  by_contra hsync
  simp [hsync] at hsome

variable {t : MuxTrack}

lemma sync_of_writeStss (hother : t.media ≠ .video → ∀ s ∈ t.samples, s.sync = true)
    (h : t.writeStss.isNone = true) : ∀ s ∈ t.samples, s.sync = true := by
  unfold writeStss at h
  dsimp only at h
  split at h
  · cases h
  rename_i hcond
  by_cases hvideo : t.media = .video
  · refine sync_of_length_syncSamples ?_
    by_contra hne
    exact hcond ⟨hvideo, hne⟩
  · exact hother hvideo

/-! ### The budget of a file -/

/-- The budget covers the samples of a track. -/
def Granted (budget : SampleBudget) (t : MuxTrack) : Prop :=
  (budget.claim t.samples.length (writeStsz t.samples).uniform).isSome

variable {budget : SampleBudget}

lemma granted_of_le (hleft : t.samples.length ≤ budget.left)
    (hbytes : t.bytes ≤ budget.fileSize) (hlength : t.samples.length ≤ maxSamples) : Granted budget t := by
  refine claim_isSome_iff.mpr ⟨hleft, hlength, fun hpos => ?_⟩
  obtain ⟨size, _, hall, heq⟩ | heq := writeStsz_cases t.samples
  · have hsum : t.bytes = t.samples.length * size := by
      rw [MuxTrack.bytes, map_congr_left hall]
      simp
    rw [heq]
    exact hsum ▸ hbytes
  · rw [heq] at hpos
    exact absurd hpos (by simp)

lemma length_le_bytes {tracks : List MuxTrack} (h : ∀ t ∈ tracks, ∀ s ∈ t.samples, 0 < s.size) :
    (tracks.map (·.samples.length)).sum ≤ (tracks.map MuxTrack.bytes).sum := by
  refine sum_le_sum fun t ht => ?_
  rw [← length_map (f := (·.size))]
  refine length_le_sum_of_one_le _ fun size hsize => ?_
  obtain ⟨s, hs, rfl⟩ := mem_map.mp hsize
  exact h t ht s hs

/-- The tables of a track are read where its samples are granted. -/
def ReadsIfGranted (t : MuxTrack) : Prop :=
  ∀ budget, Granted budget t → ∃ read, (parseStbl budget t.writeStbl).1.build = .ok read

lemma parseTrak_writeStbl {read : List Sample}
    (hsizes : ∀ s ∈ t.samples, 0 < s.size) (hclaim : Granted budget t)
    (hbuild : (parseStbl budget t.writeStbl).1.build = .ok read) : parseTrak budget t.writeStbl =
      .ok (read, { budget with left := budget.left - t.samples.length }) := by
  have hbudget : (parseStbl budget t.writeStbl).2 =
      { budget with left := budget.left - t.samples.length } := by
    refine congrArg Prod.snd (parseStsz_writeStsz (fun hne => ?_) hclaim)
    obtain ⟨s, hs⟩ := exists_mem_of_ne_nil _ hne
    exact ⟨s, hs, (hsizes s hs).ne'⟩
  show (parseStbl budget t.writeStbl).1.build.map _ = _
  rw [hbuild, ← hbudget]
  rfl

lemma parseMovie_cons {budget' : SampleBudget} {stbl : Stbl} {stbls : List Stbl} {samples : List Sample}
    {read : List (List Sample)} (htrak : parseTrak budget stbl = .ok (samples, budget'))
    (hrest : parseMovie budget' stbls = .ok read) :
    parseMovie budget (stbl :: stbls) = .ok (samples :: read) := by
  rw [parseMovie, htrak, ok_bind]
  dsimp only
  rw [hrest]
  rfl

/-- **Tracks within the budget are read one by one**, each with its samples granted. -/
lemma parseMovie_writeStbl : ∀ {tracks : List MuxTrack} {budget : SampleBudget},
    (∀ t ∈ tracks, ReadsIfGranted t) → (∀ t ∈ tracks, ∀ s ∈ t.samples, 0 < s.size) →
    (∀ t ∈ tracks, t.samples.length ≤ maxSamples) →
    (tracks.map (·.samples.length)).sum ≤ budget.left →
    (tracks.map MuxTrack.bytes).sum ≤ budget.fileSize →
      ∃ read, parseMovie budget (tracks.map writeStbl) = .ok read ∧
        ∀ (i : ℕ) (t : MuxTrack), tracks[i]? = some t → ∃ budget samples, read[i]? = some samples ∧
          Granted budget t ∧ (parseStbl budget t.writeStbl).1.build = .ok samples
  | [], _, _, _, _, _, _ => ⟨[], rfl, by simp⟩
  | t :: tracks, budget, hread, hsizes, hlengths, hcount, hbytes => by
    rw [map_cons, sum_cons] at hcount hbytes
    have hclaim : Granted budget t := granted_of_le
      ((Nat.le_add_right _ _).trans hcount) ((Nat.le_add_right _ _).trans hbytes)
      (hlengths t mem_cons_self)
    obtain ⟨samples, hbuild⟩ := hread t mem_cons_self budget hclaim
    obtain ⟨rest, hrest, htracks⟩ := @parseMovie_writeStbl tracks
      { budget with left := budget.left - t.samples.length }
      (fun t ht => hread t (mem_cons_of_mem _ ht)) (fun t ht => hsizes t (mem_cons_of_mem _ ht))
      (fun t ht => hlengths t (mem_cons_of_mem _ ht)) (Nat.le_sub_of_add_le' hcount)
      ((Nat.le_add_left _ _).trans hbytes)
    refine ⟨samples :: rest, parseMovie_cons
      (parseTrak_writeStbl (hsizes t mem_cons_self) hclaim hbuild) hrest, fun i t' ht' => ?_⟩
    cases i with
    | zero =>
      cases ht'
      exact ⟨budget, samples, rfl, hclaim, hbuild⟩
    | succ i => exact htracks i t' ht'

lemma build_of_sizes_eq_nil {tables : SampleTables} (h : tables.sizes = []) : tables.build = .ok [] := by
  unfold SampleTables.build
  rw [h]
  rfl

lemma parseTrak_of_refused (h : ¬ Granted budget t) :
    ∃ budget', parseTrak budget t.writeStbl = .ok ([], budget') := by
  refine ⟨(parseStbl budget t.writeStbl).2, ?_⟩
  show (parseStbl budget t.writeStbl).1.build.map _ = _
  rw [build_of_sizes_eq_nil (parseStsz_writeStsz_eq_nil (.inr h))]
  rfl

/-- **Tracks that are read back whole are within the budget**: one that is refused reads as empty. -/
lemma sum_le_of_parseMovie : ∀ {tracks : List MuxTrack} {budget : SampleBudget} {read : List (List Sample)},
    parseMovie budget (tracks.map writeStbl) = .ok read → (∀ t ∈ tracks, ∀ s ∈ t.samples, 0 < s.size) →
    (∀ (i : ℕ) (t : MuxTrack), tracks[i]? = some t →
      ∃ samples, read[i]? = some samples ∧ samples.length = t.samples.length) →
    (tracks.map (·.samples.length)).sum ≤ budget.left
  | [], _, _, _, _, _ => Nat.zero_le _
  | t :: tracks, budget, read, h, hsizes, hlengths => by
    obtain ⟨⟨samples, budget'⟩, htrak, h⟩ := bind_eq_ok.mp h
    obtain ⟨rest, hrest, h⟩ := bind_eq_ok.mp h
    obtain rfl := pure_eq_ok.mp h
    obtain ⟨_, hfirst, hlength⟩ := hlengths 0 t rfl
    cases hfirst
    by_cases hgranted : Granted budget t
    · obtain ⟨_, hbuild, -⟩ := map_eq_ok.mp htrak
      have heq := parseTrak_writeStbl (hsizes t mem_cons_self) hgranted hbuild
      rw [htrak] at heq
      cases heq
      have hle := (claim_isSome_iff.mp hgranted).1
      have hsum := sum_le_of_parseMovie hrest (fun t ht => hsizes t (mem_cons_of_mem _ ht))
        fun i t ht => hlengths (i + 1) t ht
      rw [map_cons, sum_cons]
      exact Nat.add_le_of_le_sub' hle hsum
    · obtain ⟨_, heq⟩ := parseTrak_of_refused hgranted
      rw [htrak] at heq
      cases heq
      have hnil : t.samples = [] := length_eq_zero_iff.mp hlength.symm
      exact absurd (granted_of_le (by simp [hnil]) (by simp [MuxTrack.bytes, hnil]) (by simp [hnil])) hgranted

/-! ### The samples of a track -/

/-- A sample gives its packet back: its bytes in the file, its flag, and its composition offset. -/
structure GivesBack (file : Bytes) (t : MuxTrack) (p : MuxPacket) (s : Sample) : Prop where
  payload : ∃ offset : ℕ, s.offset = offset ∧ byteRange file offset s.size = p.payload
  keyframe : s.keyframe = (p.keyframe || t.media ≠ .video)
  composition : ∃ dts pts, ticksOf t.timescale p = some (dts, pts) ∧ s.cts - s.dts = pts - dts

lemma forall₂_readBack {R : MuxPacket → MuxSample → Prop} {R' : MuxPacket → Sample → Prop}
    {allSync : Bool} {packets : List MuxPacket} (h : List.Forall₂ R packets samples)
    (hR : ∀ p s dts, R p s → R' p
      { offset := s.offset
        size := s.size
        dts
        cts := dts + int32 s.cts
        keyframe := allSync || s.sync }) :
    ∀ {dts : List ℤ}, dts.length = samples.length →
      List.Forall₂ R' packets (readBack allSync samples dts) := by
  induction h with
  | nil => exact fun _ => .nil
  | cons hp _ ih =>
    intro dts hlength
    match dts, hlength with
    | d :: dts, hlength => exact .cons (hR _ _ d hp) (ih (Nat.succ.inj hlength))

def plainCodecs : List CodecID := [codecVP8, codecVP9, codecOpus, codecFLAC]

lemma plainCodecs_disjoint {codec : CodecID} (h : codec ∈ plainCodecs) :
    codec ∉ [codecH264, codecHEVC, codecAV1, codecAAC] := by
  revert codec
  decide

lemma sampleData_of_plain {env : Env} (h : t.codec ∈ plainCodecs) (payload : Bytes) :
    t.sampleData env payload = .ok payload :=
  if_neg (plainCodecs_disjoint h)

section

variable {env : Env} {m : FormatMuxer} {t : MuxTrack} {packets : List MuxPacket} {budget : SampleBudget}

lemma FinishedOk.build_of_nil (h : FinishedOk env m t []) :
    (parseStbl budget t.writeStbl).1.build = .ok [] := by
  have hsamples : t.samples = [] := forall₂_nil_left_iff.mp h.samples
  refine build_of_sizes_eq_nil (parseStsz_writeStsz_eq_nil (.inl ?_))
  simp [hsamples]

lemma FinishedOk.size_pos (h : FinishedOk env m t packets) (hcodec : t.codec ∈ plainCodecs)
    (hpayloads : ∀ p ∈ packets, p.payload ≠ []) : ∀ s ∈ t.samples, 0 < s.size := by
  intro s hs
  obtain ⟨p, hp, hsample⟩ := forall₂_exists_left h.samples hs
  have hdata := hsample.data
  rw [sampleData_of_plain hcodec, Except.ok.injEq] at hdata
  by_contra hzero
  refine hpayloads p hp (hdata.trans ?_)
  simp [byteRange, Nat.eq_zero_of_not_pos hzero]

/-- **The tables of a track give its packets back**, if its samples are granted. -/
lemma FinishedOk.gives_back (h : FinishedOk env m t packets) (hcodec : t.codec ∈ plainCodecs)
    (hpayloads : ∀ p ∈ packets, p.payload ≠ [])
    (hoffsets : ∀ p ∈ packets, ∀ dts pts, ticksOf t.timescale p = some (dts, pts) →
      -2 ^ 31 ≤ pts - dts ∧ pts - dts < 2 ^ 31)
    (hclaim : Granted budget t) :
    ∃ samples, (parseStbl budget t.writeStbl).1.build = .ok samples ∧
      List.Forall₂ (GivesBack m.file t) packets samples := by
  obtain rfl | hne := eq_or_ne packets []
  · exact ⟨[], h.build_of_nil, .nil⟩
  have hother : t.media ≠ .video → ∀ s ∈ t.samples, s.sync = true := by
    intro hmedia s hs
    obtain ⟨p, _, hsample⟩ := forall₂_exists_left h.samples hs
    simp [hsample.sync, hmedia]
  have hsamplesNe : t.samples ≠ [] := by
    rintro heq
    have hlength := h.samples.length_eq
    rw [heq] at hlength
    exact hne (length_eq_zero_iff.mp hlength)
  obtain ⟨s₀, hs₀⟩ := exists_mem_of_ne_nil _ hsamplesNe
  refine ⟨_, build_writeStbl h.chunked h.inOrder
    ⟨s₀, hs₀, (h.size_pos hcodec hpayloads s₀ hs₀).ne'⟩ hclaim, ?_⟩
  refine forall₂_readBack (forall₂_mem h.samples) (fun p s dts hps => ?_) (by simp)
  obtain ⟨hp, hs, hsample⟩ := hps
  obtain ⟨pts, hticks, hcts⟩ := hsample.times
  obtain ⟨hlo, hhi⟩ := hoffsets p hp _ _ hticks
  refine ⟨⟨s.offset, rfl, ?_⟩, ?_, s.dts, pts, hticks, ?_⟩
  · have hdata := hsample.data
    rw [sampleData_of_plain hcodec, Except.ok.injEq] at hdata
    exact hdata.symm
  · rw [← hsample.sync]
    cases hnone : t.writeStss.isNone with
    | false => rfl
    | true => rw [sync_of_writeStss hother hnone s hs, Bool.or_true]
  · show dts + int32 s.cts - dts = pts - s.dts
    rw [hcts, int64_eq (by omega) (by omega), int32_eq hlo hhi]
    omega

end

section

variable {env : Env} {file : Bytes} {offset : ℕ} {capacity : Fin (2 ^ 63)} {streams : List MuxStream}
  {m₀ m : FormatMuxer} {r : MuxRun} {calls : List (Option Err × Option MuxPacket)}

lemma payload_of_packetsOf {accepted : List (ℕ × MuxPacket)}
    (h : ∀ taken ∈ accepted, taken.2.payload ≠ []) (i : ℕ) :
    ∀ p ∈ packetsOf accepted i, p.payload ≠ [] := by
  intro p hp
  obtain ⟨taken, htaken, rfl⟩ := mem_map.mp hp
  exact h taken (mem_of_mem_filter htaken)

lemma codec_of_streams (hstreams : m.tracks.map (·.codec) = streams.map (·.codec.id))
    (hcodecs : ∀ stream ∈ streams, stream.codec.id ∈ plainCodecs) {t : MuxTrack} (ht : t ∈ m.tracks) :
    t.codec ∈ plainCodecs := by
  have hmem : t.codec ∈ m.tracks.map (·.codec) := mem_map_of_mem ht
  rw [hstreams] at hmem
  obtain ⟨stream, hstream, heq⟩ := mem_map.mp hmem
  exact heq ▸ hcodecs stream hstream

section

variable (hopen : openOutput env true file offset capacity 0 streams = .ok m₀)
  (hcodecs : ∀ stream ∈ streams, stream.codec.id ∈ plainCodecs)
  (hclose : (MuxRun.writeAll env m₀ calls).muxer.close env = (m, none))
  (hpayloads : ∀ taken ∈ (MuxRun.writeAll env m₀ calls).accepted, taken.2.payload ≠ [])
include hopen hcodecs hclose hpayloads

lemma size_pos_of_mem : ∀ t ∈ m.tracks, ∀ s ∈ t.samples, 0 < s.size := by
  intro t ht
  obtain ⟨-, hstreams, htracks⟩ := finishedOk_close hopen hclose
  obtain ⟨i, hi⟩ := getElem?_of_mem ht
  exact (htracks i t hi).size_pos (codec_of_streams hstreams hcodecs ht) (payload_of_packetsOf hpayloads i)

lemma length_le_of_given {read : List (List Sample)}
    (hread : parseMovie (newSampleBudget m.file.length) m.tables = .ok read)
    (hgiven : ∀ i t, m.tracks[i]? = some t → ∃ samples, read[i]? = some samples ∧
      List.Forall₂ (GivesBack m.file t) (packetsOf (MuxRun.writeAll env m₀ calls).accepted i) samples) :
    (MuxRun.writeAll env m₀ calls).accepted.length ≤ maxFileSamples := by
  obtain ⟨htables, -, htracks⟩ := finishedOk_close hopen hclose
  rw [← (totals_close hopen hclose).1]
  rw [htables] at hread
  refine (sum_le_of_parseMovie hread (size_pos_of_mem hopen hcodecs hclose hpayloads) fun i t ht => ?_).trans
    (min_le_right _ _)
  obtain ⟨samples, hsamples, hback⟩ := hgiven i t ht
  exact ⟨samples, hsamples, hback.length_eq.symm.trans (htracks i t ht).samples.length_eq⟩

end

/-- **A progressive file gives its packets back exactly if they are no more than `maxFileSamples`**, with
codecs stored unchanged, payloads that are not empty, offsets of 32 bits, and at most `maxSamples` packets
a track. -/
theorem progressive_round_trip (hopen : openOutput env true file offset capacity 0 streams = .ok m₀)
    (hcodecs : ∀ stream ∈ streams, stream.codec.id ∈ plainCodecs)
    (hr : MuxRun.writeAll env m₀ calls = r) (hclose : r.muxer.close env = (m, none))
    (hpayloads : ∀ taken ∈ r.accepted, taken.2.payload ≠ [])
    (hoffsets : ∀ i t, m.tracks[i]? = some t → ∀ p ∈ packetsOf r.accepted i, ∀ dts pts,
      ticksOf t.timescale p = some (dts, pts) → -2 ^ 31 ≤ pts - dts ∧ pts - dts < 2 ^ 31)
    (hcounts : ∀ i, (packetsOf r.accepted i).length ≤ maxSamples) :
    (∃ read, parseMovie (newSampleBudget m.file.length) m.tables = .ok read ∧
      ∀ i t, m.tracks[i]? = some t → ∃ samples, read[i]? = some samples ∧
        List.Forall₂ (GivesBack m.file t) (packetsOf r.accepted i) samples) ↔
      r.accepted.length ≤ maxFileSamples := by
  subst hr
  refine ⟨fun ⟨_, hread, hgiven⟩ => length_le_of_given hopen hcodecs hclose hpayloads hread hgiven,
    fun htotal => ?_⟩
  obtain ⟨htables, hstreams, htracks⟩ := finishedOk_close hopen hclose
  obtain ⟨hcount, hbytes⟩ := totals_close hopen hclose
  have hsizes := size_pos_of_mem hopen hcodecs hclose hpayloads
  generalize MuxRun.writeAll env m₀ calls = r at *
  have hback : ∀ i t, m.tracks[i]? = some t → ∀ budget, Granted budget t →
      ∃ samples, (parseStbl budget t.writeStbl).1.build = .ok samples ∧
        List.Forall₂ (GivesBack m.file t) (packetsOf r.accepted i) samples := fun i t ht budget =>
    (htracks i t ht).gives_back (codec_of_streams hstreams hcodecs (mem_of_getElem? ht))
      (payload_of_packetsOf hpayloads i) (hoffsets i t ht)
  obtain ⟨read, hread, hall⟩ := @parseMovie_writeStbl m.tracks (newSampleBudget m.file.length)
    (fun t ht budget hclaim => by
      obtain ⟨i, hi⟩ := getElem?_of_mem ht
      obtain ⟨samples, hsamples, -⟩ := hback i t hi budget hclaim
      exact ⟨samples, hsamples⟩)
    hsizes
    (fun t ht => by
      obtain ⟨i, hi⟩ := getElem?_of_mem ht
      exact (htracks i t hi).samples.length_eq ▸ hcounts i)
    (le_min ((length_le_bytes hsizes).trans hbytes) (hcount ▸ htotal)) hbytes
  refine ⟨read, htables ▸ hread, fun i t ht => ?_⟩
  obtain ⟨budget, samples, hi, hclaim, hbuild⟩ := hall i t ht
  obtain ⟨samples', hbuild', hgives⟩ := hback i t ht budget hclaim
  rw [hbuild] at hbuild'
  cases hbuild'
  exact ⟨samples, hi, hgives⟩

end

/-- An environment in which no box has bytes, no time passes and no codec needs a configuration. -/
def bareEnv : Env where
  configure := fun _ => .ok (true, 0)
  convert := fun _ payload => .ok payload
  carriesConfig := fun _ _ => false
  ticksNS := fun _ _ => 0
  nsTicks := fun _ _ => 0
  spanTicks := fun _ _ => 0
  ftyp := fun _ _ => []
  moov := fun _ _ => []
  moof := fun _ _ => []

def videoStream : MuxStream := { id := "v", type := .video, codec := { id := codecVP8 } }

def audioStream : MuxStream := { id := "a", type := .audio, codec := { id := codecOpus } }

def packetAt (id : StreamID) (dts pts : ℤ) (keyframe : Bool) (payload : Bytes) : MuxPacket :=
  { streamID := id
    dts := { value := dts, base := { num := 1, den := 1000 } }
    pts := { value := pts, base := { num := 1, den := 1000 } }
    keyframe
    payload }

def interleavedCalls : List (Option Err × Option MuxPacket) :=
  [(none, packetAt "v" 0 0 true [1, 2]), (none, packetAt "v" 10 30 false [3]),
    (none, packetAt "a" 0 0 false [4, 5]), (none, packetAt "v" 20 20 false [6])]

def interleavedMuxer : FormatMuxer :=
  (openOutput bareEnv true [] 0 1000 0 [videoStream, audioStream]).toOption.get (by decide)

def interleavedRun : MuxRun := MuxRun.writeAll bareEnv interleavedMuxer interleavedCalls

theorem progressive_round_trip_interleaved :
    openOutput bareEnv true [] 0 1000 0 [videoStream, audioStream] = .ok interleavedMuxer ∧
    (packetsOf interleavedRun.accepted 0).length = 3 ∧
    ∃ m, interleavedRun.muxer.close bareEnv = (m, none) ∧
      ∃ read, parseMovie (newSampleBudget m.file.length) m.tables = .ok read ∧
        ∀ i t, m.tracks[i]? = some t → ∃ samples, read[i]? = some samples ∧
          List.Forall₂ (GivesBack m.file t) (packetsOf interleavedRun.accepted i) samples := by
  have hoffsets : ∀ t ∈ (interleavedRun.muxer.close bareEnv).1.tracks, ∀ taken ∈ interleavedRun.accepted,
      (ticksOf t.timescale taken.2).all fun times =>
        -2 ^ 31 ≤ times.2 - times.1 ∧ times.2 - times.1 < 2 ^ 31 := by decide
  have hopen : openOutput bareEnv true [] 0 1000 0 [videoStream, audioStream] =
      .ok interleavedMuxer := rfl
  have hrun : MuxRun.writeAll bareEnv interleavedMuxer interleavedCalls = interleavedRun := rfl
  have hclose : interleavedRun.muxer.close bareEnv =
      ((interleavedRun.muxer.close bareEnv).1, none) := Prod.ext rfl (by decide)
  refine ⟨hopen, by decide, _, hclose, ?_⟩
  refine (progressive_round_trip hopen (by decide) hrun hclose (by decide) ?_ ?_).mpr (by decide)
  · intro i t ht p hp dts pts hticks
    obtain ⟨taken, htaken, rfl⟩ := mem_map.mp hp
    have h := hoffsets t (mem_of_getElem? ht) taken (mem_of_mem_filter htaken)
    rw [hticks] at h
    simpa using h
  · intro i
    have hle : (packetsOf interleavedRun.accepted i).length ≤ interleavedRun.accepted.length := by
      unfold packetsOf
      rw [length_map]
      exact length_filter_le _ _
    exact hle.trans (by decide)

/-! ### More samples than a file may have -/

def crowdedIDs : List StreamID := ["v", "a", "b"]

/-- One byte at the time zero, of a stream. -/
def bytePacket (i : Fin 3) : MuxPacket := packetAt (crowdedIDs.get i) 0 0 true [0]

lemma eq_of_ticksOf_bytePacket {i : Fin 3} {timescale : ℕ} {dts pts : ℤ}
    (h : ticksOf timescale (bytePacket i) = some (dts, pts)) : dts = pts := by
  unfold ticksOf bytePacket packetAt at h
  dsimp only at h
  split at h
  · cases h
  · dsimp only at h
    split at h <;> cases h <;> rfl

def crowdedStreams : List MuxStream := crowdedIDs.map fun id => { audioStream with id }

def crowdedMuxer : FormatMuxer :=
  (openOutput bareEnv true [] 0 4294967296 0 crowdedStreams).toOption.get (by decide)

def crowdedPackets (n : ℕ) : List (Fin 3) := replicate n 0 ++ replicate n 1 ++ replicate n 2

lemma length_crowdedPackets (n : ℕ) : (crowdedPackets n).length = 3 * n := by
  simp [crowdedPackets]
  omega

lemma length_filter_crowdedPackets (n i : ℕ) : ((crowdedPackets n).filter (·.val = i)).length ≤ n := by
  simp only [crowdedPackets, filter_append, length_append]
  rcases i with - | - | - | i <;> simp

def crowdedCalls : List (Option Err × Option MuxPacket) :=
  (crowdedPackets maxSamples).map fun i => (none, bytePacket i)

/-- What the bytes leave as it is: there is room for `n` more, and all are at zero. -/
structure TakesBytes (m : FormatMuxer) (n : ℕ) : Prop where
  seekable : m.seekable = true
  closed : m.closed = false
  err : m.err = none
  room : m.offset + n ≤ m.capacity
  tracks : m.tracks.map (fun t => (t.streamID, t.codec, t.timescale)) =
    crowdedIDs.map fun id => (id, codecOpus, 48000)
  dts : ∀ t ∈ m.tracks, ∀ s ∈ t.samples.getLast?, s.dts = 0

section

variable {m : FormatMuxer} {n : ℕ} {t : MuxTrack}

lemma TakesBytes.kind (h : TakesBytes m n) (ht : t ∈ m.tracks) : t.codec = codecOpus ∧ t.timescale = 48000 := by
  have hkind := mem_map_of_mem (f := fun t : MuxTrack => (t.streamID, t.codec, t.timescale)) ht
  rw [h.tracks] at hkind
  obtain ⟨id, -, heq⟩ := mem_map.mp hkind
  obtain ⟨-, hkind⟩ := Prod.mk.inj heq
  exact ⟨(Prod.mk.inj hkind).1.symm, (Prod.mk.inj hkind).2.symm⟩

lemma TakesBytes.takes (h : TakesBytes m n) (i : Fin 3) : ∃ t, Takes bareEnv m (bytePacket i) i t 0 0 [0] := by
  have hids : ∀ j : ℕ, m.tracks[j]?.map (·.streamID) = crowdedIDs[j]? := by
    intro j
    have heq := congrArg (fun l => (l.map Prod.fst)[j]?) h.tracks
    simpa [Function.comp_def] using heq
  have hlength : m.tracks.length = 3 := by simpa [crowdedIDs] using congrArg length h.tracks
  have hstream : m.byStream (crowdedIDs.get i) = some i.val := by
    unfold byStream
    simp only [hlength, hids]
    revert i
    decide
  have hlt : i.val < m.tracks.length := by omega
  have hmem : m.tracks[i.val] ∈ m.tracks := getElem_mem hlt
  obtain ⟨hcodec, htimescale⟩ := h.kind hmem
  refine ⟨_, h.err, hstream, getElem?_eq_getElem hlt, ?_, sampleData_of_plain (hcodec ▸ by decide) _, by decide⟩
  unfold MuxTrack.times
  rw [htimescale, show ticksOf 48000 (bytePacket i) = some (0, 0) from rfl]
  cases hlast : m.tracks[i.val].samples.getLast? with
  | none => rfl
  | some s => simp [h.dts _ hmem s hlast]

lemma MuxRun.write_of_takes {env : Env} {r : MuxRun} {p : MuxPacket} {i : ℕ} {dts pts : ℤ} {data : Bytes}
    (h : Takes env r.muxer p i t dts pts data) (hclosed : r.muxer.closed = false)
    (hm : (r.muxer.modifyTrack i (·.learn env p.payload)).put env i (entryOf t p dts pts data) = m)
    (herr : m.err = none) :
    r.write env (none, p) = { muxer := m, accepted := r.accepted ++ [(i, p)] } := by
  have hwrite : r.muxer.writePacket env none p = (m, m.err) := by
    subst hm
    simp only [writePacket, hclosed, h.err, h.stream, h.track, h.times, h.sample,
      if_neg (Nat.not_lt.mpr h.le)]
    rfl
  unfold MuxRun.write
  simp only [hwrite, herr, Option.bind_some, h.stream, Option.map_some]

lemma TakesBytes.write {r : MuxRun} (h : TakesBytes r.muxer (n + 1)) (i : Fin 3) :
    ∃ m, TakesBytes m n ∧ r.write bareEnv (none, bytePacket i) =
      { muxer := m, accepted := r.accepted ++ [(i.val, bytePacket i)] } := by
  obtain ⟨t, htakes⟩ := h.takes i
  have hroom := h.room
  have hmin : min 1 (r.muxer.capacity - r.muxer.offset) = 1 := by omega
  have herr : (FormatMuxer.write { r.muxer with
      last := some i.val } [0]).err = none := by
    simp [FormatMuxer.write, hmin, h.err]
  refine ⟨_, ?_, MuxRun.write_of_takes htakes h.closed (put_seekable h.seekable h.err) herr⟩
  refine ⟨h.seekable, h.closed, herr, ?_, ?_, fun t' ht' s hs => ?_⟩
  · simp only [FormatMuxer.write, entryOf, length_singleton]
    omega
  · rw [← h.tracks]
    exact map_modifyTrack (f := putTrack bareEnv r.muxer i _ _) (fun _ => rfl) _
  · obtain ⟨j, hj⟩ := getElem?_of_mem ht'
    change (r.muxer.tracks.modify _ _)[j]? = _ at hj
    rw [getElem?_modify] at hj
    split at hj
    · obtain ⟨t₀, -, rfl⟩ := Option.map_eq_some_iff.mp hj
      -- the new sample is the last one
      change s ∈ (_ ++ [_]).getLast? at hs
      rw [getLast?_concat] at hs
      cases hs
      rfl
    · exact h.dts t' (mem_of_getElem? (by simpa using hj)) s hs

lemma TakesBytes.writeAll : ∀ {l : List (Fin 3)} {r : MuxRun}, TakesBytes r.muxer (n + l.length) →
    ∃ m, TakesBytes m n ∧ (l.map fun i => ((none : Option Err), some (bytePacket i))).foldl
      (MuxRun.write bareEnv) r = { muxer := m, accepted := r.accepted ++ l.map fun i => (i.val, bytePacket i) }
  | [], r, h => ⟨r.muxer, h, by simp⟩
  | i :: l, r, h => by
    obtain ⟨m, hm, hwrite⟩ := h.write i
    obtain ⟨m', hm', hrest⟩ :=
      @TakesBytes.writeAll l { muxer := m, accepted := r.accepted ++ [(i.val, bytePacket i)] } hm
    refine ⟨m', hm', ?_⟩
    rw [map_cons, foldl_cons, hwrite, hrest]
    simp

lemma TakesBytes.close (h : TakesBytes m n) : m.close bareEnv = ((m.close bareEnv).1, none) := by
  have hready : (m.tracks.map finish).any (!·.ready) = false := by
    rw [any_map, any_eq_false]
    intro t ht
    have hready : t.ready = true := by
      unfold ready
      rw [(h.kind ht).1]
      exact Bool.or_true _
    simpa using show t.finish.ready = true from hready
  simp [FormatMuxer.close, h.closed, h.err, h.seekable, finishProgressive, hready, FormatMuxer.write, bareEnv]

end

/-- **Three full tracks of one-byte samples**: every condition on the packets and the tracks holds, and they
are not all given back. -/
theorem progressive_loses_track :
    openOutput bareEnv true [] 0 4294967296 0 crowdedStreams = .ok crowdedMuxer ∧
    (∀ stream ∈ crowdedStreams, stream.codec.id ∈ plainCodecs) ∧
    ∃ r m, MuxRun.writeAll bareEnv crowdedMuxer crowdedCalls = r ∧ r.muxer.close bareEnv = (m, none) ∧
      (∀ taken ∈ r.accepted, taken.2.payload ≠ []) ∧
      (∀ i t, m.tracks[i]? = some t → ∀ p ∈ packetsOf r.accepted i, ∀ dts pts,
        ticksOf t.timescale p = some (dts, pts) → -2 ^ 31 ≤ pts - dts ∧ pts - dts < 2 ^ 31) ∧
      (∀ i, (packetsOf r.accepted i).length ≤ maxSamples) ∧
      ¬ ∃ read, parseMovie (newSampleBudget m.file.length) m.tables = .ok read ∧
        ∀ i t, m.tracks[i]? = some t → ∃ samples, read[i]? = some samples ∧
          List.Forall₂ (GivesBack m.file t) (packetsOf r.accepted i) samples := by
  have hopen : openOutput bareEnv true [] 0 4294967296 0 crowdedStreams = .ok crowdedMuxer := rfl
  have hcodecs : ∀ stream ∈ crowdedStreams, stream.codec.id ∈ plainCodecs := by decide
  have htakes : TakesBytes crowdedMuxer (0 + (crowdedPackets maxSamples).length) := by
    rw [length_crowdedPackets]
    constructor <;> decide
  obtain ⟨muxer, hmuxer, hrun⟩ := htakes.writeAll (r := { muxer := crowdedMuxer })
  change MuxRun.writeAll bareEnv crowdedMuxer crowdedCalls = _ at hrun
  have hbyte : ∀ taken ∈ (crowdedPackets maxSamples).map fun i => (i.val, bytePacket i),
      ∃ i, taken.2 = bytePacket i := by
    intro taken htaken
    obtain ⟨i, -, rfl⟩ := mem_map.mp htaken
    exact ⟨i, rfl⟩
  have hpayloads : ∀ taken ∈ (MuxRun.writeAll bareEnv crowdedMuxer crowdedCalls).accepted,
      taken.2.payload ≠ [] := by
    intro taken htaken
    rw [hrun] at htaken
    obtain ⟨i, hi⟩ := hbyte taken htaken
    rw [hi]
    exact cons_ne_nil _ _
  have hclose : (MuxRun.writeAll bareEnv crowdedMuxer crowdedCalls).muxer.close bareEnv =
      ((muxer.close bareEnv).1, none) := by
    rw [hrun]
    exact hmuxer.close
  refine ⟨hopen, hcodecs, _, _, rfl, hclose, hpayloads, fun i t _ p hp dts pts hticks => ?_, fun i => ?_,
    fun ⟨_, hread, hgiven⟩ => ?_⟩
  · rw [hrun] at hp
    obtain ⟨taken, htaken, rfl⟩ := mem_map.mp hp
    obtain ⟨j, hj⟩ := hbyte taken (mem_of_mem_filter htaken)
    rw [hj] at hticks
    rw [eq_of_ticksOf_bytePacket hticks, sub_self]
    decide
  · rw [hrun, packetsOf, length_map]
    rw [nil_append, filter_map, length_map]
    exact length_filter_crowdedPackets maxSamples i
  · have hle := length_le_of_given hopen hcodecs hclose hpayloads hread hgiven
    rw [hrun] at hle
    rw [nil_append, length_map, length_crowdedPackets] at hle
    exact absurd hle (by decide)

end Goav.Mp4
