import Goav.Lib.Except
import Goav.Mp4.MuxSteps

/-!
A progressive file: the samples of a track are those of its packets, each at its place in the file, and
the chunks hold them.
-/

namespace Goav.Mp4

open Goav.Av Goav.Lib MuxTrack List FormatMuxer

/-! ### Lists -/

section

variable {α β : Type*} {R : α → β → Prop}

lemma forall₂_concat_left {a : α} : ∀ {l : List α} {l' : List β}, List.Forall₂ R (l ++ [a]) l' →
    ∃ init b, l' = init ++ [b] ∧ List.Forall₂ R l init ∧ R a b
  | [], _, .cons hb .nil => ⟨[], _, rfl, .nil, hb⟩
  | _ :: _, _, .cons hb hrest => by
    obtain ⟨init, b', rfl, hinit, hb'⟩ := forall₂_concat_left hrest
    exact ⟨_ :: init, b', rfl, .cons hb hinit, hb'⟩

variable {l' : List β} {l : List α}

lemma forall₂_concat {a : α} {b : β} (h : List.Forall₂ R l l')
    (hab : R a b) : List.Forall₂ R (l ++ [a]) (l' ++ [b]) :=
  rel_append h (.cons hab .nil)

lemma forall₂_mem (h : List.Forall₂ R l l') : List.Forall₂ (fun a b => a ∈ l ∧ b ∈ l' ∧ R a b) l l' := by
  induction h with
  | nil => exact .nil
  | cons hab _ ih =>
    refine .cons ⟨mem_cons_self, mem_cons_self, hab⟩ (ih.imp fun a b hab => ?_)
    exact ⟨mem_cons_of_mem _ hab.1, mem_cons_of_mem _ hab.2.1, hab.2.2⟩

lemma sum_map_modify {f : α → α} {g : α → ℕ} {k : ℕ} {a : α} : ∀ {l : List α} {i : ℕ}, l[i]? = some a →
    g (f a) = g a + k → ((l.modify i f).map g).sum = (l.map g).sum + k
  | _ :: l, 0, h, hk => by
    cases h
    simp only [modify_zero_cons, map_cons, sum_cons, hk]
    omega
  | b :: l, i + 1, h, hk => by
    simp only [modify_succ_cons, map_cons, sum_cons, sum_map_modify (l := l) (i := i) h hk]
    omega

lemma forall₂_exists_left (h : List.Forall₂ R l l') {b : β} (hb : b ∈ l') : ∃ a ∈ l, R a b := by
  induction h with
  | nil => simp at hb
  | cons hab _ ih =>
    obtain rfl | hb := mem_cons.mp hb
    · exact ⟨_, mem_cons_self, hab⟩
    · obtain ⟨a, ha, hab⟩ := ih hb
      exact ⟨a, mem_cons_of_mem _ ha, hab⟩

end

lemma map_closeSamples {β : Type*} {f : MuxSample → β}
    (hf : ∀ (s : MuxSample) (duration : ℤ), f { s with duration } = f s) (samples : List MuxSample)
    (dts : ℤ) : (closeSamples samples dts).map f = samples.map f := by
  unfold closeSamples
  split
  · rfl
  rename_i s hs
  obtain ⟨init, rfl⟩ := getLast?_eq_some_iff.mp hs
  split
  · simp [hf]
  · rfl

lemma map_finishSamples {β : Type*} {f : MuxSample → β}
    (hf : ∀ (s : MuxSample) (duration : ℤ), f { s with duration } = f s) (samples : List MuxSample) :
    (finishSamples samples).map f = samples.map f := by
  unfold finishSamples
  split
  · rfl
  rename_i s hs
  obtain ⟨init, rfl⟩ := getLast?_eq_some_iff.mp hs
  split
  · simp [hf]
  · rfl

/-! ### Chunks -/

def placeOf (s : MuxSample) : ℕ × ℕ := (s.offset, s.size)

/-- The bytes of a track's samples. -/
def MuxTrack.bytes (t : MuxTrack) : ℕ := (t.samples.map (·.size)).sum

lemma Placed.congr {offset : ℕ} : ∀ {samples samples' : List MuxSample},
    samples.map placeOf = samples'.map placeOf → Placed offset samples → Placed offset samples'
  | [], [], _, _ => trivial
  | s :: samples, s' :: samples', heq, ⟨hoffset, hplaced⟩ => by
    obtain ⟨hplace, hrest⟩ := List.cons.inj heq
    obtain ⟨ho, hs⟩ := Prod.mk.inj hplace
    exact ⟨ho ▸ hoffset, hs ▸ Placed.congr hrest hplaced⟩

variable {samples : List MuxSample} {chunks : List MuxChunk} {s : MuxSample}

lemma Chunked.congr {samples' : List MuxSample} (heq : samples.map placeOf = samples'.map placeOf)
    (h : Chunked chunks samples) : Chunked chunks samples' := by
  obtain ⟨groups, rfl, hgroups⟩ := h
  induction hgroups generalizing samples' with
  | nil =>
    obtain rfl := map_eq_nil_iff.mp heq.symm
    exact ⟨[], rfl, .nil⟩
  | @cons c group chunks groups hgroup hgroups ih =>
    rw [flatten_cons, map_append] at heq
    obtain ⟨group', rest, rfl, hgroup', hrest⟩ := map_eq_append_iff.mp heq.symm
    obtain ⟨groups', rfl, hgroups'⟩ := ih hrest.symm
    obtain ⟨hne, hlength, hplaced⟩ := hgroup
    have hsame := congrArg List.length hgroup'
    rw [length_map, length_map] at hsame
    refine ⟨group' :: groups', rfl, .cons ⟨?_, hsame.trans hlength, hplaced.congr hgroup'.symm⟩ hgroups'⟩
    rintro rfl
    exact hne (length_eq_zero_iff.mp hsame.symm)

lemma Placed.concat : ∀ {samples : List MuxSample} {offset : ℕ},
    samples ≠ [] → (∀ last ∈ samples.getLast?, s.offset = last.offset + last.size) →
      Placed offset samples → Placed offset (samples ++ [s])
  | [x], offset, _, hlast, ⟨hoffset, _⟩ => ⟨hoffset, (hlast x rfl).trans (by rw [hoffset]), trivial⟩
  | x :: y :: samples, offset, _, hlast, ⟨hoffset, hplaced⟩ =>
    ⟨hoffset, Placed.concat (by simp) (fun last h => hlast last (by rwa [getLast?_cons_cons])) hplaced⟩

lemma Chunked.extend {c : MuxChunk} (h : Chunked (chunks ++ [c]) samples)
    (hlast : ∀ last ∈ samples.getLast?, s.offset = last.offset + last.size) :
    Chunked (chunks ++ [{ c with count := c.count + 1 }]) (samples ++ [s]) := by
  obtain ⟨groups, rfl, hgroups⟩ := h
  obtain ⟨groups, group, rfl, hgroups, hne, hlength, hplaced⟩ := forall₂_concat_left hgroups
  refine ⟨groups ++ [group ++ [s]], by simp, forall₂_concat hgroups ⟨by simp, by simp [hlength], ?_⟩⟩
  refine hplaced.concat hne fun last h => hlast last ?_
  rw [flatten_append, flatten_singleton, getLast?_append, Option.mem_def.mp h]
  rfl

lemma Chunked.begin (s : MuxSample) (h : Chunked chunks samples) :
    Chunked (chunks ++ [{ offset := s.offset, count := 1 }]) (samples ++ [s]) := by
  obtain ⟨groups, rfl, hgroups⟩ := h
  exact ⟨groups ++ [[s]], by simp, forall₂_concat hgroups ⟨by simp, rfl, rfl, trivial⟩⟩

lemma chunked_addToChunk {continues : Bool} (h : Chunked chunks samples)
    (hlast : continues = true → ∀ last ∈ samples.getLast?, s.offset = last.offset + last.size) :
    Chunked (addToChunk chunks continues s.offset) (samples ++ [s]) := by
  unfold addToChunk
  split
  · rename_i chunk hchunk
    obtain ⟨chunks, rfl⟩ := getLast?_eq_some_iff.mp hchunk
    rw [dropLast_concat]
    exact h.extend (hlast rfl)
  · exact h.begin s

lemma map_offset_addToChunk (chunks : List MuxChunk) (continues : Bool) (offset : ℕ) :
    (addToChunk chunks continues offset).map (·.offset) = chunks.map (·.offset) ∨
      (addToChunk chunks continues offset).map (·.offset) = chunks.map (·.offset) ++ [offset] := by
  unfold addToChunk
  split
  · rename_i chunk hchunk
    obtain ⟨chunks, rfl⟩ := getLast?_eq_some_iff.mp hchunk
    exact .inl (by simp)
  · exact .inr (by simp)

/-! ### The invariant -/

structure SampleOk (env : Env) (m : FormatMuxer) (t : MuxTrack) (p : MuxPacket) (s : MuxSample) :
    Prop where
  times : ∃ pts, ticksOf t.timescale p = some (s.dts, pts) ∧ s.cts = int64 (pts - s.dts)
  sync : s.sync = (p.keyframe || t.media ≠ .video)
  data : t.sampleData env p.payload = .ok (byteRange m.file s.offset s.size)
  le : m.mdatAt + 16 ≤ s.offset
  ends : s.offset + s.size ≤ m.offset

structure TrackOk (env : Env) (m : FormatMuxer) (i : ℕ) (t : MuxTrack) (packets : List MuxPacket) :
    Prop where
  samples : List.Forall₂ (SampleOk env m t) packets t.samples
  gaps : Gaps t.timescale packets t.samples
  duration : ∀ p ∈ packets.getLast?, ∀ s ∈ t.samples.getLast?, s.duration = durationOf t.timescale p
  chunked : Chunked t.chunks t.samples
  sorted : (t.chunks.map (·.offset)).Pairwise (· ≤ ·)
  chunk_le : ∀ offset ∈ t.chunks.map (·.offset), offset ≤ m.offset
  last : m.last = some i → ∀ s ∈ t.samples.getLast?, s.offset + s.size = m.offset

structure ProgressiveOk (env : Env) (codecs : List CodecID) (m : FormatMuxer)
    (accepted : List (ℕ × MuxPacket)) : Prop where
  seekable : m.seekable = true
  closed : m.closed = false
  codecs : m.tracks.map (·.codec) = codecs
  le_capacity : m.offset ≤ m.capacity
  le_length : m.offset ≤ m.file.length
  mdat_le : m.mdatAt + 16 ≤ m.offset
  count : (m.tracks.map (·.samples.length)).sum = accepted.length
  total : (m.tracks.map MuxTrack.bytes).sum ≤ m.offset
  tracks : ∀ i t, m.tracks[i]? = some t → TrackOk env m i t (packetsOf accepted i)

section

variable {env : Env} {m m' : FormatMuxer} {i j : ℕ} {t : MuxTrack} {p : MuxPacket} {s : MuxSample}
  {packets : List MuxPacket} {data : Bytes} {accepted : List (ℕ × MuxPacket)}

lemma packetsOf_concat_self (accepted : List (ℕ × MuxPacket)) (i : ℕ) (p : MuxPacket) :
    packetsOf (accepted ++ [(i, p)]) i = packetsOf accepted i ++ [p] := by
  simp [packetsOf]

lemma packetsOf_concat_of_ne (accepted : List (ℕ × MuxPacket)) (p : MuxPacket) (h : i ≠ j) :
    packetsOf (accepted ++ [(i, p)]) j = packetsOf accepted j := by
  simp [packetsOf, h]

lemma packetsOf_concat (accepted : List (ℕ × MuxPacket)) (i : ℕ) (p : MuxPacket) :
    packetsOf (accepted ++ [(i, p)]) =
      Function.update (packetsOf accepted) i (packetsOf accepted i ++ [p]) := by
  funext j
  by_cases hij : j = i
  · subst hij
    rw [Function.update_self, packetsOf_concat_self]
  · rw [Function.update_of_ne hij, packetsOf_concat_of_ne accepted p (Ne.symm hij)]

structure Grows (m m' : FormatMuxer) (data : Bytes) : Prop where
  file : m'.file = writeAt m.file m.offset data
  offset : m'.offset = m.offset + data.length
  mdatAt : m'.mdatAt = m.mdatAt
  le_length : m.offset ≤ m.file.length

lemma SampleOk.grows (h : SampleOk env m t p s) (hgrows : Grows m m' data) : SampleOk env m' t p s := by
  refine { h with data := ?_, le := hgrows.mdatAt ▸ h.le, ends := ?_ }
  · rw [hgrows.file, byteRange_writeAt_of_le h.ends hgrows.le_length]
    exact h.data
  · rw [hgrows.offset]
    exact h.ends.trans (Nat.le_add_right _ _)

lemma TrackOk.grows (h : TrackOk env m j t packets) (hgrows : Grows m m' data)
    (hlast : m'.last ≠ some j) : TrackOk env m' j t packets := by
  have hle : m.offset ≤ m'.offset := hgrows.offset ▸ Nat.le_add_right _ _
  exact { h with
    samples := h.samples.imp fun _ _ hs => hs.grows hgrows
    chunk_le := fun offset hoffset => (h.chunk_le offset hoffset).trans hle
    last := fun heq => absurd heq hlast }

lemma sampleOk_iff : SampleOk env m t p { s with duration := 0 } ↔ SampleOk env m t p s :=
  ⟨fun h => { h with }, fun h => { h with }⟩

lemma forall₂_sampleOk {samples samples' : List MuxSample}
    (heq : samples'.map (fun s => { s with duration := 0 }) =
      samples.map fun s => { s with duration := 0 })
    (h : List.Forall₂ (SampleOk env m t) packets samples) :
    List.Forall₂ (SampleOk env m t) packets samples' := by
  have hzero : List.Forall₂ (SampleOk env m t) packets (samples.map fun s => { s with duration := 0 }) :=
    forall₂_map_right_iff.mpr (h.imp fun _ _ hs => sampleOk_iff.mpr hs)
  rw [← heq] at hzero
  exact (forall₂_map_right_iff.mp hzero).imp fun _ _ hs => sampleOk_iff.mp hs

def putTrack (env : Env) (m : FormatMuxer) (i : ℕ) (payload : Bytes) (e : Entry) (t : MuxTrack) :
    MuxTrack :=
  { ((t.learn env payload).closeLast e.dts).add e m.offset with
    chunks := addToChunk t.chunks (m.last = some i) m.offset }

lemma put_seekable {payload : Bytes} {e : Entry} (hseekable : m.seekable = true) (herr : m.err = none) :
    (m.modifyTrack i (·.learn env payload)).put env i e = ({ m with
        tracks := m.tracks.modify i (putTrack env m i payload e)
        last := some i } : FormatMuxer).write e.data := by
  unfold put cut append
  simp only [modifyTrack, hseekable, herr, Bool.not_true, Bool.false_and, Bool.false_eq_true, if_false,
    modify_modify_eq]
  rfl

lemma TrackOk.put {dts pts : ℤ} (h : TrackOk env m i t packets)
    (htakes : Takes env m p i t dts pts data) (hgrows : Grows m m' data)
    (hmdat : m.mdatAt + 16 ≤ m.offset) :
    TrackOk env m' i (putTrack env m i p.payload (entryOf t p dts pts data) t) (packets ++ [p]) := by
  have hticks := (Option.filter_eq_some_iff.mp htakes.times).1
  have hdts : dtsOf t.timescale p = dts := by simp [dtsOf, hticks]
  have hplace := map_closeSamples (f := placeOf) (fun _ _ => rfl) t.samples dts
  have hends : m.last = some i → ∀ last ∈ (closeSamples t.samples dts).getLast?,
      m.offset = last.offset + last.size := by
    intro hlast last hmem
    have hsome : placeOf last ∈ ((closeSamples t.samples dts).map placeOf).getLast? := by
      rw [getLast?_map, Option.mem_def.mp hmem]
      rfl
    rw [hplace, getLast?_map] at hsome
    obtain ⟨s, hs, heq⟩ := Option.map_eq_some_iff.mp hsome
    obtain ⟨ho, hsize⟩ := Prod.mk.inj heq
    rw [← h.last hlast s hs, ho, hsize]
  constructor
  case samples =>
    refine forall₂_concat ?_ ⟨⟨pts, hticks, rfl⟩, rfl, ?_, ?_, ?_⟩
    · have hsamples : List.Forall₂ (SampleOk env m' t) packets t.samples :=
        h.samples.imp fun _ _ hs => hs.grows hgrows
      exact (forall₂_sampleOk (map_closeSamples (fun _ _ => rfl) t.samples dts) hsamples).imp
        fun _ _ hs => { hs with }
    · show t.sampleData env p.payload = .ok (byteRange m'.file m.offset data.length)
      rw [hgrows.file, byteRange_writeAt_self]
      exact htakes.sample
    · exact hgrows.mdatAt ▸ hmdat
    · exact hgrows.offset.ge
  case gaps =>
    have hgaps := Gaps.concat (x := newSample (entryOf t p dts pts data) m.offset) hdts.symm h.gaps
      h.duration
    rw [hdts] at hgaps
    exact hgaps
  case duration =>
    intro p' hp' s hs
    rw [getLast?_concat, Option.mem_some_iff] at hp'
    rw [show (putTrack env m i p.payload (entryOf t p dts pts data) t).samples =
      closeSamples t.samples dts ++ [_] from rfl, getLast?_concat, Option.mem_some_iff] at hs
    rw [← hp', ← hs]
    rfl
  case chunked =>
    exact chunked_addToChunk (h.chunked.congr hplace.symm) fun hlast =>
      hends (of_decide_eq_true hlast)
  case sorted =>
    obtain heq | heq := map_offset_addToChunk t.chunks (m.last = some i) m.offset
    · exact heq ▸ h.sorted
    · refine heq ▸ pairwise_append.mpr ⟨h.sorted, by simp, fun offset hoffset o ho => ?_⟩
      rw [mem_singleton.mp ho]
      exact h.chunk_le offset hoffset
  case chunk_le =>
    intro offset hoffset
    rw [hgrows.offset]
    have hle : offset ≤ m.offset := by
      obtain heq | heq := map_offset_addToChunk t.chunks (m.last = some i) m.offset
      · exact h.chunk_le offset (heq ▸ hoffset)
      · obtain hoffset | hoffset := mem_append.mp (heq ▸ hoffset)
        · exact h.chunk_le offset hoffset
        · exact (mem_singleton.mp hoffset).le
    omega
  case last =>
    intro _ s hs
    rw [show (putTrack env m i p.payload (entryOf t p dts pts data) t).samples =
      closeSamples t.samples dts ++ [_] from rfl, getLast?_concat, Option.mem_some_iff] at hs
    rw [← hs, hgrows.offset]
    rfl

lemma TrackOk.learn (h : TrackOk env m i t packets) (payload : Bytes) :
    TrackOk env (m.modifyTrack j (·.learn env payload)) i (t.learn env payload) packets :=
  { h with samples := h.samples.imp fun _ _ hs => { hs with } }

variable {codecs : List CodecID}

lemma ProgressiveOk.learn (h : ProgressiveOk env codecs m accepted) (i : ℕ) (payload : Bytes) :
    ProgressiveOk env codecs (m.modifyTrack i (·.learn env payload)) accepted := by
  refine { h with codecs := ?_, count := ?_, total := ?_, tracks := ?_ }
  · rw [← h.codecs]
    exact map_modifyTrack (f := (·.learn env payload)) (fun _ => rfl) i
  · rw [map_modifyTrack (f := (·.learn env payload)) (fun _ => rfl) i]
    exact h.count
  · rw [map_modifyTrack (f := (·.learn env payload)) (fun _ => rfl) i]
    exact h.total
  · intro j t ht
    rw [modifyTrack, getElem?_modify] at ht
    split at ht
    · obtain ⟨t', ht', rfl⟩ := Option.map_eq_some_iff.mp ht
      exact (h.tracks j t' ht').learn payload
    · have hok := h.tracks j t (by simpa using ht)
      exact { hok with samples := hok.samples.imp fun _ _ hs => { hs with } }

lemma ProgressiveOk.put {dts pts : ℤ} (h : ProgressiveOk env codecs m accepted)
    (htakes : Takes env m p i t dts pts data)
    (hm' : m' = (m.modifyTrack i (·.learn env p.payload)).put env i (entryOf t p dts pts data))
    (herr : m'.err = none) : ProgressiveOk env codecs m' (accepted ++ [(i, p)]) := by
  rw [put_seekable h.seekable htakes.err] at hm'
  rw [hm'] at herr
  obtain ⟨heq, hle⟩ := write_eq herr (.inl h.le_capacity)
  rw [heq] at hm'
  have hgrows : Grows m m' data := by
    rw [hm']
    exact ⟨rfl, rfl, rfl, h.le_length⟩
  have hlast : m'.last = some i := by rw [hm']
  have htracks : m'.tracks =
      m.tracks.modify i (putTrack env m i p.payload (entryOf t p dts pts data)) := by rw [hm']
  constructor
  case seekable => rw [hm']; exact h.seekable
  case closed => rw [hm']; exact h.closed
  case codecs =>
    rw [htracks, ← h.codecs]
    exact map_modifyTrack (f := putTrack env m i p.payload (entryOf t p dts pts data)) (fun _ => rfl) i
  case le_capacity => rw [hm']; exact hle
  case le_length =>
    rw [hgrows.offset, hgrows.file, length_writeAt]
    exact Nat.le_max_right _ _
  case mdat_le =>
    rw [hgrows.offset, hgrows.mdatAt]
    exact h.mdat_le.trans (Nat.le_add_right _ _)
  case count =>
    rw [htracks, sum_map_modify htakes.track (k := 1), h.count, length_append, length_singleton]
    have hlength := congrArg length (map_closeSamples (f := placeOf) (fun _ _ => rfl) t.samples dts)
    rw [length_map, length_map] at hlength
    show (closeSamples t.samples dts ++ [_]).length = _
    rw [length_append, hlength]
    rfl
  case total =>
    rw [htracks, sum_map_modify htakes.track (k := data.length), hgrows.offset]
    · exact Nat.add_le_add_right h.total _
    · show ((closeSamples t.samples dts ++ [_]).map MuxSample.size).sum = _
      rw [map_append, map_closeSamples (fun _ _ => rfl), sum_append]
      rfl
  case tracks =>
    intro j t' ht'
    rw [htracks, getElem?_modify] at ht'
    split at ht'
    · rename_i hij
      subst hij
      rw [htakes.track] at ht'
      cases ht'
      rw [packetsOf_concat_self]
      exact (h.tracks i t htakes.track).put htakes hgrows h.mdat_le
    · rename_i hij
      rw [packetsOf_concat_of_ne accepted p hij]
      refine (h.tracks j t' (by simpa using ht')).grows hgrows ?_
      rw [hlast]
      exact fun heq => hij (Option.some.inj heq)

end

/-! ### Runs -/

structure Fresh (number : ℕ) (t : MuxTrack) : Prop where
  id : t.id = number
  samples : t.samples = []
  chunks : t.chunks = []
  started : t.started = false
  data : t.data = []

lemma newMuxTracks_fresh {env : Env} {streams : List MuxStream} {n : ℕ} {tracks : List MuxTrack}
    (h : newMuxTracks env n streams = .ok tracks) :
    tracks.map (·.codec) = streams.map (·.codec.id) ∧ ∀ i t, tracks[i]? = some t → Fresh (n + i) t := by
  induction streams generalizing n tracks with
  | nil =>
    obtain rfl : [] = tracks := Except.ok.inj h
    exact ⟨rfl, by simp⟩
  | cons stream streams ih =>
    obtain ⟨track, htrack, h⟩ := bind_eq_ok.mp h
    obtain ⟨rest, hrest, h⟩ := bind_eq_ok.mp h
    obtain rfl := pure_eq_ok.mp h
    obtain ⟨hcodecs, hfresh⟩ := ih hrest
    unfold newMuxTrack at htrack
    split at htrack
    · cases htrack
    obtain ⟨_, _, rfl⟩ := map_eq_ok.mp htrack
    refine ⟨by rw [map_cons, map_cons, hcodecs], fun i t ht => ?_⟩
    cases i with
    | zero =>
      cases ht
      exact ⟨rfl, rfl, rfl, rfl, rfl⟩
    | succ i =>
      have hi := hfresh i t ht
      rwa [show n + 1 + i = n + (i + 1) by omega] at hi

section

variable {env : Env} {file : Bytes} {offset : ℕ} {capacity : Fin (2 ^ 63)} {streams : List MuxStream}
  {m₀ : FormatMuxer}

section

variable (h : FormatMuxer.openOutput env true file offset capacity 0 streams = .ok m₀)
include h

lemma progressiveOk_open :
    m₀.err = none ∧ ProgressiveOk env (streams.map (·.codec.id)) m₀ [] := by
  obtain ⟨tracks, htracks, h⟩ := bind_eq_ok.mp h
  obtain ⟨hcodecs, hfresh⟩ := newMuxTracks_fresh htracks
  simp only [decide_true, Bool.and_self, if_true] at h
  split at h
  · cases h
  rename_i herr
  cases h
  obtain ⟨heq, hle⟩ := write_eq herr (.inr (by simp))
  refine ⟨herr, ?_⟩
  rw [heq]
  have hnil : ∀ t ∈ tracks, t.samples = [] := by
    intro t ht
    obtain ⟨i, hi⟩ := getElem?_of_mem ht
    exact (hfresh i t hi).samples
  refine ⟨rfl, rfl, hcodecs, hle, ?_, ?_, ?_, ?_, fun i t ht => ?_⟩
  · exact (Nat.le_max_right _ _).trans_eq (length_writeAt _ _ _).symm
  · simp [Nat.add_assoc]
  · simpa [sum_eq_zero_iff] using hnil
  · refine (Nat.le_of_eq ?_).trans (Nat.zero_le _)
    simpa [sum_eq_zero_iff, MuxTrack.bytes] using fun t ht s hs => by simp [hnil t ht] at hs
  · obtain ⟨_, hsamples, hchunks, _, _⟩ := hfresh i t ht
    constructor
    case samples => exact hsamples ▸ .nil
    case gaps => exact hsamples ▸ trivial
    case duration => simp [packetsOf]
    case chunked => exact hsamples ▸ hchunks ▸ ⟨[], rfl, .nil⟩
    case sorted => simp [hchunks]
    case chunk_le => simp [hchunks]
    case last => simp

theorem progressiveOk_writeAll (calls : List (Option Err × Option MuxPacket)) :
    (MuxRun.writeAll env m₀ calls).muxer.err = none →
      ProgressiveOk env (streams.map (·.codec.id)) (MuxRun.writeAll env m₀ calls).muxer
        (MuxRun.writeAll env m₀ calls).accepted := by
  refine MuxRun.invariant (I := ProgressiveOk env (streams.map (·.codec.id))) ?_ ?_
    (progressiveOk_open h).2 calls
  · exact fun m accepted i payload hok => hok.learn i payload
  · exact fun m accepted p i t dts pts data hok htakes herr => hok.put htakes rfl herr

end

end

/-! ### The end -/

section

variable {env : Env} {m m' : FormatMuxer} {codecs : List CodecID} {accepted : List (ℕ × MuxPacket)}

/-- **What `Close` writes**: the tables of the finished tracks, behind the samples. -/
lemma close_progressive (h : m.err = none → ProgressiveOk env codecs m accepted)
    (hclosed : m.closed = false) (hclose : m.close env = (m', none)) :
    m.err = none ∧ m'.tracks = m.tracks.map finish ∧ m'.tables = m'.tracks.map writeStbl ∧
      m'.mdatAt = m.mdatAt ∧ m.offset ≤ m'.offset ∧ ∃ bytes moov, bytes.length = 8 ∧
        m'.file = writeAt (writeAt m.file (m.mdatAt + 8) bytes) m.offset moov := by
  unfold close at hclose
  rw [hclosed] at hclose
  simp only [Bool.false_eq_true, if_false] at hclose
  split at hclose
  · cases hclose
  rename_i herr
  have hok := h herr
  simp only [hok.seekable, if_true] at hclose
  unfold finishProgressive at hclose
  split at hclose
  · cases hclose
  obtain ⟨hm', herr'⟩ := Prod.mk.inj hclose
  subst hm'
  exact ⟨herr, rfl, rfl, rfl, Nat.le_add_right _ _, _, _, by simp, rfl⟩

end

structure FinishedOk (env : Env) (m : FormatMuxer) (t : MuxTrack) (packets : List MuxPacket) :
    Prop where
  samples : List.Forall₂ (SampleOk env m t) packets t.samples
  gaps : Gaps t.timescale packets t.samples
  chunked : Chunked t.chunks t.samples
  inOrder : InOrder t.chunks

section

variable {env : Env} {file : Bytes} {offset : ℕ} {capacity : Fin (2 ^ 63)} {streams : List MuxStream}
  {m₀ m : FormatMuxer} {calls : List (Option Err × Option MuxPacket)}

lemma Gaps.last {timescale : ℕ} {s : MuxSample} (duration : ℤ) (init : List MuxSample) :
    ∀ {ps : List MuxPacket}, Gaps timescale ps (init ++ [s]) →
      Gaps timescale ps (init ++ [{ s with duration }]) := by
  induction init with
  | nil =>
    intro ps h
    cases ps with
    | nil => exact h.elim
    | cons p ps =>
      cases ps with
      | nil => exact h
      | cons q ps => exact h.elim
  | cons x init ih =>
    intro ps h
    obtain ⟨y, rest, hy⟩ : ∃ y rest, init ++ [s] = y :: rest := exists_cons_of_ne_nil (by simp)
    obtain ⟨y', rest', hy'⟩ : ∃ y' rest', init ++ [{ s with duration }] = y' :: rest' :=
      exists_cons_of_ne_nil (by simp)
    rw [cons_append, hy] at h
    rw [cons_append, hy']
    cases ps with
    | nil => exact h.elim
    | cons p ps =>
      cases ps with
      | nil => exact h.elim
      | cons q ps =>
        obtain ⟨hdts, hduration, h⟩ := h
        rw [← hy] at h
        have hrest := ih h
        rw [hy'] at hrest
        exact ⟨hdts, hduration, hrest⟩

lemma Gaps.finish {timescale : ℕ} {ps : List MuxPacket} {ss : List MuxSample}
    (init : List MuxSample) (h : Gaps timescale ps (init ++ ss)) :
    Gaps timescale ps (init ++ finishSamples ss) := by
  unfold finishSamples
  split
  · exact h
  rename_i s hs
  obtain ⟨before, rfl⟩ := getLast?_eq_some_iff.mp hs
  split
  · rw [dropLast_concat, ← append_assoc]
    rw [← append_assoc] at h
    exact h.last _ (init ++ before)
  · exact h

section

variable (hopen : FormatMuxer.openOutput env true file offset capacity 0 streams = .ok m₀)
include hopen

section

variable (hclose : (MuxRun.writeAll env m₀ calls).muxer.close env = (m, none))
include hclose

theorem finishedOk_close :
    m.tables = m.tracks.map writeStbl ∧ m.tracks.map (·.codec) = streams.map (·.codec.id) ∧
    ∀ i t, m.tracks[i]? = some t →
      FinishedOk env m t (packetsOf (MuxRun.writeAll env m₀ calls).accepted i) := by
  have hruns := progressiveOk_writeAll hopen calls
  have hclosed : (MuxRun.writeAll env m₀ calls).muxer.closed = false :=
    (closed_writeAll m₀ calls).trans (progressiveOk_open hopen).2.closed
  obtain ⟨herr, htracks, htables, hmdat, hoffset, bytes, moov, hbytes, hfile⟩ :=
    close_progressive hruns hclosed hclose
  have hok := hruns herr
  generalize MuxRun.writeAll env m₀ calls = r at *
  have hcodecs : m.tracks.map (·.codec) = streams.map (·.codec.id) := by
    rw [htracks, map_map, ← hok.codecs]
    rfl
  refine ⟨htables, hcodecs, fun i t ht => ?_⟩
  rw [htracks, getElem?_map] at ht
  obtain ⟨t, ht', rfl⟩ := Option.map_eq_some_iff.mp ht
  have htrack := hok.tracks i t ht'
  have hlength : (writeAt r.muxer.file (r.muxer.mdatAt + 8) bytes).length = r.muxer.file.length := by
    have := hok.le_length
    have := hok.mdat_le
    rw [length_writeAt]
    omega
  constructor
  case samples =>
    refine (forall₂_sampleOk (map_finishSamples (fun _ _ => rfl) t.samples) htrack.samples).imp
      fun p s hs => ⟨hs.times, hs.sync, ?_, hmdat ▸ hs.le, hs.ends.trans hoffset⟩
    have hle := hs.le
    have hends := hs.ends
    have hfileLe := hok.le_length
    -- the header of `mdat` is before the samples, and the tables are behind them
    rw [hfile, byteRange_writeAt_of_le hends (by omega), byteRange_writeAt_of_ge (by omega) (by omega)]
    exact hs.data
  case gaps => exact htrack.gaps.finish []
  case chunked =>
    exact htrack.chunked.congr (map_finishSamples (f := placeOf) (fun _ _ => rfl) t.samples).symm
  case inOrder =>
    refine ⟨fun c hc last hlast => ?_, fun c hc => ?_⟩
    · obtain ⟨init, hinit⟩ := getLast?_eq_some_iff.mp hlast
      have hsorted := htrack.sorted
      change t.chunks = _ at hinit
      rw [hinit, map_append, pairwise_append] at hsorted
      change c ∈ t.chunks at hc
      rw [hinit] at hc
      obtain hc | hc := mem_append.mp hc
      · exact hsorted.2.2 _ (mem_map_of_mem hc) _ (by simp)
      · rw [mem_singleton.mp hc]
    · have hle := htrack.chunk_le c.offset (mem_map_of_mem hc)
      have hcapacity := hok.le_capacity
      omega

/-- **What the tracks hold together**: a sample for every packet, and no more bytes than the file. -/
theorem totals_close :
    (m.tracks.map (·.samples.length)).sum = (MuxRun.writeAll env m₀ calls).accepted.length ∧
      (m.tracks.map MuxTrack.bytes).sum ≤ m.file.length := by
  have hruns := progressiveOk_writeAll hopen calls
  have hclosed : (MuxRun.writeAll env m₀ calls).muxer.closed = false :=
    (closed_writeAll m₀ calls).trans (progressiveOk_open hopen).2.closed
  obtain ⟨herr, htracks, -, -, -, bytes, moov, -, hfile⟩ := close_progressive hruns hclosed hclose
  have hok := hruns herr
  have hlength : (fun t : MuxTrack => t.samples.length) ∘ finish = fun t => t.samples.length := by
    funext t
    have hlength := congrArg length (map_finishSamples (f := placeOf) (fun _ _ => rfl) t.samples)
    rwa [length_map, length_map] at hlength
  have hbytes : MuxTrack.bytes ∘ finish = MuxTrack.bytes :=
    funext fun t => congrArg sum (map_finishSamples (fun _ _ => rfl) t.samples)
  rw [htracks, map_map, map_map, hlength, hbytes, hfile, length_writeAt]
  exact ⟨hok.count, hok.total.trans ((Nat.le_add_right _ _).trans (Nat.le_max_right _ _))⟩

end

end

end

end Goav.Mp4
