import Goav.Mp4.Fragments

/-!
What the parts of a fragmented file carry: the packets of a track are those of the parts, one group for
each, and then those in the track's buffer.
-/

namespace Goav.Mp4

open Goav.Av Goav.Lib MuxTrack List FormatMuxer Function

/-! ### What a part carries -/

def compositionOf (timescale : ℕ) (p : MuxPacket) : ℤ :=
  ((ticksOf timescale p).map fun (dts, pts) => pts - dts).getD 0

structure SampleOf (kind : TrackKind) (p : MuxPacket) (s : MuxSample) : Prop where
  size : s.size = p.payload.length
  le : s.size ≤ maxUint32
  cts : s.cts = int64 (compositionOf kind.timescale p)
  sync : s.sync = (p.keyframe || kind.media ≠ .video)

structure Waits (t : MuxTrack) (packets : List MuxPacket) : Prop where
  samples : List.Forall₂ (SampleOf t.kind) packets t.samples
  placed : Placed 0 t.samples
  data : t.data = packets.flatMap (·.payload)

structure PartOf (kind : TrackKind) (packets : List MuxPacket) (part : Traf × Bytes) : Prop where
  id : part.1.id = kind.id
  baseDTS : part.1.baseDTS < 2 ^ 64
  data : part.2 = packets.flatMap (·.payload)
  run : ∃ samples, samples ≠ [] ∧ List.Forall₂ (SampleOf kind) packets samples ∧
    part.1.run = samples.map (trunSampleOf (samples.any (·.cts ≠ 0)))

section

variable {t t' : MuxTrack} {packets : List MuxPacket} {samples samples' : List MuxSample}
  {kind : TrackKind} {n offset : ℕ}

lemma forall₂_sampleOf
    (heq : samples.map (fun s => (s.size, s.cts, s.sync)) = samples'.map fun s => (s.size, s.cts, s.sync))
    (h : List.Forall₂ (SampleOf kind) packets samples) :
    List.Forall₂ (SampleOf kind) packets samples' := by
  induction h generalizing samples' with
  | nil =>
    obtain rfl := map_eq_nil_iff.mp heq.symm
    exact .nil
  | cons hs _ ih =>
    obtain ⟨s', rest, rfl, hs', hrest⟩ := map_eq_cons_iff.mp heq.symm
    simp only [Prod.mk.injEq] at hs'
    obtain ⟨hsize, hcts, hsync⟩ := hs'
    exact .cons ⟨hsize.trans hs.size, hsize ▸ hs.le, hcts.trans hs.cts, hsync.trans hs.sync⟩ (ih hrest.symm)

lemma Waits.congr (h : Waits t packets) (hkind : t'.kind = t.kind) (hdata : t'.data = t.data)
    (hsamples : t'.samples.map (fun s => { s with duration := 0 }) =
      t.samples.map fun s => { s with duration := 0 }) : Waits t' packets where
  samples := by
    rw [hkind]
    refine forall₂_sampleOf ?_ h.samples
    have := congrArg (map fun s : MuxSample => (s.size, s.cts, s.sync)) hsamples
    rw [map_map, map_map] at this
    exact this.symm
  placed := by
    refine Placed.congr ?_ h.placed
    have := congrArg (map placeOf) hsamples
    rw [map_map, map_map] at this
    exact this.symm
  data := hdata.trans h.data

lemma placed_append :
    ∀ {samples : List MuxSample} {offset : ℕ}, Placed offset (samples ++ samples') ↔
    Placed offset samples ∧ Placed (offset + (samples.map (·.size)).sum) samples'
  | [], offset => by simp [Placed]
  | s :: samples, offset => by
    rw [cons_append, Placed, Placed, placed_append, map_cons, sum_cons, Nat.add_assoc, and_assoc]

lemma Placed.ends : ∀ {samples : List MuxSample} {offset : ℕ}, Placed offset samples →
    (samples.getLast?.map fun s => s.offset + s.size).getD offset = offset + (samples.map (·.size)).sum
  | [], _, _ => rfl
  | [s], offset, h => by simp [h.1]
  | s :: r :: samples, offset, h => by
    have hends := Placed.ends h.2
    rw [getLast?_cons_cons, map_cons, sum_cons, ← Nat.add_assoc, ← hends, getLast?_cons]
    rfl

lemma Placed.sub : ∀ {samples : List MuxSample} {offset cut : ℕ}, Placed (cut + offset) samples →
    Placed offset (samples.map fun s => { s with offset := s.offset - cut })
  | [], _, _, _ => trivial
  | s :: samples, offset, cut, h => by
    refine ⟨?_, Placed.sub (Nat.add_assoc cut offset s.size ▸ h.2)⟩
    have := h.1
    show s.offset - cut = offset
    omega

lemma Waits.fragmentBytes (h : Waits t packets) (n : ℕ) :
    t.fragmentBytes n = ((packets.take n).flatMap (·.payload)).length := by
  have hplaced : Placed 0 (t.samples.take n) := by
    have := h.placed
    rw [← take_append_drop n t.samples, placed_append] at this
    exact this.1
  have hsizes : (t.samples.take n).map (·.size) = (packets.take n).map (·.payload.length) := by
    refine (forall₂_eq_eq_eq ▸ forall₂_map_left_iff.mpr (forall₂_map_right_iff.mpr ?_))
    exact (forall₂_take n h.samples).flip.imp fun _ _ hs => hs.size
  rw [MuxTrack.fragmentBytes, hplaced.ends, Nat.zero_add, hsizes, length_flatMap]

/-- **A fragment is cut**: its part carries the first packets that wait, and the others wait on. -/
lemma Waits.cut (h : Waits t packets) (hn : n ≤ t.samples.length) :
    Waits (t.dropFragment n) (packets.drop n) ∧
      (n ≠ 0 → PartOf t.kind (packets.take n) (t.writeTraf n, t.data.take (t.fragmentBytes n))) := by
  have hbytes := h.fragmentBytes n
  have hsplit : t.data = (packets.take n).flatMap (·.payload) ++ (packets.drop n).flatMap (·.payload) := by
    rw [← flatMap_append, take_append_drop]
    exact h.data
  constructor
  · by_cases hzero : n = 0
    · subst hzero
      exact h
    refine ⟨?_, ?_, ?_⟩
    · rw [kind_dropFragment]
      obtain ⟨cut, heq⟩ := samples_dropFragment t n
      rw [heq]
      refine forall₂_sampleOf ?_ (forall₂_drop n h.samples)
      rw [map_map]
      rfl
    · have hplaced := h.placed
      rw [← take_append_drop n t.samples, placed_append, Nat.zero_add] at hplaced
      have hcut : t.fragmentBytes n = ((t.samples.take n).map (·.size)).sum := by
        rw [MuxTrack.fragmentBytes, hplaced.1.ends, Nat.zero_add]
      unfold dropFragment
      rw [if_neg hzero]
      refine Placed.sub ?_
      rw [hcut]
      exact hplaced.2
    · unfold dropFragment
      rw [if_neg hzero]
      show t.data.drop (t.fragmentBytes n) = _
      rw [hbytes, hsplit, drop_left]
  · intro hzero
    refine ⟨rfl, ?_, ?_, t.samples.take n, ?_, forall₂_take n h.samples, rfl⟩
    · show uint64 _ < 2 ^ 64
      unfold uint64
      omega
    · rw [hbytes, hsplit, take_left]
    · have hne : t.samples ≠ [] := ne_nil_of_length_pos (by omega)
      simp [hzero, hne]

lemma Waits.add {p : MuxPacket} {e : Entry} (h : Waits t packets) (hsize : e.data = p.payload)
    (hle : e.data.length ≤ maxUint32) (hcts : e.pts - e.dts = compositionOf t.timescale p)
    (hsync : e.sync = (p.keyframe || t.media ≠ .video)) :
    Waits { t.add e t.data.length with data := t.data ++ e.data } (packets ++ [p]) where
  samples := by
    refine forall₂_concat h.samples ⟨congrArg length hsize, hle, ?_, hsync⟩
    show int64 (e.pts - e.dts) = _
    rw [hcts]
    rfl
  placed := by
    refine placed_append.mpr ⟨h.placed, ?_, trivial⟩
    have hbytes := h.fragmentBytes t.samples.length
    have hlength := h.samples.length_eq
    rw [MuxTrack.fragmentBytes, take_length, h.placed.ends, ← hlength, take_length, ← h.data] at hbytes
    exact hbytes.symm
  data := by
    rw [flatMap_append, ← h.data, hsize]
    simp

end

/-! ### The file -/

def numbered (fragments : List (List (Traf × Bytes))) : List (ℕ × List (Traf × Bytes)) :=
  (fragments.zipIdx 1).map fun f => (f.2 % 2 ^ 32, f.1)

def fragmentedFile (env : Env) (tracks : List MuxTrack) (fragments : List (List (Traf × Bytes))) : Bytes :=
  env.ftyp tracks true ++ env.moov tracks true ++ (numbered fragments).flatMap fun f => env.moof f.1 f.2

/-- The file of a muxer that writes fragments: nothing yet, or the header and the fragments. -/
structure FileOk (env : Env) (m : FormatMuxer) : Prop where
  offset : m.offset = m.file.length
  capacity : m.file.length ≤ m.capacity
  sequence : m.sequence = m.fragments.length % 2 ^ 32
  file : if m.headerDone then ∃ tracks, m.file = fragmentedFile env tracks m.fragments
    else m.file = [] ∧ m.fragments = []

lemma numbered_concat (fragments : List (List (Traf × Bytes))) (parts : List (Traf × Bytes)) :
    numbered (fragments ++ [parts]) =
      numbered fragments ++ [((fragments.length % 2 ^ 32 + 1) % 2 ^ 32, parts)] := by
  simp only [numbered, zipIdx_append, map_append, zipIdx_cons, zipIdx_nil, map_cons, map_nil]
  rw [Nat.mod_add_mod, Nat.add_comm 1]

lemma writeAt_length (file bytes : Bytes) : writeAt file file.length bytes = file ++ bytes := by
  unfold writeAt
  rw [takeD_eq_take _ le_rfl, take_length, drop_of_length_le (by omega), append_nil]

section

variable {env : Env} {m : FormatMuxer} {last : Bool}

lemma write_end {bytes : Bytes} (herr : (m.write bytes).err = none)
    (hoffset : m.offset = m.file.length) (hcapacity : m.file.length ≤ m.capacity) :
    m.write bytes = { m with file := m.file ++ bytes, offset := (m.file ++ bytes).length, err := none } ∧
    (m.file ++ bytes).length ≤ m.capacity := by
  obtain ⟨heq, hle⟩ := write_eq herr (.inl (hoffset ▸ hcapacity))
  rw [hoffset, writeAt_length, ← length_append] at heq
  rw [hoffset, ← length_append] at hle
  exact ⟨heq, hle⟩

lemma FileOk.header (h : FileOk env m) (herr : (m.writeHeader env).err = none) :
    FileOk env (m.writeHeader env) ∧ (m.writeHeader env).headerDone = true := by
  unfold writeHeader at herr ⊢
  dsimp only at herr ⊢
  split_ifs at herr ⊢ with hdone hready hfailed
  · exact ⟨h, hdone⟩
  · simp [herr] at hfailed
  · obtain ⟨heq, hle⟩ := write_end (Option.not_isSome_iff_eq_none.mp hfailed) h.offset h.capacity
    have hfile := h.file
    rw [if_neg hdone] at hfile
    obtain ⟨hnil, hnone⟩ := hfile
    rw [heq]
    refine ⟨⟨rfl, hle, h.sequence, ?_⟩, rfl⟩
    refine ⟨m.tracks, ?_⟩
    rw [hnil, hnone]
    simp [fragmentedFile, numbered]

lemma FileOk.flush (h : FileOk env m) (herr : (m.flushFragment env last).err = none) :
    FileOk env (m.flushFragment env last) ∧ (m.flushFragment env last).headerDone = true := by
  have hheader := err_writeHeader herr
  obtain ⟨hok, hdone⟩ := h.header hheader
  unfold flushFragment at herr ⊢
  simp only [hheader, Option.isSome_none, Bool.false_eq_true, if_false] at herr ⊢
  generalize hparts : map _ (filter _ (m.writeHeader env).tracks) = parts at herr ⊢
  split_ifs at herr ⊢ with hnone hfailed
  · exact ⟨hok, hdone⟩
  · rw [herr] at hfailed
    cases hfailed
  · have hfile := hok.file
    rw [if_pos hdone] at hfile
    obtain ⟨tracks, hfile⟩ := hfile
    generalize m.writeHeader env = m' at *
    obtain ⟨heq, hle⟩ := write_end (Option.not_isSome_iff_eq_none.mp hfailed) hok.offset hok.capacity
    rw [heq]
    refine ⟨⟨rfl, hle, ?_, ?_⟩, hdone⟩
    · show (m'.sequence + 1) % 2 ^ 32 = (m'.fragments ++ [parts]).length % 2 ^ 32
      rw [hok.sequence, Nat.mod_add_mod, length_append, length_singleton]
    · rw [if_pos hdone]
      refine ⟨tracks, ?_⟩
      rw [hfile, hok.sequence]
      simp [fragmentedFile, numbered_concat]

end

/-! ### The invariant -/

def partsOf (m : FormatMuxer) (id : ℕ) : List (Traf × Bytes) :=
  m.fragments.flatten.filter (·.1.id = id)

/-- The payload is stored as it is. -/
def Stored (codec : CodecID) : Prop := codec ∉ [codecH264, codecHEVC, codecAV1, codecAAC]

instance (codec : CodecID) : Decidable (Stored codec) := inferInstanceAs (Decidable (_ ∉ _))

def Carried (m : FormatMuxer) (i : ℕ) (t : MuxTrack) (packets : List MuxPacket) : Prop :=
  ∃ sent waiting, packets = sent.flatten ++ waiting ∧
    List.Forall₂ (PartOf t.kind) sent (partsOf m (i + 1)) ∧ Waits t waiting

structure Carries (env : Env) (m : FormatMuxer) (packets : ℕ → List MuxPacket) : Prop where
  seekable : m.seekable = false
  file : FileOk env m
  id : ∀ i t, m.tracks[i]? = some t → t.id = i + 1
  stored : ∀ t ∈ m.tracks, Stored t.codec
  known : ∀ part ∈ m.fragments.flatten, ∃ i < m.tracks.length, part.1.id = i + 1
  carried : ∀ i t, m.tracks[i]? = some t → Carried m i t (packets i)

section

variable {env : Env} {m : FormatMuxer} {packets : ℕ → List MuxPacket} {i : ℕ}

lemma stored_of_kinds {m' : FormatMuxer} (hkinds : m'.tracks.map kind = m.tracks.map kind)
    (h : ∀ t ∈ m.tracks, Stored t.codec) : ∀ t ∈ m'.tracks, Stored t.codec := by
  have hall : ∀ k ∈ m.tracks.map kind, Stored k.codec := forall_mem_map.mpr h
  rw [← hkinds] at hall
  exact fun t ht => hall t.kind (mem_map_of_mem ht)

variable (h : Carries env m packets)
include h

lemma Carries.modify {f : MuxTrack → MuxTrack} {ps : List MuxPacket} (hkind : ∀ t, (f t).kind = t.kind)
    (hwaits : ∀ t waiting, m.tracks[i]? = some t → Waits t waiting →
      Waits (f t) (waiting ++ ps)) :
    Carries env (m.modifyTrack i f) (update packets i (packets i ++ ps)) where
  seekable := h.seekable
  file := { h.file with }
  id := forall_kind (P := fun j kind => kind.id = j + 1) (map_modifyTrack hkind i) h.id
  stored := stored_of_kinds (map_modifyTrack hkind i) h.stored
  known := by
    rw [modifyTrack, length_modify]
    exact h.known
  carried := by
    intro j t ht
    rw [modifyTrack, getElem?_modify] at ht
    obtain ⟨t, ht', rfl⟩ := Option.map_eq_some_iff.mp ht
    obtain ⟨sent, waiting, hpackets, hparts, hwaiting⟩ := h.carried j t ht'
    split_ifs with hij
    · subst hij
      refine ⟨sent, waiting ++ ps, ?_, ?_, hwaits t waiting ht' hwaiting⟩
      · rw [update_self, hpackets, append_assoc]
      · rw [hkind]
        exact hparts
    · rw [update_of_ne (Ne.symm hij)]
      exact ⟨sent, waiting, hpackets, hparts, hwaiting⟩

lemma Carries.modify_same {f : MuxTrack → MuxTrack}
    (hkind : ∀ t, (f t).kind = t.kind) (hdata : ∀ t, (f t).data = t.data)
    (hsamples : ∀ t, (f t).samples.map (fun s => { s with duration := 0 }) =
      t.samples.map fun s => { s with duration := 0 }) :
    Carries env (m.modifyTrack i f) packets := by
  have hsame : Carries env (m.modifyTrack i f) (update packets i (packets i ++ [])) :=
    h.modify hkind fun t waiting _ hwaiting =>
      (append_nil waiting).symm ▸ hwaiting.congr (hkind t) (hdata t) (hsamples t)
  rwa [append_nil, update_eq_self] at hsame

/-- **A fragment is written**: it carries the packets that are ready. -/
lemma Carries.flush {last : Bool} (herr : (m.flushFragment env last).err = none) :
    Carries env (m.flushFragment env last) packets := by
  obtain ⟨place, hplace, htracks, hfragments, hseekable⟩ := flushFragment_spec herr
  constructor
  case seekable => exact hseekable.trans h.seekable
  case file => exact (h.file.flush herr).1
  case id => exact forall_kind (P := fun j kind => kind.id = j + 1) (kinds_flush herr) h.id
  case stored => exact stored_of_kinds (kinds_flush herr) h.stored
  case known =>
    intro part hpart
    rw [htracks, length_map]
    rw [hfragments] at hpart
    obtain hpart | hpart := mem_append.mp hpart
    · exact h.known part hpart
    · obtain ⟨t, ht, rfl⟩ := mem_map.mp hpart
      obtain ⟨j, ht⟩ := mem_iff_getElem?.mp (mem_of_mem_filter ht)
      exact ⟨j, (List.getElem?_eq_some_iff.mp ht).1, (hplace.id t).trans (h.id j t ht)⟩
  case carried =>
    intro j t ht
    rw [htracks, getElem?_map] at ht
    obtain ⟨t₀, ht₀, rfl⟩ := Option.map_eq_some_iff.mp ht
    obtain ⟨sent, waiting, hpackets, hparts, hwaiting⟩ := h.carried j t₀ ht₀
    have hplaced : Waits (place t₀) waiting :=
      hwaiting.congr (hplace.kind t₀) (hplace.data t₀) (by rw [hplace.samples])
    have hcut := hplaced.cut (n := t₀.readyCount last) (by rw [hplace.samples]; exact readyCount_le last t₀)
    have hnew := filter_parts (f := fun t => ((place t).writeTraf (t.readyCount last),
        t.data.take (t.fragmentBytes (t.readyCount last)))) (fun part => part.1.id)
      (fun t => t.readyCount last ≠ 0) (n := 1) (fun t => hplace.id t)
      (fun j t ht => by rw [h.id j t ht, Nat.add_comm]) ht₀
    have hall : partsOf (m.flushFragment env last) (j + 1) = partsOf m (j + 1) ++
        if t₀.readyCount last ≠ 0 then [((place t₀).writeTraf (t₀.readyCount last),
          t₀.data.take (t₀.fragmentBytes (t₀.readyCount last)))] else [] := by
      unfold partsOf
      rw [hfragments, filter_append, Nat.add_comm j 1]
      refine congrArg _ (hnew.trans ?_)
      simp
    have hbytes : (place t₀).fragmentBytes (t₀.readyCount last) = t₀.fragmentBytes (t₀.readyCount last) := by
      unfold MuxTrack.fragmentBytes
      rw [hplace.samples]
    rw [hplace.kind, hplace.data, hbytes] at hcut
    rw [Carried, hall, kind_dropFragment, hplace.kind]
    by_cases hzero : t₀.readyCount last = 0
    · rw [if_neg (not_not_intro hzero), append_nil]
      refine ⟨sent, waiting, hpackets, hparts, ?_⟩
      rw [hzero]
      exact hplaced
    · rw [if_pos hzero]
      refine ⟨sent ++ [waiting.take (t₀.readyCount last)], _, ?_, forall₂_concat hparts (hcut.2 hzero),
        hcut.1⟩
      rw [hpackets, flatten_append, flatten_singleton, append_assoc, take_append_drop]

lemma Carries.append {e : Entry} {p : MuxPacket} {kind : TrackKind}
    (hkind : ∀ t, m.tracks[i]? = some t → t.kind = kind) (hdata : e.data = p.payload)
    (hle : e.data.length ≤ maxUint32) (hcts : e.pts - e.dts = compositionOf kind.timescale p)
    (hsync : e.sync = (p.keyframe || kind.media ≠ .video)) :
    Carries env (m.append i e) (update packets i (packets i ++ [p])) := by
  unfold FormatMuxer.append
  rw [if_neg (by simp [h.seekable])]
  refine h.modify (fun _ => rfl) fun t waiting ht hwaiting => ?_
  obtain rfl := hkind t ht
  exact hwaiting.add hdata hle hcts hsync

end

/-! ### Runs -/

abbrev CarriesRun (env : Env) (m : FormatMuxer) (accepted : List (ℕ × MuxPacket)) : Prop :=
  Carries env m (packetsOf accepted)

section

variable {env : Env} {m : FormatMuxer} {accepted : List (ℕ × MuxPacket)}

lemma Carries.put {p : MuxPacket} {i : ℕ} {t : MuxTrack} {dts pts : ℤ} {data : Bytes}
    (h : CarriesRun env m accepted) (htakes : Takes env m p i t dts pts data)
    (herr : ((m.modifyTrack i (·.learn env p.payload)).put env i (entryOf t p dts pts data)).err = none) :
    CarriesRun env ((m.modifyTrack i (·.learn env p.payload)).put env i (entryOf t p dts pts data))
      (accepted ++ [(i, p)]) := by
  have hlearnt : CarriesRun env (m.modifyTrack i (·.learn env p.payload)) accepted :=
    h.modify_same (fun _ => rfl) (fun _ => rfl) fun _ => rfl
  have hclosed : CarriesRun env ((m.modifyTrack i (·.learn env p.payload)).modifyTrack i
      (·.closeLast dts)) accepted :=
    hlearnt.modify_same (fun _ => rfl) (fun _ => rfl) fun t => map_closeSamples (fun _ _ => rfl) _ _
  have hkinds : ((m.modifyTrack i (·.learn env p.payload)).modifyTrack i
      (·.closeLast dts)).tracks.map kind = m.tracks.map kind := by
    rw [map_modifyTrack (f := (·.closeLast dts)) (fun _ => rfl),
      map_modifyTrack (f := (·.learn env p.payload)) (fun _ => rfl)]
  obtain ⟨m', hcases, hcutErr, hput⟩ := put_eq herr
  obtain ⟨hcut, hkinds'⟩ : CarriesRun env m' accepted ∧ m'.tracks.map kind = m.tracks.map kind := by
    obtain rfl | ⟨-, rfl⟩ := hcases
    · exact ⟨hclosed, hkinds⟩
    · exact ⟨hclosed.flush hcutErr, (kinds_flush hcutErr).trans hkinds⟩
  have hkind : ∀ t', m'.tracks[i]? = some t' → t'.kind = t.kind := by
    intro t' ht'
    have hsame := congrArg (·[i]?) hkinds'
    simp only [getElem?_map, ht', htakes.track, Option.map_some, Option.some.injEq] at hsame
    exact hsame
  have hdata : data = p.payload := by
    have hsample := htakes.sample
    rw [sampleData, if_neg (h.stored t (mem_of_getElem? htakes.track))] at hsample
    exact (Except.ok.inj hsample).symm
  have hcts : pts - dts = compositionOf t.timescale p := by
    rw [compositionOf, (Option.filter_eq_some_iff.mp htakes.times).1]
    rfl
  rw [hput]
  have happend := hcut.append (p := p) (e := entryOf t p dts pts data) hkind hdata htakes.le hcts rfl
  rwa [← packetsOf_concat] at happend

lemma Carries.finish {packets : ℕ → List MuxPacket} (h : Carries env m packets) :
    Carries env { m with closed := true, tracks := m.tracks.map MuxTrack.finish } packets where
  seekable := h.seekable
  file := { h.file with }
  id := forall_kind (P := fun j kind => kind.id = j + 1) map_map h.id
  stored := stored_of_kinds map_map h.stored
  known := by
    rw [length_map]
    exact h.known
  carried := by
    intro j t ht
    rw [getElem?_map] at ht
    obtain ⟨t, ht', rfl⟩ := Option.map_eq_some_iff.mp ht
    obtain ⟨sent, waiting, hpackets, hparts, hwaiting⟩ := h.carried j t ht'
    exact ⟨sent, waiting, hpackets, hparts, hwaiting.congr rfl rfl (map_finishSamples (fun _ _ => rfl) _)⟩

variable {seekable : Bool} {capacity : Fin (2 ^ 63)} {fragment : ℤ} {streams : List MuxStream}
  {m₀ : FormatMuxer} {calls : List (Option Err × Option MuxPacket)}

lemma carriesRun_open
    (hopen : FormatMuxer.openOutput env seekable [] 0 capacity fragment streams = .ok m₀)
    (hmode : m₀.seekable = false) (hstored : ∀ s ∈ streams, Stored s.codec.id) :
    CarriesRun env m₀ [] ∧ m₀.closed = false := by
  obtain ⟨tracks, htracks, hopen⟩ := bind_eq_ok.mp hopen
  obtain ⟨hcodecs, hfresh⟩ := newMuxTracks_fresh htracks
  dsimp only at hopen
  split at hopen
  · rename_i hseekable
    split at hopen
    · cases hopen
    · cases hopen
      exact absurd (hseekable.symm.trans hmode) (by decide)
  · cases hopen
    refine ⟨⟨hmode, ⟨rfl, Nat.zero_le _, rfl, rfl, rfl⟩, fun i t ht => ?_, fun t ht => ?_, by simp,
      fun i t ht => ?_⟩,
      rfl⟩
    · rw [(hfresh i t ht).id, Nat.add_comm]
    · have hmem : t.codec ∈ streams.map (·.codec.id) := by
        rw [← hcodecs]
        exact mem_map_of_mem ht
      obtain ⟨s, hs, hcodec⟩ := mem_map.mp hmem
      exact hcodec ▸ hstored s hs
    · obtain ⟨-, hsamples, -, -, hdata⟩ := hfresh i t ht
      exact ⟨[], [], rfl, .nil, ⟨hsamples ▸ .nil, hsamples ▸ trivial, hdata⟩⟩

theorem carriesRun_writeAll (env : Env) (hopen : CarriesRun env m₀ [])
    (calls : List (Option Err × Option MuxPacket)) :
    (MuxRun.writeAll env m₀ calls).muxer.err = none →
      CarriesRun env (MuxRun.writeAll env m₀ calls).muxer (MuxRun.writeAll env m₀ calls).accepted := by
  refine MuxRun.invariant (I := CarriesRun env) ?_ ?_ hopen calls
  · exact fun m accepted i payload h => h.modify_same (fun _ => rfl) (fun _ => rfl) fun _ => rfl
  · exact fun m accepted p i t dts pts data h htakes herr => h.put htakes herr

/-- The header and the fragments, whose parts carry the packets of every track. -/
structure FinishedParts (env : Env) (m : FormatMuxer) (accepted : List (ℕ × MuxPacket)) : Prop where
  file : ∃ tracks, m.file = fragmentedFile env tracks m.fragments
  length : m.file.length < 2 ^ 63
  id : ∀ i t, m.tracks[i]? = some t → t.id = i + 1
  known : ∀ part ∈ m.fragments.flatten, ∃ i < m.tracks.length, part.1.id = i + 1
  carried : ∀ i t, m.tracks[i]? = some t → ∃ sent, packetsOf accepted i = sent.flatten ∧
    List.Forall₂ (PartOf t.kind) sent (partsOf m (i + 1))

theorem finishedParts_close
    (hopen : FormatMuxer.openOutput env seekable [] 0 capacity fragment streams = .ok m₀)
    (hmode : m₀.seekable = false) (hstored : ∀ s ∈ streams, Stored s.codec.id)
    (hclose : (MuxRun.writeAll env m₀ calls).muxer.close env = (m, none)) :
    FinishedParts env m (MuxRun.writeAll env m₀ calls).accepted := by
  obtain ⟨hinit, hfresh⟩ := carriesRun_open hopen hmode hstored
  have hruns := carriesRun_writeAll env hinit calls
  have hclosed : (MuxRun.writeAll env m₀ calls).muxer.closed = false :=
    (closed_writeAll m₀ calls).trans hfresh
  unfold close at hclose
  rw [hclosed] at hclose
  simp only [Bool.false_eq_true, if_false] at hclose
  split at hclose
  · cases hclose
  rename_i herr
  have hok := hruns herr
  rw [if_neg (by simp [hok.seekable])] at hclose
  obtain ⟨rfl, herr'⟩ := Prod.mk.inj hclose
  have hlast := hok.finish.flush herr'
  obtain ⟨hfile, hdone⟩ := hok.finish.file.flush herr'
  have hall := hfile.file
  rw [if_pos hdone] at hall
  refine ⟨hall, Nat.lt_of_le_of_lt hfile.capacity (Fin.isLt _), hlast.id, hlast.known, fun i t ht => ?_⟩
  obtain ⟨sent, waiting, hpackets, hparts, hwaiting⟩ := hlast.carried i t ht
  -- the last fragment takes every sample
  have hnil : t.samples = [] := by
    obtain ⟨place, hplace, htracks, -, -⟩ := flushFragment_spec herr'
    rw [htracks, getElem?_map] at ht
    obtain ⟨t₀, -, rfl⟩ := Option.map_eq_some_iff.mp ht
    obtain ⟨cut, heq⟩ := samples_dropFragment (place t₀) (t₀.readyCount true)
    rw [heq, hplace.samples, readyCount_last, drop_length]
    rfl
  have hnone : waiting = [] := forall₂_nil_right_iff.mp (hnil ▸ hwaiting.samples)
  exact ⟨sent, by rw [hpackets, hnone, append_nil], hparts⟩

end

end Goav.Mp4
