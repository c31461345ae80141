import Goav.Mp4.Tables

/-!
The steps of the muxer: what a call of `Write` does to the muxer, what the writer does to the file, and
the durations that the samples of a track get.
-/

namespace Goav.Mp4

open Goav.Av Goav.Lib MuxTrack List FormatMuxer

/-! ### The file -/

section

variable {file bytes : Bytes} {offset o n : ℕ}

lemma length_writeAt (file : Bytes) (offset : ℕ) (bytes : Bytes) :
    (writeAt file offset bytes).length = max file.length (offset + bytes.length) := by
  simp only [writeAt, length_append, takeD_length, length_drop]
  omega

lemma byteRange_writeAt_self (file : Bytes) (offset : ℕ) (bytes : Bytes) :
    byteRange (writeAt file offset bytes) offset bytes.length = bytes := by
  unfold byteRange writeAt
  rw [append_assoc, drop_append_of_le_length (by rw [takeD_length]),
    drop_of_length_le (by rw [takeD_length]), nil_append, take_left' rfl]

lemma byteRange_writeAt_of_le (hle : o + n ≤ offset) (hfile : offset ≤ file.length) :
    byteRange (writeAt file offset bytes) o n = byteRange file o n := by
  unfold byteRange writeAt
  rw [takeD_eq_take _ hfile, append_assoc, drop_append_of_le_length (by rw [length_take]; omega),
    take_append_of_le_length (by rw [length_drop, length_take]; omega), drop_take, take_take,
    Nat.min_eq_left (by omega)]

lemma byteRange_writeAt_of_ge (hle : offset + bytes.length ≤ o) (hfile : offset ≤ file.length) :
    byteRange (writeAt file offset bytes) o n = byteRange file o n := by
  unfold byteRange writeAt
  rw [takeD_eq_take _ hfile, drop_append, drop_of_length_le
    (by rw [length_append, length_take]; omega), nil_append, drop_drop,
    length_append, length_take]
  congr 2
  omega

end

namespace FormatMuxer

lemma write_eq {m : FormatMuxer} {bytes : Bytes} (herr : (m.write bytes).err = none)
    (hroom : m.offset ≤ m.capacity ∨ bytes ≠ []) :
    m.write bytes =
      { m with file := writeAt m.file m.offset bytes, offset := m.offset + bytes.length, err := none } ∧
    m.offset + bytes.length ≤ m.capacity := by
  have hall : ¬ min bytes.length (m.capacity - m.offset) < bytes.length := by
    intro hlt
    simp [write, hlt] at herr
  have hmin : min bytes.length (m.capacity - m.offset) = bytes.length := by omega
  have herr' : m.err = none := by
    simpa [write, hmin] using herr
  refine ⟨by simp [write, hmin, herr'], ?_⟩
  obtain hroom | hne := hroom
  · omega
  · have := length_pos_iff.mpr hne
    omega

end FormatMuxer

/-! ### Calls of `Write` -/

def entryOf (t : MuxTrack) (p : MuxPacket) (dts pts : ℤ) (data : Bytes) : Entry :=
  { dts
    pts
    duration := durationOf t.timescale p
    sync := p.keyframe || t.media ≠ .video
    data }

structure Takes (env : Env) (m : FormatMuxer) (p : MuxPacket) (i : ℕ) (t : MuxTrack) (dts pts : ℤ)
    (data : Bytes) : Prop where
  err : m.err = none
  stream : m.byStream p.streamID = some i
  track : m.tracks[i]? = some t
  times : t.times p = some (dts, pts)
  sample : t.sampleData env p.payload = .ok data
  le : data.length ≤ maxUint32

/-- **What a call does**: it is refused, or a sample is put on its track. -/
lemma writePacket_cases {env : Env} {m m' : FormatMuxer} {ctxErr err : Option Err}
    {packet : Option MuxPacket} (h : m.writePacket env ctxErr packet = (m', err)) :
    (err ≠ none ∧ (m' = m ∨ ∃ i payload, m' = m.modifyTrack i (·.learn env payload))) ∨
    (err = m'.err ∧ ∃ p i t dts pts data, packet = some p ∧ Takes env m p i t dts pts data ∧
      m' = (m.modifyTrack i (·.learn env p.payload)).put env i (entryOf t p dts pts data)) := by
  unfold writePacket at h
  split at h
  · cases h
    exact .inl ⟨by simp, .inl rfl⟩
  · cases h
    exact .inl ⟨by simp, .inl rfl⟩
  rename_i p
  split at h
  · cases h
    exact .inl ⟨by simp, .inl rfl⟩
  split at h
  · cases h
    exact .inl ⟨by simp, .inl rfl⟩
  rename_i herr
  split at h
  · cases h
    exact .inl ⟨by simp, .inl rfl⟩
  rename_i i hstream
  split at h
  · cases h
    exact .inl ⟨by simp, .inl rfl⟩
  rename_i t htrack
  split at h
  · cases h
    exact .inl ⟨by simp, .inl rfl⟩
  rename_i dts pts htimes
  split at h
  · cases h
    exact .inl ⟨by simp, .inr ⟨i, _, rfl⟩⟩
  rename_i data hdata
  split at h
  · cases h
    exact .inl ⟨by simp, .inr ⟨i, _, rfl⟩⟩
  · rename_i hle
    cases h
    exact .inr ⟨rfl, p, i, t, dts, pts, data, rfl,
      ⟨herr, hstream, htrack, htimes, hdata, Nat.not_lt.mp hle⟩, rfl⟩

section

variable {env : Env} {m : FormatMuxer}

/-- **What a sample does**: it closes the one before it, a fragment may end, and it is added. -/
lemma put_eq {i : ℕ} {e : Entry} (herr : (m.put env i e).err = none) :
    ∃ m', (m' = m.modifyTrack i (·.closeLast e.dts) ∨
        (m.seekable = false ∧ m.anchor = some i) ∧
          m' = (m.modifyTrack i (·.closeLast e.dts)).flushFragment env false) ∧
      m'.err = none ∧ m.put env i e = m'.append i e := by
  have hcutErr : ((m.modifyTrack i (·.closeLast e.dts)).cut env i e).err = none := by
    unfold put at herr
    dsimp only at herr
    split at herr
    · exact herr
    · rename_i hnone
      exact Option.not_isSome_iff_eq_none.mp hnone
  refine ⟨_, ?_, hcutErr, if_neg (Option.not_isSome_iff_eq_none.mpr hcutErr)⟩
  unfold cut
  dsimp only
  split_ifs with hcut
  · simp only [Bool.and_eq_true, Bool.not_eq_true', decide_eq_true_eq] at hcut
    exact .inr ⟨hcut.1, rfl⟩
  · exact .inl rfl

structure TrackKind where
  id : ℕ
  media : MediaType
  timescale : ℕ
  codec : CodecID

def MuxTrack.kind (t : MuxTrack) : TrackKind where
  id := t.id
  media := t.media
  timescale := t.timescale
  codec := t.codec

lemma map_modifyTrack {β : Type*} {g : MuxTrack → β} {f : MuxTrack → MuxTrack}
    (h : ∀ t, g (f t) = g t) (i : ℕ) : (m.modifyTrack i f).tracks.map g = m.tracks.map g := by
  refine ext_getElem? fun j => ?_
  rw [modifyTrack, getElem?_map, getElem?_map, getElem?_modify]
  cases m.tracks[j]? with
  | none => rfl
  | some t =>
    split
    · exact congrArg some (h t)
    · rfl

lemma forall_kind {m' : FormatMuxer} {P : ℕ → TrackKind → Prop}
    (hkinds : m'.tracks.map kind = m.tracks.map kind)
    (h : ∀ i t, m.tracks[i]? = some t → P i t.kind) (i : ℕ) (t : MuxTrack)
    (ht : m'.tracks[i]? = some t) : P i t.kind := by
  have hkind : (m.tracks.map kind)[i]? = some t.kind := by
    rw [← hkinds, getElem?_map, ht]
    rfl
  rw [getElem?_map] at hkind
  obtain ⟨t₀, ht₀, heq⟩ := Option.map_eq_some_iff.mp hkind
  exact heq ▸ h i t₀ ht₀

def FormatMuxer.mode (m : FormatMuxer) : Bool × Bool := (m.seekable, m.closed)

def FormatMuxer.fixed (m : FormatMuxer) : (Bool × Bool) × Option ℕ := (m.mode, m.anchor)

lemma fixed_flushFragment (last : Bool) : (m.flushFragment env last).fixed = m.fixed := by
  have hheader : (m.writeHeader env).fixed = m.fixed := by
    unfold writeHeader
    split
    · rfl
    · split
      · rfl
      · dsimp only
        split <;> rfl
  unfold flushFragment
  dsimp only
  split
  · exact hheader
  · split
    · exact hheader
    · split <;> exact hheader

lemma mode_flushFragment (last : Bool) : (m.flushFragment env last).mode = m.mode :=
  congrArg Prod.fst (fixed_flushFragment last)

lemma fixed_put (i : ℕ) (e : Entry) : (m.put env i e).fixed = m.fixed := by
  have hcut : ((m.modifyTrack i (·.closeLast e.dts)).cut env i e).fixed = m.fixed := by
    unfold cut
    dsimp only
    split
    · exact fixed_flushFragment false
    · rfl
  unfold put
  dsimp only
  split
  · exact hcut
  · unfold append
    split <;> exact hcut

lemma mode_write {r : MuxRun} (call : Option Err × Option MuxPacket) :
    (r.write env call).muxer.mode = r.muxer.mode := by
  have hwrite : (r.muxer.writePacket env call.1 call.2).1.mode = r.muxer.mode := by
    obtain ⟨_, heq | ⟨i, payload, heq⟩⟩ | ⟨_, p, i, t, dts, pts, data, _, _, heq⟩ :=
      writePacket_cases (Prod.mk.eta (p := r.muxer.writePacket env call.1 call.2)).symm
    · rw [heq]
    · rw [heq]
      rfl
    · rw [heq]
      exact congrArg Prod.fst (fixed_put i _)
  unfold MuxRun.write
  dsimp only
  split <;> exact hwrite

/-- **Only `Close` closes the muxer**, and the kind of the file is fixed. -/
lemma mode_writeAll (m : FormatMuxer) (calls : List (Option Err × Option MuxPacket)) :
    (MuxRun.writeAll env m calls).muxer.mode = m.mode := by
  have hruns : ∀ r : MuxRun, (calls.foldl (MuxRun.write env) r).muxer.mode = r.muxer.mode := by
    induction calls with
    | nil => exact fun r => rfl
    | cons call calls ih => exact fun r => (ih _).trans (mode_write call)
  exact hruns _

lemma closed_writeAll (m : FormatMuxer) (calls : List (Option Err × Option MuxPacket)) :
    (MuxRun.writeAll env m calls).muxer.closed = m.closed :=
  congrArg Prod.snd (mode_writeAll m calls)

lemma seekable_close (env : Env) (m : FormatMuxer) : (m.close env).1.seekable = m.seekable := by
  unfold close
  split
  · rfl
  dsimp only
  split
  · rfl
  · split
    · unfold finishProgressive
      split <;> rfl
    · exact congrArg Prod.fst (mode_flushFragment true)

end

/-- **The rule for runs**: what a configuration and a new sample keep holds until the muxer fails. -/
theorem MuxRun.invariant {env : Env} {I : FormatMuxer → List (ℕ × MuxPacket) → Prop}
    (hlearn : ∀ m accepted i payload, I m accepted → I (m.modifyTrack i (·.learn env payload)) accepted)
    (hput : ∀ m accepted p i t dts pts data, I m accepted → Takes env m p i t dts pts data →
      ((m.modifyTrack i (·.learn env p.payload)).put env i (entryOf t p dts pts data)).err = none →
        I ((m.modifyTrack i (·.learn env p.payload)).put env i (entryOf t p dts pts data))
          (accepted ++ [(i, p)]))
    {m₀ : FormatMuxer} (hinit : I m₀ []) (calls : List (Option Err × Option MuxPacket)) :
    (MuxRun.writeAll env m₀ calls).muxer.err = none →
      I (MuxRun.writeAll env m₀ calls).muxer (MuxRun.writeAll env m₀ calls).accepted := by
  have hwrite : ∀ (r : MuxRun) (call : Option Err × Option MuxPacket),
      (r.muxer.err = none → I r.muxer r.accepted) → (r.write env call).muxer.err = none →
        I (r.write env call).muxer (r.write env call).accepted := by
    intro r call h
    unfold MuxRun.write
    dsimp only
    intro herr
    obtain ⟨hrefused, hsame⟩ | ⟨herr', p, i, t, dts, pts, data, hp, htakes, hm'⟩ :=
      writePacket_cases (Prod.mk.eta (p := r.muxer.writePacket env call.1 call.2)).symm
    · split at herr
      · rename_i heq _
        exact absurd heq hrefused
      · obtain heq | ⟨i, payload, heq⟩ := hsame
        · rw [heq] at herr ⊢
          exact h herr
        · rw [heq] at herr ⊢
          exact hlearn _ _ i payload (h herr)
    · have hbind : (call.2.bind fun packet =>
          (r.muxer.byStream packet.streamID).map (·, packet)) = some (i, p) := by
        rw [hp, Option.bind_some, htakes.stream]
        rfl
      rw [hbind] at herr ⊢
      have hfine : (r.muxer.writePacket env call.1 call.2).1.err = none := by
        split at herr <;> exact herr
      rw [herr', hfine, hm']
      exact hput _ _ p i t dts pts data (h htakes.err) htakes (hm' ▸ hfine)
  have hruns : ∀ r : MuxRun, (r.muxer.err = none → I r.muxer r.accepted) →
      (calls.foldl (MuxRun.write env) r).muxer.err = none →
        I (calls.foldl (MuxRun.write env) r).muxer (calls.foldl (MuxRun.write env) r).accepted := by
    induction calls with
    | nil => exact fun r hr => hr
    | cons call calls ih => exact fun r hr => ih _ (hwrite r call hr)
  exact hruns _ fun _ => hinit

/-! ### The durations of samples -/

def dtsOf (timescale : ℕ) (p : MuxPacket) : ℤ := ((ticksOf timescale p).map Prod.fst).getD 0

/-- The duration of a packet once the next one is there: its own, or the distance. -/
def durationTo (timescale : ℕ) (p q : MuxPacket) : ℤ :=
  if durationOf timescale p < 0 then int64 (dtsOf timescale q - dtsOf timescale p)
  else durationOf timescale p

/-- The samples of packets, with the durations they have to the next ones. -/
def Gaps (timescale : ℕ) : List MuxPacket → List MuxSample → Prop
  | [], [] => True
  | [p], [s] => s.dts = dtsOf timescale p
  | p :: q :: ps, s :: r :: ss =>
    s.dts = dtsOf timescale p ∧ s.duration = durationTo timescale p q ∧
      Gaps timescale (q :: ps) (r :: ss)
  | _, _ => False

section

variable {timescale : ℕ} {dts : ℤ} {ps : List MuxPacket} {ss : List MuxSample}

lemma closeSamples_append (init : List MuxSample) {rest : List MuxSample} (h : rest ≠ []) :
    closeSamples (init ++ rest) dts = init ++ closeSamples rest dts := by
  obtain ⟨mid, s, rfl⟩ := eq_nil_or_concat rest |>.resolve_left h
  unfold closeSamples
  rw [concat_eq_append, ← append_assoc, getLast?_concat, getLast?_concat]
  dsimp only
  split
  · rw [dropLast_concat, dropLast_concat, append_assoc]
  · rw [append_assoc]

lemma closeSamples_of_known (h : ∀ s ∈ ss.getLast?, 0 ≤ s.duration) : closeSamples ss dts = ss := by
  unfold closeSamples
  split
  · rfl
  · rename_i s hs
    exact if_neg (not_lt.mpr (h s hs))

lemma closeSamples_cons {s : MuxSample} (h : ss ≠ []) :
    closeSamples (s :: ss) dts = s :: closeSamples ss dts :=
  closeSamples_append [s] h

lemma Gaps.concat {q : MuxPacket} {x : MuxSample} (hx : x.dts = dtsOf timescale q) :
    ∀ {ps : List MuxPacket} {ss : List MuxSample}, Gaps timescale ps ss →
      (∀ p ∈ ps.getLast?, ∀ s ∈ ss.getLast?, s.duration = durationOf timescale p) →
      Gaps timescale (ps ++ [q]) (closeSamples ss (dtsOf timescale q) ++ [x]) := by
  intro ps
  induction ps with
  | nil =>
    intro ss hgaps _
    cases ss with
    | nil => exact hx
    | cons s ss => exact hgaps.elim
  | cons p ps ih =>
    intro ss hgaps hlast
    cases ps with
    | nil =>
      match ss, hgaps with
      | [s], hdts =>
        have hduration : s.duration = durationOf timescale p := hlast p rfl s rfl
        have hclosed : closeSamples [s] (dtsOf timescale q) =
            [{ s with duration := durationTo timescale p q }] := by
          unfold closeSamples durationTo
          rw [getLast?_singleton, ← hduration, ← hdts]
          dsimp only
          split <;> rfl
        rw [hclosed]
        exact ⟨hdts, rfl, hx⟩
    | cons p' ps =>
      match ss, hgaps with
      | s :: r :: ss, ⟨hdts, hduration, hgaps⟩ =>
        have hrest := ih hgaps fun p hp s hs => hlast p
          (by rwa [getLast?_cons_cons]) s (by rwa [getLast?_cons_cons])
        rw [closeSamples_cons (by simp)]
        obtain ⟨r', ss', hcons⟩ : ∃ r' ss', closeSamples (r :: ss) (dtsOf timescale q) ++ [x] = r' :: ss' :=
          exists_cons_of_ne_nil (by simp)
        rw [hcons] at hrest
        show Gaps timescale (p :: p' :: (ps ++ [q])) (s :: (closeSamples (r :: ss) _ ++ [x]))
        rw [hcons]
        exact ⟨hdts, hduration, hrest⟩

lemma Gaps.map_dts : ∀ {ps : List MuxPacket} {ss : List MuxSample}, Gaps timescale ps ss →
    ss.map (·.dts) = ps.map (dtsOf timescale)
  | [], [], _ => rfl
  | [p], [s], h => by simpa [Gaps] using h
  | p :: q :: ps, s :: r :: ss, ⟨hdts, _, h⟩ => by
    rw [map_cons, map_cons (l := q :: ps), ← h.map_dts, hdts]

end

end Goav.Mp4
