import Goav.Mp4.DecodeTimes

/-!
The decode times of the packets that a track takes. A packet is compared with the last sample that the
track holds, which a fragment may take away.
-/

namespace Goav.Mp4

open Goav.Av Goav.Lib MuxTrack List FormatMuxer Option

variable {env : Env} {m m₀ : FormatMuxer} {t t₀ : MuxTrack} {i k : ℕ} {e : Entry}
  {accepted : List (ℕ × MuxPacket)} {p q : MuxPacket}

def EndsWith (t : MuxTrack) (dts duration : ℤ) : Prop :=
  ∃ s, t.samples.getLast? = some s ∧ s.dts = dts ∧ s.duration = duration

variable {dts pts : ℤ} {timescale : ℕ}

lemma EndsWith.dropFragment {duration : ℤ} (h : EndsWith t dts duration) (hneg : duration < 0) :
    EndsWith (t.dropFragment (t.readyCount false)) dts duration := by
  obtain ⟨s, hs, rfl, rfl⟩ := h
  have hready : t.readyCount false = t.samples.length - 1 := by
    simp [readyCount, hs, hneg]
  have hpos : 0 < t.samples.length := length_pos_iff.mpr (by rintro hnil; simp [hnil] at hs)
  obtain ⟨cut, hsamples⟩ := samples_dropFragment t (t.readyCount false)
  refine ⟨{ s with offset := s.offset - cut }, ?_, rfl, rfl⟩
  rw [hsamples, getLast?_map, getLast?_drop, if_neg (by omega), hs]
  rfl

lemma endsWith_append (ht : m.tracks[i]? = some t) : ∃ t', (m.append i e).tracks[i]? = some t' ∧
    t'.timescale = t.timescale ∧ EndsWith t' e.dts e.duration := by
  unfold append
  split
  · refine ⟨_, (getElem?_modify_eq _ _ _).trans (congrArg _ ht), rfl, newSample e m.offset, ?_,
      rfl, rfl⟩
    exact getLast?_concat
  · refine ⟨_, (getElem?_modify_eq _ _ _).trans (congrArg _ ht), rfl, newSample e t.data.length, ?_,
      rfl, rfl⟩
    exact getLast?_concat

lemma append_other (h : k ≠ i) : (m.append k e).tracks[i]? = m.tracks[i]? := by
  unfold append
  split <;> exact getElem?_modify_ne _ _ h

lemma track_put (ht : m.tracks[i]? = some t) (herr : (m.put env k e).err = none) :
    ∃ t', (m.put env k e).tracks[i]? = some t' ∧ t'.timescale = t.timescale ∧
      (k = i → EndsWith t' e.dts e.duration) ∧
      (k ≠ i → ∀ dts duration, EndsWith t dts duration →
        (m.seekable = true ∨ m.anchor = some i ∨ duration < 0) → EndsWith t' dts duration) := by
  obtain ⟨m', hcases, hcutErr, hput⟩ := put_eq herr
  -- The track before the sample is added: only a fragment that ends takes samples from another track.
  obtain ⟨t', ht', hscale, hother⟩ : ∃ t', m'.tracks[i]? = some t' ∧ t'.timescale = t.timescale ∧
      (k ≠ i → ∀ dts duration, EndsWith t dts duration →
        (m.seekable = true ∨ m.anchor = some i ∨ duration < 0) → EndsWith t' dts duration) := by
    obtain ⟨t₁, ht₁, hscale, hsame⟩ : ∃ t₁,
        (m.modifyTrack k (·.closeLast e.dts)).tracks[i]? = some t₁ ∧ t₁.timescale = t.timescale ∧
          (k ≠ i → t₁ = t) := by
      unfold modifyTrack
      rw [getElem?_modify, ht]
      split
      · next hki => exact ⟨_, rfl, rfl, fun hne => absurd hki hne⟩
      · exact ⟨_, rfl, rfl, fun _ => rfl⟩
    obtain rfl | ⟨⟨hseekable, hanchor⟩, rfl⟩ := hcases
    · exact ⟨t₁, ht₁, hscale, fun hne dts duration hends _ => (hsame hne).symm ▸ hends⟩
    · obtain ⟨place, hplace, htracks, -, -⟩ := flushFragment_spec hcutErr
      refine ⟨(place t₁).dropFragment (t₁.readyCount false), ?_, ?_, ?_⟩
      · rw [htracks, getElem?_map, ht₁]
        rfl
      · rw [timescale_dropFragment, hplace.timescale, hscale]
      · intro hne dts duration hends hkept
        obtain rfl := hsame hne
        have hneg : duration < 0 := by
          obtain hseek | hanchor' | hneg := hkept
          · rw [hseekable] at hseek
            cases hseek
          · exact absurd (some.inj (hanchor.symm.trans hanchor')) hne
          · exact hneg
        have hready : t₁.readyCount false = (place t₁).readyCount false := by
          unfold readyCount
          rw [hplace.samples]
        rw [hready]
        refine EndsWith.dropFragment ?_ hneg
        unfold EndsWith
        rw [hplace.samples]
        exact hends
  rw [hput]
  by_cases hki : k = i
  · subst hki
    obtain ⟨t'', ht'', hscale', hends⟩ := endsWith_append (e := e) ht'
    exact ⟨t'', ht'', hscale'.trans hscale, fun _ => hends, fun hne => absurd rfl hne⟩
  · exact ⟨t', (append_other hki).trans ht', hscale, fun h => absurd h hki, hother⟩

/-- The last sample of the track stays. -/
def KeepsLast (m₀ : FormatMuxer) (i timescale : ℕ) (accepted : List (ℕ × MuxPacket)) : Prop :=
  m₀.seekable = true ∨ m₀.anchor = some i ∨ ∀ p ∈ packetsOf accepted i, durationOf timescale p < 0

lemma KeepsLast.of_concat (h : KeepsLast m₀ i timescale (accepted ++ [(k, p)])) :
    KeepsLast m₀ i timescale accepted := by
  refine h.imp_right (Or.imp_right fun hneg p' hp' => hneg p' ?_)
  unfold packetsOf at hp' ⊢
  rw [filter_append, map_append]
  exact mem_append_left _ hp'

/-- The decode times of a track's packets do not go back, and the track ends with the last one. -/
structure TailOrder (t : MuxTrack) (packets : List MuxPacket) : Prop where
  sorted : (packets.map (dtsOf t.timescale)).IsChain (· ≤ ·)
  last : ∀ p ∈ packets.getLast?, EndsWith t (dtsOf t.timescale p) (durationOf t.timescale p)

structure TrackOrder (m₀ : FormatMuxer) (i timescale : ℕ) (m : FormatMuxer)
    (accepted : List (ℕ × MuxPacket)) : Prop where
  fixed : m.fixed = m₀.fixed
  order : ∃ t, m.tracks[i]? = some t ∧ t.timescale = timescale ∧
    (KeepsLast m₀ i timescale accepted → TailOrder t (packetsOf accepted i))

lemma times_eq_some (h : t.times p = some (dts, pts)) :
    dtsOf t.timescale p = dts ∧ ∀ last duration, EndsWith t last duration → last ≤ dts := by
  obtain ⟨hticks, hlast⟩ := filter_eq_some_iff.mp h
  refine ⟨by simp [dtsOf, hticks], ?_⟩
  rintro last duration ⟨s, hs, rfl, -⟩
  simpa [hs] using hlast

lemma TrackOrder.learn (h : TrackOrder m₀ i timescale m accepted) (env : Env) (k : ℕ)
    (payload : Bytes) : TrackOrder m₀ i timescale (m.modifyTrack k (·.learn env payload)) accepted := by
  obtain ⟨t, ht, hscale, horder⟩ := h.order
  refine ⟨h.fixed, ?_⟩
  unfold modifyTrack
  rw [getElem?_modify, ht]
  split
  · exact ⟨_, rfl, hscale, fun hkeeps => ⟨(horder hkeeps).sorted, (horder hkeeps).last⟩⟩
  · exact ⟨t, rfl, hscale, horder⟩

lemma TrackOrder.put {t : MuxTrack} {data : Bytes} (h : TrackOrder m₀ i timescale m accepted)
    (htakes : Takes env m p k t dts pts data)
    (herr : ((m.modifyTrack k (·.learn env p.payload)).put env k (entryOf t p dts pts data)).err = none) :
    TrackOrder m₀ i timescale
      ((m.modifyTrack k (·.learn env p.payload)).put env k (entryOf t p dts pts data))
      (accepted ++ [(k, p)]) := by
  have hlearnt := h.learn env k p.payload
  refine ⟨(fixed_put k _).trans hlearnt.fixed, ?_⟩
  obtain ⟨t₁, ht₁, hscale, horder⟩ := hlearnt.order
  obtain ⟨t', ht', hscale', hself, hother⟩ := track_put ht₁ herr
  refine ⟨t', ht', hscale'.trans hscale, fun hkeeps => ?_⟩
  have hbefore := horder hkeeps.of_concat
  by_cases hki : k = i
  · subst hki
    have hfrom : t₁.timescale = t.timescale ∧ t₁.samples = t.samples := by
      unfold modifyTrack at ht₁
      rw [getElem?_modify_eq, htakes.track] at ht₁
      obtain rfl := some.inj ht₁
      exact ⟨rfl, rfl⟩
    obtain ⟨hdts, hle⟩ := times_eq_some htakes.times
    rw [packetsOf_concat_self]
    refine ⟨?_, fun p' hp' => ?_⟩
    · rw [hscale', map_append, isChain_append]
      refine ⟨hbefore.sorted, .singleton _, fun d hd d' hd' => ?_⟩
      cases hd'
      rw [getLast?_map] at hd
      obtain ⟨q, hq, rfl⟩ := map_eq_some_iff.mp hd
      obtain ⟨s, hs, hsame, hduration⟩ := hbefore.last q hq
      rw [hfrom.1, hdts, ← hfrom.1]
      exact hle _ _ ⟨s, hfrom.2 ▸ hs, hsame, hduration⟩
    · rw [getLast?_concat] at hp'
      cases hp'
      rw [hscale', hfrom.1, hdts]
      exact hself rfl
  · rw [packetsOf_concat_of_ne accepted p hki]
    refine ⟨hscale' ▸ hbefore.sorted, fun p' hp' => ?_⟩
    rw [hscale']
    refine hother hki _ _ (hbefore.last p' hp') ?_
    obtain hseek | hanchor | hneg := hkeeps
    · exact .inl ((congrArg (·.1.1) hlearnt.fixed).trans hseek)
    · exact .inr (.inl ((congrArg (·.2) hlearnt.fixed).trans hanchor))
    · exact .inr (.inr (hscale ▸ hneg p' (by
        rw [packetsOf_concat_of_ne accepted p hki]
        exact mem_of_getLast? hp')))

lemma trackOrder_writeAll (ht : m₀.tracks[i]? = some t₀) (calls : List (Option Err × Option MuxPacket)) :
    (MuxRun.writeAll env m₀ calls).muxer.err = none →
      TrackOrder m₀ i t₀.timescale (MuxRun.writeAll env m₀ calls).muxer
        (MuxRun.writeAll env m₀ calls).accepted :=
  MuxRun.invariant (fun _ _ k payload h => h.learn env k payload)
    (fun _ _ _ _ _ _ _ _ h htakes herr => h.put htakes herr)
    ⟨rfl, t₀, ht, rfl, fun _ => ⟨.nil, by simp [packetsOf]⟩⟩ calls

lemma accepted_write (env : Env) (r : MuxRun) (call : Option Err × Option MuxPacket) :
    (r.write env call).accepted = r.accepted ∨ (r.write env call).muxer.err = none := by
  unfold MuxRun.write
  dsimp only
  split
  · next hnone _ =>
    obtain ⟨hsome, -⟩ | ⟨herr, -⟩ :=
      writePacket_cases (Prod.mk.eta (p := r.muxer.writePacket env call.1 call.2)).symm
    · exact absurd hnone hsome
    · exact .inr (herr.symm.trans hnone)
  · exact .inl rfl

lemma sorted_writeAll (ht : m₀.tracks[i]? = some t₀) (calls : List (Option Err × Option MuxPacket))
    (hkeeps : KeepsLast m₀ i t₀.timescale (MuxRun.writeAll env m₀ calls).accepted) :
    ((packetsOf (MuxRun.writeAll env m₀ calls).accepted i).map (dtsOf t₀.timescale)).IsChain (· ≤ ·) := by
  -- The last call that took a packet left the muxer without an error.
  induction calls using List.reverseRecOn with
  | nil => exact .nil
  | append_singleton calls call ih =>
    have hstep : MuxRun.writeAll env m₀ (calls ++ [call]) = (MuxRun.writeAll env m₀ calls).write env call :=
      foldl_concat ..
    obtain hsame | hfine := accepted_write env (MuxRun.writeAll env m₀ calls) call
    · rw [hstep, hsame] at hkeeps ⊢
      exact ih hkeeps
    · obtain ⟨t, -, hscale, horder⟩ := (trackOrder_writeAll ht (calls ++ [call]) (hstep ▸ hfine)).order
      exact hscale ▸ (horder hkeeps).sorted

/-- **The decode times do not go back where the last sample stays**: a packet from before it is refused.
-/
theorem decode_times_in_order (ht : m₀.tracks[i]? = some t₀) (calls : List (Option Err × Option MuxPacket))
    (hkeeps : KeepsLast m₀ i t₀.timescale (MuxRun.writeAll env m₀ calls).accepted) :
    let r := MuxRun.writeAll env m₀ calls
    ((packetsOf r.accepted i).map (dtsOf t₀.timescale)).Pairwise (· ≤ ·) ∧
    ∀ q ∈ (packetsOf r.accepted i).getLast?, ∀ p ctxErr, r.muxer.byStream p.streamID = some i →
      dtsOf t₀.timescale p < dtsOf t₀.timescale q →
        ∃ m' err, r.muxer.writePacket env ctxErr (some p) = (m', some err) ∧
          m'.tracks[i]?.map (·.samples) = r.muxer.tracks[i]?.map (·.samples) := by
  intro r
  refine ⟨isChain_iff_pairwise.mp (sorted_writeAll ht calls hkeeps), ?_⟩
  intro q hq p ctxErr hstream hback
  cases hwrite : r.muxer.writePacket env ctxErr (some p) with | mk m' err =>
  obtain ⟨hrefused, hsame⟩ | ⟨-, p', k, t, dts, pts, data, hp, htakes, -⟩ := writePacket_cases hwrite
  · obtain ⟨err, rfl⟩ := ne_none_iff_exists'.mp hrefused
    refine ⟨m', err, rfl, ?_⟩
    obtain rfl | ⟨k, payload, rfl⟩ := hsame
    · rfl
    · rw [modifyTrack, getElem?_modify]
      cases r.muxer.tracks[i]? with
      | none => rfl
      | some t => exact congrArg some (by split <;> rfl)
  · cases hp
    obtain rfl := some.inj (htakes.stream.symm.trans hstream)
    obtain ⟨t', ht', hscale, horder⟩ := (trackOrder_writeAll ht calls htakes.err).order
    obtain rfl := some.inj (htakes.track.symm.trans ht')
    obtain ⟨hdts, hle⟩ := times_eq_some htakes.times
    have hlast := hle _ _ ((horder hkeeps).last q hq)
    rw [hscale] at hlast hdts
    omega

theorem decode_times_in_order_cut : cutMuxer.anchor = some 0 ∧ cutRun.muxer.fragments.length = 1 ∧
    ∃ t, cutMuxer.tracks[0]? = some t ∧
      ((packetsOf cutRun.accepted 0).map (dtsOf t.timescale)).Pairwise (· ≤ ·) := by
  have ht : cutMuxer.tracks[0]? = some (cutMuxer.tracks[0]?.get (by decide)) := by simp
  exact ⟨by decide, by decide, _, ht, (decode_times_in_order ht cutCalls (.inr (.inl (by decide)))).1⟩

/-- Audio with a duration, a keyframe that ends the fragment, and audio from before the first. -/
def backCalls : List (Option Err × Option MuxPacket) :=
  [(none, some { packetAt "a" 1000 1000 false [1] with
      duration := { value := 20, base := { num := 1, den := 1000 } } }),
    (none, packetAt "v" 0 0 true [2]), (none, packetAt "v" 40 40 true [3]),
    (none, packetAt "a" 0 0 false [4])]

def backMuxer : FormatMuxer :=
  (FormatMuxer.openOutput bareEnv false [] 0 1000 0 [videoStream, audioStream]).toOption.get (by decide)

theorem decode_times_go_back :
    FormatMuxer.openOutput bareEnv false [] 0 1000 0 [videoStream, audioStream] = .ok backMuxer ∧
    (MuxRun.writeAll bareEnv backMuxer backCalls).muxer.err = none ∧
    (packetsOf (MuxRun.writeAll bareEnv backMuxer backCalls).accepted 1).map (dtsOf 48000) = [48000, 0] :=
  ⟨rfl, by decide, by decide⟩

end Goav.Mp4
