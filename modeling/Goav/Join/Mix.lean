import Goav.Join.StageDefs
import Goav.Lib.Except
import Goav.Resample.Streaming

/-!
The audio mix of a step (`audio_mix.go`, `audio_mix_kernel.go`): samples are summed up to the end of the
shortest frame, so that nothing is lost where the frames are of one length.
-/

namespace Goav.Join

open Goav.Av Goav.Lib List
open Goav.Resample (getS16 putSamples samplesBytes sampleFormatS16)

structure Plane where
  bytes : Bytes
  stride : ℤ := 0
  offset : ℤ := 0

structure MixFrame extends Frame where
  planes : List Plane

inductive MixError where
  | noFrames
  | noPlane (arm : StreamID)
  | format (got : String) (arm : StreamID)
  | differ (arm : StreamID) (channels rate : ℤ) (base : StreamID) (baseChannels baseRate : ℤ)
  | nilFrame

def clampS16 (sum : ℤ) : ℤ := if 32767 < sum then 32767 else if sum < -32768 then -32768 else sum

def mixSum (inputs : List Bytes) (off : ℕ) : ℤ :=
  inputs.foldl (fun sum input => (sum + getS16 input off).bmod (2 ^ 32)) 0

def mixS16ScalarRange (dst : Bytes) (inputs : List Bytes) (n : ℕ) : Bytes :=
  putSamples dst (n / 2) 1 fun k _ => clampS16 (mixSum inputs (k * 2))

def mixInput (base : StreamID) (audio : AudioFrame) (f : MixFrame) : Except MixError Bytes :=
  match f.audio, f.planes with
  | some a, plane :: _ =>
    if a.sampleFormat ≠ sampleFormatS16 then .error (.format a.sampleFormat f.streamID)
    else if a.channels ≠ audio.channels ∨ a.sampleRate ≠ audio.sampleRate then
      .error (.differ f.streamID a.channels a.sampleRate base audio.channels audio.sampleRate)
    else .ok plane.bytes
  | _, _ => .error (.noPlane f.streamID)

def mixPlanes (frames : List (Option MixFrame)) (out : StreamID) : Except MixError MixFrame :=
  match frames.reduceOption with
  | [] => .error .noFrames
  | base :: rest =>
    match base.audio, base.planes with
    | some audio, plane :: _ => do
      let inputs ← (base :: rest).mapM (mixInput base.streamID audio)
      let n := inputs.foldl (fun n input => min n input.length) plane.bytes.length
      -- whole samples
      let n := n - n % 2
      return {
        streamID := out
        type := .audio
        pts := base.pts
        duration := base.duration
        audio := some { audio with samples := (n / 2 : ℤ).tdiv (max audio.channels 1) }
        planes := [{ plane with bytes := mixS16ScalarRange (replicate n 0) inputs n }] }
    | _, _ => .error (.noPlane base.streamID)

def mixStep (frames : List (Option MixFrame)) (ref : ℕ) (out : StreamID) : Except MixError MixFrame := do
  let mixed ← mixPlanes frames out
  match frames[ref]?.join with
  | none => throw .nilFrame
  | some f => return { mixed with pts := f.pts, duration := f.duration }

/-! ### What the mix is for -/

def planeBytes (f : MixFrame) : Bytes := (f.planes.head?.map (·.bytes)).getD []

def sampleCount (f : MixFrame) : ℕ := (planeBytes f).length / 2

/-- A frame of whole samples in one plane. -/
structure S16Frame (rate channels : ℕ) (f : MixFrame) : Prop where
  plane : ∃ p, f.planes = [p] ∧ p.offset = 0
  audio : ∃ a, f.audio = some a ∧ a.sampleFormat = sampleFormatS16 ∧ a.sampleRate = rate ∧
    a.channels = channels ∧ (planeBytes f).length = 2 * (channels * a.samples)

def Lasts (f : MixFrame) : Prop := ∀ a ∈ f.audio,
  f.duration.value * f.duration.base.num * a.sampleRate = a.samples * f.duration.base.den

def sumAt (frames : List MixFrame) (k : ℕ) : ℤ :=
  ((frames.filter (k < sampleCount ·)).map fun f => getS16 (planeBytes f) (k * 2)).sum

/-- No sample is lost, and the duration fits. -/
structure KeepsSamples (frames : List MixFrame) (mixed : MixFrame) : Prop where
  samples : ∃ longest ∈ frames, (∀ f ∈ frames, sampleCount f ≤ sampleCount longest) ∧
    planeBytes mixed = samplesBytes (sampleCount longest) 1 fun k _ => clampS16 (sumAt frames k)
  lasts : (∀ f ∈ frames, Lasts f) → Lasts mixed

def IsStep (frames : List (Option MixFrame)) (ref : ℕ) : Prop := ∃ (s s' : JoinSync) (st : JoinSync.Step),
  s.step = (s', some st) ∧ st.frames = frames.map (·.map MixFrame.toFrame) ∧ st.ref = some ref

/-! ### Frames of one length -/

lemma getS16_range (data : Bytes) (off : ℕ) : -32768 ≤ getS16 data off ∧ getS16 data off ≤ 32767 := by
  exact ⟨Int16.le_toInt _, Int.le_of_lt_add_one (Int16.toInt_lt _)⟩

lemma mixSum_eq {inputs : List Bytes} (h : inputs.length ≤ 65536) (off : ℕ) :
    mixSum inputs off = (inputs.map (getS16 · off)).sum := by
  -- the sums so far leave room for the inputs that are left
  have hgen : ∀ sum : ℤ, -32768 * (65536 - inputs.length) ≤ sum → sum ≤ 32767 * (65536 - inputs.length) →
      inputs.foldl (fun sum input => (sum + getS16 input off).bmod (2 ^ 32)) sum =
        sum + (inputs.map (getS16 · off)).sum := by
    clear h
    induction inputs with
    | nil => simp
    | cons input inputs ih =>
      intro sum hlo hhi
      obtain ⟨hmin, hmax⟩ := getS16_range input off
      rw [length_cons] at hlo hhi
      rw [foldl_cons, Int.bmod_eq_of_le (by omega) (by omega), ih _ (by omega) (by omega), map_cons,
        sum_cons, add_assoc]
  have hall := hgen 0 (by omega) (by omega)
  rw [zero_add] at hall
  exact hall

lemma mapM_mixInput {rate channels : ℕ} {audio : AudioFrame} {fs : List MixFrame} (base : StreamID)
    (hrate : audio.sampleRate = rate) (hchannels : audio.channels = channels)
    (hfs : ∀ f ∈ fs, S16Frame rate channels f) :
    fs.mapM (mixInput base audio) = .ok (fs.map planeBytes) := by
  induction fs with
  | nil => rfl
  | cons f fs ih =>
    obtain ⟨⟨p, hp, -⟩, a, ha, hformat, ha', hc, -⟩ := hfs f mem_cons_self
    have hf : mixInput base audio f = .ok (planeBytes f) := by
      simp [mixInput, ha, hp, hformat, ha', hrate, hc, hchannels, planeBytes]
    rw [mapM_cons, hf, ih fun g hg => hfs g (mem_cons_of_mem _ hg)]
    rfl

lemma le_foldl_min_length {x n : ℕ} {l : List Bytes} :
    x ≤ l.foldl (fun n b => min n b.length) n ↔ x ≤ n ∧ ∀ b ∈ l, x ≤ b.length := by
  induction l generalizing n with
  | nil => simp
  | cons b l ih => simp [ih, and_assoc]

variable {rate channels n : ℕ} {frames : List (Option MixFrame)} {ref : ℕ} {f : MixFrame}

/-- The mixed frame ends with the shortest. -/
lemma length_le_of_mixStep {mixed : MixFrame} {out : StreamID}
    (hframes : ∀ f ∈ frames.reduceOption, S16Frame rate channels f)
    (h : mixStep frames ref out = .ok mixed) :
    ∀ f ∈ frames.reduceOption, (planeBytes mixed).length ≤ (planeBytes f).length := by
  intro f hf
  obtain ⟨planes, hplanes, h⟩ := bind_eq_ok.mp h
  have hbytes : planeBytes mixed = planeBytes planes := by
    split at h
    · cases h
    · cases h
      rfl
  unfold mixPlanes at hplanes
  generalize frames.reduceOption = fs at *
  obtain ⟨base, rest, rfl⟩ := exists_cons_of_ne_nil (ne_nil_of_mem hf)
  obtain ⟨⟨p, hp, -⟩, a, ha, -, hrate, hc, -⟩ := hframes base mem_cons_self
  simp only [ha, hp, mapM_mixInput base.streamID hrate hc hframes] at hplanes
  cases hplanes
  have hle := (le_foldl_min_length.mp (Nat.le_refl
    (((base :: rest).map planeBytes).foldl _ p.bytes.length))).2 _ (mem_map_of_mem hf)
  rw [hbytes]
  show (mixS16ScalarRange _ _ _).length ≤ _
  rw [mixS16ScalarRange, Goav.Resample.putSamples_eq _ (by simp; omega), Goav.Resample.length_samplesBytes]
  omega

lemma keepsSamples_of_length (hchannels : 0 < channels)
    (hframes : ∀ f ∈ frames.reduceOption, S16Frame rate channels f)
    (hlength : ∀ f ∈ frames.reduceOption, (planeBytes f).length = n)
    (hcount : frames.reduceOption.length ≤ 65536) (href : frames[ref]?.join = some f) (out : StreamID) :
    ∃ mixed, mixStep frames ref out = .ok mixed ∧ KeepsSamples frames.reduceOption mixed := by
  have hf : f ∈ frames.reduceOption :=
    reduceOption_mem_iff.mpr (mem_of_getElem? (Option.join_eq_some_iff.mp href))
  unfold mixStep mixPlanes
  generalize frames.reduceOption = fs at *
  obtain ⟨base, rest, rfl⟩ := exists_cons_of_ne_nil (ne_nil_of_mem hf)
  obtain ⟨⟨p, hp, hoffset⟩, a, ha, hformat, hrate, hc, hbytes⟩ := hframes base mem_cons_self
  have hn : p.bytes.length = n := by
    rw [← hlength base mem_cons_self]
    simp [planeBytes, hp]
  have hmin : ((base :: rest).map planeBytes).foldl (fun n b => min n b.length) n = n :=
    Nat.le_antisymm (le_foldl_min_length.mp le_rfl).1
      (le_foldl_min_length.mpr ⟨le_rfl, by simpa using fun g hg => (hlength g hg).ge⟩)
  rw [hlength base mem_cons_self] at hbytes
  have heven : n - n % 2 = n := by omega
  simp only [ha, hp, mapM_mixInput base.streamID hrate hc hframes, ok_bind, hn, hmin, href, heven]
  refine ⟨_, rfl, ⟨base, mem_cons_self, fun g hg => ?_, ?_⟩, ?_⟩
  · simp [sampleCount, hlength g hg, hlength base mem_cons_self]
  · rw [mixS16ScalarRange, Goav.Resample.putSamples_eq _ (by simp; omega), sampleCount,
      hlength base mem_cons_self]
    refine Goav.Resample.samplesBytes_congr fun k hk _ _ => congrArg clampS16 ?_
    have hall : (base :: rest).filter (k < sampleCount ·) = base :: rest :=
      filter_eq_self.mpr fun g hg => by simpa [sampleCount, hlength g hg] using hk
    rw [mixSum_eq (by simpa using hcount), sumAt, hall, map_map]
    rfl
  · intro hlasts a' ha'
    obtain ⟨-, b, hb, -, hbrate, hbc, hbbytes⟩ := hframes f hf
    rw [hlength f hf] at hbbytes
    have hsamples : (n / 2 : ℤ).tdiv (max a.channels 1) = b.samples := by
      rw [hc, max_eq_left (by omega), hbbytes, Int.mul_ediv_cancel_left _ (by decide),
        Int.mul_tdiv_cancel_left _ (by omega)]
    cases ha'
    have hlast := hlasts f hf b hb
    rw [hbrate] at hlast
    rw [hrate, hlast, ← hsamples]

/-- **The mix loses nothing exactly of frames of one length.** -/
theorem mixStep_keeps_samples (hchannels : 0 < channels)
    (hframes : ∀ f ∈ frames.reduceOption, S16Frame rate channels f)
    (hcount : frames.reduceOption.length ≤ 65536) (href : frames[ref]?.join = some f) (out : StreamID) :
    (∃ mixed, mixStep frames ref out = .ok mixed ∧ KeepsSamples frames.reduceOption mixed) ↔
      ∀ g ∈ frames.reduceOption, (planeBytes g).length = (planeBytes f).length := by
  refine ⟨?_, fun hlength => keepsSamples_of_length hchannels hframes hlength hcount href out⟩
  rintro ⟨mixed, hmixed, ⟨longest, -, hmax, hbytes⟩, -⟩
  have hle := length_le_of_mixStep hframes hmixed
  rw [hbytes, Goav.Resample.length_samplesBytes] at hle
  -- the longest frame has as many samples as the mixed one, and so has every other
  have hall : ∀ g ∈ frames.reduceOption, (planeBytes g).length = sampleCount longest * 2 := by
    intro g hg
    obtain ⟨-, a, -, -, -, -, heven⟩ := hframes g hg
    have hmost := hmax g hg
    have hleast := hle g hg
    unfold sampleCount at hmost hleast ⊢
    omega
  have hf : f ∈ frames.reduceOption :=
    reduceOption_mem_iff.mpr (mem_of_getElem? (Option.join_eq_some_iff.mp href))
  exact fun g hg => (hall g hg).trans (hall f hf).symm

def armFrame (id : StreamID) (samples : ℕ) : MixFrame :=
  { streamID := id
    duration := ⟨samples, ⟨1, 48000⟩⟩
    audio := some { sampleRate := 48000, channels := 1, sampleFormat := sampleFormatS16, samples }
    planes := [{ bytes := replicate (2 * samples) 7 }] }

lemma s16Frame_armFrame (id : StreamID) (samples : ℕ) : S16Frame 48000 1 (armFrame id samples) :=
  ⟨⟨_, rfl, rfl⟩, _, rfl, rfl, rfl, rfl, by simp [planeBytes, armFrame]⟩

theorem mixStep_keeps_samples_pair : ∃ mixed,
    mixStep [some (armFrame "a" 2), none, some (armFrame "b" 2)] 0 "mix" = .ok mixed ∧
      KeepsSamples [armFrame "a" 2, armFrame "b" 2] mixed :=
  have hframes : ∀ f ∈ reduceOption [some (armFrame "a" 2), none, some (armFrame "b" 2)],
      S16Frame 48000 1 f := by simp [reduceOption, s16Frame_armFrame]
  (mixStep_keeps_samples one_pos hframes (by simp [reduceOption]) rfl "mix").mpr
    (by simp [reduceOption, planeBytes, armFrame])

theorem mixStep_cuts_longer : ¬ ∀ (rate channels : ℕ) (frames : List (Option MixFrame)) (ref : ℕ),
    0 < channels → IsStep frames ref → (∀ f ∈ frames.reduceOption, S16Frame rate channels f) →
      ∃ mixed, mixStep frames ref "mix" = .ok mixed ∧ KeepsSamples frames.reduceOption mixed := by
  intro h
  obtain ⟨mixed, hmixed, ⟨longest, -, hmax, hbytes⟩, -⟩ :=
    h 48000 1 [some (armFrame "a" 1), some (armFrame "b" 2)] 0 one_pos
      ⟨{ mode := .arrival, inputs := ["a", "b"],
         pending := fun id => [(armFrame id (if id = "a" then 1 else 2)).toFrame] }, _, _, rfl, rfl, rfl⟩
      (by simp [reduceOption, s16Frame_armFrame])
  have hlength := congrArg length hbytes
  have hcut : (planeBytes mixed).length = 2 := by
    cases hmixed
    rfl
  have htwo : 2 ≤ sampleCount longest := hmax (armFrame "b" 2) (by simp [reduceOption])
  rw [hcut, Goav.Resample.length_samplesBytes] at hlength
  omega

end Goav.Join
