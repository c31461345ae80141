import Goav.Resample.FilterDefs
import Mathlib.Data.Rat.Floor

/-!
Streaming is the conversion of the whole buffer. An output sample is a linear interpolation (`lerp`) of
the signal, which is held at its last sample (`holdAt`).
-/

namespace Goav.Resample

open Goav.Av Goav.Lib Goav.Resample.Filter List

/-! ### Signals -/

/-- The sample at the position `k * inputRate / outputRate` of a signal. -/
def lerp (x : ℕ → ℤ) (inputRate outputRate k : ℕ) : ℤ :=
  if k * inputRate % outputRate ≠ 0 then
    interpolate (x (k * inputRate / outputRate)) (x (k * inputRate / outputRate + 1))
      (k * inputRate % outputRate) outputRate
  else x (k * inputRate / outputRate)

def holdAt (x : ℕ → ℤ) (n i : ℕ) : ℤ := x (min i (n - 1))

lemma interpolate_self (a : ℤ) (frac : ℕ) {outputRate : ℕ} (h : 0 < outputRate) :
    interpolate a a frac outputRate = a := by
  unfold interpolate
  rw [show a * ((outputRate : ℤ) - frac) + a * frac = a * outputRate by ring]
  exact Int.mul_tdiv_cancel a (by omega)

variable {x : ℕ → ℤ} {inputRate outputRate inputChannels outputChannels k n : ℕ}

lemma lerp_holdAt_of_lt (h : k * inputRate < (n - 1) * outputRate) :
    lerp (holdAt x n) inputRate outputRate k = lerp x inputRate outputRate k := by
  have hbase : k * inputRate / outputRate < n - 1 :=
    Nat.div_lt_of_lt_mul (by rwa [Nat.mul_comm outputRate])
  unfold lerp holdAt
  rw [Nat.min_eq_left hbase.le, Nat.min_eq_left (show k * inputRate / outputRate + 1 ≤ n - 1 by omega)]

lemma lerp_holdAt_of_le (hout : 0 < outputRate) (h : (n - 1) * outputRate ≤ k * inputRate) :
    lerp (holdAt x n) inputRate outputRate k = x (n - 1) := by
  have hbase : n - 1 ≤ k * inputRate / outputRate := (Nat.le_div_iff_mul_le hout).mpr h
  unfold lerp holdAt
  rw [Nat.min_eq_right hbase, Nat.min_eq_right (Nat.le_succ_of_le hbase), interpolate_self _ _ hout,
    ite_self]

variable {b i channel : ℕ}

lemma lt_ceilDiv_iff {a : ℕ} (hb : 0 < b) : k < ceilDiv a b ↔ k * b < a := by
  unfold ceilDiv
  split
  · omega
  · rw [← Nat.succ_le_iff, Nat.le_div_iff_mul_le hb, Nat.succ_mul]
    omega

lemma ceilDiv_mono {a a' : ℕ} (hb : 0 < b) (h : a ≤ a') : ceilDiv a b ≤ ceilDiv a' b :=
  Nat.le_of_not_lt fun hlt => by
    have hself := (lt_ceilDiv_iff hb).mp hlt
    exact Nat.lt_irrefl _ ((lt_ceilDiv_iff hb).mpr (Nat.lt_of_lt_of_le hself h))

/-! ### Bytes of samples -/

def s16Bytes (value : Int16) : Bytes := [value.toUInt16.toUInt8, (value.toUInt16 >>> 8).toUInt8]

def samplesBytes (samples channels : ℕ) (value : ℕ → ℕ → ℤ) : Bytes :=
  (List.range samples).flatMap fun j => (List.range channels).flatMap fun channel =>
    s16Bytes (Int16.ofInt (value j channel))

lemma length_flatMap_range (f : ℕ → Bytes) {w : ℕ} (h : ∀ i, (f i).length = w) (n : ℕ) :
    ((range n).flatMap f).length = n * w := by
  rw [length_flatMap, map_congr_left fun i _ => h i, map_const', sum_replicate_nat, length_range]

lemma length_row (value : ℕ → ℕ → ℤ) (j channels : ℕ) :
    ((range channels).flatMap fun channel =>
      s16Bytes (Int16.ofInt (value j channel))).length = channels * 2 := by
  refine length_flatMap_range _ (fun channel => ?_) channels
  rfl

@[simp] lemma length_samplesBytes (samples channels : ℕ) (value : ℕ → ℕ → ℤ) :
    (samplesBytes samples channels value).length = samples * channels * 2 := by
  rw [samplesBytes, length_flatMap_range _ (fun j => length_row value j channels), Nat.mul_assoc]

lemma samplesBytes_congr {samples channels : ℕ} {value value' : ℕ → ℕ → ℤ}
    (h : ∀ j < samples, ∀ channel < channels, value j channel = value' j channel) :
    samplesBytes samples channels value = samplesBytes samples channels value' := by
  have hinner : ∀ j ∈ range samples, ((range channels).flatMap fun channel =>
      s16Bytes (Int16.ofInt (value j channel))) = (range channels).flatMap fun channel =>
        s16Bytes (Int16.ofInt (value' j channel)) := fun j hj =>
    flatMap_congr fun channel hchannel => by
      rw [h j (mem_range.mp hj) channel (mem_range.mp hchannel)]
  exact flatMap_congr hinner

lemma samplesBytes_add (samples samples' channels : ℕ) (value : ℕ → ℕ → ℤ) :
    samplesBytes (samples + samples') channels value = samplesBytes samples channels value ++
      samplesBytes samples' channels fun j => value (samples + j) := by
  simp only [samplesBytes, range_add, flatMap_append, flatMap_map]

lemma putS16_eq {data : Bytes} {offset : ℕ} (h : offset + 2 ≤ data.length) (value : Int16) :
    putS16 data offset value = overwrite data offset (s16Bytes value) :=
  set_set_eq_overwrite h _ _

theorem putSamples_eq {dst : Bytes} {samples channels : ℕ} (value : ℕ → ℕ → ℤ)
    (h : dst.length = samples * channels * 2) :
    putSamples dst samples channels value = samplesBytes samples channels value := by
  -- one turn of the outer loop writes the block of a sample, by the same lemma for the inner one
  have hinner : ∀ j < samples, ∀ b : Bytes, b.length = dst.length →
      (range channels).foldl (fun b channel => putS16 b ((j * channels + channel) * 2)
          (Int16.ofInt (value j channel))) b =
        overwrite b (0 + j * (channels * 2)) ((range channels).flatMap fun channel =>
          s16Bytes (Int16.ofInt (value j channel))) := by
    intro j hj b hb
    have hrow : (j + 1) * (channels * 2) ≤ dst.length := by
      rw [h, Nat.mul_assoc]
      exact Nat.mul_le_mul_right _ hj
    rw [Nat.succ_mul] at hrow
    have hoffset : ∀ channel, (j * channels + channel) * 2 = 0 + j * (channels * 2) + channel * 2 :=
      fun channel => by ring
    refine foldl_eq_overwrite (w := 2) (fun channel hchannel b' hb' => ?_) (fun _ _ => rfl) (by omega)
    rw [hoffset, putS16_eq (by omega)]
  rw [putSamples, foldl_eq_overwrite hinner (fun j _ => length_row value j channels)
    (by rw [h, Nat.mul_assoc, Nat.zero_add])]
  exact overwrite_all (by rw [h]; exact (length_samplesBytes samples channels value).symm)

/-! ### The samples of a part of the input -/

lemma getS16_drop (data : Bytes) (offset k : ℕ) :
    getS16 (data.drop k) offset = getS16 data (k + offset) := by
  simp only [getS16, getD_eq_getElem?_getD, getElem?_drop, Nat.add_assoc]

lemma getS16_take {data : Bytes} {offset k : ℕ} (h : offset + 1 < k) :
    getS16 (data.take k) offset = getS16 data offset := by
  simp [getS16, getElem?_take_of_lt h, getElem?_take_of_lt (Nat.lt_of_succ_lt h)]

section

variable (hin : 0 < inputChannels)
include hin

section

variable (hchannel : channel < outputChannels)
include hchannel

lemma mixedSampleS16_congr {src src' : Bytes} {i' : ℕ} (h : ∀ c < inputChannels,
      getS16 src ((i * inputChannels + c) * 2) = getS16 src' ((i' * inputChannels + c) * 2)) :
    mixedSampleS16 src i inputChannels channel outputChannels =
      mixedSampleS16 src' i' inputChannels channel outputChannels := by
  unfold mixedSampleS16
  split_ifs with hsame hmono hone hhas
  · exact h channel (by omega)
  · congr 1
    exact foldl_ext _ _ _ fun sum c hc => by rw [h c (mem_range.mp hc)]
  · subst hone
    simpa using h 0 hin
  · exact h channel hhas
  · have := h (inputChannels - 1) (by omega)
    rwa [← Nat.add_sub_assoc hin, ← Nat.add_sub_assoc hin] at this

lemma mixedSampleS16_drop {src : Bytes} :
    mixedSampleS16 (src.drop (n * inputChannels * 2)) i inputChannels channel outputChannels =
      mixedSampleS16 src (n + i) inputChannels channel outputChannels := by
  refine mixedSampleS16_congr hin hchannel fun c _ => ?_
  rw [getS16_drop, ← Nat.add_mul, ← Nat.add_assoc, ← Nat.add_mul]

lemma mixedSampleS16_take {src : Bytes} (hi : i < n) :
    mixedSampleS16 (src.take (n * inputChannels * 2)) i inputChannels channel outputChannels =
      mixedSampleS16 src i inputChannels channel outputChannels := by
  refine mixedSampleS16_congr hin hchannel fun c hc => getS16_take ?_
  have hrow : (i + 1) * inputChannels ≤ n * inputChannels := Nat.mul_le_mul_right _ hi
  rw [Nat.succ_mul] at hrow
  omega

end

end

variable (f : Filter)

def Filter.signal (src : Bytes) (channel i : ℕ) : ℤ :=
  mixedSampleS16 src i f.inputChannels channel f.outputChannels

def Filter.target (src : Bytes) (n k channel : ℕ) : ℤ :=
  lerp (holdAt (f.signal src channel) n) f.inputRate f.outputRate k

/-- What `open` sees to. -/
structure Filter.Opened (f : Filter) : Prop where
  inputRate : 0 < f.inputRate
  outputRate : 0 < f.outputRate
  inputChannels : 0 < f.inputChannels
  outputChannels : 0 < f.outputChannels
  inPos : f.inPos = 0
  outPos : f.outPos = 0
  started : f.started = false

lemma opened_of_open {stream : StreamConfig} {audio : Option AudioConfig} {f : Filter}
    (h : Filter.open stream audio = .ok f) : f.Opened := by
  unfold Filter.open at h
  cases audio with
  | none => simp at h
  | some audio =>
    dsimp -zeta only at h
    extract_lets inputRate inputChannels inputFormat outputRate outputChannels outputFormat layout at h
    split at h
    · cases h
    split at h
    · cases h
    split at h
    · cases h
    split at h
    · cases h
    rename_i hrange
    push Not at hrange
    obtain ⟨hout, hin, hinch, houtch, -⟩ := hrange
    cases h
    exact ⟨Int.lt_toNat.mpr hin, Int.lt_toNat.mpr hout, Int.lt_toNat.mpr hinch,
      Int.lt_toNat.mpr houtch, rfl, rfl, rfl⟩

/-- **The whole buffer**: the conversion gives the held signal. -/
theorem resampleS16_eq {f : Filter} (hf : f.Opened) (hrates : f.inputRate ≠ f.outputRate)
    (src : Bytes) {n : ℕ} {dst : Bytes}
    (hdst : dst.length = ceilDiv (n * f.outputRate) f.inputRate * f.outputChannels * 2) :
    resampleS16 dst src n f.inputRate f.inputChannels (ceilDiv (n * f.outputRate) f.inputRate)
        f.outputRate f.outputChannels =
      samplesBytes (ceilDiv (n * f.outputRate) f.inputRate) f.outputChannels (f.target src n) := by
  rw [resampleS16, if_neg fun h => hrates h.1, putSamples_eq _ hdst]
  refine samplesBytes_congr fun k hk channel hchannel => ?_
  have hlt : k * f.inputRate < n * f.outputRate := (lt_ceilDiv_iff hf.inputRate).mp hk
  have hbase : k * f.inputRate / f.outputRate < n :=
    Nat.div_lt_of_lt_mul (by rwa [Nat.mul_comm f.outputRate])
  dsimp only
  by_cases hend : k * f.inputRate / f.outputRate + 1 ≥ n
  · have hlast : k * f.inputRate / f.outputRate = n - 1 :=
      Nat.le_antisymm (Nat.le_sub_one_of_lt hbase) (Nat.sub_le_of_le_add hend)
    have hle : (n - 1) * f.outputRate ≤ k * f.inputRate :=
      (Nat.le_div_iff_mul_le hf.outputRate).mp hlast.ge
    rw [if_pos hend, target, lerp_holdAt_of_le hf.outputRate hle, ← hlast]
    rfl
  · have hbefore : k * f.inputRate < (n - 1) * f.outputRate :=
      (Nat.div_lt_iff_lt_mul hf.outputRate).mp (Nat.lt_sub_of_add_lt (Nat.lt_of_not_le hend))
    rw [if_neg hend, target, lerp_holdAt_of_lt hbefore]
    rfl

/-! ### The frames that are put out -/

def Output.samples (channels : ℕ) (o : Output) : ℕ := o.bytes.length / (channels * 2)

/-- Frames that carry the samples from `a` to `b` of a target, with timestamps and durations. -/
def Covers (f : Filter) (value : ℕ → ℕ → ℤ) (start : ℤ) : ℕ → List Output → ℕ → Prop
  | a, [], b => a = b
  | a, o :: rest, b => ∃ count,
      o.bytes = samplesBytes count f.outputChannels (fun j => value (a + j)) ∧
      o.pts = { value := start + a, base := f.outputTimeBase } ∧
      o.duration = samplesDuration count f.outputRate ∧
      Covers f value start (a + count) rest b

section Covers

variable {f : Filter} {value : ℕ → ℕ → ℤ} {start : ℤ}

lemma Covers.append : ∀ {os os' : List Output} {a b c : ℕ}, Covers f value start a os b →
    Covers f value start b os' c → Covers f value start a (os ++ os') c
  | [], _, _, _, _, h, h' => by
    obtain rfl : _ = _ := h
    exact h'
  | _ :: _, _, _, _, _, ⟨count, hbytes, hpts, hduration, h⟩, h' =>
    ⟨count, hbytes, hpts, hduration, h.append h'⟩

lemma Covers.bytes : ∀ {os : List Output} {a b : ℕ}, Covers f value start a os b →
    ∃ count, b = a + count ∧
      os.flatMap (·.bytes) = samplesBytes count f.outputChannels fun j => value (a + j)
  | [], a, b, h => ⟨0, h.symm, rfl⟩
  | o :: os, a, b, ⟨count, hbytes, _, _, h⟩ => by
    obtain ⟨count', rfl, hrest⟩ := h.bytes
    refine ⟨count + count', Nat.add_assoc .., ?_⟩
    rw [flatMap_cons, hbytes, hrest, samplesBytes_add]
    simp only [Nat.add_assoc]

lemma samples_eq (hf : f.Opened) {o : Output} {count : ℕ} {v : ℕ → ℕ → ℤ}
    (h : o.bytes = samplesBytes count f.outputChannels v) : o.samples f.outputChannels = count := by
  rw [Output.samples, h, length_samplesBytes, Nat.mul_assoc]
  exact Nat.mul_div_cancel count (Nat.mul_pos hf.outputChannels Nat.two_pos)

lemma Covers.samples (hf : f.Opened) : ∀ {os : List Output} {a b : ℕ}, Covers f value start a os b →
    b = a + (os.map (Output.samples f.outputChannels)).sum
  | [], _, _, h => h.symm
  | o :: os, a, b, ⟨count, hbytes, _, _, h⟩ => by
    rw [Covers.samples hf h, map_cons, sum_cons, samples_eq hf hbytes, Nat.add_assoc]

lemma Covers.pts (hf : f.Opened) : ∀ {pre post : List Output} {o : Output} {a b : ℕ},
    Covers f value start a (pre ++ o :: post) b →
    o.pts = { value := start + a + ((pre.map (Output.samples f.outputChannels)).sum : ℕ),
              base := f.outputTimeBase } ∧
    o.duration = samplesDuration (o.samples f.outputChannels) f.outputRate
  | [], post, o, a, b, ⟨count, hbytes, hpts, hduration, _⟩ => by
    exact ⟨by simpa using hpts, samples_eq hf hbytes ▸ hduration⟩
  | p :: pre, post, o, a, b, ⟨count, hbytes, _, _, h⟩ => by
    obtain ⟨hpts, hduration⟩ := Covers.pts hf h
    refine ⟨?_, hduration⟩
    rw [hpts, map_cons, sum_cons, samples_eq hf hbytes]
    simp only [Nat.cast_add, add_assoc]

end Covers

/-! ### Runs -/

def Filter.runFrames (f : Filter) : List (Frame × Result) → Filter × List Output × Option Err
  | [] => (f, [], none)
  | (frame, out) :: rest =>
    match f.filterInto frame out with
    | (f, _, some err) => (f, [], some err)
    | (f, out', none) =>
      let (f, os, err) := f.runFrames rest
      (f, out'.frames.drop out.frames.length ++ os, err)

def Filter.run (calls : List (Frame × Result)) (tail : Result) :
    Filter × List Output × Option Err :=
  match f.runFrames calls with
  | (f, os, some err) => (f, os, some err)
  | (f, os, none) =>
    let (f, tail', err) := f.flushInto tail
    (f, os ++ tail'.frames.drop tail.frames.length, err)

def Frame.content (channels : ℕ) (frame : Frame) : Bytes :=
  (frame.planes.headD []).take (inputSampleCount frame channels * channels * 2)

/-- A frame of whole audio samples. -/
structure Frame.Carries (channels : ℕ) (frame : Frame) : Prop where
  type : frame.type = .unknown ∨ frame.type = .audio
  planes : frame.planes ≠ []
  samples : 0 < inputSampleCount frame channels
  bytes : inputSampleCount frame channels * channels * 2 ≤ (frame.planes.headD []).length

def Result.HasRoom (out : Result) (bytes : ℕ) : Prop :=
  ∃ slot rest, out.spare = slot :: rest ∧ (0 < bytes → 1 ≤ slot.planes ∧ bytes ≤ slot.bytes.length)

/-- How many output samples have their right neighbour among the first `n` input samples. -/
def Filter.settled (n : ℕ) : ℕ := ceilDiv ((n - 1) * f.outputRate) f.inputRate

def Filter.total (n : ℕ) : ℕ := ceilDiv (n * f.outputRate) f.inputRate

/-- Every result has room for its output. -/
def Filter.Roomy (f : Filter) : ℕ → List (Frame × Result) → Result → Prop
  | n, [], tail => tail.HasRoom ((f.total n - f.settled n) * f.outputChannels * 2)
  | n, (frame, out) :: rest, tail =>
    out.HasRoom ((f.settled (n + inputSampleCount frame f.inputChannels) - f.settled n) *
      f.outputChannels * 2) ∧
    f.Roomy (n + inputSampleCount frame f.inputChannels) rest tail

def Filter.origin : List (Frame × Result) → ℤ
  | [] => 0
  | (frame, _) :: _ => (f.outputTimeline frame.pts).value

/-- The filter has read the first `n` samples: its positions, and the sample that it carries. -/
structure Filter.Fed (f : Filter) (src : Bytes) (start : ℤ) (n : ℕ) (g : Filter) : Prop where
  inputRate : g.inputRate = f.inputRate
  outputRate : g.outputRate = f.outputRate
  inputChannels : g.inputChannels = f.inputChannels
  outputChannels : g.outputChannels = f.outputChannels
  outputTimeBase : g.outputTimeBase = f.outputTimeBase
  inPos : g.inPos = n
  outPos : g.outPos = f.settled n
  timeline : g.started = true ∧ g.startPTS.value = start ∨ g.started = false ∧ n = 0
  last : 0 < n → ∀ channel < f.outputChannels, g.last.getD channel 0 = f.signal src channel (n - 1)

section Runs

variable {f g : Filter} {src : Bytes} {start : ℤ} {n : ℕ}

lemma Filter.Opened.fed (hf : f.Opened) (src : Bytes) (start : ℤ) : f.Fed src start 0 f :=
  ⟨rfl, rfl, rfl, rfl, rfl, hf.inPos, by simp [hf.outPos, settled, ceilDiv],
    .inr ⟨hf.started, rfl⟩, fun h => absurd h (Nat.lt_irrefl 0)⟩

variable {m count : ℕ} {out : Result} {input : Bytes} {frame : Frame}

lemma settled_mono (hf : f.Opened) (h : n ≤ m) : f.settled n ≤ f.settled m :=
  ceilDiv_mono hf.inputRate (Nat.mul_le_mul_right _ (Nat.sub_le_sub_right h 1))

lemma settled_le_total (hf : f.Opened) (n : ℕ) : f.settled n ≤ f.total n :=
  ceilDiv_mono hf.inputRate (Nat.mul_le_mul_right _ (Nat.sub_le n 1))

lemma nextOutput_eq_ok {samples : ℕ} (identity : StreamID × Epoch) (pts : Timestamp)
    (hroom : out.HasRoom (samples * g.outputChannels * 2)) (hpos : 0 < samples * g.outputChannels * 2) :
    ∃ o, g.nextOutput identity out samples pts =
        .ok ({ g with outputAudio := { g.outputAudio with samples := samples } }, o) ∧
      o.pts = pts ∧ o.duration = samplesDuration samples g.outputRate ∧
      o.bytes.length = samples * g.outputChannels * 2 := by
  obtain ⟨slot, rest, hspare, hslot⟩ := hroom
  obtain ⟨hplanes, hbytes⟩ := hslot hpos
  refine ⟨{
    streamID := identity.1
    codecEpoch := identity.2
    pts := pts
    duration := samplesDuration samples g.outputRate
    bytes := slot.bytes.take (samples * g.outputChannels * 2) }, ?_, rfl, rfl, ?_⟩
  · simp only [nextOutput, hspare]
    rw [if_neg (Nat.not_lt.mpr hplanes), if_neg (Nat.not_lt.mpr hbytes)]
  · simp only [length_take]
    omega

lemma signal_frame {content : Bytes} {i channel : ℕ} (hf : f.Opened)
    (hcontent : input.take (count * f.inputChannels * 2) = content)
    (hslice : (src.drop (n * f.inputChannels * 2)).take (count * f.inputChannels * 2) = content)
    (hi : i < count) (hchannel : channel < f.outputChannels) :
    f.signal input channel i = f.signal src channel (n + i) := by
  unfold signal
  rw [← mixedSampleS16_take hf.inputChannels hchannel hi, hcontent, ← hslice,
    mixedSampleS16_take hf.inputChannels hchannel hi, mixedSampleS16_drop hf.inputChannels hchannel]

section

variable (h : f.Fed src start n g)
include h

/-- **The carried sample is the only earlier one needed**. -/
lemma Filter.Fed.inputSample_eq (hf : f.Opened) {i channel : ℕ}
    (hslice : (src.drop (n * f.inputChannels * 2)).take (count * f.inputChannels * 2) =
      input.take (count * f.inputChannels * 2))
    (hlow : n - 1 ≤ i) (hhigh : i < n + count) (hchannel : channel < f.outputChannels) :
    g.inputSample input i channel = f.signal src channel i := by
  unfold inputSample
  rw [h.inPos, h.inputChannels, h.outputChannels]
  split
  · obtain rfl : i = n - 1 := by omega
    exact h.last (by omega) channel hchannel
  · have hframe := signal_frame hf rfl hslice (show i - n < count by omega) hchannel
    rwa [show n + (i - n) = i by omega] at hframe

/-- **The samples that a frame puts out** are those of the held signal. -/
lemma Filter.Fed.convert_bytes (hf : f.Opened) {dst : Bytes}
    (hslice : (src.drop (n * f.inputChannels * 2)).take (count * f.inputChannels * 2) =
      input.take (count * f.inputChannels * 2)) (hm : n + count ≤ m)
    (hdst : dst.length = (f.settled (n + count) - f.settled n) * f.outputChannels * 2) :
    (g.convert dst input (f.settled (n + count) - f.settled n)).2 =
      samplesBytes (f.settled (n + count) - f.settled n) f.outputChannels
        fun j => f.target src m (f.settled n + j) := by
  simp only [convert, h.outputChannels, h.inputRate, h.outputRate, h.outPos]
  rw [putSamples_eq _ hdst]
  refine samplesBytes_congr fun j hj channel hchannel => ?_
  -- the position lies between the carried sample and the last one of the frame
  have hlow : (n - 1) * f.outputRate ≤ (f.settled n + j) * f.inputRate :=
    Nat.le_of_not_lt fun hlt => by
      have := (lt_ceilDiv_iff hf.inputRate).mpr hlt
      exact absurd this (Nat.not_lt.mpr (Nat.le_add_right _ j))
  have hhigh : (f.settled n + j) * f.inputRate < (n + count - 1) * f.outputRate :=
    (lt_ceilDiv_iff hf.inputRate).mp (by
      show f.settled n + j < f.settled (n + count)
      omega)
  have hbaseLow := (Nat.le_div_iff_mul_le hf.outputRate).mpr hlow
  have hbaseHigh := (Nat.div_lt_iff_lt_mul hf.outputRate).mpr hhigh
  have hbefore : (f.settled n + j) * f.inputRate < (m - 1) * f.outputRate :=
    Nat.lt_of_lt_of_le hhigh (Nat.mul_le_mul_right _ (Nat.sub_le_sub_right hm 1))
  rw [h.inputSample_eq hf hslice hbaseLow (by omega) hchannel,
    h.inputSample_eq hf hslice (Nat.le_succ_of_le hbaseLow) (by omega) hchannel, target,
    lerp_holdAt_of_lt hbefore]
  rfl

lemma Filter.Fed.begin (hstart : n = 0 → (f.outputTimeline frame.pts).value = start) :
    f.Fed src start n (g.start frame) ∧ (g.start frame).startPTS.value = start := by
  unfold Filter.start
  rcases h.timeline with ⟨hstarted, hvalue⟩ | ⟨hstarted, hn⟩
  · rw [if_pos hstarted]
    exact ⟨{ h with }, hvalue⟩
  · have htimeline : (g.outputTimeline frame.pts).value = start := by
      rw [← hstart hn, outputTimeline, outputTimeline, h.outputTimeBase]
    rw [if_neg (by simp [hstarted])]
    exact ⟨{ h with timeline := .inl ⟨rfl, htimeline⟩ }, htimeline⟩

lemma Filter.Fed.carry (hf : f.Opened) {g' : Filter} (hcount : 0 < count)
    (hslice : (src.drop (n * f.inputChannels * 2)).take (count * f.inputChannels * 2) =
      input.take (count * f.inputChannels * 2))
    (hstarted : g'.started = true) (hvalue : g'.startPTS.value = start)
    (hconfig : g'.inputRate = g.inputRate ∧ g'.outputRate = g.outputRate ∧
      g'.inputChannels = g.inputChannels ∧ g'.outputChannels = g.outputChannels ∧
      g'.outputTimeBase = g.outputTimeBase)
    (hin : g'.inPos = n) (hout : g'.outPos = f.settled (n + count)) :
    f.Fed src start (n + count) (g'.carry input count) := by
  obtain ⟨hinRate, houtRate, hinCh, houtCh, hbase⟩ := hconfig
  refine ⟨hinRate.trans h.inputRate, houtRate.trans h.outputRate, hinCh.trans h.inputChannels,
    houtCh.trans h.outputChannels, hbase.trans h.outputTimeBase, ?_, hout, .inl ⟨hstarted, hvalue⟩,
    fun _ channel hchannel => ?_⟩
  · show g'.inPos + count = n + count
    rw [hin]
  · have hframe := signal_frame hf rfl hslice (show count - 1 < count by omega) hchannel
    rw [← Nat.add_sub_assoc hcount] at hframe
    rw [← hframe]
    simp [Filter.carry, Filter.signal, hinCh, houtCh, h.inputChannels, h.outputChannels, hchannel]

lemma Filter.Fed.due_eq (count : ℕ) : g.due count = f.settled (n + count) - f.settled n := by
  rw [due, h.inPos, h.outputRate, h.inputRate, h.outPos]
  rfl

lemma Filter.Fed.positionPTS_eq (hvalue : g.startPTS.value = start) :
    g.positionPTS = { value := start + (f.settled n : ℕ), base := f.outputTimeBase } := by
  rw [positionPTS, hvalue, h.outPos, h.outputTimeBase]

/-- **One frame** puts out the samples that have their right neighbour now. -/
lemma Filter.Fed.filterRates (hf : f.Opened) (hcount : 0 < count)
    (hslice : (src.drop (n * f.inputChannels * 2)).take (count * f.inputChannels * 2) =
      input.take (count * f.inputChannels * 2))
    (hm : n + count ≤ m) (hstart : n = 0 → (f.outputTimeline frame.pts).value = start)
    (hroom : out.HasRoom ((f.settled (n + count) - f.settled n) * f.outputChannels * 2)) :
    ∃ g' os out', g.filterRates frame out input count = (g', out', none) ∧
      out'.frames = out.frames ++ os ∧ f.Fed src start (n + count) g' ∧
      Covers f (f.target src m) start (f.settled n) os (f.settled (n + count)) := by
  obtain ⟨hbegin, hvalue⟩ := h.begin hstart
  have hstarted : (g.start frame).started = true := by
    unfold Filter.start
    split <;> simp_all
  have hmono := settled_mono hf (Nat.le_add_right n count)
  simp only [Filter.filterRates, hbegin.due_eq]
  split_ifs with hdue
  · rw [← hbegin.outputChannels] at hroom
    have hpos : 0 < (f.settled (n + count) - f.settled n) * (g.start frame).outputChannels * 2 := by
      rw [hbegin.outputChannels]
      exact Nat.mul_pos (Nat.mul_pos hdue hf.outputChannels) Nat.two_pos
    obtain ⟨o, hnext, hpts, hduration, hlength⟩ := nextOutput_eq_ok (g.start frame).identity
      (g.start frame).positionPTS hroom hpos
    rw [hbegin.outputChannels] at hlength
    have hbytes := hbegin.convert_bytes hf hslice hm hlength
    rw [hnext]
    refine ⟨_, [_], _, rfl, rfl, ?_, f.settled (n + count) - f.settled n, hbytes, ?_, ?_, ?_⟩
    · refine h.carry hf hcount hslice hstarted hvalue ⟨?_, ?_, ?_, ?_, ?_⟩ hbegin.inPos ?_
      · exact hbegin.inputRate.trans h.inputRate.symm
      · exact hbegin.outputRate.trans h.outputRate.symm
      · exact hbegin.inputChannels.trans h.inputChannels.symm
      · exact hbegin.outputChannels.trans h.outputChannels.symm
      · exact hbegin.outputTimeBase.trans h.outputTimeBase.symm
      · show (g.start frame).outPos + (f.settled (n + count) - f.settled n) = f.settled (n + count)
        rw [hbegin.outPos]
        omega
    · exact hpts.trans (hbegin.positionPTS_eq hvalue)
    · rw [← hbegin.outputRate]
      exact hduration
    · show f.settled n + (f.settled (n + count) - f.settled n) = f.settled (n + count)
      omega
  · have hsame : f.settled n = f.settled (n + count) := by omega
    refine ⟨_, [], out, rfl, (append_nil _).symm, ?_, hsame⟩
    exact hbegin.carry hf hcount hslice hstarted hvalue ⟨rfl, rfl, rfl, rfl, rfl⟩ hbegin.inPos
      (hbegin.outPos.trans hsame)

lemma Filter.Fed.filterInto (hf : f.Opened) (hrates : f.inputRate ≠ f.outputRate)
    (hcarries : frame.Carries f.inputChannels) (hslice : (src.drop (n * f.inputChannels * 2)).take
        (inputSampleCount frame f.inputChannels * f.inputChannels * 2) = frame.content f.inputChannels)
    (hm : n + inputSampleCount frame f.inputChannels ≤ m)
    (hstart : n = 0 → (f.outputTimeline frame.pts).value = start)
    (hroom : out.HasRoom ((f.settled (n + inputSampleCount frame f.inputChannels) - f.settled n) *
      f.outputChannels * 2)) :
    ∃ g' os out', g.filterInto frame out = (g', out', none) ∧ out'.frames = out.frames ++ os ∧
      f.Fed src start (n + inputSampleCount frame f.inputChannels) g' ∧
      Covers f (f.target src m) start (f.settled n) os
        (f.settled (n + inputSampleCount frame f.inputChannels)) := by
  have hspare : out.spare ≠ [] := by
    obtain ⟨slot, rest, hspare, -⟩ := hroom
    simp [hspare]
  have htype : ¬ (frame.type ≠ .unknown ∧ frame.type ≠ .audio) := by
    rcases hcarries.type with h | h <;> simp [h]
  simp only [Filter.filterInto, h.inputChannels, h.inputRate, h.outputRate]
  rw [if_neg hspare, if_neg htype, if_neg hcarries.planes, if_neg hcarries.samples.ne', if_neg hrates]
  exact h.filterRates hf hcarries.samples hslice hm hstart hroom

/-- **The flush** puts out the samples behind the last one that was read. -/
lemma Filter.Fed.flushInto (hf : f.Opened) {tail : Result}
    (hroom : tail.HasRoom ((f.total n - f.settled n) * f.outputChannels * 2)) :
    ∃ g' os tail', g.flushInto tail = (g', tail', none) ∧ tail'.frames = tail.frames ++ os ∧
      Covers f (f.target src n) start (f.settled n) os (f.total n) := by
  have hspare : tail.spare ≠ [] := by
    obtain ⟨slot, rest, hspare, -⟩ := hroom
    simp [hspare]
  have hheld : g.held = f.total n - f.settled n := by
    rw [held, h.inPos, h.outputRate, h.inputRate, h.outPos]
    rfl
  have hle := settled_le_total hf n
  unfold Filter.flushInto
  rw [hheld]
  by_cases hn : n = 0
  · refine ⟨g, [], tail, ?_, (append_nil _).symm, ?_⟩
    · rw [if_pos (.inr (.inl (h.inPos.trans hn)))]
    · show f.settled n = f.total n
      simp [hn, settled, total]
  obtain ⟨hstarted, hvalue⟩ : g.started = true ∧ g.startPTS.value = start :=
    h.timeline.resolve_right fun hnot => hn hnot.2
  rw [if_neg (by simp [hstarted, hspare, h.inPos, hn])]
  by_cases hcount : f.total n - f.settled n = 0
  · refine ⟨g, [], tail, ?_, (append_nil _).symm, ?_⟩
    · simp [hcount]
    · show f.settled n = f.total n
      omega
  · simp only [hcount]
    rw [← h.outputChannels] at hroom
    have hpos : 0 < (f.total n - f.settled n) * g.outputChannels * 2 := by
      rw [h.outputChannels]
      exact Nat.mul_pos (Nat.mul_pos (Nat.pos_of_ne_zero hcount) hf.outputChannels) Nat.two_pos
    obtain ⟨o, hnext, hpts, hduration, hlength⟩ := nextOutput_eq_ok g.identity g.positionPTS
      hroom hpos
    rw [hnext]
    refine ⟨_, [_], _, rfl, rfl, f.total n - f.settled n, ?_, ?_, ?_, ?_⟩
    · rw [putSamples_eq _ hlength, h.outputChannels]
      refine samplesBytes_congr fun j hj channel hchannel => ?_
      have hbehind : (n - 1) * f.outputRate ≤ (f.settled n + j) * f.inputRate :=
        Nat.le_of_not_lt fun hlt =>
          absurd ((lt_ceilDiv_iff hf.inputRate).mpr hlt) (Nat.not_lt.mpr (Nat.le_add_right _ j))
      rw [target, lerp_holdAt_of_le hf.outputRate hbehind]
      exact h.last (Nat.pos_of_ne_zero hn) channel hchannel
    · exact hpts.trans (h.positionPTS_eq hvalue)
    · rw [← h.outputRate]
      exact hduration
    · show f.settled n + (f.total n - f.settled n) = f.total n
      omega

end

def Filter.inputs (f : Filter) (calls : List (Frame × Result)) : ℕ :=
  (calls.map fun c => inputSampleCount c.1 f.inputChannels).sum

def Filter.source (f : Filter) (calls : List (Frame × Result)) : Bytes :=
  calls.flatMap fun c => c.1.content f.inputChannels

lemma Frame.Carries.length_content {channels : ℕ} (h : frame.Carries channels) :
    (frame.content channels).length = inputSampleCount frame channels * channels * 2 := by
  rw [Frame.content, length_take]
  exact Nat.min_eq_left h.bytes

/-- **All frames** put out the samples that have their right neighbour at the end. -/
lemma Filter.Fed.runFrames (hf : f.Opened) (hrates : f.inputRate ≠ f.outputRate) {tail : Result} :
    ∀ {calls : List (Frame × Result)} {n : ℕ} {g : Filter}, f.Fed src start n g →
      (∀ c ∈ calls, c.1.Carries f.inputChannels) →
      src.drop (n * f.inputChannels * 2) = f.source calls →
      (n = 0 → f.origin calls = start) → f.Roomy n calls tail →
      ∃ g' os, g.runFrames calls = (g', os, none) ∧ f.Fed src start (n + f.inputs calls) g' ∧
        tail.HasRoom ((f.total (n + f.inputs calls) - f.settled (n + f.inputs calls)) *
          f.outputChannels * 2) ∧
        Covers f (f.target src (n + f.inputs calls)) start (f.settled n) os (f.settled (n + f.inputs calls))
  | [], n, g, h, _, _, _, hroom => ⟨g, [], rfl, h, hroom, rfl⟩
  | (frame, out) :: rest, n, g, h, hcarries, hsrc, hstart, hroom => by
    obtain ⟨hfirst, hrest⟩ := forall_mem_cons.mp hcarries
    have hlength := hfirst.length_content
    rw [source, flatMap_cons] at hsrc
    have hslice : (src.drop (n * f.inputChannels * 2)).take
        (inputSampleCount frame f.inputChannels * f.inputChannels * 2) =
        frame.content f.inputChannels := by
      rw [hsrc, ← hlength, take_left]
    have hbehind : src.drop ((n + inputSampleCount frame f.inputChannels) * f.inputChannels * 2) =
        f.source rest := by
      rw [Nat.add_mul, Nat.add_mul, ← drop_drop, hsrc, ← hlength, drop_left]
      rfl
    have hsum : n + f.inputs ((frame, out) :: rest) =
        n + inputSampleCount frame f.inputChannels + f.inputs rest := by
      simp only [inputs, map_cons, sum_cons, Nat.add_assoc]
    rw [hsum]
    obtain ⟨g₁, os₁, out', heq₁, hframes, hfed₁, hcovers₁⟩ := h.filterInto hf hrates hfirst hslice
      (Nat.le_add_right _ (f.inputs rest)) hstart hroom.1
    have hpos := hfirst.samples
    obtain ⟨g₂, os₂, heq₂, hfed₂, htail, hcovers₂⟩ := Filter.Fed.runFrames hf hrates hfed₁ hrest
      hbehind (fun hzero => absurd hzero (by omega)) hroom.2
    refine ⟨g₂, os₁ ++ os₂, ?_, hfed₂, htail, hcovers₁.append hcovers₂⟩
    simp [Filter.runFrames, heq₁, heq₂, hframes]

end Runs

lemma ceilDiv_eq_ceil (a : ℕ) (hb : 0 < b) : ceilDiv a b = ⌈(a : ℚ) / b⌉₊ := by
  refine eq_of_forall_lt_iff fun k => ?_
  rw [lt_ceilDiv_iff hb, Nat.lt_ceil, lt_div_iff₀ (by exact_mod_cast hb)]
  exact_mod_cast Iff.rfl

/-- **The streamed frames are the whole buffer.** Whatever frames the samples come in, the calls and one
flush put out the conversion of all at once, each frame at its time. -/
theorem run_eq_resampleS16 (f : Filter) (hf : f.Opened) (hrates : f.inputRate ≠ f.outputRate)
    (calls : List (Frame × Result)) (tail : Result)
    (hcarries : ∀ c ∈ calls, c.1.Carries f.inputChannels) (hroom : f.Roomy 0 calls tail) :
    ∃ g os, f.run calls tail = (g, os, none) ∧
      (os.map (Output.samples f.outputChannels)).sum =
        ⌈((f.inputs calls * f.outputRate : ℕ) : ℚ) / f.inputRate⌉₊ ∧
      (∀ dst : Bytes, dst.length =
          ⌈((f.inputs calls * f.outputRate : ℕ) : ℚ) / f.inputRate⌉₊ * f.outputChannels * 2 →
        os.flatMap (·.bytes) = resampleS16 dst (f.source calls) (f.inputs calls) f.inputRate
          f.inputChannels ⌈((f.inputs calls * f.outputRate : ℕ) : ℚ) / f.inputRate⌉₊ f.outputRate
          f.outputChannels) ∧
      ∀ before o behind, os = before ++ o :: behind →
        o.pts = { value := f.origin calls + ((before.map (Output.samples f.outputChannels)).sum : ℕ),
                  base := f.outputTimeBase } ∧
        o.duration = samplesDuration (o.samples f.outputChannels) f.outputRate := by
  rw [← ceilDiv_eq_ceil _ hf.inputRate]
  obtain ⟨g₁, os₁, heq₁, hfed, htail, hcovers₁⟩ := Filter.Fed.runFrames hf hrates
    (hf.fed (f.source calls) (f.origin calls)) hcarries (by simp) (fun _ => rfl) hroom
  rw [Nat.zero_add] at hfed htail hcovers₁
  obtain ⟨g₂, os₂, tail', heq₂, hframes, hcovers₂⟩ := hfed.flushInto hf htail
  have hcovers := hcovers₁.append hcovers₂
  have hzero : f.settled 0 = 0 := by simp [settled, ceilDiv]
  rw [hzero] at hcovers
  obtain ⟨count, hcount, hbytes⟩ := hcovers.bytes
  rw [Nat.zero_add] at hcount
  subst hcount
  simp only [Nat.zero_add] at hbytes
  refine ⟨g₂, os₁ ++ os₂, ?_, by simpa [Filter.total] using (hcovers.samples hf).symm, fun dst hdst => ?_, ?_⟩
  · simp [Filter.run, heq₁, heq₂, hframes]
  · rw [hbytes]
    exact (resampleS16_eq hf hrates (f.source calls) hdst).symm
  · rintro before o behind hos
    rw [hos] at hcovers
    simpa using hcovers.pts hf

/-- Three mono samples in two frames, from 2 to 3 samples a second. -/
theorem run_eq_resampleS16_two_frames :
    ∃ (f : Filter) (calls : List (Frame × Result)) (tail : Result), f.inputRate = 2 ∧
      f.outputRate = 3 ∧ calls.length = 2 ∧ f.source calls = [10, 0, 20, 0, 40, 0] ∧
      ∃ g os, f.run calls tail = (g, os, none) ∧
        os.flatMap (·.bytes) = resampleS16 (List.replicate 10 0) [10, 0, 20, 0, 40, 0] 3 2 1 5 3 1 := by
  let f : Filter := {
    inputRate := 2
    outputRate := 3
    inputChannels := 1
    outputChannels := 1
    outputTimeBase := { num := 1, den := 3 }
    outputAudio := { sampleRate := 3, channels := 1, sampleFormat := sampleFormatS16 }
    last := [0] }
  let room : Result := { spare := [{ planes := 1, bytes := replicate 10 7 }] }
  let calls : List (Frame × Result) :=
    [({ planes := [[10, 0, 20, 0]] }, room), ({ planes := [[40, 0]] }, room)]
  have hopen : Filter.open { sampleRate := 2 } (some { sampleRate := 3 }) = .ok f := by decide
  have hf := opened_of_open hopen
  have hcarries : ∀ c ∈ calls, c.1.Carries f.inputChannels :=
    forall_mem_cons.mpr ⟨⟨by decide, by decide, by decide, by decide⟩,
      forall_mem_singleton.mpr ⟨by decide, by decide, by decide, by decide⟩⟩
  have hroom : f.Roomy 0 calls room :=
    ⟨⟨_, _, rfl, by decide⟩, ⟨_, _, rfl, by decide⟩, _, _, rfl, by decide⟩
  obtain ⟨g, os, hrun, -, hbytes, -⟩ :=
    run_eq_resampleS16 f hf (by decide) calls room hcarries hroom
  have hsource : f.source calls = [10, 0, 20, 0, 40, 0] := by decide
  have hinputs : f.inputs calls = 3 := by decide
  have htotal : ceilDiv (3 * f.outputRate) f.inputRate = 5 := by decide
  refine ⟨f, calls, room, rfl, rfl, rfl, hsource, g, os, hrun, ?_⟩
  rw [← ceilDiv_eq_ceil _ hf.inputRate, hsource, hinputs, htotal] at hbytes
  exact hbytes (replicate 10 0) (by decide)

end Goav.Resample
