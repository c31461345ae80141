import Goav.Av.Types
import Goav.Lib.Fill

/-!
The S16 resampler (`adapters/resample/resample.go`). Positions are unbounded. Bytes read outside a
buffer, where the source panics, are zero. All frames that are put out point to one header,
`outputAudio`.
-/

namespace Goav.Resample

open Goav.Av Goav.Lib

inductive Err where
  | unsupportedFormat | resultFull | outputBufferTooSmall
  deriving DecidableEq

def sampleFormatS16 : String := "s16"

/-! ### Samples -/

def getS16 (data : Bytes) (offset : ℕ) : ℤ :=
  let value : UInt16 :=
    (data.getD offset 0).toUInt16 ||| ((data.getD (offset + 1) 0).toUInt16 <<< 8)
  value.toInt16.toInt

def putS16 (data : Bytes) (offset : ℕ) (value : Int16) : Bytes :=
  let v := value.toUInt16
  (data.set offset v.toUInt8).set (offset + 1) (v >>> 8).toUInt8

/-- The same channel, the mean for mono, and the last one for a channel the input lacks. -/
def mixedSampleS16 (src : Bytes) (sample inputChannels outputChannel outputChannels : ℕ) : ℤ :=
  if inputChannels = outputChannels then getS16 src ((sample * inputChannels + outputChannel) * 2)
  else if outputChannels = 1 then
    ((List.range inputChannels).foldl
      (fun sum channel => sum + getS16 src ((sample * inputChannels + channel) * 2)) 0).tdiv
      inputChannels
  else if inputChannels = 1 then getS16 src (sample * 2)
  else if outputChannel < inputChannels then
    getS16 src ((sample * inputChannels + outputChannel) * 2)
  else getS16 src ((sample * inputChannels + inputChannels - 1) * 2)

def putSamples (dst : Bytes) (samples channels : ℕ) (value : ℕ → ℕ → ℤ) : Bytes :=
  (List.range samples).foldl (fun dst j =>
    (List.range channels).foldl (fun dst channel =>
      putS16 dst ((j * channels + channel) * 2) (Int16.ofInt (value j channel))) dst) dst

def interpolate (a b : ℤ) (frac outputRate : ℕ) : ℤ :=
  (a * ((outputRate : ℤ) - frac) + b * frac).tdiv outputRate

def remapS16Channels (dst src : Bytes) (samples inputChannels outputChannels : ℕ) : Bytes :=
  putSamples dst samples outputChannels fun sample channel =>
    mixedSampleS16 src sample inputChannels channel outputChannels

def resampleS16 (dst src : Bytes) (inputSamples inputRate inputChannels outputSamples outputRate
    outputChannels : ℕ) : Bytes :=
  if inputRate = outputRate ∧ inputSamples = outputSamples then
    if inputChannels = outputChannels then
      overwrite dst 0 (src.take (inputSamples * inputChannels * 2))
    else remapS16Channels dst src inputSamples inputChannels outputChannels
  else
    putSamples dst outputSamples outputChannels fun sample channel =>
      let position := sample * inputRate
      let base := position / outputRate
      let frac := position % outputRate
      let next := base + 1
      -- behind the last sample there is no neighbour: the last one is held
      let (next, frac) := if next ≥ inputSamples then (base, 0) else (next, frac)
      let a := mixedSampleS16 src base inputChannels channel outputChannels
      let b := mixedSampleS16 src next inputChannels channel outputChannels
      if frac ≠ 0 then interpolate a b frac outputRate else a

def ceilDiv (a b : ℕ) : ℕ := if a = 0 then 0 else (a + b - 1) / b

/-! ### Frames and results -/

/-- An input frame: its planes, and the sample count of its header, if it has one. -/
structure Frame where
  streamID : StreamID := ""
  codecEpoch : Epoch := 0
  type : MediaType := .unknown
  pts : Timestamp := {}
  planes : List Bytes := []
  samples : Option ℤ := none

structure Output where
  streamID : StreamID
  codecEpoch : Epoch
  pts : Timestamp
  duration : Duration
  bytes : Bytes

/-- A frame to fill: its planes, and what is in the first, up to its capacity. -/
structure Slot where
  planes : ℕ
  bytes : Bytes

/-- The result of the caller: the frames of it, and the slots up to its capacity. -/
structure Result where
  frames : List Output := []
  spare : List Slot := []

def Result.push (out : Result) (frame : Output) : Result :=
  { frames := out.frames ++ [frame], spare := out.spare.tail }

variable (frame : Frame)

def inputSampleCount (channels : ℕ) : ℕ :=
  let available :=
    if 0 < channels ∧ frame.planes ≠ [] then (frame.planes.headD []).length / (channels * 2) else 0
  match frame.samples with
  | some samples =>
    if 0 < samples then
      if available ≠ 0 ∧ (available : ℤ) < samples then available else samples.toNat
    else available
  | none => available

def samplesDuration (samples sampleRate : ℕ) : Duration :=
  if sampleRate = 0 then {} else { value := samples, base := { num := 1, den := sampleRate } }

/-! ### The filter -/

structure Filter where
  inputRate : ℕ
  outputRate : ℕ
  inputChannels : ℕ
  outputChannels : ℕ
  outputTimeBase : TimeBase
  outputAudio : AudioFrame
  inPos : ℕ := 0
  outPos : ℕ := 0
  last : List ℤ
  started : Bool := false
  startPTS : Timestamp := {}
  identity : StreamID × Epoch := ("", 0)
  deriving DecidableEq

structure StreamConfig where
  type : MediaType := .unknown
  codecType : MediaType := .unknown
  sampleRate : ℤ := 0
  clockRate : ℕ := 0
  channels : ℤ := 0
  channelLayout : String := ""
  sampleFormat : String := ""
  timeBase : TimeBase := {}

/-- The target of the conversion; zero values stand for those of the input. -/
structure AudioConfig where
  sampleRate : ℤ := 0
  channels : ℤ := 0
  channelLayout : String := ""
  sampleFormat : String := ""

def audioSampleRate (stream : StreamConfig) : ℤ :=
  if stream.sampleRate ≠ 0 then stream.sampleRate
  else if stream.clockRate ≠ 0 then stream.clockRate
  else if stream.timeBase.den ≠ 0 ∧ stream.timeBase.num = 1 then stream.timeBase.den
  else 0

def Filter.open (stream : StreamConfig) (audio : Option AudioConfig) : Except Err Filter :=
  match audio with
  | none => .error .unsupportedFormat
  | some audio =>
    let inputRate := audioSampleRate stream
    let inputChannels := if stream.channels = 0 then 1 else stream.channels
    let inputFormat := if stream.sampleFormat = "" then sampleFormatS16 else stream.sampleFormat
    let outputRate := if audio.sampleRate = 0 then inputRate else audio.sampleRate
    let outputChannels := if audio.channels = 0 then inputChannels else audio.channels
    let outputFormat := if audio.sampleFormat = "" then inputFormat else audio.sampleFormat
    let outputLayout :=
      if audio.channelLayout = "" then stream.channelLayout else audio.channelLayout
    if stream.type ≠ .unknown ∧ stream.type ≠ .audio then .error .unsupportedFormat
    else if stream.codecType ≠ .unknown ∧ stream.codecType ≠ .audio then .error .unsupportedFormat
    else if inputFormat ≠ sampleFormatS16 then .error .unsupportedFormat
    else if outputRate ≤ 0 ∨ inputRate ≤ 0 ∨ inputChannels ≤ 0 ∨ outputChannels ≤ 0 ∨
        outputFormat ≠ sampleFormatS16 then .error .unsupportedFormat
    else
      .ok {
        inputRate := inputRate.toNat
        outputRate := outputRate.toNat
        inputChannels := inputChannels.toNat
        outputChannels := outputChannels.toNat
        outputTimeBase := { num := 1, den := outputRate }
        outputAudio := {
          sampleRate := outputRate
          channels := outputChannels
          channelLayout := outputLayout
          sampleFormat := outputFormat }
        last := List.replicate outputChannels.toNat 0 }

variable (f : Filter)

def Filter.outputTimeline (pts : Timestamp) : Timestamp :=
  match rescaleValue pts.value pts.base f.outputTimeBase with
  | some value => { value := value, base := f.outputTimeBase }
  | none => { base := f.outputTimeBase }

def Filter.positionPTS : Timestamp :=
  { value := f.startPTS.value + f.outPos, base := f.outputTimeBase }

/-- The next slot of the result: the frame, with what is in its bytes before they are written. -/
def Filter.nextOutput (identity : StreamID × Epoch) (out : Result) (samples : ℕ)
    (pts : Timestamp) : Except Err (Filter × Output) :=
  let outputBytes := samples * f.outputChannels * 2
  match out.spare with
  | [] => .error .resultFull
  | slot :: _ =>
    if slot.planes < 1 then .error .outputBufferTooSmall
    else if slot.bytes.length < outputBytes then .error .outputBufferTooSmall
    else
      .ok ({ f with outputAudio := { f.outputAudio with samples := samples } },
        { streamID := identity.1
          codecEpoch := identity.2
          pts := pts
          duration := samplesDuration samples f.outputRate
          bytes := slot.bytes.take outputBytes })

def Filter.inputSample (input : Bytes) (index channel : ℕ) : ℤ :=
  if index < f.inPos then f.last.getD channel 0
  else mixedSampleS16 input (index - f.inPos) f.inputChannels channel f.outputChannels

def Filter.convert (dst input : Bytes) (count : ℕ) : Filter × Bytes :=
  let dst := putSamples dst count f.outputChannels fun j channel =>
    let position := (f.outPos + j) * f.inputRate
    let base := position / f.outputRate
    let frac := position % f.outputRate
    let a := f.inputSample input base channel
    if frac ≠ 0 then interpolate a (f.inputSample input (base + 1) channel) frac f.outputRate else a
  ({ f with outPos := f.outPos + count }, dst)

def Filter.carry (input : Bytes) (inputSamples : ℕ) : Filter :=
  { f with
    last := (List.range f.outputChannels).map fun channel =>
      mixedSampleS16 input (inputSamples - 1) f.inputChannels channel f.outputChannels
    inPos := f.inPos + inputSamples }

def Filter.start : Filter :=
  let f := if f.started then f else
    { f with startPTS := f.outputTimeline frame.pts, started := true }
  { f with identity := (frame.streamID, frame.codecEpoch) }

/-- How many output samples have their right neighbour once `inputSamples` more have arrived. -/
def Filter.due (inputSamples : ℕ) : ℕ :=
  ceilDiv ((f.inPos + inputSamples - 1) * f.outputRate) f.inputRate - f.outPos

/-- The samples of a frame at two rates: those that are due are put out. -/
def Filter.filterRates (out : Result) (input : Bytes) (inputSamples : ℕ) : Filter × Result × Option Err :=
  let f := f.start frame
  let count := f.due inputSamples
  if 0 < count then
    match f.nextOutput f.identity out count f.positionPTS with
    | .error err => (f, out, some err)
    | .ok (f, output) =>
      let (f, bytes) := f.convert output.bytes input count
      (f.carry input inputSamples, out.push { output with bytes := bytes }, none)
  else (f.carry input inputSamples, out, none)

def Filter.filterInto (out : Result) : Filter × Result × Option Err :=
  if out.spare = [] then (f, out, some .resultFull)
  else if frame.type ≠ .unknown ∧ frame.type ≠ .audio then (f, out, some .unsupportedFormat)
  else if frame.planes = [] then (f, out, some .unsupportedFormat)
  else
    let inputSamples := inputSampleCount frame f.inputChannels
    if inputSamples = 0 then (f, out, none)
    else
      let input := frame.planes.headD []
      if f.inputRate = f.outputRate then
        -- equal rates keep no state and the timestamps of the input
        match f.nextOutput (frame.streamID, frame.codecEpoch) out inputSamples frame.pts with
        | .error err => (f, out, some err)
        | .ok (f, output) =>
          let bytes := resampleS16 output.bytes input inputSamples f.inputRate f.inputChannels
            inputSamples f.outputRate f.outputChannels
          (f, out.push { output with bytes := bytes }, none)
      else f.filterRates frame out input inputSamples

def Filter.held : ℕ := ceilDiv (f.inPos * f.outputRate) f.inputRate - f.outPos

def Filter.flushInto (out : Result) : Filter × Result × Option Err :=
  if f.started = false ∨ f.inPos = 0 ∨ out.spare = [] then (f, out, none)
  else
    let count := f.held
    if count = 0 then (f, out, none)
    else
      match f.nextOutput f.identity out count f.positionPTS with
      | .error err => (f, out, some err)
      | .ok (f, output) =>
        let bytes := putSamples output.bytes count f.outputChannels fun _ channel =>
          f.last.getD channel 0
        ({ f with outPos := f.outPos + count }, out.push { output with bytes := bytes }, none)

end Goav.Resample
