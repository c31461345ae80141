import Goav.Mp4.SampleDefs

/-!
The demuxer of an MP4 file once its tracks are read (`container/mp4/demuxer.go`): edit lists, the order
of all samples, and seeks. Times are `int64`. How a sample's bytes are read is left out.
-/

namespace Goav.Mp4

open Goav.Av Goav.Lib

def second : ℤ := 1000000000

/-- `ticks` in nanoseconds. The remainder is below `2 ^ 32`, so its product stays in range. -/
def timescaleNS (ticks : ℤ) (timescale : UInt32) : ℤ :=
  let ts : ℤ := timescale.toNat
  if ts = 0 then 0
  else int64 (ticks.tdiv ts * second + (ticks.tmod ts * second).tdiv ts)

def ceilTicks (ns : ℤ) (timescale : UInt32) : ℤ :=
  let ts : ℤ := timescale.toNat
  int64 (ns.tdiv second * ts + (ns.tmod second * ts + second - 1).tdiv second)

def opusHeadMagic : Bytes := [0x4f, 0x70, 0x75, 0x73, 0x48, 0x65, 0x61, 0x64]

def opusPreSkipNS (params : CodecParameters) : ℤ :=
  let head := params.extraData
  if params.id ≠ codecOpus ∨ head.length < 19 ∨ head.take 8 ≠ opusHeadMagic then 0
  else ((head.getD 10 0).toNat + 256 * (head.getD 11 0).toNat) * second / 48000

/-- A track as the boxes give it; `shift` is the effect of its edit list in ticks. -/
structure Track where
  media : MediaType
  params : CodecParameters := {}
  timescale : UInt32
  shift : ℤ := 0
  samples : List Sample
  deriving DecidableEq

def Sample.moved (ticks : ℤ) (s : Sample) : Sample :=
  { s with
    dts := int64 (s.dts + ticks)
    cts := int64 (s.cts + ticks) }

def Track.moved (ticks : ℤ) (tr : Track) : Track :=
  { tr with samples := tr.samples.map (Sample.moved ticks) }

def Track.startsNS (tr : Track) : List ℤ :=
  tr.samples.map fun s => int64 (timescaleNS s.cts tr.timescale + opusPreSkipNS tr.params)

variable (tracks : List Track)

def minNS : ℤ := (tracks.flatMap Track.startsNS).foldl min (2 ^ 63 - 1)

def shifted : List Track := tracks.map fun tr => tr.moved tr.shift

def liftOf (timescale : UInt32) : ℤ :=
  ceilTicks (int64 (-minNS (shifted tracks))) timescale

def applyEdits : List Track :=
  if 0 ≤ minNS (shifted tracks) then shifted tracks
  else (shifted tracks).map fun tr => tr.moved (liftOf tracks tr.timescale)

structure DemuxItem where
  track : ℕ
  sample : ℕ
  offset : ℤ
  ns : ℤ

def trackItems (tr : Track) (track : ℕ) : List DemuxItem :=
  tr.samples.zipIdx.map fun (s, sample) =>
    { track, sample, offset := s.offset, ns := timescaleNS s.dts tr.timescale }

def DemuxItem.before (a b : DemuxItem) : Bool :=
  if a.ns ≠ b.ns then a.ns < b.ns else a.offset ≤ b.offset

/-- The samples of all tracks by decode time, those of one time by their place in the file. -/
def buildOrder : List DemuxItem :=
  (tracks.zipIdx.flatMap fun (tr, track) => trackItems tr track).mergeSort DemuxItem.before

structure Demuxer where
  tracks : List Track
  tracks_ne : tracks ≠ []
  samples_ne : ∀ tr ∈ tracks, tr.samples ≠ []
  pos : ℕ := 0

lemma applyEdits_eq_nil {tracks : List Track} : applyEdits tracks = [] ↔ tracks = [] := by
  unfold applyEdits shifted
  split <;> simp

lemma samples_applyEdits {tracks : List Track} (h : ∀ tr ∈ tracks, tr.samples ≠ []) :
    ∀ tr ∈ applyEdits tracks, tr.samples ≠ [] := by
  have hmoved (ticks : Track → ℤ) {l : List Track} (hl : ∀ tr ∈ l, tr.samples ≠ []) :
      ∀ tr ∈ l.map (fun tr => tr.moved (ticks tr)), tr.samples ≠ [] := by
    simpa [Track.moved] using hl
  unfold applyEdits
  split
  · exact hmoved _ h
  · exact hmoved _ (hmoved _ h)

/-- `NewDemuxer`, from the tracks of the file on; `none` is `ErrNoTracks`. -/
def newDemuxer : Option Demuxer :=
  let kept := tracks.filter (·.samples ≠ [])
  if h : kept = [] then none
  else
    some {
      tracks := applyEdits kept
      tracks_ne := mt applyEdits_eq_nil.mp h
      samples_ne := samples_applyEdits fun _ htr => of_decide_eq_true (List.mem_filter.mp htr).2 }

namespace Demuxer

variable (d : Demuxer)

def order : List DemuxItem := buildOrder d.tracks

def anchor : ℕ := (d.tracks.findIdx? (·.media = .video)).getD 0

lemma anchor_lt : d.anchor < d.tracks.length := by
  unfold anchor
  cases h : d.tracks.findIdx? (·.media = .video) with
  | none => exact List.length_pos_iff.mpr d.tracks_ne
  | some i => exact (List.findIdx?_eq_some_iff_getElem.mp h).1

def anchorTrack : Track := d.tracks.get ⟨d.anchor, d.anchor_lt⟩

def seekable (target : ℤ) (s : Sample) : Bool :=
  (s.keyframe || d.anchorTrack.media ≠ .video) && timescaleNS s.cts d.anchorTrack.timescale ≤ target

/-- The loop of `seek` over the samples from the one at `si` on, with the best one so far. -/
def scan (target : ℤ) : ℕ → ℕ → List Sample → ℕ
  | _, best, [] => best
  | si, best, s :: samples =>
    if target < timescaleNS s.dts d.anchorTrack.timescale then best
    else scan target (si + 1) (if d.seekable target s then si else best) samples

def seek (position : ℤ) : Demuxer :=
  let best := d.scan position 0 0 d.anchorTrack.samples
  { d with pos := (d.order.findIdx? fun item => item.track = d.anchor ∧ item.sample = best).getD 0 }

def nextItem : Option DemuxItem := d.order[d.pos]?

end Demuxer

end Goav.Mp4
