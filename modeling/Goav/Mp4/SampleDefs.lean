import Goav.Av.Types
import Goav.Lib.RunLength

/-!
The sample tables of a track (`container/mp4`, `sample.go`, `movie.go`, `fragment.go`, `limits.go`) as
the demuxer reads them. A box is the record of its fields; how boxes are laid out in bytes is left out.
-/

namespace Goav.Mp4

open Goav.Av Goav.Lib

/-- The errors of `errors.go`, a context's, and that of an output's writer. -/
inductive Err where
  | nilPacket | closed | invalidData | unsupported | context | write
  deriving DecidableEq

/-! ### Machine integers -/

variable (x : ℤ)

def int64 : ℤ := x.bmod (2 ^ 64)

def int32 : ℤ := x.bmod (2 ^ 32)

def uint32 : ℕ := (x % 2 ^ 32).toNat

def uint64 : ℕ := (x % 2 ^ 64).toNat

def maxUint32 : ℕ := 2 ^ 32 - 1

/-! ### The boxes -/

/-- `stsz`: the size of every sample, or else zero and the sizes one by one. -/
structure Stsz where
  uniform : ℕ
  count : ℕ
  entries : List ℕ

/-- `stsc`: the chunks from `firstChunk` on have `samplesPerChunk` samples. -/
structure StscEntry where
  firstChunk : ℕ
  samplesPerChunk : ℕ

inductive ChunkOffsets where
  | stco (offsets : List ℕ)
  | co64 (offsets : List ℕ)

/-- The tables of `stbl`. An entry of `stts` or `ctts` is a count and a value. -/
structure Stbl where
  stts : List (ℕ × ℕ)
  ctts : Option (List (ℕ × ℕ))
  stss : Option (List ℕ)
  stsc : List StscEntry
  stsz : Stsz
  chunkOffsets : ChunkOffsets

/-- One sample of a `trun`. The composition offset is there if the run has any. -/
structure TrunSample where
  duration : ℕ
  size : ℕ
  flags : ℕ
  cts : Option ℕ
  /-- Ghost: the decode time of the sample that was written. -/
  dts : ℤ

/-- A track's part of a fragment: the track, the decode time it starts at, and its samples. -/
structure Traf where
  id : ℕ
  baseDTS : ℕ
  run : List TrunSample

/-! ### The limits of a file -/

def maxSamples : ℕ := 8 * 2 ^ 20

def maxFileSamples : ℕ := 16 * 2 ^ 20

structure SampleBudget where
  fileSize : ℕ
  left : ℕ

def newSampleBudget (fileSize : ℕ) : SampleBudget :=
  { fileSize, left := min fileSize maxFileSamples }

def SampleBudget.claim (b : SampleBudget) (count bytesEach : ℕ) : Option SampleBudget :=
  if b.left < count ∨ maxSamples < count then none
  else if 0 < bytesEach ∧ b.fileSize < count * bytesEach then none
  else some { b with left := b.left - count }

/-! ### The tables of a progressive file -/

structure SampleTables where
  stts : List (ℕ × ℕ) := []
  ctts : List (ℕ × ℤ) := []
  stsc : List StscEntry := []
  sizes : List ℕ := []
  chunkOffsets : List ℤ := []
  sync : List ℕ := []
  syncPresent : Bool := false

/-- A table with more entries than a track may have samples is not read. -/
def capped {α : Type} (entries : List α) : List α :=
  if maxSamples < entries.length then [] else entries

def parseCtts (entries : List (ℕ × ℕ)) : List (ℕ × ℤ) :=
  capped (entries.map fun (count, offset) => (count, int32 offset))

def parseChunkOffsets : ChunkOffsets → List ℤ
  | .stco offsets => capped (offsets.map fun (offset : ℕ) => (offset : ℤ))
  | .co64 offsets => capped (offsets.map fun (offset : ℕ) => int64 offset)

variable (budget : SampleBudget)

def parseStsz (stsz : Stsz) : List ℕ × SampleBudget :=
  if stsz.uniform = 0 ∧ (maxSamples < stsz.count ∨ stsz.entries.length < stsz.count) then ([], budget)
  else
    match budget.claim stsz.count stsz.uniform with
    | none => ([], budget)
    | some budget =>
      if stsz.uniform ≠ 0 then (List.replicate stsz.count stsz.uniform, budget)
      else (stsz.entries.take stsz.count, budget)

def parseStbl (stbl : Stbl) : SampleTables × SampleBudget :=
  let (sizes, budget) := parseStsz budget stbl.stsz
  ({ stts := capped stbl.stts
     ctts := (stbl.ctts.map parseCtts).getD []
     stsc := capped stbl.stsc
     sizes
     chunkOffsets := parseChunkOffsets stbl.chunkOffsets
     sync := (stbl.stss.map capped).getD []
     syncPresent := stbl.stss.isSome }, budget)

structure Sample where
  offset : ℤ := 0
  size : ℕ := 0
  dts : ℤ := 0
  cts : ℤ := 0
  keyframe : Bool := false
  deriving DecidableEq

def decodeTimes (dts : ℤ) : List ℕ → List ℤ
  | [] => []
  | delta :: deltas => dts :: decodeTimes (dts + delta) deltas

def entryFor (chunk : ℕ) : List StscEntry → List StscEntry
  | entry :: next :: entries =>
    if next.firstChunk ≤ chunk then entryFor chunk (next :: entries) else entry :: next :: entries
  | entries => entries

def placeFrom (offset : ℤ) : List Sample → List Sample
  | [] => []
  | s :: samples => { s with offset } :: placeFrom (offset + s.size) samples

def assignChunks (chunk : ℕ) (stsc : List StscEntry) : List ℤ → List Sample → List Sample × List Sample
  | [], samples => ([], samples)
  | offset :: offsets, samples =>
    if samples = [] then ([], [])
    else
      let stsc := entryFor chunk stsc
      let perChunk := (stsc.head?.map (·.samplesPerChunk)).getD 0
      let rest := assignChunks (chunk + 1) stsc offsets (samples.drop perChunk)
      (placeFrom offset (samples.take perChunk) ++ rest.1, rest.2)

namespace SampleTables

def assignOffsets (t : SampleTables) (samples : List Sample) : Except Err (List Sample) :=
  if t.stsc = [] ∨ t.chunkOffsets = [] then .error .invalidData
  else
    let (assigned, left) := assignChunks 1 t.stsc t.chunkOffsets samples
    if left ≠ [] then .error .invalidData else .ok assigned

/-- The samples in decode order, at most `maxSamples`, so that no decode time leaves 64 bits. -/
def build (t : SampleTables) : Except Err (List Sample) :=
  let n := t.sizes.length
  if n = 0 then .ok []
  else if maxSamples < n then .error .invalidData
  else
    let dts := decodeTimes 0 ((expandRuns t.stts).take n)
    let offsets := (expandRuns t.ctts).take n
    t.assignOffsets <| t.sizes.mapIdx fun i size =>
      { size
        dts := dts.getD i 0
        cts := dts.getD i 0 + offsets.getD i 0
        keyframe := !t.syncPresent || t.sync.contains (i + 1) }

end SampleTables

/-- The samples of `trak`; what they leave of the budget is for the next one. -/
def parseTrak (stbl : Stbl) : Except Err (List Sample × SampleBudget) :=
  let (tables, budget) := parseStbl budget stbl
  tables.build.map fun samples => (samples, budget)

/-- The samples of the tracks, which share one budget. -/
def parseMovie (budget : SampleBudget) : List Stbl → Except Err (List (List Sample))
  | [] => .ok []
  | stbl :: stbls => do
    let (samples, budget) ← parseTrak budget stbl
    let rest ← parseMovie budget stbls
    return samples :: rest

/-! ### The runs of a fragmented file -/

def sampleNonSync : ℕ := 0x00010000

/-- The sample of a run at a decode time. Where its bytes are is left out. -/
def trunSample (dts : ℤ) (flags : ℕ) (s : TrunSample) : Sample :=
  { size := s.size
    dts
    cts := int64 (dts + int32 (s.cts.getD 0))
    keyframe := flags &&& sampleNonSync = 0 }

def trunSamples (dts : ℤ) : List TrunSample → List Sample
  | [] => []
  | s :: run => trunSample dts s.flags s :: trunSamples (int64 (dts + s.duration)) run

/-- The first sample of a run has the run's flags or the default ones, whatever its own say. -/
def parseTrun (defFlags : ℕ) (dts : ℤ) : List TrunSample → List Sample
  | [] => []
  | s :: run => trunSample dts defFlags s :: trunSamples (int64 (dts + s.duration)) run

def defaultSampleFlags : ℕ := 0

/-- The samples of a track, from the parts of all tracks; every run draws on the budget. -/
def parseTrafs (budget : SampleBudget) (id : ℕ) : List Traf → Except Err (List Sample)
  | [] => .ok []
  | traf :: trafs =>
    if maxSamples < traf.run.length then .error .invalidData
    else
      match budget.claim traf.run.length 0 with
      | none => .error .invalidData
      | some budget =>
        (parseTrafs budget id trafs).map fun samples =>
          if traf.id = id then parseTrun defaultSampleFlags (int64 traf.baseDTS) traf.run ++ samples
          else samples

end Goav.Mp4
