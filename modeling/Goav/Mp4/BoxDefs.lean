import Goav.Lib.BigEndian
import Goav.Mp4.MuxDefs

/-!
The bytes of a fragment (`container/mp4`, `boxwriter.go`, `muxer.go`) and how the demuxer reads them
(`box.go`, `fragment.go`), at offsets of `int64`. The version of a run is a parameter.
-/

namespace Goav.Mp4

open Goav.Av Goav.Lib

/-! ### Writing -/

def ftypType : Bytes := [0x66, 0x74, 0x79, 0x70]
def moovType : Bytes := [0x6d, 0x6f, 0x6f, 0x76]
def moofType : Bytes := [0x6d, 0x6f, 0x6f, 0x66]
def mdatType : Bytes := [0x6d, 0x64, 0x61, 0x74]
def mfhdType : Bytes := [0x6d, 0x66, 0x68, 0x64]
def trafType : Bytes := [0x74, 0x72, 0x61, 0x66]
def tfhdType : Bytes := [0x74, 0x66, 0x68, 0x64]
def tfdtType : Bytes := [0x74, 0x66, 0x64, 0x74]
def trunType : Bytes := [0x74, 0x72, 0x75, 0x6e]

def box (type payload : Bytes) : Bytes := beBytes 4 (8 + payload.length) ++ type ++ payload

def fullPayload (version flags : ℕ) (payload : Bytes) : Bytes :=
  beBytes 1 version ++ beBytes 3 flags ++ payload

def trunEntry (s : TrunSample) : Bytes :=
  beBytes 4 s.duration ++ beBytes 4 s.size ++ beBytes 4 s.flags ++ (s.cts.map (beBytes 4)).getD []

/-- A data offset, durations, sizes, flags, and composition offsets if there are any. -/
def trunFlags (run : List TrunSample) : ℕ := if run.any (·.cts.isSome) then 0xf01 else 0x701

def trunPayload (version : ℕ) (run : List TrunSample) (dataOffset : ℕ) : Bytes :=
  fullPayload version (trunFlags run) (beBytes 4 run.length ++ beBytes 4 dataOffset ++ run.flatMap trunEntry)

/-- A track's part: its track, with the base at the `moof`, its decode time and its run. -/
def trafBoxes (version : ℕ) (traf : Traf) (dataOffset : ℕ) : List (Bytes × Bytes) :=
  [(tfhdType, fullPayload 0 0x020000 (beBytes 4 traf.id)),
    (tfdtType, fullPayload 1 0 (beBytes 8 traf.baseDTS)),
    (trunType, trunPayload version traf.run dataOffset)]

def boxBytes (boxes : List (Bytes × Bytes)) : Bytes := boxes.flatMap fun b => box b.1 b.2

def dataOffsets (at_ : ℕ) : List (Traf × Bytes) → List ℕ
  | [] => []
  | part :: parts => at_ :: dataOffsets (at_ + part.2.length) parts

variable (version : Traf → ℕ) (sequence : ℕ)

def moofBoxes (parts : List (Traf × Bytes)) (offsets : List ℕ) :
    List (Bytes × Bytes) :=
  (mfhdType, fullPayload 0 0 (beBytes 4 sequence)) ::
    (parts.zip offsets).map fun (part, offset) =>
      (trafType, boxBytes (trafBoxes (version part.1) part.1 offset))

def moofSize (parts : List (Traf × Bytes)) : ℕ :=
  (box moofType (boxBytes (moofBoxes version sequence parts (parts.map fun _ => 0)))).length

/-- The offsets count from the `moof` to the data in the `mdat` behind it. -/
def fragmentOffsets (parts : List (Traf × Bytes)) : List ℕ :=
  dataOffsets (moofSize version sequence parts + 8) parts

def fragmentBoxes (parts : List (Traf × Bytes)) :
    List (Bytes × Bytes) :=
  [(moofType, boxBytes (moofBoxes version sequence parts (fragmentOffsets version sequence parts))),
    (mdatType, parts.flatMap Prod.snd)]

def fragmentBytes (version : ℕ → Traf → ℕ) (sequence : ℕ) (parts : List (Traf × Bytes)) : Bytes :=
  boxBytes (fragmentBoxes (version sequence) sequence parts)

/-! ### Reading boxes -/

inductive BoxErr where
  | eof | truncated | invalidData
  deriving DecidableEq

structure BoxHeader where
  type : Bytes
  offset : ℤ
  size : ℤ
  payloadOffset : ℤ
  payloadSize : ℤ
  deriving DecidableEq

def BoxHeader.boxEnd (h : BoxHeader) : ℤ := int64 (h.offset + h.size)

def maxBoxPayload : ℕ := 256 * 2 ^ 20

variable (file : Bytes)

def readAt (off : ℤ) (n : ℕ) : Except BoxErr Bytes :=
  if off < 0 ∨ (file.length : ℤ) < off + n then .error .eof else .ok (byteRange file off.toNat n)

def boxHeader (off limit : ℤ) (type : Bytes) (size headerSize : ℤ) : Except BoxErr BoxHeader :=
  if size < headerSize ∨ limit < int64 (off + size) then .error .truncated
  else
    .ok {
      type
      offset := off
      size
      payloadOffset := int64 (off + headerSize)
      payloadSize := size - headerSize }

def readBoxHeader (off limit : ℤ) : Except BoxErr BoxHeader :=
  if off < 0 ∨ limit < int64 (off + 8) then .error .eof
  else do
    let buf ← readAt file off 8
    let size := beNat (buf.take 4)
    let type := buf.drop 4
    if size = 1 then
      if limit < int64 (off + 16) then .error .truncated
      else do
        let large ← readAt file (off + 8) 8
        boxHeader off limit type (int64 (beNat large)) 16
    else if size = 0 then boxHeader off limit type (int64 (limit - off)) 8
    else boxHeader off limit type size 8

def walkFrom {σ : Type} (file : Bytes) (visit : σ → BoxHeader → Except BoxErr σ) (limit : ℤ) :
    ℕ → ℤ → σ → Except BoxErr σ
  | 0, _, s => .ok s
  | fuel + 1, off, s =>
    if limit < int64 (off + 8) then .ok s
    else
      match readBoxHeader file off limit with
      | .error .eof => .ok s
      | .error err => .error err
      | .ok h => visit s h >>= walkFrom file visit limit fuel h.boxEnd

def walkBoxes {σ : Type} (file : Bytes) (start limit : ℤ) (visit : σ → BoxHeader → Except BoxErr σ)
    (s : σ) : Except BoxErr σ :=
  walkFrom file visit limit file.length start s

def readPayload (h : BoxHeader) : Except BoxErr Bytes :=
  if h.payloadSize < 0 ∨ (maxBoxPayload : ℤ) < h.payloadSize then .error .invalidData
  else if h.payloadSize = 0 then .ok []
  else readAt file h.payloadOffset h.payloadSize.toNat

/-- A cursor over a payload. A read past the end gives zero, and is remembered. -/
structure Parser where
  data : Bytes
  bad : Bool := false

def Parser.take (p : Parser) (n : ℕ) : ℕ × Parser :=
  if p.bad ∨ p.data.length < n then (0, { p with bad := true })
  else (beNat (p.data.take n), { p with data := p.data.drop n })

def Parser.fullBox (p : Parser) : (ℕ × ℕ) × Parser :=
  let (version, p) := p.take 1
  let (flags, p) := p.take 3
  ((version, flags), p)

def Parser.takeIf (p : Parser) (flags flag n : ℕ) : Option ℕ × Parser :=
  if flags &&& flag ≠ 0 then
    let (value, p) := p.take n
    (some value, p)
  else (none, p)

/-! ### Reading fragments -/

structure DemuxTrack where
  defaultSampleDuration : ℕ := 0
  defaultSampleSize : ℕ := 0
  defaultSampleFlags : ℕ := 0
  samples : List Sample := []

structure TrunDefaults where
  duration : ℕ
  size : ℕ
  flags : ℕ

def readTrunSample (flags : ℕ) (defaults : TrunDefaults) (firstFlags : Option ℕ) (offset dts : ℤ)
    (p : Parser) : Sample × ℕ × Parser :=
  let (duration, p) := p.takeIf flags 0x000100 4
  let (size, p) := p.takeIf flags 0x000200 4
  let (sampleFlags, p) := p.takeIf flags 0x000400 4
  let (comp, p) := p.takeIf flags 0x000800 4
  let sampleFlags := firstFlags.getD (sampleFlags.getD defaults.flags)
  let size := size.getD defaults.size
  ({ offset
     size
     dts
     cts := int64 (dts + int32 (comp.getD 0))
     keyframe := sampleFlags &&& sampleNonSync = 0 }, duration.getD defaults.duration, p)

def readTrunSamples (flags : ℕ) (defaults : TrunDefaults) :
    ℕ → Option ℕ → ℤ → ℤ → Parser → List Sample × ℤ × Parser
  | 0, _, _, dts, p => ([], dts, p)
  | count + 1, firstFlags, offset, dts, p =>
    let (s, duration, p) := readTrunSample flags defaults firstFlags offset dts p
    let (samples, dts, p) := readTrunSamples flags defaults count none (int64 (offset + s.size))
      (int64 (dts + duration)) p
    (s :: samples, dts, p)

def trunFieldBytes (flags : ℕ) : ℕ :=
  [0x000100, 0x000200, 0x000400, 0x000800].foldl
    (fun bytes field => if flags &&& field ≠ 0 then bytes + 4 else bytes) 0

def readTrun (run : BoxHeader) (baseOffset dts : ℤ) (defaults : TrunDefaults)
    (budget : SampleBudget) : Except BoxErr (List Sample × ℤ × SampleBudget) := do
  let payload ← readPayload file run
  let ((_, flags), p) := Parser.fullBox { data := payload }
  let (count, p) := p.take 4
  if maxSamples < count then .error .invalidData
  else
    let (dataOffset, p) := p.takeIf flags 0x000001 4
    let (firstFlags, p) := p.takeIf flags 0x000004 4
    let fieldBytes := trunFieldBytes flags
    if 0 < fieldBytes ∧ p.data.length < count * fieldBytes then .error .invalidData
    else
      match budget.claim count (if flags &&& 0x000200 ≠ 0 then 0 else defaults.size) with
      | none => .error .invalidData
      | some budget =>
        let offset := int64 (baseOffset + int32 (dataOffset.getD 0))
        let (samples, dts, p) :=
          readTrunSamples flags defaults count (some (firstFlags.getD defaults.flags)) offset dts p
        if p.bad then .error .invalidData else .ok (samples, dts, budget)

structure TrafFields where
  id : Option ℕ := none
  baseOffset : ℤ
  baseDTS : ℤ := 0
  duration : Option ℕ := none
  size : Option ℕ := none
  flags : Option ℕ := none
  runs : List BoxHeader := []

variable (fields : TrafFields)

def readTfhd (payload : Bytes) : TrafFields :=
  let ((_, flags), p) := Parser.fullBox { data := payload }
  let (id, p) := p.take 4
  let (baseOffset, p) := p.takeIf flags 0x000001 8
  let (_, p) := p.takeIf flags 0x000002 4
  let (duration, p) := p.takeIf flags 0x000008 4
  let (size, p) := p.takeIf flags 0x000010 4
  let (sampleFlags, _) := p.takeIf flags 0x000020 4
  { fields with
    id := some id
    baseOffset := (baseOffset.map fun (offset : ℕ) => int64 offset).getD fields.baseOffset
    duration := duration.or fields.duration
    size := size.or fields.size
    flags := sampleFlags.or fields.flags }

def readTfdt (payload : Bytes) : TrafFields :=
  let ((version, _), p) := Parser.fullBox { data := payload }
  { fields with baseDTS := if version = 1 then int64 (p.take 8).1 else (p.take 4).1 }

def visitTraf (h : BoxHeader) : Except BoxErr TrafFields :=
  if h.type = tfhdType then (readPayload file h).map (readTfhd fields)
  else if h.type = tfdtType then (readPayload file h).map (readTfdt fields)
  else if h.type = trunType then .ok { fields with runs := fields.runs ++ [h] }
  else .ok fields

def readRuns (file : Bytes) (baseOffset : ℤ) (defaults : TrunDefaults) :
    List BoxHeader → ℤ → SampleBudget → Except BoxErr (List Sample × SampleBudget)
  | [], _, budget => .ok ([], budget)
  | run :: runs, dts, budget => do
    let (samples, dts, budget) ← readTrun file run baseOffset dts defaults budget
    let (rest, budget) ← readRuns file baseOffset defaults runs dts budget
    return (samples ++ rest, budget)

abbrev DemuxState := (ℕ → Option DemuxTrack) × SampleBudget

/-- `parseTraf`: a part of a track that the demuxer does not have is skipped. -/
def readTraf (moofOffset : ℤ) (s : DemuxState) (traf : BoxHeader) :
    Except BoxErr DemuxState := do
  let fields ← walkBoxes file traf.payloadOffset traf.boxEnd (visitTraf file) { baseOffset := moofOffset }
  match fields.id.bind fun id => (s.1 id).map (id, ·) with
  | none => .ok s
  | some (id, track) =>
    let defaults : TrunDefaults :=
      { duration := fields.duration.getD track.defaultSampleDuration
        size := fields.size.getD track.defaultSampleSize
        flags := fields.flags.getD track.defaultSampleFlags }
    let (samples, budget) ← readRuns file fields.baseOffset defaults fields.runs fields.baseDTS s.2
    return (Function.update s.1 id (some { track with samples := track.samples ++ samples }), budget)

def readMoof (s : DemuxState) (moof : BoxHeader) : Except BoxErr DemuxState :=
  walkBoxes file moof.payloadOffset moof.boxEnd
    (fun s h => if h.type = trafType then readTraf file moof.offset s h else .ok s) s

def parseFragments (s : DemuxState) : Except BoxErr DemuxState :=
  walkBoxes file 0 file.length (fun s h => if h.type = moofType then readMoof file s h else .ok s) s

end Goav.Mp4
