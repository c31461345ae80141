import Goav.Mp4.SampleDefs

/-!
The MP4 muxer (`container/mp4/muxer.go`): a seekable output gets the sample tables at the end, any other
one fragments. What the bitstreams say, the bytes of the boxes and the conversions of floating point are
parameters (`Env`).
-/

namespace Goav.Mp4

open Goav.Av Goav.Lib

def codecFLAC : CodecID := "flac"
def codecAAC : CodecID := "aac"
def codecHEVC : CodecID := "hevc"

def muxCodecs : List CodecID :=
  [codecH264, codecHEVC, codecAV1, codecVP8, codecVP9, codecAAC, codecOpus, codecFLAC]

structure MuxStream extends Stream where
  sampleRate : ℤ := 0

structure MuxPacket extends Packet where
  duration : Duration := {}

structure MuxSample where
  dts : ℤ
  /-- Presentation minus decode time. -/
  cts : ℤ
  /-- Negative until it is known. -/
  duration : ℤ
  size : ℕ
  sync : Bool
  /-- In the file, or, of a fragmented file, in the data of the track. -/
  offset : ℕ

structure MuxChunk where
  offset : ℕ
  count : ℕ

structure MuxTrack where
  id : ℕ
  streamID : StreamID
  codec : CodecID
  media : MediaType
  timescale : ℕ
  configured : Bool
  prerollNS : ℤ
  samples : List MuxSample := []
  chunks : List MuxChunk := []
  data : Bytes := []
  startDTS : ℤ := 0
  startPTS : ℤ := 0
  endPTS : ℤ := 0
  started : Bool := false
  based : Bool := false
  fragmentStart : ℤ := 0

structure Env where
  /-- Whether a stream declares its configuration, and the time before its presentation. -/
  configure : MuxStream → Except Err (Bool × ℤ)
  convert : CodecID → Bytes → Except Err Bytes
  carriesConfig : CodecID → Bytes → Bool
  ticksNS : ℤ → ℕ → ℤ
  nsTicks : ℤ → ℕ → ℤ
  spanTicks : ℤ → ℕ → ℤ
  ftyp : List MuxTrack → Bool → Bytes
  moov : List MuxTrack → Bool → Bytes
  moof : ℕ → List (Traf × Bytes) → Bytes

instance neZero_capacity : NeZero (2 ^ 63) := ⟨by decide⟩

structure FormatMuxer where
  seekable : Bool
  tracks : List MuxTrack
  file : Bytes
  capacity : Fin (2 ^ 63)
  offset : ℕ
  err : Option Err := none
  closed : Bool := false
  mdatAt : ℕ := 0
  last : Option ℕ := none
  headerDone : Bool := false
  sequence : ℕ := 0
  anchor : Option ℕ := none
  fragment : ℤ := 0
  tables : List Stbl := []
  fragments : List (List (Traf × Bytes)) := []

/-- The bytes from an offset on are replaced, the rest is appended, and a gap filled with zeros. -/
def writeAt (file : Bytes) (offset : ℕ) (bytes : Bytes) : Bytes :=
  file.takeD offset 0 ++ bytes ++ file.drop (offset + bytes.length)

def byteRange (file : Bytes) (offset size : ℕ) : Bytes := (file.drop offset).take size

def ticksOf (timescale : ℕ) (p : MuxPacket) : Option (ℤ × ℤ) :=
  let base : TimeBase := { num := 1, den := timescale }
  match rescaleValue p.pts.value p.pts.base base with
  | none => none
  | some pts =>
    match rescaleValue p.dts.value p.dts.base base with
    | none => some (pts, pts)
    | some dts => if p.dts.base.valid then some (dts, pts) else some (pts, pts)

def durationOf (timescale : ℕ) (p : MuxPacket) : ℤ :=
  match rescaleValue p.duration.value p.duration.base { num := 1, den := timescale } with
  | some d => if 0 < d then d else -1
  | none => -1

structure Entry where
  dts : ℤ
  pts : ℤ
  duration : ℤ
  sync : Bool
  data : Bytes

namespace MuxTrack

variable (t : MuxTrack)

def times (p : MuxPacket) : Option (ℤ × ℤ) :=
  (ticksOf t.timescale p).filter fun (dts, _) => t.samples.getLast?.all (·.dts ≤ dts)

def sampleData (env : Env) (t : MuxTrack) (payload : Bytes) : Except Err Bytes :=
  if t.codec ∈ [codecH264, codecHEVC, codecAV1, codecAAC] then env.convert t.codec payload
  else .ok payload

def learn (env : Env) (t : MuxTrack) (payload : Bytes) : MuxTrack :=
  { t with configured := t.configured || env.carriesConfig t.codec payload }

def ready : Bool :=
  t.configured || t.codec ∉ [codecH264, codecHEVC, codecAV1, codecAAC]

variable (samples : List MuxSample)

def closeSamples (dts : ℤ) : List MuxSample :=
  match samples.getLast? with
  | none => samples
  | some s =>
    if s.duration < 0 then samples.dropLast ++ [{ s with duration := int64 (dts - s.dts) }] else samples

def closeLast (dts : ℤ) : MuxTrack :=
  { t with samples := closeSamples t.samples dts }

def endOf (e : Entry) : ℤ := if 0 < e.duration then int64 (e.pts + e.duration) else e.pts

def newSample (e : Entry) (offset : ℕ) : MuxSample :=
  { dts := e.dts
    cts := int64 (e.pts - e.dts)
    duration := e.duration
    size := e.data.length
    sync := e.sync
    offset }

def add (e : Entry) (offset : ℕ) : MuxTrack :=
  let startPTS := if t.started then t.startPTS else e.pts
  let endPTS := if t.started then t.endPTS else e.pts
  { t with
    started := true
    startDTS := if !t.started && !t.based then e.dts else t.startDTS
    startPTS := min startPTS e.pts
    endPTS := max endPTS (endOf e)
    fragmentStart := if t.samples = [] then e.dts else t.fragmentStart
    samples := t.samples ++ [newSample e offset] }

def addToChunk (chunks : List MuxChunk) (continues : Bool) (offset : ℕ) : List MuxChunk :=
  match continues, chunks.getLast? with
  | true, some chunk => chunks.dropLast ++ [{ chunk with count := chunk.count + 1 }]
  | _, _ => chunks ++ [{ offset, count := 1 }]

/-- A fragment is begun by a video keyframe, past the length asked for, or, without video, past a second.
-/
def cuts (env : Env) (t : MuxTrack) (sync : Bool) (dts limit : ℤ) : Bool :=
  match t.samples.getLast? with
  | none => false
  | some s =>
    if t.media = .video ∧ sync then true
    else if 0 < limit then
      env.spanTicks limit t.timescale < int64 (dts - t.fragmentStart + max s.duration 0)
    else t.media ≠ .video ∧ t.timescale ≤ int64 (dts - t.fragmentStart)

def finishSamples : List MuxSample :=
  match samples.getLast? with
  | none => samples
  | some s =>
    if s.duration < 0 then
      samples.dropLast ++ [{ s with duration := (samples.dropLast.getLast?.map (·.duration)).getD 0 }]
    else samples

def finishedEnd : ℤ :=
  match t.samples.getLast?, (finishSamples t.samples).getLast? with
  | some s, some finished =>
    if s.duration < 0 then max t.endPTS (int64 (s.dts + s.cts + finished.duration)) else t.endPTS
  | _, _ => t.endPTS

def finish : MuxTrack :=
  { t with samples := finishSamples t.samples, endPTS := t.finishedEnd }

def fragmentBytes (n : ℕ) : ℕ :=
  ((t.samples.take n).getLast?.map fun s => s.offset + s.size).getD 0

def dropFragment (n : ℕ) : MuxTrack :=
  if n = 0 then t
  else
    let cut := t.fragmentBytes n
    let samples := (t.samples.drop n).map fun s => { s with offset := s.offset - cut }
    { t with
      data := t.data.drop cut
      samples
      fragmentStart := (samples.head?.map (·.dts)).getD t.fragmentStart }

def trunSampleOf (hasCts : Bool) (s : MuxSample) : TrunSample :=
  { duration := uint32 s.duration
    size := s.size
    flags := if s.sync then 0x02000000 else 0x01010000
    cts := if hasCts then some (uint32 (int32 s.cts)) else none
    dts := s.dts }

def writeTraf (n : ℕ) : Traf :=
  let samples := t.samples.take n
  let first := (samples.head?.map (·.dts)).getD 0
  { id := t.id
    baseDTS := uint64 (max (int64 (first - t.startDTS)) 0)
    run := samples.map (trunSampleOf (samples.any (·.cts ≠ 0))) }

/-- A sample of unknown duration waits for the last fragment. -/
def readyCount (last : Bool) (t : MuxTrack) : ℕ :=
  match t.samples.getLast? with
  | none => 0
  | some s => if !last && s.duration < 0 then t.samples.length - 1 else t.samples.length

def stscEntries (first : ℕ) : List (ℕ × ℕ) → List StscEntry
  | [] => []
  | run :: runs =>
    { firstChunk := first, samplesPerChunk := run.2 } :: stscEntries (first + run.1) runs

def syncSamples : List ℕ :=
  (samples.zipIdx 1).filterMap fun (s, i) => if s.sync then some i else none

def writeStsz : Stsz :=
  let first := (samples.head?.map (·.size)).getD 0
  if samples ≠ [] ∧ samples.all (·.size = first) then
    { uniform := first, count := samples.length, entries := [] }
  else { uniform := 0, count := samples.length, entries := samples.map (·.size) }

def writeChunkOffsets (chunks : List MuxChunk) : ChunkOffsets :=
  if chunks.getLast?.any (maxUint32 < ·.offset) then .co64 (chunks.map (·.offset))
  else .stco (chunks.map fun c => uint32 c.offset)

def writeCtts : Option (List (ℕ × ℕ)) :=
  let offsets := runLength (samples.map (·.cts))
  if 1 < offsets.length ∨ offsets.any (·.2 ≠ 0) then
    some (offsets.map fun (count, value) => (count, uint32 (int32 value)))
  else none

/-- The sync samples, unless every sample is one or the track is not video. -/
def writeStss : Option (List ℕ) :=
  let syncs := syncSamples t.samples
  if t.media = .video ∧ syncs.length ≠ t.samples.length then some syncs else none

def writeStbl : Stbl :=
  { stts := (runLength (t.samples.map (·.duration))).map fun (count, value) => (count, uint32 value)
    ctts := writeCtts t.samples
    stss := t.writeStss
    stsc := stscEntries 1 (runLength (t.chunks.map (·.count)))
    stsz := writeStsz t.samples
    chunkOffsets := writeChunkOffsets t.chunks }

end MuxTrack

def newMuxTrack (env : Env) (stream : MuxStream) (id : ℕ) : Except Err MuxTrack :=
  if stream.codec.id ∉ muxCodecs then .error .unsupported
  else
    let media := if stream.type = .unknown then stream.codec.type else stream.type
    let timescale :=
      if stream.codec.id = codecOpus then 48000
      else if media = .audio ∧ 0 < stream.sampleRate then uint32 stream.sampleRate
      else if stream.timeBase.num = 1 ∧ 1000 ≤ stream.timeBase.den ∧
          stream.timeBase.den ≤ 2 ^ 31 - 1 then stream.timeBase.den.toNat
      else 90000
    (env.configure stream).map fun (configured, prerollNS) =>
      { id
        streamID := stream.id
        codec := stream.codec.id
        media
        timescale
        configured
        prerollNS }

def newMuxTracks (env : Env) (id : ℕ) : List MuxStream → Except Err (List MuxTrack)
  | [] => .ok []
  | stream :: streams => do
    let track ← newMuxTrack env stream id
    let tracks ← newMuxTracks env (id + 1) streams
    return track :: tracks

namespace FormatMuxer

def write (m : FormatMuxer) (bytes : Bytes) : FormatMuxer :=
  let n := min bytes.length (m.capacity - m.offset)
  { m with
    file := writeAt m.file m.offset (bytes.take n)
    offset := m.offset + n
    err := if n < bytes.length then some .write else m.err }

/-- The track that cuts the fragments: the first video track, or else the first track. -/
def anchorOf (tracks : List MuxTrack) : Option ℕ :=
  match tracks.findIdx? (·.media = .video) with
  | some i => some i
  | none => if tracks = [] then none else some 0

variable (env : Env)

/-- `Open` on an output at an offset of a file. -/
def openOutput (seekable : Bool) (file : Bytes) (offset : ℕ) (capacity : Fin (2 ^ 63))
    (fragment : ℤ) (streams : List MuxStream) : Except Err FormatMuxer :=
  newMuxTracks env 1 streams >>= fun tracks =>
    let m : FormatMuxer :=
      { seekable := seekable && fragment = 0
        tracks
        file
        capacity
        offset
        anchor := anchorOf tracks
        fragment }
    if m.seekable then
      let ftyp := env.ftyp tracks false
      -- the header of `mdat` has 16 bytes, and its size is set at the end
      let m := { m with mdatAt := offset + ftyp.length }.write
        (ftyp ++ [0, 0, 0, 1, 0x6d, 0x64, 0x61, 0x74, 0, 0, 0, 0, 0, 0, 0, 0])
      match m.err with
      | some err => .error err
      | none => .ok m
    else .ok m

variable (m : FormatMuxer)

def byStream (id : StreamID) : Option ℕ :=
  (List.range m.tracks.length).reverse.find? fun i =>
    (m.tracks[i]?.map (·.streamID)) = some id

variable (i : ℕ)

def modifyTrack (f : MuxTrack → MuxTrack) : FormatMuxer :=
  { m with tracks := m.tracks.modify i f }

/-- The movie's time zero: the earliest presentation of any track, past its pre-roll. -/
def originNS : ℤ :=
  let starts := (m.tracks.filter (·.started)).map fun t =>
    int64 (env.ticksNS t.startPTS t.timescale + t.prerollNS)
  let origin := starts.foldl min (maxInt64 : ℤ)
  if origin = maxInt64 then 0 else origin

/-- The header. A track that has not started is placed at the movie's origin. -/
def writeHeader : FormatMuxer :=
  if m.headerDone then m
  else if m.tracks.any (!·.ready) then { m with err := some .invalidData }
  else
    let m := m.write (env.ftyp m.tracks true ++ env.moov m.tracks true)
    if m.err.isSome then m
    else
      let origin := m.originNS env
      { m with
        headerDone := true
        tracks := m.tracks.map fun t =>
          if t.started then t
          else { t with startDTS := env.nsTicks origin t.timescale, based := true } }

def flushFragment (last : Bool) : FormatMuxer :=
  let m := m.writeHeader env
  if m.err.isSome then m
  else
    let parts := (m.tracks.filter fun t => t.readyCount last ≠ 0).map fun t =>
      (t.writeTraf (t.readyCount last), t.data.take (t.fragmentBytes (t.readyCount last)))
    if parts = [] then m
    else
      let m := { m with sequence := (m.sequence + 1) % 2 ^ 32 }
      let m := m.write (env.moof m.sequence parts)
      if m.err.isSome then m
      else
        { m with
          fragments := m.fragments ++ [parts]
          tracks := m.tracks.map fun t => t.dropFragment (t.readyCount last) }

def append (e : Entry) : FormatMuxer :=
  if m.seekable then
    let m' := m.modifyTrack i fun t =>
      { t.add e m.offset with chunks := MuxTrack.addToChunk t.chunks (m.last = some i) m.offset }
    { m' with last := some i }.write e.data
  else m.modifyTrack i fun t => { t.add e t.data.length with data := t.data ++ e.data }

def cut (e : Entry) : FormatMuxer :=
  let cuts := (m.tracks[i]?.map fun t => t.cuts env e.sync e.dts m.fragment).getD false
  if !m.seekable && m.anchor = some i && cuts then m.flushFragment env false else m

def put (e : Entry) : FormatMuxer :=
  let m := (m.modifyTrack i (·.closeLast e.dts)).cut env i e
  if m.err.isSome then m else m.append i e

def writePacket (ctxErr : Option Err) (packet : Option MuxPacket) :
    FormatMuxer × Option Err :=
  match ctxErr, packet with
  | some err, _ => (m, some err)
  | none, none => (m, some .nilPacket)
  | none, some packet =>
    if m.closed then (m, some .closed)
    else
      match m.err with
      | some err => (m, some err)
      | none =>
        match m.byStream packet.streamID with
        | none => (m, some .invalidData)
        | some i =>
          match m.tracks[i]? with
          | none => (m, some .invalidData)
          | some t =>
            match t.times packet with
            | none => (m, some .invalidData)
            | some (dts, pts) =>
              let m := m.modifyTrack i (·.learn env packet.payload)
              match t.sampleData env packet.payload with
              | .error _ => (m, some .invalidData)
              | .ok data =>
                if maxUint32 < data.length then (m, some .invalidData)
                else
                  let m := m.put env i
                    { dts
                      pts
                      duration := durationOf t.timescale packet
                      sync := packet.keyframe || t.media ≠ .video
                      data }
                  (m, m.err)

def finishProgressive : FormatMuxer :=
  if m.tracks.any (!·.ready) then { m with err := some .invalidData }
  else
    let size := uint64 (m.offset - m.mdatAt)
    let bytes := (List.range 8).map fun i => UInt8.ofNat (size / 256 ^ (7 - i))
    let m := { m with file := writeAt m.file (m.mdatAt + 8) bytes }
    { m with tables := m.tracks.map MuxTrack.writeStbl }.write (env.moov m.tracks false)

def close : FormatMuxer × Option Err :=
  if m.closed then (m, none)
  else
    let m := { m with closed := true }
    match m.err with
    | some err => (m, some err)
    | none =>
      let m := { m with tracks := m.tracks.map MuxTrack.finish }
      let m := if m.seekable then m.finishProgressive env else m.flushFragment env true
      (m, m.err)

end FormatMuxer

/-- A muxer and what it accepted. -/
structure MuxRun where
  muxer : FormatMuxer
  accepted : List (ℕ × MuxPacket) := []

def MuxRun.write (env : Env) (r : MuxRun) (call : Option Err × Option MuxPacket) : MuxRun :=
  let (muxer, err) := r.muxer.writePacket env call.1 call.2
  match err, call.2.bind fun packet => (r.muxer.byStream packet.streamID).map (·, packet) with
  | none, some taken => { muxer, accepted := r.accepted ++ [taken] }
  | _, _ => { r with muxer }

def MuxRun.writeAll (env : Env) (m : FormatMuxer) (calls : List (Option Err × Option MuxPacket)) :
    MuxRun :=
  calls.foldl (MuxRun.write env) { muxer := m }

/-- The packets of one track. -/
def packetsOf (accepted : List (ℕ × MuxPacket)) (i : ℕ) : List MuxPacket :=
  (accepted.filter (·.1 = i)).map (·.2)

end Goav.Mp4
