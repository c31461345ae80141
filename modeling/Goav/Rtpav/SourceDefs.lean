import Goav.Rtpav.JitterDefs
import Goav.Rtpav.VideoDefs
import Goav.Webrtcav.TrackDefs

/-!
The RTP source (`rtpav/source.go`): records go through a jitter ring to depacketizers, which are those of
the interface. Emitting succeeds, and what is emitted is in the log. The feedback and the count of
discarded partial units are left out. Ghost fields record what was read.
-/

namespace Goav.Rtpav

open Goav.Av

def streamAdded : EventType := .other "stream_added"
def streamRemoved : EventType := .other "stream_removed"

/-- The errors of `errors.go`, of the ring, a depacketizer and a read, and an index out of range. -/
inductive SourceErr where
  | invalidConfiguration | jitterStreamConflict | epochRegression | payloadNotFound
  | depacketizerNotFound | ambiguousStream | unknownStream | index
  | jitter (e : Err)
  | depacketizer (e : Err)
  | read

/-- A codec entry with its MIME type, which only the choice of a depacketizer reads. -/
structure PayloadEntry extends PayloadCodec where
  mimeType : String := ""

structure PayloadMap where
  epoch : Epoch
  lookup : UInt8 → Option PayloadEntry
  codecs : List PayloadEntry

/-- Why a read failed: whether it is the end, as `isReadEOF` says, or not. -/
inductive ReadErr where
  | eof | failed

structure Record where
  packet : Option Packet := none
  event : Option Event := none
  payloads : Option PayloadMap := none
  err : Option ReadErr := none

/-- The depacketizer interface, and what the source knows of the built-in ones. -/
structure Depacketizers (D : Type) where
  codec : D → CodecID
  stream : D → Option Stream
  pushInto : D → Packet → PayloadEntry → DepacketizeResult → Except Err (D × DepacketizeResult)
  flushInto : D → DepacketizeResult → Except Err (D × DepacketizeResult)
  handleEvent : D → Event → Except Err D
  defaultFor : CodecID → Stream → Option D

structure SourceTimestampState where
  streamID : StreamID := ""
  initialized : Bool := false
  epoch : Epoch := 0
  timestamp : Timestamp := {}

/-- A packet goes to a depacketizer with a codec entry; events and packets are emitted. -/
inductive SourceObs where
  | depacketized (record : ℕ) (pkt : Packet) (payload : PayloadEntry)
  | event (record : Option ℕ) (event : Event)
  | packet (packet : Av.Packet)

structure Taken where
  packet : Option Packet
  scope : StreamID
  payloads : PayloadMap

structure Source (D : Type) where
  payloads : Option PayloadMap
  scope : StreamID := ""
  epochs : StreamID → Option Epoch := fun _ => none
  removed : StreamID → Bool := fun _ => false
  jitter : Option JitterRing
  jitterScope : StreamID := ""
  jitterScoped : Bool := false
  depacketizers : List D
  streams : List Stream
  timestamps : List SourceTimestampState
  maxTSGap : Duration
  maxReady : ℕ
  maxEvents : ℕ
  maxPackets : ℕ
  log : List SourceObs := []
  /-- Ghost: the records that were taken. -/
  taken : List Taken := []
  /-- Ghost: the last record that brought a packet. -/
  origin : Packet → ℕ := fun _ => 0

structure SourceConfig (D : Type) where
  payloads : Option PayloadMap := none
  jitter : Option JitterRing := none
  depacketizers : List D := []
  streams : List Stream := []
  maxTimestampGap : Duration := {}
  maxReady : ℤ := 0
  maxEvents : ℤ := 0
  maxPackets : ℤ := 0

def positiveOrDefault (value : ℤ) (fallback : ℕ) : ℕ := if 0 < value then value.toNat else fallback

def newSource {D : Type} (config : SourceConfig D) : Source D :=
  { payloads := config.payloads
    jitter := config.jitter
    depacketizers := config.depacketizers
    streams := config.streams
    timestamps := config.streams.map fun stream => { streamID := stream.id }
    maxTSGap := config.maxTimestampGap
    maxReady := positiveOrDefault config.maxReady 16
    maxEvents := positiveOrDefault config.maxEvents 8
    maxPackets := positiveOrDefault config.maxPackets 8 }

/-! ### The scope of a record -/

def configurationEvent (event : Option Event) : Bool :=
  event.any fun e => e.type = .codecChanged ∨ e.type = streamAdded ∨ e.type = streamRemoved

def boundaryEvent (event : Option Event) : Bool :=
  configurationEvent event || event.any (·.type = .discontinuity)

def recordEventTarget : Option Event → StreamID
  | none => ""
  | some event => if event.streamID ≠ "" then event.streamID else (event.stream.map (·.id)).getD ""

/-- The stream that the epoch of a record is of. Untagged maps have a session-wide epoch. -/
def recordEpochScope (packet : Option Packet) (event : Option Event) (payloads : PayloadMap) :
    Except SourceErr StreamID :=
  match packet, configurationEvent event with
  | some pkt, false => .ok (((payloads.lookup pkt.payloadType).map (·.streamID)).getD "")
  | _, _ =>
    match payloads.codecs with
    | [] =>
      -- a removal has no payload entry left to tag
      .ok (match event.bind (·.stream) with
        | some stream => if stream.id ≠ "" then stream.id else recordEventTarget event
        | none => recordEventTarget event)
    | payload :: rest =>
      if rest.all (·.streamID = payload.streamID) then .ok payload.streamID
      else .error .invalidConfiguration

namespace Source

variable {D : Type} (s : Source D)

/-- The scope that an event names. A codec change may be about one stream and name its successor. -/
def eventScope (event : Event) : Except SourceErr (StreamID × StreamID) :=
  let named : Except SourceErr StreamID :=
    match event.stream with
    | none => .ok event.streamID
    | some stream =>
      if event.streamID ≠ "" ∧ stream.id ≠ "" ∧ event.streamID ≠ stream.id then
        if event.type ≠ .codecChanged ∨ s.streams.any (·.id = stream.id) then
          .error .invalidConfiguration
        else .ok stream.id
      else .ok (if event.streamID = "" then stream.id else event.streamID)
  named.map fun scope => (scope, if event.streamID = "" then scope else event.streamID)

/-- That of the codec entry, or of the event, or the only stream of the codec. -/
def packetScope (scope : StreamID) (payload : PayloadEntry) :
    Except SourceErr StreamID :=
  if payload.streamID ≠ "" then
    if scope ≠ "" ∧ scope ≠ payload.streamID then .error .invalidConfiguration
    else .ok payload.streamID
  else if scope ≠ "" then .ok scope
  else
    s.streams.foldlM (fun scope stream =>
      if stream.codec.id = payload.parameters.id then
        if scope ≠ "" then .error .ambiguousStream else .ok stream.id
      else .ok scope) ""

def recordScope (packet : Option Packet) (event : Option Event)
    (payloads : PayloadMap) : Except SourceErr StreamID := do
  let (scope, target) ← match event with
    | none => .ok ("", "")
    | some event => s.eventScope event
  let scope ← match packet with
    | none => .ok scope
    | some pkt =>
      match payloads.lookup pkt.payloadType with
      | none => .error .payloadNotFound
      | some payload => s.packetScope scope payload
  let addsStream := event.any fun e =>
    e.type = streamAdded ∧ e.stream.isSome ∧ recordEventTarget event = scope
  if packet.isSome ∧ s.removed scope ∧ !addsStream then .error .unknownStream
  else
    let scope :=
      if scope = "" ∧ s.streams.length = 1 then (s.streams.map (·.id)).headD "" else scope
    if scope = "" ∧ configurationEvent event ∧ 1 < s.streams.length then .error .ambiguousStream
    else if event.any (·.type = .codecChanged) ∧ 1 < s.streams.length ∧
        !s.streams.any (·.id = target) then
      .error .unknownStream
    else .ok (if scope = "" ∧ s.streams.length = 0 then s.scope else scope)

/-! ### Events -/

def uniqueCodecScope (target : StreamID) (codec : CodecID) : Bool :=
  s.streams.any (fun stream => stream.codec.id = codec ∧ stream.id = target) &&
    s.streams.countP (·.codec.id = codec) = 1

/-- The stream that a codec change is about, and its codec if no other stream has that one. -/
def codecChangedTarget (event : Event) : StreamID × CodecID :=
  if event.type ≠ .codecChanged then ("", "")
  else
    let found := ((s.streams.find? (eventMatchesStream · event)).map
      fun stream => (stream.id, stream.codec.id)).getD ("", "")
    let found :=
      if found.1 = "" ∧ s.streams.length = 1 then
        (s.streams.map fun stream => (stream.id, stream.codec.id)).headD found
      else found
    if s.uniqueCodecScope found.1 found.2 then found else (found.1, "")

end Source

def sourceCodecChangedReplacementMatches (stream : Stream) (event : Event) (singleStream : Bool) :
    Bool :=
  match event.stream with
  | none => false
  | some next =>
    if !singleStream || event.type ≠ .codecChanged then false
    else
      let id := if next.id = "" then event.streamID else next.id
      let codec := event.codec.getD next.codec
      if next.type ≠ .unknown ∧ stream.type ≠ .unknown ∧ next.type ≠ stream.type then false
      else if codec.type ≠ .unknown ∧ stream.type ≠ .unknown ∧ codec.type ≠ stream.type then false
      else id ≠ "" ∧ id ≠ stream.id

def streamWithCodecChangedEvent (stream : Stream) (event : Event) : Stream :=
  let next := event.stream.getD stream
  let id :=
    if next.id ≠ "" then next.id else if event.streamID ≠ "" then event.streamID else stream.id
  let type := if next.type = .unknown then stream.type else next.type
  let codec := if next.codec.id = "" then stream.codec else next.codec
  { id
    type := (event.codec.map fun c => if c.type ≠ .unknown then c.type else type).getD type
    codec := event.codec.getD codec
    timeBase := if next.timeBase = {} then stream.timeBase else next.timeBase
    epoch := if next.epoch = 0 ∧ event.epoch ≠ 0 then event.epoch else next.epoch }

def canonicalizeCodecChangedEvent (event : Event) (stream : Stream) : Event :=
  if event.type ≠ .codecChanged then event
  else
    { event with
      streamID := if stream.id ≠ "" then stream.id else event.streamID
      epoch := if stream.epoch ≠ 0 then stream.epoch else event.epoch }

namespace Source

variable {D : Type} (ops : Depacketizers D) (s : Source D) (event : Event)

def applyCodecChangedStream : Source D × Option Stream :=
  if event.type ≠ .codecChanged then (s, none)
  else
    match s.streams.findIdx? fun stream => eventMatchesStream stream event ||
        sourceCodecChangedReplacementMatches stream event (s.streams.length = 1) with
    | none => (s, none)
    | some i =>
      let stream := streamWithCodecChangedEvent (s.streams.getD i {}) event
      ({ s with
        streams := s.streams.set i stream
        timestamps := s.timestamps.modify i fun t =>
          { t with streamID := stream.id, epoch := stream.epoch, initialized := false } },
        some stream)

def applyStreamAdded : Source D :=
  match event.stream with
  | none => s
  | some stream =>
    let stream := if stream.id = "" then { stream with id := event.streamID } else stream
    if stream.id = "" then s
    else
      let s := { s with removed := Function.update s.removed stream.id false }
      match s.streams.findIdx? (·.id = stream.id) with
      | some i => { s with streams := s.streams.set i stream }
      | none =>
        let s := { s with
          streams := s.streams ++ [stream]
          timestamps := s.timestamps ++ [{ streamID := stream.id }] }
        if stream.codec.id = "" then s
        else if s.depacketizers.any fun d => (ops.stream d).any (·.id = stream.id) then s
        else { s with depacketizers := s.depacketizers ++ (ops.defaultFor stream.codec.id stream).toList }

def applyStreamRemoved : Source D :=
  if event.streamID = "" then s
  else
    { s with
      epochs := Function.update s.epochs event.streamID none
      removed := Function.update s.removed event.streamID true
      streams := s.streams.filter (·.id ≠ event.streamID)
      timestamps := s.timestamps.filter (·.streamID ≠ event.streamID) }

def resetTimestampState : Source D :=
  if event.type = .codecChanged ∨ event.type = .discontinuity ∨ event.type = .endOfStream ∨
      event.type = streamRemoved then
    { s with
      timestamps := s.timestamps.map fun t =>
        if event.streamID = "" ∨ event.streamID = t.streamID then { t with initialized := false }
        else t }
  else s

def notify (target : StreamID × CodecID) (canonical : Option Stream) (event : Event)
    (d : D) : Except SourceErr D :=
  let codec := ops.codec d
  let uniqueTarget := target.2 ≠ "" ∧ codec = target.2
  let uniqueReplacement := canonical.any fun stream => s.uniqueCodecScope stream.id codec
  if event.type = .codecChanged ∧ target.1 ≠ "" ∧ (ops.stream d).any (·.id ≠ target.1) ∧
      ¬ uniqueTarget ∧ !uniqueReplacement then
    .ok d
  else
    let reset : Except Err D :=
      if event.type = streamRemoved then ops.handleEvent d { event with type := .discontinuity }
      else .ok d
    (reset.bind (ops.handleEvent · event)).mapError .depacketizer

/-- The streams and timestamps after an event, and the stream that a codec change left. -/
def applyEvent : Source D × Option Stream :=
  let (s, canonical) := s.applyCodecChangedStream event
  let s := if event.type = streamAdded then s.applyStreamAdded ops event else s
  let s := if event.type = streamRemoved then s.applyStreamRemoved event else s
  (s.resetTimestampState event, canonical)

def handleEvent : Except SourceErr (Source D × Event) := do
  let target := s.codecChangedTarget event
  let applied := s.applyEvent ops event
  let told ← applied.1.depacketizers.mapM (applied.1.notify ops target applied.2 event)
  let kept :=
    if event.type = streamRemoved then
      told.filter fun d => !(ops.stream d).any (eventMatchesStream · event)
    else told
  .ok ({ applied.1 with depacketizers := kept },
    (applied.2.map (canonicalizeCodecChangedEvent event)).getD event)

def emitEvent (record : Option ℕ) (event : Event) : Except SourceErr (Source D) := do
  let event := match event.stream with
    | some stream => if event.streamID = "" then { event with streamID := stream.id } else event
    | none => event
  let (s, event) ← s.handleEvent ops event
  .ok { s with log := s.log ++ [.event record event] }

def emitEvents (events : List Event) : Except SourceErr (Source D) :=
  events.foldlM (fun s event => s.emitEvent ops none event) s

/-! ### Packets -/

end Source

def timestampSub (t previous : Timestamp) : Option Duration :=
  (rescaleValue previous.value previous.base t.base).bind fun value =>
    let delta := t.value - value
    if minInt64 ≤ delta ∧ delta ≤ maxInt64 then some { value := delta, base := t.base } else none

def timestampDiscontinuous (gap maxGap : Duration) : Bool :=
  if gap.value < 0 then true
  else if maxGap.value ≤ 0 ∨ !maxGap.base.valid then false
  else (rescaleValue maxGap.value maxGap.base gap.base).any (· < gap.value)

def extendTimestamp (last t : Timestamp) : Timestamp :=
  if t.base = last.base then
    { t with value := Int.bmod (last.value + Int.bmod (t.value - last.value) (2 ^ 32)) (2 ^ 64) }
  else t

def PayloadEntry.codecID (payload : PayloadEntry) : CodecID :=
  if payload.parameters.id = "" then (Webrtcav.codecIDFromMIME payload.mimeType).1
  else payload.parameters.id

namespace Source

variable {D : Type} (ops : Depacketizers D) (s : Source D) (packet : Av.Packet)

def timestampState : Option ℕ :=
  s.timestamps.findIdx? fun t =>
    t.streamID = packet.streamID ∨ (packet.streamID = "" ∧ s.timestamps.length = 1)

def initTimestamp (i : ℕ) (packet : Av.Packet) : Source D :=
  { s with
    timestamps := s.timestamps.modify i fun t =>
      { t with initialized := true, epoch := packet.codecEpoch, timestamp := packet.pts } }

def observePacketTimestamp :
    Except SourceErr (Source D × Av.Packet) :=
  match s.timestampState packet with
  | none => .ok (s, packet)
  | some i =>
    let state := s.timestamps.getD i {}
    if !packet.pts.base.valid then .ok (s, packet)
    else if !state.initialized || state.epoch ≠ packet.codecEpoch then
      .ok (s.initTimestamp i packet, packet)
    else
      let packet := { packet with pts := extendTimestamp state.timestamp packet.pts }
      match timestampSub packet.pts state.timestamp with
      | none => .ok (s.initTimestamp i packet, packet)
      | some gap =>
        if timestampDiscontinuous gap s.maxTSGap then do
          let packet := { packet with discontinuous := true }
          let s ← s.emitEvent ops none
            { type := .discontinuity
              streamID := packet.streamID
              epoch := packet.codecEpoch
              reason := if gap.value < 0 then "timestamp moved backward" else "timestamp gap" }
          .ok (s.initTimestamp i packet, packet)
        else .ok (s.initTimestamp i packet, packet)

def emitPacket : Source D :=
  { s with log := s.log ++ [.packet packet] }

def emitResult (out : DepacketizeResult) : Except SourceErr (Source D) := do
  let s ← s.emitEvents ops out.events
  out.packets.foldlM (fun s packet =>
    (s.observePacketTimestamp ops packet).map fun observed => observed.1.emitPacket observed.2) s

def depacketizerFor (payload : PayloadEntry) : Option (ℕ × D) :=
  let id := payload.codecID
  let all := (s.depacketizers.zipIdx.filter fun x => ops.codec x.1 = id).map fun x => (x.2, x.1)
  match all.find? fun x =>
      payload.streamID ≠ "" ∧ (ops.stream x.2).any (·.id = payload.streamID) with
  | some x => some x
  | none =>
    match all with
    | [x] =>
      if payload.streamID ≠ "" ∧ 1 < s.streams.countP (·.codec.id = id) then none else some x
    | _ => none

def depacketizeResult : DepacketizeResult :=
  { packetsCap := s.maxPackets, eventsCap := s.maxEvents }

variable (pkt : Packet)

def depacketize : Except SourceErr (Source D) :=
  match s.payloads.bind (·.lookup pkt.payloadType) with
  | none => .error .payloadNotFound
  | some payload =>
    match s.depacketizerFor ops payload with
    | none => .error .depacketizerNotFound
    | some (i, d) => do
      let (d, out) ← (ops.pushInto d pkt payload s.depacketizeResult).mapError .depacketizer
      { s with
        depacketizers := s.depacketizers.set i d
        log := s.log ++ [.depacketized (s.origin pkt) pkt payload] : Source D }.emitResult ops out

def jitterResult : JitterResult := { readyCap := s.maxReady, eventsCap := s.maxEvents }

def handOver (ring : JitterRing) (out : JitterResult) : Except SourceErr (Source D) := do
  let s ← { s with jitter := some ring }.emitEvents ops out.events
  out.ready.foldlM (fun s pkt => s.depacketize ops pkt) s

def handleRTP : Except SourceErr (Source D) :=
  match s.jitter with
  | none => s.depacketize ops pkt
  | some ring =>
    match ring.pushInto none pkt s.jitterResult with
    | (_, _, some e) => .error (.jitter e)
    | (ring, out, none) => s.handOver ops ring out

def flushJitter : Except SourceErr (Source D) :=
  match s.jitter with
  | none => .ok s
  | some ring =>
    match ring.flushInto none s.jitterResult with
    | (_, _, some e) => .error (.jitter e)
    | (ring, out, none) => s.handOver ops ring out

def flushDepacketizers : ℕ → ℕ → Source D → Except SourceErr (Source D)
  | 0, _, s => .ok s
  | n + 1, i, s =>
    match s.depacketizers[i]? with
    | none => .error .index
    | some d => do
      let (d, out) ← (ops.flushInto d s.depacketizeResult).mapError .depacketizer
      let s ← { s with depacketizers := s.depacketizers.set i d }.emitResult ops out
      flushDepacketizers n (i + 1) s

def flush : Except SourceErr (Source D) := do
  let s ← s.flushJitter ops
  flushDepacketizers ops s.depacketizers.length 0 s

def endOfStreamEvent (streams : List Stream) : Event :=
  match streams with
  | [stream] => { type := .endOfStream, streamID := stream.id, epoch := stream.epoch }
  | _ => { type := .endOfStream }

/-! ### Records -/

variable (event : Option Event)

def replacesJitterStream : Bool :=
  event.any fun e => e.type = .codecChanged ∧
    (s.streams.length ≤ 1 ∨ recordEventTarget event = s.jitterScope)

def resetsJitter : Bool :=
  s.jitterScoped && event.any fun e =>
    s.replacesJitterStream event ∨
      e.type = streamRemoved ∧ recordEventTarget event = s.jitterScope ∨
      e.type = .discontinuity ∧
        (recordEventTarget event = "" ∨ recordEventTarget event = s.jitterScope)

/-- The epoch of a record does not go back, and only a configuration event moves it. -/
def checkEpoch (scope epochScope : StreamID) (epoch : Epoch) :
    Except SourceErr Unit :=
  if event.isSome ∧ epochScope ≠ "" ∧ scope ≠ "" ∧ epochScope ≠ scope then
    .error .invalidConfiguration
  else if epochScope ≠ "" ∧ configurationEvent event ∧
      event.any fun e => e.epoch ≠ 0 ∧ e.epoch ≠ epoch then
    .error .invalidConfiguration
  else
    match s.epochs epochScope with
    | none => .ok ()
    | some previous =>
      if epoch < previous then .error .epochRegression
      else if epoch ≠ previous ∧ !configurationEvent event then .error .invalidConfiguration
      else .ok ()

def drainsBefore (scope : StreamID) (payloads : PayloadMap) :
    Bool :=
  s.payloads.any (fun current => scope ≠ s.scope ∨ payloads.epoch ≠ current.epoch) || boundaryEvent event

/-- The source goes over to the map and the scope of a record. -/
def switch (replaces resets : Bool) (packet : Option Packet) (event : Option Event)
    (scope epochScope : StreamID) (payloads : PayloadMap) : Source D :=
  let reset := resets && s.jitter.isSome
  let jitter := if reset then s.jitter.map JitterRing.reset else s.jitter
  let keptScope := if reset && event.any (·.type = streamRemoved) then false else s.jitterScoped
  let brings := s.jitter.isSome && packet.isSome
  { s with
    jitter
    jitterScope := if brings ∨ (replaces ∧ keptScope) then scope else s.jitterScope
    jitterScoped := brings || keptScope
    payloads := some payloads
    scope
    epochs := Function.update s.epochs epochScope (some payloads.epoch)
    taken := s.taken ++ [{ packet, scope, payloads }] }

/-- The window is drained with the old map before a record that ends it. -/
def drainBefore (scope : StreamID) (payloads : PayloadMap) :
    Except SourceErr (Source D) :=
  if s.drainsBefore event scope payloads then s.flushJitter ops else .ok s

/-- A record is checked, the source goes over to its map, and its event is emitted. -/
def takeRecord (packet : Option Packet) (event : Option Event) (payloads : PayloadMap) :
    Except SourceErr (Source D) := do
  let scope ← s.recordScope packet event payloads
  let replaces := s.replacesJitterStream event
  let resets := s.resetsJitter event
  if s.jitter.isSome ∧ packet.isSome ∧ s.jitterScoped ∧ s.jitterScope ≠ scope ∧
      !s.removed s.jitterScope ∧ !replaces then
    .error .jitterStreamConflict
  else
    let epochScope ← recordEpochScope packet event payloads
    s.checkEpoch event scope epochScope payloads.epoch
    let drained ← s.drainBefore ops event scope payloads
    let switched := drained.switch replaces resets packet event scope epochScope payloads
    match event with
    | none => .ok switched
    | some event => switched.emitEvent ops (some (switched.taken.length - 1)) event

def takePacket : Except SourceErr (Source D) :=
  { s with origin := Function.update s.origin pkt (s.taken.length - 1) }.handleRTP ops pkt

def readRecord (r : Record) : Except SourceErr (Source D) :=
  if r.err.isNone ∨ r.event.isSome ∨ r.packet.isSome then
    match r.payloads with
    | none => .error .invalidConfiguration
    | some payloads =>
      if r.err.isNone ∧ r.packet.isNone ∧ r.event.isNone then .error .invalidConfiguration
      else s.takeRecord ops r.packet r.event payloads
  else .ok s

def takeRead (r : Record) : Except SourceErr (Source D) := do
  let s ← s.readRecord ops r
  match r.packet with
  | none => .ok s
  | some pkt => s.takePacket ops pkt

def start (s : Source D) : List Record → Except SourceErr (Source D)
  | [] => .ok s
  | r :: reads => do
    let s ← s.takeRead ops r
    match r.err with
    | none => start s reads
    | some .failed => .error .read
    | some .eof => do
      let s ← s.flush ops
      s.emitEvent ops none (endOfStreamEvent s.streams)

end Source

end Goav.Rtpav
