import Goav.Lib.Runs
import Goav.Rtpav.Types

/-!
The reader of one WebRTC track (`webrtcav/track.go`). Every critical section of its mutex is one step,
and so is the transport read between two of them. The channel that notifies observers and what no step
reads (names, metadata, the transceiver) are left out.
-/

namespace Goav.Webrtcav

open Goav.Av Goav.Lib

/-- The errors of `track.go`, of a context, and of a transport read. -/
inductive Err where
  | closed | invalidCodecUpdate | nilTrack | context | eof | read
  deriving DecidableEq

abbrev Ctx := Option Err

abbrev Transport := ℕ

structure RTPCodecParameters where
  payloadType : UInt8 := 0
  mimeType : String := ""
  clockRate : UInt32 := 0
  sdpFmtpLine : String := ""

structure PayloadMap where
  epoch : Epoch
  codecs : List Rtpav.PayloadCodec

def PayloadMap.lookup (m : PayloadMap) (payloadType : UInt8) : Option Rtpav.PayloadCodec :=
  m.codecs.find? (·.payloadType = payloadType)

/-- The handle of a remote track: its transport, and what it says of itself. -/
structure TrackRemote where
  transport : Transport
  id : StreamID := ""
  codec : RTPCodecParameters := {}

structure RemoteTrack where
  track : Option TrackRemote := none
  codec : RTPCodecParameters := {}
  stream : Stream := {}
  payloads : Option PayloadMap := none
  feedback : Option ℕ := none

structure TrackCodecUpdate where
  codec : RTPCodecParameters := {}
  stream : Stream := {}
  payloads : Option PayloadMap := none

/-! ### Streams and payload maps -/

/-- A letter as `strings.EqualFold` compares it with a letter of ASCII. -/
def foldCase (c : Char) : Char :=
  if c = '\u017f' then 's' else if c = '\u212a' then 'k' else c.toLower

/-- `strings.EqualFold` of a text and one of ASCII. -/
def equalFold (a b : String) : Bool := a.toList.map foldCase = b.toList.map foldCase

def codecIDFromMIME (mimeType : String) : CodecID × MediaType :=
  if equalFold mimeType "audio/opus" then (codecOpus, .audio)
  else if equalFold mimeType "video/VP8" then (codecVP8, .video)
  else if equalFold mimeType "video/VP9" then (codecVP9, .video)
  else if equalFold mimeType "video/H264" then (codecH264, .video)
  else if equalFold mimeType "video/AV1" then (codecAV1, .video)
  else ("", .unknown)

def codecParametersFromWebRTC (codec : RTPCodecParameters) : CodecParameters :=
  let (id, type) := codecIDFromMIME codec.mimeType
  { id, type, clockRate := codec.clockRate }

def hasWebRTCCodec (codec : RTPCodecParameters) : Bool :=
  codec.payloadType ≠ 0 || codec.mimeType ≠ "" || codec.clockRate ≠ 0 || codec.sdpFmtpLine ≠ ""

def hasCodecUpdate (update : TrackCodecUpdate) : Bool :=
  hasWebRTCCodec update.codec || update.payloads.isSome || update.stream.codec.id ≠ "" ||
    update.stream.epoch ≠ 0 || update.stream.type ≠ .unknown || update.stream.timeBase ≠ {}

def payloadCodecFromWebRTC (codec : RTPCodecParameters) (params : CodecParameters) :
    Rtpav.PayloadCodec :=
  { payloadType := codec.payloadType, parameters := params, clockRate := codec.clockRate }

variable (stream : Stream)

/-- The codecs carry the track's stream, and the epoch is that of the stream. -/
def trackPayloadMap (payloads : PayloadMap) : PayloadMap :=
  { epoch := stream.epoch
    codecs := payloads.codecs.map fun codec => { codec with streamID := stream.id } }

def mergeCodecParameters (base update : CodecParameters) : CodecParameters :=
  { id := if update.id ≠ "" then update.id else base.id
    type := if update.type ≠ .unknown then update.type else base.type
    clockRate := if update.clockRate ≠ 0 then update.clockRate else base.clockRate
    width := if update.width ≠ 0 then update.width else base.width
    height := if update.height ≠ 0 then update.height else base.height
    extraData := if update.extraData ≠ [] then update.extraData else base.extraData }

def mergeStream (base update : Stream) : Stream :=
  { id := if update.id ≠ "" then update.id else base.id
    type := if update.type ≠ .unknown then update.type else base.type
    timeBase := if update.timeBase ≠ {} then update.timeBase else base.timeBase
    epoch := if update.epoch ≠ 0 then update.epoch else base.epoch
    codec := mergeCodecParameters base.codec update.codec }

def mergeWebRTCCodec (codec : RTPCodecParameters) : Stream :=
  let params := codecParametersFromWebRTC codec
  { stream with
    codec := mergeCodecParameters stream.codec params
    type := if stream.type = .unknown ∨ params.type ≠ .unknown then params.type else stream.type
    timeBase := if params.clockRate ≠ 0 then rtpTimeBase params.clockRate else stream.timeBase }

def fillFromCodec : Stream :=
  { stream with
    type := if stream.type = .unknown then stream.codec.type else stream.type
    timeBase :=
      if stream.timeBase = {} ∧ stream.codec.clockRate ≠ 0 then rtpTimeBase stream.codec.clockRate
      else stream.timeBase }

/-- The epoch of the update's stream, or of its map, or the current one. -/
def askedEpoch (merged : Epoch) (update : TrackCodecUpdate) : Epoch :=
  match update.payloads with
  | some payloads =>
    if update.stream.epoch = 0 ∧ payloads.epoch ≠ 0 then payloads.epoch else merged
  | none => merged

/-- The one asked for, if later, or the next, of 64 bits and not zero. -/
def epochAfter (current asked : Epoch) : Epoch :=
  if asked ≤ current then
    if (current + 1) % 2 ^ 64 = 0 then 1 else (current + 1) % 2 ^ 64
  else asked

def streamFromCodecUpdate (current : Stream) (update : TrackCodecUpdate) : Stream :=
  let next := mergeStream current update.stream
  let next := if hasWebRTCCodec update.codec then mergeWebRTCCodec next update.codec else next
  let next := fillFromCodec next
  { next with epoch := epochAfter current.epoch (askedEpoch next.epoch update) }

variable (remote : RemoteTrack)

def streamFromRemoteTrack : Stream :=
  let stream := remote.stream
  let codec := codecParametersFromWebRTC remote.codec
  let merged : CodecParameters :=
    { stream.codec with
      id := if stream.codec.id = "" then codec.id else stream.codec.id
      type := if stream.codec.type = .unknown then codec.type else stream.codec.type
      clockRate := if stream.codec.clockRate = 0 then codec.clockRate else stream.codec.clockRate }
  { stream with
    codec := merged
    type := if stream.type = .unknown then codec.type else stream.type
    timeBase :=
      if stream.timeBase = {} ∧ merged.clockRate ≠ 0 then rtpTimeBase merged.clockRate
      else stream.timeBase }

def normalizeRemoteTrack : RemoteTrack :=
  match remote.track with
  | none => remote
  | some track =>
    { remote with
      codec :=
        if remote.codec.payloadType = 0 ∧ remote.codec.mimeType = "" then track.codec
        else remote.codec
      stream :=
        { remote.stream with
          id := if remote.stream.id = "" then track.id else remote.stream.id } }

def trackCodecChangedEvent : Event :=
  { type := .codecChanged
    streamID := stream.id
    epoch := stream.epoch
    stream := some stream
    codec := some stream.codec
    reason := "webrtc track codec changed" }

/-! ### The reader -/

structure TrackReader where
  remote : RemoteTrack
  reader : Option Transport
  closed : Bool := false
  streams : List Stream
  /-- The transport that a read is blocked in. -/
  inflight : Option Transport := none
  /-- The transport whose deadline was moved. -/
  expired : Option Transport := none
  /-- Whether the deadline of a transport is in the past. -/
  deadline : Transport → Bool := fun _ => false
  armedDone : Option ℕ := none
  stopArm : Option ℕ := none
  armGen : ℕ := 0
  readerGen : ℕ := 0
  configGen : ℕ := 0
  deliveredConfig : ℕ := 0

variable (reader : Option Transport)

def newTrackReader : TrackReader :=
  let stream := streamFromRemoteTrack remote
  let payloads := remote.payloads.getD
    { epoch := stream.epoch, codecs := [payloadCodecFromWebRTC remote.codec stream.codec] }
  { remote := { remote with stream, payloads := some (trackPayloadMap stream payloads) }
    reader
    streams := [stream] }

structure TrackReadState where
  reader : Transport
  stream : Stream
  payloads : Option PayloadMap
  readerGen : ℕ
  configGen : ℕ

structure Context where
  done : Option ℕ := none

namespace TrackReader

def bump (gen : ℕ) : ℕ := (gen + 1) % 2 ^ 64

variable (r : TrackReader)

def arm (ctx : Context) : TrackReader :=
  if ctx.done = r.armedDone then r
  else
    { r with
      armGen := bump r.armGen
      armedDone := ctx.done
      stopArm := ctx.done.map fun _ => bump r.armGen }

/-- A read begins on the transport, unless there is none or the reader or the context is done. -/
def beginRead (ctx : Context) (ctxErr : Ctx) :
    TrackReader × Except Err TrackReadState :=
  if r.closed then (r, .error .closed)
  else
    match r.reader with
    | none => (r, .error .nilTrack)
    | some reader =>
      let r := r.arm ctx
      match ctxErr with
      | some err => (r, .error err)
      | none =>
        let r :=
          if r.expired = some reader then
            { r with deadline := Function.update r.deadline reader false, expired := none }
          else r
        ({ r with inflight := some reader },
          .ok
            { reader
              stream := r.remote.stream
              payloads := r.remote.payloads
              readerGen := r.readerGen
              configGen := r.configGen })

/-- A packet whose payload type only the current configuration knows is paired with that. -/
def repair (state : TrackReadState) (packet : Option Rtpav.Packet) :
    TrackReadState :=
  match packet, state.payloads, r.remote.payloads with
  | some packet, some old, some next =>
    if (old.lookup packet.payloadType).isNone ∧ (next.lookup packet.payloadType).isSome then
      { state with
        stream := r.remote.stream
        payloads := r.remote.payloads
        configGen := r.configGen }
    else state
  | _, _, _ => state

/-- No read is blocked any more; the deadline that a replacement moved is cleared. -/
def release (replaced : Bool) : TrackReader :=
  match replaced, r.expired with
  | true, some expired =>
    { r with
      deadline := Function.update r.deadline expired false
      expired := none
      inflight := none }
  | _, _ => { r with inflight := none }

variable (ctxErr : Ctx)

/-- A read ends: whether its transport was replaced, and why it was interrupted, if it was. -/
def endRead (state : TrackReadState)
    (packet : Option Rtpav.Packet) : TrackReader × TrackReadState × Bool × Ctx :=
  let replaced := decide (state.readerGen ≠ r.readerGen)
  let r := r.release replaced
  if r.closed then (r, state, false, some .closed)
  else (r, if replaced then state else r.repair state packet, replaced, ctxErr)

/-- The event of a configuration not delivered yet, with what comes with it. -/
def deliver (state : TrackReadState) (err : Option Err) :
    TrackReader × Option Event :=
  if (err = none ∨ err = some .eof) ∧ state.configGen ≠ r.deliveredConfig then
    ({ r with deliveredConfig := state.configGen }, some (trackCodecChangedEvent state.stream))
  else (r, none)

def expireLocked : TrackReader :=
  match r.inflight with
  | none => r
  | some inflight =>
    { r with
      deadline := Function.update r.deadline inflight true
      expired := some inflight }

/-- The hook of a context wakes the read under way, unless a newer hook took its place. -/
def interrupt (gen : ℕ) : TrackReader :=
  if gen = r.armGen then r.expireLocked else r

def close : TrackReader :=
  if r.closed then r
  else { { r with closed := true }.expireLocked with stopArm := none }

/-- The read under way is woken, and reads go on with the replacement, if there is one. -/
def replaceReader : Option Transport → TrackReader
  | none => r
  | some transport =>
    { r.expireLocked with readerGen := bump r.readerGen, reader := some transport }

def configure (next : Stream) (update : TrackCodecUpdate) : TrackReader :=
  let codec := if hasWebRTCCodec update.codec then update.codec else r.remote.codec
  let payloads := update.payloads.getD
    { epoch := next.epoch, codecs := [payloadCodecFromWebRTC codec next.codec] }
  { r with
    remote := { r.remote with
      stream := next
      codec
      payloads := some (trackPayloadMap next payloads) }
    streams := [next]
    configGen := bump r.configGen }

variable (update : TrackCodecUpdate)

def applyCodecUpdate (replacement : Option Transport) :
    Except Err TrackReader :=
  if r.closed then .error .closed
  else
    let current := r.streams.headD r.remote.stream
    let next := streamFromCodecUpdate current update
    if next.epoch ≤ current.epoch then .error .invalidCodecUpdate
    else .ok ((r.replaceReader replacement).configure next update)

def updateCodec :
    Except Err TrackReader :=
  match ctxErr with
  | some err => .error err
  | none =>
    if !hasCodecUpdate update then .error .invalidCodecUpdate else r.applyCodecUpdate update none

/-- The transport that an update of a track brings: the given one, or else that of the track. -/
def replacementOf (remote : RemoteTrack) (replacement : Option Transport) : Option Transport :=
  replacement <|> remote.track.map (·.transport)

/-- The critical section of `updateTrack` that changes what is read; `mergeRemoteTrack` follows. -/
def updateTrack (remote : RemoteTrack) (replacement : Option Transport) : Except Err TrackReader :=
  match ctxErr with
  | some err => .error err
  | none =>
    let remote := normalizeRemoteTrack remote
    let replacement := replacementOf remote replacement
    let update : TrackCodecUpdate :=
      { codec := remote.codec, stream := remote.stream, payloads := remote.payloads }
    if !hasCodecUpdate update && replacement.isNone then .error .invalidCodecUpdate
    else r.applyCodecUpdate update replacement

def mergeRemoteTrack (remote : RemoteTrack) : TrackReader :=
  { r with
    remote := { r.remote with
      track := remote.track <|> r.remote.track
      feedback := remote.feedback <|> r.remote.feedback } }

end TrackReader

/-! ### The goroutines -/

inductive Received where
  | packet (p : Rtpav.Packet)
  | failed (err : Err)

def Received.packet? : Received → Option Rtpav.Packet
  | .packet p => some p
  | .failed _ => none

def Received.err? : Received → Option Err
  | .packet _ => none
  | .failed err => some err

/-- A read under way: what it captured, and (ghost) whether the transport was replaced since. -/
structure Read where
  state : TrackReadState
  replaced : Bool := false

/-- Where the goroutine that reads is, named after the next step. -/
inductive ReadPhase where
  | call
  | beginRead (ctx : Context)
  | receive (ctx : Context) (read : Read)
  | endRead (ctx : Context) (read : Read) (received : Received)
  | deliver (read : Read) (received : Received)

/-- What `ReadRTP` returned, and (ghost) whether its transport had been replaced. -/
structure Returned where
  packet : Option Rtpav.Packet := none
  event : Option Event := none
  payloads : Option PayloadMap := none
  err : Option Err := none
  replaced : Bool := false

/-- A reader and what it returned. -/
structure TrackRun where
  reader : TrackReader
  phase : ReadPhase := .call
  returned : List Returned := []

/-- The epochs are 64-bit numbers. -/
def EpochsFit (payloads : Option PayloadMap) : Prop :=
  stream.epoch < 2 ^ 64 ∧ ∀ map ∈ payloads, map.epoch < 2 ^ 64

/-- A step of the goroutine that reads, of a context's hook, of `Close`, or of an update. -/
inductive TrackAction where
  | call (ctx : Context) (ctxErr : Ctx)
  | beginRead (ctxErr : Ctx)
  | receive (received : Received)
  | endRead (ctxErr : Ctx)
  | deliver
  | interrupt (gen : ℕ)
  | close
  | updateCodec (ctxErr : Ctx) (update : { u : TrackCodecUpdate // EpochsFit u.stream u.payloads })
  | updateTrack (ctxErr : Ctx) (remote : { r : RemoteTrack // EpochsFit r.stream r.payloads })
      (replacement : Option Transport)
  | mergeRemoteTrack (remote : RemoteTrack)

namespace ReadPhase

def noteReplaced : ReadPhase → ReadPhase
  | .receive ctx read => .receive ctx { read with replaced := true }
  | .endRead ctx read received => .endRead ctx { read with replaced := true } received
  | phase => phase

end ReadPhase

namespace TrackRun

variable (s : TrackRun)

def returns (reader : TrackReader) (returned : Returned) : TrackRun :=
  { reader, phase := .call, returned := s.returned ++ [returned] }

def updated (result : Except Err TrackReader) (replacement : Option Transport) :
    TrackRun :=
  match result with
  | .error _ => s
  | .ok reader =>
    { s with reader, phase := if replacement.isSome then s.phase.noteReplaced else s.phase }

def act : TrackAction → Option TrackRun
  | .call ctx ctxErr =>
    match s.phase, ctxErr with
    | .call, some err => some (s.returns s.reader { err := some err })
    | .call, none => some { s with phase := .beginRead ctx }
    | _, _ => none
  | .beginRead ctxErr =>
    match s.phase with
    | .beginRead ctx =>
      match s.reader.beginRead ctx ctxErr with
      | (reader, .error err) => some (s.returns reader { err := some err })
      | (reader, .ok state) => some { s with reader, phase := .receive ctx { state } }
    | _ => none
  | .receive received =>
    match s.phase with
    | .receive ctx read => some { s with phase := .endRead ctx read received }
    | _ => none
  | .endRead ctxErr =>
    match s.phase with
    | .endRead ctx read received =>
      match s.reader.endRead ctxErr read.state received.packet? with
      | (reader, _, _, some err) => some (s.returns reader { err := some err })
      -- an old packet, or the wake-up of a replacement, does not escape
      | (reader, _, true, none) => some { s with reader, phase := .beginRead ctx }
      | (reader, state, false, none) =>
        some { s with reader, phase := .deliver { read with state } received }
    | _ => none
  | .deliver =>
    match s.phase with
    | .deliver read received =>
      let (reader, event) := s.reader.deliver read.state received.err?
      some (s.returns reader
        { packet := received.packet?
          event
          payloads := read.state.payloads
          err := received.err?
          replaced := read.replaced })
    | _ => none
  | .interrupt gen => some { s with reader := s.reader.interrupt gen }
  | .close => some { s with reader := s.reader.close }
  | .updateCodec ctxErr update => some (s.updated (s.reader.updateCodec ctxErr update.1) none)
  | .updateTrack ctxErr remote replacement =>
    some (s.updated (s.reader.updateTrack ctxErr remote.1 replacement)
      (TrackReader.replacementOf remote.1 replacement))
  | .mergeRemoteTrack remote => some { s with reader := s.reader.mergeRemoteTrack remote }

end TrackRun

def newTrackRun : TrackRun :=
  { reader := newTrackReader remote reader }

def codecEpochs (returned : List Returned) : List Epoch :=
  returned.filterMap fun r =>
    (r.event.filter fun event => event.type = .codecChanged).map (·.epoch)

/-- The epoch of the latest event. -/
def latestEpoch (initial : Epoch) (returned : List Returned) : Epoch :=
  (codecEpochs returned).getLast?.getD initial

end Goav.Webrtcav
