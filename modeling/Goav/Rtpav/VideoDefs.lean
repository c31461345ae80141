import Goav.Rtpav.Types

/-!
The frame assembler of `rtpav/video.go` and the event matching of `rtpav/stream_event.go`. The buffer is
a list of bytes with the capacity of its allocation; a packet is emitted with a copy.
-/

namespace Goav.Rtpav

open Goav.Av

def defaultVideoClockRate : UInt32 := 90000
def defaultMaxVideoFrameSize : Int64 := 4 * 1024 * 1024

/-- The caller-owned output of a depacketizer: two slices with their capacities. -/
structure DepacketizeResult where
  packets : List Av.Packet := []
  packetsCap : ℕ
  events : List Event := []
  eventsCap : ℕ

/-! ### Which events concern a stream -/

variable (stream : Stream)

def eventMatchesStream (event : Event) : Bool :=
  event.streamID == "" || stream.id == "" || event.streamID == stream.id

variable (codec : CodecID)

def codecChangedReplacementMatches (event : Event) : Bool :=
  match event.type, event.stream with
  | .codecChanged, some next =>
    let next := match event.codec with
      | some c => { next with codec := c }
      | none => next
    if next.codec.id != "" && next.codec.id != codec then false
    else if next.type != .unknown && stream.type != .unknown && next.type != stream.type then false
    else next.id != "" && next.id != stream.id
  | _, _ => false

def eventAffectsCodecStream (event : Event) : Bool :=
  eventMatchesStream stream event ||
    (event.type == .codecChanged && codecChangedReplacementMatches stream codec event)

/-- The stream after a codec change that concerns it, or none when the event does not. -/
def applyCodecChangedEvent (event : Event) : Option Stream :=
  if event.type != .codecChanged then none
  else if !eventMatchesStream stream event && !codecChangedReplacementMatches stream codec event
  then none
  else if event.codec.any fun c => c.id != "" && c.id != codec then some stream
  else if event.stream.any fun s => s.codec.id != "" && s.codec.id != codec then some stream
  else
    match event.stream with
    | some next =>
      let next := if next.id == "" then { next with id := stream.id } else next
      let next := if next.type == .unknown then { next with type := stream.type } else next
      let next := if next.codec.id == "" then { next with codec := stream.codec } else next
      let next := match event.codec with
        | some c => { next with codec := c }
        | none => next
      let next := if next.timeBase == {} then { next with timeBase := stream.timeBase } else next
      let next := if next.epoch == 0 && event.epoch != 0 then { next with epoch := event.epoch }
        else next
      some next
    | none =>
      let stream := if event.streamID != "" then { stream with id := event.streamID } else stream
      let stream := if event.epoch != 0 then { stream with epoch := event.epoch } else stream
      match event.codec with
      | some c =>
        let stream := { stream with codec := c }
        some (if c.type != .unknown then { stream with type := c.type } else stream)
      | none => some stream

/-! ### The assembler -/

structure VideoFrameAssembler where
  stream : Stream
  buffer : Bytes := []
  bufferCap : ℕ
  started : Bool := false
  dropping : Bool := false
  lossBefore : Bool := false
  discontinuous : Bool := false
  requestSync : Bool := false
  keyframe : Bool := false
  timestamp : UInt32 := 0

abbrev VideoDepacketizerOption := Int64

def newVideoFrameAssembler (options : List VideoDepacketizerOption) : VideoFrameAssembler :=
  let maxFrameSize := options.foldl (fun _ size => size) defaultMaxVideoFrameSize
  let maxFrameSize := if maxFrameSize ≤ 0 then defaultMaxVideoFrameSize else maxFrameSize
  let clockRate :=
    if stream.codec.clockRate = 0 then defaultVideoClockRate else stream.codec.clockRate
  let timeBase := if stream.timeBase = {} then rtpTimeBase clockRate else stream.timeBase
  { stream := { stream with
      type := .video
      codec := { stream.codec with id := codec, type := .video, clockRate := clockRate }
      timeBase := timeBase }
    bufferCap := maxFrameSize.toInt.toNat }

def payloadClockRate (payload : PayloadCodec) (stream : Stream) : UInt32 :=
  if payload.clockRate ≠ 0 then payload.clockRate
  else if stream.codec.clockRate ≠ 0 then stream.codec.clockRate
  else defaultVideoClockRate

namespace VideoFrameAssembler

variable (a : VideoFrameAssembler)

def resetPartial : VideoFrameAssembler :=
  { a with started := false, buffer := [], keyframe := false, timestamp := 0 }

def markLoss (discontinuous : Bool) : VideoFrameAssembler :=
  { a.resetPartial with
    lossBefore := true
    discontinuous := a.discontinuous || discontinuous
    requestSync := true
    dropping := true }

def dropUntilSync : VideoFrameAssembler :=
  ({ a with requestSync := a.requestSync || !a.dropping, lossBefore := true,
            dropping := true }).resetPartial

def emitPendingSync (out : DepacketizeResult) :
    VideoFrameAssembler × DepacketizeResult × Option Err :=
  if !a.requestSync then (a, out, none)
  else if out.events.length = out.eventsCap then (a, out, some .resultFull)
  else
    let event : Event :=
      { type := .keyframeRequired, streamID := a.stream.id, epoch := a.stream.epoch,
        reason := "video depacketizer needs sync" }
    ({ a with requestSync := false }, { out with events := out.events ++ [event] }, none)

def emitPacket (timestamp clockRate : UInt32) (payload : Bytes) (keyframe : Bool) (out : DepacketizeResult) :
    VideoFrameAssembler × DepacketizeResult × Option Err :=
  if out.packets.length = out.packetsCap then (a, out, some .resultFull)
  else
    let packet : Av.Packet :=
      { streamID := a.stream.id, type := a.stream.type, codecEpoch := a.stream.epoch,
        payload := payload, pts := rtpToTimestamp timestamp clockRate, keyframe := keyframe,
        lossBefore := a.lossBefore, discontinuous := a.discontinuous }
    ({ a with lossBefore := false, discontinuous := false },
      { out with packets := out.packets ++ [packet] }, none)

/-- One fragment of a frame: `start` and `last` say whether it is the first or the last one. -/
def push (ctx : Ctx) (pkt : Packet) (payload : PayloadCodec)
    (frame : Bytes) (start last keyframe : Bool) (out : DepacketizeResult) :
    VideoFrameAssembler × DepacketizeResult × Option Err :=
  match ctx with
  | some e => (a, out, some e)
  | none =>
    if !start && (!a.started || pkt.timestamp != a.timestamp) then
      a.dropUntilSync.emitPendingSync out
    else if start && a.dropping && !keyframe then
      ({ a with requestSync := true }).resetPartial.emitPendingSync out
    else
      let a := if start then
          { a with requestSync := false, started := true, dropping := false,
                   timestamp := pkt.timestamp, keyframe := keyframe, buffer := [] }
        else a
      if a.dropping then (a, out, none)
      else if last && a.buffer.isEmpty then
        -- a frame in one packet bypasses the buffer
        a.emitPacket pkt.timestamp (payloadClockRate payload a.stream) frame a.keyframe out
      else if a.bufferCap < a.buffer.length + frame.length then
        (a.dropUntilSync, out, some .frameTooLarge)
      else
        let a := { a with buffer := a.buffer ++ frame }
        if !last then (a, out, none)
        else
          ({ a with started := false }).emitPacket pkt.timestamp
            (payloadClockRate payload a.stream) a.buffer a.keyframe out

def handleEvent (ctx : Ctx) (event : Option Event) :
    VideoFrameAssembler × Option Err :=
  match ctx with
  | some e => (a, some e)
  | none =>
    match event with
    | none => (a, none)
    | some event =>
      match event.type with
      | .packetLoss => (if eventMatchesStream a.stream event then a.markLoss false else a, none)
      | .discontinuity => (if eventMatchesStream a.stream event then a.markLoss true else a, none)
      | .codecChanged =>
        match applyCodecChangedEvent a.stream a.stream.codec.id event with
        | some stream => (({ a with stream := stream }).markLoss true, none)
        | none => (a, none)
      | _ => (a, none)

structure InFrame (a : VideoFrameAssembler) (ts : UInt32) : Prop where
  started : a.started = true
  live : a.dropping = false
  timestamp : a.timestamp = ts

instance (a : VideoFrameAssembler) (ts : UInt32) : Decidable (a.InFrame ts) :=
  decidable_of_iff (a.started = true ∧ a.dropping = false ∧ a.timestamp = ts)
    ⟨fun h => ⟨h.1, h.2.1, h.2.2⟩, fun h => ⟨h.1, h.2, h.3⟩⟩

end VideoFrameAssembler

end Goav.Rtpav
