import Goav.Rtpav.Leb128
import Goav.Rtpav.Packetize
import Goav.Rtpav.VideoDefs

/-!
AV1 over RTP, from `rtpav/av1.go`. The packetizer's `elements` and `spans` are local to the call that
fills them, and a span holds its element. The cached sequence header is optional; `sequence` is its
payload.
-/

namespace Goav.Rtpav

open Goav.Av Goav.Lib

def av1ZMask : UInt8 := 0x80
def av1YMask : UInt8 := 0x40
def av1WMask : UInt8 := 0x30
def av1NMask : UInt8 := 0x08
def av1OBUSequenceHeader : ℕ := 1
def av1OBUTemporalDelimiter : ℕ := 2
def av1OBUTileList : ℕ := 8
def av1OBUPadding : ℕ := 15

def obuTypeOf (header : UInt8) : ℕ := ((header &&& 0x78) >>> 3).toNat

def parseOBUElement (element : Bytes) : Option (ℕ × ℕ × ℕ) :=
  match element with
  | [] => none
  | b :: _ =>
    if b &&& 0x80 ≠ 0 then none
    else
      let headerLen := if b &&& 0x04 ≠ 0 then 2 else 1
      if element.length < headerLen then none
      else if b &&& 0x02 ≠ 0 then
        match readLEB128 (element.drop headerLen) with
        | none => none
        | some (_, read) =>
          if element.length < headerLen + read then none
          else some (headerLen, obuTypeOf b, headerLen + read)
      else some (headerLen, obuTypeOf b, headerLen)

/-! ### The depacketizer -/

/-- The depacketizer; its fragment buffer has the capacity of the assembler's buffer. -/
structure AV1Depacketizer where
  assembler : VideoFrameAssembler
  fragment : Bytes := []
  keyframe : Bool := false

def newAV1Depacketizer (stream : Stream) (options : List VideoDepacketizerOption) :
    AV1Depacketizer :=
  { assembler := newVideoFrameAssembler stream codecAV1 options }

namespace AV1Depacketizer

variable (d : AV1Depacketizer)

def begin (timestamp : UInt32) : AV1Depacketizer :=
  { d with
    assembler := { d.assembler with started := true, timestamp := timestamp, buffer := [] }
    keyframe := false }

def appendFragment (element : Bytes) : AV1Depacketizer × Option Err :=
  if d.assembler.bufferCap < d.fragment.length + element.length then (d, some .frameTooLarge)
  else ({ d with fragment := d.fragment ++ element }, none)

def appendOBU (element : Bytes) : AV1Depacketizer × Option Err :=
  if element.isEmpty then (d, none)
  else
    match parseOBUElement element with
    | none => (d, some .invalidPayload)
    | some (headerLen, obuType, payloadOffset) =>
      if obuType = av1OBUTemporalDelimiter ∨ obuType = av1OBUTileList then (d, none)
      else
        let bodySize := element.length - payloadOffset
        let needed := headerLen + leb128Size bodySize + bodySize
        if d.assembler.bufferCap < d.assembler.buffer.length + needed then
          (d, some .frameTooLarge)
        else
          let buffer := d.assembler.buffer ++ [element.headD 0 ||| 0x02]
          let buffer := if headerLen = 2 then buffer ++ [element.getD 1 0] else buffer
          let buffer := appendLEB128 buffer bodySize
          let buffer := buffer ++ element.drop payloadOffset
          ({ d with assembler := { d.assembler with buffer } }, none)

def endOfElements (count elementIndex : ℕ) : Option Err :=
  if count ≠ 0 ∧ elementIndex ≠ count - 1 then some .invalidPayload else none

/-- The next element's length, the bytes from it on and whether it is the last. -/
def nextElement (count elementIndex : ℕ) (rest : Bytes) : Option (ℕ × Bytes × Bool) :=
  if count ≠ 0 ∧ elementIndex = count - 1 then some (rest.length, rest, true)
  else
    match readLEB128 rest with
    | none => none
    | some (length, read) =>
      let rest := rest.drop read
      if rest.length < length then none
      else some (length, rest, count = 0 && length == rest.length)

def appendPayloadLoop (z y : Bool) (count : ℕ) :
    ℕ → AV1Depacketizer → Bytes → ℕ → AV1Depacketizer × Option Err
  | 0, d, _, elementIndex => (d, endOfElements count elementIndex)
  | fuel + 1, d, rest, elementIndex =>
    if rest.isEmpty then (d, endOfElements count elementIndex)
    else
      match nextElement count elementIndex rest with
      | none => (d, some .invalidPayload)
      | some (length, rest, isLast) =>
        let element := rest.take length
        let rest := rest.drop length
        let next (d : AV1Depacketizer) : AV1Depacketizer × Option Err :=
          if isLast then (d, endOfElements count elementIndex)
          else appendPayloadLoop z y count fuel d rest (elementIndex + 1)
        if elementIndex = 0 ∧ z then
          if d.fragment.isEmpty then next d
          else
            match d.appendFragment element with
            | (d, some e) => (d, some e)
            | (d, none) =>
              if isLast && y then (d, none)
              else
                match d.appendOBU d.fragment with
                | (d, some e) => (d, some e)
                | (d, none) => next { d with fragment := [] }
        else if isLast && y then d.appendFragment element
        else
          match d.appendOBU element with
          | (d, some e) => (d, some e)
          | (d, none) => next d

def appendPayload (payload : Bytes) (z y : Bool) (count : ℕ) :
    AV1Depacketizer × Option Err :=
  appendPayloadLoop z y count payload.length d (payload.drop 1) 0

/-- The end of `PushInto`: append the payload to the temporal unit, and emit it when complete. -/
def assemble (pkt : Packet) (z y : Bool) (count : ℕ) (payload : PayloadCodec)
    (out : DepacketizeResult) : AV1Depacketizer × DepacketizeResult × Option Err :=
  match d.appendPayload pkt.payload z y count with
  | (d, some e) =>
    (if e = .frameTooLarge then { d with assembler := d.assembler.dropUntilSync } else d, out,
      some e)
  | (d, none) =>
    if !pkt.marker || y || !d.fragment.isEmpty then (d, out, none)
    else
      let a := { d.assembler with started := false }
      if d.assembler.buffer.isEmpty then ({ d with assembler := a }, out, none)
      else
        let (a, out, err) := a.emitPacket pkt.timestamp (payloadClockRate payload a.stream)
          a.buffer d.keyframe out
        ({ d with assembler := a }, out, err)

/-- A packet is dropped: the assembler asks for a sync point, if it has not yet. -/
def dropped (a : VideoFrameAssembler) (out : DepacketizeResult) :
    AV1Depacketizer × DepacketizeResult × Option Err :=
  let (a, out, err) := a.emitPendingSync out
  ({ d with assembler := a }, out, err)

def pushInto (ctx : Ctx) (pkt : Packet) (payload : PayloadCodec)
    (out : DepacketizeResult) : AV1Depacketizer × DepacketizeResult × Option Err :=
  match ctx with
  | some e => (d, out, some e)
  | none =>
    if pkt.payload.length ≤ 1 then (d, out, some .invalidPayload)
    else
      let header := pkt.payload.headD 0
      let z := header &&& av1ZMask != 0
      let y := header &&& av1YMask != 0
      let n := header &&& av1NMask != 0
      let count := ((header &&& av1WMask) >>> 4).toNat
      let d := if n || !z then { d with fragment := [] } else d
      if d.assembler.dropping then
        if !n || z then d.dropped ({ d.assembler with requestSync := true }).resetPartial out
        else
          let d := d.begin pkt.timestamp
          ({ d with keyframe := n, assembler :=
              { d.assembler with dropping := false, requestSync := false } }).assemble
            pkt z y count payload out
      else if !d.assembler.started then
        if z then d.dropped d.assembler.dropUntilSync out
        else ({ d.begin pkt.timestamp with keyframe := n }).assemble pkt z y count payload out
      else if pkt.timestamp != d.assembler.timestamp then
        ({ d with fragment := [], keyframe := false }).dropped d.assembler.dropUntilSync out
      else d.assemble pkt z y count payload out

end AV1Depacketizer

/-! ### The OBUs of a bitstream -/

lemma sizeless_header (b : UInt8) : b &&& ~~~0x02 &&& 0x80 = b &&& 0x80 ∧
    b &&& ~~~0x02 &&& 0x02 = 0 ∧ b &&& ~~~0x02 &&& 0x04 = b &&& 0x04 := by
  revert b
  exact forall_byte (by decide +kernel)

/-- One OBU: its header with the size bit cleared, the extension byte, and its payload. -/
structure AV1Element where
  header : UInt8
  extension : Option UInt8 := none
  payload : Bytes
  valid : header &&& 0x80 = 0
  sizeless : header &&& 0x02 = 0
  extended : extension.isSome = (header &&& 0x04 != 0)

namespace AV1Element

variable (e : AV1Element)

def hlen : ℕ := 1 + e.extension.toList.length

def size : ℕ := e.hlen + e.payload.length

def obuType : ℕ := obuTypeOf e.header

def headerBytes : Bytes := e.header :: e.extension.toList

end AV1Element

def elementOf (b : UInt8) (extension : Option UInt8) (hb : b &&& 0x80 = 0)
    (hx : extension.isSome = (b &&& 0x04 != 0)) (body : Bytes) : Option (AV1Element × Bytes) :=
  let element (payload : Bytes) : AV1Element :=
    { header := b &&& ~~~0x02, extension, payload, valid := (sizeless_header b).1.trans hb,
      sizeless := (sizeless_header b).2.1,
      extended := by rw [(sizeless_header b).2.2]; exact hx }
  if b &&& 0x02 ≠ 0 then
    match readLEB128 body with
    | none => none
    | some (value, read) =>
      if body.length - read < value then none
      else some (element ((body.drop read).take value), (body.drop read).drop value)
  else some (element body, [])

def parseElement (data : Bytes) : Option (AV1Element × Bytes) :=
  match data with
  | [] => none
  | b :: tail =>
    if hb : b &&& 0x80 = 0 then
      if hx : b &&& 0x04 = 0 then elementOf b none hb (by simp [hx]) tail
      else
        match tail with
        | [] => none
        | ext :: body => elementOf b (some ext) hb (by simp [hx]) body
    else none

def eachElementLoop : ℕ → Bytes → List AV1Element × Bool
  | 0, data => ([], data.isEmpty)
  | fuel + 1, data =>
    if data.isEmpty then ([], true)
    else
      match parseElement data with
      | none => ([], false)
      | some (e, rest) =>
        let (es, ok) := eachElementLoop fuel rest
        (e :: es, ok)

/-- The elements that `eachElement` calls back with, and whether the bitstream is well formed. -/
def eachElement (data : Bytes) : List AV1Element × Bool := eachElementLoop data.length data

/-! ### The packetizer -/

structure AV1Span where
  element : AV1Element
  offset : ℕ
  length : ℕ

structure AV1Packetizer where
  budget : ℕ
  clock : UInt32
  seqHeader : Option AV1Element := none
  budget_min : minMTU ≤ budget + rtpHeaderSize
  seqHeader_type : ∀ e ∈ seqHeader, e.obuType = av1OBUSequenceHeader

namespace AV1Packetizer

variable (p : AV1Packetizer) (e : AV1Element)

def learn (h : e.obuType = av1OBUSequenceHeader) :
    AV1Packetizer :=
  { p with seqHeader := some e, seqHeader_type := fun _ he => Option.mem_some_iff.mp he ▸ h }

def learnIf : AV1Packetizer :=
  if h : e.obuType = av1OBUSequenceHeader then p.learn e h else p

def isDropped : Bool :=
  e.obuType = av1OBUTemporalDelimiter || e.obuType = av1OBUTileList || e.obuType = av1OBUPadding

/-- The elements to send: a keyframe without a sequence header gets the cached one. -/
def withSequence (keyframe sequence : Bool) (elements : List AV1Element) :
    List AV1Element :=
  match p.seqHeader with
  | none => elements
  | some e => if keyframe && !sequence && !e.payload.isEmpty then e :: elements else elements

def spanLength (budget count used rest : ℕ) : ℤ :=
  let space : ℤ := budget - 1 - used
  -- with a count, the packet's last element carries no length
  if count < 3 then min rest space
  else if rest + leb128Size rest ≤ space then rest
  else space - leb128Size space

/-- The inner loop of `PacketizeInto`: the spans of one packet, and what is left. -/
def planSpans (budget : ℕ) :
    List AV1Element → ℕ → List AV1Span → ℕ → List AV1Span × List AV1Element × ℕ
  | [], offset, spans, _ => (spans, [], offset)
  | e :: es, offset, spans, used =>
    let rest := e.size - offset
    let n := spanLength budget spans.length used rest
    if n ≤ 0 then (spans, e :: es, offset)
    else
      let n := n.toNat
      let spans := spans ++ [{ element := e, offset, length := n }]
      if n < rest then (spans, e :: es, offset + n)
      else planSpans budget es 0 spans (used + (leb128Size n + n))

def spanBytes (s : AV1Span) : Bytes :=
  let stop := s.offset + s.length
  (if s.offset < s.element.hlen then
      (s.element.headerBytes.take (min stop s.element.hlen)).drop s.offset
    else []) ++
  if s.element.hlen < stop then
    (s.element.payload.take (stop - s.element.hlen)).drop (s.offset - s.element.hlen)
  else []

/-- The elements of a packet: the length of each is in front, but for the last of at most three. -/
def writeSpans (count : ℕ) : ℕ → List AV1Span → Bytes
  | _, [] => []
  | i, s :: spans =>
    (if 3 < count ∨ i < count - 1 then appendLEB128 [] s.length else []) ++ spanBytes s ++
      writeSpans count (i + 1) spans

def writePacket (spans : List AV1Span) (payloadType : UInt8) (ts : UInt32)
    (newSequence continues : Bool) (out : PacketizeResult) : PacketizeResult :=
  let header : UInt8 := if (spans.head?.any fun s => 0 < s.offset) then av1ZMask else 0
  let header := if continues then header ||| av1YMask else header
  let count := spans.length
  let header := if count ≤ 3 then header ||| (UInt8.ofNat count <<< 4) else header
  let header := if newSequence then header ||| av1NMask else header
  out.emit payloadType ts (header :: writeSpans count 0 spans)

def packetLoop (budget : ℕ) (keyframe : Bool) (payloadType : UInt8) (ts : UInt32) :
    ℕ → List AV1Element → ℕ → Bool → PacketizeResult → PacketizeResult
  | 0, _, _, _, out => out
  | fuel + 1, elements, offset, first, out =>
    if elements.isEmpty then out
    else
      let (spans, elements, offset) := planSpans budget elements offset [] 0
      packetLoop budget keyframe payloadType ts fuel elements offset false
        (writePacket spans payloadType ts (first && keyframe) (!elements.isEmpty && 0 < offset) out)

def packetizeInto (ctx : Ctx) (packet : Av.Packet) (payload : PayloadCodec)
    (out : PacketizeResult) : AV1Packetizer × PacketizeResult × Option Err :=
  match ctx with
  | some e => (p, out, some e)
  | none =>
    match rtpTimestamp packet payload p.clock with
    | .error e => (p, out, some e)
    | .ok ts =>
      let (parsed, ok) := eachElement packet.payload
      let p := parsed.foldl learnIf p
      let sequence := parsed.any fun e => e.obuType = av1OBUSequenceHeader
      let elements := parsed.filter fun e => !isDropped e
      if !ok || elements.isEmpty then (p, out, some .invalidPayload)
      else
        let elements := p.withSequence packet.keyframe sequence elements
        -- every packet takes a byte of the elements at least
        let fuel := (elements.map AV1Element.size).sum
        let out := packetLoop p.budget packet.keyframe payload.payloadType ts fuel elements 0 true out
        (p, out.seal true, none)

end AV1Packetizer

/-- The sequence header of the extradata, av1C or bare OBUs, is cached. -/
def newAV1Packetizer (stream : Stream) (budget : ℕ) (hbudget : minMTU ≤ budget + rtpHeaderSize) :
    AV1Packetizer :=
  let extra := stream.codec.extraData
  let extra := if 4 ≤ extra.length ∧ extra.headD 0 &&& 0x80 ≠ 0 then extra.drop 4 else extra
  (eachElement extra).1.foldl AV1Packetizer.learnIf
    { budget, clock := clockOr stream.codec.clockRate defaultVideoClockRate, budget_min := hbudget,
      seqHeader_type := by simp }

end Goav.Rtpav
