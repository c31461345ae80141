import Mathlib.Data.List.DropRight
import Goav.Rtpav.Packetize
import Goav.Rtpav.VideoDefs

/-!
H264 over RTP, from `rtpav/h264.go`. A callback that is run on every NAL unit is the list of the units.
The packetizer's `nalus` and `pending` are local to the call that fills them; its other fields carry what
every reachable packetizer satisfies.
-/

namespace Goav.Rtpav

open Goav.Av

def h264NALUTypeMask : UInt8 := 0x1f
def h264NALUNRIMask : UInt8 := 0x60
def h264NALUIDR : UInt8 := 5
def h264NALUSPS : UInt8 := 7
def h264NALUPPS : UInt8 := 8
def h264NALUAUD : UInt8 := 9
def h264NALUFiller : UInt8 := 12
def h264NALUSTAPA : UInt8 := 24
def h264NALUFUA : UInt8 := 28
def h264FUStartMask : UInt8 := 0x80
def h264FUEndMask : UInt8 := 0x40

def h264ForbiddenMask : UInt8 := 0x80

def naluType (header : UInt8) : UInt8 := header &&& h264NALUTypeMask

def bigEndian16 (hi lo : UInt8) : ℕ := hi.toNat * 256 + lo.toNat

/-! ### The depacketizer -/

structure H264Depacketizer where
  assembler : VideoFrameAssembler
  keyframe : Bool := false
  fragment : Bool := false

def newH264Depacketizer (stream : Stream) (options : List VideoDepacketizerOption) :
    H264Depacketizer :=
  { assembler := newVideoFrameAssembler stream codecH264 options }

def h264StartsNALU (payload : Bytes) : Bool :=
  match payload with
  | [] => false
  | header :: rest =>
    if naluType header = h264NALUFUA then
      match rest with
      | [] => false
      | fu :: _ => fu &&& h264FUStartMask != 0
    else decide (0 < naluType header) && decide (naluType header ≤ h264NALUSTAPA)

def stapaHasIDR : ℕ → Bytes → Bool
  | 0, _ => false
  | fuel + 1, hi :: lo :: rest =>
    let size := bigEndian16 hi lo
    if size = 0 then stapaHasIDR fuel rest
    else if rest.length < size then false
    else if rest.head?.any fun b => naluType b = h264NALUIDR then true
    else stapaHasIDR fuel (rest.drop size)
  | _ + 1, _ => false

def h264HasIDR (payload : Bytes) : Bool :=
  match payload with
  | [] => false
  | header :: rest =>
    if naluType header = h264NALUIDR then true
    else if naluType header = h264NALUSTAPA then stapaHasIDR rest.length rest
    else if naluType header = h264NALUFUA then
      match rest with
      | [] => false
      | fu :: _ => fu &&& h264FUStartMask != 0 && naluType fu == h264NALUIDR
    else false

namespace H264Depacketizer

def andThen (r : H264Depacketizer × Option Err)
    (next : H264Depacketizer → H264Depacketizer × Option Err) : H264Depacketizer × Option Err :=
  match r with
  | (d, some e) => (d, some e)
  | (d, none) => next d

variable (d : H264Depacketizer) (payload : Bytes)

def appendRaw : H264Depacketizer × Option Err :=
  if d.assembler.bufferCap < d.assembler.buffer.length + payload.length then
    (d, some .frameTooLarge)
  else
    ({ d with assembler := { d.assembler with buffer := d.assembler.buffer ++ payload } }, none)

def appendStartCode : H264Depacketizer × Option Err :=
  d.appendRaw [0, 0, 0, 1]

def appendByte (value : UInt8) : H264Depacketizer × Option Err :=
  d.appendRaw [value]

def appendNALU (nalu : Bytes) : H264Depacketizer × Option Err :=
  match nalu with
  | [] => (d, none)
  | header :: _ =>
    let d := if naluType header = h264NALUIDR then { d with keyframe := true } else d
    andThen d.appendStartCode fun d => d.appendRaw nalu

def appendSTAPALoop : ℕ → H264Depacketizer → Bytes → H264Depacketizer × Option Err
  | _, d, [] => (d, none)
  | fuel + 1, d, hi :: lo :: rest =>
    let size := bigEndian16 hi lo
    if size = 0 then appendSTAPALoop fuel d rest
    else if rest.length < size then (d, some .invalidPayload)
    else andThen (d.appendNALU (rest.take size)) fun d => appendSTAPALoop fuel d (rest.drop size)
  | _, d, _ => (d, some .invalidPayload)

def appendSTAPA : H264Depacketizer × Option Err :=
  appendSTAPALoop payload.length d (payload.drop 1)

def appendFUA : H264Depacketizer × Option Err :=
  match payload with
  | indicator :: header :: data =>
    let start := header &&& h264FUStartMask != 0
    let last := header &&& h264FUEndMask != 0
    let naluHeader := (indicator &&& h264NALUNRIMask) ||| (header &&& h264NALUTypeMask)
    if start then
      let d := { d with fragment := !last }
      let d := if naluType naluHeader = h264NALUIDR then { d with keyframe := true } else d
      andThen d.appendStartCode fun d => andThen (d.appendByte naluHeader) fun d =>
        d.appendRaw data
    else if !d.fragment then (d, some .invalidPayload)
    else andThen (d.appendRaw data) fun d => (if last then { d with fragment := false } else d, none)
  | _ => (d, some .invalidPayload)

def appendPayload : H264Depacketizer × Option Err :=
  match payload with
  | [] => (d, some .invalidPayload)
  | header :: _ =>
    let type := naluType header
    if 0 < type ∧ type < h264NALUSTAPA then d.appendNALU payload
    else if type = h264NALUSTAPA then d.appendSTAPA payload
    else if type = h264NALUFUA then d.appendFUA payload
    else (d, some .invalidPayload)

def begin (timestamp : UInt32) : H264Depacketizer :=
  { assembler := { d.assembler with started := true, timestamp := timestamp, buffer := [] } }

/-- The end of `PushInto`: append the payload to the frame, and emit it when it is complete. -/
def assemble (pkt : Packet) (payload : PayloadCodec)
    (out : DepacketizeResult) : H264Depacketizer × DepacketizeResult × Option Err :=
  match d.appendPayload pkt.payload with
  | (d, some e) =>
    (if e = .frameTooLarge then { d with assembler := d.assembler.dropUntilSync } else d, out,
      some e)
  | (d, none) =>
    if !pkt.marker || d.fragment then (d, out, none)
    else
      let a := { d.assembler with started := false }
      if d.assembler.buffer.isEmpty then ({ d with assembler := a }, out, none)
      else
        let (a, out, err) := a.emitPacket pkt.timestamp (payloadClockRate payload a.stream)
          a.buffer d.keyframe out
        ({ d with assembler := a }, out, err)

/-- A packet is dropped: the assembler asks for a sync point, if it has not yet. -/
def dropped (a : VideoFrameAssembler) (out : DepacketizeResult) :
    H264Depacketizer × DepacketizeResult × Option Err :=
  let (a, out, err) := a.emitPendingSync out
  ({ assembler := a }, out, err)

def pushInto (ctx : Ctx) (pkt : Packet) (payload : PayloadCodec)
    (out : DepacketizeResult) : H264Depacketizer × DepacketizeResult × Option Err :=
  match ctx with
  | some e => (d, out, some e)
  | none =>
    if pkt.payload.isEmpty then (d, out, some .invalidPayload)
    else
      let start := h264StartsNALU pkt.payload
      let sync := start && h264HasIDR pkt.payload
      if d.assembler.dropping then
        if !sync then dropped ({ d.assembler with requestSync := true }).resetPartial out
        else
          let d := d.begin pkt.timestamp
          ({ d with assembler :=
              { d.assembler with dropping := false, requestSync := false } }).assemble
            pkt payload out
      else if !d.assembler.started then
        if !start then dropped d.assembler.dropUntilSync out
        else (d.begin pkt.timestamp).assemble pkt payload out
      else if pkt.timestamp != d.assembler.timestamp then dropped d.assembler.dropUntilSync out
      else d.assemble pkt payload out

def handleEvent (d : H264Depacketizer) (ctx : Ctx) (event : Option Event) :
    H264Depacketizer × Option Err :=
  let affected := event.any fun e => eventAffectsCodecStream d.assembler.stream codecH264 e
  match d.assembler.handleEvent ctx event with
  | (a, some e) => ({ d with assembler := a }, some e)
  | (a, none) =>
    match event with
    | none => ({ d with assembler := a }, none)
    | some e =>
      let resets := match e.type with
        | .packetLoss | .discontinuity | .codecChanged => affected
        | _ => false
      (if resets then { assembler := a } else { d with assembler := a }, none)

end H264Depacketizer

/-! ### The NAL units of an Annex B byte string -/

def indexStartCode3 : Bytes → Option ℕ
  | [] => none
  | b :: rest =>
    if [0, 0, 1].isPrefixOf (b :: rest) then some 0 else (indexStartCode3 rest).map (· + 1)

variable (data : Bytes)

def h264StartCode (offset : ℕ) : Option (ℕ × ℕ) :=
  if data.length ≤ offset then none
  else
    match indexStartCode3 (data.drop offset) with
    | none => none
    | some i =>
      let i := i + offset
      if offset < i ∧ data[i - 1]? = some 0 then some (i - 1, 4) else some (i, 3)

def h264TrimZeros : Bytes := data.rdropWhile (· == 0)

def naluBetween (start stop : ℕ) : List Bytes :=
  let nalu := h264TrimZeros ((data.take stop).drop start)
  if nalu.isEmpty then [] else [nalu]

def h264NALUsFrom (data : Bytes) : ℕ → ℕ → ℕ → List Bytes
  | 0, _, _ => []
  | fuel + 1, start, width =>
    if data.length ≤ start then []
    else
      let first := start + width
      let next := (h264StartCode data first).getD (data.length, 0)
      naluBetween data first next.1 ++ h264NALUsFrom data fuel next.1 next.2

def h264EachNALU : List Bytes :=
  let next := (h264StartCode data 0).getD (data.length, 0)
  naluBetween data 0 next.1 ++ h264NALUsFrom data data.length next.1 next.2

/-! ### The packetizer -/

def typeOf (nalu : Bytes) : UInt8 := naluType (nalu.headD 0)

/-- The budget is at least what the smallest MTU leaves, and what is cached is a parameter set. -/
structure H264Packetizer where
  budget : ℕ
  clock : UInt32
  sps : Bytes := []
  pps : Bytes := []
  budget_min : minMTU ≤ budget + rtpHeaderSize
  sps_type : sps ≠ [] → typeOf sps = h264NALUSPS
  pps_type : pps ≠ [] → typeOf pps = h264NALUPPS

namespace H264Packetizer

variable (p : H264Packetizer)

def learn (nalu : Bytes) : H264Packetizer :=
  if h : typeOf nalu = h264NALUSPS then { p with sps := nalu, sps_type := fun _ => h }
  else if h : typeOf nalu = h264NALUPPS then { p with pps := nalu, pps_type := fun _ => h }
  else p

def readSets : ℕ → H264Packetizer → Bytes → H264Packetizer × Bytes × Bool
  | 0, p, rest => (p, rest, true)
  | count + 1, p, hi :: lo :: rest =>
    let size := bigEndian16 hi lo
    if size = 0 ∨ rest.length < size then (p, rest, false)
    else readSets count (p.learn (rest.take size)) (rest.drop size)
  | _ + 1, p, rest => (p, rest, false)

def learnAVCC (record : Bytes) : H264Packetizer :=
  if record.length < 6 then p
  else
    match record.drop 5 with
    | [] => p
    | count :: rest =>
      match readSets (count &&& 0x1f).toNat p rest with
      | (p, count :: rest, true) => (readSets count.toNat p rest).1
      | (p, _, _) => p

structure Scan where
  packetizer : H264Packetizer
  nalus : List Bytes := []
  idr : Bool := false
  sps : Bool := false
  pps : Bool := false
  invalid : Bool := false

def scanNALU (s : Scan) (nalu : Bytes) : Scan :=
  let type := typeOf nalu
  if nalu.headD 0 &&& h264ForbiddenMask ≠ 0 ∨ type = 0 ∨ h264NALUSTAPA ≤ type then
    { s with invalid := true }
  else if type = h264NALUAUD ∨ type = h264NALUFiller then s
  else
    { s with
      idr := s.idr || type = h264NALUIDR
      sps := s.sps || type = h264NALUSPS
      pps := s.pps || type = h264NALUPPS
      packetizer := s.packetizer.learn nalu
      nalus := s.nalus ++ [nalu] }

def withParameterSets (nalus : List Bytes) (i : ℕ) (sps pps : Bool) :
    List Bytes :=
  nalus.take i ++ (if sps ∧ p.sps ≠ [] then [p.sps] else []) ++
    (if pps ∧ p.pps ≠ [] then [p.pps] else []) ++ nalus.drop i

def behindSPS (nalus : List Bytes) : ℕ :=
  nalus.zipIdx.foldl (fun at' nalu => if typeOf nalu.1 = h264NALUSPS then nalu.2 + 1 else at') 0

def h264AggregateSize (pending : List Bytes) (next : Bytes) : ℕ :=
  pending.foldl (fun size nalu => size + (2 + nalu.length)) (1 + 2 + next.length)

def flush (pending : List Bytes) (payloadType : UInt8) (ts : UInt32) (out : PacketizeResult) :
    PacketizeResult :=
  match pending with
  | [] => out
  | [nalu] => out.emit payloadType ts nalu
  | _ =>
    let f := pending.foldl (fun f nalu => f ||| (nalu.headD 0 &&& h264ForbiddenMask)) 0
    let nri := pending.foldl (fun nri nalu => max nri (nalu.headD 0 &&& h264NALUNRIMask)) 0
    let out := (out.open payloadType ts).write [f ||| nri ||| h264NALUSTAPA]
    let out := pending.foldl (fun out nalu =>
      (out.write [UInt8.ofNat (nalu.length >>> 8), UInt8.ofNat nalu.length]).write nalu) out
    out.close

def fragmentLoop (indicator nalType : UInt8) (data : Bytes) (chunk : ℕ) (payloadType : UInt8)
    (ts : UInt32) : ℕ → ℕ → PacketizeResult → PacketizeResult
  | 0, _, out => out
  | fuel + 1, offset, out =>
    if data.length ≤ offset then out
    else
      let header := if offset = 0 then nalType ||| h264FUStartMask else nalType
      let stop := min (offset + chunk) data.length
      let header := if stop = data.length then header ||| h264FUEndMask else header
      fragmentLoop indicator nalType data chunk payloadType ts fuel (offset + chunk)
        (out.emit payloadType ts ([indicator, header] ++ (data.take stop).drop offset))

def fragment (payloadType : UInt8) (ts : UInt32) (nalu : Bytes) (out : PacketizeResult) : PacketizeResult :=
  let indicator := (nalu.headD 0 &&& (h264ForbiddenMask ||| h264NALUNRIMask)) ||| h264NALUFUA
  let data := nalu.drop 1
  fragmentLoop indicator (typeOf nalu) data (evenChunk data.length (p.budget - 2)) payloadType ts
    data.length 0 out

def sendNALU (payloadType : UInt8) (ts : UInt32)
    (s : List Bytes × PacketizeResult) (nalu : Bytes) : List Bytes × PacketizeResult :=
  if p.budget < nalu.length then
    ([], p.fragment payloadType ts nalu (flush s.1 payloadType ts s.2))
  else if p.budget < h264AggregateSize s.1 nalu then ([nalu], flush s.1 payloadType ts s.2)
  else (s.1 ++ [nalu], s.2)

def packetizeInto (ctx : Ctx) (packet : Av.Packet) (payload : PayloadCodec)
    (out : PacketizeResult) : H264Packetizer × PacketizeResult × Option Err :=
  match ctx with
  | some e => (p, out, some e)
  | none =>
    match rtpTimestamp packet payload p.clock with
    | .error e => (p, out, some e)
    | .ok ts =>
      let s := (h264EachNALU packet.payload).foldl scanNALU { packetizer := p }
      if s.invalid || s.nalus.isEmpty then (s.packetizer, out, some .invalidPayload)
      else
        let nalus :=
          if s.idr && (!s.sps || !s.pps) then
            s.packetizer.withParameterSets s.nalus (if s.sps then behindSPS s.nalus else 0) (!s.sps) (!s.pps)
          else s.nalus
        let (pending, out) := nalus.foldl (s.packetizer.sendNALU payload.payloadType ts) ([], out)
        (s.packetizer, (flush pending payload.payloadType ts out).seal true, none)

end H264Packetizer

/-- The packetizer of a stream: its extradata, avcC or Annex B, seeds the parameter sets. -/
def newH264Packetizer (stream : Stream) (budget : ℕ) (hbudget : minMTU ≤ budget + rtpHeaderSize) :
    H264Packetizer :=
  let p : H264Packetizer :=
    { budget, clock := clockOr stream.codec.clockRate defaultVideoClockRate, budget_min := hbudget,
      sps_type := fun h => absurd rfl h, pps_type := fun h => absurd rfl h }
  let extra := stream.codec.extraData
  if extra.head? = some 1 then p.learnAVCC extra
  else (h264EachNALU extra).foldl H264Packetizer.learn p

end Goav.Rtpav
