import Goav.Rtpav.Packetize

/-!
The data path of `rtpav/send.go`. A history has a slot for every sequence number modulo its size. Calls
are modelled one after the other, and the sender reports are left out.
-/

namespace Goav.Rtpav

open Goav.Av

/-- What the transport was given, and its answers from now on. -/
structure Writer where
  written : List Packet := []
  answers : List (Option Err) := []
  deriving Inhabited

def Writer.writeRTP (w : Writer) (packet : Packet) : Writer × Option Err :=
  ({ written := w.written ++ [packet], answers := w.answers.tail }, w.answers.headD none)

inductive SlotState where
  | empty | writing | ready | reading
  deriving DecidableEq

structure SentPacket where
  state : SlotState := .empty
  packet : Packet := {}

structure SendStream (P : Type) where
  id : StreamID := ""
  packetizer : P
  payload : PayloadCodec := {}
  ssrc : UInt32 := 0
  seq : UInt16 := 0
  offset : UInt32 := 0
  history : List SentPacket := []
  packets : UInt32 := 0
  octets : UInt32 := 0

def withHistory (packets : ℤ) : ℕ := (max packets 0).toNat

def newHistory (slots : ℕ) : List SentPacket := List.replicate slots {}

namespace SendStream

variable {P : Type} (s : SendStream P)

def slotIndex (seq : UInt16) : ℕ := seq.toNat % s.history.length

variable (packet : Packet)

def remember : SendStream P :=
  if s.history.length = 0 then s
  else
    let i := s.slotIndex packet.sequenceNumber
    let slot := s.history.getD i {}
    if slot.state = .ready ∨ slot.state = .empty then
      { s with history :=
          s.history.set i { state := .ready, packet := { packet with extensions := [] } } }
    else s

def resend (w : Writer) (seq : UInt16) : Writer :=
  let slot := s.history.getD (s.slotIndex seq) {}
  if slot.state ≠ .ready then w
  else if slot.packet.sequenceNumber = seq then (w.writeRTP slot.packet).1
  else w

/-- The packet as it is sent: under the stream's SSRC, next sequence number and time offset. -/
def stamp : Packet :=
  { packet with
    ssrc := s.ssrc
    sequenceNumber := s.seq
    timestamp := packet.timestamp + s.offset }

def account : SendStream P :=
  { s.remember packet with
    packets := s.packets + 1
    octets := s.octets + UInt32.ofNat packet.payload.length }

def sendPackets : List Packet → SendStream P → Writer →
    SendStream P × Writer × List Packet × Option Err
  | [], s, w => (s, w, [], none)
  | p :: ps, s, w =>
    let packet := s.stamp p
    let s := { s with seq := s.seq + 1 }
    match w.writeRTP packet with
    | (w, some e) => (s, w, [], some e)
    | (w, none) =>
      let (s, w, sent, err) := sendPackets ps (s.account packet) w
      (s, w, packet :: sent, err)

end SendStream

structure Sender (P : Type) where
  streams : List (SendStream P) := []
  writer : Writer := {}

namespace Sender

variable {P : Type} [Packetizer P]

def streamFor (s : Sender P) (id : StreamID) : Option ℕ :=
  match s.streams.findIdx? fun stream => stream.id = id with
  | some i => some i
  | none => if s.streams.length = 1 then some 0 else none

/-- Send one packet's RTP: the sender, the packets sent, and the error. -/
def handle (s : Sender P) (ctx : Ctx) (packet : Option Av.Packet) :
    Sender P × List (ℕ × Packet) × Option Err :=
  match packet with
  | none => (s, [], none)
  | some packet =>
    match s.streamFor packet.streamID with
    | none => (s, [], some .unknownStream)
    | some i =>
      match s.streams[i]? with
      | none => (s, [], some .unknownStream)
      | some stream =>
        let (packetizer, result, err) :=
          Packetizer.packetizeInto stream.packetizer ctx packet stream.payload {}
        let stream := { stream with packetizer }
        match err with
        | some e => ({ s with streams := s.streams.set i stream }, [], some e)
        | none =>
          let (stream, writer, sent, err) := stream.sendPackets result.packets s.writer
          ({ streams := s.streams.set i stream, writer }, sent.map fun q => (i, q), err)

end Sender

end Goav.Rtpav
