import Goav.Av.Types

/-!
The types the RTP packages share: the RTP packet of `github.com/pion/rtp`, the errors of
`rtpav/errors.go`, and the payload mapping. A context is what its `Err` returns: `none` for a live one.
-/

namespace Goav.Rtpav

open Goav.Av

/-- The errors of `errors.go` that the modelled functions return, and a context's own. -/
inductive Err where
  | invalidJitterCapacity | invalidPayload | frameTooLarge | resultFull | noTimestamp
  | packetizerNotFound | unknownStream | context | write
  deriving DecidableEq

abbrev Ctx := Option Err

structure Header where
  version : UInt8 := 0
  marker : Bool := false
  payloadType : UInt8 := 0
  sequenceNumber : UInt16 := 0
  timestamp : UInt32 := 0
  ssrc : UInt32 := 0
  extensions : List (UInt8 × Bytes) := []
  deriving DecidableEq

structure Packet extends Header where
  payload : Bytes := []
  deriving DecidableEq

structure PayloadCodec where
  payloadType : UInt8 := 0
  streamID : StreamID := ""
  parameters : CodecParameters := {}
  clockRate : UInt32 := 0
  deriving DecidableEq

end Goav.Rtpav
