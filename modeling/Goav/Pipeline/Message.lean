import Goav.Av.Types

/-!
The unit that flows between nodes (`pipeline/interfaces.go`), and the kinds of nodes
(`pipeline/topology.go`).
-/

namespace Goav.Pipeline

open Goav.Av

inductive NodeKind where
  | source | stage | sink
  deriving DecidableEq

/-- A packet, a frame or an event; `none` is the nil pointer, which the code checks for. -/
inductive Message where
  | packet (p : Option Packet)
  | frame (f : Option Frame)
  | event (e : Option Event)
  deriving DecidableEq

end Goav.Pipeline
