import Mathlib.Algebra.Group.Int.Defs
import Mathlib.Data.Nat.GCD.Basic
import Mathlib.Data.Int.Order.Basic

/-!
The media types of `av/types.go`. Strings that name one of a closed set of constants are inductive types;
identifiers stay strings.
-/

namespace Goav.Av

/-- The kind of media a stream, packet, or frame carries; `unknown` is the empty string. -/
inductive MediaType where
  | unknown | audio | video | subtitle | data
  deriving DecidableEq

abbrev CodecID := String
abbrev StreamID := String
abbrev Epoch := ℕ
abbrev Bytes := List UInt8

def codecOpus : CodecID := "opus"
def codecVP8 : CodecID := "vp8"
def codecVP9 : CodecID := "vp9"
def codecH264 : CodecID := "h264"
def codecAV1 : CodecID := "av1"

/-! ### Timebases -/

/-- The rational unit `num / den` seconds; the zero value is the unknown timebase. -/
structure TimeBase where
  num : ℤ := 0
  den : ℤ := 0
  deriving DecidableEq

structure Timestamp where
  value : ℤ := 0
  base : TimeBase := {}
  deriving DecidableEq

def TimeBase.valid (b : TimeBase) : Bool := decide (0 < b.num) && decide (0 < b.den)

def maxInt64 : ℕ := 2 ^ 63 - 1
def minInt64 : ℤ := -2 ^ 63

def reducePair (a b : ℕ) : ℕ × ℕ :=
  if Nat.gcd a b ≤ 1 then (a, b) else (a / Nat.gcd a b, b / Nat.gcd a b)

def checkedMul (a b : ℕ) : Option ℕ :=
  if a = 0 ∨ b = 0 then some 0 else if a > maxInt64 / b then none else some (a * b)

def rescaleValue (value : ℤ) (src dst : TimeBase) : Option ℤ :=
  if !src.valid || !dst.valid then none
  else if value = 0 then some 0
  else if value = minInt64 then none
  else
    -- past the two checks the code works on the absolute value, with the sign put back last
    let (a, d) := reducePair value.natAbs src.den.natAbs
    let (a, e) := reducePair a dst.num.natAbs
    let (b, d) := reducePair src.num.natAbs d
    let (b, e) := reducePair b e
    let (c, d) := reducePair dst.den.natAbs d
    let (c, e) := reducePair c e
    match checkedMul a b with
    | none => none
    | some ab =>
      match checkedMul ab c with
      | none => none
      | some n => some (if value < 0 then -((n / d / e : ℕ) : ℤ) else ((n / d / e : ℕ) : ℤ))

lemma checkedMul_le {a b n : ℕ} (h : checkedMul a b = some n) : n ≤ maxInt64 := by
  unfold checkedMul at h
  split at h
  · cases h
    exact Nat.zero_le _
  · split at h
    · simp at h
    · rename_i hab hle
      cases h
      exact (Nat.le_div_iff_mul_le (by omega)).mp (not_lt.mp hle)

lemma signed_range {q : ℕ} (h : q ≤ maxInt64) :
    (minInt64 < -(q : ℤ) ∧ -(q : ℤ) ≤ maxInt64) ∧ minInt64 < (q : ℤ) ∧ (q : ℤ) ≤ maxInt64 := by
  unfold minInt64 maxInt64 at *
  omega

theorem rescaleValue_range {value v : ℤ} {src dst : TimeBase}
    (h : rescaleValue value src dst = some v) : minInt64 < v ∧ v ≤ maxInt64 := by
  unfold rescaleValue at h
  split at h
  · simp at h
  split at h
  · cases h
    decide
  split at h
  · simp at h
  dsimp only at h
  split at h
  · simp at h
  split at h
  · simp at h
  rename_i n hn
  cases h
  have hquot : ∀ d e, n / d / e ≤ maxInt64 := fun d e =>
    Nat.le_trans (Nat.div_le_self _ e) (Nat.le_trans (Nat.div_le_self n d) (checkedMul_le hn))
  split
  · exact (signed_range (hquot _ _)).1
  · exact (signed_range (hquot _ _)).2

structure Duration where
  value : ℤ := 0
  base : TimeBase := {}
  deriving DecidableEq

def TimeBase.toDuration (b : TimeBase) (value : ℤ) : Option ℤ :=
  rescaleValue value b { num := 1, den := 1000000000 }

def Timestamp.toDuration (t : Timestamp) : Option ℤ := t.base.toDuration t.value

def Duration.toDuration (d : Duration) : Option ℤ := d.base.toDuration d.value

def rtpTimeBase (clockRate : UInt32) : TimeBase :=
  if clockRate = 0 then {} else { num := 1, den := clockRate.toNat }

def rtpToTimestamp (value clockRate : UInt32) : Timestamp :=
  { value := value.toNat, base := rtpTimeBase clockRate }

/-! ### Streams, events, packets, frames -/

/-- The codec-level facts of a stream that the RTP packages read. -/
structure CodecParameters where
  id : CodecID := ""
  type : MediaType := .unknown
  clockRate : UInt32 := 0
  width : ℤ := 0
  height : ℤ := 0
  extraData : Bytes := []
  deriving DecidableEq

structure Stream where
  id : StreamID := ""
  type : MediaType := .unknown
  codec : CodecParameters := {}
  timeBase : TimeBase := {}
  epoch : Epoch := 0
  deriving DecidableEq

/-- The event types the modelled code tells apart; every other one is `other`. -/
inductive EventType where
  | packetLoss | discontinuity | codecChanged | keyframeRequired | taskReady | endOfStream
  | other (name : String)
  deriving DecidableEq

structure Event where
  type : EventType
  streamID : StreamID := ""
  epoch : Epoch := 0
  stream : Option Stream := none
  codec : Option CodecParameters := none
  reason : String := ""
  deriving DecidableEq

structure Packet where
  streamID : StreamID := ""
  type : MediaType := .unknown
  codecEpoch : Epoch := 0
  payload : Bytes := []
  pts : Timestamp := {}
  dts : Timestamp := {}
  keyframe : Bool := false
  discontinuous : Bool := false
  lossBefore : Bool := false
  metadataType : MediaType := .unknown
  deriving DecidableEq

structure VideoFrame where
  width : ℤ := 0
  height : ℤ := 0
  pixelFormat : String := ""
  deriving DecidableEq

structure AudioFrame where
  sampleRate : ℤ := 0
  channels : ℤ := 0
  channelLayout : String := ""
  sampleFormat : String := ""
  samples : ℤ := 0
  deriving DecidableEq

structure Frame where
  streamID : StreamID := ""
  type : MediaType := .unknown
  pts : Timestamp := {}
  duration : Duration := {}
  video : Option VideoFrame := none
  audio : Option AudioFrame := none
  deriving DecidableEq

end Goav.Av
