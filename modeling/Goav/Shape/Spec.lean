import Goav.Av.Types

/-!
The shape vocabulary (`shape/shape.go`, `shape/policy.go`): what is known of a stream at a point of a
pipeline, when that satisfies an expectation, and which classes of conversion a difference needs.
-/

namespace Goav.Shape

open Goav.Av

inductive MediaDomain where
  | unset | packet | frame | event
  | other (name : String)
  deriving DecidableEq

/-- The shape of a stream; the zero value of a field leaves it open. -/
structure Spec where
  domain : MediaDomain := .unset
  mediaKind : MediaType := .unknown
  streamID : StreamID := ""
  codec : CodecID := ""
  format : String := ""
  width : ℤ := 0
  height : ℤ := 0
  pixelFormat : String := ""
  sampleRate : ℤ := 0
  channels : ℤ := 0
  sampleFormat : String := ""
  realtime : Bool := false
  deriving DecidableEq

def packet (mediaKind : MediaType) (codec : CodecID) : Spec := { domain := .packet, mediaKind, codec }

def frame (mediaKind : MediaType) : Spec := { domain := .frame, mediaKind }

def Spec.compatibleWith (s expected : Spec) : Bool :=
  decide (expected.domain = .unset ∨ s.domain = expected.domain) &&
  decide (expected.mediaKind = .unknown ∨ s.mediaKind = expected.mediaKind) &&
  decide (expected.streamID = "" ∨ s.streamID = expected.streamID) &&
  decide (expected.codec = "" ∨ s.codec = expected.codec) &&
  decide (expected.format = "" ∨ s.format = expected.format) &&
  decide (expected.width = 0 ∨ s.width = expected.width) &&
  decide (expected.height = 0 ∨ s.height = expected.height) &&
  decide (expected.pixelFormat = "" ∨ s.pixelFormat = expected.pixelFormat) &&
  decide (expected.sampleRate = 0 ∨ s.sampleRate = expected.sampleRate) &&
  decide (expected.channels = 0 ∨ s.channels = expected.channels) &&
  decide (expected.sampleFormat = "" ∨ s.sampleFormat = expected.sampleFormat) &&
  (!expected.realtime || s.realtime)

/-- Acceptable shapes; an empty set accepts every shape. -/
abbrev ShapeSet := List Spec

def accepts (set : ShapeSet) (actual : Spec) : Bool :=
  set.isEmpty || set.any actual.compatibleWith

def overlay {α : Type} [DecidableEq α] (zero base next : α) : α := if next = zero then base else next

def merge (base next : Spec) : Spec :=
  { domain := overlay .unset base.domain next.domain
    mediaKind := overlay .unknown base.mediaKind next.mediaKind
    streamID := overlay "" base.streamID next.streamID
    codec := overlay "" base.codec next.codec
    format := overlay "" base.format next.format
    width := overlay 0 base.width next.width
    height := overlay 0 base.height next.height
    pixelFormat := overlay "" base.pixelFormat next.pixelFormat
    sampleRate := overlay 0 base.sampleRate next.sampleRate
    channels := overlay 0 base.channels next.channels
    sampleFormat := overlay "" base.sampleFormat next.sampleFormat
    realtime := base.realtime || next.realtime }

/-! ### Policies -/

structure Policy where
  resample : Bool := false
  resize : Bool := false
  convert : Bool := false
  custom : List String := []

def isSpace (c : Char) : Bool :=
  c.toNat ∈ [0x09, 0x0a, 0x0b, 0x0c, 0x0d, 0x20, 0x85, 0xa0, 0x1680, 0x2028, 0x2029, 0x202f, 0x205f,
    0x3000] || (0x2000 ≤ c.toNat && c.toNat ≤ 0x200a)

def trimSpace (s : String) : String :=
  String.ofList ((s.toList.dropWhile isSpace).reverse.dropWhile isSpace).reverse

def normalizedCustomPolicyNames (names : List String) : List String :=
  ((names.map trimSpace).filter (· ≠ "")).eraseDups.mergeSort fun a b => a ≤ b

def mergeCustomPolicyNames (a b : List String) : List String :=
  if a.isEmpty then normalizedCustomPolicyNames b
  else if b.isEmpty then normalizedCustomPolicyNames a
  else normalizedCustomPolicyNames (a ++ b)

namespace Policy

def union (p other : Policy) : Policy :=
  { resample := p.resample || other.resample
    resize := p.resize || other.resize
    convert := p.convert || other.convert
    custom := mergeCustomPolicyNames p.custom other.custom }

def empty (p : Policy) : Bool := !p.resample && !p.resize && !p.convert && p.custom.isEmpty

def covers (p needed : Policy) : Bool :=
  (!needed.resample || p.resample) && (!needed.resize || p.resize) &&
    (!needed.convert || p.convert) && needed.custom.all p.custom.contains

end Policy

/-- The classes of conversion that make `actual` satisfy the format facts of `expected`. -/
def conversions (actual expected : Spec) : Policy :=
  { resample :=
      decide (expected.sampleRate ≠ 0 ∧ actual.sampleRate ≠ expected.sampleRate) ||
      decide (expected.channels ≠ 0 ∧ actual.channels ≠ expected.channels)
    resize :=
      decide (expected.width ≠ 0 ∧ actual.width ≠ expected.width) ||
      decide (expected.height ≠ 0 ∧ actual.height ≠ expected.height)
    convert :=
      decide (expected.sampleFormat ≠ "" ∧ actual.sampleFormat ≠ expected.sampleFormat) ||
      decide (expected.pixelFormat ≠ "" ∧ actual.pixelFormat ≠ expected.pixelFormat) }

structure Satisfies (actual expected : Spec) : Prop where
  sampleRate : expected.sampleRate = 0 ∨ actual.sampleRate = expected.sampleRate
  channels : expected.channels = 0 ∨ actual.channels = expected.channels
  sampleFormat : expected.sampleFormat = "" ∨ actual.sampleFormat = expected.sampleFormat
  width : expected.width = 0 ∨ actual.width = expected.width
  height : expected.height = 0 ∨ actual.height = expected.height
  pixelFormat : expected.pixelFormat = "" ∨ actual.pixelFormat = expected.pixelFormat

theorem conversions_empty_iff {actual expected : Spec} :
    (conversions actual expected).empty = true ↔ Satisfies actual expected := by
  simp only [conversions, Policy.empty, Bool.and_eq_true, Bool.not_eq_true', Bool.or_eq_false_iff,
    decide_eq_false_iff_not, not_and, not_not, List.isEmpty_nil, and_true,
    ← or_iff_not_imp_left]
  constructor
  · rintro ⟨⟨⟨hrate, hchannels⟩, hwidth, hheight⟩, hsample, hpixel⟩
    exact ⟨hrate, hchannels, hsample, hwidth, hheight, hpixel⟩
  · rintro ⟨hrate, hchannels, hsample, hwidth, hheight, hpixel⟩
    exact ⟨⟨⟨hrate, hchannels⟩, hwidth, hheight⟩, hsample, hpixel⟩

lemma accepts_frame {media : MediaType} {s : Spec} :
    accepts [frame media] s = true ↔ s.domain = .frame ∧ (media = .unknown ∨ s.mediaKind = media) := by
  simp [accepts, frame, Spec.compatibleWith]

end Goav.Shape
