import Goav.Rtpav.H264RoundTrip

/-!
Access units over a lossy path. A depacketizer that follows an access unit from its first packet on goes
in lockstep with a fresh one fed all of it (`assemble_lockstep`). It leaves that course when it starts a
frame inside an access unit (`Misaligned`).
-/

namespace Goav.Rtpav

open Goav.Av Goav.Lib PacketizeResult List H264Depacketizer

/-! ### Lockstep -/

namespace H264Depacketizer

/-- The depacketizer with all fields of another assembler but the frame buffer. -/
def retag (a : VideoFrameAssembler) (d : H264Depacketizer) : H264Depacketizer :=
  { d with assembler :=
      { a with buffer := d.assembler.buffer, bufferCap := d.assembler.bufferCap } }

def SameContents (d e : H264Depacketizer) : Prop := e = retag e.assembler d

variable (a : VideoFrameAssembler)

lemma retag_andThen (r : H264Depacketizer × Option Err)
    (next : H264Depacketizer → H264Depacketizer × Option Err)
    (h : ∀ d, next (retag a d) = (retag a (next d).1, (next d).2)) :
    andThen (retag a r.1, r.2) next = (retag a (andThen r next).1, (andThen r next).2) := by
  obtain ⟨d, err | e⟩ := r
  · exact h d
  · rfl

variable (d : H264Depacketizer)

lemma retag_appendRaw (b : Bytes) :
    (retag a d).appendRaw b = (retag a (d.appendRaw b).1, (d.appendRaw b).2) := by
  unfold appendRaw
  by_cases h : d.assembler.bufferCap < d.assembler.buffer.length + b.length
  · rw [if_pos h, if_pos (by exact h)]
  · rw [if_neg h, if_neg (by exact h)]
    rfl

lemma retag_appendNALU (u : Bytes) :
    (retag a d).appendNALU u = (retag a (d.appendNALU u).1, (d.appendNALU u).2) := by
  cases u with
  | nil => rfl
  | cons b t =>
    simp only [appendNALU, appendStartCode]
    have hkey : (if naluType b = h264NALUIDR then { retag a d with keyframe := true }
        else retag a d) =
        retag a (if naluType b = h264NALUIDR then { d with keyframe := true } else d) := by
      split <;> rfl
    rw [hkey, retag_appendRaw, retag_andThen _ _ _ fun d => retag_appendRaw a d _]

lemma retag_appendSTAPALoop (fuel : ℕ) (d : H264Depacketizer) (rest : Bytes) :
    appendSTAPALoop fuel (retag a d) rest =
      (retag a (appendSTAPALoop fuel d rest).1, (appendSTAPALoop fuel d rest).2) := by
  induction fuel generalizing d rest with
  | zero => cases rest <;> simp [appendSTAPALoop]
  | succ fuel ih =>
    rcases rest with _ | ⟨hi, _ | ⟨lo, rest⟩⟩
    · rfl
    · rfl
    · simp only [appendSTAPALoop]
      split
      · exact ih d rest
      split
      · rfl
      · rw [retag_appendNALU, retag_andThen _ _ _ fun d => ih d _]

lemma retag_appendFUA (payload : Bytes) :
    (retag a d).appendFUA payload = (retag a (d.appendFUA payload).1, (d.appendFUA payload).2) := by
  match payload with
  | [] | [_] => rfl
  | indicator :: header :: data =>
    simp only [appendFUA]
    split
    · generalize hheader : (indicator &&& h264NALUNRIMask) ||| (header &&& h264NALUTypeMask) = h
      have hkey : ∀ f : Bool, (if naluType h = h264NALUIDR then
          { retag a d with fragment := f, keyframe := true } else { retag a d with fragment := f }) =
          retag a (if naluType h = h264NALUIDR then { d with fragment := f, keyframe := true }
            else { d with fragment := f }) := fun f => by split <;> rfl
      rw [hkey, appendStartCode, retag_appendRaw, retag_andThen]
      · rfl
      · intro d
        rw [appendByte, retag_appendRaw, retag_andThen _ _ _ fun d => retag_appendRaw a d _]
        rfl
    · rw [show (retag a d).fragment = d.fragment from rfl]
      split
      · rfl
      · rw [retag_appendRaw, retag_andThen]
        intro d
        split <;> rfl

lemma retag_appendPayload (payload : Bytes) :
    (retag a d).appendPayload payload =
      (retag a (d.appendPayload payload).1, (d.appendPayload payload).2) := by
  cases payload with
  | nil => rfl
  | cons b t =>
    simp only [appendPayload]
    split
    · exact retag_appendNALU a d _
    split
    · exact retag_appendSTAPALoop a _ d _
    split
    · exact retag_appendFUA a d _
    · rfl

variable {d e : H264Depacketizer}

lemma SameContents.begin {d₀ : H264Depacketizer} {ts : UInt32} (h : SameContents d₀ (d.begin ts))
    (hcap : e.assembler.bufferCap = d.assembler.bufferCap) : SameContents d₀ (e.begin ts) := by
  have hbuf : ([] : Bytes) = d₀.assembler.buffer := congrArg (·.assembler.buffer) h
  have hcap' : d.assembler.bufferCap = d₀.assembler.bufferCap :=
    congrArg (·.assembler.bufferCap) h
  have hkey : false = d₀.keyframe := congrArg (·.keyframe) h
  have hfrag : false = d₀.fragment := congrArg (·.fragment) h
  simp [SameContents, retag, H264Depacketizer.begin, ← hbuf, ← hcap', ← hkey, ← hfrag, hcap]

lemma SameContents.appendPayload (h : SameContents d e) (b : Bytes) :
    (e.appendPayload b).2 = (d.appendPayload b).2 ∧
      SameContents (d.appendPayload b).1 (e.appendPayload b).1 := by
  have heq : e.appendPayload b = (retag e.assembler (d.appendPayload b).1, (d.appendPayload b).2) := by
    conv_lhs => rw [h]
    exact retag_appendPayload e.assembler d b
  rw [heq]
  exact ⟨rfl, rfl⟩

variable {pkt : Packet}

/-- Two depacketizers with the same contents emit the same bytes, and go on in lockstep. -/
lemma assemble_lockstep (payload : PayloadCodec) (out : DepacketizeResult)
    (hd : d.InFrame pkt.timestamp) (he : e.InFrame pkt.timestamp) (h : SameContents d e) :
    ((e.assemble pkt payload out).2.1.packets.drop out.packets.length).map (·.payload) =
        ((d.assemble pkt payload out).2.1.packets.drop out.packets.length).map (·.payload) ∧
      ((d.assemble pkt payload out).1.InFrame pkt.timestamp ∧
          (e.assemble pkt payload out).1.InFrame pkt.timestamp ∧
          SameContents (d.assemble pkt payload out).1 (e.assemble pkt payload out).1 ∨
        (d.assemble pkt payload out).1.assembler.dropping = true ∨ pkt.marker = true) := by
  obtain ⟨herr, hsame⟩ := h.appendPayload pkt.payload
  have hd' := hd.of_sameFrame (sameFrame_appendPayload d pkt.payload)
  have he' := he.of_sameFrame (sameFrame_appendPayload e pkt.payload)
  unfold assemble
  generalize d.appendPayload pkt.payload = r at herr hsame hd' ⊢
  generalize e.appendPayload pkt.payload = r' at herr hsame he' ⊢
  obtain ⟨d', err⟩ := r
  obtain ⟨e', err'⟩ := r'
  obtain rfl : err' = err := herr
  have hbuf : e'.assembler.buffer = d'.assembler.buffer := congrArg (·.assembler.buffer) hsame
  have hfrag : e'.fragment = d'.fragment := congrArg (·.fragment) hsame
  cases err' with
  | some x =>
    refine ⟨rfl, ?_⟩
    by_cases hx : x = .frameTooLarge
    · simp only [hx]
      exact .inr (.inl rfl)
    · simp only [if_neg hx]
      exact .inl ⟨hd', he', hsame⟩
  | none =>
    simp only [hfrag, hbuf]
    by_cases hmore : (!pkt.marker || d'.fragment) = true
    · rw [if_pos hmore, if_pos hmore]
      exact ⟨rfl, .inl ⟨hd', he', hsame⟩⟩
    · rw [if_neg hmore]
      have hmarked : pkt.marker = true := by
        by_contra hc
        simp [hc] at hmore
      refine ⟨?_, .inr (.inr hmarked)⟩
      split
      · rfl
      · simp only [VideoFrameAssembler.emitPacket]
        split <;> simp

/-! ### One push -/

def syncs (pkt : Packet) : Bool := h264StartsNALU pkt.payload && h264HasIDR pkt.payload

/-- What a push of a packet can do: drop it, begin a frame at it, or go on with the frame. -/
inductive Pushed (d : H264Depacketizer) (pkt : Packet) (payload : PayloadCodec)
    (out : DepacketizeResult) : H264Depacketizer × DepacketizeResult × Option Err → Prop
  | dropped {r : H264Depacketizer × DepacketizeResult × Option Err}
      (dropping : r.1.assembler.dropping = true)
      (bufferCap : r.1.assembler.bufferCap = d.assembler.bufferCap)
      (packets : r.2.1.packets = out.packets) : Pushed d pkt payload out r
  | begins {d₀ : H264Depacketizer} (starts : h264StartsNALU pkt.payload = true)
      (idle : d.assembler.dropping = true ∨ d.assembler.started = false)
      (resyncs : d.assembler.dropping = true → syncs pkt = true)
      (inFrame : d₀.InFrame pkt.timestamp)
      (contents : SameContents d₀ (d.begin pkt.timestamp)) :
      Pushed d pkt payload out (d₀.assemble pkt payload out)
  | continues (inFrame : d.InFrame pkt.timestamp) :
      Pushed d pkt payload out (d.assemble pkt payload out)

lemma dropped_spec (out : DepacketizeResult) :
    (dropped a out).1.assembler.dropping = a.dropping ∧
      (dropped a out).1.assembler.bufferCap = a.bufferCap ∧
      (dropped a out).2.1.packets = out.packets := by
  by_cases hs : a.requestSync = true <;> by_cases hf : out.events.length = out.eventsCap <;>
    simp [dropped, VideoFrameAssembler.emitPendingSync, hs, hf]

lemma pushInto_pushed (d : H264Depacketizer) (payload : PayloadCodec)
    (out : DepacketizeResult) (hne : pkt.payload ≠ []) :
    Pushed d pkt payload out (d.pushInto none pkt payload out) := by
  have hempty : pkt.payload.isEmpty = false := by simpa using hne
  simp only [pushInto, hempty, Bool.false_eq_true, if_false]
  by_cases hdrop : d.assembler.dropping = true
  · rw [if_pos hdrop]
    split
    · obtain ⟨h₁, h₂, h₃⟩ := dropped_spec
        ({ d.assembler with requestSync := true } : VideoFrameAssembler).resetPartial out
      exact .dropped (h₁.trans hdrop) h₂ h₃
    · rename_i hsync
      have hs : (h264StartsNALU pkt.payload && h264HasIDR pkt.payload) = true := by simpa using hsync
      exact .begins (Bool.and_eq_true_iff.mp hs).1 (.inl hdrop) (fun _ => hs) ⟨rfl, rfl, rfl⟩ rfl
  · rw [if_neg hdrop]
    have hdrops : Pushed d pkt payload out (dropped d.assembler.dropUntilSync out) := by
      obtain ⟨h₁, h₂, h₃⟩ := dropped_spec d.assembler.dropUntilSync out
      exact .dropped h₁ h₂ h₃
    have hlive : d.assembler.dropping = false := by simpa using hdrop
    split
    · rename_i hidle
      split
      · exact hdrops
      · rename_i hstart
        exact .begins (by simpa using hstart) (.inr (by simpa using hidle))
          (fun h => absurd h hdrop) ⟨rfl, hlive, rfl⟩ rfl
    · rename_i hstarted
      split
      · exact hdrops
      · rename_i hts
        have hts : pkt.timestamp = d.assembler.timestamp := by simpa using hts
        exact .continues ⟨by simpa using hstarted, hlive, hts.symm⟩

lemma assemble_bufferCap (d : H264Depacketizer) (pkt : Packet) (payload : PayloadCodec)
    (out : DepacketizeResult) :
    (d.assemble pkt payload out).1.assembler.bufferCap = d.assembler.bufferCap := by
  have hsame := sameFrame_appendPayload d pkt.payload
  unfold assemble
  generalize d.appendPayload pkt.payload = r at hsame ⊢
  obtain ⟨d', err | e⟩ := r
  · have hcap : d'.assembler.bufferCap = d.assembler.bufferCap := by
      rw [show d'.assembler = _ from hsame]
    simp only
    split
    · exact hcap
    split
    · exact hcap
    · simp only [VideoFrameAssembler.emitPacket]
      split <;> exact hcap
  · have hcap : d'.assembler.bufferCap = d.assembler.bufferCap := by
      rw [show d'.assembler = _ from hsame]
    simp only
    split <;> exact hcap

lemma Pushed.bufferCap {payload : PayloadCodec} {out : DepacketizeResult}
    {r : H264Depacketizer × DepacketizeResult × Option Err} (h : Pushed d pkt payload out r) :
    r.1.assembler.bufferCap = d.assembler.bufferCap := by
  cases h with
  | dropped _ bufferCap _ => exact bufferCap
  | begins _ _ _ _ contents =>
    rw [assemble_bufferCap]
    exact (congrArg (·.assembler.bufferCap) contents).symm
  | continues _ => exact assemble_bufferCap d pkt payload out

end H264Depacketizer

/-! ### A receiver behind a lossy path -/

/-- A packet that was sent: whether it is the first of its access unit, and whether it arrives. -/
structure Arrival where
  pkt : Packet
  first : Bool
  kept : Bool

def arrivals (unit : List (Packet × Bool)) : List Arrival :=
  unit.zipIdx.map fun x => { pkt := x.1.1, first := x.2 == 0, kept := x.1.2 }

/-- A depacketizer that is told of gaps. -/
structure Receiver where
  depacketizer : H264Depacketizer
  gap : Bool := false

namespace Receiver

variable (payload : PayloadCodec) (out : DepacketizeResult) (r : Receiver)

def ready : H264Depacketizer :=
  if r.gap then
    (r.depacketizer.handleEvent none
      (some { type := .packetLoss, streamID := r.depacketizer.assembler.stream.id })).1
  else r.depacketizer

def step (a : Arrival) : Receiver × List Av.Packet :=
  if a.kept then
    let q := r.ready.push payload out a.pkt
    ({ depacketizer := q.1 }, q.2)
  else ({ r with gap := true }, [])

def after (r : Receiver) (as : List Arrival) : Receiver :=
  Lib.after (fun r a => (r.step payload out a).1) r as

/-- A packet inside an access unit is taken for a sync point, or the first one for a continuation. -/
def Misaligned (a : Arrival) : Prop :=
  a.kept = true ∧
    (a.first = false ∧ r.ready.assembler.dropping = true ∧ H264Depacketizer.syncs a.pkt = true ∨
      a.first = true ∧ r.ready.InFrame a.pkt.timestamp)

instance (r : Receiver) (a : Arrival) : Decidable (r.Misaligned a) :=
  inferInstanceAs (Decidable (_ ∧ _))

lemma ready_dropping {r : Receiver} (h : r.gap = true ∨ r.depacketizer.assembler.dropping = true) :
    r.ready.assembler.dropping = true := by
  unfold ready
  split
  · simp [handleEvent, VideoFrameAssembler.handleEvent, eventMatchesStream,
      eventAffectsCodecStream, VideoFrameAssembler.markLoss]
  · rename_i hgap
    exact h.resolve_left hgap

lemma ready_bufferCap :
    r.ready.assembler.bufferCap = r.depacketizer.assembler.bufferCap := by
  unfold ready
  split
  · simp [handleEvent, VideoFrameAssembler.handleEvent, eventMatchesStream,
      eventAffectsCodecStream, VideoFrameAssembler.markLoss, VideoFrameAssembler.resetPartial]
  · rfl

/-- The receiver is in lockstep with a fresh depacketizer, waits for a sync point, or is past the marker.
-/
inductive Tracked (fresh : H264Depacketizer) (cur : List Packet) (r : Receiver) : Prop
  | lockstep (ts : UInt32) (whole : r.gap = false) (inFrame : r.depacketizer.InFrame ts)
      (freshInFrame : (fresh.pushAll payload out cur).1.InFrame ts)
      (contents : H264Depacketizer.SameContents r.depacketizer (fresh.pushAll payload out cur).1)
  | waiting (lost : r.gap = true ∨ r.depacketizer.assembler.dropping = true)
  | complete (last : ∃ p ∈ cur.getLast?, p.marker = true)

/-- The packets emitted are, byte for byte, among those that the fresh depacketizer emits. -/
def Whole (fresh : H264Depacketizer) (cur : List Packet) (qs : List Av.Packet) : Prop :=
  ∀ q ∈ qs, ∃ q' ∈ (fresh.pushAll payload out cur).2, q'.payload = q.payload

variable {payload out} {fresh : H264Depacketizer}

lemma tracked_assemble {d e : H264Depacketizer} (cur : List Packet) {pkt : Packet}
    (hd : d.InFrame pkt.timestamp) (he : e.InFrame pkt.timestamp)
    (hsame : H264Depacketizer.SameContents d e)
    (hpush : (fresh.pushAll payload out cur).1.pushInto none pkt payload out = e.assemble pkt payload out) :
    Tracked payload out fresh (cur ++ [pkt]) { depacketizer := (d.assemble pkt payload out).1 } ∧
      Whole payload out fresh (cur ++ [pkt])
        ((d.assemble pkt payload out).2.1.packets.drop out.packets.length) := by
  have hall : fresh.pushAll payload out (cur ++ [pkt]) = ((e.assemble pkt payload out).1,
      (fresh.pushAll payload out cur).2 ++
        (e.assemble pkt payload out).2.1.packets.drop out.packets.length) := by
    rw [pushAll] at hpush
    rw [pushAll, run_append, run_cons, push, hpush, run_nil, append_nil]
    rfl
  obtain ⟨hemit, hnext⟩ := assemble_lockstep payload out hd he hsame
  refine ⟨?_, fun q hq => ?_⟩
  · rcases hnext with ⟨hd', he', hsame'⟩ | hdrop | hmarked
    · exact .lockstep pkt.timestamp rfl hd' (by rw [hall]; exact he') (by rw [hall]; exact hsame')
    · exact .waiting (.inr hdrop)
    · exact .complete ⟨pkt, by simp, hmarked⟩
  · have hmem : q.payload ∈
        ((d.assemble pkt payload out).2.1.packets.drop out.packets.length).map (·.payload) :=
      mem_map_of_mem hq
    rw [← hemit] at hmem
    obtain ⟨q', hq', heq⟩ := mem_map.mp hmem
    refine ⟨q', ?_, heq⟩
    rw [hall]
    exact mem_append_right _ hq'

variable {a : Arrival}

lemma step_first (hidle : fresh.assembler.started = false)
    (hlive : fresh.assembler.dropping = false) {r : Receiver}
    (hcap : r.depacketizer.assembler.bufferCap = fresh.assembler.bufferCap)
    (hfirst : a.first = true) (hne : a.pkt.payload ≠ []) (ha : ¬ r.Misaligned a) :
    Tracked payload out fresh [a.pkt] (r.step payload out a).1 ∧
      Whole payload out fresh [a.pkt] (r.step payload out a).2 := by
  unfold step
  by_cases hkept : a.kept = true
  · rw [if_pos hkept]
    have hcap' := r.ready_bufferCap.trans hcap
    have hpushed := r.ready.pushInto_pushed payload out hne
    simp only [push]
    generalize r.ready.pushInto none a.pkt payload out = q at hpushed ⊢
    cases hpushed with
    | dropped dropping bufferCap packets =>
      refine ⟨.waiting (.inr dropping), ?_⟩
      rw [packets]
      intro q hq
      simp at hq
    | @begins d₀ starts idle resyncs inFrame contents =>
      have hin : (fresh.begin a.pkt.timestamp).InFrame a.pkt.timestamp := ⟨rfl, hlive, rfl⟩
      refine tracked_assemble [] inFrame hin (contents.begin hcap'.symm) ?_
      rw [← pushInto_of_inFrame payload out hin hne]
      exact pushInto_of_idle payload out hlive hidle starts
    | continues inFrame => exact absurd ⟨hkept, .inr ⟨hfirst, inFrame⟩⟩ ha
  · rw [if_neg hkept]
    exact ⟨.waiting (.inl rfl), by simp [Whole]⟩

lemma step_later {cur : List Packet} {r : Receiver} (h : Tracked payload out fresh cur r)
    (hmark : ∀ p ∈ cur.getLast?, p.marker = false) (hfirst : a.first = false)
    (hne : a.pkt.payload ≠ []) (ha : ¬ r.Misaligned a) :
    Tracked payload out fresh (cur ++ [a.pkt]) (r.step payload out a).1 ∧
      Whole payload out fresh (cur ++ [a.pkt]) (r.step payload out a).2 := by
  unfold step
  by_cases hkept : a.kept = true
  swap
  · rw [if_neg hkept]
    exact ⟨.waiting (.inl rfl), by simp [Whole]⟩
  rw [if_pos hkept]
  simp only [push]
  have hpushed := r.ready.pushInto_pushed payload out hne
  have hdropped : ∀ q : H264Depacketizer × DepacketizeResult × Option Err,
      q.1.assembler.dropping = true → q.2.1.packets = out.packets →
      Tracked payload out fresh (cur ++ [a.pkt]) { depacketizer := q.1 } ∧
        Whole payload out fresh (cur ++ [a.pkt]) (q.2.1.packets.drop out.packets.length) := by
    intro q hdrop hpackets
    refine ⟨.waiting (.inr hdrop), ?_⟩
    rw [hpackets, drop_length]
    intro q hq
    simp at hq
  cases h with
  | lockstep ts whole inFrame freshInFrame contents =>
    have hready : r.ready = r.depacketizer := by simp [ready, whole]
    rw [hready] at hpushed ⊢
    generalize r.depacketizer.pushInto none a.pkt payload out = q at hpushed ⊢
    cases hpushed with
    | dropped dropping bufferCap packets => exact hdropped q dropping packets
    | begins starts idle resyncs _ _ =>
      rcases idle with hdrop | hstop
      · simp [inFrame.live] at hdrop
      · simp [inFrame.started] at hstop
    | continues inFrame' =>
      obtain rfl : a.pkt.timestamp = ts := inFrame'.timestamp.symm.trans inFrame.timestamp
      exact tracked_assemble cur inFrame' freshInFrame contents
        (pushInto_of_inFrame payload out freshInFrame hne)
  | waiting lost =>
    have hdropping := ready_dropping lost
    generalize r.ready.pushInto none a.pkt payload out = q at hpushed ⊢
    cases hpushed with
    | dropped dropping bufferCap packets => exact hdropped q dropping packets
    | begins starts idle resyncs inFrame contents =>
      exact absurd ⟨hkept, .inl ⟨hfirst, hdropping, resyncs hdropping⟩⟩ ha
    | continues inFrame =>
      have := inFrame.live
      simp [hdropping] at this
  | complete last =>
    obtain ⟨p, hp, hm⟩ := last
    simp [hmark p hp] at hm

lemma step_bufferCap (hne : a.pkt.payload ≠ []) :
    (r.step payload out a).1.depacketizer.assembler.bufferCap = r.depacketizer.assembler.bufferCap := by
  unfold step
  split
  · exact (r.ready.pushInto_pushed payload out hne).bufferCap.trans r.ready_bufferCap
  · rfl

lemma Whole.append {cur : List Packet} {qs : List Av.Packet} (h : Whole payload out fresh cur qs)
    (rest : List Packet) : Whole payload out fresh (cur ++ rest) qs := by
  intro q hq
  obtain ⟨q', hq', heq⟩ := h q hq
  refine ⟨q', ?_, heq⟩
  rw [pushAll, run_append]
  exact mem_append_left _ hq'

end Receiver

/-! ### Access units -/

/-- What holds of the packets of an access unit: none is empty, and only the last is marked. -/
structure SentUnit (unit : List Packet) : Prop where
  payload : ∀ p ∈ unit, p.payload ≠ []
  unmarked : ∀ cur p rest, unit = cur ++ p :: rest → rest ≠ [] → p.marker = false

lemma map_pkt_arrivals (unit : List (Packet × Bool)) :
    (arrivals unit).map (·.pkt) = unit.map Prod.fst := by
  unfold arrivals
  rw [map_map]
  conv_rhs => rw [← zipIdx_map_fst 0 unit, map_map]
  rfl

lemma arrivals_first {unit : List (Packet × Bool)} {pre post : List Arrival} {a : Arrival}
    (h : arrivals unit = pre ++ a :: post) : a.first = (pre.length == 0) := by
  have hget : (arrivals unit)[pre.length]? = some a := by
    rw [h]
    simp
  simp only [arrivals, getElem?_map, getElem?_zipIdx, Option.map_map, Option.map_eq_some_iff] at hget
  obtain ⟨x, -, rfl⟩ := hget
  simp

namespace Receiver

variable {payload : PayloadCodec} {out : DepacketizeResult}

/-- A receiver that is nowhere misaligned in an access unit emits nothing of it but the whole. -/
lemma unit_whole {fresh : H264Depacketizer} (hidle : fresh.assembler.started = false)
    (hlive : fresh.assembler.dropping = false) {unit : List (Packet × Bool)}
    (hu : SentUnit (unit.map Prod.fst)) {r : Receiver}
    (hcap : r.depacketizer.assembler.bufferCap = fresh.assembler.bufferCap)
    (hal : ∀ pre a post, arrivals unit = pre ++ a :: post →
      ¬ (r.after payload out pre).Misaligned a) :
    (∀ pre a post, arrivals unit = pre ++ a :: post →
      Whole payload out fresh (unit.map Prod.fst) ((r.after payload out pre).step payload out a).2) ∧
      (r.after payload out (arrivals unit)).depacketizer.assembler.bufferCap =
        fresh.assembler.bufferCap := by
  have hsplit : ∀ {pre a post}, arrivals unit = pre ++ a :: post →
      unit.map Prod.fst = pre.map (·.pkt) ++ a.pkt :: post.map (·.pkt) := by
    intro pre a post h
    rw [← map_pkt_arrivals, h]
    simp
  -- one arrival behind a tracked prefix
  have hstep : ∀ {pre a post}, arrivals unit = pre ++ a :: post →
      (r.after payload out pre).depacketizer.assembler.bufferCap = fresh.assembler.bufferCap →
      (pre ≠ [] → Tracked payload out fresh (pre.map (·.pkt)) (r.after payload out pre)) →
      Tracked payload out fresh (pre.map (·.pkt) ++ [a.pkt])
        ((r.after payload out pre).step payload out a).1 ∧
        Whole payload out fresh (pre.map (·.pkt) ++ [a.pkt])
          ((r.after payload out pre).step payload out a).2 := by
    intro pre a post h hcap htracked
    have hne : a.pkt.payload ≠ [] := hu.payload _ (by rw [hsplit h]; simp)
    rcases eq_nil_or_concat pre with rfl | ⟨init, b, rfl⟩
    · exact step_first hidle hlive hcap (arrivals_first h) hne (hal [] a post h)
    · have hfirst : a.first = false := by
        rw [arrivals_first h]
        simp
      refine step_later (htracked (by simp)) ?_ hfirst hne (hal _ a post h)
      intro p hp
      obtain rfl : b.pkt = p := by simpa using hp
      refine hu.unmarked (init.map (·.pkt)) b.pkt (a.pkt :: post.map (·.pkt)) ?_ (by simp)
      rw [hsplit h]
      simp
  have hinv : ∀ pre, (∃ post, arrivals unit = pre ++ post) →
      (r.after payload out pre).depacketizer.assembler.bufferCap = fresh.assembler.bufferCap ∧
        (pre ≠ [] → Tracked payload out fresh (pre.map (·.pkt)) (r.after payload out pre)) := by
    refine history_invariant _ (fun (pre : List Arrival) r' =>
      r'.depacketizer.assembler.bufferCap = _ ∧
        (pre ≠ [] → Tracked payload out fresh (pre.map (·.pkt)) r')) ?_ ⟨hcap, by simp⟩ ?_
    · rintro pre a ⟨post, h⟩
      exact ⟨a :: post, by rw [h, append_assoc]; rfl⟩
    · rintro pre a ⟨post, h⟩ ⟨hcap, htracked⟩
      rw [append_assoc] at h
      refine ⟨?_, fun _ => ?_⟩
      · rw [step_bufferCap]
        · exact hcap
        · exact hu.payload _ (by rw [hsplit h]; simp)
      · rw [map_append]
        exact (hstep h hcap htracked).1
  refine ⟨fun pre a post h => ?_, (hinv _ ⟨[], (append_nil _).symm⟩).1⟩
  obtain ⟨hcap, htracked⟩ := hinv pre ⟨_, h⟩
  have := (hstep h hcap htracked).2.append (post.map (·.pkt))
  rwa [append_assoc, singleton_append, ← hsplit h] at this

lemma units_whole (fresh : H264Depacketizer) (hidle : fresh.assembler.started = false)
    (hlive : fresh.assembler.dropping = false) (units : List (List (Packet × Bool)))
    (hu : ∀ unit ∈ units, SentUnit (unit.map Prod.fst)) :
    ∀ {r : Receiver}, r.depacketizer.assembler.bufferCap = fresh.assembler.bufferCap →
      (∀ pre a post, units.flatMap arrivals = pre ++ a :: post →
        ¬ (r.after payload out pre).Misaligned a) →
      ∀ pre a post, units.flatMap arrivals = pre ++ a :: post → ∃ unit ∈ units,
        Whole payload out fresh (unit.map Prod.fst) ((r.after payload out pre).step payload out a).2 := by
  induction units with
  | nil =>
    intro r _ _ pre a post h
    simp at h
  | cons unit units ih =>
    intro r hcap hal
    rw [flatMap_cons] at hal ⊢
    obtain ⟨hunit, hcap'⟩ := unit_whole hidle hlive (hu unit (by simp)) hcap
      fun pre a post h => hal pre a (post ++ units.flatMap arrivals) (by rw [h, append_assoc]; rfl)
    have hlater : ∀ pre a post, units.flatMap arrivals = pre ++ a :: post → ∃ unit' ∈ units,
        Whole payload out fresh (unit'.map Prod.fst)
          ((r.after payload out (arrivals unit ++ pre)).step payload out a).2 := by
      intro pre a post h
      rw [after, Lib.after_append]
      refine ih (fun unit' hmem => hu unit' (mem_cons_of_mem _ hmem)) hcap' ?_ pre a post h
      intro pre a post h
      have := hal (arrivals unit ++ pre) a post (by rw [h, append_assoc])
      rwa [after, Lib.after_append] at this
    intro pre a post h
    rcases append_eq_append_iff.mp h with ⟨pre', rfl, hrest⟩ | ⟨mid, hmid, hrest⟩
    · obtain ⟨unit', hmem, hwhole⟩ := hlater pre' a post hrest
      exact ⟨unit', mem_cons_of_mem _ hmem, hwhole⟩
    · cases mid with
      | nil =>
        obtain ⟨unit', hmem, hwhole⟩ := hlater [] a post (by simpa using hrest.symm)
        refine ⟨unit', mem_cons_of_mem _ hmem, ?_⟩
        rwa [append_nil, hmid, append_nil] at hwhole
      | cons b mid =>
        obtain ⟨rfl, -⟩ := List.cons.inj hrest
        exact ⟨unit, by simp, hunit pre a mid hmid⟩

end Receiver

def H264Packetizer.packetizeAll (p : H264Packetizer) (payload : PayloadCodec) :
    List Av.Packet → List (List Packet)
  | [] => []
  | packet :: packets =>
    let r := p.packetizeInto none packet payload {}
    r.2.1.packets :: r.1.packetizeAll payload packets

lemma sentUnit_packetizeInto (p : H264Packetizer) (packet : Av.Packet) (payload : PayloadCodec) :
    SentUnit (p.packetizeInto none packet payload {}).2.1.packets := by
  by_cases hok : (p.packetizeInto none packet payload {}).2.2 = none
  · obtain ⟨hunits, ts, ps, hpacks, hpkts⟩ := H264Packetizer.packetizeInto_spec hok
    obtain ⟨⟨init, last, hinit, -, hun⟩, hmem⟩ :=
      onlyLastMarked_markLast payload.payloadType ts (hpacks.ne_nil hunits)
    rw [hpkts]
    refine ⟨fun q hq => (hpacks.bounded _ (hmem q hq)).1, fun cur q rest h hrest => ?_⟩
    obtain ⟨rest', x, rfl⟩ : ∃ rest' x, rest = rest' ++ [x] :=
      ⟨_, _, (dropLast_append_getLast hrest).symm⟩
    rw [hinit, ← cons_append, ← append_assoc] at h
    refine hun q ?_
    rw [(append_inj' h rfl).1]
    simp
  · rw [H264Packetizer.packetizeInto_error hok]
    exact ⟨by simp, by simp⟩

lemma sentUnit_packetizeAll (p : H264Packetizer) (payload : PayloadCodec) (packets : List Av.Packet) :
    ∀ unit ∈ p.packetizeAll payload packets, SentUnit unit := by
  induction packets generalizing p with
  | nil => simp [H264Packetizer.packetizeAll]
  | cons packet packets ih =>
    intro unit hunit
    rcases mem_cons.mp hunit with rfl | hunit
    · exact sentUnit_packetizeInto p packet payload
    · exact ih _ unit hunit

/-- **Whole access units.** With each gap announced, in every run without a misaligned step each packet
emitted is what a fresh depacketizer emits for one of the access units. -/
theorem h264_whole_units (p : H264Packetizer) (payload : PayloadCodec) (packets : List Av.Packet)
    (stream : Stream) (options : List VideoDepacketizerOption) (codec : PayloadCodec)
    (out : DepacketizeResult) (units : List (List (Packet × Bool)))
    (hunits : units.map (·.map Prod.fst) = p.packetizeAll payload packets) (r : Receiver)
    (hr : r = { depacketizer := newH264Depacketizer stream options })
    (hal : ∀ pre a post, units.flatMap arrivals = pre ++ a :: post →
      ¬ (r.after codec out pre).Misaligned a) :
    ∀ pre a post, units.flatMap arrivals = pre ++ a :: post →
      ∀ q ∈ ((r.after codec out pre).step codec out a).2, ∃ unit ∈ p.packetizeAll payload packets,
          ∃ q' ∈ ((newH264Depacketizer stream options).pushAll codec out unit).2,
            q'.payload = q.payload := by
  have hsent : ∀ unit ∈ units, SentUnit (unit.map Prod.fst) := fun unit hmem =>
    sentUnit_packetizeAll p payload packets _ (by rw [← hunits]; exact mem_map_of_mem hmem)
  intro pre a post h q hq
  obtain ⟨unit, hmem, hwhole⟩ := Receiver.units_whole (newH264Depacketizer stream options)
    rfl rfl units hsent (by rw [hr]) hal pre a post h
  exact ⟨unit.map Prod.fst, by rw [← hunits]; exact mem_map_of_mem hmem, hwhole q hq⟩

def sampleIDR : Av.Packet := sampleUnit [0, 0, 1, 0x65, 1]

def sampleSlice : Av.Packet := sampleUnit ([0, 0, 1, 0x41] ++ List.replicate 20 7)

def sampleIDRWithSets : Av.Packet :=
  sampleUnit ([0, 0, 1, 0x67, 1, 0, 0, 1, 0x68, 2, 0, 0, 1, 0x65] ++ List.replicate 20 7)

def sampleLossy (packets : List Av.Packet) (kept : List (List Bool)) :
    List (List (Packet × Bool)) :=
  List.zipWith List.zip ((samplePacketizer []).packetizeAll {} packets) kept

def sampleReceiver : Receiver := { depacketizer := newH264Depacketizer {} [] }

theorem h264_whole_units_slice_lost :
    (sampleLossy [sampleIDR, sampleSlice, sampleIDR] [[true], [false, true], [true]]).map
        (·.map Prod.fst) = (samplePacketizer []).packetizeAll {} [sampleIDR, sampleSlice, sampleIDR] ∧
    ∀ pre a post, (sampleLossy [sampleIDR, sampleSlice, sampleIDR]
        [[true], [false, true], [true]]).flatMap arrivals = pre ++ a :: post →
      ∀ q ∈ ((sampleReceiver.after {} { packetsCap := 1, eventsCap := 1 } pre).step {}
          { packetsCap := 1, eventsCap := 1 } a).2,
        ∃ unit ∈ (samplePacketizer []).packetizeAll {} [sampleIDR, sampleSlice, sampleIDR],
          ∃ q' ∈ ((newH264Depacketizer {} []).pushAll {} { packetsCap := 1, eventsCap := 1 } unit).2,
            q'.payload = q.payload :=
  ⟨by decide +kernel, h264_whole_units (samplePacketizer []) {} [sampleIDR, sampleSlice, sampleIDR] {} [] {}
      { packetsCap := 1, eventsCap := 1 }
      (sampleLossy [sampleIDR, sampleSlice, sampleIDR] [[true], [false, true], [true]])
      (by decide +kernel) sampleReceiver rfl ((forall_step_iff _).mpr (by decide +kernel))⟩

/-- The parameter sets of an access unit that arrives are dropped behind a loss. -/
theorem h264_parameter_sets_dropped :
    ¬ ∀ (p : H264Packetizer) (payload : PayloadCodec) (packets : List Av.Packet)
      (stream : Stream) (options : List VideoDepacketizerOption) (codec : PayloadCodec)
      (out : DepacketizeResult) (units : List (List (Packet × Bool))),
      units.map (·.map Prod.fst) = p.packetizeAll payload packets →
      ∀ r : Receiver, r = { depacketizer := newH264Depacketizer stream options } →
      ∀ pre a post, units.flatMap arrivals = pre ++ a :: post →
      ∀ q ∈ ((r.after codec out pre).step codec out a).2, ∃ unit ∈ p.packetizeAll payload packets,
          ∃ q' ∈ ((newH264Depacketizer stream options).pushAll codec out unit).2,
            q'.payload = q.payload := by
  intro h
  have hlossy := h (samplePacketizer []) {} [sampleIDR, sampleSlice, sampleIDRWithSets] {} [] {}
    { packetsCap := 1, eventsCap := 1 }
    (sampleLossy [sampleIDR, sampleSlice, sampleIDRWithSets]
      [[true], [true, false], [true, true, true]]) (by decide +kernel) sampleReceiver rfl
  rw [forall_step_iff] at hlossy
  exact absurd hlossy (by decide +kernel)

end Goav.Rtpav
