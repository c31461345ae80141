import Goav.Lib.History
import Goav.Rtpav.VideoDefs

/-!
Whole runs of the frame assembler: a packet is one block of consecutively pushed fragments. A frame in
one packet leaves the assembler started, and a stray fragment of its timestamp is then taken for a
continuation (`Strays`).
-/

namespace Goav.Rtpav

open Goav.Av Goav.Lib List

/-! ### Calls -/

structure Fragment where
  pkt : Packet
  payload : PayloadCodec := {}
  frame : Bytes
  start : Bool
  last : Bool
  keyframe : Bool

inductive AssemblerCall where
  | push (ctx : Ctx) (f : Fragment) (out : DepacketizeResult)
  | handleEvent (ctx : Ctx) (event : Option Event)
  | resetPartial

def AssemblerCall.fragment : AssemblerCall → Option Fragment
  | .push none f _ => some f
  | _ => none

def AssemblerCall.Roomy : AssemblerCall → Prop
  | .push _ _ out => out.packets.length < out.packetsCap ∧ out.events.length < out.eventsCap
  | _ => True

variable (stream : Stream)

/-- A loss, discontinuity or codec change of the stream, or a reset. -/
def AssemblerCall.interrupts : AssemblerCall → Bool
  | .handleEvent none (some e) =>
    match e.type with
    | .packetLoss | .discontinuity => eventMatchesStream stream e
    | .codecChanged => (applyCodecChangedEvent stream stream.codec.id e).isSome
    | _ => false
  | .resetPartial => true
  | _ => false

namespace VideoFrameAssembler

def call (a : VideoFrameAssembler) : AssemblerCall → VideoFrameAssembler × List Av.Packet
  | .push ctx f out =>
    let r := a.push ctx f.pkt f.payload f.frame f.start f.last f.keyframe out
    (r.1, r.2.1.packets.drop out.packets.length)
  | .handleEvent ctx event => ((a.handleEvent ctx event).1, [])
  | .resetPartial => (a.resetPartial, [])

def after (a : VideoFrameAssembler) (cs : List AssemblerCall) : VideoFrameAssembler :=
  Lib.after (fun a c => (a.call c).1) a cs

end VideoFrameAssembler

/-! ### Blocks -/

def fragments (cs : List AssemblerCall) : List Fragment := cs.filterMap AssemblerCall.fragment

def lastEnded (cs : List AssemblerCall) : Bool :=
  match (fragments cs).getLast? with
  | some f => f.last
  | none => false

/-- A start fragment and no other, one timestamp, and no interruption. -/
structure Block (stream : Stream) (block : List AssemblerCall) (fs : List Fragment)
    (timestamp : UInt32) : Prop where
  uninterrupted : ∀ c ∈ block, c.interrupts stream = false
  pushed : fragments block = fs
  begins : ∃ c cs f gs, block = c :: cs ∧ c.fragment = some f ∧ fs = f :: gs ∧ f.start = true ∧
    ∀ g ∈ gs, g.start = false
  oneTime : ∀ f ∈ fs, f.pkt.timestamp = timestamp

variable (a : VideoFrameAssembler)

/-- The calls end with a block, and the payload is that of its fragments. -/
def FrameOfBlock (cs : List AssemblerCall) (payload : Bytes) : Prop :=
  ∃ before block fs g timestamp, cs = before ++ block ∧
    Block (a.after before).stream block (fs ++ [g]) timestamp ∧
    (∀ f ∈ fs, f.last = false) ∧ g.last = true ∧ payload = (fs ++ [g]).flatMap (·.frame)

/-- A continuation meets an assembler still marked started, though the fragment before it ended a frame.
-/
def Strays (pre : List AssemblerCall) (c : AssemblerCall) : Prop :=
  ∃ f, c.fragment = some f ∧ f.start = false ∧ (a.after pre).started = true ∧
    f.pkt.timestamp = (a.after pre).timestamp ∧ lastEnded pre = true

lemma fragments_concat (cs : List AssemblerCall) (c : AssemblerCall) :
    fragments (cs ++ [c]) = fragments cs ++ c.fragment.toList := by
  unfold fragments
  cases h : c.fragment <;> simp [h]

variable {cs : List AssemblerCall} {c : AssemblerCall} {f : Fragment} {fs : List Fragment}

lemma lastEnded_concat_none (h : c.fragment = none) : lastEnded (cs ++ [c]) = lastEnded cs := by
  unfold lastEnded
  rw [fragments_concat, h]
  simp

lemma lastEnded_concat_some (h : c.fragment = some f) : lastEnded (cs ++ [c]) = f.last := by
  unfold lastEnded
  rw [fragments_concat, h]
  simp

lemma lastEnded_eq_false (gs : List Fragment) (h : fragments cs = gs ++ fs) (hne : fs ≠ [])
    (hlast : ∀ f ∈ fs, f.last = false) : lastEnded cs = false := by
  rw [lastEnded, h, getLast?_append, getLast?_eq_some_getLast hne]
  exact hlast _ (getLast_mem hne)

lemma Block.idle {stream : Stream} {block : List AssemblerCall} {timestamp : UInt32}
    (h : Block stream block fs timestamp) (hc : c.fragment = none)
    (hi : c.interrupts stream = false) : Block stream (block ++ [c]) fs timestamp := by
  obtain ⟨c₀, cs, f, gs, rfl, hb⟩ := h.begins
  refine ⟨fun x hx => ?_, ?_, ⟨c₀, cs ++ [c], f, gs, rfl, hb⟩, h.oneTime⟩
  · rcases mem_append.mp hx with hx | hx
    · exact h.uninterrupted x hx
    · rw [mem_singleton.mp hx, hi]
  · rw [fragments_concat, h.pushed, hc]
    simp

lemma Block.push {stream : Stream} {block : List AssemblerCall} {timestamp : UInt32}
    (h : Block stream block fs timestamp) {out : DepacketizeResult} (hs : f.start = false)
    (ht : f.pkt.timestamp = timestamp) :
    Block stream (block ++ [.push none f out]) (fs ++ [f]) timestamp := by
  obtain ⟨c₀, cs, f₀, gs, rfl, hc₀, rfl, hs₀, hgs⟩ := h.begins
  refine ⟨fun x hx => ?_, ?_, ⟨c₀, cs ++ [.push none f out], f₀, gs ++ [f], rfl, hc₀, rfl, hs₀,
    fun g hg => ?_⟩, fun g hg => ?_⟩
  · rcases mem_append.mp hx with hx | hx
    · exact h.uninterrupted x hx
    · rw [mem_singleton.mp hx]
      rfl
  · rw [fragments_concat, h.pushed]
    rfl
  · rcases mem_append.mp hg with hg | hg
    · exact hgs g hg
    · rw [mem_singleton.mp hg, hs]
  · rcases mem_append.mp hg with hg | hg
    · exact h.oneTime g hg
    · rw [mem_singleton.mp hg, ht]

lemma Block.single (out : DepacketizeResult) (hs : f.start = true) :
    Block stream [.push none f out] [f] f.pkt.timestamp := by
  refine ⟨fun x hx => ?_, rfl, ⟨_, [], f, [], rfl, rfl, rfl, hs, by simp⟩, by simp⟩
  rw [mem_singleton.mp hx]
  rfl

/-! ### One push -/

namespace VideoFrameAssembler

def prior (a : VideoFrameAssembler) (f : Fragment) : Bytes := if f.start then [] else a.buffer

def Follows (a : VideoFrameAssembler) (f : Fragment) : Prop :=
  f.start = true ∨ f.start = false ∧ a.started = true ∧ f.pkt.timestamp = a.timestamp

inductive Pushed (a : VideoFrameAssembler) (f : Fragment) (a' : VideoFrameAssembler) :
    List Av.Packet → Prop
  | dropped (idle : a'.started = false) : Pushed a f a' []
  | extended (follows : a.Follows f) (more : f.last = false)
      (timestamp : a'.timestamp = f.pkt.timestamp) (buffer : a'.buffer = a.prior f ++ f.frame) :
        Pushed a f a' []
  | ended {ps : List Av.Packet} (follows : a.Follows f) (ends : f.last = true)
      (payload : ∀ p ∈ ps, p.payload = a.prior f ++ f.frame)
      (rest : a'.started = true → a'.buffer = []) : Pushed a f a' ps

lemma emitPendingSync_spec (a : VideoFrameAssembler) (out : DepacketizeResult) :
    (a.emitPendingSync out).1.started = a.started ∧
      (a.emitPendingSync out).1.dropping = a.dropping ∧
      (a.emitPendingSync out).1.stream = a.stream ∧
      (a.emitPendingSync out).2.1.packets = out.packets := by
  unfold emitPendingSync
  split
  · exact ⟨rfl, rfl, rfl, rfl⟩
  · split <;> exact ⟨rfl, rfl, rfl, rfl⟩

lemma emitPacket_spec (a : VideoFrameAssembler) (timestamp clockRate : UInt32) (payload : Bytes)
    (keyframe : Bool) (out : DepacketizeResult) :
    let r := a.emitPacket timestamp clockRate payload keyframe out
    r.1.dropping = a.dropping ∧ r.1.stream = a.stream ∧ r.1.started = a.started ∧
      r.1.buffer = a.buffer ∧
      ∀ p ∈ r.2.1.packets.drop out.packets.length, p.payload = payload := by
  unfold emitPacket
  split
  · refine ⟨rfl, rfl, rfl, rfl, fun p hp => ?_⟩
    simp at hp
  · refine ⟨rfl, rfl, rfl, rfl, fun p hp => ?_⟩
    simp only [drop_left, mem_singleton] at hp
    rw [hp]

def Settled (a : VideoFrameAssembler) : Prop := a.dropping = true → a.started = false

variable {a : VideoFrameAssembler} {cs : List AssemblerCall}

lemma push_spec (hd : a.Settled) (f : Fragment) (out : DepacketizeResult) :
    (a.call (.push none f out)).1.stream = a.stream ∧ (a.call (.push none f out)).1.Settled ∧
      Pushed a f (a.call (.push none f out)).1 (a.call (.push none f out)).2 := by
  simp only [call, push]
  split
  -- a stray continuation
  · obtain ⟨hs, hdr, hst, hp⟩ := a.dropUntilSync.emitPendingSync_spec out
    refine ⟨hst, fun _ => hs, ?_⟩
    rw [hp, List.drop_length]
    exact .dropped hs
  split
  -- a start that is no keyframe, while dropping
  · obtain ⟨hs, hdr, hst, hp⟩ :=
      ({ a with requestSync := true } : VideoFrameAssembler).resetPartial.emitPendingSync_spec out
    refine ⟨hst, fun _ => hs, ?_⟩
    rw [hp, List.drop_length]
    exact .dropped hs
  have hfollows : a.Follows f := by
    unfold Follows
    cases h : f.start <;> simp_all
  set a₁ : VideoFrameAssembler := if f.start then
      { a with requestSync := false, started := true, dropping := false,
               timestamp := f.pkt.timestamp, keyframe := f.keyframe, buffer := [] }
    else a with ha₁
  have h₁ : a₁.stream = a.stream ∧ a₁.buffer = a.prior f ∧ a₁.timestamp = f.pkt.timestamp ∧
      a₁.dropping = false := by
    rcases hfollows with h | ⟨h, hstarted, ht⟩
    · simp [ha₁, h, prior]
    · have : a.dropping = false := by
        by_contra hc
        simp [hd (by simpa using hc)] at hstarted
      simp [ha₁, h, prior, ht, this]
  obtain ⟨hstream, hbuffer, htime, hdrop⟩ := h₁
  rw [if_neg (by simp [hdrop])]
  split
  -- the frame is complete without the buffer
  · rename_i hfast
    simp only [Bool.and_eq_true, List.isEmpty_iff] at hfast
    obtain ⟨hdr, hst, -, hbuf, hp⟩ := a₁.emitPacket_spec f.pkt.timestamp
      (payloadClockRate f.payload a₁.stream) f.frame a₁.keyframe out
    refine ⟨hst.trans hstream, fun h => by simp [hdr, hdrop] at h,
      .ended hfollows hfast.1 ?_ fun _ => hbuf.trans hfast.2⟩
    rw [← hbuffer, hfast.2]
    exact hp
  split
  -- the frame is larger than the buffer
  · refine ⟨hstream, fun _ => rfl, ?_⟩
    rw [List.drop_length]
    exact .dropped rfl
  split_ifs with hmore
  · refine ⟨hstream, fun h => by simp [hdrop] at h, ?_⟩
    rw [List.drop_length]
    exact .extended hfollows (by simpa using hmore) htime (by rw [hbuffer])
  · obtain ⟨hdr, hst, hidle, -, hp⟩ := ({ a₁ with buffer := a₁.buffer ++ f.frame, started := false } :
      VideoFrameAssembler).emitPacket_spec f.pkt.timestamp
      (payloadClockRate f.payload a₁.stream) (a₁.buffer ++ f.frame) a₁.keyframe out
    refine ⟨hst.trans hstream, fun h => by rw [hdr] at h; simp [hdrop] at h,
      .ended hfollows (by simpa using hmore) ?_ fun h => by rw [hidle] at h; simp at h⟩
    rw [← hbuffer]
    exact hp

/-- A call that pushes nothing leaves the frame alone or resets it. -/
lemma call_idle_spec (hc : c.fragment = none) :
    (a.call c).2 = [] ∧
      ((a.call c).1.started = false ∨ c.interrupts a.stream = false ∧ (a.call c).1 = a) := by
  cases c with
  | push ctx f out =>
    cases ctx with
    | none => simp [AssemblerCall.fragment] at hc
    | some e =>
      refine ⟨?_, .inr ⟨rfl, rfl⟩⟩
      simp [call, push]
  | resetPartial => exact ⟨rfl, .inl rfl⟩
  | handleEvent ctx event =>
    refine ⟨rfl, ?_⟩
    cases ctx with
    | some e => exact .inr ⟨rfl, rfl⟩
    | none =>
      cases event with
      | none => exact .inr ⟨rfl, rfl⟩
      | some e =>
        simp only [call, handleEvent, AssemblerCall.interrupts]
        cases e.type with
        | packetLoss | discontinuity =>
          cases h : eventMatchesStream a.stream e
          · exact .inr ⟨rfl, rfl⟩
          · exact .inl rfl
        | codecChanged =>
          cases h : applyCodecChangedEvent a.stream a.stream.codec.id e with
          | none => simp
          | some stream => exact .inl rfl
        | keyframeRequired | taskReady | endOfStream | other => exact .inr ⟨rfl, rfl⟩

/-! ### Runs -/

/-- The calls end with the block of the unfinished frame the assembler holds. -/
def Open (a : VideoFrameAssembler) (cs : List AssemblerCall) (a' : VideoFrameAssembler) : Prop :=
  ∃ before block fs, cs = before ++ block ∧ (a.after before).stream = a'.stream ∧
    Block a'.stream block fs a'.timestamp ∧ (∀ f ∈ fs, f.last = false) ∧
    a'.buffer = fs.flatMap (·.frame)

/-- A started assembler is in an unfinished frame, or the last one bypassed the buffer. -/
structure Held (a : VideoFrameAssembler) (cs : List AssemblerCall) (a' : VideoFrameAssembler) :
    Prop where
  settled : a'.Settled
  inFrame : a'.started = true → a.Open cs a' ∨ lastEnded cs = true ∧ a'.buffer = []

lemma after_concat (a : VideoFrameAssembler) (cs : List AssemblerCall) (c : AssemblerCall) :
    a.after (cs ++ [c]) = ((a.after cs).call c).1 := by
  simp [after]

lemma held_of_idle {a' : VideoFrameAssembler} (h : a'.started = false) : Held a cs a' :=
  ⟨fun _ => h, fun hs => by simp [h] at hs⟩

lemma Open.push (out : DepacketizeResult) (hf : (a.after cs).Follows f)
    (ho : f.start = false → a.Open cs (a.after cs)) :
    ∃ before block fs, cs ++ [.push none f out] = before ++ block ∧
      (a.after before).stream = (a.after cs).stream ∧
      Block (a.after cs).stream block (fs ++ [f]) f.pkt.timestamp ∧ (∀ g ∈ fs, g.last = false) ∧
      (a.after cs).prior f ++ f.frame = (fs ++ [f]).flatMap (·.frame) := by
  rcases hf with hs | ⟨hs, -, ht⟩
  · refine ⟨cs, [.push none f out], [], rfl, rfl, Block.single _ out hs, by simp, ?_⟩
    simp [prior, hs]
  · obtain ⟨before, block, fs, hcs, hst, hblock, hlast, hbuf⟩ := ho hs
    refine ⟨before, block ++ [.push none f out], fs, by rw [hcs, append_assoc], hst, ?_,
      hlast, ?_⟩
    · rw [ht]
      exact hblock.push hs ht
    · simp [prior, hs, hbuf]

lemma Held.step (h : Held a cs (a.after cs)) (hc : ¬ Strays a cs c) :
    Held a (cs ++ [c]) (a.after (cs ++ [c])) ∧
      ∀ p ∈ ((a.after cs).call c).2, FrameOfBlock a (cs ++ [c]) p.payload := by
  rw [after_concat]
  cases hfr : c.fragment with
  | none =>
    obtain ⟨hps, hidle | ⟨hint, heq⟩⟩ := (a.after cs).call_idle_spec hfr
    · exact ⟨held_of_idle hidle, by simp [hps]⟩
    · refine ⟨?_, by simp [hps]⟩
      rw [heq]
      refine ⟨h.settled, fun hs => ?_⟩
      rcases h.inFrame hs with ⟨before, block, fs, hcs, hst, hblock, hlast, hbuf⟩ | ⟨hended, hbuf⟩
      · refine .inl ⟨before, block ++ [c], fs, by rw [hcs, append_assoc], hst,
          hblock.idle hfr hint, hlast, hbuf⟩
      · exact .inr ⟨by rw [lastEnded_concat_none hfr, hended], hbuf⟩
  | some f =>
    obtain ⟨out, rfl⟩ : ∃ out, c = .push none f out := by
      cases c with
      | push ctx g out =>
        cases ctx with
        | none => exact ⟨out, by simp_all [AssemblerCall.fragment]⟩
        | some e => simp [AssemblerCall.fragment] at hfr
      | handleEvent ctx event => simp [AssemblerCall.fragment] at hfr
      | resetPartial => simp [AssemblerCall.fragment] at hfr
    obtain ⟨hst, hset, hpushed⟩ := push_spec h.settled f out
    generalize (a.after cs).call (.push none f out) = r at hst hset hpushed ⊢
    obtain ⟨a', ps⟩ := r
    have hopen : (a.after cs).Follows f → f.start = false → a.Open cs (a.after cs) := by
      rintro (hs | ⟨hs, hstarted, ht⟩) hs'
      · simp [hs] at hs'
      · exact (h.inFrame hstarted).resolve_right fun hended =>
          hc ⟨f, rfl, hs, hstarted, ht, hended.1⟩
    cases hpushed with
    | dropped idle => exact ⟨held_of_idle idle, by simp⟩
    | extended follows more timestamp buffer =>
      refine ⟨⟨hset, fun _ => .inl ?_⟩, by simp⟩
      obtain ⟨before, block, fs, hcs, hst', hblock, hlast, hbuf⟩ :=
        Open.push out follows (hopen follows)
      refine ⟨before, block, fs ++ [f], hcs, hst'.trans hst.symm, ?_, ?_, buffer.trans hbuf⟩
      · rw [hst, timestamp]
        exact hblock
      · intro g hg
        rcases mem_append.mp hg with hg | hg
        · exact hlast g hg
        · rw [mem_singleton.mp hg, more]
    | ended follows ends payload rest =>
      refine ⟨⟨hset, fun hs => .inr ⟨?_, rest hs⟩⟩, fun p hp => ?_⟩
      · rw [lastEnded_concat_some rfl, ends]
      · obtain ⟨before, block, fs, hcs, hst', hblock, hlast, hbuf⟩ :=
          Open.push out follows (hopen follows)
        refine ⟨before, block, fs, f, f.pkt.timestamp, hcs, ?_, hlast, ends, (payload p hp).trans hbuf⟩
        rw [hst']
        exact hblock

lemma Open.not_lastEnded {a' : VideoFrameAssembler} (h : a.Open cs a') : lastEnded cs = false := by
  obtain ⟨before, block, fs, rfl, -, hblock, hlast, -⟩ := h
  obtain ⟨_, _, f, gs, -, -, rfl, -⟩ := hblock.begins
  refine lastEnded_eq_false (fragments before) ?_ (by simp) hlast
  rw [← hblock.pushed, fragments, filterMap_append]
  rfl

lemma Held.stray_emits {out : DepacketizeResult} (h : Held a cs (a.after cs))
    (hroom : out.packets.length < out.packetsCap) (hlast : f.last = true)
    (hc : Strays a cs (.push none f out)) : ∃ p, p ∈ ((a.after cs).call (.push none f out)).2 := by
  obtain ⟨g, hg, hs, hstarted, ht, hended⟩ := hc
  obtain rfl : f = g := by simpa [AssemblerCall.fragment] using hg
  obtain ⟨-, hbuf⟩ := (h.inFrame hstarted).resolve_left fun ho => by
    simp [ho.not_lastEnded] at hended
  have hdrop : (a.after cs).dropping = false := by
    by_contra hd
    simp [h.settled (by simpa using hd)] at hstarted
  simp [call, push, hs, hstarted, ht, hdrop, hlast, hbuf, emitPacket, Nat.ne_of_lt hroom]

end VideoFrameAssembler

lemma not_frameOfBlock_of_strays {a : VideoFrameAssembler} {payload : Bytes} (hc : Strays a cs c) :
    ¬ FrameOfBlock a (cs ++ [c]) payload := by
  obtain ⟨f, hf, hs, -, -, hended⟩ := hc
  rintro ⟨before, block, fs, g, timestamp, hcs, hblock, hlast, -, -⟩
  have hfr : fragments cs ++ [f] = (fragments before ++ fs) ++ [g] := by
    have h := congrArg fragments hcs
    rw [fragments_concat, hf, fragments, fragments, filterMap_append] at h
    rw [append_assoc, ← hblock.pushed]
    exact h
  obtain ⟨hpre, hg⟩ := append_inj' hfr rfl
  obtain rfl : f = g := by simpa using hg
  cases fs with
  | nil =>
    -- the block is the stray fragment alone, which is no start
    obtain ⟨_, _, f₀, gs, -, -, heq, hs₀, -⟩ := hblock.begins
    obtain rfl : f = f₀ := by simp at heq; exact heq.1
    simp [hs] at hs₀
  | cons f' fs' => simp [lastEnded_eq_false _ hpre (by simp) hlast] at hended

/-- No continuation is stray. -/
def NoStrays (calls : List AssemblerCall) : Prop :=
  ∀ pre c post, calls = pre ++ c :: post → ¬ Strays a pre c

lemma held_of_noStrays (codec : CodecID) (options : List VideoDepacketizerOption)
    (cs : List AssemblerCall) (h : NoStrays (newVideoFrameAssembler stream codec options) cs) :
    (newVideoFrameAssembler stream codec options).Held cs
      ((newVideoFrameAssembler stream codec options).after cs) := by
  revert cs
  refine history_invariant _ _ (fun cs c h pre d post hcs => ?_) ?_ fun cs c hcs h => ?_
  · exact h pre d (post ++ [c]) (by rw [hcs, append_assoc]; rfl)
  · exact VideoFrameAssembler.held_of_idle rfl
  · have := (h.step (hcs cs c [] rfl)).1
    rwa [VideoFrameAssembler.after_concat] at this

/-- **Frames are blocks** in every run without a stray continuation; and the first stray end fragment,
given room, emits a packet that is no block. -/
theorem frames_are_blocks (stream : Stream) (codec : CodecID)
    (options : List VideoDepacketizerOption) (a : VideoFrameAssembler)
    (ha : a = newVideoFrameAssembler stream codec options) (calls : List AssemblerCall)
    (hstray : NoStrays a calls) :
    (∀ pre c post, calls = pre ++ c :: post →
      ∀ p ∈ ((a.after pre).call c).2, FrameOfBlock a (pre ++ [c]) p.payload) ∧
    ∀ f out, f.last = true → out.packets.length < out.packetsCap →
      ((∀ p ∈ ((a.after calls).call (.push none f out)).2,
        FrameOfBlock a (calls ++ [.push none f out]) p.payload) ↔
      ¬ Strays a calls (.push none f out)) := by
  subst ha
  refine ⟨fun pre c post hcalls => ?_, fun f out hlast hroom => ⟨fun h hc => ?_, fun hc => ?_⟩⟩
  · refine ((held_of_noStrays _ _ _ pre ?_).step (hstray pre c post hcalls)).2
    intro pre' d post' hpre
    exact hstray pre' d (post' ++ c :: post) (by rw [hcalls, hpre, append_assoc]; rfl)
  · obtain ⟨p, hp⟩ := (held_of_noStrays _ _ _ calls hstray).stray_emits hroom hlast hc
    exact not_frameOfBlock_of_strays hc (h p hp)
  · exact ((held_of_noStrays _ _ _ calls hstray).step hc).2

def sampleFragment (frame : Bytes) (start last : Bool) : Fragment :=
  { pkt := { timestamp := 7 }, frame, start, last, keyframe := true }

def sampleDepacketizeResult : DepacketizeResult := { packetsCap := 1, eventsCap := 1 }

def twoFragments : List AssemblerCall :=
  [.push none (sampleFragment [1] true false) sampleDepacketizeResult,
    .push none (sampleFragment [2] false true) sampleDepacketizeResult]

theorem frames_are_blocks_two_fragments :
    NoStrays (newVideoFrameAssembler {} codecVP8 []) twoFragments ∧
    ∀ p ∈ (((newVideoFrameAssembler {} codecVP8 []).after
        [.push none (sampleFragment [1] true false) sampleDepacketizeResult]).call
        (.push none (sampleFragment [2] false true) sampleDepacketizeResult)).2,
      FrameOfBlock (newVideoFrameAssembler {} codecVP8 []) twoFragments p.payload := by
  have hstrays : NoStrays (newVideoFrameAssembler {} codecVP8 []) twoFragments := by
    rintro (_ | ⟨c₀, _ | ⟨c₁, pre⟩⟩) c post h ⟨f, hf, hs, -, -, hended⟩
    · exact absurd hended (by decide)
    · obtain ⟨rfl, rfl, rfl⟩ := by simpa [twoFragments] using h
      exact absurd hended (by decide)
    · simp [twoFragments] at h
  exact ⟨hstrays, (frames_are_blocks {} codecVP8 [] _ rfl twoFragments hstrays).1
    [.push none (sampleFragment [1] true false) sampleDepacketizeResult] _ [] rfl⟩

def strayRun : List AssemblerCall :=
  [.push none (sampleFragment [1] true true) sampleDepacketizeResult,
    .push none (sampleFragment [2] false true) sampleDepacketizeResult]

theorem strayRun_emits_no_block :
    ¬ ∀ (stream : Stream) (codec : CodecID) (options : List VideoDepacketizerOption)
      (calls : List AssemblerCall), (∀ c ∈ calls, c.Roomy) →
      ∀ pre c post, calls = pre ++ c :: post →
        ∀ p ∈ (((newVideoFrameAssembler stream codec options).after pre).call c).2,
          FrameOfBlock (newVideoFrameAssembler stream codec options) (pre ++ [c]) p.payload := by
  intro h
  have hemit : (((newVideoFrameAssembler {} codecVP8 []).after
      [.push none (sampleFragment [1] true true) sampleDepacketizeResult]).call
      (.push none (sampleFragment [2] false true) sampleDepacketizeResult)).2.map (·.payload) =
      [[2]] := by decide
  obtain ⟨p, hp, -⟩ := mem_map.mp (hemit ▸ mem_singleton.mpr rfl)
  refine not_frameOfBlock_of_strays ⟨_, rfl, rfl, by decide, by decide, by decide⟩
    (h {} codecVP8 [] strayRun ?_ [_] _ [] rfl p hp)
  intro c hc
  simp only [strayRun, mem_cons, not_mem_nil, or_false] at hc
  rcases hc with rfl | rfl <;> exact ⟨by decide, by decide⟩

end Goav.Rtpav
