import Goav.Lib.Except
import Goav.Rtpav.JitterRuns
import Goav.Rtpav.SourceDefs

/-!
What each function of the RTP source can do. Only `depacketize` hands packets over, and only the event of
a record is logged as one.
-/

namespace Goav.Rtpav

open Goav.Av Goav.Lib List

/-! ### The packets of the ring -/

namespace JitterRing

def Holds (b : JitterRing) (p : Packet) : Prop := ∃ slot ∈ b.slots, slot.packet = some p

variable {b b' : JitterRing} {p pkt : Packet} {out out' : JitterResult}

lemma mem_packets : p ∈ b.packets ↔ b.Holds p := by simp [packets, Holds, mem_filterMap]

lemma not_holds_reset (b : JitterRing) (p : Packet) : ¬ b.reset.Holds p := by
  rintro ⟨slot, hslot, hp⟩
  rw [eq_of_mem_replicate hslot] at hp
  cases hp

structure Within (P : Packet → Prop) (result : JitterRing × JitterResult × Option Err) : Prop where
  holds : ∀ p, result.1.Holds p → P p
  ready : ∀ p ∈ result.2.1.ready, P p

variable {P : Packet → Prop}

/-- **What `PushInto` returns and keeps was in the ring, or is the packet.** -/
lemma within_pushInto (hb : ∀ p, b.Holds p → P p) (hout : ∀ p ∈ out.ready, P p) (hpkt : P pkt) :
    Within P (b.pushInto none pkt out) := by
  obtain ⟨rel, hready, hrel⟩ := conserves_pushInto b none pkt out
  have hall : ∀ p ∈ rel ++ (b.pushInto none pkt out).1.packets, P p := by
    intro p hp
    rcases mem_cons.mp (hrel.subset hp) with rfl | hp
    · exact hpkt
    · exact hb p (mem_packets.mp hp)
  refine ⟨fun p hp => hall p (mem_append_right _ (mem_packets.mpr hp)), fun p hp => ?_⟩
  rw [hready] at hp
  rcases mem_append.mp hp with hp | hp
  · exact hout p hp
  · exact hall p (mem_append_left _ hp)

lemma rested_of_empty (hhead : b.head < b.slots.length) (h : ∀ p, ¬ b.Holds p) : b.Rested := by
  have hempty : ∀ slot ∈ b.slots, slot.packet = none := by
    intro slot hslot
    cases hp : slot.packet with
    | none => rfl
    | some p => exact absurd ⟨slot, hslot, hp⟩ (h p)
  exact ⟨ok_of_empty hhead hempty, drained_of_empty hempty, fun _ => hempty⟩

lemma Rested.reset (h : b.Rested) : b.reset.Rested :=
  rested_of_empty (by simpa [JitterRing.reset] using h.ok.pos) (not_holds_reset b)

lemma Rested.pushInto (h : b.Rested) (hpush : b.pushInto none pkt out = (b', out', none)) :
    b'.Rested := by
  unfold JitterRing.pushInto at hpush
  dsimp only at hpush
  obtain ⟨hok, hdrained⟩ := h.bound pkt
  have hinit : (if b.initialized then b else b.init pkt).initialized = true := by
    split
    · assumption
    · rfl
  generalize (if b.initialized then b else b.init pkt) = bound at *
  have hrested {ring : JitterRing} {out : JitterResult} {discontinuous : Bool} (hok : ring.Ok)
      (hdrained : ring.Drained) (hinit : ring.initialized = true)
      (hadmitted : ring.admitPacket pkt out discontinuous = (b', out', none)) : b'.Rested := by
    obtain ⟨hok', hdrained', hinit', -⟩ := admitPacket_cases hok hdrained hadmitted (by simp)
    refine ⟨hok', hdrained', fun hnot => ?_⟩
    rw [hinit', hinit] at hnot
    cases hnot
  split at hpush
  · split at hpush
    · cases hpush
    · have hempty : ∀ slot ∈ (bound.reset.init pkt).slots, slot.packet = none :=
        fun slot hslot => by rw [eq_of_mem_replicate hslot]
      have hpos : (bound.reset.init pkt).head < (bound.reset.init pkt).slots.length := by
        simpa [JitterRing.reset, init] using hok.pos
      exact hrested (ok_of_empty hpos hempty) (drained_of_empty hempty) rfl hpush
  · exact hrested hok hdrained hinit hpush

/-- **`FlushInto` returns all that the ring holds.** -/
lemma flushInto_holds (h : b.Rested) (hflush : b.flushInto none out = (b', out', none)) :
    b'.Rested ∧ (∀ p, ¬ b'.Holds p) ∧ ∀ p ∈ out'.ready, p ∈ out.ready ∨ b.Holds p := by
  have hflushed := flushInto_spec h.ok hflush
  have hempty : ∀ p, ¬ b'.Holds p := by
    rintro p ⟨slot, hslot, hp⟩
    have hcell : some p ∈ b'.cells := by
      exact mem_map.mpr ⟨slot, (rotate_perm b'.slots b'.head).mem_iff.mpr hslot, hp⟩
    cases hflushed.empty _ hcell
  refine ⟨rested_of_empty hflushed.ok.head_lt hempty, hempty, fun p hp => ?_⟩
  rw [hflushed.ready] at hp
  obtain hp | hp := mem_append.mp hp
  · exact .inl hp
  · rw [reduceOption_mem_iff] at hp
    obtain ⟨slot, hslot, hpacket⟩ := mem_map.mp hp
    exact .inr ⟨slot, (rotate_perm b.slots b.head).mem_iff.mp hslot, hpacket⟩

end JitterRing

/-! ### What is left as it is -/

/-- An entry of the log that is neither a packet that is handed over nor the event of a record. -/
def SourceObs.Quiet : SourceObs → Prop
  | .depacketized _ _ _ => False
  | .event record _ => record = none
  | .packet _ => True

structure Source.Frame {D : Type} (s s' : Source D) (l : List SourceObs) : Prop where
  jitter : s'.jitter = s.jitter
  payloads : s'.payloads = s.payloads
  scope : s'.scope = s.scope
  taken : s'.taken = s.taken
  origin : s'.origin = s.origin
  log : s'.log = s.log ++ l

namespace Source

variable {D : Type} {ops : Depacketizers D} {s s' s'' : Source D} {l l' : List SourceObs}

lemma Frame.refl (s : Source D) : Frame s s [] := ⟨rfl, rfl, rfl, rfl, rfl, (append_nil _).symm⟩

lemma Frame.trans (h : Frame s s' l) (h' : Frame s' s'' l') : Frame s s'' (l ++ l') :=
  ⟨h'.jitter.trans h.jitter, h'.payloads.trans h.payloads, h'.scope.trans h.scope,
    h'.taken.trans h.taken, h'.origin.trans h.origin,
    by rw [h'.log, h.log, append_assoc]⟩

def Quiet (s s' : Source D) : Prop := ∃ l, Frame s s' l ∧ ∀ o ∈ l, o.Quiet

lemma Quiet.refl (s : Source D) : Quiet s s := ⟨[], Frame.refl s, by simp⟩

lemma Frame.quiet (h : Frame s s' []) : Quiet s s' := ⟨[], h, by simp⟩

lemma Quiet.trans (h : Quiet s s') (h' : Quiet s' s'') : Quiet s s'' := by
  obtain ⟨l, hframe, hl⟩ := h
  obtain ⟨l', hframe', hl'⟩ := h'
  refine ⟨l ++ l', hframe.trans hframe', fun o ho => ?_⟩
  obtain ho | ho := mem_append.mp ho
  · exact hl o ho
  · exact hl' o ho

lemma frame_applyCodecChangedStream (s : Source D) (event : Event) :
    Frame s (s.applyCodecChangedStream event).1 [] := by
  unfold applyCodecChangedStream
  split
  · exact Frame.refl s
  · split
    · exact Frame.refl s
    · exact ⟨rfl, rfl, rfl, rfl, rfl, (append_nil _).symm⟩

lemma frame_applyStreamAdded (s : Source D) (event : Event) :
    Frame s (s.applyStreamAdded ops event) [] := by
  unfold applyStreamAdded
  dsimp only
  repeat' split
  all_goals exact ⟨rfl, rfl, rfl, rfl, rfl, (append_nil _).symm⟩

lemma frame_applyStreamRemoved (s : Source D) (event : Event) :
    Frame s (s.applyStreamRemoved event) [] := by
  unfold applyStreamRemoved
  split
  all_goals exact ⟨rfl, rfl, rfl, rfl, rfl, (append_nil _).symm⟩

lemma frame_resetTimestampState (s : Source D) (event : Event) :
    Frame s (s.resetTimestampState event) [] := by
  unfold resetTimestampState
  split
  all_goals exact ⟨rfl, rfl, rfl, rfl, rfl, (append_nil _).symm⟩

lemma frame_applyEvent (ops : Depacketizers D) (s : Source D) (event : Event) :
    Frame s (s.applyEvent ops event).1 [] := by
  have hchanged := frame_applyCodecChangedStream s event
  unfold applyEvent
  generalize s.applyCodecChangedStream event = changed at *
  have hadded : Frame changed.1
      (if event.type = streamAdded then changed.1.applyStreamAdded ops event else changed.1) [] := by
    split
    · exact frame_applyStreamAdded _ event
    · exact Frame.refl _
  have hremoved (s : Source D) :
      Frame s (if event.type = streamRemoved then s.applyStreamRemoved event else s) [] := by
    split
    · exact frame_applyStreamRemoved s event
    · exact Frame.refl s
  exact ((hchanged.trans hadded).trans (hremoved _)).trans (frame_resetTimestampState _ event)

lemma frame_handleEvent {event event' : Event} (h : s.handleEvent ops event = .ok (s', event')) :
    Frame s s' [] ∧ event'.type = event.type := by
  obtain ⟨told, -, h⟩ := bind_eq_ok.mp h
  cases h
  have hframe := frame_applyEvent ops s event
  refine ⟨{ hframe with }, ?_⟩
  cases (s.applyEvent ops event).2 with
  | none => rfl
  | some stream =>
    simp only [Option.map_some, canonicalizeCodecChangedEvent]
    split <;> rfl

lemma frame_emitEvent {record : Option ℕ} {event : Event} (h : s.emitEvent ops record event = .ok s') :
    ∃ event', event'.type = event.type ∧ Frame s s' [.event record event'] := by
  obtain ⟨⟨handled, event'⟩, hhandled, h⟩ := bind_eq_ok.mp h
  cases h
  obtain ⟨hframe, htype⟩ := frame_handleEvent hhandled
  refine ⟨event', htype.trans ?_, { hframe with log := by rw [hframe.log, append_nil] }⟩
  split
  · split <;> rfl
  · rfl

lemma quiet_emitEvent {event : Event} (h : s.emitEvent ops none event = .ok s') : Quiet s s' := by
  obtain ⟨event', -, hframe⟩ := frame_emitEvent h
  refine ⟨_, hframe, fun o ho => ?_⟩
  rw [mem_singleton.mp ho]
  rfl

lemma quiet_emitEvents {events : List Event} (h : s.emitEvents ops events = .ok s') : Quiet s s' :=
  foldlM_rel Quiet.refl (fun h h' => h.trans h') (fun hevent => quiet_emitEvent hevent) h

lemma frame_initTimestamp (s : Source D) (i : ℕ) (packet : Av.Packet) :
    Frame s (s.initTimestamp i packet) [] := ⟨rfl, rfl, rfl, rfl, rfl, (append_nil _).symm⟩

lemma quiet_observePacketTimestamp {packet packet' : Av.Packet}
    (h : s.observePacketTimestamp ops packet = .ok (s', packet')) : Quiet s s' := by
  unfold observePacketTimestamp at h
  dsimp only at h
  split at h
  · obtain ⟨rfl, -⟩ := Prod.mk.inj (Except.ok.inj h)
    exact Quiet.refl s
  split at h
  · obtain ⟨rfl, -⟩ := Prod.mk.inj (Except.ok.inj h)
    exact Quiet.refl s
  split at h
  · obtain ⟨rfl, -⟩ := Prod.mk.inj (Except.ok.inj h)
    exact (frame_initTimestamp s _ _).quiet
  split at h
  · obtain ⟨rfl, -⟩ := Prod.mk.inj (Except.ok.inj h)
    exact (frame_initTimestamp s _ _).quiet
  split at h
  · obtain ⟨emitted, hemitted, h⟩ := bind_eq_ok.mp h
    obtain ⟨rfl, -⟩ := Prod.mk.inj (Except.ok.inj h)
    exact (quiet_emitEvent hemitted).trans (frame_initTimestamp _ _ _).quiet
  · obtain ⟨rfl, -⟩ := Prod.mk.inj (Except.ok.inj h)
    exact (frame_initTimestamp s _ _).quiet

lemma quiet_emitResult {out : DepacketizeResult} (h : s.emitResult ops out = .ok s') : Quiet s s' := by
  obtain ⟨emitted, hemitted, h⟩ := bind_eq_ok.mp h
  refine (quiet_emitEvents hemitted).trans
    (foldlM_rel Quiet.refl (fun h h' => h.trans h') (fun {s packet s'} hpacket => ?_) h)
  obtain ⟨⟨observed, packet'⟩, hobserved, rfl⟩ := map_eq_ok.mp hpacket
  refine (quiet_observePacketTimestamp hobserved).trans
    ⟨[.packet packet'], ⟨rfl, rfl, rfl, rfl, rfl, rfl⟩, fun o ho => ?_⟩
  rw [mem_singleton.mp ho]
  trivial

lemma frame_depacketize {pkt : Packet} (h : s.depacketize ops pkt = .ok s') :
    ∃ payloads payload l, s.payloads = some payloads ∧
      payloads.lookup pkt.payloadType = some payload ∧
      Frame s s' (.depacketized (s.origin pkt) pkt payload :: l) ∧ ∀ o ∈ l, o.Quiet := by
  unfold depacketize at h
  split at h
  · cases h
  rename_i payload hpayload
  obtain ⟨payloads, hpayloads, hlookup⟩ := Option.bind_eq_some_iff.mp hpayload
  split at h
  · cases h
  obtain ⟨⟨d, out⟩, -, h⟩ := bind_eq_ok.mp h
  obtain ⟨l, hframe, hl⟩ := quiet_emitResult h
  exact ⟨payloads, payload, l, hpayloads, hlookup,
    { hframe with log := by rw [hframe.log, append_assoc]; rfl }, hl⟩

lemma quiet_flushDepacketizers (n : ℕ) : ∀ {i : ℕ} {s : Source D},
    flushDepacketizers ops n i s = .ok s' → Quiet s s' := by
  induction n with
  | zero =>
    intro i s h
    obtain rfl := Except.ok.inj h
    exact Quiet.refl s
  | succ n ih =>
    intro i s h
    unfold flushDepacketizers at h
    split at h
    · cases h
    obtain ⟨⟨d, out⟩, -, h⟩ := bind_eq_ok.mp h
    obtain ⟨emitted, hemitted, h⟩ := bind_eq_ok.mp h
    have hset : Quiet s { s with depacketizers := s.depacketizers.set i d } :=
      ⟨[], ⟨rfl, rfl, rfl, rfl, rfl, (append_nil _).symm⟩, by simp⟩
    exact (hset.trans (quiet_emitResult hemitted)).trans (ih h)

/-! ### The records that were taken -/

lemma taken_handOver {ring : JitterRing} {out : JitterResult} (h : s.handOver ops ring out = .ok s') :
    s'.taken = s.taken := by
  obtain ⟨emitted, hemitted, h⟩ := bind_eq_ok.mp h
  obtain ⟨l, hframe, -⟩ := quiet_emitEvents hemitted
  have hready : s'.taken = emitted.taken :=
    foldlM_rel (R := fun s s' : Source D => s'.taken = s.taken) (fun _ => rfl) (fun h h' => h'.trans h)
      (fun {s pkt s'} hpkt => by
        obtain ⟨_, _, _, _, _, hframe, _⟩ := frame_depacketize hpkt
        exact hframe.taken) h
  exact hready.trans hframe.taken

lemma taken_handleRTP {pkt : Packet} (h : s.handleRTP ops pkt = .ok s') : s'.taken = s.taken := by
  unfold handleRTP at h
  split at h
  · obtain ⟨_, _, _, _, _, hframe, _⟩ := frame_depacketize h
    exact hframe.taken
  · split at h
    · cases h
    · exact taken_handOver h

lemma taken_flushJitter (h : s.flushJitter ops = .ok s') : s'.taken = s.taken := by
  unfold flushJitter at h
  split at h
  · exact congrArg taken (Except.ok.inj h).symm
  · split at h
    · cases h
    · exact taken_handOver h

lemma taken_takeRecord {packet : Option Packet} {event : Option Event} {payloads : PayloadMap}
    (h : s.takeRecord ops packet event payloads = .ok s') :
    ∃ scope : StreamID, s'.taken = s.taken ++ [({ packet, scope, payloads } : Taken)] := by
  obtain ⟨scope, -, h⟩ := bind_eq_ok.mp h
  dsimp only at h
  split at h
  · cases h
  obtain ⟨epochScope, -, h⟩ := bind_eq_ok.mp h
  obtain ⟨⟨⟩, -, h⟩ := bind_eq_ok.mp h
  obtain ⟨drained, hdrained, h⟩ := bind_eq_ok.mp h
  have htaken : drained.taken = s.taken := by
    unfold drainBefore at hdrained
    split at hdrained
    · exact taken_flushJitter hdrained
    · exact congrArg taken (Except.ok.inj hdrained).symm
  refine ⟨scope, ?_⟩
  rw [← htaken]
  split at h
  · cases h
    rfl
  · obtain ⟨event', -, hframe⟩ := frame_emitEvent h
    exact hframe.taken

/-- **A read adds its record**; only one that ends the reading has none. -/
lemma taken_takeRead {r : Record} (h : s.takeRead ops r = .ok s') :
    (s'.taken = s.taken ∧ r.err ≠ none) ∨
      ∃ x, s'.taken = s.taken ++ [x] ∧ r.packet = x.packet ∧ r.payloads = some x.payloads := by
  obtain ⟨recorded, hrecorded, h⟩ := bind_eq_ok.mp h
  have hpacket : s'.taken = recorded.taken := by
    split at h
    · exact congrArg taken (Except.ok.inj h).symm
    · have hkept := taken_handleRTP h
      exact hkept
  unfold readRecord at hrecorded
  split at hrecorded
  · split at hrecorded
    · cases hrecorded
    · rename_i payloads hpayloads
      split at hrecorded
      · cases hrecorded
      · obtain ⟨scope, htaken⟩ := taken_takeRecord hrecorded
        exact .inr ⟨_, hpacket.trans htaken, rfl, hpayloads⟩
  · rename_i hends
    cases hrecorded
    exact .inl ⟨hpacket, fun herr => hends (.inl (by simp [herr]))⟩

lemma taken_flush (h : s.flush ops = .ok s') : s'.taken = s.taken := by
  obtain ⟨drained, hdrained, h⟩ := bind_eq_ok.mp h
  obtain ⟨l, hframe, -⟩ := quiet_flushDepacketizers _ h
  exact hframe.taken.trans (taken_flushJitter hdrained)

/-- **The records that were taken are those that were read.** -/
lemma taken_start {reads : List Record} : ∀ {s : Source D}, s.start ops reads = .ok s' →
    ∃ l, s'.taken = s.taken ++ l ∧ ∀ (k : ℕ) (x : Taken), l[k]? = some x →
      ∃ r : Record, reads[k]? = some r ∧ r.packet = x.packet ∧ r.payloads = some x.payloads := by
  induction reads with
  | nil =>
    intro s h
    cases h
    exact ⟨[], (append_nil _).symm, by simp⟩
  | cons r reads ih =>
    intro s h
    obtain ⟨taken, htaken, h⟩ := bind_eq_ok.mp h
    have hcases := taken_takeRead htaken
    split at h
    · rename_i herr
      obtain ⟨-, hnot⟩ | ⟨x, hx, hpacket, hpayloads⟩ := hcases
      · exact absurd herr hnot
      · obtain ⟨l, hl, hreads⟩ := ih h
        refine ⟨x :: l, by rw [hl, hx, append_assoc]; rfl, fun k y hy => ?_⟩
        cases k with
        | zero =>
          cases hy
          exact ⟨r, rfl, hpacket, hpayloads⟩
        | succ k => exact hreads k y hy
    · cases h
    · obtain ⟨flushed, hflushed, h⟩ := bind_eq_ok.mp h
      obtain ⟨event', -, hframe⟩ := frame_emitEvent h
      have hend : s'.taken = taken.taken := hframe.taken.trans (taken_flush hflushed)
      obtain ⟨hsame, -⟩ | ⟨x, hx, hpacket, hpayloads⟩ := hcases
      · exact ⟨[], by rw [hend, hsame, append_nil], by simp⟩
      · refine ⟨[x], hend.trans hx, fun k y hy => ?_⟩
        cases k with
        | zero =>
          cases hy
          exact ⟨r, rfl, hpacket, hpayloads⟩
        | succ k => cases hy

end Source

end Goav.Rtpav
