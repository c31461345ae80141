import Mathlib
import Goav.Rtpav.JitterOrder
import Goav.Rtpav.SourceMaps

/-!
Whether the jitter result of a source has room for what its ring releases.
-/

namespace Goav.Rtpav

open Goav.Av Goav.Lib List

namespace JitterRing

lemma flushLoop_room (n : ℕ) : ∀ (m : ℕ) (b : JitterRing) (out : JitterResult),
    out.ready.length + m ≤ out.readyCap → (flushLoop n m b out).2.2 = none ∧
      (flushLoop n m b out).1.slots.length = b.slots.length := by
  induction n with
  | zero => rintro (_ | m) b out - <;> exact ⟨rfl, rfl⟩
  | succ n ih =>
    rintro (_ | m) b out hroom
    · exact ⟨rfl, rfl⟩
    rw [flushLoop]
    split
    · exact ih _ _ _ hroom
    · rw [appendReady, if_neg (by omega)]
      have := ih m b.clearHead.advance { out with ready := out.ready ++ [‹Packet›] } (by
        simp only [length_append, length_singleton]
        omega)
      exact ⟨this.1, this.2.trans (by simp [clearHead, advance])⟩

lemma flushInto_room (b : JitterRing) (out : JitterResult)
    (hroom : out.ready.length + b.slots.length ≤ out.readyCap) :
    (b.flushInto none out).2.2 = none ∧ (b.flushInto none out).1.slots.length = b.slots.length := by
  have hle : b.buffered ≤ b.slots.length := countP_le_length
  have h := flushLoop_room b.slots.length b.buffered b out (by omega)
  unfold flushInto
  rcases hd : flushLoop b.slots.length b.buffered b out with ⟨b', out', e⟩
  rw [hd] at h
  obtain rfl : e = none := h.1
  exact ⟨rfl, h.2⟩

end JitterRing

namespace Source

variable {D : Type} {ops : Depacketizers D} {s : Source D}

/-- The result has room for the ring. -/
def Roomy (s : Source D) : Prop :=
  2 ≤ s.maxEvents ∧ ∀ ring ∈ s.jitter, ring.slots.length ≤ s.maxReady

abbrev NotFull (e : SourceErr) : Prop := e ≠ .jitter .resultFull

lemma ends_mapError {α : Type} (x : Except Err α) :
    Ends NotFull (fun _ => True) (x.mapError SourceErr.depacketizer) := by
  cases x <;> simp [Except.mapError, Ends]

section

variable (h : s.Roomy)
include h

lemma Roomy.applyEvent (event : Event) : (s.applyEvent ops event).1.Roomy := by
  have hchanged : (s.applyCodecChangedStream event).1.Roomy := by
    unfold applyCodecChangedStream
    repeat' split
    all_goals exact h
  have hadded {s : Source D} (h : s.Roomy) : (s.applyStreamAdded ops event).Roomy := by
    unfold applyStreamAdded
    dsimp only
    repeat' split
    all_goals exact h
  have hremoved {s : Source D} (h : s.Roomy) : (s.applyStreamRemoved event).Roomy := by
    unfold applyStreamRemoved
    split <;> exact h
  have hreset {s : Source D} (h : s.Roomy) : (s.resetTimestampState event).Roomy := by
    unfold resetTimestampState
    split <;> exact h
  have hite {s t : Source D} {c : Prop} [Decidable c] (hs : s.Roomy) (ht : s.Roomy → t.Roomy) :
      (if c then t else s).Roomy := by
    split
    · exact ht hs
    · exact hs
  exact hreset (hite (hite hchanged hadded) hremoved)

lemma Roomy.emitEvent (record : Option ℕ) (event : Event) :
    Ends NotFull Roomy (s.emitEvent ops record event) := by
  have hnotify (s : Source D) (target canonical event) (d : D) :
      Ends NotFull (fun _ => True) (s.notify ops target canonical event d) := by
    unfold notify
    dsimp only
    split
    · trivial
    · exact ends_mapError _
  refine Ends.bind (P := fun r => r.1.Roomy) ?_ fun r hr => hr
  exact (Ends.mapM (hnotify _ _ _ _) _).bind fun told _ => h.applyEvent _

lemma Roomy.emitEvents (events : List Event) : Ends NotFull Roomy (s.emitEvents ops events) :=
  Ends.foldlM (fun h => h.emitEvent none _) events h

lemma Roomy.observePacketTimestamp (packet : Av.Packet) :
    Ends NotFull (·.1.Roomy) (s.observePacketTimestamp ops packet) := by
  unfold Source.observePacketTimestamp
  dsimp only
  repeat' split
  any_goals exact h
  all_goals exact (h.emitEvent none _).bind fun _ hs => hs

lemma Roomy.emitResult (out : DepacketizeResult) :
    Ends NotFull Roomy (s.emitResult ops out) :=
  (h.emitEvents _).bind fun _ hs =>
    Ends.foldlM (fun hs => Ends.map (hs.observePacketTimestamp _)) _ hs

lemma Roomy.depacketize (pkt : Packet) : Ends NotFull Roomy (s.depacketize ops pkt) := by
  unfold Source.depacketize
  split
  · simp [Ends]
  split
  · simp [Ends]
  exact (ends_mapError _).bind fun r _ => emitResult (by exact h) r.2

lemma Roomy.handOver {ring : JitterRing} (hring : ring.slots.length ≤ s.maxReady)
    (out : JitterResult) : Ends NotFull Roomy (s.handOver ops ring out) :=
  (emitEvents (s := { s with jitter := some ring }) ⟨h.1, by simpa using hring⟩ _).bind fun _ hs =>
    Ends.foldlM (fun hs => hs.depacketize _) _ hs

lemma Roomy.handleRTP (pkt : Packet) : Ends NotFull Roomy (s.handleRTP ops pkt) := by
  unfold Source.handleRTP
  split
  · exact h.depacketize pkt
  rename_i ring hring
  have hle := h.2 ring hring
  have hroom := ring.pushInto_room pkt s.jitterResult (by simpa [jitterResult] using hle)
    (by simpa [jitterResult] using h.1)
  rcases hpush : ring.pushInto none pkt s.jitterResult with ⟨ring', out, e⟩
  rw [hpush] at hroom
  obtain rfl : e = none := hroom.1
  exact h.handOver (hroom.2.trans_le hle) out

lemma Roomy.flushJitter : Ends NotFull Roomy (s.flushJitter ops) := by
  unfold Source.flushJitter
  split
  · exact h
  rename_i ring hring
  have hle := h.2 ring hring
  have hroom := ring.flushInto_room s.jitterResult (by simpa [jitterResult] using hle)
  rcases hflush : ring.flushInto none s.jitterResult with ⟨ring', out, e⟩
  rw [hflush] at hroom
  obtain rfl : e = none := hroom.1
  exact h.handOver (hroom.2.trans_le hle) out

end

lemma Roomy.flushDepacketizers (n : ℕ) : ∀ {i : ℕ} {s : Source D}, s.Roomy →
    Ends NotFull Roomy (flushDepacketizers ops n i s) := by
  induction n with
  | zero => exact fun h => h
  | succ n ih =>
    intro i s h
    unfold Source.flushDepacketizers
    split
    · simp [Ends]
    exact (ends_mapError _).bind fun r _ => (emitResult (by exact h) r.2).bind fun _ hs => ih hs

lemma ends_recordScope (s : Source D) (packet : Option Packet) (event : Option Event) (payloads : PayloadMap) :
    Ends NotFull (fun _ => True) (s.recordScope packet event payloads) := by
  have hevent (event) : Ends NotFull (fun _ => True) (s.eventScope event) := by
    unfold eventScope
    repeat' split
    all_goals simp [Ends, Except.map]
  have hpacket (scope payload) : Ends NotFull (fun _ => True) (s.packetScope scope payload) := by
    unfold packetScope
    repeat' split
    case' isFalse.isFalse =>
      refine Ends.foldlM (fun _ => ?_) _ trivial
      repeat' split
    all_goals simp [Ends]
  unfold recordScope
  dsimp only
  split
  all_goals refine Ends.bind (P := fun _ => True) (by first | trivial | exact hevent _) fun r _ => ?_
  all_goals
    repeat' split
    all_goals
      refine Ends.bind (P := fun _ => True) (by first | exact hpacket _ _ | simp [Ends]) fun _ _ => ?_
      repeat' split
      all_goals simp [Ends]

lemma Roomy.takeRecord (h : s.Roomy) (packet : Option Packet) (event : Option Event) (payloads : PayloadMap) :
    Ends NotFull Roomy (s.takeRecord ops packet event payloads) := by
  refine (ends_recordScope s packet event payloads).bind fun scope _ => ?_
  dsimp only
  split_ifs
  · simp [Ends]
  refine Ends.bind (P := fun _ => True) ?_ fun epochScope _ => Ends.bind (P := fun _ => True) ?_ fun _ _ =>
    Ends.bind (P := Roomy) ?_ fun drained hs => ?_
  · unfold recordEpochScope
    repeat' split
    all_goals simp [Ends]
  · unfold checkEpoch
    repeat' split
    all_goals simp [Ends]
  · unfold drainBefore
    split
    · exact h.flushJitter
    · exact h
  · have hswitched : (drained.switch (s.replacesJitterStream event) (s.resetsJitter event) packet event scope
        epochScope payloads).Roomy := by
      refine ⟨hs.1, fun ring hring => ?_⟩
      simp only [switch] at hring
      split at hring
      · obtain ⟨ring', hring', rfl⟩ := Option.map_eq_some_iff.mp hring
        simpa [JitterRing.reset, switch] using hs.2 ring' hring'
      · exact hs.2 ring hring
    split
    · exact hswitched
    · exact hswitched.emitEvent _ _

lemma Roomy.takeRead (h : s.Roomy) (r : Record) : Ends NotFull Roomy (s.takeRead ops r) := by
  refine Ends.bind (P := Roomy) ?_ fun s hs => ?_
  · unfold readRecord
    repeat' split
    · simp [Ends]
    · simp [Ends]
    · exact h.takeRecord _ _ _
    · exact h
  · split
    · exact hs
    · exact handleRTP (by exact hs) _

lemma Roomy.start {reads : List Record} :
    ∀ {s : Source D}, s.Roomy → Ends NotFull Roomy (s.start ops reads) := by
  induction reads with
  | nil => exact fun h => h
  | cons r reads ih =>
    refine fun h => (h.takeRead r).bind fun s hs => ?_
    split
    · exact ih hs
    · simp [Ends]
    · exact Ends.bind (P := Roomy) (hs.flushJitter.bind fun _ hs => hs.flushDepacketizers _) fun _ hs =>
        hs.emitEvent _ _

end Source

/-- **The jitter result has room for what the ring releases**, which has at most 16 slots. -/
theorem start_jitter_roomy {D : Type} (ops : Depacketizers D) (config : SourceConfig D)
    (hready : config.maxReady = 0) (hevents : config.maxEvents = 0)
    (hring : ∀ ring ∈ config.jitter, ring.slots.length ≤ 16) (reads : List Record) :
    (newSource config).start ops reads ≠ .error (.jitter .resultFull) := by
  have hroomy : (newSource config).Roomy := by
    simpa [Source.Roomy, newSource, positiveOrDefault, hready, hevents] using hring
  have hends : Ends Source.NotFull Source.Roomy ((newSource config).start ops reads) := hroomy.start
  intro heq
  rw [heq] at hends
  exact hends rfl

def readsOf (numbers : List UInt16) : List Record :=
  numbers.map (fun n => { packet := some (samplePacket n), payloads := some sampleMap }) ++
    [{ err := some .eof }]

theorem start_jitter_roomy_two :
    ((newSource sampleConfig).start sampleDepacketizers (readsOf [1, 3, 2])).isOk = true ∧
      (newSource sampleConfig).start sampleDepacketizers (readsOf [1, 3, 2]) ≠ .error (.jitter .resultFull) :=
  ⟨by decide, start_jitter_roomy _ _ rfl rfl (by simp [sampleConfig]) _⟩

/-- **From 17 slots on the result can be full**: one packet brings as many in order. -/
theorem start_resultFull (n : ℕ) :
    (newSource { sampleConfig with jitter := some { slots := replicate (n + 17) {} } }).start
      sampleDepacketizers (readsOf (0 :: (List.range 16).map (fun n => .ofNat (n + 2)) ++ [1])) =
      .error (.jitter .resultFull) := by
  -- the packet before the last is in the first slot of 17, and else behind the others
  cases n <;> cbv

theorem start_jitter_full : ¬ ∀ (capacity : ℕ) (reads : List Record),
    (newSource { sampleConfig with jitter := some { slots := replicate capacity {} } }).start
      sampleDepacketizers reads ≠ .error (.jitter .resultFull) :=
  fun h => h 17 _ (start_resultFull 0)

end Goav.Rtpav
