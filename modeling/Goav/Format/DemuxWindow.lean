import Goav.Pipeline.Message

/-!
The segment window of `DemuxSource` (`format/stage.go`). The demuxer is the list of what its reads return up
to the end of media. Pacing and errors are left out, and no other control comes in once the segment's was
applied.
-/

namespace Goav.Format

open Goav.Av Goav.Pipeline List

structure DemuxWindow where
  active : Bool := false
  end_ : ℤ := 0
  done : List StreamID := []

structure DemuxSource where
  streams : List Stream
  window : DemuxWindow := {}

structure ReadResult where
  events : List Event := []
  packet : Option Packet := none

structure TimeControlRequest where
  position : ℤ
  /-- The exclusive end of a segment; a seek has none. -/
  end_ : ℤ := 0

namespace DemuxSource

/-- An event about the source; it names the stream of a source that has only one. -/
def event (s : DemuxSource) (type : EventType) (reason : String) : Event :=
  match s.streams with
  | [stream] => { type, streamID := stream.id, epoch := stream.epoch, reason }
  | _ => { type, reason }

def applyControl (s : DemuxSource) (request : TimeControlRequest) : DemuxSource × Event :=
  let active := decide (0 < request.end_)
  ({ s with window := { active, end_ := request.end_ } },
    s.event .discontinuity (if active then "segment" else "seek"))

def markWindowStreamDone (s : DemuxSource) (id : StreamID) : DemuxSource :=
  if id ∈ s.window.done then s
  else { s with window := { s.window with done := s.window.done ++ [id] } }

def windowFinished (s : DemuxSource) : Bool :=
  s.streams.all fun stream => decide (stream.id ∈ s.window.done)

/-- Whether a packet is emitted, and whether every declared stream passed the end. -/
def windowAdmits (s : DemuxSource) (packet : Packet) : DemuxSource × Bool × Bool :=
  if s.window.active then
    match packet.pts.toDuration with
    | none => (s, true, false)
    | some pts =>
      if pts < s.window.end_ then (s, decide (packet.streamID ∉ s.window.done), false)
      else
        let s := s.markWindowStreamDone packet.streamID
        (s, false, s.windowFinished)
  else (s, true, false)

def stampPacketType (s : DemuxSource) (packet : Packet) : Packet :=
  if packet.type ≠ .unknown then packet
  else
    match s.streams.find? (·.id = packet.streamID) with
    | none => packet
    | some stream => { packet with type := stream.type }

def endOfStream (s : DemuxSource) : Message := .event (some (s.event .endOfStream ""))

def pump (s : DemuxSource) : List ReadResult → List Message
  | [] => [s.endOfStream]
  | r :: reads =>
    r.events.map (fun event => .event (some event)) ++ match r.packet with
      | none => s.pump reads
      | some packet =>
        match s.windowAdmits packet with
        | (_, _, true) => [s.endOfStream]
        | (s', emit, false) =>
          (if emit then [.packet (some (s.stampPacketType packet))] else []) ++ s'.pump reads

end DemuxSource

/-! ### What a window is for -/

def packetsOf (messages : List Message) : List Packet :=
  messages.filterMap fun
    | .packet packet => packet
    | _ => none

def past (end_ : ℤ) (packet : Packet) : Bool := packet.pts.toDuration.any (end_ ≤ ·)

def complete (streams : List Stream) (end_ : ℤ) (packets : List Packet) : Bool :=
  streams.all fun stream => packets.any fun p => past end_ p && decide (p.streamID = stream.id)

/-- The first `n` packets complete the streams, or are all there are. -/
def WindowEnds (streams : List Stream) (end_ : ℤ) (seen packets : List Packet) (n : ℕ) : Prop :=
  (∀ k < n, !complete streams end_ (seen ++ packets.take k)) ∧
    (n = packets.length ∨ complete streams end_ (seen ++ packets.take n))

/-- The packets before the end are emitted, up to the one that completes the streams. -/
def PlaysWindow (s : DemuxSource) (end_ : ℤ) (packets : List Packet) (messages : List Message) : Prop :=
  ∃ n ≤ packets.length, WindowEnds s.streams end_ [] packets n ∧
    packetsOf messages = ((packets.take n).filter (!past end_ ·)).map s.stampPacketType ∧
    messages.getLast? = some s.endOfStream

/-- The stream of a packet does not come back before the end it has passed. -/
def Stays (end_ : ℤ) (seen : List Packet) (p : Packet) : Prop :=
  ∀ q ∈ seen, past end_ q → q.streamID = p.streamID → p.pts.toDuration.all (end_ ≤ ·)

/-- No stream comes back before the end until all have passed it. -/
def StaysPast (streams : List Stream) (end_ : ℤ) (seen packets : List Packet) : Prop :=
  ∀ k (hk : k < packets.length), complete streams end_ (seen ++ packets.take k) = false →
    Stays end_ (seen ++ packets.take k) packets[k]

/-! ### The loop -/

structure Noted (s : DemuxSource) (end_ : ℤ) (seen : List Packet) : Prop where
  active : s.window.active = true
  bound : s.window.end_ = end_
  done : ∀ id, id ∈ s.window.done ↔ ∃ p ∈ seen, past end_ p ∧ p.streamID = id

variable {s : DemuxSource} {end_ : ℤ} {streams : List Stream} {seen packets : List Packet}
  {p : Packet}

lemma Noted.finished_eq (h : Noted s end_ seen) : s.windowFinished = complete s.streams end_ seen := by
  rw [Bool.eq_iff_iff]
  simp [DemuxSource.windowFinished, complete, h.done]

lemma complete_before (hp : past end_ p = false) :
    complete streams end_ (seen ++ [p]) = complete streams end_ seen := by
  simp [complete, hp]

lemma Noted.before (h : Noted s end_ seen) (hp : past end_ p = false) : Noted s end_ (seen ++ [p]) :=
  { h with done := fun id => by simp [h.done, hp] }

lemma Noted.mark (h : Noted s end_ seen) (hp : past end_ p = true) :
    ∃ w, s.markWindowStreamDone p.streamID = { s with window := w } ∧
      Noted { s with window := w } end_ (seen ++ [p]) := by
  unfold DemuxSource.markWindowStreamDone
  split_ifs with hmem
  · obtain ⟨q, hq, hpast⟩ := (h.done _).mp hmem
    refine ⟨s.window, rfl, { h with done := fun id => ?_ }⟩
    rw [h.done]
    grind
  · refine ⟨_, rfl, h.active, h.bound, fun id => ?_⟩
    rw [mem_append, h.done]
    grind

/-- A packet before the end is emitted unless its stream has passed it, and one ends the source when it
completes the streams. -/
lemma Noted.admits (h : Noted s end_ seen) (hopen : complete s.streams end_ seen = false) :
    ∃ w emit, s.windowAdmits p = ({ s with window := w }, emit, complete s.streams end_ (seen ++ [p])) ∧
      Noted { s with window := w } end_ (seen ++ [p]) ∧ (Stays end_ seen p → emit = !past end_ p) ∧
      (¬ Stays end_ seen p → emit = false ∧ past end_ p = false) := by
  unfold DemuxSource.windowAdmits
  rw [if_pos h.active, h.bound]
  cases hpts : p.pts.toDuration with
  | none =>
    have hp : past end_ p = false := by simp [past, hpts]
    exact ⟨s.window, true, by rw [complete_before hp, hopen], h.before hp, fun _ => by rw [hp]; rfl,
      fun hback => absurd (fun q _ _ _ => by simp [hpts]) hback⟩
  | some pts =>
    by_cases hlt : pts < end_
    · have hp : past end_ p = false := by simp [past, hpts, hlt]
      have hfresh : p.streamID ∉ s.window.done ↔ Stays end_ seen p := by
        simp [h.done, Stays, hpts, hlt.not_ge]
      refine ⟨s.window, decide (p.streamID ∉ s.window.done), by simp [hlt, complete_before hp, hopen],
        h.before hp, fun hstays => ?_, fun hback => ⟨decide_eq_false (mt hfresh.mp hback), hp⟩⟩
      rw [hp, decide_eq_true (hfresh.mpr hstays)]
      rfl
    · have hp : past end_ p = true := by simpa [past, hpts] using hlt
      obtain ⟨w, hw, hnoted⟩ := h.mark hp
      refine ⟨w, false, ?_, hnoted, fun _ => by rw [hp]; rfl, fun hback => ?_⟩
      · simp only [if_neg hlt, hw, hnoted.finished_eq]
      · exact absurd (fun q _ _ _ => by simpa [hpts] using hlt) hback

lemma WindowEnds.le {m n : ℕ} (hm : WindowEnds streams end_ seen packets m)
    (hn : WindowEnds streams end_ seen packets n) (hle : n ≤ packets.length) : n ≤ m := by
  by_contra! hlt
  rcases hm.2 with rfl | hcomplete
  · exact absurd hle hlt.not_ge
  · simpa [hcomplete] using hn.1 m hlt

lemma complete_append (h : complete streams end_ seen = true) :
    complete streams end_ (seen ++ packets) = true := by
  simp only [complete, all_eq_true, any_append, Bool.or_eq_true] at h ⊢
  exact fun stream hstream => .inl (h stream hstream)

lemma staysPast_of_complete (h : complete streams end_ seen = true) :
    StaysPast streams end_ seen packets := by
  intro k _ hk
  rw [complete_append h] at hk
  cases hk

lemma staysPast_cons (hopen : complete streams end_ seen = false) : StaysPast streams end_ seen (p :: packets) ↔
      Stays end_ seen p ∧ StaysPast streams end_ (seen ++ [p]) packets := by
  constructor
  · refine fun h => ⟨?_, fun k hk hk' => ?_⟩
    · simpa using h 0 (Nat.succ_pos _) (by simpa using hopen)
    · simpa using h (k + 1) (Nat.succ_lt_succ hk) (by simpa using hk')
  · rintro ⟨hp, h⟩ (_ | k) hk hk'
    · simpa using hp
    · simpa using h k (Nat.lt_of_succ_lt_succ hk) (by simpa using hk')

lemma packetsOf_events (events : List Event) (messages : List Message) :
    packetsOf (events.map (fun event => .event (some event)) ++ messages) = packetsOf messages := by
  simp [packetsOf]

/-- The loop emits packets of the window only, and all of them exactly if no stream comes back. -/
lemma pump_plays (reads : List ReadResult) : ∀ {s : DemuxSource} {seen : List Packet},
    Noted s end_ seen → complete s.streams end_ seen = false →
    let packets := reads.filterMap (·.packet)
    ∃ n ≤ packets.length, WindowEnds s.streams end_ seen packets n ∧
      (s.pump reads).getLast? = some s.endOfStream ∧
      (packetsOf (s.pump reads)).length ≤ ((packets.take n).filter (!past end_ ·)).length ∧
      (packetsOf (s.pump reads) = ((packets.take n).filter (!past end_ ·)).map s.stampPacketType ↔
        StaysPast s.streams end_ seen packets) := by
  induction reads with
  | nil => exact fun _ _ => ⟨0, le_rfl, ⟨nofun, .inl rfl⟩, rfl, le_rfl, iff_of_true rfl nofun⟩
  | cons r reads ih =>
    intro s seen h hopen
    rw [DemuxSource.pump]
    cases hr : r.packet with
    | none =>
      rw [filterMap_cons_none hr]
      obtain ⟨n, hle, hn, hlast, hpackets⟩ := ih h hopen
      refine ⟨n, hle, hn, ?_, ?_⟩
      · rw [getLast?_append, hlast]
        rfl
      · rwa [packetsOf_events]
    | some p =>
      rw [filterMap_cons_some hr]
      obtain ⟨w, emit, hw, hnoted, hstays, hback⟩ := h.admits (p := p) hopen
      simp only [hw, staysPast_cons hopen]
      cases hend : complete s.streams end_ (seen ++ [p]) with
      | true =>
        have hp : past end_ p = true := by
          by_contra hp
          rw [complete_before (by simpa using hp), hopen] at hend
          cases hend
        have hnone : packetsOf [s.endOfStream] = [] := rfl
        refine ⟨1, by simp, ⟨fun k hk => ?_, .inr hend⟩, ?_, ?_, ?_⟩
        · obtain rfl := Nat.lt_one_iff.mp hk
          simpa using hopen
        · rw [getLast?_append]
          rfl
        · simp [packetsOf_events, hnone]
        · have hsame : Stays end_ seen p := by_contra fun hlate => by simpa [hp] using (hback hlate).2
          simp [packetsOf_events, hnone, hp, hsame, staysPast_of_complete hend]
      | false =>
        obtain ⟨n, hn, ⟨hbefore, hrest⟩, hlast, hle, hiff⟩ := ih hnoted hend
        refine ⟨n + 1, by simpa using hn, ⟨fun k hk => ?_, by simpa using hrest⟩, ?_, ?_⟩
        · cases k with
          | zero => simpa using hopen
          | succ k => simpa using hbefore k (Nat.lt_of_succ_lt_succ hk)
        · rw [getLast?_append, getLast?_append, hlast]
          rfl
        rw [packetsOf_events, take_succ_cons]
        by_cases hp : Stays end_ seen p
        · rw [hstays hp]
          simp only [hp, true_and, ← hiff]
          cases hpast : past end_ p
          all_goals exact ⟨by simpa [hpast, packetsOf] using hle, by simp [hpast, packetsOf]; rfl⟩
        · -- the packet belongs to the window and is lost, so the window's list is the longer one
          obtain ⟨rfl, hpast⟩ := hback hp
          dsimp only
          rw [if_neg Bool.false_ne_true, nil_append, filter_cons_of_pos (by simp [hpast])]
          refine ⟨Nat.le_succ_of_le hle, iff_of_false (fun heq => ?_) fun h => hp h.1⟩
          rw [heq, length_map] at hle
          exact Nat.not_succ_le_self _ hle

/-- **A segment plays its window** exactly if no stream comes back before the end. -/
theorem segment_plays_window (s : DemuxSource) (request : TimeControlRequest) (reads : List ReadResult)
    (hsegment : 0 < request.end_) (hstreams : s.streams ≠ []) :
    let packets := reads.filterMap (·.packet)
    PlaysWindow s request.end_ packets ((s.applyControl request).1.pump reads) ↔
      StaysPast s.streams request.end_ [] packets := by
  intro packets
  have hopen : complete s.streams request.end_ [] = false := by
    obtain ⟨stream, streams, hcons⟩ := exists_cons_of_ne_nil hstreams
    simp [complete, hcons]
  obtain ⟨n, hle, hn, hlast, -, hiff⟩ := pump_plays (s := (s.applyControl request).1) reads
    ⟨decide_eq_true hsegment, rfl, by simp [DemuxSource.applyControl]⟩ hopen
  constructor
  · rintro ⟨m, hle', hm, hpackets, -⟩
    obtain rfl := Nat.le_antisymm (hn.le hm hle') (hm.le hn hle)
    exact hiff.mp hpackets
  · exact fun hstays => ⟨n, hle, hn, hiff.mpr hstays, hlast⟩

def twoStreams : DemuxSource := { streams := [{ id := "v" }, { id := "a" }] }

def readsAt (at_ : List (StreamID × ℤ)) : List ReadResult :=
  at_.map fun (streamID, value) =>
    { packet := some { streamID, pts := { value, base := { num := 1, den := 1000000000 } } } }

theorem segment_plays_window_in_order :
    let reads := readsAt [("v", 0), ("v", 10), ("v", 30), ("a", 25)]
    PlaysWindow twoStreams 20 (reads.filterMap (·.packet))
      ((twoStreams.applyControl { position := 0, end_ := 20 }).1.pump reads) :=
  (segment_plays_window _ { position := 0, end_ := 20 } _ (by decide) (by decide))
    |>.mpr (by unfold StaysPast Stays; decide +kernel)

/-- The third packet presents before the end and the second one past it: it is dropped. -/
theorem segment_drops_reordered :
    let reads := readsAt [("v", 0), ("v", 30), ("v", 10), ("a", 25)]
    ¬ PlaysWindow twoStreams 20 (reads.filterMap (·.packet))
      ((twoStreams.applyControl { position := 0, end_ := 20 }).1.pump reads) := by
  unfold PlaysWindow WindowEnds
  decide +kernel

end Goav.Format
