import Goav.Rtpav.JitterDefs
import Mathlib.Data.List.ReduceOption

/-!
The jitter ring read from its head: cell `d` stands for the sequence number `expected + d` (`Ok`).
`place` writes one cell and releases the longest full prefix; `flushInto` releases every full cell.
-/

namespace Goav.Rtpav

open Goav.Av Goav.Lib List Option

def Consecutive (e : UInt16) (l : List Packet) : Prop :=
  ∀ i p, l[i]? = some p → p.sequenceNumber = e + UInt16.ofNat i

lemma consecutive_nil (e : UInt16) : Consecutive e [] := by
  intro i p h
  simp at h

lemma ofNat_succ (i : ℕ) : UInt16.ofNat (i + 1) = UInt16.ofNat i + 1 := by
  rw [UInt16.ofNat_add]; rfl

lemma consecutive_cons {e : UInt16} {p : Packet} {l : List Packet} :
    Consecutive e (p :: l) ↔ p.sequenceNumber = e ∧ Consecutive (e + 1) l := by
  constructor
  · intro h
    refine ⟨by simpa using h 0 p rfl, fun i q hq => ?_⟩
    rw [h (i + 1) q (by simpa using hq), ofNat_succ]
    ac_rfl
  · rintro ⟨h0, h⟩ i q hq
    cases i with
    | zero =>
      simp only [getElem?_cons_zero, some.injEq] at hq
      subst hq
      simpa using h0
    | succ i =>
      rw [h i q (by simpa using hq), ofNat_succ]
      ac_rfl

namespace JitterRing

/-! ### The window -/

def window (b : JitterRing) : List JitterSlot := b.slots.rotate b.head

def cells (b : JitterRing) : List (Option Packet) := b.window.map (·.packet)

/-- A packet `d` slots past the head is the one numbered `expected + d`. -/
structure Ok (b : JitterRing) : Prop where
  head_lt : b.head < b.slots.length
  seqs : ∀ d s p, b.window[d]? = some s → s.packet = some p →
    s.seq = b.expected + UInt16.ofNat d ∧ p.sequenceNumber = s.seq ∧ d < 0x8000

def Drained (b : JitterRing) : Prop := ∀ p, b.cells.head? ≠ some (some p)

@[simp] lemma window_length (b : JitterRing) : b.window.length = b.slots.length := by
  simp [window]

@[simp] lemma cells_length (b : JitterRing) : b.cells.length = b.slots.length := by
  simp [cells]

variable {b b' : JitterRing} {s : JitterSlot} {w : List JitterSlot} {p : Packet} {rel : List Packet}
  {out out' : JitterResult}

lemma Ok.pos (hb : b.Ok) : 0 < b.slots.length := by
  have := hb.head_lt
  omega

lemma exists_window (hb : b.Ok) : ∃ s w, b.window = s :: w := by
  rcases h : b.window with _ | ⟨s, w⟩
  · have hlen := b.window_length
    have hpos := hb.pos
    rw [h, length_nil] at hlen
    omega
  · exact ⟨s, w, rfl⟩

lemma headSlot_eq (hb : b.Ok) (hw : b.window = s :: w) : b.headSlot = s := by
  unfold headSlot
  rw [head_rotate _ hb.head_lt]
  show b.window.getD 0 {} = s
  rw [hw]
  rfl

lemma window_advance (hw : b.window = s :: w) : b.advance.window = w ++ [s] := by
  show b.slots.rotate (Lib.advance b.slots.length b.head) = _
  rw [rotate_advance]
  show b.window.rotate 1 = _
  rw [hw]
  simp

section

variable (hb : b.Ok)
include hb

section

variable (hw : b.window = s :: w)
include hw

lemma window_clearHead :
    b.clearHead.window = { s with packet := none } :: w := by
  show (b.slots.set b.head _).rotate b.head = _
  rw [rotate_set_head _ hb.head_lt, headSlot_eq hb hw]
  show b.window.set 0 _ = _
  rw [hw]
  rfl

lemma window_release :
    b.clearHead.advance.window = w ++ [{ s with packet := none }] :=
  window_advance (window_clearHead hb hw)

lemma Ok.move {t : JitterSlot} (ht : t.packet = none)
    (hw' : b'.window = w ++ [t]) (he : b'.expected = b.expected + 1)
    (hh : b'.head < b'.slots.length) : b'.Ok := by
  refine ⟨hh, fun d u p hd hp => ?_⟩
  rw [hw', getElem?_append] at hd
  split at hd
  · obtain ⟨h1, h2, h3⟩ := hb.seqs (d + 1) u p (by rw [hw]; simpa using hd) hp
    refine ⟨?_, h2, by omega⟩
    rw [h1, he, ofNat_succ]
    ac_rfl
  · -- the slot that left the head is empty
    have : u = t := by
      rcases hk : d - w.length with _ | k <;> rw [hk] at hd <;> simp at hd
      exact hd.symm
    rw [this, ht] at hp
    cases hp

end

lemma Ok.release : b.clearHead.advance.Ok := by
  obtain ⟨s, w, hw⟩ := exists_window hb
  refine hb.move hw rfl (window_release hb hw) rfl ?_
  show Lib.advance (b.slots.set b.head _).length b.head < (b.slots.set b.head _).length
  rw [length_set]
  exact advance_lt hb.head_lt

section

variable (hw : b.window = s :: w)
include hw

lemma Ok.skip (hs : s.packet = none) : b.advance.Ok :=
  hb.move hw hs (window_advance hw) rfl (advance_lt hb.head_lt)

lemma cells_release :
    b.clearHead.advance.cells = w.map (·.packet) ++ [none] := by
  unfold cells
  rw [window_release hb hw]
  simp

lemma Ok.seq_head (hp : s.packet = some p) :
    s.seq = b.expected ∧ p.sequenceNumber = b.expected := by
  obtain ⟨hslot, hpacket, -⟩ := hb.seqs 0 s p (by rw [hw]; rfl) hp
  have hseq : s.seq = b.expected := by simpa using hslot
  exact ⟨hseq, hpacket.trans hseq⟩

end

/-- The cells of the ring and its other fields after the packets `rel` left from the head. -/
structure Releases (b b' : JitterRing) (rel : List Packet) (rest : List (Option Packet)) :
    Prop where
  ok : b'.Ok
  before : b.cells = rel.map some ++ rest
  after : b'.cells = rest ++ List.replicate rel.length none
  numbered : Consecutive b.expected rel
  expected : b'.expected = b.expected + UInt16.ofNat rel.length
  size : b'.slots.length = b.slots.length
  initialized : b'.initialized = b.initialized
  ssrc : b'.ssrc = b.ssrc
  stats : b'.stats = b.stats

lemma Releases.refl : Releases b b [] b.cells :=
  ⟨hb, rfl, by simp, consecutive_nil _, by simp, rfl, rfl, rfl, rfl⟩

lemma Releases.cons {rest : List (Option Packet)} (hw : b.window = s :: w) (hp : s.packet = some p)
    (h : Releases b.clearHead.advance b' rel (rest ++ [none])) : Releases b b' (p :: rel) rest := by
  have hseq := (hb.seq_head hw hp).2
  have hrest : w.map (·.packet) = rel.map some ++ rest := by
    have := h.before
    rw [cells_release hb hw, ← append_assoc] at this
    exact append_cancel_right this
  refine { h with
    before := ?_, after := ?_, expected := ?_, size := ?_
    numbered := consecutive_cons.mpr ⟨hseq, h.numbered⟩ }
  · unfold cells
    rw [hw, map_cons, hp, hrest]
    rfl
  · rw [h.after, append_assoc]
    rfl
  · rw [h.expected, length_cons, ofNat_succ]
    show b.expected + 1 + _ = _
    ac_rfl
  · rw [h.size]
    show (b.slots.set b.head _).length = _
    simp

end

/-! ### Draining -/

lemma appendReady_ok (h : appendReady out p = .ok out') :
    out' = { out with ready := out.ready ++ [p] } := by
  unfold appendReady at h
  split at h
  · cases h
  · cases h; rfl

lemma rest_of_snoc_none {c rest : List (Option Packet)} (h : c ++ [none] = rel.map some ++ rest) :
    ∃ rest₁, rest = rest₁ ++ [none] := by
  rcases rest.eq_nil_or_concat with rfl | ⟨r, x, rfl⟩
  · have hm : none ∈ rel.map some := by
      rw [← append_nil (rel.map some), ← h]
      simp
    simp at hm
  · rw [concat_eq_append, ← append_assoc] at h
    obtain ⟨-, hx⟩ := append_inj' h rfl
    exact ⟨r, by simp_all⟩

theorem drainReadyLoop_spec (n : ℕ) : ∀ {b b' : JitterRing} {out out' : JitterResult}, b.Ok →
    drainReadyLoop n b out = (b', out', none) → ∃ rel rest, Releases b b' rel rest ∧
      out' = { out with ready := out.ready ++ rel } ∧
      (rel.length = n ∨ ∀ p, rest.head? ≠ some (some p)) := by
  induction n with
  | zero =>
    intro b b' out out' hb h
    obtain ⟨rfl, rfl⟩ := h
    exact ⟨[], b.cells, .refl hb, by simp, .inl rfl⟩
  | succ n ih =>
    intro b b' out out' hb h
    obtain ⟨s, w, hw⟩ := exists_window hb
    rw [drainReadyLoop, headSlot_eq hb hw] at h
    cases hp : s.packet with
    | none =>
      simp only [hp] at h
      obtain ⟨rfl, rfl⟩ := h
      refine ⟨[], b.cells, .refl hb, by simp, .inr fun p => ?_⟩
      unfold cells
      rw [hw]
      simp [hp]
    | some p =>
      simp only [hp, (hb.seq_head hw hp).1, ne_eq] at h
      cases ha : appendReady out p with
      | error e => simp [ha] at h
      | ok out₁ =>
        simp only [ha] at h
        obtain ⟨rel, rest, hrel, hout, hstop⟩ := ih hb.release h
        obtain ⟨rest₁, rfl⟩ := rest_of_snoc_none (cells_release hb hw ▸ hrel.before)
        refine ⟨p :: rel, rest₁, .cons hb hw hp hrel, ?_, ?_⟩
        · rw [hout, appendReady_ok ha]
          simp
        · rcases hstop with hn | hstop
          · exact .inl (by simp [hn])
          · refine .inr fun q hq => hstop q ?_
            rw [head?_append, hq]
            rfl

theorem drainReady_spec (hb : b.Ok) (h : b.drainReady out = (b', out', none)) :
    ∃ rel rest, Releases b b' rel rest ∧
      out' = { out with ready := out.ready ++ rel } ∧ b'.Drained := by
  obtain ⟨rel, rest, hrel, hout, hstop⟩ := drainReadyLoop_spec _ hb h
  refine ⟨rel, rest, hrel, hout, fun p hp => ?_⟩
  rw [hrel.after] at hp
  have hlen := congrArg length hrel.before
  simp only [cells_length, length_append, length_map] at hlen
  cases rest with
  | nil =>
    -- everything left: the window is empty cells only
    cases hr : rel.length <;> rw [hr] at hp <;> simp [replicate_succ] at hp
  | cons c rest =>
    rcases hstop with hn | hstop
    · simp only [length_cons] at hlen
      omega
    · exact hstop p (by simpa using hp)

/-! ### Placing a packet -/

/-- What `place` does: cell `d` takes the packet, and the full prefix of the window leaves. -/
structure Placed (b b' : JitterRing) (pkt : Packet) (out out' : JitterResult)
    (rel : List Packet) (rest : List (Option Packet)) : Prop where
  ok : b'.Ok
  drained : b'.Drained
  before : b.cells.set (pkt.sequenceNumber - b.expected).toNat (some pkt) = rel.map some ++ rest
  after : b'.cells = rest ++ List.replicate rel.length none
  numbered : Consecutive b.expected rel
  expected : b'.expected = b.expected + UInt16.ofNat rel.length
  size : b'.slots.length = b.slots.length
  initialized : b'.initialized = b.initialized
  ssrc : b'.ssrc = b.ssrc
  ready : out'.ready = out.ready ++ rel
  events : out'.events = out.events
  lost : b'.stats.lost = b.stats.lost
  late : b'.stats.late = b.stats.late
  reordered : b.cells[(pkt.sequenceNumber - b.expected).toNat]? = some none →
    b'.stats.reordered = b.stats.reordered

def stored (b : JitterRing) (pkt : Packet) (stats : JitterStats) : JitterRing :=
  { b with
    slots := b.slots.set (b.slotFor pkt.sequenceNumber) { seq := pkt.sequenceNumber, packet := some pkt }
    stats := stats }

section Stored

variable {b : JitterRing} {pkt : Packet} (stats : JitterStats)

section

variable (hd : (pkt.sequenceNumber - b.expected).toNat < b.slots.length)
include hd

lemma window_stored :
    (b.stored pkt stats).window = b.window.set (pkt.sequenceNumber - b.expected).toNat
      { seq := pkt.sequenceNumber, packet := some pkt } :=
  rotate_set _ _ _ hd _

lemma cells_stored :
    (b.stored pkt stats).cells = b.cells.set (pkt.sequenceNumber - b.expected).toNat (some pkt) := by
  unfold cells
  rw [window_stored stats hd, map_set]

end

lemma Ok.stored (hb : b.Ok) (hd : (pkt.sequenceNumber - b.expected).toNat < b.slots.length)
    (hd' : (pkt.sequenceNumber - b.expected).toNat < 0x8000) : (b.stored pkt stats).Ok := by
  refine ⟨by simpa [JitterRing.stored] using hb.head_lt, fun d s p hs hp => ?_⟩
  rw [window_stored stats hd, getElem?_set] at hs
  split at hs
  · next heq =>
    subst heq
    split at hs
    · cases hs
      cases hp
      refine ⟨?_, rfl, hd'⟩
      show pkt.sequenceNumber = b.expected + _
      rw [UInt16.ofNat_toNat]
      grind
    · cases hs
  · exact hb.seqs d s p hs hp

lemma slotFor_full (hd : (pkt.sequenceNumber - b.expected).toNat < b.slots.length)
    (h : b.cells[(pkt.sequenceNumber - b.expected).toNat]? = some none) :
    (b.slots.getD (b.slotFor pkt.sequenceNumber) {}).full = false := by
  have hpos : 0 < b.slots.length := by omega
  have hi : b.slotFor pkt.sequenceNumber < b.slots.length := Nat.mod_lt _ hpos
  rw [getD_eq_getElem _ _ hi]
  unfold cells window at h
  rw [getElem?_map, getElem?_eq_getElem (by simpa using hd), map_some, some.injEq, getElem_rotate] at h
  unfold JitterSlot.full slotFor
  simp [Nat.add_comm b.head, h]

end Stored

theorem place_spec {pkt : Packet} {lossBefore discontinuous : Bool} (hb : b.Ok)
    (hd : (pkt.sequenceNumber - b.expected).toNat < b.slots.length)
    (hd' : (pkt.sequenceNumber - b.expected).toNat < 0x8000)
    (h : b.place pkt out lossBefore discontinuous = (b', out', none)) :
    ∃ rel rest, Placed b b' pkt out out' rel rest := by
  unfold place at h
  dsimp only at h
  set stats := if (b.slots.getD (b.slotFor pkt.sequenceNumber) {}).full then
    { b.stats with reordered := b.stats.reordered + 1 }
    else { b.stats with buffered := b.stats.buffered + 1 } with hstats
  rcases hdr : (b.stored pkt stats).drainReady out with ⟨b₁, out₁, e⟩
  have hdrain := hdr
  unfold JitterRing.stored at hdrain
  cases e with
  | some e => simp [hdrain] at h
  | none =>
    simp only [hdrain, Prod.mk.injEq, and_true] at h
    obtain ⟨rfl, rfl⟩ := h
    obtain ⟨rel, rest, hrel, rfl, hdrained⟩ := drainReady_spec (hb.stored stats hd hd') hdr
    refine ⟨rel, rest, { hrel with
      ok := { hrel.ok with }, drained := hdrained, ready := rfl, events := rfl
      before := ?_, size := ?_, lost := ?_, late := ?_, reordered := fun hfree => ?_ }⟩
    · rw [← cells_stored stats hd]
      exact hrel.before
    · rw [hrel.size]
      exact length_set
    · rw [hrel.stats, JitterRing.stored, hstats]
      split <;> rfl
    · rw [hrel.stats, JitterRing.stored, hstats]
      split <;> rfl
    · rw [hrel.stats, JitterRing.stored, hstats, slotFor_full hd hfree]
      rfl

/-! ### Flushing -/

/-- The packets of the window leave in order, and the expected number ends past the last. -/
structure Flushed (b b' : JitterRing) (out out' : JitterResult) (rel : List Packet) : Prop where
  ok : b'.Ok
  empty : ∀ x ∈ b'.cells, x = none
  ready : out'.ready = out.ready ++ rel
  events : out'.events = out.events
  expected_nil : rel = [] → b'.expected = b.expected
  expected_last : ∀ p, rel.getLast? = some p → b'.expected = p.sequenceNumber + 1
  size : b'.slots.length = b.slots.length
  initialized : b'.initialized = b.initialized
  ssrc : b'.ssrc = b.ssrc

lemma reduceOption_length_eq_countP (c : List (Option Packet)) :
    c.reduceOption.length = c.countP isSome := by
  induction c with
  | nil => rfl
  | cons x c ih => cases x <;> simp [ih]

lemma buffered_eq (b : JitterRing) : b.buffered = b.cells.reduceOption.length := by
  rw [reduceOption_length_eq_countP]
  unfold buffered cells window
  rw [countP_map, (rotate_perm b.slots b.head).countP_eq]
  rfl

lemma Flushed.skip (h : Flushed b.advance b' out out' (p :: rel)) : Flushed b b' out out' (p :: rel) :=
  { h with expected_nil := nofun }

lemma Flushed.cons (hp : p.sequenceNumber = b.expected)
    (h : Flushed b.clearHead.advance b' { out with ready := out.ready ++ [p] } out' rel) :
    Flushed b b' out out' (p :: rel) := by
  refine { h with
    ready := by simpa using h.ready, expected_nil := nofun, expected_last := fun q hq => ?_, size := ?_ }
  · cases rel with
    | nil =>
      simp only [getLast?_singleton, some.injEq] at hq
      subst hq
      rw [h.expected_nil rfl, hp]
      rfl
    | cons r rel => exact h.expected_last q (by simpa using hq)
  · rw [h.size]
    exact length_set

theorem flushLoop_spec : ∀ (c : List (Option Packet)) {b b' : JitterRing}
    {out out' : JitterResult} {m : ℕ}, b.Ok → b.cells = c ++ replicate m none →
    flushLoop c.length c.reduceOption.length b out = (b', out', none) →
    Flushed b b' out out' c.reduceOption := by
  intro c
  induction c with
  | nil =>
    intro b b' out out' m hb hc h
    obtain ⟨rfl, rfl⟩ := h
    refine ⟨hb, fun x hx => ?_, by simp, rfl, fun _ => rfl, by simp, rfl, rfl, rfl⟩
    rw [hc] at hx
    exact eq_of_mem_replicate (by simpa using hx)
  | cons x c ih =>
    intro b b' out out' m hb hc h
    obtain ⟨s, w, hw⟩ := exists_window hb
    have hcw : s.packet :: w.map (·.packet) = x :: (c ++ replicate m none) := by
      rw [← cons_append, ← hc]
      unfold cells
      rw [hw]
      rfl
    obtain ⟨hx, htail⟩ := cons.inj hcw
    cases x with
    | none =>
      rw [reduceOption_cons_of_none] at h ⊢
      have hc' : b.advance.cells = c ++ replicate (m + 1) none := by
        unfold cells
        rw [window_advance hw, map_append, htail, replicate_succ']
        simp [hx]
      cases hr : c.reduceOption with
      | nil =>
        -- nothing is left to release: the walk stops where it stands
        rw [hr] at h
        obtain ⟨rfl, rfl⟩ := h
        refine ⟨hb, fun y hy => ?_, by simp, rfl, fun _ => rfl, by simp, rfl, rfl, rfl⟩
        have hnone : ∀ z ∈ c, z = none := by
          intro z hz
          cases z with
          | none => rfl
          | some q =>
            have : q ∈ c.reduceOption := reduceOption_mem_iff.mpr hz
            rw [hr] at this
            cases this
        rw [hc] at hy
        simp only [cons_append, mem_cons, mem_append, mem_replicate] at hy
        rcases hy with rfl | hy | ⟨-, rfl⟩
        · rfl
        · exact hnone y hy
        · rfl
      | cons p rel =>
        rw [hr, length_cons, length_cons, flushLoop, headSlot_eq hb hw, hx] at h
        have hfl := ih (hb.skip hw hx) hc' (by rw [hr]; exact h)
        rw [hr] at hfl
        exact hfl.skip
    | some p =>
      rw [reduceOption_cons_of_some] at h ⊢
      rw [length_cons, length_cons, flushLoop, headSlot_eq hb hw, hx] at h
      cases ha : appendReady out p with
      | error e => simp [ha] at h
      | ok out₁ =>
        simp only [ha] at h
        have hc' : b.clearHead.advance.cells = c ++ replicate (m + 1) none := by
          rw [cells_release hb hw, htail, replicate_succ', ← append_assoc]
        have hfl := ih hb.release hc' h
        rw [appendReady_ok ha] at hfl
        exact hfl.cons (hb.seq_head hw hx).2

theorem flushInto_spec (hb : b.Ok) (h : b.flushInto none out = (b', out', none)) :
    Flushed b b' out out' b.cells.reduceOption := by
  unfold flushInto at h
  rcases hfl : flushLoop b.slots.length b.buffered b out with ⟨b₁, out₁, e⟩
  cases e with
  | some e => simp [hfl] at h
  | none =>
    simp only [hfl] at h
    obtain ⟨rfl, rfl⟩ := h
    rw [buffered_eq, ← cells_length] at hfl
    have := flushLoop_spec b.cells (m := 0) hb (by simp) hfl
    exact { this with ok := { this.ok with } }

end JitterRing

end Goav.Rtpav
