import Goav.Rtpav.JitterWindow
import Mathlib.Data.List.Perm.Subperm

/-!
Whole runs of the jitter ring. `PushInto` announces the gaps it makes, and `FlushInto` appends no event.
So a run announces its gaps exactly when it never flushes a ring that holds a packet.
-/

namespace Goav.Rtpav

open Goav.Av Goav.Lib List

/-! ### Calls and what they append -/

/-- One thing a caller sees: an event appended to a result, or a packet released. -/
inductive Obs where
  | event (e : Event)
  | released (p : Packet)
  deriving DecidableEq

inductive JitterCall where
  | pushInto (ctx : Ctx) (pkt : Packet) (out : JitterResult)
  | popInto (ctx : Ctx)
  | flushInto (ctx : Ctx) (out : JitterResult)

def JitterCall.OfSSRC (ssrc : UInt32) : JitterCall → Prop
  | .pushInto _ pkt _ => pkt.ssrc = ssrc
  | _ => True

instance (ssrc : UInt32) : DecidablePred (JitterCall.OfSSRC ssrc)
  | .pushInto _ pkt _ => inferInstanceAs (Decidable (pkt.ssrc = ssrc))
  | .popInto _ => isTrue trivial
  | .flushInto _ _ => isTrue trivial

def JitterCall.flushes : JitterCall → Bool
  | .flushInto none _ => true
  | _ => false

def appended (out out' : JitterResult) : List Obs :=
  (out'.events.drop out.events.length).map .event ++ (out'.ready.drop out.ready.length).map .released

namespace JitterRing

def call (b : JitterRing) : JitterCall → JitterRing × List Obs × Option Err
  | .pushInto ctx pkt out =>
    let r := b.pushInto ctx pkt out
    (r.1, appended out r.2.1, r.2.2)
  | .popInto ctx =>
    let r := b.popInto ctx
    (r.1, r.2.1.toList.map .released, r.2.2)
  | .flushInto ctx out =>
    let r := b.flushInto ctx out
    (r.1, appended out r.2.1, r.2.2)

def log : JitterRing → List JitterCall → List Obs
  | _, [] => []
  | b, c :: cs => (b.call c).2.1 ++ log (b.call c).1 cs

/-- No call finds its result full. -/
def Roomy : JitterRing → List JitterCall → Prop
  | _, [] => True
  | b, c :: cs => (b.call c).2.2 ≠ some .resultFull ∧ Roomy (b.call c).1 cs

/-- No flush finds a packet. -/
def FlushesEmpty : JitterRing → List JitterCall → Prop
  | _, [] => True
  | b, c :: cs =>
    (c.flushes = true → b.buffered = 0) ∧ FlushesEmpty (b.call c).1 cs

end JitterRing

/-- **Every gap is announced** by a loss event between two packets. -/
def GapsAnnounced (l : List Obs) : Prop :=
  ∀ pre p mid q post, l = pre ++ .released p :: (mid ++ .released q :: post) →
    (∀ r, Obs.released r ∉ mid) →
    q.sequenceNumber = p.sequenceNumber + 1 ∨ ∃ e, Obs.event e ∈ mid ∧ e.type = .packetLoss

/-! ### Reading a log from left to right -/

/-- The number that must come next after a log, when one must: none after a loss event. -/
def nextOf (n : Option UInt16) : List Obs → Option UInt16
  | [] => n
  | .event e :: l => nextOf (if e.type = .packetLoss then none else n) l
  | .released p :: l => nextOf (some (p.sequenceNumber + 1)) l

def Announced (n : Option UInt16) : List Obs → Prop
  | [] => True
  | .event e :: l => Announced (if e.type = .packetLoss then none else n) l
  | .released p :: l =>
    (∀ m, n = some m → p.sequenceNumber = m) ∧ Announced (some (p.sequenceNumber + 1)) l

lemma announced_append (n : Option UInt16) (l l' : List Obs) :
    Announced n (l ++ l') ↔ Announced n l ∧ Announced (nextOf n l) l' := by
  induction l generalizing n with
  | nil => simp [Announced, nextOf]
  | cons o l ih => cases o <;> simp [Announced, nextOf, ih, and_assoc]

lemma nextOf_append (n : Option UInt16) (l l' : List Obs) :
    nextOf n (l ++ l') = nextOf (nextOf n l) l' := by
  induction l generalizing n with
  | nil => rfl
  | cons o l ih => cases o <;> simp [nextOf, ih]

/-- A first release is bound by the number that must come next, or a loss event. -/
lemma Announced.first {n : Option UInt16} {mid post : List Obs} {q : Packet}
    (h : Announced n (mid ++ .released q :: post)) (hm : ∀ r, Obs.released r ∉ mid) (m : UInt16)
    (hn : n = some m) : q.sequenceNumber = m ∨ ∃ e, Obs.event e ∈ mid ∧ e.type = .packetLoss := by
  induction mid generalizing n with
  | nil => exact .inl (h.1 m hn)
  | cons o mid ih =>
    cases o with
    | released r => exact absurd (mem_cons_self ..) (hm r)
    | event e =>
      by_cases he : e.type = .packetLoss
      · exact .inr ⟨e, mem_cons_self .., he⟩
      · rw [cons_append, Announced, if_neg he] at h
        rcases ih h (fun r hr => hm r (mem_cons_of_mem _ hr)) hn with h' | ⟨e', he', ht⟩
        · exact .inl h'
        · exact .inr ⟨e', mem_cons_of_mem _ he', ht⟩

lemma gapsAnnounced_of_announced {n : Option UInt16} {l : List Obs} (h : Announced n l) :
    GapsAnnounced l := by
  rintro pre p mid q post rfl hm
  rw [announced_append] at h
  exact h.2.2.first hm _ rfl

lemma not_gapsAnnounced (pre post : List Obs) {p q : Packet} (h : q.sequenceNumber ≠ p.sequenceNumber + 1) :
    ¬ GapsAnnounced (pre ++ .released p :: .released q :: post) := by
  intro hg
  rcases hg pre p [] q post rfl (by simp) with h' | ⟨e, he, -⟩
  · exact h h'
  · cases he

lemma announced_chain {e : UInt16} {rel : List Packet} (h : Consecutive e rel) :
    Announced (some e) (rel.map .released) ∧
      nextOf (some e) (rel.map .released) = some (e + UInt16.ofNat rel.length) := by
  induction rel generalizing e with
  | nil => simp [Announced, nextOf]
  | cons p rel ih =>
    obtain ⟨hp, hrel⟩ := consecutive_cons.mp h
    obtain ⟨h1, h2⟩ := ih hrel
    subst hp
    refine ⟨⟨by simp, h1⟩, ?_⟩
    rw [map_cons, nextOf, h2, length_cons, ofNat_succ]
    ac_rfl

lemma announced_chain_none {e : UInt16} {rel : List Packet} (h : Consecutive e rel) (hne : rel ≠ []) :
    Announced none (rel.map .released) ∧
      nextOf none (rel.map .released) = some (e + UInt16.ofNat rel.length) := by
  obtain ⟨h1, h2⟩ := announced_chain h
  cases rel with
  | nil => exact absurd rfl hne
  | cons p rel => exact ⟨⟨nofun, h1.2⟩, h2⟩

namespace JitterRing

/-! ### What one call can do -/

lemma drainReadyLoop_err (n : ℕ) : ∀ (b : JitterRing) (out : JitterResult),
    (drainReadyLoop n b out).2.2 = none ∨ (drainReadyLoop n b out).2.2 = some .resultFull := by
  induction n with
  | zero => exact fun _ _ => .inl rfl
  | succ n ih =>
    intro b out
    rw [drainReadyLoop]
    split
    · exact .inl rfl
    split
    · exact .inl rfl
    split
    · next h =>
      unfold appendReady at h
      split at h <;> cases h
      exact .inr rfl
    · exact ih _ _

lemma place_err (b : JitterRing) (pkt : Packet) (out : JitterResult) (l d : Bool)
    (h : (b.place pkt out l d).2.2 ≠ some .resultFull) : (b.place pkt out l d).2.2 = none := by
  unfold place at h ⊢
  simp only at h ⊢
  split at h
  · next heq =>
    rcases drainReadyLoop_err _ _ _ with h' | h' <;> unfold drainReady at heq <;>
      rw [heq] at h' <;> simp_all
  · rfl

/-- A packet was late, made packets ready, or moved the window with a loss event. -/
inductive Admits (b b' : JitterRing) (pkt : Packet) (out out' : JitterResult) : Prop
  | late (ho : out' = out) (he : b'.expected = b.expected)
      (hd : 0x8000 ≤ (pkt.sequenceNumber - b.expected).toNat)
  | window (rel : List Packet) (hev : out'.events = out.events)
      (hr : out'.ready = out.ready ++ rel) (hc : Consecutive b.expected rel)
      (he : b'.expected = b.expected + UInt16.ofNat rel.length)
      (hne : pkt.sequenceNumber = b.expected → rel ≠ [])
  | jump (rel : List Packet) (hev : out'.events = out.events ++ [{ type := .packetLoss }])
      (hr : out'.ready = out.ready ++ rel) (hc : Consecutive pkt.sequenceNumber rel)
      (he : b'.expected = pkt.sequenceNumber + UInt16.ofNat rel.length) (hne : rel ≠ [])

/-- Between two calls the head is a gap, and packets are held only once bound to a stream. -/
structure Rested (b : JitterRing) : Prop where
  ok : b.Ok
  drained : b.Drained
  idle : b.initialized = false → ∀ s ∈ b.slots, s.packet = none

variable {b b' : JitterRing} {pkt : Packet} {out out' : JitterResult} {err : Option Err}

lemma ok_of_empty (hh : b.head < b.slots.length) (h : ∀ s ∈ b.slots, s.packet = none) : b.Ok := by
  refine ⟨hh, fun d s p hd hp => ?_⟩
  have hs : s ∈ b.slots := (rotate_perm b.slots b.head).mem_iff.mp (mem_of_getElem? hd)
  rw [h s hs] at hp
  cases hp

lemma drained_of_empty (h : ∀ s ∈ b.slots, s.packet = none) : b.Drained := by
  intro p hp
  have hmem := mem_of_mem_head? hp
  obtain ⟨s, hs, hsp⟩ := mem_map.mp hmem
  rw [h s ((rotate_perm b.slots b.head).mem_iff.mp hs)] at hsp
  cases hsp

lemma Placed.rel_ne_nil {rel : List Packet} {rest : List (Option Packet)}
    (h : Placed b b' pkt out out' rel rest) (hb : b.Ok) (hs : pkt.sequenceNumber = b.expected) :
    rel ≠ [] := by
  rintro rfl
  have hz : (pkt.sequenceNumber - b.expected).toNat = 0 := by rw [hs]; simp
  have hafter := h.after
  have hbefore := h.before
  rw [hz] at hbefore
  simp only [map_nil, nil_append, length_nil, replicate_zero, append_nil] at hafter hbefore
  refine h.drained pkt ?_
  rw [hafter, ← hbefore, head?_eq_getElem?, getElem?_set_self]
  simpa using hb.pos

def jumped (b : JitterRing) (seq : UInt16) : JitterRing :=
  { b with stats := { b.stats with
      lost := b.stats.lost + ((seq - b.expected).toNat - b.buffered) } }.dropUntil seq

lemma jumped_empty (b : JitterRing) (seq : UInt16) : ∀ s ∈ (b.jumped seq).slots, s.packet = none := by
  intro s hs
  rw [eq_of_mem_replicate hs]

lemma Ok.jumped (hb : b.Ok) (seq : UInt16) : (b.jumped seq).Ok :=
  ok_of_empty (by simpa [JitterRing.jumped, dropUntil] using hb.pos) (b.jumped_empty seq)

/-- A packet is late, or it is placed, in the window or in the one moved to it. -/
inductive Admitted (b b' : JitterRing) (pkt : Packet) (out out' : JitterResult) : Prop
  | late (hd : 0x8000 ≤ (pkt.sequenceNumber - b.expected).toNat) (ho : out' = out)
      (hb : b' = { b with stats := { b.stats with late := b.stats.late + 1 } })
  | near (rel : List Packet) (rest : List (Option Packet))
      (hd : (pkt.sequenceNumber - b.expected).toNat < 0x8000)
      (hlen : (pkt.sequenceNumber - b.expected).toNat < b.slots.length)
      (hp : Placed b b' pkt out out' rel rest)
  | far (rel : List Packet) (rest : List (Option Packet))
      (hd : (pkt.sequenceNumber - b.expected).toNat < 0x8000)
      (hlen : b.slots.length ≤ (pkt.sequenceNumber - b.expected).toNat)
      (hp : Placed (b.jumped pkt.sequenceNumber) b' pkt
        { out with events := out.events ++ [{ type := .packetLoss }] } out' rel rest)

theorem admitPacket_admitted {disc : Bool} (hb : b.Ok)
    (h : b.admitPacket pkt out disc = (b', out', err)) (herr : err ≠ some .resultFull) :
    Admitted b b' pkt out out' := by
  unfold admitPacket at h
  simp only at h
  split at h
  · next hlate =>
    obtain ⟨rfl, rfl, rfl⟩ := h
    exact .late hlate rfl rfl
  · split at h
    · next hfar =>
      unfold appendJitterEvent at h
      split at h
      · next he =>
        -- the result had no room for the event
        split at he <;> cases he
        simp only [Prod.mk.injEq] at h
        exact absurd h.2.2.symm herr
      · next out₁ he =>
        split at he <;> cases he
        change (b.jumped pkt.sequenceNumber).place pkt _ true disc = _ at h
        have hz : (pkt.sequenceNumber - (b.jumped pkt.sequenceNumber).expected).toNat = 0 := by
          simp [jumped, dropUntil]
        have hnone : err = none := by
          have := place_err (b.jumped pkt.sequenceNumber) pkt _ true disc (by rw [h]; exact herr)
          rwa [h] at this
        subst hnone
        have hok := hb.jumped pkt.sequenceNumber
        obtain ⟨rel, rest, hp⟩ := place_spec hok (by rw [hz]; exact hok.pos) (by omega) h
        exact .far rel rest (by omega) hfar hp
    · have hnone : err = none := by
        have := place_err b pkt out false disc (by rw [h]; exact herr)
        rwa [h] at this
      subst hnone
      obtain ⟨rel, rest, hp⟩ := place_spec hb (by omega) (by omega) h
      exact .near rel rest (by omega) (by omega) hp

theorem admitPacket_cases {disc : Bool} (hb : b.Ok) (hdr : b.Drained)
    (h : b.admitPacket pkt out disc = (b', out', err)) (herr : err ≠ some .resultFull) :
    b'.Ok ∧ b'.Drained ∧ b'.initialized = b.initialized ∧ b'.ssrc = b.ssrc ∧
      Admits b b' pkt out out' := by
  cases admitPacket_admitted hb h herr with
  | late hd ho hb' =>
    subst ho hb'
    exact ⟨{ hb with }, hdr, rfl, rfl, .late rfl rfl hd⟩
  | near rel rest hd hlen hp =>
    exact ⟨hp.ok, hp.drained, hp.initialized, hp.ssrc, .window rel hp.events hp.ready
      hp.numbered hp.expected (hp.rel_ne_nil hb)⟩
  | far rel rest hd hlen hp =>
    exact ⟨hp.ok, hp.drained, hp.initialized, hp.ssrc, .jump rel hp.events hp.ready hp.numbered
      hp.expected (hp.rel_ne_nil (hb.jumped _) rfl)⟩

def next (b : JitterRing) : Option UInt16 := if b.initialized then some b.expected else none

/-- A call releases what must come next, or announces that it does not. -/
structure Fits (b b' : JitterRing) (l : List Obs) : Prop where
  rested : b'.Rested
  announced : Announced b.next l
  next : nextOf b.next l = b'.next
  ends : l = [] ∧ b'.initialized = b.initialized ∨ ∃ l₀ p, l = l₀ ++ [.released p]

lemma Fits.refl (hb : b.Rested) : Fits b b [] :=
  ⟨hb, trivial, rfl, .inl ⟨rfl, rfl⟩⟩

lemma map_released_ends (rel : List Packet) (h : rel ≠ []) (l : List Obs) :
    ∃ l₀ p, l ++ rel.map Obs.released = l₀ ++ [.released p] := by
  rcases rel.eq_nil_or_concat with rfl | ⟨r, p, rfl⟩
  · exact absurd rfl h
  · exact ⟨l ++ r.map .released, p, by simp⟩

lemma appended_eq (evs : List Event) (rel : List Packet) (he : out'.events = out.events ++ evs)
    (hr : out'.ready = out.ready ++ rel) : appended out out' = evs.map .event ++ rel.map .released := by
  unfold appended
  rw [he, hr, drop_left, drop_left]

lemma appended_self (out : JitterResult) : appended out out = [] :=
  appended_eq [] [] (by simp) (by simp)

/-- The ring an admitted packet meets: the ring itself once bound, else the ring bound to it. -/
lemma Rested.bound (hb : b.Rested) (pkt : Packet) :
    (if b.initialized then b else b.init pkt).Ok ∧
      (if b.initialized then b else b.init pkt).Drained := by
  cases hi : b.initialized with
  | true => exact ⟨hb.ok, hb.drained⟩
  | false =>
    have hempty := hb.idle hi
    exact ⟨ok_of_empty (b := b.init pkt) hb.ok.pos hempty, drained_of_empty (b := b.init pkt) hempty⟩

lemma ssrc_bound (hs : b.initialized = true → pkt.ssrc = b.ssrc) :
    (if b.initialized then b else b.init pkt).ssrc = pkt.ssrc := by
  split
  · next hi => exact (hs hi).symm
  · rfl

lemma pushInto_eq_admitPacket (out : JitterResult) (hs : b.initialized = true → pkt.ssrc = b.ssrc) :
    b.pushInto none pkt out = (if b.initialized then b else b.init pkt).admitPacket pkt out false := by
  unfold pushInto
  simp [if_neg (not_not.mpr (ssrc_bound hs).symm)]

theorem fits_pushInto (hb : b.Rested) (hs : b.initialized = true → pkt.ssrc = b.ssrc)
    (h : b.pushInto none pkt out = (b', out', err)) (herr : err ≠ some .resultFull) :
    Fits b b' (appended out out') ∧ b'.initialized = true ∧ b'.ssrc = pkt.ssrc := by
  rw [pushInto_eq_admitPacket out hs] at h
  have hssrc := ssrc_bound hs
  obtain ⟨hok, hdr⟩ := hb.bound pkt
  set b₁ := if b.initialized then b else b.init pkt with hb₁
  have hinit : b₁.initialized = true := by
    rw [hb₁]
    cases hi : b.initialized with
    | true => exact hi
    | false => rfl
  obtain ⟨hok', hdr', hi', hs', hcases⟩ := admitPacket_cases hok hdr h herr
  rw [hinit] at hi'
  have hrested : b'.Rested := ⟨hok', hdr', fun hf => by rw [hi'] at hf; cases hf⟩
  have hnext' : b'.next = some b'.expected := by rw [next, hi']; rfl
  refine ⟨?_, hi', by rw [hs', hssrc]⟩
  -- before the first packet nothing must come next; after it, the expected number
  have hnext : b.next = some b₁.expected ∨ b.next = none ∧ pkt.sequenceNumber = b₁.expected := by
    rw [next, hb₁]
    cases hi : b.initialized with
    | true => exact .inl rfl
    | false => exact .inr ⟨rfl, rfl⟩
  cases hcases with
  | late ho he hd =>
    subst ho
    rw [appended_self]
    rcases hnext with hn | ⟨-, hz⟩
    · refine ⟨hrested, trivial, by rw [hnext', he, ← hn]; rfl, .inl ⟨rfl, ?_⟩⟩
      have hi : b.initialized = true := by
        cases hi : b.initialized with
        | true => rfl
        | false => rw [next, hi] at hn; cases hn
      rw [hi', hi]
    · rw [hz] at hd
      simp at hd
  | window rel hev hr hc he hne =>
    rw [appended_eq [] _ (by simpa using hev) hr, map_nil, nil_append]
    rcases hnext with hn | ⟨hn, hz⟩
    · obtain ⟨h1, h2⟩ := announced_chain hc
      refine ⟨hrested, by rw [hn]; exact h1, by rw [hn, h2, hnext', he], ?_⟩
      cases rel with
      | nil =>
        refine .inl ⟨rfl, ?_⟩
        cases hi : b.initialized with
        | true => rw [hi']
        | false => rw [next, hi] at hn; cases hn
      | cons p rel => exact .inr (map_released_ends (p :: rel) (by simp) [])
    · obtain ⟨h1, h2⟩ := announced_chain_none hc (hne hz)
      exact ⟨hrested, by rw [hn]; exact h1, by rw [hn, h2, hnext', he],
        .inr (map_released_ends _ (hne hz) [])⟩
  | jump rel hev hr hc he hne =>
    rw [appended_eq _ _ hev hr]
    obtain ⟨h1, h2⟩ := announced_chain_none hc hne
    exact ⟨hrested, h1, by rw [hnext', he]; exact h2, .inr (map_released_ends _ hne _)⟩

theorem fits_popInto (hb : b.Rested) : b.popInto none = (b, none, none) := by
  obtain ⟨s, w, hw⟩ := exists_window hb.ok
  have hnone : s.packet = none := by
    cases hp : s.packet with
    | none => rfl
    | some p =>
      refine absurd ?_ (hb.drained p)
      unfold cells
      rw [hw]
      simp [hp]
  unfold popInto
  simp only [headSlot_eq hb.ok hw, hnone]
  split <;> rfl

lemma slots_of_cells_empty (h : ∀ x ∈ b.cells, x = none) :
    ∀ s ∈ b.slots, s.packet = none := fun _ hs =>
  h _ (mem_map_of_mem ((rotate_perm b.slots b.head).mem_iff.mpr hs))

theorem fits_flushInto (hb : b.Rested) (hz : b.buffered = 0) (h : b.flushInto none out = (b', out', none)) :
    Fits b b' (appended out out') ∧ b'.initialized = b.initialized ∧ b'.ssrc = b.ssrc := by
  have hf := flushInto_spec hb.ok h
  have hnil : b.cells.reduceOption = [] := by
    rw [buffered_eq] at hz
    exact length_eq_zero_iff.mp hz
  have hempty := slots_of_cells_empty hf.empty
  rw [appended_eq [] [] (by simpa using hf.events) (by rw [hf.ready, hnil])]
  refine ⟨⟨⟨hf.ok, drained_of_empty hempty, fun _ => hempty⟩, trivial, ?_,
    .inl ⟨rfl, hf.initialized⟩⟩, hf.initialized, hf.ssrc⟩
  show b.next = b'.next
  unfold next
  rw [hf.initialized, hf.expected_nil hnil]

theorem flushInto_out_of_turn (hb : b.Rested) (hz : b.buffered ≠ 0)
    (h : b.flushInto none out = (b', out', none)) :
    b.initialized = true ∧ ∃ q l, appended out out' = .released q :: l ∧
      q.sequenceNumber ≠ b.expected := by
  have hf := flushInto_spec hb.ok h
  refine ⟨?_, ?_⟩
  · by_contra hi
    have hempty := hb.idle (by simpa using hi)
    refine hz (countP_eq_zero.mpr fun s hs => ?_)
    simp [JitterSlot.full, hempty s hs]
  · cases hr : b.cells.reduceOption with
    | nil => rw [buffered_eq, hr] at hz; exact absurd rfl hz
    | cons q rel =>
      refine ⟨q, rel.map .released, ?_, ?_⟩
      · rw [appended_eq [] _ (by simpa using hf.events) hf.ready, hr]
        rfl
      · -- the packet sits some way past the head, less than half the number space away
        have hmem : some q ∈ b.cells := by
          rw [← reduceOption_mem_iff, hr]
          exact mem_cons_self ..
        obtain ⟨d, hd⟩ := mem_iff_getElem?.mp hmem
        unfold cells at hd
        rw [getElem?_map] at hd
        cases hs : b.window[d]? with
        | none => rw [hs] at hd; cases hd
        | some s =>
          rw [hs, Option.map_some, Option.some.injEq] at hd
          obtain ⟨h1, h2, h3⟩ := hb.ok.seqs d s q hs hd
          have hd0 : d ≠ 0 := by
            rintro rfl
            refine hb.drained q ?_
            unfold cells
            rw [head?_eq_getElem?, getElem?_map, hs, Option.map_some, hd]
          intro heq
          have hzero : UInt16.ofNat d = 0 := by grind
          have := congrArg UInt16.toNat hzero
          rw [UInt16.toNat_ofNat_of_lt' (by simp [UInt16.size]; omega)] at this
          exact hd0 this

lemma flushLoop_err (n : ℕ) : ∀ (r : ℕ) (b : JitterRing) (out : JitterResult),
    (flushLoop n r b out).2.2 = none ∨ (flushLoop n r b out).2.2 = some .resultFull := by
  induction n with
  | zero => intro r b out; cases r <;> exact .inl rfl
  | succ n ih =>
    intro r b out
    cases r with
    | zero => exact .inl rfl
    | succ r =>
      rw [flushLoop]
      split
      · exact ih _ _ _
      split
      · next h =>
        unfold appendReady at h
        split at h <;> cases h
        exact .inr rfl
      · exact ih _ _ _

lemma flushInto_err (b : JitterRing) (out : JitterResult)
    (h : (b.flushInto none out).2.2 ≠ some .resultFull) : (b.flushInto none out).2.2 = none := by
  unfold flushInto at h ⊢
  simp only at h ⊢
  split at h
  · next heq =>
    rcases flushLoop_err b.slots.length b.buffered b out with h' | h' <;>
      rw [heq] at h' <;> simp_all
  · rfl

/-- **One call** fits unless it flushes a ring that holds a packet. -/
theorem call_fits {ssrc : UInt32} (hb : b.Rested) (hs : b.initialized = true → b.ssrc = ssrc)
    (c : JitterCall) (hc : c.OfSSRC ssrc) (hroom : (b.call c).2.2 ≠ some .resultFull)
    (hflush : c.flushes = true → b.buffered = 0) :
    Fits b (b.call c).1 (b.call c).2.1 ∧
      ((b.call c).1.initialized = true → (b.call c).1.ssrc = ssrc) := by
  cases c with
  | pushInto ctx pkt out =>
    cases ctx with
    | some e => exact ⟨by simpa [call, pushInto, appended_self] using Fits.refl hb, hs⟩
    | none =>
      have hp : pkt.ssrc = ssrc := hc
      have heq : b.pushInto none pkt out = ((b.pushInto none pkt out).1,
          (b.pushInto none pkt out).2.1, (b.pushInto none pkt out).2.2) := rfl
      obtain ⟨h1, -, h3⟩ := fits_pushInto hb (fun hi => by rw [hp, hs hi]) heq hroom
      exact ⟨h1, fun _ => h3.trans hp⟩
  | popInto ctx =>
    cases ctx with
    | some e => exact ⟨by simpa [call, popInto] using Fits.refl hb, hs⟩
    | none =>
      simp only [call, fits_popInto hb]
      exact ⟨Fits.refl hb, hs⟩
  | flushInto ctx out =>
    cases ctx with
    | some e => exact ⟨by simpa [call, flushInto, appended_self] using Fits.refl hb, hs⟩
    | none =>
      have hnone := flushInto_err b out hroom
      have heq : b.flushInto none out = ((b.flushInto none out).1, (b.flushInto none out).2.1, none) :=
        Prod.ext rfl (Prod.ext rfl hnone)
      obtain ⟨h1, h2, h3⟩ := fits_flushInto hb (hflush rfl) heq
      refine ⟨h1, fun hi => ?_⟩
      show (b.flushInto none out).1.ssrc = ssrc
      rw [h3]
      exact hs (h2 ▸ hi)

theorem run_announced_iff {ssrc : UInt32} (cs : List JitterCall) :
    ∀ {b : JitterRing} (pre : List Obs), b.Rested → (b.initialized = true → b.ssrc = ssrc) →
      (∀ c ∈ cs, c.OfSSRC ssrc) → b.Roomy cs → Announced none pre → nextOf none pre = b.next →
      (b.initialized = true → ∃ l p, pre = l ++ [.released p]) →
      (GapsAnnounced (pre ++ b.log cs) ↔ b.FlushesEmpty cs) := by
  induction cs with
  | nil =>
    intro b pre _ _ _ _ hann _ _
    simpa [log, FlushesEmpty] using gapsAnnounced_of_announced hann
  | cons c cs ih =>
    intro b pre hb hs hone hroom hann hnext hends
    by_cases hflush : c.flushes = true → b.buffered = 0
    · obtain ⟨hfit, hs'⟩ := call_fits hb hs c (hone c (mem_cons_self ..)) hroom.1 hflush
      rw [log, ← append_assoc]
      refine (ih _ hfit.rested hs' (fun c hc => hone c (mem_cons_of_mem _ hc)) hroom.2 ?_ ?_
        fun hi => ?_).trans ⟨fun h => ⟨hflush, h⟩, fun h => h.2⟩
      · rw [announced_append, hnext]
        exact ⟨hann, hfit.announced⟩
      · rw [nextOf_append, hnext, hfit.next]
      · rcases hfit.ends with ⟨hnil, hi'⟩ | ⟨l, p, hl⟩
        · rw [hnil, append_nil]
          exact hends (hi' ▸ hi)
        · exact ⟨pre ++ l, p, by rw [hl, append_assoc]⟩
    · -- the ring holds a packet past its head: the first one released is out of turn
      obtain ⟨hlive, hz⟩ := Classical.not_imp.mp hflush
      obtain ⟨out, rfl⟩ : ∃ out, c = .flushInto none out := by
        match c, hlive with
        | .flushInto none out, _ => exact ⟨out, rfl⟩
      have hnone := flushInto_err b out hroom.1
      have heq : b.flushInto none out = ((b.flushInto none out).1, (b.flushInto none out).2.1, none) :=
        Prod.ext rfl (Prod.ext rfl hnone)
      obtain ⟨hi, q, l, hl, hq⟩ := flushInto_out_of_turn hb hz heq
      obtain ⟨l₀, p, rfl⟩ := hends hi
      refine iff_of_false ?_ fun h => hz (h.1 rfl)
      have hp : b.expected = p.sequenceNumber + 1 := by
        rw [nextOf_append] at hnext
        simpa [nextOf, next, hi] using hnext.symm
      show ¬ GapsAnnounced (l₀ ++ [.released p] ++ (appended out (b.flushInto none out).2.1 ++ _))
      rw [hl, append_assoc]
      exact not_gapsAnnounced _ _ (hp ▸ hq)

lemma rested_new {config : JitterConfig} (h : newJitterRing config = .ok b) :
    b.Rested ∧ b.initialized = false := by
  unfold newJitterRing at h
  split at h
  · cases h
  cases h
  have hempty : ∀ s ∈ List.replicate config.capacity.toNat ({} : JitterSlot),
      s.packet = none := fun s hs => by rw [eq_of_mem_replicate hs]
  refine ⟨⟨ok_of_empty ?_ hempty, drained_of_empty hempty, fun _ => hempty⟩, rfl⟩
  simp only [length_replicate]
  omega

end JitterRing

/-- **Gaps and flushes.** Every gap in the released numbers is announced exactly when no flush finds a
packet buffered. -/
theorem gaps_announced_iff_flushes_empty (config : JitterConfig) (b : JitterRing) (ssrc : UInt32)
    (calls : List JitterCall) (hb : newJitterRing config = .ok b) (hs : ∀ c ∈ calls, c.OfSSRC ssrc)
    (hroom : b.Roomy calls) : GapsAnnounced (b.log calls) ↔ b.FlushesEmpty calls := by
  obtain ⟨hrest, hi⟩ := JitterRing.rested_new hb
  have h := JitterRing.run_announced_iff calls [] hrest (by simp [hi]) hs hroom trivial
    (by simp [JitterRing.next, hi, nextOf]) (by simp [hi])
  simpa using h

def samplePacket (seq : UInt16) : Packet := { sequenceNumber := seq, ssrc := 1 }

def sampleResult : JitterResult := { readyCap := 8, eventsCap := 4 }

def jumpRun : List JitterCall :=
  [.pushInto none (samplePacket 65535) sampleResult, .pushInto none (samplePacket 20) sampleResult,
    .popInto none, .flushInto none sampleResult]

theorem gaps_announced_jumpRun :
    GapsAnnounced (JitterRing.log { slots := List.replicate 8 {} } jumpRun) :=
  (gaps_announced_iff_flushes_empty { capacity := 8 } { slots := List.replicate 8 {} } 1 jumpRun rfl
    (by decide) ⟨by decide, by decide, by decide, by decide, trivial⟩).mpr
    ⟨nofun, nofun, nofun, by decide, trivial⟩

/-- A flush over a gap: 6 never arrives, and 7 is released after 5. -/
def flushRun : List JitterCall :=
  [.pushInto none (samplePacket 5) sampleResult, .pushInto none (samplePacket 7) sampleResult,
    .flushInto none sampleResult]

theorem flushRun_gap_not_announced :
    ¬ ∀ (config : JitterConfig) (b : JitterRing) (ssrc : UInt32) (calls : List JitterCall),
      newJitterRing config = .ok b → (∀ c ∈ calls, c.OfSSRC ssrc) → b.Roomy calls →
      GapsAnnounced (b.log calls) := by
  intro h
  have hlog : JitterRing.log { slots := List.replicate 8 {} } flushRun =
      [.released (samplePacket 5), .released (samplePacket 7)] := by decide
  have hg := h { capacity := 8 } { slots := List.replicate 8 {} } 1 flushRun rfl
    (by decide) ⟨by decide, by decide, by decide, trivial⟩
  rw [hlog] at hg
  exact not_gapsAnnounced [] [] (by decide) hg

/-! ### What is released was pushed -/

def JitterCall.pushed : JitterCall → List Packet
  | .pushInto _ pkt _ => [pkt]
  | _ => []

def Obs.packet : Obs → Option Packet
  | .released p => some p
  | .event _ => none

namespace JitterRing

def packets (b : JitterRing) : List Packet := b.slots.filterMap (·.packet)

/-- A call releases what the ring held and what came with it, nothing else and nothing twice. -/
def Conserves (more : List Packet) (b : JitterRing) (out : JitterResult)
    (result : JitterRing × JitterResult × Option Err) : Prop :=
  ∃ rel, result.2.1.ready = out.ready ++ rel ∧ (rel ++ result.1.packets) <+~ more ++ b.packets

variable {b b' : JitterRing} {out out' : JitterResult} {more more' : List Packet} {pkt : Packet}
  {result : JitterRing × JitterResult × Option Err}

lemma Conserves.keeps (hout : result.2.1.ready = out.ready) (h : result.1.packets <+~ more ++ b.packets) :
    Conserves more b out result :=
  ⟨[], by rw [hout, append_nil], h⟩

lemma Conserves.mono (h : Conserves more b out result) (hout : out.ready = out'.ready)
    (hmore : (more ++ b.packets) <+~ more' ++ b'.packets) : Conserves more' b' out' result := by
  obtain ⟨rel, hready, hrel⟩ := h
  exact ⟨rel, hout ▸ hready, hrel.trans hmore⟩

lemma packets_release (hp : b.headSlot.packet = some pkt) :
    pkt :: b.clearHead.advance.packets ~ b.packets := by
  have hlt : b.head < b.slots.length := by
    by_contra hge
    rw [headSlot, getD_eq_default _ _ (not_lt.mp hge)] at hp
    cases hp
  rw [headSlot, getD_eq_getElem _ _ hlt] at hp
  have hrest := (getElem_cons_eraseIdx_perm hlt).filterMap (·.packet)
  have hcleared := (set_perm_cons_eraseIdx hlt { b.headSlot with packet := none }).filterMap (·.packet)
  rw [filterMap_cons_some hp] at hrest
  rw [filterMap_cons_none rfl] at hcleared
  exact (hcleared.cons pkt).trans hrest

lemma Conserves.of_release (h : Conserves [] b.clearHead.advance out' result)
    (hp : b.headSlot.packet = some pkt) (ha : appendReady out pkt = .ok out') :
    Conserves [] b out result := by
  obtain ⟨rel, hready, hrel⟩ := h
  refine ⟨pkt :: rel, by simp [hready, appendReady_ok ha], ?_⟩
  exact ((subperm_cons pkt).mpr hrel).trans (packets_release hp).subperm

lemma conserves_drainReadyLoop (n : ℕ) (b : JitterRing) (out : JitterResult) :
    Conserves [] b out (drainReadyLoop n b out) := by
  fun_induction drainReadyLoop n b out with
  | case5 n b out pkt hp hseq out' ha ih => exact ih.of_release hp ha
  | _ => exact .keeps rfl (Subperm.refl _)

lemma conserves_flushLoop (n remaining : ℕ) (b : JitterRing) (out : JitterResult) :
    Conserves [] b out (flushLoop n remaining b out) := by
  fun_induction flushLoop n remaining b out with
  | case3 n remaining b out hp ih => exact ih
  | case5 n remaining b out pkt hp out' ha ih => exact ih.of_release hp ha
  | _ => exact .keeps rfl (Subperm.refl _)

lemma packets_stored (b : JitterRing) (pkt : Packet) (stats : JitterStats) :
    (b.stored pkt stats).packets <+~ pkt :: b.packets := by
  unfold stored packets
  generalize b.slotFor pkt.sequenceNumber = i
  rcases lt_or_ge i b.slots.length with hlt | hge
  · have hset := (set_perm_cons_eraseIdx hlt { seq := pkt.sequenceNumber, packet := some pkt }).filterMap
      JitterSlot.packet
    exact hset.subperm.trans (((eraseIdx_sublist _ _).filterMap _).cons_cons pkt).subperm
  · rw [set_eq_of_length_le hge]
    exact (sublist_cons_self _ _).subperm

lemma conserves_drainReady {stats : JitterStats} {e : Option Err}
    (h : (b.stored pkt stats).drainReady out = (b', out', e)) : Conserves [pkt] b out (b', out', e) :=
  h ▸ (conserves_drainReadyLoop _ _ out).mono rfl (packets_stored b pkt stats)

lemma conserves_place (b : JitterRing) (pkt : Packet) (out : JitterResult) (lossBefore discontinuous : Bool) :
    Conserves [pkt] b out (b.place pkt out lossBefore discontinuous) := by
  unfold place
  dsimp only
  split
  all_goals
    rename_i hdrain
    have h := @conserves_drainReady b _ out _ pkt _ _ hdrain
    exact h

lemma packets_replicate {n : ℕ} (h : b.slots = replicate n {}) : b.packets = [] := by
  rw [packets, h, filterMap_replicate_of_none rfl]

lemma Conserves.of_empty (h : Conserves [pkt] b out result) (hb : b.packets = [])
    (hout : out.ready = out'.ready) :
    Conserves [pkt] b' out' result := by
  refine h.mono hout ?_
  rw [hb]
  exact (sublist_append_left _ _).subperm

lemma appendJitterEvent_ready {event : Event} (h : appendJitterEvent out event = .ok out') :
    out'.ready = out.ready := by
  unfold appendJitterEvent at h
  split at h
  · cases h
  · cases h
    rfl

lemma conserves_admitPacket (b : JitterRing) (pkt : Packet) (out : JitterResult) (discontinuous : Bool) :
    Conserves [pkt] b out (b.admitPacket pkt out discontinuous) := by
  have hstays : b.packets <+~ [pkt] ++ b.packets := (sublist_append_right _ _).subperm
  unfold admitPacket
  dsimp only
  split
  · exact .keeps rfl hstays
  split
  · split
    · exact .keeps rfl hstays
    · rename_i hevent
      exact (conserves_place _ pkt _ _ _).of_empty (packets_replicate rfl) (appendJitterEvent_ready hevent)
  · exact conserves_place b pkt out _ _

lemma conserves_pushInto (b : JitterRing) (ctx : Ctx) (pkt : Packet) (out : JitterResult) :
    Conserves [pkt] b out (b.pushInto ctx pkt out) := by
  cases ctx with
  | some e => exact .keeps rfl (sublist_append_right _ _).subperm
  | none =>
    have hpackets : (if b.initialized then b else b.init pkt).packets = b.packets := by split <;> rfl
    unfold pushInto
    dsimp only
    generalize (if b.initialized then b else b.init pkt) = bound at hpackets
    split
    · split
      · refine .keeps rfl ?_
        rw [packets_replicate rfl]
        exact nil_subperm
      · rename_i hevent
        exact (conserves_admitPacket _ pkt _ _).of_empty (packets_replicate rfl)
          (appendJitterEvent_ready hevent)
    · exact (conserves_admitPacket bound pkt out _).mono rfl (hpackets ▸ Subperm.refl _)

lemma conserves_flushInto (b : JitterRing) (ctx : Ctx) (out : JitterResult) :
    Conserves [] b out (b.flushInto ctx out) := by
  cases ctx with
  | some e => exact .keeps rfl (Subperm.refl _)
  | none =>
    have hloop := conserves_flushLoop b.slots.length b.buffered b out
    unfold flushInto
    dsimp only
    split
    all_goals
      rename_i hflush
      rw [hflush] at hloop
      exact hloop

lemma Conserves.subperm (h : Conserves more b out result) :
    ((appended out result.2.1).filterMap Obs.packet ++ result.1.packets) <+~ more ++ b.packets := by
  obtain ⟨rel, hready, hrel⟩ := h
  have hevents (es : List Event) : (es.map Obs.event).filterMap Obs.packet = [] := by
    simp [filterMap_map, Function.comp_def, Obs.packet]
  have hreleased : (rel.map Obs.released).filterMap Obs.packet = rel := by
    simp [filterMap_map, Function.comp_def, Obs.packet]
  rwa [appended, filterMap_append, hevents, hready, drop_left, hreleased]

lemma call_subperm (b : JitterRing) (c : JitterCall) :
    ((b.call c).2.1.filterMap Obs.packet ++ (b.call c).1.packets) <+~ c.pushed ++ b.packets := by
  cases c with
  | pushInto ctx pkt out => exact (conserves_pushInto b ctx pkt out).subperm
  | popInto ctx =>
    simp only [call, popInto, JitterCall.pushed]
    repeat' split
    case h_2.isFalse =>
      rename_i hp _
      exact (packets_release hp).subperm
    all_goals exact Subperm.refl _
  | flushInto ctx out => exact (conserves_flushInto b ctx out).subperm

/-- **Nothing is released that was not pushed, and nothing twice**, in any run. -/
theorem releases_pushed (b : JitterRing) (cs : List JitterCall) :
    (b.log cs).filterMap Obs.packet <+~ cs.flatMap JitterCall.pushed ++ b.packets := by
  induction cs generalizing b with
  | nil => exact nil_subperm
  | cons c cs ih =>
    rw [log, filterMap_append, flatMap_cons]
    refine ((subperm_append_left _).mpr (ih _)).trans ?_
    refine (perm_append_comm_assoc _ _ _).subperm.trans ?_
    refine ((subperm_append_left _).mpr (call_subperm b c)).trans ?_
    rw [append_assoc]
    exact (perm_append_comm_assoc _ _ _).subperm

end JitterRing

end Goav.Rtpav
