import Goav.Lib.History
import Goav.Rtpav.JitterRuns

/-!
Bounded displacement: packets that arrive each less than a window ahead of the first one missing leave
the ring in order. Packet `k` has the sequence number `s₀ + k`; with `e` the first number missing, cell
`d` holds packet `e + d` if it has arrived (`At`).
-/

namespace Goav.Rtpav

open Goav.Av Goav.Lib List

/-- The order of arrival keeps every packet within `C` of the packets before it. -/
def Displaced (C : ℕ) (order : List ℕ) : Prop :=
  ∀ pre k post, order = pre ++ k :: post → ∀ j, j + C ≤ k → j ∈ pre

def pushes (pkts : ℕ → Packet) (outs : ℕ → JitterResult) (order : List ℕ) : List JitterCall :=
  order.map fun k => .pushInto none (pkts k) (outs k)

namespace JitterRing

def after (b : JitterRing) (cs : List JitterCall) : JitterRing :=
  Lib.after (fun b c => (b.call c).1) b cs

structure At (pkts : ℕ → Packet) (s₀ : UInt16) (C : ℕ) (pre : List ℕ) (e : ℕ) (b : JitterRing) :
    Prop where
  ok : b.Ok
  size : b.slots.length = C
  below : ∀ j < e, j ∈ pre
  missing : e ∉ pre
  bound : ∀ j ∈ pre, j < e + C
  expected : b.expected = s₀ + UInt16.ofNat e
  cells : ∀ d < C, b.cells[d]? = some (if e + d ∈ pre then some (pkts (e + d)) else none)
  lost : b.stats.lost = 0
  late : b.stats.late = 0
  reordered : b.stats.reordered = 0

section Step

variable {pkts : ℕ → Packet} {s₀ : UInt16} {C : ℕ} {pre : List ℕ} {e k : ℕ}
  {b b' : JitterRing}

section

variable (h : At pkts s₀ C pre e b)
include h

lemma At.delta (hC : C ≤ 0x8000) (hek : e ≤ k) (hkC : k < e + C)
    (hseq : (pkts k).sequenceNumber = s₀ + UInt16.ofNat k) :
    ((pkts k).sequenceNumber - b.expected).toNat = k - e := by
  obtain ⟨d, rfl⟩ := Nat.exists_eq_add_of_le hek
  have hd : (pkts (e + d)).sequenceNumber - b.expected = UInt16.ofNat d := by
    rw [hseq, h.expected, UInt16.ofNat_add]
    grind
  rw [hd, UInt16.toNat_ofNat_of_lt' (by simp [UInt16.size]; omega)]
  omega

lemma At.cells_set (hek : e ≤ k) {d : ℕ} (hd : d < C) :
    (b.cells.set (k - e) (some (pkts k)))[d]? =
      some (if e + d ∈ pre ++ [k] then some (pkts (e + d)) else none) := by
  rw [getElem?_set]
  split
  · have hk : e + d = k := by omega
    rw [if_pos (by rw [cells_length, h.size]; omega), hk]
    simp
  · have hk : e + d ≠ k := by omega
    rw [h.cells d hd]
    simp [hk]

lemma At.released (hek : e ≤ k) {rel : List Packet} {rest : List (Option Packet)}
    (hset : b.cells.set (k - e) (some (pkts k)) = rel.map some ++ rest) :
    rel.length ≤ C ∧ rel = (range' e rel.length).map pkts ∧ ∀ j < e + rel.length, j ∈ pre ++ [k] := by
  have hlen : rel.length ≤ C := by
    have := congrArg length hset
    simp only [length_set, cells_length, h.size, length_append, length_map] at this
    omega
  have hget : ∀ i (hi : i < rel.length), e + i ∈ pre ++ [k] ∧ rel[i] = pkts (e + i) := by
    intro i hi
    have hc := h.cells_set hek (d := i) (by omega)
    rw [hset, getElem?_append_left (by simpa using hi), getElem?_map,
      getElem?_eq_getElem hi, Option.map_some, Option.some.injEq] at hc
    split at hc
    · next hm => exact ⟨hm, Option.some.inj hc⟩
    · cases hc
  refine ⟨hlen, ?_, fun j hj => ?_⟩
  · refine ext_getElem (by simp) fun i h₁ h₂ => ?_
    rw [(hget i h₁).2]
    simp
  · by_cases hje : j < e
    · exact mem_append_left _ (h.below j hje)
    · have := (hget (j - e) (by omega)).1
      rwa [show e + (j - e) = j by omega] at this

/-- **One arrival** within the window is placed, and the packets that leave are the next ones. -/
theorem At.admitPacket (hC : C ≤ 0x8000) (hk : k ∉ pre) (hkC : k < e + C)
    (hseq : (pkts k).sequenceNumber = s₀ + UInt16.ofNat k) {out out' : JitterResult}
    {err : Option Err} (hadm : b.admitPacket (pkts k) out false = (b', out', err))
    (herr : err ≠ some .resultFull) :
    err = none ∧ b'.initialized = b.initialized ∧ b'.ssrc = b.ssrc ∧
      ∃ e', At pkts s₀ C (pre ++ [k]) e' b' ∧ e ≤ e' ∧
        appended out out' = (range' e (e' - e)).map (.released ∘ pkts) := by
  have hek : e ≤ k := by
    by_contra hlt
    exact hk (h.below k (by omega))
  have hdelta := h.delta hC hek hkC hseq
  unfold JitterRing.admitPacket at hadm
  rw [if_neg (by omega), if_neg (by rw [h.size]; omega)] at hadm
  have hnone : err = none := by
    have := place_err b (pkts k) out false false (by rw [hadm]; exact herr)
    rwa [hadm] at this
  subst hnone
  obtain ⟨rel, rest, hp⟩ := place_spec h.ok (by rw [hdelta, h.size]; omega)
    (by rw [hdelta]; omega) hadm
  have hset := hp.before
  rw [hdelta] at hset
  obtain ⟨hlen, hrel, hbelow⟩ := h.released hek hset
  -- cell `d` of the new window was cell `rel.length + d` of the old one, or is empty
  have hcells : ∀ d < C, b'.cells[d]? =
      some (if e + rel.length + d ∈ pre ++ [k] then some (pkts (e + rel.length + d)) else none) := by
    intro d hd
    have hrest : rest.length = C - rel.length := by
      have := congrArg length hset
      simp only [length_set, cells_length, h.size, length_append, length_map] at this
      omega
    rw [hp.after, getElem?_append]
    split
    · have hc := h.cells_set hek (d := rel.length + d) (by omega)
      rw [hset, getElem?_append_right (by simp), length_map,
        Nat.add_sub_cancel_left, ← Nat.add_assoc] at hc
      exact hc
    · have hfar : e + rel.length + d ∉ pre ++ [k] := by
        intro hm
        have hb := h.bound (e + rel.length + d)
        rcases mem_append.mp hm with hm | hm
        · have := hb hm
          omega
        · simp only [mem_singleton] at hm
          omega
      rw [if_neg hfar, getElem?_replicate, if_pos (by omega)]
  have hpos : 0 < C := by
    have := h.ok.pos
    rwa [h.size] at this
  refine ⟨rfl, hp.initialized, hp.ssrc, e + rel.length, ⟨hp.ok, by rw [hp.size, h.size], hbelow,
    ?_, ?_, ?_, hcells, by rw [hp.lost, h.lost], by rw [hp.late, h.late], ?_⟩, by omega, ?_⟩
  · intro hm
    have hc := hcells 0 hpos
    rw [Nat.add_zero, if_pos hm] at hc
    exact hp.drained _ (by rw [head?_eq_getElem?, hc])
  · intro j hj
    rcases mem_append.mp hj with hj | hj
    · have := h.bound j hj
      omega
    · simp only [mem_singleton] at hj
      omega
  · rw [hp.expected, h.expected, UInt16.ofNat_add]
    ac_rfl
  · rw [hp.reordered, h.reordered]
    rw [hdelta, h.cells _ (by omega), show e + (k - e) = k by omega, if_neg hk]
  · rw [appended_eq [] _ (by simpa using hp.events) hp.ready, Nat.add_sub_cancel_left,
      map_nil, nil_append, ← map_map, ← hrel]

end

end Step

/-! ### Whole runs -/

variable (b : JitterRing)

lemma log_append (cs cs' : List JitterCall) :
    b.log (cs ++ cs') = b.log cs ++ (b.after cs).log cs' := by
  induction cs generalizing b with
  | nil => rfl
  | cons c cs ih =>
    rw [cons_append, log, log, ih, append_assoc]
    rfl

lemma roomy_append (cs cs' : List JitterCall) :
    b.Roomy (cs ++ cs') ↔ b.Roomy cs ∧ (b.after cs).Roomy cs' := by
  induction cs generalizing b with
  | nil => exact ⟨fun h => ⟨trivial, h⟩, fun h => h.2⟩
  | cons c cs ih =>
    rw [cons_append, Roomy, Roomy, ih, and_assoc]
    rfl

lemma at_init {config : JitterConfig} {b : JitterRing} (hb : newJitterRing config = .ok b)
    (pkts : ℕ → Packet) {s₀ : UInt16} {pkt : Packet} (hseq : pkt.sequenceNumber = s₀) :
    At pkts s₀ config.capacity.toNat [] 0 (b.init pkt) := by
  obtain ⟨hrest, hi⟩ := rested_new hb
  have hempty := hrest.idle hi
  unfold newJitterRing at hb
  split at hb
  · cases hb
  · cases hb
    refine ⟨ok_of_empty hrest.ok.pos hempty, by simp [init], by simp, by simp, by simp,
      by simpa [init] using hseq, fun d hd => ?_, rfl, rfl, rfl⟩
    simp [cells, window, init, hd]

/-- The numbers of a stream within `C` of the first one missing, in some order of arrival. -/
structure Arrivals (pkts : ℕ → Packet) (s₀ : UInt16) (ssrc : UInt32) (C : ℕ) (order : List ℕ) :
    Prop where
  nodup : order.Nodup
  first : ∀ k ∈ order.head?, k = 0
  displaced : Displaced C order
  seqs : ∀ k ∈ order, (pkts k).sequenceNumber = s₀ + UInt16.ofNat k
  ssrc : ∀ k ∈ order, (pkts k).ssrc = ssrc

lemma Arrivals.left {pkts : ℕ → Packet} {s₀ : UInt16} {ssrc : UInt32} {C : ℕ} {pre post : List ℕ}
    (h : Arrivals pkts s₀ ssrc C (pre ++ post)) : Arrivals pkts s₀ ssrc C pre := by
  refine ⟨h.nodup.of_append_left, fun k hk => ?_, fun l k r hl j hj => ?_,
    fun k hk => h.seqs k (mem_append_left _ hk),
    fun k hk => h.ssrc k (mem_append_left _ hk)⟩
  · refine h.first k ?_
    rw [head?_append, Option.mem_def.mp hk]
    rfl
  · exact h.displaced l k (r ++ post) (by rw [hl]; simp) j hj

def Reached (pkts : ℕ → Packet) (outs : ℕ → JitterResult) (s₀ : UInt16) (ssrc : UInt32) (C : ℕ)
    (b : JitterRing) (order : List ℕ) : Prop :=
  order = [] ∨ ∃ e, At pkts s₀ C order e (b.after (pushes pkts outs order)) ∧
    (b.after (pushes pkts outs order)).initialized = true ∧
    (b.after (pushes pkts outs order)).ssrc = ssrc ∧
    b.log (pushes pkts outs order) = (List.range e).map (.released ∘ pkts)

section Run

variable {config : JitterConfig} {b : JitterRing} {pkts : ℕ → Packet} {outs : ℕ → JitterResult}
  {s₀ : UInt16} {ssrc : UInt32} {order : List ℕ} {k : ℕ} (hb : newJitterRing config = .ok b)
include hb

lemma Reached.bound (h : Reached pkts outs s₀ ssrc config.capacity.toNat b order)
    (harr : Arrivals pkts s₀ ssrc config.capacity.toNat (order ++ [k])) :
    ∃ e b₁, At pkts s₀ config.capacity.toNat order e b₁ ∧ b₁.initialized = true ∧
      b₁.ssrc = ssrc ∧ b.log (pushes pkts outs order) = (range e).map (.released ∘ pkts) ∧
      (b.after (pushes pkts outs order)).pushInto none (pkts k) (outs k) =
        b₁.admitPacket (pkts k) (outs k) false := by
  have hssrc := harr.ssrc k (by simp)
  rcases h with rfl | ⟨e, hat, hi, hs, hlog⟩
  · obtain ⟨-, hi⟩ := rested_new hb
    have hk : k = 0 := harr.first k (by simp)
    have hseq := harr.seqs k (by simp)
    rw [hk] at hseq
    refine ⟨0, b.init (pkts k), at_init hb pkts (by rw [hk, hseq]; simp), rfl, hssrc, rfl, ?_⟩
    show b.pushInto none (pkts k) (outs k) = _
    simp [pushInto, hi, init]
  · refine ⟨e, _, hat, hi, hs, hlog, ?_⟩
    simp [pushInto, hi, hs, hssrc]

theorem Reached.snoc (hC : config.capacity ≤ 0x8000)
    (h : Reached pkts outs s₀ ssrc config.capacity.toNat b order)
    (harr : Arrivals pkts s₀ ssrc config.capacity.toNat (order ++ [k]))
    (hroom : b.Roomy (pushes pkts outs (order ++ [k]))) :
    ((b.after (pushes pkts outs order)).pushInto none (pkts k) (outs k)).2.2 = none ∧
      Reached pkts outs s₀ ssrc config.capacity.toNat b (order ++ [k]) := by
  obtain ⟨e, b₁, hat, hi, hs, hlog, hpush⟩ := h.bound hb harr
  have hk : k ∉ order := fun hm =>
    (nodup_append.mp harr.nodup).2.2 k hm k (by simp) rfl
  -- a packet a window past the first one missing would have waited for it
  have hkC : k < e + config.capacity.toNat := by
    by_contra hge
    exact hat.missing (harr.displaced order k [] rfl e (by omega))
  have hfull : ((b.after (pushes pkts outs order)).pushInto none (pkts k) (outs k)).2.2 ≠
      some .resultFull := by
    rw [pushes, map_append, roomy_append] at hroom
    exact hroom.2.1
  rcases hadm : b₁.admitPacket (pkts k) (outs k) false with ⟨b₂, out₂, err⟩
  rw [hadm] at hpush
  obtain ⟨rfl, hi', hs', e', hat', hee', happ⟩ := hat.admitPacket (by omega) hk hkC
    (harr.seqs k (by simp)) hadm (by rw [hpush] at hfull; exact hfull)
  have hcall : (b.after (pushes pkts outs order)).call (.pushInto none (pkts k) (outs k)) =
      (b₂, appended (outs k) out₂, none) := by
    simp [call, hpush]
  have hafter : b.after (pushes pkts outs (order ++ [k])) = b₂ := by
    rw [pushes, map_append, after, Lib.after_append]
    show ((b.after (pushes pkts outs order)).call (.pushInto none (pkts k) (outs k))).1 = b₂
    rw [hcall]
  refine ⟨by rw [hpush], .inr ⟨e', ?_, ?_, ?_, ?_⟩⟩
  · rw [hafter]; exact hat'
  · rw [hafter, hi', hi]
  · rw [hafter, hs', hs]
  · have hone : (b.after (pushes pkts outs order)).log [.pushInto none (pkts k) (outs k)] =
        appended (outs k) out₂ := by
      rw [log, log, hcall, append_nil]
    rw [pushes, map_append, log_append]
    show b.log (pushes pkts outs order) ++
      (b.after (pushes pkts outs order)).log [.pushInto none (pkts k) (outs k)] = _
    rw [hlog, hone, happ, ← map_append, range_eq_range', range_eq_range',
      show range' e (e' - e) = range' (0 + 1 * e) (e' - e) by simp,
      range'_append, show e + (e' - e) = e' by omega]

theorem reached (hC : config.capacity ≤ 0x8000) :
    ∀ order : List ℕ, Arrivals pkts s₀ ssrc config.capacity.toNat order →
      b.Roomy (pushes pkts outs order) → Reached pkts outs s₀ ssrc config.capacity.toNat b order := by
  intro order
  induction order using reverseRecOn with
  | nil => exact fun _ _ => .inl rfl
  | append_singleton order k ih =>
    intro harr hroom
    have hroom' : b.Roomy (pushes pkts outs order) := by
      rw [pushes, map_append, roomy_append] at hroom
      exact hroom.1
    exact ((ih harr.left hroom').snoc hb hC harr hroom).2

end Run

/-! ### Room -/

lemma drainReadyLoop_room (n : ℕ) : ∀ (b : JitterRing) (out : JitterResult),
    out.ready.length + n ≤ out.readyCap → (drainReadyLoop n b out).2.2 = none ∧
      (drainReadyLoop n b out).1.slots.length = b.slots.length := by
  induction n with
  | zero => exact fun _ _ _ => ⟨rfl, rfl⟩
  | succ n ih =>
    intro b out hroom
    rw [drainReadyLoop]
    split
    · exact ⟨rfl, rfl⟩
    split
    · exact ⟨rfl, rfl⟩
    rw [appendReady, if_neg (by omega)]
    have := ih b.clearHead.advance { out with ready := out.ready ++ [‹Packet›] } (by
      simp only [length_append, length_singleton]
      omega)
    exact ⟨this.1, this.2.trans (by simp [clearHead, advance])⟩

lemma place_room (pkt : Packet) (out : JitterResult) (l d : Bool)
    (hroom : out.ready.length + b.slots.length ≤ out.readyCap) :
    (b.place pkt out l d).2.2 = none ∧ (b.place pkt out l d).1.slots.length = b.slots.length := by
  unfold place
  simp only
  set b₁ : JitterRing := { b with slots := _, stats := _ } with hb₁
  have hlen : b₁.slots.length = b.slots.length := by simp [hb₁]
  have h := drainReadyLoop_room b₁.slots.length b₁ out (by omega)
  unfold drainReady
  rcases hd : drainReadyLoop b₁.slots.length b₁ out with ⟨b₂, out₂, e⟩
  rw [hd] at h
  obtain rfl : e = none := h.1
  exact ⟨rfl, h.2.trans hlen⟩

lemma pushInto_room (pkt : Packet) (out : JitterResult)
    (hroom : out.ready.length + b.slots.length ≤ out.readyCap)
    (hev : out.events.length + 2 ≤ out.eventsCap) :
    (b.pushInto none pkt out).2.2 = none ∧
      (b.pushInto none pkt out).1.slots.length = b.slots.length := by
  have hadm : ∀ (b' : JitterRing) (out' : JitterResult) (d : Bool),
      b'.slots.length = b.slots.length → out'.ready.length + b.slots.length ≤ out'.readyCap →
      out'.events.length + 1 ≤ out'.eventsCap → (b'.admitPacket pkt out' d).2.2 = none ∧
        (b'.admitPacket pkt out' d).1.slots.length = b.slots.length := by
    intro b' out' d hlen hr he
    unfold admitPacket
    simp only
    split
    · exact ⟨rfl, hlen⟩
    split
    · rw [appendJitterEvent, if_neg (by omega)]
      have := place_room (JitterRing.dropUntil { b' with stats := { b'.stats with
        lost := b'.stats.lost + ((pkt.sequenceNumber - b'.expected).toNat - b'.buffered) } }
        pkt.sequenceNumber) pkt { out' with events := out'.events ++ [{ type := .packetLoss }] }
        true d (by simpa [dropUntil, hlen] using hr)
      exact ⟨this.1, this.2.trans (by simp [dropUntil, hlen])⟩
    · have := place_room b' pkt out' false d (by rw [hlen]; exact hr)
      exact ⟨this.1, this.2.trans hlen⟩
  unfold pushInto
  simp only
  set b₁ := if b.initialized then b else b.init pkt with hb₁
  have hbound : b₁.slots.length = b.slots.length := by
    rw [hb₁]
    split <;> rfl
  split
  · rw [appendJitterEvent, if_neg (by omega)]
    refine hadm _ _ _ ?_ hroom ?_
    · show (replicate _ _).length = _
      rw [length_replicate, hbound]
    · simp only [length_append]
      omega
  · exact hadm _ _ _ hbound hroom (by omega)

theorem roomy_pushes (pkts : ℕ → Packet) (outs : ℕ → JitterResult) (order : List ℕ) :
    ∀ b : JitterRing, (∀ k ∈ order, (outs k).ready.length + b.slots.length ≤ (outs k).readyCap ∧
      (outs k).events.length + 2 ≤ (outs k).eventsCap) → b.Roomy (pushes pkts outs order) := by
  induction order with
  | nil => exact fun _ _ => trivial
  | cons k order ih =>
    intro b hroom
    obtain ⟨hr, he⟩ := hroom k (mem_cons_self ..)
    obtain ⟨h1, h2⟩ := pushInto_room b (pkts k) (outs k) hr he
    refine ⟨by simp [call, h1], ih _ fun j hj => ?_⟩
    have := hroom j (mem_cons_of_mem _ hj)
    rw [show (b.call (.pushInto none (pkts k) (outs k))).1.slots.length = b.slots.length from h2]
    exact this

end JitterRing

/-- **Bounded displacement.** Packets that arrive each once, none a window ahead of a missing one, leave
in order, without an event, and nothing is counted late, lost or reordered. -/
theorem displaced_stream_in_order (config : JitterConfig) (b : JitterRing)
    (hb : newJitterRing config = .ok b) (hC : config.capacity ≤ 0x8000) (pkts : ℕ → Packet)
    (outs : ℕ → JitterResult) (s₀ : UInt16) (ssrc : UInt32) (n : ℕ) (order : List ℕ)
    (hperm : order.Perm (List.range n)) (hfirst : ∀ k ∈ order.head?, k = 0)
    (hdisp : Displaced config.capacity.toNat order)
    (hseq : ∀ k < n, (pkts k).sequenceNumber = s₀ + UInt16.ofNat k)
    (hssrc : ∀ k < n, (pkts k).ssrc = ssrc) (hroom : b.Roomy (pushes pkts outs order)) :
    b.log (pushes pkts outs order) = (List.range n).map (.released ∘ pkts) ∧
      (∀ pre k post, order = pre ++ k :: post →
        ((b.after (pushes pkts outs pre)).pushInto none (pkts k) (outs k)).2.2 = none) ∧
      ∀ pre post, order = pre ++ post → (b.after (pushes pkts outs pre)).stats.late = 0 ∧
        (b.after (pushes pkts outs pre)).stats.lost = 0 ∧
        (b.after (pushes pkts outs pre)).stats.reordered = 0 := by
  have hmem : ∀ k, k ∈ order ↔ k < n := fun k => by rw [hperm.mem_iff, mem_range]
  have harr : JitterRing.Arrivals pkts s₀ ssrc config.capacity.toNat order :=
    ⟨hperm.nodup_iff.mpr nodup_range, hfirst, hdisp, fun k hk => hseq k ((hmem k).mp hk),
      fun k hk => hssrc k ((hmem k).mp hk)⟩
  have hroom' : ∀ pre post, order = pre ++ post → b.Roomy (pushes pkts outs pre) := by
    rintro pre post rfl
    rw [pushes, map_append, JitterRing.roomy_append] at hroom
    exact hroom.1
  refine ⟨?_, ?_, ?_⟩
  · rcases JitterRing.reached hb hC order harr hroom with rfl | ⟨e, hat, -, -, hlog⟩
    · have hn : n = 0 := by
        by_contra hn
        exact absurd ((hmem 0).mpr (by omega)) (by simp)
      rw [hn]
      rfl
    · -- the first number missing is `n`
      have hn : e = n := by
        have h1 : ¬ e < n := fun h => hat.missing ((hmem e).mpr h)
        have h2 : ¬ n < e := fun h => by
          have := (hmem n).mp (hat.below n h)
          omega
        omega
      rw [hlog, hn]
  · rintro pre k post hsplit
    have hsplit' : order = (pre ++ [k]) ++ post := by rw [hsplit]; simp
    have hpre := JitterRing.reached hb hC pre (hsplit ▸ harr).left (hroom' _ _ hsplit)
    exact (hpre.snoc hb hC (hsplit' ▸ harr).left (hroom' _ _ hsplit')).1
  · rintro pre post hsplit
    rcases JitterRing.reached hb hC pre (hsplit ▸ harr).left (hroom' _ _ hsplit) with
      rfl | ⟨e, hat, -, -, -⟩
    · unfold newJitterRing at hb
      split at hb <;> cases hb
      exact ⟨rfl, rfl, rfl⟩
    · exact ⟨hat.late, hat.lost, hat.reordered⟩

/-- Four packets around the wrap of the sequence number. -/
theorem displaced_stream_across_wrap :
    JitterRing.log { slots := List.replicate 3 {} }
      (pushes (fun k => samplePacket (65533 + UInt16.ofNat k)) (fun _ => sampleResult) [0, 2, 3, 1]) =
      [65533, 65534, 65535, 0].map (.released ∘ samplePacket) :=
  (displaced_stream_in_order { capacity := 3 } { slots := List.replicate 3 {} } rfl (by decide)
    (fun k => samplePacket (65533 + UInt16.ofNat k)) (fun _ => sampleResult) 65533 1 4 [0, 2, 3, 1]
    (by decide) (by decide) (by
      intro pre k post h j hj
      change j + 3 ≤ k at hj
      rcases pre with _ | ⟨_, _ | ⟨_, _ | ⟨_, _ | ⟨_, _ | ⟨_, _⟩⟩⟩⟩⟩ <;> simp at h <;>
        obtain ⟨rfl, h⟩ := h <;> simp_all <;> omega) (fun _ _ => rfl) (fun _ _ => rfl)
    (JitterRing.roomy_pushes _ _ _ _ (by decide))).1

end Goav.Rtpav
