import Goav.Lib.Wrap
import Goav.Rtpav.Av1RoundTrip
import Goav.Rtpav.H264RoundTrip
import Goav.Rtpav.SendDefs

/-!
Every slot of a history holds the last packet sent whose sequence number belongs to it (`Remembers`). The
last packets are all held when the size divides 65536 and no write failed, and not all around the wrap
otherwise.
-/

namespace Goav.Rtpav

open Goav.Av Goav.Lib PacketizeResult List

/-! ### The packetizers -/

variable {q : Packet}

lemma extensions_of_mem_markLast {payloadType : UInt8} {ts : UInt32} {ps : List Bytes}
    (hq : q ∈ markLast (ps.map (packetOf payloadType ts))) : q.extensions = [] := by
  induction ps with
  | nil => simp [markLast] at hq
  | cons b ps ih =>
    cases ps with
    | nil =>
      rw [map_singleton, markLast, mem_singleton] at hq
      rw [hq]
      rfl
    | cons b' ps =>
      rcases mem_cons.mp hq with rfl | hq
      · rfl
      · exact ih hq

instance : Packetizer H264Packetizer where
  packetizeInto := H264Packetizer.packetizeInto
  plain p ctx packet payload q hq := by
    cases ctx with
    | some e => simp [H264Packetizer.packetizeInto] at hq
    | none =>
      by_cases h : (p.packetizeInto none packet payload {}).2.2 = none
      · obtain ⟨-, ts, ps, -, hpkts⟩ := H264Packetizer.packetizeInto_spec h
        rw [hpkts] at hq
        exact extensions_of_mem_markLast hq
      · rw [H264Packetizer.packetizeInto_error h] at hq
        simp at hq

lemma AV1Packetizer.packetLoop_holds (budget : ℕ) (keyframe : Bool) (payloadType : UInt8)
    (ts : UInt32) (fuel : ℕ) : ∀ (elements : List AV1Element) (offset : ℕ) (first : Bool)
    {out : PacketizeResult} {sent : List Bytes}, Holds out payloadType ts sent →
    ∃ sent', Holds (packetLoop budget keyframe payloadType ts fuel elements offset first out)
      payloadType ts sent' := by
  induction fuel with
  | zero => exact fun _ _ _ _ sent h => ⟨sent, h⟩
  | succ fuel ih =>
    intro elements offset first out sent h
    rw [packetLoop]
    split
    · exact ⟨sent, h⟩
    · exact ih _ _ _ (h.emit _)

instance : Packetizer AV1Packetizer where
  packetizeInto := AV1Packetizer.packetizeInto
  plain p ctx packet payload q hq := by
    unfold AV1Packetizer.packetizeInto at hq
    cases ctx with
    | some e => simp at hq
    | none =>
      simp only at hq
      cases hts : rtpTimestamp packet payload p.clock with
      | error e => simp [hts] at hq
      | ok ts =>
        simp only [hts] at hq
        split at hq
        · simp at hq
        · obtain ⟨sent, hsent⟩ := AV1Packetizer.packetLoop_holds _ _ _ _ _ _ _ _ holds_empty
          rw [hsent.seal_packets] at hq
          exact extensions_of_mem_markLast hq

/-! ### Runs of a sender -/

structure SendCall where
  ctx : Ctx := none
  packet : Option Av.Packet

def sentOn (i : ℕ) (out : List (ℕ × Packet)) : List Packet :=
  (out.filter fun q => q.1 = i).map Prod.snd

lemma sentOn_append (i : ℕ) (out out' : List (ℕ × Packet)) :
    sentOn i (out ++ out') = sentOn i out ++ sentOn i out' := by
  simp [sentOn]

lemma sentOn_self (i : ℕ) (sent : List Packet) : sentOn i (sent.map fun q => (i, q)) = sent := by
  simp [sentOn, filter_map]

lemma sentOn_other {i k : ℕ} (h : k ≠ i) (sent : List Packet) :
    sentOn i (sent.map fun q => (k, q)) = [] := by
  simp [sentOn, h]

namespace Sender

variable {P : Type} [Packetizer P]

def step (s : Sender P) (c : SendCall) : Sender P × List (ℕ × Packet) :=
  let r := s.handle c.ctx c.packet
  (r.1, r.2.1)

def handleAll (s : Sender P) (calls : List SendCall) : Sender P × List (ℕ × Packet) :=
  Lib.run step s calls

end Sender

/-- `K` speaks of the packets sent and the stream, `W` of the transport. -/
structure SendInvariant (P : Type) (K : List Packet → SendStream P → Prop) (W : Writer → Prop) :
    Prop where
  packetizer : ∀ {sent s} (p : P), K sent s → K sent { s with packetizer := p }
  writer : ∀ {w} q, W w → W (w.writeRTP q).1
  failed : ∀ {sent s w q e}, K sent s → W w → (w.writeRTP q).2 = some e →
    K sent { s with seq := s.seq + 1 }
  sent : ∀ {sent s q}, K sent s → q.extensions = [] →
    K (sent ++ [s.stamp q]) (({ s with seq := s.seq + 1 } : SendStream P).account (s.stamp q))

namespace SendInvariant

variable {P : Type} {K : List Packet → SendStream P → Prop} {W : Writer → Prop} (h : SendInvariant P K W)
include h

lemma sendPackets_writer (ps : List Packet) :
    ∀ {s : SendStream P} {w : Writer}, W w → W (s.sendPackets ps w).2.1 := by
  induction ps with
  | nil => exact fun hw => hw
  | cons q ps ih =>
    intro s w hw
    have hw' := h.writer (s.stamp q) hw
    rw [SendStream.sendPackets]
    rcases hwrite : w.writeRTP (s.stamp q) with ⟨w', _ | e⟩ <;> rw [hwrite] at hw'
    · exact ih hw'
    · exact hw'

lemma sendPackets (ps : List Packet) :
    ∀ {sent : List Packet} {s : SendStream P} {w : Writer}, (∀ q ∈ ps, q.extensions = []) →
      K sent s → W w → K (sent ++ (s.sendPackets ps w).2.2.1) (s.sendPackets ps w).1 := by
  induction ps with
  | nil =>
    intro sent s w _ hk hw
    simpa [SendStream.sendPackets] using hk
  | cons q ps ih =>
    intro sent s w hplain hk hw
    rw [SendStream.sendPackets]
    rcases hwrite : w.writeRTP (s.stamp q) with ⟨w', _ | e⟩
    · have hw' := h.writer (s.stamp q) hw
      rw [hwrite] at hw'
      have := ih (fun x hx => hplain x (mem_cons_of_mem _ hx)) (h.sent hk (hplain q (by simp))) hw'
      simpa using this
    · simpa using h.failed hk hw (congrArg Prod.snd hwrite)

variable [Packetizer P]

lemma handle {i : ℕ} {sent : List Packet} {s : Sender P} {stream : SendStream P}
    (hi : s.streams[i]? = some stream) (hk : K sent stream) (hw : W s.writer) (ctx : Ctx)
    (packet : Option Av.Packet) :
    ∃ stream', (s.handle ctx packet).1.streams[i]? = some stream' ∧
      K (sent ++ sentOn i (s.handle ctx packet).2.1) stream' ∧ W (s.handle ctx packet).1.writer := by
  have hsame : ∃ stream', s.streams[i]? = some stream' ∧ K (sent ++ sentOn i []) stream' ∧
      W s.writer := ⟨stream, hi, by simpa [sentOn] using hk, hw⟩
  have hlt : i < s.streams.length := (List.getElem?_eq_some_iff.mp hi).1
  unfold Sender.handle
  match packet with
  | none => exact hsame
  | some packet =>
    simp only
    cases hfor : s.streamFor packet.streamID with
    | none => exact hsame
    | some k =>
      simp only
      cases hstream : s.streams[k]? with
      | none => exact hsame
      | some st =>
        have hplain := Packetizer.plain st.packetizer ctx packet st.payload
        simp only
        generalize Packetizer.packetizeInto st.packetizer ctx packet st.payload {} = r at hplain ⊢
        obtain ⟨p, result, err⟩ := r
        by_cases hki : k = i
        · subst hki
          obtain rfl : st = stream := Option.some.inj (hstream.symm.trans hi)
          cases err with
          | some e =>
            refine ⟨_, getElem?_set_self hlt, ?_, hw⟩
            simpa [sentOn] using h.packetizer p hk
          | none =>
            refine ⟨_, getElem?_set_self hlt, ?_, h.sendPackets_writer _ hw⟩
            simp only [sentOn_self]
            exact h.sendPackets result.packets hplain (h.packetizer p hk) hw
        · have hset : ∀ x, (s.streams.set k x)[i]? = some stream := fun x =>
            (getElem?_set_ne hki).trans hi
          cases err with
          | some e => exact ⟨stream, hset _, by simpa [sentOn] using hk, hw⟩
          | none =>
            -- another stream writes; this one is as it was
            refine ⟨stream, hset _, ?_, h.sendPackets_writer _ hw⟩
            simp only [sentOn_other hki, append_nil]
            exact hk

/-- **Runs.** What a stream keeps between packets holds after every run of the sender. -/
lemma handleAll {i : ℕ} {s : Sender P} {stream : SendStream P} (hi : s.streams[i]? = some stream)
    (hk : K [] stream) (hw : W s.writer) (calls : List SendCall) :
    ∃ stream', (s.handleAll calls).1.streams[i]? = some stream' ∧
      K (sentOn i (s.handleAll calls).2) stream' := by
  have hrun := run_invariant Sender.step (fun out s =>
    ∃ stream', s.streams[i]? = some stream' ∧ K (sentOn i out) stream' ∧ W s.writer)
    ⟨stream, hi, hk, hw⟩ (by
      rintro out s c ⟨stream', hi', hk', hw'⟩
      rw [sentOn_append]
      exact h.handle hi' hk' hw' c.ctx c.packet) calls
  obtain ⟨stream', hi', hk', -⟩ := hrun
  exact ⟨stream', hi', hk'⟩

end SendInvariant

/-! ### What the history holds -/

variable (H : ℕ) (sent : List Packet)

def lastIn (j : ℕ) : Option Packet :=
  sent.reverse.find? fun q => q.sequenceNumber.toNat % H = j

def slotAfter (j : ℕ) : SentPacket :=
  match lastIn H sent j with
  | some q => { state := .ready, packet := q }
  | none => {}

def Remembers {P : Type} (H : ℕ) (sent : List Packet) (s : SendStream P) : Prop :=
  s.history = (List.range H).map (slotAfter H sent)

lemma lastIn_concat (q : Packet) (j : ℕ) :
    lastIn H (sent ++ [q]) j = if q.sequenceNumber.toNat % H = j then some q else lastIn H sent j := by
  simp only [lastIn]
  split <;> simp_all

lemma lastIn_append {H : ℕ} {pre post : List Packet} {j : ℕ}
    (h : lastIn H post j = some q) : lastIn H (pre ++ post) j = some q := by
  unfold lastIn at *
  rw [reverse_append, find?_append, h]
  rfl

lemma lastIn_isSome {H : ℕ} {sent : List Packet} (h : q ∈ sent) :
    ∃ q', lastIn H sent (q.sequenceNumber.toNat % H) = some q' ∧ q' ∈ sent ∧
      q'.sequenceNumber.toNat % H = q.sequenceNumber.toNat % H := by
  have hsome : (lastIn H sent (q.sequenceNumber.toNat % H)).isSome := by
    rw [lastIn, find?_isSome]
    exact ⟨q, mem_reverse.mpr h, by simp⟩
  obtain ⟨q', hq'⟩ := Option.isSome_iff_exists.mp hsome
  exact ⟨q', hq', mem_reverse.mp (mem_of_find?_eq_some hq'), by
    simpa using find?_some hq'⟩

namespace Remembers

variable {P : Type} {H : ℕ} {sent : List Packet} {s : SendStream P}

lemma new (s : SendStream P) (h : s.history = newHistory H) : Remembers H [] s := by
  rw [Remembers, h, newHistory, eq_comm, eq_replicate_iff]
  simp [slotAfter, lastIn]

section

variable (h : Remembers H sent s)
include h

lemma length : s.history.length = H := by
  rw [h, length_map, length_range]

lemma getD {j : ℕ} (hj : j < H) :
    s.history.getD j {} = slotAfter H sent j := by
  rw [h]
  simp [hj]

lemma remember {q : Packet} (hq : q.extensions = []) :
    Remembers H (sent ++ [q]) (s.remember q) := by
  have hlen := h.length
  rcases Nat.eq_zero_or_pos H with rfl | hpos
  · rw [SendStream.remember, if_pos hlen]
    exact h
  have hi : s.slotIndex q.sequenceNumber = q.sequenceNumber.toNat % H := by
    rw [SendStream.slotIndex, hlen]
  have hlt := Nat.mod_lt q.sequenceNumber.toNat hpos
  have hstate : (slotAfter H sent (q.sequenceNumber.toNat % H)).state = .ready ∨
      (slotAfter H sent (q.sequenceNumber.toNat % H)).state = .empty := by
    unfold slotAfter
    split <;> simp
  rw [SendStream.remember, if_neg (by omega)]
  simp only [hi, h.getD hlt]
  rw [if_pos hstate]
  have hplain : ({ q with extensions := [] } : Packet) = q := by rw [← hq]
  unfold Remembers at h ⊢
  simp only [hplain, h]
  refine ext_getElem (by simp) fun j hj _ => ?_
  simp only [getElem_set, getElem_map, getElem_range, slotAfter, lastIn_concat]
  split <;> rfl

end

lemma invariant (P : Type) (H : ℕ) : SendInvariant P (Remembers (P := P) H) fun _ => True where
  packetizer _ h := h
  writer _ _ := trivial
  failed h _ _ := h
  sent {_ s _} h hq := remember (s := { s with seq := s.seq + 1 }) h hq

lemma resend_iff (h : Remembers H sent s) (hpos : 0 < H) (q : Packet) :
    (∀ w, (s.resend w q.sequenceNumber).written = w.written ++ [q]) ↔
      lastIn H sent (q.sequenceNumber.toNat % H) = some q := by
  have hi : s.slotIndex q.sequenceNumber = q.sequenceNumber.toNat % H := by
    rw [SendStream.slotIndex, h.length]
  simp only [SendStream.resend, hi, h.getD (Nat.mod_lt _ hpos), slotAfter]
  cases hlast : lastIn H sent (q.sequenceNumber.toNat % H) with
  | none => simp
  | some q' =>
    by_cases hseq : q'.sequenceNumber = q.sequenceNumber
    · simp [hseq, Writer.writeRTP]
    · have : q' ≠ q := fun heq => hseq (by rw [heq])
      simp [hseq, this]

end Remembers

/-- Every packet at the end is the last of its slot exactly when different ones have different slots. -/
lemma forall_lastIn_iff (pre window : List Packet) :
    (∀ q ∈ window, lastIn H (pre ++ window) (q.sequenceNumber.toNat % H) = some q) ↔
      ∀ q ∈ window, ∀ q' ∈ window, q.sequenceNumber.toNat % H = q'.sequenceNumber.toNat % H → q = q' := by
  constructor
  · intro h q hq q' hq' heq
    have := h q hq
    rw [heq, h q' hq'] at this
    exact (Option.some.inj this).symm
  · intro h q hq
    obtain ⟨q', hlast, hmem, heq⟩ := lastIn_isSome (H := H) hq
    rw [lastIn_append hlast, h q hq q' hmem heq.symm]

/-! ### Sequence numbers without a failed write -/

/-- No write fails. -/
def Accepts (w : Writer) : Prop := ∀ a ∈ w.answers, a = none

lemma Accepts.writeRTP {w : Writer} (h : Accepts w) (q : Packet) :
    (w.writeRTP q).2 = none ∧ Accepts (w.writeRTP q).1 := by
  refine ⟨?_, fun a ha => h a (mem_of_mem_tail ha)⟩
  unfold Writer.writeRTP
  cases hw : w.answers with
  | nil => rfl
  | cons a as => exact h a (by simp [hw])

/-- The packets have consecutive sequence numbers, and the stream goes on with the next one. -/
structure Numbered {P : Type} (first : UInt16) (sent : List Packet) (s : SendStream P) : Prop where
  next : s.seq = first + UInt16.ofNat sent.length
  numbers : sent.map (·.sequenceNumber) = (List.range sent.length).map fun k => first + UInt16.ofNat k

namespace Numbered

variable {P : Type} {first : UInt16} {sent : List Packet} {s : SendStream P}

lemma remember_seq (s : SendStream P) (q : Packet) : (s.remember q).seq = s.seq := by
  unfold SendStream.remember
  split
  · rfl
  · simp only
    split <;> rfl

lemma invariant (P : Type) (first : UInt16) : SendInvariant P (Numbered first) Accepts where
  packetizer _ h := ⟨h.next, h.numbers⟩
  writer q h := (h.writeRTP q).2
  failed _ hw he := by
    rw [(hw.writeRTP _).1] at he
    simp at he
  sent {sent s q} h hq := by
    refine ⟨?_, ?_⟩
    · rw [SendStream.account]
      simp only [remember_seq, h.next, length_append, UInt16.ofNat_add, UInt16.add_assoc]
      rfl
    · rw [map_append, h.numbers, length_append, length_singleton, range_succ, map_append]
      simp [SendStream.stamp, h.next]

lemma toNat_sequenceNumber (h : Numbered first sent s) {k : ℕ} (hk : k < sent.length) :
    sent[k].sequenceNumber.toNat = (first.toNat + k) % 65536 := by
  have := congrArg (·[k]?) h.numbers
  simp only [getElem?_map, getElem?_range hk, getElem?_eq_getElem hk,
    Option.map_some, Option.some.injEq] at this
  rw [this, UInt16.toNat_add, UInt16.toNat_ofNat', Nat.add_mod_mod]

end Numbered

/-! ### The last packets sent -/

def heldCount (H n : ℕ) : ℕ := min (min H n) 65536

/-- What a history of `H` slots should hold. -/
def lastSent : List Packet :=
  sent.drop (sent.length - heldCount H sent.length)

/-- A request for the packet gets it. -/
def SendStream.Resends {P : Type} (s : SendStream P) (q : Packet) : Prop :=
  ∀ w, (s.resend w q.sequenceNumber).written = w.written ++ [q]

/-- The numbers straddle the wrap, and two on different sides have the same slot. -/
def WrapCollides (H first m : ℕ) : Prop :=
  65536 < first + m ∧ 65536 % H ≠ 0 ∧ 65536 % H < m

instance (H first m : ℕ) : Decidable (WrapCollides H first m) :=
  inferInstanceAs (Decidable (_ ∧ _ ∧ _))

lemma Numbered.slots_iff {P : Type} {first : UInt16} {sent : List Packet} {s : SendStream P}
    (h : Numbered first sent s) (H : ℕ) :
    (∀ q ∈ lastSent H sent, ∀ q' ∈ lastSent H sent,
        q.sequenceNumber.toNat % H = q'.sequenceNumber.toNat % H → q = q') ↔
      ¬ WrapCollides H ((first.toNat + (sent.length - heldCount H sent.length)) % 65536)
        (heldCount H sent.length) := by
  have hm : heldCount H sent.length ≤ H ∧ heldCount H sent.length ≤ sent.length ∧
      heldCount H sent.length ≤ 65536 := by
    unfold heldCount
    omega
  unfold lastSent
  generalize hcount : heldCount H sent.length = m at hm ⊢
  have hwindow : ∀ k, (hk : k < (sent.drop (sent.length - m)).length) →
      (sent.drop (sent.length - m))[k].sequenceNumber.toNat =
        ((first.toNat + (sent.length - m)) % 65536 + k) % 65536 := by
    intro k hk
    rw [getElem_drop, h.toNat_sequenceNumber, Nat.mod_add_mod, Nat.add_assoc]
  have hlen : (sent.drop (sent.length - m)).length = m := by
    rw [length_drop]
    omega
  generalize sent.drop (sent.length - m) = window at hwindow hlen ⊢
  subst hlen
  rw [WrapCollides, ← wrapped_mod_injective_iff (Nat.mod_lt _ (by decide)) hm.1 hm.2.2]
  constructor
  · intro hslots a b ha hb heq
    rw [← hwindow a ha, ← hwindow b hb] at heq
    have hsame := congrArg (·.sequenceNumber.toNat) (hslots _ (getElem_mem ha) _ (getElem_mem hb) heq)
    simp only [hwindow] at hsame
    omega
  · intro hinj q hq q' hq' heq
    obtain ⟨a, ha, rfl⟩ := getElem_of_mem hq
    obtain ⟨b, hb, rfl⟩ := getElem_of_mem hq'
    rw [hwindow, hwindow] at heq
    obtain rfl := hinj a b ha hb heq
    rfl

/-- **The history of a stream.** The last packets, as many as the history has slots, are all resent
exactly when no two share a slot; without failed writes, when they do not collide around the wrap. -/
theorem history_resends_iff {P : Type} [Packetizer P] (packets : ℤ) (hpackets : 1 ≤ packets)
    (s : Sender P) (i : ℕ) (stream : SendStream P) (hi : s.streams[i]? = some stream)
    (hnew : stream.history = newHistory (withHistory packets)) (calls : List SendCall) :
    ∃ stream', (s.handleAll calls).1.streams[i]? = some stream' ∧
      ((∀ q ∈ lastSent (withHistory packets) (sentOn i (s.handleAll calls).2), stream'.Resends q) ↔
        ∀ q ∈ lastSent (withHistory packets) (sentOn i (s.handleAll calls).2),
          ∀ q' ∈ lastSent (withHistory packets) (sentOn i (s.handleAll calls).2),
            q.sequenceNumber.toNat % withHistory packets =
              q'.sequenceNumber.toNat % withHistory packets → q = q') ∧
      (Accepts s.writer →
        ((∀ q ∈ lastSent (withHistory packets) (sentOn i (s.handleAll calls).2), stream'.Resends q) ↔
          ¬ WrapCollides (withHistory packets)
            ((stream.seq.toNat + ((sentOn i (s.handleAll calls).2).length -
              heldCount (withHistory packets) (sentOn i (s.handleAll calls).2).length)) % 65536)
            (heldCount (withHistory packets) (sentOn i (s.handleAll calls).2).length))) := by
  have hpos : 0 < withHistory packets := by
    unfold withHistory
    omega
  generalize withHistory packets = H at hnew hpos ⊢
  obtain ⟨stream', hi', hremembers⟩ := (Remembers.invariant P H).handleAll hi
    (Remembers.new stream hnew) trivial calls
  have hslots : (∀ q ∈ lastSent H (sentOn i (s.handleAll calls).2), stream'.Resends q) ↔
      ∀ q ∈ lastSent H (sentOn i (s.handleAll calls).2), ∀ q' ∈ lastSent H (sentOn i (s.handleAll calls).2),
          q.sequenceNumber.toNat % H = q'.sequenceNumber.toNat % H → q = q' := by
    rw [lastSent, ← forall_lastIn_iff H ((sentOn i (s.handleAll calls).2).take _), take_append_drop]
    exact forall₂_congr fun q _ => hremembers.resend_iff hpos q
  refine ⟨stream', hi', hslots, fun haccepts => hslots.trans ?_⟩
  obtain ⟨_, -, hnumbered⟩ := (Numbered.invariant P stream.seq).handleAll hi ⟨by simp, rfl⟩ haccepts calls
  exact hnumbered.slots_iff H

def sampleSender (seq : UInt16) : Sender H264Packetizer :=
  { streams := [{ packetizer := samplePacketizer [], seq, history := newHistory (withHistory 3) }] }

def sampleCalls : List SendCall :=
  [{ packet := some (sampleUnit [0, 0, 1, 0x65, 1]) }, { packet := some (sampleUnit [0, 0, 1, 0x61, 2]) },
    { packet := some (sampleUnit [0, 0, 1, 0x61, 3]) }]

/-- Away from the wrap, a history of three holds the last three packets. -/
theorem history_resends_three :
    (lastSent 3 (sentOn 0 ((sampleSender 7).handleAll sampleCalls).2)).map (·.sequenceNumber) = [7, 8, 9] ∧
      ∃ stream', ((sampleSender 7).handleAll sampleCalls).1.streams[0]? = some stream' ∧
        ∀ q ∈ lastSent 3 (sentOn 0 ((sampleSender 7).handleAll sampleCalls).2), stream'.Resends q := by
  refine ⟨by decide +kernel, ?_⟩
  obtain ⟨stream', hi, -, hwrap⟩ := history_resends_iff 3 (by decide) (sampleSender 7) 0 _ rfl rfl
    sampleCalls
  exact ⟨stream', hi, (hwrap (by simp [Accepts, sampleSender])).mpr (by decide +kernel)⟩

/-- Around the wrap, it does not: the packets 65535 and 0 have the same slot. -/
theorem history_of_three_loses_65535 :
    ¬ ∀ (P : Type) [Packetizer P] (packets : ℤ), 1 ≤ packets →
      ∀ (s : Sender P) (i : ℕ) (stream : SendStream P), s.streams[i]? = some stream →
      stream.history = newHistory (withHistory packets) → ∀ calls : List SendCall,
      ∃ stream', (s.handleAll calls).1.streams[i]? = some stream' ∧
        ∀ q ∈ lastSent (withHistory packets) (sentOn i (s.handleAll calls).2), stream'.Resends q := by
  intro h
  obtain ⟨stream', hi, hall⟩ := h H264Packetizer 3 (by decide) (sampleSender 65534) 0 _ rfl rfl sampleCalls
  have hsent : ∃ q ∈ lastSent (withHistory 3)
      (sentOn 0 ((sampleSender 65534).handleAll sampleCalls).2), q.sequenceNumber = 65535 := by
    decide +kernel
  have hnothing : (((sampleSender 65534).handleAll sampleCalls).1.streams[0]?.map fun stream =>
      (stream.resend {} 65535).written) = some [] := by
    decide +kernel
  obtain ⟨q, hq, hseq⟩ := hsent
  have hwritten := hall q hq {}
  rw [hi, Option.map_some, Option.some.injEq, ← hseq, hwritten] at hnothing
  simp at hnothing

end Goav.Rtpav
