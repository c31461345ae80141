import Goav.Rtpav.SourceSteps

/-!
The payload maps of the packets that wait in the jitter ring. It is drained before a record of another
scope or epoch and before a configuration event or a discontinuity.
-/

namespace Goav.Rtpav

open Goav.Av Goav.Lib List Function Option

/-- The event of a record that cuts off the packets before it: `k` is the record. -/
def SourceObs.Cuts (k : ℕ) : SourceObs → Prop
  | .event (some record) e => record = k ∧ boundaryEvent (some e) = true
  | _ => False

def SourceObs.Before (o o' : SourceObs) : Prop :=
  ∀ k, o.Cuts k → ∀ j pkt payload, o' = .depacketized j pkt payload → k ≤ j

namespace Source

variable {D : Type} {ops : Depacketizers D} {s s' : Source D} {p pkt : Packet}

/-- The record of a packet has the scope and the epoch of the map, and no event cut it off. -/
structure Ready (s : Source D) (p : Packet) : Prop where
  record : ∃ x, s.taken[s.origin p]? = some x ∧ x.packet = some p ∧ x.scope = s.scope ∧
    ∀ m ∈ s.payloads, m.epoch = x.payloads.epoch
  uncut : ∀ o ∈ s.log, ∀ k, o.Cuts k → k ≤ s.origin p

def Entry (s : Source D) (k : ℕ) (pkt : Packet) (payload : PayloadEntry) : Prop :=
  ∃ x, ∃ y ∈ s.taken, s.taken[k]? = some x ∧ x.packet = some pkt ∧ x.scope = y.scope ∧
    x.payloads.epoch = y.payloads.epoch ∧ y.payloads.lookup pkt.payloadType = some payload

/-- **The invariant of a source.** -/
structure Ok (s : Source D) : Prop where
  rested : ∀ ring ∈ s.jitter, ring.Rested
  held : ∀ ring ∈ s.jitter, ∀ p, ring.Holds p → s.Ready p
  current : s.taken ≠ [] → ∃ y ∈ s.taken, y.scope = s.scope ∧ s.payloads = some y.payloads
  cuts : ∀ o ∈ s.log, ∀ k, o.Cuts k → k < s.taken.length
  entries : ∀ k pkt payload, .depacketized k pkt payload ∈ s.log → s.Entry k pkt payload
  order : s.log.Pairwise SourceObs.Before

def Drained (s : Source D) : Prop := ∀ ring ∈ s.jitter, ∀ p, ¬ ring.Holds p

lemma not_cuts_of_quiet {o : SourceObs} {k : ℕ} (h : o.Quiet) : ¬ o.Cuts k := by
  cases o with
  | depacketized => exact h.elim
  | event record event =>
    obtain rfl : record = none := h
    exact id
  | packet => exact id

lemma Ok.frame {l : List SourceObs} (h : s.Ok) (hframe : Frame s s' l)
    (hcuts : ∀ o ∈ l, ∀ k, ¬ o.Cuts k)
    (hentries : ∀ k pkt payload, .depacketized k pkt payload ∈ l → s.Entry k pkt payload)
    (horder : ∀ o ∈ s.log, ∀ o' ∈ l, o.Before o') : s'.Ok ∧ ∀ p, s.Ready p → s'.Ready p := by
  have hlog : ∀ o ∈ s'.log, ∀ k, o.Cuts k → o ∈ s.log := by
    intro o ho k hk
    rw [hframe.log] at ho
    exact (mem_append.mp ho).resolve_right fun ho => hcuts o ho k hk
  have hready : ∀ p, s.Ready p → s'.Ready p := by
    rintro p ⟨hrecord, huncut⟩
    refine ⟨?_, fun o ho k hk => ?_⟩
    · rwa [hframe.taken, hframe.origin, hframe.scope, hframe.payloads]
    · rw [hframe.origin]
      exact huncut o (hlog o ho k hk) k hk
  refine ⟨⟨?_, ?_, ?_, ?_, ?_, ?_⟩, hready⟩
  · rw [hframe.jitter]
    exact h.rested
  · rw [hframe.jitter]
    exact fun ring hring p hp => hready p (h.held ring hring p hp)
  · rw [hframe.taken, hframe.scope, hframe.payloads]
    exact h.current
  · rw [hframe.taken]
    exact fun o ho k hk => h.cuts o (hlog o ho k hk) k hk
  · intro k pkt payload hmem
    unfold Entry
    rw [hframe.taken]
    rw [hframe.log] at hmem
    obtain hmem | hmem := mem_append.mp hmem
    · exact h.entries k pkt payload hmem
    · exact hentries k pkt payload hmem
  · rw [hframe.log, pairwise_append]
    refine ⟨h.order, ?_, horder⟩
    exact pairwise_of_forall_mem_list fun o ho _ _ k hk => absurd hk (hcuts o ho k)

lemma Ok.quiet (h : s.Ok) (hquiet : Quiet s s') : s'.Ok ∧ ∀ p, s.Ready p → s'.Ready p := by
  obtain ⟨l, hframe, hl⟩ := hquiet
  refine h.frame hframe (fun o ho k => not_cuts_of_quiet (hl o ho)) (fun k pkt payload hmem => ?_)
    fun o _ o' ho' k _ j pkt payload heq => ?_
  · exact (hl _ hmem).elim
  · rw [heq] at ho'
    exact (hl _ ho').elim

/-- **A packet that can be handed over is handed over with the entry of its map.** -/
lemma Ok.depacketize (h : s.Ok) (hp : s.Ready p) (heq : s.depacketize ops p = .ok s') :
    s'.Ok ∧ ∀ q, s.Ready q → s'.Ready q := by
  obtain ⟨payloads, payload, l, hpayloads, hlookup, hframe, hl⟩ := frame_depacketize heq
  obtain ⟨x, hx, hpacket, hscope, hepoch⟩ := hp.record
  refine h.frame hframe ?_ ?_ ?_
  · intro o ho k
    obtain rfl | ho := mem_cons.mp ho
    · exact id
    · exact not_cuts_of_quiet (hl o ho)
  · intro k pkt payload' hmem
    obtain hhead | hmem := mem_cons.mp hmem
    · obtain ⟨rfl, rfl, rfl⟩ := SourceObs.depacketized.inj hhead
      obtain ⟨y, hy, hyscope, hypayloads⟩ :=
        h.current (ne_nil_of_mem (mem_of_getElem? hx))
      obtain rfl : payloads = y.payloads := some.inj (hpayloads.symm.trans hypayloads)
      exact ⟨x, y, hy, hx, hpacket, hscope.trans hyscope.symm, (hepoch _ hpayloads).symm, hlookup⟩
    · exact (hl _ hmem).elim
  · intro o ho o' ho' k hk j pkt payload' hdepacketized
    obtain rfl | ho' := mem_cons.mp ho'
    · obtain ⟨rfl, -, -⟩ := SourceObs.depacketized.inj hdepacketized
      exact hp.uncut o ho k hk
    · rw [hdepacketized] at ho'
      exact (hl _ ho').elim

lemma jitter_depacketize (h : s.depacketize ops p = .ok s') : s'.jitter = s.jitter := by
  obtain ⟨_, _, _, _, _, hframe, _⟩ := frame_depacketize h
  exact hframe.jitter

lemma Ok.depacketizeAll {pkts : List Packet} :
    ∀ {s : Source D}, s.Ok → (∀ p ∈ pkts, s.Ready p) →
      pkts.foldlM (fun s pkt => s.depacketize ops pkt) s = .ok s' → s'.Ok ∧ s'.jitter = s.jitter := by
  induction pkts with
  | nil =>
    intro s h _ heq
    rw [foldlM_nil, pure_eq_ok] at heq
    exact heq ▸ ⟨h, rfl⟩
  | cons pkt pkts ih =>
    intro s h hready heq
    obtain ⟨s₁, hs₁, heq⟩ := bind_eq_ok.mp heq
    obtain ⟨hok, hkept⟩ := h.depacketize (hready pkt mem_cons_self) hs₁
    obtain ⟨hok', hjitter⟩ :=
      ih hok (fun p hp => hkept p (hready p (mem_cons_of_mem _ hp))) heq
    exact ⟨hok', hjitter.trans (jitter_depacketize hs₁)⟩

lemma Ok.handOver (h : s.Ok) {ring : JitterRing} {out : JitterResult} (hring : ring.Rested)
    (hheld : ∀ p, ring.Holds p → s.Ready p) (hready : ∀ p ∈ out.ready, s.Ready p)
    (heq : s.handOver ops ring out = .ok s') : s'.Ok ∧ s'.jitter = some ring := by
  obtain ⟨emitted, hemitted, heq⟩ := bind_eq_ok.mp heq
  have hset : ({ s with jitter := some ring } : Source D).Ok :=
    { h with
      rested := fun ring' hring' => some.inj hring' ▸ hring
      held := fun ring' hring' p hp => by
        cases hring'
        exact { hheld p hp with } }
  have hquiet := quiet_emitEvents hemitted
  obtain ⟨hok, hkept⟩ := hset.quiet hquiet
  obtain ⟨hok', hjitter⟩ := hok.depacketizeAll (fun p hp => hkept p { hready p hp with }) heq
  obtain ⟨l, hframe, -⟩ := hquiet
  exact ⟨hok', hjitter.trans hframe.jitter⟩

/-- **The window is handed over, and then the ring is empty.** -/
lemma Ok.flushJitter (h : s.Ok) (heq : s.flushJitter ops = .ok s') : s'.Ok ∧ s'.Drained := by
  unfold Source.flushJitter at heq
  split at heq
  · rename_i hnone
    cases heq
    exact ⟨h, fun ring hring => by rw [hnone] at hring; cases hring⟩
  rename_i ring hring
  split at heq
  · cases heq
  rename_i ring' out hflush
  obtain ⟨hrested, hempty, hreturned⟩ := JitterRing.flushInto_holds (h.rested ring hring) hflush
  have hready : ∀ p ∈ out.ready, s.Ready p := by
    intro p hp
    obtain hp | hp := hreturned p hp
    · cases hp
    · exact h.held ring hring p hp
  obtain ⟨hok, hjitter⟩ :=
    h.handOver hrested (fun p hp => absurd hp (hempty p)) hready heq
  refine ⟨hok, fun ring'' hring'' p => ?_⟩
  rw [hjitter] at hring''
  exact some.inj hring'' ▸ hempty p

lemma Ok.handleRTP (h : s.Ok) (hpkt : s.Ready pkt) (heq : s.handleRTP ops pkt = .ok s') : s'.Ok := by
  unfold Source.handleRTP at heq
  split at heq
  · exact (h.depacketize hpkt heq).1
  rename_i ring hring
  split at heq
  · cases heq
  rename_i ring' out hpush
  have hwithin : JitterRing.Within s.Ready (ring.pushInto none pkt s.jitterResult) :=
    JitterRing.within_pushInto (h.held ring hring) (fun p hp => by cases hp) hpkt
  rw [hpush] at hwithin
  exact (h.handOver ((h.rested ring hring).pushInto hpush) hwithin.holds hwithin.ready heq).1

/-! ### Records -/

def Last (s : Source D) (packet : Option Packet) : Prop :=
  ∃ x, s.taken.getLast? = some x ∧ x.packet = packet ∧ x.scope = s.scope ∧
    s.payloads = some x.payloads

lemma mem_taken_append {x : Taken} {k : ℕ} {payloads : Taken} (h : s.taken[k]? = some x) :
    (s.taken ++ [payloads])[k]? = some x := by
  rw [List.getElem?_append_left (List.getElem?_eq_some_iff.mp h).1]
  exact h

variable {replaces resets : Bool} {packet : Option Packet} {scope epochScope : StreamID}
  {payloads : PayloadMap} {event : Option Event}

lemma jitter_switch {ring : JitterRing}
    (hring : ring ∈ (s.switch replaces resets packet event scope epochScope payloads).jitter) :
    ring ∈ s.jitter ∨ ∃ ring' ∈ s.jitter, ring = ring'.reset := by
  unfold Source.switch at hring
  dsimp only at hring
  split at hring
  · obtain ⟨ring', hring', rfl⟩ := mem_map.mp hring
    exact .inr ⟨ring', hring', rfl⟩
  · exact .inl hring

/-- **The source goes over to another map**: the ring is empty, or the scope and the epoch stay. -/
lemma Ok.switch (h : s.Ok)
    (hwindow : s.Drained ∨ (scope = s.scope ∧ ∀ m ∈ s.payloads, m.epoch = payloads.epoch)) :
    (s.switch replaces resets packet event scope epochScope payloads).Ok := by
  refine ⟨?_, ?_, ?_, ?_, ?_, h.order⟩
  · intro ring hring
    obtain hring | ⟨ring', hring', rfl⟩ := jitter_switch hring
    · exact h.rested ring hring
    · exact (h.rested ring' hring').reset
  · intro ring hring p hp
    obtain hring | ⟨ring', hring', rfl⟩ := jitter_switch hring
    · obtain hempty | ⟨hscope, hepoch⟩ := hwindow
      · exact absurd hp (hempty ring hring p)
      · obtain ⟨⟨x, hx, hpacket, hxscope, hxepoch⟩, huncut⟩ := h.held ring hring p hp
        refine ⟨⟨x, mem_taken_append hx, hpacket, hxscope.trans hscope.symm, ?_⟩, huncut⟩
        intro m hm
        cases hm
        obtain ⟨y, -, -, hpayloads⟩ := h.current (ne_nil_of_mem (mem_of_getElem? hx))
        exact (hepoch _ hpayloads).symm.trans (hxepoch _ hpayloads)
    · exact absurd hp (JitterRing.not_holds_reset ring' p)
  · exact fun _ => ⟨_, mem_append_right _ (mem_singleton_self _), rfl, rfl⟩
  · intro o ho k hk
    have := h.cuts o ho k hk
    show k < (s.taken ++ [_]).length
    rw [length_append]
    omega
  · intro k pkt payload hmem
    obtain ⟨x, y, hy, hx, hrest⟩ := h.entries k pkt payload hmem
    exact ⟨x, y, mem_append_left _ hy, mem_taken_append hx, hrest⟩

lemma Ok.drainBefore (h : s.Ok) (heq : s.drainBefore ops event scope payloads = .ok s') :
    s'.Ok ∧ (s'.Drained ∨ (boundaryEvent event = false ∧ scope = s'.scope ∧
      ∀ m ∈ s'.payloads, m.epoch = payloads.epoch)) := by
  unfold Source.drainBefore at heq
  split at heq
  · obtain ⟨hok, hdrained⟩ := h.flushJitter heq
    exact ⟨hok, .inl hdrained⟩
  rename_i hkeeps
  cases heq
  simp only [drainsBefore, Bool.or_eq_true, not_or, Bool.not_eq_true] at hkeeps
  refine ⟨h, ?_⟩
  cases hpayloads : s.payloads with
  | none =>
    refine .inl fun ring hring p hp => ?_
    obtain ⟨⟨x, hx, -⟩, -⟩ := h.held ring hring p hp
    obtain ⟨y, -, -, hy⟩ := h.current (ne_nil_of_mem (mem_of_getElem? hx))
    rw [hpayloads] at hy
    cases hy
  | some current =>
    have hsame := hkeeps.1
    rw [hpayloads, any_some, decide_eq_false_iff_not, not_or, not_not, not_not] at hsame
    refine .inr ⟨hkeeps.2, hsame.1, fun m hm => ?_⟩
    exact some.inj hm ▸ hsame.2.symm

lemma Ok.emitRecordEvent (h : s.Ok) {event : Event} (hlast : s.taken ≠ [])
    (hwindow : boundaryEvent (some event) = true → s.Drained)
    (heq : s.emitEvent ops (some (s.taken.length - 1)) event = .ok s') : s'.Ok := by
  obtain ⟨event', htype, hframe⟩ := frame_emitEvent heq
  have hboundary : boundaryEvent (some event') = boundaryEvent (some event) := by
    simp [boundaryEvent, configurationEvent, htype]
  have hpos := length_pos_iff.mpr hlast
  have hlog : ∀ o ∈ s'.log, o ∈ s.log ∨ o = .event (some (s.taken.length - 1)) event' := by
    intro o ho
    rw [hframe.log] at ho
    simpa using ho
  refine ⟨?_, ?_, ?_, ?_, ?_, ?_⟩
  · rw [hframe.jitter]
    exact h.rested
  · rw [hframe.jitter]
    intro ring hring p hp
    obtain ⟨hrecord, huncut⟩ := h.held ring hring p hp
    refine ⟨?_, fun o ho k hk => ?_⟩
    · rwa [hframe.taken, hframe.origin, hframe.scope, hframe.payloads]
    · rw [hframe.origin]
      obtain ho | rfl := hlog o ho
      · exact huncut o ho k hk
      · exact absurd hp (hwindow (hboundary.symm.trans hk.2) ring hring p)
  · rw [hframe.taken, hframe.scope, hframe.payloads]
    exact h.current
  · rw [hframe.taken]
    intro o ho k hk
    obtain ho | rfl := hlog o ho
    · exact h.cuts o ho k hk
    · rw [← hk.1]
      omega
  · intro k pkt payload hmem
    unfold Entry
    rw [hframe.taken]
    obtain hmem | hmem := hlog _ hmem
    · exact h.entries k pkt payload hmem
    · cases hmem
  · rw [hframe.log, pairwise_append]
    refine ⟨h.order, pairwise_singleton _ _, fun o _ o' ho' k _ j pkt payload heq => ?_⟩
    rw [mem_singleton.mp ho'] at heq
    cases heq

lemma Drained.switch (h : s.Drained) :
    (s.switch replaces resets packet event scope epochScope payloads).Drained := by
  intro ring hring p hp
  obtain hring | ⟨ring', -, rfl⟩ := jitter_switch hring
  · exact h ring hring p hp
  · exact JitterRing.not_holds_reset ring' p hp

lemma Ok.takeRecord (h : s.Ok) (heq : s.takeRecord ops packet event payloads = .ok s') :
    s'.Ok ∧ s'.Last packet := by
  obtain ⟨scope, -, heq⟩ := bind_eq_ok.mp heq
  dsimp only at heq
  split at heq
  · cases heq
  obtain ⟨epochScope, -, heq⟩ := bind_eq_ok.mp heq
  obtain ⟨⟨⟩, -, heq⟩ := bind_eq_ok.mp heq
  obtain ⟨drained, hdrained, heq⟩ := bind_eq_ok.mp heq
  obtain ⟨hok, hwindow⟩ := h.drainBefore hdrained
  have hswitched : (drained.switch (s.replacesJitterStream event) (s.resetsJitter event) packet event
      scope epochScope payloads).Ok := hok.switch (hwindow.imp_right And.right)
  have hlast : (drained.switch (s.replacesJitterStream event) (s.resetsJitter event) packet event
      scope epochScope payloads).Last packet :=
    ⟨_, getLast?_concat, rfl, rfl, rfl⟩
  have hempty (hboundary : boundaryEvent event = true) :
      (drained.switch (s.replacesJitterStream event) (s.resetsJitter event) packet event scope
        epochScope payloads).Drained := by
    obtain hempty | ⟨hnot, -⟩ := hwindow
    · exact hempty.switch
    · rw [hboundary] at hnot
      cases hnot
  generalize drained.switch (s.replacesJitterStream event) (s.resetsJitter event) packet event
    scope epochScope payloads = switched at *
  split at heq
  · cases heq
    exact ⟨hswitched, hlast⟩
  have hne : switched.taken ≠ [] := by
    obtain ⟨x, hx, -⟩ := hlast
    exact ne_nil_of_mem (mem_of_getLast? hx)
  obtain ⟨event', -, hframe⟩ := frame_emitEvent heq
  refine ⟨hswitched.emitRecordEvent hne hempty heq, ?_⟩
  unfold Last
  rwa [hframe.taken, hframe.scope, hframe.payloads]

lemma Ok.takePacket (h : s.Ok) (hlast : s.Last (some pkt)) (heq : s.takePacket ops pkt = .ok s') :
    s'.Ok := by
  obtain ⟨x, hx, hpacket, hscope, hpayloads⟩ := hlast
  rw [getLast?_eq_getElem?] at hx
  -- the record of the packet is the last one now, whatever records brought an equal one before
  have hready : ∀ p, p = pkt ∨ s.Ready p →
      ({ s with origin := update s.origin pkt (s.taken.length - 1) } : Source D).Ready p := by
    intro p hp
    by_cases heq : p = pkt
    · subst heq
      refine ⟨⟨x, ?_, hpacket, hscope, fun m hm => ?_⟩, fun o ho k hk => ?_⟩
      · show s.taken[update s.origin p (s.taken.length - 1) p]? = some x
        rwa [update_self]
      · rw [show s.payloads = some m from hm] at hpayloads
        rw [some.inj hpayloads]
      · show k ≤ update s.origin p (s.taken.length - 1) p
        have := h.cuts o ho k hk
        rw [update_self]
        omega
    · obtain ⟨hrecord, huncut⟩ := hp.resolve_left heq
      have horigin : update s.origin pkt (s.taken.length - 1) p = s.origin p :=
        update_of_ne heq _ _
      refine ⟨?_, fun o ho k hk => ?_⟩
      · show ∃ x, s.taken[update s.origin pkt (s.taken.length - 1) p]? = some x ∧ _
        rwa [horigin]
      · exact (huncut o ho k hk).trans_eq horigin.symm
  have hok : ({ s with origin := update s.origin pkt (s.taken.length - 1) } : Source D).Ok :=
    ⟨h.rested, fun ring hring p hp => hready p (.inr (h.held ring hring p hp)), h.current, h.cuts,
      h.entries, h.order⟩
  exact hok.handleRTP (hready pkt (.inl rfl)) heq

lemma Ok.takeRead (h : s.Ok) {r : Record} (heq : s.takeRead ops r = .ok s') : s'.Ok := by
  obtain ⟨recorded, hrecorded, heq⟩ := bind_eq_ok.mp heq
  have hstep : recorded.Ok ∧ ∀ pkt, r.packet = some pkt → recorded.Last (some pkt) := by
    unfold Source.readRecord at hrecorded
    split at hrecorded
    · split at hrecorded
      · cases hrecorded
      · split at hrecorded
        · cases hrecorded
        · obtain ⟨hok, hlast⟩ := h.takeRecord hrecorded
          exact ⟨hok, fun pkt hpkt => hpkt ▸ hlast⟩
    · rename_i hnone
      cases hrecorded
      exact ⟨h, fun pkt hpkt => absurd (.inr (.inr (by simp [hpkt]))) hnone⟩
  split at heq
  · cases heq
    exact hstep.1
  · rename_i pkt hpkt
    exact hstep.1.takePacket (hstep.2 pkt hpkt) heq

lemma Ok.start {reads : List Record} : ∀ {s : Source D}, s.Ok → s.start ops reads = .ok s' → s'.Ok := by
  induction reads with
  | nil =>
    intro s h heq
    exact Except.ok.inj heq ▸ h
  | cons r reads ih =>
    intro s h heq
    obtain ⟨taken, htaken, heq⟩ := bind_eq_ok.mp heq
    have hok := h.takeRead htaken
    split at heq
    · exact ih hok heq
    · cases heq
    obtain ⟨flushed, hflushed, heq⟩ := bind_eq_ok.mp heq
    obtain ⟨drained, hdrained, hflushed⟩ := bind_eq_ok.mp hflushed
    have hok' := (hok.flushJitter hdrained).1
    exact ((hok'.quiet (quiet_flushDepacketizers _ hflushed)).1.quiet (quiet_emitEvent heq)).1

lemma ok_newSource {config : SourceConfig D} (hjitter : ∀ ring ∈ config.jitter,
    ∃ jitter, newJitterRing jitter = .ok ring) : (newSource config).Ok := by
  have hring : ∀ ring ∈ (newSource config).jitter, ring.Rested ∧ ring.initialized = false := by
    intro ring hring
    obtain ⟨jitter, hnew⟩ := hjitter ring hring
    exact JitterRing.rested_new hnew
  refine ⟨fun ring h => (hring ring h).1, fun ring h p hp => ?_, fun h => absurd rfl h, ?_, ?_,
    List.Pairwise.nil⟩
  · obtain ⟨slot, hslot, hpacket⟩ := hp
    obtain ⟨hrested, hinit⟩ := hring ring h
    rw [hrested.idle hinit slot hslot] at hpacket
    cases hpacket
  · exact fun o ho => absurd ho not_mem_nil
  · exact fun k pkt payload hmem => absurd hmem not_mem_nil

end Source

/-- An epoch of a scope has one map. -/
def MapsAgree (taken : List Taken) : Prop :=
  ∀ x ∈ taken, ∀ y ∈ taken, x.scope = y.scope → x.payloads.epoch = y.payloads.epoch →
    x.payloads.lookup = y.payloads.lookup

/-- **Packets keep the map of their record through the jitter ring**, and none comes after a
configuration event or discontinuity of a later record. -/
theorem packets_keep_their_map {D : Type} (ops : Depacketizers D) (config : SourceConfig D)
    (hjitter : ∀ ring ∈ config.jitter, ∃ jitter, newJitterRing jitter = .ok ring)
    (reads : List Record) (s : Source D) (hstart : (newSource config).start ops reads = .ok s)
    (hagree : MapsAgree s.taken) :
    (∀ k pkt payload, .depacketized k pkt payload ∈ s.log →
      ∃ r payloads, reads[k]? = some r ∧ r.packet = some pkt ∧ r.payloads = some payloads ∧
        payloads.lookup pkt.payloadType = some payload) ∧
    ∀ before k event after, s.log = before ++ .event (some k) event :: after →
      boundaryEvent (some event) = true →
        ∀ j pkt payload, .depacketized j pkt payload ∈ after → k ≤ j := by
  have hok := (Source.ok_newSource hjitter).start hstart
  obtain ⟨l, hl, hreads⟩ := Source.taken_start hstart
  obtain rfl : s.taken = l := hl
  constructor
  · intro k pkt payload hmem
    obtain ⟨x, y, hy, hx, hpacket, hscope, hepoch, hlookup⟩ := hok.entries k pkt payload hmem
    obtain ⟨r, hr, hrpacket, hrpayloads⟩ := hreads k x hx
    refine ⟨r, x.payloads, hr, hrpacket.trans hpacket, hrpayloads, ?_⟩
    rw [hagree x (mem_of_getElem? hx) y hy hscope hepoch]
    exact hlookup
  · intro before k event after hlog hboundary j pkt payload hmem
    have horder := hok.order
    rw [hlog, pairwise_append, pairwise_cons] at horder
    exact horder.2.1.1 _ hmem k ⟨rfl, hboundary⟩ j pkt payload rfl

def sampleDepacketizers : Depacketizers Unit where
  codec _ := codecOpus
  stream _ := none
  pushInto d _ _ out := .ok (d, out)
  flushInto d out := .ok (d, out)
  handleEvent d _ := .ok d
  defaultFor _ _ := none

def sampleMap : PayloadMap where
  epoch := 0
  lookup _ := some { parameters := { id := codecOpus } }
  codecs := [{ parameters := { id := codecOpus } }]

def sampleReads : List Record :=
  [{ packet := some (samplePacket 1), payloads := some sampleMap },
    { packet := some (samplePacket 3), payloads := some sampleMap },
    { event := some { type := .discontinuity }, payloads := some sampleMap }]

def sampleConfig : SourceConfig Unit :=
  { jitter := some { slots := List.replicate 2 {} }, depacketizers := [()] }

theorem packets_keep_their_map_discontinuity :
    ∃ s, (newSource sampleConfig).start sampleDepacketizers sampleReads = .ok s ∧ s.log.length = 3 ∧
      ∀ before k event after, s.log = before ++ .event (some k) event :: after →
        boundaryEvent (some event) = true →
          ∀ j pkt payload, .depacketized j pkt payload ∈ after → k ≤ j := by
  obtain ⟨s, hstart, hlog⟩ : ∃ s, (newSource sampleConfig).start sampleDepacketizers sampleReads =
      .ok s ∧ s.log.length = 3 := ⟨_, rfl, rfl⟩
  have hring : ∀ ring ∈ sampleConfig.jitter, ∃ jitter, newJitterRing jitter = .ok ring :=
    fun ring hring => ⟨{ capacity := 2 }, congrArg Except.ok (some.inj hring)⟩
  have hmap : ∀ x ∈ s.taken, x.payloads = sampleMap := by
    obtain ⟨l, hl, hreads⟩ := Source.taken_start hstart
    obtain rfl : s.taken = l := hl
    intro x hx
    obtain ⟨k, hk⟩ := mem_iff_getElem?.mp hx
    obtain ⟨r, hr, -, hpayloads⟩ := hreads k x hk
    have hsample : ∀ r ∈ sampleReads, r.payloads = some sampleMap := by simp [sampleReads]
    rw [hsample r (mem_of_getElem? hr)] at hpayloads
    exact (some.inj hpayloads).symm
  refine ⟨s, hstart, hlog,
    (packets_keep_their_map sampleDepacketizers sampleConfig hring sampleReads s hstart ?_).2⟩
  intro x hx y hy _ _
  rw [hmap x hx, hmap y hy]

end Goav.Rtpav
