import Goav.Lib.History
import Goav.Pipeline.TopologyDomains

/-!
Histories of a topology in which indices are reused. The targets of a route are the nodes it was
connected to (`routes_lead_to_connected`); a fault domain is closed downstream (`fault_domains_closed`).
-/

namespace Goav.Pipeline

open Goav.Lib List Option

namespace TopologyInv

open Goav.Pipeline.Topology

variable {P Q : Target → Prop} {t : Topology}

lemma mono (hinv : TopologyInv P t) (hPQ : ∀ {τ}, P τ → Q τ) : TopologyInv Q t :=
  { hinv with
    routes := { hinv.routes with connected := fun hn τ hτ => hPQ (hinv.routes.connected hn τ hτ) }
    snap := fun snap hsnap _ _ hn hactive route hroute τ hτ =>
      (hinv.snap snap hsnap hn hactive route hroute τ hτ).imp_left hPQ }

lemma orElse (hinv : TopologyInv P t) {result : Except TopologyError Topology}
    (hok : ∀ {t'}, result = .ok t' → TopologyInv P t') : TopologyInv P (t.orElse result) := by
  cases hresult : result with
  | error e => exact hinv
  | ok t' => exact hok hresult

theorem act (hinv : TopologyInv P t) (a : Topology.Action)
    (hP : ∀ {route src name τ}, a = .connect route → name ∈ route.destinations →
      t.destination src name = .ok τ → P τ) : TopologyInv P (t.act a) := by
  cases a with
  | addSource name => exact hinv.orElse fun h => hinv.add h
  | addStage name admitter => exact hinv.orElse fun h => hinv.add h
  | addSink name => exact hinv.orElse fun h => hinv.add h
  | connect route => exact hinv.orElse fun h => hinv.connect h (hP rfl)
  | disconnect route => exact hinv.orElse fun h => hinv.disconnect h
  | remove ref => exact hinv.orElse fun h => hinv.remove h
  | retireLocked index => exact hinv.retireLocked index
  | finalize index => exact hinv.finalize index
  | isolateFaults id members => exact hinv.orElse fun h => hinv.isolateFaults h
  | retireFaultDomain d => exact hinv.retireFaultDomain d
  | run => exact hinv.run
  | drain => exact hinv.of_flags t.running true
  | stop => exact hinv.of_flags false false
  | close => exact hinv.close

end TopologyInv

/-! ### Where routes come from -/

namespace Topology

variable (runner : Runner) (actions : List Topology.Action)

abbrev history : Topology :=
  after act { runner } actions

/-- A connect of the history found the node, active, at the index by its name. -/
def Connected (τ : Target) : Prop :=
  ∃ before route rest m, actions = before ++ .connect route :: rest ∧ τ.name ∈ route.destinations ∧
    (history runner before).index τ.name = some τ.index ∧
    (history runner before).nodes[τ.index]? = some m ∧ m.id = τ.id ∧ m.active = true

lemma Connected.concat {runner : Runner} {actions : List Topology.Action} {τ : Target}
    (h : Connected runner actions τ) (a : Topology.Action) : Connected runner (actions ++ [a]) τ := by
  obtain ⟨before, route, rest, m, rfl, h⟩ := h
  exact ⟨before, route, rest ++ [a], m, by simp, h⟩

theorem topologyInv_history :
    TopologyInv (Connected runner actions) (history runner actions) := by
  refine history_invariant (fun _ => True) (fun actions t => TopologyInv (Connected runner actions) t)
    (fun _ _ _ => trivial) ?_ (fun actions a _ hinv => ?_) actions trivial
  · exact topologyInv_empty runner
  · refine (hinv.mono fun hτ => hτ.concat a).act a ?_
    rintro route src name τ rfl hname hdest
    obtain ⟨dst, hindex, hdst, hactive, hid, rfl, -⟩ := destination_eq_ok hdest
    exact ⟨actions, route, [], dst, rfl, hname, hindex, hdst, hid.symm, hactive⟩

end Topology

open Goav.Pipeline.Topology

/-- **A route leads where it was connected to**: an active node, the one that a connect found there by
name, whatever was at the index in between. -/
theorem routes_lead_to_connected (runner : Runner) (actions : List Topology.Action)
    {snap : List SnapshotNode} (hsnap : (history runner actions).snap = some snap) {i : ℕ}
    {n : SnapshotNode} (hn : snap[i]? = some n) (hactive : n.active = true) :
    ∀ route ∈ n.routes, ∀ τ ∈ route.destinations, Connected runner actions τ ∧
      ∃ m, snap[τ.index]? = some m ∧ m.active = true ∧ m.id = τ.id ∧ m.name = τ.name :=
  fun route hroute τ hτ =>
    (topologyInv_history runner actions).snap snap hsnap hn hactive route hroute τ hτ

/-- A sink is removed and finalized, and another one gets its index and a route of its own. -/
theorem routes_lead_to_connected_reused :
    ∃ snap n, (history .direct [.addSource "in", .addSink "old", .connect ⟨"in", ["old"], .all, ""⟩,
        .remove "old", .finalize 1, .addSink "new", .connect ⟨"in", ["new"], .all, ""⟩]).snap =
          some snap ∧ snap[0]? = some n ∧ n.active = true ∧
      n.routes = [⟨[⟨1, 3, "new"⟩], .all, ""⟩] ∧
      ∀ route ∈ n.routes, ∀ τ ∈ route.destinations,
        ∃ m, snap[τ.index]? = some m ∧ m.active = true ∧ m.id = τ.id ∧ m.name = τ.name := by
  have hrun : ((history .direct [.addSource "in", .addSink "old",
      .connect ⟨"in", ["old"], .all, ""⟩, .remove "old", .finalize 1, .addSink "new",
      .connect ⟨"in", ["new"], .all, ""⟩]).snap.bind fun snap => snap[0]?.map fun n =>
        (n.active, n.routes)) = some (true, [⟨[⟨1, 3, "new"⟩], .all, ""⟩]) := by
    decide +kernel
  obtain ⟨snap, hsnap, hnode⟩ := bind_eq_some_iff.mp hrun
  obtain ⟨n, hn, heq⟩ := map_eq_some_iff.mp hnode
  obtain ⟨hactive, hroutes⟩ := Prod.mk.inj heq
  exact ⟨snap, n, hsnap, hn, hactive, hroutes, fun route hroute τ hτ =>
    (routes_lead_to_connected .direct _ hsnap hn hactive route hroute τ hτ).2⟩

/-! ### Fault domains -/

namespace Topology

variable (t : Topology)

lemma allDomains_reclaimLocked (n : GraphNode) :
    (t.reclaimLocked n).1.allDomains = t.allDomains := by
  unfold reclaimLocked
  split
  · rfl
  · split <;> rfl

lemma memberIDs_finalize (index : ℕ) :
    (t.finalize index).allDomains.map FaultDomain.memberIDs = t.allDomains.map FaultDomain.memberIDs := by
  unfold finalize
  split
  · rfl
  split
  · rfl
  rename_i n _ _
  change ((t.finalizeMember n.domain).reclaimLocked _).1.allDomains.map _ = _
  rw [allDomains_reclaimLocked]
  cases n.domain with
  | none => rfl
  | some d =>
    refine ext_getElem? fun i => ?_
    simp only [finalizeMember, getElem?_map, getElem?_modify]
    cases t.allDomains[i]? with
    | none => rfl
    | some D => by_cases hi : d = i <;> simp [hi, TopologyInv.memberIDs_memberFinalized]

lemma memberIDs_act (a : Topology.Action) :
    t.allDomains.map FaultDomain.memberIDs <+: (t.act a).allDomains.map FaultDomain.memberIDs := by
  have hstays {result : Except TopologyError Topology}
      (hok : ∀ {t'}, result = .ok t' → t'.allDomains = t.allDomains) :
      t.allDomains.map FaultDomain.memberIDs <+:
        (t.orElse result).allDomains.map FaultDomain.memberIDs := by
    cases hresult : result with
    | error e => exact prefix_rfl
    | ok t' => exact hok hresult ▸ prefix_rfl
  have hadd {name : String} {kind : NodeKind} {admitter : Bool} {t' : Topology}
      (h : t.add name kind admitter = .ok t') : t'.allDomains = t.allDomains := by
    obtain ⟨-, -, opened, sources, rfl⟩ := TopologyInv.add_eq_ok h
    simp only [install]
    split <;> rfl
  cases a with
  | addSource | addStage | addSink => exact hstays hadd
  | connect route =>
    refine hstays fun h => ?_
    obtain ⟨_, _, _, _, -, -, rfl⟩ := connect_eq_ok h
    rfl
  | disconnect route =>
    refine hstays fun h => ?_
    obtain ⟨_, _, _, _, -, rfl⟩ := disconnect_eq_ok h
    rfl
  | remove ref =>
    refine hstays fun h => ?_
    obtain ⟨_, _, _, -, -, rfl⟩ := remove_eq_ok h
    rfl
  | isolateFaults id members =>
    cases hresult : t.isolateFaults id members with
    | error e => exact (by simp only [act, hresult, orElse]; exact prefix_rfl)
    | ok t' =>
      obtain ⟨set, domains, -, -, -, -, -, rfl⟩ := TopologyInv.isolateFaults_eq_ok hresult
      simp [act, hresult, orElse]
  | finalize index => exact memberIDs_finalize t index ▸ prefix_rfl
  | retireLocked index =>
    simp only [act, retireLocked]
    repeat' split
    all_goals exact prefix_rfl
  | retireFaultDomain | drain | stop | close => exact prefix_rfl
  | run =>
    simp only [act, run]
    split <;> exact prefix_rfl

theorem memberIDs_history (runner : Runner) (actions more : List Topology.Action) :
    (history runner actions).allDomains.map FaultDomain.memberIDs <+:
      (history runner (actions ++ more)).allDomains.map FaultDomain.memberIDs := by
  induction more using List.reverseRecOn with
  | nil => simp
  | append_singleton more a ih =>
    rw [history, history, ← append_assoc, after_concat]
    exact ih.trans (memberIDs_act _ a)

end Topology

lemma DomainInv.closes_iff {ids : List NodeIdentity} {allDomains : List FaultDomain}
    {finalizedIDs : List ℕ} {nextNodeID d : ℕ} {D : FaultDomain}
    (h : DomainInv ids allDomains finalizedIDs nextNodeID) (hD : allDomains[d]? = some D) :
    D.closes ≤ 1 ∧ (D.closes = 1 ↔ ∀ id ∈ D.memberIDs, id ∈ finalizedIDs) := by
  have hopen : openMembers ids d = 0 ↔ ∀ id ∈ D.memberIDs, id ∈ finalizedIDs := by
    rw [openMembers, countP_eq_zero]
    constructor
    · intro hnone id hid
      rcases (h.known hD hid).2 with hlog | ⟨i, n, hn, rfl⟩
      · exact hlog
      · have hfin := hnone n (mem_of_getElem? hn)
        rw [h.own hn hD hid] at hfin
        exact (h.finalized hn).mp (by simpa using hfin)
    · intro hall n hmem
      obtain ⟨i, hn⟩ := mem_iff_getElem?.mp hmem
      by_cases hd : n.domain = some d
      · obtain ⟨D', hD', hid⟩ := h.member hn hd
        rw [hD] at hD'
        cases hD'
        simp [(h.finalized hn).mpr (hall _ hid)]
      · simp [hd]
  have hremaining := h.remaining hD
  rw [h.closes hD, hremaining]
  by_cases hzero : openMembers ids d = 0
  · simpa [hzero] using hopen.mp hzero
  · simpa [hzero] using fun hall => hzero (hopen.mpr hall)

/-- **Fault domains are closed, disjoint, and done with their last member**, at most once, which is when
`Wait` reports it. -/
theorem fault_domains_closed (runner : Runner) (actions : List Topology.Action) :
    (∀ {i d : ℕ} {n : GraphNode}, (history runner actions).nodes[i]? = some n → n.domain = some d →
      ∀ τ ∈ n.targets, ∃ m, (history runner actions).nodes[τ.index]? = some m ∧ m.id = τ.id ∧
        m.domain = some d) ∧
    (∀ more {d d' id : ℕ} {D D' : FaultDomain}, (history runner actions).allDomains[d]? = some D →
      (history runner (actions ++ more)).allDomains[d']? = some D' → id ∈ D.memberIDs →
      id ∈ D'.memberIDs → d = d') ∧
    (∀ {i d : ℕ} {n : GraphNode} {D : FaultDomain}, (history runner actions).nodes[i]? = some n →
      (history runner actions).allDomains[d]? = some D →
      (n.domain = some d ↔ n.id ∈ D.memberIDs)) ∧
    ∀ {d : ℕ} {D : FaultDomain}, (history runner actions).allDomains[d]? = some D →
      D.closes ≤ 1 ∧
      (D.closes = 1 ↔ ∀ id ∈ D.memberIDs, id ∈ (history runner actions).finalizedIDs) ∧
      ∀ ctxDone, .finished ∈ D.wait ctxDone →
        ∀ id ∈ D.memberIDs, id ∈ (history runner actions).finalizedIDs := by
  have hinv := topologyInv_history runner actions
  refine ⟨?_, ?_, ?_, ?_⟩
  · intro i d n hn hd τ hτ
    obtain ⟨m, hm, hid, -, hdomain, -⟩ := hinv.routes.routed hn τ hτ
    exact ⟨m, hm, hid, (hdomain (by simp [hd])).trans hd⟩
  · intro more d d' id D D' hD hD' hid hid'
    -- the domain still has its members when the second one is looked at
    obtain ⟨rest, hrest⟩ := memberIDs_history runner actions more
    have hkept : ((history runner (actions ++ more)).allDomains.map FaultDomain.memberIDs)[d]? =
        some D.memberIDs := by
      obtain ⟨hlt, -⟩ := List.getElem?_eq_some_iff.mp hD
      rw [← hrest, List.getElem?_append_left (by simpa using hlt), List.getElem?_map, hD]
      rfl
    rw [List.getElem?_map] at hkept
    obtain ⟨E, hE, hEids⟩ := map_eq_some_iff.mp hkept
    exact (topologyInv_history runner (actions ++ more)).domains.disjoint hE hD'
      (hEids ▸ hid) hid'
  · intro i d n D hn hD
    constructor
    · intro hd
      obtain ⟨D', hD', hid⟩ := hinv.domains.member (identity_at hn) hd
      rw [hD] at hD'
      exact some.inj hD' ▸ hid
    · exact fun hid => hinv.domains.own (identity_at hn) hD hid
  · intro d D hD
    obtain ⟨hle, hiff⟩ := hinv.domains.closes_iff hD
    refine ⟨hle, hiff, fun ctxDone hwait => hiff.mp ?_⟩
    have hpos : 0 < D.closes := by
      by_contra hzero
      simp only [FaultDomain.wait, hzero, if_false, List.nil_append] at hwait
      split at hwait <;> simp at hwait
    omega

/-- The domain fails with one sink finalized, and the other's finalization closes it. -/
theorem fault_domains_closed_pair :
    ∃ D D', (history .direct [.addSource "in", .addSink "a", .addSink "b",
        .isolateFaults "pair" ["a", "b"], .remove "a", .finalize 1]).allDomains[0]? = some D ∧
      (history .direct [.addSource "in", .addSink "a", .addSink "b",
        .isolateFaults "pair" ["a", "b"], .remove "a", .finalize 1, .retireFaultDomain 0,
        .finalize 2]).allDomains[0]? = some D' ∧
      D.closes ≤ 1 ∧ ¬ D.closes = 1 ∧ D'.closes ≤ 1 ∧ D'.memberIDs = [2, 3] ∧ D'.closes = 1 := by
  have hfirst : (history .direct [.addSource "in", .addSink "a", .addSink "b",
      .isolateFaults "pair" ["a", "b"], .remove "a", .finalize 1]).allDomains[0]?.map
        FaultDomain.memberIDs = some [2, 3] := by
    decide +kernel
  have hsecond : (history .direct [.addSource "in", .addSink "a", .addSink "b",
      .isolateFaults "pair" ["a", "b"], .remove "a", .finalize 1, .retireFaultDomain 0,
      .finalize 2]).allDomains[0]?.map FaultDomain.memberIDs = some [2, 3] := by
    decide +kernel
  obtain ⟨D, hD, hids⟩ := map_eq_some_iff.mp hfirst
  obtain ⟨D', hD', hids'⟩ := map_eq_some_iff.mp hsecond
  obtain ⟨-, -, -, hdone⟩ := fault_domains_closed .direct [.addSource "in", .addSink "a",
    .addSink "b", .isolateFaults "pair" ["a", "b"], .remove "a", .finalize 1]
  obtain ⟨-, -, -, hdone'⟩ := fault_domains_closed .direct [.addSource "in", .addSink "a",
    .addSink "b", .isolateFaults "pair" ["a", "b"], .remove "a", .finalize 1, .retireFaultDomain 0,
    .finalize 2]
  refine ⟨D, D', hD, hD', (hdone hD).1, fun hclosed => ?_, (hdone' hD').1, hids', ?_⟩
  · have := (hdone hD).2.1.mp hclosed
    rw [hids] at this
    exact absurd this (by decide +kernel)
  · rw [(hdone' hD').2.1, hids']
    decide +kernel

/-- **A free index is free**: it is handed out once, and no name and no route leads to it while the graph
is open. -/
theorem free_indices_unreachable (runner : Runner) (actions : List Topology.Action) :
    (history runner actions).reusable.Nodup ∧ ∀ i ∈ (history runner actions).reusable,
      (∃ n, (history runner actions).nodes[i]? = some n ∧ n.finalized = true ∧ n.active = false) ∧
      ((history runner actions).closed = false →
        (∀ name, (history runner actions).index name ≠ some i) ∧
        ∀ m ∈ (history runner actions).nodes, ∀ τ ∈ m.targets, τ.index ≠ i) := by
  have hinv := topologyInv_history runner actions
  refine ⟨hinv.table.nodup, fun i hi => ?_⟩
  obtain ⟨ident, hident, -, hfinal⟩ := hinv.table.reusable hi
  rw [getElem?_identities] at hident
  obtain ⟨n, hn, rfl⟩ := map_eq_some_iff.mp hident
  have hinactive := hinv.routes.inactive hn hfinal
  refine ⟨⟨n, hn, hfinal, hinactive⟩, fun hopen => ⟨?_, ?_⟩⟩
  · intro name hname
    obtain ⟨m, hm, -, huse⟩ := hinv.routes.named hname
    obtain rfl := some.inj (hn.symm.trans hm)
    simp [(huse hopen).1] at hinactive
  · rintro m hm τ hτ rfl
    obtain ⟨j, hj⟩ := getElem?_of_mem hm
    obtain ⟨m', hm', -, -, -, huse⟩ := hinv.routes.routed hj τ hτ
    obtain rfl := some.inj (hn.symm.trans hm')
    simp [(huse hopen).1] at hinactive

end Goav.Pipeline
