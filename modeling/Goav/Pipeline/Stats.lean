import Mathlib.Algebra.Order.BigOperators.Group.Finset
import Mathlib.Order.Interval.Finset.Nat
import Goav.Lib.Runs
import Goav.Pipeline.StatsDefs
import Goav.Pipeline.Topology

/-!
The graph totals of `Stats`. A node's counts are in the table or, once its index is reused, among the
retired ones, and never in both (`Accounted`).
-/

namespace Goav.Pipeline

open Goav.Lib Goav.Pipeline.Topology List Function

/-! ### Drops by reason -/

namespace DropCounts

variable {d d' : DropCounts} {policy p : DropPolicy}

def count (d : DropCounts) (p : DropPolicy) : ℕ :=
  (∑ i, if dropReasons i = p then d.known i else 0) + d.other p

lemma addTo_apply (d : DropCounts) (reasons : DropPolicy → ℕ) (p : DropPolicy) :
    d.addTo reasons p = reasons p + d.count p := by
  have hfold : ∀ (l : List (Fin 11)) (reasons : DropPolicy → ℕ),
      l.foldl (fun reasons i => if 0 < d.known i then
        update reasons (dropReasons i) (reasons (dropReasons i) + d.known i)
        else reasons) reasons p =
      reasons p + (l.map fun i => if dropReasons i = p then d.known i else 0).sum := by
    intro l
    induction l with
    | nil => simp
    | cons i l ih =>
      intro reasons
      rw [foldl_cons, ih, map_cons, sum_cons, ← Nat.add_assoc]
      by_cases hi : dropReasons i = p
      · subst hi
        by_cases hpos : 0 < d.known i
        · simp [hpos]
        · simp [Nat.eq_zero_of_not_pos hpos]
      · by_cases hpos : 0 < d.known i
        · simp [hpos, hi, update_of_ne (Ne.symm hi)]
        · simp [hpos, hi]
  have hsum : ((List.finRange 11).map fun i => if dropReasons i = p then d.known i else 0).sum =
      ∑ i, if dropReasons i = p then d.known i else 0 := by
    rw [← sum_toFinset _ (nodup_finRange 11), toFinset_finRange]
  show _ + d.other p = _
  rw [hfold, hsum, count, Nat.add_assoc]

lemma dropReasons_of_slot {i : Fin 11} (h : dropReasonSlot policy = some i) :
    dropReasons i = policy := by
  repeat
    rcases ite_eq_iff.mp h with ⟨rfl, hslot⟩ | ⟨-, h⟩
    · obtain rfl := Option.some.inj hslot
      rfl
  cases h

lemma count_recordDrop (d : DropCounts) (policy p : DropPolicy) :
    (d.recordDrop policy).count p =
      d.count p + if (if policy = .unset then .never else policy) = p then 1 else 0 := by
  unfold recordDrop
  generalize (if policy = .unset then DropPolicy.never else policy) = q
  dsimp only
  split
  · rename_i i hi
    have hq := dropReasons_of_slot hi
    have hsum : (∑ j, if dropReasons j = p then update d.known i (d.known i + 1) j else 0) =
        (∑ j, if dropReasons j = p then d.known j else 0) + if q = p then 1 else 0 := by
      rw [← Finset.sum_erase_add _ _ (Finset.mem_univ i),
        ← Finset.sum_erase_add _ (fun j => if dropReasons j = p then d.known j else 0)
          (Finset.mem_univ i), hq, Nat.add_assoc]
      congr 1
      · refine Finset.sum_congr rfl fun j hj => ?_
        rw [update_of_ne (Finset.ne_of_mem_erase hj)]
      · by_cases hp : q = p <;> simp [hp]
    simp only [count]
    omega
  · by_cases hp : q = p
    · subst hp
      simp [count]
      omega
    · simp [count, hp, update_of_ne (Ne.symm hp)]

end DropCounts

/-! ### Totals -/

/-- A number in the graph totals. -/
inductive Total where
  | messages | packets | frames | events | delivered | dropped
  | reason (policy : DropPolicy)
  deriving DecidableEq

def GraphStats.total (s : GraphStats) : Total → ℕ
  | .messages => s.messages
  | .packets => s.packets
  | .frames => s.frames
  | .events => s.events
  | .delivered => s.delivered
  | .dropped => s.dropped
  | .reason policy => s.dropReasons policy

def NodeStats.total (s : NodeStats) : Total → ℕ
  | .messages => s.outMessages
  | .packets => s.outPackets
  | .frames => s.outFrames
  | .events => s.outEvents
  | .delivered => s.inMessages
  | .dropped => s.dropped
  | .reason policy => s.dropReasons policy

def counts (c : NodeCounters) (reported : ℕ) : Total → ℕ
  | .messages => c.outMessages
  | .packets => c.outPackets
  | .frames => c.outFrames
  | .events => c.outEvents
  | .delivered => c.inMessages
  | .dropped => c.dropped + reported
  | .reason policy => c.drops.count policy + if policy = dropSync then reported else 0

def ColdStats.total (c : ColdStats) : Total → ℕ
  | .reason policy => c.drops.count policy
  | _ => 0

lemma total_report (c : NodeCounters) (reported : ℕ) (τ : Total) :
    (c.snapshotLocked.report reported).total τ = counts c reported τ := by
  by_cases hpos : 0 < reported
  · cases τ with
    | reason policy =>
      by_cases hp : policy = dropSync
      · subst hp
        simp [NodeStats.report, hpos, NodeStats.total, NodeCounters.snapshotLocked, counts,
          DropCounts.addTo_apply]
      · simp [NodeStats.report, hpos, NodeStats.total, NodeCounters.snapshotLocked, counts,
          DropCounts.addTo_apply, hp]
    | _ => simp [NodeStats.report, hpos, NodeStats.total, NodeCounters.snapshotLocked, counts]
  · obtain rfl := Nat.eq_zero_of_not_pos hpos
    cases τ <;> simp [NodeStats.report, NodeStats.total, NodeCounters.snapshotLocked, counts,
      DropCounts.addTo_apply]

lemma total_addNode (stats : GraphStats) (e : StatsEntry) (τ : Total) :
    (stats.addNode e).total τ = stats.total τ + counts e.counters e.reported τ := by
  cases τ with
  | reason policy =>
    simp only [GraphStats.addNode, GraphStats.total, counts, NodeCounters.snapshotLocked,
      DropCounts.addTo_apply]
    by_cases hpos : 0 < e.reported
    · by_cases hp : policy = dropSync
      · subst hp
        simp [hpos]
        omega
      · simp [hpos, hp]
    · simp [Nat.eq_zero_of_not_pos hpos]
  | _ =>
    rw [← total_report]
    rfl

theorem total_snapshotStats (cold : ColdStats) (entries : List StatsEntry) (τ : Total) :
    (snapshotStats cold entries).total τ =
      cold.total τ + (entries.map fun e => counts e.counters e.reported τ).sum := by
  have hfold : ∀ (l : List StatsEntry) (stats : GraphStats), (l.foldl GraphStats.addNode stats).total τ =
        stats.total τ + (l.map fun e => counts e.counters e.reported τ).sum := by
    intro l
    induction l with
    | nil => simp
    | cons e l ih =>
      intro stats
      rw [foldl_cons, ih, total_addNode, map_cons, sum_cons, Nat.add_assoc]
  rw [snapshotStats, hfold]
  cases τ <;> simp [GraphStats.total, ColdStats.total, DropCounts.addTo_apply]

lemma counts_fold (r : RetiredCounts) (c : NodeCounters) (reported : ℕ) (τ : Total) :
    counts (r.fold c reported).counters (r.fold c reported).reported τ =
      counts r.counters r.reported τ + counts c reported τ := by
  cases τ with
  | reason policy =>
    have hsum : (∑ i, if dropReasons i = policy then
        r.counters.drops.known i + c.drops.known i else 0) =
        (∑ i, if dropReasons i = policy then r.counters.drops.known i else 0) +
          ∑ i, if dropReasons i = policy then c.drops.known i else 0 := by
      rw [← Finset.sum_add_distrib]
      exact Finset.sum_congr rfl fun i _ => by split <;> simp
    simp only [counts, RetiredCounts.fold, DropCounts.count]
    split <;> omega
  | dropped =>
    simp only [counts, RetiredCounts.fold]
    omega
  | _ => rfl

/-! ### The numbers in the table -/

namespace Topology

variable {P : Target → Prop} {t t' : Topology}

def ids (t : Topology) : List ℕ := t.nodes.map GraphNode.id

structure SameNodes (t t' : Topology) : Prop where
  ids : t'.ids = t.ids
  nextNodeID : t'.nextNodeID = t.nextNodeID

lemma SameNodes.rfl : SameNodes t t := ⟨by simp, by simp⟩

lemma SameNodes.of_mapIdx {f : ℕ → GraphNode → GraphNode} (hnodes : t'.nodes = t.nodes.mapIdx f)
    (hid : ∀ i n, (f i n).id = n.id) (hnext : t'.nextNodeID = t.nextNodeID) : SameNodes t t' := by
  refine ⟨?_, hnext⟩
  rw [Topology.ids, hnodes, Topology.ids]
  refine ext_getElem? fun i => ?_
  simp only [getElem?_map, getElem?_mapIdx, Option.map_map]
  congr 1
  funext n
  exact hid i n

lemma SameNodes.of_map {f : GraphNode → GraphNode} (hnodes : t'.nodes = t.nodes.map f)
    (hid : ∀ n, (f n).id = n.id) (hnext : t'.nextNodeID = t.nextNodeID) : SameNodes t t' :=
  .of_mapIdx (f := fun _ => f) (hnodes.trans (ext_getElem? fun i => by simp)) (fun _ => hid) hnext

lemma SameNodes.of_modify {i : ℕ} {f : GraphNode → GraphNode}
    (hnodes : t'.nodes = t.nodes.modify i f) (hid : ∀ n, (f n).id = n.id)
    (hnext : t'.nextNodeID = t.nextNodeID) : SameNodes t t' := by
  refine .of_mapIdx (f := fun j n => if i = j then f n else n) ?_ (fun j n => ?_) hnext
  · rw [hnodes]
    refine ext_getElem? fun j => ?_
    rw [getElem?_modify, getElem?_mapIdx]
    rfl
  · split
    · exact hid n
    · rfl

lemma SameNodes.orElse {result : Except TopologyError Topology}
    (hok : ∀ {t'}, result = .ok t' → SameNodes t t') : SameNodes t (t.orElse result) := by
  cases hresult : result with
  | error e => exact .rfl
  | ok t' => exact hok hresult

def Action.isAdd : Topology.Action → Bool
  | .addSource _ | .addStage _ _ | .addSink _ => true
  | _ => false

theorem sameNodes_act (hinv : TopologyInv P t) {a : Topology.Action} (hadd : a.isAdd = false) :
    SameNodes t (t.act a) := by
  cases a with
  | addSource | addStage | addSink => cases hadd
  | connect route =>
    refine .orElse fun h => ?_
    obtain ⟨_, _, _, _, -, -, rfl⟩ := connect_eq_ok h
    exact .of_modify rfl (fun _ => rfl) rfl
  | disconnect route =>
    refine .orElse fun h => ?_
    obtain ⟨_, _, _, _, -, rfl⟩ := disconnect_eq_ok h
    exact .of_modify rfl (fun _ => rfl) rfl
  | remove ref =>
    refine .orElse fun h => ?_
    obtain ⟨index, _, retires, -, -, rfl⟩ := remove_eq_ok h
    refine .of_mapIdx rfl (fun i n => ?_) rfl
    have hdetach : (detachNode index i n).id = n.id :=
      congrArg NodeIdentity.id (TopologyInv.identity_detachNode index i n)
    split <;> exact hdetach
  | retireLocked index =>
    simp only [act, retireLocked]
    repeat' split
    · exact .of_modify rfl (fun _ => rfl) rfl
    · exact .rfl
    · exact .rfl
  | finalize index =>
    rcases hinv.finalize_eq index with heq | ⟨n, _, _, hn, -, -, -, heq⟩
    · rw [act, heq]
      exact .rfl
    · refine ⟨?_, by rw [act, heq]⟩
      rw [act, heq, ids, ids, List.map_set]
      refine List.ext_getElem? fun i => ?_
      by_cases hi : index = i
      · subst hi
        obtain ⟨hlt, hget⟩ := List.getElem?_eq_some_iff.mp hn
        simp [hlt, hget, GraphNode.retired]
      · rw [List.getElem?_set_ne hi]
  | isolateFaults id members =>
    refine .orElse fun h => ?_
    obtain ⟨set, domains, -, -, -, -, -, rfl⟩ := TopologyInv.isolateFaults_eq_ok h
    refine .of_mapIdx rfl (fun i n => ?_) rfl
    unfold TopologyInv.isolateNode
    split <;> rfl
  | retireFaultDomain d =>
    refine .of_map rfl (fun n => ?_) rfl
    unfold retireMember
    split <;> rfl
  | run =>
    simp only [act, run]
    split
    · exact .rfl
    · refine .of_map rfl (fun n => ?_) rfl
      split <;> rfl
  | drain => exact .of_map (List.map_id _).symm (fun _ => rfl) rfl
  | stop => exact .of_map (List.map_id _).symm (fun _ => rfl) rfl
  | close =>
    refine .of_map rfl (fun n => ?_) rfl
    split <;> rfl

end Topology

/-! ### Steps that leave the table -/

namespace Metered

variable {s s' s'' : Metered} {id : ℕ}

def nodeCounts (s : Metered) (id : ℕ) : Total → ℕ := counts (s.counters id) (s.reporter id)

/-- The drops that no node has are the graph's own events that found the observer stream full. -/
def CountsUnseen (s : Metered) : Prop :=
  ∀ p, s.cold.drops.count p = if p = dropObserver then s.unseen else 0

structure Keeps (s s' : Metered) : Prop where
  topology : TopologyInv (fun _ => True) s.topology → TopologyInv (fun _ => True) s'.topology
  nodes : Topology.SameNodes s.topology s'.topology
  retired : s'.retired = s.retired
  gone : ∀ id ∉ s.topology.ids, s'.nodeCounts id = s.nodeCounts id
  grows : ∀ id τ, s.nodeCounts id τ ≤ s'.nodeCounts id τ
  cold : ∀ p, s.cold.drops.count p ≤ s'.cold.drops.count p
  observer : s.CountsUnseen → s'.CountsUnseen

lemma Keeps.trans (h : Keeps s s') (h' : Keeps s' s'') : Keeps s s'' where
  topology hinv := h'.topology (h.topology hinv)
  nodes := ⟨h'.nodes.ids.trans h.nodes.ids, h'.nodes.nextNodeID.trans h.nodes.nextNodeID⟩
  retired := h'.retired.trans h.retired
  gone id hid := (h'.gone id (by rwa [h.nodes.ids])).trans (h.gone id hid)
  grows id τ := (h.grows id τ).trans (h'.grows id τ)
  cold p := (h.cold p).trans (h'.cold p)
  observer hs := h'.observer (h.observer hs)

lemma keeps_of_quiet
    (htopology : TopologyInv (fun _ => True) s.topology → TopologyInv (fun _ => True) s'.topology)
    (hnodes : Topology.SameNodes s.topology s'.topology)
    (hretired : s'.retired = s.retired := by rfl) (hcounters : s'.counters = s.counters := by rfl)
    (hreporter : s'.reporter = s.reporter := by rfl)
    (hcold : s'.cold.drops = s.cold.drops := by rfl) (hunseen : s'.unseen = s.unseen := by rfl) :
    Keeps s s' where
  topology := htopology
  nodes := hnodes
  retired := hretired
  gone id _ := by rw [nodeCounts, nodeCounts, hcounters, hreporter]
  grows id τ := by rw [nodeCounts, nodeCounts, hcounters, hreporter]
  cold p := by rw [hcold]
  observer h := by rwa [CountsUnseen, hcold, hunseen]

lemma keeps_rfl : Keeps s s := keeps_of_quiet id .rfl

lemma keeps_of_count {c : NodeCounters} {r : ℕ} (hid : id ∈ s.topology.ids)
    (htopology : s'.topology = s.topology) (hretired : s'.retired = s.retired)
    (hcounters : s'.counters = update s.counters id c)
    (hreporter : s'.reporter = update s.reporter id r)
    (hcold : s'.cold.drops = s.cold.drops) (hgrows : ∀ τ, s.nodeCounts id τ ≤ counts c r τ)
    (hunseen : s'.unseen = s.unseen := by rfl) : Keeps s s' where
  topology hinv := htopology ▸ hinv
  nodes := htopology ▸ .rfl
  retired := hretired
  gone j hj := by
    have hne : j ≠ id := fun h => hj (h ▸ hid)
    rw [nodeCounts, nodeCounts, hcounters, hreporter, update_of_ne hne, update_of_ne hne]
  grows j τ := by
    by_cases hj : j = id
    · subst hj
      refine (hgrows τ).trans (le_of_eq ?_)
      rw [nodeCounts, hcounters, hreporter, update_self, update_self]
    · rw [nodeCounts, nodeCounts, hcounters, hreporter, update_of_ne hj, update_of_ne hj]
  cold p := by rw [hcold]
  observer h := by rwa [CountsUnseen, hcold, hunseen]

variable (c : NodeCounters)

lemma counts_observeDrop_le (r : ℕ) (policy : DropPolicy) (τ : Total) :
    counts c r τ ≤ counts (c.observeDrop policy) r τ := by
  cases τ <;> simp [counts, NodeCounters.observeDrop, DropCounts.count_recordDrop]

lemma counts_observeOut_le (r : ℕ) (msg : Message) (cold : ColdStats) (τ : Total) :
    counts c r τ ≤ counts (observeOut c msg cold).1 r τ := by
  rcases msg with _ | _ | _ <;> rename_i payload <;> cases payload <;> cases τ <;>
    simp [counts, observeOut]

lemma counts_observeIn_le (r : ℕ) (msg : Message) (τ : Total) :
    counts c r τ ≤ counts (observeIn c msg) r τ := by
  rcases msg with _ | _ | _ <;> rename_i payload <;> cases payload <;> cases τ <;>
    simp [counts, observeIn]

lemma drops_observeOut (msg : Message) (cold : ColdStats) :
    (observeOut c msg cold).2.drops = cold.drops := by
  rcases msg with _ | _ | _ <;> rename_i payload <;> cases payload <;> rfl

lemma keeps_observeDrop (hid : id ∈ s.topology.ids) (policy : DropPolicy) :
    Keeps s (s.observeDrop (some id) policy) :=
  keeps_of_count hid rfl rfl rfl (update_eq_self id s.reporter).symm rfl (counts_observeDrop_le _ _ policy)

lemma keeps_observe_none : Keeps s (s.observe none) := by
  unfold observe
  split
  · exact keeps_rfl
  split
  · exact keeps_of_quiet id .rfl
  have hcount (p : DropPolicy) : (s.cold.drops.recordDrop dropObserver).count p =
      s.cold.drops.count p + if p = dropObserver then 1 else 0 := by
    rw [DropCounts.count_recordDrop]
    exact congrArg _ (if_congr eq_comm rfl rfl)
  refine ⟨id, .rfl, rfl, fun _ _ => rfl, fun _ _ => le_rfl, fun p => ?_, fun h p => ?_⟩
  · exact (Nat.le_add_right _ _).trans (hcount p).ge
  · refine (hcount p).trans ?_
    rw [h p]
    split <;> rfl

lemma keeps_observe_some (hid : id ∈ s.topology.ids) : Keeps s (s.observe (some id)) := by
  unfold observe
  split
  · exact keeps_rfl
  split
  · exact keeps_of_quiet (fun h => h) .rfl
  · exact keeps_observeDrop hid _

lemma keeps_emit (hid : id ∈ s.topology.ids) (msg : Message) : Keeps s (s.emit id msg) := by
  have hout : Keeps s { s with
      counters := update s.counters id (observeOut (s.counters id) msg s.cold).1
      cold := (observeOut (s.counters id) msg s.cold).2 } :=
    keeps_of_count hid rfl rfl rfl (update_eq_self id s.reporter).symm
      (drops_observeOut _ _ _) (counts_observeOut_le _ _ msg _)
  unfold emit
  dsimp only
  split
  · exact hout.trans (keeps_observe_some hid)
  · exact hout

lemma keeps_rememberDeferredLocked (finalized : Bool) :
    Keeps s (s.rememberDeferredLocked id finalized) := by
  unfold rememberDeferredLocked
  split
  · have hquiet : Keeps s { s with cleanupReported := update s.cleanupReported id true } :=
      keeps_of_quiet (fun h => h) .rfl
    exact hquiet.trans keeps_observe_none
  · exact keeps_rfl

lemma keeps_topology (hinv : TopologyInv (fun _ => True) s.topology) (a : Topology.Action)
    (hadd : a.isAdd = false := by rfl) (htopology : s'.topology = s.topology.act a := by rfl)
    (hretired : s'.retired = s.retired := by rfl) (hcounters : s'.counters = s.counters := by rfl)
    (hreporter : s'.reporter = s.reporter := by rfl)
    (hcold : s'.cold.drops = s.cold.drops := by rfl) (hunseen : s'.unseen = s.unseen := by rfl) :
    Keeps s s' := by
  refine keeps_of_quiet (fun _ => ?_) ?_ hretired hcounters hreporter hcold hunseen
  · rw [htopology]
    exact hinv.act a fun _ _ _ => trivial
  · rw [htopology]
    exact sameNodes_act hinv hadd

lemma mem_ids_of_live (h : s.live id = true) : id ∈ s.topology.ids := by
  obtain ⟨n, hn, hlive⟩ := any_eq_true.mp h
  rw [Bool.and_eq_true, beq_iff_eq] at hlive
  exact mem_map.mpr ⟨n, hn, hlive.1⟩

def Action.isAdd : Action → Bool
  | .addSource _ _ | .addStage _ _ _ | .addSink _ _ => true
  | _ => false

theorem keeps_act (hinv : TopologyInv (fun _ => True) s.topology) {a : Action}
    (hadd : a.isAdd = false) (hallowed : s.allowed a = true) : Keeps s (s.act a) := by
  cases a with
  | addSource | addStage | addSink => cases hadd
  | connect route => exact keeps_topology hinv (.connect route)
  | disconnect route => exact keeps_topology hinv (.disconnect route)
  | remove ref => exact keeps_topology hinv (.remove ref)
  | retireLocked index =>
    exact keeps_topology hinv (.retireLocked index)
  | isolateFaults id members =>
    exact keeps_topology hinv (.isolateFaults id members)
  | retireFaultDomain d =>
    exact keeps_topology hinv (.retireFaultDomain d)
  | run => exact keeps_topology hinv .run
  | drain => exact keeps_topology hinv .drain
  | stop => exact keeps_topology hinv .stop
  | close => exact keeps_topology hinv .close
  | finalize index failed =>
    simp only [act, finalize]
    split
    · exact keeps_rfl
    split
    · exact keeps_rfl
    rename_i n _ _
    have htopology : Keeps s { s with
        topology := s.topology.finalize index
        closeFailed := update s.closeFailed n.id failed } :=
      keeps_topology hinv (.finalize index)
    exact htopology.trans (keeps_rememberDeferredLocked true)
  | reap index =>
    simp only [act, reap]
    split
    · exact keeps_rfl
    rename_i n _
    have hquiet : Keeps s { s with deferred := update s.deferred n.id true } :=
      keeps_of_quiet (fun h => h) .rfl
    exact hquiet.trans (keeps_rememberDeferredLocked n.finalized)
  | emit id msg => exact keeps_emit (mem_ids_of_live hallowed) msg
  | deliver id msg =>
    exact keeps_of_count (mem_ids_of_live hallowed) rfl rfl rfl
      (update_eq_self id s.reporter).symm rfl (counts_observeIn_le _ _ msg)
  | drop id policy => exact keeps_observeDrop (mem_ids_of_live hallowed) policy
  | report id count =>
    refine keeps_of_count (mem_ids_of_live hallowed) rfl rfl
      (update_eq_self id s.counters).symm rfl rfl fun τ => ?_
    cases τ with
    | dropped => exact Nat.add_le_add_left (Nat.le_add_right _ _) _
    | reason policy =>
      simp only [nodeCounts, counts]
      split <;> omega
    | _ => exact le_rfl
  | observe => exact keeps_observe_none
  | receive => exact keeps_of_quiet (fun h => h) .rfl
  | closeEvents => exact keeps_of_quiet (fun h => h) .rfl

end Metered

/-! ### Nodes that have left the table -/

namespace Topology

variable {P : Target → Prop} {t t' : Topology}

lemma nodup_ids (hinv : TopologyInv P t) : t.ids.Nodup := by
  refine nodup_iff_getElem?_ne_getElem?.mpr fun i j hij hj heq => ?_
  simp only [ids, length_map] at hj
  have hn : t.identities[i]? = some (t.nodes[i].identity) := by
    simp [getElem?_identities, Nat.lt_trans hij hj]
  have hm : t.identities[j]? = some (t.nodes[j].identity) := by
    simp [getElem?_identities, hj]
  have hid : t.nodes[i].id = t.nodes[j].id := by
    simpa [ids, hj, Nat.lt_trans hij hj] using heq
  exact Nat.ne_of_lt hij (hinv.table.distinct hn hm hid)

lemma le_of_mem_ids (hinv : TopologyInv P t) {id : ℕ} (h : id ∈ t.ids) : id ≤ t.nextNodeID := by
  obtain ⟨n, hn, rfl⟩ := mem_map.mp h
  obtain ⟨i, hi⟩ := mem_iff_getElem?.mp hn
  exact hinv.table.bound (identity_at hi)

def gone (t : Topology) : Finset ℕ := Finset.Icc 1 t.nextNodeID \ t.ids.toFinset

lemma mem_gone {id : ℕ} : id ∈ t.gone ↔ (1 ≤ id ∧ id ≤ t.nextNodeID) ∧ id ∉ t.ids := by
  simp [gone]

lemma add_ids {name : String} {kind : NodeKind} {admitter : Bool} (hinv : TopologyInv P t)
    (h : t.add name kind admitter = .ok t') :
    t'.nextNodeID = t.nextNodeID + 1 ∧
      ((t.reusable.getLast?.bind (fun i => t.nodes[i]?) = none ∧
          t'.ids = t.ids ++ [t.nextNodeID + 1]) ∨
        ∃ i old, t.reusable.getLast?.bind (fun i => t.nodes[i]?) = some old ∧
          t.ids[i]? = some old.id ∧ t'.ids = t.ids.set i (t.nextNodeID + 1)) := by
  obtain ⟨-, -, opened, sources, rfl⟩ := TopologyInv.add_eq_ok h
  refine ⟨rfl, ?_⟩
  cases hlast : t.reusable.getLast? with
  | none =>
    left
    simp [ids, rebuildLocked, install, hlast]
  | some i =>
    right
    obtain ⟨m, hm, -⟩ := hinv.table.reusable (mem_of_getLast? hlast)
    rw [getElem?_identities] at hm
    obtain ⟨old, hold, -⟩ := Option.map_eq_some_iff.mp hm
    refine ⟨i, old, hold, by simp [ids, hold], ?_⟩
    simp [ids, rebuildLocked, install, hlast, map_set]

end Topology

lemma mem_set_of_nodup {l : List ℕ} {i a v x : ℕ} (hnodup : l.Nodup) (ha : l[i]? = some a) :
    x ∈ l.set i v ↔ x = v ∨ x ∈ l ∧ x ≠ a := by
  obtain ⟨hlt, rfl⟩ := List.getElem?_eq_some_iff.mp ha
  constructor
  · intro hx
    obtain ⟨j, hj⟩ := List.mem_iff_getElem?.mp hx
    by_cases hij : i = j
    · subst hij
      rw [List.getElem?_set_self hlt] at hj
      exact .inl (Option.some.inj hj).symm
    · rw [List.getElem?_set_ne hij] at hj
      refine .inr ⟨List.mem_of_getElem? hj, fun hx => hij ?_⟩
      rw [hx, ← List.getElem?_eq_getElem hlt] at hj
      exact (List.getElem?_inj hlt hnodup).mp hj.symm
  · rintro (rfl | ⟨hx, hne⟩)
    · exact List.mem_set hlt _
    · obtain ⟨j, hj⟩ := List.mem_iff_getElem?.mp hx
      have hij : i ≠ j := by
        rintro rfl
        rw [List.getElem?_eq_getElem hlt] at hj
        exact hne (Option.some.inj hj).symm
      exact List.mem_of_getElem? ((List.getElem?_set_ne hij).trans hj)

namespace Metered

variable {s s' : Metered}

/-- **Nothing is counted twice or forgotten**: the retired counts are those of the nodes that left. -/
structure Accounted (s : Metered) : Prop where
  topology : TopologyInv (fun _ => True) s.topology
  positive : ∀ id ∈ s.topology.ids, 1 ≤ id
  retired : ∀ τ, counts s.retired.counters s.retired.reported τ = ∑ id ∈ s.topology.gone, s.nodeCounts id τ
  observer : s.CountsUnseen

structure Grows (s s' : Metered) : Prop where
  nextNodeID : s.topology.nextNodeID ≤ s'.topology.nextNodeID
  counts : ∀ id ≤ s.topology.nextNodeID, ∀ τ, s.nodeCounts id τ ≤ s'.nodeCounts id τ
  cold : ∀ p, s.cold.drops.count p ≤ s'.cold.drops.count p

lemma Accounted.keeps (h : s.Accounted) (hkeeps : Keeps s s') : s'.Accounted where
  topology := hkeeps.topology h.topology
  positive := hkeeps.nodes.ids ▸ h.positive
  retired τ := by
    have hgone : s'.topology.gone = s.topology.gone := by
      rw [gone, gone, hkeeps.nodes.ids, hkeeps.nodes.nextNodeID]
    rw [hkeeps.retired, h.retired, hgone]
    exact Finset.sum_congr rfl fun id hid => by rw [hkeeps.gone id (mem_gone.mp hid).2]
  observer := hkeeps.observer h.observer

lemma Keeps.grows_totals (h : Keeps s s') : Grows s s' :=
  ⟨h.nodes.nextNodeID.ge, fun id _ => h.grows id, h.cold⟩

/-- **An add moves the counts of the node whose index it reuses.** -/
lemma Accounted.add (h : s.Accounted) (name : String) (kind : NodeKind) (admitter : Bool)
    (reported : ℕ) : (s.add name kind admitter reported).Accounted ∧
      Grows s (s.add name kind admitter reported) := by
  unfold Metered.add
  split
  · exact ⟨h, le_rfl, fun _ _ _ => le_rfl, fun _ => le_rfl⟩
  rename_i t hadd
  obtain ⟨hnext, hids⟩ := add_ids h.topology hadd
  have hbound : ∀ {id}, id ∈ s.topology.ids → id ≤ s.topology.nextNodeID :=
    le_of_mem_ids h.topology
  -- the counters of the nodes that were there before are not touched
  have hcounts : ∀ id ≤ s.topology.nextNodeID, ∀ τ, counts (update s.counters t.nextNodeID {} id)
        (update s.reporter t.nextNodeID reported id) τ = s.nodeCounts id τ := by
    intro id hid τ
    have hne : id ≠ t.nextNodeID := by omega
    rw [update_of_ne hne, update_of_ne hne]
    rfl
  refine ⟨⟨h.topology.add hadd, ?_, fun τ => ?_, h.observer⟩, ?_,
    fun id hid τ => (hcounts id hid τ).ge, fun _ => le_rfl⟩
  · intro id hid
    rcases hids with ⟨-, hids⟩ | ⟨i, old, -, hold, hids⟩
    · rw [hids, mem_append, mem_singleton] at hid
      rcases hid with hid | rfl
      · exact h.positive id hid
      · omega
    · rw [hids, mem_set_of_nodup (nodup_ids h.topology) hold] at hid
      rcases hid with rfl | ⟨hid, -⟩
      · omega
      · exact h.positive id hid
  · rcases hids with ⟨hnone, hids⟩ | ⟨i, old, hsome, hold, hids⟩
    · have hgone : t.gone = s.topology.gone := by
        ext id
        rw [mem_gone, mem_gone, hids, hnext, mem_append, mem_singleton]
        grind
      rw [hnone]
      rw [h.retired, hgone]
      exact Finset.sum_congr rfl fun id hid => (hcounts id (mem_gone.mp hid).1.2 τ).symm
    · have holdMem : old.id ∈ s.topology.ids := mem_of_getElem? hold
      have hgone : t.gone = insert old.id s.topology.gone := by
        ext id
        rw [Finset.mem_insert, mem_gone, mem_gone, hids, mem_set_of_nodup (nodup_ids h.topology) hold]
        have := h.positive _ holdMem
        grind
      have hnot : old.id ∉ s.topology.gone := fun hmem => (mem_gone.mp hmem).2 holdMem
      rw [hsome]
      rw [counts_fold, h.retired, hgone, Finset.sum_insert hnot, Nat.add_comm]
      congr 1
      · exact (hcounts _ (hbound holdMem) τ).symm
      · exact Finset.sum_congr rfl fun id hid => (hcounts id (mem_gone.mp hid).1.2 τ).symm
  · show s.topology.nextNodeID ≤ t.nextNodeID
    omega

theorem Accounted.act (h : s.Accounted) {a : Action} (hallowed : s.allowed a = true) :
    (s.act a).Accounted ∧ Grows s (s.act a) := by
  cases hadd : a.isAdd with
  | false =>
    have hkeeps := keeps_act h.topology hadd hallowed
    exact ⟨h.keeps hkeeps, hkeeps.grows_totals⟩
  | true =>
    cases a with
    | addSource name reported => exact h.add ..
    | addStage name admitter reported => exact h.add ..
    | addSink name reported => exact h.add ..
    | _ => cases hadd

theorem Accounted.total_stats (h : s.Accounted) (τ : Total) :
    s.stats.total τ = (∑ id ∈ Finset.Icc 1 s.topology.nextNodeID, (s.finalStats id).total τ) +
      s.cold.total τ := by
  have hsub : s.topology.ids.toFinset ⊆ Finset.Icc 1 s.topology.nextNodeID := by
    intro id hid
    have hmem := mem_toFinset.mp hid
    exact Finset.mem_Icc.mpr ⟨h.positive id hmem, le_of_mem_ids h.topology hmem⟩
  have htable : (s.topology.nodes.map fun n => s.nodeCounts n.id τ).sum =
      ∑ id ∈ s.topology.ids.toFinset, s.nodeCounts id τ := by
    rw [sum_toFinset _ (nodup_ids h.topology), ids, map_map]
    rfl
  have hnode : ∀ id, (s.finalStats id).total τ = s.nodeCounts id τ := fun id => total_report _ _ τ
  simp only [hnode]
  rw [← Finset.sum_sdiff hsub]
  have hstats : s.stats.total τ = (snapshotStats s.cold ((s.topology.nodes.map fun n =>
          ⟨if n.active then n.name else "", s.counters n.id, s.reporter n.id⟩) ++
        [⟨"", s.retired.counters, s.retired.reported⟩])).total τ := by
    cases τ <;> rfl
  rw [hstats, total_snapshotStats, map_append, sum_append, map_map, map_singleton, sum_singleton, h.retired]
  show s.cold.total τ + ((s.topology.nodes.map fun n => s.nodeCounts n.id τ).sum + _) = _
  rw [gone]
  omega

lemma Grows.trans {s'' : Metered} (h : Grows s s') (h' : Grows s' s'') : Grows s s'' :=
  ⟨h.nextNodeID.trans h'.nextNodeID,
    fun id hid τ => (h.counts id hid τ).trans (h'.counts id (hid.trans h.nextNodeID) τ),
    fun p => (h.cold p).trans (h'.cold p)⟩

abbrev Reached (s s' : Metered) : Prop :=
  Runs (fun s a => some (s.act a)) (fun s a => s.allowed a = true) s s'

lemma Accounted.reached (h : s.Accounted) (hrun : Reached s s') : s'.Accounted ∧ Grows s s' := by
  refine hrun.invariant (fun s' => s'.Accounted ∧ Grows s s') ?_ ?_
  · exact ⟨h, le_rfl, fun _ _ _ => le_rfl, fun _ => le_rfl⟩
  · rintro s₁ a s₂ ⟨haccounted, hgrows⟩ hallowed hact
    cases hact
    obtain ⟨haccounted', hgrows'⟩ := haccounted.act hallowed
    exact ⟨haccounted', hgrows.trans hgrows'⟩

lemma accounted_empty (runner : Runner) (capacity : ℕ) :
    Accounted { topology := { runner }, capacity } where
  topology := topologyInv_empty runner
  positive := by simp [ids]
  retired τ := by
    have hgone : gone { runner } = ∅ := rfl
    rw [hgone]
    cases τ <;> simp [counts, DropCounts.count]
  observer p := by simp [DropCounts.count]

lemma Accounted.total_le (h : s.Accounted) (h' : s'.Accounted) (hgrows : Grows s s') (τ : Total) :
    s.stats.total τ ≤ s'.stats.total τ := by
  rw [h.total_stats, h'.total_stats]
  have hcold : s.cold.total τ ≤ s'.cold.total τ := by
    cases τ with
    | reason policy => exact hgrows.cold policy
    | _ => exact le_rfl
  refine Nat.add_le_add ?_ hcold
  calc ∑ id ∈ Finset.Icc 1 s.topology.nextNodeID, (s.finalStats id).total τ
      ≤ ∑ id ∈ Finset.Icc 1 s.topology.nextNodeID, (s'.finalStats id).total τ := by
        refine Finset.sum_le_sum fun id hid => ?_
        rw [finalStats, finalStats, total_report, total_report]
        exact hgrows.counts id (Finset.mem_Icc.mp hid).2 τ
    _ ≤ ∑ id ∈ Finset.Icc 1 s'.topology.nextNodeID, (s'.finalStats id).total τ :=
        Finset.sum_le_sum_of_subset (Finset.Icc_subset_Icc_right hgrows.nextNodeID)

end Metered

open Metered

/-- **The graph totals are the sums over all nodes ever added**; only the graph's own events that found
the observer stream full are drops that no node has. No total ever decreases. -/
theorem stats_totals (runner : Runner) (capacity : ℕ) {s s' : Metered}
    (hreached : Reached { topology := { runner }, capacity } s) (hlater : Reached s s') :
    (∀ τ ≠ .reason dropObserver, s.stats.total τ =
      ∑ id ∈ Finset.Icc 1 s.topology.nextNodeID, (s.finalStats id).total τ) ∧
    s.stats.total (.reason dropObserver) =
      (∑ id ∈ Finset.Icc 1 s.topology.nextNodeID, (s.finalStats id).total (.reason dropObserver)) +
        s.unseen ∧
    ∀ τ, s.stats.total τ ≤ s'.stats.total τ := by
  obtain ⟨haccounted, -⟩ := (accounted_empty runner capacity).reached hreached
  obtain ⟨haccounted', hgrows⟩ := haccounted.reached hlater
  refine ⟨fun τ hτ => ?_, ?_, haccounted.total_le haccounted' hgrows⟩
  · have hcold : s.cold.total τ = 0 := by
      cases τ with
      | reason policy => exact (haccounted.observer policy).trans (if_neg fun h => hτ (congrArg _ h))
      | _ => rfl
    rw [haccounted.total_stats, hcold, Nat.add_zero]
  · have hcold : s.cold.total (.reason dropObserver) = s.unseen :=
      (haccounted.observer dropObserver).trans (if_pos rfl)
    rw [haccounted.total_stats, hcold]

/-- A sink drops a message and is finalized, and another gets its index. -/
theorem stats_totals_reused :
    ∃ s, Reached { topology := { runner := .direct }, capacity := 1 } s ∧
      s.topology.ids = [1, 3] ∧ s.stats.total .dropped = 1 ∧
      s.stats.total .dropped =
        ∑ id ∈ Finset.Icc 1 s.topology.nextNodeID, (s.finalStats id).total .dropped := by
  let actions : List Metered.Action := [.addSource "in" 0, .addSink "old" 0, .drop 2 .newest,
    .remove "old", .finalize 1 false, .addSink "new" 0]
  have hrun : ((exec (fun s a => some (Metered.act s a)) (fun s a => s.allowed a = true)
      { topology := { runner := .direct }, capacity := 1 } actions).map fun s =>
        (s.topology.ids, s.stats.total .dropped)) = some ([1, 3], 1) := by
    decide +kernel
  obtain ⟨s, hs, heq⟩ := Option.map_eq_some_iff.mp hrun
  obtain ⟨hids, hdropped⟩ := Prod.mk.inj heq
  have hreached := Runs.exec actions .refl hs
  exact ⟨s, hreached, hids, hdropped, (stats_totals .direct 1 hreached .refl).1 .dropped (by decide)⟩

/-- A removed sink fails to close when the observer stream is full. -/
theorem stats_totals_observer :
    ∃ s, Reached { topology := { runner := .direct }, capacity := 1 } s ∧
      s.stats.total (.reason dropObserver) ≠
        ∑ id ∈ Finset.Icc 1 s.topology.nextNodeID, (s.finalStats id).total (.reason dropObserver) := by
  let actions : List Metered.Action := [.addSource "in" 0, .addSink "out" 0,
    .emit 1 (.event (some { type := .discontinuity })), .remove "out", .reap 1, .finalize 1 true]
  have hrun : ((exec (fun s a => some (Metered.act s a)) (fun s a => s.allowed a = true)
      { topology := { runner := .direct }, capacity := 1 } actions).map fun s =>
        (s.stats.total (.reason dropObserver), s.topology.nextNodeID,
          (s.finalStats 1).total (.reason dropObserver),
          (s.finalStats 2).total (.reason dropObserver))) = some (1, 2, 0, 0) := by
    decide +kernel
  obtain ⟨s, hs, heq⟩ := Option.map_eq_some_iff.mp hrun
  simp only [Prod.mk.injEq] at heq
  obtain ⟨htotal, hnext, hfirst, hsecond⟩ := heq
  refine ⟨s, Runs.exec actions .refl hs, ?_⟩
  have hIcc : Finset.Icc 1 2 = {1, 2} := rfl
  rw [htotal, hnext, hIcc, Finset.sum_pair (by decide), hfirst, hsecond]
  decide

end Goav.Pipeline
