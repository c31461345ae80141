import Goav.Pipeline.TopologyDefs

/-!
The invariant of a topology. The table (`TableInv`) and the fault domains (`DomainInv`) speak only of
what a node is (`NodeIdentity`), so that a change of routes leaves them as they are.
-/

namespace Goav.Pipeline

structure NodeIdentity where
  id : ℕ
  name : String
  index : Option ℕ
  domain : Option ℕ
  finalized : Bool

def GraphNode.identity (n : GraphNode) : NodeIdentity :=
  { id := n.id, name := n.name, index := n.index, domain := n.domain, finalized := n.finalized }

namespace GraphNode

variable (n : GraphNode)

@[simp] lemma identity_id : n.identity.id = n.id := rfl

@[simp] lemma identity_index : n.identity.index = n.index := rfl

@[simp] lemma identity_domain : n.identity.domain = n.domain := rfl

@[simp] lemma identity_finalized : n.identity.finalized = n.finalized := rfl

@[simp] lemma identity_retired : n.retired.identity = n.identity := rfl

@[simp] lemma targets_retired : n.retired.targets = [] := rfl

end GraphNode

def Topology.identities (t : Topology) : List NodeIdentity := t.nodes.map GraphNode.identity

lemma Topology.getElem?_identities (t : Topology) (i : ℕ) :
    t.identities[i]? = t.nodes[i]?.map GraphNode.identity :=
  List.getElem?_map ..

variable {t : Topology}

lemma Topology.identity_at {i : ℕ} {n : GraphNode} (hn : t.nodes[i]? = some n) :
    t.identities[i]? = some n.identity := by
  rw [getElem?_identities, hn]
  rfl

/-! ### The table -/

structure TableInv (ids : List NodeIdentity) (free : List ℕ) (nextNodeID : ℕ) : Prop where
  bound : ∀ {i : ℕ} {n : NodeIdentity}, ids[i]? = some n → n.id ≤ nextNodeID
  distinct : ∀ {i j : ℕ} {n m : NodeIdentity}, ids[i]? = some n → ids[j]? = some m → n.id = m.id →
    i = j
  place : ∀ {i : ℕ} {n : NodeIdentity}, ids[i]? = some n → n.index = none ∨ n.index = some i
  reusable : ∀ {i : ℕ}, i ∈ free →
    ∃ n : NodeIdentity, ids[i]? = some n ∧ n.index = none ∧ n.finalized = true
  nodup : free.Nodup

/-! ### Fault domains -/

def openMembers (ids : List NodeIdentity) (d : ℕ) : ℕ :=
  ids.countP fun n => decide (n.domain = some d) && !n.finalized

structure DomainInv (ids : List NodeIdentity) (allDomains : List FaultDomain)
    (finalizedIDs : List ℕ) (nextNodeID : ℕ) : Prop where
  member : ∀ {i d : ℕ} {n : NodeIdentity}, ids[i]? = some n → n.domain = some d →
    ∃ D, allDomains[d]? = some D ∧ n.id ∈ D.memberIDs
  own : ∀ {i d : ℕ} {n : NodeIdentity} {D : FaultDomain}, ids[i]? = some n →
    allDomains[d]? = some D → n.id ∈ D.memberIDs → n.domain = some d
  known : ∀ {d id : ℕ} {D : FaultDomain}, allDomains[d]? = some D → id ∈ D.memberIDs →
    id ≤ nextNodeID ∧ (id ∈ finalizedIDs ∨ ∃ (i : ℕ) (n : NodeIdentity), ids[i]? = some n ∧ n.id = id)
  disjoint : ∀ {d d' id : ℕ} {D D' : FaultDomain}, allDomains[d]? = some D →
    allDomains[d']? = some D' → id ∈ D.memberIDs → id ∈ D'.memberIDs → d = d'
  finalized : ∀ {i : ℕ} {n : NodeIdentity}, ids[i]? = some n →
    (n.finalized = true ↔ n.id ∈ finalizedIDs)
  bound : ∀ {id : ℕ}, id ∈ finalizedIDs → id ≤ nextNodeID
  remaining : ∀ {d : ℕ} {D : FaultDomain}, allDomains[d]? = some D →
    D.remaining = openMembers ids d
  closes : ∀ {d : ℕ} {D : FaultDomain}, allDomains[d]? = some D →
    D.closes = if D.remaining = 0 then 1 else 0

/-! ### Routes -/

/-! The invariant has a parameter for what is known of every target of a route. -/

def GraphNode.InUse (n : GraphNode) : Prop := n.active = true ∧ n.retiring = false

structure RouteInv (P : Target → Prop) (t : Topology) : Prop where
  named : ∀ {name : String} {i : ℕ}, t.index name = some i →
    ∃ n, t.nodes[i]? = some n ∧ n.name = name ∧ (t.closed = false → n.InUse)
  inactive : ∀ {i : ℕ} {n : GraphNode}, t.nodes[i]? = some n → n.finalized = true →
    n.active = false
  routeless : t.closed = false → ∀ {i : ℕ} {n : GraphNode}, t.nodes[i]? = some n →
    n.active = false → n.routes = []
  routed : ∀ {i : ℕ} {n : GraphNode}, t.nodes[i]? = some n → ∀ τ ∈ n.targets,
    ∃ m, t.nodes[τ.index]? = some m ∧ m.id = τ.id ∧ m.name = τ.name ∧
      (n.domain ≠ none → m.domain = n.domain) ∧ (t.closed = false → m.InUse)
  connected : ∀ {i : ℕ} {n : GraphNode}, t.nodes[i]? = some n → ∀ τ ∈ n.targets, P τ

/-- The targets of an active node in a snapshot are active and the nodes they were connected to. -/
def SnapshotOk (P : Target → Prop) (snap : List SnapshotNode) : Prop :=
  ∀ {i : ℕ} {n : SnapshotNode}, snap[i]? = some n → n.active = true →
    ∀ route ∈ n.routes, ∀ τ ∈ route.destinations,
      P τ ∧ ∃ m, snap[τ.index]? = some m ∧ m.active = true ∧ m.id = τ.id ∧ m.name = τ.name

structure TopologyInv (P : Target → Prop) (t : Topology) : Prop where
  table : TableInv t.identities t.reusable t.nextNodeID
  domains : DomainInv t.identities t.allDomains t.finalizedIDs t.nextNodeID
  routes : RouteInv P t
  snap : ∀ snap ∈ t.snap, SnapshotOk P snap

variable {P : Target → Prop}

lemma topologyInv_empty (runner : Runner) : TopologyInv P { runner } where
  table := by constructor <;> simp [Topology.identities]
  domains := by constructor <;> simp [Topology.identities]
  routes := by constructor <;> simp
  snap := by simp

/-! ### Changes of routes and activity -/

lemma RouteInv.snapshotOk (h : RouteInv P t) (hopen : t.closed = false) :
    SnapshotOk P (t.nodes.map GraphNode.snapshot) := by
  intro i sn hsn _ route hroute τ hτ
  rw [List.getElem?_map] at hsn
  obtain ⟨n, hn, rfl⟩ := Option.map_eq_some_iff.mp hsn
  obtain ⟨m, hm, hid, hname, -, huse⟩ := h.routed hn τ (List.mem_flatMap.mpr ⟨route, hroute, hτ⟩)
  exact ⟨h.connected hn τ (List.mem_flatMap.mpr ⟨route, hroute, hτ⟩),
    m.snapshot, by simp [hm], (huse hopen).1, hid, hname⟩

lemma TopologyInv.rebuildLocked (htable : TableInv t.identities t.reusable t.nextNodeID)
    (hdomains : DomainInv t.identities t.allDomains t.finalizedIDs t.nextNodeID)
    (hroutes : RouteInv P t) : TopologyInv P t.rebuildLocked where
  table := htable
  domains := hdomains
  routes := { hroutes with }
  snap := by
    intro snap hsnap
    simp only [Topology.rebuildLocked] at hsnap
    split at hsnap
    · simp at hsnap
    · rename_i hopen
      exact (Option.some.inj hsnap) ▸ hroutes.snapshotOk (by simpa using hopen)

/-- Nodes change what they do by `f`, lose targets and leave; what is named or targeted stays in use. -/
structure Shrinks (t t' : Topology) (f : ℕ → GraphNode → GraphNode) : Prop where
  nodes : ∀ i, t'.nodes[i]? = t.nodes[i]?.map (f i)
  identity : ∀ i n, (f i n).identity = n.identity
  targets : ∀ i n, ∀ τ ∈ (f i n).targets, τ ∈ n.targets
  inactive : ∀ i n, n.active = false → (f i n).active = false
  routeless : t'.closed = false → ∀ i n, (n.active = false → n.routes = []) →
    (f i n).active = false → (f i n).routes = []
  closed : t'.closed = false → t.closed = false
  targeted : t'.closed = false → ∀ {i n}, t.nodes[i]? = some n → ∀ τ ∈ (f i n).targets, ∀ {m},
    t.nodes[τ.index]? = some m → m.InUse → (f τ.index m).InUse
  named : ∀ {name i}, t'.index name = some i → t.index name = some i ∧ (t'.closed = false →
    ∀ {m}, t.nodes[i]? = some m → m.name = name → m.InUse → (f i m).InUse)
  reusable : t'.reusable = t.reusable
  nextNodeID : t'.nextNodeID = t.nextNodeID
  allDomains : t'.allDomains = t.allDomains
  finalizedIDs : t'.finalizedIDs = t.finalizedIDs

namespace Shrinks

variable {t t' : Topology} {f : ℕ → GraphNode → GraphNode}

section

variable (h : Shrinks t t' f)
include h

lemma identities : t'.identities = t.identities := by
  refine List.ext_getElem? fun i => ?_
  rw [Topology.getElem?_identities, Topology.getElem?_identities, h.nodes i, Option.map_map]
  congr 1
  funext n
  exact h.identity i n

lemma table (hinv : TopologyInv P t) : TableInv t'.identities t'.reusable t'.nextNodeID := by
  rw [h.identities, h.reusable, h.nextNodeID]
  exact hinv.table

lemma domains (hinv : TopologyInv P t) :
    DomainInv t'.identities t'.allDomains t'.finalizedIDs t'.nextNodeID := by
  rw [h.identities, h.allDomains, h.finalizedIDs, h.nextNodeID]
  exact hinv.domains

lemma exists_old {i : ℕ} {n' : GraphNode} (hn : t'.nodes[i]? = some n') :
    ∃ n, t.nodes[i]? = some n ∧ n' = f i n := by
  rw [h.nodes i] at hn
  obtain ⟨n, hn, heq⟩ := Option.map_eq_some_iff.mp hn
  exact ⟨n, hn, heq.symm⟩

lemma new {i : ℕ} {n : GraphNode} (hn : t.nodes[i]? = some n) : t'.nodes[i]? = some (f i n) := by
  rw [h.nodes i, hn]
  rfl

theorem routes (hinv : RouteInv P t) : RouteInv P t' where
  named := by
    intro name i hname
    obtain ⟨hold, huse⟩ := h.named hname
    obtain ⟨n, hn, hnn, hopen⟩ := hinv.named hold
    exact ⟨f i n, h.new hn, (congrArg NodeIdentity.name (h.identity i n)).trans hnn,
      fun hc => huse hc hn hnn (hopen (h.closed hc))⟩
  inactive := by
    intro i n' hn' hfin
    obtain ⟨n, hn, rfl⟩ := h.exists_old hn'
    exact h.inactive i n
      (hinv.inactive hn ((congrArg NodeIdentity.finalized (h.identity i n)).symm.trans hfin))
  routeless := by
    intro hc i n' hn' hact
    obtain ⟨n, hn, rfl⟩ := h.exists_old hn'
    exact h.routeless hc i n (hinv.routeless (h.closed hc) hn) hact
  routed := by
    intro i n' hn' τ hτ
    obtain ⟨n, hn, rfl⟩ := h.exists_old hn'
    obtain ⟨m, hm, hid, hname, hdomain, huse⟩ := hinv.routed hn τ (h.targets i n τ hτ)
    have hn_id := h.identity i n
    have hm_id := h.identity τ.index m
    refine ⟨f τ.index m, h.new hm, (congrArg NodeIdentity.id hm_id).trans hid,
      (congrArg NodeIdentity.name hm_id).trans hname, fun hd => ?_,
      fun hc => h.targeted hc hn τ hτ hm (huse (h.closed hc))⟩
    have hn_d : (f i n).domain = n.domain := congrArg NodeIdentity.domain hn_id
    have hm_d : (f τ.index m).domain = m.domain := congrArg NodeIdentity.domain hm_id
    rw [hn_d] at hd ⊢
    rw [hm_d]
    exact hdomain hd
  connected := by
    intro i n' hn' τ hτ
    obtain ⟨n, hn, rfl⟩ := h.exists_old hn'
    exact hinv.connected hn τ (h.targets i n τ hτ)

theorem rebuild (hinv : TopologyInv P t) : TopologyInv P t'.rebuildLocked :=
  TopologyInv.rebuildLocked (h.table hinv) (h.domains hinv) (h.routes hinv.routes)

end

end Shrinks

end Goav.Pipeline
