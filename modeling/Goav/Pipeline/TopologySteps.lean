import Goav.Lib.Count
import Goav.Pipeline.TopologyInv

/-!
The operations on the nodes and routes of a topology keep its invariant: those that take nodes and
routes out, a new route, and a new node, which may get the index of one that is gone.
-/

namespace Goav.Pipeline

open Goav.Lib List GraphNode Option Function

/-! ### Operations that return -/

lemma mem_dropTargets {dropped : ℕ → Bool} {routes : List NodeRoute} {τ : Target} :
    τ ∈ (dropTargets dropped routes).flatMap NodeRoute.destinations ↔
      τ ∈ routes.flatMap NodeRoute.destinations ∧ dropped τ.index = false := by
  induction routes with
  | nil => simp [dropTargets]
  | cons route routes ih =>
    have hsplit : dropTargets dropped (route :: routes) =
        dropTargets dropped [route] ++ dropTargets dropped routes := by
      simp only [dropTargets, List.filterMap_cons]
      split <;> simp_all
    have hone : τ ∈ (dropTargets dropped [route]).flatMap NodeRoute.destinations ↔
        τ ∈ route.destinations ∧ dropped τ.index = false := by
      simp only [dropTargets, List.filterMap_cons, List.filterMap_nil]
      split
      · rename_i hempty
        split at hempty
        · rename_i hnil
          simp only [List.isEmpty_iff, List.filter_eq_nil_iff] at hnil
          simp only [List.flatMap_nil, List.not_mem_nil, false_iff, not_and]
          exact fun hτ => by simpa using hnil τ hτ
        · simp at hempty
      · rename_i kept hkept
        split at hkept
        · simp at hkept
        · cases hkept
          simp
    rw [hsplit, List.flatMap_append, List.mem_append, ih, List.flatMap_cons, List.mem_append]
    tauto

namespace Topology

variable {t t' : Topology} {name ref : String} {i : ℕ} {n : GraphNode}

lemma find_eq_some (h : t.find name = some (i, n)) : t.index name = some i ∧ t.nodes[i]? = some n := by
  obtain ⟨j, hj, h⟩ := bind_eq_some_iff.mp h
  obtain ⟨m, hm, h⟩ := map_eq_some_iff.mp h
  cases h
  exact ⟨hj, hm⟩

lemma findActive_eq_ok (h : t.findActive name = .ok (i, n)) :
    t.index name = some i ∧ t.nodes[i]? = some n ∧ n.active = true := by
  unfold findActive at h
  split at h
  · rename_i j m hfind
    split at h
    · rename_i hactive
      cases h
      exact ⟨(find_eq_some hfind).1, (find_eq_some hfind).2, hactive⟩
    · simp at h
  · simp at h

lemma destination_eq_ok {src : GraphNode} {τ : Target} (h : t.destination src name = .ok τ) :
    ∃ dst, t.index name = some τ.index ∧ t.nodes[τ.index]? = some dst ∧ dst.active = true ∧
      τ.id = dst.id ∧ τ.name = name ∧ (src.domain ≠ none → dst.domain = src.domain) := by
  obtain ⟨⟨i, dst⟩, hfind, h⟩ := bind_eq_ok.mp h
  obtain ⟨-, -, h⟩ := bind_eq_ok.mp h
  obtain ⟨_, hsafe, h⟩ := bind_eq_ok.mp h
  obtain ⟨hindex, hdst, hactive⟩ := findActive_eq_ok hfind
  obtain rfl := pure_eq_ok.mp h
  refine ⟨dst, hindex, hdst, hactive, rfl, rfl, fun hdomain => ?_⟩
  by_contra hne
  exact require_eq_ok.mp hsafe (.inl ⟨hdomain, fun heq => hne heq.symm⟩)

lemma connect_eq_ok {route : Route} (h : t.connect route = .ok t') :
    ∃ policy origin src dests, t.findActive route.origin = .ok (origin, src) ∧
      (∀ τ ∈ dests, ∃ name ∈ route.destinations, t.destination src name = .ok τ) ∧
      t' = rebuildLocked { t with nodes := t.nodes.modify origin fun n =>
        { n with routes := n.routes ++ [⟨dests, policy, route.label⟩] } } := by
  obtain ⟨-, -, h⟩ := bind_eq_ok.mp h
  obtain ⟨policy, -, h⟩ := bind_eq_ok.mp h
  obtain ⟨-, -, h⟩ := bind_eq_ok.mp h
  obtain ⟨⟨origin, src⟩, hfind, h⟩ := bind_eq_ok.mp h
  obtain ⟨-, -, h⟩ := bind_eq_ok.mp h
  obtain ⟨dests, hdests, h⟩ := bind_eq_ok.mp h
  exact ⟨policy, origin, src, dests, hfind, exists_of_mapM_eq_ok hdests, (pure_eq_ok.mp h).symm⟩

lemma disconnect_eq_ok {route : Route} (h : t.disconnect route = .ok t') :
    ∃ policy origin src dests, t.findActive route.origin = .ok (origin, src) ∧
      t' = rebuildLocked { t with nodes := t.nodes.modify origin fun n =>
        { n with routes := (disconnectRoutes policy route.label dests src.routes).1 } } := by
  obtain ⟨-, -, h⟩ := bind_eq_ok.mp h
  obtain ⟨policy, -, h⟩ := bind_eq_ok.mp h
  obtain ⟨-, -, h⟩ := bind_eq_ok.mp h
  obtain ⟨⟨origin, src⟩, hfind, h⟩ := bind_eq_ok.mp h
  obtain ⟨dests, -, h⟩ := bind_eq_ok.mp h
  obtain ⟨-, -, h⟩ := bind_eq_ok.mp h
  exact ⟨policy, origin, src, dests, hfind, (pure_eq_ok.mp h).symm⟩

def detachNode (index i : ℕ) (n : GraphNode) : GraphNode :=
  let n := if i = index then { n with retiring := true } else n
  if n.active then { n with routes := dropTargets (· == index) n.routes } else n

lemma remove_eq_ok (h : t.remove ref = .ok t') :
    ∃ index n retires, t.closed = false ∧ t.findActive ref = .ok (index, n) ∧
      t' = rebuildLocked { t with
        index := update t.index ref none
        nodes := t.nodes.mapIdx fun i n =>
          if i = index ∧ retires = true then (detachNode index i n).retired
          else detachNode index i n } := by
  obtain ⟨⟨index, n, s⟩, hdetach, h⟩ := bind_eq_ok.mp h
  obtain ⟨_, hopen, hdetach⟩ := bind_eq_ok.mp hdetach
  obtain ⟨-, -, hdetach⟩ := bind_eq_ok.mp hdetach
  obtain ⟨⟨index', n'⟩, hfind, hdetach⟩ := bind_eq_ok.mp hdetach
  obtain ⟨-, -, hdetach⟩ := bind_eq_ok.mp hdetach
  obtain ⟨rfl, hrest⟩ := Prod.mk.inj (pure_eq_ok.mp hdetach)
  obtain ⟨rfl, rfl⟩ := Prod.mk.inj hrest
  have hnodes : ((t.nodes.modify index' fun n => { n with retiring := true }).map fun n =>
      if n.active then { n with routes := dropTargets (· == index') n.routes } else n) =
      t.nodes.mapIdx (detachNode index') := by
    refine ext_getElem? fun i => ?_
    simp only [getElem?_map, getElem?_modify, getElem?_mapIdx]
    cases t.nodes[i]? with
    | none => rfl
    | some n =>
      by_cases hi : index' = i
      · subst hi
        simp [detachNode]
      · simp [detachNode, hi, Ne.symm hi]
  have hretired : (t.nodes.mapIdx (detachNode index')).modify index' retired =
      t.nodes.mapIdx fun i n => if i = index' ∧ true = true then (detachNode index' i n).retired
        else detachNode index' i n := by
    refine ext_getElem? fun i => ?_
    simp only [getElem?_modify, getElem?_mapIdx]
    cases t.nodes[i]? with
    | none => rfl
    | some n =>
      by_cases hi : index' = i
      · subst hi
        simp
      · simp [hi, Ne.symm hi]
  have hopen := require_eq_ok.mp hopen
  rw [← pure_eq_ok.mp h]
  split
  · refine ⟨index', n', false, hopen, hfind, ?_⟩
    simp [hnodes]
  · refine ⟨index', n', true, hopen, hfind, ?_⟩
    rw [hnodes, hretired]

end Topology

/-! ### Operations that take routes and nodes out -/

namespace TopologyInv

open Goav.Pipeline.Topology

variable {P : Target → Prop} {t t' : Topology}

lemma targets_disconnectRoutes {policy : RoutePolicy} {label : String} {dests : List ℕ}
    {routes : List NodeRoute} {τ : Target}
    (h : τ ∈ (disconnectRoutes policy label dests routes).1.flatMap NodeRoute.destinations) :
    τ ∈ routes.flatMap NodeRoute.destinations := by
  simp only [disconnectRoutes, mem_flatMap] at h ⊢
  obtain ⟨kept, ⟨route, hroute, hkept⟩, hτ⟩ := h
  refine ⟨route, hroute, ?_⟩
  split at hkept
  · rwa [← mem_singleton.mp hkept]
  · have := mem_dropTargets.mp (mem_flatMap.mpr ⟨kept, hkept, hτ⟩)
    simpa using this.1

theorem disconnect {route : Route} (hinv : TopologyInv P t) (h : t.disconnect route = .ok t') :
    TopologyInv P t' := by
  obtain ⟨policy, origin, src, dests, hfind, rfl⟩ := disconnect_eq_ok h
  obtain ⟨-, hsrc, hactive⟩ := findActive_eq_ok hfind
  refine Shrinks.rebuild (f := fun i n => if i = origin then
    { n with routes := (disconnectRoutes policy route.label dests n.routes).1 } else n) ?_ hinv
  constructor
  case nodes =>
    intro i
    by_cases hi : origin = i
    · subst hi
      simp [hsrc]
    · simp [hi, Ne.symm hi]
  case identity =>
    intro i n
    split <;> rfl
  case targets =>
    intro i n τ hτ
    split at hτ
    · exact targets_disconnectRoutes hτ
    · exact hτ
  case inactive =>
    intro i n hn
    split <;> exact hn
  case routeless =>
    intro _ i n hn hact
    split_ifs at hact ⊢
    · simp [hn hact, disconnectRoutes]
    · exact hn hact
  case closed => exact id
  case targeted =>
    intro _ i n _ τ _ m _ huse
    split <;> exact huse
  case named =>
    intro name i hname
    refine ⟨hname, fun _ m _ _ huse => ?_⟩
    split <;> exact huse
  all_goals rfl

lemma identity_detachNode (index i : ℕ) (n : GraphNode) :
    (detachNode index i n).identity = n.identity := by
  unfold detachNode
  by_cases hi : i = index <;> by_cases ha : n.active = true <;> simp [hi, ha, identity]

lemma active_detachNode (index i : ℕ) (n : GraphNode) : (detachNode index i n).active = n.active := by
  unfold detachNode
  by_cases hi : i = index <;> by_cases ha : n.active = true <;> simp [hi, ha]

lemma routes_detachNode (index i : ℕ) (n : GraphNode) :
    (detachNode index i n).routes =
      if n.active then dropTargets (· == index) n.routes else n.routes := by
  unfold detachNode
  by_cases hi : i = index <;> by_cases ha : n.active = true <;> simp [hi, ha]

lemma inUse_detachNode {index i : ℕ} {n : GraphNode} (hi : i ≠ index) (h : n.InUse) :
    (detachNode index i n).InUse := by
  unfold detachNode
  simpa [hi, h.1, GraphNode.InUse] using h

/-- A removal leaves no route to the node: all nodes with routes are active. -/
theorem remove {ref : String} (hinv : TopologyInv P t) (h : t.remove ref = .ok t') :
    TopologyInv P t' := by
  obtain ⟨index, n, retires, hopen, hfind, rfl⟩ := remove_eq_ok h
  obtain ⟨hindex, hn, -⟩ := findActive_eq_ok hfind
  refine Shrinks.rebuild (f := fun i n => if i = index ∧ retires = true then
    (detachNode index i n).retired else detachNode index i n) ?_ hinv
  constructor
  case nodes => exact fun i => getElem?_mapIdx
  case identity =>
    intro i n
    split <;> simp [identity_detachNode]
  case targets =>
    intro i n τ hτ
    split at hτ
    · simp at hτ
    · rw [targets, routes_detachNode] at hτ
      split at hτ
      · exact (mem_dropTargets.mp hτ).1
      · exact hτ
  case inactive =>
    intro i n hn
    split
    · rfl
    · rw [active_detachNode, hn]
  case routeless =>
    intro _ i n hn hact
    split_ifs at hact ⊢
    · rfl
    · rw [active_detachNode] at hact
      simp [routes_detachNode, hact, hn hact]
  case closed => exact id
  case targeted =>
    intro _ i n hn τ hτ m hm huse
    have hne : τ.index ≠ index := by
      split at hτ
      · simp at hτ
      rw [targets, routes_detachNode] at hτ
      split at hτ
      · simpa using (mem_dropTargets.mp hτ).2
      · rename_i hact
        rw [hinv.routes.routeless hopen hn (by simpa using hact)] at hτ
        simp at hτ
    simpa [hne] using inUse_detachNode hne huse
  case named =>
    intro name i hname
    have hname' : name ≠ ref ∧ t.index name = some i := by
      by_cases heq : name = ref
      · simp [heq] at hname
      · exact ⟨heq, by simpa [heq] using hname⟩
    refine ⟨hname'.2, fun _ m hm hmn huse => ?_⟩
    have hne : i ≠ index := by
      rintro rfl
      -- the node has one name
      obtain ⟨n', hn', hnn', -⟩ := hinv.routes.named hindex
      rw [hm] at hn'
      exact hname'.1 (hmn.symm.trans ((congrArg GraphNode.name (some.inj hn')).trans hnn'))
    simpa [hne] using inUse_detachNode hne huse
  all_goals rfl

lemma not_inUse_of_retiring {n : GraphNode} (h : n.retiring = true) : ¬ n.InUse := by
  simp [GraphNode.InUse, h]

theorem retireLocked (hinv : TopologyInv P t) (index : ℕ) : TopologyInv P (t.retireLocked index) := by
  unfold Topology.retireLocked
  split
  swap
  · exact hinv
  rename_i n hn
  split
  swap
  · exact hinv
  rename_i hretiring
  refine Shrinks.rebuild (f := fun i n => if i = index then n.retired else n) ?_ hinv
  -- what is in use is not the retiring node
  have hother {i : ℕ} {m : GraphNode} (hm : t.nodes[i]? = some m) (huse : m.InUse) : i ≠ index := by
    rintro rfl
    rw [hn] at hm
    exact not_inUse_of_retiring hretiring.1 (some.inj hm ▸ huse)
  constructor
  case nodes =>
    intro i
    by_cases hi : index = i
    · simp [hi]
    · simp [hi, Ne.symm hi]
  case identity =>
    intro i n
    split <;> simp
  case targets =>
    intro i n τ hτ
    split at hτ
    · simp at hτ
    · exact hτ
  case inactive =>
    intro i n hn
    split
    · rfl
    · exact hn
  case routeless =>
    intro _ i n hn hact
    split_ifs at hact ⊢
    · rfl
    · exact hn hact
  case closed => exact id
  case targeted =>
    intro _ i n _ τ _ m hm huse
    simpa [hother hm huse] using huse
  case named =>
    intro name i hname
    refine ⟨hname, fun _ m hm _ huse => ?_⟩
    simpa [hother hm huse] using huse
  all_goals rfl

lemma targets_retireMember {d : ℕ} {left : ℕ → Bool} {b : GraphNode} {τ : Target}
    (h : τ ∈ (retireMember d left b).targets) : τ ∈ b.targets ∧ left τ.index = false := by
  by_cases hret : retires d b = true
  · simp [retireMember, hret, targets, retired] at h
  · rw [retireMember, if_neg hret] at h
    exact mem_dropTargets.mp h

section

variable (hinv : TopologyInv P t)
include hinv

theorem retireFaultDomain (d : ℕ) : TopologyInv P (t.retireFaultDomain d) := by
  refine Shrinks.rebuild (f := fun _ => retireMember d fun i => t.nodes[i]?.any (retires d)) ?_ hinv
  constructor
  case nodes => exact fun i => getElem?_map ..
  case identity =>
    intro i n
    unfold retireMember
    split <;> rfl
  case targets =>
    intro i n τ hτ
    exact (targets_retireMember hτ).1
  case inactive =>
    intro i n hn
    unfold retireMember
    split
    · rfl
    · exact hn
  case routeless =>
    intro _ i n hn hact
    unfold retireMember at hact ⊢
    split_ifs at hact ⊢
    · rfl
    · simp [hn hact, dropTargets]
  case closed => exact id
  case targeted =>
    intro _ i n _ τ hτ m hm huse
    have hstays : retires d m = false := by simpa [hm] using (targets_retireMember hτ).2
    simpa [retireMember, hstays, GraphNode.InUse] using huse
  case named =>
    intro name i hname
    obtain ⟨hold, hkept⟩ := filter_eq_some_iff.mp hname
    refine ⟨hold, fun _ m hm hmn huse => ?_⟩
    have hstays : retires d m = false := by simpa [hm, hmn] using hkept
    simpa [retireMember, hstays, GraphNode.InUse] using huse
  all_goals rfl

theorem run : TopologyInv P t.run := by
  unfold Topology.run
  split
  · exact hinv
  refine Shrinks.rebuild (f := fun _ n =>
    if n.active && n.kind != .source then { n with opened := true } else n) ?_ hinv
  constructor
  case nodes => exact fun i => getElem?_map ..
  case closed => exact id
  case named =>
    intro name i hname
    refine ⟨hname, fun _ m _ _ huse => ?_⟩
    split <;> exact huse
  case targeted =>
    intro _ i n _ τ _ m _ huse
    split <;> exact huse
  case identity | targets | inactive | routeless =>
    intros
    split at * <;> simp_all [identity, targets]
  all_goals rfl

theorem close : TopologyInv P t.close := by
  have hshrinks : Shrinks t t.close fun _ n =>
      if n.index.isSome then { n with active := false, retiring := true } else n := by
    constructor
    case nodes => exact fun i => getElem?_map ..
    case named =>
      intro name i hname
      exact ⟨hname, fun hc => by simp [Topology.close] at hc⟩
    case routeless | closed | targeted => simp [Topology.close]
    case identity | targets | inactive =>
      intros
      split at * <;> simp_all [identity, targets]
    all_goals rfl
  exact ⟨hshrinks.table hinv, hshrinks.domains hinv, hshrinks.routes hinv.routes,
    by simp [Topology.close]⟩

lemma of_flags (running draining : Bool) : TopologyInv P { t with running, draining } :=
  ⟨hinv.table, hinv.domains, ⟨hinv.routes.named, hinv.routes.inactive, hinv.routes.routeless,
    hinv.routes.routed, hinv.routes.connected⟩, hinv.snap⟩

end

/-! ### Connecting -/

def addRoute (origin : ℕ) (added : NodeRoute) (i : ℕ) (n : GraphNode) : GraphNode :=
  if origin = i then { n with routes := n.routes ++ [added] } else n

section addRoute

variable {origin i : ℕ} {added : NodeRoute} {n : GraphNode}

@[simp] lemma identity_addRoute : (addRoute origin added i n).identity = n.identity := by
  unfold addRoute
  split <;> rfl

@[simp] lemma domain_addRoute : (addRoute origin added i n).domain = n.domain :=
  congrArg NodeIdentity.domain identity_addRoute

@[simp] lemma active_addRoute : (addRoute origin added i n).active = n.active := by
  unfold addRoute
  split <;> rfl

@[simp] lemma inUse_addRoute : (addRoute origin added i n).InUse ↔ n.InUse := by
  unfold addRoute
  split <;> rfl

lemma targets_addRoute {τ : Target} (h : τ ∈ (addRoute origin added i n).targets) :
    τ ∈ n.targets ∨ (i = origin ∧ τ ∈ added.destinations) := by
  unfold addRoute at h
  split at h
  · rename_i hi
    simp only [targets, flatMap_append, mem_append] at h
    exact h.imp id fun hτ => ⟨hi.symm, by simpa using hτ⟩
  · exact .inl h

end addRoute

/-- A new route leads to nodes that are in use, and into the domain of its origin if it has one. -/
theorem connect {route : Route} (hinv : TopologyInv P t) (h : t.connect route = .ok t')
    (hP : ∀ {src name τ}, name ∈ route.destinations → t.destination src name = .ok τ → P τ) :
    TopologyInv P t' := by
  obtain ⟨policy, origin, src, dests, hfind, hdests, rfl⟩ := connect_eq_ok h
  obtain ⟨-, hsrc, hactive⟩ := findActive_eq_ok hfind
  generalize hroute : (⟨dests, policy, route.label⟩ : NodeRoute) = added
  have hnodes (i : ℕ) : (t.nodes.modify origin fun n =>
      { n with routes := n.routes ++ [added] })[i]? = t.nodes[i]?.map (addRoute origin added i) :=
    getElem?_modify ..
  have hids : (t.nodes.modify origin fun n => { n with routes := n.routes ++ [added] }).map
      identity = t.identities := by
    refine ext_getElem? fun i => ?_
    rw [getElem?_map, hnodes, Topology.getElem?_identities, Option.map_map]
    congr 1
    funext n
    exact identity_addRoute
  have htable := hinv.table
  have hdomains := hinv.domains
  rw [← hids] at htable hdomains
  refine TopologyInv.rebuildLocked htable hdomains ?_
  have hnew {i : ℕ} {n : GraphNode} (hn : t.nodes[i]? = some n) :=
    (hnodes i).trans (congrArg (Option.map (addRoute origin added i)) hn)
  constructor
  case named =>
    intro name i hname
    obtain ⟨n, hn, hnn, huse⟩ := hinv.routes.named hname
    exact ⟨_, hnew hn, (congrArg NodeIdentity.name identity_addRoute).trans hnn,
      fun hc => inUse_addRoute.mpr (huse hc)⟩
  case inactive =>
    intro i n' hn' hfin
    obtain ⟨n, hn, rfl⟩ := Option.map_eq_some_iff.mp ((hnodes i).symm.trans hn')
    rw [active_addRoute]
    exact hinv.routes.inactive hn ((congrArg NodeIdentity.finalized identity_addRoute).symm.trans hfin)
  case routeless =>
    intro hc i n' hn' hact
    obtain ⟨n, hn, rfl⟩ := Option.map_eq_some_iff.mp ((hnodes i).symm.trans hn')
    rw [active_addRoute] at hact
    have hi : origin ≠ i := by
      rintro rfl
      rw [hsrc] at hn
      rw [← Option.some.inj hn, hactive] at hact
      simp at hact
    rw [addRoute, if_neg hi]
    exact hinv.routes.routeless hc hn hact
  case routed =>
    intro i n' hn' τ hτ
    obtain ⟨n, hn, rfl⟩ := Option.map_eq_some_iff.mp ((hnodes i).symm.trans hn')
    obtain ⟨m, hm, hid, hname, hdomain, huse⟩ : ∃ m, t.nodes[τ.index]? = some m ∧ m.id = τ.id ∧
        m.name = τ.name ∧ (n.domain ≠ none → m.domain = n.domain) ∧
        (t.closed = false → m.InUse) := by
      rcases targets_addRoute hτ with hold | ⟨rfl, hadded⟩
      · exact hinv.routes.routed hn τ hold
      · -- a target of the new route was found by its name
        rw [hsrc] at hn
        cases hn
        obtain ⟨name, -, hdest⟩ := hdests τ (by simpa [← hroute] using hadded)
        obtain ⟨dst, hindex, hdst, -, hid, hname, hdomain⟩ := destination_eq_ok hdest
        obtain ⟨n', hn', hnn', huse⟩ := hinv.routes.named hindex
        rw [hdst] at hn'
        cases hn'
        exact ⟨dst, hdst, hid.symm, hnn'.trans hname.symm, hdomain, huse⟩
    refine ⟨_, hnew hm, (congrArg NodeIdentity.id identity_addRoute).trans hid,
      (congrArg NodeIdentity.name identity_addRoute).trans hname, fun hd => ?_,
      fun hc => inUse_addRoute.mpr (huse hc)⟩
    rw [domain_addRoute] at hd ⊢
    rw [domain_addRoute]
    exact hdomain hd
  case connected =>
    intro i n' hn' τ hτ
    obtain ⟨n, hn, rfl⟩ := Option.map_eq_some_iff.mp ((hnodes i).symm.trans hn')
    rcases targets_addRoute hτ with hold | ⟨rfl, hadded⟩
    · exact hinv.routes.connected hn τ hold
    · obtain ⟨name, hname, hdest⟩ := hdests τ (by simpa [← hroute] using hadded)
      exact hP hname hdest

/-! ### Adding nodes -/

def newIndex (t : Topology) : ℕ := t.reusable.getLast?.getD t.nodes.length

/-- At the index of the next node is nothing, or a node that is finalized and has given it back. -/
lemma newIndex_cases (hinv : TopologyInv P t) :
    (t.reusable = [] ∧ newIndex t = t.nodes.length) ∨
      (newIndex t ∈ t.reusable ∧ newIndex t ∉ t.reusable.dropLast ∧
        t.reusable.getLast? = some (newIndex t)) := by
  unfold newIndex
  cases hlast : t.reusable.getLast? with
  | none => exact .inl ⟨getLast?_eq_none_iff.mp hlast, rfl⟩
  | some i =>
    obtain ⟨front, hfront⟩ := getLast?_eq_some_iff.mp hlast
    have hnodup := hinv.table.nodup
    rw [hfront, nodup_append] at hnodup
    refine .inr ⟨mem_of_getLast? hlast, fun hi => ?_, rfl⟩
    rw [hfront, dropLast_concat] at hi
    exact hnodup.2.2 i hi i (by simp) rfl

lemma getElem?_install (hinv : TopologyInv P t) (n : ℕ → GraphNode) (j : ℕ) :
    (t.install n).nodes[j]? = if j = newIndex t then some (n (newIndex t)) else t.nodes[j]? := by
  unfold install
  rcases hinv.newIndex_cases with ⟨hnil, hlen⟩ | ⟨hmem, -, hlast⟩
  · rw [hnil, hlen]
    by_cases hj : j = t.nodes.length
    · simp [hj]
    · rw [if_neg hj]
      rcases Nat.lt_or_gt_of_ne hj with hlt | hgt
      · exact List.getElem?_append_left hlt
      · rw [List.getElem?_eq_none (by simp; omega), List.getElem?_eq_none (by omega)]
  · rw [hlast]
    obtain ⟨m, hm, -⟩ := hinv.table.reusable hmem
    rw [Topology.getElem?_identities] at hm
    obtain ⟨n', hn', -⟩ := map_eq_some_iff.mp hm
    obtain ⟨hlt, -⟩ := List.getElem?_eq_some_iff.mp hn'
    by_cases hj : j = newIndex t
    · simp [hj, hlt]
    · simp [hj, List.getElem?_set_ne (Ne.symm hj)]

lemma add_eq_ok {name : String} {kind : NodeKind} {admitter : Bool} (h : t.add name kind admitter = .ok t') :
    t.closed = false ∧ t.index name = none ∧ ∃ opened sources,
      t' = Topology.rebuildLocked { t.install (fun i =>
          { name, kind, admitter, id := t.nextNodeID + 1, index := some i, opened }) with
        nextNodeID := t.nextNodeID + 1
        index := update t.index name (some (newIndex t))
        sources } := by
  obtain ⟨_, hopen, h⟩ := bind_eq_ok.mp h
  obtain ⟨-, -, h⟩ := bind_eq_ok.mp h
  obtain ⟨-, -, h⟩ := bind_eq_ok.mp h
  obtain ⟨_, hfree, h⟩ := bind_eq_ok.mp h
  exact ⟨require_eq_ok.mp hopen, require_eq_ok.mp hfree, _, _, (pure_eq_ok.mp h).symm⟩

section

variable (hinv : TopologyInv P t)
include hinv

lemma identities_install (n : ℕ → GraphNode) (j : ℕ) :
    (t.install n).identities[j]? =
      if j = newIndex t then some (n (newIndex t)).identity else t.identities[j]? := by
  rw [Topology.getElem?_identities, hinv.getElem?_install, Topology.getElem?_identities]
  split <;> rfl

lemma finalized_of_newIndex {n : NodeIdentity} (hn : t.identities[newIndex t]? = some n) :
    n.finalized = true := by
  rcases hinv.newIndex_cases with ⟨-, hlen⟩ | ⟨hmem, -⟩
  · rw [hlen, getElem?_eq_none (by simp [Topology.identities])] at hn
    simp at hn
  · obtain ⟨m, hm, -, hfin⟩ := hinv.table.reusable hmem
    rw [hn] at hm
    exact some.inj hm ▸ hfin

lemma table_install {n : ℕ → GraphNode} (hid : ∀ i, (n i).id = t.nextNodeID + 1)
    (hindex : ∀ i, (n i).index = some i) :
    TableInv (t.install n).identities (t.install n).reusable (t.nextNodeID + 1) := by
  have hget := hinv.identities_install n
  have hreusable : ∀ i ∈ (t.install n).reusable, i ∈ t.reusable ∧ i ≠ newIndex t := by
    intro i hi
    unfold install at hi
    rcases hinv.newIndex_cases with ⟨hnil, -⟩ | ⟨-, hnot, hlast⟩
    · simp [hnil] at hi
    · simp only [hlast] at hi
      exact ⟨(dropLast_sublist _).subset hi, fun heq => hnot (heq ▸ hi)⟩
  constructor
  case bound =>
    intro i m hm
    rw [hget] at hm
    split at hm
    · rw [← some.inj hm]
      exact Nat.le_of_eq (hid _)
    · exact Nat.le_succ_of_le (hinv.table.bound hm)
  case distinct =>
    intro i j m m' hm hm' heq
    rw [hget] at hm hm'
    split at hm <;> split at hm'
    · simp_all
    · have := hinv.table.bound hm'
      have hnew := congrArg NodeIdentity.id (some.inj hm)
      simp only [identity_id, hid] at hnew
      omega
    · have := hinv.table.bound hm
      have hnew := congrArg NodeIdentity.id (some.inj hm')
      simp only [identity_id, hid] at hnew
      omega
    · exact hinv.table.distinct hm hm' heq
  case place =>
    intro i m hm
    rw [hget] at hm
    split at hm
    · rename_i hi
      rw [← some.inj hm, hi]
      exact .inr (hindex _)
    · exact hinv.table.place hm
  case reusable =>
    intro i hi
    obtain ⟨hold, hne⟩ := hreusable i hi
    rw [hget, if_neg hne]
    exact hinv.table.reusable hold
  case nodup =>
    unfold install
    split
    · exact hinv.table.nodup.sublist (dropLast_sublist _)
    · exact hinv.table.nodup

lemma domains_install {n : ℕ → GraphNode} (hid : ∀ i, (n i).id = t.nextNodeID + 1)
    (hdomain : ∀ i, (n i).domain = none) (hfin : ∀ i, (n i).finalized = false) :
    DomainInv (t.install n).identities t.allDomains t.finalizedIDs (t.nextNodeID + 1) := by
  have hget := hinv.identities_install n
  have hopen (d : ℕ) : openMembers (t.install n).identities d = openMembers t.identities d := by
    refine countP_eq_of_any fun j => ?_
    rw [hget]
    split_ifs with hj
    · cases hold : t.identities[newIndex t]? with
      | none => simp [hj, hold, hdomain]
      | some m => simp [hj, hold, hdomain, hinv.finalized_of_newIndex hold]
    · rfl
  constructor
  case member =>
    intro i d m hm hd
    rw [hget] at hm
    split at hm
    · rw [← some.inj hm] at hd
      simp [hdomain] at hd
    · exact hinv.domains.member hm hd
  case own =>
    intro i d m D hm hD hmem
    rw [hget] at hm
    split at hm
    · have := (hinv.domains.known hD hmem).1
      rw [← some.inj hm, identity_id, hid] at this
      omega
    · exact hinv.domains.own hm hD hmem
  case known =>
    intro d id D hD hmem
    obtain ⟨hle, hknown⟩ := hinv.domains.known hD hmem
    refine ⟨Nat.le_succ_of_le hle, ?_⟩
    rcases hknown with hlog | ⟨i, m, hm, rfl⟩
    · exact .inl hlog
    · by_cases hi : i = newIndex t
      · subst hi
        exact .inl ((hinv.domains.finalized hm).mp (hinv.finalized_of_newIndex hm))
      · exact .inr ⟨i, m, by rw [hget, if_neg hi, hm], rfl⟩
  case disjoint => exact fun hD hD' => hinv.domains.disjoint hD hD'
  case finalized =>
    intro i m hm
    rw [hget] at hm
    split at hm
    · rw [← some.inj hm, identity_finalized, identity_id, hfin, hid]
      simp only [Bool.false_eq_true, false_iff]
      intro hlog
      have := hinv.domains.bound hlog
      omega
    · exact hinv.domains.finalized hm
  case bound => exact fun hlog => Nat.le_succ_of_le (hinv.domains.bound hlog)
  case remaining =>
    intro d D hD
    rw [hopen]
    exact hinv.domains.remaining hD
  case closes => exact fun hD => hinv.domains.closes hD

lemma ne_newIndex {i : ℕ} {n : GraphNode} (hn : t.nodes[i]? = some n) (huse : n.InUse) :
    i ≠ newIndex t := by
  rintro rfl
  have hfin := hinv.finalized_of_newIndex (Topology.identity_at hn)
  have := hinv.routes.inactive hn hfin
  rw [huse.1] at this
  simp at this

theorem add {name : String} {kind : NodeKind} {admitter : Bool}
    (h : t.add name kind admitter = .ok t') : TopologyInv P t' := by
  obtain ⟨hopen, hfree, opened, sources, rfl⟩ := add_eq_ok h
  generalize hn : (fun i : ℕ => GraphNode.mk name kind admitter (t.nextNodeID + 1) (some i) true false
    false opened [] none) = n
  have hget := hinv.getElem?_install n
  have hsame : (t.install n).closed = t.closed ∧ (t.install n).allDomains = t.allDomains ∧
      (t.install n).finalizedIDs = t.finalizedIDs := by
    unfold install
    split <;> exact ⟨rfl, rfl, rfl⟩
  have htable := hinv.table_install (n := n) (by simp [← hn]) (by simp [← hn])
  have hdomains := hinv.domains_install (n := n) (by simp [← hn]) (by simp [← hn]) (by simp [← hn])
  rw [← hsame.2.1, ← hsame.2.2] at hdomains
  refine TopologyInv.rebuildLocked htable hdomains ?_
  constructor
  case named =>
    intro name' i hname
    change update t.index name (some (newIndex t)) name' = some i at hname
    by_cases heq : name' = name
    · subst heq
      rw [update_self] at hname
      cases hname
      exact ⟨_, (hget _).trans (if_pos rfl), by simp [← hn], fun _ => by simp [← hn, GraphNode.InUse]⟩
    · rw [update_of_ne heq] at hname
      obtain ⟨m, hm, hmn, huse⟩ := hinv.routes.named hname
      exact ⟨m, (hget i).trans ((if_neg (hinv.ne_newIndex hm (huse hopen))).trans hm), hmn,
        fun _ => huse hopen⟩
  case inactive =>
    intro i m hm hfin
    have hm := (hget i).symm.trans hm
    split at hm
    · rw [← some.inj hm] at hfin
      simp [← hn] at hfin
    · exact hinv.routes.inactive hm hfin
  case routeless =>
    intro _ i m hm hact
    have hm := (hget i).symm.trans hm
    split at hm
    · rw [← some.inj hm] at hact
      simp [← hn] at hact
    · exact hinv.routes.routeless hopen hm hact
  case routed =>
    intro i m hm τ hτ
    have hm := (hget i).symm.trans hm
    split at hm
    · rw [← some.inj hm] at hτ
      simp [← hn, GraphNode.targets] at hτ
    · obtain ⟨m', hm', hid, hname, hdomain, huse⟩ := hinv.routes.routed hm τ hτ
      exact ⟨m', (hget _).trans ((if_neg (hinv.ne_newIndex hm' (huse hopen))).trans hm'), hid, hname,
        hdomain, fun _ => huse hopen⟩
  case connected =>
    intro i m hm τ hτ
    have hm := (hget i).symm.trans hm
    split at hm
    · rw [← some.inj hm] at hτ
      simp [← hn, GraphNode.targets] at hτ
    · exact hinv.routes.connected hm τ hτ

end

end TopologyInv

end Goav.Pipeline
