import Goav.Pipeline.TopologySteps

/-!
The operations on the fault domains of a topology keep its invariant: a new domain, and the
finalization of a node, which gives its index back and may be the last of its domain.
-/

namespace Goav.Pipeline

open Goav.Lib List GraphNode

namespace TopologyInv

open Goav.Pipeline.Topology

variable {P : Target → Prop} {t t' : Topology}

/-! ### New domains -/

def Eligible (t : Topology) (i : ℕ) : Prop :=
  ∃ n, t.nodes[i]? = some n ∧ n.active = true ∧ n.domain = none

lemma memberIndex_eq_ok {set : List ℕ} {ref : String} {i : ℕ} (h : t.memberIndex set ref = .ok i) :
    Eligible t i ∧ i ∉ set := by
  unfold memberIndex at h
  split at h
  · simp at h
  rename_i j b hfind
  split at h
  · simp at h
  · rename_i hgood
    cases h
    simp only [not_or, Bool.not_eq_false, not_not] at hgood
    exact ⟨⟨b, (find_eq_some hfind).2, hgood.1, hgood.2.2.2.1⟩, hgood.2.2.2.2⟩

variable {members : List String}

lemma memberIndices_eq_ok {set : List ℕ} (h : t.memberIndices members = .ok set) :
    set.Nodup ∧ set.length = members.length ∧ ∀ i ∈ set, Eligible t i := by
  -- the indices found so far come first
  have hgen : ∀ {members : List String} {front set : List ℕ}, front.Nodup →
      (∀ i ∈ front, Eligible t i) →
      members.foldlM (fun set ref => (t.memberIndex set ref).map fun i => set ++ [i]) front = .ok set →
      set.Nodup ∧ set.length = front.length + members.length ∧ ∀ i ∈ set, Eligible t i := by
    intro members
    induction members with
    | nil =>
      intro front set hnodup hfront h
      rw [foldlM_nil, pure_eq_ok] at h
      subst h
      exact ⟨hnodup, rfl, hfront⟩
    | cons ref members ih =>
      intro front set hnodup hfront h
      obtain ⟨front', hmap, h⟩ := bind_eq_ok.mp h
      obtain ⟨i, hi, rfl⟩ := map_eq_ok.mp hmap
      obtain ⟨helig, hnot⟩ := memberIndex_eq_ok hi
      have hconcat := hnodup.concat hnot
      rw [concat_eq_append] at hconcat
      obtain ⟨hnodup', hlen, hall⟩ := ih hconcat (fun j hj => (mem_append.mp hj).elim (hfront j)
          fun hj => (mem_singleton.mp hj) ▸ helig) h
      refine ⟨hnodup', ?_, hall⟩
      simp only [length_append, length_cons, length_nil] at hlen ⊢
      omega
  simpa using hgen nodup_nil (by simp) h

def isolateNode (set : List ℕ) (d i : ℕ) (n : GraphNode) : GraphNode :=
  if i ∈ set then { n with domain := some d } else n

lemma isolateFaults_eq_ok {id : String} (h : t.isolateFaults id members = .ok t') :
    ∃ set domains, t.closed = false ∧ set ≠ [] ∧ set.Nodup ∧ (∀ i ∈ set, Eligible t i) ∧
      t.unsafeSet set = false ∧
      t' = { t with
        allDomains := t.allDomains ++
          [{ id, members, remaining := set.length
             memberIDs := set.filterMap fun i => t.nodes[i]?.map GraphNode.id }]
        domains
        nodes := t.nodes.mapIdx (isolateNode set t.allDomains.length) } := by
  obtain ⟨_, hopen, h⟩ := bind_eq_ok.mp h
  obtain ⟨_, hsome, h⟩ := bind_eq_ok.mp h
  obtain ⟨-, -, h⟩ := bind_eq_ok.mp h
  obtain ⟨set, hset, h⟩ := bind_eq_ok.mp h
  obtain ⟨_, hsafe, h⟩ := bind_eq_ok.mp h
  obtain ⟨hnodup, hlen, helig⟩ := memberIndices_eq_ok hset
  have hmembers := (require_eq_ok.mp hsome).2
  refine ⟨set, t.domains ++ [t.allDomains.length], require_eq_ok.mp hopen, ?_, hnodup, helig,
    require_eq_ok.mp hsafe, ?_⟩
  · rintro rfl
    exact hmembers (length_eq_zero_iff.mp hlen.symm)
  · rw [← pure_eq_ok.mp h, hlen]
    rfl

lemma getElem?_concat_cases {D D' : FaultDomain} {l : List FaultDomain} {d : ℕ}
    (h : (l ++ [D'])[d]? = some D) : l[d]? = some D ∨ (d = l.length ∧ D = D') := by
  rcases Nat.lt_trichotomy d l.length with hlt | rfl | hgt
  · rw [getElem?_append_left hlt] at h
    exact .inl h
  · rw [getElem?_concat_length] at h
    exact .inr ⟨rfl, (Option.some.inj h).symm⟩
  · rw [getElem?_eq_none (by simp; omega)] at h
    simp at h

section isolate

variable {set : List ℕ}

lemma identities_isolate (j : ℕ) :
    ((t.nodes.mapIdx (isolateNode set t.allDomains.length)).map GraphNode.identity)[j]? =
      t.identities[j]?.map fun n =>
        if j ∈ set then { n with domain := some t.allDomains.length } else n := by
  rw [getElem?_map, getElem?_mapIdx, Topology.getElem?_identities, Option.map_map, Option.map_map]
  congr 1
  funext n
  unfold isolateNode
  by_cases hj : j ∈ set <;> simp [hj, identity]

lemma table_isolate (hinv : TopologyInv P t) :
    TableInv ((t.nodes.mapIdx (isolateNode set t.allDomains.length)).map GraphNode.identity)
      t.reusable t.nextNodeID := by
  have hold {j : ℕ} {n' : NodeIdentity} (h : ((t.nodes.mapIdx
      (isolateNode set t.allDomains.length)).map identity)[j]? = some n') :
      ∃ n, t.identities[j]? = some n ∧ n'.id = n.id ∧ n'.index = n.index := by
    rw [identities_isolate] at h
    obtain ⟨n, hn, rfl⟩ := Option.map_eq_some_iff.mp h
    refine ⟨n, hn, ?_⟩
    split <;> exact ⟨rfl, rfl⟩
  constructor
  case bound =>
    intro i n' hn'
    obtain ⟨n, hn, hid, -⟩ := hold hn'
    exact hid ▸ hinv.table.bound hn
  case distinct =>
    intro i j n' m' hn' hm' heq
    obtain ⟨n, hn, hnid, -⟩ := hold hn'
    obtain ⟨m, hm, hmid, -⟩ := hold hm'
    exact hinv.table.distinct hn hm (hnid.symm.trans (heq.trans hmid))
  case place =>
    intro i n' hn'
    obtain ⟨n, hn, -, hindex⟩ := hold hn'
    exact hindex ▸ hinv.table.place hn
  case reusable =>
    intro i hi
    obtain ⟨n, hn, hindex, hfin⟩ := hinv.table.reusable hi
    refine ⟨_, by rw [identities_isolate, hn]; rfl, ?_, ?_⟩
    · split <;> exact hindex
    · split <;> exact hfin
  case nodup => exact hinv.table.nodup

variable {i d : ℕ}

lemma Eligible.identity (h : Eligible t i) (hinv : TopologyInv P t) :
    ∃ n, t.identities[i]? = some n ∧ n.domain = none ∧ n.finalized = false := by
  obtain ⟨n, hn, hactive, hdomain⟩ := h
  refine ⟨n.identity, Topology.identity_at hn, hdomain, ?_⟩
  by_contra hfin
  have := hinv.routes.inactive hn (by simpa using hfin)
  rw [hactive] at this
  simp at this

lemma mem_memberIDs (helig : ∀ i ∈ set, Eligible t i) {id : ℕ} :
    (id ∈ set.filterMap fun i => t.nodes[i]?.map GraphNode.id) ↔
      ∃ i ∈ set, ∃ n, t.identities[i]? = some n ∧ n.id = id := by
  simp only [mem_filterMap]
  constructor
  · rintro ⟨i, hi, hid⟩
    obtain ⟨n, hn, rfl⟩ := Option.map_eq_some_iff.mp hid
    exact ⟨i, hi, n.identity, Topology.identity_at hn, rfl⟩
  · rintro ⟨i, hi, m, hm, rfl⟩
    obtain ⟨n, hn, -⟩ := helig i hi
    rw [Topology.getElem?_identities, hn] at hm
    exact ⟨i, hi, by rw [hn, ← Option.some.inj hm]; rfl⟩

section

variable (hinv : TopologyInv P t)
include hinv

lemma domain_ne_length {n : NodeIdentity} (hn : t.identities[i]? = some n) :
    n.domain ≠ some t.allDomains.length := by
  intro hd
  obtain ⟨D, hD, -⟩ := hinv.domains.member hn hd
  simp at hD

lemma domain_eq_none (helig : ∀ i ∈ set, Eligible t i) {n : NodeIdentity}
    (hn : t.identities[i]? = some n) (hi : i ∈ set) : n.domain = none := by
  obtain ⟨m, hm, hdomain, -⟩ := (helig i hi).identity hinv
  rw [hn] at hm
  exact Option.some.inj hm ▸ hdomain

lemma openMembers_isolate (hnodup : set.Nodup) (helig : ∀ i ∈ set, Eligible t i) (d : ℕ) :
    openMembers ((t.nodes.mapIdx (isolateNode set t.allDomains.length)).map GraphNode.identity) d =
      if d = t.allDomains.length then set.length else openMembers t.identities d := by
  split_ifs with hd
  · subst hd
    refine countP_eq_length hnodup fun j => ?_
    rw [identities_isolate]
    by_cases hj : j ∈ set
    · obtain ⟨n, hn, -, hfin⟩ := (helig j hj).identity hinv
      simp [hn, hj, hfin]
    · cases hn : t.identities[j]? with
      | none => simp [hj]
      | some n => simp [hj, hinv.domain_ne_length hn]
  · refine countP_eq_of_any fun j => ?_
    rw [identities_isolate]
    cases hn : t.identities[j]? with
    | none => rfl
    | some n =>
      by_cases hj : j ∈ set
      · simp [hj, hinv.domain_eq_none helig hn hj, Ne.symm hd]
      · simp [hj]

lemma domains_isolate (hne : set ≠ []) (hnodup : set.Nodup) (helig : ∀ i ∈ set, Eligible t i)
    {D' : FaultDomain} (hremaining : D'.remaining = set.length) (hcloses : D'.closes = 0)
    (hids : D'.memberIDs = set.filterMap fun i => t.nodes[i]?.map GraphNode.id) :
    DomainInv ((t.nodes.mapIdx (isolateNode set t.allDomains.length)).map GraphNode.identity)
      (t.allDomains ++ [D']) t.finalizedIDs t.nextNodeID := by
  have hmem {id : ℕ} : id ∈ D'.memberIDs ↔ ∃ i ∈ set, ∃ n, t.identities[i]? = some n ∧ n.id = id :=
    hids ▸ mem_memberIDs helig
  constructor
  case member =>
    intro i d n' hn' hd
    rw [identities_isolate] at hn'
    obtain ⟨n, hn, rfl⟩ := Option.map_eq_some_iff.mp hn'
    by_cases hi : i ∈ set
    · rw [if_pos hi] at hd ⊢
      cases hd
      exact ⟨D', List.getElem?_concat_length, hmem.mpr ⟨i, hi, n, hn, rfl⟩⟩
    · rw [if_neg hi] at hd ⊢
      obtain ⟨D, hD, hid⟩ := hinv.domains.member hn hd
      obtain ⟨hlt, -⟩ := List.getElem?_eq_some_iff.mp hD
      exact ⟨D, (List.getElem?_append_left hlt).trans hD, hid⟩
  case own =>
    intro i d n' D hn' hD hid
    rw [identities_isolate] at hn'
    obtain ⟨n, hn, rfl⟩ := Option.map_eq_some_iff.mp hn'
    have hnid : n.id ∈ D.memberIDs := by
      split at hid <;> exact hid
    rcases getElem?_concat_cases hD with hD | ⟨rfl, rfl⟩
    · have hdomain := hinv.domains.own hn hD hnid
      have hi : i ∉ set := fun hi => by simp [hinv.domain_eq_none helig hn hi] at hdomain
      rw [if_neg hi]
      exact hdomain
    · obtain ⟨k, hk, m, hm, hmid⟩ := hmem.mp hnid
      obtain rfl := hinv.table.distinct hm hn hmid
      rw [if_pos hk]
  case known =>
    intro d id D hD hid
    have hnew : ∀ {i : ℕ} {n : NodeIdentity}, t.identities[i]? = some n → n.id = id →
        ∃ (j : ℕ) (m : NodeIdentity),
        ((t.nodes.mapIdx (isolateNode set t.allDomains.length)).map identity)[j]? = some m ∧
          m.id = id := by
      intro i n hn hnid
      refine ⟨i, _, by rw [identities_isolate, hn]; rfl, ?_⟩
      split <;> exact hnid
    rcases getElem?_concat_cases hD with hD | ⟨rfl, rfl⟩
    · obtain ⟨hle, hknown⟩ := hinv.domains.known hD hid
      exact ⟨hle, hknown.imp_right fun ⟨i, n, hn, hnid⟩ => hnew hn hnid⟩
    · obtain ⟨k, -, m, hm, hmid⟩ := hmem.mp hid
      exact ⟨hmid ▸ hinv.table.bound hm, .inr (hnew hm hmid)⟩
  case disjoint =>
    -- a member of the new domain was in none
    have hnone {d id : ℕ} {D : FaultDomain} (hD : t.allDomains[d]? = some D)
        (hid : id ∈ D.memberIDs) (hid' : id ∈ D'.memberIDs) : False := by
      obtain ⟨k, hk, m, hm, rfl⟩ := hmem.mp hid'
      have := hinv.domains.own hm hD hid
      simp [hinv.domain_eq_none helig hm hk] at this
    intro d d' id D D'' hD hD'' hid hid''
    rcases getElem?_concat_cases hD with hold | ⟨rfl, hnew⟩ <;>
      rcases getElem?_concat_cases hD'' with hold' | ⟨rfl, hnew'⟩
    · exact hinv.domains.disjoint hold hold' hid hid''
    · exact (hnone hold hid (hnew' ▸ hid'')).elim
    · exact (hnone hold' hid'' (hnew ▸ hid)).elim
    · rfl
  case finalized =>
    intro i n' hn'
    rw [identities_isolate] at hn'
    obtain ⟨n, hn, rfl⟩ := Option.map_eq_some_iff.mp hn'
    have hold := hinv.domains.finalized hn
    split <;> exact hold
  case bound => exact hinv.domains.bound
  case remaining =>
    intro d D hD
    rw [hinv.openMembers_isolate hnodup helig]
    rcases getElem?_concat_cases hD with hD | ⟨rfl, rfl⟩
    · obtain ⟨hlt, -⟩ := List.getElem?_eq_some_iff.mp hD
      rw [if_neg (by omega)]
      exact hinv.domains.remaining hD
    · rw [if_pos rfl]
      exact hremaining
  case closes =>
    intro d D hD
    rcases getElem?_concat_cases hD with hD | ⟨rfl, rfl⟩
    · exact hinv.domains.closes hD
    · have := List.length_pos_iff.mpr hne
      rw [hcloses, if_neg (by omega)]

end

variable {n : GraphNode}

lemma identity_isolateNode : (isolateNode set d i n).id = n.id ∧ (isolateNode set d i n).name = n.name ∧
      (isolateNode set d i n).finalized = n.finalized ∧
      (isolateNode set d i n).active = n.active ∧ (isolateNode set d i n).routes = n.routes ∧
      ((isolateNode set d i n).InUse ↔ n.InUse) := by
  unfold isolateNode
  split <;> exact ⟨rfl, rfl, rfl, rfl, rfl, Iff.rfl⟩

lemma isolateNode_of_notMem (hi : i ∉ set) : isolateNode set d i n = n :=
  if_neg hi

lemma mem_of_safe (hsafe : t.unsafeSet set = false) {τ : Target}
    (hn : t.nodes[i]? = some n) (hτ : τ ∈ n.targets) (hi : i ∈ set) : τ.index ∈ set := by
  unfold unsafeSet at hsafe
  rw [any_eq_false] at hsafe
  have hnode := hsafe (n, i) (mk_mem_zipIdx_iff_getElem?.mpr hn)
  simp only [Bool.not_eq_true, any_eq_false, decide_eq_false_iff_not, not_or, not_and] at hnode
  exact not_not.mp ((hnode τ hτ).1 hi)

end isolate

theorem isolateFaults {id : String} (hinv : TopologyInv P t)
    (h : t.isolateFaults id members = .ok t') : TopologyInv P t' := by
  obtain ⟨set, domains, -, hne, hnodup, helig, hsafe, rfl⟩ := isolateFaults_eq_ok h
  refine ⟨hinv.table_isolate, hinv.domains_isolate hne hnodup helig rfl rfl rfl, ?_, hinv.snap⟩
  have hnodes (i : ℕ) : (t.nodes.mapIdx (isolateNode set t.allDomains.length))[i]? =
      t.nodes[i]?.map (isolateNode set t.allDomains.length i) := getElem?_mapIdx
  have hnew {i : ℕ} {n : GraphNode} (hn : t.nodes[i]? = some n) :=
    (hnodes i).trans (congrArg (Option.map (isolateNode set t.allDomains.length i)) hn)
  constructor
  case named =>
    intro name i hname
    obtain ⟨n, hn, hnn, huse⟩ := hinv.routes.named hname
    exact ⟨_, hnew hn, identity_isolateNode.2.1.trans hnn,
      fun hc => identity_isolateNode.2.2.2.2.2.mpr (huse hc)⟩
  case inactive =>
    intro i n' hn' hfin
    obtain ⟨n, hn, rfl⟩ := Option.map_eq_some_iff.mp ((hnodes i).symm.trans hn')
    rw [identity_isolateNode.2.2.2.1]
    exact hinv.routes.inactive hn (identity_isolateNode.2.2.1.symm.trans hfin)
  case routeless =>
    intro hc i n' hn' hact
    obtain ⟨n, hn, rfl⟩ := Option.map_eq_some_iff.mp ((hnodes i).symm.trans hn')
    rw [identity_isolateNode.2.2.2.2.1]
    exact hinv.routes.routeless hc hn (identity_isolateNode.2.2.2.1.symm.trans hact)
  case routed =>
    intro i n' hn' τ hτ
    obtain ⟨n, hn, rfl⟩ := Option.map_eq_some_iff.mp ((hnodes i).symm.trans hn')
    have hτ : τ ∈ n.targets := by
      rwa [targets, identity_isolateNode.2.2.2.2.1] at hτ
    obtain ⟨m, hm, hid, hname, hdomain, huse⟩ := hinv.routes.routed hn τ hτ
    refine ⟨_, hnew hm, identity_isolateNode.1.trans hid, identity_isolateNode.2.1.trans hname,
      fun hd => ?_, fun hc => identity_isolateNode.2.2.2.2.2.mpr (huse hc)⟩
    by_cases hi : i ∈ set
    · have hτi := mem_of_safe hsafe hn hτ hi
      simp [isolateNode, hi, hτi]
    · rw [isolateNode_of_notMem hi] at hd ⊢
      have hmd := hdomain hd
      -- a member was in no domain, so the target is none
      have hτi : τ.index ∉ set := by
        intro hτi
        obtain ⟨m', hm', -, hnone⟩ := helig _ hτi
        rw [hm] at hm'
        rw [← hmd, Option.some.inj hm', hnone] at hd
        exact hd rfl
      rw [isolateNode_of_notMem hτi]
      exact hmd
  case connected =>
    intro i n' hn' τ hτ
    obtain ⟨n, hn, rfl⟩ := Option.map_eq_some_iff.mp ((hnodes i).symm.trans hn')
    rw [targets, identity_isolateNode.2.2.2.2.1] at hτ
    exact hinv.routes.connected hn τ hτ

/-! ### Finalization -/

def finalizedDomains (allDomains : List FaultDomain) (domain : Option ℕ) : List FaultDomain :=
  match domain with
  | none => allDomains
  | some d => allDomains.modify d fun D => D.memberFinalized.1

lemma finalize_eq (hinv : TopologyInv P t) (index : ℕ) :
    t.finalize index = t ∨
      ∃ n reusable domains, t.nodes[index]? = some n ∧ n.finalized = false ∧ n.retiring = true ∧
        (n.index = none ∧ reusable = t.reusable ∨
          n.index = some index ∧ reusable = t.reusable ++ [index]) ∧
        t.finalize index = { t with
          nodes := t.nodes.set index { n.retired with finalized := true, index := none }
          reusable, domains
          allDomains := finalizedDomains t.allDomains n.domain
          finalizedIDs := t.finalizedIDs ++ [n.id] } := by
  unfold Topology.finalize
  split
  · exact .inl rfl
  rename_i n hn
  split
  · exact .inl rfl
  rename_i hnot
  simp only [not_or, Bool.not_eq_true, Bool.not_eq_false] at hnot
  have hmember : ∃ domains, t.finalizeMember n.domain = { t with
      domains, allDomains := finalizedDomains t.allDomains n.domain } := by
    cases n.domain <;> exact ⟨_, rfl⟩
  obtain ⟨domains, hmember⟩ := hmember
  have hplace := hinv.table.place (Topology.identity_at hn)
  rw [identity_index] at hplace
  refine .inr ⟨n, ?_⟩
  rcases hplace with hnone | hsome
  · refine ⟨t.reusable, domains, hn, hnot.1, hnot.2, .inl ⟨hnone, rfl⟩, ?_⟩
    simp [retired, hmember, reclaimLocked, hnone]
  · refine ⟨t.reusable ++ [index], domains, hn, hnot.1, hnot.2, .inr ⟨hsome, rfl⟩, ?_⟩
    simp [retired, hmember, reclaimLocked, hsome, hn]

lemma getElem?_finalizedDomains {allDomains : List FaultDomain} {domain : Option ℕ} {d : ℕ}
    {D' : FaultDomain} (h : (finalizedDomains allDomains domain)[d]? = some D') :
    ∃ D, allDomains[d]? = some D ∧
      D' = if domain = some d then D.memberFinalized.1 else D := by
  unfold finalizedDomains at h
  split at h
  · exact ⟨D', h, by simp⟩
  rename_i d'
  rw [getElem?_modify] at h
  obtain ⟨D, hD, heq⟩ := Option.map_eq_some_iff.mp h
  by_cases hd : d' = d <;> simp_all

lemma memberIDs_memberFinalized (D : FaultDomain) : D.memberFinalized.1.memberIDs = D.memberIDs := by
  unfold FaultDomain.memberFinalized
  dsimp only
  split <;> rfl

lemma remaining_memberFinalized (D : FaultDomain) :
    D.memberFinalized.1.remaining = D.remaining - 1 := by
  unfold FaultDomain.memberFinalized
  dsimp only
  split <;> rfl

lemma closes_memberFinalized {D : FaultDomain} (hcloses : D.closes = 0) :
    D.memberFinalized.1.closes = if D.remaining - 1 = 0 then 1 else 0 := by
  unfold FaultDomain.memberFinalized
  by_cases hlast : D.remaining - 1 = 0 <;> simp [hlast, hcloses]

section finalize

variable {index : ℕ} {n : GraphNode}

abbrev finalizedIdentities (t : Topology) (index : ℕ) (n : GraphNode) : List NodeIdentity :=
  (t.nodes.set index { n.retired with finalized := true, index := none }).map identity

lemma identities_finalize (hn : t.nodes[index]? = some n) (j : ℕ) :
    (finalizedIdentities t index n)[j]? =
      if j = index then some { n.identity with finalized := true, index := none }
      else t.identities[j]? := by
  obtain ⟨hlt, -⟩ := List.getElem?_eq_some_iff.mp hn
  rw [List.getElem?_map, Topology.getElem?_identities]
  by_cases hj : j = index
  · subst hj
    simp [hlt, identity, retired]
  · rw [List.getElem?_set_ne (Ne.symm hj), if_neg hj]

lemma same_of_finalize (hn : t.nodes[index]? = some n) {i : ℕ} {m : NodeIdentity}
    (hm : (finalizedIdentities t index n)[i]? = some m) :
    ∃ m', t.identities[i]? = some m' ∧ m'.id = m.id ∧ m'.domain = m.domain := by
  rw [identities_finalize hn] at hm
  split at hm
  · rename_i hi
    exact ⟨n.identity, hi ▸ Topology.identity_at hn, by rw [← Option.some.inj hm],
      by rw [← Option.some.inj hm]⟩
  · exact ⟨m, hm, rfl, rfl⟩

lemma table_finalize (hinv : TopologyInv P t) (hn : t.nodes[index]? = some n) {reusable : List ℕ}
    (hreusable : n.index = none ∧ reusable = t.reusable ∨
      n.index = some index ∧ reusable = t.reusable ++ [index]) :
    TableInv (finalizedIdentities t index n) reusable t.nextNodeID := by
  have hget := identities_finalize hn
  have hid := Topology.identity_at hn
  constructor
  case bound =>
    intro i m hm
    rw [hget] at hm
    split at hm
    · have hbound := hinv.table.bound hid
      rw [← Option.some.inj hm]
      exact hbound
    · exact hinv.table.bound hm
  case distinct =>
    intro i j m m' hm hm' heq
    obtain ⟨o, ho, hoid, -⟩ := same_of_finalize hn hm
    obtain ⟨o', ho', hoid', -⟩ := same_of_finalize hn hm'
    exact hinv.table.distinct ho ho' (hoid.trans (heq.trans hoid'.symm))
  case place =>
    intro i m hm
    rw [hget] at hm
    split at hm
    · rw [← Option.some.inj hm]
      exact .inl rfl
    · exact hinv.table.place hm
  case reusable =>
    intro i hi
    rw [hget]
    by_cases hne : i = index
    · rw [if_pos hne]
      exact ⟨_, rfl, rfl, rfl⟩
    · rw [if_neg hne]
      refine hinv.table.reusable ?_
      rcases hreusable with ⟨-, rfl⟩ | ⟨-, rfl⟩
      · exact hi
      · simpa [hne] using hi
  case nodup =>
    rcases hreusable with ⟨-, rfl⟩ | ⟨hsome, rfl⟩
    · exact hinv.table.nodup
    · refine concat_eq_append ▸ hinv.table.nodup.concat fun hmem => ?_
      obtain ⟨m, hm, hnone, -⟩ := hinv.table.reusable hmem
      rw [hid] at hm
      rw [← Option.some.inj hm, identity_index, hsome] at hnone
      simp at hnone

lemma openMembers_finalize (hn : t.nodes[index]? = some n) (hfin : n.finalized = false) (d : ℕ) :
    openMembers (finalizedIdentities t index n) d + (if n.domain = some d then 1 else 0) =
      openMembers t.identities d := by
  obtain ⟨hlt, hnode⟩ := List.getElem?_eq_some_iff.mp hn
  have hlt' : index < t.identities.length := by simpa [Topology.identities] using hlt
  have hat : t.identities[index] = n.identity := by simp [Topology.identities, hnode]
  have hset : finalizedIdentities t index n =
      t.identities.set index { n.identity with finalized := true, index := none } :=
    List.map_set
  rw [hset, openMembers, List.countP_set hlt', hat, openMembers]
  by_cases hd : n.domain = some d
  · have hpos : 0 < t.identities.countP fun n => decide (n.domain = some d) && !n.finalized := by
      rw [List.countP_pos_iff]
      exact ⟨n.identity, hat ▸ List.getElem_mem hlt', by simp [hd, hfin]⟩
    simp [hd, hfin]
    omega
  · simp [hd]

lemma domains_finalize (hinv : TopologyInv P t) (hn : t.nodes[index]? = some n)
    (hfin : n.finalized = false) :
    DomainInv (finalizedIdentities t index n) (finalizedDomains t.allDomains n.domain)
      (t.finalizedIDs ++ [n.id]) t.nextNodeID := by
  have hget := identities_finalize hn
  have hid := Topology.identity_at hn
  -- every domain has the members it had
  have hold {d : ℕ} {D' : FaultDomain}
      (hD' : (finalizedDomains t.allDomains n.domain)[d]? = some D') :
      ∃ D, t.allDomains[d]? = some D ∧ D'.memberIDs = D.memberIDs := by
    obtain ⟨D, hD, rfl⟩ := getElem?_finalizedDomains hD'
    refine ⟨D, hD, ?_⟩
    split
    · exact memberIDs_memberFinalized D
    · rfl
  have hopen := openMembers_finalize hn hfin
  constructor
  case member =>
    intro i d m hm hd
    obtain ⟨m', hm', hmid, hmd⟩ := same_of_finalize hn hm
    obtain ⟨D, hD, hmem⟩ := hinv.domains.member hm' (hmd.trans hd)
    rw [← hmid]
    cases hdomain : n.domain with
    | none => exact ⟨D, hD, hmem⟩
    | some d' =>
      refine ⟨_, by rw [finalizedDomains, getElem?_modify, hD]; rfl, ?_⟩
      split
      · rw [memberIDs_memberFinalized]
        exact hmem
      · exact hmem
  case own =>
    intro i d m D' hm hD' hmem
    obtain ⟨m', hm', hmid, hmd⟩ := same_of_finalize hn hm
    obtain ⟨D, hD, hids⟩ := hold hD'
    rw [← hmd]
    exact hinv.domains.own hm' hD (by rwa [hmid, ← hids])
  case known =>
    intro d id D' hD' hmem
    obtain ⟨D, hD, hids⟩ := hold hD'
    obtain ⟨hle, hknown⟩ := hinv.domains.known hD (hids ▸ hmem)
    refine ⟨hle, hknown.imp (mem_append_left _) ?_⟩
    rintro ⟨i, m, hm, rfl⟩
    by_cases hi : i = index
    · subst hi
      rw [hid] at hm
      exact ⟨i, _, by rw [hget, if_pos rfl], by rw [← Option.some.inj hm]⟩
    · exact ⟨i, m, by rw [hget, if_neg hi, hm], rfl⟩
  case disjoint =>
    intro d d' id D D' hD hD' hmem hmem'
    obtain ⟨E, hE, hids⟩ := hold hD
    obtain ⟨E', hE', hids'⟩ := hold hD'
    exact hinv.domains.disjoint hE hE' (hids ▸ hmem) (hids' ▸ hmem')
  case finalized =>
    intro i m hm
    rw [hget] at hm
    split at hm
    · rw [← Option.some.inj hm]
      simp
    · rename_i hi
      have hne : m.id ≠ n.id := fun heq => hi (hinv.table.distinct hm hid heq)
      simp [hne, hinv.domains.finalized hm]
  case bound =>
    intro id hlog
    rcases mem_append.mp hlog with hlog | hlog
    · exact hinv.domains.bound hlog
    · rw [mem_singleton.mp hlog]
      exact hinv.table.bound hid
  case remaining =>
    intro d D' hD'
    obtain ⟨D, hD, rfl⟩ := getElem?_finalizedDomains hD'
    have hremaining := hinv.domains.remaining hD
    have := hopen d
    split_ifs at this ⊢
    · rw [remaining_memberFinalized, hremaining]
      omega
    · omega
  case closes =>
    intro d D' hD'
    obtain ⟨D, hD, rfl⟩ := getElem?_finalizedDomains hD'
    have hcloses := hinv.domains.closes hD
    split <;> rename_i hd
    · -- the node is an open member, so the domain is not done
      have hremaining := hinv.domains.remaining hD
      have := hopen d
      rw [if_pos hd] at this
      rw [if_neg (by omega)] at hcloses
      rw [closes_memberFinalized hcloses, remaining_memberFinalized]
    · exact hcloses

end finalize

theorem finalize (hinv : TopologyInv P t) (index : ℕ) : TopologyInv P (t.finalize index) := by
  rcases hinv.finalize_eq index with heq | ⟨n, reusable, domains, hn, hfin, hretiring, hre, heq⟩
  · rw [heq]
    exact hinv
  rw [heq]
  refine ⟨hinv.table_finalize hn hre, hinv.domains_finalize hn hfin, ?_, hinv.snap⟩
  obtain ⟨hlt, -⟩ := List.getElem?_eq_some_iff.mp hn
  generalize hb : ({ n.retired with finalized := true, index := none } : GraphNode) = b
  have hsame : b.id = n.id ∧ b.name = n.name ∧ b.domain = n.domain ∧ b.active = false ∧
      b.routes = [] := by
    rw [← hb]
    exact ⟨rfl, rfl, rfl, rfl, rfl⟩
  have hget (i : ℕ) : (t.nodes.set index b)[i]? = if i = index then some b else t.nodes[i]? := by
    by_cases hi : i = index
    · simp [hi, hlt]
    · rw [List.getElem?_set_ne (Ne.symm hi), if_neg hi]
  -- what a name or a route leads to
  have hnew {i : ℕ} {m : GraphNode} (hm : t.nodes[i]? = some m) :
      ∃ m', (t.nodes.set index b)[i]? = some m' ∧ m'.id = m.id ∧ m'.name = m.name ∧
        m'.domain = m.domain ∧ (m.InUse → m'.InUse) := by
    rw [hget]
    by_cases hi : i = index
    · subst hi
      rw [hn] at hm
      cases hm
      exact ⟨b, if_pos rfl, hsame.1, hsame.2.1, hsame.2.2.1,
        fun huse => absurd huse (not_inUse_of_retiring hretiring)⟩
    · exact ⟨m, (if_neg hi).trans hm, rfl, rfl, rfl, id⟩
  constructor
  case named =>
    intro name i hname
    obtain ⟨m, hm, hmn, huse⟩ := hinv.routes.named hname
    obtain ⟨m', hm', -, hname', -, huse'⟩ := hnew hm
    exact ⟨m', hm', hname'.trans hmn, fun hc => huse' (huse hc)⟩
  case inactive =>
    intro i m hm hmfin
    have hm := (hget i).symm.trans hm
    split at hm
    · rw [← Option.some.inj hm]
      exact hsame.2.2.2.1
    · exact hinv.routes.inactive hm hmfin
  case routeless =>
    intro hc i m hm hact
    have hm := (hget i).symm.trans hm
    split at hm
    · rw [← Option.some.inj hm]
      exact hsame.2.2.2.2
    · exact hinv.routes.routeless hc hm hact
  case routed =>
    intro i m hm τ hτ
    have hm := (hget i).symm.trans hm
    split at hm
    · rw [← Option.some.inj hm, targets, hsame.2.2.2.2] at hτ
      simp at hτ
    · obtain ⟨o, ho, hoid, honame, hodomain, huse⟩ := hinv.routes.routed hm τ hτ
      obtain ⟨o', ho', hid', hname', hdomain', huse'⟩ := hnew ho
      exact ⟨o', ho', hid'.trans hoid, hname'.trans honame,
        fun hd => hdomain'.trans (hodomain hd), fun hc => huse' (huse hc)⟩
  case connected =>
    intro i m hm τ hτ
    have hm := (hget i).symm.trans hm
    split at hm
    · rw [← Option.some.inj hm, targets, hsame.2.2.2.2] at hτ
      simp at hτ
    · exact hinv.routes.connected hm τ hτ

end TopologyInv

end Goav.Pipeline
