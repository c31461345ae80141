import Mathlib.Data.Set.Finite.Basic
import Mathlib.Order.WellFounded
import Goav.Pipeline.TopologyDefs

/-!
The order in which the nodes of a branch are removed (`upstreamFirst` of `runtime_attach.go`): of the nodes
that are left, the first one that none of them feeds.
-/

namespace Goav.Pipeline

open List Relation

def fed (routes : List Route) (left : List String) (node : String) : Bool :=
  routes.any fun route => route.origin ≠ node && left.contains route.origin && route.destinations.contains node

/-- The loop of `upstreamFirst`. If all are fed, it takes the first. -/
def upstreamLoop (routes : List Route) : ℕ → List String → List String
  | 0, _ => []
  | n + 1, left =>
    let unfed := left.findIdx fun node => !fed routes left node
    let next := if unfed < left.length then unfed else 0
    left[next]?.toList ++ upstreamLoop routes n (left.eraseIdx next)

def upstreamFirst (nodes : List String) (routes : List Route) : List String :=
  upstreamLoop routes nodes.length nodes

/-- A route leads from `a` to `b`. -/
def Feeds (routes : List Route) (a b : String) : Prop :=
  ∃ route ∈ routes, route.origin = a ∧ b ∈ route.destinations

instance (routes : List Route) (a b : String) : Decidable (Feeds routes a b) :=
  inferInstanceAs (Decidable (∃ route ∈ routes, _))

/-- All that feed the node are placed. -/
def Ready (nodes : List String) (routes : List Route) (placed : List String) (node : String) : Prop :=
  node ∉ placed ∧ ∀ up ∈ nodes, Feeds routes up node → up ∈ placed

instance (nodes : List String) (routes : List Route) (placed : List String) :
    DecidablePred (Ready nodes routes placed) :=
  fun _ => inferInstanceAs (Decidable (_ ∧ _))

variable {nodes : List String} {routes : List Route} {left placed : List String}

lemma fed_eq_true_iff (hirrefl : ∀ a, ¬ Feeds routes a a) {node : String} :
    fed routes left node = true ↔ ∃ up ∈ left, Feeds routes up node := by
  simp only [fed, any_eq_true, Bool.and_eq_true, contains_iff_mem, decide_eq_true_eq]
  constructor
  · rintro ⟨route, hmem, ⟨-, hleft⟩, hto⟩
    exact ⟨_, hleft, route, hmem, rfl, hto⟩
  · rintro ⟨up, hleft, route, hmem, rfl, hto⟩
    refine ⟨route, hmem, ⟨?_, hleft⟩, hto⟩
    rintro rfl
    exact hirrefl _ ⟨route, hmem, rfl, hto⟩

lemma exists_unfed (hacyclic : ∀ a, ¬ TransGen (Feeds routes) a a) (hne : left ≠ []) :
    ∃ node ∈ left, ∀ up ∈ left, ¬ Feeds routes up node := by
  let before (a b : left.toFinset) : Prop := TransGen (Feeds routes) a b
  have : Std.Irrefl before := ⟨fun a => hacyclic a⟩
  obtain ⟨node, hnode⟩ := exists_mem_of_ne_nil left hne
  obtain ⟨⟨first, hmem⟩, -, hfirst⟩ := (Finite.wellFounded_of_trans_of_irrefl before).has_min Set.univ
    ⟨⟨node, mem_toFinset.mpr hnode⟩, trivial⟩
  exact ⟨first, mem_toFinset.mp hmem,
    fun up hup hfeeds => hfirst ⟨up, mem_toFinset.mpr hup⟩ trivial (.single hfeeds)⟩

/-- **One turn** takes the first node that is ready. -/
lemma find_ready (hacyclic : ∀ a, ¬ TransGen (Feeds routes) a a)
    (hleft : left = nodes.filter (· ∉ placed)) (hne : left ≠ []) :
    ∃ node, left.find? (!fed routes left ·) = some node ∧
      nodes.find? (Ready nodes routes placed ·) = some node := by
  have hfed (node : String) := @fed_eq_true_iff routes left (fun a h => hacyclic a (.single h)) node
  obtain ⟨node, hnode, hunfed⟩ := exists_unfed hacyclic hne
  have hsome : (left.find? (!fed routes left ·)).isSome := by
    refine find?_isSome.mpr ⟨node, hnode, ?_⟩
    simpa [← Bool.not_eq_true, hfed] using hunfed
  obtain ⟨first, hfirst⟩ := Option.isSome_iff_exists.mp hsome
  refine ⟨first, hfirst, ?_⟩
  rw [← hfirst]
  conv => rhs; rw [hleft, find?_filter, ← hleft]
  congr 1
  funext x
  simp only [Ready, hleft]
  grind

lemma upstreamLoop_spec (hnodup : nodes.Nodup) (hacyclic : ∀ a, ¬ TransGen (Feeds routes) a a) {n : ℕ} :
    ∀ {left placed : List String}, left = nodes.filter (· ∉ placed) → left.length = n →
      (upstreamLoop routes n left).Perm left ∧ ∀ i node, (upstreamLoop routes n left)[i]? = some node →
        nodes.find? (Ready nodes routes (placed ++ (upstreamLoop routes n left).take i) ·) = some node := by
  induction n with
  | zero =>
    intro left placed _ hn
    simp [upstreamLoop, length_eq_zero_iff.mp hn]
  | succ n ih =>
    intro left placed hleft hn
    obtain ⟨node, hfind, hready⟩ := find_ready hacyclic hleft (ne_nil_of_length_eq_add_one hn)
    rw [find?_eq_getElem?_findIdx] at hfind
    obtain ⟨hlt, hnode⟩ := List.getElem?_eq_some_iff.mp hfind
    simp only [upstreamLoop, if_pos hlt, hfind]
    have hperm := getElem_cons_eraseIdx_perm hlt
    rw [hnode] at hperm
    have herase : left.eraseIdx (left.findIdx (!fed routes left ·)) = nodes.filter (· ∉ placed ++ [node]) := by
      have hl : left.Nodup := hleft ▸ hnodup.filter _
      rw [← hl.erase_getElem _ hlt, hnode, hl.erase_eq_filter, hleft, filter_filter]
      congr 1
      funext x
      grind
    obtain ⟨hrest, hplaced⟩ := ih herase (by simpa [hn] using hperm.length_eq)
    refine ⟨(hrest.cons node).trans hperm, ?_⟩
    rintro (_ | i) x hx
    · simp_all
    · have := hplaced i x hx
      rw [append_assoc] at this
      exact this

/-- **`upstreamFirst` puts upstream nodes first**: each position has the first node that is ready. -/
theorem upstreamFirst_order (hnodup : nodes.Nodup) (hacyclic : ∀ a, ¬ TransGen (Feeds routes) a a) :
    (upstreamFirst nodes routes).Perm nodes ∧
      (upstreamFirst nodes routes).Pairwise (fun a b => ¬ Feeds routes b a) ∧
      ∀ i node, (upstreamFirst nodes routes)[i]? = some node →
        nodes.find? (Ready nodes routes ((upstreamFirst nodes routes).take i) ·) = some node := by
  obtain ⟨hperm, hfirst⟩ := @upstreamLoop_spec nodes routes hnodup hacyclic _ nodes [] (by simp) rfl
  refine ⟨hperm, ?_, hfirst⟩
  rw [pairwise_iff_getElem]
  intro i j hi hj hij hfeeds
  have hready := find?_some (hfirst i _ (getElem?_eq_getElem hi))
  have hup : (upstreamLoop routes nodes.length nodes)[j] ∈ nodes := hperm.subset (getElem_mem hj)
  have hplaced := (of_decide_eq_true hready).2 _ hup hfeeds
  obtain ⟨k, hk, heq⟩ := mem_take_iff_getElem.mp hplaced
  have := (hperm.nodup_iff.mpr hnodup).getElem_inj_iff.mp heq
  omega

def pairRoute : Route := { origin := "a", destinations := ["b"] }

theorem upstreamFirst_order_pair : upstreamFirst ["b", "a"] [pairRoute] = ["a", "b"] ∧
    (upstreamFirst ["b", "a"] [pairRoute]).Pairwise fun a b => ¬ Feeds [pairRoute] b a := by
  have hends {a b : String} (h : TransGen (Feeds [pairRoute]) a b) : a = "a" ∧ b = "b" := by
    induction h with
    | single h => simpa [Feeds, pairRoute, eq_comm] using h
    | tail _ h ih => simp [Feeds, pairRoute, ih] at h
  refine ⟨by decide, (upstreamFirst_order (by decide) fun a h => ?_).2.1⟩
  have := (hends h).1.symm.trans (hends h).2
  simp at this

end Goav.Pipeline
