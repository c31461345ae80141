import Mathlib.Data.List.Range
import Goav.Lib.Worklist
import Goav.Pipeline.TopologyDefs

/-!
`FlushDownstream` (`flush.go`): a first worklist finds what a source reaches, a second one what others
reach of that.
-/

namespace Goav.Pipeline

open Goav.Lib Relation List

namespace Topology

variable (t : Topology)

def successors (i : ℕ) : List ℕ :=
  (t.nodes[i]?.map fun n => n.targets.map Target.index).getD []

def activeAt (i : ℕ) : Bool := t.nodes[i]?.any GraphNode.active

/-- The downstream closure; `none` if the loop went on for too long. An inactive node is not expanded. -/
def visited (start : ℕ) : Option (List Bool) :=
  Search.search t.successors t.activeAt t.nodes.length
    { frontier := [start], marks := (List.replicate t.nodes.length false).set start true }

variable (visited : List Bool)

def sharedSuccessors (i : ℕ) : List ℕ :=
  (t.successors i).filter fun j => visited[j]? = some true && t.activeAt j

def outside : List ℕ :=
  (List.range t.nodes.length).filter fun i => t.activeAt i && visited[i]? ≠ some true

def shared : Option (List Bool) :=
  Search.search (t.sharedSuccessors visited) (fun _ => true) t.nodes.length
    ((t.outside visited).foldl (Search.scan (t.sharedSuccessors visited) fun _ => true)
      { frontier := [], marks := List.replicate t.nodes.length false })

def flushable (n : GraphNode) : Bool := n.active && n.kind != .source && n.opened

/-- The nodes of the closure that are not shared and have a queue, without the start node. -/
def exclusive (start : ℕ) (visited shared : List Bool) : List ℕ :=
  (List.range t.nodes.length).filter fun i =>
    i ≠ start && visited[i]? = some true && shared[i]? ≠ some true && t.nodes[i]?.any flushable

def flushTargets (start : ℕ) : Option (List ℕ) := do
  let visited ← t.visited start
  let shared ← t.shared visited
  return t.exclusive start visited shared

/-- `FlushDownstream`: the nodes whose queues it flushes, in order. -/
def flushDownstream (ref : String) : Except TopologyError (Option (List ℕ)) := do
  require (t.closed = false) .closed
  let (start, _) ← t.findActive ref
  return t.flushTargets start

def Hop (i j : ℕ) : Prop := t.activeAt i = true ∧ j ∈ t.successors i ∧ j < t.nodes.length

def Reach (i j : ℕ) : Prop := ReflTransGen t.Hop i j

variable {t} {start : ℕ} {marks : List Bool}

lemma lt_of_activeAt {i : ℕ} (h : t.activeAt i = true) : i < t.nodes.length := by
  unfold activeAt at h
  by_contra hlt
  simp [getElem?_eq_none (Nat.le_of_not_lt hlt)] at h

lemma Reach.activeAt_left {i j : ℕ} (h : t.Reach i j) (hj : t.activeAt j = true) :
    t.activeAt i = true := by
  induction h using ReflTransGen.head_induction_on with
  | refl => exact hj
  | head hop _ _ => exact hop.1

theorem visited_spec (hstart : t.activeAt start = true) :
    ∃ marks, t.visited start = some marks ∧ ∀ i, marks[i]? = some true ↔ t.Reach start i := by
  have hlt := lt_of_activeAt hstart
  have hmarks : ∀ i, ((replicate t.nodes.length false).set start true)[i]? = some true ↔
      i = start := by
    intro i
    by_cases hi : i = start
    · simp [hi, hlt]
    · simp [hi, getElem?_set_ne (Ne.symm hi), getElem?_replicate]
  have hinv : Search.SearchInv t.successors t.activeAt t.nodes.length (· = start)
      { frontier := [start], marks := (replicate t.nodes.length false).set start true } := by
    constructor
    case length => simp
    case marked => exact (hmarks _).mpr
    case sound => exact fun h => ⟨_, (hmarks _).mp h, .refl⟩
    case frontier =>
      intro i hi
      obtain rfl := mem_singleton.mp hi
      exact ⟨(hmarks i).mpr rfl, hstart⟩
    case closed => exact fun h _ => .inl (mem_singleton.mpr ((hmarks _).mp h))
  have hturns : Search.turns
      ⟨[start], (replicate t.nodes.length false).set start true⟩ ≤ t.nodes.length := by
    simp [Search.turns, count_set, hlt]
    omega
  obtain ⟨marks, hsearch, hspec⟩ := hinv.search hturns
  refine ⟨marks, hsearch, fun i => (hspec i).trans ?_⟩
  constructor
  · rintro ⟨_, rfl, h⟩
    exact h
  · exact fun h => ⟨start, rfl, h⟩

/-! ### The second pass -/

def SharedHop (t : Topology) (marks : List Bool) : ℕ → ℕ → Prop :=
  Search.Hop (t.sharedSuccessors marks) (fun _ => true) t.nodes.length

def Entry (t : Topology) (marks : List Bool) (i : ℕ) : Prop :=
  i ∈ (t.outside marks).flatMap (t.sharedSuccessors marks) ∧ i < t.nodes.length

theorem shared_spec (marks : List Bool) :
    ∃ shared, t.shared marks = some shared ∧ ∀ i, shared[i]? = some true ↔
      ∃ u, t.Entry marks u ∧ ReflTransGen (t.SharedHop marks) u i := by
  set s : Search := { frontier := [], marks := replicate t.nodes.length false }
  have hempty : ∀ i : ℕ, s.marks[i]? ≠ some true := by simp [s, getElem?_replicate]
  have hlength : s.marks.length = t.nodes.length := by simp [s]
  have hseed : (t.outside marks).foldl (Search.scan (t.sharedSuccessors marks) fun _ => true) s =
      ((t.outside marks).flatMap (t.sharedSuccessors marks)).foldl (Search.mark fun _ => true) s := by
    rw [foldl_flatMap]
    rfl
  obtain ⟨hlen, hmarks, hfrontier, hturns⟩ := Search.foldl_mark (fun _ => true) s
    ((t.outside marks).flatMap (t.sharedSuccessors marks))
  rw [← hseed] at hlen hmarks hfrontier hturns
  simp only [hlength, hempty, false_or] at hlen hmarks hfrontier
  have hinv : Search.SearchInv (t.sharedSuccessors marks) (fun _ => true) t.nodes.length (t.Entry marks)
      ((t.outside marks).foldl (Search.scan (t.sharedSuccessors marks) fun _ => true) s) := by
    constructor
    case length => exact hlen
    case marked => exact (hmarks _).mpr
    case sound => exact fun h => ⟨_, (hmarks _).mp h, .refl⟩
    case frontier =>
      intro i hi
      rcases (hfrontier i).mp hi with hi | ⟨hi, hlt, -⟩
      · simp [s] at hi
      · exact ⟨(hmarks i).mpr ⟨hi, hlt⟩, rfl⟩
    case closed =>
      intro i hi _
      obtain ⟨hmem, hlt⟩ := (hmarks i).mp hi
      exact .inl ((hfrontier i).mpr (.inr ⟨hmem, hlt, hempty i, trivial⟩))
  exact hinv.search (Nat.le_trans hturns (by simp [Search.turns, s]))

section Shared

variable (hvisited : ∀ i, marks[i]? = some true ↔ t.Reach start i)
include hvisited

variable {i j : ℕ}

lemma mem_sharedSuccessors : j ∈ t.sharedSuccessors marks i ↔
    j ∈ t.successors i ∧ t.Reach start j ∧ t.activeAt j = true := by
  simp [sharedSuccessors, hvisited]

lemma mem_outside : i ∈ t.outside marks ↔ t.activeAt i = true ∧ ¬ t.Reach start i := by
  simp only [outside, ne_eq, mem_filter, mem_range, Bool.and_eq_true, decide_eq_true_eq, hvisited]
  exact ⟨And.right, fun h => ⟨lt_of_activeAt h.1, h⟩⟩

lemma entry_iff : t.Entry marks i ↔
    ∃ o, t.activeAt o = true ∧ ¬ t.Reach start o ∧ t.Hop o i ∧ t.Reach start i ∧
      t.activeAt i = true := by
  simp only [Entry, mem_flatMap, mem_outside hvisited, mem_sharedSuccessors hvisited]
  constructor
  · rintro ⟨⟨o, ⟨ho, hout⟩, hmem, hreach, hact⟩, hlt⟩
    exact ⟨o, ho, hout, ⟨ho, hmem, hlt⟩, hreach, hact⟩
  · rintro ⟨o, ho, hout, ⟨-, hmem, hlt⟩, hreach, hact⟩
    exact ⟨⟨o, ⟨ho, hout⟩, hmem, hreach, hact⟩, hlt⟩

lemma reach_of_sharedHops (hi : t.activeAt i = true) (h : ReflTransGen (t.SharedHop marks) i j) :
    t.Reach i j ∧ t.activeAt j = true := by
  induction h with
  | refl => exact ⟨.refl, hi⟩
  | tail _ hop ih =>
    obtain ⟨-, hmem, hlt⟩ := hop
    obtain ⟨hsucc, -, hact⟩ := (mem_sharedSuccessors hvisited).mp hmem
    exact ⟨ih.1.tail ⟨ih.2, hsucc, hlt⟩, hact⟩

lemma sharedHops_of_reach (hreach : t.Reach start i) (hj : t.activeAt j = true) (h : t.Reach i j) :
    ReflTransGen (t.SharedHop marks) i j := by
  induction h using ReflTransGen.head_induction_on with
  | refl => exact .refl
  | head hop hrest ih =>
    have hnext : t.Reach start _ := hreach.tail hop
    refine .head ⟨rfl, (mem_sharedSuccessors hvisited).mpr ⟨hop.2.1, hnext, ?_⟩, hop.2.2⟩ (ih hnext)
    exact Reach.activeAt_left hrest hj

lemma exists_entry {o : ℕ} (ho : t.activeAt o = true) (hout : ¬ t.Reach start o)
    (hi : t.Reach start i) (hact : t.activeAt i = true) (h : t.Reach o i) :
    ∃ u, t.Entry marks u ∧ ReflTransGen (t.SharedHop marks) u i := by
  induction h using ReflTransGen.head_induction_on with
  | refl => exact absurd hi hout
  | @head o v hop hrest ih =>
    have hv : t.activeAt v = true := Reach.activeAt_left hrest hact
    by_cases hin : t.Reach start v
    · exact ⟨v, (entry_iff hvisited).mpr ⟨o, ho, hout, hop, hin, hv⟩,
        sharedHops_of_reach hvisited hin hact hrest⟩
    · exact ih hv hin

theorem shared_iff (hi : t.Reach start i) (hact : t.activeAt i = true) :
    (∃ u, t.Entry marks u ∧ ReflTransGen (t.SharedHop marks) u i) ↔
      ∃ o, t.activeAt o = true ∧ ¬ t.Reach start o ∧ t.Reach o i := by
  constructor
  · rintro ⟨u, hentry, hhops⟩
    obtain ⟨o, ho, hout, hop, -, hu⟩ := (entry_iff hvisited).mp hentry
    exact ⟨o, ho, hout, .head hop (reach_of_sharedHops hvisited hu hhops).1⟩
  · rintro ⟨o, ho, hout, h⟩
    exact exists_entry hvisited ho hout hi hact h

end Shared

lemma mem_exclusive {visited shared : List Bool} {i : ℕ} :
    i ∈ t.exclusive start visited shared ↔ ∃ b, t.nodes[i]? = some b ∧
      i ≠ start ∧ visited[i]? = some true ∧ ¬ shared[i]? = some true ∧
      b.active = true ∧ b.kind ≠ .source ∧ b.opened = true := by
  simp only [exclusive, List.mem_filter, List.mem_range, Bool.and_eq_true, decide_eq_true_eq]
  constructor
  · rintro ⟨hlt, ⟨⟨hne, hvisited⟩, hshared⟩, hb⟩
    refine ⟨_, List.getElem?_eq_getElem hlt, hne, hvisited, hshared, ?_⟩
    simpa [flushable, List.getElem?_eq_getElem hlt, and_assoc] using hb
  · rintro ⟨b, hb, hne, hvisited, hshared, hact, hkind, hopened⟩
    obtain ⟨hlt, -⟩ := List.getElem?_eq_some_iff.mp hb
    exact ⟨hlt, ⟨⟨hne, hvisited⟩, hshared⟩, by simp [flushable, hb, hact, hkind, hopened]⟩

/-- **The queues that are flushed**, each once: those of the active, opened nodes that the start node
reaches and no active node outside its closure does. -/
theorem flushDownstream_exclusive (ref : String) (start : ℕ) (n : GraphNode)
    (hopen : t.closed = false) (hindex : t.index ref = some start) (hn : t.nodes[start]? = some n)
    (hactive : n.active = true) :
    ∃ targets, t.flushDownstream ref = .ok (some targets) ∧ targets.Nodup ∧
      ∀ i, i ∈ targets ↔ ∃ b, t.nodes[i]? = some b ∧
        b.active = true ∧ b.opened = true ∧ b.kind ≠ .source ∧ i ≠ start ∧ t.Reach start i ∧
        ∀ o, t.activeAt o = true → ¬ t.Reach start o → ¬ t.Reach o i := by
  have hstart : t.activeAt start = true := by simp [activeAt, hn, hactive]
  obtain ⟨marks, hmarks, hvisited⟩ := visited_spec hstart
  obtain ⟨shared, hshared, hspec⟩ := t.shared_spec marks
  have hfind : t.findActive ref = .ok (start, n) := by
    simp [findActive, find, hindex, hn, hactive]
  refine ⟨t.exclusive start marks shared, ?_, nodup_range.filter _, fun i => ?_⟩
  · simp [flushDownstream, flushTargets, require, hopen, hfind, hmarks, hshared, bind, Except.bind,
      pure, Except.pure]
  · rw [mem_exclusive]
    refine exists_congr fun b => and_congr_right fun hb => ?_
    rw [hvisited, hspec]
    constructor
    · rintro ⟨hne, hreach, hnot, hact, hkind, hopened⟩
      refine ⟨hact, hopened, hkind, hne, hreach, fun o ho hout h => hnot ?_⟩
      exact (shared_iff hvisited hreach (by simp [activeAt, hb, hact])).mpr ⟨o, ho, hout, h⟩
    · rintro ⟨hact, hopened, hkind, hne, hreach, hnone⟩
      refine ⟨hne, hreach, fun h => ?_, hact, hkind, hopened⟩
      obtain ⟨o, ho, hout, h⟩ :=
        (shared_iff hvisited hreach (by simp [activeAt, hb, hact])).mp h
      exact hnone o ho hout h

def forked : Topology :=
  let route (i id : ℕ) (name : String) : NodeRoute :=
    { destinations := [{ index := i, id, name }], policy := .all, label := "" }
  { runner := .buffered
    index := fun name => if name = "camera" then some 0 else none
    nodes :=
      [{ name := "camera", kind := .source, admitter := false, id := 1, index := some 0
         routes := [route 2 3 "scale", route 3 4 "mix"] },
       { name := "tone", kind := .source, admitter := false, id := 2, index := some 1
         routes := [route 3 4 "mix"] },
       { name := "scale", kind := .stage, admitter := false, id := 3, index := some 2
         opened := true },
       { name := "mix", kind := .stage, admitter := false, id := 4, index := some 3
         opened := true }] }

theorem flushDownstream_exclusive_forked :
    forked.flushDownstream "camera" = .ok (some [2]) ∧ forked.Reach 0 2 ∧
      ∀ o, forked.activeAt o = true → ¬ forked.Reach 0 o → ¬ forked.Reach o 2 := by
  have hrun : forked.flushDownstream "camera" = .ok (some [2]) := by decide
  obtain ⟨targets, htargets, -, hmem⟩ :=
    flushDownstream_exclusive (t := forked) "camera" 0 _ rfl rfl rfl rfl
  obtain rfl : [2] = targets := by
    rw [hrun] at htargets
    simpa using htargets
  obtain ⟨_, -, -, -, -, -, hreach, hnone⟩ := (hmem 2).mp mem_cons_self
  exact ⟨hrun, hreach, hnone⟩

end Topology

end Goav.Pipeline
