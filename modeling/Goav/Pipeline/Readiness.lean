import Goav.Pipeline.ReadinessDefs

/-!
What every interleaving keeps of the readiness countdown: it is the number of sinks that were unfed when
the run began, less those subtracted (`Sound`); every thread knows how far its notes are (`Asserts`). A
sink added during the run is not counted, but is subtracted.
-/

namespace Goav.Pipeline

open Goav.Lib List Option

instance : Coe Graph Countdown := ⟨Graph.toCountdown⟩

/-! ### Calls -/

namespace Call

def todo : Call → List ℕ
  | .idle => []
  | .cas i rest _ => i :: rest
  | .subtract _ rest _ | .claim _ rest _ | .observe _ rest _ => rest

def subtracting : Call → Option ℕ
  | .subtract i _ _ => some i
  | _ => none

def claiming : Call → Option (Option ℕ)
  | .claim cause _ _ => some cause
  | _ => none

def observing : Call → Option (Option ℕ)
  | .observe cause _ _ => some cause
  | _ => none

structure Resumes (l : Call) (rest : List ℕ) : Prop where
  todo : l.todo = rest
  subtracting : l.subtracting = none
  claiming : l.claiming = none
  observing : l.observing = none

lemma resumes_idle : Resumes .idle [] := ⟨rfl, rfl, rfl, rfl⟩

lemma resumes_cas (i : ℕ) (rest : List ℕ) (locks : Bool) : Resumes (.cas i rest locks) (i :: rest) :=
  ⟨rfl, rfl, rfl, rfl⟩

end Call

namespace Graph

variable {s : Graph}

lemma proceed_spec (s : Graph) (rest : List ℕ) (locks : Bool) :
    (s.proceed rest locks).1.toCountdown = s.toCountdown ∧ (s.proceed rest locks).2.Resumes rest := by
  cases rest with
  | nil => exact ⟨by cases locks <;> rfl, Call.resumes_idle⟩
  | cons i rest => exact ⟨rfl, Call.resumes_cas i rest locks⟩

lemma getElem?_change (s : Graph) (p : ℕ → Node → Bool) (f : Node → Node) (i : ℕ) :
    (s.change p f).nodes[i]? = s.nodes[i]?.map fun n => if p i n then f n else n := by
  simp [change]

lemma mem_sinksWith {p : ℕ → Node → Bool} {i : ℕ} :
    i ∈ s.sinksWith p ↔ ∃ n, s.nodes[i]? = some n ∧ n.kind = .sink ∧ p i n := by
  simp only [sinksWith, nodeIs, mem_filter, mem_range, any_eq_true_iff_get]
  constructor
  · rintro ⟨-, h, hn⟩
    simp only [Bool.and_eq_true, decide_eq_true_eq] at hn
    exact ⟨_, (some_get h).symm, hn⟩
  · rintro ⟨n, hn, hp⟩
    exact ⟨(List.getElem?_eq_some_iff.mp hn).1, by simp [hn], by simpa [hn] using hp⟩

end Graph

/-! ### The invariant -/

/-- Every sink unfed when the run began has since received media, or was removed or retired. -/
def AllOut (s : Countdown) : Prop := ∀ i ∈ s.counted, ∀ n, s.nodes[i]? = some n → n.out = true

structure NodeOk (s : Countdown) (i : ℕ) (n : Node) : Prop where
  sink : i ∈ s.counted → n.kind = .sink
  taken : n.taker ≠ none → n.sawMedia = true
  fed : i ∈ s.counted → n.sawMedia = true → n.out = true ∧ n.taker ≠ none
  late : i ∉ s.counted → n.taker ≠ none → s.fired = true
  noted : i ∈ s.counted → n.out = true → n.sawMedia = false → n.noter ≠ none

structure Sound (g : Graph) (s : Countdown) : Prop where
  armed : s.counted = g.unfedSinks
  node : ∀ {i n}, s.nodes[i]? = some n → NodeOk s i n
  counted : ∀ i ∈ s.counted, ∃ n, s.nodes[i]? = some n
  subtracted : ∀ i ∈ s.subtracted, ∃ n, s.nodes[i]? = some n ∧ n.taker ≠ none
  remaining : s.remaining = s.counted.card - s.subtracted.card
  closed : 0 < g.nodes.countP Node.activeSink → s.remaining ≤ 0 → s.closer ≠ none
  won : s.winner ≠ none ↔ s.fired = true ∧ g.fired = false
  start : g.fired = true → s.fired = true
  once : s.published ≤ 1
  publishedWon : s.published ≠ 0 → s.winner ≠ none

structure Asserts (t : ℕ) (s : Countdown) (l : Call) : Prop where
  todo : ∀ i ∈ l.todo, ∃ n, s.nodes[i]? = some n ∧ n.out = true
  subtracting : ∀ i ∈ l.subtracting, i ∉ s.subtracted ∧
    ∃ n, s.nodes[i]? = some n ∧ n.taker = some t
  taker : ∀ {i n}, s.nodes[i]? = some n → n.taker = some t → i ∉ s.subtracted →
    l.subtracting = some i
  noter : ∀ {i n}, s.nodes[i]? = some n → i ∈ s.counted → n.noter = some t → n.sawMedia = false →
    i ∈ l.todo
  claiming : ∀ cause ∈ l.claiming, s.fired = false → AllOut s ∧ ∀ i ∈ cause, i ∈ s.counted
  closer : s.closer = some t → s.fired = false → l.claiming ≠ none
  observing : ∀ cause ∈ l.observing, s.winner = some t ∧ s.published = 0 ∧ AllOut s ∧
    ∀ i ∈ cause, i ∈ s.counted
  winner : s.winner = some t → s.published = 0 → l.observing ≠ none

variable {g : Graph}

lemma Sound.subtracted_eq {s : Countdown} (h : Sound g s) (hzero : s.remaining = 0)
    (hfired : s.fired = false) : s.subtracted = s.counted := by
  refine Finset.eq_of_subset_of_card_le (fun i hi => ?_) ?_
  · obtain ⟨n, hn, htaker⟩ := h.subtracted i hi
    by_contra hc
    have := (h.node hn).late hc htaker
    simp [hfired] at this
  · have := h.remaining
    omega

lemma Sound.allOut {s : Countdown} (h : Sound g s) (hzero : s.remaining = 0)
    (hfired : s.fired = false) : AllOut s := by
  intro i hi n hn
  have hsub := h.subtracted_eq hzero hfired
  obtain ⟨n', hn', htaker⟩ := h.subtracted i (hsub ▸ hi)
  obtain rfl : n' = n := some.inj (hn'.symm.trans hn)
  exact ((h.node hn).fed hi ((h.node hn).taken htaker)).1

/-! ### Steps on the nodes -/

/-- A step on the nodes alone: what is out stays out, and the only taker it sets is the thread itself. -/
structure Changes (t : ℕ) (s s' : Countdown) : Prop where
  rest : s' = { s with nodes := s'.nodes }
  forth : ∀ {i : ℕ} {n}, s.nodes[i]? = some n → ∃ n', s'.nodes[i]? = some n' ∧
    (n.out = true → n'.out = true) ∧ (n.taker ≠ none → n'.taker = n.taker)
  taker : ∀ {t' i : ℕ} {n'}, t' ≠ t → s'.nodes[i]? = some n' → n'.taker = some t' →
    ∃ n, s.nodes[i]? = some n ∧ n.taker = some t'
  noter : ∀ {t' i : ℕ} {n'}, t' ≠ t → s'.nodes[i]? = some n' → n'.noter = some t' →
    n'.sawMedia = false → ∃ n, s.nodes[i]? = some n ∧ n.noter = some t' ∧ n.sawMedia = false

namespace Changes

variable {g : Graph} {t : ℕ} {s s' : Countdown}

lemma allOut (h : Changes t s s') (hs : Sound g s) (hall : AllOut s) : AllOut s' := by
  intro i hi n' hn'
  rw [h.rest] at hi
  obtain ⟨n, hn⟩ := hs.counted i hi
  obtain ⟨n₁, hn₁, hout, -⟩ := h.forth hn
  obtain rfl : n₁ = n' := some.inj (hn₁.symm.trans hn')
  exact hout (hall i hi n hn)

lemma sound (h : Changes t s s') (hs : Sound g s)
    (hnode : ∀ {i : ℕ} {n'}, s'.nodes[i]? = some n' → NodeOk s' i n') : Sound g s' := by
  have hrest := h.rest
  constructor
  case node => exact hnode
  case counted =>
    rw [hrest]
    intro i hi
    obtain ⟨n, hn⟩ := hs.counted i hi
    obtain ⟨n', hn', -⟩ := h.forth hn
    exact ⟨n', hn'⟩
  case subtracted =>
    rw [hrest]
    intro i hi
    obtain ⟨n, hn, htaker⟩ := hs.subtracted i hi
    obtain ⟨n', hn', -, hkeep⟩ := h.forth hn
    exact ⟨n', hn', by rwa [hkeep htaker]⟩
  all_goals rw [hrest]
  exacts [hs.armed, hs.remaining, hs.closed, hs.won, hs.start, hs.once, hs.publishedWon]

lemma others (h : Changes t s s') (hs : Sound g s) {t' : ℕ} {m : Call} (ht : t' ≠ t)
    (hm : Asserts t' s m) : Asserts t' s' m := by
  have hrest := h.rest
  have hall := h.allOut hs
  constructor
  case todo =>
    intro i hi
    obtain ⟨n, hn, hout⟩ := hm.todo i hi
    obtain ⟨n', hn', hkeep, -⟩ := h.forth hn
    exact ⟨n', hn', hkeep hout⟩
  case subtracting =>
    rw [hrest]
    intro i hi
    obtain ⟨hnot, n, hn, htaker⟩ := hm.subtracting i hi
    obtain ⟨n', hn', -, hkeep⟩ := h.forth hn
    exact ⟨hnot, n', hn', (hkeep (by simp [htaker])).trans htaker⟩
  case taker =>
    intro i n' hn' htaker hnot
    obtain ⟨n, hn, htaker⟩ := h.taker ht hn' htaker
    rw [hrest] at hnot
    exact hm.taker hn htaker hnot
  case noter =>
    intro i n' hn' hi hnoter hsaw
    obtain ⟨n, hn, hnoter, hsaw⟩ := h.noter ht hn' hnoter hsaw
    rw [hrest] at hi
    exact hm.noter hn hi hnoter hsaw
  case claiming =>
    intro cause hc hfired
    rw [hrest] at hfired ⊢
    exact ⟨hrest ▸ hall (hm.claiming cause hc hfired).1, (hm.claiming cause hc hfired).2⟩
  case observing =>
    intro cause hc
    obtain ⟨hwin, hpub, hout, hcause⟩ := hm.observing cause hc
    rw [hrest]
    exact ⟨hwin, hpub, hrest ▸ hall hout, hcause⟩
  all_goals rw [hrest]
  exacts [hm.closer, hm.winner]

end Changes

/-! ### Steps that mark nodes -/

structure Mark (t : ℕ) (n n' : Node) : Prop where
  kind : n'.kind = n.kind
  sawMedia : n'.sawMedia = n.sawMedia
  taker : n'.taker = n.taker
  keepsOut : n.out = true → n'.out = true
  out : n'.out = true → n.out = true ∨ n.sawMedia = true ∨ n'.noter = some t
  noter : n'.noter = n.noter ∨ n'.noter = some t

lemma Mark.refl (t : ℕ) (n : Node) : Mark t n n := ⟨rfl, rfl, rfl, id, .inl, .inl rfl⟩

structure Marks (t : ℕ) (s s' : Countdown) : Prop where
  rest : s' = { s with nodes := s'.nodes }
  back : ∀ {i : ℕ} {n'}, s'.nodes[i]? = some n' → ∃ n, s.nodes[i]? = some n ∧ Mark t n n'
  forth : ∀ {i : ℕ} {n}, s.nodes[i]? = some n → ∃ n', s'.nodes[i]? = some n' ∧ Mark t n n'

lemma Marks.change {t : ℕ} {s : Graph} {p : ℕ → Node → Bool} {f : Node → Node}
    (hf : ∀ i n, s.nodes[i]? = some n → p i n → Mark t n (f n)) : Marks t s (s.change p f) := by
  have hmark : ∀ {i n}, s.nodes[i]? = some n → Mark t n (if p i n then f n else n) := by
    intro i n hn
    split
    · exact hf i n hn ‹_›
    · exact .refl t n
  refine ⟨rfl, fun {i n'} h => ?_, fun {i n} h => ?_⟩
  · rw [s.getElem?_change p f, map_eq_some_iff] at h
    obtain ⟨n, hn, rfl⟩ := h
    exact ⟨n, hn, hmark hn⟩
  · exact ⟨_, by rw [s.getElem?_change p f, h, map_some], hmark h⟩

namespace Marks

variable {t : ℕ} {s s' : Countdown}

lemma changes (h : Marks t s s') : Changes t s s' where
  rest := h.rest
  forth hn := by
    obtain ⟨n', hn', hmark⟩ := h.forth hn
    exact ⟨n', hn', hmark.keepsOut, fun _ => hmark.taker⟩
  taker _ hn' htaker := by
    obtain ⟨n, hn, hmark⟩ := h.back hn'
    exact ⟨n, hn, hmark.taker ▸ htaker⟩
  noter ht hn' hnoter hsaw := by
    obtain ⟨n, hn, hmark⟩ := h.back hn'
    refine ⟨n, hn, ?_, hmark.sawMedia ▸ hsaw⟩
    rcases hmark.noter with heq | heq
    · rwa [← heq]
    · exact absurd (some.inj (hnoter.symm.trans heq)) ht

lemma sound (h : Marks t s s') {g : Graph} (hs : Sound g s) : Sound g s' := by
  refine h.changes.sound hs fun {i n'} hn' => ?_
  obtain ⟨n, hn, hmark⟩ := h.back hn'
  have hok := hs.node hn
  rw [h.rest]
  refine ⟨fun hi => hmark.kind.trans (hok.sink hi), ?_, ?_, ?_, ?_⟩
  · rw [hmark.taker, hmark.sawMedia]
    exact hok.taken
  · rw [hmark.taker, hmark.sawMedia]
    intro hi hsaw
    exact ⟨hmark.keepsOut (hok.fed hi hsaw).1, (hok.fed hi hsaw).2⟩
  · rw [hmark.taker]
    exact hok.late
  · rw [hmark.sawMedia]
    intro hi hout hsaw
    rcases hmark.noter with hnoter | hnoter
    · rw [hnoter]
      rcases hmark.out hout with hout | hsaw' | hnoter'
      · exact hok.noted hi hout hsaw
      · simp [hsaw] at hsaw'
      · rw [← hnoter, hnoter']
        simp
    · rw [hnoter]
      simp

lemma own (h : Marks t s s') {l' : Call} (hm : Asserts t s .idle) {rest : List ℕ} (hl : l'.Resumes rest)
    (hrest : ∀ i ∈ rest, ∃ n', s'.nodes[i]? = some n' ∧ n'.out = true)
    (hnoter : ∀ {i n n'}, s.nodes[i]? = some n → s'.nodes[i]? = some n' → i ∈ s.counted →
      n'.noter = some t → n.noter ≠ some t → n'.sawMedia = false → i ∈ rest) : Asserts t s' l' := by
  have heq := h.rest
  constructor
  case todo =>
    rw [hl.todo]
    exact hrest
  case subtracting => simp [hl.subtracting]
  case taker =>
    intro i n' hn' htaker hnot
    obtain ⟨n, hn, hmark⟩ := h.back hn'
    rw [heq] at hnot
    have := hm.taker hn (by rwa [← hmark.taker]) hnot
    simp [Call.subtracting] at this
  case noter =>
    intro i n' hn' hi hnote hsaw
    obtain ⟨n, hn, hmark⟩ := h.back hn'
    rw [heq] at hi
    rw [hl.todo]
    refine hnoter hn hn' hi hnote (fun hold => ?_) hsaw
    have := hm.noter hn hi hold (by rwa [← hmark.sawMedia])
    simp [Call.todo] at this
  case claiming => simp [hl.claiming]
  case observing => simp [hl.observing]
  all_goals rw [heq]
  · intro hc hf
    have := hm.closer hc hf
    simp [Call.claiming] at this
  · intro hw hp
    have := hm.winner hw hp
    simp [Call.observing] at this

end Marks

/-! ### The other steps -/

/-- A step of thread `t` keeps the invariant, the thread's assertion and those of the others. -/
structure Keeps (g : Graph) (t : ℕ) (s s' : Countdown) (l' : Call) : Prop where
  sound : Sound g s'
  own : Asserts t s' l'
  others : ∀ {t' m}, t' ≠ t → Asserts t' s m → Asserts t' s' m

section

variable {g : Graph} {t : ℕ} {s : Countdown} {l l' : Call} {rest : List ℕ}

lemma keeps_add (hs : Sound g s) (hl : Asserts t s .idle) (kind : NodeKind) (domain : Option ℕ) :
    Keeps g t s { s with nodes := s.nodes ++ [{ kind, domain }] } .idle := by
  have hback : ∀ {i : ℕ} {n}, (s.nodes ++ [({ kind, domain } : Node)])[i]? = some n →
      s.nodes[i]? = some n ∨ (n = { kind, domain } ∧ i ∉ s.counted) := by
    intro i n hn
    by_cases hi : i < s.nodes.length
    · exact .inl (by rwa [getElem?_append_left hi] at hn)
    · rw [getElem?_append_right (by omega), getElem?_singleton] at hn
      split at hn
      · refine .inr ⟨(some.inj hn).symm, fun hc => ?_⟩
        obtain ⟨m, hm⟩ := hs.counted i hc
        exact hi (List.getElem?_eq_some_iff.mp hm).1
      · simp at hn
  have hforth : ∀ {i : ℕ} {n}, s.nodes[i]? = some n →
      (s.nodes ++ [({ kind, domain } : Node)])[i]? = some n := fun hn =>
    (List.getElem?_append_left (List.getElem?_eq_some_iff.mp hn).1).trans hn
  have hchanges (t : ℕ) : Changes t s { s with nodes := s.nodes ++ [{ kind, domain }] } := by
    refine ⟨rfl, fun hn => ⟨_, hforth hn, id, fun _ => rfl⟩, fun _ hn' htaker => ?_,
      fun _ hn' hnoter hsaw => ?_⟩
    · rcases hback hn' with hn | ⟨rfl, -⟩
      · exact ⟨_, hn, htaker⟩
      · simp at htaker
    · rcases hback hn' with hn | ⟨rfl, -⟩
      · exact ⟨_, hn, hnoter, hsaw⟩
      · simp at hnoter
  -- the thread that adds the node knows nothing but what the others know
  refine ⟨(hchanges t).sound hs fun hn => ?_, (hchanges (t + 1)).others hs (by omega) hl,
    (hchanges t).others hs⟩
  rcases hback hn with hn | ⟨rfl, hc⟩
  · exact { hs.node hn with }
  · exact ⟨fun hi => absurd hi hc, by simp, fun hi => absurd hi hc, by simp,
      fun hi => absurd hi hc⟩

lemma keeps_mark {s' : Countdown} (hs : Sound g s) (hl : Asserts t s .idle)
    (h : Marks t s s') (hresumes : l'.Resumes rest)
    (hrest : ∀ i ∈ rest, ∃ n', s'.nodes[i]? = some n' ∧ n'.out = true)
    (hnoter : ∀ {i n n'}, s.nodes[i]? = some n → s'.nodes[i]? = some n' → i ∈ s.counted →
      n'.noter = some t → n.noter ≠ some t → n'.sawMedia = false → i ∈ rest) : Keeps g t s s' l' :=
  ⟨h.sound hs, h.own hl hresumes hrest hnoter, h.changes.others hs⟩

lemma keeps_resume (hs : Sound g s) (hl : Asserts t s l) (hresumes : l'.Resumes rest)
    (htodo : ∀ i ∈ rest, i ∈ l.todo)
    (hnoter : ∀ {i n}, s.nodes[i]? = some n → i ∈ s.counted → n.noter = some t →
      n.sawMedia = false → i ∈ l.todo → i ∈ rest)
    (hsub : l.subtracting = none) (hclaim : l.claiming = none ∨ s.fired = true)
    (hobserve : l.observing = none) : Keeps g t s s l' := by
  refine ⟨hs, ?_, fun _ hm => hm⟩
  constructor
  case todo =>
    rw [hresumes.todo]
    exact fun i hi => hl.todo i (htodo i hi)
  case subtracting => simp [hresumes.subtracting]
  case taker =>
    intro i n hn htaker hnot
    have := hl.taker hn htaker hnot
    simp [hsub] at this
  case noter =>
    intro i n hn hi hnote hsaw
    rw [hresumes.todo]
    exact hnoter hn hi hnote hsaw (hl.noter hn hi hnote hsaw)
  case claiming => simp [hresumes.claiming]
  case observing => simp [hresumes.observing]
  case closer =>
    intro hc hf
    rcases hclaim with h | h
    · exact absurd h (hl.closer hc hf)
    · simp [hf] at h
  case winner => exact fun hw hp => absurd hobserve (hl.winner hw hp)

end

/-! ### The compare-and-swap on `sawMedia` -/

section

variable {g : Graph} {t i : ℕ} {s : Graph} {rest : List ℕ} {locks : Bool}

lemma swap_other (s : Graph) {j : ℕ} (hj : j ≠ i) : (s.swapSawMedia t i).nodes[j]? = s.nodes[j]? := by
  rw [Graph.swapSawMedia, s.getElem?_change]
  simp [hj]

structure Swaps (t : ℕ) (s : Graph) (i : ℕ) (m : Node) : Prop where
  node : s.nodes[i]? = some m
  out : m.out = true
  sawMedia : m.sawMedia = false
  taker : m.taker = none
  notSubtracted : i ∉ s.subtracted
  self : (s.swapSawMedia t i).nodes[i]? = some { m with sawMedia := true, taker := some t }

lemma Swaps.of_asserts (hs : Sound g s)
    (hl : Asserts t s (.cas i rest locks)) (hsaw : s.nodeIs (·.sawMedia) i = false) :
    ∃ m, Swaps t s i m := by
  obtain ⟨m, hm, hout⟩ := hl.todo i (by simp [Call.todo])
  have hmsaw : m.sawMedia = false := by simpa [Graph.nodeIs, hm] using hsaw
  have htaker : m.taker = none := by
    by_contra hc
    have := (hs.node hm).taken hc
    simp [hmsaw] at this
  refine ⟨m, hm, hout, hmsaw, htaker, fun hi => ?_, ?_⟩
  · obtain ⟨n, hn, hne⟩ := hs.subtracted i hi
    obtain rfl : n = m := some.inj (hn.symm.trans hm)
    exact hne htaker
  · rw [Graph.swapSawMedia, s.getElem?_change, hm]
    simp

namespace Swaps

variable {m : Node}

section

variable (h : Swaps t s i m)
include h

lemma cases {j : ℕ} {n : Node} (hn : (s.swapSawMedia t i).nodes[j]? = some n) :
    (j = i ∧ n = { m with sawMedia := true, taker := some t }) ∨ (j ≠ i ∧ s.nodes[j]? = some n) := by
  by_cases hj : j = i
  · subst hj
    exact .inl ⟨rfl, (some.inj (h.self.symm.trans hn)).symm⟩
  · rw [swap_other s hj] at hn
    exact .inr ⟨hj, hn⟩

lemma changes : Changes t s (s.swapSawMedia t i) where
  rest := rfl
  forth {j n} hn := by
    by_cases hj : j = i
    · subst hj
      obtain rfl : m = n := some.inj (h.node.symm.trans hn)
      exact ⟨_, h.self, id, fun hne => absurd h.taker hne⟩
    · exact ⟨n, (swap_other s hj).trans hn, id, fun _ => rfl⟩
  taker ht hn' htaker := by
    rcases h.cases hn' with ⟨-, rfl⟩ | ⟨-, hn⟩
    · exact absurd (some.inj htaker).symm ht
    · exact ⟨_, hn, htaker⟩
  noter _ hn' hnoter hsaw := by
    rcases h.cases hn' with ⟨-, rfl⟩ | ⟨-, hn⟩
    · simp at hsaw
    · exact ⟨_, hn, hnoter, hsaw⟩

lemma sound (hs : Sound g s) (htimely : i ∈ s.counted ∨ s.fired = true) :
    Sound g (s.swapSawMedia t i) := by
  refine h.changes.sound hs fun hn => ?_
  rcases h.cases hn with ⟨rfl, rfl⟩ | ⟨-, hn⟩
  · exact ⟨(hs.node h.node).sink, fun _ => rfl, fun _ _ => ⟨h.out, by simp⟩,
      fun hc _ => htimely.resolve_left hc, fun _ _ hsaw => by simp at hsaw⟩
  · exact { hs.node hn with }

lemma own (hl : Asserts t s (.cas i rest locks)) :
    Asserts t (s.swapSawMedia t i) (.subtract i rest locks) := by
  constructor
  case todo =>
    intro j hj
    obtain ⟨n, hn, hout⟩ := hl.todo j (mem_cons_of_mem _ hj)
    obtain ⟨n', hn', hkeep, -⟩ := h.changes.forth hn
    exact ⟨n', hn', hkeep hout⟩
  case subtracting =>
    intro j hj
    obtain rfl : i = j := some.inj hj
    exact ⟨h.notSubtracted, _, h.self, rfl⟩
  case taker =>
    intro j n hn htaker hnot
    rcases h.cases hn with ⟨rfl, -⟩ | ⟨-, hn⟩
    · rfl
    · have := hl.taker hn htaker hnot
      simp [Call.subtracting] at this
  case noter =>
    intro j n hn hj hnoter hsaw
    rcases h.cases hn with ⟨-, rfl⟩ | ⟨hji, hn⟩
    · simp at hsaw
    · exact (mem_cons.mp (hl.noter hn hj hnoter hsaw)).resolve_left hji
  case claiming => simp [Call.claiming]
  case observing => simp [Call.observing]
  exacts [hl.closer, hl.winner]

end

end Swaps

lemma keeps_swap (hs : Sound g s) (hl : Asserts t s (.cas i rest locks))
    (hsaw : s.nodeIs (·.sawMedia) i = false) (htimely : i ∈ s.counted ∨ s.fired = true) :
    Keeps g t s (s.swapSawMedia t i) (.subtract i rest locks) := by
  obtain ⟨m, h⟩ := Swaps.of_asserts hs hl hsaw
  exact ⟨h.sound hs htimely, h.own hl, h.changes.others hs⟩

end

/-! ### The countdown -/

section

variable {g : Graph} {t i : ℕ} {s : Graph} {l' : Call} {rest : List ℕ}
  {locks : Bool} {cause : Option ℕ}

lemma sound_subtract (hs : Sound g s) (hl : Asserts t s (.subtract i rest locks)) (closer : Option ℕ)
    (hcloser : closer = some t ∨ closer = s.closer ∧ (s.subtract i).remaining ≠ 0) :
    Sound g { (s.subtract i).toCountdown with closer := closer } := by
  obtain ⟨hnot, m, hm, htaker⟩ := hl.subtracting i rfl
  constructor
  case node =>
    intro j n hn
    exact { hs.node hn with }
  case subtracted =>
    intro j hj
    rcases Finset.mem_insert.mp hj with rfl | hj
    · exact ⟨m, hm, by simp [htaker]⟩
    · exact hs.subtracted j hj
  case remaining =>
    have := hs.remaining
    simp only [Graph.subtract, Finset.card_insert_of_notMem hnot]
    omega
  case closed =>
    intro hsinks hle
    rcases hcloser with rfl | ⟨rfl, hne⟩
    · simp
    · refine hs.closed hsinks ?_
      simp only [Graph.subtract] at hle hne
      omega
  exacts [hs.armed, hs.counted, hs.won, hs.start, hs.once, hs.publishedWon]

lemma asserts_subtract {t' : ℕ} {l : Call} (ht : t' ≠ t) (hl : Asserts t' s l)
    (hown : Asserts t s (.subtract i rest locks)) {closer : Option ℕ}
    (hcloser : closer = some t ∨ closer = s.closer) :
    Asserts t' { (s.subtract i).toCountdown with closer := closer } l := by
  obtain ⟨-, m, hm, htaker⟩ := hown.subtracting i rfl
  constructor
  case subtracting =>
    intro j hj
    obtain ⟨hnot, n, hn, hn'⟩ := hl.subtracting j hj
    refine ⟨fun hmem => ?_, n, hn, hn'⟩
    rcases Finset.mem_insert.mp hmem with rfl | hmem
    · obtain rfl : n = m := some.inj (hn.symm.trans hm)
      exact ht (some.inj (hn'.symm.trans htaker))
    · exact hnot hmem
  case taker =>
    exact fun hn hn' hnot => hl.taker hn hn' fun hmem => hnot (Finset.mem_insert_of_mem hmem)
  case closer =>
    intro hc
    rcases hcloser with rfl | rfl
    · exact absurd (some.inj hc).symm ht
    · exact hl.closer hc
  exacts [hl.todo, hl.noter, hl.claiming, hl.observing, hl.winner]

lemma own_subtract (hl : Asserts t s (.subtract i rest locks))
    (htodo : l'.todo = rest) (hsub : l'.subtracting = none) (hobs : l'.observing = none)
    {closer : Option ℕ} (hclaim : ∀ cause ∈ l'.claiming, s.fired = false →
      AllOut s ∧ ∀ i ∈ cause, i ∈ s.counted)
    (hcloser : closer = some t → s.fired = false → l'.claiming ≠ none) :
    Asserts t { (s.subtract i).toCountdown with closer := closer } l' := by
  constructor
  case todo => rw [htodo]; exact hl.todo
  case subtracting => simp [hsub]
  case taker =>
    intro j n hn htaker hnot
    have hmem := hl.taker hn htaker fun h => hnot (Finset.mem_insert_of_mem h)
    obtain rfl : i = j := some.inj hmem
    exact absurd (Finset.mem_insert_self i _) hnot
  case noter => rw [htodo]; exact hl.noter
  case observing => simp [hobs]
  case winner => exact fun hw hp => absurd rfl (hl.winner hw hp)
  exacts [hclaim, hcloser]

section

variable (hs : Sound g s)
include hs

lemma keeps_subtract (hl : Asserts t s (.subtract i rest locks))
    (hne : (s.subtract i).remaining ≠ 0) (hresumes : l'.Resumes rest) :
    Keeps g t s (s.subtract i) l' := by
  refine ⟨sound_subtract hs hl _ (.inr ⟨rfl, hne⟩), ?_, fun ht hm =>
    asserts_subtract ht hm hl (.inr rfl)⟩
  refine own_subtract hl hresumes.todo hresumes.subtracting hresumes.observing
    (by simp [hresumes.claiming]) fun hc hf => ?_
  exact absurd rfl (hl.closer hc hf)

lemma keeps_close (hl : Asserts t s (.subtract i rest locks)) (hzero : (s.subtract i).remaining = 0) :
    Keeps g t s { (s.subtract i).toCountdown with closer := some t }
      (.claim (some i) rest locks) := by
  have hsound := sound_subtract hs hl (some t) (.inl rfl)
  refine ⟨hsound, ?_, fun ht hm => asserts_subtract ht hm hl (.inl rfl)⟩
  refine own_subtract hl rfl rfl rfl ?_ fun _ _ => by simp [Call.claiming]
  intro cause hc hfired
  obtain rfl : some i = cause := some.inj hc
  refine ⟨hsound.allOut hzero hfired, fun j hj => ?_⟩
  obtain rfl : i = j := some.inj hj
  have hsub := hsound.subtracted_eq hzero hfired
  exact hsub ▸ Finset.mem_insert_self i _

lemma keeps_win (hl : Asserts t s (.claim cause rest locks)) (hfired : s.fired = false) :
    Keeps g t s { s.toCountdown with fired := true, winner := some t }
      (.observe cause rest locks) := by
  have hwinner : s.winner = none := by
    by_contra hc
    have := (hs.won.mp hc).1
    simp [hfired] at this
  have hpublished : s.published = 0 := by
    by_contra hc
    exact hs.publishedWon hc hwinner
  have hstart : g.fired = false := by
    by_contra hc
    have := hs.start (by simpa using hc)
    simp [hfired] at this
  refine ⟨?_, ?_, fun {t' m} ht hm => ?_⟩
  · constructor
    case node =>
      intro j n hn
      exact { hs.node hn with late := fun _ _ => rfl }
    case won => simp [hstart]
    case start => simp
    case publishedWon => simp
    exacts [hs.armed, hs.counted, hs.subtracted, hs.remaining, hs.closed, hs.once]
  · constructor
    case claiming => simp
    case closer => simp
    case observing =>
      intro cause' hc
      obtain rfl : cause = cause' := some.inj hc
      exact ⟨rfl, hpublished, hl.claiming cause rfl hfired⟩
    case winner => simp [Call.observing]
    exacts [hl.todo, hl.subtracting, hl.taker, hl.noter]
  · constructor
    case claiming => simp
    case closer => simp
    case observing =>
      intro cause' hc
      have := (hm.observing cause' hc).1
      simp [hwinner] at this
    case winner => exact fun hw => absurd (some.inj hw).symm ht
    exacts [hm.todo, hm.subtracting, hm.taker, hm.noter]

lemma keeps_publish (hl : Asserts t s (.observe cause rest locks)) (hresumes : l'.Resumes rest) :
    Keeps g t s { s.toCountdown with published := s.published + 1 } l' := by
  obtain ⟨hwinner, hpublished, -, -⟩ := hl.observing cause rfl
  refine ⟨?_, ?_, fun {t' m} ht hm => ?_⟩
  · constructor
    case node =>
      intro j n hn
      exact { hs.node hn with }
    case once => simp [hpublished]
    case publishedWon => simp [hwinner]
    exacts [hs.armed, hs.counted, hs.subtracted, hs.remaining, hs.closed, hs.won, hs.start]
  · constructor
    case todo => rw [hresumes.todo]; exact hl.todo
    case subtracting => simp [hresumes.subtracting]
    case taker =>
      intro j n hn htaker hnot
      have := hl.taker hn htaker hnot
      simp [Call.subtracting] at this
    case noter => rw [hresumes.todo]; exact hl.noter
    case claiming => simp [hresumes.claiming]
    case closer => exact fun hc hf => absurd rfl (hl.closer hc hf)
    case observing => simp [hresumes.observing]
    case winner => simp
  · constructor
    case observing =>
      intro cause' hc
      have := (hm.observing cause' hc).1
      exact absurd (some.inj (this.symm.trans hwinner)) ht
    case winner => simp
    exacts [hm.todo, hm.subtracting, hm.taker, hm.noter, hm.claiming, hm.closer]

end

end

/-! ### Every step -/

/-- No sink added during the run is noted before the event has been claimed. -/
def timely (_ : ℕ) (_ : Action) (s : Graph) (l : Call) : Prop :=
  match l with
  | .cas i _ _ => s.nodeIs (·.sawMedia) i = true ∨ i ∈ s.counted ∨ s.fired = true
  | _ => True

instance (t : ℕ) (a : Action) (s : Graph) (l : Call) : Decidable (timely t a s l) := by
  unfold timely
  cases l <;> infer_instance

section

variable {g : Graph} {t i : ℕ} {s s' : Graph} {l l' : Call}

lemma keeps_proceed (s₁ : Graph) {rest : List ℕ} (locks : Bool)
    (h : ∀ {l'}, l'.Resumes rest → Keeps g t s s₁ l') :
    Keeps g t s (s₁.proceed rest locks).1 (s₁.proceed rest locks).2 := by
  obtain ⟨heq, hresumes⟩ := s₁.proceed_spec rest locks
  rw [heq]
  exact h hresumes

section

variable (hs : Sound g s)
include hs

section

variable (hl : Asserts t s .idle)
include hl

lemma keeps_takeOut (p : ℕ → Node → Bool) :
    Keeps g t s (s.takeOut t p).1 (s.takeOut t p).2 := by
  refine keeps_proceed { s.change p fun n =>
      { n with presence := .left, out := true, noter := some t } with locked := true }
    true fun hresumes => keeps_mark hs hl
    (Marks.change fun i n _ _ => ⟨rfl, rfl, rfl, fun _ => rfl, fun _ => .inr (.inr rfl), .inr rfl⟩)
    hresumes ?_ ?_
  · intro i hi
    obtain ⟨n, hn, -, hp⟩ := Graph.mem_sinksWith.mp hi
    refine ⟨_, (s.getElem?_change p _ i).trans (by rw [hn, map_some]), ?_⟩
    rw [if_pos hp]
  · intro i n n' hn hn' hi hnoter hold hsaw
    rw [s.getElem?_change p, hn, map_some, Option.some.injEq] at hn'
    refine Graph.mem_sinksWith.mpr ⟨n, hn, (hs.node hn).sink hi, ?_⟩
    by_contra hp
    rw [if_neg hp] at hn'
    exact hold (hn' ▸ hnoter)

lemma keeps_received (hsaw : s.nodeIs (·.sawMedia) i = true) :
    Keeps g t s (s.change (fun j _ => j = i) fun n => { n with out := true }) .idle := by
  refine keeps_mark hs hl (Marks.change fun j n hn hj => ⟨rfl, rfl, rfl, fun _ => rfl, fun _ => ?_,
    .inl rfl⟩) Call.resumes_idle (by simp) ?_
  · rw [of_decide_eq_true hj] at hn
    exact .inr (.inl (by simpa [Graph.nodeIs, hn] using hsaw))
  · intro j n n' hn hn' _ hnoter hold _
    rw [s.getElem?_change, hn, map_some, Option.some.injEq] at hn'
    refine absurd ?_ hold
    rw [← hnoter, ← hn']
    split <;> rfl

lemma keeps_deliver (hsink : s.nodeIs (fun n => n.kind = .sink) i = true) :
    Keeps g t s
      (s.change (fun j _ => j = i) fun n => { n with out := true, noter := some t })
      (.cas i [] false) := by
  refine keeps_mark hs hl (Marks.change fun j n _ _ => ⟨rfl, rfl, rfl, fun _ => rfl,
    fun _ => .inr (.inr rfl), .inr rfl⟩) (Call.resumes_cas i [] false) ?_ ?_
  · intro j hj
    obtain rfl := mem_singleton.mp hj
    simp only [Graph.nodeIs, any_eq_true_iff_get] at hsink
    obtain ⟨h, -⟩ := hsink
    obtain ⟨n, hn⟩ := isSome_iff_exists.mp h
    exact ⟨_, (s.getElem?_change _ _ j).trans (by rw [hn, map_some]), by simp⟩
  · intro j n n' hn hn' _ hnoter hold _
    rw [s.getElem?_change, hn, map_some, Option.some.injEq] at hn'
    by_contra hj
    rw [if_neg (by simpa using hj)] at hn'
    exact hold (hn' ▸ hnoter)

end

/-- **Every step** that is timely keeps the invariant and the assertions. -/
lemma act_keeps {a : Action} (hl : Asserts t s l) (htimely : timely t a s l)
    (h : act t a s l = some (s', l')) : Keeps g t s s' l' := by
  match l, a with
  | .idle, .add kind domain =>
    simp only [act] at h
    split at h
    · simp at h
    · cases h
      exact keeps_add hs hl kind domain
  | .idle, .deliver i kind =>
    simp only [act] at h
    split at h
    · split at h
      · rename_i hsink
        split at h
        · cases h
          exact keeps_received hs hl ‹_›
        · cases h
          exact keeps_deliver hs hl (by simpa using (Bool.and_eq_true_iff.mp hsink).1)
      · cases h
        exact ⟨hs, hl, fun _ hm => hm⟩
    · simp at h
  | .idle, .remove i =>
    simp only [act] at h
    split at h
    · simp at h
    · obtain ⟨rfl, rfl⟩ := Prod.mk.inj (some.inj h)
      exact keeps_takeOut hs hl _
  | .idle, .retire d =>
    simp only [act] at h
    split at h
    · simp at h
    · obtain ⟨rfl, rfl⟩ := Prod.mk.inj (some.inj h)
      exact keeps_takeOut hs hl _
  | .cas i rest locks, .next =>
    simp only [act] at h
    split at h
    · rename_i hsaw
      obtain ⟨rfl, rfl⟩ := Prod.mk.inj (some.inj h)
      refine keeps_proceed _ locks fun hresumes => keeps_resume hs hl hresumes
        (fun j hj => mem_cons_of_mem _ hj) ?_ rfl (.inl rfl) rfl
      intro j n hn _ _ hnsaw hmem
      refine (mem_cons.mp hmem).resolve_left ?_
      rintro rfl
      simp [Graph.nodeIs, hn, hnsaw] at hsaw
    · rename_i hsaw
      cases h
      exact keeps_swap hs hl (by simpa using hsaw) (htimely.resolve_left hsaw)
  | .subtract i rest locks, .next =>
    simp only [act] at h
    split at h
    · cases h
      exact keeps_close hs hl ‹_›
    · obtain ⟨rfl, rfl⟩ := Prod.mk.inj (some.inj h)
      exact keeps_proceed _ locks fun hresumes => keeps_subtract hs hl ‹_› hresumes
  | .claim cause rest locks, .next =>
    simp only [act] at h
    split at h
    · obtain ⟨rfl, rfl⟩ := Prod.mk.inj (some.inj h)
      exact keeps_proceed _ locks fun hresumes => keeps_resume hs hl hresumes (fun _ hj => hj)
        (fun _ _ _ _ hmem => hmem) rfl (.inr ‹_›) rfl
    · cases h
      exact keeps_win hs hl (by simpa using ‹¬ s.fired = true›)
  | .observe cause rest locks, .next =>
    obtain ⟨rfl, rfl⟩ := Prod.mk.inj (some.inj h)
    exact keeps_proceed _ locks fun hresumes => keeps_publish hs hl hresumes

end

end

/-! ### Where a run begins -/

lemma card_unfedSinks (g : Graph) : g.unfedSinks.card = g.nodes.countP Node.unfed := by
  suffices h : ∀ nodes : List Node,
      ((Finset.range nodes.length).filter fun i => nodes[i]?.any Node.unfed).card =
        nodes.countP Node.unfed from h g.nodes
  intro nodes
  induction nodes using List.reverseRecOn with
  | nil => rfl
  | append_singleton nodes n ih =>
    have hold : ((Finset.range nodes.length).filter fun i =>
        (nodes ++ [n])[i]?.any Node.unfed) =
        (Finset.range nodes.length).filter fun i => nodes[i]?.any Node.unfed := by
      refine Finset.filter_congr fun i hi => ?_
      rw [getElem?_append_left (Finset.mem_range.mp hi)]
    rw [length_append, length_singleton, Finset.range_add_one, Finset.filter_insert, hold,
      countP_append, ← ih]
    by_cases hn : n.unfed = true
    · simp [hn]
    · simp [hn]

lemma unfed_of_mem {i : ℕ} {n : Node} (hi : i ∈ g.unfedSinks)
    (hn : g.nodes[i]? = some n) : n.kind = .sink ∧ n.sawMedia = false := by
  have := (Finset.mem_filter.mp hi).2
  simp only [Graph.nodeIs, hn, any_some, Node.unfed, Node.activeSink, Bool.and_eq_true,
    decide_eq_true_eq, Bool.not_eq_true'] at this
  exact ⟨this.1.1, this.2⟩

lemma arm_node {i : ℕ} {n' : Node} (h : (arm g).shared.nodes[i]? = some n') :
    ∃ n, g.nodes[i]? = some n ∧ n'.kind = n.kind ∧ n'.sawMedia = n.sawMedia ∧ n'.out = false ∧
      n'.noter = none ∧ n'.taker = none := by
  simp only [arm, getElem?_map, map_eq_some_iff] at h
  obtain ⟨n, hn, rfl⟩ := h
  exact ⟨n, hn, rfl, rfl, rfl, rfl, rfl⟩

lemma sound_arm (g : Graph) : Sound g (arm g).shared := by
  constructor
  case armed => rfl
  case node =>
    intro i n' hn'
    obtain ⟨n, hn, hkind, hsaw, hout, hnoter, htaker⟩ := arm_node hn'
    refine ⟨fun hi => hkind.trans (unfed_of_mem hi hn).1, by simp [htaker], fun hi hsaw' => ?_,
      by simp [htaker], by simp [hout]⟩
    rw [hsaw, (unfed_of_mem hi hn).2] at hsaw'
    simp at hsaw'
  case counted =>
    intro i hi
    have hlt := Finset.mem_range.mp (Finset.mem_filter.mp hi).1
    simp [arm, hlt]
  case remaining =>
    show (g.nodes.countP Node.unfed : ℤ) = g.unfedSinks.card - (∅ : Finset ℕ).card
    simp [card_unfedSinks]
  case closed =>
    intro hsinks hle
    have hunfed : g.nodes.countP Node.unfed = 0 := by
      simp only [arm] at hle
      omega
    simp [arm, hunfed, hsinks]
  case subtracted => simp [arm]
  case won => simp [arm]
  case start => exact fun h => h
  case once => simp [arm]
  case publishedWon => simp [arm]

lemma asserts_arm (g : Graph) (t : ℕ) : Asserts t (arm g).shared ((arm g).own t) := by
  have hown : (arm g).own t = .idle ∨ ((arm g).own t = .claim none [] true ∧
      g.nodes.countP Node.unfed = 0) := by
    simp only [arm]
    split_ifs with h
    · simp only [Bool.and_eq_true, decide_eq_true_eq] at h
      exact .inr ⟨rfl, h.1.2⟩
    · exact .inl rfl
  have hcloser : (arm g).shared.closer = some t → (arm g).own t = .claim none [] true := by
    simp only [arm]
    intro h
    split at h
    · rename_i hready
      rw [if_pos]
      simp only [Bool.and_eq_true] at hready ⊢
      exact ⟨hready, by simpa using (some.inj h).symm⟩
    · simp at h
  constructor
  case todo => rcases hown with h | ⟨h, -⟩ <;> simp [h, Call.todo]
  case subtracting => rcases hown with h | ⟨h, -⟩ <;> simp [h, Call.subtracting]
  case taker =>
    intro i n' hn' htaker
    obtain ⟨n, -, -, -, -, -, hnone⟩ := arm_node hn'
    simp [hnone] at htaker
  case noter =>
    intro i n' hn' _ hnoter
    obtain ⟨n, -, -, -, -, hnone, -⟩ := arm_node hn'
    simp [hnone] at hnoter
  case claiming =>
    intro cause hc _
    rcases hown with h | ⟨h, hunfed⟩
    · simp [h, Call.claiming] at hc
    · have hnone : (arm g).shared.counted = ∅ := by
        rw [← Finset.card_eq_zero]
        exact (card_unfedSinks g).trans hunfed
      have hcause : cause = none := by simpa [h, Call.claiming] using hc.symm
      refine ⟨fun i hi => ?_, by simp [hcause]⟩
      rw [hnone] at hi
      simp at hi
  case closer =>
    intro hc _
    simp [hcloser hc, Call.claiming]
  case observing => rcases hown with h | ⟨h, -⟩ <;> simp [h, Call.observing]
  case winner => simp [arm]

/-- All sinks unfed at first are out. -/
def Graph.Out (g : Graph) (c : Threads Graph Call) : Prop :=
  ∀ i ∈ g.unfedSinks, c.shared.nodeIs (·.out) i = true

lemma published_of_idle {c : Threads Graph Call} (hs : Sound g c.shared)
    (hl : ∀ t, Asserts t c.shared (c.own t)) (hidle : ∀ t, c.own t = .idle)
    (hout : AllOut c.shared) (hsinks : 0 < g.nodes.countP Node.activeSink)
    (hstart : g.fired = false) : c.shared.published = 1 := by
  have hsub : c.shared.counted ⊆ c.shared.subtracted := by
    intro i hi
    obtain ⟨n, hn⟩ := hs.counted i hi
    have hok := hs.node hn
    have hsaw : n.sawMedia = true := by
      by_contra hc
      rw [Bool.not_eq_true] at hc
      obtain ⟨t, ht⟩ := ne_none_iff_exists'.mp (hok.noted hi (hout i hi n hn) hc)
      have := (hl t).noter hn hi ht hc
      simp [hidle t, Call.todo] at this
    obtain ⟨t, ht⟩ := ne_none_iff_exists'.mp (hok.fed hi hsaw).2
    by_contra hnot
    have := (hl t).taker hn ht hnot
    simp [hidle t, Call.subtracting] at this
  have hcard := Finset.card_le_card hsub
  have hremaining := hs.remaining
  obtain ⟨t, ht⟩ := ne_none_iff_exists'.mp (hs.closed hsinks (by omega))
  have hfired : c.shared.fired = true := by
    by_contra hc
    have := (hl t).closer ht (by simpa using hc)
    simp [hidle t, Call.claiming] at this
  obtain ⟨w, hw⟩ := ne_none_iff_exists'.mp (hs.won.mpr ⟨hfired, hstart⟩)
  have hpublished : c.shared.published ≠ 0 := by
    intro hc
    have := (hl w).winner hw hc
    simp [hidle w, Call.observing] at this
  have := hs.once
  omega

/-- **Readiness.** Where no sink added during the run is noted before the event is claimed, the event is
published at most once, only when every sink unfed at first is out, and has been once all are out and no
call is under way. -/
theorem ready_when_all_out (g : Graph) {c : Threads Graph Call} (h : Reaches act timely (arm g) c) :
    c.shared.published ≤ 1 ∧
      (∀ t cause rest locks, c.own t = .observe cause rest locks →
        g.Out c ∧ ∀ i ∈ cause, i ∈ g.unfedSinks) ∧
      ((∀ t, c.own t = .idle) → g.Out c → 0 < g.nodes.countP Node.activeSink →
        g.fired = false → c.shared.published = 1) := by
  obtain ⟨hs, hl⟩ := h.outline (fun s => Sound g s.toCountdown)
    (fun t s l => Asserts t s.toCountdown l) (sound_arm g) (asserts_arm g)
    (fun hs hl hg ha => ⟨(act_keeps hs hl hg ha).sound, (act_keeps hs hl hg ha).own⟩)
    (fun hs hl hg ha _ _ => (act_keeps hs hl hg ha).others)
  have hout : AllOut c.shared ↔ g.Out c := by
    unfold AllOut Graph.Out
    rw [hs.armed]
    refine forall₂_congr fun i hi => ?_
    obtain ⟨n, hn⟩ := hs.counted i (hs.armed ▸ hi)
    simp [Graph.nodeIs, hn]
  refine ⟨hs.once, fun t cause rest locks ht => ?_, fun hidle hall hsinks hstart => ?_⟩
  · obtain ⟨-, -, hall, hcause⟩ := (hl t).observing cause (by rw [ht]; rfl)
    exact ⟨hout.mp hall, hs.armed ▸ hcause⟩
  · exact published_of_idle hs hl hidle (hout.mpr hall) hsinks hstart

def oneSink : Graph := { nodes := [{ kind := .sink }] }

theorem ready_when_fed :
    ∃ c, Reaches act timely (arm oneSink) c ∧ c.own 3 = .observe (some 0) [] false ∧
      c.shared.published ≤ 1 ∧ oneSink.Out c := by
  obtain ⟨c, hc⟩ : ∃ c, (arm oneSink).exec act timely
      [(3, .deliver 0 .packet), (3, .next), (3, .next), (3, .next)] = some c := ⟨_, rfl⟩
  have hreaches := Reaches.refl.exec _ hc
  have hown : c.own 3 = .observe (some 0) [] false := by
    rw [← some.inj hc]
    rfl
  have hready := ready_when_all_out oneSink hreaches
  exact ⟨c, hreaches, hown, hready.1, (hready.2.1 3 _ _ _ hown).1⟩

/-- A sink added during the run receives the first packet. -/
theorem ready_before_first_sink_fed :
    ¬ ∀ (g : Graph) (c : Threads Graph Call), Reaches act (fun _ _ _ _ => True) (arm g) c →
      c.shared.published ≤ 1 ∧
        (∀ t cause rest locks, c.own t = .observe cause rest locks →
          g.Out c ∧ ∀ i ∈ cause, i ∈ g.unfedSinks) ∧
        ((∀ t, c.own t = .idle) → g.Out c → 0 < g.nodes.countP Node.activeSink →
          g.fired = false → c.shared.published = 1) := by
  intro h
  obtain ⟨c, hc⟩ : ∃ c, (arm oneSink).exec act (fun _ _ _ _ => True)
      [(1, .add .sink none), (2, .deliver 1 .packet), (2, .next), (2, .next), (2, .next)] =
      some c := ⟨_, rfl⟩
  have hown : c.own 2 = .observe (some 1) [] false := by
    rw [← some.inj hc]
    rfl
  have hfirst : c.shared.nodeIs (·.out) 0 = false := by
    rw [← some.inj hc]
    rfl
  have hout := ((h oneSink c (Reaches.refl.exec _ hc)).2.1 2 _ _ _ hown).1 0 (by decide)
  simp [hfirst] at hout

end Goav.Pipeline
