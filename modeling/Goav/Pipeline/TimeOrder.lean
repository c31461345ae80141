import Goav.Pipeline.TimeOrderTurn

/-!
The packets of a time order. As long as no context is done, what was delivered and the merge of what is
left are the merge of all (`MergeOk`). Every step lowers the rank of its source.
-/

namespace Goav.Pipeline

open Goav.Av Goav.Lib OrderCall Function Option List

def packetKey (p : Packet) : ℤ := (packetTime p).getD 0

/-! ### Where a source is -/

def PassBy.pending : PassBy → Option Packet
  | .yielding p => some p
  | .leaving _ => none

def PassBy.orderly (by_ : PassBy) (todo : List Packet) : Prop :=
  match by_ with
  | .yielding _ => True
  | .leaving by_ => by_ = .deferred ∧ todo = []

/-- The source was chosen because it is unstarted, or for its packet. -/
def IsChoice (s : TimeOrder) (next : ℕ) (seen : TurnState) : Prop :=
  seen = .unstarted ∨
    seen = .waiting ∧ ∃ k, earliest (headKey packetKey s.remaining) s.count = some (next, k)

namespace OrderCall

def pending : OrderCall → Option Packet
  | .yieldLoadState p _ | .yieldStoreAt p _ | .yieldStoreState p | .yieldSelect p | .emit p => some p
  | .passLoadUnstarted by_ _ | .passLoadWaiting by_ _ _ | .passLoadAt by_ _ _ | .passLoadState by_ _
  | .passSwapState by_ _ _ | .passStoreHolder by_ _ | .passSend by_ _ => by_.pending
  | _ => none

def elected : OrderCall → Bool
  | .yieldSelect _ | .emit _ | .passStoreHolder (.yielding _) _ | .passSend (.yielding _) _ => true
  | _ => false

def orderly (call : OrderCall) (state : TurnState) (todo : List Packet) : Prop :=
  match call with
  | .start | .yieldLoadState .. | .emit _ => state = .running
  | .leaveLoadState by_ => by_ = .deferred ∧ state = .running ∧ todo = []
  | .leaveStoreState by_ => by_ = .deferred ∧ todo = []
  | .leaveSwapState .. => False
  | .passLoadUnstarted by_ _ | .passLoadWaiting by_ _ _ | .passLoadAt by_ _ _ | .passLoadState by_ _
  | .passSwapState by_ _ _ | .passStoreHolder by_ _ | .passSend by_ _ => by_.orderly todo
  | .finished => todo = []
  | .enterSelect | .yieldStoreAt .. | .yieldStoreState _ | .yieldSelect _ => True

def timing (t : ℕ) (s : TimeOrder) : OrderCall → Prop
  | .yieldLoadState p at_ | .yieldStoreAt p at_ => packetTime p = some at_
  | .yieldStoreState p => packetTime p = some (s.turns t).parkedAt
  | _ => True

def compared (s : TimeOrder) : OrderCall → Prop
  | .passLoadWaiting _ i best => i ≤ s.count ∧ best = earliest (headKey packetKey s.remaining) i
  | .passLoadAt _ i best =>
    i < s.count ∧ s.stateOf i = .waiting ∧ best = earliest (headKey packetKey s.remaining) i
  | .passLoadState _ next => IsChoice s next (s.stateOf next)
  | .passSwapState _ next seen => s.stateOf next = seen ∧ IsChoice s next seen
  | _ => True

end OrderCall

/-! ### How much is left to do -/

/-- A bound on the steps of a source at its `Start`. -/
def startRank (n packets : ℕ) : ℕ := packets * (3 * n + 16) + (3 * n + 12)

def PassBy.rank (n : ℕ) (todo : List Packet) : PassBy → ℕ
  | .yielding _ => startRank n todo.length + 2
  | .leaving _ => 0

/-- A bound on the steps left. -/
def SourceRun.rank (n : ℕ) (l : SourceRun) : ℕ :=
  match l.call with
  | .enterSelect => startRank n l.todo.length + 1
  | .start => startRank n l.todo.length
  | .yieldLoadState .. => startRank n l.todo.length + (3 * n + 11)
  | .yieldStoreAt .. => startRank n l.todo.length + (3 * n + 10)
  | .yieldStoreState _ => startRank n l.todo.length + (3 * n + 9)
  | .yieldSelect _ => startRank n l.todo.length + 2
  | .emit _ => startRank n l.todo.length + 1
  | .leaveLoadState _ => 3 * n + 8
  | .leaveSwapState .. => 3 * n + 8
  | .leaveStoreState _ => 3 * n + 7
  | .passLoadUnstarted by_ i => by_.rank n l.todo + (6 + 2 * n + (n - i))
  | .passLoadWaiting by_ i _ => by_.rank n l.todo + (5 + 2 * (n - i))
  | .passLoadAt by_ i _ => by_.rank n l.todo + (4 + 2 * (n - i))
  | .passLoadState by_ _ => by_.rank n l.todo + 4
  | .passSwapState by_ _ _ => by_.rank n l.todo + 3
  | .passStoreHolder by_ _ => by_.rank n l.todo + 2
  | .passSend by_ _ => by_.rank n l.todo + 1
  | .finished => 0

/-! ### What holds as long as no context is done -/

structure MergeOk (n : ℕ) (lists : ℕ → List Packet) (s : TimeOrder) : Prop where
  count : s.count = n
  merged : s.delivered ++ merge packetKey n s.remaining = merge packetKey n lists
  ctxDone : ∀ i, s.ctxDone i = false
  timed : ∀ i, ∀ p ∈ s.remaining i, (packetTime p).isSome = true
  waiting : ∀ {i}, s.stateOf i = .waiting →
    ∃ p rest, s.remaining i = p :: rest ∧ packetTime p = some (s.turns i).parkedAt
  done : ∀ {i}, s.stateOf i = .done → s.remaining i = []
  chosen : ∀ {i}, s.chosen = some i →
    ∃ k, earliest (headKey packetKey s.remaining) s.count = some (i, k)

structure MergeSource (t : ℕ) (s : TimeOrder) (l : SourceRun) : Prop where
  remaining : s.remaining t = l.call.pending.toList ++ l.todo
  elected : l.call.elected = true → s.stateOf t = .running → s.chosen = some t
  orderly : l.call.orderly (s.stateOf t) l.todo
  timing : l.call.timing t s
  compared : l.call.compared s
  inRange : l.call = .finished ∨ t < s.count

structure MergeLater (u : ℕ) (s s' : TimeOrder) : Prop where
  count : s'.count = s.count
  remaining : s'.remaining u = s.remaining u
  parkedAt : (s'.turns u).parkedAt = (s.turns u).parkedAt
  chosen : s'.stateOf u = .running → (s.stateOf u = .running ∧ s'.chosen = s.chosen) ∨
    s.stateOf u = .unstarted ∨ s'.chosen = some u
  frozen : s.turn = some u → (∀ j, s'.stateOf j = s.stateOf j) ∧ s'.remaining = s.remaining

lemma MergeLater.rfl {u : ℕ} {s : TimeOrder} : MergeLater u s s :=
  ⟨Eq.refl _, Eq.refl _, Eq.refl _, fun h => .inl ⟨h, Eq.refl _⟩,
    fun _ => ⟨fun _ => Eq.refl _, Eq.refl _⟩⟩

lemma OrderCall.ne_unstarted_of_elected {t : ℕ} {call : OrderCall} {state : TurnState}
    (h : call.elected = true) (hallows : call.allows t state) : state ≠ .unstarted := by
  unfold elected at h
  unfold allows at hallows
  cases call with
  | passStoreHolder by_ next =>
    dsimp only at hallows
    cases by_ with
    | yielding p =>
      split at hallows
      · simp [hallows]
      · rcases hallows with h | h <;> simp [h]
    | leaving by_ => simp at h
  | passSend by_ next =>
    cases by_ with
    | yielding p => rcases hallows with h | h <;> simp [h]
    | leaving by_ => simp at h
  | yieldSelect p => rcases hallows with h | h <;> simp [h]
  | emit p => rcases hallows with h | h <;> simp [h]
  | _ => simp at h

theorem MergeSource.later {u : ℕ} {s s' : TimeOrder} {l : SourceRun} (h : MergeSource u s l)
    (hl : SourceOk u s l) (hlater : OrderLater u s s') (hmerge : MergeLater u s s') :
    MergeSource u s' l := by
  constructor
  case remaining =>
    rw [hmerge.remaining]
    exact h.remaining
  case elected =>
    intro helected hrun
    rcases hmerge.chosen hrun with ⟨hold, hchosen⟩ | hold | hchosen
    · rw [hchosen]
      exact h.elected helected hold
    · exact absurd hold (ne_unstarted_of_elected helected hl.allows)
    · exact hchosen
  case orderly =>
    have horderly := h.orderly
    have hrun : s.stateOf u = .running → s'.stateOf u = .running := by
      intro hrun
      rcases hlater.state with heq | ⟨-, hrun', -⟩
      · exact heq.trans hrun
      · exact hrun'
    cases hcall : l.call with
    | start =>
      rw [hcall] at horderly
      exact hrun horderly
    | yieldLoadState p at_ =>
      rw [hcall] at horderly
      exact hrun horderly
    | emit p =>
      rw [hcall] at horderly
      exact hrun horderly
    | leaveLoadState by_ =>
      rw [hcall] at horderly
      exact ⟨horderly.1, hrun horderly.2.1, horderly.2.2⟩
    | _ =>
      rw [hcall] at horderly
      exact horderly
  case timing =>
    have htiming := h.timing
    unfold OrderCall.timing at htiming ⊢
    rw [hmerge.parkedAt]
    exact htiming
  case compared =>
    have hcompared := h.compared
    have hpasses := hl.passes
    have hchoice (next : ℕ) (seen : TurnState) (hturn : s.turn = some u) (h : IsChoice s next seen) :
        IsChoice s' next seen := by
      unfold IsChoice
      rw [(hmerge.frozen hturn).2, hmerge.count]
      exact h
    unfold OrderCall.compared at hcompared ⊢
    cases hcall : l.call with
    | passLoadWaiting by_ i best =>
      rw [hcall] at hcompared hpasses
      rw [(hmerge.frozen (hpasses rfl)).2, hmerge.count]
      exact hcompared
    | passLoadAt by_ i best =>
      rw [hcall] at hcompared hpasses
      dsimp only
      rw [(hmerge.frozen (hpasses rfl)).2, (hmerge.frozen (hpasses rfl)).1, hmerge.count]
      exact hcompared
    | passLoadState by_ next =>
      rw [hcall] at hcompared hpasses
      dsimp only
      rw [(hmerge.frozen (hpasses rfl)).1]
      exact hchoice _ _ (hpasses rfl) hcompared
    | passSwapState by_ next seen =>
      rw [hcall] at hcompared hpasses
      dsimp only
      rw [(hmerge.frozen (hpasses rfl)).1]
      exact ⟨hcompared.1, hchoice _ _ (hpasses rfl) hcompared.2⟩
    | _ => trivial
  case inRange =>
    rw [hmerge.count]
    exact h.inRange

/-! ### Steps -/

structure MergeStep (n : ℕ) (lists : ℕ → List Packet) (t : ℕ) (s s' : TimeOrder) (l' : SourceRun) :
    Prop where
  order : MergeOk n lists s'
  later : ∀ u, u ≠ t → MergeLater u s s'
  source : MergeSource t s' l'

section

variable {n : ℕ} {lists : ℕ → List Packet} {t : ℕ} {s s' : TimeOrder} {l l' : SourceRun}
  {call call' : OrderCall} {todo todo' : List Packet}

lemma MergeStep.stays (hs : MergeOk n lists s) (h : MergeSource t s l') : MergeStep n lists t s s l' :=
  ⟨hs, fun _ _ => .rfl, h⟩

lemma MergeStep.hands (hs : MergeOk n lists s) (h : MergeSource t s l')
    (hstates : ∀ j, s'.stateOf j = s.stateOf j := by exact fun _ => rfl)
    (hparked : ∀ j, (s'.turns j).parkedAt = (s.turns j).parkedAt := by exact fun _ => rfl)
    (hcount : s'.count = s.count := by rfl) (hdelivered : s'.delivered = s.delivered := by rfl)
    (hctx : s'.ctxDone = s.ctxDone := by rfl) (hremaining : s'.remaining = s.remaining := by rfl)
    (hchosen : s'.chosen = s.chosen := by rfl) :
    MergeStep n lists t s s' l' := by
  refine ⟨⟨?_, ?_, ?_, ?_, ?_, ?_, ?_⟩, fun u _ => ⟨hcount, by rw [hremaining], hparked u, ?_, ?_⟩, ?_⟩
  · exact hcount.trans hs.count
  · rw [hdelivered, hremaining]
    exact hs.merged
  · rw [hctx]
    exact hs.ctxDone
  · rw [hremaining]
    exact hs.timed
  · intro i hi
    rw [hstates] at hi
    rw [hremaining, hparked]
    exact hs.waiting hi
  · intro i hi
    rw [hstates] at hi
    rw [hremaining]
    exact hs.done hi
  · intro i hi
    rw [hchosen] at hi
    rw [hremaining, hcount]
    exact hs.chosen hi
  · intro hrun
    exact .inl ⟨(hstates u).symm.trans hrun, hchosen⟩
  · exact fun _ => ⟨hstates, hremaining⟩
  · constructor
    case remaining =>
      rw [hremaining]
      exact h.remaining
    case elected =>
      rw [hstates, hchosen]
      exact h.elected
    case orderly =>
      rw [hstates]
      exact h.orderly
    case timing =>
      have htiming := h.timing
      unfold timing at htiming ⊢
      rw [hparked]
      exact htiming
    case compared =>
      have hcompared := h.compared
      unfold compared IsChoice at hcompared ⊢
      simp only [hstates, hremaining, hcount]
      exact hcompared
    case inRange =>
      rw [hcount]
      exact h.inRange

section

variable (ho : OrderOk s)
include ho

lemma MergeStep.releases (hs : MergeOk n lists s)
    (h : MergeSource t s { call, todo }) (by_ : PassBy) (hstate : s.stateOf t = .running)
    (hpending : call.pending = by_.pending) (horderly : by_.orderly todo)
    (hparked : by_.state = .waiting →
      ∃ p, by_.pending = some p ∧ packetTime p = some (s.turns t).parkedAt)
    (hlast : by_.state = .done → by_.pending = none ∧ todo = []) (hcall : call ≠ .finished) :
    MergeStep n lists t s { s.setState t by_.state with chosen := none }
      { call := .passLoadUnstarted by_ 0, todo } := by
  have hturn : s.turn = some t := ho.running hstate
  have hstates (j : ℕ) : TimeOrder.stateOf { s.setState t by_.state with chosen := none } j =
      if j = t then by_.state else s.stateOf j := TimeOrder.stateOf_setState s t j by_.state
  have hat (j : ℕ) :
      (({ s.setState t by_.state with chosen := none } : TimeOrder).turns j).parkedAt =
        (s.turns j).parkedAt := TimeOrder.parkedAt_setState s t j by_.state
  have hremaining : s.remaining t = by_.pending.toList ++ todo := by
    rw [h.remaining, hpending]
  refine ⟨⟨hs.count, hs.merged, hs.ctxDone, hs.timed, ?_, ?_, nofun⟩,
    fun u hu => ⟨rfl, rfl, hat u, ?_, fun h => absurd h (turn_ne hturn hu)⟩, ?_⟩
  · intro i hi
    rw [hstates] at hi
    rw [hat]
    split at hi
    · rename_i heq
      subst heq
      obtain ⟨p, hp, htime⟩ := hparked hi
      have hlist : s.remaining i = p :: todo := by
        rw [hremaining, hp]
        rfl
      exact ⟨p, todo, hlist, htime⟩
    · exact hs.waiting hi
  · intro i hi
    rw [hstates] at hi
    split at hi
    · rename_i heq
      subst heq
      obtain ⟨hp, htodo⟩ := hlast hi
      change s.remaining i = []
      rw [hremaining, hp, htodo]
      rfl
    · exact hs.done hi
  · intro hrun
    rw [hstates, if_neg hu] at hrun
    exact absurd (ho.running hrun) (turn_ne hturn hu)
  · constructor
    case remaining => exact hremaining
    case elected => nofun
    case orderly => exact horderly
    case timing => trivial
    case compared => trivial
    case inRange => exact .inr (h.inRange.resolve_left hcall)

lemma MergeStep.gives {by_ : PassBy} {next : ℕ} {seen : TurnState}
    (hl : SourceOk t s { call := .passSwapState by_ next seen, todo }) (hs : MergeOk n lists s)
    (h : MergeSource t s { call := .passSwapState by_ next seen, todo }) (sends : Bool) :
    MergeStep n lists t s (s.give t next seen sends) { call := .passStoreHolder by_ next, todo } := by
  have hturn : s.turn = some t := hl.passes rfl
  obtain ⟨hnext, hchoice⟩ := h.compared
  have hstates (j : ℕ) : (s.give t next seen sends).stateOf j =
      if j = next then .running else s.stateOf j := TimeOrder.stateOf_setState s next j .running
  have hat (j : ℕ) : ((s.give t next seen sends).turns j).parkedAt = (s.turns j).parkedAt :=
    TimeOrder.parkedAt_setState s next j .running
  have hrunning {j : ℕ} (hj : s.stateOf j = .running) : False := by
    obtain rfl := some.inj (hturn.symm.trans (ho.running hj))
    have hallows : s.stateOf t = by_.state := hl.allows
    rw [hallows] at hj
    cases by_ <;> simp [PassBy.state] at hj
  have hchosen (hseen : seen = .waiting) : (s.give t next seen sends).chosen = some next := by
    simp [TimeOrder.give, hseen]
  refine ⟨⟨hs.count, hs.merged, hs.ctxDone, hs.timed, ?_, ?_, ?_⟩,
    fun u hu => ⟨rfl, rfl, hat u, ?_, fun h => absurd h (turn_ne hturn hu)⟩, ?_⟩
  · intro i hi
    rw [hstates] at hi
    rw [hat]
    split at hi
    · simp at hi
    · exact hs.waiting hi
  · intro i hi
    rw [hstates] at hi
    split at hi
    · simp at hi
    · exact hs.done hi
  · intro i hi
    rcases hchoice with rfl | ⟨rfl, hearliest⟩
    · simp [TimeOrder.give] at hi
    · obtain rfl := some.inj ((hchosen rfl).symm.trans hi)
      exact hearliest
  · intro hrun
    rw [hstates] at hrun
    split at hrun
    · rename_i heq
      subst heq
      rcases hchoice with rfl | ⟨rfl, -⟩
      · exact .inr (.inl hnext)
      · exact .inr (.inr (hchosen rfl))
    · exact (hrunning hrun).elim
  · constructor
    case remaining => exact h.remaining
    case elected =>
      intro helected hrun
      rw [hstates] at hrun
      split at hrun
      · rename_i heq
        subst heq
        rcases hchoice with rfl | ⟨rfl, -⟩
        · -- the one who passes the turn on is started
          have hallows : s.stateOf t = by_.state := hl.allows
          rw [hnext] at hallows
          cases by_ <;> simp [PassBy.state] at hallows
        · exact hchosen rfl
      · exact (hrunning hrun).elim
    case orderly => exact h.orderly
    case timing => trivial
    case compared => trivial
    case inRange => exact .inr (h.inRange.resolve_left (by simp))

lemma MergeStep.delivers {p : Packet} (hs : MergeOk n lists s)
    (h : MergeSource t s { call := .emit p, todo }) :
    MergeStep n lists t s (s.deliver t p) { call := .start, todo } := by
  have hstate : s.stateOf t = .running := h.orderly
  have hturn : s.turn = some t := ho.running hstate
  have hremaining : s.remaining t = p :: todo := h.remaining
  have hupdate : (s.deliver t p).remaining = update s.remaining t todo := by
    simp [TimeOrder.deliver, hremaining]
  obtain ⟨k, hk⟩ := hs.chosen (h.elected rfl hstate)
  rw [hs.count] at hk
  have hothers {i : ℕ} (hi : i ≠ t) : (s.deliver t p).remaining i = s.remaining i := by
    rw [hupdate, update_of_ne hi]
  refine ⟨⟨hs.count, ?_, hs.ctxDone, ?_, ?_, ?_, nofun⟩,
    fun u hu => ⟨rfl, hothers hu, rfl, ?_, fun h => absurd h (turn_ne hturn hu)⟩, ?_⟩
  · rw [← hs.merged, hupdate, merge_cons hk hremaining]
    simp [TimeOrder.deliver]
  · intro i q hq
    by_cases hi : i = t
    · subst hi
      rw [hupdate, update_self] at hq
      exact hs.timed i q (by rw [hremaining]; exact mem_cons_of_mem _ hq)
    · rw [hothers hi] at hq
      exact hs.timed i q hq
  · intro i hi
    have hne : i ≠ t := fun heq => by
      have hi' : s.stateOf i = .waiting := hi
      rw [heq, hstate] at hi'
      simp at hi'
    rw [hothers hne]
    exact hs.waiting hi
  · intro i hi
    have hne : i ≠ t := fun heq => by
      have hi' : s.stateOf i = .done := hi
      rw [heq, hstate] at hi'
      simp at hi'
    rw [hothers hne]
    exact hs.done hi
  · intro hrun
    exact absurd (ho.running hrun) (turn_ne hturn hu)
  · constructor
    case remaining =>
      rw [hupdate, update_self]
      rfl
    case elected => nofun
    case orderly => exact hstate
    case timing => trivial
    case compared => trivial
    case inRange => exact .inr (h.inRange.resolve_left (by simp))

lemma MergeStep.parks {p : Packet} {at_ : ℤ} (hs : MergeOk n lists s)
    (h : MergeSource t s { call := .yieldStoreAt p at_, todo }) (hstate : s.stateOf t = .running) :
    MergeStep n lists t s (s.setAt t at_) { call := .yieldStoreState p, todo } := by
  have hturn : s.turn = some t := ho.running hstate
  have hat (j : ℕ) : ((s.setAt t at_).turns j).parkedAt =
      if j = t then at_ else (s.turns j).parkedAt := by
    simp only [TimeOrder.setAt, update_apply]
    split <;> rfl
  refine ⟨⟨hs.count, hs.merged, hs.ctxDone, hs.timed, ?_, ?_, hs.chosen⟩,
    fun u hu => ⟨rfl, rfl, by rw [hat, if_neg hu], ?_, fun h => absurd h (turn_ne hturn hu)⟩, ?_⟩
  · intro i hi
    rw [TimeOrder.stateOf_setAt] at hi
    have hne : i ≠ t := by
      rintro rfl
      simp [hstate] at hi
    rw [hat, if_neg hne]
    exact hs.waiting hi
  · intro i hi
    rw [TimeOrder.stateOf_setAt] at hi
    exact hs.done hi
  · intro hrun
    rw [TimeOrder.stateOf_setAt] at hrun
    exact .inl ⟨hrun, rfl⟩
  · constructor
    case remaining => exact h.remaining
    case elected => nofun
    case orderly => trivial
    case timing =>
      have htime : packetTime p = some at_ := h.timing
      simp only [timing, hat]
      exact htime
    case compared => trivial
    case inRange => exact .inr (h.inRange.resolve_left (by simp))

end

lemma MergeSource.goes (h : MergeSource t s { call, todo })
    (horderly : call'.orderly (s.stateOf t) todo') (hcompared : call'.compared s := by trivial)
    (htiming : call'.timing t s := by trivial)
    (helected : call'.elected = true → s.stateOf t = .running → call.elected = true := by (intro h; cases h))
    (hpending : call'.pending.toList ++ todo' = call.pending.toList ++ todo := by rfl)
    (hcall : call ≠ .finished := by simp) : MergeSource t s { call := call', todo := todo' } := by
  constructor
  case remaining => exact h.remaining.trans hpending.symm
  case elected => exact fun he hrun => h.elected (helected he hrun) hrun
  case orderly => exact horderly
  case timing => exact htiming
  case compared => exact hcompared
  case inRange => exact .inr (h.inRange.resolve_left hcall)

/-! ### Choosing the next source -/

variable {by_ : PassBy}

lemma not_running_of_passes (ho : OrderOk s) (hturn : s.turn = some t)
    (hstate : s.stateOf t = by_.state) (i : ℕ) : s.stateOf i ≠ .running := by
  intro hi
  obtain rfl := some.inj (hturn.symm.trans (ho.running hi))
  rw [hi] at hstate
  cases by_ <;> simp [PassBy.state] at hstate

lemma waiting_of_headKey {i : ℕ} {k : ℤ} (ho : OrderOk s) (hs : MergeOk n lists s)
    (hturn : s.turn = some t) (hstate : s.stateOf t = by_.state)
    (hunstarted : ∀ j, s.stateOf j ≠ .unstarted) (hkey : headKey packetKey s.remaining i = some k) :
    s.stateOf i = .waiting := by
  cases hi : s.stateOf i with
  | unstarted => exact absurd hi (hunstarted i)
  | waiting => rfl
  | running => exact absurd hi (not_running_of_passes ho hturn hstate i)
  | done => simp [headKey, hs.done hi] at hkey

lemma headKey_of_waiting {i : ℕ} (hs : MergeOk n lists s) (hi : s.stateOf i = .waiting) :
    headKey packetKey s.remaining i = some (s.turns i).parkedAt := by
  obtain ⟨p, rest, hremaining, htime⟩ := hs.waiting hi
  simp [headKey, hremaining, packetKey, htime]

lemma earliest_skip {i : ℕ} (ho : OrderOk s) (hs : MergeOk n lists s)
    (hturn : s.turn = some t) (hstate : s.stateOf t = by_.state)
    (hunstarted : ∀ j, s.stateOf j ≠ .unstarted) (hi : s.stateOf i ≠ .waiting) :
    earliest (headKey packetKey s.remaining) i = earliest (headKey packetKey s.remaining) (i + 1) := by
  have hnone : headKey packetKey s.remaining i = none := by
    cases hkey : headKey packetKey s.remaining i with
    | none => rfl
    | some k => exact absurd (waiting_of_headKey ho hs hturn hstate hunstarted hkey) hi
  rw [earliest, hnone]

/-! ### Every step -/

theorem next_mergeStep (ho : OrderOk s) (hl : SourceOk t s { call, todo }) (hs : MergeOk n lists s)
    (h : MergeSource t s { call, todo }) (hnext : call.next t s todo = some (s', l')) :
    MergeStep n lists t s s' l' ∧ l'.rank n < SourceRun.rank n { call, todo } := by
  have hallows := hl.allows
  have horderly := h.orderly
  cases call with
  | enterSelect =>
    simp only [OrderCall.next] at hnext
    split at hnext
    · rename_i hgrant
      cases hnext
      have hrun := running_of_grant ho hgrant (hallows.imp_left .inl)
      have hstart : MergeSource t s { call := .start, todo } :=
        h.goes hrun
      exact ⟨.hands hs hstart (by simp) (by simp), Nat.lt_succ_self _⟩
    · simp at hnext
  | start =>
    have hrun : s.stateOf t = .running := horderly
    simp only [OrderCall.next] at hnext
    split at hnext
    · cases hnext
      refine ⟨.stays hs (h.goes ⟨rfl, hrun, rfl⟩), ?_⟩
      simp [SourceRun.rank, startRank]
    rename_i p rest
    have htimed : (packetTime p).isSome = true := by
      refine hs.timed t p ?_
      rw [h.remaining]
      exact mem_cons_self
    split at hnext
    · rename_i hnone
      simp [hnone] at htimed
    · rename_i at_ htime
      cases hnext
      refine ⟨.stays hs (h.goes hrun trivial htime), ?_⟩
      simp only [SourceRun.rank, startRank, length_cons, Nat.add_mul]
      omega
  | yieldLoadState p at_ =>
    have hrun : s.stateOf t = .running := horderly
    simp only [OrderCall.next, hrun, ne_eq, not_true_eq_false, if_false] at hnext
    cases hnext
    exact ⟨.stays hs (h.goes trivial trivial h.timing),
      by simp [SourceRun.rank]⟩
  | yieldStoreAt p at_ =>
    cases hnext
    exact ⟨.parks ho hs h hallows, by simp [SourceRun.rank]⟩
  | yieldStoreState p =>
    cases hnext
    refine ⟨.releases ho hs h (.yielding p) hallows rfl trivial (fun _ => ⟨p, rfl, h.timing⟩)
      (by intro h; cases h) (by simp), ?_⟩
    simp only [SourceRun.rank, PassBy.rank]
    omega
  | yieldSelect p =>
    simp only [OrderCall.next] at hnext
    split at hnext
    · rename_i hgrant
      cases hnext
      have hrun := running_of_grant ho hgrant (hallows.imp_left .inr)
      have hemit : MergeSource t s { call := .emit p, todo } :=
        h.goes hrun trivial trivial fun _ _ => rfl
      exact ⟨.hands hs hemit (by simp) (by simp), Nat.lt_succ_self _⟩
    · simp at hnext
  | emit p =>
    cases hnext
    exact ⟨.delivers ho hs h, Nat.lt_succ_self _⟩
  | leaveLoadState by_ =>
    obtain ⟨rfl, hrun, rfl⟩ := horderly
    simp only [OrderCall.next, hrun] at hnext
    cases hnext
    exact ⟨.stays hs (h.goes ⟨rfl, rfl⟩), Nat.lt_succ_self _⟩
  | leaveSwapState by_ seen => exact horderly.elim
  | leaveStoreState by_ =>
    cases hnext
    refine ⟨.releases ho hs h (.leaving by_) hallows rfl horderly (by intro h; cases h)
      (fun _ => ⟨rfl, horderly.2⟩) (by simp), ?_⟩
    simp only [SourceRun.rank, PassBy.rank]
    omega
  | passLoadUnstarted by_ i =>
    simp only [OrderCall.next] at hnext
    split at hnext
    · rename_i hlt
      rw [hs.count] at hlt
      split at hnext
      · rename_i hi
        cases hnext
        refine ⟨.stays hs (h.goes horderly (.inl hi)), ?_⟩
        simp only [SourceRun.rank]
        omega
      · cases hnext
        refine ⟨.stays hs (h.goes horderly), ?_⟩
        simp only [SourceRun.rank]
        omega
    · cases hnext
      refine ⟨.stays hs (h.goes horderly ⟨Nat.zero_le _, rfl⟩), ?_⟩
      simp only [SourceRun.rank]
      omega
  | passLoadWaiting by_ i best =>
    have hturn : s.turn = some t := hl.passes rfl
    have hunstarted := hl.scanned.1
    obtain ⟨hle, hbest⟩ := h.compared
    simp only [OrderCall.next] at hnext
    split at hnext
    · rename_i hlt
      have hn : i < n := hs.count ▸ hlt
      split at hnext
      · rename_i hi
        cases hnext
        refine ⟨.stays hs (h.goes horderly ⟨hlt, hi, hbest⟩), ?_⟩
        simp only [SourceRun.rank]
        omega
      · rename_i hi
        cases hnext
        have hskip := earliest_skip ho hs hturn hallows hunstarted hi
        refine ⟨.stays hs (h.goes horderly ⟨hlt, hbest.trans hskip⟩), ?_⟩
        simp only [SourceRun.rank]
        omega
    · rename_i hend
      obtain rfl : i = s.count := le_antisymm hle (not_lt.mp hend)
      split at hnext
      · cases hnext
        cases by_ with
        | yielding p =>
          -- one who yields has a packet, and so the comparison found one
          have hwaiting : s.stateOf t = .waiting := hallows
          have hkey := headKey_of_waiting hs hwaiting
          have hlt : t < s.count := h.inRange.resolve_left (by simp)
          rw [earliest_eq_none_iff.mp hbest.symm t hlt] at hkey
          simp at hkey
        | leaving by_ =>
          obtain ⟨rfl, rfl⟩ := horderly
          have hfinished : MergeSource t s { call := .finished, todo := [] } :=
            h.goes rfl
          exact ⟨.hands hs hfinished,
            by simp [SourceRun.rank, PassBy.after, Leaving.after]⟩
      · rename_i next k
        cases hnext
        have hwaiting : s.stateOf next = .waiting :=
          waiting_of_headKey ho hs hturn hallows hunstarted (earliest_spec hbest.symm).2.1
        refine ⟨.stays hs (h.goes horderly
          (.inr ⟨hwaiting, k, hbest.symm⟩)), ?_⟩
        simp only [SourceRun.rank]
        omega
  | passLoadAt by_ i best =>
    obtain ⟨hlt, hwaiting, hbest⟩ := h.compared
    have hn : i < n := hs.count ▸ hlt
    cases hnext
    refine ⟨.stays hs (h.goes horderly ⟨hlt, ?_⟩), ?_⟩
    · rw [earliest, headKey_of_waiting hs hwaiting, ← hbest]
      cases best <;> rfl
    · simp only [SourceRun.rank]
      omega
  | passLoadState by_ next =>
    cases hnext
    exact ⟨.stays hs (h.goes horderly ⟨rfl, h.compared⟩), Nat.lt_succ_self _⟩
  | passSwapState by_ next seen =>
    -- nothing happened to the chosen source, and the swap succeeds
    obtain ⟨hseen, hchoice⟩ := h.compared
    simp only [OrderCall.next] at hnext
    rw [if_pos ⟨hchoice.imp_right And.left, hseen⟩] at hnext
    cases hnext
    exact ⟨.gives ho hl hs h _, Nat.lt_succ_self _⟩
  | passStoreHolder by_ next =>
    cases hnext
    cases by_ with
    | yielding p =>
      dsimp only
      split_ifs with ht
      · have hrun : s.stateOf t = .running := by
          simpa [OrderCall.allows, PassBy.gotBack, ht] using hallows
        have hemit : MergeSource t s { call := .emit p, todo } :=
          h.goes hrun trivial trivial fun _ _ => rfl
        refine ⟨.hands hs hemit, ?_⟩
        simp only [SourceRun.rank, PassBy.rank]
        omega
      · have hsend : MergeSource t s { call := .passSend (.yielding p) next, todo } :=
          h.goes trivial trivial trivial fun _ _ => rfl
        exact ⟨.hands hs hsend, Nat.lt_succ_self _⟩
    | leaving by_ =>
      have hsend : MergeSource t s { call := .passSend (.leaving by_) next, todo } :=
        h.goes horderly
      exact ⟨.hands hs hsend, Nat.lt_succ_self _⟩
  | passSend by_ next =>
    simp only [OrderCall.next] at hnext
    split at hnext
    · simp at hnext
    cases hnext
    have hstates := TimeOrder.stateOf_setGrant s next
    have hat := TimeOrder.parkedAt_setGrant s next
    cases by_ with
    | yielding p =>
      have hselect : MergeSource t s { call := .yieldSelect p, todo } :=
        h.goes trivial trivial trivial fun _ _ => rfl
      exact ⟨.hands hs hselect (fun j => hstates j true) (fun j => hat j true), Nat.lt_succ_self _⟩
    | leaving by_ =>
      obtain ⟨rfl, rfl⟩ := horderly
      have hfinished : MergeSource t s { call := .finished, todo := [] } :=
        h.goes rfl
      exact ⟨.hands hs hfinished (fun j => hstates j true) (fun j => hat j true), Nat.lt_succ_self _⟩
  | finished => simp [OrderCall.next] at hnext

theorem orderAct_mergeStep {a : OrderAction} (ho : OrderOk s) (hl : SourceOk t s l)
    (hs : MergeOk n lists s) (h : MergeSource t s l) (ha : a ≠ .cancel)
    (hact : orderAct t a s l = some (s', l')) :
    MergeStep n lists t s s' l' ∧ l'.rank n < l.rank n ∧ t < n := by
  obtain ⟨call, todo⟩ := l
  cases a with
  | next =>
    have hcall : call ≠ .finished := by
      rintro rfl
      simp [orderAct, OrderCall.next] at hact
    obtain ⟨hstep, hrank⟩ := next_mergeStep ho hl hs h hact
    exact ⟨hstep, hrank, hs.count ▸ h.inRange.resolve_left hcall⟩
  | cancel => exact absurd rfl ha
  | contextDone =>
    cases call <;> simp [orderAct, hs.ctxDone] at hact
  | stop =>
    cases call <;> simp [orderAct, hs.ctxDone] at hact

end

/-! ### Runs -/

def orderedPackets (ordered : List Bool) (sources : ℕ → List Packet) (i : ℕ) : List Packet :=
  if ordered.getD i false then sources i else []

/-- A source has the turn or passes it on; if it waits, the turn is in its channel or about to be. -/
def HasTurn (c : Threads TimeOrder SourceRun) (t : ℕ) : Prop :=
  (c.own t).call.passes = true ∨
    c.shared.stateOf t = .running ∧ ((c.own t).call.awaits t = true →
      (c.shared.turns t).grant = true ∨ ∃ u, (c.own u).call.sendsTo u = some t)

section

variable {ordered : List Bool} {sources : ℕ → List Packet} {c : Threads TimeOrder SourceRun}

lemma mergeOk_newTimeOrder
    (htimed : ∀ i, ∀ p ∈ orderedPackets ordered sources i, (packetTime p).isSome = true) :
    MergeOk ordered.length (orderedPackets ordered sources) (newTimeOrder ordered sources).shared := by
  constructor
  case count => rfl
  case merged => rfl
  case ctxDone => exact fun _ => rfl
  case timed => exact htimed
  case waiting =>
    intro i hi
    rw [stateOf_newTimeOrder] at hi
    split at hi
    · simp at hi
    · split at hi <;> simp at hi
  case done =>
    intro i hi
    rw [stateOf_newTimeOrder] at hi
    split at hi
    · simp at hi
    · split at hi
      · simp at hi
      · rename_i hordered
        exact if_neg hordered
  case chosen => nofun

lemma mergeSource_newTimeOrder (t : ℕ) :
    MergeSource t (newTimeOrder ordered sources).shared ((newTimeOrder ordered sources).own t) := by
  cases ht : ordered.getD t false with
  | true =>
    have hown : (newTimeOrder ordered sources).own t =
        { call := .enterSelect, todo := sources t } := if_pos ht
    rw [hown]
    exact ⟨if_pos ht, nofun, trivial, trivial, trivial, .inr (lt_of_ordered ht)⟩
  | false =>
    have hne : ¬ordered.getD t false = true := by
      rw [ht]
      simp
    have hown : (newTimeOrder ordered sources).own t = { call := .finished, todo := [] } :=
      if_neg hne
    rw [hown]
    exact ⟨if_neg hne, nofun, rfl, trivial, trivial, .inl rfl⟩

theorem mergeOk_reaches (htimed : ∀ i, ∀ p ∈ orderedPackets ordered sources i, (packetTime p).isSome = true)
    (h : Reaches orderAct (fun _ a _ _ => a ≠ .cancel) (newTimeOrder ordered sources) c) :
    MergeOk ordered.length (orderedPackets ordered sources) c.shared ∧
      ∀ t, MergeSource t c.shared (c.own t) := by
  have hboth := h.outline (fun s => OrderOk s ∧ MergeOk ordered.length (orderedPackets ordered sources) s)
    (fun t s l => SourceOk t s l ∧ MergeSource t s l)
    ⟨orderOk_newTimeOrder, mergeOk_newTimeOrder htimed⟩
    (fun t => ⟨sourceOk_newTimeOrder t, mergeSource_newTimeOrder t⟩)
    (fun hs hl ha hact => by
      have horder := orderAct_step hs.1 hl.1 hact
      have hmerge := (orderAct_mergeStep hs.1 hl.1 hs.2 hl.2 ha hact).1
      exact ⟨⟨horder.order, hmerge.order⟩, horder.source, hmerge.source⟩)
    (fun hs hl ha hact _ _ hne hl' => by
      have horder := (orderAct_step hs.1 hl.1 hact).later _ hne
      have hmerge := (orderAct_mergeStep hs.1 hl.1 hs.2 hl.2 ha hact).1.later _ hne
      exact ⟨hl'.1.later horder, hl'.2.later hl'.1 horder hmerge⟩)
  exact ⟨hboth.1.2, fun t => (hboth.2 t).2⟩

lemma hasTurn_iff (hs : OrderOk c.shared) (hl : ∀ t, SourceOk t c.shared (c.own t)) (t : ℕ) :
    HasTurn c t ↔ c.shared.turn = some t := by
  constructor
  · rintro (hpasses | ⟨hrun, -⟩)
    · exact (hl t).passes hpasses
    · exact hs.running hrun
  · intro hturn
    rcases (hl t).turn hturn with hrun | hpasses
    · refine .inr ⟨hrun, fun hawaits => ((hl t).awaits hawaits hrun).imp_right fun hsender => ?_⟩
      obtain ⟨u, hu⟩ := ne_none_iff_exists'.mp hsender
      exact ⟨u, ((hl u).sends t).mp hu⟩
    · exact .inl hpasses

lemma OrderCall.next_isSome {t : ℕ} {s : TimeOrder} {call : OrderCall} {todo : List Packet}
    (hs : OrderOk s) (hl : SourceOk t s { call, todo }) (hcall : call ≠ .finished)
    (hwaits : call = .enterSelect ∨ (∃ p, call = .yieldSelect p) → (s.turns t).grant = true) :
    (call.next t s todo).isSome = true := by
  cases call with
  | enterSelect => simp [OrderCall.next, hwaits (.inl rfl)]
  | yieldSelect p => simp [OrderCall.next, hwaits (.inr ⟨p, rfl⟩)]
  | start =>
    simp only [OrderCall.next]
    split
    · rfl
    · split <;> rfl
  | passSend by_ next =>
    have hgrant : (s.turns next).grant = false := hs.sender ((hl.sends next).mpr rfl)
    simp [OrderCall.next, hgrant]
  | yieldLoadState p at_ =>
    simp only [OrderCall.next]
    split <;> rfl
  | leaveLoadState by_ =>
    simp only [OrderCall.next]
    split <;> rfl
  | leaveSwapState by_ seen =>
    simp only [OrderCall.next]
    split <;> rfl
  | passLoadUnstarted by_ i =>
    simp only [OrderCall.next]
    split
    · split <;> rfl
    · rfl
  | passLoadWaiting by_ i best =>
    simp only [OrderCall.next]
    split
    · split <;> rfl
    · split <;> rfl
  | passSwapState by_ next seen =>
    simp only [OrderCall.next]
    split <;> rfl
  | finished => exact absurd rfl hcall
  | _ => rfl

theorem exists_step {t : ℕ} (hs : OrderOk c.shared) (hl : ∀ t, SourceOk t c.shared (c.own t))
    (hturn : c.shared.turn = some t) : ∃ u, (c.step orderAct u .next).isSome = true := by
  have hnext (u : ℕ) (hcall : (c.own u).call ≠ .finished)
      (hwaits : (c.own u).call = .enterSelect ∨ (∃ p, (c.own u).call = .yieldSelect p) →
        (c.shared.turns u).grant = true) : ∃ u, (c.step orderAct u .next).isSome = true :=
    ⟨u, (isSome_map ..).trans (next_isSome hs (hl u) hcall hwaits)⟩
  rcases (hl t).turn hturn with hrun | hpasses
  · have hcall : (c.own t).call ≠ .finished := by
      intro hcall
      have hallows := (hl t).allows
      rw [hcall, hrun] at hallows
      simp [allows] at hallows
    by_cases hawaits : (c.own t).call.awaits t = true
    · rcases (hl t).awaits hawaits hrun with hgrant | hsender
      · exact hnext t hcall fun _ => hgrant
      · -- the one who sends the turn can do so
        obtain ⟨u, hu⟩ := ne_none_iff_exists'.mp hsender
        have hsends := ((hl u).sends t).mp hu
        refine hnext u (fun hcall => ?_) ?_
        · simp [hcall, sendsTo] at hsends
        · rintro (hcall | ⟨p, hcall⟩) <;> simp [hcall, sendsTo] at hsends
    · refine hnext t hcall ?_
      rintro (hcall | ⟨p, hcall⟩) <;> simp [hcall, awaits] at hawaits
  · refine hnext t (fun hcall => ?_) ?_
    · simp [hcall, passes] at hpasses
    · rintro (hcall | ⟨p, hcall⟩) <;> simp [hcall, passes] at hpasses

theorem delivered_of_stuck (hs : OrderOk c.shared) (hl : ∀ t, SourceOk t c.shared (c.own t)) {n : ℕ}
    {lists : ℕ → List Packet} (hm : MergeOk n lists c.shared)
    (hstuck : ∀ t, c.step orderAct t .next = none) : c.shared.delivered = merge packetKey n lists := by
  have hgone : c.shared.turn = none := by
    cases hturn : c.shared.turn with
    | none => rfl
    | some t =>
      obtain ⟨u, hu⟩ := exists_step hs hl hturn
      simp [hstuck u] at hu
  have hempty : merge packetKey n c.shared.remaining = [] :=
    merge_nil fun i _ => hm.done (hs.lost hgone i)
  rw [← hm.merged, hempty, append_nil]

/-- **The time order.** With any cancellations, at most one source has the turn, and it is not lost while
a source waits. Without cancellations every interleaving is finite, and ends with the merge by times. -/
theorem time_order_merges (ordered : List Bool) (sources : ℕ → List Packet) :
    (∀ c, Reaches orderAct (fun _ _ _ _ => True) (newTimeOrder ordered sources) c →
      (∀ t u, HasTurn c t → HasTurn c u → t = u) ∧
      (∀ t, (c.own t).call.received t = true → c.shared.stateOf t ≠ .done → HasTurn c t) ∧
      ((∃ i, c.shared.stateOf i = .unstarted ∨ c.shared.stateOf i = .waiting) →
        (∃ t, HasTurn c t) ∧ ∃ u, (c.step orderAct u .next).isSome = true)) ∧
    ((∀ i, ∀ p ∈ orderedPackets ordered sources i, (packetTime p).isSome = true) →
      ∀ steps c, (newTimeOrder ordered sources).exec orderAct (fun _ a _ _ => a ≠ .cancel) steps = some c →
        c.shared.delivered <+: merge packetKey ordered.length (orderedPackets ordered sources) ∧
        steps.length ≤ ∑ t ∈ Finset.range ordered.length,
          ((newTimeOrder ordered sources).own t).rank ordered.length ∧
        ((∀ t, c.step orderAct t .next = none) →
          c.shared.delivered = merge packetKey ordered.length (orderedPackets ordered sources))) := by
  constructor
  · intro c h
    obtain ⟨hs, hl⟩ := orderOk_reaches h
    refine ⟨fun t u ht hu => ?_, fun t hreceived hstate => ?_, ?_⟩
    · rw [hasTurn_iff hs hl] at ht hu
      exact some.inj (ht.symm.trans hu)
    · rw [hasTurn_iff hs hl]
      exact hs.running ((state_of_received hreceived (hl t).allows).resolve_right hstate)
    · rintro ⟨i, hi⟩
      cases hturn : c.shared.turn with
      | none =>
        rw [hs.lost hturn i] at hi
        simp at hi
      | some t => exact ⟨⟨t, (hasTurn_iff hs hl t).mpr hturn⟩, exists_step hs hl hturn⟩
  · intro htimed steps c hexec
    have h := Reaches.refl.exec steps hexec
    obtain ⟨hs, hl⟩ := orderOk_reaches h
    obtain ⟨hm, -⟩ := mergeOk_reaches htimed h
    refine ⟨⟨_, hm.merged⟩, ?_, delivered_of_stuck hs hl hm⟩
    refine Threads.length_exec_le (SourceRun.rank ordered.length) ordered.length ?_ steps .refl hexec
    intro c c' t a h ha hstep
    obtain ⟨hs, hl⟩ := orderOk_reaches h
    obtain ⟨hm, hml⟩ := mergeOk_reaches htimed h
    obtain ⟨r, hact, rfl⟩ := map_eq_some_iff.mp hstep
    obtain ⟨-, hrank, hlt⟩ := orderAct_mergeStep hs (hl t) hm (hml t) ha hact
    exact ⟨hlt, by simpa using hrank⟩

end

def packetAt (ms : ℤ) : Packet := { dts := { value := ms, base := { num := 1, den := 1000 } } }

def twoSources (i : ℕ) : List Packet := if i = 0 then [packetAt 20] else [packetAt 10]

def twoSteps : List (ℕ × OrderAction) :=
  (List.replicate 11 0 ++ List.replicate 31 1 ++ List.replicate 11 0).map fun t => (t, .next)

theorem time_order_merges_two :
    ((newTimeOrder [true, true] twoSources).shared.stateOf 1 = .unstarted ∧
      ∃ t, HasTurn (newTimeOrder [true, true] twoSources) t) ∧
    ∃ c, (newTimeOrder [true, true] twoSources).exec orderAct (fun _ a _ _ => a ≠ .cancel) twoSteps =
        some c ∧ (∀ t, c.step orderAct t .next = none) ∧
      c.shared.delivered = merge packetKey 2 (orderedPackets [true, true] twoSources) ∧
      c.shared.delivered = [(1, packetAt 10), (0, packetAt 20)] := by
  have htimed (i : ℕ) (p : Packet) (hp : p ∈ orderedPackets [true, true] twoSources i) :
      (packetTime p).isSome = true := by
    unfold orderedPackets twoSources at hp
    split at hp
    · split at hp
      · obtain rfl := mem_singleton.mp hp
        rfl
      · obtain rfl := mem_singleton.mp hp
        rfl
    · simp at hp
  obtain ⟨hturn, hmerge⟩ := time_order_merges [true, true] twoSources
  refine ⟨⟨rfl, ((hturn _ .refl).2.2 ⟨1, .inl rfl⟩).1⟩, ?_⟩
  refine ⟨_, rfl, ?_, (hmerge htimed twoSteps _ rfl).2.2 ?_, rfl⟩
  all_goals
    rintro (_ | _ | t)
    · rfl
    · rfl
    · rfl

/-- **The turn never blocks its sender**: the channel is empty, and no other source sends into it. -/
theorem turn_sent_alone {ordered : List Bool} {sources : ℕ → List Packet} {c : Threads TimeOrder SourceRun}
    (h : Reaches orderAct (fun _ _ _ _ => True) (newTimeOrder ordered sources) c) {t next : ℕ}
    {by_ : PassBy} (hsend : (c.own t).call = .passSend by_ next) :
    (c.step orderAct t .next).isSome = true ∧
      ∀ u by', (c.own u).call = .passSend by' next → u = t := by
  obtain ⟨hs, hl⟩ := orderOk_reaches h
  have hsender : c.shared.sender next = some t := ((hl t).sends next).mpr (by rw [hsend]; rfl)
  constructor
  · simp [Threads.step, orderAct, hsend, OrderCall.next, hs.sender hsender]
  · intro u by' hu
    have hsender' : c.shared.sender next = some u := ((hl u).sends next).mpr (by rw [hu]; rfl)
    exact some.inj (hsender'.symm.trans hsender)

theorem turn_sent_alone_two : ∃ c, (newTimeOrder [true, true] twoSources).exec orderAct (fun _ _ _ _ => True)
      (replicate 10 (0, .next)) = some c ∧ (c.step orderAct 0 .next).isSome = true :=
  ⟨_, rfl, (@turn_sent_alone [true, true] twoSources _
    (Reaches.refl.exec (replicate 10 (0, .next)) rfl) 0 _ _ rfl).1⟩

end Goav.Pipeline
