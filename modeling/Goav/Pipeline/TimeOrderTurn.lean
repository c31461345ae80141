import Goav.Pipeline.TimeOrderDefs

/-!
The turn of a time order, on every interleaving and with any cancellations: a source that runs has it
(`OrderOk`); while some source waits, one has the turn or passes it on (`SourceOk`).
-/

namespace Goav.Pipeline

open Goav.Av Goav.Lib TimeOrder OrderCall PassBy Function Option List

/-! ### Fields -/

namespace TimeOrder

variable (s : TimeOrder) (i j : ℕ) (state : TurnState) (at_ : ℤ) (grant : Bool)

lemma update_field {α : Type} (field : TimeTurn → α) {turns : ℕ → TimeTurn} {i : ℕ}
    {turn : TimeTurn} (h : field turn = field (turns i)) (j : ℕ) :
    field (update turns i turn j) = field (turns j) := by
  rw [update_apply]
  split_ifs with hj
  · rw [h, hj]
  · rfl

lemma stateOf_setState : (s.setState i state).stateOf j = if j = i then state else s.stateOf j := by
  simp only [stateOf, setState, update_apply]
  split <;> rfl

lemma grant_setState : ((s.setState i state).turns j).grant = (s.turns j).grant :=
  update_field TimeTurn.grant (by rfl) j

lemma parkedAt_setState : ((s.setState i state).turns j).parkedAt = (s.turns j).parkedAt :=
  update_field TimeTurn.parkedAt (by rfl) j

@[simp] lemma stateOf_setAt : (s.setAt i at_).stateOf j = s.stateOf j :=
  update_field TimeTurn.state (by rfl) j

@[simp] lemma grant_setAt : ((s.setAt i at_).turns j).grant = (s.turns j).grant :=
  update_field TimeTurn.grant (by rfl) j

@[simp] lemma stateOf_setGrant : (s.setGrant i grant).stateOf j = s.stateOf j :=
  update_field TimeTurn.state (by rfl) j

lemma grant_setGrant :
    ((s.setGrant i grant).turns j).grant = if j = i then grant else (s.turns j).grant := by
  simp only [setGrant, update_apply]
  split <;> rfl

@[simp] lemma parkedAt_setGrant : ((s.setGrant i grant).turns j).parkedAt = (s.turns j).parkedAt :=
  update_field TimeTurn.parkedAt (by rfl) j

end TimeOrder

/-! ### Where a source is -/

def PassBy.state : PassBy → TurnState
  | .yielding _ => .waiting
  | .leaving _ => .done

def PassBy.afterState (by_ : PassBy) (state : TurnState) : Prop :=
  match by_ with
  | .yielding _ => state = .waiting ∨ state = .running
  | .leaving _ => state = .done

namespace OrderCall

def passes : OrderCall → Bool
  | .passLoadUnstarted .. | .passLoadWaiting .. | .passLoadAt .. | .passLoadState ..
  | .passSwapState .. => true
  | _ => false

variable (t : ℕ)

def sendsTo : OrderCall → Option ℕ
  | .passStoreHolder by_ next => if by_.gotBack t next then none else some next
  | .passSend _ next => some next
  | _ => none

def awaits : OrderCall → Bool
  | .enterSelect | .yieldSelect _ => true
  | .passStoreHolder (.yielding _) next => t ≠ next
  | .passSend (.yielding _) _ => true
  | _ => false

/-- The source runs with the turn. -/
def received : OrderCall → Bool
  | .start | .yieldLoadState .. | .yieldStoreAt .. | .yieldStoreState _ | .emit _ => true
  | .passStoreHolder (.yielding _) next => t = next
  | _ => false

def allows (call : OrderCall) (state : TurnState) : Prop :=
  match call with
  | .enterSelect | .leaveLoadState .enter => state = .unstarted ∨ state = .running
  | .yieldSelect _ | .leaveLoadState .yield => state = .waiting ∨ state = .running
  | .start | .yieldLoadState .. | .emit _ | .leaveLoadState .deferred =>
    state = .running ∨ state = .done
  | .yieldStoreAt .. | .yieldStoreState _ | .leaveStoreState _ => state = .running
  | .leaveSwapState _ seen =>
    (seen = .unstarted ∨ seen = .waiting) ∧ (state = seen ∨ state = .running)
  | .passLoadUnstarted by_ _ | .passLoadWaiting by_ _ _ | .passLoadAt by_ _ _ | .passLoadState by_ _
  | .passSwapState by_ _ _ => state = by_.state
  | .passStoreHolder by_ next =>
    if by_.gotBack t next then state = .running else by_.afterState state
  | .passSend by_ _ => by_.afterState state
  | .finished => state = .done

def scanned (s : TimeOrder) : OrderCall → Prop
  | .passLoadUnstarted _ i => ∀ j < i, s.stateOf j ≠ .unstarted
  | .passLoadWaiting _ i best =>
    (∀ j, s.stateOf j ≠ .unstarted) ∧ (best = none → ∀ j < i, s.stateOf j ≠ .waiting)
  | .passLoadAt _ _ _ => ∀ j, s.stateOf j ≠ .unstarted
  | _ => True

end OrderCall

/-! ### What always holds -/

structure OrderOk (s : TimeOrder) : Prop where
  running : ∀ {i}, s.stateOf i = .running → s.turn = some i
  inRange : ∀ {i}, s.stateOf i ≠ .done → i < s.count
  quiet : ∀ {i}, s.stateOf i = .unstarted ∨ s.stateOf i = .waiting →
    (s.turns i).grant = false ∧ s.sender i = none
  sender : ∀ {i u}, s.sender i = some u → (s.turns i).grant = false
  lost : s.turn = none → ∀ i, s.stateOf i = .done

structure SourceOk (t : ℕ) (s : TimeOrder) (l : SourceRun) : Prop where
  allows : l.call.allows t (s.stateOf t)
  passes : l.call.passes = true → s.turn = some t
  turn : s.turn = some t → s.stateOf t = .running ∨ l.call.passes = true
  sends : ∀ i, s.sender i = some t ↔ l.call.sendsTo t = some i
  awaits : l.call.awaits t = true → s.stateOf t = .running →
    (s.turns t).grant = true ∨ s.sender t ≠ none
  received : l.call.received t = true → s.stateOf t = .running →
    (s.turns t).grant = false ∧ s.sender t = none
  scanned : l.call.scanned s

structure OrderLater (u : ℕ) (s s' : TimeOrder) : Prop where
  state : s'.stateOf u = s.stateOf u ∨
    ((s.stateOf u = .unstarted ∨ s.stateOf u = .waiting) ∧ s'.stateOf u = .running ∧
      s.turn ≠ some u ∧ s'.sender u ≠ none)
  turn : s.turn = some u → s'.turn = some u
  gained : s'.turn = some u → s.turn = some u ∨ s'.stateOf u = .running
  sends : ∀ i, s'.sender i = some u ↔ s.sender i = some u
  coming : (s.turns u).grant = true ∨ s.sender u ≠ none →
    (s'.turns u).grant = true ∨ s'.sender u ≠ none
  settled : s.stateOf u = .running → (s.turns u).grant = false ∧ s.sender u = none →
    (s'.turns u).grant = false ∧ s'.sender u = none
  others : s.turn = some u → ∀ j, s'.stateOf j = s.stateOf j ∨ s'.stateOf j = .done

lemma OrderLater.rfl {u : ℕ} {s : TimeOrder} : OrderLater u s s :=
  ⟨.inl (Eq.refl _), id, .inl, fun _ => Iff.rfl, id, fun _ => id, fun _ _ => .inl (Eq.refl _)⟩

lemma OrderCall.allows_running {t : ℕ} {call : OrderCall} {state : TurnState}
    (h : call.allows t state) (hstate : state = .unstarted ∨ state = .waiting)
    (hpasses : call.passes = false) : call.allows t .running := by
  unfold allows at h ⊢
  cases call with
  | passStoreHolder by_ next =>
    dsimp only at h ⊢
    split
    · exact Eq.refl _
    · cases by_ <;> simp_all [afterState]
  | passSend by_ next => cases by_ <;> simp_all [afterState]
  | leaveLoadState by_ => cases by_ <;> simp_all
  | _ => simp_all [passes]

lemma OrderCall.state_of_received {t : ℕ} {call : OrderCall} {state : TurnState}
    (h : call.received t = true) (hallows : call.allows t state) :
    state = .running ∨ state = .done := by
  unfold received at h
  unfold allows at hallows
  cases call with
  | passStoreHolder by_ next =>
    cases by_ with
    | yielding p =>
      simp only [gotBack, h] at hallows
      exact .inl hallows
    | leaving by_ => simp at h
  | yieldStoreAt p at_ => exact .inl hallows
  | yieldStoreState p => exact .inl hallows
  | _ => simp_all

theorem SourceOk.later {u : ℕ} {s s' : TimeOrder} {l : SourceRun} (h : SourceOk u s l)
    (hlater : OrderLater u s s') : SourceOk u s' l := by
  constructor
  case allows =>
    rcases hlater.state with heq | ⟨hwas, hrun, hturn, -⟩
    · rw [heq]
      exact h.allows
    · rw [hrun]
      refine allows_running h.allows hwas ?_
      by_contra hp
      exact hturn (h.passes (by simpa using hp))
  case passes => exact fun hp => hlater.turn (h.passes hp)
  case turn =>
    intro hturn
    rcases hlater.gained hturn with hold | hrun
    · rcases h.turn hold with hrun | hp
      · refine .inl ?_
        rcases hlater.state with heq | ⟨-, hrun', -⟩
        · rw [heq]
          exact hrun
        · exact hrun'
      · exact .inr hp
    · exact .inl hrun
  case sends => exact fun i => (hlater.sends i).trans (h.sends i)
  case awaits =>
    intro hawaits hrun
    rcases hlater.state with heq | ⟨-, -, -, hsender⟩
    · exact hlater.coming (h.awaits hawaits (heq ▸ hrun))
    · exact .inr hsender
  case received =>
    intro hreceived hrun
    have hstate : s'.stateOf u = s.stateOf u := by
      refine hlater.state.resolve_right ?_
      rintro ⟨hwas, -, -, -⟩
      rcases state_of_received hreceived h.allows with hst | hst <;> simp [hst] at hwas
    exact hlater.settled (hstate ▸ hrun) (h.received hreceived (hstate ▸ hrun))
  case scanned =>
    have hscanned := h.scanned
    have hturn := h.passes
    have hkeep : s.turn = some u → ∀ j state, state ≠ .done → s.stateOf j ≠ state →
        s'.stateOf j ≠ state := by
      intro hturn j state hstate hj heq
      rcases hlater.others hturn j with h | h
      · exact hj (h.symm.trans heq)
      · exact hstate (heq.symm.trans h)
    cases hcall : l.call with
    | passLoadUnstarted by_ i =>
      rw [hcall] at hscanned hturn
      exact fun j hj => hkeep (hturn rfl) j _ (by simp) (hscanned j hj)
    | passLoadWaiting by_ i best =>
      rw [hcall] at hscanned hturn
      exact ⟨fun j => hkeep (hturn rfl) j _ (by simp) (hscanned.1 j),
        fun hbest j hj => hkeep (hturn rfl) j _ (by simp) (hscanned.2 hbest j hj)⟩
    | passLoadAt by_ i best =>
      rw [hcall] at hscanned hturn
      exact fun j => hkeep (hturn rfl) j _ (by simp) (hscanned j)
    | _ => trivial

/-! ### Steps -/

structure OrderStep (t : ℕ) (s s' : TimeOrder) (l' : SourceRun) : Prop where
  order : OrderOk s'
  later : ∀ u, u ≠ t → OrderLater u s s'
  source : SourceOk t s' l'

section

variable {t : ℕ} {s s' : TimeOrder} {l l' : SourceRun} {call call' : OrderCall}
  {todo todo' : List Packet}

lemma turn_ne {u : ℕ} (hturn : s.turn = some t) (hu : u ≠ t) : s.turn ≠ some u := by
  rw [hturn]
  exact fun h => hu (some.inj h).symm

section

variable (h : SourceOk t s { call, todo })
include h

lemma SourceOk.turn_ne_self (hpasses : call.passes = false)
    (hstate : s.stateOf t ≠ .running) : s.turn ≠ some t := by
  intro hturn
  rcases h.turn hturn with hrun | hp
  · exact hstate hrun
  · simp [hpasses] at hp

lemma SourceOk.sender_ne (hsends : call.sendsTo t = none) (i : ℕ) :
    s.sender i ≠ some t := by
  rw [Ne, h.sends i, hsends]
  simp

lemma SourceOk.goes (hallows : call'.allows t (s.stateOf t))
    (hreceived : call'.received t = true → s.stateOf t = .running → call.received t = true := by
      nofun)
    (hscanned : call'.scanned s := by trivial) (hpasses : call'.passes = call.passes := by rfl)
    (hsends : call'.sendsTo t = call.sendsTo t := by rfl)
    (hawaits : call'.awaits t = true → s.stateOf t = .running → call.awaits t = true := by nofun) :
    SourceOk t s { call := call', todo := todo' } := by
  constructor
  case allows => exact hallows
  case passes => exact fun hp => h.passes (hpasses.symm.trans hp)
  case turn => exact fun hturn => (h.turn hturn).imp_right hpasses.trans
  case sends => exact fun i => (h.sends i).trans (by rw [hsends])
  case awaits => exact fun ha hrun => h.awaits (hawaits ha hrun) hrun
  case received => exact fun hr hrun => h.received (hreceived hr hrun) hrun
  case scanned => exact hscanned

end

lemma OrderStep.stays (hs : OrderOk s) (h : SourceOk t s l') : OrderStep t s s l' :=
  ⟨hs, fun _ _ => .rfl, h⟩

lemma OrderStep.receives (hs : OrderOk s) (h : SourceOk t s { call, todo })
    (hgrant : (s.turns t).grant = true) (hsends : call.sendsTo t = none)
    (hstate : s.stateOf t = .running) (hallows : call'.allows t .running)
    (hpasses' : call'.passes = false) (hsends' : call'.sendsTo t = none)
    (hawaits' : call'.awaits t = false) (hscanned : call'.scanned (s.setGrant t false)) :
    OrderStep t s (s.setGrant t false) { call := call', todo } := by
  have hsender : s.sender t = none := by
    cases hs' : s.sender t with
    | none => rfl
    | some u =>
      have := hs.sender hs'
      rw [hgrant] at this
      simp at this
  refine ⟨⟨?_, ?_, ?_, ?_, ?_⟩, fun u hu => ⟨?_, id, ?_, fun _ => Iff.rfl, ?_, ?_, ?_⟩, ?_⟩
  · intro i hi
    exact hs.running (by simpa using hi)
  · intro i hi
    exact hs.inRange (by simpa using hi)
  · intro i hi
    have hquiet := hs.quiet (i := i) (by simpa using hi)
    rw [grant_setGrant]
    refine ⟨?_, hquiet.2⟩
    split
    · rfl
    · exact hquiet.1
  · intro i u hi
    rw [grant_setGrant]
    split
    · rfl
    · exact hs.sender hi
  · intro hturn i
    rw [stateOf_setGrant]
    exact hs.lost hturn i
  · exact .inl (by simp)
  · exact .inl
  · rw [grant_setGrant, if_neg hu]
    exact id
  · rw [grant_setGrant, if_neg hu]
    exact fun _ => id
  · exact fun _ j => .inl (by simp)
  · constructor
    case allows => simpa [hstate] using hallows
    case passes => simp [hpasses']
    case turn => exact fun _ => .inl (by simpa using hstate)
    case sends =>
      intro i
      rw [hsends', ← hsends]
      exact h.sends i
    case awaits => simp [hawaits']
    case received => exact fun _ _ => ⟨by simp [grant_setGrant], hsender⟩
    case scanned => exact hscanned

lemma OrderStep.releases (hs : OrderOk s) (h : SourceOk t s { call, todo }) (by_ : PassBy)
    (hstate : s.stateOf t = .running) (hsends : call.sendsTo t = none)
    (hquiet : by_.state = .waiting → (s.turns t).grant = false ∧ s.sender t = none) :
    OrderStep t s { s.setState t by_.state with chosen := none }
      { call := .passLoadUnstarted by_ 0, todo } := by
  have hturn : s.turn = some t := hs.running hstate
  have hstates (j : ℕ) : stateOf { s.setState t by_.state with chosen := none } j =
      if j = t then by_.state else s.stateOf j := stateOf_setState s t j by_.state
  have hgrants (j : ℕ) :
      (({ s.setState t by_.state with chosen := none } : TimeOrder).turns j).grant =
        (s.turns j).grant := grant_setState s t j by_.state
  refine ⟨⟨?_, ?_, ?_, ?_, ?_⟩, fun u hu => ⟨?_, id, .inl, fun _ => Iff.rfl, ?_, ?_, ?_⟩, ?_⟩
  · intro i hi
    rw [hstates] at hi
    split at hi
    · cases by_ <;> simp [state] at hi
    · exact hs.running hi
  · intro i hi
    rw [hstates] at hi
    split at hi
    · rename_i heq
      rw [heq]
      exact hs.inRange (by simp [hstate])
    · exact hs.inRange hi
  · intro i hi
    rw [hstates] at hi
    rw [hgrants]
    split at hi
    · rename_i heq
      rw [heq]
      refine hquiet ?_
      cases by_ <;> simp [state] at hi ⊢
    · exact hs.quiet hi
  · intro i u hi
    rw [hgrants]
    exact hs.sender hi
  · intro hnone
    exact absurd (hturn.symm.trans hnone) (by simp)
  · rw [hstates, if_neg hu]
    exact .inl rfl
  · rw [hgrants]
    exact id
  · rw [hgrants]
    exact fun _ => id
  · exact fun h => absurd h (turn_ne hturn hu)
  · constructor
    case allows =>
      rw [hstates, if_pos rfl]
      rfl
    case passes => exact fun _ => hturn
    case turn => exact fun _ => .inr rfl
    case sends =>
      intro i
      refine (h.sends i).trans ?_
      simp only [hsends]
      rfl
    case awaits => exact fun ha => absurd ha (by simp [awaits])
    case received => exact fun hr => absurd hr (by simp [received])
    case scanned => exact fun j hj => absurd hj (Nat.not_lt_zero j)

lemma SourceOk.left (hdone : s.stateOf t = .done) (hturn : s.turn ≠ some t)
    (hsends : ∀ i, s.sender i ≠ some t) (by_ : Leaving) : SourceOk t s { call := by_.after, todo } := by
  constructor
  case allows => cases by_ <;> simp [Leaving.after, OrderCall.allows, hdone]
  case passes => cases by_ <;> simp [Leaving.after, OrderCall.passes]
  case turn => exact fun h => absurd h hturn
  case sends =>
    cases by_ <;> simp [Leaving.after, sendsTo, hsends]
  case awaits => cases by_ <;> simp [Leaving.after, OrderCall.awaits]
  case received => simp [hdone]
  case scanned => cases by_ <;> trivial

variable (hs : OrderOk s)
include hs

lemma OrderStep.leaves (h : SourceOk t s { call, todo }) (hpasses : call.passes = false)
    (hsends : call.sendsTo t = none) (hstate : s.stateOf t = .unstarted ∨ s.stateOf t = .waiting)
    (by_ : Leaving) : OrderStep t s (s.setState t .done) { call := by_.after, todo } := by
  have hturn : s.turn ≠ some t := h.turn_ne_self hpasses (by rcases hstate with h | h <;> simp [h])
  refine ⟨⟨?_, ?_, ?_, ?_, ?_⟩, fun u hu => ⟨?_, id, .inl, fun _ => Iff.rfl, ?_, ?_, ?_⟩, ?_⟩
  · intro i hi
    rw [stateOf_setState] at hi
    split at hi
    · simp at hi
    · exact hs.running hi
  · intro i hi
    rw [stateOf_setState] at hi
    split at hi
    · simp at hi
    · exact hs.inRange hi
  · intro i hi
    rw [stateOf_setState] at hi
    rw [grant_setState]
    split at hi
    · simp at hi
    · exact hs.quiet hi
  · intro i u hi
    rw [grant_setState]
    exact hs.sender hi
  · intro hnone
    rw [hs.lost hnone t] at hstate
    simp at hstate
  · rw [stateOf_setState, if_neg hu]
    exact .inl rfl
  · rw [grant_setState]
    exact id
  · rw [grant_setState]
    exact fun _ => id
  · intro _ j
    rw [stateOf_setState]
    split
    · exact .inr rfl
    · exact .inl rfl
  · refine SourceOk.left (s := s.setState t .done) (by rw [stateOf_setState, if_pos rfl])
      hturn (h.sender_ne hsends) by_

variable {by_ : PassBy}

lemma OrderStep.ends {i : ℕ}
    (h : SourceOk t s { call := .passLoadWaiting by_ i none, todo }) (hi : s.count ≤ i) :
    OrderStep t s { s with turn := none } { call := by_.after, todo } := by
  have hturn : s.turn = some t := h.passes rfl
  have hstate : s.stateOf t = by_.state := h.allows
  have hdone (j : ℕ) : s.stateOf j = .done := by
    by_contra hj
    have hlt : j < i := (hs.inRange hj).trans_le hi
    cases hst : s.stateOf j with
    | unstarted => exact h.scanned.1 j hst
    | waiting => exact h.scanned.2 rfl j hlt hst
    | running =>
      obtain rfl := some.inj ((hs.running hst).symm.trans hturn)
      rw [hst] at hstate
      cases by_ <;> simp [state] at hstate
    | done => exact hj hst
  refine ⟨⟨?_, hs.inRange, hs.quiet, hs.sender, fun _ => hdone⟩,
    fun u hu => ⟨.inl rfl, fun h => absurd h (turn_ne hturn hu), fun h => by simp at h, fun _ => Iff.rfl, id,
      fun _ => id, fun h => absurd h (turn_ne hturn hu)⟩, ?_⟩
  · intro j hj
    exact absurd (hj.symm.trans (hdone j)) (by simp)
  · cases by_ with
    | yielding p => exact absurd ((hdone t).symm.trans hstate) (by simp [state])
    | leaving by_ =>
      exact SourceOk.left (s := { s with turn := none }) (hdone t) (by simp) (h.sender_ne rfl) by_

lemma OrderStep.gives {next : ℕ} {seen : TurnState}
    (h : SourceOk t s { call := .passSwapState by_ next seen, todo })
    (hseen : seen = .unstarted ∨ seen = .waiting) (hnext : s.stateOf next = seen) :
    OrderStep t s (s.give t next seen (!by_.gotBack t next))
      { call := .passStoreHolder by_ next, todo } := by
  have hturn : s.turn = some t := h.passes rfl
  have hstate : s.stateOf t = by_.state := h.allows
  have hquiet := hs.quiet (i := next) (by rwa [hnext])
  have hstates (j : ℕ) : (s.give t next seen (!by_.gotBack t next)).stateOf j =
      if j = next then .running else s.stateOf j := stateOf_setState s next j .running
  have hgrants (j : ℕ) : ((s.give t next seen (!by_.gotBack t next)).turns j).grant =
      (s.turns j).grant := grant_setState s next j .running
  -- the turn comes back only to one who yields
  have hback : by_.gotBack t next = true ↔ t = next := by
    cases by_ with
    | yielding p => simp [gotBack]
    | leaving by_ =>
      simp only [gotBack, Bool.false_eq_true, false_iff]
      rintro rfl
      rw [hnext] at hstate
      rcases hseen with rfl | rfl <;> simp [state] at hstate
  have hsender (j : ℕ) : (s.give t next seen (!by_.gotBack t next)).sender j =
      if j = next ∧ t ≠ next then some t else s.sender j := by
    by_cases ht : t = next
    · rw [give, hback.mpr ht]
      simp [ht]
    · have hfalse : by_.gotBack t next = false := by simpa using mt hback.mp ht
      simp [give, hfalse, ht, update_apply]
  have hnone := h.sender_ne rfl
  refine ⟨⟨?_, ?_, ?_, ?_, ?_⟩, fun u hu => ⟨?_, fun h => absurd h (turn_ne hturn hu), ?_, ?_, ?_, ?_,
    fun h => absurd h (turn_ne hturn hu)⟩, ?_⟩
  · intro i hi
    rw [hstates] at hi
    split at hi
    · rename_i heq
      rw [heq]
      rfl
    · obtain rfl := some.inj (hturn.symm.trans (hs.running hi))
      rw [hstate] at hi
      cases by_ <;> simp [state] at hi
  · intro i hi
    rw [hstates] at hi
    split at hi
    · rename_i heq
      rw [heq]
      refine hs.inRange ?_
      rw [hnext]
      rcases hseen with rfl | rfl <;> simp
    · exact hs.inRange hi
  · intro i hi
    rw [hstates] at hi
    rw [hgrants, hsender]
    split at hi
    · simp at hi
    · rename_i hin
      rw [if_neg (fun h => hin h.1)]
      exact hs.quiet hi
  · intro i u hi
    rw [hgrants]
    rw [hsender] at hi
    split at hi
    · rename_i heq
      rw [heq.1]
      exact hquiet.1
    · exact hs.sender hi
  · intro hgone
    simp [give] at hgone
  · rw [hstates]
    by_cases hun : u = next
    · refine .inr ⟨by rwa [hun, hnext], by simp [hun], turn_ne hturn hu, ?_⟩
      rw [hsender, if_pos ⟨hun, fun ht => hu (hun.trans ht.symm)⟩]
      simp
    · exact .inl (if_neg hun)
  · intro hgained
    have hun : next = u := some.inj hgained
    exact .inr (by rw [hstates, if_pos hun.symm])
  · intro i
    rw [hsender]
    split_ifs with heq
    · rw [heq.1, hquiet.2]
      simp [Ne.symm hu]
    · exact Iff.rfl
  · rw [hgrants, hsender]
    intro hcoming
    split
    · exact .inr (by simp)
    · exact hcoming
  · rw [hgrants, hsender]
    intro hrun hfree
    rw [if_neg]
    · exact hfree
    · rintro ⟨rfl, -⟩
      rw [hrun] at hnext
      rcases hseen with rfl | rfl <;> simp at hnext
  · constructor
    case allows =>
      simp only [allows]
      by_cases ht : t = next
      · rw [if_pos (hback.mpr ht), hstates, if_pos ht]
      · rw [if_neg (mt hback.mp ht), hstates, if_neg ht, hstate]
        cases by_ <;> simp [afterState, state]
    case passes => simp [passes]
    case turn =>
      intro hmine
      have ht : next = t := some.inj hmine
      exact .inl (by rw [hstates, if_pos ht.symm])
    case sends =>
      intro i
      rw [hsender]
      simp only [sendsTo]
      by_cases ht : t = next
      · rw [if_pos (hback.mpr ht), if_neg (fun h => h.2 ht)]
        simp [hnone]
      · rw [if_neg (mt hback.mp ht)]
        by_cases hi : i = next
        · simp [hi, ht]
        · simp [hi, hnone, Ne.symm hi]
    case awaits =>
      intro hawaits hrun
      rw [hstates] at hrun
      cases by_ with
      | yielding p =>
        have ht : t ≠ next := by simpa [awaits] using hawaits
        rw [if_neg ht, hstate] at hrun
        simp [state] at hrun
      | leaving by_ => simp [awaits] at hawaits
    case received =>
      intro hreceived hrun
      cases by_ with
      | yielding p =>
        have ht : t = next := by simpa [received] using hreceived
        rw [hgrants, hsender, if_neg (fun h => h.2 ht), ht]
        exact hquiet
      | leaving by_ => simp [received] at hreceived
    case scanned => trivial

lemma OrderStep.sends {next : ℕ} (h : SourceOk t s { call := .passSend by_ next, todo }) :
    OrderStep t s { s.setGrant next true with sender := update s.sender next none }
      { call := by_.after, todo } := by
  have hmine : s.sender next = some t := (h.sends next).mpr rfl
  have hnone (i : ℕ) (hi : i ≠ next) : s.sender i ≠ some t := fun hsender =>
    hi (some.inj ((h.sends i).mp hsender)).symm
  set s' : TimeOrder := { s.setGrant next true with sender := update s.sender next none }
  have hstates (j : ℕ) : s'.stateOf j = s.stateOf j := stateOf_setGrant s next j true
  have hgrants (j : ℕ) : (s'.turns j).grant = if j = next then true else (s.turns j).grant :=
    grant_setGrant s next j true
  have hsender (j : ℕ) : s'.sender j = if j = next then none else s.sender j :=
    update_apply ..
  refine ⟨⟨?_, ?_, ?_, ?_, ?_⟩, fun u hu => ⟨.inl (hstates u), id, .inl, ?_, ?_, ?_,
    fun _ j => .inl (hstates j)⟩, ?_⟩
  · intro i hi
    rw [hstates] at hi
    exact hs.running hi
  · intro i hi
    rw [hstates] at hi
    exact hs.inRange hi
  · intro i hi
    rw [hstates] at hi
    have hin : i ≠ next := by
      rintro rfl
      have := (hs.quiet hi).2
      simp [hmine] at this
    rw [hgrants, hsender, if_neg hin, if_neg hin]
    exact hs.quiet hi
  · intro i u hi
    rw [hsender] at hi
    split at hi
    · simp at hi
    · rename_i hin
      rw [hgrants, if_neg hin]
      exact hs.sender hi
  · intro hgone i
    rw [hstates]
    exact hs.lost hgone i
  · intro i
    rw [hsender]
    split_ifs with heq
    · rw [heq, hmine]
      simp [Ne.symm hu]
    · exact Iff.rfl
  · intro hcoming
    rw [hgrants, hsender]
    split
    · exact .inl rfl
    · exact hcoming
  · intro hrun hfree
    have hun : u ≠ next := by
      rintro rfl
      simp [hmine] at hfree
    rw [hgrants, hsender, if_neg hun, if_neg hun]
    exact hfree
  · have hsends' (i : ℕ) : s'.sender i ≠ some t := by
      rw [hsender]
      split
      · simp
      · rename_i hin
        exact hnone i hin
    cases by_ with
    | yielding p =>
      constructor
      case allows =>
        rw [hstates]
        exact h.allows
      case passes => simp [PassBy.after, passes]
      case turn =>
        intro hmine
        rw [hstates]
        exact .inl ((h.turn hmine).resolve_right (by simp [passes]))
      case sends =>
        simp [PassBy.after, sendsTo, hsends']
      case awaits =>
        intro _ hrun
        rw [hstates] at hrun
        rw [hgrants, hsender]
        split
        · exact .inl rfl
        · exact h.awaits rfl hrun
      case received => simp [PassBy.after, received]
      case scanned => trivial
    | leaving by_ =>
      have hdone : s.stateOf t = .done := h.allows
      exact .left ((hstates t).trans hdone) (h.turn_ne_self rfl (by simp [hdone])) hsends' by_

/-! ### Every step -/

structure SameTurn (s s' : TimeOrder) : Prop where
  count : s'.count = s.count
  states : ∀ j, s'.stateOf j = s.stateOf j
  grants : ∀ j, (s'.turns j).grant = (s.turns j).grant
  turn : s'.turn = s.turn
  sender : s'.sender = s.sender

lemma OrderStep.same (h : SourceOk t s l') (hsame : SameTurn s s') : OrderStep t s s' l' := by
  have hlater (u : ℕ) : OrderLater u s s' := by
    refine ⟨.inl (hsame.states u), ?_, ?_, ?_, ?_, ?_, fun _ j => .inl (hsame.states j)⟩
    · rw [hsame.turn]
      exact id
    · rw [hsame.turn]
      exact .inl
    · rw [hsame.sender]
      exact fun _ => Iff.rfl
    · rw [hsame.grants, hsame.sender]
      exact id
    · rw [hsame.grants, hsame.sender]
      exact fun _ => id
  refine ⟨⟨?_, ?_, ?_, ?_, ?_⟩, fun u _ => hlater u, h.later (hlater t)⟩
  · intro i hi
    rw [hsame.states] at hi
    rw [hsame.turn]
    exact hs.running hi
  · intro i hi
    rw [hsame.states] at hi
    rw [hsame.count]
    exact hs.inRange hi
  · intro i hi
    rw [hsame.states] at hi
    rw [hsame.grants, hsame.sender]
    exact hs.quiet hi
  · intro i u hi
    rw [hsame.sender] at hi
    rw [hsame.grants]
    exact hs.sender hi
  · intro hgone i
    rw [hsame.turn] at hgone
    rw [hsame.states]
    exact hs.lost hgone i

lemma running_of_grant (hgrant : (s.turns t).grant = true)
    (hstate : (s.stateOf t = .unstarted ∨ s.stateOf t = .waiting) ∨ s.stateOf t = .running) :
    s.stateOf t = .running := by
  refine hstate.resolve_left fun hquiet => ?_
  have := (hs.quiet hquiet).1
  simp [hgrant] at this

theorem next_orderStep (h : SourceOk t s { call, todo })
    (hnext : call.next t s todo = some (s', l')) : OrderStep t s s' l' := by
  have hallows := h.allows
  cases call with
  | enterSelect =>
    simp only [OrderCall.next] at hnext
    split at hnext
    · rename_i hgrant
      cases hnext
      have hrun := running_of_grant hs hgrant (hallows.imp_left .inl)
      exact .receives hs h hgrant rfl hrun (.inl rfl) rfl rfl rfl trivial
    · simp at hnext
  | start =>
    simp only [OrderCall.next] at hnext
    split at hnext
    · cases hnext
      exact .stays hs (h.goes hallows)
    · split at hnext
      · cases hnext
        exact .stays hs (h.goes hallows fun _ _ => rfl)
      · cases hnext
        exact .stays hs (h.goes hallows fun _ _ => rfl)
  | yieldLoadState p at_ =>
    simp only [OrderCall.next] at hnext
    split at hnext
    · cases hnext
      exact .stays hs (h.goes hallows fun _ _ => rfl)
    · rename_i hrun
      cases hnext
      exact .stays hs (h.goes (not_not.mp hrun) fun _ _ => rfl)
  | yieldStoreAt p at_ =>
    cases hnext
    have hstore : SourceOk t s { call := .yieldStoreState p, todo } :=
      h.goes hallows fun _ _ => rfl
    exact .same hs hstore ⟨rfl, by simp, by simp, rfl, rfl⟩
  | yieldStoreState p =>
    cases hnext
    exact .releases hs h (.yielding p) hallows rfl fun _ => h.received rfl hallows
  | yieldSelect p =>
    simp only [OrderCall.next] at hnext
    split at hnext
    · rename_i hgrant
      cases hnext
      have hrun := running_of_grant hs hgrant (hallows.imp_left .inr)
      exact .receives hs h hgrant rfl hrun (.inl rfl) rfl rfl rfl trivial
    · simp at hnext
  | emit p =>
    cases hnext
    have hstart : SourceOk t s { call := .start, todo } :=
      h.goes hallows fun _ _ => rfl
    exact .same hs hstart ⟨rfl, fun _ => rfl, fun _ => rfl, rfl, rfl⟩
  | leaveLoadState by_ =>
    simp only [OrderCall.next] at hnext
    split at hnext
    · rename_i hdone
      cases hnext
      exact .stays hs (.left hdone (h.turn_ne_self rfl (by simp [hdone])) (h.sender_ne rfl) by_)
    · rename_i hrun
      cases hnext
      exact .stays hs (h.goes hrun)
    · rename_i hdone hrun
      cases hnext
      refine .stays hs (h.goes ⟨?_, .inl rfl⟩)
      cases hst : s.stateOf t <;> simp_all
  | leaveSwapState by_ seen =>
    obtain ⟨hseen, hstate⟩ := hallows
    simp only [OrderCall.next] at hnext
    split at hnext
    · rename_i heq
      cases hnext
      exact .leaves hs h rfl rfl (heq ▸ hseen) by_
    · rename_i hne
      cases hnext
      have hrun := hstate.resolve_left hne
      refine .stays hs (h.goes ?_)
      rw [hrun]
      cases by_ <;> simp [OrderCall.allows]
  | leaveStoreState by_ =>
    cases hnext
    exact .releases hs h (.leaving by_) hallows rfl nofun
  | passLoadUnstarted by_ i =>
    have hscanned := h.scanned
    simp only [OrderCall.next] at hnext
    split at hnext
    · split at hnext
      · cases hnext
        exact .stays hs (h.goes hallows)
      · rename_i hi
        cases hnext
        exact .stays hs (h.goes hallows nofun
          (Nat.forall_lt_succ_right.mpr ⟨hscanned, hi⟩))
    · rename_i hend
      cases hnext
      refine .stays hs (h.goes hallows nofun ⟨fun j hj => ?_, fun _ j hj => ?_⟩)
      · exact hscanned j ((hs.inRange (by simp [hj])).trans_le (not_lt.mp hend)) hj
      · exact absurd hj (Nat.not_lt_zero j)
  | passLoadWaiting by_ i best =>
    have hscanned := h.scanned
    simp only [OrderCall.next] at hnext
    split at hnext
    · split at hnext
      · cases hnext
        exact .stays hs (h.goes hallows nofun hscanned.1)
      · rename_i hi
        cases hnext
        exact .stays hs (h.goes hallows nofun
          ⟨hscanned.1, fun hbest => Nat.forall_lt_succ_right.mpr ⟨hscanned.2 hbest, hi⟩⟩)
    · rename_i hend
      split at hnext
      · cases hnext
        exact .ends hs h (not_lt.mp hend)
      · cases hnext
        exact .stays hs (h.goes hallows)
  | passLoadAt by_ i best =>
    cases hnext
    refine .stays hs (h.goes hallows nofun ⟨h.scanned, fun hbest => ?_⟩)
    cases best with
    | none => simp at hbest
    | some best =>
      dsimp only at hbest
      split at hbest <;> simp at hbest
  | passLoadState by_ next =>
    cases hnext
    exact .stays hs (h.goes hallows)
  | passSwapState by_ next seen =>
    simp only [OrderCall.next] at hnext
    split at hnext
    · rename_i hswap
      cases hnext
      exact .gives hs h hswap.1 hswap.2
    · cases hnext
      exact .stays hs (h.goes hallows nofun fun j hj => absurd hj (Nat.not_lt_zero j))
  | passStoreHolder by_ next =>
    cases hnext
    refine .same hs ?_ ⟨rfl, fun _ => rfl, fun _ => rfl, rfl, rfl⟩
    cases by_ with
    | yielding p =>
      dsimp only
      split_ifs with ht
      · have hback : (PassBy.yielding p).gotBack t next = true := by simp [PassBy.gotBack, ht]
        simp only [OrderCall.allows, hback, if_true] at hallows
        refine h.goes (.inl hallows) (fun _ _ => ?_) trivial rfl ?_
        · simp [OrderCall.received, ht]
        · simp [OrderCall.sendsTo, hback]
      · have hback : (PassBy.yielding p).gotBack t next = false := by simp [PassBy.gotBack, ht]
        simp only [OrderCall.allows, hback, Bool.false_eq_true, if_false] at hallows
        refine h.goes hallows nofun trivial rfl ?_ fun _ _ => ?_
        · simp [OrderCall.sendsTo, hback]
        · simp [OrderCall.awaits, ht]
    | leaving by_ => exact h.goes hallows
  | passSend by_ next =>
    simp only [OrderCall.next] at hnext
    split at hnext
    · simp at hnext
    · cases hnext
      exact .sends hs h
  | finished => simp [OrderCall.next] at hnext

theorem orderAct_step {a : OrderAction} (h : SourceOk t s l)
    (hact : orderAct t a s l = some (s', l')) : OrderStep t s s' l' := by
  obtain ⟨call, todo⟩ := l
  cases a with
  | next => exact next_orderStep hs h hact
  | cancel =>
    cases hact
    exact .same hs h ⟨rfl, fun _ => rfl, fun _ => rfl, rfl, rfl⟩
  | contextDone =>
    cases call with
    | enterSelect =>
      simp only [orderAct] at hact
      split at hact
      · cases hact
        exact .stays hs (h.goes h.allows)
      · simp at hact
    | yieldSelect p =>
      simp only [orderAct] at hact
      split at hact
      · cases hact
        exact .stays hs (h.goes h.allows)
      · simp at hact
    | _ => simp [orderAct] at hact
  | stop =>
    cases call with
    | start =>
      simp only [orderAct] at hact
      split at hact
      · cases hact
        exact .stays hs (h.goes h.allows)
      · simp at hact
    | _ => simp [orderAct] at hact

end

/-! ### Runs -/

section

variable {ordered : List Bool} {sources : ℕ → List Packet} {c : Threads TimeOrder SourceRun}
  {guard : ℕ → OrderAction → TimeOrder → SourceRun → Prop}

lemma stateOf_newTimeOrder (i : ℕ) : (newTimeOrder ordered sources).shared.stateOf i =
    if some i = ordered.findIdx? id then .running
    else if ordered.getD i false then .unstarted else .done := by
  simp only [stateOf, newTimeOrder]
  split
  · rfl
  · split <;> rfl

lemma ordered_of_first {i : ℕ} (h : some i = ordered.findIdx? id) : ordered.getD i false = true := by
  obtain ⟨hlt, hi, -⟩ := findIdx?_eq_some_iff_getElem.mp h.symm
  simpa [getD_eq_getElem?_getD, getElem?_eq_getElem hlt] using hi

lemma lt_of_ordered {i : ℕ} (h : ordered.getD i false = true) : i < ordered.length := by
  by_contra hlt
  simp [getD_eq_getElem?_getD, getElem?_eq_none (not_lt.mp hlt)] at h

theorem orderOk_newTimeOrder : OrderOk (newTimeOrder ordered sources).shared := by
  constructor
  case running =>
    intro i hi
    rw [stateOf_newTimeOrder] at hi
    split at hi
    · exact (‹some i = _›).symm
    · split at hi <;> simp at hi
  case inRange =>
    intro i hi
    rw [stateOf_newTimeOrder] at hi
    refine lt_of_ordered ?_
    split at hi
    · exact ordered_of_first ‹_›
    · split at hi
      · assumption
      · simp at hi
  case quiet =>
    intro i hi
    rw [stateOf_newTimeOrder] at hi
    split at hi
    · simp at hi
    · rename_i hfirst
      refine ⟨?_, rfl⟩
      simp only [newTimeOrder, if_neg hfirst]
      split <;> rfl
  case sender => exact fun h => by simp [newTimeOrder] at h
  case lost =>
    intro hnone i
    have hfirst : ordered.findIdx? id = none := hnone
    have hfalse : ordered.getD i false = false := by
      rw [getD_eq_getElem?_getD]
      cases hi : ordered[i]? with
      | none => rfl
      | some b => simpa using findIdx?_eq_none_iff.mp hfirst b (mem_of_getElem? hi)
    rw [stateOf_newTimeOrder, hfirst, hfalse]
    simp

theorem sourceOk_newTimeOrder (t : ℕ) :
    SourceOk t (newTimeOrder ordered sources).shared ((newTimeOrder ordered sources).own t) := by
  have hown : ((newTimeOrder ordered sources).own t).call =
      if ordered.getD t false then .enterSelect else .finished := by
    simp only [newTimeOrder]
    split <;> rfl
  cases ht : ordered.getD t false with
  | true =>
    rw [ht, if_pos rfl] at hown
    constructor
    case allows =>
      rw [hown, stateOf_newTimeOrder, ht]
      by_cases hfirst : some t = ordered.findIdx? id <;> simp [hfirst, allows]
    case passes => simp [hown, passes]
    case turn =>
      intro hturn
      have hfirst : ordered.findIdx? id = some t := hturn
      exact .inl (by rw [stateOf_newTimeOrder, if_pos hfirst.symm])
    case sends =>
      rw [hown]
      simp [newTimeOrder, sendsTo]
    case awaits =>
      intro _ hrun
      rw [stateOf_newTimeOrder] at hrun
      refine .inl ?_
      by_cases hfirst : some t = ordered.findIdx? id
      · simp only [newTimeOrder]
        rw [if_pos hfirst]
      · rw [if_neg hfirst, ht, if_pos rfl] at hrun
        simp at hrun
    case received => simp [hown, received]
    case scanned =>
      rw [hown]
      trivial
  | false =>
    have hfirst : some t ≠ ordered.findIdx? id := fun h => by
      rw [ordered_of_first h] at ht
      simp at ht
    rw [ht] at hown
    constructor
    case allows =>
      rw [hown, stateOf_newTimeOrder, if_neg hfirst, ht]
      rfl
    case passes => simp [hown, passes]
    case turn => exact fun hturn => absurd (Eq.symm hturn) hfirst
    case sends =>
      intro i
      rw [hown]
      simp [newTimeOrder, sendsTo]
    case awaits => simp [hown, awaits]
    case received => simp [hown, received]
    case scanned =>
      rw [hown]
      trivial

theorem orderOk_reaches (h : Reaches orderAct guard (newTimeOrder ordered sources) c) :
    OrderOk c.shared ∧ ∀ t, SourceOk t c.shared (c.own t) :=
  h.outline OrderOk SourceOk orderOk_newTimeOrder sourceOk_newTimeOrder
    (fun hs hl _ hact => ⟨(orderAct_step hs hl hact).order, (orderAct_step hs hl hact).source⟩)
    (fun hs hl _ hact _ _ hne hl' => hl'.later ((orderAct_step hs hl hact).later _ hne))

end

end Goav.Pipeline
