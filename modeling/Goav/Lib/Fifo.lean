import Mathlib.Data.List.Basic

/-!
A first-in first-out queue whose places are claimed before they are filled: a place is claimed at the
end, its value is published later, and the oldest value comes out once it is published.
-/

namespace Goav.Lib

variable {V : Type*}

/-- Values in order, published or not. -/
abbrev Fifo (V : Type*) := List (V × Bool)

namespace Fifo

variable (q : Fifo V)

def values : List V := q.map Prod.fst

def claim (v : V) : Fifo V := q ++ [(v, false)]

def publish (i : ℕ) : Fifo V := q.modify i fun e => (e.1, true)

def pop : Fifo V → Option (V × Fifo V)
  | (v, true) :: q => some (v, q)
  | _ => none

@[simp] theorem values_nil : values ([] : Fifo V) = [] := rfl

@[simp] theorem values_cons (e : V × Bool) (q : Fifo V) : values (e :: q) = e.1 :: values q := rfl

@[simp] theorem values_claim (v : V) : (q.claim v).values = q.values ++ [v] := by
  simp [values, claim]

@[simp] theorem length_claim (v : V) : (q.claim v).length = q.length + 1 := by
  simp [claim]

@[simp] theorem values_publish (i : ℕ) : (q.publish i).values = q.values := by
  refine List.ext_getElem? fun j => ?_
  simp only [values, publish, List.getElem?_map, List.getElem?_modify]
  cases q[j]? with
  | none => rfl
  | some e => by_cases h : i = j <;> simp [h]

@[simp] theorem length_publish (i : ℕ) : (q.publish i).length = q.length :=
  List.length_modify _ _ _

theorem pop_eq_some {q q' : Fifo V} {v : V} : q.pop = some (v, q') ↔ q = (v, true) :: q' := by
  unfold pop
  split <;> simp_all

/-- What one step does to the queue. -/
inductive Step (n : ℕ) (q : Fifo V) : Fifo V → Prop
  | stays : Step n q q
  | claims (v : V) (room : q.length < n) : Step n q (q.claim v)
  | publishes (i : ℕ) : Step n q (q.publish i)
  | pops {v : V} {q' : Fifo V} (oldest : q.pop = some (v, q')) : Step n q q'

end Fifo

end Goav.Lib
