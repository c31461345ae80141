import Goav.Lib.Threads

/-!
The bounded lock-free queue of `pipeline/ring.go`, as the atomic steps of any number of threads. The tail
word carries two flags above the position; a cell's sequence number is `2 * pos` for the push at `pos`
and `2 * pos + 1` for the pop. A call is a program counter with the values that were loaded. Ghost fields
record the claims, the pops, and who is at work on a position.
-/

namespace Goav.Pipeline

open Goav.Lib

def ringClosed : UInt64 := (1 : UInt64) <<< 63
def ringLocked : UInt64 := (1 : UInt64) <<< 62
def ringPos : UInt64 := ringLocked - 1

inductive RingStatus where
  | ok | full | isClosed | isLocked

/-- A cell; its value is a pointer, which is nil where there is none. -/
structure RingCell (V : Type) where
  seq : UInt64
  val : Option V := none

structure Ring (V : Type) where
  tail : UInt64 := 0
  head : UInt64 := 0
  cells : List (RingCell V)
  size : UInt64
  mask : UInt64
  pow2 : Bool
  /-- Ghost: the values, in the order in which pushes claimed their positions. -/
  claims : List V := []
  /-- Ghost: how many pops have claimed a position. -/
  pops : ℕ := 0
  /-- Ghost: what pops returned, with the position they claimed. -/
  returned : List (ℕ × Option V) := []
  /-- Ghost: the push that has claimed a position and not published it yet. -/
  writer : ℕ → Option ℕ := fun _ => none
  /-- Ghost: the pop that has claimed a position and not handed its cell back yet. -/
  reader : ℕ → Option ℕ := fun _ => none
  /-- The thread that holds the lock. -/
  holder : Option ℕ := none

/-- No slice of cells, 16 bytes each, is longer: `make` panics. -/
def maxCells : ℕ := 2 ^ 63 / 16

/-- A ring of `n` cells, as `reset` makes it for `n ≥ 1`. -/
def newRing (V : Type) (n : ℕ) : Option (Ring V) :=
  if n < 1 ∨ maxCells < n then none
  else
    some
      { cells := (List.range n).map fun i => { seq := 2 * UInt64.ofNat i }
        size := UInt64.ofNat n
        mask := UInt64.ofNat n - 1
        pow2 := UInt64.ofNat n &&& (UInt64.ofNat n - 1) = 0 }

namespace Ring

variable {V : Type} (r : Ring V)

def cell (pos : UInt64) : ℕ :=
  if r.pow2 then (pos &&& r.mask).toNat else (pos % r.size).toNat

def seq (r : Ring V) (pos : UInt64) : UInt64 :=
  match r.cells[r.cell pos]? with
  | some c => c.seq
  | none => 0

def val (r : Ring V) (pos : UInt64) : Option V := r.cells[r.cell pos]?.bind RingCell.val

def storeSeq (pos seq : UInt64) : Ring V :=
  { r with cells := r.cells.modify (r.cell pos) fun c => { c with seq } }

def storeVal (pos : UInt64) (val : Option V) : Ring V :=
  { r with cells := r.cells.modify (r.cell pos) fun c => { c with val } }

end Ring

inductive RingResult (V : Type) where
  | push (status : RingStatus)
  | pop (v : Option V)
  | lock (ok : Bool)
  | close (ok : Bool)

/-- Where a call is, named after the next step. `t` and `h` are the words that were loaded. -/
inductive RingCall (V : Type) where
  | idle
  | returned (r : RingResult V)
  | pushLoadTail (v : V) (owner : Bool)
  | pushLoadSeq (v : V) (owner : Bool) (t : UInt64)
  | pushSwapTail (v : V) (owner : Bool) (t : UInt64)
  | pushStoreVal (v : V) (pos : UInt64)
  | pushStoreSeq (pos : UInt64)
  | pushReloadTail (v : V) (owner : Bool) (t : UInt64)
  | pushLoadHead (v : V) (owner : Bool) (t : UInt64)
  | popLoadHead
  | popLoadSeq (h : UInt64)
  | popSwapHead (h : UInt64)
  | popLoadVal (h : UInt64)
  | popClearVal (h : UInt64) (v : Option V)
  | popStoreSeq (h : UInt64) (v : Option V)
  | lockLoadTail
  | lockSwapTail (t : UInt64)
  | closeLoadTail
  | closeSwapTail (t : UInt64)

inductive RingAction (V : Type) where
  | push (v : V) (owner : Bool)
  | pop
  | lock
  | unlock
  | close
  | next

variable {V : Type}

/-- The start of a call. Only the thread that holds the lock pushes as owner and unlocks. -/
def RingAction.start (tid : ℕ) (a : RingAction V) (r : Ring V) : Option (Ring V × RingCall V) :=
  match a with
  | .push v owner =>
    if owner = true ∧ r.holder ≠ some tid then none else some (r, .pushLoadTail v owner)
  | .pop => some (r, .popLoadHead)
  | .lock => some (r, .lockLoadTail)
  | .unlock =>
    if r.holder = some tid then
      some ({ r with tail := r.tail &&& ~~~ringLocked, holder := none }, .idle)
    else none
  | .close => some (r, .closeLoadTail)
  | .next => none

def RingCall.next (tid : ℕ) (r : Ring V) : RingCall V → Option (Ring V × RingCall V)
  | .idle => none
  | .returned _ => some (r, .idle)
  | .pushLoadTail v owner =>
    let t := r.tail
    if t &&& ringClosed ≠ 0 then some (r, .returned (.push .isClosed))
    else if t &&& ringLocked ≠ 0 ∧ owner = false then some (r, .returned (.push .isLocked))
    else some (r, .pushLoadSeq v owner t)
  | .pushLoadSeq v owner t =>
    let pos := t &&& ringPos
    let seq := r.seq pos
    if seq = 2 * pos then some (r, .pushSwapTail v owner t)
    else if (seq - 2 * pos).toInt64 < 0 then some (r, .pushReloadTail v owner t)
    else some (r, .pushLoadTail v owner)
  | .pushSwapTail v owner t =>
    let pos := t &&& ringPos
    if r.tail = t then
      some ({ r with tail := t + 1, claims := r.claims ++ [v],
                     writer := Function.update r.writer r.claims.length (some tid) },
        .pushStoreVal v pos)
    else some (r, .pushLoadTail v owner)
  | .pushStoreVal v pos => some (r.storeVal pos (some v), .pushStoreSeq pos)
  | .pushStoreSeq pos =>
    some ({ r.storeSeq pos (2 * pos + 1) with
        writer := Function.update r.writer pos.toNat none }, .returned (.push .ok))
  | .pushReloadTail v owner t =>
    if r.tail ≠ t then some (r, .pushLoadTail v owner) else some (r, .pushLoadHead v owner t)
  | .pushLoadHead v owner t =>
    let pos := t &&& ringPos
    if r.size.toInt64 ≤ (pos - r.head).toInt64 then some (r, .returned (.push .full))
    else some (r, .pushLoadTail v owner)
  | .popLoadHead => some (r, .popLoadSeq r.head)
  | .popLoadSeq h =>
    let seq := r.seq h
    if seq = 2 * h + 1 then some (r, .popSwapHead h)
    else if (seq - (2 * h + 1)).toInt64 < 0 then some (r, .returned (.pop none))
    else some (r, .popLoadHead)
  | .popSwapHead h =>
    if r.head = h then
      some ({ r with head := h + 1, pops := r.pops + 1,
                     reader := Function.update r.reader r.pops (some tid) }, .popLoadVal h)
    else some (r, .popLoadHead)
  | .popLoadVal h => some (r, .popClearVal h (r.val h))
  | .popClearVal h v => some (r.storeVal h none, .popStoreSeq h v)
  | .popStoreSeq h v =>
    some ({ r.storeSeq h (2 * (h + r.size)) with
        reader := Function.update r.reader h.toNat none
        returned := r.returned ++ [(h.toNat, v)] }, .returned (.pop v))
  | .lockLoadTail =>
    let t := r.tail
    if t &&& ringClosed ≠ 0 then some (r, .returned (.lock false))
    else if t &&& ringLocked = 0 then some (r, .lockSwapTail t)
    else some (r, .lockLoadTail)
  | .lockSwapTail t =>
    if r.tail = t then
      some ({ r with tail := t ||| ringLocked, holder := some tid }, .returned (.lock true))
    else some (r, .lockLoadTail)
  | .closeLoadTail =>
    let t := r.tail
    if t &&& ringClosed ≠ 0 then some (r, .returned (.close false))
    else if t &&& ringLocked ≠ 0 then some (r, .closeLoadTail)
    else some (r, .closeSwapTail t)
  | .closeSwapTail t =>
    if r.tail = t then some ({ r with tail := t ||| ringClosed }, .returned (.close true))
    else some (r, .closeLoadTail)

def ringAct (tid : ℕ) (a : RingAction V) (r : Ring V) (l : RingCall V) :
    Option (Ring V × RingCall V) :=
  match l, a with
  | .idle, a => a.start tid r
  | l, .next => l.next tid r
  | _, _ => none

end Goav.Pipeline
