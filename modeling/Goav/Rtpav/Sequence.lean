import Goav.Rtpav.JitterWindow

/-!
The sequence detector of `rtpav/sequence.go`. The cycles and the number together are to count on by the
distance of every packet that comes ahead; the branch for a loss does not see a cycle that ends with it.
-/

namespace Goav.Rtpav

open List

structure PushState extends SequenceState where
  cycles : UInt32 := 0
  missing : List UInt16 := []
  missingTruncated : Bool := false

structure SequenceDetector where
  initialized : Bool := false
  ssrc : UInt32 := 0
  cycles : UInt32 := 0
  expected : UInt16 := 0

/-- The numbers from the expected one to the packet's, as far as there is room. -/
def missingLoop (room : ℕ) (seq : UInt16) : ℕ → UInt16 → List UInt16 × Bool → List UInt16 × Bool
  | 0, _, found => found
  | fuel + 1, cur, (missing, truncated) =>
    if cur = seq then (missing, truncated)
    else
      missingLoop room seq fuel (cur + 1)
        (if missing.length = room then (missing, true) else (missing ++ [cur], truncated))

namespace SequenceDetector

variable (pkt : Packet)

def init : SequenceDetector :=
  { initialized := true, ssrc := pkt.ssrc, cycles := 0, expected := pkt.sequenceNumber + 1 }

variable (d : SequenceDetector)

def advance (seq : UInt16) : SequenceDetector :=
  { d with cycles := if seq = 0xffff then d.cycles + 1 else d.cycles, expected := seq + 1 }

def advanceNoCycle (seq : UInt16) : SequenceDetector :=
  { d with expected := seq + 1 }

def delta : UInt16 := pkt.sequenceNumber - d.expected

def push (room : ℕ) : SequenceDetector × PushState :=
  if !d.initialized then
    let d := init pkt
    (d, { ssrc := pkt.ssrc, cycles := d.cycles, expected := d.expected })
  else if pkt.ssrc ≠ d.ssrc then
    let d := init pkt
    (d, { ssrc := pkt.ssrc, cycles := d.cycles, expected := d.expected, discontinuous := true })
  else
    let seq := pkt.sequenceNumber
    if d.delta pkt = 0 then
      let d := d.advance seq
      (d, { ssrc := pkt.ssrc, cycles := d.cycles, expected := d.expected })
    else if (d.delta pkt).toNat < 0x8000 then
      let (missing, missingTruncated) := missingLoop room seq (2 ^ 16) d.expected ([], false)
      let counted := if seq < d.expected then { d with cycles := d.cycles + 1 } else d
      let d := counted.advanceNoCycle seq
      (d, { ssrc := pkt.ssrc, cycles := d.cycles, expected := d.expected, lossBefore := true, missing,
            missingTruncated })
    else (d, { ssrc := pkt.ssrc, cycles := d.cycles, expected := d.expected })

def after (pkts : List (Packet × ℕ)) : SequenceDetector :=
  pkts.foldl (fun d p => (d.push p.1 p.2).1) d

def extended : ℕ := d.cycles.toNat * 2 ^ 16 + d.expected.toNat

def Ahead : Prop := (d.delta pkt).toNat < 0x8000

instance (d : SequenceDetector) (pkt : Packet) : Decidable (d.Ahead pkt) :=
  inferInstanceAs (Decidable (_ < _))

def between : List UInt16 :=
  (List.range (d.delta pkt).toNat).map fun i => d.expected + UInt16.ofNat i

/-- The extended number counts on by the distance of a packet ahead, and all before it are missing. -/
def Lawful (room : ℕ) : Prop :=
  if d.Ahead pkt then
    (d.push pkt room).1.extended = d.extended + (d.delta pkt).toNat + 1 ∧
      (d.push pkt room).2.missing = (d.between pkt).take room ∧
      ((d.push pkt room).2.missingTruncated = true ↔ room < (d.between pkt).length)
  else
    (d.push pkt room).1.extended = d.extended ∧ (d.push pkt room).2.missing = [] ∧
      (d.push pkt room).2.missingTruncated = false

instance (d : SequenceDetector) (pkt : Packet) (room : ℕ) : Decidable (d.Lawful pkt room) := by
  unfold Lawful
  infer_instance

/-- A packet ahead with the last number of a cycle is the next one, and the last cycle does not end. -/
def Countable : Prop :=
  d.Ahead pkt → (pkt.sequenceNumber = 0xffff → d.delta pkt = 0) ∧
    (d.cycles = 0xffffffff → d.expected.toNat + (d.delta pkt).toNat + 1 < 2 ^ 16)

/-! ### The missing numbers -/

lemma add_ofNat_ne {cur : UInt16} {n : ℕ} (hpos : 0 < n) (hn : n < 2 ^ 16) :
    cur ≠ cur + UInt16.ofNat n := by
  intro heq
  have hzero : UInt16.ofNat n = 0 := by
    grind
  have := congrArg UInt16.toNat hzero
  exact absurd this (by simp; omega)

lemma missingLoop_eq {room : ℕ} {seq : UInt16} (n : ℕ) :
    ∀ {fuel : ℕ} {cur : UInt16} {missing : List UInt16} {truncated : Bool}, n < 2 ^ 16 → n ≤ fuel →
      seq = cur + UInt16.ofNat n → missing.length ≤ room →
      missingLoop room seq fuel cur (missing, truncated) =
        ((missing ++ (range n).map fun i => cur + UInt16.ofNat i).take room,
          truncated || decide (room < missing.length + n)) := by
  induction n with
  | zero =>
    intro fuel cur missing truncated _ _ hseq hroom
    obtain rfl : seq = cur := by simpa using hseq
    have hstop : missingLoop room seq fuel seq (missing, truncated) = (missing, truncated) := by
      cases fuel with
      | zero => rfl
      | succ fuel => exact if_pos rfl
    rw [hstop, range_zero, map_nil, append_nil]
    simp [hroom]
  | succ n ih =>
    intro fuel cur missing truncated hn hfuel hseq hroom
    obtain ⟨fuel, rfl⟩ : ∃ k, fuel = k + 1 := ⟨fuel - 1, by omega⟩
    have hne : cur ≠ seq := hseq ▸ add_ofNat_ne (by omega) hn
    have hnext : seq = cur + 1 + UInt16.ofNat n := by
      rw [hseq, ofNat_succ]
      ac_rfl
    have hrange : (range (n + 1)).map (fun i => cur + UInt16.ofNat i) =
        cur :: (range n).map fun i => cur + 1 + UInt16.ofNat i := by
      rw [range_succ_eq_map, map_cons, map_map]
      congr 1
      · simp
      · refine map_congr_left fun i _ => ?_
        show cur + UInt16.ofNat (i + 1) = _
        rw [ofNat_succ]
        ac_rfl
    rw [missingLoop, if_neg hne]
    split
    · rename_i hfull
      rw [ih (by omega) (by omega) hnext hroom]
      simp [hfull]
    · rename_i hspace
      have hlength : (missing ++ [cur]).length = missing.length + 1 := by simp
      rw [ih (by omega) (by omega) hnext (by omega), hrange, append_assoc, hlength]
      congr 2
      rw [decide_eq_decide]
      omega

/-! ### Steps -/

section

variable {d : SequenceDetector} {pkt : Packet}

lemma push_cases (hinit : d.initialized = true) (hssrc : pkt.ssrc = d.ssrc) (room : ℕ) :
    (d.delta pkt = 0 ∧ (d.push pkt room).1 = d.advance pkt.sequenceNumber ∧
      (d.push pkt room).2.missing = [] ∧ (d.push pkt room).2.missingTruncated = false) ∨
    (d.delta pkt ≠ 0 ∧ d.Ahead pkt ∧
      (d.push pkt room).1 = { d with
        cycles := if pkt.sequenceNumber < d.expected then d.cycles + 1 else d.cycles
        expected := pkt.sequenceNumber + 1 } ∧
      ((d.push pkt room).2.missing, (d.push pkt room).2.missingTruncated) =
        missingLoop room pkt.sequenceNumber (2 ^ 16) d.expected ([], false)) ∨
    (¬ d.Ahead pkt ∧ (d.push pkt room).1 = d ∧ (d.push pkt room).2.missing = [] ∧
      (d.push pkt room).2.missingTruncated = false) := by
  have hbound : ¬ (!d.initialized) = true := by simp [hinit]
  have hsame : ¬ pkt.ssrc ≠ d.ssrc := not_not.mpr hssrc
  by_cases hzero : d.delta pkt = 0
  · exact .inl ⟨hzero, by simp [push, hinit, hssrc, hzero]⟩
  · by_cases hahead : (d.delta pkt).toNat < 0x8000
    · have hpush : (d.push pkt room).1 =
          (if pkt.sequenceNumber < d.expected then { d with cycles := d.cycles + 1 } else d).advanceNoCycle
            pkt.sequenceNumber := by
        simp only [push, if_neg hbound, if_neg hsame, if_neg hzero, if_pos hahead]
      refine .inr (.inl ⟨hzero, hahead, ?_, ?_⟩)
      · rw [hpush]
        split <;> rfl
      · simp only [push, if_neg hbound, if_neg hsame, if_neg hzero, if_pos hahead]
    · exact .inr (.inr ⟨hahead, by simp [push, hinit, hssrc, hzero, hahead]⟩)

lemma ahead_of_delta_eq_zero (h : d.delta pkt = 0) : d.Ahead pkt := by simp [Ahead, h]

section

variable (hinit : d.initialized = true)
include hinit

variable (hssrc : pkt.ssrc = d.ssrc)
include hssrc

variable (room : ℕ)

lemma bound_push :
    (d.push pkt room).1.initialized = true ∧ (d.push pkt room).1.ssrc = d.ssrc := by
  obtain ⟨-, hpush, -⟩ | ⟨-, -, hpush, -⟩ | ⟨-, hpush, -⟩ := push_cases hinit hssrc room
  all_goals
    rw [hpush]
    exact ⟨hinit, rfl⟩

lemma missing_push :
    if d.Ahead pkt then
      (d.push pkt room).2.missing = (d.between pkt).take room ∧
        ((d.push pkt room).2.missingTruncated = true ↔ room < (d.between pkt).length)
    else
      (d.push pkt room).2.missing = [] ∧ (d.push pkt room).2.missingTruncated = false := by
  have hlength : (d.between pkt).length = (d.delta pkt).toNat := by simp [between]
  obtain ⟨hzero, -, hmissing, htruncated⟩ | ⟨-, hahead, -, hmissing⟩ | ⟨hlate, -, hmissing⟩ :=
    push_cases hinit hssrc room
  · rw [hmissing, htruncated, hlength]
    simp [between, hzero]
  · have hseq : pkt.sequenceNumber = d.expected + UInt16.ofNat (d.delta pkt).toNat := by
      rw [UInt16.ofNat_toNat, delta]
      grind
    rw [missingLoop_eq (d.delta pkt).toNat (UInt16.toNat_lt _) (le_of_lt (UInt16.toNat_lt _)) hseq
      (Nat.zero_le _)] at hmissing
    obtain ⟨hfound, htruncated⟩ := Prod.mk.inj hmissing
    rw [if_pos hahead, hfound, htruncated]
    simp [between]
  · rw [if_neg hlate]
    exact hmissing

/-- **The extended number counts on exactly if the step is countable.** -/
lemma extended_push_iff :
    (d.push pkt room).1.extended =
      (if d.Ahead pkt then d.extended + (d.delta pkt).toNat + 1 else d.extended) ↔
      d.Countable pkt := by
  have hseq := pkt.sequenceNumber.toNat_lt
  have hexpected := d.expected.toNat_lt
  have hcycles := d.cycles.toNat_lt
  have hdelta : (d.delta pkt).toNat = (2 ^ 16 - d.expected.toNat + pkt.sequenceNumber.toNat) % 2 ^ 16 :=
    UInt16.toNat_sub _ _
  have hlast : pkt.sequenceNumber = 0xffff ↔ pkt.sequenceNumber.toNat = 2 ^ 16 - 1 := by
    rw [← UInt16.toNat_inj]
    rfl
  have hlastCycle : d.cycles = 0xffffffff ↔ d.cycles.toNat = 2 ^ 32 - 1 := by
    rw [← UInt32.toNat_inj]
    rfl
  have hnext : (pkt.sequenceNumber + 1).toNat = (pkt.sequenceNumber.toNat + 1) % 2 ^ 16 :=
    UInt16.toNat_add _ _
  have hcycle : (d.cycles + 1).toNat = (d.cycles.toNat + 1) % 2 ^ 32 := UInt32.toNat_add _ _
  unfold Countable
  rw [hlast, hlastCycle]
  obtain ⟨hzero, hpush, -⟩ | ⟨hzero, hahead, hpush, -⟩ | ⟨hlate, hpush, -⟩ :=
    push_cases hinit hssrc room
  · have hzero' : (d.delta pkt).toNat = 0 := by rw [hzero]; rfl
    rw [hpush, if_pos (ahead_of_delta_eq_zero hzero)]
    simp only [extended, advance, hnext, hlast, ahead_of_delta_eq_zero hzero, true_implies, hzero,
      implies_true, true_and, UInt16.toNat_zero]
    split
    · omega
    · omega
  · rw [hpush, if_pos hahead]
    simp only [extended, hnext, hahead, true_implies, hzero, imp_false, UInt16.lt_iff_toNat_lt]
    split
    · rw [hcycle]
      omega
    · omega
  · rw [hpush]
    simp [hlate]

/-- **A step is lawful exactly if it is countable.** -/
lemma lawful_iff : d.Lawful pkt room ↔ d.Countable pkt := by
  have hmissing := missing_push hinit hssrc room
  rw [← extended_push_iff hinit hssrc room]
  unfold Lawful
  split_ifs at hmissing ⊢
  all_goals exact ⟨And.left, fun h => ⟨h, hmissing⟩⟩

end

end

lemma bound_after {ssrc : UInt32} {pkts : List (Packet × ℕ)} (hssrc : ∀ p ∈ pkts, p.1.ssrc = ssrc)
    (hne : pkts ≠ []) : (after {} pkts).initialized = true ∧ (after {} pkts).ssrc = ssrc := by
  induction pkts using reverseRecOn with
  | nil => exact absurd rfl hne
  | append_singleton pkts p ih =>
    have hlast : p.1.ssrc = ssrc := hssrc p (by simp)
    rw [after, foldl_append]
    by_cases hempty : pkts = []
    · subst hempty
      exact ⟨rfl, hlast⟩
    · obtain ⟨hinit, hbound⟩ := ih (fun q hq => hssrc q (by simp [hq])) hempty
      obtain ⟨hinit', hbound'⟩ := bound_push hinit (hlast.trans hbound.symm) p.2
      exact ⟨hinit', hbound'.trans hbound⟩

/-- **The extended sequence number counts the packets of a stream**: each step is lawful exactly if each
is countable. -/
theorem extended_counts_iff (ssrc : UInt32) (pkts : List (Packet × ℕ))
    (hssrc : ∀ p ∈ pkts, p.1.ssrc = ssrc) :
    (∀ before pkt room rest, pkts = before ++ (pkt, room) :: rest → before ≠ [] →
      (after {} before).Lawful pkt room) ↔
    ∀ before pkt room rest, pkts = before ++ (pkt, room) :: rest → before ≠ [] →
      (after {} before).Countable pkt := by
  have hstep (before : List (Packet × ℕ)) (pkt : Packet) (room : ℕ) (rest : List (Packet × ℕ))
      (hpkts : pkts = before ++ (pkt, room) :: rest) (hne : before ≠ []) :
      (after {} before).Lawful pkt room ↔ (after {} before).Countable pkt := by
    obtain ⟨hinit, hbound⟩ := bound_after (fun p hp => hssrc p (by simp [hpkts, hp])) hne
    have hpkt : pkt.ssrc = ssrc := hssrc (pkt, room) (by simp [hpkts])
    exact lawful_iff hinit (hpkt.trans hbound.symm) room
  constructor
  · intro h before pkt room rest hpkts hne
    exact (hstep before pkt room rest hpkts hne).mp (h before pkt room rest hpkts hne)
  · intro h before pkt room rest hpkts hne
    exact (hstep before pkt room rest hpkts hne).mpr (h before pkt room rest hpkts hne)

/-- A packet before the end of a cycle and, after a loss, its last one. -/
def lossAtCycleEnd : List (Packet × ℕ) :=
  [({ sequenceNumber := 65532 }, 2), ({ sequenceNumber := 65535 }, 2)]

theorem extended_counts_iff_loss :
    (∀ p ∈ lossAtCycleEnd, p.1.ssrc = 0) ∧
    ((∀ before pkt room rest, lossAtCycleEnd = before ++ (pkt, room) :: rest → before ≠ [] →
      (after {} before).Lawful pkt room) ↔
    ∀ before pkt room rest, lossAtCycleEnd = before ++ (pkt, room) :: rest → before ≠ [] →
      (after {} before).Countable pkt) :=
  ⟨by decide, extended_counts_iff 0 lossAtCycleEnd (by decide)⟩

/-- **The cycle is not counted**: the extended number goes back from 65533 to 0. -/
theorem extended_misses_cycle :
    (∀ p ∈ lossAtCycleEnd, p.1.ssrc = 0) ∧
    ¬ ∀ before pkt room rest, lossAtCycleEnd = before ++ (pkt, room) :: rest → before ≠ [] →
      (after {} before).Lawful pkt room := by
  refine ⟨by decide, fun h => ?_⟩
  have hlawful := h [({ sequenceNumber := 65532 }, 2)] { sequenceNumber := 65535 } 2 [] rfl (by simp)
  exact absurd hlawful (by decide)

end SequenceDetector

end Goav.Rtpav
