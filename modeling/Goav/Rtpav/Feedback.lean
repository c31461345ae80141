import Goav.Lib.Except
import Goav.Rtpav.Types
import Mathlib.Data.Nat.Bitwise
import Mathlib.Data.List.Induction

/-!
The builder of RTCP feedback (`rtpav/feedback.go`). The packets are pointers to one structure for each
kind, so that a later call of the same kind changes what they denote.
-/

namespace Goav.Rtpav

open Goav.Lib List

/-- A pair of `rtcp.TransportLayerNack`: a number and a bit for each of the 16 that follow it. -/
structure NackPair where
  packetID : UInt16 := 0
  lostPackets : UInt16 := 0

structure FIREntry where
  ssrc : UInt32 := 0
  sequenceNumber : UInt8 := 0

structure Slice where
  start : ℕ := 0
  length : ℕ := 0

def Slice.of {α : Type*} (s : Slice) (l : List α) : List α := (l.drop s.start).take s.length

structure TransportLayerNack where
  senderSSRC : UInt32 := 0
  mediaSSRC : UInt32 := 0
  nacks : Slice := {}

structure PictureLossIndication where
  senderSSRC : UInt32 := 0
  mediaSSRC : UInt32 := 0

structure FullIntraRequest where
  senderSSRC : UInt32 := 0
  mediaSSRC : UInt32 := 0
  fir : Slice := {}

inductive PacketRef where
  | nack | pli | fir
  deriving DecidableEq

structure FeedbackResult where
  packets : List PacketRef := []
  packetsCap : ℕ
  nackPairs : List NackPair := []
  nackPairsCap : ℕ
  firEntries : List FIREntry := []
  firEntriesCap : ℕ
  nack : TransportLayerNack := {}
  pli : PictureLossIndication := {}
  fir : FullIntraRequest := {}

namespace FeedbackResult

variable (r : FeedbackResult)

def reset : FeedbackResult :=
  { packetsCap := r.packetsCap, nackPairsCap := r.nackPairsCap, firEntriesCap := r.firEntriesCap }

def appendNACKPair (pair : NackPair) : Except Err FeedbackResult :=
  if r.nackPairs.length = r.nackPairsCap then .error .resultFull
  else .ok { r with nackPairs := r.nackPairs ++ [pair] }

def appendPacket (packet : PacketRef) : Except Err FeedbackResult :=
  if r.packets.length = r.packetsCap then .error .resultFull
  else .ok { r with packets := r.packets ++ [packet] }

def addMissing (seq : UInt16) : Except Err FeedbackResult :=
  match r.nackPairs.getLast? with
  | none => .ok r
  | some current =>
    let delta := seq - current.packetID
    if delta = 0 then .ok r
    else if 16 < delta.toNat then r.appendNACKPair { packetID := seq }
    else
      .ok { r with
        nackPairs := r.nackPairs.dropLast ++
          [{ current with lostPackets := current.lostPackets ||| 1 <<< (delta - 1) }] }

def addNACK (senderSSRC mediaSSRC : UInt32) (missing : List UInt16) :
    Except Err FeedbackResult :=
  match missing with
  | [] => .ok r
  | first :: rest => do
    let start := r.nackPairs.length
    let r ← r.appendNACKPair { packetID := first }
    let r ← rest.foldlM addMissing r
    let nacks : Slice := { start, length := r.nackPairs.length - start }
    { r with nack := { senderSSRC, mediaSSRC, nacks } }.appendPacket .nack

def addPLI (senderSSRC mediaSSRC : UInt32) : Except Err FeedbackResult :=
  { r with pli := { senderSSRC, mediaSSRC } }.appendPacket .pli

def addFIR (senderSSRC mediaSSRC : UInt32) (sequenceNumber : UInt8) :
    Except Err FeedbackResult :=
  if r.firEntries.length = r.firEntriesCap then .error .resultFull
  else
    let entry : FIREntry := { ssrc := mediaSSRC, sequenceNumber }
    let fir : Slice := { start := r.firEntries.length, length := 1 }
    { r with
      firEntries := r.firEntries ++ [entry]
      fir := { senderSSRC, mediaSSRC, fir } }.appendPacket .fir

end FeedbackResult

/-! ### Calls and what they leave -/

inductive FeedbackCall where
  | nack (senderSSRC mediaSSRC : UInt32) (missing : List UInt16)
  | pli (senderSSRC mediaSSRC : UInt32)
  | fir (senderSSRC mediaSSRC : UInt32) (sequenceNumber : UInt8)

inductive FeedbackMessage where
  | nack (senderSSRC mediaSSRC : UInt32) (nacks : List NackPair)
  | pli (senderSSRC mediaSSRC : UInt32)
  | fir (senderSSRC mediaSSRC : UInt32) (fir : List FIREntry)

def NackPair.Covers (pair : NackPair) (seq : UInt16) : Prop :=
  seq = pair.packetID ∨
    ∃ i < 16, pair.lostPackets.toNat.testBit i = true ∧ seq = pair.packetID + UInt16.ofNat (i + 1)

def FeedbackMessage.Denotes : FeedbackMessage → FeedbackCall → Prop
  | .nack sender media nacks, .nack sender' media' missing =>
    sender = sender' ∧ media = media' ∧
      ∀ seq, (∃ pair ∈ nacks, NackPair.Covers pair seq) ↔ seq ∈ missing
  | .pli sender media, .pli sender' media' => sender = sender' ∧ media = media'
  | .fir sender media entries, .fir sender' media' sequenceNumber =>
    sender = sender' ∧ media = media' ∧ entries = [{ ssrc := media', sequenceNumber }]
  | _, _ => False

namespace FeedbackResult

variable (r : FeedbackResult)

def call : FeedbackCall → Except Err FeedbackResult
  | .nack sender media missing => r.addNACK sender media missing
  | .pli sender media => r.addPLI sender media
  | .fir sender media sequenceNumber => r.addFIR sender media sequenceNumber

def calls (cs : List FeedbackCall) : Except Err FeedbackResult := cs.foldlM call r

def denoted : PacketRef → FeedbackMessage
  | .nack => .nack r.nack.senderSSRC r.nack.mediaSSRC (r.nack.nacks.of r.nackPairs)
  | .pli => .pli r.pli.senderSSRC r.pli.mediaSSRC
  | .fir => .fir r.fir.senderSSRC r.fir.mediaSSRC (r.fir.fir.of r.firEntries)

end FeedbackResult

namespace FeedbackCall

def ref : FeedbackCall → PacketRef
  | .nack _ _ _ => .nack
  | .pli _ _ => .pli
  | .fir _ _ _ => .fir

def adds : FeedbackCall → Bool
  | .nack _ _ missing => !missing.isEmpty
  | _ => true

/-- The two ask for the same. -/
def Same : FeedbackCall → FeedbackCall → Prop
  | .nack sender media missing, .nack sender' media' missing' =>
    sender = sender' ∧ media = media' ∧ ∀ seq, seq ∈ missing ↔ seq ∈ missing'
  | .pli sender media, .pli sender' media' => sender = sender' ∧ media = media'
  | .fir sender media number, .fir sender' media' number' =>
    sender = sender' ∧ media = media' ∧ number = number'
  | _, _ => True

end FeedbackCall

/-! ### The pairs of a NACK -/

lemma NackPair.covers_new (seq seq' : UInt16) :
    NackPair.Covers { packetID := seq } seq' ↔ seq' = seq := by
  simp [NackPair.Covers]

lemma toNat_one_shiftLeft {k : UInt16} (hk : k.toNat < 16) :
    ((1 : UInt16) <<< k).toNat = 2 ^ k.toNat := by
  have hpow : 2 ^ k.toNat < 2 ^ 16 := Nat.pow_lt_pow_right (by omega) hk
  rw [UInt16.toNat_shiftLeft, Nat.mod_eq_of_lt hk, UInt16.toNat_one, Nat.one_shiftLeft,
    Nat.mod_eq_of_lt hpow]

lemma testBit_setBit (mask : UInt16) {k : UInt16} (hk : k.toNat < 16) (i : ℕ) :
    (mask ||| 1 <<< k).toNat.testBit i = (mask.toNat.testBit i || decide (k.toNat = i)) := by
  rw [UInt16.toNat_or, Nat.testBit_or, toNat_one_shiftLeft hk, Nat.testBit_two_pow]

lemma NackPair.covers_set {pair : NackPair} {seq : UInt16} (hzero : seq - pair.packetID ≠ 0)
    (hle : (seq - pair.packetID).toNat ≤ 16) (seq' : UInt16) :
    NackPair.Covers { pair with lostPackets := pair.lostPackets ||| 1 <<< (seq - pair.packetID - 1) } seq' ↔
      pair.Covers seq' ∨ seq' = seq := by
  have hpos : (seq - pair.packetID).toNat ≠ 0 := fun h => hzero (UInt16.toNat_inj.mp h)
  have hk : (seq - pair.packetID - 1).toNat = (seq - pair.packetID).toNat - 1 := by
    rw [UInt16.toNat_sub_of_le _ _ (by rw [UInt16.le_iff_toNat_le, UInt16.toNat_one]; omega),
      UInt16.toNat_one]
  have hseq : pair.packetID + UInt16.ofNat ((seq - pair.packetID - 1).toNat + 1) = seq := by
    rw [hk, Nat.sub_add_cancel (by omega), UInt16.ofNat_toNat]
    grind
  unfold NackPair.Covers
  simp only [testBit_setBit _ (show (seq - pair.packetID - 1).toNat < 16 by omega),
    Bool.or_eq_true, decide_eq_true_eq]
  constructor
  · rintro (h | ⟨i, hi, hbit | rfl, h⟩)
    · exact .inl (.inl h)
    · exact .inl (.inr ⟨i, hi, hbit, h⟩)
    · exact .inr (h.trans hseq)
  · rintro ((h | ⟨i, hi, hbit, h⟩) | rfl)
    · exact .inl h
    · exact .inr ⟨i, hi, .inl hbit, h⟩
    · exact .inr ⟨_, by omega, .inr rfl, hseq.symm⟩

namespace FeedbackResult

variable {r r' : FeedbackResult}

structure Pairs (r r' : FeedbackResult) (seqs : List UInt16) : Prop where
  pairs : ∃ pairs, pairs ≠ [] ∧ r'.nackPairs = r.nackPairs ++ pairs ∧
    ∀ seq, (∃ pair ∈ pairs, NackPair.Covers pair seq) ↔ seq ∈ seqs
  rest : r' = { r with nackPairs := r'.nackPairs }

lemma appendNACKPair_eq_ok {pair : NackPair} (h : r.appendNACKPair pair = .ok r') :
    r' = { r with nackPairs := r.nackPairs ++ [pair] } := by
  unfold appendNACKPair at h
  split at h
  · cases h
  · exact (Except.ok.inj h).symm

lemma appendPacket_eq_ok {packet : PacketRef} (h : r.appendPacket packet = .ok r') :
    r' = { r with packets := r.packets ++ [packet] } := by
  unfold appendPacket at h
  split at h
  · cases h
  · exact (Except.ok.inj h).symm

lemma pairs_appendNACKPair {first : UInt16} (h : r.appendNACKPair { packetID := first } = .ok r') :
    Pairs r r' [first] := by
  rw [appendNACKPair_eq_ok h]
  refine ⟨⟨[{ packetID := first }], by simp, rfl, fun seq => ?_⟩, rfl⟩
  rw [mem_singleton, ← NackPair.covers_new first seq]
  simp

lemma Pairs.addMissing {r₀ : FeedbackResult} {seqs : List UInt16} {seq : UInt16}
    (h : Pairs r₀ r seqs) (hadd : r.addMissing seq = .ok r') : Pairs r₀ r' (seqs ++ [seq]) := by
  obtain ⟨⟨pairs, hne, hpairs, hcovers⟩, hrest⟩ := h
  obtain ⟨front, current, rfl⟩ : ∃ front current, pairs = front ++ [current] :=
    ⟨_, _, (dropLast_append_getLast hne).symm⟩
  have hlast : r.nackPairs.getLast? = some current := by simp [hpairs]
  have hdrop : r.nackPairs.dropLast = r₀.nackPairs ++ front := by
    rw [hpairs, ← append_assoc, dropLast_concat]
  have hfront : ∀ seq', (∃ pair ∈ front, NackPair.Covers pair seq') ∨ current.Covers seq' ↔
      seq' ∈ seqs := by
    intro seq'
    rw [← hcovers]
    simp [or_and_right, exists_or]
  unfold FeedbackResult.addMissing at hadd
  rw [hlast] at hadd
  dsimp only at hadd
  split at hadd
  · cases hadd
    have hseq : seq = current.packetID := by grind
    refine ⟨⟨front ++ [current], hne, hpairs, fun seq' => ?_⟩, hrest⟩
    rw [hcovers, mem_append, mem_singleton]
    refine ⟨.inl, fun h => h.elim id fun heq => (hfront seq').mp (.inr (.inl (heq.trans hseq)))⟩
  · rename_i hzero
    split at hadd
    · obtain rfl := appendNACKPair_eq_ok hadd
      refine ⟨⟨front ++ [current] ++ [{ packetID := seq }], by simp, ?_, fun seq' => ?_⟩, ?_⟩
      · simp [hpairs]
      · rw [mem_append, mem_singleton, ← hcovers, ← NackPair.covers_new seq seq']
        simp [or_and_right, exists_or, or_assoc]
      · rw [hrest]
    · cases hadd
      refine ⟨⟨front ++ [_], by simp, by rw [hdrop, append_assoc], fun seq' => ?_⟩, ?_⟩
      · rw [mem_append, mem_singleton, ← hfront, or_assoc, ← NackPair.covers_set hzero (by omega)]
        simp [or_and_right, exists_or]
      · rw [hrest]

lemma pairs_foldlM {r₀ : FeedbackResult} {rest : List UInt16} : ∀ {seqs : List UInt16}
    {r : FeedbackResult}, Pairs r₀ r seqs → rest.foldlM FeedbackResult.addMissing r = .ok r' →
      Pairs r₀ r' (seqs ++ rest) := by
  induction rest with
  | nil =>
    intro seqs r h hadd
    rw [foldlM_nil, pure_eq_ok] at hadd
    rwa [append_nil, ← hadd]
  | cons seq rest ih =>
    intro seqs r h hadd
    obtain ⟨r₁, hr₁, hadd⟩ := bind_eq_ok.mp hadd
    have := ih (h.addMissing hr₁) hadd
    rwa [append_assoc] at this

variable {sender media : UInt32}

/-- **What `AddNACK` leaves**: its pairs behind those of earlier calls, and a structure that points to
them. -/
lemma addNACK_eq_ok {missing : List UInt16} (h : r.addNACK sender media missing = .ok r')
    (hne : missing ≠ []) :
    ∃ pairs, (∀ seq, (∃ pair ∈ pairs, NackPair.Covers pair seq) ↔ seq ∈ missing) ∧
      r' = { r with
        packets := r.packets ++ [.nack]
        nackPairs := r.nackPairs ++ pairs
        nack :=
          { senderSSRC := sender
            mediaSSRC := media
            nacks := { start := r.nackPairs.length, length := pairs.length } } } := by
  cases missing with
  | nil => exact absurd rfl hne
  | cons first rest =>
    obtain ⟨r₁, hr₁, h⟩ := bind_eq_ok.mp h
    obtain ⟨r₂, hr₂, h⟩ := bind_eq_ok.mp h
    obtain ⟨⟨pairs, -, hpairs, hcovers⟩, hrest⟩ := pairs_foldlM (pairs_appendNACKPair hr₁) hr₂
    refine ⟨pairs, hcovers, ?_⟩
    rw [appendPacket_eq_ok h]
    rw [hrest]
    simp [hpairs]

lemma addPLI_eq_ok (h : r.addPLI sender media = .ok r') :
    r' = { r with
      packets := r.packets ++ [.pli]
      pli := { senderSSRC := sender, mediaSSRC := media } } := appendPacket_eq_ok h

lemma addFIR_eq_ok {number : UInt8} (h : r.addFIR sender media number = .ok r') :
    r' = { r with
      packets := r.packets ++ [.fir]
      firEntries := r.firEntries ++ [{ ssrc := media, sequenceNumber := number }]
      fir :=
        { senderSSRC := sender
          mediaSSRC := media
          fir := { start := r.firEntries.length, length := 1 } } } := by
  unfold addFIR at h
  split at h
  · cases h
  · exact appendPacket_eq_ok h

/-! ### Whole runs -/

lemma Slice.of_append {α : Type*} (l l' : List α) :
    Slice.of { start := l.length, length := l'.length } (l ++ l') = l' := by
  simp [Slice.of]

structure Within (r : FeedbackResult) : Prop where
  nack : r.nack.nacks.start + r.nack.nacks.length ≤ r.nackPairs.length
  fir : r.fir.fir.start + r.fir.fir.length ≤ r.firEntries.length

/-- **What a call leaves**: a packet that denotes its arguments. -/
lemma call_eq_ok {c : FeedbackCall} (hwithin : r.Within) (hadds : c.adds = true)
    (h : r.call c = .ok r') :
    r'.Within ∧ r'.packets = r.packets ++ [c.ref] ∧ (r'.denoted c.ref).Denotes c ∧
      ∀ ref, ref ≠ c.ref → r'.denoted ref = r.denoted ref := by
  cases c with
  | nack sender media missing =>
    obtain ⟨pairs, hcovers, rfl⟩ := addNACK_eq_ok h (by simpa [FeedbackCall.adds] using hadds)
    refine ⟨⟨by simp, hwithin.fir⟩, rfl, ⟨rfl, rfl, ?_⟩, fun ref href => ?_⟩
    · rw [Slice.of_append]
      exact hcovers
    · cases ref with
      | nack => exact absurd rfl href
      | pli => rfl
      | fir => rfl
  | pli sender media =>
    obtain rfl := addPLI_eq_ok h
    refine ⟨⟨hwithin.nack, hwithin.fir⟩, rfl, ⟨rfl, rfl⟩, fun ref href => ?_⟩
    cases ref with
    | nack => rfl
    | pli => exact absurd rfl href
    | fir => rfl
  | fir sender media number =>
    obtain rfl := addFIR_eq_ok h
    refine ⟨⟨hwithin.nack, by simp⟩, rfl, ⟨rfl, rfl, ?_⟩, fun ref href => ?_⟩
    · exact Slice.of_append r.firEntries [{ ssrc := media, sequenceNumber := number }]
    · cases ref with
      | nack => rfl
      | pli => rfl
      | fir => exact absurd rfl href

lemma call_of_not_adds {c : FeedbackCall} (hadds : c.adds = false) (h : r.call c = .ok r') :
    r' = r := by
  cases c with
  | nack sender media missing =>
    obtain rfl : missing = [] := by simpa [FeedbackCall.adds] using hadds
    exact (Except.ok.inj h).symm
  | pli => cases hadds
  | fir => cases hadds

/-- **The packets of a run** denote, each, the last call of its kind. -/
lemma calls_eq_ok (r₀ : FeedbackResult) (cs : List FeedbackCall) : ∀ {r : FeedbackResult},
    r₀.reset.calls cs = .ok r →
      r.Within ∧ r.packets = (cs.filter FeedbackCall.adds).map FeedbackCall.ref ∧
        ∀ c ∈ cs, c.adds = true →
          ∃ last ∈ cs, last.adds = true ∧ last.ref = c.ref ∧ (r.denoted c.ref).Denotes last := by
  induction cs using List.reverseRecOn with
  | nil =>
    intro r h
    rw [calls, foldlM_nil, pure_eq_ok] at h
    subst h
    exact ⟨⟨by simp [reset], by simp [reset]⟩, rfl, by simp⟩
  | append_singleton cs c ih =>
    intro r h
    rw [calls, foldlM_append] at h
    obtain ⟨r₁, hr₁, h⟩ := bind_eq_ok.mp h
    obtain ⟨r₂, hr₂, h⟩ := bind_eq_ok.mp h
    rw [foldlM_nil, pure_eq_ok] at h
    subst h
    obtain ⟨hwithin, hpackets, hlast⟩ := ih hr₁
    have hkept {c' : FeedbackCall} (hc' : c' ∈ cs) (hadds : c'.adds = true)
        (hsame : r₂.denoted c'.ref = r₁.denoted c'.ref) :
        ∃ last ∈ cs ++ [c], last.adds = true ∧ last.ref = c'.ref ∧
          (r₂.denoted c'.ref).Denotes last := by
      obtain ⟨last, hmem, hrest⟩ := hlast c' hc' hadds
      exact ⟨last, mem_append_left _ hmem, hsame ▸ hrest⟩
    cases hadds : c.adds with
    | false =>
      obtain rfl := call_of_not_adds hadds hr₂
      refine ⟨hwithin, by simp [hpackets, hadds], fun c' hc' hadds' => ?_⟩
      obtain hc' | hc' := mem_append.mp hc'
      · exact hkept hc' hadds' rfl
      · rw [mem_singleton.mp hc', hadds] at hadds'
        cases hadds'
    | true =>
      obtain ⟨hwithin', hpackets', hdenotes, hothers⟩ := call_eq_ok hwithin hadds hr₂
      refine ⟨hwithin', by simp [hpackets', hpackets, hadds], fun c' hc' hadds' => ?_⟩
      by_cases href : c'.ref = c.ref
      · exact ⟨c, by simp, hadds, href.symm, href ▸ hdenotes⟩
      · obtain hc' | hc' := mem_append.mp hc'
        · exact hkept hc' hadds' (hothers _ href)
        · exact absurd (congrArg FeedbackCall.ref (mem_singleton.mp hc')) href

end FeedbackResult

lemma FeedbackMessage.denotes_iff_same {m : FeedbackMessage} {c c' : FeedbackCall} (h : m.Denotes c)
    (href : c.ref = c'.ref) : m.Denotes c' ↔ c.Same c' := by
  cases c with
  | nack sender media missing =>
    cases m with
    | nack =>
      cases c' with
      | nack =>
        obtain ⟨rfl, rfl, hcovers⟩ := h
        simp [Denotes, FeedbackCall.Same, hcovers]
      | pli => cases href
      | fir => cases href
    | pli => exact h.elim
    | fir => exact h.elim
  | pli sender media =>
    cases m with
    | nack => exact h.elim
    | pli =>
      cases c' with
      | nack => cases href
      | pli =>
        obtain ⟨rfl, rfl⟩ := h
        exact Iff.rfl
      | fir => cases href
    | fir => exact h.elim
  | fir sender media number =>
    cases m with
    | nack => exact h.elim
    | pli => exact h.elim
    | fir =>
      cases c' with
      | nack => cases href
      | pli => cases href
      | fir =>
        obtain ⟨rfl, rfl, rfl⟩ := h
        simp only [Denotes, List.cons.injEq, FIREntry.mk.injEq, and_true]
        constructor
        · rintro ⟨hsender, hmedia, -, hnumber⟩
          exact ⟨hsender, hmedia, hnumber⟩
        · rintro ⟨hsender, hmedia, hnumber⟩
          exact ⟨hsender, hmedia, hmedia, hnumber⟩

namespace FeedbackCall

lemma same_of_ref_ne {c c' : FeedbackCall} (h : c.ref ≠ c'.ref) : c.Same c' := by
  cases c <;> cases c' <;> trivial

end FeedbackCall

/-- Each packet says what its call did. -/
def FeedbackResult.DenotesCalls (r : FeedbackResult) (cs : List FeedbackCall) : Prop :=
  r.packets.length = cs.length ∧ ∀ (i : ℕ) (ref : PacketRef) (c : FeedbackCall),
    r.packets[i]? = some ref → cs[i]? = some c → (r.denoted ref).Denotes c

/-- **Feedback keeps the arguments of its calls exactly if no kind is called with others**, and no NACK
is of nothing. -/
theorem feedback_denotes_iff (r₀ r : FeedbackResult) (cs : List FeedbackCall)
    (h : r₀.reset.calls cs = .ok r) :
    r.DenotesCalls cs ↔ (∀ c ∈ cs, c.adds = true) ∧ ∀ c ∈ cs, ∀ c' ∈ cs, c.Same c' := by
  obtain ⟨-, hpackets, hlast⟩ := FeedbackResult.calls_eq_ok r₀ cs h
  constructor
  · rintro ⟨hlength, hdenotes⟩
    have hadds : ∀ c ∈ cs, c.adds = true := by
      rw [hpackets, length_map] at hlength
      exact length_filter_eq_length_iff.mp hlength
    rw [filter_eq_self.mpr hadds] at hpackets
    have heach : ∀ c ∈ cs, (r.denoted c.ref).Denotes c := by
      intro c hc
      obtain ⟨i, hi⟩ := mem_iff_getElem?.mp hc
      exact hdenotes i c.ref c (by rw [hpackets, getElem?_map, hi]; rfl) hi
    refine ⟨hadds, fun c hc c' hc' => ?_⟩
    by_cases href : c.ref = c'.ref
    · exact (FeedbackMessage.denotes_iff_same (heach c hc) href).mp (href ▸ heach c' hc')
    · exact FeedbackCall.same_of_ref_ne href
  · rintro ⟨hadds, hsame⟩
    rw [filter_eq_self.mpr hadds] at hpackets
    refine ⟨by rw [hpackets, length_map], fun i ref c href hc => ?_⟩
    rw [hpackets, getElem?_map, hc, Option.map_some] at href
    cases href
    have hmem := mem_of_getElem? hc
    obtain ⟨last, hlastMem, -, hlastRef, hdenotes⟩ := hlast c hmem (hadds c hmem)
    exact (FeedbackMessage.denotes_iff_same hdenotes hlastRef).mpr (hsame last hlastMem c hmem)

def roomyFeedback : FeedbackResult := { packetsCap := 4, nackPairsCap := 4, firEntriesCap := 4 }

theorem feedback_denotes_iff_once :
    ∃ r, roomyFeedback.reset.calls [.nack 1 2 [7, 9], .pli 1 2] = .ok r ∧
      r.DenotesCalls [.nack 1 2 [7, 9], .pli 1 2] := by
  refine ⟨_, rfl, (feedback_denotes_iff roomyFeedback _ _ rfl).mpr ⟨by decide, ?_⟩⟩
  simp [FeedbackCall.Same]

/-- **A second picture loss indication changes the first one.** -/
theorem feedback_overwritten :
    ∃ r, roomyFeedback.reset.calls [.pli 1 2, .pli 1 3] = .ok r ∧
      ¬ r.DenotesCalls [.pli 1 2, .pli 1 3] := by
  refine ⟨_, rfl, fun h => ?_⟩
  exact absurd (h.2 0 .pli (.pli 1 2) rfl rfl).2 (by decide)

/-! ### Calls that fail, and what the sender reads -/

def retransmitSeqs (nacks : List NackPair) : List UInt16 :=
  nacks.flatMap fun pair => pair.packetID ::
    ((List.range 16).filter fun bit => pair.lostPackets &&& 1 <<< UInt16.ofNat bit ≠ 0).map
      fun bit => pair.packetID + UInt16.ofNat bit + 1

lemma and_shiftLeft_ne_zero_iff (mask : UInt16) {bit : ℕ} (hbit : bit < 16) :
    mask &&& 1 <<< UInt16.ofNat bit ≠ 0 ↔ mask.toNat.testBit bit = true := by
  have hk : (UInt16.ofNat bit).toNat = bit := UInt16.toNat_ofNat_of_lt' (hbit.trans (by decide))
  rw [Ne, ← UInt16.toNat_inj, UInt16.toNat_and, toNat_one_shiftLeft (by omega), hk, Nat.and_two_pow]
  cases mask.toNat.testBit bit <;> simp

lemma mem_retransmitSeqs {nacks : List NackPair} {seq : UInt16} :
    seq ∈ retransmitSeqs nacks ↔ ∃ pair ∈ nacks, NackPair.Covers pair seq := by
  simp only [retransmitSeqs, mem_flatMap, mem_cons, mem_map, mem_filter, mem_range, decide_eq_true_eq]
  refine exists_congr fun pair => and_congr_right fun _ => or_congr_right ?_
  constructor
  · rintro ⟨bit, ⟨hbit, hset⟩, rfl⟩
    refine ⟨bit, hbit, (and_shiftLeft_ne_zero_iff _ hbit).mp hset, ?_⟩
    rw [UInt16.ofNat_add, UInt16.add_assoc]
    rfl
  · rintro ⟨bit, hbit, hset, rfl⟩
    refine ⟨bit, ⟨hbit, (and_shiftLeft_ne_zero_iff _ hbit).mpr hset⟩, ?_⟩
    rw [UInt16.ofNat_add, UInt16.add_assoc]
    rfl

namespace FeedbackResult

def addMissings (r : FeedbackResult) : List UInt16 → FeedbackResult × Option Err
  | [] => (r, none)
  | seq :: rest =>
    match r.addMissing seq with
    | .error err => (r, some err)
    | .ok r => r.addMissings rest

variable (r : FeedbackResult)

def tryNACK (senderSSRC mediaSSRC : UInt32) (missing : List UInt16) :
    FeedbackResult × Option Err :=
  match missing with
  | [] => (r, none)
  | first :: rest =>
    let start := r.nackPairs.length
    match r.appendNACKPair { packetID := first } with
    | .error err => (r, some err)
    | .ok r =>
      match r.addMissings rest with
      | (r, some err) => ({ r with nackPairs := r.nackPairs.take start }, some err)
      | (r, none) =>
        let nacks : Slice := { start, length := r.nackPairs.length - start }
        let r := { r with nack := { senderSSRC, mediaSSRC, nacks } }
        match r.appendPacket .nack with
        | .error err => (r, some err)
        | .ok r => (r, none)

def pairsFit : List UInt16 → Bool
  | [] => true
  | first :: rest =>
    match r.appendNACKPair { packetID := first } with
    | .error _ => false
    | .ok r => (r.addMissings rest).2.isNone

lemma foldlM_addMissing (rest : List UInt16) :
    rest.foldlM addMissing r = match r.addMissings rest with
      | (r, none) => .ok r
      | (_, some err) => .error err := by
  induction rest generalizing r with
  | nil => rfl
  | cons seq rest ih =>
    rw [foldlM_cons, addMissings]
    cases r.addMissing seq with
    | error err => rfl
    | ok r₁ => exact ih r₁

theorem addNACK_eq_tryNACK (sender media : UInt32) (missing : List UInt16) :
    r.addNACK sender media missing = match r.tryNACK sender media missing with
      | (r, none) => .ok r
      | (_, some err) => .error err := by
  cases missing with
  | nil => rfl
  | cons first rest =>
    unfold addNACK tryNACK
    dsimp only
    cases r.appendNACKPair { packetID := first } with
    | error err => rfl
    | ok r₁ =>
      rw [ok_bind, foldlM_addMissing]
      rcases hadd : r₁.addMissings rest with ⟨r₂, _ | err⟩
      · simp only [hadd, ok_bind]
        cases appendPacket _ PacketRef.nack <;> rfl
      · simp only [hadd]
        rfl

lemma Pairs.addMissings {r₀ r : FeedbackResult} {seqs : List UInt16} (h : Pairs r₀ r seqs)
    (rest : List UInt16) : ∃ seqs', Pairs r₀ (r.addMissings rest).1 seqs' := by
  induction rest generalizing r seqs with
  | nil => exact ⟨_, h⟩
  | cons seq rest ih =>
    unfold FeedbackResult.addMissings
    cases hadd : r.addMissing seq with
    | error err => exact ⟨_, h⟩
    | ok r₁ => exact ih (h.addMissing hadd)

/-- **What a failed call leaves**: nothing, or the pairs if there was no room for the packet. -/
lemma tryNACK_fails {r r' : FeedbackResult} {sender media : UInt32} {missing : List UInt16}
    {err : Err} (h : r.tryNACK sender media missing = (r', some err)) :
    r'.packets = r.packets ∧ (r'.nackPairs = r.nackPairs ↔ r.pairsFit missing = false) := by
  cases missing with
  | nil => cases h
  | cons first rest =>
    cases hfirst : r.appendNACKPair { packetID := first } with
    | error err =>
      simp only [tryNACK, pairsFit, hfirst] at h ⊢
      cases h
      exact ⟨rfl, iff_of_true rfl trivial⟩
    | ok r₁ =>
      obtain ⟨seqs, ⟨pairs, hne, hpairs, -⟩, hrest⟩ := (pairs_appendNACKPair hfirst).addMissings rest
      rcases hadd : r₁.addMissings rest with ⟨r₂, _ | err⟩
      · simp only [tryNACK, pairsFit, hfirst, hadd] at h hpairs hrest ⊢
        split at h
        · cases h
          refine ⟨by rw [hrest], ?_⟩
          simpa [hpairs] using hne
        · cases h
      · simp only [tryNACK, pairsFit, hfirst, hadd] at h hpairs hrest ⊢
        cases h
        refine ⟨by rw [hrest], ?_⟩
        simp [hpairs]

/-- **The sender resends exactly the numbers of an accepted call; a failed one leaves the result as it
was exactly if it found no room for its pairs.** -/
theorem nack_resends_missing (r : FeedbackResult) (sender media : UInt32) (missing : List UInt16) :
    (∀ r', r.tryNACK sender media missing = (r', none) →
      ∃ pairs, r'.nackPairs = r.nackPairs ++ pairs ∧
        (missing ≠ [] → r'.nack.nacks.of r'.nackPairs = pairs) ∧
        ∀ seq, seq ∈ retransmitSeqs pairs ↔ seq ∈ missing) ∧
    ∀ r' err, r.tryNACK sender media missing = (r', some err) →
      ((r'.nackPairs = r.nackPairs ∧ r'.packets = r.packets) ↔ r.pairsFit missing = false) := by
  refine ⟨fun r' h => ?_, fun r' err h => ?_⟩
  · by_cases hne : missing = []
    · subst hne
      cases h
      exact ⟨[], by simp, fun hne => absurd rfl hne, by simp [retransmitSeqs]⟩
    · have hok : r.addNACK sender media missing = .ok r' := by rw [addNACK_eq_tryNACK, h]
      obtain ⟨pairs, hcovers, rfl⟩ := addNACK_eq_ok hok hne
      exact ⟨pairs, rfl, fun _ => Slice.of_append _ _, fun seq => mem_retransmitSeqs.trans (hcovers seq)⟩
  · obtain ⟨hpackets, hpairs⟩ := tryNACK_fails h
    rw [← hpairs]
    exact and_iff_left hpackets

def smallFeedback : FeedbackResult := { packetsCap := 1, nackPairsCap := 2, firEntriesCap := 0 }

/-- Numbers across the wrap, out of order and twice, in two pairs; a third pair finds no room. -/
theorem nack_resends_missing_wrap :
    (∃ r, smallFeedback.tryNACK 1 2 [65535, 3, 3, 0, 100] = (r, none) ∧
      ∀ seq, seq ∈ retransmitSeqs r.nackPairs ↔ seq ∈ [65535, 3, 3, 0, 100]) ∧
    ∃ r, smallFeedback.tryNACK 1 2 [65535, 100, 200] = (r, some .resultFull) ∧ r.nackPairs = [] := by
  have hfits : smallFeedback.tryNACK 1 2 [65535, 3, 3, 0, 100] =
      ((smallFeedback.tryNACK 1 2 [65535, 3, 3, 0, 100]).1, none) := Prod.ext rfl (by decide)
  have hfull : smallFeedback.tryNACK 1 2 [65535, 100, 200] =
      ((smallFeedback.tryNACK 1 2 [65535, 100, 200]).1, some .resultFull) := Prod.ext rfl (by decide)
  refine ⟨⟨_, hfits, ?_⟩, ⟨_, hfull, ?_⟩⟩
  · obtain ⟨pairs, hpairs, -, hseqs⟩ := (nack_resends_missing _ _ _ _).1 _ hfits
    rw [hpairs]
    exact hseqs
  · exact (((nack_resends_missing _ _ _ _).2 _ _ hfull).mpr (by decide)).1

/-- A call that finds no room for its packet leaves its pair behind. -/
theorem failed_nack_leaves_pair : ∃ r,
    tryNACK { packetsCap := 0, nackPairsCap := 1, firEntriesCap := 0 } 1 2 [7] = (r, some .resultFull) ∧
      r.nackPairs = [{ packetID := 7 }] :=
  ⟨_, rfl, rfl⟩

end FeedbackResult

end Goav.Rtpav
