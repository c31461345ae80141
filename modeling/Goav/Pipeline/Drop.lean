import Goav.Pipeline.DropDefs
import Goav.Lib.Runs

/-!
What a queue that drops until a sync point delivers. While nothing is dropped, no video stream has lost a
packet since its latest keyframe (`DropInv`). The controller does not see to it that the sync message is
of the stream that lost packets, nor that what is shed from a full queue is not referred to.
-/

namespace Goav.Pipeline

open Goav.Av Goav.Lib DropNode Option List

/-! ### Packets of a stream -/

namespace DropNode

variable (n : DropNode) (id : StreamID) (i : ℕ)

def packetAt : Option Packet :=
  match n.offered[i]? with
  | some (.packet p) => p
  | _ => none

def PacketOf : Prop := ∃ p ∈ n.packetAt i, p.streamID = id

def KeyframeOf : Prop := ∃ p ∈ n.packetAt i, p.streamID = id ∧ p.keyframe = true

def InterOf : Prop :=
  ∃ p ∈ n.packetAt i, p.streamID = id ∧ p.keyframe = false ∧ packetMediaType p = .video

def current : Option ℕ :=
  match n.enqueue with
  | .idle => none
  | .looking i | .acting i _ => some i

def kept : List ℕ := n.taken ++ n.queue

def Lost : Prop := i < n.offered.length ∧ i ∉ n.kept ∧ i ∉ n.current

def Broken : Prop := ∃ k, n.PacketOf id k ∧ n.Lost k ∧ ∀ k', k < k' → ¬ n.KeyframeOf id k'

/-- A video packet that is no keyframe is taken behind all of its stream since the latest keyframe. -/
def TakesWholeChains : Prop :=
  ∀ before i behind, n.taken = before ++ i :: behind → ∀ id, n.InterOf id i →
    ∀ j, n.KeyframeOf id j → j < i → (∀ k, j < k → k < i → ¬ n.KeyframeOf id k) →
      ∀ k, j ≤ k → k < i → n.PacketOf id k → k ∈ before

variable {n id i}

lemma KeyframeOf.packetOf (h : n.KeyframeOf id i) : n.PacketOf id i := by
  obtain ⟨p, hp, hid, -⟩ := h
  exact ⟨p, hp, hid⟩

lemma InterOf.packetOf (h : n.InterOf id i) : n.PacketOf id i := by
  obtain ⟨p, hp, hid, -⟩ := h
  exact ⟨p, hp, hid⟩

lemma InterOf.not_keyframeOf (h : n.InterOf id i) : ¬ n.KeyframeOf id i := by
  obtain ⟨p, hp, -, hkey, -⟩ := h
  rintro ⟨q, hq, -, hkey'⟩
  obtain rfl := mem_unique hp hq
  simp [hkey] at hkey'

lemma PacketOf.lt_length (h : n.PacketOf id i) : i < n.offered.length := by
  obtain ⟨p, hp, -⟩ := h
  by_contra hge
  simp [packetAt, getElem?_eq_none (not_lt.mp hge)] at hp

end DropNode

/-! ### The condition -/

section

variable (video : StreamID → Prop)

/-- What each step has to meet; `video` holds of the streams that have more than keyframes. -/
def KeepsChains (n : DropNode) : DropAction → Prop
  -- what is shed before the queue is of another stream, or everything is being shed
  | .refuse msg => n.drop.droppingUntilSync = false → ∀ p, msg = .packet (some p) → ¬ video p.streamID
  | .offer msg => ∀ p, msg = .packet (some p) → messageIsNonKeyVideo msg → video p.streamID
  | .next =>
    match n.enqueue with
    | .looking i =>
      -- a sync message that ends dropping is a keyframe of each stream that is broken
      n.drop.droppingUntilSync = true → (n.offered[i]?.any messageIsSync) = true →
        ∀ id, video id → n.Broken id → n.KeyframeOf id i
    | .acting i .bufferDropOldest =>
      -- the stream of an evicted packet goes on with a keyframe, queued or arriving
      ∀ m queue, n.queue = m :: queue → ∀ id, video id → n.PacketOf id m →
        ∃ j ∈ queue ++ [i], n.KeyframeOf id j ∧ ∀ k ∈ queue ++ [i], k < j → ¬ n.PacketOf id k
    | _ => True
  | .take | .release => True

structure DropInv (n : DropNode) : Prop where
  policy : n.drop.policy.drop = .untilSync ∧ 0 < n.drop.policy.capacity
  sorted : (n.kept ++ n.current.toList).Pairwise (· < ·)
  bound : ∀ i ∈ n.kept, i < n.offered.length
  isLast : ∀ i ∈ n.current, i + 1 = n.offered.length
  streams : ∀ i ∈ n.kept ++ n.current.toList, ∀ id, n.InterOf id i → video id
  /-- What a queued or taken packet refers to is queued or taken. -/
  chain : ∀ i ∈ n.kept, ∀ id, n.InterOf id i → ∀ k, k < i → n.PacketOf id k →
    (∀ k', k < k' → k' < i → ¬ n.KeyframeOf id k') → k ∈ n.kept
  /-- While nothing is being dropped no stream is broken. -/
  whole : n.drop.droppingUntilSync = false → ∀ id, video id → ¬ n.Broken id
  decided : ∀ i action, n.enqueue = .acting i action →
    match action with
    | .bufferAdmit | .bufferDropOldest => n.drop.droppingUntilSync = false
    | .bufferDropIncoming => n.drop.droppingUntilSync = true
    | .bufferBackpressure | .bufferBlock => False
  /-- What is admitted has room, and so a slot. -/
  room : ∀ i, n.enqueue = .acting i .bufferAdmit → n.queue.length < n.drop.policy.capacity

end

/-! ### Steps -/

section

variable {video : StreamID → Prop} {n n' : DropNode}

theorem DropInv.takesWholeChains (h : DropInv video n) : n.TakesWholeChains := by
  intro before i behind htaken id hinter j hkey hj hnone k hjk hki hpacket
  have hkept : n.kept = before ++ i :: (behind ++ n.queue) := by simp [kept, htaken]
  have hmem : i ∈ n.kept := by simp [hkept]
  have hk := h.chain i hmem id hinter k hki hpacket fun k' hk hk' => hnone k' (by omega) hk'
  have hsorted := (pairwise_append.mp h.sorted).1
  rw [hkept] at hk hsorted
  rcases mem_append.mp hk with hk | hk
  · exact hk
  · -- behind it there are only later positions
    exfalso
    rcases mem_cons.mp hk with rfl | hk
    · exact lt_irrefl _ hki
    · have := (pairwise_cons.mp (pairwise_append.mp hsorted).2.1).1 k hk
      omega

/-! A message is offered -/

variable {msg : Message} {e : Enqueue} {i : ℕ} {id : StreamID}

lemma packetAt_append (hi : i < n.offered.length) :
    ({ n with offered := n.offered ++ [msg], enqueue := e } : DropNode).packetAt i = n.packetAt i := by
  simp only [packetAt]
  rw [getElem?_append_left hi]

lemma packetAt_length {p : Packet}
    (h : p ∈ ({ n with offered := n.offered ++ [msg], enqueue := e } : DropNode).packetAt
      n.offered.length) : msg = .packet (some p) := by
  simp only [packetAt, getElem?_concat_length] at h
  split at h
  · rename_i q hq
    cases hq
    rw [mem_def.mp h]
  · simp at h

section

variable (hi : i < n.offered.length)
include hi

lemma packetOf_append :
    ({ n with offered := n.offered ++ [msg], enqueue := e } : DropNode).PacketOf id i ↔
      n.PacketOf id i := by
  simp [DropNode.PacketOf, packetAt_append hi]

lemma keyframeOf_append :
    ({ n with offered := n.offered ++ [msg], enqueue := e } : DropNode).KeyframeOf id i ↔
      n.KeyframeOf id i := by
  simp [DropNode.KeyframeOf, packetAt_append hi]

lemma interOf_append :
    ({ n with offered := n.offered ++ [msg], enqueue := e } : DropNode).InterOf id i ↔
      n.InterOf id i := by
  simp [DropNode.InterOf, packetAt_append hi]

end

lemma DropInv.offered (h : DropInv video n) (hidle : n.enqueue = .idle) (msg : Message)
    (hcurrent : ∀ i ∈ ({ n with enqueue := e } : DropNode).current, i = n.offered.length)
    (hwhole : n.drop.droppingUntilSync = false → ∀ p, msg = .packet (some p) → video p.streamID →
      ({ n with enqueue := e } : DropNode).current = some n.offered.length)
    (hstreams : ∀ i ∈ ({ n with enqueue := e } : DropNode).current, ∀ p, msg = .packet (some p) →
      messageIsNonKeyVideo msg → video p.streamID)
    (hlooking : ∀ i action, e ≠ .acting i action) :
    DropInv video { n with offered := n.offered ++ [msg], enqueue := e } := by
  refine ⟨h.policy, ?_, ?_, ?_, ?_, ?_, ?_, fun i action hacting => absurd hacting (hlooking i action),
    fun i hacting => absurd hacting (hlooking i _)⟩
  · refine pairwise_append.mpr ⟨(pairwise_append.mp h.sorted).1, ?_, fun i hi j hj => ?_⟩
    · cases current _ <;> simp
    · rw [hcurrent j (mem_toList.mp hj)]
      exact h.bound i hi
  · intro i hi
    have := h.bound i hi
    simp only [length_append]
    omega
  · intro i hi
    simp [hcurrent i hi]
  · intro i hi id hinter
    rcases mem_append.mp hi with hi | hi
    · exact h.streams i (mem_append_left _ hi) id ((interOf_append (h.bound i hi)).mp hinter)
    · have hi := mem_toList.mp hi
      obtain ⟨p, hp, hid, hkey, hmedia⟩ := hinter
      rw [hcurrent i hi] at hp
      have hmsg := packetAt_length hp
      exact hid ▸ hstreams i hi p hmsg (by simp [hmsg, messageIsNonKeyVideo, hkey, hmedia])
  · intro i hi id hinter k hk hpacket hnone
    have hlt : i < n.offered.length := h.bound i hi
    refine h.chain i hi id ((interOf_append hlt).mp hinter) k hk
      ((packetOf_append (hk.trans hlt)).mp hpacket) fun k' hkk' hk' hkey => ?_
    exact hnone k' hkk' hk' ((keyframeOf_append (hk'.trans hlt)).mpr hkey)
  · rintro hflag id hid ⟨k, hpacket, ⟨hlt, hkept, hother⟩, hnone⟩
    by_cases hk : k < n.offered.length
    · refine h.whole hflag id hid ⟨k, (packetOf_append hk).mp hpacket, ⟨hk, hkept, ?_⟩, ?_⟩
      · simp [current, hidle]
      · intro k' hk' hkey
        exact hnone k' hk' ((keyframeOf_append hkey.packetOf.lt_length).mpr hkey)
    · -- the message itself: it is being enqueued, so it is not lost
      simp only [length_append, length_singleton] at hlt
      obtain rfl : k = n.offered.length := by omega
      obtain ⟨p, hp, rfl⟩ := hpacket
      exact hother (mem_def.mpr (hwhole hflag p (packetAt_length hp) hid))

/-! ### The enqueue goes on -/

lemma decide_untilSync {c : DropController} (hdrop : c.policy.drop = .untilSync)
    (hcapacity : 0 < c.policy.capacity) (full : Bool) (msg : Message) :
    (c.decide full msg).1.policy = c.policy ∧
      ((c.decide full msg).2 = .bufferAdmit → full = false) ∧
      match (c.decide full msg).2 with
      | .bufferAdmit | .bufferDropOldest => (c.decide full msg).1.droppingUntilSync = false ∧
        (c.droppingUntilSync = true → messageIsSync msg = true)
      | .bufferDropIncoming => (c.decide full msg).1.droppingUntilSync = true
      | .bufferBackpressure | .bufferBlock => False := by
  unfold DropController.decide
  rw [if_neg (by omega)]
  cases hflag : c.droppingUntilSync <;> cases hsync : messageIsSync msg <;> cases full <;>
    simp [hdrop, hflag]

section

variable (h : DropInv video n)
include h

lemma DropInv.looking (hlooking : n.enqueue = .looking i) (hmsg : n.offered[i]? = some msg)
    (hends : n.drop.droppingUntilSync = true → messageIsSync msg = true →
      ∀ id, video id → n.Broken id → n.KeyframeOf id i) :
    DropInv video { n with drop := (n.drop.decide n.full msg).1,
                           enqueue := .acting i (n.drop.decide n.full msg).2 } := by
  obtain ⟨hpolicy, hroom, hdecided⟩ := decide_untilSync h.policy.1 h.policy.2 n.full msg
  have hcurrent : n.current = some i := by simp [current, hlooking]
  have hlost : ∀ {d : DropController} {a : BufferAction} {k : ℕ},
      ({ n with drop := d, enqueue := .acting i a } : DropNode).Lost k → n.Lost k := by
    rintro d a k ⟨hlt, hkept, hother⟩
    exact ⟨hlt, hkept, by rw [hcurrent]; exact hother⟩
  refine ⟨by rw [hpolicy]; exact h.policy, ?_, h.bound, ?_, ?_, h.chain, ?_, ?_, ?_⟩
  · have := h.sorted
    rw [hcurrent] at this
    exact this
  · exact fun j hj => h.isLast j (hcurrent ▸ hj)
  · have := h.streams
    rw [hcurrent] at this
    exact this
  · rintro hflag id hid ⟨k, hpacket, hk, hnone⟩
    have hbroken : n.Broken id := ⟨k, hpacket, hlost hk, hnone⟩
    cases hbefore : n.drop.droppingUntilSync with
    | false => exact h.whole hbefore id hid hbroken
    | true =>
      have hsync : messageIsSync msg = true := by
        split at hdecided
        · exact hdecided.2 hbefore
        · exact hdecided.2 hbefore
        · simp [hdecided] at hflag
        · exact hdecided.elim
        · exact hdecided.elim
      -- the message is a keyframe of the stream, behind the packet that was lost
      refine hnone i ?_ (hends hbefore hsync id hid hbroken)
      have hlast := h.isLast i hcurrent
      have hne : k ≠ i := by
        rintro rfl
        exact hk.2.2 rfl
      have := hk.1
      dsimp only at this
      omega
  · intro j action hacting
    obtain ⟨rfl, rfl⟩ : i = j ∧ (n.drop.decide n.full msg).2 = action := by simpa using hacting
    cases haction : (n.drop.decide n.full msg).2 <;> simp only [haction] at hdecided ⊢
    case bufferAdmit => exact hdecided.1
    case bufferDropOldest => exact hdecided.1
    case bufferDropIncoming => exact hdecided
  · rintro j hacting
    have hnot := hroom (by simpa using (Enqueue.acting.inj hacting).2)
    rw [hpolicy]
    simpa [DropNode.full] using hnot

/-- A packet that is queued while nothing is being dropped has its chain in front of it. -/
lemma DropInv.push (hacting : n.enqueue = .acting i .bufferAdmit) :
    DropInv video { n with queue := n.queue ++ [i], enqueue := .idle, bound := false } := by
  have hcurrent : n.current = some i := by simp [current, hacting]
  have hflag : n.drop.droppingUntilSync = false := h.decided i _ hacting
  have hkept : ({ n with queue := n.queue ++ [i], enqueue := .idle, bound := false } : DropNode).kept =
      n.kept ++ [i] := by simp [kept]
  have hlast := h.isLast i hcurrent
  have hsame : n.kept ++ [i] ++ (none : Option ℕ).toList = n.kept ++ n.current.toList := by
    rw [hcurrent]
    simp
  rw [← hkept] at hsame
  refine ⟨h.policy, ?_, ?_, nofun, ?_, ?_, ?_, nofun, nofun⟩
  · exact hsame ▸ h.sorted
  · intro j hj
    rw [hkept] at hj
    rcases mem_append.mp hj with hj | hj
    · exact h.bound j hj
    · obtain rfl := mem_singleton.mp hj
      dsimp only
      omega
  · exact hsame ▸ h.streams
  · intro j hj id hinter k hk hpacket hnone
    rw [hkept] at hj ⊢
    rcases mem_append.mp hj with hj | hj
    · exact mem_append_left _ (h.chain j hj id hinter k hk hpacket hnone)
    · obtain rfl := mem_singleton.mp hj
      by_contra hnot
      refine h.whole hflag id (h.streams j (by simp [hcurrent]) id hinter) ⟨k, hpacket, ⟨?_, ?_, ?_⟩, ?_⟩
      · exact hpacket.lt_length
      · exact fun hmem => hnot (mem_append_left _ hmem)
      · rw [hcurrent]
        rintro ⟨⟩
        exact lt_irrefl _ hk
      · intro k' hk' hkey
        have := hkey.packetOf.lt_length
        rcases Nat.lt_or_eq_of_le (by omega : k' ≤ j) with hlt | rfl
        · exact hnone k' hk' hlt hkey
        · exact hinter.not_keyframeOf hkey
  · rintro - id hid ⟨k, hpacket, ⟨hlt, hnot, -⟩, hnone⟩
    rw [hkept] at hnot
    refine h.whole hflag id hid ⟨k, hpacket, ⟨hlt, fun hmem => hnot (mem_append_left _ hmem), ?_⟩, hnone⟩
    rw [hcurrent]
    rintro ⟨⟩
    exact hnot (by simp)

lemma DropInv.lookAgain (hcurrent : n.current = some i) :
    DropInv video { n with enqueue := .looking i } := by
  refine ⟨h.policy, ?_, h.bound, fun j hj => h.isLast j (hcurrent ▸ hj), ?_, h.chain, ?_, nofun, nofun⟩
  · have := h.sorted
    rw [hcurrent] at this
    exact this
  · have := h.streams
    rw [hcurrent] at this
    exact this
  · rintro hflag id hid ⟨k, hpacket, ⟨hlt, hnot, hother⟩, hnone⟩
    exact h.whole hflag id hid ⟨k, hpacket, ⟨hlt, hnot, by rw [hcurrent]; exact hother⟩, hnone⟩

lemma DropInv.shed (hflag : n.drop.droppingUntilSync = true) :
    DropInv video { n with enqueue := .idle, bound := false } := by
  refine ⟨h.policy, ?_, h.bound, nofun, fun i hi => ?_, h.chain, fun hfalse => ?_, nofun, nofun⟩
  · exact (append_nil n.kept).symm ▸ (pairwise_append.mp h.sorted).1
  · exact h.streams i (mem_append_left _ (append_nil n.kept ▸ hi))
  · simp [hflag] at hfalse

lemma DropInv.evict {m : ℕ} {queue : List ℕ}
    (hacting : n.enqueue = .acting i .bufferDropOldest) (hqueue : n.queue = m :: queue)
    (hgoes : ∀ id, video id → n.PacketOf id m →
      ∃ j ∈ queue ++ [i], n.KeyframeOf id j ∧ ∀ k ∈ queue ++ [i], k < j → ¬ n.PacketOf id k) :
    DropInv video { n with queue, enqueue := .looking i } := by
  have hcurrent : n.current = some i := by simp [current, hacting]
  have hflag : n.drop.droppingUntilSync = false := h.decided i _ hacting
  have hkept : n.kept = n.taken ++ m :: queue := by simp [kept, hqueue]
  have hsorted := h.sorted
  rw [hcurrent, hkept, append_assoc] at hsorted
  obtain ⟨hstaken, hsrest, hbetween⟩ := pairwise_append.mp hsorted
  obtain ⟨hfirst, hsrest⟩ := pairwise_cons.mp hsrest
  have hsub : ∀ j ∈ n.taken ++ queue, j ∈ n.kept := by
    intro j hj
    rw [hkept]
    exact (mem_append.mp hj).elim (mem_append_left _)
      fun hj => mem_append_right _ (mem_cons_of_mem _ hj)
  refine ⟨h.policy, ?_, fun j hj => h.bound j (hsub j hj), fun j hj => h.isLast j (hcurrent ▸ hj), ?_,
    ?_, ?_, nofun, nofun⟩
  · simp only [kept, current, toList_some, append_assoc]
    exact pairwise_append.mpr ⟨hstaken, hsrest, fun a ha b hb => hbetween a ha b (by simp [hb])⟩
  · intro j hj
    refine h.streams j ?_
    rw [hcurrent]
    exact (mem_append.mp hj).elim (fun hj => mem_append_left _ (hsub j hj)) (mem_append_right _)
  · intro j hj id hinter k hk hpacket hnone
    have hmem := h.chain j (hsub j hj) id hinter k hk hpacket hnone
    rw [hkept] at hmem
    rcases mem_append.mp hmem with hmem | hmem
    · exact mem_append_left _ hmem
    · rcases mem_cons.mp hmem with rfl | hmem
      · -- what refers to the evicted packet would come before the next keyframe
        exfalso
        have hid := h.streams j (mem_append_left _ (hsub j hj)) id hinter
        obtain ⟨next, hnext, hkey, hfree⟩ := hgoes id hid hpacket
        rcases mem_append.mp hj with hj | hj
        · have := hbetween j hj k (by simp)
          omega
        · have hle : next ≤ j := by
            by_contra hlt
            exact hfree j (mem_append_left _ hj) (by omega) hinter.packetOf
          rcases Nat.lt_or_eq_of_le hle with hlt | rfl
          · exact hnone next (hfirst next hnext) hlt hkey
          · exact hinter.not_keyframeOf hkey
      · exact mem_append_right _ hmem
  · rintro - id hid ⟨k, hpacket, ⟨hlt, hnot, hother⟩, hnone⟩
    by_cases hk : k = m
    · subst hk
      obtain ⟨j, hj, hkey, -⟩ := hgoes id hid hpacket
      exact hnone j (hfirst j hj) hkey
    · refine h.whole hflag id hid ⟨k, hpacket, ⟨hlt, ?_, by rw [hcurrent]; exact hother⟩, hnone⟩
      rw [hkept]
      intro hmem
      refine hnot ?_
      rcases mem_append.mp hmem with hmem | hmem
      · exact mem_append_left _ hmem
      · exact mem_append_right _ ((mem_cons.mp hmem).resolve_left hk)

lemma DropInv.take {queue : List ℕ} (hqueue : n.queue = i :: queue) :
    DropInv video { n with queue, taken := n.taken ++ [i], delivering := true } := by
  have hkept : ({ n with queue, taken := n.taken ++ [i], delivering := true } : DropNode).kept =
      n.kept := by simp [kept, hqueue]
  refine ⟨h.policy, ?_, ?_, h.isLast, ?_, ?_, ?_, h.decided, fun j hj => ?_⟩
  · rw [hkept]
    exact h.sorted
  · rw [hkept]
    exact h.bound
  · rw [hkept]
    exact h.streams
  · rw [hkept]
    exact h.chain
  · rintro hflag id hid ⟨k, hpacket, ⟨hlt, hnot, hother⟩, hnone⟩
    rw [hkept] at hnot
    exact h.whole hflag id hid ⟨k, hpacket, ⟨hlt, hnot, hother⟩, hnone⟩
  · have hroom := h.room j hj
    rw [hqueue, length_cons] at hroom
    dsimp only
    omega

theorem DropInv.step {a : DropAction} (hguard : KeepsChains video n a) (hact : n.act a = some n') :
    DropInv video n' := by
  cases a with
  | refuse msg =>
    simp only [act, ite_none_right_eq_some, Option.some.injEq] at hact
    obtain ⟨hidle, rfl⟩ := hact
    have hnone : ({ n with enqueue := n.enqueue } : DropNode).current = none := by
      simp [current, hidle]
    exact h.offered hidle msg (by simp [hnone])
      (fun hflag p hp hvideo => absurd hvideo (hguard hflag p hp)) (by simp [hnone]) (by simp [hidle])
  | offer msg =>
    simp only [act, ite_none_right_eq_some, Option.some.injEq] at hact
    obtain ⟨hidle, rfl⟩ := hact
    refine h.offered hidle msg ?_ (fun _ _ _ _ => rfl) (fun _ _ => hguard) (by simp)
    rintro i ⟨⟩
    rfl
  | next =>
    simp only [act, DropNode.next] at hact
    cases henqueue : n.enqueue with
    | idle => simp [henqueue] at hact
    | looking i =>
      simp only [KeepsChains, henqueue] at hguard hact
      obtain ⟨msg, hmsg, rfl⟩ := map_eq_some_iff.mp hact
      exact h.looking henqueue hmsg fun hflag hsync => hguard hflag (by simpa [hmsg] using hsync)
    | acting i action =>
      have hcurrent : n.current = some i := by simp [current, henqueue]
      have hdecided := h.decided i action henqueue
      cases action <;> simp only [henqueue] at hact hdecided
      case bufferAdmit =>
        have hroom := h.room i henqueue
        have hdelivering := n.delivering.toNat_le
        split at hact
        · rename_i hslot
          obtain ⟨hbound, hfree⟩ : n.bound = false ∧ n.free ≤ 0 := by simpa using hslot
          rw [DropNode.free, hbound, Bool.toNat_false] at hfree
          omega
        rw [if_neg (by simpa [DropNode.full] using hroom)] at hact
        cases hact
        exact h.push henqueue
      case bufferDropIncoming =>
        cases hact
        exact h.shed hdecided
      case bufferDropOldest =>
        cases hact
        simp only [KeepsChains, henqueue] at hguard
        cases hqueue : n.queue with
        | nil =>
          have hsame : ({ n with queue := ([] : List ℕ).tail, enqueue := .looking i } : DropNode) =
              { n with enqueue := .looking i } := by simp [hqueue]
          rw [hsame]
          exact h.lookAgain hcurrent
        | cons m queue => exact h.evict henqueue hqueue (hguard m queue hqueue)
  | take =>
    simp only [act] at hact
    split at hact
    · rename_i i queue _ hqueue
      cases hact
      exact h.take hqueue
    · simp at hact
  | release =>
    simp only [act, ite_none_right_eq_some, Option.some.injEq] at hact
    obtain ⟨-, rfl⟩ := hact
    exact { h with }

end

end

lemma dropInv_openQueue (video : StreamID → Prop) (capacity : ℤ) :
    DropInv video (openQueue { capacity, drop := .untilSync }) := by
  refine ⟨⟨rfl, ?_⟩, .nil, nofun, nofun, nofun, nofun, ?_, nofun, nofun⟩
  · simp only [openQueue, normalizeBufferedPolicy]
    split <;> omega
  · rintro - id - ⟨k, -, ⟨hlt, -⟩, -⟩
    simp [openQueue] at hlt

/-- **The worker gets whole reference chains** in every run whose steps meet the condition. -/
theorem takes_whole_chains {video : StreamID → Prop} (capacity : ℤ) {n : DropNode}
    (h : Runs DropNode.act (KeepsChains video) (openQueue { capacity, drop := .untilSync }) n) :
    n.TakesWholeChains :=
  (h.invariant (DropInv video) (dropInv_openQueue video capacity)
    fun hinv => hinv.step).takesWholeChains

def videoPacket (keyframe : Bool) : Message :=
  .packet (some { streamID := "v", type := .video, keyframe })

/-- No stream but `"v"`, dropping ends with its keyframes, and nothing is evicted. -/
def soloStep (n : DropNode) : DropAction → Bool
  | .refuse _ => false
  | .offer msg => msg == videoPacket true || msg == videoPacket false
  | .next =>
    match n.enqueue with
    | .looking i =>
      n.offered[i]? == some (videoPacket true) || n.offered[i]? == some (videoPacket false)
    | .acting _ .bufferDropOldest => false
    | _ => true
  | .take | .release => true

lemma keepsChains_soloStep {n : DropNode} {a : DropAction} (h : soloStep n a = true) :
    KeepsChains (· = "v") n a := by
  cases a with
  | refuse msg => simp [soloStep] at h
  | offer msg =>
    simp only [soloStep, Bool.or_eq_true, beq_iff_eq] at h
    rintro p hp -
    rcases h with rfl | rfl <;> obtain rfl := Option.some.inj (Message.packet.inj hp) <;> rfl
  | next =>
    simp only [soloStep] at h
    simp only [KeepsChains]
    cases henqueue : n.enqueue with
    | idle => trivial
    | looking i =>
      simp only [henqueue, Bool.or_eq_true, beq_iff_eq] at h
      rintro - hsync id rfl -
      rcases h with h | h
      · simp [DropNode.KeyframeOf, packetAt, h, videoPacket]
      · simp [h, videoPacket, messageIsSync, packetMediaType] at hsync
    | acting i action =>
      cases action <;> simp [henqueue] at h ⊢
  | take | release => trivial

def soloRun : List DropAction :=
  [.offer (videoPacket true), .next, .next, .offer (videoPacket false), .next, .next, .take,
    .offer (videoPacket false), .next, .next, .offer (videoPacket true), .next, .next, .release, .take,
    .offer (videoPacket false), .next, .next, .release, .take]

theorem takes_whole_chains_soloRun :
    ∃ n, Runs DropNode.act (KeepsChains (· = "v")) (openQueue { capacity := 1, drop := .untilSync }) n ∧
      n.taken = [0, 3, 4] ∧ n.TakesWholeChains := by
  have hrun : (exec DropNode.act (fun n a => soloStep n a = true)
      (openQueue { capacity := 1, drop := .untilSync }) soloRun).map (·.taken) = some [0, 3, 4] := by
    decide +kernel
  obtain ⟨n, hn, htaken⟩ := map_eq_some_iff.mp hrun
  have hruns := (Runs.exec soloRun .refl hn).mono keepsChains_soloStep
  exact ⟨n, hruns, htaken, takes_whole_chains 1 hruns⟩

def evictingRun : List DropAction :=
  [.offer (videoPacket true), .next, .next, .offer (videoPacket false), .next, .next,
    .offer (videoPacket true), .next, .next, .next, .next, .take]

theorem evicted_keyframe_not_taken :
    ∃ n, Runs DropNode.act (fun _ _ => True) (openQueue { capacity := 2, drop := .untilSync }) n ∧
      ¬ n.TakesWholeChains := by
  have hrun : (exec DropNode.act (fun _ _ => True)
      (openQueue { capacity := 2, drop := .untilSync }) evictingRun).map (fun n => (n.offered, n.taken)) =
      some ([videoPacket true, videoPacket false, videoPacket true], [1]) := by
    decide +kernel
  obtain ⟨n, hn, heq⟩ := map_eq_some_iff.mp hrun
  obtain ⟨hoffered, htaken⟩ := Prod.mk.inj heq
  refine ⟨n, Runs.exec evictingRun .refl hn, fun hchains => ?_⟩
  have hkey : n.KeyframeOf "v" 0 := by simp [DropNode.KeyframeOf, DropNode.packetAt, hoffered, videoPacket]
  have hinter : n.InterOf "v" 1 := by
    simp [DropNode.InterOf, DropNode.packetAt, hoffered, videoPacket, packetMediaType]
  have := hchains [] 1 [] htaken "v" hinter 0 hkey (by omega) (fun k _ _ => by omega) 0 le_rfl
    (by omega) hkey.packetOf
  simp at this

end Goav.Pipeline
