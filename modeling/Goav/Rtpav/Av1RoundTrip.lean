import Goav.Rtpav.Av1Format

/-!
The AV1 packetizer plans the elements of a temporal unit into packets whose pieces carry them
(`packetLoop_carries`), so that a fresh depacketizer gives the temporal unit back
(`av1_round_trip`).
-/

namespace Goav.Rtpav

open Goav.Av Goav.Lib PacketizeResult List

namespace AV1Packetizer

/-! ### Spans -/

lemma spanBytes_eq (s : AV1Span) :
    spanBytes s = (s.element.bytes.take (s.offset + s.length)).drop s.offset := by
  have hlen := s.element.headerBytes_length
  have hheader : (if s.offset < s.element.hlen then
      (s.element.headerBytes.take (min (s.offset + s.length) s.element.hlen)).drop s.offset
      else []) = (s.element.headerBytes.take (s.offset + s.length)).drop s.offset := by
    split
    · congr 1
      rw [take_eq_take_iff]
      omega
    · rw [drop_eq_nil_of_le]
      rw [length_take]
      omega
  have hpayload : (if s.element.hlen < s.offset + s.length then
      (s.element.payload.take (s.offset + s.length - s.element.hlen)).drop
        (s.offset - s.element.hlen) else []) =
      (s.element.payload.take (s.offset + s.length - s.element.hlen)).drop
        (s.offset - min (s.offset + s.length) s.element.hlen) := by
    split
    · rw [Nat.min_eq_right (by omega)]
    · rw [show s.offset + s.length - s.element.hlen = 0 by omega]
      simp
  simp only [spanBytes, hheader, hpayload, AV1Element.bytes]
  rw [take_append, drop_append, length_take, hlen]

structure Proper (s : AV1Span) : Prop where
  pos : 0 < s.length
  within : s.offset + s.length ≤ s.element.size

variable {s : AV1Span} {e : AV1Element} {offset budget : ℕ} {spans : List AV1Span}
  {elements es : List AV1Element}

lemma Proper.length_eq (h : Proper s) : (spanBytes s).length = s.length := by
  have := h.within
  rw [spanBytes_eq, length_drop, length_take, s.element.bytes_length]
  omega

lemma Proper.ne_nil (h : Proper s) : spanBytes s ≠ [] := by
  have := h.pos
  rw [← length_pos_iff, h.length_eq]
  exact this

lemma carry_append_spanBytes (e : AV1Element) (offset n : ℕ) :
    e.bytes.take offset ++ spanBytes { element := e, offset, length := n } = e.bytes.take (offset + n) := by
  rw [spanBytes_eq]
  rw [drop_take, Nat.add_sub_cancel_left, ← take_add]

lemma layout_concat (counted : Bool) (cs : List Bytes) (c : Bytes) :
    layout counted (cs ++ [c]) = cs.flatMap prefixed ++ if counted then c else prefixed c := by
  induction cs with
  | nil => rfl
  | cons c' cs ih =>
    obtain ⟨c'', cs', h⟩ : ∃ c'' cs', cs ++ [c] = c'' :: cs' := exists_cons_of_ne_nil (by simp)
    rw [cons_append, h, layout_cons_cons, ← h, ih, flatMap_cons, append_assoc]

lemma writeSpans_eq {count i : ℕ} (hs : ∀ s ∈ spans, Proper s) (hc : count = i + spans.length) :
    writeSpans count i spans = layout (count ≤ 3) (spans.map spanBytes) := by
  induction spans generalizing i with
  | nil => rfl
  | cons s spans ih =>
    have hlen := (hs s (by simp)).length_eq
    rw [writeSpans, ih (fun x hx => hs x (mem_cons_of_mem _ hx)) (by simp at hc; omega)]
    cases spans with
    | nil =>
      have hlast : ¬ i < count - 1 := by simp at hc; omega
      by_cases h3 : count ≤ 3
      · simp [layout, h3, hlast]
      · simp [layout, h3, prefixed, hlen]
    | cons s' spans =>
      have hmore : i < count - 1 := by simp at hc; omega
      rw [if_pos (.inr hmore)]
      simp [layout_cons_cons, prefixed, hlen]

/-! ### The plan of a packet -/

/-- A span takes at most what is left, and keeps the packet within the budget. -/
lemma spanLength_spec {count used rest : ℕ} (hrest : rest ≤ maxInt64)
    (hpos : 0 < spanLength budget count used rest) :
    ∃ n : ℕ, spanLength budget count used rest = n ∧ 0 < n ∧ n ≤ rest ∧
      (if count < 3 then 1 + used + n ≤ budget else 1 + used + (leb128Size n + n) ≤ budget) := by
  refine ⟨(spanLength budget count used rest).toNat, by omega, by omega, ?_⟩
  unfold spanLength at hpos ⊢
  unfold maxInt64 at hrest
  by_cases hcount : count < 3
  · simp only [if_pos hcount] at hpos ⊢
    omega
  · simp only [if_neg hcount] at hpos ⊢
    by_cases hwhole : (rest : ℤ) + leb128Size rest ≤ budget - 1 - used
    · simp only [if_pos hwhole, Int.toNat_natCast]
      omega
    · simp only [if_neg hwhole] at hpos ⊢
      have hbound := leb128Size_le rest
      obtain ⟨space, hspace⟩ : ∃ space : ℕ, (budget : ℤ) - 1 - used = space :=
        ⟨((budget : ℤ) - 1 - used).toNat, by omega⟩
      rw [hspace] at hpos hwhole ⊢
      obtain ⟨n, hn⟩ : ∃ n : ℕ, (space : ℤ) - leb128Size space = n :=
        ⟨((space : ℤ) - leb128Size space).toNat, by omega⟩
      rw [hn, Int.toNat_natCast]
      have hmono := leb128Size_mono (show n ≤ space by omega) (by omega)
      have hless : n ≤ rest := by
        by_contra hc
        have := leb128Size_mono (show rest ≤ space by omega) (by omega)
        omega
      exact ⟨hless, by omega⟩

def carryOf : List AV1Element → ℕ → Bytes
  | [], _ => []
  | e :: _, offset => e.bytes.take offset

def Inside : List AV1Element → ℕ → Prop
  | [], _ => True
  | e :: _, offset => offset < e.size

def remaining (elements : List AV1Element) (offset : ℕ) : ℕ :=
  (elements.map AV1Element.size).sum - offset

lemma carryOf_zero (elements : List AV1Element) : carryOf elements 0 = [] := by
  cases elements <;> rfl

lemma Inside.zero (elements : List AV1Element) : Inside elements 0 := by
  cases elements with
  | nil => trivial
  | cons e es => exact e.size_pos

lemma continues_iff : (!elements.isEmpty && 0 < offset) = true ↔ carryOf elements offset ≠ [] := by
  cases elements with
  | nil => simp [carryOf]
  | cons e es => simp [carryOf, e.bytes_ne_nil, Nat.pos_iff_ne_zero]

def Fits (budget : ℕ) (spans : List AV1Span) : Prop :=
  1 + (layout (spans.length ≤ 3) (spans.map spanBytes)).length ≤ budget

structure Moves (elements : List AV1Element) (offset : ℕ) (spans : List AV1Span)
    (elements' : List AV1Element) (offset' : ℕ) : Prop where
  proper : ∀ s ∈ spans, Proper s
  starts : (spans.head?.any fun s => 0 < s.offset) = decide (0 < offset)
  completes : ∃ done, elements = done ++ elements' ∧
    Completes (carryOf elements offset) (spans.map spanBytes) (!elements'.isEmpty && 0 < offset')
      done (carryOf elements' offset')
  inside : Inside elements' offset'
  less : remaining elements' offset' < remaining elements offset

lemma Moves.cut {n : ℕ} (hn : 0 < n) (hlt : offset + n < e.size) :
    Moves (e :: es) offset [{ element := e, offset, length := n }] (e :: es) (offset + n) := by
  refine ⟨by simpa using ⟨hn, Nat.le_of_lt hlt⟩, rfl, ⟨[], rfl, ?_⟩, hlt, ?_⟩
  · have hy : (!(e :: es).isEmpty && decide (0 < offset + n)) = true := by simp; omega
    rw [hy, carryOf, carryOf, ← carry_append_spanBytes]
    exact .cut
  · simp only [remaining, map_cons, sum_cons]
    omega

lemma Moves.last {n : ℕ} (hn : 0 < n) (heq : offset + n = e.size) :
    Moves (e :: es) offset [{ element := e, offset, length := n }] es 0 := by
  refine ⟨by simpa using ⟨hn, Nat.le_of_eq heq⟩, rfl, ⟨[e], rfl, ?_⟩, .zero es, ?_⟩
  · have hwhole := carry_append_spanBytes e offset n
    rw [heq, ← e.bytes_length, take_length] at hwhole
    rw [carryOf_zero, show (!es.isEmpty && decide (0 < 0)) = false by simp]
    exact .last hwhole
  · simp only [remaining, map_cons, sum_cons]
    omega

lemma Moves.cons {elements' : List AV1Element} {n offset' : ℕ} (hn : 0 < n)
    (heq : offset + n = e.size) (h : Moves es 0 spans elements' offset') :
    Moves (e :: es) offset ({ element := e, offset, length := n } :: spans) elements' offset' := by
  obtain ⟨done, hes, hdone⟩ := h.completes
  refine ⟨?_, rfl, ⟨e :: done, by rw [hes, cons_append], ?_⟩, h.inside, ?_⟩
  · exact forall_mem_cons.mpr ⟨⟨hn, Nat.le_of_eq heq⟩, h.proper⟩
  · have hwhole := carry_append_spanBytes e offset n
    rw [heq, ← e.bytes_length, take_length] at hwhole
    rw [carryOf_zero] at hdone
    exact .cons hwhole hdone
  · have := h.less
    simp only [remaining, map_cons, sum_cons] at *
    omega

def usedBy (spans : List AV1Span) : ℕ := ((spans.map spanBytes).flatMap prefixed).length

lemma usedBy_concat (hs : Proper s) :
    usedBy (spans ++ [s]) = usedBy spans + (leb128Size s.length + s.length) := by
  have hlen := hs.length_eq
  rw [← hlen]
  simp [usedBy, prefixed_length]

lemma Fits.concat (hs : Proper s) (h : if spans.length < 3 then 1 + usedBy spans + s.length ≤ budget
      else 1 + usedBy spans + (leb128Size s.length + s.length) ≤ budget) :
    Fits budget (spans ++ [s]) := by
  have hlen := hs.length_eq
  rw [← hlen] at h
  have hcount : ((spans ++ [s]).length ≤ 3) = (spans.length < 3) := by
    rw [length_append, length_singleton, Nat.succ_le_iff]
  simp only [Fits, hcount, map_append, map_singleton, layout_concat]
  rw [length_append, ← usedBy]
  by_cases h3 : spans.length < 3
  · simp only [h3, if_true, decide_true] at h ⊢
    omega
  · simp only [h3, if_false, decide_false, Bool.false_eq_true, prefixed_length] at h ⊢
    omega

/-- **The plan of a packet**: the spans move the sender on within the budget. -/
lemma planSpans_spec (budget : ℕ) :
    ∀ {offset : ℕ} (spans : List AV1Span), Inside elements offset →
      (∀ e ∈ elements, e.size ≤ maxInt64) → (spans ≠ [] → Fits budget spans) →
      ∃ new elements' offset', planSpans budget elements offset spans (usedBy spans) =
          (spans ++ new, elements', offset') ∧
        (spans ++ new ≠ [] → Fits budget (spans ++ new)) ∧
        (Moves elements offset new elements' offset' ∨
          new = [] ∧ elements' = elements ∧ offset' = offset ∧ ∀ e ∈ elements.head?,
            spanLength budget spans.length (usedBy spans) (e.size - offset) ≤ 0) := by
  induction elements with
  | nil =>
    intro offset spans _ _ hfits
    exact ⟨[], [], offset, by simp [planSpans], by simpa using hfits, .inr (by simp)⟩
  | cons e es ih =>
    intro offset spans hin hsize hfits
    have hesize := hsize e (by simp)
    rw [planSpans]
    by_cases hfull : spanLength budget spans.length (usedBy spans) (e.size - offset) ≤ 0
    · refine ⟨[], e :: es, offset, by simp [hfull], by simpa using hfits, .inr ⟨rfl, rfl, rfl, ?_⟩⟩
      simpa using hfull
    · obtain ⟨n, hn, hpos, hle, hbudget⟩ := spanLength_spec (by omega) (Int.not_le.mp hfull)
      simp only [hn, Int.toNat_natCast]
      rw [if_neg (show ¬ (n : ℤ) ≤ 0 by omega)]
      have hproper : Proper { element := e, offset, length := n } :=
        ⟨hpos, by unfold Inside at hin; simp only; omega⟩
      have hfits' : Fits budget (spans ++ [{ element := e, offset, length := n }]) :=
        .concat hproper hbudget
      by_cases hcut : n < e.size - offset
      · rw [if_pos hcut]
        exact ⟨_, _, _, rfl, fun _ => hfits', .inl (.cut hpos (by omega))⟩
      · have heq : offset + n = e.size := by
          omega
        rw [if_neg hcut, ← usedBy_concat hproper]
        obtain ⟨new, els', offset', hplan, hf, hmove⟩ := ih _ (.zero es)
          (fun x hx => hsize x (mem_cons_of_mem _ hx)) fun _ => hfits'
        rw [append_assoc] at hplan hf
        refine ⟨_, els', offset', hplan, hf, .inl ?_⟩
        rcases hmove with hmove | ⟨rfl, rfl, rfl, -⟩
        · exact .cons hpos heq hmove
        · exact .last hpos heq

/-! ### The packets of a temporal unit -/

variable {payloadType : UInt8} {ts : UInt32}

lemma writePacket_eq (hs : ∀ s ∈ spans, Proper s) (n y : Bool) (out : PacketizeResult) :
    writePacket spans payloadType ts n y out = out.emit payloadType ts
      (aggregationHeader (spans.head?.any fun s => 0 < s.offset) y n (spans.map spanBytes).length ::
        layout ((spans.map spanBytes).length ≤ 3) (spans.map spanBytes)) := by
  rw [length_map, writePacket, writeSpans_eq hs (Nat.zero_add _).symm]
  rfl

lemma planSpans_moves (hb : 2 ≤ budget) (hne : elements ≠ []) (hin : Inside elements offset)
    (hsize : ∀ e ∈ elements, e.size ≤ maxInt64) :
    ∃ spans elements' offset', planSpans budget elements offset [] 0 = (spans, elements', offset') ∧
      Fits budget spans ∧ Moves elements offset spans elements' offset' := by
  obtain ⟨spans, elements', offset', hplan, hfits, hmove⟩ :=
    planSpans_spec budget [] hin hsize (by simp)
  rw [nil_append] at hplan hfits
  obtain ⟨e, es, rfl⟩ := exists_cons_of_ne_nil hne
  have hmove : Moves (e :: es) offset spans elements' offset' := by
    refine hmove.resolve_right fun hfull => ?_
    have := hfull.2.2.2 e rfl
    unfold Inside at hin
    simp only [spanLength, length_nil, usedBy, map_nil, flatMap_nil] at this
    omega
  refine ⟨spans, elements', offset', hplan, hfits ?_, hmove⟩
  obtain ⟨done, -, hdone⟩ := hmove.completes
  exact fun hnil => hdone.ne_nil (by rw [hnil, map_nil])

lemma remaining_pos (hne : elements ≠ []) (hin : Inside elements offset) :
    0 < remaining elements offset := by
  obtain ⟨e, es, rfl⟩ := exists_cons_of_ne_nil hne
  unfold Inside at hin
  simp only [remaining, map_cons, sum_cons]
  omega

/-- **The packets of a temporal unit** are within the budget, and their pieces carry the elements. -/
lemma packetLoop_carries (hb : 2 ≤ budget) (keyframe : Bool) (fuel : ℕ) :
    ∀ {elements : List AV1Element} {offset : ℕ} (first : Bool) {out : PacketizeResult}
      {sent : List Bytes}, remaining elements offset ≤ fuel → Inside elements offset →
      (∀ e ∈ elements, e.size ≤ maxInt64) → Holds out payloadType ts sent →
      ∃ ps, Carries (carryOf elements offset) ps elements ∧ (elements ≠ [] → ps ≠ []) ∧
        Holds (packetLoop budget keyframe payloadType ts fuel elements offset first out) payloadType
          ts (sent ++ payloadsFrom (!elements.isEmpty && 0 < offset) (first && keyframe) ps) ∧
        ∀ b ∈ payloadsFrom (!elements.isEmpty && 0 < offset) (first && keyframe) ps, b.length ≤ budget := by
  induction fuel with
  | zero =>
    intro elements offset first out sent hfuel hin hsize hholds
    have hnil : elements = [] := by
      by_contra hne
      have := remaining_pos hne hin
      omega
    subst hnil
    exact ⟨[], .nil, by simp, by simpa [packetLoop, payloadsFrom] using hholds, by simp [payloadsFrom]⟩
  | succ fuel ih =>
    intro elements offset first out sent hfuel hin hsize hholds
    by_cases hnil : elements = []
    · subst hnil
      exact ⟨[], .nil, by simp, by simpa [packetLoop, payloadsFrom] using hholds,
        by simp [payloadsFrom]⟩
    · obtain ⟨spans, elements', offset', hplan, hfits, hmove⟩ := planSpans_moves hb hnil hin hsize
      have hempty : elements.isEmpty = false := by simpa using hnil
      rw [packetLoop]
      simp only [hplan, writePacket_eq hmove.proper, hmove.starts]
      have hless := hmove.less
      obtain ⟨done, hdone, htaken⟩ := hmove.completes
      obtain ⟨ps, hcarries, -, hps, hbounds⟩ := ih false (by omega) hmove.inside
        (fun e he => hsize e (by rw [hdone]; exact mem_append_right _ he))
        (hholds.emit (aggregationHeader (decide (0 < offset)) (!elements'.isEmpty && 0 < offset')
          (first && keyframe) (spans.map spanBytes).length ::
          layout ((spans.map spanBytes).length ≤ 3) (spans.map spanBytes)))
      have hcarries' := Carries.cons htaken (fun c hc => by
          obtain ⟨s, hs, rfl⟩ := mem_map.mp hc
          exact (hmove.proper s hs).ne_nil) continues_iff hcarries
      rw [← hdone] at hcarries'
      refine ⟨_, hcarries', by simp, ?_, ?_⟩
      · rw [payloadsFrom, hempty]
        simpa using hps
      · refine forall_mem_cons.mpr ⟨?_, by simpa using hbounds⟩
        unfold Fits at hfits
        rw [length_cons, length_map]
        omega

@[simp] lemma learnIf_budget (p : AV1Packetizer) (e : AV1Element) :
    (p.learnIf e).budget = p.budget := by
  unfold learnIf
  split <;> rfl

@[simp] lemma foldl_learnIf_budget (es : List AV1Element) (p : AV1Packetizer) :
    (es.foldl learnIf p).budget = p.budget := by
  induction es generalizing p with
  | nil => rfl
  | cons e es ih => rw [foldl_cons, ih, learnIf_budget]

lemma foldl_learnIf_eq (p : AV1Packetizer)
    (h : (es.any fun e => e.obuType = av1OBUSequenceHeader) = false) : es.foldl learnIf p = p := by
  induction es generalizing p with
  | nil => rfl
  | cons e es ih =>
    rw [any_cons, Bool.or_eq_false_iff, decide_eq_false_iff_not] at h
    rw [foldl_cons, learnIf, dif_neg h.1, ih p h.2]

end AV1Packetizer

/-- **The temporal unit to send**: the OBUs but temporal delimiters, tile lists and padding, behind the
cached sequence header when it is a keyframe without one. -/
def temporalUnit (cached : Option AV1Element) (keyframe : Bool) (es : List AV1Element) :
    List AV1Element :=
  let units := es.filter fun e =>
    e.obuType ∉ [av1OBUTemporalDelimiter, av1OBUTileList, av1OBUPadding]
  if keyframe && !(es.any fun e => e.obuType = av1OBUSequenceHeader) then cached.toList ++ units else units

namespace AV1Packetizer

variable (p : AV1Packetizer)

/-- The cached sequence header, if it is one that is inserted: one with a payload. -/
def insertable : Option AV1Element :=
  p.seqHeader.filter fun e => !e.payload.isEmpty

variable (keyframe : Bool) (es : List AV1Element)

/-- A cached sequence header that the unit needs has a payload. -/
def HasHeader : Prop :=
  keyframe = true → (∀ e ∈ es, e.obuType ≠ av1OBUSequenceHeader) → ∀ e ∈ p.seqHeader, e.payload ≠ []

lemma isDropped_iff (e : AV1Element) : (!isDropped e) =
    decide (e.obuType ∉ [av1OBUTemporalDelimiter, av1OBUTileList, av1OBUPadding]) := by
  simp [isDropped, Bool.and_assoc]

lemma withSequence_eq :
    (es.foldl learnIf p).withSequence keyframe (es.any fun e => e.obuType = av1OBUSequenceHeader)
      (es.filter fun e => !isDropped e) = temporalUnit p.insertable keyframe es := by
  simp only [temporalUnit, withSequence, isDropped_iff]
  have hlearn : _ → es.foldl learnIf p = p := foldl_learnIf_eq p
  generalize (es.any fun e => e.obuType = av1OBUSequenceHeader) = sequence at hlearn
  cases sequence with
  | true => split <;> simp
  | false =>
    rw [hlearn rfl, insertable]
    cases keyframe with
    | false => split <;> simp
    | true =>
      cases p.seqHeader with
      | none => simp
      | some e => by_cases he : e.payload = [] <;> simp [Option.filter, he]

/-- The unit that is sent is the one to send, or that lacks the cached header. -/
lemma temporalUnit_insertable :
    (p.HasHeader keyframe es ∧ temporalUnit p.insertable keyframe es = temporalUnit p.seqHeader keyframe es) ∨
      (¬ p.HasHeader keyframe es ∧
        ∃ e, temporalUnit p.seqHeader keyframe es = e :: temporalUnit p.insertable keyframe es) := by
  simp only [temporalUnit, insertable, HasHeader]
  cases keyframe with
  | false => simp
  | true =>
    cases hseq : es.any fun e => e.obuType = av1OBUSequenceHeader with
    | true =>
      obtain ⟨e, he, htype⟩ := any_eq_true.mp hseq
      exact .inl ⟨fun _ hnone => absurd (of_decide_eq_true htype) (hnone e he), by simp⟩
    | false =>
      have hnone : ∀ e ∈ es, e.obuType ≠ av1OBUSequenceHeader := by simpa using hseq
      cases p.seqHeader with
      | none => simp
      | some e =>
        by_cases he : e.payload = []
        · exact .inr ⟨fun h => h rfl hnone e rfl he, e, by simp [he]⟩
        · exact .inl ⟨fun _ _ _ he' => Option.mem_some_iff.mp he' ▸ he, by simp [Option.filter, he]⟩

lemma kept_temporalUnit :
    ∀ e ∈ temporalUnit p.insertable keyframe es, e.Kept := by
  have hsent : ∀ e ∈ es.filter (fun e =>
      e.obuType ∉ [av1OBUTemporalDelimiter, av1OBUTileList, av1OBUPadding]), e.Kept := by
    intro e he
    have hdropped := of_decide_eq_true (mem_filter.mp he).2
    simp only [mem_cons, not_or] at hdropped
    exact ⟨hdropped.1, hdropped.2.1⟩
  intro e he
  simp only [temporalUnit] at he
  split at he
  · rcases mem_append.mp he with he | he
    · have hcached := p.seqHeader_type e (Option.mem_filter_iff.mp (Option.mem_toList.mp he)).1
      unfold AV1Element.Kept
      rw [hcached]
      decide
    · exact hsent e he
  · exact hsent e he

section

variable {p : AV1Packetizer} {packet : Av.Packet} {payload : PayloadCodec}
  (h : (p.packetizeInto none packet payload {}).2.2 = none)
include h

lemma bitstream_of_accepted : Bitstream packet.payload (eachElement packet.payload).1 := by
  refine eachElement_iff_bitstream.mp (Prod.ext rfl ?_)
  unfold packetizeInto at h
  cases hts : rtpTimestamp packet payload p.clock with
  | error e => simp [hts] at h
  | ok ts =>
    simp only [hts] at h
    split at h
    · simp at h
    · rename_i hok
      simp only [Bool.or_eq_true, not_or] at hok
      simpa using hok.1

/-- **What the packetizer sends**: packets within the budget whose pieces carry the unit. -/
lemma packetizeInto_spec {es : List AV1Element} (hes : (eachElement packet.payload).1 = es)
    (hsize : ∀ e ∈ temporalUnit p.insertable packet.keyframe es, e.size ≤ maxInt64) :
    temporalUnit p.insertable packet.keyframe es ≠ [] ∧
    ∃ ts ps, ps ≠ [] ∧ Carries [] ps (temporalUnit p.insertable packet.keyframe es) ∧
      (∀ b ∈ payloadsFrom false packet.keyframe ps, b.length ≤ p.budget) ∧
      (p.packetizeInto none packet payload {}).2.1.packets =
        markLast ((payloadsFrom false packet.keyframe ps).map (packetOf payload.payloadType ts)) := by
  unfold packetizeInto at h ⊢
  cases hts : rtpTimestamp packet payload p.clock with
  | error e => simp [hts] at h
  | ok ts =>
    simp only [hts, hes] at h ⊢
    split at h
    · simp at h
    rename_i hok
    rw [if_neg hok]
    simp only [Bool.or_eq_true, not_or, Bool.not_eq_true, isEmpty_eq_false_iff] at hok
    simp only [p.withSequence_eq packet.keyframe es]
    have hne : temporalUnit p.insertable packet.keyframe es ≠ [] := by
      have hsent := hok.2
      simp only [isDropped_iff] at hsent
      simp only [temporalUnit]
      split
      · exact append_ne_nil_of_right_ne_nil _ hsent
      · exact hsent
    have hmin := p.budget_min
    unfold minMTU rtpHeaderSize at hmin
    have hempty : Holds {} payload.payloadType ts [] := holds_empty
    obtain ⟨ps, hcarries, hps, hholds, hbounds⟩ :=
      packetLoop_carries (show 2 ≤ p.budget by omega) packet.keyframe
        ((temporalUnit p.insertable packet.keyframe es).map AV1Element.size).sum true
        (by simp [remaining]) (.zero _) hsize hempty
    rw [carryOf_zero] at hcarries
    refine ⟨hne, ts, ps, hps hne, hcarries, by simpa using hbounds, ?_⟩
    rw [foldl_learnIf_budget, hholds.seal_packets]
    simp

end

end AV1Packetizer

/-! ### The round trip -/

/-- The bytes are the OBU with its size field set, and no other bytes of that size are fewer. -/
def AV1Element.MinimallySized (e : AV1Element) (b : Bytes) : Prop :=
  ∃ size : Bytes, b = [e.header ||| 0x02] ++ e.extension.toList ++ size ++ e.payload ∧
    IsLEB128 e.payload.length size ∧ ∀ size', IsLEB128 e.payload.length size' → size.length ≤ size'.length

lemma AV1Element.minimallySized_obu {e : AV1Element} (h : e.size ≤ maxInt64) :
    e.MinimallySized e.obu := by
  have hpayload : e.payload.length ≤ maxInt64 := by
    unfold AV1Element.size at h
    omega
  exact ⟨_, rfl, isLEB128_appendLEB128 hpayload, fun _ => length_appendLEB128_le⟩

lemma size_le_obus {es : List AV1Element} {e : AV1Element} (he : e ∈ es) :
    e.size ≤ (obus es).length := by
  have h := e.bytes_length_le_obu
  rw [e.bytes_length] at h
  obtain ⟨pre, post, rfl⟩ := append_of_mem he
  rw [obus_append, obus_cons, length_append, length_append]
  omega

lemma newAV1Depacketizer_cap_le (stream : Stream) (options : List VideoDepacketizerOption) :
    (newAV1Depacketizer stream options).assembler.bufferCap ≤ maxInt64 := by
  have hle : ∀ size : Int64, size.toInt.toNat ≤ maxInt64 := by
    intro size
    have := size.toInt_lt
    unfold maxInt64
    omega
  exact hle _

namespace AV1Depacketizer

lemma push_unmarked (payload : PayloadCodec) (out : DepacketizeResult) (d : AV1Depacketizer)
    {pkt : Packet} (h : pkt.marker = false) : (d.push payload out pkt).2 = [] := by
  have hdropped : ∀ (d : AV1Depacketizer) a, (d.dropped a out).2.1.packets = out.packets := by
    intro d a
    simp only [dropped, VideoFrameAssembler.emitPendingSync]
    split_ifs <;> rfl
  have hassemble : ∀ (d : AV1Depacketizer) z y count,
      (d.assemble pkt z y count payload out).2.1.packets = out.packets := by
    intro d z y count
    simp only [assemble, h]
    split <;> simp
  suffices hsame : (d.pushInto none pkt payload out).2.1.packets = out.packets by
    rw [push, hsame, drop_length]
  simp only [pushInto]
  split_ifs <;> first | rfl | exact hdropped _ _ | exact hassemble _ _ _ _

lemma pushAll_unmarked (payload : PayloadCodec) (out : DepacketizeResult) (pkts : List Packet)
    (h : ∀ q ∈ pkts, q.marker = false) (d : AV1Depacketizer) : (d.pushAll payload out pkts).2 = [] := by
  induction pkts generalizing d with
  | nil => rfl
  | cons q pkts ih =>
    rw [pushAll, run_cons]
    simp only [push_unmarked payload out d (h q (by simp))]
    exact ih (fun r hr => h r (mem_cons_of_mem _ hr)) _

end AV1Depacketizer

/-- **The round trip.** An accepted unit has one reading, its packets are within the MTU, and a fresh
depacketizer emits the temporal unit at the marker, with the cached header where one is missing exactly
if that has a payload. -/
theorem av1_round_trip (p : AV1Packetizer) (mtu : ℕ) (hp : p.budget + rtpHeaderSize = mtu)
    (packet : Av.Packet) (payload : PayloadCodec)
    (hok : (p.packetizeInto none packet payload {}).2.2 = none) (stream : Stream)
    (options : List VideoDepacketizerOption) (codec : PayloadCodec) (out : DepacketizeResult)
    (hroom : out.packets.length < out.packetsCap) :
    (∃! es, Bitstream packet.payload es) ∧ ∀ es, Bitstream packet.payload es →
      (obus (temporalUnit p.seqHeader packet.keyframe es)).length ≤
        (newAV1Depacketizer stream options).assembler.bufferCap →
      (∀ q ∈ (p.packetizeInto none packet payload {}).2.1.packets,
        q.payload.length + rtpHeaderSize ≤ mtu) ∧
      OnlyLastMarked (p.packetizeInto none packet payload {}).2.1.packets ∧
      (∀ init last, (p.packetizeInto none packet payload {}).2.1.packets = init ++ [last] →
        ((newAV1Depacketizer stream options).pushAll codec out init).2 = []) ∧
      (∀ e ∈ temporalUnit p.seqHeader packet.keyframe es, e.MinimallySized e.obu) ∧
      ∃ q : Av.Packet, ((newAV1Depacketizer stream options).pushAll codec out
          (p.packetizeInto none packet payload {}).2.1.packets).2 = [q] ∧
        q.keyframe = packet.keyframe ∧
        (q.payload = obus (temporalUnit p.seqHeader packet.keyframe es) ↔ p.HasHeader packet.keyframe es) := by
  have hread := AV1Packetizer.bitstream_of_accepted hok
  have hunique : ∀ es, Bitstream packet.payload es → (eachElement packet.payload).1 = es := fun es hes =>
    congrArg Prod.fst (eachElement_iff_bitstream.mpr hes)
  refine ⟨⟨_, hread, fun es hes => (hunique es hes).symm⟩, fun es hes hfit => ?_⟩
  have hcap := newAV1Depacketizer_cap_le stream options
  have hcases := p.temporalUnit_insertable packet.keyframe es
  have hle : (obus (temporalUnit p.insertable packet.keyframe es)).length ≤
      (obus (temporalUnit p.seqHeader packet.keyframe es)).length := by
    obtain ⟨-, heq⟩ | ⟨-, e, heq⟩ := hcases
    · rw [heq]
    · rw [heq, obus_cons, length_append]
      omega
  have hsize : ∀ e ∈ temporalUnit p.insertable packet.keyframe es, e.size ≤ maxInt64 := fun e he =>
    (size_le_obus he).trans (hle.trans (hfit.trans hcap))
  obtain ⟨hne, ts, ps, hps, hcarries, hbounds, hpkts⟩ :=
    AV1Packetizer.packetizeInto_spec hok (hunique es hes) hsize
  have hkept := p.kept_temporalUnit packet.keyframe es
  obtain ⟨hmarked, hpayload⟩ := onlyLastMarked_markLast payload.payloadType ts
    (payloadsFrom_ne_nil false packet.keyframe hps)
  rw [hpkts]
  refine ⟨fun q hq => ?_, hmarked, fun init last heq => ?_,
    fun e he => AV1Element.minimallySized_obu ((size_le_obus he).trans (hfit.trans hcap)), ?_⟩
  · have := hbounds _ (hpayload q hq)
    omega
  · obtain ⟨init', last', heq', -, hinit⟩ := hmarked
    obtain ⟨rfl, -⟩ := append_inj' (heq.symm.trans heq') rfl
    exact AV1Depacketizer.pushAll_unmarked codec out init hinit _
  · obtain ⟨q, hq, hpay, hkey⟩ := hcarries.emitted codec hroom payload.payloadType ts
      (d := newAV1Depacketizer stream options) hps hne rfl rfl hkept (hle.trans hfit) hcap packet.keyframe
    refine ⟨q, hq, hkey, ?_⟩
    obtain ⟨hheader, heq⟩ | ⟨hheader, e, heq⟩ := hcases
    · exact iff_of_true (hpay.trans (by rw [heq])) hheader
    · refine iff_of_false (fun hsame => ?_) hheader
      have hlength := congrArg length (hpay.symm.trans hsame)
      have hpos := e.bytes_length_le_obu
      have := e.size_pos
      rw [heq, obus_cons, length_append] at hlength
      rw [e.bytes_length] at hpos
      omega

def sampleAV1Packetizer (extraData : Bytes) : AV1Packetizer :=
  newAV1Packetizer { codec := { extraData } } 16 minMTU_le

def sampleKeyframe (payload : Bytes) : Av.Packet :=
  { payload, pts := { value := 3, base := { num := 1, den := 90000 } }, keyframe := true }

def headerlessUnit : Bytes := [0x12, 0, 0x32, 20] ++ List.replicate 20 5

/-- A frame that is fragmented, behind the cached sequence header. -/
theorem av1_round_trip_keyframe :
    ∃ q : Av.Packet, ((newAV1Depacketizer {} []).pushAll {} { packetsCap := 1, eventsCap := 1 }
        ((sampleAV1Packetizer [0x0a, 1, 7]).packetizeInto none (sampleKeyframe headerlessUnit) {}
          {}).2.1.packets).2 = [q] ∧
      q.payload = [0x0a, 1, 7, 0x32, 20] ++ List.replicate 20 5 ∧ q.keyframe = true := by
  have hread : Bitstream headerlessUnit (eachElement headerlessUnit).1 :=
    eachElement_iff_bitstream.mp (Prod.ext rfl (by decide +kernel))
  obtain ⟨-, -, -, -, q, hq, hkey, hpay⟩ := (av1_round_trip (sampleAV1Packetizer [0x0a, 1, 7]) 28
    (by decide +kernel) (sampleKeyframe headerlessUnit) {} (by decide +kernel) {} [] {}
    { packetsCap := 1, eventsCap := 1 } (by decide)).2 _ hread (by decide +kernel)
  refine ⟨q, hq, (hpay.mpr fun _ _ e he => ?_).trans (by decide +kernel), hkey⟩
  have hheader : (sampleAV1Packetizer [0x0a, 1, 7]).seqHeader.all fun e => !e.payload.isEmpty := by
    decide +kernel
  rw [Option.mem_def.mp he] at hheader
  simpa using hheader

/-- A cached sequence header without a payload is not inserted: 0a 00 should be in front. -/
theorem av1_empty_sequence_header_not_inserted :
    ((sampleAV1Packetizer [0x0a, 0]).packetizeInto none (sampleKeyframe [0x32, 1, 0x55]) {} {}).2.2 = none ∧
    (((newAV1Depacketizer {} []).pushAll {} { packetsCap := 1, eventsCap := 1 }
      ((sampleAV1Packetizer [0x0a, 0]).packetizeInto none (sampleKeyframe [0x32, 1, 0x55]) {}
        {}).2.1.packets).2).map (·.payload) = [[0x32, 1, 0x55]] ∧
    ∃ es, Bitstream [0x32, 1, 0x55] es ∧
      obus (temporalUnit (sampleAV1Packetizer [0x0a, 0]).seqHeader true es) = [0x0a, 0, 0x32, 1, 0x55] :=
  ⟨by decide +kernel, by decide +kernel, _, eachElement_iff_bitstream.mp (Prod.ext rfl (by decide +kernel)),
    by decide +kernel⟩

end Goav.Rtpav
