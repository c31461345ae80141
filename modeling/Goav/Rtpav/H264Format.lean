import Goav.Lib.Byte
import Goav.Rtpav.H264Defs

/-!
The payload format: `Packs` says which payloads carry which NAL units, and says it of neither program.
The depacketizer unpacks what packs (`Packs.appendAll`), up to the forbidden bit of a fragmented unit.
-/

namespace Goav.Rtpav

open Goav.Av Goav.Lib List

/-! ### Units and payloads -/

variable (units : List Bytes)

def annexB : Bytes := units.flatMap ([0, 0, 0, 1] ++ ·)

def Sendable (u : Bytes) : Prop := u ≠ [] ∧ 0 < typeOf u ∧ typeOf u < h264NALUSTAPA

def sized (u : Bytes) : Bytes := [UInt8.ofNat (u.length >>> 8), UInt8.ofNat u.length] ++ u

variable (u : Bytes)

lemma sized_length : (sized u).length = 2 + u.length := by
  rw [sized, length_append]
  rfl

def fuHeader (type : UInt8) (first last : Bool) : UInt8 :=
  let header := if first then type ||| h264FUStartMask else type
  if last then header ||| h264FUEndMask else header

def fuaPayloads (indicator type : UInt8) : Bool → List Bytes → List Bytes
  | _, [] => []
  | first, [c] => [[indicator, fuHeader type first true] ++ c]
  | first, c :: cs =>
    ([indicator, fuHeader type first false] ++ c) :: fuaPayloads indicator type false cs

def fuIndicator (u : Bytes) : UInt8 :=
  (u.headD 0 &&& (h264ForbiddenMask ||| h264NALUNRIMask)) ||| h264NALUFUA

inductive Packs (budget : ℕ) : List Bytes → List Bytes → Prop
  | nil : Packs budget [] []
  | single {u : Bytes} (hu : Sendable u) (fits : u.length ≤ budget) : Packs budget [u] [u]
  | stapa {header : UInt8} {us : List Bytes} (hh : naluType header = h264NALUSTAPA)
      (hu : ∀ u ∈ us, Sendable u) (fits : 1 + (us.flatMap sized).length ≤ budget) :
      Packs budget [header :: us.flatMap sized] us
  | fua {u : Bytes} {cs : List Bytes} (hu : Sendable u) (large : budget < u.length)
      (split : cs.flatten = u.drop 1) (hne : cs ≠ []) (fits : ∀ c ∈ cs, 2 + c.length ≤ budget) :
      Packs budget (fuaPayloads (fuIndicator u) (typeOf u) true cs) [u]
  | append {ps us ps' us' : List Bytes} (h : Packs budget ps us) (h' : Packs budget ps' us') :
      Packs budget (ps ++ ps') (us ++ us')

/-- What a unit is after the wire: a fragmented one has lost its forbidden bit. -/
def carried (budget : ℕ) (u : Bytes) : Bytes :=
  if budget < u.length then (u.headD 0 &&& ~~~h264ForbiddenMask) :: u.drop 1 else u

variable {budget : ℕ} {ps us : List Bytes}

lemma fuaPayloads_bounded {indicator type : UInt8} {cs : List Bytes} (first : Bool)
    (h : ∀ c ∈ cs, 2 + c.length ≤ budget) :
    ∀ p ∈ fuaPayloads indicator type first cs, p ≠ [] ∧ p.length ≤ budget := by
  induction cs generalizing first with
  | nil => simp [fuaPayloads]
  | cons c cs ih =>
    have hc := h c (by simp)
    cases cs with
    | nil =>
      simp [fuaPayloads]
      omega
    | cons c' cs =>
      intro p hp
      rcases mem_cons.mp hp with rfl | hp
      · simp
        omega
      · exact ih false (fun x hx => h x (mem_cons_of_mem _ hx)) p hp

lemma Packs.bounded (h : Packs budget ps us) : ∀ p ∈ ps, p ≠ [] ∧ p.length ≤ budget := by
  induction h with
  | nil => simp
  | single hu fits => simpa using ⟨hu.1, fits⟩
  | stapa hh hu fits =>
    simp only [mem_singleton, forall_eq]
    refine ⟨by simp, ?_⟩
    simp only [length_cons]
    omega
  | fua hu large split hne fits => exact fuaPayloads_bounded true fits
  | append h h' ih ih' =>
    intro p hp
    rcases mem_append.mp hp with hp | hp
    · exact ih p hp
    · exact ih' p hp

lemma Packs.sendable (h : Packs budget ps us) : ∀ u ∈ us, Sendable u := by
  induction h with
  | nil => simp
  | single hu fits => simpa using hu
  | stapa hh hu fits => exact hu
  | fua hu large split hne fits => simpa using hu
  | append h h' ih ih' =>
    intro u hu
    rcases mem_append.mp hu with hu | hu
    · exact ih u hu
    · exact ih' u hu

/-! ### Header bits -/

lemma naluType_fuIndicator : naluType (fuIndicator u) = h264NALUFUA := by
  unfold fuIndicator
  generalize u.headD 0 = b
  revert b
  exact forall_byte (by decide +kernel)

lemma fuHeader_start (first last : Bool) :
    (fuHeader (typeOf u) first last &&& h264FUStartMask != 0) = first := by
  unfold typeOf
  generalize u.headD 0 = b
  revert b
  cases first <;> cases last <;> exact forall_byte (by decide +kernel)

lemma fuHeader_end (first last : Bool) :
    (fuHeader (typeOf u) first last &&& h264FUEndMask != 0) = last := by
  unfold typeOf
  generalize u.headD 0 = b
  revert b
  cases first <;> cases last <;> exact forall_byte (by decide +kernel)

lemma fuHeader_header (last : Bool) :
    (fuIndicator u &&& h264NALUNRIMask) |||
      (fuHeader (typeOf u) true last &&& h264NALUTypeMask) = u.headD 0 &&& ~~~h264ForbiddenMask := by
  unfold fuIndicator typeOf
  generalize u.headD 0 = b
  revert b
  cases last <;> exact forall_byte (by decide +kernel)

lemma naluType_clear (b : UInt8) : naluType (b &&& ~~~h264ForbiddenMask) = naluType b := by
  revert b
  exact forall_byte (by decide +kernel)

lemma clear_eq_self_iff (b : UInt8) : b &&& ~~~h264ForbiddenMask = b ↔ b &&& h264ForbiddenMask = 0 := by
  revert b
  exact forall_byte (by decide +kernel)

/-! ### Unpacking -/

lemma annexB_append (us us' : List Bytes) : annexB (us ++ us') = annexB us ++ annexB us' := by
  simp [annexB]

lemma annexB_single : annexB [u] = [0, 0, 0, 1] ++ u := by
  simp [annexB]

lemma carried_length (budget : ℕ) (u : Bytes) : (carried budget u).length = u.length := by
  unfold carried
  split
  · simp
    omega
  · rfl

lemma typeOf_carried (budget : ℕ) (u : Bytes) : typeOf (carried budget u) = typeOf u := by
  unfold carried
  split
  · exact naluType_clear _
  · rfl

def hasType (type : UInt8) : Bool := units.any fun u => typeOf u = type

def hasIDR : Bool := hasType units h264NALUIDR

namespace H264Depacketizer

def filled (d : H264Depacketizer) (b : Bytes) : H264Depacketizer :=
  { d with assembler := { d.assembler with buffer := d.assembler.buffer ++ b } }

def extended (d : H264Depacketizer) (units : List Bytes) : H264Depacketizer :=
  { d.filled (annexB units) with keyframe := d.keyframe || hasIDR units }

def finished (d : H264Depacketizer) : H264Depacketizer := { d with fragment := false }

def Room (d : H264Depacketizer) (n : ℕ) : Prop :=
  d.assembler.buffer.length + n ≤ d.assembler.bufferCap

def appendAll (d : H264Depacketizer) : List Bytes → H264Depacketizer × Option Err
  | [] => (d, none)
  | p :: ps => andThen (d.appendPayload p) fun d => d.appendAll ps

variable (d : H264Depacketizer)

@[simp] lemma filled_filled (b b' : Bytes) : (d.filled b).filled b' = d.filled (b ++ b') := by
  simp [filled]

@[simp] lemma filled_nil : d.filled [] = d := by
  simp [filled]

@[simp] lemma extended_nil : d.extended [] = d := by
  simp [extended, annexB, hasIDR, hasType]

lemma extended_extended (us us' : List Bytes) :
    (d.extended us).extended us' = d.extended (us ++ us') := by
  simp [extended, annexB_append, hasIDR, hasType, filled, Bool.or_assoc]

variable {d : H264Depacketizer} {u : Bytes}

lemma Room.filled {b : Bytes} {n : ℕ} (h : d.Room (b.length + n)) : (d.filled b).Room n := by
  unfold Room H264Depacketizer.filled at *
  simp only [length_append]
  omega

lemma Room.mono {m n : ℕ} (h : d.Room n) (hm : m ≤ n) : d.Room m := by
  unfold Room at *
  omega

lemma appendRaw_eq {b : Bytes} (h : d.Room b.length) : d.appendRaw b = (d.filled b, none) := by
  rw [appendRaw, if_neg (Nat.not_lt.mpr h)]
  rfl

lemma appendAll_append (d : H264Depacketizer) (ps ps' : List Bytes) :
    d.appendAll (ps ++ ps') = andThen (d.appendAll ps) fun d => d.appendAll ps' := by
  induction ps generalizing d with
  | nil => rfl
  | cons p ps ih =>
    rw [cons_append, appendAll, appendAll]
    rcases d.appendPayload p with ⟨d', err | _⟩
    · exact ih d'
    · rfl

lemma appendNALU_eq (hu : u ≠ []) (h : d.Room (annexB [u]).length) :
    d.appendNALU u = (d.extended [u], none) := by
  obtain ⟨b, t, rfl⟩ := exists_cons_of_ne_nil hu
  rw [annexB_single, length_append] at h
  simp only [appendNALU, appendStartCode]
  generalize hd' : (if naluType b = h264NALUIDR then { d with keyframe := true } else d) = d'
  have hd : d' = { d with keyframe := d.keyframe || hasIDR [b :: t] } := by
    rw [← hd']
    by_cases hb : naluType b = h264NALUIDR <;> simp [hasIDR, hasType, typeOf, hb]
  have hroom' : d'.Room (([0, 0, 0, 1] : Bytes).length + (b :: t).length) := by
    rw [hd]
    exact h
  rw [appendRaw_eq (hroom'.mono (Nat.le_add_right _ _)), andThen, appendRaw_eq hroom'.filled, hd]
  simp [extended, filled, annexB, hasIDR, hasType]

lemma appendSTAPALoop_eq {us : List Bytes} :
    ∀ {d : H264Depacketizer} {fuel : ℕ}, (us.flatMap sized).length ≤ fuel →
      (∀ u ∈ us, u ≠ [] ∧ u.length < 65536) → d.Room (annexB us).length →
      appendSTAPALoop fuel d (us.flatMap sized) = (d.extended us, none) := by
  induction us with
  | nil =>
    intro d fuel _ _ _
    cases fuel <;> simp [appendSTAPALoop]
  | cons u us ih =>
    intro d fuel hfuel hus hroom
    obtain ⟨hne, hlen⟩ := hus u (by simp)
    have hpos : 0 < u.length := length_pos_iff.mpr hne
    rw [flatMap_cons, length_append, sized_length] at hfuel
    obtain ⟨fuel, rfl⟩ : ∃ n, fuel = n + 1 := ⟨fuel - 1, by omega⟩
    have hroom' : d.Room ((annexB [u]).length + (annexB us).length) := by
      rw [← length_append, ← annexB_append]
      exact hroom
    have hsize : bigEndian16 (UInt8.ofNat (u.length >>> 8)) (UInt8.ofNat u.length) = u.length :=
      high_low_byte hlen
    simp only [flatMap_cons, sized, cons_append, nil_append, appendSTAPALoop, hsize]
    rw [if_neg hpos.ne', if_neg (by simp), take_left, drop_left,
      appendNALU_eq hne (hroom'.mono (Nat.le_add_right _ _)), andThen]
    have hrest : (d.extended [u]).Room (annexB us).length := hroom'.filled
    rw [ih (by omega) (fun x hx => hus x (mem_cons_of_mem _ hx)) hrest, extended_extended]
    rfl

lemma appendPayload_fua (u c : Bytes) (header : UInt8) :
    d.appendPayload ([fuIndicator u, header] ++ c) = d.appendFUA (fuIndicator u :: header :: c) := by
  have h28 : ¬ (0 < h264NALUFUA ∧ h264NALUFUA < h264NALUSTAPA) := by decide
  have h24 : h264NALUFUA ≠ h264NALUSTAPA := by decide
  simp [appendPayload, naluType_fuIndicator, h28, h24]

lemma appendAll_fragments {cs : List Bytes} (hne : cs ≠ []) :
    ∀ {d : H264Depacketizer}, d.fragment = true → d.Room cs.flatten.length →
      d.appendAll (fuaPayloads (fuIndicator u) (typeOf u) false cs) =
        ((d.filled cs.flatten).finished, none) := by
  induction cs with
  | nil => exact absurd rfl hne
  | cons c cs ih =>
    intro d hfrag hroom
    rw [flatten_cons, length_append] at hroom
    have happend : ∀ last, d.appendPayload ([fuIndicator u, fuHeader (typeOf u) false last] ++ c) =
        (if last then (d.filled c).finished else d.filled c, none) := by
      intro last
      simp only [appendPayload_fua, appendFUA, fuHeader_start, fuHeader_end, hfrag,
        appendRaw_eq (hroom.mono (Nat.le_add_right _ _))]
      rfl
    cases cs with
    | nil =>
      rw [fuaPayloads, appendAll, happend true, andThen, appendAll]
      simp
    | cons c' cs =>
      rw [fuaPayloads, appendAll, happend false, andThen, if_neg (by simp)]
      · rw [ih (d := d.filled c) (by simp) hfrag hroom.filled, filled_filled]
        rfl
      · simp

lemma appendPayload_first (u c : Bytes) (last : Bool) (hroom : d.Room (5 + c.length)) :
    d.appendPayload ([fuIndicator u, fuHeader (typeOf u) true last] ++ c) =
      (({ d with fragment := !last, keyframe := d.keyframe || typeOf u = h264NALUIDR }).filled
        ([0, 0, 0, 1] ++ [u.headD 0 &&& ~~~h264ForbiddenMask] ++ c), none) := by
  simp only [appendPayload_fua, appendFUA, fuHeader_start, fuHeader_end, fuHeader_header,
    naluType_clear, appendStartCode, appendByte]
  generalize hd' : (if naluType (u.headD 0) = h264NALUIDR then
      ({ assembler := d.assembler, keyframe := true, fragment := !last } : H264Depacketizer)
    else { assembler := d.assembler, keyframe := d.keyframe, fragment := !last }) = d'
  have hd : d' = { d with fragment := !last, keyframe := d.keyframe || typeOf u = h264NALUIDR } := by
    rw [← hd']
    by_cases hb : naluType (u.headD 0) = h264NALUIDR <;> simp only [typeOf, hb] <;> simp
  have h₁ : d'.Room (([0, 0, 0, 1] : Bytes).length + ([u.headD 0 &&& ~~~h264ForbiddenMask].length +
      c.length)) := by
    rw [hd]
    exact hroom.mono (by simp; omega)
  rw [appendRaw_eq (h₁.mono (Nat.le_add_right _ _)), andThen,
    appendRaw_eq (h₁.filled.mono (Nat.le_add_right _ _)), andThen, appendRaw_eq h₁.filled.filled, hd]
  simp

lemma appendAll_fua {cs : List Bytes} (hu : u ≠ []) (split : cs.flatten = u.drop 1) (hne : cs ≠ [])
    (hd : d.fragment = false) (hroom : d.Room (annexB [u]).length) :
    d.appendAll (fuaPayloads (fuIndicator u) (typeOf u) true cs) =
      (d.extended [(u.headD 0 &&& ~~~h264ForbiddenMask) :: u.drop 1], none) := by
  obtain ⟨c, cs, rfl⟩ := exists_cons_of_ne_nil hne
  have hlen : (annexB [u]).length = 5 + c.length + cs.flatten.length := by
    have h := congrArg List.length split
    rw [flatten_cons, length_append, length_drop] at h
    have := length_pos_iff.mpr hu
    rw [annexB_single, length_append]
    simp only [length_cons, length_nil]
    omega
  rw [hlen] at hroom
  have hext : ∀ tail, tail = cs.flatten →
      (({ d with fragment := false, keyframe := d.keyframe || typeOf u = h264NALUIDR } :
        H264Depacketizer).filled ([0, 0, 0, 1] ++ [u.headD 0 &&& ~~~h264ForbiddenMask] ++ c ++ tail)) =
        d.extended [(u.headD 0 &&& ~~~h264ForbiddenMask) :: u.drop 1] := by
    have ht : typeOf ((u.headD 0 &&& ~~~h264ForbiddenMask) :: u.drop 1) = typeOf u :=
      naluType_clear (u.headD 0)
    rw [extended, hasIDR, hasType, any_cons, ht, ← split]
    simp [filled, annexB_single, hd]
  have hfirst := hroom.mono (Nat.le_add_right (5 + c.length) cs.flatten.length)
  cases cs with
  | nil =>
    rw [fuaPayloads, appendAll, appendPayload_first u c true hfirst, andThen, appendAll]
    rw [← hext [] rfl]
    simp
  | cons c' cs =>
    rw [fuaPayloads, appendAll, appendPayload_first u c false hfirst, andThen]
    · have htail : (({ d with fragment := true, keyframe := d.keyframe || typeOf u = h264NALUIDR } :
          H264Depacketizer).filled
          ([0, 0, 0, 1] ++ [u.headD 0 &&& ~~~h264ForbiddenMask] ++ c)).Room
          (c' :: cs).flatten.length := by
        refine Room.filled ?_
        refine Room.mono hroom ?_
        simp
        omega
      rw [← hext _ rfl, Bool.not_false, appendAll_fragments (by simp) rfl htail]
      simp [filled, finished]
    · simp

end H264Depacketizer

/-- **Unpacking.** The units that the payloads pack are appended; a fragmented one has lost its forbidden
bit. -/
theorem Packs.appendAll (h : Packs budget ps us) (hb : budget < 65536) :
    ∀ {d : H264Depacketizer}, d.fragment = false → d.Room (annexB us).length →
      d.appendAll ps = (d.extended (us.map (carried budget)), none) := by
  induction h with
  | nil =>
    simp [H264Depacketizer.appendAll]
  | @single u hu fits =>
    intro d _ hroom
    obtain ⟨b, t, rfl⟩ := exists_cons_of_ne_nil hu.1
    rw [map_singleton, carried, if_neg (Nat.not_lt.mpr fits)]
    simp only [H264Depacketizer.appendAll, H264Depacketizer.appendPayload]
    rw [if_pos (show 0 < naluType b ∧ naluType b < h264NALUSTAPA from hu.2),
      H264Depacketizer.appendNALU_eq hu.1 hroom]
    rfl
  | @stapa header us hh hu fits =>
    intro d _ hroom
    have hlen : ∀ u ∈ us, u.length ≤ (us.flatMap sized).length := by
      intro u hmem
      have := (sublist_flatten_of_mem (mem_map_of_mem (f := sized) hmem)).length_le
      rw [sized_length] at this
      rw [List.flatMap]
      omega
    have hsame : us.map (carried budget) = us := by
      conv_rhs => rw [← map_id us]
      refine map_congr_left fun u hmem => ?_
      rw [carried, if_neg (by have := hlen u hmem; omega)]
      rfl
    have h24 : ¬ (0 < h264NALUSTAPA ∧ h264NALUSTAPA < h264NALUSTAPA) := by decide
    rw [hsame]
    simp only [H264Depacketizer.appendAll, H264Depacketizer.appendPayload, hh,
      H264Depacketizer.appendSTAPA, drop_succ_cons, drop_zero]
    rw [H264Depacketizer.appendSTAPALoop_eq (by simp) (fun u hmem =>
      ⟨(hu u hmem).1, by have := hlen u hmem; omega⟩) hroom]
    rfl
  | @fua u cs hu large split hne fits =>
    intro d hd hroom
    rw [map_singleton, carried, if_pos large, H264Depacketizer.appendAll_fua hu.1 split hne hd hroom]
  | @append ps us ps' us' h h' ih ih' =>
    intro d hd hroom
    rw [annexB_append, length_append] at hroom
    have hsize : (annexB (us.map (carried budget))).length = (annexB us).length := by
      simp [annexB, Function.comp_def, carried_length]
    rw [H264Depacketizer.appendAll_append, ih hd (hroom.mono (Nat.le_add_right _ _)),
      H264Depacketizer.andThen, ih' (d := d.extended _) hd ?_, H264Depacketizer.extended_extended,
      map_append]
    refine H264Depacketizer.Room.filled ?_
    rw [hsize]
    exact hroom

end Goav.Rtpav
