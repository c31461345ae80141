import Goav.Av.Types
import Goav.Lib.BigEndian
import Goav.Lib.Byte

/-!
Void elements of a given total size (`container/matroska/muxer.go`), and the sizes of EBML elements
(`container/ebml/vint.go`): a number of 7 bits for each byte, whose first byte says how many there are.
-/

namespace Goav.Matroska

open Goav.Av Goav.Lib List

def maxKnownSize (width : ℕ) : ℕ := 2 ^ (7 * width) - 2

def widthBit (width : ℕ) : UInt8 := 0x80 >>> UInt8.ofNat (width - 1)

def encodeVINT (value width : ℕ) : Option Bytes :=
  match beBytes width value with
  | [] => none
  | b :: rest => if value / 256 ^ width ≠ 0 then none else some ((b ||| widthBit width) :: rest)

def encodeSizeVINTWidth (value width : ℕ) : Option Bytes :=
  if width < 1 ∨ 8 < width ∨ maxKnownSize width < value then none else encodeVINT value width

def sizeVINTWidth (value : ℕ) : Option ℕ :=
  (range' 1 8).find? fun width => value ≤ maxKnownSize width

def encodeSizeVINT (value : ℕ) : Option Bytes :=
  (sizeVINTWidth value).bind (encodeSizeVINTWidth value)

def vintWidth (first : UInt8) : Option ℕ :=
  (range' 1 8).find? fun width => first &&& widthBit width ≠ 0

/-- `DecodeSizeVINT`: the value, whether it is unknown, and the width. -/
def decodeSizeVINT : Bytes → Option (ℕ × Bool × ℕ)
  | [] => none
  | b :: rest => do
    let width ← vintWidth b
    if rest.length + 1 < width then none
    else
      let value := beNat ((b &&& ~~~widthBit width) :: rest.take (width - 1))
      some (value, value = 2 ^ (7 * width) - 1, width)

def voidLayout (total : ℕ) : Option (ℕ × ℕ) :=
  ((range' 1 8).find? fun width => 1 + width ≤ total ∧ total - 1 - width ≤ maxKnownSize width).map
    fun width => (width, total - 1 - width)

/-- What the writers share: the id, the size in its encoding, and zeros. -/
def writeVoid (encodeSize : ℕ → ℕ → Option Bytes) (total : ℕ) : Option Bytes :=
  if total = 0 then some []
  else if total < 2 then none
  else do
    let (width, payloadSize) ← voidLayout total
    let size ← encodeSize payloadSize width
    some (0xec :: size ++ replicate payloadSize 0)

def writeVoidTotal : ℕ → Option Bytes := writeVoid fun payloadSize _ => encodeSizeVINT payloadSize

def writeVoidTotalRaw : ℕ → Option Bytes := writeVoid encodeSizeVINTWidth

/-- The bytes are one Void element of this size. -/
def IsVoid (total : ℕ) (bytes : Bytes) : Prop :=
  bytes.length = total ∧ bytes.head? = some 0xec ∧
    ∃ value width, decodeSizeVINT bytes.tail = some (value, false, width) ∧ 1 + width + value = total

variable {total value width : ℕ}

lemma first_byte : ∀ width ∈ range' 1 8, ∀ b : UInt8, b.toNat < 2 ^ (8 - width) →
    vintWidth (b ||| widthBit width) = some width ∧ (b ||| widthBit width) &&& ~~~widthBit width = b := by
  intro width hwidth b
  revert width
  revert b
  exact forall_byte (by decide +kernel)

lemma pow_le_pow {v w : ℕ} (h : v ≤ w) : 2 ^ (7 * v) ≤ 2 ^ (7 * w) := by
  apply Nat.pow_le_pow_right (by decide)
  omega

lemma encodeSizeVINTWidth_eq (h1 : 1 ≤ width) (h8 : width ≤ 8) (hvalue : value ≤ maxKnownSize width) :
    ∃ size, encodeSizeVINTWidth value width = some size ∧ size.length = width ∧
      ∀ rest, decodeSizeVINT (size ++ rest) = some (value, false, width) := by
  have h2 := pow_le_pow h1
  have hlt : value < 2 ^ (7 * width) := by
    unfold maxKnownSize at hvalue
    omega
  have hlt' : value < 256 ^ width := by
    apply hlt.trans_le
    rw [show 256 = 2 ^ 8 by rfl, ← Nat.pow_mul]
    apply Nat.pow_le_pow_right (by decide)
    omega
  obtain ⟨b, rest, hbytes⟩ := exists_cons_of_length_pos (show 0 < (beBytes width value).length by simpa)
  have hlen : rest.length = width - 1 := by
    have := length_beBytes width value
    rw [hbytes, length_cons] at this
    omega
  have hnat : beNat (b :: rest) = value := hbytes ▸ beNat_beBytes_of_lt hlt'
  have hb : b.toNat < 2 ^ (8 - width) := by
    apply Nat.lt_of_mul_lt_mul_right (a := 256 ^ (width - 1))
    calc b.toNat * 256 ^ (width - 1) ≤ value := by
          rw [← hnat, beNat_cons, hlen]
          omega
      _ < 2 ^ (8 - width) * 256 ^ (width - 1) := by
          rwa [show 256 = 2 ^ 8 by rfl, ← Nat.pow_mul, ← Nat.pow_add,
            show 8 - width + 8 * (width - 1) = 7 * width by omega]
  obtain ⟨hwidth, hclear⟩ := first_byte width (by simp; omega) b hb
  refine ⟨(b ||| widthBit width) :: rest, ?_, by simp; omega, fun more => ?_⟩
  · rw [encodeSizeVINTWidth, if_neg (by omega), encodeVINT, hbytes, Nat.div_eq_of_lt hlt']
    rfl
  · have hshort : ¬ (rest ++ more).length + 1 < width := by
      rw [length_append]
      omega
    have hknown : value ≠ 2 ^ (7 * width) - 1 := by
      unfold maxKnownSize at hvalue
      omega
    simp only [cons_append, decodeSizeVINT, hwidth, hclear, take_left' hlen, hnat, Option.bind_eq_bind,
      Option.bind_some, if_neg hshort, decide_eq_false hknown]

lemma isVoid_iff {w : ℕ} {size : Bytes} (hlen : size.length = w)
    (hdecode : ∀ rest, decodeSizeVINT (size ++ rest) = some (value, false, w)) :
    IsVoid total (0xec :: size ++ replicate value 0) ↔ 1 + w + value = total := by
  constructor
  · rintro ⟨h, -⟩
    simp at h
    omega
  · intro h
    refine ⟨by simp; omega, rfl, value, w, hdecode _, h⟩

lemma voidLayout_eq_some (h : voidLayout total = some (width, value)) :
    1 ≤ width ∧ width ≤ 8 ∧ 1 + width + value = total ∧ value ≤ maxKnownSize width ∧
      ∀ v, 1 ≤ v → v < width → maxKnownSize v + v + 1 < total := by
  simp only [voidLayout, Option.map_eq_some_iff, find?_range'_eq_some] at h
  obtain ⟨w, ⟨hp, hmem, hmin⟩, rfl, rfl⟩ := h
  simp at hp hmem hmin
  refine ⟨by omega, by omega, by omega, by omega, fun v h1 hv => ?_⟩
  have := hmin v h1 hv
  omega

lemma lt_of_voidLayout_eq_none (htotal : 2 ≤ total) (h : voidLayout total = none) : 2 ^ 56 + 7 < total := by
  simp only [voidLayout, Option.map_eq_none_iff, find?_range'_eq_none] at h
  have h1 := h 1 (by decide) (by decide)
  have h8 := h 8 (by decide) (by decide)
  simp [maxKnownSize] at h1 h8
  omega

lemma exists_sizeVINTWidth (h1 : 1 ≤ width) (h8 : width ≤ 8) (hvalue : value ≤ maxKnownSize width) :
    ∃ v, sizeVINTWidth value = some v ∧ 1 ≤ v ∧ v ≤ width ∧ value ≤ maxKnownSize v ∧
      ∀ u, 1 ≤ u → u < v → maxKnownSize u < value := by
  rcases h : sizeVINTWidth value with _ | v
  · have := find?_range'_eq_none.mp h width h1 (by omega)
    simp at this
    omega
  · obtain ⟨hv, hmem, hmin⟩ := find?_range'_eq_some.mp h
    simp at hv hmem hmin
    refine ⟨v, rfl, by omega, ?_, hv, hmin⟩
    by_contra hlt
    have := hmin width h1 (by omega)
    omega

/-- **The totals that the writers keep**: all, or those that are not the first of a width. -/
theorem void_total_iff (htotal : 2 ≤ total) :
    ((∃ bytes, writeVoidTotalRaw total = some bytes ∧ IsVoid total bytes) ↔ total ≤ 2 ^ 56 + 7) ∧
    ((∃ bytes, writeVoidTotal total = some bytes ∧ IsVoid total bytes) ↔
      total ≤ 2 ^ 56 + 7 ∧ ∀ u ∈ range' 1 7, total ≠ 2 ^ (7 * u) + u) := by
  have h0 : total ≠ 0 := by omega
  have h2 : ¬ total < 2 := by omega
  rcases hlayout : voidLayout total with _ | ⟨w, value⟩
  · have := lt_of_voidLayout_eq_none htotal hlayout
    simp [writeVoidTotalRaw, writeVoidTotal, writeVoid, h0, h2, hlayout]
    omega
  obtain ⟨h1, h8, hsum, hvalue, hmin⟩ := voidLayout_eq_some hlayout
  have hle : total ≤ 2 ^ 56 + 7 := by
    have := pow_le_pow h8
    unfold maxKnownSize at hvalue
    omega
  obtain ⟨size, hsize, hlen, hdecode⟩ := encodeSizeVINTWidth_eq h1 h8 hvalue
  obtain ⟨v, hv, hv1, hvw, hvalue', hmin'⟩ := exists_sizeVINTWidth h1 h8 hvalue
  obtain ⟨size', hsize', hlen', hdecode'⟩ := encodeSizeVINTWidth_eq hv1 (hvw.trans h8) hvalue'
  simp only [writeVoidTotalRaw, writeVoidTotal, writeVoid, encodeSizeVINT, h0, h2, hlayout, hsize, hv, hsize',
    if_false, Option.bind_eq_bind, Option.bind_some, Option.some.injEq, exists_eq_left',
    isVoid_iff hlen hdecode, isVoid_iff hlen' hdecode', hsum, hle, true_and]
  unfold maxKnownSize at *
  constructor
  · intro hkept u hu heq
    obtain ⟨hu1, hu7⟩ := mem_range'_1.mp hu
    have := pow_le_pow hu1
    -- the width is the one behind `u`, and the payload would fit in `u` bytes
    rcases Nat.lt_trichotomy w (u + 1) with hlt | rfl | hgt
    · have := pow_le_pow (show w ≤ u by omega)
      omega
    · have := hmin' u hu1 (by omega)
      omega
    · have := hmin (u + 1) (by omega) hgt
      have := pow_le_pow (Nat.le_add_right u 1)
      omega
  · intro hne
    by_contra hkept
    have hw := hmin (w - 1) (by omega) (by omega)
    have := pow_le_pow (show v ≤ w - 1 by omega)
    have := pow_le_pow hv1
    apply hne (w - 1) (mem_range'_1.mpr (by omega))
    omega

theorem void_total_iff_boundary : (∃ bytes, writeVoidTotalRaw 129 = some bytes ∧ IsVoid 129 bytes) ∧
    ∃ bytes, writeVoidTotal 130 = some bytes ∧ IsVoid 130 bytes :=
  ⟨(void_total_iff (by decide)).1.mpr (by decide), (void_total_iff (by decide)).2.mpr (by decide)⟩

/-- Of a total of 129 bytes, 128 are written. -/
theorem void_total_short : ¬ ∀ total, 2 ≤ total → total < 2 ^ 63 →
    (∃ bytes, writeVoidTotal total = some bytes ∧ IsVoid total bytes) ∧
      ∃ bytes, writeVoidTotalRaw total = some bytes ∧ IsVoid total bytes := by
  intro h
  obtain ⟨bytes, hwrite, hlen, -⟩ := (h 129 (by decide) (by decide)).1
  have : (writeVoidTotal 129).map length = some 128 := by decide +kernel
  simp [hwrite, hlen] at this

lemma cleared_byte : ∀ width ∈ range' 1 8, ∀ b : UInt8, vintWidth b = some width →
    (b &&& ~~~widthBit width).toNat < 2 ^ (8 - width) ∧
      (b &&& ~~~widthBit width) ||| widthBit width = b := by
  intro width hwidth b
  revert width
  revert b
  exact forall_byte (by decide +kernel)

lemma encodeVINT_of_byte {b : UInt8} {rest : Bytes} (h1 : 1 ≤ width) (h8 : width ≤ 8)
    (hb : b.toNat < 2 ^ (8 - width)) (hlen : rest.length = width - 1) : beNat (b :: rest) < 2 ^ (7 * width) ∧
      encodeVINT (beNat (b :: rest)) width = some ((b ||| widthBit width) :: rest) := by
  have hlength : (b :: rest).length = width := by
    rw [length_cons]
    omega
  have hlt := beNat_lt (b :: rest)
  have hbytes := beBytes_beNat (b :: rest)
  rw [hlength] at hlt hbytes
  constructor
  · calc beNat (b :: rest) < (b.toNat + 1) * 256 ^ (width - 1) := by
          have := beNat_lt rest
          rw [beNat_cons, hlen] at *
          rw [Nat.add_mul]
          omega
      _ ≤ 2 ^ (8 - width) * 256 ^ (width - 1) := Nat.mul_le_mul_right _ hb
      _ = 2 ^ (7 * width) := by
          rw [show 256 = 2 ^ 8 by rfl, ← Nat.pow_mul, ← Nat.pow_add]
          congr 1
          omega
  · rw [encodeVINT, hbytes, Nat.div_eq_of_lt hlt]
    rfl

/-- **A known size is read just where its encoding stands.** -/
theorem decodeSizeVINT_iff (data : Bytes) (value width : ℕ) : decodeSizeVINT data = some (value, false, width) ↔
    ∃ size rest, encodeSizeVINTWidth value width = some size ∧ data = size ++ rest := by
  constructor
  · intro h
    cases data with
    | nil => cases h
    | cons b rest =>
      obtain ⟨w, hw, h⟩ := Option.bind_eq_some_iff.mp h
      split at h
      · cases h
      simp only [Option.some.injEq, Prod.mk.injEq, decide_eq_false_iff_not] at h
      obtain ⟨rfl, hknown, rfl⟩ := h
      have hmem := mem_of_find?_eq_some hw
      obtain ⟨h1, h8⟩ := mem_range'_1.mp hmem
      obtain ⟨hbyte, hor⟩ := cleared_byte w hmem b hw
      have hlen : (rest.take (w - 1)).length = w - 1 := by
        rw [length_take]
        omega
      obtain ⟨hlt, hencode⟩ := encodeVINT_of_byte h1 (by omega) hbyte hlen
      refine ⟨b :: rest.take (w - 1), rest.drop (w - 1), ?_, ?_⟩
      · rw [encodeSizeVINTWidth, if_neg, hencode, hor]
        simp only [maxKnownSize]
        omega
      · rw [cons_append, take_append_drop]
  · rintro ⟨size, rest, hencode, rfl⟩
    have hbounds : ¬ (width < 1 ∨ 8 < width ∨ maxKnownSize width < value) := by
      intro h
      rw [encodeSizeVINTWidth, if_pos h] at hencode
      cases hencode
    obtain ⟨size', hsize', -, hdecode⟩ :=
      @encodeSizeVINTWidth_eq value width (by omega) (by omega) (by omega)
    obtain rfl := Option.some.inj (hencode.symm.trans hsize')
    exact hdecode rest

end Goav.Matroska
