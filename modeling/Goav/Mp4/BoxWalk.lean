import Goav.Lib.Except
import Goav.Mp4.BoxDefs
import Goav.Mp4.Tables

/-!
Where the boxes of a walk lie. A header that `readBoxHeader` accepts lies inside its limit exactly if the
sum of 64 bits that it compares does not overflow.
-/

namespace Goav.Mp4

open Goav.Av Goav.Lib List

variable {file : Bytes} {off start limit : ℤ} {h p : BoxHeader}

/-- A header at `off` whose box ends in the limit. -/
structure BoxHeader.Fits (h : BoxHeader) (off limit : ℤ) : Prop where
  offset : h.offset = off
  nonneg : 0 ≤ off
  header : h.size - h.payloadSize = 8 ∨ h.size - h.payloadSize = 16
  size : h.size - h.payloadSize ≤ h.size
  within : off + h.size ≤ limit
  payload : h.payloadOffset + h.payloadSize = off + h.size

structure BoxHeader.Checked (h : BoxHeader) (off limit : ℤ) (headerSize : ℤ) : Prop where
  header : headerSize = 8 ∨ headerSize = 16
  offset : h.offset = off
  nonneg : 0 ≤ off
  size : headerSize ≤ h.size
  within : int64 (off + h.size) ≤ limit
  payloadOffset : h.payloadOffset = int64 (off + headerSize)
  payloadSize : h.payloadSize = h.size - headerSize

lemma boxHeader_checked {type : Bytes} {size headerSize : ℤ} (hoff : 0 ≤ off)
    (hheader : headerSize = 8 ∨ headerSize = 16)
    (hok : boxHeader off limit type size headerSize = .ok h) : h.Checked off limit headerSize := by
  unfold boxHeader at hok
  split at hok
  · cases hok
  · next hsize =>
    cases hok
    rw [not_or, not_lt, not_lt] at hsize
    exact ⟨hheader, rfl, hoff, hsize.1, hsize.2, rfl, rfl⟩

lemma readBoxHeader_checked (hok : readBoxHeader file off limit = .ok h) :
    ∃ headerSize, h.Checked off limit headerSize := by
  unfold readBoxHeader at hok
  split at hok
  · cases hok
  · next hoff =>
    have hnonneg : 0 ≤ off := not_lt.mp (not_or.mp hoff).1
    obtain ⟨buf, -, hok⟩ := bind_eq_ok.mp hok
    dsimp only at hok
    split at hok
    · split at hok
      · cases hok
      · obtain ⟨large, -, hok⟩ := bind_eq_ok.mp hok
        exact ⟨16, boxHeader_checked hnonneg (.inr rfl) hok⟩
    · split at hok
      · exact ⟨8, boxHeader_checked hnonneg (.inl rfl) hok⟩
      · exact ⟨8, boxHeader_checked hnonneg (.inl rfl) hok⟩

lemma fits_iff (hlimit : limit < 2 ^ 63) (hok : readBoxHeader file off limit = .ok h) :
    h.Fits off limit ↔ off + h.size < 2 ^ 63 := by
  obtain ⟨headerSize, hc⟩ := readBoxHeader_checked hok
  have hheader := hc.header
  have hsize := hc.size
  have hnonneg := hc.nonneg
  have hpayload := hc.payloadSize
  constructor
  · intro hfits
    have := hfits.within
    omega
  · intro hend
    have hwithin := hc.within
    have hoffset := hc.payloadOffset
    rw [int64_eq (by omega) hend] at hwithin
    rw [int64_eq (by omega) (by omega)] at hoffset
    exact ⟨hc.offset, hnonneg, by omega, by omega, hwithin, by omega⟩

/-! ### Walks -/

def visitedFrom (file : Bytes) (limit : ℤ) : ℕ → ℤ → List BoxHeader
  | 0, _ => []
  | fuel + 1, off =>
    if limit < int64 (off + 8) then []
    else
      match readBoxHeader file off limit with
      | .error _ => []
      | .ok h => h :: visitedFrom file limit fuel h.boxEnd

def visited (file : Bytes) (start limit : ℤ) : List BoxHeader := visitedFrom file limit file.length start

/-- A walk hands over the boxes it visits, and ends with an error or what it was handed back last. -/
theorem walkBoxes_eq_foldlM (file : Bytes) (start limit : ℤ) : ∃ ending : Except BoxErr Unit,
    ∀ {σ : Type} (visit : σ → BoxHeader → Except BoxErr σ) (s : σ), walkBoxes file start limit visit s =
        (visited file start limit).foldlM visit s >>= fun s => ending.map fun _ => s := by
  unfold walkBoxes visited
  generalize file.length = fuel
  induction fuel generalizing start with
  | zero => exact ⟨.ok (), fun visit s => rfl⟩
  | succ fuel ih =>
    by_cases hroom : limit < int64 (start + 8)
    · exact ⟨.ok (), fun visit s => by simp only [walkFrom, visitedFrom, if_pos hroom]; rfl⟩
    · cases hread : readBoxHeader file start limit with
      | error err =>
        refine ⟨if err = .eof then .ok () else .error err, fun visit s => ?_⟩
        cases err <;> simp only [walkFrom, visitedFrom, if_neg hroom, hread] <;> rfl
      | ok h =>
        obtain ⟨ending, hend⟩ := ih h.boxEnd
        refine ⟨ending, fun visit s => ?_⟩
        simp only [walkFrom, visitedFrom, if_neg hroom, hread, foldlM_cons, bind_assoc]
        exact congrArg (visit s h >>= ·) (funext fun s => hend visit s)

/-- A box that is read in a walk, or in a walk over the payload of such a box, and so on. -/
inductive Nested (file : Bytes) (start limit : ℤ) : BoxHeader → Prop where
  | here {h : BoxHeader} : h ∈ visited file start limit → Nested file start limit h
  | inside {p h : BoxHeader} : Nested file start limit p →
      h ∈ visited file p.payloadOffset p.boxEnd → Nested file start limit h

lemma mem_visitedFrom {fuel : ℕ} (hmem : h ∈ visitedFrom file limit fuel start) :
    ∃ off headerSize, h.Checked off limit headerSize := by
  induction fuel generalizing start with
  | zero => cases hmem
  | succ fuel ih =>
    unfold visitedFrom at hmem
    split at hmem
    · cases hmem
    · split at hmem
      · cases hmem
      · next hread =>
        obtain rfl | hmem := mem_cons.mp hmem
        · exact ⟨start, readBoxHeader_checked hread⟩
        · exact ih hmem

lemma Nested.end_nonneg (hp : Nested file start limit p) : 0 ≤ p.offset + p.size := by
  obtain ⟨limit', off, headerSize, hc⟩ : ∃ limit' off headerSize, p.Checked off limit' headerSize := by
    cases hp with
    | here hmem => exact ⟨_, mem_visitedFrom hmem⟩
    | inside _ hmem => exact ⟨_, mem_visitedFrom hmem⟩
  have := hc.offset
  have := hc.nonneg
  have := hc.header
  have := hc.size
  omega

/-- The boxes of a walk lie in its range one behind the other, and each takes its eight bytes. -/
structure WalkOk (start limit : ℤ) (hs : List BoxHeader) : Prop where
  within : ∀ h ∈ hs, start ≤ h.offset ∧ h.Fits h.offset limit
  disjoint : hs.Pairwise fun h h' => h.offset + h.size ≤ h'.offset
  count : 8 * (hs.length : ℤ) ≤ max 0 (limit - start)

lemma WalkOk.cons {hs : List BoxHeader} (hfits : h.Fits start limit)
    (hok : WalkOk (start + h.size) limit hs) : WalkOk start limit (h :: hs) := by
  have hoffset := hfits.offset
  have hheader := hfits.header
  have hsize := hfits.size
  have hlimit := hfits.within
  refine ⟨fun h' hmem => ?_, pairwise_cons.mpr ⟨fun h' hmem => ?_, hok.disjoint⟩, ?_⟩
  · obtain rfl | hmem := mem_cons.mp hmem
    · exact ⟨hoffset.ge, hoffset.symm ▸ hfits⟩
    · obtain ⟨hle, hfits'⟩ := hok.within h' hmem
      exact ⟨by omega, hfits'⟩
  · have := (hok.within h' hmem).1
    omega
  · have := hok.count
    rw [length_cons]
    omega

lemma visitedFrom_walkOk (hlimit : limit < 2 ^ 63) (fuel : ℕ)
    (hends : ∀ h ∈ visitedFrom file limit fuel start, h.offset + h.size < 2 ^ 63) :
    WalkOk start limit (visitedFrom file limit fuel start) := by
  have hnil : WalkOk start limit [] := ⟨by simp, .nil, by simp⟩
  induction fuel generalizing start with
  | zero => exact hnil
  | succ fuel ih =>
    unfold visitedFrom at hends ⊢
    split
    · exact hnil
    · next hroom =>
      rw [if_neg hroom] at hends
      cases hread : readBoxHeader file start limit with
      | error err => exact hnil
      | ok h =>
        rw [hread] at hends
        obtain ⟨headerSize, hc⟩ := readBoxHeader_checked hread
        have hend : start + h.size < 2 ^ 63 := hc.offset ▸ hends h mem_cons_self
        have hfits := (fits_iff hlimit hread).mpr hend
        have hnext : h.boxEnd = start + h.size := by
          have := hfits.nonneg
          have := hfits.header
          have := hfits.size
          rw [BoxHeader.boxEnd, hfits.offset, int64_eq (by omega) hend]
        refine WalkOk.cons hfits (hnext ▸ ih (fun h' hmem => ?_) ⟨by simp, .nil, by simp⟩)
        exact hends h' (mem_cons_of_mem _ hmem)

/-- **An accepted header lies inside its limit exactly if its end does not overflow; where none does, the
boxes of a walk lie in its range one behind the other, at any depth.** -/
theorem boxes_contained (file : Bytes) {limit : ℤ} (hlimit : limit < 2 ^ 63) :
    (∀ off h, readBoxHeader file off limit = .ok h → (h.Fits off limit ↔ off + h.size < 2 ^ 63)) ∧
    ∀ start, (∀ h, Nested file start limit h → h.offset + h.size < 2 ^ 63) →
      WalkOk start limit (visited file start limit) ∧
      ∀ p, Nested file start limit p →
        WalkOk p.payloadOffset (p.offset + p.size) (visited file p.payloadOffset p.boxEnd) := by
  refine ⟨fun off h => fits_iff hlimit, fun start hends => ?_⟩
  have hwalk (start' limit' : ℤ) (hlimit' : limit' < 2 ^ 63)
      (hin : ∀ h ∈ visited file start' limit', Nested file start limit h) :
      WalkOk start' limit' (visited file start' limit') :=
    visitedFrom_walkOk hlimit' _ fun h hmem => hends h (hin h hmem)
  refine ⟨hwalk _ _ hlimit fun h => .here, fun p hp => ?_⟩
  -- A box that does not overflow ends where it says, so that the walk of its payload ends there too.
  have hnonneg := hp.end_nonneg
  have hend : p.boxEnd = p.offset + p.size := int64_eq (by omega) (hends p hp)
  rw [← hend]
  exact hwalk _ _ (hend ▸ hends p hp) fun h => .inside hp

/-- A box of eight bytes, and one that says it is as long as a number of 64 bits can be. -/
def hugeFile : Bytes := box moofType [] ++ (beBytes 4 1 ++ mdatType ++ beBytes 8 (2 ^ 63 - 1))

/-- The second box is accepted although it ends beyond every limit. -/
theorem huge_box_accepted : ∃ h, readBoxHeader hugeFile 8 24 = .ok h ∧ h ∈ visited hugeFile 0 24 ∧
    h.size = 2 ^ 63 - 1 ∧ ¬ h.Fits 8 24 := by
  refine ⟨⟨mdatType, 8, 2 ^ 63 - 1, 24, 2 ^ 63 - 17⟩, by decide, by decide, rfl, fun hfits => ?_⟩
  exact absurd hfits.within (by decide)

theorem boxes_contained_nested :
    visited (box moofType (box mfhdType [])) 0 16 = [⟨moofType, 0, 16, 8, 8⟩] ∧
    visited (box moofType (box mfhdType [])) 8 16 = [⟨mfhdType, 8, 8, 16, 0⟩] ∧
    WalkOk 8 16 (visited (box moofType (box mfhdType [])) 8 16) := by
  have htop : visited (box moofType (box mfhdType [])) 0 16 = [⟨moofType, 0, 16, 8, 8⟩] := by decide
  have hin : visited (box moofType (box mfhdType [])) 8 16 = [⟨mfhdType, 8, 8, 16, 0⟩] := by decide
  have hempty : visited (box moofType (box mfhdType [])) 16 16 = [] := by decide
  have hall {h : BoxHeader} (hn : Nested (box moofType (box mfhdType [])) 0 16 h) :
      h = ⟨moofType, 0, 16, 8, 8⟩ ∨ h = ⟨mfhdType, 8, 8, 16, 0⟩ := by
    induction hn with
    | here hmem =>
      rw [htop] at hmem
      exact .inl (mem_singleton.mp hmem)
    | inside _ hmem ih =>
      obtain rfl | rfl := ih
      · exact .inr (mem_singleton.mp (hin ▸ hmem))
      · exact absurd (hempty ▸ hmem) (not_mem_nil)
  have hmoof : (⟨moofType, 0, 16, 8, 8⟩ : BoxHeader) ∈
      visited (box moofType (box mfhdType [])) 0 16 := by rw [htop]; exact mem_singleton_self _
  refine ⟨htop, hin, ((boxes_contained _ (by decide)).2 0 fun h hn => ?_).2 _ (.here hmoof)⟩
  obtain rfl | rfl := hall hn <;> decide

end Goav.Mp4
