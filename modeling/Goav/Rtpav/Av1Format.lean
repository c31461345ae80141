import Goav.Lib.History
import Goav.Rtpav.Av1Defs

/-!
The bitstream that the AV1 packetizer takes (`Bitstream`), and the payload format. The first piece of a
packet may complete an element (Z), the last one may leave one to be completed (Y). `Completes` says what
the pieces of one packet do to the bytes carried over, `Carries` what a list of packets does.
-/

namespace Goav.Rtpav

open Goav.Av Goav.Lib PacketizeResult List AV1Depacketizer

/-! ### Elements -/

namespace AV1Element

def bytes (e : AV1Element) : Bytes := e.headerBytes ++ e.payload

/-- The OBU in the low-overhead format: its size bit set, and its size as short as it can be. -/
def obu (e : AV1Element) : Bytes :=
  [e.header ||| 0x02] ++ e.extension.toList ++ appendLEB128 [] e.payload.length ++ e.payload

variable (e : AV1Element)

lemma headerBytes_length : e.headerBytes.length = e.hlen := by
  simp [headerBytes, hlen, Nat.add_comm]

lemma bytes_length : e.bytes.length = e.size := by
  simp [bytes, headerBytes_length, size]

lemma size_pos : 0 < e.size := by
  unfold size hlen
  omega

lemma bytes_ne_nil : e.bytes ≠ [] := by
  simp [bytes, headerBytes]

lemma bytes_length_le_obu : e.bytes.length ≤ e.obu.length := by
  simp only [bytes, headerBytes, obu, length_append, length_cons]
  omega

lemma parseOBUElement_bytes : parseOBUElement e.bytes = some (e.hlen, e.obuType, e.hlen) := by
  have hlen : (if e.header &&& 0x04 ≠ 0 then 2 else 1) = e.hlen := by
    have := e.extended
    unfold AV1Element.hlen
    cases hx : e.extension <;> rw [hx] at this <;> simp_all
  have hsize : ¬ e.bytes.length < e.hlen := by
    rw [bytes_length]
    unfold size
    omega
  have hcons : e.bytes = e.header :: (e.extension.toList ++ e.payload) := rfl
  rw [hcons] at hsize ⊢
  simp only [parseOBUElement, e.valid, e.sizeless, ne_eq]
  rw [show (if ¬ e.header &&& 0x04 = 0 then 2 else 1) = e.hlen from hlen, if_neg hsize]
  rfl

end AV1Element

/-! ### The bitstream -/

/-- **The low-overhead bitstream format**: OBUs that are sized, and at the end perhaps one that is not.
-/
inductive Bitstream : Bytes → List AV1Element → Prop
  | nil : Bitstream [] []
  | sized (e : AV1Element) {size rest : Bytes} {es : List AV1Element}
      (hsize : IsLEB128 e.payload.length size) (hrest : Bitstream rest es) :
      Bitstream ([e.header ||| 0x02] ++ e.extension.toList ++ size ++ e.payload ++ rest) (e :: es)
  | unsized (e : AV1Element) : Bitstream e.bytes [e]

lemma sized_header (b : UInt8) : (b &&& 0x02 = 0 → b &&& ~~~0x02 = b ∧ (b ||| 0x02) &&& ~~~0x02 = b) ∧
    (b &&& 0x02 ≠ 0 → b &&& ~~~0x02 ||| 0x02 = b) ∧ (b ||| 0x02) &&& 0x02 ≠ 0 ∧
    (b ||| 0x02) &&& 0x80 = b &&& 0x80 ∧ (b ||| 0x02) &&& 0x04 = b &&& 0x04 := by
  revert b
  exact forall_byte (by decide +kernel)

variable {e : AV1Element} {rest : Bytes}

lemma elementOf_eq_some_iff {b : UInt8} {extension : Option UInt8} {hb : b &&& 0x80 = 0}
    {hx : extension.isSome = (b &&& 0x04 != 0)} {body : Bytes} :
    elementOf b extension hb hx body = some (e, rest) ↔ e.extension = extension ∧
      (b = e.header ∧ body = e.payload ∧ rest = [] ∨ b = e.header ||| 0x02 ∧
        ∃ size, IsLEB128 e.payload.length size ∧ body = size ++ e.payload ++ rest) := by
  unfold elementOf
  dsimp only
  constructor
  · intro h
    split at h
    · rename_i hbit
      split at h
      · cases h
      rename_i value read hread
      obtain ⟨size, tail, rfl, rfl, hsize⟩ := readLEB128_eq_some_iff.mp hread
      split at h
      · cases h
      rename_i hle
      cases h
      rw [length_append, Nat.add_sub_cancel_left, Nat.not_lt] at hle
      refine ⟨rfl, .inr ⟨((sized_header b).2.1 hbit).symm, size, ?_, ?_⟩⟩
      · rwa [drop_left, length_take, Nat.min_eq_left hle]
      · rw [drop_left, append_assoc, take_append_drop]
    · rename_i hbit
      cases h
      exact ⟨rfl, .inl ⟨((sized_header b).1 (not_not.mp hbit)).1.symm, rfl, rfl⟩⟩
  · obtain ⟨header, ext, payload, hvalid, hsizeless, hextended⟩ := e
    have hclear := (sized_header header).1 hsizeless
    rintro ⟨rfl, ⟨rfl, rfl, rfl⟩ | ⟨rfl, size, hsize, rfl⟩⟩
    · simp [hsizeless, hclear.1]
    · have hread : readLEB128 (size ++ (payload ++ rest)) = some (payload.length, size.length) :=
        readLEB128_eq_some_iff.mpr ⟨size, _, rfl, rfl, hsize⟩
      simp [(sized_header header).2.2.1, hread, hclear.2]

lemma parseElement_append {b : UInt8} {extension : Option UInt8} (hb : b &&& 0x80 = 0)
    (hx : extension.isSome = (b &&& 0x04 != 0)) (body : Bytes) :
    parseElement (b :: (extension.toList ++ body)) = elementOf b extension hb hx body := by
  cases extension with
  | none =>
    have hx' : b &&& 0x04 = 0 := by simpa using hx
    simp [parseElement, hb, hx']
  | some ext =>
    have hx' : b &&& 0x04 ≠ 0 := by simpa using hx
    simp [parseElement, hb, hx']

variable {data : Bytes}

lemma parseElement_cases {parsed : AV1Element × Bytes} (h : parseElement data = some parsed) :
    ∃ b extension hb hx body, data = b :: (Option.toList extension ++ body) ∧
      elementOf b extension hb hx body = some parsed := by
  unfold parseElement at h
  split at h
  · cases h
  split at h
  swap
  · cases h
  split at h
  · exact ⟨_, none, _, _, _, rfl, h⟩
  split at h
  · cases h
  · exact ⟨_, some _, _, _, _, rfl, h⟩

/-- **What is parsed off**: an OBU that is sized, or the last one. -/
lemma parseElement_eq_some_iff :
    parseElement data = some (e, rest) ↔ data = e.bytes ∧ rest = [] ∨ ∃ size, IsLEB128 e.payload.length size ∧
        data = [e.header ||| 0x02] ++ e.extension.toList ++ size ++ e.payload ++ rest := by
  obtain ⟨-, -, -, hhigh, hext⟩ := sized_header e.header
  constructor
  · intro h
    obtain ⟨b, extension, hb, hx, body, rfl, helement⟩ := parseElement_cases h
    obtain ⟨rfl, ⟨rfl, rfl, rfl⟩ | ⟨rfl, size, hsize, rfl⟩⟩ := elementOf_eq_some_iff.mp helement
    · exact .inl ⟨rfl, rfl⟩
    · exact .inr ⟨size, hsize, by simp⟩
  · rintro (⟨rfl, rfl⟩ | ⟨size, hsize, rfl⟩)
    · exact (parseElement_append e.valid e.extended e.payload).trans
        (elementOf_eq_some_iff.mpr ⟨rfl, .inl ⟨rfl, rfl, rfl⟩⟩)
    · have heq := parseElement_append (hhigh.trans e.valid) (e.extended.trans (by rw [hext]))
        (size ++ e.payload ++ rest)
      simp only [append_assoc, singleton_append] at heq ⊢
      exact heq.trans (elementOf_eq_some_iff.mpr ⟨rfl, .inr ⟨rfl, size, hsize, by simp⟩⟩)

lemma bitstream_nil_iff {es : List AV1Element} : Bitstream [] es ↔ es = [] := by
  refine ⟨fun h => ?_, fun h => h ▸ .nil⟩
  generalize hdata : ([] : Bytes) = data at h
  cases h with
  | nil => rfl
  | sized e => simp at hdata
  | unsized e => exact absurd hdata.symm e.bytes_ne_nil

lemma bitstream_iff_parse {es : List AV1Element} (hne : data ≠ []) :
    Bitstream data es ↔ ∃ e rest es', es = e :: es' ∧ parseElement data = some (e, rest) ∧
      Bitstream rest es' := by
  constructor
  · intro h
    cases h with
    | nil => exact absurd rfl hne
    | sized e hsize hrest => exact ⟨e, _, _, rfl, parseElement_eq_some_iff.mpr (.inr ⟨_, hsize, rfl⟩), hrest⟩
    | unsized e => exact ⟨e, [], [], rfl, parseElement_eq_some_iff.mpr (.inl ⟨rfl, rfl⟩), .nil⟩
  · rintro ⟨e, rest, es', rfl, hparse, hrest⟩
    obtain ⟨rfl, rfl⟩ | ⟨size, hsize, rfl⟩ := parseElement_eq_some_iff.mp hparse
    · rw [bitstream_nil_iff.mp hrest]
      exact .unsized e
    · exact .sized e hsize hrest

lemma parseElement_length (h : parseElement data = some (e, rest)) : rest.length < data.length := by
  obtain ⟨rfl, rfl⟩ | ⟨size, -, rfl⟩ := parseElement_eq_some_iff.mp h
  · exact length_pos_iff.mpr e.bytes_ne_nil
  · simp only [length_append, length_singleton]
    omega

lemma eachElementLoop_iff_bitstream {fuel : ℕ} : ∀ {data : Bytes} {es : List AV1Element},
    data.length ≤ fuel → (eachElementLoop fuel data = (es, true) ↔ Bitstream data es) := by
  induction fuel with
  | zero =>
    intro data es h
    obtain rfl := length_eq_zero_iff.mp (Nat.le_zero.mp h)
    rw [bitstream_nil_iff]
    simp [eachElementLoop, eq_comm]
  | succ fuel ih =>
    intro data es h
    rw [eachElementLoop]
    by_cases hne : data = []
    · rw [hne, bitstream_nil_iff]
      simp [eq_comm]
    rw [if_neg (by simpa using hne), bitstream_iff_parse hne]
    cases hparse : parseElement data with
    | none => simp
    | some parsed =>
      obtain ⟨e, rest⟩ := parsed
      have hlength := parseElement_length hparse
      have hrest : ∀ es', eachElementLoop fuel rest = (es', true) ↔ Bitstream rest es' := fun _ =>
        ih (by omega)
      simp only [Option.some.injEq, Prod.mk.injEq]
      constructor
      · rintro ⟨rfl, hok⟩
        exact ⟨e, rest, _, rfl, ⟨rfl, rfl⟩, (hrest _).mp (Prod.ext rfl hok)⟩
      · rintro ⟨_, _, es', rfl, ⟨rfl, rfl⟩, hstream⟩
        rw [(hrest es').mpr hstream]
        exact ⟨rfl, rfl⟩

/-- **The packetizer's reading**: what `eachElement` goes through is the bitstream. -/
theorem eachElement_iff_bitstream {es : List AV1Element} :
    eachElement data = (es, true) ↔ Bitstream data es :=
  eachElementLoop_iff_bitstream le_rfl

/-! ### Pieces of a packet -/

def prefixed (c : Bytes) : Bytes := appendLEB128 [] c.length ++ c

def layout (counted : Bool) : List Bytes → Bytes
  | [] => []
  | [c] => if counted then c else prefixed c
  | c :: cs => prefixed c ++ layout counted cs

lemma layout_cons_cons (counted : Bool) (c c' : Bytes) (cs : List Bytes) :
    layout counted (c :: c' :: cs) = prefixed c ++ layout counted (c' :: cs) := rfl

lemma prefixed_length (c : Bytes) : (prefixed c).length = leb128Size c.length + c.length := by
  rw [prefixed, length_append, length_appendLEB128]

variable {cs : List Bytes} {carry : Bytes} {es : List AV1Element} {ps : List (Bool × List Bytes)}

lemma layout_ne_nil {counted : Bool} (hne : cs ≠ []) (hc : ∀ c ∈ cs, c ≠ []) :
    layout counted cs ≠ [] := by
  match cs with
  | [] => exact absurd rfl hne
  | [c] =>
    have := hc c (by simp)
    cases counted <;> simp [layout, prefixed, this]
  | c :: c' :: cs =>
    have := hc c (by simp)
    simp [layout_cons_cons, prefixed, this]

lemma nextElement_layout {counted : Bool} {w i : ℕ} {c : Bytes}
    (hw : w = if counted then i + (cs.length + 1) else 0) (hc : ∀ x ∈ cs, x ≠ [])
    (hlen : c.length ≤ maxInt64) :
    AV1Depacketizer.nextElement w i (layout counted (c :: cs)) =
      some (c.length, c ++ layout counted cs, cs.isEmpty) := by
  have hread : ∀ rest, readLEB128 (prefixed c ++ rest) = some (c.length, (appendLEB128 [] c.length).length) ∧
      (prefixed c ++ rest).drop (appendLEB128 [] c.length).length = c ++ rest := by
    intro rest
    unfold prefixed
    rw [append_assoc, readLEB128_append hlen]
    exact ⟨rfl, drop_left⟩
  unfold nextElement
  cases counted with
  | true =>
    cases cs with
    | nil =>
      rw [if_pos (by simp [hw])]
      simp [layout]
    | cons c' cs =>
      rw [layout_cons_cons]
      simp [hread, hw]
  | false =>
    cases cs with
    | nil =>
      have := hread []
      rw [append_nil] at this
      simp [layout, this, hw]
    | cons c' cs =>
      have hne : layout false (c' :: cs) ≠ [] := layout_ne_nil (by simp) hc
      rw [layout_cons_cons]
      simp [hread, hw, hne]

/-- The pieces of one packet complete the elements `done` and leave bytes to carry. -/
inductive Completes : Bytes → List Bytes → Bool → List AV1Element → Bytes → Prop
  | last {carry c : Bytes} {e : AV1Element} (whole : carry ++ c = e.bytes) :
      Completes carry [c] false [e] []
  | cut {carry c : Bytes} : Completes carry [c] true [] (carry ++ c)
  | cons {carry c : Bytes} {cs : List Bytes} {y : Bool} {e : AV1Element}
      {done : List AV1Element} {carry' : Bytes} (whole : carry ++ c = e.bytes)
      (rest : Completes [] cs y done carry') : Completes carry (c :: cs) y (e :: done) carry'

lemma Completes.ne_nil {carry' : Bytes} {y : Bool} {done : List AV1Element}
    (h : Completes carry cs y done carry') : cs ≠ [] := by
  cases h <;> simp

def AV1Element.Kept (e : AV1Element) : Prop :=
  e.obuType ≠ av1OBUTemporalDelimiter ∧ e.obuType ≠ av1OBUTileList

def obus (es : List AV1Element) : Bytes := es.flatMap AV1Element.obu

lemma obus_cons (e : AV1Element) (es : List AV1Element) : obus (e :: es) = e.obu ++ obus es := rfl

lemma obus_append (es es' : List AV1Element) : obus (es ++ es') = obus es ++ obus es' := by
  simp [obus]

/-! ### The depacketizer on a packet -/

namespace AV1Depacketizer

def filled (d : AV1Depacketizer) (b : Bytes) : AV1Depacketizer :=
  { d with assembler := { d.assembler with buffer := d.assembler.buffer ++ b } }

def carrying (d : AV1Depacketizer) (b : Bytes) : AV1Depacketizer := { d with fragment := b }

def Room (d : AV1Depacketizer) (n : ℕ) : Prop :=
  d.assembler.buffer.length + n ≤ d.assembler.bufferCap

variable {d : AV1Depacketizer} {c carry : Bytes}

lemma Room.filled {b : Bytes} {n : ℕ} (h : d.Room (b.length + n)) : (d.filled b).Room n := by
  unfold Room AV1Depacketizer.filled at *
  simp only [length_append]
  omega

lemma Room.mono {m n : ℕ} (h : d.Room n) (hm : m ≤ n) : d.Room m := by
  unfold Room at *
  omega

lemma appendFragment_eq (h : (d.fragment ++ c).length ≤ d.assembler.bufferCap) :
    d.appendFragment c = (d.carrying (d.fragment ++ c), none) := by
  rw [length_append] at h
  rw [appendFragment, if_neg (Nat.not_lt.mpr h)]
  rfl

lemma appendOBU_eq {e : AV1Element} (hk : e.Kept) (h : d.Room e.obu.length) :
    d.appendOBU e.bytes = (d.filled e.obu, none) := by
  have hbody : e.bytes.length - e.hlen = e.payload.length := by
    rw [e.bytes_length]
    exact Nat.add_sub_cancel_left _ _
  have hneeded : e.hlen + leb128Size e.payload.length + e.payload.length = e.obu.length := by
    simp only [AV1Element.obu, AV1Element.hlen, length_append, length_appendLEB128, length_cons, length_nil]
  unfold appendOBU
  rw [e.parseOBUElement_bytes]
  simp only [hbody, hneeded]
  rw [if_neg (not_or.mpr hk), if_neg (Nat.not_lt.mpr h)]
  cases hx : e.extension <;>
    simp [filled, AV1Element.obu, AV1Element.bytes, AV1Element.headerBytes, AV1Element.hlen, hx,
      appendLEB128]

/-- Room for what a packet completes and leaves. -/
structure Takes (d : AV1Depacketizer) (done : List AV1Element) (carry' : Bytes) : Prop where
  kept : ∀ e ∈ done, e.Kept
  room : d.Room (obus done).length
  carryFits : carry'.length ≤ d.assembler.bufferCap
  machine : d.assembler.bufferCap ≤ maxInt64

variable {z y counted : Bool}

lemma appendPayloadLoop_whole {e : AV1Element} (whole : carry ++ c = e.bytes) {i w : ℕ} (fuel : ℕ)
    (hc : c ≠ []) (hcs : ∀ x ∈ cs, x ≠ []) (hfrag : d.fragment = carry)
    (hz : i = 0 ∧ z = true ↔ carry ≠ []) (hw : w = if counted then i + (cs.length + 1) else 0)
    (hy : (cs.isEmpty && y) = false) (hk : e.Kept) (hroom : d.Room e.obu.length)
    (hcap : d.assembler.bufferCap ≤ maxInt64) :
    appendPayloadLoop z y w (fuel + 1) d (layout counted (c :: cs)) i =
      if cs.isEmpty then ((d.filled e.obu).carrying [], endOfElements w i)
      else appendPayloadLoop z y w fuel ((d.filled e.obu).carrying []) (layout counted cs) (i + 1) := by
  have hsize : (carry ++ c).length ≤ d.assembler.bufferCap := by
    rw [whole]
    have := e.bytes_length_le_obu
    unfold Room at hroom
    omega
  have hclen : c.length ≤ maxInt64 := by
    rw [length_append] at hsize
    omega
  have hrest : (layout counted (c :: cs)).isEmpty = false := by
    simpa using layout_ne_nil (by simp) (forall_mem_cons.mpr ⟨hc, hcs⟩)
  rw [appendPayloadLoop, if_neg (by simp [hrest]), nextElement_layout hw hcs hclen]
  simp only [take_left, drop_left, hy]
  by_cases hcarry : carry = []
  · have hplain : ¬ (i = 0 ∧ z = true) := by simp [hz, hcarry]
    subst hcarry
    obtain rfl : c = e.bytes := whole
    rw [if_neg hplain, if_neg (by simp), appendOBU_eq hk hroom]
    have hsame : (d.filled e.obu).carrying [] = d.filled e.obu := by
      simp [carrying, filled, hfrag]
    rw [hsame]
  · rw [if_pos (hz.mpr hcarry), if_neg (by simpa [hfrag] using hcarry),
      appendFragment_eq (by rw [hfrag]; exact hsize)]
    simp only [hfrag, whole]
    have hobu := appendOBU_eq (d := d.carrying e.bytes) hk hroom
    rw [show (d.carrying e.bytes).fragment = e.bytes from rfl, hobu]
    rfl

lemma appendPayloadLoop_cut {i w : ℕ} (fuel : ℕ) (hc : c ≠ []) (hfrag : d.fragment = carry)
    (hz : i = 0 ∧ z = true ↔ carry ≠ []) (hw : w = if counted then i + 1 else 0)
    (hfits : (carry ++ c).length ≤ d.assembler.bufferCap) (hcap : d.assembler.bufferCap ≤ maxInt64) :
    appendPayloadLoop z true w (fuel + 1) d (layout counted [c]) i = (d.carrying (carry ++ c), none) := by
  have hclen : c.length ≤ maxInt64 := by
    rw [length_append] at hfits
    omega
  have hrest : (layout counted [c]).isEmpty = false := by
    simpa using layout_ne_nil (by simp) (by simpa using hc)
  have happend := appendFragment_eq (by rw [hfrag]; exact hfits)
  rw [hfrag] at happend
  rw [appendPayloadLoop, if_neg (by simp [hrest]), nextElement_layout hw (by simp) hclen]
  simp only [take_left, isEmpty_nil, Bool.and_self, if_true, happend]
  by_cases hcarry : carry = []
  · rw [if_neg (by simp [hz, hcarry])]
  · rw [if_pos (hz.mpr hcarry), if_neg (by simpa [hfrag] using hcarry)]

lemma appendPayloadLoop_completes {carry' : Bytes} {done : List AV1Element}
    (h : Completes carry cs y done carry') :
    ∀ {d : AV1Depacketizer} {z counted : Bool} {fuel i w : ℕ}, (∀ c ∈ cs, c ≠ []) →
      d.fragment = carry → (i = 0 ∧ z = true ↔ carry ≠ []) → cs.length ≤ fuel →
      (w = if counted then i + cs.length else 0) → d.Takes done carry' →
      appendPayloadLoop z y w fuel d (layout counted cs) i =
        ((d.filled (obus done)).carrying carry', none) := by
  induction h with
  | @last carry c e whole =>
    intro d z counted fuel i w hne hfrag hz hfuel hw ht
    obtain ⟨fuel, rfl⟩ : ∃ n, fuel = n + 1 := ⟨fuel - 1, by simp at hfuel; omega⟩
    have hobus : obus [e] = e.obu := by simp [obus]
    have hend : endOfElements w i = none := by
      cases counted <;> simp [endOfElements, hw]
    have hroom := ht.room
    rw [hobus] at hroom
    rw [appendPayloadLoop_whole whole fuel (hne c (by simp)) (by simp) hfrag hz hw (by simp)
      (ht.kept e (by simp)) hroom ht.machine, hobus, hend]
    rfl
  | @cut carry c =>
    intro d z counted fuel i w hne hfrag hz hfuel hw ht
    obtain ⟨fuel, rfl⟩ : ∃ n, fuel = n + 1 := ⟨fuel - 1, by simp at hfuel; omega⟩
    rw [appendPayloadLoop_cut fuel (hne c (by simp)) hfrag hz hw ht.carryFits ht.machine]
    simp [obus, filled]
  | @cons carry c cs y e done carry' whole rest ih =>
    intro d z counted fuel i w hne hfrag hz hfuel hw ht
    obtain ⟨fuel, rfl⟩ : ∃ n, fuel = n + 1 := ⟨fuel - 1, by simp at hfuel; omega⟩
    have hroom := ht.room
    rw [obus_cons, length_append] at hroom
    have hcs : cs.isEmpty = false := by simpa using rest.ne_nil
    rw [appendPayloadLoop_whole whole fuel (hne c (by simp))
      (fun x hx => hne x (mem_cons_of_mem _ hx)) hfrag hz hw (by simp [hcs])
      (ht.kept e (by simp)) (hroom.mono (Nat.le_add_right _ _)) ht.machine, if_neg (by simp [hcs]),
      ih (fun x hx => hne x (mem_cons_of_mem _ hx)) rfl (by simp) (by simpa using hfuel) ?_ ?_,
      obus_cons]
    · simp [filled, carrying]
    · rw [hw, length_cons]
      split <;> omega
    · exact ⟨fun x hx => ht.kept x (mem_cons_of_mem _ hx), hroom.filled, ht.carryFits, ht.machine⟩

end AV1Depacketizer

/-! ### Packets -/

def aggregationHeader (z y n : Bool) (count : ℕ) : UInt8 :=
  let header : UInt8 := if z then av1ZMask else 0
  let header := if y then header ||| av1YMask else header
  let header := if count ≤ 3 then header ||| (UInt8.ofNat count <<< 4) else header
  if n then header ||| av1NMask else header

def countOf (count : ℕ) : ℕ := if count ≤ 3 then count else 0

lemma aggregationHeader_bits (z y n : Bool) {count : ℕ} (hc : 0 < count) :
    (aggregationHeader z y n count &&& av1ZMask != 0) = z ∧
      (aggregationHeader z y n count &&& av1YMask != 0) = y ∧
      (aggregationHeader z y n count &&& av1NMask != 0) = n ∧
      ((aggregationHeader z y n count &&& av1WMask) >>> 4).toNat = countOf count := by
  by_cases h : count ≤ 3
  · have : count = 1 ∨ count = 2 ∨ count = 3 := by omega
    rcases this with rfl | rfl | rfl <;> revert z y n <;> decide +kernel
  · have hcount : countOf count = 0 := if_neg h
    simp only [aggregationHeader, if_neg h, hcount]
    revert z y n
    decide +kernel

/-- What packets carry, from the bytes carried over to the elements completed. -/
inductive Carries : Bytes → List (Bool × List Bytes) → List AV1Element → Prop
  | nil : Carries [] [] []
  | cons {carry carry' : Bytes} {y : Bool} {cs : List Bytes} {ps : List (Bool × List Bytes)}
      {done es : List AV1Element} (taken : Completes carry cs y done carry')
      (pieces : ∀ c ∈ cs, c ≠ []) (cut : y = true ↔ carry' ≠ []) (rest : Carries carry' ps es) :
      Carries carry ((y, cs) :: ps) (done ++ es)

def payloadsFrom : Bool → Bool → List (Bool × List Bytes) → List Bytes
  | _, _, [] => []
  | z, n, (y, cs) :: ps =>
    (aggregationHeader z y n cs.length :: layout (cs.length ≤ 3) cs) :: payloadsFrom y false ps

lemma Completes.carry_le {carry' : Bytes} {y : Bool} {done : List AV1Element}
    (h : Completes carry cs y done carry') : carry.length ≤ (obus done).length + carry'.length := by
  have hle : ∀ {carry c : Bytes} {e : AV1Element}, carry ++ c = e.bytes →
      carry.length ≤ e.obu.length := by
    intro carry c e whole
    have := e.bytes_length_le_obu
    rw [← whole, length_append] at this
    omega
  cases h with
  | last whole =>
    have := hle whole
    simp [obus]
    omega
  | cut => simp [obus]
  | cons whole rest =>
    have := hle whole
    rw [obus_cons, length_append]
    omega

lemma Carries.carry_le (h : Carries carry ps es) : carry.length ≤ (obus es).length := by
  induction h with
  | nil => simp
  | cons taken pieces cut rest ih =>
    have := taken.carry_le
    rw [obus_append, length_append]
    omega

lemma length_le_layout (counted : Bool) (hc : ∀ c ∈ cs, c ≠ []) :
    cs.length ≤ (layout counted cs).length := by
  induction cs with
  | nil => simp
  | cons c cs ih =>
    have hpos : 0 < c.length := length_pos_iff.mpr (hc c (by simp))
    cases cs with
    | nil =>
      cases counted <;> simp [layout, prefixed] <;> omega
    | cons c' cs =>
      have := ih fun x hx => hc x (mem_cons_of_mem _ hx)
      rw [layout_cons_cons, length_append, prefixed, length_append, length_cons]
      omega

namespace AV1Depacketizer

def push (payload : PayloadCodec) (out : DepacketizeResult) (d : AV1Depacketizer) (pkt : Packet) :
    AV1Depacketizer × List Av.Packet :=
  let r := d.pushInto none pkt payload out
  (r.1, r.2.1.packets.drop out.packets.length)

def pushAll (d : AV1Depacketizer) (payload : PayloadCodec) (out : DepacketizeResult)
    (pkts : List Packet) : AV1Depacketizer × List Av.Packet :=
  Lib.run (push payload out) d pkts

variable {z y n : Bool} {d : AV1Depacketizer}

lemma pushInto_of_inFrame {pkt : Packet} (payload : PayloadCodec) (out : DepacketizeResult)
    (hne : cs ≠ []) (hcs : ∀ c ∈ cs, c ≠ [])
    (hpkt : pkt.payload = aggregationHeader z y n cs.length :: layout (cs.length ≤ 3) cs)
    (h : d.assembler.InFrame pkt.timestamp) (hfrag : n || !z → d.fragment = []) :
    d.pushInto none pkt payload out = d.assemble pkt z y (countOf cs.length) payload out := by
  have hpos : 0 < cs.length := length_pos_iff.mpr hne
  obtain ⟨hz, hy, hn, hw⟩ := aggregationHeader_bits z y n hpos
  have hlen := length_le_layout (cs.length ≤ 3) hcs
  have hlong : ¬ pkt.payload.length ≤ 1 := by
    rw [hpkt, length_cons]
    omega
  have hd : (if n || !z then { d with fragment := [] } else d) = d := by
    split_ifs with hnz
    · rw [← hfrag hnz]
    · rfl
  simp only [pushInto, if_neg hlong]
  simp only [hpkt, headD_cons, hz, hy, hn, hw, hd, h.live, h.started, h.timestamp]
  simp

lemma pushInto_of_idle {pkt : Packet} (payload : PayloadCodec) (out : DepacketizeResult)
    (hne : cs ≠ []) (hcs : ∀ c ∈ cs, c ≠ [])
    (hpkt : pkt.payload = aggregationHeader false y n cs.length :: layout (cs.length ≤ 3) cs)
    (hlive : d.assembler.dropping = false) (hidle : d.assembler.started = false) :
    d.pushInto none pkt payload out =
      ({ (d.carrying []).begin pkt.timestamp with keyframe := n }).pushInto none pkt payload out := by
  have hpos : 0 < cs.length := length_pos_iff.mpr hne
  obtain ⟨hz, hy, hn, hw⟩ := aggregationHeader_bits false y n hpos
  have hlen := length_le_layout (cs.length ≤ 3) hcs
  have hlong : ¬ pkt.payload.length ≤ 1 := by
    rw [hpkt, length_cons]
    omega
  simp only [pushInto, if_neg hlong]
  simp only [hpkt, headD_cons, hz, hn]
  simp [hlive, hidle, carrying, begin]

lemma appendPayload_completes {carry' : Bytes} (n : Bool) {done : List AV1Element}
    (h : Completes carry cs y done carry') (hcs : ∀ c ∈ cs, c ≠ []) (hfrag : d.fragment = carry)
    (hz : z = true ↔ carry ≠ []) (ht : d.Takes done carry') :
    d.appendPayload (aggregationHeader z y n cs.length :: layout (cs.length ≤ 3) cs) z y
      (countOf cs.length) = ((d.filled (obus done)).carrying carry', none) := by
  have hlen := length_le_layout (cs.length ≤ 3) hcs
  refine appendPayloadLoop_completes h hcs hfrag (by simpa using hz) ?_ ?_ ht
  · rw [length_cons]
    omega
  · simp [countOf]

end AV1Depacketizer

/-- **Assembling.** A depacketizer in a temporal unit emits at the marker what it had and the elements.
-/
lemma Carries.assembled (h : Carries carry ps es) (payload : PayloadCodec) {out : DepacketizeResult}
    (hroom : out.packets.length < out.packetsCap) (payloadType : UInt8) (ts : UInt32) :
    ∀ {d : AV1Depacketizer} {z n : Bool}, ps ≠ [] → d.assembler.InFrame ts → d.fragment = carry →
      (z = true ↔ carry ≠ []) → (n = true → carry = []) → (∀ e ∈ es, e.Kept) →
      d.Room (obus es).length → d.assembler.bufferCap ≤ maxInt64 →
      d.assembler.buffer ++ obus es ≠ [] →
      ∃ q : Av.Packet, (d.pushAll payload out
          (markLast ((payloadsFrom z n ps).map (packetOf payloadType ts)))).2 = [q] ∧
        q.payload = d.assembler.buffer ++ obus es ∧ q.keyframe = d.keyframe := by
  induction h with
  | nil => exact fun h => absurd rfl h
  | @cons carry carry' y cs ps done es taken pieces cut rest ih =>
    intro d z n _ hin hfrag hz hn hk hspace hcap hne
    rw [obus_append, length_append] at hspace
    have hcarry := rest.carry_le
    have htakes : d.Takes done carry' :=
      ⟨fun e he => hk e (mem_append_left _ he), hspace.mono (Nat.le_add_right _ _), by
        unfold AV1Depacketizer.Room at hspace
        omega, hcap⟩
    have happ := appendPayload_completes n taken pieces hfrag hz htakes
    have hclear : (n || !z) = true → d.fragment = [] := by
      rw [hfrag, Bool.or_eq_true]
      rintro (hn' | hz')
      · exact hn hn'
      · by_contra hc
        simp [hz.mpr hc] at hz'
    have hpush : ∀ pkt : Packet, pkt.timestamp = ts →
        pkt.payload = aggregationHeader z y n cs.length :: layout (cs.length ≤ 3) cs →
        d.pushInto none pkt payload out = d.assemble pkt z y (countOf cs.length) payload out := by
      rintro pkt rfl hpkt
      exact pushInto_of_inFrame payload out taken.ne_nil pieces hpkt hin hclear
    rw [pushAll, payloadsFrom]
    cases ps with
    | nil =>
      -- the marked packet completes the unit
      cases rest
      obtain rfl : y = false := by simpa using cut
      rw [obus_append, show obus [] = [] from rfl, append_nil] at hne ⊢
      rw [payloadsFrom, map_singleton, markLast, run_cons, push,
        hpush { packetOf payloadType ts _ with marker := true } rfl rfl, assemble]
      simp only [packetOf, happ]
      simp [carrying, filled, VideoFrameAssembler.emitPacket, Nat.ne_of_lt hroom, hne]
    | cons p ps =>
      have hstep : push payload out d
          (packetOf payloadType ts (aggregationHeader z y n cs.length :: layout (cs.length ≤ 3) cs)) =
          ((d.filled (obus done)).carrying carry', []) := by
        rw [push, hpush _ rfl rfl, assemble]
        simp [packetOf, happ]
      have htail := ih (d := (d.filled (obus done)).carrying carry') (z := y) (n := false) (by simp)
        ⟨hin.started, hin.live, hin.timestamp⟩ rfl cut (by simp)
            (fun e he => hk e (mem_append_right _ he)) hspace.filled hcap
        (by simpa [carrying, filled, obus_append] using hne)
      rw [payloadsFrom, map_cons, markLast, run_cons, hstep, obus_append]
      · obtain ⟨q, hq, hpay, hkey⟩ := htail
        refine ⟨q, hq, hpay.trans ?_, hkey⟩
        simp [carrying, filled]
      · simp

lemma payloadsFrom_ne_nil (z n : Bool) (h : ps ≠ []) : payloadsFrom z n ps ≠ [] := by
  obtain ⟨⟨y, cs⟩, ps, rfl⟩ := exists_cons_of_ne_nil h
  simp [payloadsFrom]

lemma obus_ne_nil (h : es ≠ []) : obus es ≠ [] := by
  obtain ⟨e, es, rfl⟩ := exists_cons_of_ne_nil h
  simp [obus_cons, AV1Element.obu]

lemma Carries.emitted (h : Carries [] ps es) (payload : PayloadCodec) {out : DepacketizeResult}
    (hroom : out.packets.length < out.packetsCap) (payloadType : UInt8) (ts : UInt32)
    {d : AV1Depacketizer} (hps : ps ≠ []) (hes : es ≠ []) (hlive : d.assembler.dropping = false)
    (hidle : d.assembler.started = false) (hk : ∀ e ∈ es, e.Kept)
    (hfit : (obus es).length ≤ d.assembler.bufferCap) (hcap : d.assembler.bufferCap ≤ maxInt64)
    (n : Bool) :
    ∃ q : Av.Packet, (d.pushAll payload out
        (markLast ((payloadsFrom false n ps).map (packetOf payloadType ts)))).2 = [q] ∧
      q.payload = obus es ∧ q.keyframe = n := by
  -- the first packet begins the temporal unit
  obtain ⟨⟨y, cs⟩, ps, rfl⟩ := exists_cons_of_ne_nil hps
  obtain ⟨m, qs, hqs⟩ := markLast_cons (packetOf payloadType ts
    (aggregationHeader false y n cs.length :: layout (cs.length ≤ 3) cs))
    ((payloadsFrom y false ps).map (packetOf payloadType ts))
  have hbegin : d.pushAll payload out
      (markLast ((payloadsFrom false n ((y, cs) :: ps)).map (packetOf payloadType ts))) =
      ({ (d.carrying []).begin ts with keyframe := n } : AV1Depacketizer).pushAll payload out
        (markLast ((payloadsFrom false n ((y, cs) :: ps)).map (packetOf payloadType ts))) := by
    have hfirst : (∀ c ∈ cs, c ≠ []) ∧ cs ≠ [] := by
      cases h with
      | cons taken pieces cut rest => exact ⟨pieces, taken.ne_nil⟩
    rw [payloadsFrom, map_cons, hqs, pushAll, run_cons, push,
      pushInto_of_idle payload out hfirst.2 hfirst.1 rfl hlive hidle]
    rfl
  have hin : ({ (d.carrying []).begin ts with keyframe := n } :
      AV1Depacketizer).assembler.InFrame ts := ⟨rfl, hlive, rfl⟩
  obtain ⟨q, hq, hpay, hkey⟩ := h.assembled payload hroom payloadType ts (z := false) (n := n) hps
    hin rfl (by simp) (fun _ => rfl) hk
    (by simpa [AV1Depacketizer.Room, begin, carrying] using hfit)
    hcap (obus_ne_nil hes)
  exact ⟨q, by rw [hbegin, hq], hpay, hkey⟩

end Goav.Rtpav
