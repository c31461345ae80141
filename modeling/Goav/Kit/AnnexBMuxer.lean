import Goav.Kit.Bitstream

/-!
The Annex B muxer (`adapters/annexb/annexb.go`) for one H.264 stream, with the avcC record that it is opened on
(`ParseConfig` of `internal/h264/h264.go`). The writer takes all bytes, and no context is done.
-/

namespace Goav.Kit

open Goav.Av Goav.Lib Goav.H264 List

structure Config where
  lengthSize : ℕ
  sps : List Bytes
  pps : List Bytes
  deriving DecidableEq

def readSized : Bytes → Option (Bytes × Bytes)
  | a :: b :: rest =>
    let size := beNat [a, b]
    if size = 0 ∨ rest.length < size then none else some (rest.take size, rest.drop size)
  | _ => none

def readSets : ℕ → Bytes → Option (List Bytes × Bytes)
  | 0, rest => some ([], rest)
  | n + 1, rest => do
    let (nal, rest) ← readSized rest
    let (nals, rest) ← readSets n rest
    some (nal :: nals, rest)

def parseConfig (record : Bytes) : Option Config :=
  let lengthSize := (record.getD 4 0 &&& 0x03).toNat + 1
  if record.length < 7 ∨ record.head? ≠ some 1 ∨ lengthSize = 3 then none
  else do
    let (sps, rest) ← readSets (record.getD 5 0 &&& 0x1f).toNat (record.drop 6)
    let count ← rest.head?
    let (pps, _) ← readSets count.toNat rest.tail
    some { lengthSize, sps, pps }

structure Muxer where
  streamID : StreamID
  paramSets : Bytes := []
  lengthSize : ℕ := 0
  written : Bytes := []

def openMuxer (streamID : StreamID) (extra : Bytes) : Muxer :=
  if hasStartCode extra then { streamID, paramSets := extra }
  else
    match parseConfig extra with
    | some config =>
      { streamID, paramSets := annexB config.sps ++ annexB config.pps, lengthSize := config.lengthSize }
    | none => { streamID }

/-- Packets of other streams are passed over. -/
def Muxer.write (m : Muxer) (packet : Packet) : Muxer × Option Err :=
  if m.streamID ≠ "" ∧ packet.streamID ≠ "" ∧ packet.streamID ≠ m.streamID then (m, none)
  else
    let (data, err) :=
      if 0 < m.lengthSize ∧ hasStartCode packet.payload = false then
        H264.appendAnnexB [] packet.payload m.lengthSize
      else (packet.payload, none)
    if err.isSome then (m, err)
    else
      let sets := if packet.keyframe ∧ m.paramSets ≠ [] ∧ containsNAL 7 data = false then m.paramSets else []
      ({ m with written := m.written ++ sets ++ data }, none)

def Muxer.writeAll (m : Muxer) (packets : List Packet) : Muxer := packets.foldl (fun m p => (m.write p).1) m

/-- A packet of the stream with these units. -/
structure CarriesUnits (streamID : StreamID) (packet : Packet) (units : List Bytes) : Prop where
  stream : packet.streamID = "" ∨ packet.streamID = streamID
  payload : packet.payload = avccSample units
  units : ∀ unit ∈ units, PlainUnit unit

/-- The units of a packet, behind the sets it lacks. -/
def unitsOf (sets : List Bytes) (packet : Packet) (units : List Bytes) : List Bytes :=
  (if packet.keyframe ∧ ∀ unit ∈ units, typeOf unit ≠ 7 then sets else []) ++ units

variable {id : StreamID} {sets units : List Bytes} {p : Packet} {packets : List (Packet × List Bytes)}

lemma annexB_append (a b : List Bytes) : annexB (a ++ b) = annexB a ++ annexB b := flatMap_append

lemma write_eq (h : CarriesUnits id p units)
    (hfirst : ∀ unit ∈ units.head?, ¬ LooksLikeStartCode unit.length) (written : Bytes) :
    (Muxer.write ⟨id, annexB sets, 4, written⟩ p).1 =
      ⟨id, annexB sets, 4, written ++ annexB (unitsOf sets p units)⟩ := by
  have hcode : hasStartCode (avccSample units) = false := by
    cases units with
    | nil => rfl
    | cons unit rest =>
      exact hasStartCode_length (h.units unit mem_cons_self).length_lt (hfirst unit rfl) _
  have hnals : ∀ nal ∈ units, NALUnit nal := fun nal hmem => (h.units nal hmem).toNALUnit
  have happend : H264.appendAnnexB [] (avccSample units) 4 = (annexB units, none) :=
    appendAnnexBLoop_avccSample hnals []
      (length_le_flatMap (fun nal => beBytes 4 nal.length ++ nal) (by simp) _)
  have hskip : ¬ (id ≠ "" ∧ p.streamID ≠ "" ∧ p.streamID ≠ id) := by
    have := h.stream
    tauto
  have hsps : containsNAL 7 (annexB units) = false ↔ ∀ unit ∈ units, typeOf unit ≠ 7 := by
    simp [containsNAL_annexB hnals]
  have hnone : annexB [] = [] := rfl
  simp [Muxer.write, hskip, h.payload, hcode, unitsOf, annexB_append]
  grind

lemma writeAll_eq {done : List Bytes} (h : ∀ x ∈ packets, CarriesUnits id x.1 x.2)
    (hfirst : ∀ x ∈ packets, ∀ unit ∈ x.2.head?, ¬ LooksLikeStartCode unit.length) :
    (Muxer.writeAll ⟨id, annexB sets, 4, annexB done⟩ (packets.map Prod.fst)).written =
      annexB (done ++ packets.flatMap fun x => unitsOf sets x.1 x.2) := by
  induction packets generalizing done with
  | nil => simp [Muxer.writeAll]
  | cons x rest ih =>
    simp only [forall_mem_cons] at h hfirst
    have := @ih (done ++ unitsOf sets x.1 x.2) h.2 hfirst.2
    simp only [Muxer.writeAll, map_cons, foldl_cons, write_eq h.1 hfirst.1, ← annexB_append] at this ⊢
    rw [this, flatMap_cons, append_assoc]

/-- **The muxer writes the units of the packets**, behind the record's parameter sets where a keyframe
has no SPS, unless the first length looks like a start code. -/
theorem muxer_writes_units {extra : Bytes} {config : Config} (hconfig : parseConfig extra = some config)
    (hsize : config.lengthSize = 4) (hsets : ∀ nal ∈ config.sps ++ config.pps, NALUnit nal)
    (h : ∀ x ∈ packets, CarriesUnits id x.1 x.2)
    (hfirst : ∀ x ∈ packets, ∀ unit ∈ x.2.head?, ¬ LooksLikeStartCode unit.length) :
    forEachNAL ((openMuxer id extra).writeAll (packets.map Prod.fst)).written =
      (packets.flatMap fun x => unitsOf (config.sps ++ config.pps) x.1 x.2,
        if (packets.flatMap fun x => unitsOf (config.sps ++ config.pps) x.1 x.2) = [] then some .invalid
        else none) := by
  have hextra : hasStartCode extra = false := by
    match extra with
    | [] => rfl
    | a :: rest =>
      have ha : a = 1 := by
        by_contra hne
        simp [parseConfig, hne] at hconfig
      simp [hasStartCode, startCode, ha, isPrefixOf]
  have hopen : openMuxer id extra = ⟨id, annexB (config.sps ++ config.pps), 4, annexB []⟩ := by
    simp [openMuxer, hextra, hconfig, hsize, annexB]
  rw [hopen, writeAll_eq h hfirst, nil_append]
  split
  · rename_i hnil
    rw [hnil]
    rfl
  · rename_i hne
    refine forEachNAL_annexB (fun nal hnal => ?_) hne
    obtain ⟨x, hx, hnal⟩ := mem_flatMap.mp hnal
    rcases mem_append.mp hnal with hnal | hnal
    · split at hnal
      · exact hsets nal hnal
      · simp at hnal
    · exact ((h x hx).units nal hnal).toNALUnit

def sampleRecord : Bytes := [1, 0x64, 0, 0x1f, 0xff, 0xe1, 0, 2, 0x67, 1, 1, 0, 1, 0x68]

def samplePacket (units : List Bytes) : Packet := { payload := avccSample units, keyframe := true }

lemma sampleRecord_sets : ∀ nal ∈ [[0x67, 1], [0x68]], NALUnit nal := by
  intro nal hnal
  exact ((by decide : ∀ unit ∈ [[0x67, 1], [0x68]], PlainUnit unit) nal hnal).toNALUnit

theorem muxer_writes_units_keyframe :
    forEachNAL ((openMuxer "v" sampleRecord).writeAll [samplePacket [[0x65, 7]]]).written =
      ([[0x67, 1], [0x68], [0x65, 7]], none) := by
  have hunits : ∀ unit ∈ [[0x65, 7]], PlainUnit unit := by decide
  exact @muxer_writes_units "v" [(samplePacket [[0x65, 7]], [[0x65, 7]])] sampleRecord
    ⟨4, [[0x67, 1]], [[0x68]]⟩ (by decide) rfl sampleRecord_sets
    (by simpa using ⟨.inl rfl, rfl, hunits⟩) (by simp [LooksLikeStartCode])

/-- A packet whose first unit has one byte is written with its lengths. -/
theorem muxer_keeps_lengths : ¬ ∀ (extra : Bytes) (config : Config), parseConfig extra = some config →
    config.lengthSize = 4 → (∀ nal ∈ config.sps ++ config.pps, NALUnit nal) →
    ∀ packets : List (Packet × List Bytes), (∀ x ∈ packets, CarriesUnits "v" x.1 x.2) →
      (forEachNAL ((openMuxer "v" extra).writeAll (packets.map Prod.fst)).written).1 =
        packets.flatMap fun x => unitsOf (config.sps ++ config.pps) x.1 x.2 := by
  intro h
  have hunits : ∀ unit ∈ [[9], [0x65, 7]], PlainUnit unit := by decide
  have := h sampleRecord ⟨4, [[0x67, 1]], [[0x68]]⟩ (by decide) rfl sampleRecord_sets
    [(samplePacket [[9], [0x65, 7]], [[9], [0x65, 7]])] (by simpa using ⟨.inl rfl, rfl, hunits⟩)
  exact absurd this (by decide)

end Goav.Kit
