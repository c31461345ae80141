import Goav.Rtpav.Types

/-!
What the packetizers of `rtpav/packetize.go` share. The payloads of a result lie in one arena until
`seal` cuts it; `Holds` is the list of packets that it will produce.
-/

namespace Goav.Rtpav

open Goav.Av List

def rtpHeaderSize : ℕ := 12
def minMTU : ℕ := rtpHeaderSize + 16

lemma minMTU_le : minMTU ≤ 16 + rtpHeaderSize := by decide

structure PacketizeResult where
  packets : List Packet := []
  arena : Bytes := []
  ends : List ℕ := []

namespace PacketizeResult

/-- Start the next packet; its payload is the bytes written until `close`. -/
def «open» (r : PacketizeResult) (payloadType : UInt8) (timestamp : UInt32) : PacketizeResult :=
  { r with packets := r.packets ++ [{ version := 2, payloadType, timestamp }] }

def write (r : PacketizeResult) (b : Bytes) : PacketizeResult := { r with arena := r.arena ++ b }

def close (r : PacketizeResult) : PacketizeResult := { r with ends := r.ends ++ [r.arena.length] }

def slices (arena : Bytes) : ℕ → List ℕ → List Bytes
  | _, [] => []
  | start, stop :: ends => (arena.take stop).drop start :: slices arena stop ends

def markLast : List Packet → List Packet
  | [] => []
  | [p] => [{ p with marker := true }]
  | p :: ps => p :: markLast ps

def «seal» (r : PacketizeResult) (marker : Bool) : PacketizeResult :=
  let packets := List.zipWith (fun p b => { p with payload := b }) r.packets
    (slices r.arena 0 r.ends)
  { r with packets := if marker then markLast packets else packets }

/-! ### The packets a result holds -/

def emit (r : PacketizeResult) (payloadType : UInt8) (timestamp : UInt32) (b : Bytes) :
    PacketizeResult :=
  ((r.open payloadType timestamp).write b).close

def packetOf (payloadType : UInt8) (timestamp : UInt32) (b : Bytes) : Packet :=
  { version := 2, payloadType, timestamp, payload := b }

def endsFrom : ℕ → List Bytes → List ℕ
  | _, [] => []
  | start, b :: bs => (start + b.length) :: endsFrom (start + b.length) bs

/-- The result, not sealed yet, holds packets with these payloads, of one type and time. -/
structure Holds (r : PacketizeResult) (payloadType : UInt8) (timestamp : UInt32)
    (payloads : List Bytes) : Prop where
  packets : r.packets = payloads.map fun _ => packetOf payloadType timestamp []
  arena : r.arena = payloads.flatten
  ends : r.ends = endsFrom 0 payloads

variable {r : PacketizeResult} {payloadType : UInt8} {timestamp : UInt32} {payloads : List Bytes}

lemma holds_empty : Holds {} payloadType timestamp [] := ⟨rfl, rfl, rfl⟩

lemma endsFrom_concat (bs : List Bytes) (b : Bytes) (start : ℕ) :
    endsFrom start (bs ++ [b]) = endsFrom start bs ++ [start + (bs ++ [b]).flatten.length] := by
  induction bs generalizing start with
  | nil => simp [endsFrom]
  | cons b' bs ih =>
    rw [cons_append, endsFrom, endsFrom, ih]
    simp
    omega

lemma slices_endsFrom (bs : List Bytes) (pre : Bytes) :
    slices (pre ++ bs.flatten) pre.length (endsFrom pre.length bs) = bs := by
  induction bs generalizing pre with
  | nil => rfl
  | cons b bs ih =>
    have h := ih (pre ++ b)
    rw [length_append, append_assoc] at h
    rw [endsFrom, slices, flatten_cons, h]
    simp [take_append]

lemma Holds.emit (h : Holds r payloadType timestamp payloads) (b : Bytes) :
    Holds (r.emit payloadType timestamp b) payloadType timestamp (payloads ++ [b]) := by
  refine ⟨?_, ?_, ?_⟩
  · simp [PacketizeResult.emit, PacketizeResult.open, write, close, h.packets, packetOf]
  · simp [PacketizeResult.emit, PacketizeResult.open, write, close, h.arena]
  · rw [endsFrom_concat]
    simp [PacketizeResult.emit, PacketizeResult.open, write, close, h.arena, h.ends]

lemma Holds.seal_packets (h : Holds r payloadType timestamp payloads) :
    (r.seal true).packets = markLast (payloads.map (packetOf payloadType timestamp)) := by
  have hs := slices_endsFrom payloads []
  simp only [nil_append, length_nil] at hs
  rw [PacketizeResult.seal, h.packets, h.arena, h.ends, hs, zipWith_map_left, zipWith_self]
  rfl

lemma markLast_cons (p : Packet) (ps : List Packet) :
    ∃ m qs, markLast (p :: ps) = { p with marker := m } :: qs := by
  cases ps with
  | nil => exact ⟨true, [], rfl⟩
  | cons q ps => exact ⟨p.marker, markLast (q :: ps), rfl⟩

lemma markLast_concat (ps : List Packet) (p : Packet) :
    markLast (ps ++ [p]) = ps ++ [{ p with marker := true }] := by
  induction ps with
  | nil => rfl
  | cons q ps ih =>
    cases ps with
    | nil => rfl
    | cons q' ps =>
      rw [cons_append, cons_append, markLast, ← cons_append, ih]
      · rfl
      · simp

end PacketizeResult

/-- The marker is on the last packet. -/
def OnlyLastMarked (pkts : List Packet) : Prop :=
  ∃ init last, pkts = init ++ [last] ∧ last.marker = true ∧ ∀ q ∈ init, q.marker = false

open PacketizeResult in
lemma onlyLastMarked_markLast (payloadType : UInt8) (ts : UInt32) {ps : List Bytes} (h : ps ≠ []) :
    OnlyLastMarked (markLast (ps.map (packetOf payloadType ts))) ∧
      ∀ q ∈ markLast (ps.map (packetOf payloadType ts)), q.payload ∈ ps := by
  obtain ⟨init, b, rfl⟩ : ∃ init b, ps = init ++ [b] :=
    ⟨_, _, (dropLast_concat_getLast h).symm⟩
  rw [map_append, map_singleton, markLast_concat]
  refine ⟨⟨_, _, rfl, rfl, by simp [packetOf]⟩, fun r hr => ?_⟩
  rcases mem_append.mp hr with hr | hr
  · obtain ⟨a, ha, rfl⟩ := mem_map.mp hr
    exact mem_append_left _ ha
  · rw [mem_singleton.mp hr]
    exact mem_append_right _ (mem_singleton.mpr rfl)

/-- The interface of the packetizers. The packets they make carry no header extensions. -/
class Packetizer (P : Type) where
  packetizeInto : P → Ctx → Av.Packet → PayloadCodec → PacketizeResult →
    P × PacketizeResult × Option Err
  plain : ∀ (p : P) (ctx : Ctx) (packet : Av.Packet) (payload : PayloadCodec),
    ∀ q ∈ (packetizeInto p ctx packet payload {}).2.1.packets, q.extensions = []

/-! ### Timestamps and fragments -/

def clockOr (clock fallback : UInt32) : UInt32 := if clock ≠ 0 then clock else fallback

def rtpTimestamp (packet : Av.Packet) (payload : PayloadCodec) (clock : UInt32) :
    Except Err UInt32 :=
  let ts := if packet.pts.base.valid then packet.pts else packet.dts
  let clock := if payload.clockRate ≠ 0 then payload.clockRate else clock
  match rescaleValue ts.value ts.base (rtpTimeBase clock) with
  | some value => .ok (UInt32.ofInt value)
  | none => .error .noTimestamp

/-- The size of the fragments that split `n` bytes evenly into the fewest of at most `limit`. -/
def evenChunk (n limit : ℕ) : ℕ :=
  if n ≤ limit then n
  else
    let count := (n + limit - 1) / limit
    (n + count - 1) / count

lemma evenChunk_le (n : ℕ) {limit : ℕ} (hl : 0 < limit) : evenChunk n limit ≤ limit := by
  unfold evenChunk
  split
  · assumption
  generalize hcount : (n + limit - 1) / limit = count
  have hdiv := Nat.div_add_mod (n + limit - 1) limit
  have hmod := Nat.mod_lt (n + limit - 1) hl
  rw [hcount] at hdiv
  have hpos : 0 < count := by
    rw [← hcount]
    exact Nat.div_pos (by omega) hl
  rw [← Nat.lt_succ_iff, Nat.div_lt_iff_lt_mul hpos, Nat.succ_mul]
  omega

lemma evenChunk_pos {n limit : ℕ} (hn : 0 < n) (hl : 0 < limit) : 0 < evenChunk n limit := by
  unfold evenChunk
  split
  · exact hn
  · have hpos : 0 < (n + limit - 1) / limit := Nat.div_pos (by omega) hl
    exact Nat.div_pos (by omega) hpos

/-- How `n` is cut by `chunk`. -/
def pieces (n chunk : ℕ) : List ℕ :=
  List.replicate (n / chunk) chunk ++ if n % chunk = 0 then [] else [n % chunk]

lemma evenChunk_bounds {n limit : ℕ} (hn : 0 < n) (hl : 0 < limit) :
    ∃ c, (n + limit - 1) / limit = c + 1 ∧ c * evenChunk n limit < n ∧
      n ≤ (c + 1) * evenChunk n limit ∧ (c + 1) * evenChunk n limit ≤ n + c := by
  obtain ⟨c, hc⟩ : ∃ c, (n + limit - 1) / limit = c + 1 :=
    Nat.exists_eq_add_one.mpr (Nat.div_pos (by omega) hl)
  have hdiv := Nat.div_add_mod (n + limit - 1) limit
  have hmod := Nat.mod_lt (n + limit - 1) hl
  rw [hc, Nat.mul_succ, Nat.mul_comm] at hdiv
  have hlt : c * limit < n := by omega
  have hle := Nat.mul_le_mul_left c (evenChunk_le n hl)
  refine ⟨c, hc, by omega, ?_⟩
  unfold evenChunk
  split
  · obtain rfl : c = 0 := by
      by_contra h
      have := Nat.le_mul_of_pos_left limit (Nat.pos_of_ne_zero h)
      omega
    omega
  · simp only [hc]
    have hdiv := Nat.div_add_mod (n + (c + 1) - 1) (c + 1)
    have hmod : (n + (c + 1) - 1) % (c + 1) < c + 1 := Nat.mod_lt _ (Nat.succ_pos c)
    omega

/-- **The pieces of `evenChunk` are the fewest within the limit**; they are even exactly if their number
divides the size or the size and one. -/
theorem evenChunk_pieces {n limit : ℕ} (hn : 1 ≤ n) (hl : 1 ≤ limit) :
    (pieces n (evenChunk n limit)).length = (n + limit - 1) / limit ∧
      (∀ p ∈ pieces n (evenChunk n limit), p ≤ limit) ∧
      ((∀ p ∈ pieces n (evenChunk n limit), ∀ q ∈ pieces n (evenChunk n limit), p ≤ q + 1) ↔
        (n + limit - 1) / limit ∣ n ∨ (n + limit - 1) / limit ∣ n + 1) := by
  obtain ⟨c, hc, hlt, hle, heven⟩ := evenChunk_bounds hn hl
  have hk := evenChunk_le n hl
  rw [hc]
  generalize evenChunk n limit = k at *
  rcases Nat.eq_or_lt_of_le hle with heq | hrest
  · -- all pieces have the same size
    have hpos : 0 < k := Nat.pos_of_mul_pos_left (by omega : 0 < (c + 1) * k)
    have hpieces : pieces n k = List.replicate (c + 1) k := by simp [pieces, heq, hpos]
    rw [hpieces]
    simpa [hk] using .inl ⟨k, heq⟩
  · rw [Nat.succ_mul] at hrest heven
    obtain ⟨r, rfl⟩ : ∃ r, n = c * k + r := ⟨n - c * k, by omega⟩
    have hpieces : pieces (c * k + r) k = List.replicate c k ++ [r] := by
      have hdiv : (c * k + r) / k = c := by
        rw [Nat.mul_comm, Nat.mul_add_div (by omega), Nat.div_eq_of_lt (by omega), Nat.add_zero]
      rw [pieces, hdiv, Nat.mul_add_mod_self_right, Nat.mod_eq_of_lt (by omega), if_neg (by omega)]
    have hall : (∀ p ∈ pieces (c * k + r) k, ∀ q ∈ pieces (c * k + r) k, p ≤ q + 1) ↔ k ≤ r + 1 := by
      have hc : c ≠ 0 := by
        rintro rfl
        omega
      simp [hpieces, hc, or_imp, forall_and]
      omega
    -- a multiple of the number of pieces is no smaller than the size
    have hmultiple {x j : ℕ} (hx : k ≤ x + c) (hj : c * k + x = (c + 1) * j) : k ≤ j := by
      by_contra hlt
      have := Nat.mul_le_mul_left (c + 1) (show j + 1 ≤ k by omega)
      rw [Nat.mul_succ, Nat.succ_mul c k] at this
      omega
    refine ⟨by simp [hpieces], by simp [hpieces]; omega, hall.trans ⟨fun h => .inr ⟨k, ?_⟩, ?_⟩⟩
    · rw [Nat.succ_mul]
      omega
    · rintro (⟨j, hj⟩ | ⟨j, hj⟩)
      · have := Nat.mul_le_mul_left (c + 1) (hmultiple (by omega) hj)
        rw [Nat.succ_mul c k] at this
        omega
      · have := Nat.mul_le_mul_left (c + 1) (hmultiple (x := r + 1) (by omega) hj)
        rw [Nat.succ_mul c k] at this
        omega

theorem evenChunk_pieces_eleven : pieces 11 (evenChunk 11 4) = [4, 4, 3] ∧
    ∀ p ∈ pieces 11 (evenChunk 11 4), ∀ q ∈ pieces 11 (evenChunk 11 4), p ≤ q + 1 :=
  ⟨by decide, (evenChunk_pieces (by decide) (by decide)).2.2.mpr (by decide)⟩

/-- Ten bytes are cut into pieces of 4, 4 and 2. -/
theorem evenChunk_runt : ¬ ∀ n ≥ 1, ∀ limit ≥ 1, ∀ p ∈ pieces n (evenChunk n limit),
    ∀ q ∈ pieces n (evenChunk n limit), p ≤ q + 1 := by
  intro h
  exact absurd (h 10 (by decide) 4 (by decide)) (by decide)

end Goav.Rtpav
