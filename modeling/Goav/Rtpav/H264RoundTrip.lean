import Goav.Lib.History
import Goav.Rtpav.H264Format

/-!
The packetizer's payloads pack the NAL units of an access unit, and a fresh depacketizer gives it back,
except for the forbidden bit of a fragmented unit (`h264_round_trip_iff`).
-/

namespace Goav.Rtpav

open Goav.Av Goav.Lib PacketizeResult List H264Depacketizer

/-! ### What an access unit is sent as -/

def isFiller (u : Bytes) : Bool := typeOf u = h264NALUAUD || typeOf u = h264NALUFiller

def cached (set : Bytes) : List Bytes := if set = [] then [] else [set]

def missingSets (p : H264Packetizer) (units : List Bytes) : List Bytes :=
  (if hasType units h264NALUSPS then [] else cached p.sps) ++
    if hasType units h264NALUPPS then [] else cached p.pps

/-- **The access unit that is sent**: the NAL units without delimiters and filler; with an IDR, the
missing parameter sets stand behind the last SPS, or at the head. -/
def accessUnit (p : H264Packetizer) (data : Bytes) : List Bytes :=
  let units := (h264EachNALU data).filter fun u => !isFiller u
  if hasIDR units then
    units.rdropWhile (fun u => typeOf u ≠ h264NALUSPS) ++ missingSets p units ++
      units.rtakeWhile fun u => typeOf u ≠ h264NALUSPS
  else units

namespace H264Packetizer

variable {payloadType : UInt8} {ts : UInt32} {out : PacketizeResult} {ps : List Bytes}

/-! ### Sending units -/

structure Pending (budget : ℕ) (pending : List Bytes) : Prop where
  sendable : ∀ u ∈ pending, Sendable u
  alone : ∀ u ∈ pending, u.length ≤ budget
  together : 2 ≤ pending.length → 1 + (pending.flatMap sized).length ≤ budget

def Sent (budget : ℕ) (payloadType : UInt8) (ts : UInt32) (units : List Bytes)
    (out : PacketizeResult) : Prop :=
  ∃ ps, Holds out payloadType ts ps ∧ Packs budget ps units

lemma write_sized (pending : List Bytes) (out : PacketizeResult) :
    pending.foldl (fun out nalu =>
      (out.write [UInt8.ofNat (nalu.length >>> 8), UInt8.ofNat nalu.length]).write nalu) out =
      out.write (pending.flatMap sized) := by
  induction pending generalizing out with
  | nil => simp [write]
  | cons u us ih =>
    rw [foldl_cons, ih]
    simp [write, sized]

lemma naluType_foldl (f : UInt8 → Bytes → UInt8)
    (hf : ∀ acc u, naluType acc = 0 → naluType (f acc u) = 0) (us : List Bytes) :
    naluType (us.foldl f 0) = 0 :=
  foldlRecOn (motive := fun acc => naluType acc = 0) us f rfl fun acc hacc u _ =>
    hf acc u hacc

lemma naluType_stapa (pending : List Bytes) :
    naluType (pending.foldl (fun f nalu => f ||| (nalu.headD 0 &&& h264ForbiddenMask)) 0 |||
      pending.foldl (fun nri nalu => max nri (nalu.headD 0 &&& h264NALUNRIMask)) 0 |||
      h264NALUSTAPA) = h264NALUSTAPA := by
  have hor : ∀ a b : UInt8, naluType (a ||| b) = naluType a ||| naluType b := fun a b =>
    byte_or_and a b _
  rw [hor, hor, naluType_foldl, naluType_foldl]
  · rfl
  · intro acc u hacc
    show naluType (if acc ≤ u.headD 0 &&& h264NALUNRIMask then _ else acc) = 0
    split
    · generalize u.headD 0 = b
      revert b
      exact forall_byte (by decide +kernel)
    · exact hacc
  · intro acc u hacc
    rw [hor, hacc]
    generalize u.headD 0 = b
    revert b
    exact forall_byte (by decide +kernel)

variable {pending : List Bytes} {data u : Bytes} {p : H264Packetizer} {s : Scan}

lemma flush_eq_emit (payloadType : UInt8) (ts : UInt32) (out : PacketizeResult) (h : 2 ≤ pending.length) :
    ∃ header, naluType header = h264NALUSTAPA ∧ flush pending payloadType ts out =
      out.emit payloadType ts (header :: pending.flatMap sized) := by
  refine ⟨_, naluType_stapa pending, ?_⟩
  match pending, h with
  | u :: u' :: us, _ =>
    simp only [flush, write_sized, PacketizeResult.emit]
    simp [write]

lemma Sent.flush {budget : ℕ} {units : List Bytes} (h : Sent budget payloadType ts units out)
    (hp : Pending budget pending) :
    Sent budget payloadType ts (units ++ pending) (flush pending payloadType ts out) := by
  obtain ⟨ps, hholds, hpacks⟩ := h
  match pending, hp with
  | [], _ => exact ⟨ps, hholds, by simpa using hpacks⟩
  | [u], hp =>
    exact ⟨ps ++ [u], hholds.emit u,
      hpacks.append (.single (hp.sendable u (by simp)) (hp.alone u (by simp)))⟩
  | u :: u' :: us, hp =>
    have hlen : 2 ≤ (u :: u' :: us).length := by simp
    obtain ⟨header, hheader, heq⟩ := flush_eq_emit payloadType ts out hlen
    rw [heq]
    exact ⟨_, hholds.emit _, hpacks.append (.stapa hheader hp.sendable (hp.together hlen))⟩

lemma fragmentLoop_holds (indicator type : UInt8) (data : Bytes) {chunk : ℕ} (hchunk : 0 < chunk) :
    ∀ (fuel offset : ℕ) {out : PacketizeResult} {ps : List Bytes}, data.length ≤ offset + fuel →
      offset < data.length → Holds out payloadType ts ps →
      ∃ cs, cs ≠ [] ∧ cs.flatten = data.drop offset ∧ (∀ c ∈ cs, c.length ≤ chunk) ∧
        Holds (fragmentLoop indicator type data chunk payloadType ts fuel offset out) payloadType ts
          (ps ++ fuaPayloads indicator type (offset = 0) cs) := by
  intro fuel
  induction fuel with
  | zero => intro offset out ps h h'; omega
  | succ fuel ih =>
    intro offset out ps hfuel hoff hholds
    rw [fragmentLoop, if_neg (by omega)]
    by_cases hlast : data.length ≤ offset + chunk
    -- the last fragment: the loop stops behind it
    · have hstop : min (offset + chunk) data.length = data.length := by omega
      refine ⟨[data.drop offset], by simp, by simp, by simp; omega, ?_⟩
      simp only [hstop]
      have hdone : ∀ out', fragmentLoop indicator type data chunk payloadType ts fuel
          (offset + chunk) out' = out' := by
        intro out'
        cases fuel with
        | zero => rfl
        | succ fuel => rw [fragmentLoop, if_pos hlast]
      rw [hdone]
      simpa [fuaPayloads, fuHeader] using hholds.emit _
    · have hstop : min (offset + chunk) data.length = offset + chunk := by omega
      simp only [hstop, if_neg (show offset + chunk ≠ data.length by omega)]
      obtain ⟨cs, hne, hflat, hle, hcs⟩ := ih (offset + chunk) (by omega) (by omega)
        (hholds.emit ([indicator, if offset = 0 then type ||| h264FUStartMask else type] ++
          (data.take (offset + chunk)).drop offset))
      refine ⟨(data.take (offset + chunk)).drop offset :: cs, by simp, ?_, ?_, ?_⟩
      · rw [flatten_cons, hflat, drop_take, ← drop_drop, Nat.add_sub_cancel_left, take_append_drop]
      · rw [forall_mem_cons]
        refine ⟨?_, hle⟩
        rw [length_drop, length_take]
        omega
      · rw [decide_eq_false (show offset + chunk ≠ 0 by omega)] at hcs
        simpa [fuaPayloads, fuHeader] using hcs

lemma Sent.fragment {units : List Bytes} (h : Sent p.budget payloadType ts units out)
    (hu : Sendable u) (hlarge : p.budget < u.length) :
    Sent p.budget payloadType ts (units ++ [u]) (p.fragment payloadType ts u out) := by
  obtain ⟨ps, hholds, hpacks⟩ := h
  have hmin := p.budget_min
  unfold minMTU rtpHeaderSize at hmin
  have hlen : (u.drop 1).length = u.length - 1 := length_drop
  have hchunk : 0 < evenChunk (u.drop 1).length (p.budget - 2) :=
    evenChunk_pos (by omega) (by omega)
  obtain ⟨cs, hne, hflat, hle, hcs⟩ := fragmentLoop_holds (fuIndicator u) (typeOf u)
    (u.drop 1) hchunk (u.drop 1).length 0 (by omega) (by omega) hholds
  refine ⟨_, hcs, hpacks.append (.fua hu hlarge hflat hne fun c hc => ?_)⟩
  have := hle c hc
  have := evenChunk_le (u.drop 1).length (show 0 < p.budget - 2 by omega)
  omega

lemma h264AggregateSize_eq (pending : List Bytes) (next : Bytes) :
    h264AggregateSize pending next = 1 + ((pending ++ [next]).flatMap sized).length := by
  unfold h264AggregateSize
  suffices h : ∀ n, pending.foldl (fun size nalu => size + (2 + nalu.length)) n =
      n + (pending.flatMap sized).length by
    rw [h, flatMap_append, length_append, flatMap_singleton, sized_length]
    omega
  induction pending with
  | nil => simp
  | cons u us ih =>
    intro n
    rw [foldl_cons, ih, flatMap_cons, length_append, sized_length]
    omega

lemma sendNALU_sent {sent : List Bytes} (h : Sent p.budget payloadType ts sent out)
    (hp : Pending p.budget pending) (hu : Sendable u) :
    ∃ sent', Sent p.budget payloadType ts sent' (p.sendNALU payloadType ts (pending, out) u).2 ∧
      Pending p.budget (p.sendNALU payloadType ts (pending, out) u).1 ∧
      sent' ++ (p.sendNALU payloadType ts (pending, out) u).1 = sent ++ pending ++ [u] := by
  unfold sendNALU
  split
  · rename_i hlarge
    exact ⟨_, (h.flush hp).fragment hu hlarge, ⟨by simp, by simp, by simp⟩, by simp⟩
  split
  · refine ⟨_, h.flush hp, ⟨by simpa using hu, by simp; omega, by simp⟩, rfl⟩
  rename_i hagg
  rw [h264AggregateSize_eq] at hagg
  refine ⟨sent, h, ⟨?_, ?_, fun _ => Nat.not_lt.mp hagg⟩, by simp⟩
  · intro x hx
    rcases mem_append.mp hx with hx | hx
    · exact hp.sendable x hx
    · rw [mem_singleton.mp hx]
      exact hu
  · intro x hx
    rcases mem_append.mp hx with hx | hx
    · exact hp.alone x hx
    · rw [mem_singleton.mp hx]
      omega

lemma sendNALUs_sent (units : List Bytes) (hu : ∀ u ∈ units, Sendable u) :
    ∀ {sent pending : List Bytes} {out : PacketizeResult}, Sent p.budget payloadType ts sent out →
      Pending p.budget pending →
      Sent p.budget payloadType ts (sent ++ pending ++ units)
        (flush (units.foldl (p.sendNALU payloadType ts) (pending, out)).1 payloadType ts
          (units.foldl (p.sendNALU payloadType ts) (pending, out)).2) := by
  induction units with
  | nil =>
    intro sent pending out h hp
    simpa using h.flush hp
  | cons u us ih =>
    intro sent pending out h hp
    obtain ⟨sent', h', hp', heq⟩ := sendNALU_sent h hp (hu u (by simp))
    rw [append_cons, ← heq]
    exact ih (fun x hx => hu x (mem_cons_of_mem _ hx)) h' hp'

/-! ### The scan of an access unit -/

lemma mem_naluBetween {start stop : ℕ} (h : u ∈ naluBetween data start stop) : u ≠ [] := by
  simp only [naluBetween] at h
  split at h
  · simp at h
  · rename_i hne
    rw [mem_singleton.mp h]
    simpa using hne

lemma ne_nil_of_mem_h264EachNALU (h : u ∈ h264EachNALU data) : u ≠ [] := by
  have hfrom : ∀ fuel start width, u ∈ h264NALUsFrom data fuel start width → u ≠ [] := by
    intro fuel
    induction fuel with
    | zero => simp [h264NALUsFrom]
    | succ fuel ih =>
      intro start width hu
      rw [h264NALUsFrom] at hu
      split at hu
      · simp at hu
      · rcases mem_append.mp hu with hu | hu
        · exact mem_naluBetween hu
        · exact ih _ _ hu
  rcases mem_append.mp h with hu | hu
  · exact mem_naluBetween hu
  · exact hfrom _ _ _ hu

structure Scanned (p : H264Packetizer) (us : List Bytes) (s : Scan) : Prop where
  budget : s.packetizer.budget = p.budget
  nalus : s.invalid = false → s.nalus = us.filter fun u => !isFiller u
  sendable : ∀ u ∈ s.nalus, Sendable u
  idr : s.idr = hasType s.nalus h264NALUIDR
  sps : s.sps = hasType s.nalus h264NALUSPS
  pps : s.pps = hasType s.nalus h264NALUPPS
  keepsSPS : s.sps = false → s.packetizer.sps = p.sps
  keepsPPS : s.pps = false → s.packetizer.pps = p.pps

@[simp] lemma learn_budget (p : H264Packetizer) (u : Bytes) : (p.learn u).budget = p.budget := by
  unfold learn
  split
  · rfl
  · split <;> rfl

lemma learn_sps (h : typeOf u ≠ h264NALUSPS) : (p.learn u).sps = p.sps := by
  unfold learn
  rw [dif_neg h]
  split <;> rfl

lemma learn_pps (h : typeOf u ≠ h264NALUPPS) : (p.learn u).pps = p.pps := by
  unfold learn
  split <;> rfl

lemma Scanned.step {us : List Bytes} (h : Scanned p us s) (hu : u ≠ []) :
    Scanned p (us ++ [u]) (scanNALU s u) := by
  unfold scanNALU
  simp only
  split
  · exact { h with nalus := nofun }
  rename_i hvalid
  push Not at hvalid
  obtain ⟨-, hzero, hstapa⟩ := hvalid
  split_ifs with hfiller
  · refine { h with nalus := fun hi => ?_ }
    have : isFiller u = true := by
      unfold isFiller
      rcases hfiller with hf | hf <;> simp [hf]
    rw [h.nalus hi]
    simp [this]
  · push Not at hfiller
    have hkeep : isFiller u = false := by simp [isFiller, hfiller]
    have hsend : Sendable u := ⟨hu, UInt8.pos_iff_ne_zero.mpr hzero, UInt8.not_le.mp hstapa⟩
    refine ⟨(learn_budget _ u).trans h.budget, fun hi => ?_, ?_, ?_, ?_, ?_, ?_, ?_⟩
    · rw [h.nalus hi]
      simp [hkeep]
    · intro x hx
      rcases mem_append.mp hx with hx | hx
      · exact h.sendable x hx
      · rw [mem_singleton.mp hx]
        exact hsend
    · simp [h.idr, hasType]
    · simp [h.sps, hasType]
    · simp [h.pps, hasType]
    · intro hs
      simp only [Bool.or_eq_false_iff, decide_eq_false_iff_not] at hs
      exact (learn_sps hs.2).trans (h.keepsSPS hs.1)
    · intro hs
      simp only [Bool.or_eq_false_iff, decide_eq_false_iff_not] at hs
      exact (learn_pps hs.2).trans (h.keepsPPS hs.1)

lemma scanned (p : H264Packetizer) (data : Bytes) :
    Scanned p (h264EachNALU data) ((h264EachNALU data).foldl scanNALU { packetizer := p }) := by
  refine history_invariant (fun us => ∀ u ∈ us, u ≠ []) (Scanned p)
    (fun us u h x hx => h x (mem_append_left _ hx)) ?_
    (fun us u hne h => h.step (hne u (by simp))) _ fun u => ne_nil_of_mem_h264EachNALU
  exact ⟨rfl, fun _ => rfl, by simp, rfl, rfl, rfl, fun _ => rfl, fun _ => rfl⟩

lemma behindSPS_eq (units : List Bytes) :
    behindSPS units = (units.rdropWhile fun u => typeOf u ≠ h264NALUSPS).length := by
  induction units using reverseRecOn with
  | nil => rfl
  | append_singleton us u ih =>
    unfold behindSPS at *
    rw [zipIdx_append, foldl_append, ih]
    by_cases hu : typeOf u = h264NALUSPS
    · simp [hu]
    · simp [hu]

/-- A cached set is inserted when its kind is missing; the scan has not replaced it then. -/
lemma inserted_eq {found : Bool} {set before : Bytes} (h : found = false → set = before) :
    (if !found ∧ set ≠ [] then [set] else []) = if found then [] else cached before := by
  cases found with
  | true => simp
  | false =>
    rw [h rfl]
    by_cases hb : before = [] <;> simp [cached]

lemma Scanned.accessUnit (h : Scanned p (h264EachNALU data) s) (hi : s.invalid = false) :
    (if s.idr && (!s.sps || !s.pps) then
      s.packetizer.withParameterSets s.nalus (if s.sps then behindSPS s.nalus else 0)
        (!s.sps) (!s.pps)
    else s.nalus) = accessUnit p data := by
  have hunits := h.nalus hi
  unfold Rtpav.accessUnit
  generalize (h264EachNALU data).filter (fun u => !isFiller u) = units at hunits ⊢
  have hat : (if s.sps then behindSPS s.nalus else 0) =
      (units.rdropWhile fun u => typeOf u ≠ h264NALUSPS).length := by
    rw [behindSPS_eq, hunits]
    split
    · rfl
    rename_i hsps
    rw [h.sps, hunits] at hsps
    rw [rdropWhile_eq_nil_iff.mpr]
    · rfl
    · simpa [hasType] using hsps
  have hsplit : units.rdropWhile (fun u => typeOf u ≠ h264NALUSPS) ++
      units.rtakeWhile (fun u => typeOf u ≠ h264NALUSPS) = units :=
    rdropWhile_append_rtakeWhile
  have hwith : s.packetizer.withParameterSets s.nalus
      (if s.sps then behindSPS s.nalus else 0) (!s.sps) (!s.pps) =
      units.rdropWhile (fun u => typeOf u ≠ h264NALUSPS) ++ missingSets p units ++
        units.rtakeWhile fun u => typeOf u ≠ h264NALUSPS := by
    have hcut : ∀ a b : List Bytes, a ++ b = units →
        units.take a.length = a ∧ units.drop a.length = b := by
      rintro a b rfl
      simp
    rw [withParameterSets, hat, inserted_eq h.keepsSPS, inserted_eq h.keepsPPS, h.sps, h.pps,
      hunits, missingSets, (hcut _ _ hsplit).1, (hcut _ _ hsplit).2]
    simp
  have hidr : s.idr = hasIDR units := by rw [h.idr, hunits, hasIDR]
  rw [hwith, hidr]
  simp only
  by_cases hI : hasIDR units = true
  · rw [hI, Bool.true_and, if_pos rfl]
    split
    · rfl
    -- nothing is missing, and nothing inserted
    rename_i hset
    have hnone : missingSets p units = [] := by
      rw [h.sps, h.pps, hunits] at hset
      simp only [Bool.or_eq_true, Bool.not_eq_true', not_or] at hset
      simp [missingSets, hset]
    rw [hnone, append_nil, hsplit, hunits]
  · rw [Bool.not_eq_true] at hI
    rw [hI, if_neg (by simp), if_neg (by simp), hunits]

lemma typeOf_pos_of_sps (hu : u ≠ []) (h : typeOf u = h264NALUSPS ∨ typeOf u = h264NALUPPS) :
    Sendable u := by
  refine ⟨hu, ?_⟩
  rcases h with h | h <;> rw [h] <;> decide

lemma Scanned.sendable_accessUnit (h : Scanned p (h264EachNALU data) s) (hi : s.invalid = false) :
    ∀ u ∈ Rtpav.accessUnit p data, Sendable u := by
  have hunits : ∀ u ∈ (h264EachNALU data).filter (fun u => !isFiller u), Sendable u := by
    rw [← h.nalus hi]
    exact h.sendable
  have hcached : ∀ (found : Bool) (set : Bytes), (set ≠ [] → Sendable set) →
      ∀ u ∈ (if found then [] else cached set), Sendable u := by
    intro found set hset u hu
    unfold cached at hu
    split_ifs at hu with hf hne
    · simp at hu
    · simp at hu
    · rw [mem_singleton.mp hu]
      exact hset hne
  intro u hu
  simp only [Rtpav.accessUnit] at hu
  split at hu
  · rcases mem_append.mp hu with hu | hu
    · rcases mem_append.mp hu with hu | hu
      · exact hunits u (( rdropWhile_prefix _ _).subset hu)
      · rcases mem_append.mp hu with hu | hu
        · exact hcached _ _ (fun hne => typeOf_pos_of_sps hne (.inl (p.sps_type hne))) u hu
        · exact hcached _ _ (fun hne => typeOf_pos_of_sps hne (.inr (p.pps_type hne))) u hu
    · exact hunits u ((rtakeWhile_suffix _ _).subset hu)
  · exact hunits u hu

lemma units_of_accessUnit_eq_nil (h : Rtpav.accessUnit p data = []) :
    (h264EachNALU data).filter (fun u => !isFiller u) = [] := by
  simp only [Rtpav.accessUnit] at h
  split at h
  · simp only [append_eq_nil_iff] at h
    exact (rdropWhile_append_rtakeWhile (p := fun u => typeOf u ≠ h264NALUSPS)).symm.trans
      (by rw [h.1.1, h.2]; rfl)
  · exact h

lemma packetizeInto_error {packet : Av.Packet} {payload : PayloadCodec}
    (h : (p.packetizeInto none packet payload out).2.2 ≠ none) :
    (p.packetizeInto none packet payload out).2.1 = out := by
  unfold packetizeInto at h ⊢
  cases hts : rtpTimestamp packet payload p.clock with
  | error e => rfl
  | ok ts =>
    simp only [hts] at h ⊢
    split at h
    · rename_i hbad
      rw [if_pos hbad]
    · exact absurd rfl h

/-- **What the packetizer sends**: packets of one time, the last one marked, that pack the access unit.
-/
lemma packetizeInto_spec {packet : Av.Packet} {payload : PayloadCodec}
    (h : (p.packetizeInto none packet payload {}).2.2 = none) :
    Rtpav.accessUnit p packet.payload ≠ [] ∧
      ∃ ts ps, Packs p.budget ps (Rtpav.accessUnit p packet.payload) ∧
        (p.packetizeInto none packet payload {}).2.1.packets =
          markLast (ps.map (packetOf payload.payloadType ts)) := by
  unfold packetizeInto at h ⊢
  cases hts : rtpTimestamp packet payload p.clock with
  | error e => simp [hts] at h
  | ok ts =>
    simp only [hts] at h ⊢
    have hscan := scanned p packet.payload
    generalize (h264EachNALU packet.payload).foldl scanNALU { packetizer := p } = s at h hscan ⊢
    split at h
    · simp at h
    rename_i hok
    simp only [Bool.or_eq_true, not_or, Bool.not_eq_true, isEmpty_eq_false_iff] at hok
    rw [if_neg (by simp [hok])]
    have hunits := hscan.accessUnit hok.1
    rw [hunits]
    have hempty : Sent s.packetizer.budget payload.payloadType ts [] {} := ⟨[], holds_empty, .nil⟩
    have hpending : Pending s.packetizer.budget [] := ⟨by simp, by simp, by simp⟩
    obtain ⟨ps, hholds, hpacks⟩ := sendNALUs_sent (Rtpav.accessUnit p packet.payload)
      (hscan.sendable_accessUnit hok.1) hempty hpending
    refine ⟨fun hnil => ?_, ts, ps, ?_, hholds.seal_packets⟩
    · exact hok.2 ((hscan.nalus hok.1).trans (units_of_accessUnit_eq_nil hnil))
    · rw [← hscan.budget]
      simpa using hpacks

end H264Packetizer

/-! ### The depacketizer's run -/

namespace H264Depacketizer

def push (payload : PayloadCodec) (out : DepacketizeResult) (d : H264Depacketizer) (pkt : Packet) :
    H264Depacketizer × List Av.Packet :=
  let r := d.pushInto none pkt payload out
  (r.1, r.2.1.packets.drop out.packets.length)

def pushAll (d : H264Depacketizer) (payload : PayloadCodec) (out : DepacketizeResult)
    (pkts : List Packet) : H264Depacketizer × List Av.Packet :=
  Lib.run (push payload out) d pkts

def SameFrame (d d' : H264Depacketizer) : Prop :=
  d'.assembler = { d.assembler with buffer := d'.assembler.buffer }

variable {d d' : H264Depacketizer} {ts : UInt32} {payloadType : UInt8}

lemma SameFrame.trans {d'' : H264Depacketizer} (h : SameFrame d d') (h' : SameFrame d' d'') :
    SameFrame d d'' := by
  unfold SameFrame at *
  rw [h', h]

lemma sameFrame_andThen {r : H264Depacketizer × Option Err}
    {next : H264Depacketizer → H264Depacketizer × Option Err} (hr : SameFrame d r.1)
    (hnext : ∀ d', SameFrame d' (next d').1) : SameFrame d (andThen r next).1 := by
  obtain ⟨d', err | e⟩ := r
  · exact hr.trans (hnext d')
  · exact hr

lemma sameFrame_appendRaw (d : H264Depacketizer) (b : Bytes) : SameFrame d (d.appendRaw b).1 := by
  unfold appendRaw
  split <;> rfl

lemma sameFrame_appendNALU (d : H264Depacketizer) (u : Bytes) : SameFrame d (d.appendNALU u).1 := by
  cases u with
  | nil => rfl
  | cons b t =>
    have hkey : SameFrame d (if naluType b = h264NALUIDR then { d with keyframe := true } else d) := by
      split <;> rfl
    exact hkey.trans (sameFrame_andThen (sameFrame_appendRaw _ _) fun d' => sameFrame_appendRaw d' _)

lemma sameFrame_appendSTAPALoop (fuel : ℕ) (d : H264Depacketizer) (rest : Bytes) :
    SameFrame d (appendSTAPALoop fuel d rest).1 := by
  fun_induction appendSTAPALoop fuel d rest with
  | case1 => rfl
  | case2 fuel d hi lo rest size h ih => exact ih
  | case3 => rfl
  | case4 fuel d hi lo rest size h h' ih =>
    exact sameFrame_andThen (sameFrame_appendNALU _ _) ih
  | case5 => rfl

lemma sameFrame_appendFUA (d : H264Depacketizer) (payload : Bytes) :
    SameFrame d (d.appendFUA payload).1 := by
  match payload with
  | [] | [_] => rfl
  | indicator :: header :: data =>
    simp only [appendFUA]
    split
    · refine sameFrame_andThen ?_ fun d' =>
        sameFrame_andThen (sameFrame_appendRaw d' _) fun d'' => sameFrame_appendRaw d'' _
      refine SameFrame.trans ?_ (sameFrame_appendRaw _ _)
      split <;> rfl
    split
    · rfl
    · refine sameFrame_andThen (sameFrame_appendRaw _ _) fun d' => ?_
      split <;> rfl

lemma sameFrame_appendPayload (d : H264Depacketizer) (payload : Bytes) :
    SameFrame d (d.appendPayload payload).1 := by
  cases payload with
  | nil => rfl
  | cons b t =>
    simp only [appendPayload]
    split
    · exact sameFrame_appendNALU _ _
    split
    · exact sameFrame_appendSTAPALoop _ _ _
    split
    · exact sameFrame_appendFUA _ _
    · rfl

abbrev InFrame (d : H264Depacketizer) (ts : UInt32) : Prop := d.assembler.InFrame ts

lemma InFrame.of_sameFrame (h : d.InFrame ts) (hs : SameFrame d d') : d'.InFrame ts := by
  constructor <;> rw [hs]
  exacts [h.started, h.live, h.timestamp]

variable (payload : PayloadCodec) (out : DepacketizeResult)

lemma pushInto_of_inFrame {pkt : Packet} (h : d.InFrame pkt.timestamp) (hne : pkt.payload ≠ []) :
    d.pushInto none pkt payload out = d.assemble pkt payload out := by
  simp [pushInto, hne, h.live, h.started, h.timestamp]

lemma pushInto_of_idle {pkt : Packet} (hlive : d.assembler.dropping = false)
    (hidle : d.assembler.started = false) (hstart : h264StartsNALU pkt.payload = true) :
    d.pushInto none pkt payload out = (d.begin pkt.timestamp).pushInto none pkt payload out := by
  have hne : pkt.payload ≠ [] := by
    rintro hnil
    simp [hnil, h264StartsNALU] at hstart
  rw [pushInto_of_inFrame (d := d.begin pkt.timestamp) payload out ⟨rfl, hlive, rfl⟩ hne]
  simp [pushInto, hne, hlive, hidle, hstart]

lemma pushAll_filling (ps : List Bytes) (hne : ∀ p ∈ ps, p ≠ []) :
    ∀ {d d' : H264Depacketizer}, d.InFrame ts → d.appendAll ps = (d', none) →
      d'.InFrame ts ∧ d.pushAll payload out (ps.map (packetOf payloadType ts)) = (d', []) := by
  induction ps with
  | nil =>
    intro d d' h hall
    obtain rfl : d = d' := congrArg Prod.fst hall
    exact ⟨h, rfl⟩
  | cons p ps ih =>
    intro d d' h hall
    rw [appendAll] at hall
    have hsame := sameFrame_appendPayload d p
    rcases happ : d.appendPayload p with ⟨d₁, err | _⟩
    · rw [happ] at hall hsame
      obtain ⟨hin, hrest⟩ := ih (fun x hx => hne x (mem_cons_of_mem _ hx)) (h.of_sameFrame hsame) hall
      refine ⟨hin, ?_⟩
      have hstep : push payload out d (packetOf payloadType ts p) = (d₁, []) := by
        rw [push, pushInto_of_inFrame payload out h (hne p (by simp)), assemble]
        simp [packetOf, happ]
      rw [map_cons, pushAll, run_cons, hstep]
      exact hrest
    · rw [happ] at hall
      simp [andThen] at hall

lemma pushAll_complete {out : DepacketizeResult} (hroom : out.packets.length < out.packetsCap)
    {p : Bytes} (hne : p ≠ []) (h : d.InFrame ts) (happ : d.appendPayload p = (d', none))
    (hfrag : d'.fragment = false) (hbuf : d'.assembler.buffer ≠ []) :
    ∃ q : Av.Packet, (d.pushAll payload out [{ packetOf payloadType ts p with marker := true }]).2 = [q] ∧
        q.payload = d'.assembler.buffer ∧ q.keyframe = d'.keyframe := by
  rw [pushAll, run_cons, push, pushInto_of_inFrame payload out h hne, assemble]
  simp [packetOf, happ, hfrag, hbuf, VideoFrameAssembler.emitPacket, Nat.ne_of_lt hroom]

lemma pushAll_markLast {out : DepacketizeResult} (hroom : out.packets.length < out.packetsCap)
    {ps : List Bytes} (hps : ps ≠ []) (hne : ∀ p ∈ ps, p ≠ []) (h : d.InFrame ts)
    (hall : d.appendAll ps = (d', none)) (hfrag : d'.fragment = false)
    (hbuf : d'.assembler.buffer ≠ []) :
    ∃ q : Av.Packet, (d.pushAll payload out (markLast (ps.map (packetOf payloadType ts)))).2 = [q] ∧
        q.payload = d'.assembler.buffer ∧ q.keyframe = d'.keyframe := by
  obtain ⟨init, p, rfl⟩ : ∃ init p, ps = init ++ [p] :=
    ⟨_, _, (dropLast_append_getLast hps).symm⟩
  rw [appendAll_append] at hall
  rcases hinit : d.appendAll init with ⟨d₁, err | _⟩
  · have happ : d₁.appendPayload p = (d', none) := by
      rw [hinit] at hall
      simp only [andThen, appendAll] at hall
      rcases hp : d₁.appendPayload p with ⟨d₂, err | _⟩ <;> rw [hp] at hall
      · exact hall
      · simp at hall
    obtain ⟨hin, hfill⟩ := pushAll_filling payload out init
      (fun x hx => hne x (mem_append_left _ hx)) h hinit
    obtain ⟨q, hq, hspec⟩ := pushAll_complete payload hroom (hne p (by simp)) hin happ hfrag hbuf
    refine ⟨q, ?_, hspec⟩
    rw [pushAll] at hfill hq
    rw [map_append, map_singleton, markLast_concat, pushAll, run_append, hfill]
    exact hq
  · rw [hinit] at hall
    simp [andThen] at hall

end H264Depacketizer

variable {budget : ℕ}

lemma Packs.starts {ps us : List Bytes} (h : Packs budget ps us) :
    ∀ p ∈ ps.head?, h264StartsNALU p = true := by
  induction h with
  | nil => simp
  | @single u hu fits =>
    obtain ⟨b, t, rfl⟩ := exists_cons_of_ne_nil hu.1
    have hfua : naluType b ≠ h264NALUFUA := by
      intro hb
      have := hu.2.2
      rw [show typeOf (b :: t) = naluType b from rfl, hb] at this
      exact absurd this (by decide)
    have h24 : naluType b ≤ h264NALUSTAPA := UInt8.le_of_lt hu.2.2
    have h0 : 0 < naluType b := hu.2.1
    simp [h264StartsNALU, hfua, h24, h0]
  | @stapa header us hh hu fits =>
    have h1 : h264NALUSTAPA ≠ h264NALUFUA := by decide
    have h2 : 0 < h264NALUSTAPA := by decide
    simp [h264StartsNALU, hh, h1, h2]
  | @fua u cs hu large split hne fits =>
    obtain ⟨c, cs, rfl⟩ := exists_cons_of_ne_nil hne
    cases cs <;> simp [fuaPayloads, h264StartsNALU, naluType_fuIndicator, fuHeader_start]
  | @append ps us ps' us' h h' ih ih' =>
    cases ps with
    | nil => simpa using ih'
    | cons p ps => simpa using ih

lemma fuaPayloads_ne_nil {indicator type : UInt8} {first : Bool} {cs : List Bytes} (h : cs ≠ []) :
    fuaPayloads indicator type first cs ≠ [] := by
  match cs with
  | [] => exact absurd rfl h
  | [c] => simp [fuaPayloads]
  | c :: c' :: cs => simp [fuaPayloads]

lemma Packs.ne_nil {ps us : List Bytes} (h : Packs budget ps us) (hus : us ≠ []) : ps ≠ [] := by
  induction h with
  | nil => exact hus
  | single | stapa => simp
  | fua hu large split hne fits => exact fuaPayloads_ne_nil hne
  | append h h' ih ih' =>
    intro hnil
    simp only [append_eq_nil_iff] at hnil
    refine hus (append_eq_nil_iff.mpr ⟨?_, ?_⟩)
    · exact not_not.mp fun hne => ih hne hnil.1
    · exact not_not.mp fun hne => ih' hne hnil.2

/-! ### The wire and the forbidden bit -/

lemma carried_eq_self_iff {u : Bytes} (hu : u ≠ []) :
    carried budget u = u ↔ (budget < u.length → u.headD 0 &&& h264ForbiddenMask = 0) := by
  obtain ⟨b, t, rfl⟩ := exists_cons_of_ne_nil hu
  by_cases hl : budget < (b :: t).length
  · rw [carried, if_pos hl, ← clear_eq_self_iff]
    exact ⟨fun h _ => (cons.inj h).1, fun h => congrArg (· :: t) (h hl)⟩
  · rw [carried, if_neg hl]
    exact ⟨fun _ h => absurd h hl, fun _ => rfl⟩

lemma annexB_map_eq_iff {f : Bytes → Bytes} (hf : ∀ u, (f u).length = u.length) (units : List Bytes) :
    annexB (units.map f) = annexB units ↔ ∀ u ∈ units, f u = u := by
  induction units with
  | nil => simp
  | cons u us ih =>
    have hcons : ∀ v vs, annexB (v :: vs) = ([0, 0, 0, 1] ++ v) ++ annexB vs := fun v vs => by
      simp [annexB]
    rw [map_cons, hcons, hcons, forall_mem_cons, ← ih]
    constructor
    · intro h
      obtain ⟨h₁, h₂⟩ := append_inj h (by simp [hf])
      exact ⟨append_cancel_left h₁, h₂⟩
    · rintro ⟨h₁, h₂⟩
      rw [h₁, h₂]

lemma hasIDR_carried (budget : ℕ) (units : List Bytes) :
    hasIDR (units.map (carried budget)) = hasIDR units := by
  simp [hasIDR, hasType, typeOf_carried, Function.comp_def]

lemma h264_emitted {p : H264Packetizer} (hb : p.budget < 65536) {packet : Av.Packet}
    {payload : PayloadCodec} (hok : (p.packetizeInto none packet payload {}).2.2 = none)
    {d : H264Depacketizer} (hlive : d.assembler.dropping = false) (hidle : d.assembler.started = false)
    (hfit : (annexB (accessUnit p packet.payload)).length ≤ d.assembler.bufferCap)
    (codec : PayloadCodec) {out : DepacketizeResult} (hroom : out.packets.length < out.packetsCap) :
    ∃ q : Av.Packet, (d.pushAll codec out (p.packetizeInto none packet payload {}).2.1.packets).2 = [q] ∧
      q.payload = annexB ((accessUnit p packet.payload).map (carried p.budget)) ∧
      q.keyframe = hasIDR (accessUnit p packet.payload) := by
  obtain ⟨hunits, ts, ps, hpacks, hpkts⟩ := H264Packetizer.packetizeInto_spec hok
  rw [hpkts]
  generalize accessUnit p packet.payload = units at *
  -- the idle depacketizer begins a frame at the first packet
  have hbegin : d.pushAll codec out (markLast (ps.map (packetOf payload.payloadType ts))) =
      (d.begin ts).pushAll codec out (markLast (ps.map (packetOf payload.payloadType ts))) := by
    obtain ⟨b, bs, rfl⟩ := exists_cons_of_ne_nil (hpacks.ne_nil hunits)
    obtain ⟨m, qs, hqs⟩ := markLast_cons (packetOf payload.payloadType ts b)
      (bs.map (packetOf payload.payloadType ts))
    rw [map_cons, hqs, pushAll, run_cons, push, pushInto_of_idle codec out hlive hidle (hpacks.starts b rfl)]
    rfl
  have hall := hpacks.appendAll hb (d := d.begin ts) rfl (by simpa [H264Depacketizer.Room, begin] using hfit)
  have hbuf : ((d.begin ts).extended (units.map (carried p.budget))).assembler.buffer =
      annexB (units.map (carried p.budget)) := by
    simp [extended, filled, begin]
  have hkeyframe : ((d.begin ts).extended (units.map (carried p.budget))).keyframe = hasIDR units := by
    simp [extended, begin, hasIDR_carried]
  have hin : (d.begin ts).InFrame ts := ⟨rfl, hlive, rfl⟩
  obtain ⟨q, hq, hpayload, hkey⟩ := pushAll_markLast codec hroom
    (hpacks.ne_nil hunits) (fun x hx => (hpacks.bounded x hx).1) hin hall rfl (by
      rw [hbuf]
      obtain ⟨u, us, rfl⟩ := exists_cons_of_ne_nil hunits
      simp [annexB])
  exact ⟨q, by rw [hbegin, hq], hpayload.trans hbuf, hkey.trans hkeyframe⟩

/-- **The round trip.** The packets of an accepted access unit are within the MTU, only the last is
marked, and a fresh depacketizer emits the access unit exactly when no unit to be fragmented has its
forbidden bit set. -/
theorem h264_round_trip_iff (p : H264Packetizer) (mtu : ℕ) (hp : p.budget + rtpHeaderSize = mtu)
    (hmtu : mtu ≤ 65535) (packet : Av.Packet) (payload : PayloadCodec)
    (hok : (p.packetizeInto none packet payload {}).2.2 = none) (stream : Stream)
    (options : List VideoDepacketizerOption) (hfit : (annexB (accessUnit p packet.payload)).length ≤
      (newH264Depacketizer stream options).assembler.bufferCap)
    (codec : PayloadCodec) (out : DepacketizeResult) (hroom : out.packets.length < out.packetsCap) :
    ((∀ q ∈ (p.packetizeInto none packet payload {}).2.1.packets,
        q.payload.length + rtpHeaderSize ≤ mtu) ∧
      OnlyLastMarked (p.packetizeInto none packet payload {}).2.1.packets ∧
      ∃ q : Av.Packet, ((newH264Depacketizer stream options).pushAll codec out
          (p.packetizeInto none packet payload {}).2.1.packets).2 = [q] ∧
        q.payload = annexB (accessUnit p packet.payload) ∧
        q.keyframe = hasIDR (accessUnit p packet.payload)) ↔
    ∀ u ∈ accessUnit p packet.payload, p.budget < u.length → u.headD 0 &&& h264ForbiddenMask = 0 := by
  have hb : p.budget < 65536 := by omega
  obtain ⟨q, hq, hpayload, hkey⟩ := h264_emitted hb hok (d := newH264Depacketizer stream options)
    rfl rfl hfit codec hroom
  obtain ⟨hunits, ts, ps, hpacks, hpkts⟩ := H264Packetizer.packetizeInto_spec hok
  have hmarked : OnlyLastMarked (p.packetizeInto none packet payload {}).2.1.packets ∧
      ∀ q ∈ (p.packetizeInto none packet payload {}).2.1.packets, q.payload ∈ ps := by
    rw [hpkts]
    exact onlyLastMarked_markLast _ ts (hpacks.ne_nil hunits)
  have hwire : (∃ q' : Av.Packet, ((newH264Depacketizer stream options).pushAll codec out
      (p.packetizeInto none packet payload {}).2.1.packets).2 = [q'] ∧
      q'.payload = annexB (accessUnit p packet.payload) ∧
      q'.keyframe = hasIDR (accessUnit p packet.payload)) ↔
      annexB ((accessUnit p packet.payload).map (carried p.budget)) =
        annexB (accessUnit p packet.payload) := by
    rw [hq]
    constructor
    · rintro ⟨q', heq, hpay, -⟩
      rw [← hpayload, cons.inj heq |>.1, hpay]
    · exact fun heq => ⟨q, rfl, hpayload.trans heq, hkey⟩
  have hsendable := hpacks.sendable
  rw [hwire, annexB_map_eq_iff (carried_length p.budget)]
  constructor
  · rintro ⟨-, -, h⟩ u hu
    exact (carried_eq_self_iff (hsendable u hu).1).mp (h u hu)
  · intro h
    refine ⟨fun r hr => ?_, hmarked.1, fun u hu => ?_⟩
    · have := (hpacks.bounded _ (hmarked.2 r hr)).2
      omega
    · exact (carried_eq_self_iff (hsendable u hu).1).mpr (h u hu)

def samplePacketizer (extraData : Bytes) : H264Packetizer :=
  newH264Packetizer { codec := { extraData } } 16 minMTU_le

def sampleUnit (payload : Bytes) : Av.Packet :=
  { payload, pts := { value := 3, base := { num := 1, den := 90000 } } }

theorem h264_round_trip_idr :
    ∃ q : Av.Packet, ((newH264Depacketizer {} []).pushAll {} { packetsCap := 1, eventsCap := 1 }
        ((samplePacketizer [0, 0, 1, 0x67, 1, 0, 0, 1, 0x68, 2]).packetizeInto none
          (sampleUnit ([0, 0, 0, 1, 9, 1, 0, 0, 1, 0x65] ++ List.replicate 20 7)) {}
          {}).2.1.packets).2 = [q] ∧
      q.payload = annexB [[0x67, 1], [0x68, 2], 0x65 :: List.replicate 20 7] ∧ q.keyframe = true :=
  ((h264_round_trip_iff (samplePacketizer [0, 0, 1, 0x67, 1, 0, 0, 1, 0x68, 2]) 28 (by decide)
    (by decide) (sampleUnit ([0, 0, 0, 1, 9, 1, 0, 0, 1, 0x65] ++ List.replicate 20 7)) {}
    (by decide +kernel) {} [] (by decide +kernel) {} { packetsCap := 1, eventsCap := 1 } (by decide)).mpr
    (by decide +kernel)).2.2

/-- An SPS of the extradata with its forbidden bit set that is too large for a packet. -/
theorem h264_forbidden_bit_lost :
    ¬ ∀ (p : H264Packetizer) (mtu : ℕ), p.budget + rtpHeaderSize = mtu → mtu ≤ 65535 →
      ∀ (packet : Av.Packet) (payload : PayloadCodec),
      (p.packetizeInto none packet payload {}).2.2 = none →
      ∀ (stream : Stream) (options : List VideoDepacketizerOption),
      (annexB (accessUnit p packet.payload)).length ≤
        (newH264Depacketizer stream options).assembler.bufferCap →
      ∀ (codec : PayloadCodec) (out : DepacketizeResult), out.packets.length < out.packetsCap →
      (∀ q ∈ (p.packetizeInto none packet payload {}).2.1.packets, q.payload.length + rtpHeaderSize ≤ mtu) ∧
      OnlyLastMarked (p.packetizeInto none packet payload {}).2.1.packets ∧
      ∃ q : Av.Packet, ((newH264Depacketizer stream options).pushAll codec out
          (p.packetizeInto none packet payload {}).2.1.packets).2 = [q] ∧
        q.payload = annexB (accessUnit p packet.payload) ∧
        q.keyframe = hasIDR (accessUnit p packet.payload) := by
  intro h
  obtain ⟨-, -, q, hq, hpay, -⟩ := h (samplePacketizer ([0, 0, 1, 0x87] ++ replicate 16 7)) 28
    (by decide) (by decide) (sampleUnit [0, 0, 1, 0x65, 1]) {} (by decide +kernel) {} []
    (by decide +kernel) {} { packetsCap := 1, eventsCap := 1 } (by decide)
  have hlost : (((newH264Depacketizer {} []).pushAll {} { packetsCap := 1, eventsCap := 1 }
      ((samplePacketizer ([0, 0, 1, 0x87] ++ replicate 16 7)).packetizeInto none
        (sampleUnit [0, 0, 1, 0x65, 1]) {} {}).2.1.packets).2).map (·.payload) ≠
      [annexB (accessUnit (samplePacketizer ([0, 0, 1, 0x87] ++ replicate 16 7))
        (sampleUnit [0, 0, 1, 0x65, 1]).payload)] := by
    decide +kernel
  exact hlost (by rw [hq, map_singleton, hpay])

end Goav.Rtpav
