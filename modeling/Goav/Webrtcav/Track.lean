import Goav.Webrtcav.TrackDefs
import Mathlib.Data.List.Chain

/-!
How packets and configurations are paired. A configuration is known by its generation and its epoch,
which grow together; what is delivered, captured and current follow one another.
-/

namespace Goav.Webrtcav

open Goav.Av Goav.Lib TrackReader Option

/-! ### Configurations -/

def UpTo (a b : ℕ × Epoch) : Prop := a = b ∨ a.1 < b.1 ∧ a.2 < b.2

lemma UpTo.refl (a : ℕ × Epoch) : UpTo a a := .inl rfl

variable {a b : ℕ × Epoch}

lemma UpTo.trans {c : ℕ × Epoch} (hab : UpTo a b) (hbc : UpTo b c) : UpTo a c := by
  obtain rfl | ⟨hgen, hepoch⟩ := hab
  · exact hbc
  · obtain rfl | ⟨hgen', hepoch'⟩ := hbc
    · exact .inr ⟨hgen, hepoch⟩
    · exact .inr ⟨hgen.trans hgen', hepoch.trans hepoch'⟩

lemma UpTo.eq (h : UpTo a b) (hgen : a.1 = b.1) : a = b := by
  obtain rfl | ⟨hlt, -⟩ := h
  · rfl
  · omega

lemma UpTo.lt (h : UpTo a b) (hgen : a.1 ≠ b.1) : a.2 < b.2 := by
  obtain rfl | ⟨-, hlt⟩ := h
  · exact absurd rfl hgen
  · exact hlt

def TrackReader.config (r : TrackReader) : ℕ × Epoch := (r.configGen, r.remote.stream.epoch)

def TrackReadState.config (state : TrackReadState) : ℕ × Epoch := (state.configGen, state.stream.epoch)

/-! ### What the steps keep -/

def MapOf (payloads : Option PayloadMap) (epoch : Epoch) : Prop :=
  ∃ map, payloads = some map ∧ map.epoch = epoch

/-- The reader has one stream and its map, and the generations do not overtake the epoch. -/
structure ReaderOk (r : TrackReader) : Prop where
  streams : r.streams = [r.remote.stream]
  payloads : MapOf r.remote.payloads r.remote.stream.epoch
  epoch_lt : r.remote.stream.epoch < 2 ^ 64
  configGen_le : r.configGen ≤ r.remote.stream.epoch
  readerGen_le : r.readerGen ≤ r.configGen

structure Keeps (r r' : TrackReader) : Prop where
  stream : r'.remote.stream = r.remote.stream
  payloads : r'.remote.payloads = r.remote.payloads
  streams : r'.streams = r.streams
  readerGen : r'.readerGen = r.readerGen
  configGen : r'.configGen = r.configGen
  deliveredConfig : r'.deliveredConfig = r.deliveredConfig

section

variable {r r' : TrackReader} {state : TrackReadState}

lemma Keeps.refl (r : TrackReader) : Keeps r r := ⟨rfl, rfl, rfl, rfl, rfl, rfl⟩

lemma Keeps.config (h : Keeps r r') : r'.config = r.config := by
  simp [TrackReader.config, h.configGen, h.stream]

lemma Keeps.readerOk (h : Keeps r r') (hok : ReaderOk r) : ReaderOk r' where
  streams := by rw [h.streams, h.stream, hok.streams]
  payloads := by rw [h.payloads, h.stream]; exact hok.payloads
  epoch_lt := by rw [h.stream]; exact hok.epoch_lt
  configGen_le := by rw [h.stream, h.configGen]; exact hok.configGen_le
  readerGen_le := by rw [h.readerGen, h.configGen]; exact hok.readerGen_le

lemma keeps_arm (ctx : Context) : Keeps r (r.arm ctx) := by
  unfold arm
  split <;> exact ⟨rfl, rfl, rfl, rfl, rfl, rfl⟩

lemma keeps_expireLocked : Keeps r r.expireLocked := by
  unfold expireLocked
  split <;> exact ⟨rfl, rfl, rfl, rfl, rfl, rfl⟩

lemma keeps_interrupt (gen : ℕ) : Keeps r (r.interrupt gen) := by
  unfold interrupt
  split
  · exact keeps_expireLocked
  · exact .refl r

lemma keeps_close : Keeps r r.close := by
  unfold close
  split
  · exact .refl r
  · obtain ⟨hstream, hpayloads, hstreams, hreader, hconfig, hdelivered⟩ :=
      keeps_expireLocked (r := { r with closed := true })
    exact ⟨hstream, hpayloads, hstreams, hreader, hconfig, hdelivered⟩

lemma beginRead_spec (ctx : Context) (ctxErr : Ctx) :
    Keeps r (r.beginRead ctx ctxErr).1 ∧
    ∀ state, (r.beginRead ctx ctxErr).2 = .ok state →
      state.payloads = r.remote.payloads ∧ state.config = r.config ∧ state.readerGen = r.readerGen := by
  obtain ⟨hstream, hpayloads, hstreams, hreader, hconfig, hdelivered⟩ := keeps_arm (r := r) ctx
  unfold beginRead
  split
  · exact ⟨.refl r, by simp⟩
  split
  · exact ⟨.refl r, by simp⟩
  split
  · exact ⟨keeps_arm ctx, by simp⟩
  dsimp only
  split
  all_goals
    refine ⟨⟨hstream, hpayloads, hstreams, hreader, hconfig, hdelivered⟩, ?_⟩
    rintro state ⟨⟩
    exact ⟨hpayloads, Prod.ext hconfig (congrArg Stream.epoch hstream), hreader⟩

lemma repair_cases (state : TrackReadState) (packet : Option Rtpav.Packet) :
    r.repair state packet = state ∨
      (r.repair state packet).payloads = r.remote.payloads ∧
        (r.repair state packet).config = r.config := by
  unfold repair
  split
  · split
    · exact .inr ⟨rfl, rfl⟩
    · exact .inl rfl
  · exact .inl rfl

lemma keeps_release (replaced : Bool) : Keeps r (r.release replaced) := by
  unfold release
  split <;> exact ⟨rfl, rfl, rfl, rfl, rfl, rfl⟩

lemma endRead_spec {state' : TrackReadState} {ctxErr stopped : Ctx} {packet : Option Rtpav.Packet}
    {replaced : Bool} (h : r.endRead ctxErr state packet = (r', state', replaced, stopped)) :
    Keeps r r' ∧
    (stopped = none → replaced = false → state.readerGen = r.readerGen ∧
      (state' = state ∨ state'.payloads = r.remote.payloads ∧ state'.config = r.config)) := by
  have hkeeps := keeps_release (r := r) (decide (state.readerGen ≠ r.readerGen))
  unfold endRead at h
  dsimp only at h
  split at h
  · cases h
    exact ⟨hkeeps, by simp⟩
  simp only [Prod.mk.injEq] at h
  obtain ⟨rfl, hstate, hreplaced, rfl⟩ := h
  refine ⟨hkeeps, fun _ hnot => ?_⟩
  rw [hnot] at hreplaced
  refine ⟨by simpa using hreplaced, ?_⟩
  rw [if_neg (by simp [hreplaced])] at hstate
  rw [← hstate, ← hkeeps.payloads, ← hkeeps.config]
  exact repair_cases state packet

end

/-! ### Updates -/

lemma epochAfter_lt {current asked : Epoch} (hasked : asked < 2 ^ 64) :
    epochAfter current asked < 2 ^ 64 := by
  unfold epochAfter
  split
  · split
    · decide
    · exact Nat.mod_lt _ (by decide)
  · exact hasked

lemma askedEpoch_lt {merged : Epoch} {update : TrackCodecUpdate} (hmerged : merged < 2 ^ 64)
    (hfit : EpochsFit update.stream update.payloads) : askedEpoch merged update < 2 ^ 64 := by
  unfold askedEpoch
  split
  · rename_i payloads hpayloads
    split
    · exact hfit.2 payloads hpayloads
    · exact hmerged
  · exact hmerged

lemma streamFromCodecUpdate_epoch_lt {current : Stream} {update : TrackCodecUpdate}
    (hcurrent : current.epoch < 2 ^ 64) (hfit : EpochsFit update.stream update.payloads) :
    (streamFromCodecUpdate current update).epoch < 2 ^ 64 := by
  have hmerged : (mergeStream current update.stream).epoch < 2 ^ 64 := by
    unfold mergeStream
    dsimp only
    split
    · exact hfit.1
    · exact hcurrent
  refine epochAfter_lt (askedEpoch_lt ?_ hfit)
  split
  · exact hmerged
  · exact hmerged

/-- An update leads to a later configuration, and another transport has another generation. -/
structure Updates (r r' : TrackReader) (replacement : Option Transport) : Prop where
  ok : ReaderOk r'
  config : UpTo r.config r'.config
  readerGen_le : r.readerGen ≤ r'.readerGen
  readerGen_lt : replacement.isSome → r.readerGen < r'.readerGen
  deliveredConfig : r'.deliveredConfig = r.deliveredConfig

section

variable {r r' : TrackReader} {update : TrackCodecUpdate} {replacement : Option Transport}

lemma bump_eq {gen epoch next : ℕ} (hgen : gen ≤ epoch) (hepoch : epoch < next)
    (hnext : next < 2 ^ 64) : TrackReader.bump gen = gen + 1 :=
  Nat.mod_eq_of_lt (by omega)

lemma replaceReader_spec (replacement : Option Transport) :
    (r.replaceReader replacement).configGen = r.configGen ∧
    (r.replaceReader replacement).deliveredConfig = r.deliveredConfig ∧
    (r.replaceReader replacement).readerGen =
      if replacement.isSome then TrackReader.bump r.readerGen else r.readerGen := by
  cases replacement with
  | none => exact ⟨rfl, rfl, rfl⟩
  | some transport =>
    have hkeeps := keeps_expireLocked (r := r)
    exact ⟨hkeeps.configGen, hkeeps.deliveredConfig, rfl⟩

lemma applyCodecUpdate_updates (hok : ReaderOk r) (hfit : EpochsFit update.stream update.payloads)
    (h : r.applyCodecUpdate update replacement = .ok r') : Updates r r' replacement := by
  have hnext := streamFromCodecUpdate_epoch_lt hok.epoch_lt hfit
  unfold applyCodecUpdate at h
  simp only [hok.streams, List.headD_cons] at h
  split at h
  · cases h
  split at h
  · cases h
  rename_i hepoch
  cases h
  rw [Nat.not_le] at hepoch
  -- the epoch grows by one at least, and with it the room of the generations
  have hreader := bump_eq (hok.readerGen_le.trans hok.configGen_le) hepoch hnext
  have hconfig := bump_eq hok.configGen_le hepoch hnext
  obtain ⟨hgen, hdelivered, hreaderGen⟩ := replaceReader_spec (r := r) replacement
  have hgen' : ((r.replaceReader replacement).configure
      (streamFromCodecUpdate r.remote.stream update) update).configGen = r.configGen + 1 := by
    rw [← hconfig, ← hgen]
    rfl
  have hreaderGen' : ((r.replaceReader replacement).configure
      (streamFromCodecUpdate r.remote.stream update) update).readerGen =
        if replacement.isSome then r.readerGen + 1 else r.readerGen := by
    rw [← hreader, ← hreaderGen]
    rfl
  have hle := hok.readerGen_le
  refine ⟨⟨rfl, ⟨_, rfl, rfl⟩, hnext, ?_, ?_⟩, .inr ⟨?_, hepoch⟩, ?_, fun hsome => ?_, hdelivered⟩
  · rw [hgen']
    exact hok.configGen_le.trans_lt hepoch
  · rw [hreaderGen']
    split <;> omega
  · exact (Nat.lt_succ_self r.configGen).trans_eq hgen'.symm
  · rw [hreaderGen']
    split <;> omega
  · rw [hreaderGen', if_pos hsome]
    exact Nat.lt_succ_self _

lemma updateCodec_updates {ctxErr : Ctx} (hok : ReaderOk r)
    (hfit : EpochsFit update.stream update.payloads) (h : r.updateCodec ctxErr update = .ok r') :
    Updates r r' none := by
  unfold updateCodec at h
  split at h
  · cases h
  · split at h
    · cases h
    · exact applyCodecUpdate_updates hok hfit h

lemma normalizeRemoteTrack_spec (remote : RemoteTrack) :
    (normalizeRemoteTrack remote).track = remote.track ∧
    (normalizeRemoteTrack remote).stream.epoch = remote.stream.epoch ∧
    (normalizeRemoteTrack remote).payloads = remote.payloads := by
  unfold normalizeRemoteTrack
  split <;> exact ⟨rfl, rfl, rfl⟩

lemma updateTrack_updates {ctxErr : Ctx} {remote : RemoteTrack} (hok : ReaderOk r)
    (hfit : EpochsFit remote.stream remote.payloads)
    (h : r.updateTrack ctxErr remote replacement = .ok r') :
    Updates r r' (TrackReader.replacementOf remote replacement) := by
  obtain ⟨htrack, hepoch, hpayloads⟩ := normalizeRemoteTrack_spec remote
  unfold updateTrack at h
  split at h
  · cases h
  dsimp only at h
  split at h
  · cases h
  rw [show replacementOf (normalizeRemoteTrack remote) replacement = replacementOf remote replacement by
      simp only [replacementOf, htrack]] at h
  refine applyCodecUpdate_updates hok ?_ h
  exact ⟨hepoch ▸ hfit.1, hpayloads ▸ hfit.2⟩

end

/-! ### What was returned -/

/-- **What the calls returned**: the three properties, of a log. -/
structure LogOk (initial : Epoch) (returned : List Returned) : Prop where
  unreplaced : ∀ r ∈ returned, r.packet.isSome → r.replaced = false
  increasing : (codecEpochs returned).IsChain (· < ·)
  paired : ∀ before r, before ++ [r] <+: returned → r.packet.isSome →
    MapOf r.payloads (latestEpoch initial (before ++ [r]))

section

variable {initial : Epoch} {returned : List Returned} {r : Returned}

lemma codecEpochs_concat_none (h : r.event = none) :
    codecEpochs (returned ++ [r]) = codecEpochs returned := by
  simp [codecEpochs, h]

lemma codecEpochs_concat_some {stream : Stream} (h : r.event = some (trackCodecChangedEvent stream)) :
    codecEpochs (returned ++ [r]) = codecEpochs returned ++ [stream.epoch] := by
  simp [codecEpochs, h, trackCodecChangedEvent]

lemma latestEpoch_concat_none (h : r.event = none) :
    latestEpoch initial (returned ++ [r]) = latestEpoch initial returned := by
  rw [latestEpoch, codecEpochs_concat_none h, latestEpoch]

lemma latestEpoch_concat_some {stream : Stream} (h : r.event = some (trackCodecChangedEvent stream)) :
    latestEpoch initial (returned ++ [r]) = stream.epoch := by
  rw [latestEpoch, codecEpochs_concat_some h]
  simp

lemma LogOk.concat (h : LogOk initial returned) (hreplaced : r.packet.isSome → r.replaced = false)
    (hevent : r.event = none ∨ ∃ stream, r.event = some (trackCodecChangedEvent stream) ∧
      latestEpoch initial returned < stream.epoch)
    (hmap : r.packet.isSome → MapOf r.payloads (latestEpoch initial (returned ++ [r]))) :
    LogOk initial (returned ++ [r]) where
  unreplaced := by
    intro r' hr'
    obtain hr' | rfl := List.mem_append.mp hr' |>.imp_right List.mem_singleton.mp
    · exact h.unreplaced r' hr'
    · exact hreplaced
  increasing := by
    obtain hnone | ⟨stream, hsome, hlt⟩ := hevent
    · rw [codecEpochs_concat_none hnone]
      exact h.increasing
    · rw [codecEpochs_concat_some hsome, List.isChain_append]
      refine ⟨h.increasing, by simp, fun epoch hlast epoch' hhead => ?_⟩
      rw [List.head?_cons, mem_some_iff] at hhead
      rwa [← hhead, ← show latestEpoch initial returned = epoch by
        rw [latestEpoch, mem_def.mp hlast, getD_some]]
  paired := by
    intro before r' hprefix hpacket
    obtain heq | hprefix := List.prefix_concat_iff.mp hprefix
    · obtain ⟨rfl, hr⟩ := List.append_inj' heq rfl
      obtain rfl := List.singleton_inj.mp hr
      exact hmap hpacket
    · exact h.paired before r' hprefix hpacket

end

/-! ### The invariant -/

/-- A read holds a configuration between the latest delivered and the current one. -/
structure ReadOk (r : TrackReader) (latest : ℕ × Epoch) (state : TrackReadState) : Prop where
  payloads : MapOf state.payloads state.stream.epoch
  after : UpTo latest state.config
  before : UpTo state.config r.config

structure GenOk (r : TrackReader) (read : Read) : Prop where
  le : read.state.readerGen ≤ r.readerGen
  lt : read.replaced = true → read.state.readerGen < r.readerGen

def PhaseOk (r : TrackReader) (latest : ℕ × Epoch) : ReadPhase → Prop
  | .call | .beginRead _ => True
  | .receive _ read | .endRead _ read _ => ReadOk r latest read.state ∧ GenOk r read
  | .deliver read _ => ReadOk r latest read.state ∧ read.replaced = false

def TrackRun.latest (initial : Epoch) (s : TrackRun) : ℕ × Epoch :=
  (s.reader.deliveredConfig, latestEpoch initial s.returned)

structure TrackInv (initial : Epoch) (s : TrackRun) : Prop where
  reader : ReaderOk s.reader
  delivered : UpTo (s.latest initial) s.reader.config
  phase : PhaseOk s.reader (s.latest initial) s.phase
  log : LogOk initial s.returned

section

variable {initial : Epoch} {s s' : TrackRun} {r : TrackReader} {latest : ℕ × Epoch}
  {phase : ReadPhase} {r' : TrackReader}

lemma ReadOk.later {state : TrackReadState} (h : ReadOk r latest state)
    (hconfig : UpTo r.config r'.config) : ReadOk r' latest state :=
  ⟨h.payloads, h.after, h.before.trans hconfig⟩

lemma PhaseOk.keeps (h : PhaseOk r latest phase) (hkeeps : Keeps r r') : PhaseOk r' latest phase := by
  have hconfig : UpTo r.config r'.config := .inl hkeeps.config.symm
  have hgen : ∀ {read : Read}, GenOk r read → GenOk r' read := fun hgen =>
    ⟨hkeeps.readerGen ▸ hgen.le, hkeeps.readerGen ▸ hgen.lt⟩
  cases phase with
  | call => trivial
  | beginRead ctx => trivial
  | receive ctx read => exact ⟨h.1.later hconfig, hgen h.2⟩
  | endRead ctx read received => exact ⟨h.1.later hconfig, hgen h.2⟩
  | deliver read received => exact ⟨h.1.later hconfig, h.2⟩

section

variable (h : TrackInv initial s)
include h

section

variable (hkeeps : Keeps s.reader r)
include hkeeps

lemma TrackInv.keeps (hphase : PhaseOk r (s.latest initial) phase) :
    TrackInv initial { s with reader := r, phase } := by
  have hlatest : TrackRun.latest initial { s with reader := r, phase } = s.latest initial :=
    Prod.ext hkeeps.deliveredConfig rfl
  refine ⟨hkeeps.readerOk h.reader, ?_, ?_, h.log⟩
  · rw [hlatest, hkeeps.config]
    exact h.delivered
  · rw [hlatest]
    exact hphase

lemma TrackInv.keepsPhase :
    TrackInv initial { s with reader := r } :=
  h.keeps hkeeps (h.phase.keeps hkeeps)

lemma TrackInv.fails (err : Err) :
    TrackInv initial (s.returns r { err := some err }) := by
  have hlatest : (s.returns r { err := some err }).latest initial = s.latest initial :=
    Prod.ext hkeeps.deliveredConfig (latestEpoch_concat_none rfl)
  refine ⟨hkeeps.readerOk h.reader, ?_, trivial, h.log.concat (by simp) (.inl rfl) (by simp)⟩
  rw [hlatest]
  exact hkeeps.config.symm ▸ h.delivered

end

end

lemma PhaseOk.updates {replacement : Option Transport}
    (h : PhaseOk r latest phase) (hupdates : Updates r r' replacement) :
    PhaseOk r' latest (if replacement.isSome then phase.noteReplaced else phase) := by
  have hgen : ∀ {read : Read}, GenOk r read → GenOk r' read := fun hgen =>
    ⟨hgen.le.trans hupdates.readerGen_le,
      fun hreplaced => (hgen.lt hreplaced).trans_le hupdates.readerGen_le⟩
  have hnoted : replacement.isSome → ∀ {read : Read}, GenOk r read →
      GenOk r' { read with replaced := true } := fun hsome _ hgen =>
    ⟨hgen.le.trans hupdates.readerGen_le,
      fun _ => hgen.le.trans_lt (hupdates.readerGen_lt hsome)⟩
  split_ifs with hsome
  · cases phase with
    | call => trivial
    | beginRead ctx => trivial
    | receive ctx read => exact ⟨h.1.later hupdates.config, hnoted hsome h.2⟩
    | endRead ctx read received => exact ⟨h.1.later hupdates.config, hnoted hsome h.2⟩
    | deliver read received => exact ⟨h.1.later hupdates.config, h.2⟩
  · cases phase with
    | call => trivial
    | beginRead ctx => trivial
    | receive ctx read => exact ⟨h.1.later hupdates.config, hgen h.2⟩
    | endRead ctx read received => exact ⟨h.1.later hupdates.config, hgen h.2⟩
    | deliver read received => exact ⟨h.1.later hupdates.config, h.2⟩

lemma TrackInv.updated {result : Except Err TrackReader} {replacement : Option Transport}
    (h : TrackInv initial s) (hupdates : ∀ r, result = .ok r → Updates s.reader r replacement) :
    TrackInv initial (s.updated result replacement) := by
  cases result with
  | error err => exact h
  | ok r =>
    have hupdates := hupdates r rfl
    have hlatest : (s.updated (.ok r) replacement).latest initial = s.latest initial :=
      Prod.ext hupdates.deliveredConfig rfl
    refine ⟨hupdates.ok, ?_, ?_, h.log⟩
    · rw [hlatest]
      exact h.delivered.trans hupdates.config
    · rw [hlatest]
      exact h.phase.updates hupdates

variable {received : Received}

lemma TrackInv.ends {state : TrackReadState} {ctx : Context} {read : Read}
    (h : TrackInv initial s) (hphase : s.phase = .endRead ctx read received)
    (hkeeps : Keeps s.reader r) (hgen : read.state.readerGen = s.reader.readerGen)
    (hstate : state = read.state ∨
      state.payloads = s.reader.remote.payloads ∧ state.config = s.reader.config) :
    TrackInv initial { s with reader := r, phase := .deliver { read with state } received } := by
  have hread := h.phase
  rw [hphase] at hread
  obtain ⟨hread, hgenOk⟩ := hread
  have hreplaced : read.replaced = false := by
    cases hreplaced : read.replaced with
    | false => rfl
    | true => exact absurd (hgenOk.lt hreplaced) (by omega)
  refine h.keeps hkeeps ⟨ReadOk.later ?_ (.inl hkeeps.config.symm), hreplaced⟩
  obtain rfl | ⟨hpayloads, hconfig⟩ := hstate
  · exact hread
  · have hepoch : state.stream.epoch = s.reader.remote.stream.epoch := congrArg Prod.snd hconfig
    refine ⟨?_, hconfig ▸ h.delivered, .inl hconfig⟩
    rw [hpayloads, hepoch]
    exact h.reader.payloads

/-- The event of a later configuration, or none. -/
lemma deliver_cases (state : TrackReadState) (err : Option Err) :
    ((r.deliver state err).1 = { r with deliveredConfig := state.configGen } ∧
      (r.deliver state err).2 = some (trackCodecChangedEvent state.stream) ∧
      r.deliveredConfig ≠ state.configGen) ∨
    (r.deliver state err = (r, none) ∧ (err = none → r.deliveredConfig = state.configGen)) := by
  unfold deliver
  split_ifs with h
  · exact .inl ⟨rfl, rfl, fun heq => h.2 heq.symm⟩
  · refine .inr ⟨rfl, fun herr => ?_⟩
    by_contra hne
    exact h ⟨.inl herr, fun heq => hne heq.symm⟩

lemma Received.err_of_packet (h : received.packet?.isSome) : received.err? = none := by
  cases received with
  | packet p => rfl
  | failed err => cases h

lemma TrackInv.delivers {read : Read} (h : TrackInv initial s)
    (hphase : s.phase = .deliver read received) :
    TrackInv initial (s.returns (s.reader.deliver read.state received.err?).1
      { packet := received.packet?
        event := (s.reader.deliver read.state received.err?).2
        payloads := read.state.payloads
        err := received.err?
        replaced := read.replaced }) := by
  have hread := h.phase
  rw [hphase] at hread
  obtain ⟨hread, hreplaced⟩ := hread
  obtain ⟨hreader, hevent, hne⟩ | ⟨hdeliver, heq⟩ := deliver_cases (r := s.reader) read.state
    received.err?
  · rw [hreader, hevent]
    refine ⟨⟨h.reader.streams, h.reader.payloads, h.reader.epoch_lt, h.reader.configGen_le,
      h.reader.readerGen_le⟩, ?_, trivial, h.log.concat (fun _ => hreplaced)
        (.inr ⟨_, rfl, hread.after.lt hne⟩) fun _ => ?_⟩
    · exact UpTo.trans (b := read.state.config) (.inl (Prod.ext rfl (latestEpoch_concat_some rfl)))
        hread.before
    · rw [latestEpoch_concat_some rfl]
      exact hread.payloads
  · rw [hdeliver]
    refine ⟨h.reader, ?_, trivial, h.log.concat (fun _ => hreplaced) (.inl rfl) fun hpacket => ?_⟩
    · exact UpTo.trans (b := s.latest initial) (.inl (Prod.ext rfl (latestEpoch_concat_none rfl)))
        h.delivered
    · -- the configuration of the packet is that of the latest event
      have hconfig : s.latest initial = read.state.config :=
        hread.after.eq (heq (Received.err_of_packet hpacket))
      rw [latestEpoch_concat_none rfl, show latestEpoch initial s.returned = read.state.stream.epoch
        from congrArg Prod.snd hconfig]
      exact hread.payloads

theorem TrackInv.act {a : TrackAction} (h : TrackInv initial s) (hact : s.act a = some s') :
    TrackInv initial s' := by
  cases a with
  | call ctx ctxErr =>
    unfold TrackRun.act at hact
    dsimp only at hact
    split at hact
    · exact some.inj hact ▸ h.fails (.refl _) _
    · exact some.inj hact ▸ h.keeps (.refl _) trivial
    · cases hact
  | beginRead ctxErr =>
    unfold TrackRun.act at hact
    dsimp only at hact
    split at hact
    · rename_i ctx _
      obtain ⟨hkeeps, hok⟩ := beginRead_spec (r := s.reader) ctx ctxErr
      split at hact
      · rename_i reader err hbegin
        rw [hbegin] at hkeeps
        exact some.inj hact ▸ h.fails hkeeps err
      rename_i reader state hbegin
      rw [hbegin] at hkeeps hok
      obtain ⟨hpayloads, hconfig, hgen⟩ := hok state rfl
      have hepoch : state.stream.epoch = s.reader.remote.stream.epoch := congrArg Prod.snd hconfig
      have hread : ReadOk s.reader (s.latest initial) state :=
        ⟨hpayloads ▸ hepoch ▸ h.reader.payloads, hconfig ▸ h.delivered, .inl hconfig⟩
      have hgenOk : GenOk reader { state } :=
        ⟨(hgen.trans hkeeps.readerGen.symm).le, by simp⟩
      exact some.inj hact ▸
        h.keeps hkeeps ⟨hread.later (.inl hkeeps.config.symm), hgenOk⟩
    · cases hact
  | receive received =>
    unfold TrackRun.act at hact
    dsimp only at hact
    split at hact
    · rename_i ctx read hphase
      have hread := h.phase
      rw [hphase] at hread
      exact some.inj hact ▸ h.keeps (.refl _) hread
    · cases hact
  | endRead ctxErr =>
    unfold TrackRun.act at hact
    dsimp only at hact
    split at hact
    · rename_i ctx read received hphase
      split at hact
      · rename_i hend
        exact some.inj hact ▸ h.fails (endRead_spec hend).1 _
      · rename_i hend
        exact some.inj hact ▸ h.keeps (endRead_spec hend).1 trivial
      · rename_i hend
        obtain ⟨hkeeps, hgoesOn⟩ := endRead_spec hend
        obtain ⟨hgen, hstate⟩ := hgoesOn rfl rfl
        exact some.inj hact ▸ h.ends hphase hkeeps hgen hstate
    · cases hact
  | deliver =>
    unfold TrackRun.act at hact
    dsimp only at hact
    split at hact
    · rename_i read received hphase
      exact some.inj hact ▸ h.delivers hphase
    · cases hact
  | interrupt gen => exact some.inj hact ▸ h.keepsPhase (keeps_interrupt gen)
  | close => exact some.inj hact ▸ h.keepsPhase keeps_close
  | updateCodec ctxErr update =>
    exact some.inj hact ▸ h.updated fun _ => updateCodec_updates h.reader update.2
  | updateTrack ctxErr remote replacement =>
    exact some.inj hact ▸ h.updated fun _ => updateTrack_updates h.reader remote.2
  | mergeRemoteTrack remote =>
    exact some.inj hact ▸ h.keepsPhase ⟨rfl, rfl, rfl, rfl, rfl, rfl⟩

lemma trackInv_newTrackRun {remote : RemoteTrack} (hfit : EpochsFit remote.stream remote.payloads)
    (reader : Option Transport) : TrackInv remote.stream.epoch (newTrackRun remote reader) where
  reader := ⟨rfl, ⟨_, rfl, rfl⟩, hfit.1, Nat.zero_le _, Nat.le_refl _⟩
  delivered := .refl _
  phase := trivial
  log := ⟨by simp [newTrackRun], by simp [newTrackRun, codecEpochs], by simp [newTrackRun]⟩

end

/-- **Packets and configurations stay paired**: no packet of a replaced transport is returned, the epochs
of the events increase, and a packet comes with a map of the latest event's epoch. -/
theorem packets_paired (remote : { r : RemoteTrack // EpochsFit r.stream r.payloads })
    (reader : Option Transport) {s : TrackRun}
    (h : Runs TrackRun.act (fun _ _ => True) (newTrackRun remote.1 reader) s) :
    (∀ r ∈ s.returned, r.packet.isSome → r.replaced = false) ∧
    (codecEpochs s.returned).Pairwise (· < ·) ∧
    ∀ before r, before ++ [r] <+: s.returned → r.packet.isSome →
      ∃ map, r.payloads = some map ∧ map.epoch = latestEpoch remote.1.stream.epoch (before ++ [r]) := by
  have hinv := h.invariant (TrackInv remote.1.stream.epoch)
    (trackInv_newTrackRun remote.2 reader) fun hinv _ hact => hinv.act hact
  exact ⟨hinv.log.unreplaced, List.isChain_iff_pairwise.mp hinv.log.increasing, hinv.log.paired⟩

/-- The transport is replaced while it is read, and the codec updated during the next read. -/
def renegotiations : List TrackAction :=
  let video (payloadType : UInt8) : RTPCodecParameters := { payloadType, clockRate := 90000 }
  let packet (payloadType : UInt8) : Received := .packet { payloadType }
  [.call {} none, .beginRead none, .updateTrack none ⟨{ codec := video 97 }, by simp [EpochsFit]⟩ (some 2),
    .receive (packet 96), .endRead none, .beginRead none, .receive (packet 97), .endRead none, .deliver,
    .call {} none, .beginRead none,
    .updateCodec none ⟨{ codec := video 98, stream := { epoch := 5 } }, by simp [EpochsFit]⟩,
    .receive (packet 98), .endRead none, .deliver]

def videoTrack : { r : RemoteTrack // EpochsFit r.stream r.payloads } :=
  ⟨{ codec := { payloadType := 96, clockRate := 90000 } }, by simp [EpochsFit]⟩

theorem packets_paired_renegotiations : ∃ s,
    Runs TrackRun.act (fun _ _ => True) (newTrackRun videoTrack.1 (some 1)) s ∧
    s.returned.map (·.packet.map (·.payloadType)) = [some 97, some 98] ∧
    codecEpochs s.returned = [1, 5] ∧
    ∀ before r, before ++ [r] <+: s.returned → r.packet.isSome →
      ∃ map, r.payloads = some map ∧ map.epoch = latestEpoch 0 (before ++ [r]) := by
  obtain ⟨s, hexec, hpackets, hepochs⟩ : ∃ s,
      exec TrackRun.act (fun _ _ => True) (newTrackRun videoTrack.1 (some 1)) renegotiations = some s ∧
      s.returned.map (·.packet.map (·.payloadType)) = [some 97, some 98] ∧
      codecEpochs s.returned = [1, 5] :=
    ⟨get _ (by decide), (some_get (by decide)).symm, by decide, by decide⟩
  have hruns := Runs.exec renegotiations .refl hexec
  exact ⟨s, hruns, hpackets, hepochs, (packets_paired videoTrack (some 1) hruns).2.2⟩

end Goav.Webrtcav
