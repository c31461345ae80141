import Goav.Lib.Slice
import Goav.Scheme.HttpDefs

/-!
Which version the bytes of an HTTP reader come from. Ranges carry the validator of the first answer. A
server without ranges is read again from the start, and there only the `ETag` and the length tell another
version.
-/

namespace Goav.Scheme

open Goav.Av Goav.Lib Option HttpReader List

/-- The versions of a resource, each with a strong `ETag` or else a `Last-Modified` of its own. -/
structure Own (versions : Set Version) : Prop where
  etag : ∀ v ∈ versions, ∀ w ∈ versions, ∀ t : ETag, t.weak = false → v.etag = some t →
    w.etag = some t → w = v
  tagged : ∀ v ∈ versions, (∃ t, v.etag = some t ∧ t.weak = false) ∨
    ∃ d, v.lastModified = some d ∧ ∀ w ∈ versions, w.lastModified = some d → w = v

/-- A read at an offset gives the bytes of a version, and `io.EOF` only at its end. -/
def Right (v : Version) (result : ℕ × Got) : Prop :=
  IsSlice v.bytes result.1 result.2.data ∧
    (result.2.err = some .eof → v.bytes.length ≤ result.1 + result.2.data.length)

/-- A version is told from that of the first answer by its `ETag` or its length. -/
def Told (v₀ v : Version) : Prop :=
  v.bytes = v₀.bytes ∨ v.etag ≠ v₀.etag ∨ v.bytes.length ≠ v₀.bytes.length

/-- The server has ranges, the stream is live, the window holds all, or every other version is told. -/
def Safe (server : Server) (versions : Set Version) (v₀ : Version) : Prop :=
  server.ranges = true ∨ server.icecast = true ∨ v₀.bytes.length ≤ 2 * window ∨
    ∀ v ∈ versions, Told v₀ v

/-! ### The invariant -/

def BodyOk (v₀ : Version) (b : HttpBody) : Prop := IsSlice v₀.bytes b.at_ b.rest

structure ReaderOk (server : Server) (versions : Set Version) (v₀ : Version) (r : HttpReader) : Prop where
  size : r.size = some v₀.bytes.length
  etag : r.etag = v₀.etag
  validator : ∃ val, r.validator = some val ∧ ∀ v ∈ versions, val.isOf v = true → v = v₀
  mode : r.ranges = server.ranges
  live : r.ranges = false → r.live = server.icecast
  body : ∀ b, r.body = some b → BodyOk v₀ b
  head : IsSlice v₀.bytes 0 r.head
  win : IsSlice v₀.bytes r.winStart r.win
  winEnd : r.ranges = false → ∀ b, r.body = some b → r.winStart + r.win.length = b.at_
  small : r.ranges = false → v₀.bytes.length ≤ 2 * window →
    r.winStart = 0 ∧ (r.closed = false → r.body.isSome)

section

variable {server : Server} {versions : Set Version} {v₀ : Version} {r : HttpReader}

lemma validatorOf_unique (hown : Own versions) (hv₀ : v₀ ∈ versions) {resp : Response}
    (hetag : resp.etag = v₀.etag) (hdate : resp.lastModified = v₀.lastModified) :
    ∃ val, HttpReader.validatorOf resp = some val ∧ ∀ v ∈ versions, val.isOf v = true → v = v₀ := by
  have hdates (hweak : ∀ t, v₀.etag = some t → t.weak = true) :
      ∃ val, v₀.lastModified.map Validator.date = some val ∧ ∀ v ∈ versions, val.isOf v = true → v = v₀ := by
    obtain ⟨t, htag, hstrong⟩ | ⟨d, hd, hunique⟩ := hown.tagged v₀ hv₀
    · rw [hweak t htag] at hstrong
      cases hstrong
    · refine ⟨.date d, by rw [hd, map_some], fun v hv hof => hunique v hv ?_⟩
      simpa [Validator.isOf] using hof
  unfold validatorOf
  rw [hetag, hdate]
  cases htag : v₀.etag with
  | none => exact hdates (by simp [htag])
  | some t =>
    cases hweak : t.weak with
    | true => simpa [hweak] using hdates (by simp [htag, hweak])
    | false =>
      refine ⟨.etag t, if_neg (by simp [hweak]), fun v hv hof => ?_⟩
      have hsame : v.etag = some t := by simpa using (Bool.and_eq_true_iff.mp hof).2
      exact hown.etag v₀ hv₀ v hv t hweak htag hsame

/-- The range, if `If-Range` is of its version, and else the whole version. -/
lemma answer_range_cases (server : Server) (v : Version) (first last : ℕ) (ifRange : Option Validator) :
    (server.ranges = true ∧ ifRange.all (·.isOf v) = true ∧ first < v.bytes.length ∧
      server.answer v { range := some (first, last), ifRange } =
        { status := .part first (min last (v.bytes.length - 1)) v.bytes.length
          etag := v.etag
          lastModified := v.lastModified
          body := (v.bytes.drop first).take (min last (v.bytes.length - 1) + 1 - first) }) ∨
    (server.ranges = true ∧ ifRange.all (·.isOf v) = true ∧ v.bytes.length ≤ first ∧
      server.answer v { range := some (first, last), ifRange } =
        { status := .notSatisfiable, etag := v.etag, lastModified := v.lastModified, body := [] }) ∨
    ((server.ranges = false ∨ ifRange.all (·.isOf v) = false) ∧
      server.answer v { range := some (first, last), ifRange } =
        { status := .ok v.bytes.length
          etag := v.etag
          lastModified := v.lastModified
          body := v.bytes }) := by
  unfold Server.answer
  cases hranges : server.ranges with
  | false => exact .inr (.inr ⟨.inl rfl, rfl⟩)
  | true =>
    dsimp only
    cases hmatch : ifRange.all (·.isOf v) with
    | false => exact .inr (.inr ⟨.inr rfl, rfl⟩)
    | true =>
      rw [if_pos rfl]
      split
      · rename_i hlt
        exact .inl ⟨rfl, rfl, hlt, rfl⟩
      · rename_i hge
        exact .inr (.inl ⟨rfl, rfl, Nat.not_lt.mp hge, rfl⟩)

lemma readerOk_open (hown : Own versions) (hv₀ : v₀ ∈ versions)
    (h : HttpReader.open_ server v₀ = .ok r) : ReaderOk server versions v₀ r := by
  unfold open_ at h
  dsimp only at h
  obtain ⟨hranges, -, hlt, heq⟩ | ⟨hranges, -, hge, heq⟩ | ⟨hmode, heq⟩ :=
    answer_range_cases server v₀ 0 (({} : HttpReader).rangeOf 0 minChunk).2 none
  all_goals
    have hpair : (({} : HttpReader).rangeOf 0 minChunk) =
      (0, (({} : HttpReader).rangeOf 0 minChunk).2) := rfl
    rw [hpair, heq] at h
  · cases h
    refine ⟨rfl, rfl, validatorOf_unique hown hv₀ rfl rfl, hranges.symm, by simp, ?_, by simp,
      by simp, by simp, by simp⟩
    intro b hb
    cases hb
    exact (isSlice_drop v₀.bytes 0).take _
  · cases h
    refine ⟨?_, rfl, validatorOf_unique hown hv₀ rfl rfl, hranges.symm, by simp, by simp, by simp,
      by simp, by simp, by simp⟩
    simp only [Option.some.injEq]
    omega
  · cases h
    have hranges : server.ranges = false := by simpa using hmode
    refine ⟨rfl, rfl, validatorOf_unique hown hv₀ rfl rfl, hranges.symm, fun _ => rfl, ?_, by simp,
      by simp, ?_, fun _ _ => ⟨rfl, fun _ => rfl⟩⟩
    · intro b hb
      cases hb
      exact isSlice_zero v₀.bytes
    · intro _ b hb
      cases hb
      rfl

/-! ### Bodies -/

lemma read_fst_length_le (b : HttpBody) (limit count : ℕ) : (b.read limit count).1.length ≤ limit := by
  unfold HttpBody.read
  rw [length_take]
  omega

variable {b : HttpBody} {off want : ℕ} {answers : List (Option Version)} {data : Bytes} {net : Net}

lemma BodyOk.read (h : BodyOk v₀ b) (limit count : ℕ) :
    IsSlice v₀.bytes b.at_ (b.read limit count).1 ∧ BodyOk v₀ (b.read limit count).2 ∧
      (b.read limit count).2.at_ = b.at_ + (b.read limit count).1.length :=
  ⟨IsSlice.take h _, IsSlice.drop h _, rfl⟩

section

variable (h : ReaderOk server versions v₀ r)
include h

lemma ReaderOk.ranged (hranges : server.ranges = true) (r' : HttpReader)
    (hr' : r' = { r with body := r'.body, chunk := r'.chunk, nextEnd := r'.nextEnd })
    (hbody : ∀ b, r'.body = some b → BodyOk v₀ b) : ReaderOk server versions v₀ r' := by
  rw [hr']
  refine { h with body := hbody, winEnd := ?_, small := ?_ }
  all_goals
    intro hnot
    have hmode := h.mode
    rw [hranges, show r.ranges = false from hnot] at hmode
    cases hmode

/-! ### Ranges -/

/-- A reader whose body does not begin behind the offset, or an error that is not the end. -/
structure Reaches (server : Server) (versions : Set Version) (v₀ : Version) (off : ℕ)
    (result : HttpReader × Option HttpErr) : Prop where
  reader : ReaderOk server versions v₀ result.1
  ne_eof : result.2 ≠ some .eof
  before : result.2 = none → ∀ b, result.1.body = some b → b.at_ ≤ off

lemma ReaderOk.openRange (hranges : server.ranges = true) (hoff : off < v₀.bytes.length)
    {answer : Option Version} (hanswer : ∀ v ∈ answer, v ∈ versions) :
    Reaches server versions v₀ off (r.openRange server off answer) := by
  unfold HttpReader.openRange
  generalize hchunk : (if off = r.nextEnd then min (r.chunk * 2) maxChunk else minChunk) = chunk
  have hnone := h.ranged hranges { r with body := none, chunk } rfl (by simp)
  cases answer with
  | none => exact ⟨hnone, by simp, by simp⟩
  | some v =>
    obtain ⟨val, hval, hunique⟩ := h.validator
    obtain ⟨-, hmatch, hlt, heq⟩ | ⟨-, hmatch, hge, heq⟩ | ⟨-, heq⟩ :=
      answer_range_cases server v off
        (({ r with body := none, chunk } : HttpReader).rangeOf off chunk).2 r.validator
    all_goals
      have hpair : ({ r with body := none, chunk } : HttpReader).rangeOf off chunk =
        (off, (({ r with body := none, chunk } : HttpReader).rangeOf off chunk).2) := rfl
      dsimp only
      rw [hpair, heq]
      dsimp only
    · have hsame : v = v₀ := by
        rw [hval] at hmatch
        exact hunique v (hanswer v rfl) hmatch
      subst hsame
      rw [if_neg (by simp), if_neg (by simp [h.size, h.etag])]
      refine ⟨h.ranged hranges _ rfl fun b hb => ?_, by simp, fun _ b hb => ?_⟩
      all_goals cases hb
      · exact (isSlice_drop v.bytes off).take _
      · exact le_rfl
    · have hsame : v = v₀ := by
        rw [hval] at hmatch
        exact hunique v (hanswer v rfl) hmatch
      subst hsame
      omega
    · refine ⟨hnone, ?_, fun _ b hb => by cases hb⟩
      split <;> simp

lemma ReaderOk.rangedTurn (hranges : server.ranges = true) (hb : BodyOk v₀ b) (hat : b.at_ ≤ off)
    (want : ℕ) (event : ReadEvent) :
    ReaderOk server versions v₀ (r.rangedTurn b want off event).1 ∧
      IsSlice v₀.bytes off (r.rangedTurn b want off event).2.1 := by
  obtain ⟨-, hskipped, hskippedAt⟩ := hb.read (off - b.at_) event.skip
  have hle := read_fst_length_le b (off - b.at_) event.skip
  unfold HttpReader.rangedTurn
  dsimp only
  split
  · refine ⟨h.ranged hranges _ rfl fun b' hb' => ?_, isSlice_nil _ _⟩
    split at hb'
    · cases hb'
    · cases hb'
      exact hskipped
  · rename_i hreached
    have hoff : (b.read (off - b.at_) event.skip).2.at_ = off := by omega
    obtain ⟨hdata, hrest, -⟩ := hskipped.read (min want (b.end_.getD 0 - off)) event.count
    rw [hoff] at hdata
    refine ⟨h.ranged hranges _ rfl fun b' hb' => ?_, hdata⟩
    split at hb'
    · cases hb'
    · cases hb'
      exact hrest

end

/-- All answers are of these versions. -/
def AnswersOk (versions : Set Version) (answers : List (Option Version)) : Prop :=
  ∀ answer ∈ answers, ∀ v ∈ answer, v ∈ versions

lemma AnswersOk.head (h : AnswersOk versions answers) : ∀ v ∈ answers.head?.join, v ∈ versions := by
  intro v hv
  cases answers with
  | nil => cases hv
  | cons answer answers => exact h answer mem_cons_self v hv

lemma AnswersOk.tail (h : AnswersOk versions answers) : AnswersOk versions answers.tail :=
  fun answer hanswer => h answer (mem_of_mem_tail hanswer)

structure ReadOk (server : Server) (versions : Set Version) (v₀ : Version) (off : ℕ)
    (result : HttpReader × Net × Got) : Prop where
  reader : ReaderOk server versions v₀ result.1
  answers : AnswersOk versions result.2.1.answers
  right : Right v₀ (off, result.2.2)

lemma right_error {err : Option HttpErr} (h : err ≠ some .eof) :
    Right v₀ (off, { err }) := ⟨isSlice_nil _ _, fun heof => absurd heof h⟩

lemma bodyFailure_ne_eof (err : BodyErr) : bodyFailure err ≠ .eof := by
  cases err <;> simp [bodyFailure]

lemma ReaderOk.reach (h : ReaderOk server versions v₀ r) (hranges : server.ranges = true)
    (hoff : off < v₀.bytes.length) (hanswers : AnswersOk versions answers) :
    Reaches server versions v₀ off (r.reach server off answers).1 ∧
      AnswersOk versions (r.reach server off answers).2 := by
  unfold HttpReader.reach
  split_ifs with hreach
  · refine ⟨⟨h, by simp, fun _ b hb => ?_⟩, hanswers⟩
    simp only [inReach, show r.body = some b from hb, any_some, decide_eq_true_eq] at hreach
    exact hreach.1
  · exact ⟨h.openRange hranges hoff hanswers.head, hanswers.tail⟩

lemma ReaderOk.readRanged (hranges : server.ranges = true) (hoff : off < v₀.bytes.length) (want : ℕ)
    (reads : List ReadEvent) :
    ∀ {attempt : ℕ} {r : HttpReader} {answers : List (Option Version)}
      {result : HttpReader × Net × Got}, ReaderOk server versions v₀ r → AnswersOk versions answers →
      r.readRanged server want off attempt answers reads = some result →
        ReadOk server versions v₀ off result := by
  induction reads with
  | nil =>
    intro attempt r answers result h hanswers heq
    obtain ⟨⟨hok, heof, -⟩, hrest⟩ := h.reach hranges hoff hanswers
    unfold HttpReader.readRanged at heq
    dsimp only at heq
    split at heq
    · rename_i err herr
      cases heq
      exact ⟨hok, hrest, right_error (herr ▸ heof)⟩
    · split at heq
      · rename_i hcons
        cases hcons
      · cases heq
  | cons event reads ih =>
    intro attempt r answers result h hanswers heq
    obtain ⟨⟨hok, heof, hat⟩, hrest⟩ := h.reach hranges hoff hanswers
    unfold HttpReader.readRanged at heq
    dsimp only at heq
    split at heq
    · rename_i err herr
      cases heq
      exact ⟨hok, hrest, right_error (herr ▸ heof)⟩
    rename_i hopened
    split at heq
    · rename_i b event' reads' hbody hcons
      obtain ⟨rfl, rfl⟩ := List.cons.inj hcons
      obtain ⟨hturn, hdata⟩ := hok.rangedTurn hranges (hok.body b hbody) (hat hopened b hbody) want event
      have hnone := hturn.ranged hranges
        { (HttpReader.rangedTurn _ b want off event).1 with body := none } rfl (by simp)
      split at heq
      · cases heq
        exact ⟨hturn, hrest, hdata, by simp⟩
      split at heq
      · exact ih hturn hrest heq
      · split at heq
        · cases heq
          exact ⟨hnone, hrest, right_error (by simp [bodyFailure_ne_eof])⟩
        · exact ih hnone hrest heq
    · cases heq

/-! ### Progressive reads -/

section

variable (h : ReaderOk server versions v₀ r)
include h

lemma ReaderOk.keep (hmode : server.ranges = false) {b' : HttpBody} (hbody : r.body = some b)
    (hdata : IsSlice v₀.bytes b.at_ data) (hb' : BodyOk v₀ b') (hat : b'.at_ = b.at_ + data.length) :
    ReaderOk server versions v₀ (r.keep data b') := by
  have hend := h.winEnd (h.mode.trans hmode) b hbody
  have hwin : IsSlice v₀.bytes r.winStart (r.win ++ data) := h.win.append (hend.symm ▸ hdata)
  have hlength : (r.win ++ data).length = r.win.length + data.length := length_append
  unfold HttpReader.keep
  dsimp only
  split
  · generalize hcut : (r.win ++ data).length - window = cut
    refine { h with body := ?_, win := hwin.drop cut, winEnd := ?_, small := ?_ }
    · intro b'' hb''
      exact some.inj hb'' ▸ hb'
    · intro _ b'' hb''
      cases hb''
      show r.winStart + cut + ((r.win ++ data).drop cut).length = b'.at_
      rw [length_drop]
      omega
    · intro hranges hsmall
      have hzero := (h.small hranges hsmall).1
      rw [hzero] at hwin
      have := hwin.length_le
      omega
  · refine { h with body := ?_, win := hwin, winEnd := ?_, small := ?_ }
    · intro b'' hb''
      exact some.inj hb'' ▸ hb'
    · intro _ b'' hb''
      cases hb''
      show r.winStart + (r.win ++ data).length = b'.at_
      omega
    · exact fun hranges hsmall => ⟨(h.small hranges hsmall).1, fun _ => isSome_some⟩

/-- **A body that is begun again is of the first version**, if the other versions are told. -/
lemma ReaderOk.restart (hlarge : 2 * window < v₀.bytes.length) {answer : Option Version}
    (htold : ∀ v ∈ answer, Told v₀ v) :
    ReaderOk server versions v₀ (r.restart server answer).1 ∧
      (r.restart server answer).2 ≠ some .eof ∧
      ((r.restart server answer).2 = none →
        ∃ b, (r.restart server answer).1.body = some b ∧ b.at_ = 0) := by
  have hnone : ReaderOk server versions v₀ { r with body := none } :=
    { h with
      body := by simp
      winEnd := by simp
      small := fun _ hsmall => absurd hsmall (Nat.not_le.mpr hlarge) }
  unfold HttpReader.restart
  cases answer with
  | none => exact ⟨hnone, by simp, by simp⟩
  | some v =>
    have hstatus : (server.answer v { range := none, ifRange := none }) =
        { status := .ok v.bytes.length
          etag := v.etag
          lastModified := v.lastModified
          body := v.bytes } := by
      unfold Server.answer
      cases server.ranges <;> rfl
    dsimp only
    rw [hstatus]
    dsimp only
    split
    · exact ⟨hnone, by simp, by simp⟩
    rename_i hsame
    rw [h.etag, h.size] at hsame
    have hbytes : v.bytes = v₀.bytes := by
      obtain heq | hetag | hlength := htold v rfl
      · exact heq
      · exact absurd (.inl hetag) hsame
      · exact absurd (.inr (by simpa using Ne.symm hlength)) hsame
    refine ⟨{ h with body := ?_, win := isSlice_nil _ _, winEnd := ?_, small := ?_ }, by simp,
      fun _ => ⟨_, rfl, rfl⟩⟩
    · intro b hb
      cases hb
      rw [hbytes]
      exact isSlice_zero v₀.bytes
    · intro _ b hb
      cases hb
      rfl
    · exact fun _ hsmall => absurd hsmall (Nat.not_le.mpr hlarge)

lemma ReaderOk.fromWindow (hdata : r.fromWindow want off = some data) : IsSlice v₀.bytes off data := by
  unfold HttpReader.fromWindow at hdata
  split at hdata
  · cases hdata
  · cases hdata
    have hslice := (h.win.drop (off - r.winStart)).take want
    rwa [show r.winStart + (off - r.winStart) = off by omega] at hslice

lemma ReaderOk.rewind (hsafe : Safe server versions v₀) (hmode : server.ranges = false)
    (hopen : r.closed = false) (hwindow : r.fromWindow want off = none)
    (hanswers : AnswersOk versions answers) :
    Reaches server versions v₀ off (r.rewind server off answers).1 ∧
      AnswersOk versions (r.rewind server off answers).2 := by
  have hranges := h.mode.trans hmode
  unfold HttpReader.rewind
  split
  · rename_i hbehind
    split
    · exact ⟨⟨h, by simp, by simp⟩, hanswers⟩
    rename_i hlive
    have hlarge : 2 * window < v₀.bytes.length := by
      by_contra hsmall
      obtain ⟨hzero, hbody⟩ := h.small hranges (Nat.not_lt.mp hsmall)
      obtain ⟨b, hb⟩ := isSome_iff_exists.mp (hbody hopen)
      have hend := h.winEnd hranges b hb
      rw [hb, all_some, decide_eq_true_eq] at hbehind
      unfold HttpReader.fromWindow at hwindow
      rw [if_neg (by omega)] at hwindow
      cases hwindow
    have htold : ∀ v ∈ versions, Told v₀ v := by
      obtain hserver | hicecast | hsmall | htold := hsafe
      · rw [hmode] at hserver
        cases hserver
      · rw [h.live hranges, hicecast] at hlive
        exact absurd rfl hlive
      · omega
      · exact htold
    obtain ⟨hok, heof, hat⟩ := h.restart hlarge fun v hv => htold v (hanswers.head v hv)
    refine ⟨⟨hok, heof, fun hnone b hb => ?_⟩, hanswers.tail⟩
    obtain ⟨b', hb', hzero⟩ := hat hnone
    rw [hb] at hb'
    cases hb'
    omega
  · rename_i hahead
    refine ⟨⟨h, by simp, fun _ b hb => ?_⟩, hanswers⟩
    rw [show r.body = some b from hb] at hahead
    simpa using hahead

lemma ReaderOk.progressiveFailure {at_ : ℕ} (hat : at_ < v₀.bytes.length) (err : Option BodyErr) :
    ReaderOk server versions v₀ (r.progressiveFailure at_ err).1 ∧
      (r.progressiveFailure at_ err).2 ≠ some .eof := by
  cases err with
  | none => exact ⟨h, by simp [HttpReader.progressiveFailure]⟩
  | some err =>
    cases err with
    | eof =>
      simp only [HttpReader.progressiveFailure]
      split
      · exact ⟨h, by simp⟩
      · refine ⟨{ h with size := by simp [h.size] }, ?_⟩
        simp [h.size, hat]
    | stalled => exact ⟨h, by simp [HttpReader.progressiveFailure, bodyFailure]⟩
    | canceled => exact ⟨h, by simp [HttpReader.progressiveFailure, bodyFailure]⟩
    | connection => exact ⟨h, by simp [HttpReader.progressiveFailure, bodyFailure]⟩

end

lemma ReaderOk.forward (hmode : server.ranges = false) (hoff : off < v₀.bytes.length)
    (reads : List ReadEvent) :
    ∀ {r : HttpReader} {result : HttpReader × List ReadEvent × Option HttpErr},
      ReaderOk server versions v₀ r → (∀ b, r.body = some b → b.at_ ≤ off) →
      r.forward off reads = some result →
        ReaderOk server versions v₀ result.1 ∧ result.2.2 ≠ some .eof ∧
          (result.2.2 = none → ∀ b, result.1.body = some b → b.at_ = off) := by
  have hthere : ∀ {r : HttpReader} {b : HttpBody}, (∀ b, r.body = some b → b.at_ ≤ off) →
      r.body = some b → off ≤ b.at_ → ∀ b', r.body = some b' → b'.at_ = off := by
    intro r b hat hb hreached b' hb'
    obtain rfl := some.inj (hb.symm.trans hb')
    exact Nat.le_antisymm (hat b hb) hreached
  induction reads with
  | nil =>
    intro r result h hat heq
    unfold HttpReader.forward at heq
    split at heq
    · cases heq
    rename_i b hb
    split at heq
    · rename_i hreached
      cases heq
      exact ⟨h, by simp, fun _ => hthere hat hb hreached⟩
    · cases heq
  | cons event reads ih =>
    intro r result h hat heq
    unfold HttpReader.forward at heq
    split at heq
    · cases heq
    rename_i b hb
    split at heq
    · rename_i hreached
      cases heq
      exact ⟨h, by simp, fun _ => hthere hat hb hreached⟩
    · obtain ⟨hdata, hrest, hnext⟩ := (h.body b hb).read (min scratchSize (off - b.at_)) event.count
      have hle := read_fst_length_le b (min scratchSize (off - b.at_)) event.count
      have hkeep := h.keep hmode hb hdata hrest hnext
      have hatNext : (b.read (min scratchSize (off - b.at_)) event.count).2.at_ ≤ off := by omega
      dsimp only at heq
      split at heq
      · refine ih hkeep (fun b' hb' => ?_) heq
        have hsame : b' = (b.read (min scratchSize (off - b.at_)) event.count).2 := by
          unfold HttpReader.keep at hb'
          dsimp only at hb'
          split at hb' <;> exact (some.inj hb').symm
        rw [hsame]
        exact hatNext
      · rename_i err _
        cases heq
        obtain ⟨hok, heof⟩ := hkeep.progressiveFailure (lt_of_le_of_lt hatNext hoff) (some err)
        refine ⟨hok, heof, fun hnone => ?_⟩
        cases err with
        | eof =>
          unfold HttpReader.progressiveFailure at hnone
          dsimp only at hnone
          split at hnone <;> cases hnone
        | stalled => cases hnone
        | canceled => cases hnone
        | connection => cases hnone

variable {result : HttpReader × Net × Got}

section

variable (h : ReaderOk server versions v₀ r)
include h

lemma ReaderOk.readHere (hmode : server.ranges = false) (hoff : off < v₀.bytes.length)
    (hat : ∀ b, r.body = some b → b.at_ = off) (hanswers : AnswersOk versions answers)
    {reads : List ReadEvent} (heq : r.readHere want answers reads = some result) :
    ReadOk server versions v₀ off result := by
  unfold HttpReader.readHere at heq
  split at heq
  · rename_i b event reads hb
    obtain ⟨hdata, hrest, hnext⟩ := (h.body b hb).read want event.count
    have hkeep := h.keep hmode hb hdata hrest hnext
    have hoffset := hat b hb
    dsimp only at heq
    split at heq
    · cases heq
      exact ⟨hkeep, hanswers, hoffset ▸ hdata, by simp⟩
    rename_i hempty
    cases heq
    have hnil := not_not.mp hempty
    rw [hnil, length_nil, Nat.add_zero, hoffset] at hnext
    obtain ⟨hok, heof⟩ := hkeep.progressiveFailure (hnext.symm ▸ hoff) event.err
    exact ⟨hok, hanswers, isSlice_nil _ _, fun hend => absurd hend heof⟩
  · cases heq

lemma ReaderOk.readProgressive (hsafe : Safe server versions v₀) (hmode : server.ranges = false)
    (hopen : r.closed = false) (hoff : off < v₀.bytes.length)
    (hanswers : AnswersOk versions net.answers)
    (heq : r.readProgressive server want off net = some result) :
    ReadOk server versions v₀ off result := by
  unfold HttpReader.readProgressive at heq
  split at heq
  · rename_i data hdata
    cases heq
    exact ⟨h, hanswers, h.fromWindow hdata, by simp⟩
  rename_i hwindow
  obtain ⟨⟨hok, heof, hbefore⟩, hanswers'⟩ := h.rewind hsafe hmode hopen hwindow hanswers
  dsimp only at heq
  split at heq
  · rename_i err herr
    cases heq
    exact ⟨hok, hanswers', right_error fun heq => heof (heq ▸ herr)⟩
  rename_i hnone
  split at heq
  · cases heq
  · rename_i r' reads err hforward
    cases heq
    obtain ⟨hok', heof', -⟩ := ReaderOk.forward hmode hoff _ hok (hbefore hnone) hforward
    exact ⟨hok', hanswers', right_error fun heq => heof' (heq ▸ rfl)⟩
  · rename_i r' reads hforward
    obtain ⟨hok', -, hat⟩ := ReaderOk.forward hmode hoff _ hok (hbefore hnone) hforward
    exact hok'.readHere hmode hoff (hat rfl) hanswers' heq

/-! ### Calls -/

lemma ReaderOk.keepHead (hdata : IsSlice v₀.bytes off data) :
    ReaderOk server versions v₀ (r.keepHead off data) := by
  unfold HttpReader.keepHead
  split_ifs with hnext
  · refine { h with head := h.head.append ?_ }
    rw [Nat.zero_add, ← hnext.1]
    exact hdata.take _
  · exact h

lemma ReaderOk.readAt (hsafe : Safe server versions v₀) (hanswers : AnswersOk versions net.answers)
    (heq : r.readAt server want off net = some result) : ReadOk server versions v₀ off result := by
  unfold HttpReader.readAt at heq
  rw [h.size] at heq
  split at heq
  · cases heq
    exact ⟨h, hanswers, right_error (by simp)⟩
  rename_i hopen
  split at heq
  · cases heq
    exact ⟨h, hanswers, isSlice_nil _ _, by simp⟩
  split at heq
  · rename_i hend
    cases heq
    exact ⟨h, hanswers, isSlice_nil _ _, fun _ => by simpa using hend⟩
  rename_i hbefore
  have hoff : off < v₀.bytes.length := by simpa using hbefore
  split at heq
  · rename_i hmode
    exact h.readProgressive hsafe (h.mode ▸ by simpa using hmode) (by simpa using hopen) hoff hanswers heq
  rename_i hmode
  split at heq
  · cases heq
    refine ⟨h, hanswers, ?_, by simp⟩
    have hslice := (h.head.drop off).take want
    rwa [Nat.zero_add] at hslice
  · obtain ⟨⟨r', net', got⟩, hread, rfl⟩ := map_eq_some_iff.mp heq
    have hranges : server.ranges = true := h.mode ▸ by simpa using hmode
    obtain ⟨hok, hanswers', hright⟩ := ReaderOk.readRanged hranges hoff want _ h hanswers hread
    exact ⟨hok.keepHead hright.1, hanswers', hright⟩

end

lemma ReaderOk.readFull (hsafe : Safe server versions v₀) (fuel : ℕ) :
    ∀ {want off : ℕ} {r : HttpReader} {net : Net} {result : HttpReader × Net × Got},
      ReaderOk server versions v₀ r → AnswersOk versions net.answers →
      HttpReader.readFull server fuel want off r net = some result →
        ReadOk server versions v₀ off result := by
  induction fuel with
  | zero =>
    intro want off r net result _ _ heq
    cases heq
  | succ fuel ih =>
    intro want off r net result h hanswers heq
    unfold HttpReader.readFull at heq
    split at heq
    · cases heq
      exact ⟨h, hanswers, isSlice_nil _ _, by simp⟩
    split at heq
    · cases heq
    rename_i r' net' got hread
    have hone := h.readAt hsafe hanswers hread
    split at heq
    · cases heq
      exact hone
    obtain ⟨⟨r'', net'', rest⟩, hrest, rfl⟩ := map_eq_some_iff.mp heq
    obtain ⟨hok, hanswers', hright⟩ := ih hone.reader hone.answers hrest
    refine ⟨hok, hanswers', hone.right.1.append hright.1, fun hend => ?_⟩
    have := hright.2 hend
    simp only [length_append] at this ⊢
    omega

lemma ReaderOk.seek (h : ReaderOk server versions v₀ r) (offset : ℤ) (whence : Whence) :
    ReaderOk server versions v₀ (r.seek offset whence).1 := by
  unfold HttpReader.seek
  dsimp only
  split
  · exact h
  · split
    · exact h
    · exact { h with }

lemma ReaderOk.call (h : ReaderOk server versions v₀ r) (hsafe : Safe server versions v₀)
    (hanswers : AnswersOk versions net.answers) {c : HttpCall}
    {result : HttpReader × Net × Option (ℕ × Got)} (heq : r.call server net c = some result) :
    ReaderOk server versions v₀ result.1 ∧ AnswersOk versions result.2.1.answers ∧
      ∀ x ∈ result.2.2, Right v₀ x := by
  cases c with
  | read want =>
    obtain ⟨⟨r', net', got⟩, hread, rfl⟩ := map_eq_some_iff.mp heq
    obtain ⟨hok, hanswers', hright⟩ := h.readAt hsafe hanswers hread
    refine ⟨{ hok with }, hanswers', fun x hx => ?_⟩
    exact some.inj hx ▸ hright
  | readAt want off =>
    obtain ⟨⟨r', net', got⟩, hread, rfl⟩ := map_eq_some_iff.mp heq
    obtain ⟨hok, hanswers', hright⟩ := ReaderOk.readFull hsafe _ h hanswers hread
    exact ⟨hok, hanswers', fun x hx => some.inj hx ▸ hright⟩
  | seek offset whence =>
    cases heq
    exact ⟨h.seek offset whence, hanswers, by simp⟩
  | close =>
    cases heq
    refine ⟨{ h with body := by simp, winEnd := by simp, small := ?_ }, hanswers, by simp⟩
    exact fun hranges hsmall => ⟨(h.small hranges hsmall).1, by simp⟩

/-- **Every read of a run gives bytes of the first version.** -/
lemma ReaderOk.run (hsafe : Safe server versions v₀) (calls : List HttpCall) :
    ∀ {r : HttpReader} {net : Net}, ReaderOk server versions v₀ r →
      AnswersOk versions net.answers → ∀ x ∈ HttpReader.run server calls r net, Right v₀ x := by
  induction calls with
  | nil =>
    intro r net _ _ x hx
    cases hx
  | cons c calls ih =>
    intro r net h hanswers x hx
    unfold HttpReader.run at hx
    split at hx
    · cases hx
    rename_i r' net' result hcall
    obtain ⟨hok, hanswers', hright⟩ := h.call hsafe hanswers hcall
    obtain hone | hrest := mem_append.mp hx
    · exact hright x (mem_toList.mp hone)
    · exact ih hok hanswers' x hrest

/-! ### Another version -/

lemma readFull_whole {r' : HttpReader} (bytes : Bytes) {answers' : List (Option Version)}
    (hopen : r.closed = false) (hranges : r.ranges = false) (hsize : r.size = some bytes.length)
    (hbytes : bytes ≠ []) (hwindow : r.fromWindow bytes.length 0 = none)
    (hrewind : r.rewind server 0 answers = ((r', none), answers'))
    (hbody : r'.body = some { rest := bytes, at_ := 0, end_ := none }) (fuel : ℕ)
    (reads : List ReadEvent) :
    HttpReader.readFull server (fuel + 2) bytes.length 0 r
        { answers, reads := { count := bytes.length } :: reads } =
      some (r'.keep bytes { rest := [], at_ := bytes.length, end_ := none },
        { answers := answers', reads }, { data := bytes }) := by
  have hpos : bytes.length ≠ 0 := by simpa using hbytes
  have hforward : r'.forward 0 ({ count := bytes.length } :: reads) =
      some (r', { count := bytes.length } :: reads, none) := by
    unfold forward
    rw [hbody]
    exact if_pos (Nat.le_refl 0)
  have hread : r.readAt server bytes.length 0 { answers, reads := { count := bytes.length } :: reads } =
        some (r'.keep bytes { rest := [], at_ := bytes.length, end_ := none },
          { answers := answers', reads }, { data := bytes }) := by
    simp [readAt, readProgressive, readHere, HttpBody.read, hopen,
      hranges, hsize, hbytes, hwindow, hrewind, hforward, hbody]
  unfold readFull
  rw [if_neg hpos, hread]
  simp [readFull]

lemma open_progressive (hranges : server.ranges = false) (v : Version) :
    ∃ validator, HttpReader.open_ server v =
      .ok { etag := v.etag
            validator
            size := some v.bytes.length
            live := server.icecast
            body := some { rest := v.bytes, at_ := 0, end_ := none } } := by
  unfold open_ Server.answer
  rw [hranges]
  exact ⟨_, rfl⟩

lemma restart_same (server : Server) (v : Version) (hsize : r.size = some v.bytes.length)
    (hetag : r.etag = v.etag) :
    r.restart server (some v) =
      ({ r with body := some { rest := v.bytes, at_ := 0, end_ := none }, win := [], winStart := 0 },
        none) := by
  unfold restart Server.answer
  cases server.ranges <;> simp [hsize, hetag]

lemma keep_large (hlarge : 2 * window < data.length) (b : HttpBody) :
    ∃ win start, 0 < start ∧ r.keep data b = { r with body := some b, win, winStart := start } := by
  have hlength : (r.win ++ data).length = r.win.length + data.length := length_append
  exact ⟨_, r.winStart + ((r.win ++ data).length - window), by omega, if_pos (by omega)⟩

/-- **A version that is not told is read in place of the first one**. -/
lemma exists_not_right (server : Server) (hranges : server.ranges = false)
    (hicecast : server.icecast = false) (hlarge : 2 * window < v₀.bytes.length) {v : Version}
    (hbytes : v.bytes ≠ v₀.bytes) (hetag : v.etag = v₀.etag)
    (hlength : v.bytes.length = v₀.bytes.length) :
    ∃ r, HttpReader.open_ server v₀ = .ok r ∧
      ∃ x ∈ HttpReader.run server [.readAt v₀.bytes.length 0, .readAt v₀.bytes.length 0] r
          { answers := [some v]
            reads := [{ count := v₀.bytes.length }, { count := v₀.bytes.length }] },
        ¬ Right v₀ x := by
  have hpos : 0 < v₀.bytes.length := by omega
  obtain ⟨validator, hopen⟩ := open_progressive hranges v₀
  refine ⟨_, hopen, (0, { data := v.bytes }), ?_, ?_⟩
  · generalize hr₀ : ({ etag := v₀.etag
                        validator
                        size := some v₀.bytes.length
                        live := server.icecast
                        body := some { rest := v₀.bytes, at_ := 0, end_ := none } } : HttpReader) = r₀
    -- the first read passes the window, and the second one begins the resource again
    have hfirst : r₀.rewind server 0 [some v] = ((r₀, none), [some v]) := by
      rw [← hr₀]
      rfl
    obtain ⟨win, start, hstart, hkeep⟩ := keep_large (r := r₀) hlarge
      { rest := [], at_ := v₀.bytes.length, end_ := none }
    generalize hr₁ : ({ r₀ with
      body := some { rest := [], at_ := v₀.bytes.length, end_ := none }
      win
      winStart := start } : HttpReader) = r₁ at hkeep
    have hsecond : r₁.rewind server 0 [some v] =
        (({ r₁ with
            body := some { rest := v.bytes, at_ := 0, end_ := none }, win := [], winStart := 0 },
          none), []) := by
      have hrestart := restart_same (r := r₁) server v (by rw [← hr₁, ← hr₀, hlength])
        (by rw [← hr₁, ← hr₀, hetag])
      have hlive : r₁.live = false := by rw [← hr₁, ← hr₀, hicecast]
      have hbody : r₁.body.all (0 < ·.at_) = true := by rw [← hr₁]; simpa using hpos
      unfold rewind
      rw [if_pos hbody, if_neg (by simp [hlive])]
      exact congrArg (·, []) hrestart
    have hread₀ := readFull_whole v₀.bytes (by rw [← hr₀]) (by rw [← hr₀]) (by rw [← hr₀])
      (length_pos_iff.mp hpos) (by rw [← hr₀]; rfl) hfirst (by rw [← hr₀])
      (v₀.bytes.length + 1) [{ count := v₀.bytes.length }]
    have hread₁ := readFull_whole v.bytes (by rw [← hr₁, ← hr₀]) (by rw [← hr₁, ← hr₀])
      (by rw [← hr₁, ← hr₀, hlength]) (length_pos_iff.mp (hlength ▸ hpos))
      (by rw [← hr₁]; exact if_pos (.inl hstart)) hsecond rfl v₀.bytes.length []
    rw [hkeep] at hread₀
    rw [hlength] at hread₁
    have hcall₀ : r₀.call server { answers := [some v]
                                   reads := [{ count := v₀.bytes.length },
                                     { count := v₀.bytes.length }] } (.readAt v₀.bytes.length 0) =
        some (r₁, { answers := [some v], reads := [{ count := v₀.bytes.length }] },
          some (0, { data := v₀.bytes })) :=
      congrArg (Option.map _) hread₀
    have hcall₁ : ∃ r₂ net, r₁.call server { answers := [some v]
                                             reads := [{ count := v₀.bytes.length }] }
        (.readAt v₀.bytes.length 0) = some (r₂, net, some (0, { data := v.bytes })) :=
      ⟨_, _, congrArg (Option.map _) hread₁⟩
    obtain ⟨r₂, net, hcall₁⟩ := hcall₁
    simp [HttpReader.run, hcall₀, hcall₁]
  · rintro ⟨hslice, -⟩
    exact hbytes (hslice.eq_of_length hlength)

/-- **An HTTP reader reads the version that answered the opening** exactly if it is safe from the other
versions. -/
theorem http_reads_opened_version_iff (hown : Own versions) (hv₀ : v₀ ∈ versions) :
    (∀ r net calls, HttpReader.open_ server v₀ = .ok r → AnswersOk versions net.answers →
      ∀ x ∈ HttpReader.run server calls r net, Right v₀ x) ↔ Safe server versions v₀ := by
  constructor
  · intro hall
    by_contra hunsafe
    simp only [Safe, Told, not_or, not_forall, not_not, Bool.not_eq_true, Nat.not_le] at hunsafe
    obtain ⟨hranges, hicecast, hlarge, v, hv, hbytes, hetag, hlength⟩ := hunsafe
    obtain ⟨r, hopen, x, hx, hnot⟩ :=
      exists_not_right server hranges hicecast hlarge hbytes hetag hlength
    refine hnot (hall r _ _ hopen ?_ x hx)
    intro answer hanswer w hw
    obtain rfl := mem_singleton.mp hanswer
    exact some.inj hw ▸ hv
  · intro hsafe r net calls hopen hanswers
    exact ReaderOk.run hsafe calls (readerOk_open hown hv₀ hopen) hanswers

end

/-- Two versions with a `Last-Modified` of their own, and a server without ranges. -/
def oldFile : Version :=
  { bytes := List.replicate (2 * window + 1) 0, etag := none, lastModified := some "old" }

@[inherit_doc oldFile]
def newFile : Version :=
  { bytes := List.replicate (2 * window + 1) 1, etag := none, lastModified := some "new" }

lemma own_files : Own {oldFile, newFile} := by
  constructor
  · rintro v (rfl | rfl) w _ t _ htag _ <;> cases htag
  · rintro v (rfl | rfl)
    · exact .inr ⟨"old", rfl, by rintro w (rfl | rfl) hw; exacts [rfl, absurd hw (by decide)]⟩
    · exact .inr ⟨"new", rfl, by rintro w (rfl | rfl) hw; exacts [absurd hw (by decide), rfl]⟩

theorem http_reads_opened_version_ranges :
    Own {oldFile, newFile} ∧ Safe { ranges := true } {oldFile, newFile} oldFile ∧
      ∀ r net calls, HttpReader.open_ { ranges := true } oldFile = .ok r →
        AnswersOk {oldFile, newFile} net.answers →
          ∀ x ∈ HttpReader.run { ranges := true } calls r net, Right oldFile x :=
  ⟨own_files, .inl rfl, (http_reads_opened_version_iff own_files (.inl rfl)).mpr (.inl rfl)⟩

/-- **The bytes of a changed file are spliced** behind those of the first one. -/
theorem http_reads_spliced :
    Own {oldFile, newFile} ∧
      ∃ r net calls, HttpReader.open_ { ranges := false } oldFile = .ok r ∧
        AnswersOk {oldFile, newFile} net.answers ∧
          ∃ x ∈ HttpReader.run { ranges := false } calls r net, ¬ Right oldFile x := by
  have hlength (b : UInt8) : (List.replicate (2 * window + 1) b).length = 2 * window + 1 :=
    length_replicate
  have hbytes : newFile.bytes ≠ oldFile.bytes := by
    intro heq
    have hhead := congrArg List.head? heq
    exact absurd (some.inj hhead) (by decide)
  have hlarge : 2 * window < oldFile.bytes.length := by
    rw [oldFile, hlength]
    exact Nat.lt_succ_self _
  obtain ⟨r, hopen, x, hx, hnot⟩ := exists_not_right { ranges := false } rfl rfl hlarge
    hbytes rfl ((hlength 1).trans (hlength 0).symm)
  refine ⟨own_files, r, _, _, hopen, ?_, x, hx, hnot⟩
  intro answer hanswer w hw
  obtain rfl := mem_singleton.mp hanswer
  exact .inr (some.inj hw).symm

end Goav.Scheme
