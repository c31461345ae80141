import Goav.Av.Types

/-!
The reader of an HTTP resource (`scheme/http.go`) and its server, whose resource has versions. The
network is a script: the version that answers a request, and for each read of a body how much arrives.
Offsets are natural numbers. The texts of the headers, redirects, credentials and the draining of bodies
are left out.
-/

namespace Goav.Scheme

open Goav.Av

/-! ### Servers -/

/-- An `ETag`; a weak one does not tell two versions apart byte by byte. -/
structure ETag where
  weak : Bool
  tag : String
  deriving DecidableEq

structure Version where
  bytes : Bytes
  etag : Option ETag
  lastModified : Option String

inductive Validator where
  | etag (t : ETag)
  | date (d : String)

/-- A request for the whole resource, or for the bytes from a first to a last one. -/
structure Request where
  range : Option (ℕ × ℕ)
  ifRange : Option Validator

/-- 206 with its `Content-Range`, 200 with its `Content-Length`, or 416. -/
inductive Status where
  | part (first last total : ℕ)
  | ok (contentLength : ℕ)
  | notSatisfiable

structure Response where
  status : Status
  etag : Option ETag
  lastModified : Option String
  body : Bytes

/-- A server that answers range requests, or none, and whether it is an Icecast one. -/
structure Server where
  ranges : Bool
  icecast : Bool := false

def Validator.isOf (v : Version) : Validator → Bool
  | .etag t => !t.weak && v.etag = some t
  | .date d => v.lastModified = some d

/-- The range, unless `If-Range` names another version. -/
def Server.answer (server : Server) (v : Version) (req : Request) : Response :=
  let respond (status : Status) (body : Bytes) : Response :=
    { status, etag := v.etag, lastModified := v.lastModified, body }
  match server.ranges, req.range with
  | true, some (first, last) =>
    if req.ifRange.all (·.isOf v) then
      if first < v.bytes.length then
        let last := min last (v.bytes.length - 1)
        respond (.part first last v.bytes.length) ((v.bytes.drop first).take (last + 1 - first))
      else respond .notSatisfiable []
    else respond (.ok v.bytes.length) v.bytes
  | _, _ => respond (.ok v.bytes.length) v.bytes

/-! ### The network -/

inductive BodyErr where
  | eof | stalled | canceled | connection
  deriving DecidableEq

/-- How far a discard gets, how many bytes arrive, and what stops them. -/
structure ReadEvent where
  skip : ℕ := 0
  skipErr : BodyErr := .connection
  count : ℕ
  err : Option BodyErr := none

structure Net where
  answers : List (Option Version)
  reads : List ReadEvent

/-! ### The reader -/

inductive HttpErr where
  | eof | unexpectedEOF | changed | stalled | canceled | connection | closed | liveEnded | liveBehind
  | noRanges | contentRange | unknownSize | negative

def minChunk : ℕ := 256 * 2 ^ 10
def maxChunk : ℕ := 8 * 2 ^ 20
def headSize : ℕ := 4 * 2 ^ 10
def skipLimit : ℕ := 256 * 2 ^ 10
def window : ℕ := 2 ^ 20
def scratchSize : ℕ := 32 * 2 ^ 10

/-- What is still to come, the offset it is at, and where it ends. -/
structure HttpBody where
  rest : Bytes
  at_ : ℕ
  end_ : Option ℕ

structure HttpReader where
  size : Option ℕ := none
  ranges : Bool := false
  live : Bool := false
  validator : Option Validator := none
  etag : Option ETag := none
  body : Option HttpBody := none
  pos : ℕ := 0
  nextEnd : ℕ := 0
  chunk : ℕ := minChunk
  win : Bytes := []
  winStart : ℕ := 0
  head : Bytes := []
  closed : Bool := false

structure Got where
  data : Bytes := []
  err : Option HttpErr := none

namespace HttpBody

def read (b : HttpBody) (limit count : ℕ) : Bytes × HttpBody :=
  let data := b.rest.take (min count limit)
  (data, { b with rest := b.rest.drop data.length, at_ := b.at_ + data.length })

end HttpBody

def bodyFailure : BodyErr → HttpErr
  | .stalled => .stalled
  | .canceled => .canceled
  | .eof => .unexpectedEOF
  | .connection => .connection

namespace HttpReader

variable (r : HttpReader)

/-- The range of a request for `length` bytes; it does not pass the end of the resource. -/
def rangeOf (off length : ℕ) : ℕ × ℕ :=
  (off, min (off + length - 1) ((r.size.map (· - 1)).getD (off + length - 1)))

def validatorOf (resp : Response) : Option Validator :=
  match resp.etag with
  | some t => if t.weak then resp.lastModified.map .date else some (.etag t)
  | none => resp.lastModified.map .date

variable (server : Server)

/-- `open`: the first request, answered by a version of the resource. -/
def open_ (v : Version) : Except HttpErr HttpReader :=
  let fresh : HttpReader := {}
  let resp := server.answer v { range := some (fresh.rangeOf 0 minChunk), ifRange := none }
  let r := { fresh with etag := resp.etag, validator := validatorOf resp }
  match resp.status with
  | .part first last total =>
    if first ≠ 0 then .error .contentRange
    else
      .ok { r with
        ranges := true
        size := some total
        nextEnd := last + 1
        body := some { rest := resp.body, at_ := 0, end_ := some (last + 1) } }
  | .ok contentLength =>
    .ok { r with
      size := some contentLength
      live := server.icecast
      body := some { rest := resp.body, at_ := 0, end_ := none } }
  | .notSatisfiable => .ok { r with ranges := true, size := some 0 }

variable (off : ℕ) (answer : Option Version)

def openRange :
    HttpReader × Option HttpErr :=
  let chunk := if off = r.nextEnd then min (r.chunk * 2) maxChunk else minChunk
  let r := { r with body := none, chunk }
  match answer with
  | none => (r, some .connection)
  | some v =>
    let resp := server.answer v { range := some (r.rangeOf off chunk), ifRange := r.validator }
    match resp.status with
    | .part first last total =>
      if first ≠ off then (r, some .contentRange)
      else if some total ≠ r.size ∨ (r.etag.isSome ∧ resp.etag.isSome ∧ resp.etag ≠ r.etag) then
        (r, some .changed)
      else
        ({ r with
          nextEnd := last + 1
          body := some { rest := resp.body, at_ := off, end_ := some (last + 1) } }, none)
    | .ok _ => (r, some (if r.validator.isSome then .changed else .noRanges))
    | .notSatisfiable => (r, some .eof)

def inReach : Bool :=
  r.body.any fun b => b.at_ ≤ off ∧ off - b.at_ ≤ skipLimit ∧ off < b.end_.getD 0

def reach (answers : List (Option Version)) :
    (HttpReader × Option HttpErr) × List (Option Version) :=
  if r.inReach off then ((r, none), answers)
  else (r.openRange server off (answers.head?.join), answers.tail)

/-- One turn of the loop of `readRanged` on the open body: what arrives, and what stopped it. -/
def rangedTurn (b : HttpBody) (want off : ℕ) (event : ReadEvent) :
    HttpReader × Bytes × Option BodyErr :=
  let stop := b.end_.getD 0
  let skipped := (b.read (off - b.at_) event.skip).2
  let turn : Bytes × HttpBody × Option BodyErr :=
    if skipped.at_ < off then ([], skipped, some event.skipErr)
    else
      let (data, b) := skipped.read (min want (stop - off)) event.count
      (data, b, event.err)
  ({ r with body := if stop ≤ turn.2.1.at_ then none else some turn.2.1 }, turn.1, turn.2.2)

/-- A read from the open body or a new range. `none` does not return within the script. -/
def readRanged (server : Server) (want off : ℕ) (attempt : ℕ) (r : HttpReader)
    (answers : List (Option Version)) (reads : List ReadEvent) : Option (HttpReader × Net × Got) :=
  let opened := r.reach server off answers
  match opened.1.2 with
  | some err => some (opened.1.1, { answers := opened.2, reads }, { err := some err })
  | none =>
    match opened.1.1.body, reads with
    | some b, event :: reads =>
      let turn := opened.1.1.rangedTurn b want off event
      if turn.2.1 ≠ [] then some (turn.1, { answers := opened.2, reads }, { data := turn.2.1 })
      else
        match turn.2.2 with
        | none => readRanged server want off (attempt + 1) turn.1 opened.2 reads
        | some err =>
          let r := { turn.1 with body := none }
          if 0 < attempt ∨ err = .canceled then
            some (r, { answers := opened.2, reads }, { err := some (bodyFailure err) })
          else readRanged server want off (attempt + 1) r opened.2 reads
    | _, _ => none
termination_by structural reads

def keep (data : Bytes) (b : HttpBody) : HttpReader :=
  let win := r.win ++ data
  if 2 * window < win.length then
    { r with
      body := some b
      win := win.drop (win.length - window)
      winStart := r.winStart + (win.length - window) }
  else { r with body := some b, win }

def fromWindow (want off : ℕ) : Option Bytes :=
  if off < r.winStart ∨ r.winStart + r.win.length ≤ off then none
  else some ((r.win.drop (off - r.winStart)).take want)

/-- The resource is read again from its start, unless it is another one. -/
def restart : HttpReader × Option HttpErr :=
  let r := { r with body := none }
  match answer with
  | none => (r, some .connection)
  | some v =>
    let resp := server.answer v { range := none, ifRange := none }
    match resp.status with
    | .ok contentLength =>
      if resp.etag ≠ r.etag ∨ r.size.any (· ≠ contentLength) then (r, some .changed)
      else
        ({ r with body := some { rest := resp.body, at_ := 0, end_ := none }, win := [], winStart := 0 },
          none)
    | _ => (r, some .connection)

/-- Why a progressive read failed; a read may also bring nothing and no error. -/
def progressiveFailure (at_ : ℕ) : Option BodyErr → HttpReader × Option HttpErr
  | some .eof =>
    if r.live then (r, some .liveEnded)
    else
      let size := r.size.getD at_
      ({ r with size := some size }, some (if at_ < size then .unexpectedEOF else .eof))
  | some err => (r, some (bodyFailure err))
  | none => (r, none)

def forward (off : ℕ) (r : HttpReader) (reads : List ReadEvent) :
    Option (HttpReader × List ReadEvent × Option HttpErr) :=
  match r.body with
  | none => none
  | some b =>
    if off ≤ b.at_ then some (r, reads, none)
    else
      match reads with
      | [] => none
      | event :: reads =>
        let (data, b) := b.read (min scratchSize (off - b.at_)) event.count
        let r := r.keep data b
        match event.err with
        | none => forward off r reads
        | some err =>
          let (r, err) := r.progressiveFailure b.at_ (some err)
          some (r, reads, err)
termination_by structural reads

def readHere (want : ℕ) (r : HttpReader) (answers : List (Option Version)) (reads : List ReadEvent) :
    Option (HttpReader × Net × Got) :=
  match r.body, reads with
  | some b, event :: reads =>
    let (data, b) := b.read want event.count
    let r := r.keep data b
    if data ≠ [] then some (r, { answers, reads }, { data })
    else
      let (r, err) := r.progressiveFailure b.at_ event.err
      some (r, { answers, reads }, { err })
  | _, _ => none

def rewind (answers : List (Option Version)) :
    (HttpReader × Option HttpErr) × List (Option Version) :=
  if r.body.all (off < ·.at_) then
    if r.live then ((r, some .liveBehind), answers)
    else (r.restart server (answers.head?.join), answers.tail)
  else ((r, none), answers)

/-- A read from a server without ranges: from the window, from the open body, or from the start. -/
def readProgressive (want off : ℕ) (r : HttpReader) (net : Net) :
    Option (HttpReader × Net × Got) :=
  match r.fromWindow want off with
  | some data => some (r, net, { data })
  | none =>
    let opened := r.rewind server off net.answers
    match opened.1.2 with
    | some err => some (opened.1.1, { net with answers := opened.2 }, { err := some err })
    | none =>
      match forward off opened.1.1 net.reads with
      | none => none
      | some (r, reads, some err) => some (r, { answers := opened.2, reads }, { err := some err })
      | some (r, reads, none) => readHere want r opened.2 reads

def keepHead (data : Bytes) : HttpReader :=
  if off = r.head.length ∧ off < headSize then
    { r with head := r.head ++ data.take (headSize - off) }
  else r

def readAt (want off : ℕ) (r : HttpReader) (net : Net) :
    Option (HttpReader × Net × Got) :=
  if r.closed then some (r, net, { err := some .closed })
  else if want = 0 then some (r, net, {})
  else if r.size.any (· ≤ off) then some (r, net, { err := some .eof })
  else if !r.ranges then r.readProgressive server want off net
  else if off < r.head.length then some (r, net, { data := (r.head.drop off).take want })
  else
    (r.readRanged server want off 0 net.answers net.reads).map fun (r, net, got) =>
      (r.keepHead off got.data, net, got)

/-- `ReadAt`: all bytes at an offset, or an error. -/
def readFull (server : Server) : ℕ → ℕ → ℕ → HttpReader → Net → Option (HttpReader × Net × Got)
  | 0, _, _, _, _ => none
  | fuel + 1, want, off, r, net =>
    if want = 0 then some (r, net, {})
    else
      match r.readAt server want off net with
      | none => none
      | some (r, net, got) =>
        if got.err.isSome then some (r, net, got)
        else
          (readFull server fuel (want - got.data.length) (off + got.data.length) r net).map
            fun (r, net, rest) => (r, net, { rest with data := got.data ++ rest.data })

end HttpReader

inductive Whence where
  | start | current | end_

inductive HttpCall where
  | read (want : ℕ)
  | readAt (want off : ℕ)
  | seek (offset : ℤ) (whence : Whence)
  | close

namespace HttpReader

def seek (r : HttpReader) (offset : ℤ) (whence : Whence) : HttpReader × Option HttpErr :=
  let target : Option ℤ :=
    match whence with
    | .start => some offset
    | .current => some (offset + r.pos)
    | .end_ => r.size.map (offset + ·)
  match target with
  | none => (r, some .unknownSize)
  | some target => if target < 0 then (r, some .negative) else ({ r with pos := target.toNat }, none)

def call (server : Server) (r : HttpReader) (net : Net) :
    HttpCall → Option (HttpReader × Net × Option (ℕ × Got))
  | .read want =>
    (r.readAt server want r.pos net).map fun (r', net, got) =>
      ({ r' with pos := r.pos + got.data.length }, net, some (r.pos, got))
  | .readAt want off =>
    (readFull server (want + net.reads.length + 1) want off r net).map fun (r, net, got) =>
      (r, net, some (off, got))
  | .seek offset whence => some ((r.seek offset whence).1, net, none)
  | .close => some ({ r with closed := true, body := none }, net, none)

def run (server : Server) : List HttpCall → HttpReader → Net → List (ℕ × Got)
  | [], _, _ => []
  | c :: calls, r, net =>
    match r.call server net c with
    | none => []
    | some (r, net, result) => result.toList ++ run server calls r net

end HttpReader

end Goav.Scheme
