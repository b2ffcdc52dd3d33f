import NfsCrust.Ops

/-!
# Pipelined reads: scheduling and reassembly

The two state machines of a pipelined read in `src/client.rs`.  `ChunkScheduler`
hands out the ranges to read: the gaps that short reads have left, then fresh
chunks up to the end of the range.  `PipelinedEmit` takes the replies in whatever
order they come, and appends their data in the order of their offsets.

The end of the file is known in two ways.  A reply that carries data and reports
EOF, or an empty one at the offset that is to be emitted next, gives the exact end;
an empty reply anywhere else only says that the end is not beyond it.

## Main definitions

* `ReadRequirements`, `ExpectedEof` and the checks on a reply.
* `ChunkScheduler`, `PipelinedEmit`.
-/

namespace NfsCrust

/-! ### Requirements -/

/-- Where a file is expected to end, and who said so. -/
inductive ExpectedEof
  | callerSupplied (offset : ℕ)
  | resolvedWithFile (offset : ℕ)
  deriving DecidableEq, Repr

def ExpectedEof.offset : ExpectedEof → ℕ
  | callerSupplied offset | resolvedWithFile offset => offset

structure ReadRequirements where
  expectedLen : Option ℕ
  expectedEof : Option ExpectedEof
  limit : Option ℕ
  deriving DecidableEq, Repr

namespace ReadRequirements

def new (expectedLen limit : Option ℕ) : ReadRequirements :=
  { expectedLen, expectedEof := none, limit }

def exact (size : ℕ) (limit : Option ℕ) : ReadRequirements :=
  { expectedLen := some size, expectedEof := some (.callerSupplied size), limit }

def resolvedExact (size : ℕ) (limit : Option ℕ) : ReadRequirements :=
  { expectedLen := some size, expectedEof := some (.resolvedWithFile size), limit }

end ReadRequirements

/-! ### Checks -/

def sizeExpectationError (expectation : ExpectedEof) (actual : Option ℕ) : Error :=
  match expectation, actual with
  | .callerSupplied expected, actual => .fileSizeMismatch expected actual
  | .resolvedWithFile expected, some actual =>
      .protocol (s!"READ reached EOF at byte {actual}, but the size resolved with the file "
        ++ s!"was {expected}")
  | .resolvedWithFile expected, none =>
      .protocol s!"READ reached resolved size {expected} without the required EOF indication"

def validateReadReply (read : ReadData) (count : ℕ) : Except Error Unit :=
  if read.data.length > count then
    .error (.protocol s!"NFS READ returned {read.data.length} bytes for a {count} byte request")
  else if count > 0 ∧ read.data = [] ∧ read.eof = false then
    .error (.protocol "NFS READ returned no data for a nonzero request without EOF")
  else .ok ()

def validateEofExpectation (expectation : ExpectedEof) (observedEnd : ℕ) (eof : Bool) :
    Except Error Unit :=
  let expected := expectation.offset
  if eof then
    if observedEnd = expected then .ok ()
    else .error (sizeExpectationError expectation (some observedEnd))
  else if observedEnd ≥ expected then .error (sizeExpectationError expectation none)
  else .ok ()

def validateOptionalExpectedEof (expected : Option ExpectedEof) (observedEnd : ℕ) (eof : Bool) :
    Except Error Unit :=
  match expected with
  | some expected => validateEofExpectation expected observedEnd eof
  | none => .ok ()

def validateOptionalObservedEof (expected : Option ExpectedEof) (observedEof : Option ℕ) :
    Except Error Unit :=
  match expected, observedEof with
  | some expected, some actual =>
      if expected.offset ≠ actual then .error (sizeExpectationError expected (some actual))
      else .ok ()
  | none, _ => .ok ()
  | some expected, none => .error (sizeExpectationError expected none)

def ensureKnownSizeWithinLimit (size : ℕ) (limit : Option ℕ) : Except Error Unit :=
  match limit with
  | some limit => if size > limit then .error (.bufferedReadTooLarge (some size) limit) else .ok ()
  | none => .ok ()

/-- The lengths of two buffers; their sum never saturates. -/
def ensureBufferedReadWithinLimit (currentLen additionalLen : ℕ) (expectedLen limit : Option ℕ) :
    Except Error Unit :=
  match limit with
  | none => .ok ()
  | some limit =>
      if currentLen + additionalLen > limit then
        .error (.bufferedReadTooLarge expectedLen limit)
      else .ok ()

/-! ### Machine arithmetic -/

/-- Addition of `u64`. -/
def addU64 (a b : ℕ) : Except Error ℕ :=
  if a + b < 2 ^ 64 then .ok (a + b) else .error (.panic "attempt to add with overflow")

/-- Subtraction of `u64`. -/
def subU64 (a b : ℕ) : Except Error ℕ :=
  if b ≤ a then .ok (a - b) else .error (.panic "attempt to subtract with overflow")

/-- `as u32`. -/
def asU32 (n : ℕ) : ℕ := n % 2 ^ 32

theorem addU64_eq {a b : ℕ} (h : a + b < 2 ^ 64) : addU64 a b = .ok (a + b) := if_pos h

theorem subU64_eq {a b : ℕ} (h : b ≤ a) : subU64 a b = .ok (a - b) := if_pos h

theorem asU32_eq {n : ℕ} (h : n < 2 ^ 32) : asU32 n = n := Nat.mod_eq_of_lt h

/-! ### Buffers -/

def DEFAULT_MAX_BUFFERED_READ_SIZE : ℕ := 128 * 1024 * 1024

def bufferedReadCapacity (expectedLen : Option ℕ) (requestedLen : ℕ) (limit : Option ℕ) : ℕ :=
  min (expectedLen.getD requestedLen) (limit.getD DEFAULT_MAX_BUFFERED_READ_SIZE)

/-- `BytesMut::with_capacity`.  A buffer has at most `isize::MAX` bytes. -/
def withCapacity (capacity : ℕ) : Except Error Unit :=
  if capacity < 2 ^ 63 then .ok () else .error (.panic "capacity overflow")

/-- Reserve the buffer of a read. -/
def ReadRequirements.reserve (requirements : ReadRequirements) (requestedLen : ℕ) :
    Except Error Unit :=
  withCapacity (bufferedReadCapacity requirements.expectedLen requestedLen requirements.limit)

/-! ### Scheduling -/

/-- A `READ` that has come back: what was asked for and what was returned. -/
structure ReadTaskOutput where
  offset : ℕ
  requested : ℕ
  data : Bytes
  eof : Bool
  deriving DecidableEq, Repr

/-- A short read that did not report EOF leaves a gap to be requested again. -/
def ReadTaskOutput.shortReadGap (read : ReadTaskOutput) : Option (ℕ × ℕ) :=
  let gapLen := read.requested - read.data.length
  if !read.eof && gapLen > 0 then some (read.offset + read.data.length, gapLen) else none

/-- What is left to request: the gaps, last one first, and `[nextOffset, end)`. -/
structure ChunkScheduler where
  gaps : List (ℕ × ℕ)
  nextOffset : ℕ
  «end» : ℕ
  chunkSize : ℕ
  deriving DecidableEq, Repr

namespace ChunkScheduler

def new (start «end» chunkSize : ℕ) : ChunkScheduler :=
  { gaps := [], nextOffset := start, «end», chunkSize }

def pushGap (s : ChunkScheduler) (gap : ℕ × ℕ) : ChunkScheduler :=
  { s with gaps := gap :: s.gaps }

/-- The next range to request.  Gaps come first; fresh chunks only while no EOF was
observed. -/
def nextRange (s : ChunkScheduler) (eofObserved : Bool) : Option ((ℕ × ℕ) × ChunkScheduler) :=
  match s.gaps with
  | (offset, len) :: gaps => some ((offset, min len s.chunkSize), { s with gaps })
  | [] =>
      if eofObserved ∨ s.nextOffset ≥ s.end then none
      else
        let len := min (s.end - s.nextOffset) s.chunkSize
        some ((s.nextOffset, len), { s with nextOffset := s.nextOffset + len })

end ChunkScheduler

/-! ### Reassembly -/

/-- `Vec::swap_remove`: the last element takes the place of the removed one. -/
def swapRemove {α : Type} (l : List α) (index : ℕ) : List α :=
  match l.getLast? with
  | none => []
  | some last => (l.set index last).dropLast

/-- The output of a pipelined read. -/
structure PipelinedEmit where
  out : Bytes
  /-- Replies beyond the offset to be emitted next. -/
  completed : List ReadTaskOutput
  nextOffset : ℕ
  /-- The exact end of the file. -/
  eofAt : Option ℕ
  /-- The lowest end of any reply that reported EOF. -/
  eofUpperBound : Option ℕ
  firstError : Option Error
  expectedLen : Option ℕ
  expectedEof : Option ExpectedEof
  limit : Option ℕ
  deriving DecidableEq, Repr

namespace PipelinedEmit

def new (out : Bytes) (start : ℕ) (requirements : ReadRequirements) : PipelinedEmit where
  out := out
  completed := []
  nextOffset := start
  eofAt := none
  eofUpperBound := none
  firstError := none
  expectedLen := requirements.expectedLen
  expectedEof := requirements.expectedEof
  limit := requirements.limit

def eofObserved (e : PipelinedEmit) : Bool := e.eofUpperBound.isSome

def canScheduleMore (e : PipelinedEmit) : Bool := e.firstError.isNone

/-- Only the first error is kept. -/
def recordError (e : PipelinedEmit) (err : Error) : PipelinedEmit :=
  { e with firstError := some (e.firstError.getD err) }

def observeEofUpperBound (e : PipelinedEmit) (eofAtOrBefore : ℕ) : PipelinedEmit :=
  let e := match e.eofAt with
    | some exact =>
        if exact > eofAtOrBefore then
          e.recordError (.protocol (s!"pipelined READ reported EOF upper bound {eofAtOrBefore} "
            ++ s!"below exact EOF offset {exact}"))
        else e
    | none => e
  { e with eofUpperBound := some (e.eofUpperBound.elim eofAtOrBefore (min · eofAtOrBefore)) }

def observeExactEof (e : PipelinedEmit) (eofAt : ℕ) : PipelinedEmit :=
  let e := match e.eofUpperBound with
    | some upperBound =>
        if eofAt > upperBound then
          e.recordError (.protocol (s!"pipelined READ reported exact EOF offset {eofAt} "
            ++ s!"beyond earlier EOF upper bound {upperBound}"))
        else e
    | none => e
  let e := match e.eofAt with
    | some current =>
        if current = eofAt then e
        else e.recordError (.protocol (s!"pipelined READ reported conflicting EOF offsets: "
          ++ s!"{current} and {eofAt}"))
    | none => { e with eofAt := some eofAt }
  e.observeEofUpperBound eofAt

def observeReadEof (e : PipelinedEmit) (read : ReadTaskOutput) : PipelinedEmit :=
  let eofAt := read.offset + read.data.length
  if read.data = [] ∧ read.offset ≠ e.nextOffset then e.observeEofUpperBound eofAt
  else e.observeExactEof eofAt

/-- Append the data of the reply at `nextOffset`. -/
def emit (e : PipelinedEmit) (read : ReadTaskOutput) : PipelinedEmit :=
  if read.data = [] then e.observeExactEof read.offset
  else
    match ensureBufferedReadWithinLimit e.out.length read.data.length e.expectedLen e.limit with
    | .error err => e.recordError err
    | .ok () =>
      let e := { e with nextOffset := e.nextOffset + read.data.length, out := e.out ++ read.data }
      if read.eof then e.observeExactEof e.nextOffset else e

/-- The queued reply at `nextOffset`, if it has come. -/
def takeCompleted (e : PipelinedEmit) : Option (ReadTaskOutput × PipelinedEmit) :=
  match e.completed.findIdx? fun read => read.offset == e.nextOffset with
  | none => none
  | some index =>
    match e.completed[index]? with
    | none => none
    | some read => some (read, { e with completed := swapRemove e.completed index })

/-- Emit queued replies until the next one is missing or the end is reached.  Every
turn takes a reply out of the queue, so its length bounds the number of turns. -/
def drain : ℕ → PipelinedEmit → PipelinedEmit
  | 0, e => e
  | turns + 1, e =>
    if e.eofAt.all (e.nextOffset < ·) then
      match e.takeCompleted with
      | none => e
      | some (read, e) =>
        let e := e.emit read
        if e.firstError.isSome || e.eofAt.any (· ≤ e.nextOffset) then e else drain turns e
    else e

def drainQueued (e : PipelinedEmit) : PipelinedEmit := drain e.completed.length e

/-- The reply has data beyond the end of the file. -/
def beyondEof (eofAt : Option ℕ) (read : ReadTaskOutput) : Bool :=
  eofAt.any fun eofAt => read.data ≠ [] && saturatingAdd read.offset read.data.length > eofAt

/-- Take a reply: emit it if it is next, else queue it. -/
def record (e : PipelinedEmit) (read : ReadTaskOutput) : PipelinedEmit :=
  let e := if read.eof then e.observeReadEof read else e
  if beyondEof e.eofAt read then
    e.recordError (.protocol "pipelined READ returned data beyond a previously reported EOF")
  else if read.offset = e.nextOffset then (e.emit read).drainQueued
  else { e with completed := e.completed ++ [read] }

def finish (e : PipelinedEmit) : Except Error Unit :=
  match e.firstError with
  | some err => .error err
  | none =>
    if e.completed.any (beyondEof e.eofAt) then
      .error (.protocol "pipelined READ returned queued data beyond EOF")
    else
      match e.eofAt, e.eofUpperBound with
      | some eofAt, _ =>
          if e.nextOffset < eofAt then
            .error (.protocol "pipelined READ completed with a hole below EOF")
          else validateOptionalObservedEof e.expectedEof e.eofAt
      | none, some upperBound =>
          if e.nextOffset < upperBound then
            .error (.protocol "pipelined READ completed before resolving EOF offset")
          else validateOptionalObservedEof e.expectedEof e.eofAt
      | none, none => validateOptionalObservedEof e.expectedEof e.eofAt

end PipelinedEmit

end NfsCrust
