import Mathlib.Algebra.Group.Nat.Defs
import OpenCodex.Data.Act
import OpenCodex.Data.Loop

/-!
# Framing of server-sent events

A server-sent event is a *block* of bytes followed by a pair of line endings, its *delimiter*.  Two
pieces of the program cut a byte stream into blocks while it arrives in chunks: the bounded frame
buffer on the way to the client, and the scanner of the inspector that watches the same bytes.  Both
keep the bytes of the open block (the *candidate*), and up to two bytes at the end of a chunk that may
or may not begin a delimiter (the *tail*), which are scanned again in front of the next chunk.  A
delimiter that ends in a carriage return at the very end of a chunk is reported at once; a line feed
at the head of the next chunk then still belongs to it.

The scanning loop is written twice in the source, with different things done at a delimiter.  Here it
is one definition, `scanDelimiters`, which each of the two applies to its own actions.
-/

set_option autoImplicit false

namespace Sse

/-- The contents of a `Uint8Array`. -/
abbrev Bytes := List UInt8

/-- A range of an array. -/
def subarray (bytes : Bytes) (start stop : ℕ) : Bytes := (bytes.drop start).take (stop - start)

def maxClientSseFrameBytes : ℕ := 4 * 1024 * 1024

/-- What a framer refuses a stream with. -/
inductive FramingError
  /-- `SseFrameTooLargeError`. -/
  | frameTooLarge (maxBytes : ℕ)
  /-- `SseFrameCountLimitError`. -/
  | frameCountLimit (maxFrames : ℕ)
  deriving DecidableEq, Repr

/-- `BoundedSseFrame`. -/
structure BoundedSseFrame where
  block : Bytes
  delimiter : Bytes
  /-- A late line feed that extends a carriage return already returned; no new event. -/
  continuation : Bool
  deriving DecidableEq, Repr

/-- The interned delimiters: every legal pair, and the line feed of a continuation. -/
def delimiters : List Bytes :=
  [[10], [10, 10], [10, 13], [10, 13, 10], [13, 13], [13, 13, 10], [13, 10, 10], [13, 10, 13],
    [13, 10, 13, 10]]

/-- The length of the delimiter at `index`: `0` where none begins, nothing where more bytes are
needed to tell. -/
def sseDelimiterLengthAt (index length : ℕ) (byteAt : ℕ → Option UInt8) : Option ℕ :=
  let first := byteAt index
  if first ≠ some 10 ∧ first ≠ some 13 then some 0
  else
    let next := index + 1
    if next ≥ length then none
    else
      let next := if first = some 13 ∧ byteAt next = some 10 then next + 1 else next
      if next ≥ length then none
      else
        let second := byteAt next
        if second ≠ some 10 ∧ second ≠ some 13 then some 0
        else
          let next := next + 1
          let next :=
            if second = some 13 ∧ next < length ∧ byteAt next = some 10 then next + 1 else next
          some (next - index)

/-- The bytes from `start` to `stop` of what `byteAt` reads. -/
def copyRange (start stop : ℕ) (byteAt : ℕ → Option UInt8) : Bytes :=
  (List.range' start (stop - start)).filterMap byteAt

/-- The interned copy of the delimiter at `index`. -/
def delimiterBytesAt (index delimiterLength : ℕ) (byteAt : ℕ → Option UInt8) : Bytes :=
  let text := copyRange index (index + delimiterLength) byteAt
  (delimiters.find? (· = text)).getD []

/-- How a scanner reads: first the undecided tail of the chunks before, then the chunk. -/
def byteAt (previousTail chunk : Bytes) (index : ℕ) : Option UInt8 :=
  if index < previousTail.length then previousTail[index]?
  else chunk[index - previousTail.length]?

section Scan

variable {σ ε : Type}

/-- The scanning loop.  `complete retainedThrough index length` is what is done at a delimiter; the
loop ends with the index it stopped at and the one retained through.  Every turn moves the index, so
`total` turns are enough. -/
def scanDelimiters (total : ℕ) (byteAt : ℕ → Option UInt8)
    (complete : ℕ → ℕ → ℕ → Act σ ε PUnit) : ℕ → ℕ → ℕ → Act σ ε (ℕ × ℕ)
  | 0, index, retainedThrough => pure (index, retainedThrough)
  | turns + 1, index, retainedThrough =>
    if index < total then
      match sseDelimiterLengthAt index total byteAt with
      | none => pure (index, retainedThrough)
      | some 0 => scanDelimiters total byteAt complete turns (index + 1) retainedThrough
      | some (length + 1) => do
        complete retainedThrough index (length + 1)
        scanDelimiters total byteAt complete turns (index + (length + 1)) (index + (length + 1))
    else pure (index, retainedThrough)

end Scan

/-! ## The bounded frame buffer -/

/-- `BoundedSseFrameBuffer`. -/
structure BoundedSseFrameBuffer where
  maxFrameBytes : ℕ
  maxFramesPerFeed : ℕ
  delimiterTail : Bytes
  /-- The bytes retained of the open block: the first `candidateBytes` of the candidate array. -/
  candidate : Bytes
  /-- The length of the candidate array. -/
  capacity : ℕ
  disposed : Bool
  pendingLineFeed : Bool
  deriving DecidableEq, Repr

namespace BoundedSseFrameBuffer

/-- The constructor; it throws on a bound that is not a positive safe integer. -/
def new (maxFrameBytes : ℕ) : Option BoundedSseFrameBuffer :=
  if maxFrameBytes = 0 ∨ 2 ^ 53 ≤ maxFrameBytes then none
  else some
    { maxFrameBytes
      maxFramesPerFeed := max 1 ((maxFrameBytes + 1023) / 1024)
      delimiterTail := []
      candidate := []
      capacity := 0
      disposed := false
      pendingLineFeed := false }

def clear (b : BoundedSseFrameBuffer) : BoundedSseFrameBuffer :=
  { b with delimiterTail := [], candidate := [], capacity := 0, pendingLineFeed := false }

/-- `clear` and `disposed = true`. -/
def shut (b : BoundedSseFrameBuffer) : BoundedSseFrameBuffer := { b.clear with disposed := true }

/-- One turn of the loop that doubles the capacity. -/
def growCapacity (maxFrameBytes requiredBytes capacity : ℕ) : Option ℕ :=
  if capacity < requiredBytes then some (min maxFrameBytes (max requiredBytes (capacity * 2)))
  else none

/-- The capacity a candidate array is grown to; the loop turns at most once. -/
def grownCapacity (maxFrameBytes requiredBytes capacity : ℕ) : ℕ :=
  Loop.run (growCapacity maxFrameBytes requiredBytes) 1
    (if capacity = 0 then min maxFrameBytes (max requiredBytes 4096) else capacity)

def ensureCapacity (requiredBytes : ℕ) : Act BoundedSseFrameBuffer FramingError PUnit := do
  let b ← get
  if b.capacity ≥ requiredBytes then pure ⟨⟩
  else if requiredBytes > b.maxFrameBytes then throw (.frameTooLarge b.maxFrameBytes)
  else modify fun b ↦
    { b with capacity := grownCapacity b.maxFrameBytes requiredBytes b.capacity }

def retain (slice : Bytes) : Act BoundedSseFrameBuffer FramingError PUnit := do
  let b ← get
  if slice.length = 0 then pure ⟨⟩
  else if b.candidate.length + slice.length > b.maxFrameBytes then (do
    modify shut
    throw (.frameTooLarge b.maxFrameBytes))
  else (do
    ensureCapacity (b.candidate.length + slice.length)
    modify fun b ↦ { b with candidate := b.candidate ++ slice })

def takeCandidate : Act BoundedSseFrameBuffer FramingError Bytes := do
  let b ← get
  if b.candidate.length = 0 then pure []
  else (do
    modify fun b ↦ { b with candidate := [], capacity := 0 }
    pure b.candidate)

/-- What `feed` works on: the buffer, the frames completed so far, and how many blocks they are. -/
structure Feeding where
  buffer : BoundedSseFrameBuffer
  frames : List BoundedSseFrame
  completedFrames : ℕ

/-- A method of the buffer called while feeding. -/
def Feeding.call {ε α : Type} (x : Act BoundedSseFrameBuffer ε α) : Act Feeding ε α :=
  fun s ↦ ((x s.buffer).1, { s with buffer := (x s.buffer).2 })

/-- `retainRange`: the part in the previous tail, then the part in the chunk. -/
def retainRange (previousTail chunk : Bytes) (start stop : ℕ) : Act Feeding FramingError PUnit :=
  if stop ≤ start then pure ⟨⟩
  else do
    Act.when (start < previousTail.length)
      (Feeding.call (retain (subarray previousTail start (min stop previousTail.length))))
    Act.when (stop > previousTail.length)
      (Feeding.call (retain (subarray chunk (start - previousTail.length)
        (stop - previousTail.length))))

/-- What `feed` does at a delimiter. -/
def completeFrame (previousTail chunk : Bytes) (retainedThrough index delimiterLength : ℕ) :
    Act Feeding FramingError PUnit := do
  let s ← get
  if s.completedFrames ≥ s.buffer.maxFramesPerFeed then (do
    modify fun s ↦ { s with buffer := s.buffer.shut }
    throw (.frameCountLimit s.buffer.maxFramesPerFeed))
  else (do
    retainRange previousTail chunk retainedThrough index
    let block ← Feeding.call takeCandidate
    modify fun s ↦
      { s with
        frames := s.frames ++
          [⟨block, delimiterBytesAt index delimiterLength (byteAt previousTail chunk), false⟩]
        completedFrames := s.completedFrames + 1
        buffer := { s.buffer with
          pendingLineFeed := decide (index + delimiterLength = previousTail.length + chunk.length) &&
            decide (byteAt previousTail chunk (index + delimiterLength - 1) = some 13) } })

/-- The late line feed of a delimiter reported before, if the chunk begins with one. -/
def takeLineFeed (previousTail chunk : Bytes) : Act Feeding FramingError ℕ := do
  let s ← get
  if s.buffer.pendingLineFeed = true ∧ byteAt previousTail chunk 0 = some 10 then (do
    modify fun s ↦ { s with frames := s.frames ++ [⟨[], [10], true⟩] }
    pure 1)
  else pure 0

/-- The guarded part of `feed`. -/
def scanFeed (previousTail chunk : Bytes) : Act Feeding FramingError PUnit := do
  let index ← takeLineFeed previousTail chunk
  modify fun s ↦ { s with buffer := { s.buffer with pendingLineFeed := false } }
  let total := previousTail.length + chunk.length
  let (index, retainedThrough) ← scanDelimiters total (byteAt previousTail chunk)
    (completeFrame previousTail chunk) total index index
  retainRange previousTail chunk retainedThrough index
  Act.when (index < total) (modify fun s ↦
    { s with buffer := { s.buffer with
      delimiterTail := copyRange index total (byteAt previousTail chunk) } })

/-- `feed`.  A refusal is swallowed where a frame completed before it commits a Responses terminal,
which `isResponsesTerminalFrame` tells. -/
def feed (isResponsesTerminalFrame : Bytes → Bool) (chunk : Bytes) :
    Act BoundedSseFrameBuffer FramingError (List BoundedSseFrame) := fun b ↦
  if b.disposed then (.ok [], b)
  else if chunk.length = 0 then (.ok [], b)
  else
    match scanFeed b.delimiterTail chunk ⟨{ b with delimiterTail := [] }, [], 0⟩ with
    | (.ok _, s) => (.ok s.frames, s.buffer)
    | (.error err, s) =>
      if s.frames.any (fun frame ↦ isResponsesTerminalFrame frame.block) then
        (.ok s.frames, s.buffer.shut)
      else (.error err, s.buffer)

/-- `finish`: the bytes of the block that no delimiter closed. -/
def finish : Act BoundedSseFrameBuffer FramingError Bytes := fun b ↦
  if b.disposed then (.ok [], b)
  else
    let r := (do
      retain b.delimiterTail
      modify fun b ↦ { b with delimiterTail := [] }
      takeCandidate : Act BoundedSseFrameBuffer FramingError Bytes) b
    (r.1, r.2.shut)

def dispose (b : BoundedSseFrameBuffer) : BoundedSseFrameBuffer :=
  if b.disposed then b else b.shut

/-- A stream fed chunk by chunk: the frames of every feed, in order. -/
def feedAll (isResponsesTerminalFrame : Bytes → Bool) :
    List Bytes → Act BoundedSseFrameBuffer FramingError (List BoundedSseFrame)
  | [] => pure []
  | chunk :: chunks => do
    let frames ← feed isResponsesTerminalFrame chunk
    let later ← feedAll isResponsesTerminalFrame chunks
    pure (frames ++ later)

/-- A whole stream: the frames, and the tail that `finish` returns. -/
def frameStream (isResponsesTerminalFrame : Bytes → Bool) (chunks : List Bytes) :
    Act BoundedSseFrameBuffer FramingError (List BoundedSseFrame × Bytes) := do
  let frames ← feedAll isResponsesTerminalFrame chunks
  let tail ← finish
  pure (frames, tail)

end BoundedSseFrameBuffer

/-! ## The scanner of the inspector -/

def maxInspectionSseFrameBytes : ℕ := maxClientSseFrameBytes

/-- The framing part of `createSseInspector`, around the state `σ` of what is done with a block. -/
structure SseScanner (σ : Type) where
  delimiterTail : Bytes
  pendingLineFeed : Bool
  /-- The bytes retained of the open block. -/
  candidate : Bytes
  discardingOversizedFrame : Bool
  disposed : Bool
  seen : σ

namespace SseScanner

variable {σ : Type}

def new (seen : σ) : SseScanner σ := ⟨[], false, [], false, false, seen⟩

def clearFrameState (s : SseScanner σ) : SseScanner σ :=
  { s with
    delimiterTail := [], pendingLineFeed := false, candidate := []
    discardingOversizedFrame := false }

def retainCandidateSlice (slice : Bytes) (s : SseScanner σ) : SseScanner σ :=
  if slice.length = 0 ∨ s.discardingOversizedFrame = true then s
  else if s.candidate.length + slice.length > maxInspectionSseFrameBytes then
    { s with candidate := [], discardingOversizedFrame := true }
  else { s with candidate := s.candidate ++ slice }

def retainRange (previousTail chunk : Bytes) (start stop : ℕ) (s : SseScanner σ) : SseScanner σ :=
  if stop ≤ start ∨ s.discardingOversizedFrame = true then s
  else
    let s :=
      if start < previousTail.length then
        retainCandidateSlice (subarray previousTail start (min stop previousTail.length)) s
      else s
    if stop > previousTail.length then
      retainCandidateSlice (subarray chunk (start - previousTail.length)
        (stop - previousTail.length)) s
    else s

variable (onFrame : Bytes → σ → σ)

/-- `completeCandidate`: an oversized block is passed over, any other is looked at. -/
def completeCandidate (s : SseScanner σ) : SseScanner σ :=
  if s.discardingOversizedFrame then { s with discardingOversizedFrame := false }
  else { s with candidate := [], seen := onFrame s.candidate s.seen }

/-- What `scanChunk` does at a delimiter. -/
def completeFrame (previousTail chunk : Bytes) (retainedThrough index delimiterLength : ℕ) :
    Act (SseScanner σ) Empty PUnit :=
  modify fun s ↦
    { completeCandidate onFrame (retainRange previousTail chunk retainedThrough index s) with
      pendingLineFeed := decide (index + delimiterLength = previousTail.length + chunk.length) &&
        decide (byteAt previousTail chunk (index + delimiterLength - 1) = some 13) }

def scanChunk (chunk : Bytes) : Act (SseScanner σ) Empty PUnit := do
  let s ← get
  let previousTail := s.delimiterTail
  let total := previousTail.length + chunk.length
  let index := if s.pendingLineFeed = true ∧ byteAt previousTail chunk 0 = some 10 then 1 else 0
  modify fun s ↦
    { s with
      delimiterTail := []
      pendingLineFeed := if total > 0 then false else s.pendingLineFeed }
  let (index, retainedThrough) ← scanDelimiters total (byteAt previousTail chunk)
    (completeFrame onFrame previousTail chunk) total index index
  modify (retainRange previousTail chunk retainedThrough index)
  Act.when (index < total) (modify fun s ↦
    { s with delimiterTail := copyRange index total (byteAt previousTail chunk) })

/-- `feed`. -/
def feed (chunk : Bytes) (s : SseScanner σ) : SseScanner σ :=
  if s.disposed then s else (scanChunk onFrame chunk s).2

/-- `finish`: the open block, where it is not empty, is looked at by `onTail`. -/
def finish (onTail : Bytes → σ → σ) (s : SseScanner σ) : SseScanner σ :=
  if s.disposed then s
  else
    let s := { retainCandidateSlice s.delimiterTail s with delimiterTail := [] }
    let s :=
      if s.discardingOversizedFrame = false ∧ s.candidate.length > 0 then
        { s with candidate := [], seen := onTail s.candidate s.seen }
      else s
    s.clearFrameState

/-- A whole stream: fed chunk by chunk, then finished. -/
def scanStream (onTail : Bytes → σ → σ) (chunks : List Bytes) (seen : σ) : SseScanner σ :=
  finish onTail (chunks.foldl (fun s chunk ↦ feed onFrame chunk s) (new seen))

end SseScanner

end Sse
