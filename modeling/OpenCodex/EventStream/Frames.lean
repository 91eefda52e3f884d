import OpenCodex.EventStream.Headers
import OpenCodex.Data.Framer

/-!
# Event-stream frames

A message travels as a frame: its total length, the length of its headers, a checksum of these two,
the headers, the payload, and a checksum of everything before.  `decodeMessage` reads a frame that is
all there; `decodeEventStream` takes frames off a rolling buffer while chunks of a body arrive, and
checks the prelude of a frame as soon as it has it, before the rest is there.  `encodeMessage` is the
other direction.

The test that the decoder puts to its buffer, `nextFrame`, is a `Framer`: none of its verdicts is
taken back when more arrives.  So the messages and the error of a stream do not depend on how it was
cut into chunks (`decodeEventStream_eq`), and the limit on what is buffered never strikes
(`turn_eq_drain`).

Encoding and decoding do not quite cancel.  `seen` is what a message has become after both: a name or
value comes back without the byte order mark at its head and with its lone surrogates replaced, and
the name `__proto__` is lost.  For texts without these, a message is its own `seen` (`seen_eq`).
-/

set_option autoImplicit false

namespace EventStream

/-! ## Constants -/

def preludeLen : ℕ := 8

def preludeCrcLen : ℕ := 4

def messageCrcLen : ℕ := 4

def headerBlockOffset : ℕ := preludeLen + preludeCrcLen

def minMessageLen : ℕ := headerBlockOffset + messageCrcLen

def maxMessageLen : ℕ := 16 * 1024 * 1024

def maxHeadersLen : ℕ := 128 * 1024

structure EventStreamMessage where
  headers : Headers
  payload : List UInt8
  deriving DecidableEq

/-! ## The checksum -/

/-- One bit of the checksum of polynomial `0xedb88320`. -/
def crcBit (c : UInt32) : UInt32 :=
  if c &&& 1 = 1 then (0xedb88320 : UInt32) ^^^ (c >>> 1) else c >>> 1

def crcTable : Array UInt32 := (Array.range 256).map fun i ↦ crcBit^[8] (UInt32.ofNat i)

def crcByte (c : UInt32) (b : UInt8) : UInt32 :=
  let i : UInt32 := (c ^^^ b.toUInt32) &&& (0xff : UInt32)
  crcTable.getD i.toNat 0 ^^^ (c >>> 8)

def crc32 (bytes : List UInt8) (seed : UInt32) : UInt32 :=
  bytes.foldl crcByte (seed ^^^ (0xffffffff : UInt32)) ^^^ (0xffffffff : UInt32)

/-- The checksum as it stands in a frame. -/
def checksum (bytes : List UInt8) : ℕ := (crc32 bytes 0).toNat

theorem checksum_lt (bytes : List UInt8) : checksum bytes < 256 ^ 4 :=
  lt_of_lt_of_eq (UInt32.toNat_lt _) (by norm_num)

/-! ## Decoding -/

def getUint32 (buf : List UInt8) (p : ℕ) : ℕ := BigEndian.value (buf.slice p 4)

/-- Decode a frame that is all there. -/
def decodeMessage (frame : List UInt8) : Except EventStreamError EventStreamMessage :=
  if frame.length < minMessageLen then .error .frameTooShort
  else
    let total := getUint32 frame 0
    if total ≠ frame.length then .error (.framedLength total frame.length)
    else if maxMessageLen < total then .error (.totalExceeds total)
    else
      let headersLen := getUint32 frame 4
      let preludeCrc := getUint32 frame 8
      if checksum (frame.slice 0 preludeLen) ≠ preludeCrc then .error .preludeCrc
      else if maxHeadersLen < headersLen then .error (.headersExceed headersLen)
      else if total - minMessageLen < headersLen then .error .headersExceedPayload
      else
        let msgCrc := getUint32 frame (total - messageCrcLen)
        if checksum (frame.slice 0 (total - messageCrcLen)) ≠ msgCrc then .error .messageCrc
        else
          let headersBytes := frame.slice headerBlockOffset headersLen
          let payload := frame.slice (headerBlockOffset + headersLen)
            (total - messageCrcLen - (headerBlockOffset + headersLen))
          match (parseHeaders headersBytes).result with
          | .error error => .error error
          | .ok headers => .ok ⟨headers, payload⟩

/-- The checks that a prelude alone allows. -/
def checkPrelude (buf : List UInt8) : Except EventStreamError Unit :=
  let headersLen := getUint32 buf 4
  let preludeCrc := getUint32 buf 8
  if checksum (buf.slice 0 preludeLen) ≠ preludeCrc then .error .preludeCrc
  else if maxHeadersLen < headersLen then .error (.headersExceed headersLen)
  else .ok ()

/-- One turn of the loop over the buffer: each check is made as soon as its bytes are there. -/
def nextFrame (buf : List UInt8) : Verdict EventStreamError EventStreamMessage :=
  if buf.length < 4 then .more
  else
    let total := getUint32 buf 0
    if total < minMessageLen then .fail (.belowMinimum total)
    else if maxMessageLen < total then .fail (.totalExceeds total)
    else
      match if headerBlockOffset ≤ buf.length then checkPrelude buf else .ok () with
      | .error error => .fail error
      | .ok () =>
        if buf.length < total then .more
        else
          match decodeMessage (buf.slice 0 total) with
          | .error error => .fail error
          | .ok message => .frame total message

/-! ## The test for frames -/

section NextFrame

variable {buf : List UInt8}

theorem getUint32_append {p : ℕ} (h : p + 4 ≤ buf.length) (after : List UInt8) :
    getUint32 (buf ++ after) p = getUint32 buf p := by
  rw [getUint32, List.slice_append h, getUint32]

theorem checkPrelude_append (h : headerBlockOffset ≤ buf.length) (after : List UInt8) :
    checkPrelude (buf ++ after) = checkPrelude buf := by
  have hoffset : headerBlockOffset = 12 := rfl
  have hslice : (buf ++ after).slice 0 preludeLen = buf.slice 0 preludeLen :=
    List.slice_append (by rw [preludeLen]; omega) after
  rw [checkPrelude, checkPrelude, getUint32_append (by omega), getUint32_append (by omega), hslice]

theorem nextFrame_four (h : 4 ≤ buf.length) : nextFrame buf =
    if getUint32 buf 0 < minMessageLen then .fail (.belowMinimum (getUint32 buf 0))
    else if maxMessageLen < getUint32 buf 0 then .fail (.totalExceeds (getUint32 buf 0)) else
      match if headerBlockOffset ≤ buf.length then checkPrelude buf else .ok () with
      | .error error => .fail error
      | .ok () =>
        if buf.length < getUint32 buf 0 then .more
        else
          match decodeMessage (buf.slice 0 (getUint32 buf 0)) with
          | .error error => .fail error
          | .ok message => .frame (getUint32 buf 0) message := by
  rw [nextFrame, if_neg (not_lt.mpr h)]

theorem length_of_more (h : nextFrame buf = .more) : buf.length ≤ maxMessageLen := by
  by_cases hfour : 4 ≤ buf.length
  · rw [nextFrame_four hfour] at h
    split at h
    · nomatch h
    · split at h
      · nomatch h
      · rename_i hmax
        split at h
        · nomatch h
        · split at h
          · rename_i hshort
            exact hshort.le.trans (not_lt.mp hmax)
          · split at h <;> nomatch h
  · have hmax : maxMessageLen = 16777216 := rfl
    omega

theorem nextFrame_append (h : nextFrame buf ≠ .more) (after : List UInt8) :
    nextFrame (buf ++ after) = nextFrame buf := by
  have hfour : 4 ≤ buf.length := by
    by_contra hshort
    exact h (if_pos (not_le.mp hshort))
  have hlonger : buf.length ≤ (buf ++ after).length := by
    rw [List.length_append]
    exact Nat.le_add_right ..
  rw [nextFrame_four hfour] at h
  rw [nextFrame_four hfour, nextFrame_four (hfour.trans hlonger), getUint32_append hfour]
  by_cases hmin : getUint32 buf 0 < minMessageLen
  · rw [if_pos hmin, if_pos hmin]
  · rw [if_neg hmin] at h
    by_cases hmax : maxMessageLen < getUint32 buf 0
    · rw [if_pos hmax, if_pos hmax]
    · rw [if_neg hmax] at h
      have hfull : minMessageLen = 16 := rfl
      have hoffset : headerBlockOffset = 12 := rfl
      -- a verdict is either on the prelude or on the whole frame: in both cases it is there
      have hprelude : headerBlockOffset ≤ buf.length := by
        by_contra hshort
        rw [if_neg hshort] at h
        simp only at h
        rw [if_pos (by omega)] at h
        exact h rfl
      rw [if_pos hprelude] at h
      rw [if_pos hprelude, if_pos (hprelude.trans hlonger), checkPrelude_append hprelude]
      cases hc : checkPrelude buf with
      | error error => rfl
      | ok _ =>
        rw [hc] at h
        simp only at h ⊢
        have hall : getUint32 buf 0 ≤ buf.length := by
          by_contra hshort
          exact h (if_pos (not_le.mp hshort))
        rw [if_neg (not_lt.mpr hall), if_neg (not_lt.mpr (hall.trans hlonger)),
          List.slice_append (by omega)]

theorem nextFrame_frame {size : ℕ} {message : EventStreamMessage}
    (h : nextFrame buf = .frame size message) : 0 < size ∧ size ≤ buf.length := by
  have hfour : 4 ≤ buf.length := by
    by_contra hshort
    have hmore : nextFrame buf = .more := if_pos (not_le.mp hshort)
    rw [h] at hmore
    nomatch hmore
  rw [nextFrame_four hfour] at h
  split at h
  · nomatch h
  · rename_i hmin
    split at h
    · nomatch h
    · split at h
      · nomatch h
      · split at h
        · nomatch h
        · rename_i hall
          split at h
          · nomatch h
          · obtain ⟨rfl, -⟩ := Verdict.frame.inj h
            have hfull : minMessageLen = 16 := rfl
            omega

end NextFrame

/-- The frames of an event stream. -/
def frames : Framer UInt8 EventStreamError EventStreamMessage where
  test := nextFrame
  size_pos := nextFrame_frame
  fail_stands := fun {l error} h m ↦ by
    have hne : nextFrame l ≠ .more := by rw [h]; simp
    rw [nextFrame_append hne, h]
  frame_stands := fun {l size value} h m ↦ by
    have hne : nextFrame l ≠ .more := by rw [h]; simp
    rw [nextFrame_append hne, h]

/-! ## The stream -/

/-- Take the frames off the buffer, and look at what is left. -/
def turn (buf : List UInt8) : List EventStreamMessage × Except EventStreamError (List UInt8) :=
  let drained := frames.drain buf
  match drained.2 with
  | .error error => (drained.1, .error error)
  | .ok rest =>
    if maxMessageLen < rest.length then (drained.1, .error .bufferedExceeds)
    else (drained.1, .ok rest)

/-- The loop over the chunks of a body; the read that says the body is done brings no bytes. -/
def readChunks : List (List UInt8) → List UInt8 →
    List EventStreamMessage × Except EventStreamError (List UInt8)
  | [], buf => turn buf
  | chunk :: chunks, buf => Framer.andThen (turn (buf ++ chunk)) (readChunks chunks)

/-- At the end nothing may be left. -/
def finish (read : List EventStreamMessage × Except EventStreamError (List UInt8)) :
    List EventStreamMessage × Except EventStreamError Unit :=
  match read.2 with
  | .error error => (read.1, .error error)
  | .ok rest => (read.1, if 0 < rest.length then .error .truncatedStream else .ok ())

/-- The messages a body yields, and whether it ends well. -/
def decodeEventStream (chunks : List (List UInt8)) :
    List EventStreamMessage × Except EventStreamError Unit := finish (readChunks chunks [])

theorem turn_eq_drain (buf : List UInt8) : turn buf = frames.drain buf := by
  rw [turn]
  cases h : (frames.drain buf).2 with
  | error error => exact Prod.ext rfl h.symm
  | ok rest =>
    have hdrain : frames.drain buf = ((frames.drain buf).1, .ok rest) := Prod.ext rfl h
    have hmore : nextFrame rest = .more := Framer.test_of_drain hdrain
    simp only
    rw [if_neg (not_lt.mpr (length_of_more hmore))]
    exact hdrain.symm

theorem readChunks_eq (chunks : List (List UInt8)) (buf : List UInt8) :
    readChunks chunks buf = frames.readPieces chunks buf := by
  induction chunks generalizing buf with
  | nil => exact turn_eq_drain buf
  | cons chunk chunks ih =>
    rw [readChunks, turn_eq_drain, Framer.readPieces]
    congr 1
    funext rest
    exact ih rest

/-- **A body is decoded as a whole**, however it was cut. -/
theorem decodeEventStream_eq (chunks : List (List UInt8)) :
    decodeEventStream chunks = finish (frames.drain chunks.flatten) := by
  rw [decodeEventStream, readChunks_eq, Framer.readPieces_eq_drain, List.nil_append]

end EventStream
