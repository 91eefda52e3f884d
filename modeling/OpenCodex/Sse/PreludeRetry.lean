import Mathlib
import OpenCodex.Bridge.Events
import OpenCodex.Data.Machine
import OpenCodex.Data.Utf8
import OpenCodex.Sse.Framing

/-!
# Retrying a decline inside a stream

A backend may answer 200, send the prelude of a stream and only then decline the turn for want of
capacity.  `withSsePreludeDeclineRetry` stands between the upstream body and the client: it holds
frames that carry nothing the user could see, and if a decline comes before any content it sends the
request again and goes on with the frames of the next attempt.  A timer releases what is held after a
while; another one re-dials an attempt that stays silent.

The body is a machine.  Its events are what the platform does between two stretches of code: a read
that settles, a timer that fires, a wait or a resend that settles.  The inner loop over the frames of
a chunk is one event, `scan`, for each turn; no timer fires while it runs.  What is not in the source
is kept in `RetryWatch`: which attempt a frame came from, what was read of the attempt, and which
declines were not retried.
-/

set_option autoImplicit false

namespace Sse

open Bridge (indexOf includes toLowerCase trim isTrimmed)

/-! ## Frames -/

def preludeTypes : List JsString := [js "response.created", js "response.in_progress"]

def controlTypes : List JsString :=
  [js "keepalive", js "heartbeat", js "ping", js "pong", js "noop"]

def decodeFrame (frame : Bytes) : JsString := Utf8.textOf frame

/-- The lines of a frame that begin with `data:`. -/
def dataLines (frameText : JsString) : List JsString :=
  (frameText.splitOn 10).filter (js "data:").isPrefixOf

/-- What the last data line says, where it is JSON. -/
def lastData (frameText : JsString) : Option (Option Json) :=
  (dataLines frameText).getLast?.map fun line ↦ Json.parse (trim (line.drop 5))

/-- A string field, where the value has one. -/
def stringIn (v : Json) (name : String) : Option JsString :=
  match v.field? (js name) with
  | some (.str s) => some s
  | _ => none

/-- The `type` of a frame that is a JSON event. -/
def frameType (text : JsString) : Option JsString :=
  (lastData text).join.bind (stringIn · "type")

def hasText (v : Json) (names : List String) : Bool :=
  names.any fun name ↦ (stringIn v name).any (· ≠ [])

/-- Whether a `*.done` frame carries any payload worth keeping. -/
def doneFrameCarriesPayload (frameText : JsString) : Bool :=
  match (lastData frameText).join with
  | some (.obj members) =>
    let event : Json := .obj members
    hasText event ["text", "arguments", "delta", "output_text", "refusal"] ||
      match event.field? (js "item") with
      | some (.obj itemMembers) =>
        let item : Json := .obj itemMembers
        hasText item ["arguments", "text"] ||
          match item.field? (js "content") with
          | some (.arr content) => content.any fun part ↦
              part.members?.isSome && hasText part ["text", "arguments", "refusal"]
          | _ => false
      | _ => false
  | _ => true

/-- Whether a frame carries something the user can see. -/
def isContentFrame (frameText : JsString) (type : Option JsString) : Bool :=
  match type with
  | none => (frameText.splitOn 10).any (js "data:").isPrefixOf
  | some type =>
    if controlTypes.contains type then false
    else if (js ".delta").isSuffixOf type then true
    else if (js ".done").isSuffixOf type then doneFrameCarriesPayload frameText
    else if type = js "response.completed" ∨ type = js "response.failed" ∨
        type = js "response.incomplete" then true
    else if type = js "error" then true
    else !((js "response.").isPrefixOf type || (js "codex.").isPrefixOf type)

def isCapacityDecline (text : JsString) : Bool :=
  let lower := toLowerCase text
  includes lower (js "overloaded") || includes lower (js "capacity") ||
    includes lower (js "server_is_overloaded")

/-- A quoted key, a colon and one of these quoted values, with blanks around the colon. -/
def hasPair (key : JsString) (values : List JsString) (text : JsString) : Bool :=
  text.tails.any fun t ↦ key.isPrefixOf t &&
    let t := (t.drop key.length).dropWhile isTrimmed
    t.head? == some 58 && values.any fun value ↦
      value.isPrefixOf ((t.drop 1).dropWhile isTrimmed)

/-- The verdict on text without a frame type, which must be explicit. -/
def explicitDecline (frameText : JsString) : Bool :=
  includes frameText (js "\"server_is_overloaded\"") ||
    hasPair (js "\"type\"") [js "\"error\""] frameText ||
    hasPair (js "\"status\"") [js "\"failed\""] frameText ||
    hasPair (js "\"code\"") [js "\"server_is_overloaded\"", js "\"capacity\""] frameText

/-- Whether a frame is a capacity decline about this turn. -/
def isDeclineFrame (frameText : JsString) (type : Option JsString) : Bool :=
  isCapacityDecline frameText &&
    match type with
    | none => explicitDecline frameText
    | some type =>
      if type = js "error" ∨ type = js "response.failed" then true
      else if type ≠ js "response.completed" then false
      else ((lastData frameText).join.bind (·.field? (js "response"))).any fun response ↦
        stringIn response "status" == some (js "failed")

/-- Nothing the user can see yet. -/
def isPreludeFrame (frameText : JsString) (type : Option JsString) : Bool :=
  !isContentFrame frameText type ||
    type.any fun type ↦ preludeTypes.contains type || (js "codex.").isPrefixOf type

/-- The first frame of a buffer: its text, its bytes written again, and what the buffer is after
that many bytes. -/
def cutFrame (buffer : Bytes) : Option (JsString × Bytes × Bytes) :=
  let text := decodeFrame buffer
  let lfOnly := indexOf (js "\n\n") text
  let crlf := indexOf (js "\r\n\r\n") text
  let boundary := match crlf, lfOnly with
    | none, none => none
    | none, some lf => some (lf + 2)
    | some cr, none => some (cr + 4)
    | some cr, some lf => if cr ≤ lf then some (cr + 4) else some (lf + 2)
  boundary.map fun stop ↦
    let frameText := text.take stop
    let frameBytes := Utf8.bytesOf frameText
    (frameText, frameBytes, buffer.drop frameBytes.length)

/-! ## The body -/

/-- `SsePreludeDeclineRetryOptions`, as far as they decide what is delivered. -/
structure RetryOptions where
  /-- Waits before each resend; its length is the resend budget. -/
  delaysMs : List ℕ
  acceptAnyContentType : Bool
  /-- How long an attempt may stay silent; zero is no bound. -/
  stallMs : ℕ

/-- The head of the answer to a resend. -/
structure Answer where
  hasBody : Bool
  ok : Bool
  contentType : JsString

/-- A frame on its way to the client, and the attempt it came from. -/
structure Sent where
  attempt : ℕ
  bytes : Bytes
  deriving DecidableEq

/-- Why the next attempt is spliced in. -/
inductive Splice where
  /-- A decline, with the frame to hand over if there is no further attempt. -/
  | decline (declined : Option Bytes)
  | stall
  deriving DecidableEq

inductive RetryPhase where
  /-- `await reader.read()`. -/
  | reading
  /-- The inner loop over the frames of the buffer. -/
  | scanning
  /-- `await sleep(…)` before a resend. -/
  | waiting (declined : Option Bytes)
  /-- The resend is under way. -/
  | resending (why : Splice)
  /-- `start` has returned. -/
  | finished
  deriving DecidableEq

inductive BodyEnding where
  | closed
  | errored
  deriving DecidableEq

/-- What an observer keeps beside the state. -/
structure RetryWatch where
  attempt : ℕ := 0
  /-- The bytes read of the current attempt. -/
  read : Bytes := []
  /-- The decline that is being retried. -/
  pending : Bytes := []
  /-- The declines that were not retried. -/
  refused : List Bytes := []

structure RetryBody where
  phase : RetryPhase
  buffer : Bytes
  held : List Sent
  released : Bool
  contentSeen : Bool
  rung : ℕ
  /-- The hold timer is running. -/
  flushTimer : Bool
  stallTimer : Bool
  stallFired : Bool
  stallBounces : ℕ
  /-- What the controller has got. -/
  delivered : List Sent
  ending : Option BodyEnding
  watch : RetryWatch

namespace RetryBody

variable (o : RetryOptions)

/-- A frame of the current attempt. -/
def sent (s : RetryBody) (bytes : Bytes) : Sent := ⟨s.watch.attempt, bytes⟩

/-- A controller that was closed takes nothing more. -/
def emit (frame : Sent) (s : RetryBody) : RetryBody :=
  if s.ending = none then { s with delivered := s.delivered ++ [frame] } else s

def flushHeld (s : RetryBody) : RetryBody :=
  s.held.foldl (fun s frame ↦ emit frame s)
    { s with flushTimer := false, released := true, held := [] }

/-- Flush what is held, unless it was flushed before. -/
def flushUnreleased (s : RetryBody) : RetryBody :=
  if s.released = false ∧ s.held ≠ [] then flushHeld s else s

def release (s : RetryBody) : RetryBody :=
  { s with stallTimer := false, flushTimer := false, ending := s.ending.or (some .closed) }

/-- The loop comes round: the stall timer is armed, and the next read is awaited. -/
def enterRead (s : RetryBody) : RetryBody :=
  { s with
    phase := .reading
    stallTimer := decide (o.stallMs > 0 ∧ s.contentSeen = false ∧ s.released = false ∧
      s.stallBounces < 1) }

def start : RetryBody :=
  enterRead o
    { phase := .reading, buffer := [], held := [], released := false, contentSeen := false
      rung := 0, flushTimer := false, stallTimer := false, stallFired := false, stallBounces := 0
      delivered := [], ending := none, watch := {} }

/-- The decline that was being retried is handed over. -/
def handOver (declined : Option Bytes) (s : RetryBody) : RetryBody :=
  let s := if s.released = false then flushHeld s else s
  let s := match declined with
    | some frame => emit (s.sent frame) s
    | none => s
  let s := release s
  { s with
    phase := .finished
    watch := { s.watch with refused := s.watch.refused ++ [s.watch.pending] } }

/-- `retryDecline`, up to the wait. -/
def retryDecline (declined : Option Bytes) (text : Bytes) (s : RetryBody) : RetryBody :=
  { s with
    rung := s.rung + 1, held := [], phase := .waiting declined
    watch := { s.watch with pending := text } }

/-- The decline is a refusal if it is not retried. -/
def refuse (decline : Bool) (text : Bytes) (s : RetryBody) : RetryBody :=
  { s with
    watch := { s.watch with refused := s.watch.refused ++ if decline then [text] else [] } }

def declines (bytes : Bytes) : Bool :=
  isDeclineFrame (decodeFrame bytes) (frameType (decodeFrame bytes))

/-- The read says that the body is at its end. -/
def onDone (s : RetryBody) : RetryBody :=
  let s := { s with stallTimer := false }
  if s.stallFired = true ∧ s.contentSeen = false ∧ s.stallBounces < 1 then
    { s with
      stallBounces := s.stallBounces + 1, stallFired := false, phase := .resending .stall }
  else if s.contentSeen = false ∧ s.buffer.length > 0 then
    let trailing := decodeFrame s.buffer
    if isDeclineFrame trailing (frameType trailing) then
      let text := s.buffer
      let s := { s with buffer := [] }
      if s.contentSeen = true ∨ s.rung ≥ o.delaysMs.length then
        { refuse true text s with phase := .finished }
      else retryDecline none text s
    else
      let s := flushUnreleased { s with buffer := [] }
      { release (emit (s.sent (Utf8.bytesOf trailing)) s) with phase := .finished }
  else
    { release (flushUnreleased (refuse (declines s.buffer) s.buffer s)) with phase := .finished }

/-- A frame that is not retried: it is held, or it is delivered after all that was held. -/
def passFrame (isPrelude : Bool) (frameBytes : Bytes) (s : RetryBody) : RetryBody :=
  if s.contentSeen = false ∧ isPrelude = true ∧ s.released = false then
    { s with held := s.held ++ [s.sent frameBytes], flushTimer := true }
  else
    let s := if s.contentSeen = false ∧ isPrelude = false then
      { s with contentSeen := true, stallTimer := false } else s
    let s := flushUnreleased s
    emit (s.sent frameBytes) s

/-- One turn of the inner loop. -/
def scan (s : RetryBody) : RetryBody :=
  match cutFrame s.buffer with
  | none => enterRead o s
  | some (frameText, frameBytes, rest) =>
    let s := { s with buffer := rest }
    let type := frameType frameText
    let decline := isDeclineFrame frameText type
    let isPrelude := isPreludeFrame frameText type
    if s.contentSeen = false ∧ decline = true ∧ s.rung < o.delaysMs.length then
      retryDecline (some frameBytes) frameBytes s
    else passFrame isPrelude frameBytes (refuse decline frameBytes s)

/-- Only another stream may be spliced in. -/
def isStream (next : Option Answer) : Bool :=
  next.any fun a ↦ a.hasBody && a.ok &&
    (includes a.contentType (js "text/event-stream") || o.acceptAnyContentType)

/-- The resend has been answered. -/
def onResent (why : Splice) (next : Option Answer) (s : RetryBody) : RetryBody :=
  if isStream o next then
    enterRead o
      { s with
        buffer := []
        watch := { s.watch with attempt := s.watch.attempt + 1, read := [] } }
  else
    match why with
    | .stall => { release (refuse (declines s.buffer) s.buffer s) with phase := .finished }
    | .decline declined => handOver declined s

/-- `catch`. -/
def onError (s : RetryBody) : RetryBody :=
  let s := flushUnreleased (refuse (declines s.buffer) s.buffer s)
  { s with stallTimer := false, ending := s.ending.or (some .errored), phase := .finished }

end RetryBody

/-! ## The machine -/

inductive RetryEvent where
  /-- The read yields bytes. -/
  | chunk (value : Bytes)
  /-- The read yields nothing, and is not at the end. -/
  | noValue
  | done
  | readError
  | scan
  /-- The wait before a resend is over. -/
  | waited
  /-- It was aborted. -/
  | aborted
  | resent (next : Option Answer)
  | holdFires
  | stallFires

open RetryBody in
/-- What an event does; `none` where it cannot happen. -/
def retryStep (o : RetryOptions) (s : RetryBody) (event : RetryEvent) : Option RetryBody :=
  match event, s.phase with
  | .chunk value, .reading => some
      { s with
        phase := .scanning, stallTimer := false, buffer := s.buffer ++ value
        watch := { s.watch with read := s.watch.read ++ value } }
  | .noValue, .reading => some (enterRead o { s with stallTimer := false, stallFired := false })
  | .done, .reading => some (onDone o s)
  | .readError, .reading => some (onError s)
  | .scan, .scanning => some (RetryBody.scan o s)
  | .waited, .waiting declined => some { s with phase := .resending (.decline declined) }
  | .aborted, .waiting declined => some (handOver declined s)
  | .resent next, .resending why => some (onResent o why next s)
  | .holdFires, .scanning => none
  | .holdFires, _ => if s.flushTimer then some (flushHeld s) else none
  | .stallFires, .reading =>
    if s.stallTimer then some { s with stallTimer := false, stallFired := true } else none
  | _, _ => none

/-- The body that the client reads. -/
def retryMachine (o : RetryOptions) : Machine RetryBody RetryEvent where
  init s := s = RetryBody.start o
  step := retryStep o

end Sse
