import Mathlib
import OpenCodex.Sse.FrameBuffer
import OpenCodex.Sse.Payload

/-!
# The preflight of a combo stream

Before an answer is relayed, a combo reads the beginning of the stream: where the provider fails
before it has produced anything, the request can still go to the next target.  The preflight keeps
what it has read, so that an accepted body is handed back whole.

The verdict is read off once per chunk, from flags that the inspector's callbacks set for every
payload of the chunk.  The bounds on bytes and chunks, and the errors a body may end with, are
modelled; the timer on a silent provider is not set.  The status of an error event, where the event
does not carry one itself, and the decision whether a failure is worth another target are the
functions of `FailureRules`.
-/

set_option autoImplicit false

namespace Sse

open Bridge (trim toLowerCase includes)

def comboStreamPreflightMaxBytes : ℕ := maxClientSseFrameBytes

def comboStreamPreflightMaxChunks : ℕ := max 1 ((comboStreamPreflightMaxBytes + 1023) / 1024)

def preOutputControlEvents : List JsString :=
  [js "response.created", js "response.in_progress", js "response.queued", js "response.heartbeat",
    js "response.metadata", js "codex.rate_limits", js "codex.response.metadata"]

def terminalEvents : List JsString :=
  [js "response.completed", js "response.failed", js "response.incomplete"]

def retryableZeroOutputIncompleteReasons : List JsString :=
  [js "adapter_eof", js "missing_terminal_event", js "upstream_stall_timeout"]

/-- How failures are judged. -/
structure FailureRules where
  /-- `httpStatusFromTerminalError` of a type, a code and a message. -/
  httpStatusFromTerminalError : Option JsString → Option JsString → Option JsString → ℚ
  /-- Whether `comboFailureDecision` is `hop`, for a status, a message, a code and the event. -/
  hops : ℚ → JsString → Option JsString → Json → Bool

/-! ## Single events -/

/-- Three decimal digits. -/
def threeDigits (s : JsString) : Option ℚ :=
  match s.map Json.digit? with
  | [some a, some b, some c] => some ((a * 100 + b * 10 + c : ℕ) : ℚ)
  | _ => none

/-- An explicit status: an integer, or three digits as a string. -/
def statusOf : Option Json → Option ℚ
  | some (.num q) => if q.den = 1 then some q else none
  | some (.str s) => threeDigits (trim s)
  | _ => none

/-- The record that holds an error event's details: its `error`, or itself. -/
def errorRecord (event : Json) : Json := (asJsonRecord (event.field? (js "error"))).getD event

/-- The code of an error event. -/
def errorCodeOf (event : Json) : Option JsString :=
  (stringOf ((errorRecord event).field? (js "code"))).or (stringOf (event.field? (js "code")))

/-- The message of an error event. -/
def errorMessageOf (event : Json) : Option JsString :=
  (stringOf ((errorRecord event).field? (js "message"))).or (stringOf (event.field? (js "message")))

variable (F : FailureRules)

def bareErrorStatus (payload : Json) : Option ℚ :=
  if typeOf (some payload) ≠ some (js "error") then none
  else
    let error := errorRecord payload
    let explicitStatus := ([payload.field? (js "status"), payload.field? (js "status_code"),
      payload.field? (js "http_status"), error.field? (js "status"),
      error.field? (js "status_code"), error.field? (js "http_status")].filterMap statusOf).find?
        fun status ↦ 400 ≤ status ∧ status ≤ 599
    let code := errorCodeOf payload
    if explicitStatus = none ∧ code = some (js "invalid_request_error") then some 400
    else some (explicitStatus.getD (F.httpStatusFromTerminalError
      ((stringOf (error.field? (js "type"))).filter (· ≠ js "error")) code
      (errorMessageOf payload)))

def bareErrorIsRetryable (payload : Json) : Bool :=
  match bareErrorStatus F payload with
  | none => false
  | some status =>
    F.hops status ((errorMessageOf payload).getD []) (errorCodeOf payload) payload

/-- `retryableZeroOutputTerminal`, the default classifier. -/
def retryableZeroOutputTerminal (payload : Json) : Bool :=
  if payload.members?.isNone then false
  else if bareErrorIsRetryable F payload then true
  else if typeOf (some payload) = some (js "response.failed") then true
  else if typeOf (some payload) ≠ some (js "response.incomplete") then false
  else
    let response := payload.field? (js "response")
    let reason := (response.bind (·.field? (js "incomplete_details"))).bind (·.field? (js "reason"))
    match reason with
    | none =>
      match response.bind (·.field? (js "output")) with
      | some (.arr items) => items.isEmpty
      | _ => true
    | some (.str s) => retryableZeroOutputIncompleteReasons.contains s
    | some _ => false

def comboStreamPayloadCommitsOutput (payload : Json) : Bool :=
  if payload.members?.isNone then true
  else
    match typeOf (some payload) with
    | none => true
    | some type =>
      let output := (asJsonRecord (payload.field? (js "response"))).bind (·.field? (js "output"))
      let resumed := match output with
        | some (.arr items) => !items.isEmpty
        | _ => false
      if type = js "response.created" ∧ resumed = true then true
      else !preOutputControlEvents.contains type && !terminalEvents.contains type

/-- An event of type `error`. -/
def isErrorEvent (payload : Json) : Bool := typeOf (some payload) == some (js "error")

/-! ## The flags -/

/-- What the callbacks note. -/
structure PreflightFlags where
  outputCommitted : Bool
  responseCreated : Bool
  terminalStatus : Option TerminalStatus
  retryableTerminalPayload : Option Json

/-- `onParsedPayload`. -/
def PreflightFlags.onParsedPayload (retryableTerminal : Json → Bool) (payload : Json)
    (s : PreflightFlags) : PreflightFlags :=
  if s.terminalStatus.isSome ∨ s.outputCommitted = true ∨ s.retryableTerminalPayload.isSome then s
  else
    let s :=
      if typeOf (some payload) = some (js "response.created") then { s with responseCreated := true }
      else s
    let retryable := retryableTerminal payload
    let matchedBareError := retryable && isErrorEvent payload
    let s :=
      if comboStreamPayloadCommitsOutput payload && !matchedBareError then
        { s with outputCommitted := true }
      else s
    if payload.members?.isNone then s
    else if retryable then { s with retryableTerminalPayload := some payload }
    else s

/-- The callbacks of the preflight. -/
def preflightHandlers (retryableTerminal : Json → Bool) : InspectorHandlers PreflightFlags where
  onParsedPayload := PreflightFlags.onParsedPayload retryableTerminal
  onOpaquePayload _ s := { s with outputCommitted := true }
  onTerminal status s := { s with terminalStatus := some status }

/-! ## The preflight -/

/-- How a body ends. -/
inductive BodyEnd
  | done
  | errored
  deriving DecidableEq, Repr

/-- A body: the chunks a reader gets, and how it ends. -/
structure Body where
  chunks : List Bytes
  ending : BodyEnd

/-- What of a response the preflight looks at. -/
structure Upstream where
  ok : Bool
  contentType : Option JsString
  body : Option Body

/-- The options that matter here. -/
structure PreflightOptions where
  allowMissingContentType : Bool
  replayReadErrors : Bool

/-- `ComboStreamPreflightResult`; `thrown` where the read error is thrown on. -/
inductive PreflightResult
  | accepted (body : Option Body)
  | failed (terminal : Json)
  | readError (body : Body)
  | thrown

/-- The kind of a result. -/
inductive PreflightKind
  | accepted
  | failed
  | readError
  | thrown
  deriving DecidableEq, Repr

def PreflightResult.kind : PreflightResult → PreflightKind
  | accepted _ => .accepted
  | failed _ => .failed
  | readError _ => .readError
  | thrown => .thrown

/-- `replayBufferedResponse`: what was read, and then what the reader still gives. -/
def replayBufferedResponse (buffered rest : List Bytes) (ending : BodyEnd) : Body :=
  ⟨buffered ++ rest, ending⟩

/-- The preflight between two reads. -/
structure Preflight where
  buffered : List Bytes
  bufferedBytes : ℕ
  inspector : SseScanner (Inspection PreflightFlags)

def Preflight.start : Preflight :=
  ⟨[], 0, .new ⟨false, false, ⟨false, false, none, none⟩⟩⟩

/-- What the flags say once a chunk, or the end of the body, was inspected: a terminal worth another
target, or that the body is handed back, or nothing yet. -/
inductive Settled
  | failed (terminal : Json)
  | accepted
  | undecided

def settle (s : Preflight) (done : Bool) : Settled :=
  let flags := s.inspector.seen.caller
  let failing := decide (flags.terminalStatus = some .failed) ||
    decide (flags.terminalStatus = some .incomplete) ||
    (flags.retryableTerminalPayload.map isErrorEvent).getD false
  match flags.retryableTerminalPayload with
  | some terminal =>
    if failing && !flags.outputCommitted then .failed terminal
    else if done || flags.terminalStatus.isSome || flags.outputCommitted ||
        decide (s.bufferedBytes ≥ comboStreamPreflightMaxBytes) ||
        decide (s.buffered.length ≥ comboStreamPreflightMaxChunks) then .accepted
    else .undecided
  | none =>
    if done || flags.terminalStatus.isSome || flags.outputCommitted ||
        decide (s.bufferedBytes ≥ comboStreamPreflightMaxBytes) ||
        decide (s.buffered.length ≥ comboStreamPreflightMaxChunks) then .accepted
    else .undecided

variable (E : SseEnv) (retryableTerminal : Json → Bool) (o : PreflightOptions)

/-- A chunk is kept and inspected. -/
def Preflight.take (s : Preflight) (chunk : Bytes) : Preflight where
  buffered := s.buffered ++ [chunk]
  bufferedBytes := s.bufferedBytes + chunk.length
  inspector := s.inspector.feed (scanFrame E (preflightHandlers retryableTerminal)) chunk

/-- The inspector is told that the body ended. -/
def Preflight.finish (s : Preflight) : Preflight :=
  { s with inspector := s.inspector.finish (scanTail E (preflightHandlers retryableTerminal)) }

/-- The loop over the reads of a body that ends so. -/
def preflightReads (ending : BodyEnd) : List Bytes → Preflight → PreflightResult
  | [], s =>
    match ending with
    | .errored =>
      if o.replayReadErrors then .readError (replayBufferedResponse s.buffered [] ending)
      else .thrown
    | .done =>
      match settle (s.finish E retryableTerminal) true with
      | .failed terminal => .failed terminal
      | _ => .accepted (some (replayBufferedResponse s.buffered [] ending))
  | chunk :: chunks, s =>
    if s.bufferedBytes + chunk.length > comboStreamPreflightMaxBytes then
      .accepted (some (replayBufferedResponse (s.buffered ++ [chunk]) chunks ending))
    else
      let s := s.take E retryableTerminal chunk
      match settle s false with
      | .failed terminal => .failed terminal
      | .accepted => .accepted (some (replayBufferedResponse s.buffered chunks ending))
      | .undecided => preflightReads ending chunks s

/-- Whether a response carries an event stream, by its content type. -/
def isEventStream (contentType : Option JsString) : Bool :=
  let contentType := toLowerCase (contentType.getD [])
  includes contentType (js "text/event-stream") ||
    (decide (contentType = []) && o.allowMissingContentType)

/-- `preflightComboStreamResponse`. -/
def preflightComboStreamResponse (response : Upstream) : PreflightResult :=
  match response.body with
  | none => .accepted none
  | some body =>
    if response.ok && isEventStream o response.contentType then
      preflightReads E retryableTerminal o body.ending body.chunks .start
    else .accepted (some body)

end Sse
