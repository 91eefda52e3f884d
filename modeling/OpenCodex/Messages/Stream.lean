import OpenCodex.Data.Machine
import OpenCodex.Messages.Shapes
import OpenCodex.Sse.DecoderRuns

/-!
# From a Responses stream to a Messages stream

`responsesSseToAnthropicSse` reads the events of a Responses stream and writes the events of a Messages
stream.  It keeps one open block.  A text block and a tool block are announced when they open; a
thinking block is only announced when it closes, so that redacted blocks can be written before it.

Everything the code retains is asked of a budget.  What the budget answers depends on the rest of the
turn, so a stretch of code runs with a number of requests that are granted before one is refused
(`grants`, none for no refusal); a refused request is an exception.  The byte counts themselves are not
kept.

The loop over the body is a machine with one event for each read, for each frame of the buffer, and for
the ping timer.
-/

set_option autoImplicit false

namespace Messages

open Act (when forSome)
open Bridge (trim truthy indexOf)
open Tools (plainObject arrayOf stringAt nonEmptyAt)
open Sse (stringOf)

/-! ## What is written -/

/-- `content_block`. -/
inductive ContentBlock where
  | text
  | thinking
  | redactedThinking (data : JsString)
  | toolUse (id name : JsString)
  | serverToolUse (id name : JsString)
  /-- The result of a search, under its own type. -/
  | result (type toolUseId : JsString) (content : Option Json)

inductive Delta where
  | text (text : JsString)
  | thinking (thinking : JsString)
  | signature (signature : JsString)
  | inputJson (partialJson : JsString)

inductive MessagesEvent where
  | messageStart (message : Json)
  | ping
  | blockStart (index : ℕ) (block : ContentBlock)
  | blockDelta (index : ℕ) (delta : Delta)
  | blockStop (index : ℕ)
  | messageDelta (stopReason : JsString) (usage : Json)
  | messageStop
  | error (body : Json)

def ContentBlock.json : ContentBlock → Json
  | .text => record [("type", word "text"), ("text", .str [])]
  | .thinking => record [("type", word "thinking"), ("thinking", .str []), ("signature", .str [])]
  | .redactedThinking data => record [("type", word "redacted_thinking"), ("data", .str data)]
  | .toolUse id name => record [("type", word "tool_use"), ("id", .str id), ("name", .str name),
      ("input", .obj [])]
  | .serverToolUse id name => record [("type", word "server_tool_use"), ("id", .str id),
      ("name", .str name)]
  | .result type toolUseId content => record ([("type", .str type), ("tool_use_id", .str toolUseId)] ++
      optional "content" content)

def Delta.json : Delta → Json
  | .text s => record [("type", word "text_delta"), ("text", .str s)]
  | .thinking s => record [("type", word "thinking_delta"), ("thinking", .str s)]
  | .signature s => record [("type", word "signature_delta"), ("signature", .str s)]
  | .inputJson s => record [("type", word "input_json_delta"), ("partial_json", .str s)]

def MessagesEvent.name : MessagesEvent → JsString
  | .messageStart _ => js "message_start"
  | .ping => js "ping"
  | .blockStart _ _ => js "content_block_start"
  | .blockDelta _ _ => js "content_block_delta"
  | .blockStop _ => js "content_block_stop"
  | .messageDelta _ _ => js "message_delta"
  | .messageStop => js "message_stop"
  | .error _ => js "error"

def MessagesEvent.data : MessagesEvent → Json
  | .messageStart message => record [("type", word "message_start"), ("message", message)]
  | .ping => record [("type", word "ping")]
  | .blockStart index block => record [("type", word "content_block_start"), ("index", .num index),
      ("content_block", block.json)]
  | .blockDelta index delta => record [("type", word "content_block_delta"), ("index", .num index),
      ("delta", delta.json)]
  | .blockStop index => record [("type", word "content_block_stop"), ("index", .num index)]
  | .messageDelta stopReason usage => record [("type", word "message_delta"),
      ("delta", record [("stop_reason", .str stopReason), ("stop_sequence", .null)]), ("usage", usage)]
  | .messageStop => record [("type", word "message_stop")]
  | .error body => body

/-- `sseFrame(name, data)` -/
def MessagesEvent.frame (e : MessagesEvent) : JsString :=
  js "event: " ++ e.name ++ js "\ndata: " ++ e.data.stringify ++ js "\n\n"

/-! ## The state -/

/-- `boundedReasoningIdentity`, by what it spells. -/
inductive Identity where
  | number (value : ℚ)
  | string (digest : JsString)
  | null
  | bool (value : Bool)
  | array (digest : JsString)
  | object
  | undefined
  deriving DecidableEq

variable (E : MessagesEnv)

def boundedReasoningIdentity : Option Json → Identity
  | some (.num q) => .number q
  | some (.str s) => .string (E.reasoningIdentityDigest s)
  | some .null => .null
  | some (.bool b) => .bool b
  | some (.arr items) => .array (E.reasoningIdentityDigest (Json.arr items).stringify)
  | some (.obj _) => .object
  | none => .undefined

/-- A summary part or a content part of a reasoning item. -/
structure PartKey where
  item : Identity
  summary : Bool
  part : Identity
  deriving DecidableEq

structure ThinkingBlock where
  thinkingBuf : JsString := []
  reasoningItemKey : Option Identity := none
  reasoningPartKey : Option PartKey := none
  reasoningSig : Option JsString := none
  reasoningNative : Option NativeReasoning := none

structure ToolBlock where
  index : ℕ
  callId : JsString
  itemId : Option JsString
  bufferWebSearchArgs : Bool
  argsBuf : JsString := []
  webSearchArgsEmitted : Bool := false
  toolArgsEmitted : Bool := false

inductive OpenBlock where
  | text (index : ℕ)
  | thinking (block : ThinkingBlock)
  | toolUse (block : ToolBlock)

structure MessageStream where
  started : Bool := false
  terminated : Bool := false
  terminalDelivered : Bool := false
  blockIndex : ℕ := 0
  opened : Option OpenBlock := none
  sawToolUse : Bool := false
  webSearchRequests : ℕ := 0
  earlyAnthropicUsage : Option Json := none
  progressMirrorId : Option JsString := none
  /-- How many unique ids were drawn. -/
  drawn : ℕ := 0
  /-- How many requests the budget grants before it refuses one. -/
  grants : Option ℕ := none
  written : List MessagesEvent := []

/-- `TranslatorBudgetExceededError` -/
inductive Overflow where
  | overflow

abbrev Code (α : Type) := Act MessageStream Overflow α

namespace MessageStream

def isThinking (s : MessageStream) : Bool :=
  match s.opened with
  | some (.thinking _) => true
  | _ => false

def isText (s : MessageStream) : Bool :=
  match s.opened with
  | some (.text _) => true
  | _ => false

/-- The block that is open is the thinking of another item. -/
def thinksOther (s : MessageStream) (itemKey : Identity) : Bool :=
  match s.opened with
  | some (.thinking block) => block.reasoningItemKey ≠ some itemKey
  | _ => false

end MessageStream

/-! ## Emitting -/

/-- A request to the budget. -/
def ask : Code PUnit := fun s ↦
  match s.grants with
  | none => (.ok ⟨⟩, s)
  | some 0 => (.error .overflow, s)
  | some (n + 1) => (.ok ⟨⟩, { s with grants := some n })

def write (e : MessagesEvent) : Code PUnit := modify fun s ↦ { s with written := s.written ++ [e] }

def emit (e : MessagesEvent) : Code PUnit := do
  ask
  write e

def uuid : Code JsString := do
  let s ← get
  modify fun s ↦ { s with drawn := s.drawn + 1 }
  pure (E.uuid s.drawn)

def ensureStarted : Code PUnit := do
  let s ← get
  when (s.started = false) do
    modify fun s ↦ { s with started := true }
    let id ← uuid E
    emit (.messageStart (messageSnapshot E id s.earlyAnthropicUsage))
    emit .ping

/-- `blockIndex++` -/
def nextIndex : Code ℕ := do
  let s ← get
  modify fun s ↦ { s with blockIndex := s.blockIndex + 1 }
  pure s.blockIndex

def setOpen (block : Option OpenBlock) : Code PUnit := modify fun s ↦ { s with opened := block }

/-- Arguments of a web search, made fit for the client. -/
def sanitizedArguments (rawArgs : JsString) : JsString :=
  let parsed := if rawArgs = [] then none else Json.parse rawArgs
  (sanitizeWebSearchInput (parsed.getD (record []))).stringify

/-- The tag that a provider's own reasoning gets on this route. -/
def nativeTag (block : ThinkingBlock) : Option JsString :=
  truthy (block.reasoningNative.bind fun native ↦ E.nativeReasoningTagFor native.enc)

def signatureOf (block : ThinkingBlock) : JsString :=
  block.reasoningSig.getD (encodeReasoningEnvelope E block.thinkingBuf
    ((nativeTag E block).bind fun tag ↦
      block.reasoningNative.map fun native ↦ nativeMember E native tag))

/-- A thinking block is written when it closes, unless there is nothing to write. -/
def closeThinking (block : ThinkingBlock) : Code PUnit :=
  if block.thinkingBuf = [] ∧ truthy block.reasoningSig = none ∧ nativeTag E block = none then
    setOpen none
  else do
    let index ← nextIndex
    emit (.blockStart index .thinking)
    when (block.thinkingBuf ≠ []) (emit (.blockDelta index (.thinking block.thinkingBuf)))
    when (block.reasoningSig = none) ask
    emit (.blockDelta index (.signature (signatureOf E block)))
    emit (.blockStop index)
    setOpen none

def closeTool (block : ToolBlock) : Code PUnit := do
  when (block.bufferWebSearchArgs = true ∧ block.webSearchArgsEmitted = false)
    (emit (.blockDelta block.index (.inputJson (sanitizedArguments block.argsBuf))))
  emit (.blockStop block.index)
  setOpen none

def closeOpenBlock : Code PUnit := do
  let s ← get
  match s.opened with
  | none => pure ⟨⟩
  | some (.text index) => do
    emit (.blockStop index)
    setOpen none
  | some (.thinking block) => closeThinking E block
  | some (.toolUse block) => closeTool block

/-- `ensureBlock("text")` -/
def ensureText : Code PUnit := do
  ensureStarted E
  let s ← get
  when (s.isText = false) do
    closeOpenBlock E
    let index ← nextIndex
    emit (.blockStart index .text)
    setOpen (some (.text index))

/-- `ensureBlock("thinking")` -/
def ensureThinking : Code PUnit := do
  ensureStarted E
  let s ← get
  when (s.isThinking = false) do
    closeOpenBlock E
    setOpen (some (.thinking {}))

/-! ## Ending -/

def finish (stopReason : JsString) (usage : Option Json) : Code PUnit := do
  let s ← get
  when (s.terminated = false) do
    modify fun s ↦ { s with terminated := true }
    ensureStarted E
    closeOpenBlock E
    let s ← get
    emit (.messageDelta stopReason (anthropicUsage usage s.webSearchRequests))
    emit .messageStop
    modify fun s ↦ { s with terminalDelivered := true }

/-- `fail` with any code but the one of an overflow. -/
def fail (status : ℚ) (message : JsString) (upstreamDerived : Bool) (code : Option JsString) :
    Code PUnit := do
  let s ← get
  when (s.terminated = false) do
    modify fun s ↦ { s with terminated := true }
    let type := if upstreamDerived = true ∧ isTransientUpstreamStatus status = true then
      some (js "overloaded_error") else none
    when (s.started = true) (closeOpenBlock E)
    emit (.error (anthropicErrorBody E status message type code))
    modify fun s ↦ { s with terminalDelivered := true }

/-- The error that needs no grant. -/
def overflowError : MessagesEvent :=
  .error (anthropicErrorBody E 413 (js "upstream translation buffer exceeded the safe limit")
    (some (js "request_too_large")) (some translationBufferLimit))

/-- `fail` after an overflow. -/
def failOverflow (s : MessageStream) : MessageStream :=
  if s.terminated = true ∧ s.terminalDelivered = true then s
  else
    { s with
      terminated := true, opened := none, terminalDelivered := true
      written := s.written ++ [overflowError E] }

/-! ## One event -/

def onLifecycle (data : Json) : Code PUnit :=
  modify fun s ↦
    let usage := plainObject (fieldOf (plainObject (data.field? (js "response"))) "usage")
    if s.started = false ∧ (numberOf (fieldOf usage "input_tokens")).isSome = true then
      { s with earlyAnthropicUsage := some (anthropicUsage usage 0) }
    else s

def onTextDelta (data : Json) : Code PUnit :=
  forSome (nonEmptyAt data "delta") fun delta ↦ do
    ensureText E
    let s ← get
    match s.opened with
    | some (.text index) => emit (.blockDelta index (.text delta))
    | _ => pure ⟨⟩

def onReasoningDelta (summary : Bool) (data : Json) : Code PUnit :=
  forSome (nonEmptyAt data "delta") fun delta ↦ do
    let itemKey := boundedReasoningIdentity E (data.field? (js "item_id"))
    let s ← get
    when (s.thinksOther itemKey = true) (closeOpenBlock E)
    ensureThinking E
    let s ← get
    match s.opened with
    | some (.thinking active) => do
      let part := data.field? (js (if summary then "summary_index" else "content_index"))
      let partKey : PartKey := ⟨itemKey, summary, boundedReasoningIdentity E part⟩
      let needsPartSeparator := active.reasoningPartKey.any fun key ↦ key ≠ partKey
      let appended := (if needsPartSeparator then js "\n\n" else []) ++ delta
      ask
      setOpen (some (.thinking { active with
        thinkingBuf := active.thinkingBuf ++ appended
        reasoningItemKey := some itemKey, reasoningPartKey := some partKey }))
    | _ => pure ⟨⟩

def onItemAdded (data : Json) : Code PUnit :=
  forSome ((plainObject (data.field? (js "item"))).filter fun item ↦
      stringAt item "type" = some (js "function_call")) fun item ↦ do
    ensureStarted E
    closeOpenBlock E
    modify fun s ↦ { s with sawToolUse := true }
    let index ← nextIndex
    let name := (stringAt item "name").getD []
    let fresh ← uuid E
    let callId := (stringAt item "call_id").getD (js "toolu_" ++ fresh)
    emit (.blockStart index (.toolUse callId name))
    setOpen (some (.toolUse
      { index := index, callId := callId, itemId := stringAt item "id"
        bufferWebSearchArgs := isClaudeWebSearchToolName name }))

def onArgumentsDelta (data : Json) : Code PUnit :=
  forSome (nonEmptyAt data "delta") fun delta ↦ do
    let s ← get
    match s.opened with
    | some (.toolUse block) =>
      if block.bufferWebSearchArgs then do
        ask
        setOpen (some (.toolUse { block with argsBuf := block.argsBuf ++ delta }))
      else do
        emit (.blockDelta block.index (.inputJson delta))
        setOpen (some (.toolUse { block with toolArgsEmitted := true }))
    | _ => pure ⟨⟩

/-- The whole arguments of an ordinary call, if none of them were emitted. -/
def emitArguments (block : ToolBlock) (arguments : Option JsString) : Code PUnit :=
  forSome (if block.bufferWebSearchArgs || block.toolArgsEmitted then none else arguments)
    fun arguments ↦ do
      emit (.blockDelta block.index (.inputJson arguments))
      setOpen (some (.toolUse { block with toolArgsEmitted := true }))

def onArgumentsDone (data : Json) : Code PUnit := do
  let s ← get
  match s.opened with
  | some (.toolUse block) => emitArguments block (nonEmptyAt data "arguments")
  | _ => pure ⟨⟩

/-- A finished search: the pair of its blocks. -/
def onSearchDone (item : Json) : Code PUnit := do
  ensureStarted E
  closeOpenBlock E
  let fresh ← uuid E
  let pair := webSearchPairFromItem item fresh
  let toolIndex ← nextIndex
  emit (.blockStart toolIndex (.serverToolUse pair.id pair.name))
  emit (.blockDelta toolIndex (.inputJson pair.input.stringify))
  emit (.blockStop toolIndex)
  let resultIndex ← nextIndex
  emit (.blockStart resultIndex (.result pair.resultType pair.id pair.resultContent))
  emit (.blockStop resultIndex)
  when (pair.completed = true ∧ pair.name = js "web_search")
    (modify fun s ↦ { s with webSearchRequests := s.webSearchRequests + 1 })

def onCallDone (block : ToolBlock) (item : Json) : Code PUnit := do
  if block.bufferWebSearchArgs = true ∧ block.webSearchArgsEmitted = false then do
    let rawArgs := (nonEmptyAt item "arguments").getD block.argsBuf
    emit (.blockDelta block.index (.inputJson (sanitizedArguments rawArgs)))
    setOpen (some (.toolUse { block with webSearchArgsEmitted := true }))
  else emitArguments block (nonEmptyAt item "arguments")
  closeOpenBlock E

def emitRedacted (data : JsString) : Code PUnit := do
  let index ← nextIndex
  emit (.blockStart index (.redactedThinking data))
  emit (.blockStop index)

/-- What the envelope says of the thinking that is open. -/
def completeThinking (item : Json) (env : Option ReasoningEnvelope) (native : JsString)
    (block : ThinkingBlock) : Code PUnit := do
  let mirrored := env.bind fun env ↦
    env.upd.bind fun upd ↦ env.txt.map fun txt ↦ (upd, txt)
  forSome mirrored fun m ↦ do
    modify fun s ↦ { s with progressMirrorId := some m.1 }
    ask
  setOpen (some (.thinking { block with
    thinkingBuf := (mirrored.map Prod.snd).getD block.thinkingBuf
    reasoningSig := (truthy (env.bind (·.sig))).or block.reasoningSig
    reasoningNative := if native = [] then block.reasoningNative
      else some ⟨native, nonEmptyAt item "id"⟩ }))
  closeOpenBlock E

/-- The redacted blocks of an envelope; everything but thinking is closed before them. -/
def emitRedactedBlocks (red : List JsString) : Code PUnit := do
  when (red ≠ []) do
    ensureStarted E
    let s ← get
    when (s.isThinking = false) (closeOpenBlock E)
  red.forM emitRedacted

/-- The thinking that is done, also where only its signature is known. -/
def showThinking (item : Json) (env : Option ReasoningEnvelope) (native : JsString) : Code PUnit := do
  let s ← get
  when (((truthy (env.bind (·.sig))).isSome = true ∨ native ≠ []) ∧ s.isThinking = false)
    (ensureThinking E)
  let s ← get
  match s.opened with
  | some (.thinking block) => completeThinking E item env native block
  | _ => pure ⟨⟩

def onReasoningDone (item : Json) : Code PUnit := do
  let encrypted := (stringAt item "encrypted_content").getD []
  when (ocxReasoningPrefix.isPrefixOf encrypted = true) ask
  let env := decodeReasoningEnvelope E encrypted
  let s ← get
  when (s.thinksOther (boundedReasoningIdentity E (item.field? (js "id"))) = true) (closeOpenBlock E)
  emitRedactedBlocks E ((env.map (·.red)).getD [])
  showThinking E item env (nativeEncryptedReasoning encrypted)

def onItemDone (data : Json) : Code PUnit :=
  forSome (plainObject (data.field? (js "item"))) fun item ↦ do
    let type := stringAt item "type"
    let s ← get
    if type = some (js "web_search_call") then onSearchDone E item
    else
      match s.opened with
      | some (.toolUse block) =>
        if type = some (js "function_call") then onCallDone E block item
        else if type = some (js "reasoning") then onReasoningDone E item
        else pure ⟨⟩
      | _ =>
        if s.isText = true ∧ type = some (js "message") then closeOpenBlock E
        else if type = some (js "reasoning") then onReasoningDone E item
        else pure ⟨⟩

def onCompleted (data : Json) : Code PUnit := do
  let response := plainObject (data.field? (js "response"))
  let s ← get
  match fieldOf response "end_turn", s.sawToolUse with
  | some (.bool false), false =>
    fail E 529 (js "upstream turn ended without a final answer") true none
  | _, sawToolUse =>
    finish E (if sawToolUse then js "tool_use" else js "end_turn") (fieldOf response "usage")

def onIncomplete (data : Json) : Code PUnit :=
  let response := plainObject (data.field? (js "response"))
  let details := plainObject (fieldOf response "incomplete_details")
  match anthropicIncompleteOutcome (fieldOf details "reason") (fieldOf details "message") with
  | .inl stopReason => finish E stopReason (fieldOf response "usage")
  | .inr failMessage => fail E 529 failMessage true none

def undeclaredToolCallErrorCode : JsString := js "undeclared_tool_call"

def onFailed (data : Json) : Code PUnit :=
  let response := plainObject (data.field? (js "response"))
  let error := plainObject (fieldOf response "error")
  let message := (stringOf (fieldOf error "message")).getD (js "upstream request failed")
  let code := stringOf (fieldOf error "code")
  if code = some translationBufferLimit then throw .overflow
  else
    let status := anthropicFailedStatus E error message
    let deterministic : Bool := code = some undeclaredToolCallErrorCode
    fail E status message (!deterministic)
      (if deterministic = true ∨ code = some contextLengthExceeded then code else none)

/-- A frame of the copy of a block that was already shown. -/
def mirrors (progressMirrorId : Option JsString) (data : Json) : Bool :=
  (truthy progressMirrorId).any fun id ↦
    stringAt data "item_id" = some id ∨
      (plainObject (data.field? (js "item"))).any fun item ↦ stringAt item "id" = some id

def handleFrame (room : Bool) (eventName : JsString) (data : Json) : Code PUnit := do
  let s ← get
  if mirrors s.progressMirrorId data = true then
    when (eventName = js "response.output_item.done")
      (modify fun s ↦ { s with progressMirrorId := none })
  else if eventName = js "response.created" ∨ eventName = js "response.in_progress" then
    onLifecycle data
  else if eventName = js "response.heartbeat" then when (room = true) (emit .ping)
  else if eventName = js "response.output_text.delta" then onTextDelta E data
  else if eventName = js "response.reasoning_summary_text.delta" then onReasoningDelta E true data
  else if eventName = js "response.reasoning_text.delta" then onReasoningDelta E false data
  else if eventName = js "response.output_item.added" then onItemAdded E data
  else if eventName = js "response.function_call_arguments.delta" then onArgumentsDelta data
  else if eventName = js "response.function_call_arguments.done" then onArgumentsDone data
  else if eventName = js "response.output_item.done" then onItemDone E data
  else if eventName = js "response.completed" then onCompleted E data
  else if eventName = js "response.incomplete" then onIncomplete E data
  else when (eventName = js "response.failed") (onFailed E data)

/-! ## Frames -/

/-- `sseFieldOffset`: the value of a field, where the line has it. -/
def fieldValue (field : String) (line : JsString) : Option JsString :=
  if (js field).isPrefixOf line then
    match line.drop field.length with
    | [] => some []
    | 58 :: 32 :: value => some value
    | 58 :: value => some value
    | _ => none
  else none

/-- A line of a frame: it may name the event, or carry data, which is asked for. -/
def onLine (read : JsString × JsString) (line : JsString) : Code (JsString × JsString) :=
  match fieldValue "event" line, fieldValue "data" line with
  | some name, _ => pure (trim name, read.2)
  | none, some fragment => do
    ask
    ask
    pure (read.1, read.2 ++ fragment)
  | none, none => pure read

/-- The event a frame names, and its data. -/
def frameEvent (read : JsString × JsString) : Option (JsString × Json) := do
  if read.2 = [] then none
  else
    let data ← plainObject (Json.parse read.2)
    let name := if read.1 = [] then (stringAt data "type").getD [] else read.1
    if name = [] then none else some (name, data)

def onFrame (room : Bool) (rawFrame : JsString) : Code PUnit := do
  ask
  ask
  let read ← (rawFrame.splitOn 10).foldlM onLine ([], [])
  let s ← get
  when (s.terminated = false) (forSome (frameEvent read) fun e ↦ handleFrame E room e.1 e.2)

/-! ## The body -/

inductive TranslationPhase where
  /-- `await reader.read()`. -/
  | reading
  /-- The loop over the frames of the buffer. -/
  | scanning
  /-- `await reader.cancel(err)` after an overflow. -/
  | cancelling
  /-- The controller is closed. -/
  | over
  deriving DecidableEq

structure Translation where
  phase : TranslationPhase := .reading
  decoder : Utf8.State × Bool := Sse.utf8Decoder.fresh
  buffer : JsString := []
  stream : MessageStream := {}

inductive TranslationEvent where
  /-- The read yields bytes. -/
  | chunk (grants : Option ℕ) (value : List UInt8)
  /-- The next turn of the inner loop. -/
  | scan (grants : Option ℕ) (room : Bool)
  | done (grants : Option ℕ)
  | readError (grants : Option ℕ) (message : JsString)
  /-- The read fails with an overflow of the budget. -/
  | readOverflow
  /-- The body was cancelled. -/
  | cancelled
  | ping (grants : Option ℕ) (room : Bool)

/-- Code is run with these grants; an overflow has the body cancelled. -/
def runWith (t : Translation) (grants : Option ℕ) (code : Code PUnit) (next : TranslationPhase) :
    Translation :=
  match code { t.stream with grants := grants } with
  | (.ok _, s) => { t with phase := next, stream := s }
  | (.error _, s) => { t with phase := .cancelling, stream := s }

def truncated : JsString := js "upstream stream ended before a terminal frame (truncated response)"

def translationStep (t : Translation) (e : TranslationEvent) : Option Translation :=
  match e, t.phase with
  | .chunk grants value, .reading =>
    let r := Sse.utf8Decoder.decode t.decoder value
    some (runWith { t with decoder := r.1, buffer := t.buffer ++ r.2 } grants
      (do ask; ask) .scanning)
  | .scan grants room, .scanning =>
    match indexOf (js "\n\n") t.buffer with
    | none => some { t with phase := .reading }
    | some sep => some (runWith { t with buffer := t.buffer.drop (sep + 2) } grants
        (onFrame E room (t.buffer.take sep)) .scanning)
  | .done grants, .reading => some (runWith t grants (fail E 502 truncated true none) .over)
  | .readError grants message, .reading =>
    -- an overflow here leaves the handler, and the controller is closed
    some { t with
      phase := .over
      stream := (fail E 500 message false none { t.stream with grants := grants }).2 }
  | .readOverflow, .reading => some { t with phase := .cancelling }
  | .cancelled, .cancelling => some { t with phase := .over, stream := failOverflow E t.stream }
  | .ping _ _, .scanning => none
  | .ping _ _, .over => none
  | .ping grants room, _ =>
    some { t with
      stream := (when (t.stream.terminated = false ∧ room = true) (emit .ping)
        { t.stream with grants := grants }).2 }
  | _, _ => none

/-- `responsesSseToAnthropicSse` -/
def responsesSseToAnthropicSse : Machine Translation TranslationEvent where
  init t := t = {}
  step := translationStep E

end Messages
