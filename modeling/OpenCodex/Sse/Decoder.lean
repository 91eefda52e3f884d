import OpenCodex.Data.Json
import OpenCodex.Sse.Framing

/-!
# The event-stream decoder

`decodeServerSentEvents` reads a body chunk by chunk, decodes each chunk to text, cuts the text at
its line endings — CR, LF or both — and collects the fields of an event until a blank line dispatches
it.  A line that a chunk does not finish is carried to the next one, and so is the fact that the last
line was ended by a CR, to which an LF may still belong.

Every text the decoder holds is charged to a budget that may refuse; it is a parameter here, and so
are the text decoder and the consumer: what it does with the budget between two records, and where it
returns early.  However the decoder is left — a refusal, an early return, a failed read — it gives back
on its way out what it still holds.
-/

set_option autoImplicit false

namespace Sse

/-! ## The surroundings -/

/-- A budget for retained bytes; where it refuses, it throws. -/
structure TranslatorBudget (β : Type) where
  reserveTransient : β → ℕ → Option β
  /-- The transient reservation becomes a retained charge. -/
  commitRetained : β → ℕ → β
  chargeRetained : β → ℕ → Option β
  releaseRetained : β → ℕ → β

/-- A streaming text decoder. -/
structure TextDecoder (δ : Type) where
  fresh : δ
  /-- `decode(value, { stream: true })`. -/
  decode : δ → Bytes → δ × JsString
  /-- `decode()`: what is still open is flushed. -/
  flush : δ → JsString

/-- What a body yields. -/
inductive SseRecord where
  | event (event : Option JsString) (data : JsString)
  | comment (comment : JsString)
  deriving DecidableEq, Repr

/-- `TranslatorBudgetExceededError`. -/
inductive TranslatorBudgetExceededError where
  | turnBytes
  | eventBytes
  deriving DecidableEq, Repr

def translatorMaxSseEventBytes : ℕ := 32 * 1024 * 1024

/-- How the decoder is left before its end. -/
inductive DecoderExit where
  | exceeded (e : TranslatorBudgetExceededError)
  /-- The consumer returned at a record. -/
  | returned
  /-- The body could not be read on. -/
  | readFailed
  deriving DecidableEq, Repr

/-- What the consumer does at a record. -/
structure Consumer (β : Type) where
  between : SseRecord → β → β
  /-- After these records it wants no more. -/
  returns : List SseRecord → Bool

/-- How a body ends; an abort ends it too. -/
inductive SourceEnd where
  | done
  | failed
  deriving DecidableEq, Repr

/-- What the decoder keeps between two chunks. -/
structure SseDecoder (β : Type) where
  lineBuffer : JsString := []
  skipLineFeed : Bool := false
  lineRawBytes : ℕ := 0
  lineRetainedBytes : ℕ := 0
  event : Option JsString := none
  eventBytes : ℕ := 0
  dataLines : List JsString := []
  dataLinesBytes : ℕ := 0
  /-- The line that is being accepted still holds its bytes. -/
  lineOwned : Bool := false
  translatorBudget : β
  yielded : List SseRecord := []

/-- A record that is about to be yielded, with the bytes it retains. -/
structure AcceptedRecord where
  record : SseRecord
  bytes : ℕ

namespace SseDecoder

variable {β δ : Type} (B : TranslatorBudget β)

/-- Code of the decoder. -/
abbrev Code (β α : Type) := Act (SseDecoder β) DecoderExit α

/-! ## The budget -/

/-- `reserveTransient` followed by `commitRetained`: nothing between them can throw. -/
def reserve (bytes : ℕ) : Code β PUnit := fun s ↦
  match B.reserveTransient s.translatorBudget bytes with
  | none => (.error (.exceeded .turnBytes), s)
  | some b => (.ok ⟨⟩, { s with translatorBudget := B.commitRetained b bytes })

def chargeRetained (bytes : ℕ) : Code β PUnit := fun s ↦
  match B.chargeRetained s.translatorBudget bytes with
  | none => (.error (.exceeded .turnBytes), s)
  | some b => (.ok ⟨⟩, { s with translatorBudget := b })

def releaseRetained (bytes : ℕ) : Code β PUnit :=
  modify fun s ↦ { s with translatorBudget := B.releaseRetained s.translatorBudget bytes }

/-- A surrogate pair begins at an index. -/
def pairAt (value : JsString) (index : ℕ) : Bool :=
  value[index]?.any (fun c ↦ 0xd800 ≤ c && c ≤ 0xdbff) &&
    value[index + 1]?.any fun c ↦ 0xdc00 ≤ c && c ≤ 0xdfff

/-- The bytes of the units from `index` on, so many of them. -/
def utf8SliceBytesFrom (value : JsString) : ℕ → ℕ → ℕ
  | 0, _ => 0
  | units + 1, index =>
    if pairAt value index then
      match units with
      | 0 => 4
      | units + 1 => 4 + utf8SliceBytesFrom value units (index + 2)
    else
      (match value[index]? with
        | none => 0
        | some c => if c ≤ 0x7f then 1 else if c ≤ 0x7ff then 2 else 3) +
        utf8SliceBytesFrom value units (index + 1)

def utf8SliceBytes (value : JsString) (start stop : ℕ) : ℕ :=
  utf8SliceBytesFrom value (stop - start) start

/-- `slice`. -/
def sliceOf (value : JsString) (start stop : ℕ) : JsString := (value.drop start).take (stop - start)

def linePrefixAfter (lineBuffer sourceValue : JsString) (start stop : ℕ) : JsString :=
  if lineBuffer.length ≥ 6 then lineBuffer.take 6
  else (lineBuffer ++ sliceOf sourceValue start (min stop (start + 6 - lineBuffer.length))).take 6

def accountedLineBytes (rawBytes : ℕ) (linePrefix : JsString) : ℕ :=
  if linePrefix.length < 5 ∧ linePrefix.isPrefixOf (js "data:") then 0
  else if !(js "data:").isPrefixOf linePrefix then rawBytes
  else rawBytes - if linePrefix[5]? = some 32 then 6 else 5

/-! ## Lines -/

/-- A line of an event may not outgrow what an event may have. -/
def checkEventBytes (bytes : ℕ) : Code β PUnit :=
  Act.when (bytes > translatorMaxSseEventBytes) (throw (.exceeded .eventBytes))

def appendLine (sourceValue : JsString) (start stop : ℕ) : Code β PUnit := do
  Act.when (start < stop) do
    let s ← get
    let nextRawBytes := s.lineRawBytes + utf8SliceBytes sourceValue start stop
    let linePrefix := linePrefixAfter s.lineBuffer sourceValue start stop
    Act.when ((js "data:").isPrefixOf linePrefix)
      (checkEventBytes (s.dataLinesBytes + s.dataLines.length +
        accountedLineBytes nextRawBytes linePrefix))
    reserve B nextRawBytes
    modify fun s ↦ { s with lineBuffer := s.lineBuffer ++ sliceOf sourceValue start stop }
    releaseRetained B s.lineRetainedBytes
    modify fun s ↦ { s with lineRawBytes := nextRawBytes, lineRetainedBytes := nextRawBytes }

/-- Dispatch the event whose fields have been collected; without data there is none. -/
def dispatch : Code β (Option AcceptedRecord) := do
  let s ← get
  if s.dataLines = [] then
    releaseRetained B s.eventBytes
    modify fun s ↦ { s with event := none, eventBytes := 0 }
    pure none
  else
    let payloadBytes := s.dataLinesBytes + (s.dataLines.length - 1)
    checkEventBytes payloadBytes
    Act.when (s.dataLines.length ≠ 1) do
      reserve B payloadBytes
      releaseRetained B s.dataLinesBytes
    modify fun s ↦
      { s with event := none, eventBytes := 0, dataLines := [], dataLinesBytes := 0 }
    pure (some
      { record := .event (s.event.filter (· ≠ [])) ((js "\n").intercalate s.dataLines)
        bytes := payloadBytes + s.eventBytes })

/-- The value of a field that ends at `fieldEnd`: at most one space is taken off. -/
def valueStartOf (line : JsString) (fieldEnd : ℕ) : ℕ :=
  let valueStart := if fieldEnd = line.length then line.length else fieldEnd + 1
  if (line)[valueStart]? = some 32 then valueStart + 1 else valueStart

/-- Give back the bytes of the line that is being accepted, once. -/
def releaseLine (retainedLineBytes : ℕ) : Code β PUnit := do
  let s ← get
  Act.when (s.lineOwned = true) do
    modify fun s ↦ { s with lineOwned := false }
    releaseRetained B retainedLineBytes

/-- One field of an event. -/
def acceptField (line : JsString) (retainedLineBytes : ℕ) : Code β PUnit := do
  let fieldEnd := (line.findIdx? (· = 58)).getD line.length
  let fieldBytes := utf8SliceBytes line 0 fieldEnd
  reserve B fieldBytes
  let field := line.take fieldEnd
  let valueStart := valueStartOf line fieldEnd
  let valueBytes := utf8SliceBytes line valueStart line.length
  Act.ensuring (do
    if field = js "event" then
      reserve B valueBytes
      let s ← get
      releaseRetained B s.eventBytes
      modify fun s ↦ { s with event := some (line.drop valueStart), eventBytes := valueBytes }
      releaseLine B retainedLineBytes
    else if field = js "data" then
      let s ← get
      checkEventBytes (s.dataLinesBytes + valueBytes + s.dataLines.length)
      chargeRetained B valueBytes
      modify fun s ↦
        { s with
          dataLines := s.dataLines ++ [line.drop valueStart]
          dataLinesBytes := s.dataLinesBytes + valueBytes }
      releaseLine B retainedLineBytes
    else releaseLine B retainedLineBytes)
    (releaseRetained B fieldBytes)

/-- What a complete line is. -/
def acceptOwned (includeComments : Bool) (line : JsString) (retainedLineBytes : ℕ) :
    Code β (Option AcceptedRecord) := do
  if line = [] then
    releaseLine B retainedLineBytes
    dispatch B
  else if line.head? = some 58 then
    if !includeComments then
      releaseLine B retainedLineBytes
      pure none
    else
      let commentStart := if (line)[1]? = some 32 then 2 else 1
      let commentBytes := utf8SliceBytes line commentStart line.length
      chargeRetained B commentBytes
      releaseLine B retainedLineBytes
      pure (some { record := .comment (line.drop commentStart), bytes := commentBytes })
  else
    acceptField B line retainedLineBytes
    pure none

/-- A line is complete. -/
def acceptLine (includeComments : Bool) : Code β (Option AcceptedRecord) := do
  let s ← get
  modify fun s ↦
    { s with lineBuffer := [], lineRawBytes := 0, lineRetainedBytes := 0, lineOwned := true }
  tryCatch (acceptOwned B includeComments s.lineBuffer s.lineRetainedBytes) fun e ↦ do
    releaseLine B s.lineRetainedBytes
    throw e

/-! ## Text -/

variable (consumer : Consumer β)

/-- Hand a record out. -/
def yieldRecord (record : SseRecord) : Code β PUnit := do
  modify fun s ↦
    { s with
      yielded := s.yielded ++ [record]
      translatorBudget := consumer.between record s.translatorBudget }
  let s ← get
  Act.when (consumer.returns s.yielded = true) (throw .returned)

/-- Yield what was accepted; its bytes are released when the consumer comes back, or returns. -/
def yieldAccepted (accepted : Option AcceptedRecord) : Code β PUnit :=
  Act.forSome accepted fun a ↦ Act.ensuring (yieldRecord consumer a.record) (releaseRetained B a.bytes)

/-- `decoded.indexOf(c, offset)`. -/
def indexFrom (c : CodeUnit) (decoded : JsString) (offset : ℕ) : Option ℕ :=
  ((decoded.drop offset).findIdx? (· = c)).map (· + offset)

/-- A cached position is looked up again once the offset has passed it. -/
def refresh (c : CodeUnit) (decoded : JsString) (offset : ℕ) (next : Option ℕ) : Option ℕ :=
  match next with
  | none => none
  | some position => if position < offset then indexFrom c decoded offset else some position

/-- The first of two positions. -/
def firstOf (nextCr nextLf : Option ℕ) : Option ℕ :=
  match nextCr, nextLf with
  | none, nextLf => nextLf
  | some cr, none => some cr
  | some cr, some lf => some (min cr lf)

/-- The loop of `consumeDecoded`; every turn moves the offset, so as many turns as the text has
units are enough. -/
def consumeFrom (includeComments : Bool) (decoded : JsString) :
    ℕ → ℕ → Option ℕ → Option ℕ → Code β PUnit
  | 0, _, _, _ => pure ⟨⟩
  | turns + 1, offset, nextCr, nextLf =>
    if offset < decoded.length then do
      let s ← get
      modify fun s ↦ { s with skipLineFeed := false }
      if s.skipLineFeed = true ∧ decoded[offset]? = some 10 then
        consumeFrom includeComments decoded turns (offset + 1) nextCr nextLf
      else
        let nextCr := refresh 13 decoded offset nextCr
        let nextLf := refresh 10 decoded offset nextLf
        match firstOf nextCr nextLf with
        | none => appendLine B decoded offset decoded.length
        | some newline => do
          appendLine B decoded offset newline
          modify fun s ↦ { s with skipLineFeed := decide (decoded[newline]? = some 13) }
          let accepted ← acceptLine B includeComments
          yieldAccepted B consumer accepted
          consumeFrom includeComments decoded turns (newline + 1) nextCr nextLf
    else pure ⟨⟩

def consumeDecoded (includeComments : Bool) (decoded : JsString) : Code β PUnit :=
  consumeFrom B consumer includeComments decoded decoded.length 0 (indexFrom 13 decoded 0)
    (indexFrom 10 decoded 0)

/-! ## The body -/

variable (D : TextDecoder δ)

/-- What is left at the end of the body: a line without a line ending, an event without a blank
line. -/
def finishBody (includeComments : Bool) (d : δ) : Code β PUnit := do
  consumeDecoded B consumer includeComments (D.flush d)
  let s ← get
  Act.when (s.lineBuffer.length > 0) do
    let accepted ← acceptLine B includeComments
    yieldAccepted B consumer accepted
  let finalRecord ← dispatch B
  yieldAccepted B consumer finalRecord

/-- Read the chunks of a body to its end. -/
def readChunks (includeComments : Bool) (sourceEnd : SourceEnd) : δ → List Bytes → Code β PUnit
  | d, [] =>
    match sourceEnd with
    | .done => finishBody B consumer D includeComments d
    | .failed => throw .readFailed
  | d, value :: chunks => do
    reserve B value.length
    Act.ensuring (consumeDecoded B consumer includeComments (D.decode d value).2)
      (releaseRetained B value.length)
    readChunks includeComments sourceEnd (D.decode d value).1 chunks

/-- Give back what is still held. -/
def releaseHeld : Code β PUnit := do
  let s ← get
  releaseRetained B (s.lineRetainedBytes + s.dataLinesBytes + s.eventBytes)

/-- The decoder, from its first step until it is left. -/
def decode (includeComments : Bool) (budget : β) (chunks : List Bytes) (sourceEnd : SourceEnd) :
    Except DecoderExit PUnit × SseDecoder β :=
  Act.ensuring (readChunks B consumer D includeComments sourceEnd D.fresh chunks) (releaseHeld B)
    { translatorBudget := budget }

end SseDecoder

/-- The decoder on a body that is read to its end, by a consumer that takes every record. -/
def SseDecoder.decodeServerSentEvents {β δ : Type} (B : TranslatorBudget β)
    (consumer : SseRecord → β → β) (D : TextDecoder δ) (includeComments : Bool) (budget : β)
    (chunks : List Bytes) : Except DecoderExit PUnit × SseDecoder β :=
  SseDecoder.decode B ⟨consumer, fun _ ↦ false⟩ D includeComments budget chunks .done

end Sse
