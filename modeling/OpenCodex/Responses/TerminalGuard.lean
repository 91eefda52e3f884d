import OpenCodex.Bridge.Events
import Mathlib.Data.Rat.Floor

/-!
# Continuing a turn that only announced what it would do

Some models end a turn after saying what they are about to do, without a tool call.
`guardTerminalEventStream` passes the events of a turn through and, where a turn ends so, starts
another one: the history is rebuilt with the text of the turn and a nudge, and the events of the
continuation follow behind a boundary.  Each turn that is passed through is a *leg*.

The guard keeps the text and the signed reasoning of a leg for the analysis and for the rebuilt
history.  Where it would have to keep too much, or a tool is called, the analysis of the leg is off.

The patterns the texts are tried on, the clock and the continuation are parameters.  A leg may break
off: then its events end and the iteration fails.
-/

set_option autoImplicit false

open Json Bridge

namespace TerminalGuard

/-! ## Usage -/

/-- What a leg reports to have used. -/
structure OcxUsage where
  inputTokens : ℚ
  outputTokens : ℚ
  providerCredits : Option ℚ
  contextTotalTokens : Option ℚ
  totalTokens : Option ℚ
  cachedInputTokens : Option ℚ
  cacheReadInputTokens : Option ℚ
  cacheCreationInputTokens : Option ℚ
  cacheCreation1hInputTokens : Option ℚ
  reasoningOutputTokens : Option ℚ
  estimated : Bool
  /-- The usage object as the provider wrote it. -/
  rawUsage : Option Json

/-- The sum of two counts, either of which may be missing. -/
def sumOptional (left right : Option ℚ) : Option ℚ :=
  if left.isSome ∨ right.isSome then some (left.getD 0 + right.getD 0) else none

/-- Two reported usages as one. -/
def mergeUsage : Option OcxUsage → Option OcxUsage → Option OcxUsage
  | none, second => second
  | some first, none => some first
  | some first, some second =>
    some {
      inputTokens := first.inputTokens + second.inputTokens
      outputTokens := first.outputTokens + second.outputTokens
      totalTokens := some (first.inputTokens + second.inputTokens +
        (first.outputTokens + second.outputTokens))
      cachedInputTokens := sumOptional first.cachedInputTokens second.cachedInputTokens
      cacheReadInputTokens := sumOptional first.cacheReadInputTokens second.cacheReadInputTokens
      cacheCreationInputTokens :=
        sumOptional first.cacheCreationInputTokens second.cacheCreationInputTokens
      cacheCreation1hInputTokens :=
        sumOptional first.cacheCreation1hInputTokens second.cacheCreation1hInputTokens
      reasoningOutputTokens := sumOptional first.reasoningOutputTokens second.reasoningOutputTokens
      providerCredits := sumOptional first.providerCredits second.providerCredits
      estimated := first.estimated || second.estimated
      contextTotalTokens := none
      rawUsage := none }

/-! ## Events -/

/-- An event that does not end a turn. -/
abbrev Content := { event : AdapterEvent // event.isTerminal = false }

/-- The fields of a `done`, its usage apart. -/
structure DoneFields where
  compactionEncryptedContent : Option JsString
  stopReason : Option JsString
  endTurn : Option Bool
  providerState : Option Json

/-- The fields of an `incomplete`, its usage apart. -/
structure IncompleteFields where
  reason : JsString
  message : Option JsString
  retryable : Option Bool
  endTurn : Option Bool
  providerState : Option Json

/-- The fields of an `error`, its usage apart. -/
structure ErrorFields where
  message : JsString
  status : Option ℕ
  errorType : Option JsString
  code : Option JsString
  apiKeyRecovery : Bool
  retryable : Option Bool
  replaySafeBeforeOutput : Option Bool

/-- An event that ends a turn. -/
inductive Terminal where
  | done (usage : Option OcxUsage) (fields : DoneFields)
  | incomplete (usage : Option OcxUsage) (fields : IncompleteFields)
  | error (usage : Option OcxUsage) (fields : ErrorFields)

namespace Terminal

def usage : Terminal → Option OcxUsage
  | done usage _ | incomplete usage _ | error usage _ => usage

/-- The event with this usage, where there is one. -/
def withUsage (t : Terminal) : Option OcxUsage → Terminal
  | none => t
  | some u => match t with
    | done _ fields => done (some u) fields
    | incomplete _ fields => incomplete (some u) fields
    | error _ fields => error (some u) fields

end Terminal

/-- What a guarded turn yields. -/
inductive Event where
  | content (event : Content)
  | terminal (t : Terminal)

/-- The boundary between two legs. -/
def assistantBoundary : Event := .content ⟨.assistantBoundary, rfl⟩

/-- The events of a turn, and the error its iteration fails with behind them. -/
structure Leg where
  events : List Event
  failure : Option JsString

/-! ## Requests -/

inductive ContentPart where
  | text (text : JsString)
  /-- An image, a file or anything else. -/
  | other (value : Json)

/-- The content of a user's or a developer's message. -/
inductive MessageContent where
  | text (text : JsString)
  | parts (parts : List ContentPart)

inductive AssistantPart where
  | text (text : JsString)
  | thinking (thinking : JsString) (signature : Option JsString) (redacted : List JsString)
  | toolCall (call : Json)

inductive Message where
  | user (content : MessageContent) (timestamp : ℤ)
  | assistant (content : List AssistantPart) (timestamp : ℤ)
  | developer (content : MessageContent) (timestamp : ℤ)
  | toolResult (result : Json) (timestamp : ℤ)

namespace Message

def isUser : Message → Bool
  | user _ _ => true
  | _ => false

def isAssistant : Message → Bool
  | assistant _ _ => true
  | _ => false

end Message

namespace AssistantPart

def isToolCall : AssistantPart → Bool
  | toolCall _ => true
  | _ => false

end AssistantPart

/-- A parsed request, as far as the guard reads or changes it; `tools` are the declarations. -/
structure OcxParsedRequest where
  messages : List Message
  tools : Option (List Json)
  toolChoice : Option Json

/-- What is outside the guard. -/
structure GuardEnv where
  /-- The clock as the continuation with this number reads it. -/
  clock : ℕ → ℤ
  ACTIONABLE_REQUEST_RE : JsString → Bool
  PLAN_ONLY_REQUEST_RE : JsString → Bool
  PLAN_INTENT_RE : JsString → Bool
  PLAN_OR_COMPLETION_RE : JsString → Bool
  WAITING_FOR_USER_RE : JsString → Bool
  EXPLICIT_CONTINUE_RE : JsString → Bool
  /-- The text of the nudge. -/
  TERMINAL_GUARD_NUDGE : JsString

def MAX_ANNOUNCEMENT_CHARS : ℕ := 280

def MAX_RETAINED_EVENTS : ℕ := 1024

def MAX_RETAINED_CONTENT_CHARS : ℕ := 64 * 1024

/-! ## The analysis -/

def messageText : MessageContent → JsString
  | .text text => text
  | .parts parts => parts.flatMap fun
    | .text text => text
    | .other _ => []

def latestUserText (parsed : OcxParsedRequest) : JsString :=
  match parsed.messages.reverse.find? (·.isUser) with
  | some (.user content _) => messageText content
  | _ => []

/-- The texts of an assistant's message. -/
def partsText (content : List AssistantPart) : JsString :=
  content.flatMap fun
    | .text text => text
    | _ => []

/-- A tool was used between the latest message of the user and the one before it, and the assistant
did not end with an announcement. -/
def recentTurnHasToolActivity (E : GuardEnv) (parsed : OcxParsedRequest) : Bool :=
  match parsed.messages.reverse.dropWhile (!·.isUser) with
  | [] => false
  | _ :: earlier =>
    let announced := match earlier.find? (·.isAssistant) with
      | some (.assistant content _) =>
        !content.any (·.isToolCall) && E.PLAN_INTENT_RE (partsText content)
      | _ => false
    if announced then false
    else (earlier.takeWhile (!·.isUser)).any fun
      | .toolResult _ _ => true
      | .assistant content _ => content.any (·.isToolCall)
      | _ => false

/-- The text of the events. -/
def assistantText (events : List Content) : JsString :=
  events.flatMap fun event ↦ match event.val with
    | .textDelta text _ _ => text
    | _ => []

inductive TerminalGuardDecision where
  | pass
  | continue
  | ambiguous
  deriving DecidableEq

def isToolCallStart (event : Content) : Bool :=
  match event.val with
  | .toolCallStart _ _ _ => true
  | _ => false

def forbidsTools : Option Json → Bool
  | some (.str choice) => choice == js "none"
  | _ => false

/-- What is to be done about a turn that ended with these events. -/
def analyzeTerminalTurn (E : GuardEnv) (parsed : OcxParsedRequest) (events : List Content) :
    TerminalGuardDecision :=
  let userText := latestUserText parsed
  let text := assistantText events
  if events.any isToolCallStart then .pass
  else if (parsed.tools.getD []).isEmpty || forbidsTools parsed.toolChoice then .pass
  else if !E.ACTIONABLE_REQUEST_RE userText then .pass
  else if E.PLAN_ONLY_REQUEST_RE userText then .pass
  else if E.EXPLICIT_CONTINUE_RE userText && recentTurnHasToolActivity E parsed then .pass
  else if E.WAITING_FOR_USER_RE text then .pass
  else if MAX_ANNOUNCEMENT_CHARS < (trim text).length then .pass
  else if !E.PLAN_OR_COMPLETION_RE text then .ambiguous
  else .continue

/-! ## The rebuilt history -/

/-- What the replayed content holds so far, and the block that is open. -/
structure Replay where
  content : List AssistantPart
  text : JsString
  thinking : Option JsString
  signature : Option JsString

def Replay.flush (r : Replay) : Replay :=
  let content := if r.text = [] then r.content else r.content ++ [.text r.text]
  let content := if r.thinking.isSome || r.signature.isSome then
      content ++ [.thinking (r.thinking.getD []) r.signature []]
    else content
  ⟨content, [], none, none⟩

/-- The next event of the turn. -/
def Replay.hear (r : Replay) (event : Content) : Replay :=
  match event.val with
  | .heartbeat => r
  | .thinkingSignature signature => { r with signature := some signature }
  | event =>
    let r := if r.signature.isSome then r.flush else r
    match event with
    | .textDelta text _ (some (c :: signature)) =>
      let r := r.flush
      { r with content := r.content ++ [.thinking text (some (c :: signature)) []] }
    | .textDelta text _ _ =>
      let r := if r.thinking.isSome then r.flush else r
      { r with text := r.text ++ text }
    | .thinkingDelta thinking =>
      let r := if r.text = [] then r else r.flush
      { r with thinking := some (r.thinking.getD [] ++ thinking) }
    | .redactedThinking data =>
      let r := r.flush
      { r with content := r.content ++ [.thinking [] none [data]] }
    | _ => r.flush

/-- The text and the signed blocks of a turn, in the order of its events. -/
def assistantReplayContent (events : List Content) : List AssistantPart :=
  (events.foldl Replay.hear ⟨[], [], none, none⟩).flush.content

/-- The request that continues the turn. -/
def buildContinuationRequest (E : GuardEnv) (timestamp : ℤ) (parsed : OcxParsedRequest)
    (events : List Content) : OcxParsedRequest :=
  let content := assistantReplayContent events
  let assistant := if content.isEmpty then [] else [Message.assistant content timestamp]
  { parsed with
    messages := parsed.messages ++ assistant ++
      [.developer (.text E.TERMINAL_GUARD_NUDGE) timestamp] }

/-! ## One leg -/

/-- What is kept of the leg so far. -/
structure LegState where
  seen : List Content
  retainedContentChars : ℕ
  retainedText : JsString
  analysisEnabled : Bool

def isTerminalGuardPassthroughOnly (event : Content) : Bool :=
  match event.val with
  | .heartbeat | .toolCallDelta _ => true
  | _ => false

/-- What of an event has to be kept. -/
def retainedContent (event : Content) : Option JsString :=
  match event.val with
  | .textDelta text _ _ => some text
  | .thinkingDelta thinking => some thinking
  | .thinkingSignature signature => some signature
  | .redactedThinking data => some data
  | _ => none

def isTextDelta (event : Content) : Bool :=
  match event.val with
  | .textDelta _ _ _ => true
  | _ => false

/-- Look at the next event while the analysis is on. -/
def LegState.look (st : LegState) (event : Content) : LegState :=
  if isToolCallStart event then { st with analysisEnabled := false }
  else match retainedContent event with
  | none => st
  | some content =>
    if MAX_RETAINED_EVENTS ≤ st.seen.length ∨
        MAX_RETAINED_CONTENT_CHARS < st.retainedContentChars + content.length then
      { st with analysisEnabled := false }
    else
      let retainedContentChars := st.retainedContentChars + content.length
      let retainedText := if isTextDelta event then st.retainedText ++ content else st.retainedText
      if MAX_ANNOUNCEMENT_CHARS < (trim retainedText).length then
        { st with retainedContentChars, retainedText, analysisEnabled := false }
      else { st with retainedContentChars, retainedText, seen := st.seen ++ [event] }

/-- What is kept once the next event has passed. -/
def LegState.retain (st : LegState) (event : Content) : LegState :=
  if isTerminalGuardPassthroughOnly event || !st.analysisEnabled then st
  else
    let st := st.look event
    if st.analysisEnabled then st else { st with seen := [], retainedText := [] }

/-- The turn did not end at a limit or a filter. -/
def normalStop (fields : DoneFields) : Bool :=
  fields.stopReason ≠ some (js "max_tokens") && fields.stopReason ≠ some (js "content_filter")

/-- How a leg ends. -/
inductive LegEnd where
  /-- Its events end without a terminal. -/
  | ranOut
  /-- Its terminal is passed on. -/
  | returned
  /-- Another leg is to follow: the usage it reported, and what was kept of it. -/
  | again (usage : Option OcxUsage) (seen : List Content)

/-- The `done` of a leg is followed by another leg, of which so many are left. -/
def followed (E : GuardEnv) (parsed : OcxParsedRequest) (remaining : ℕ) (st : LegState)
    (fields : DoneFields) : Bool :=
  let decision := if st.analysisEnabled then analyzeTerminalTurn E parsed st.seen else .pass
  normalStop fields && decision == .continue && 0 < remaining

/-- Pass the events of a leg through. -/
def runLeg (E : GuardEnv) (parsed : OcxParsedRequest) (remaining : ℕ)
    (accumulatedUsage : Option OcxUsage) : LegState → List Event → List Event × LegEnd
  | _, [] => ([], .ranOut)
  | st, .content event :: events =>
    let rest := runLeg E parsed remaining accumulatedUsage (st.retain event) events
    (.content event :: rest.1, rest.2)
  | st, .terminal (.done usage fields) :: _ =>
    if followed E parsed remaining st fields then ([], .again usage st.seen)
    else
      let merged := mergeUsage accumulatedUsage usage
      ([.terminal ((Terminal.done usage fields).withUsage merged)], .returned)
  | _, .terminal t :: _ =>
    ([.terminal (t.withUsage (mergeUsage accumulatedUsage t.usage))], .returned)

/-! ## The turn -/

/-- A numeric option. -/
inductive OptionNumber where
  | finite (q : ℚ)
  | infinite (negative : Bool)
  | nan

/-- `Math.max(0, Math.min(2, Math.floor(limit ?? 1)))`.  Nothing is less than `NaN`, so it allows as
little as zero does. -/
def maxContinuations : Option OptionNumber → ℕ
  | none => 1
  | some (.finite q) => (min 2 ⌊q⌋).toNat
  | some (.infinite negative) => if negative then 0 else 2
  | some .nan => 0

structure GuardedEventStreamOptions where
  parsed : OcxParsedRequest
  firstEvents : Leg
  /-- The continuation with this number: its events, or the message of what it throws. -/
  continuation : ℕ → OcxParsedRequest → Except JsString Leg
  adapterName : Option JsString
  maxAutoContinuations : Option OptionNumber

/-- What comes of a guarded turn. -/
structure Turn where
  yields : List Event
  /-- The requests continuations were started with. -/
  started : List OcxParsedRequest
  /-- What the iteration fails with at its end. -/
  failure : Option JsString

/-- The event for a continuation that cannot be started. -/
def continuationError (usage : Option OcxUsage) (message : JsString) : Terminal :=
  .error usage ⟨message, none, none, none, false, none, none⟩

/-- The legs from this one on: `remaining` more may be started, `continuations` have been. -/
def guardLegs (E : GuardEnv) (analyzes : Bool)
    (continuation : ℕ → OcxParsedRequest → Except JsString Leg) :
    ℕ → ℕ → OcxParsedRequest → Option OcxUsage → Leg → Turn
  | remaining, continuations, parsed, accumulatedUsage, leg =>
    let st : LegState := ⟨[], 0, [], analyzes && 0 < remaining⟩
    match runLeg E parsed remaining accumulatedUsage st leg.events, remaining with
    | (out, .ranOut), _ => ⟨out, [], leg.failure⟩
    | (out, .again usage seen), remaining + 1 =>
      let accumulatedUsage := mergeUsage accumulatedUsage usage
      let parsed := buildContinuationRequest E (E.clock continuations) parsed seen
      match continuation continuations parsed with
      | .error message =>
        ⟨out ++ [assistantBoundary, .terminal (continuationError accumulatedUsage message)],
          [parsed], none⟩
      | .ok next =>
        let rest := guardLegs E analyzes continuation remaining (continuations + 1) parsed
          accumulatedUsage next
        ⟨out ++ assistantBoundary :: rest.yields, parsed :: rest.started, rest.failure⟩
    -- A leg asks for another one only where one is left.
    | (out, _), _ => ⟨out, [], none⟩

def guardTerminalEventStream (E : GuardEnv) (options : GuardedEventStreamOptions) : Turn :=
  let analyzes := options.adapterName = some (js "anthropic") ∨
    options.adapterName = some (js "openai-chat")
  guardLegs E analyzes options.continuation (maxContinuations options.maxAutoContinuations) 0
    options.parsed none options.firstEvents

end TerminalGuard
