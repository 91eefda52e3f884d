import OpenCodex.Messages.Delivery

/-!
# Attribution by position

A function call is announced, its arguments arrive in pieces, and it is done; each of these events names
the item it belongs to.  The translator does not read that name.  A piece of arguments goes to the call
that was announced last, and the first event that opens or ends some block ends that call.

Here is what that means for a list of events, without the translator.  An event has a `Meaning`; `heard`
leaves out the copies of blocks that were already shown; `argumentsRead` is the text that stands between
the announcement of a call and the end of its block.  A stream is `Attributed` if for each call that text
is its arguments.
-/

set_option autoImplicit false

namespace Messages

open Bridge (truthy)
open Tools (plainObject stringAt nonEmptyAt)

variable (E : MessagesEnv)

/-! ## What an event means -/

/-- What an event means for the open block. -/
inductive Meaning where
  | text
  /-- Reasoning text of this item. -/
  | reasoning (itemKey : Identity)
  | call (item : Json)
  | arguments (delta : JsString)
  | wholeArguments (arguments : JsString)
  | searchDone
  | callDone (item : Json)
  | reasoningDone (item : Json)
  | ending
  | other

/-- An item of this type in an event. -/
def itemOf (type : String) (data : Json) : Option Json :=
  (plainObject (data.field? (js "item"))).filter fun item ↦ stringAt item "type" = some (js type)

/-- What a finished item means. -/
def meaningOfDone (data : Json) : Meaning :=
  if (itemOf "web_search_call" data).isSome then .searchDone
  else (((itemOf "function_call" data).map .callDone).or
    ((itemOf "reasoning" data).map .reasoningDone)).getD .other

def meaningOf (f : Frame) : Meaning :=
  if f.1 = js "response.created" ∨ f.1 = js "response.in_progress" then .other
  else if f.1 = js "response.heartbeat" then .other
  else if f.1 = js "response.output_text.delta" then
    if (nonEmptyAt f.2 "delta").isSome then .text else .other
  else if f.1 = js "response.reasoning_summary_text.delta" ∨ f.1 = js "response.reasoning_text.delta" then
    if (nonEmptyAt f.2 "delta").isSome then
      .reasoning (boundedReasoningIdentity E (f.2.field? (js "item_id"))) else .other
  else if f.1 = js "response.output_item.added" then
    ((itemOf "function_call" f.2).map .call).getD .other
  else if f.1 = js "response.function_call_arguments.delta" then
    ((nonEmptyAt f.2 "delta").map .arguments).getD .other
  else if f.1 = js "response.function_call_arguments.done" then
    ((nonEmptyAt f.2 "arguments").map .wholeArguments).getD .other
  else if f.1 = js "response.output_item.done" then meaningOfDone f.2
  else if f.1 = js "response.completed" ∨ f.1 = js "response.incomplete" ∨
      f.1 = js "response.failed" then .ending
  else .other

def encryptedOf (item : Json) : JsString := (stringAt item "encrypted_content").getD []

/-- Reasoning that is shown even if no text of it was read. -/
def signs (item : Json) : Bool :=
  (truthy ((decodeReasoningEnvelope E (encryptedOf item)).bind (·.sig))).isSome ||
    nativeEncryptedReasoning (encryptedOf item) ≠ []

def hasRedacted (item : Json) : Bool :=
  ((decodeReasoningEnvelope E (encryptedOf item)).map (·.red)).getD [] ≠ []

/-- The block a reasoning item is a copy of. -/
def copiedBy (item : Json) : Option JsString :=
  (decodeReasoningEnvelope E (encryptedOf item)).bind fun env ↦ env.upd.bind fun upd ↦
    env.txt.map fun _ ↦ upd

/-! ## What is heard -/

/-- The reasoning that is being read, and the block of which a copy is left out. -/
structure Attention where
  thinking : Option Identity := none
  mirror : Option JsString := none

/-- The mirror after a reasoning item, which counts if its text is shown. -/
def Attention.copies (a : Attention) (item : Json) : Option JsString :=
  if a.thinking = some (boundedReasoningIdentity E (item.field? (js "id"))) ∨ signs E item = true then
    (copiedBy E item).or a.mirror
  else a.mirror

def Attention.hear (a : Attention) : Meaning → Attention
  | .text => { a with thinking := none }
  | .reasoning itemKey => { a with thinking := some itemKey }
  | .call _ => { a with thinking := none }
  | .searchDone => { a with thinking := none }
  | .reasoningDone item => ⟨none, a.copies E item⟩
  | .ending => { a with thinking := none }
  | _ => a

/-- The events of a list that are not part of a copy. -/
def heard (a : Attention) : List Frame → List Meaning
  | [] => []
  | f :: fs =>
    if mirrors a.mirror f.2 then
      heard (if f.1 = js "response.output_item.done" then { a with mirror := none } else a) fs
    else meaningOf E f :: heard (a.hear E (meaningOf E f)) fs

/-! ## The text between a call and its end -/

/-- What is sent for a call that is not done, of which this text was read. -/
def closedWith (search : Bool) (given : JsString) : JsString :=
  if search then sanitizedArguments given else given

/-- What is sent for a call that is done. -/
def doneWith (search : Bool) (given : JsString) (item : Json) : JsString :=
  if search then sanitizedArguments ((nonEmptyAt item "arguments").getD given)
  else if given = [] then (nonEmptyAt item "arguments").getD [] else given

/-- **The arguments by position**: what is read until the block is closed, behind what was given. -/
def argumentsRead (search : Bool) (given : JsString) : List Meaning → JsString
  | [] => closedWith search given
  | .arguments delta :: ms => argumentsRead search (given ++ delta) ms
  | .wholeArguments arguments :: ms =>
    argumentsRead search (if search = true ∨ given ≠ [] then given else arguments) ms
  | .callDone item :: _ => doneWith search given item
  | .reasoningDone item :: ms =>
    if signs E item || hasRedacted E item then closedWith search given
    else argumentsRead search given ms
  | .other :: ms => argumentsRead search given ms
  | _ :: _ => closedWith search given

/-- A call as it is sent. -/
structure SentCall where
  callId : JsString
  name : JsString
  arguments : JsString
  deriving DecidableEq

def nameOf (item : Json) : JsString := (stringAt item "name").getD []

def callIdOf (item : Json) : JsString := (stringAt item "call_id").getD []

/-- The call that an item announces, with what is read for it. -/
def readCall (item : Json) (ms : List Meaning) : SentCall :=
  ⟨callIdOf item, nameOf item, argumentsRead E (isClaudeWebSearchToolName (nameOf item)) [] ms⟩

def callsRead : List Meaning → List SentCall
  | [] => []
  | .call item :: ms => readCall E item ms :: callsRead ms
  | _ :: ms => callsRead ms

theorem mem_callsRead {d : SentCall} {ms : List Meaning} : d ∈ callsRead E ms ↔
      ∃ before item after, ms = before ++ .call item :: after ∧ d = readCall E item after := by
  induction ms with
  | nil => simp [callsRead]
  | cons m ms ih =>
    have hskip : (∃ before item after, ms = before ++ Meaning.call item :: after ∧
        d = readCall E item after) → ∃ before item after,
          m :: ms = before ++ Meaning.call item :: after ∧ d = readCall E item after := by
      rintro ⟨before, item, after, rfl, hd⟩
      exact ⟨m :: before, item, after, rfl, hd⟩
    constructor
    · intro hd
      cases m with
      | call item =>
        rw [callsRead, List.mem_cons] at hd
        rcases hd with hd | hd
        · exact ⟨[], item, ms, rfl, hd⟩
        · exact hskip (ih.mp hd)
      | _ => exact hskip (ih.mp hd)
    · rintro ⟨before, item, after, heq, hd⟩
      cases before with
      | nil =>
        obtain ⟨rfl, rfl⟩ := List.cons.inj heq
        exact List.mem_cons.mpr (.inl hd)
      | cons b before =>
        obtain ⟨rfl, hrest⟩ := List.cons.inj heq
        have hmem := ih.mpr ⟨before, item, after, hrest, hd⟩
        cases m with
        | call item => exact List.mem_cons_of_mem _ hmem
        | _ => exact hmem

/-! ## The same, step by step -/

/-- What is open. -/
inductive Focus where
  | idle
  | thinking (itemKey : Identity)
  /-- A call, and the arguments that were read of it. -/
  | call (callId name given : JsString)

/-- What a reader of the events knows at some point. -/
structure Position where
  focus : Focus := .idle
  past : List SentCall := []
  mirror : Option JsString := none

def Focus.key : Focus → Option Identity
  | .thinking itemKey => some itemKey
  | _ => none

def Position.attention (σ : Position) : Attention := ⟨σ.focus.key, σ.mirror⟩

/-- What is sent for the open call when its block is closed. -/
def Focus.closing : Focus → List SentCall
  | .call callId name given => [⟨callId, name, closedWith (isClaudeWebSearchToolName name) given⟩]
  | _ => []

/-- Whether an event ends a call, and how. -/
def Focus.ended (focus : Focus) : Meaning → List SentCall
  | .arguments _ => []
  | .wholeArguments _ => []
  | .other => []
  | .callDone item =>
    match focus with
    | .call callId name given =>
      [⟨callId, name, doneWith (isClaudeWebSearchToolName name) given item⟩]
    | _ => []
  | .reasoningDone item => if signs E item || hasRedacted E item then focus.closing else []
  | _ => focus.closing

def Focus.next (focus : Focus) : Meaning → Focus
  | .text => .idle
  | .reasoning itemKey => .thinking itemKey
  | .call item => .call (callIdOf item) (nameOf item) []
  | .arguments delta =>
    match focus with
    | .call callId name given => .call callId name (given ++ delta)
    | _ => focus
  | .wholeArguments arguments =>
    match focus with
    | .call callId name given =>
      .call callId name
        (if isClaudeWebSearchToolName name = true ∨ given ≠ [] then given else arguments)
    | _ => focus
  | .searchDone => .idle
  | .callDone _ =>
    match focus with
    | .call _ _ _ => .idle
    | _ => focus
  | .reasoningDone item =>
    match focus with
    | .call _ _ _ => if signs E item || hasRedacted E item then .idle else focus
    | _ => .idle
  | .ending => .idle
  | .other => focus

def Position.hear (σ : Position) (m : Meaning) : Position where
  focus := σ.focus.next E m
  past := σ.past ++ σ.focus.ended E m
  mirror := (σ.attention.hear E m).mirror

/-- One event, which may be part of a copy. -/
def Position.read (σ : Position) (f : Frame) : Position :=
  if mirrors σ.mirror f.2 then
    if f.1 = js "response.output_item.done" then { σ with mirror := none } else σ
  else σ.hear E (meaningOf E f)

/-- All calls, if these events are still to come. -/
def Position.complete (σ : Position) (ms : List Meaning) : List SentCall :=
  match σ.focus with
  | .call callId name given =>
    σ.past ++ ⟨callId, name, argumentsRead E (isClaudeWebSearchToolName name) given ms⟩ :: callsRead E ms
  | _ => σ.past ++ callsRead E ms

theorem attention_hear (σ : Position) (m : Meaning) :
    (σ.hear E m).attention = σ.attention.hear E m := by
  obtain ⟨focus, past, mirror⟩ := σ
  cases m with
  | reasoningDone item =>
    cases focus with
    | call callId name given =>
      simp only [Position.attention, Position.hear, Attention.hear, Focus.next]
      split <;> rfl
    | _ => rfl
  | _ => cases focus <;> rfl

/-- **One event** changes nothing about the whole. -/
theorem complete_hear (σ : Position) (m : Meaning) (ms : List Meaning) :
    (σ.hear E m).complete E ms = σ.complete E (m :: ms) := by
  obtain ⟨focus, past, mirror⟩ := σ
  cases focus with
  | call callId name given =>
    cases m with
    | reasoningDone item =>
      by_cases h : (signs E item || hasRedacted E item) = true
      · simp [Position.complete, Position.hear, Focus.next, Focus.ended, Focus.closing, argumentsRead,
          callsRead, h]
      · simp [Position.complete, Position.hear, Focus.next, Focus.ended, argumentsRead, callsRead, h]
    | call item =>
      simp [Position.complete, Position.hear, Focus.next, Focus.ended, Focus.closing, argumentsRead,
        callsRead, readCall]
    | _ =>
      simp [Position.complete, Position.hear, Focus.next, Focus.ended, Focus.closing, argumentsRead,
        callsRead]
  | idle | thinking itemKey =>
    cases m <;> simp [Position.complete, Position.hear, Focus.next, Focus.ended, Focus.closing,
      callsRead, readCall]

/-- **Reading event by event** gives the calls of the list. -/
theorem complete_foldl (fs : List Frame) (σ : Position) :
    (fs.foldl (Position.read E) σ).complete E [] = σ.complete E (heard E σ.attention fs) := by
  induction fs generalizing σ with
  | nil => rfl
  | cons f fs ih =>
    rw [List.foldl_cons, ih, heard, Position.read]
    by_cases hmirror : mirrors σ.mirror f.2 = true
    · rw [if_pos hmirror, if_pos (show mirrors σ.attention.mirror f.2 = true from hmirror)]
      split <;> rfl
    · rw [if_neg hmirror, if_neg (show ¬mirrors σ.attention.mirror f.2 = true from hmirror),
        attention_hear, complete_hear]

end Messages
