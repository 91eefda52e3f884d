import OpenCodex.Bridge.Events
import OpenCodex.Data.JsonText
import OpenCodex.Sse.Framing

/-!
# What a block of a Responses stream says

A block is decoded to text, the values of its `data` lines are joined to a *payload*, and the payload
is read as JSON.  A payload that is not JSON — the `[DONE]` sentinel is one — is *opaque*.  Some
events end the model's turn: `terminalStatusFromParsed` tells with which status.

The inspector scans every block it is shown and tells its caller about parsed and opaque payloads and
about the first terminal; once it has reported a terminal it looks at nothing more.  Its framing is
the scanner of `OpenCodex.Sse.Framing`, with `scanFrame` as what is done with a block.

Decoding bytes to text, and the wording by which a policy refusal is recognised, are the functions of
an `SseEnv`.
-/

set_option autoImplicit false

namespace Sse

open Bridge (trim)

/-- The functions of the surroundings. -/
structure SseEnv where
  /-- `TextDecoder.decode` of a whole array. -/
  decode : Bytes → JsString
  isCyberPolicyMessage : JsString → Bool

/-! ## Payloads -/

/-- The lines of a block, `line` being what was read of the first in reverse. -/
def sseLines (line : List CodeUnit) : JsString → List JsString
  | [] => if line = [] then [] else [line.reverse]
  | 13 :: 10 :: rest => line.reverse :: sseLines [] rest
  | c :: rest =>
    if c = 13 ∨ c = 10 then line.reverse :: sseLines [] rest else sseLines (c :: line) rest

/-- One line's contribution to the joined data of an event. -/
def addDataLine (result : Option JsString) (line : JsString) : Option JsString :=
  if line = js "data" then some (result.elim [] (· ++ [10]))
  else if (js "data:").isPrefixOf line then
    let value := line.drop 5
    let value := if value.head? = some 32 then value.drop 1 else value
    some (result.elim value (· ++ [10] ++ value))
  else result

/-- `sseDataPayload`: the data lines of an event, joined. -/
def sseDataPayload (block : JsString) : Option JsString :=
  (sseLines [] block).foldl addDataLine none

def doneSentinel : JsString := js "[DONE]"

/-- `parseSsePayload`; nothing where the payload is the sentinel or no JSON. -/
def parseSsePayload (payload : JsString) : Option Json :=
  if payload = doneSentinel then none else Json.parse payload

/-! ## Terminals -/

/-- `ResponsesTerminalStatus`. -/
inductive TerminalStatus
  | completed
  | failed
  | incomplete
  deriving DecidableEq, Repr

/-- `asJsonRecord` of a value that may be missing. -/
def asJsonRecord (value : Option Json) : Option Json :=
  value.filter fun v ↦ v.members?.isSome

/-- The text of a value, where it is a string. -/
def stringOf : Option Json → Option JsString
  | some (.str s) => some s
  | _ => none

/-- `stringField`: a string that is not blank, trimmed. -/
def stringField (record : Option Json) (key : String) : Option JsString :=
  (stringOf (record.bind (·.field? (js key)))).bind fun s ↦
    if trim s = [] then none else some (trim s)

/-- The `type` of an event. -/
def typeOf (parsed : Option Json) : Option JsString :=
  stringOf ((asJsonRecord parsed).bind (·.field? (js "type")))

/-- The records a policy error may stand in. -/
def policyCandidates (root : Json) : List Json :=
  let response := asJsonRecord (root.field? (js "response"))
  [asJsonRecord (root.field? (js "error")), asJsonRecord (root.field? (js "last_error")),
    asJsonRecord (response.bind (·.field? (js "error"))),
    asJsonRecord (response.bind (·.field? (js "incomplete_details"))), some root,
    response].filterMap id

def cyberPolicyErrorCode : JsString := js "cyber_policy"

def cyberPolicyFallbackMessage : JsString :=
  js "Request blocked by the upstream cybersecurity policy."

/-- A policy error: its message and its type. -/
structure PolicyError where
  message : JsString
  type : Option JsString

variable (E : SseEnv)

def cyberPolicyTerminalError (parsed : Option Json) : Option PolicyError :=
  (asJsonRecord parsed).bind fun root ↦
    let candidates := policyCandidates root
    let byCode := candidates.find? fun c ↦ stringField (some c) "code" = some cyberPolicyErrorCode
    let byMessage := candidates.find? fun c ↦
      ((stringField (some c) "message").map E.isCyberPolicyMessage).getD false
    match byCode with
    | some c => some ⟨(stringField (some c) "message").getD cyberPolicyFallbackMessage,
        stringField (some c) "type"⟩
    | none => byMessage.map fun c ↦
        ⟨(stringField (some c) "message").getD [], stringField (some c) "type"⟩

def terminalStatusFromParsed (parsed : Option Json) : Option TerminalStatus :=
  let type := typeOf parsed
  if type = some (js "response.completed") then some .completed
  else if type = some (js "response.failed") then some .failed
  else if type = some (js "response.incomplete") then
    some (if (cyberPolicyTerminalError E parsed).isSome then .failed else .incomplete)
  else if type = some (js "error") then
    if (cyberPolicyTerminalError E parsed).isSome then some .failed else none
  else none

/-! ## The inspector -/

/-- The callbacks of an inspector, on the state `τ` of its caller. -/
structure InspectorHandlers (τ : Type) where
  onParsedPayload : Json → τ → τ
  onOpaquePayload : JsString → τ → τ
  onTerminal : TerminalStatus → τ → τ

/-- What an inspector keeps besides its framing. -/
structure Inspection (τ : Type) where
  reported : Bool
  sawTerminal : Bool
  caller : τ

variable {τ : Type} (H : InspectorHandlers τ)

/-- `scanPayload`, as far as these callbacks go; the request log and the snapshot of completed items
are left out. -/
def scanPayload (payload : Option JsString) (s : Inspection τ) : Inspection τ :=
  match payload with
  | none => s
  | some payload =>
    if payload = [] then s
    else
      let parsed := parseSsePayload payload
      let s := { s with caller := match parsed with
        | some v => H.onParsedPayload v s.caller
        | none => H.onOpaquePayload payload s.caller }
      match terminalStatusFromParsed E parsed with
      | none => s
      | some status =>
        let s := { s with sawTerminal := true }
        if s.reported then s
        else { s with reported := true, caller := H.onTerminal status s.caller }

/-- What `completeCandidate` does with a block: once a terminal is reported, nothing. -/
def scanFrame (frame : Bytes) (s : Inspection τ) : Inspection τ :=
  if s.reported then s else scanPayload E H (sseDataPayload (E.decode frame)) s

/-- What `finish` does with a block that no delimiter closed. -/
def scanTail (tail : Bytes) (s : Inspection τ) : Inspection τ :=
  if s.reported then s
  else
    let decoded := E.decode tail
    scanPayload E H (if trim decoded = [] then none else sseDataPayload decoded) s

end Sse
