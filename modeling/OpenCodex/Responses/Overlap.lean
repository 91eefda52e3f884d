import OpenCodex.Data.OMap
import OpenCodex.Responses.Spill
import Mathlib.Data.List.Sort

/-!
# What of a history the client carries itself

A client may send the new turn only, or the whole conversation again.  Prepending the stored history
to the second would double it, so before expanding a request its items are compared with the stored
ones: by a canonical text of each, which is given up where it becomes too long or too deep.  A match
of everything stored is taken for the same conversation only if a matched item of the provider's
output carries an id the provider gave it.

A continuation that was kept for a pending tool call only is further limited to requests that answer
such a call.
-/

set_option autoImplicit false

open Json

namespace Responses

def REPLAY_FINGERPRINT_MAX_BYTES : ℕ := 8 * 1024

def REPLAY_FINGERPRINT_MAX_DEPTH : ℕ := 64

variable (E : StoreEnv)

/-! ## Fingerprints -/

/-- Append to a text whose bytes are counted, unless it gets too long. -/
def pushText (text : JsString) (out : ℕ × JsString) : Option (ℕ × JsString) :=
  if REPLAY_FINGERPRINT_MAX_BYTES < out.1 + utf8Length text then none
  else some (out.1 + utf8Length text, out.2 ++ text)

/-- The names of an object, each once, in the order of their units. -/
def sortedKeys (members : List (JsString × Json)) : List JsString :=
  (members.map Prod.fst).dedup.insertionSort (· ≤ ·)

/-- Write the canonical text of a value, going so many levels down. -/
def walkFingerprint : ℕ → Json → ℕ × JsString → Option (ℕ × JsString)
  | 0, _, _ => none
  | depth + 1, .arr items, out => do
    let out ← pushText [0x5b] out
    let out ← items.foldlM (fun out item ↦ do
      let out ← walkFingerprint depth item out
      pushText [0x2c] out) out
    pushText [0x5d] out
  | depth + 1, .obj members, out => do
    let out ← pushText [0x7b] out
    let out ← (sortedKeys members).foldlM (fun out key ↦ do
      let out ← pushText ((E.stringify (.str key)).getD []) out
      let out ← walkFingerprint depth ((lookup members key).getD .null) out
      pushText [0x2c] out) out
    pushText [0x7d] out
  | _ + 1, v, out => pushText ((E.stringify v).getD (js "null")) out

/-- The canonical text of an item; `none` where it cannot be compared. -/
def replayItemFingerprint (item : Json) : Option JsString :=
  (walkFingerprint E (REPLAY_FINGERPRINT_MAX_DEPTH + 1) item (0, [])).map Prod.snd

/-- A string with something in it besides whitespace. -/
def visible? (v : Option Json) : Option JsString :=
  match v with
  | some (.str s) => if trim s = [] then none else some s
  | _ => none

/-- The id the provider gave an item. -/
def providerIssuedIdentity (item : Json) : Option JsString :=
  (visible? (item.field? (js "id"))).or (visible? (item.field? (js "call_id")))

/-- Do two items have the same canonical text? -/
def sameItem (stored client : Json) : Bool :=
  match replayItemFingerprint E stored, replayItemFingerprint E client with
  | some storedPrint, some clientPrint => storedPrint == clientPrint
  | _, _ => false

/-- How many of the stored items the client's input begins with: all of them, or none. -/
def clientCarriedPrefixLength (stored clientInput : List Json) : ℕ :=
  if stored = [] ∨ clientInput.length < stored.length then 0
  else if (stored.zip clientInput).all fun pair ↦ sameItem E pair.1 pair.2 then stored.length
  else 0

/-! ## Continuations kept for a pending tool call -/

/-- The type of the item that answers a call of the client's tools. -/
def clientToolOutputType (type : Option Json) : Option JsString :=
  match type with
  | some (.str t) =>
    if t = js "function_call" then some (js "function_call_output")
    else if t = js "custom_tool_call" then some (js "custom_tool_call_output")
    else none
  | _ => none

/-- The type of an item, if it is a string. -/
def itemType (item : Json) : Option JsString :=
  match item.field? (js "type") with
  | some (.str t) => some t
  | _ => none

/-- The call an item belongs to. -/
def callId (item : Json) : Option JsString :=
  match item.field? (js "call_id") with
  | some (.str c) => some c
  | _ => none

def hasPendingClientToolCall (output : List Json) : Bool :=
  output.any fun item ↦ (clientToolOutputType (item.field? (js "type"))).isSome

/-- The calls among some items that wait for an answer, each with the type the answer has. -/
def pendingCalls (items : List Json) : OMap JsString JsString :=
  items.foldl (fun calls item ↦
    match clientToolOutputType (item.field? (js "type")), callId item with
    | some outputType, some call => if call = [] then calls else calls.set call outputType
    | _, _ => calls) .empty

/-- Does an item answer one of the calls? -/
def answers (calls : OMap JsString JsString) (item : Json) : Option JsString :=
  (callId item).bind fun call ↦
    if (calls.get? call).isSome && calls.get? call == itemType item then some call else none

def allowsUnforcedStoreFalseReplay (stored : List Json) (providerOutputStart : Option ℕ)
    (clientInput : List Json) (carried : ℕ) : Bool :=
  match providerOutputStart with
  | none => false
  | some anchor =>
    if stored.length < anchor then false
    else
      let calls := (clientInput.take carried).foldl (fun calls item ↦
        match answers calls item with
        | some call => calls.delete call
        | none => calls) (pendingCalls (stored.drop anchor))
      (clientInput.drop carried).any fun item ↦ (answers calls item).isSome

end Responses
