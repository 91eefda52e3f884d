import OpenCodex.Data.JsonParts
import OpenCodex.Responses.MuseNames
import OpenCodex.Sse.Payload

/-!
# Tool names in a request

The names are at four places: at the declared tools, in the input at the tools declared there and at
the calls that are replayed, and in the selector.  The rewrite takes each to its wire name and leaves
everything else alone (`namesRenamed_rewrite`).  The way back walks over a whole value, and renames
whatever is there of the kinds that stand for a tool or a call.

Where the source asks whether something was changed by comparing references, the functions here
return it.
-/

set_option autoImplicit false

namespace MuseToolNames

open Bridge (truthy)
open Sse (stringOf)

/-! ## Where the names are -/

def hasType (v : Json) (type : JsString) : Bool := stringOf (v.field? (js "type")) == some type

/-- `v.name`, if it is a string. -/
def nameOf (v : Json) : Option JsString := stringOf (v.field? (js "name"))

/-- The function inside a tool of the chat form. -/
def nestedFunction (tool : Json) : Option Json :=
  if hasType tool (js "function") then (tool.field? (js "function")).filter Json.isObject else none

/-- The name, or else that of the function inside. -/
def wireToolInnerName (tool : Json) : Option JsString :=
  (truthy (nameOf tool)).or ((nestedFunction tool).bind fun fn ↦ truthy (nameOf fn))

def collectDeclaredToolName (names : List JsString) (tool : Json) : List JsString :=
  addCollectedName names (wireToolInnerName tool)

/-- Of the kinds whose selectors and whose declarations name a function. -/
def isFunctionOrCustom (v : Json) : Bool := hasType v (js "function") || hasType v (js "custom")

def isCall (item : Json) : Bool :=
  hasType item (js "function_call") || hasType item (js "custom_tool_call")

/-- The elements of an array; none of anything else. -/
def itemsOf : Option Json → List Json
  | some (.arr items) => items
  | _ => []

def isArray : Option Json → Bool
  | some (.arr _) => true
  | _ => false

def collectInputNames (names : List JsString) (item : Json) : List JsString :=
  if hasType item (js "additional_tools") && isArray (item.field? (js "tools")) then
    (itemsOf (item.field? (js "tools"))).foldl collectDeclaredToolName names
  else if isCall item then addCollectedName names (nameOf item)
  else names

def collectSelectedName (names : List JsString) (tool : Json) : List JsString :=
  if isFunctionOrCustom tool then addCollectedName names (nameOf tool) else names

def collectToolChoiceNames (names : List JsString) (choice : Json) : List JsString :=
  if isFunctionOrCustom choice && (nameOf choice).isSome then
    addCollectedName names (nameOf choice)
  else if hasType choice (js "allowed_tools") then
    (itemsOf (choice.field? (js "tools"))).foldl collectSelectedName names
  else names

def collectMuseToolNames (body : Json) : List JsString :=
  let names := (itemsOf (body.field? (js "tools"))).foldl collectDeclaredToolName []
  let names := (itemsOf (body.field? (js "input"))).foldl collectInputNames names
  match body.field? (js "tool_choice") with
  | none => names
  | some choice => collectToolChoiceNames names choice

/-! ## The rewrite -/

section

variable (wireByOriginal : OMap JsString JsString)

def rewriteDeclaredTool (tool : Json) : Json × Bool :=
  match wireToolInnerName tool with
  | none => (tool, false)
  | some original =>
    match wireByOriginal.get? original with
    | none => (tool, false)
    | some wire =>
      if wire = original then (tool, false)
      else
        let next :=
          if nameOf tool = some original then tool.setField (js "name") (.str wire) else tool
        match (nestedFunction tool).filter fun fn ↦ nameOf fn = some original with
        | none => (next, true)
        | some fn => (next.setField (js "function") (fn.setField (js "name") (.str wire)), true)

/-- `{ ...v, name: wire }` -/
def rewriteName (v : Json) : Json × Bool :=
  match nameOf v with
  | none => (v, false)
  | some name =>
    match wireByOriginal.get? name with
    | none => (v, false)
    | some wire => if wire = name then (v, false) else (v.setField (js "name") (.str wire), true)

/-- An array with its elements rewritten, if any of them is changed. -/
def rewriteElements (rewrite : Json → Json × Bool) (value : Option Json) : Option Json :=
  if (itemsOf value).any fun item ↦ (rewrite item).2 then
    some (.arr ((itemsOf value).map fun item ↦ (rewrite item).1))
  else none

/-- `...(value !== v.name ? { name: value } : {})` -/
def withField (v : Json) (name : JsString) : Option Json → Json
  | none => v
  | some value => v.setField name value

def rewriteSelector (tool : Json) : Json × Bool :=
  if isFunctionOrCustom tool then rewriteName wireByOriginal tool else (tool, false)

/-- `{ ...v, tools }` -/
def rewriteToolsOf (rewrite : Json → Json × Bool) (v : Json) : Json × Bool :=
  let tools := rewriteElements rewrite (v.field? (js "tools"))
  (withField v (js "tools") tools, tools.isSome)

def rewriteToolChoice (choice : Json) : Json × Bool :=
  if isFunctionOrCustom choice && (nameOf choice).isSome then rewriteName wireByOriginal choice
  else if hasType choice (js "allowed_tools") then
    rewriteToolsOf (rewriteSelector wireByOriginal) choice
  else (choice, false)

def rewriteInputItem (item : Json) : Json × Bool :=
  if hasType item (js "additional_tools") && isArray (item.field? (js "tools")) then
    rewriteToolsOf (rewriteDeclaredTool wireByOriginal) item
  else if isCall item then rewriteName wireByOriginal item
  else (item, false)

/-- What the parts of the request are taken to. -/
def rewriteBody (body : Json) : Json :=
  let tools := rewriteElements (rewriteDeclaredTool wireByOriginal) (body.field? (js "tools"))
  let input := rewriteElements (rewriteInputItem wireByOriginal) (body.field? (js "input"))
  let toolChoice := (body.field? (js "tool_choice")).bind fun choice ↦
    let r := rewriteToolChoice wireByOriginal choice
    if r.2 then some r.1 else none
  withField (withField (withField body (js "tools") tools) (js "input") input)
    (js "tool_choice") toolChoice

end

/-- The names a selector authorizes. -/
def authorizedNames (choice : Json) : List JsString :=
  if isFunctionOrCustom choice && (nameOf choice).isSome then (nameOf choice).toList
  else if hasType choice (js "allowed_tools") then
    ((itemsOf (choice.field? (js "tools"))).filter isFunctionOrCustom).filterMap nameOf
  else []

/-- No selector, or one that takes nothing away. -/
def unrestricted (toolChoice : Option Json) : Bool :=
  match toolChoice with
  | none => true
  | some (.str choice) => choice == js "auto" || choice == js "required"
  | some _ => false

def authorizedMuseAliases (aliases : OMap JsString JsString) (toolChoice : Option Json) :
    OMap JsString JsString :=
  if unrestricted toolChoice then aliases
  else
    let authorized := (toolChoice.map authorizedNames).getD []
    aliases.filter fun wire _ ↦ authorized.contains wire

def rewriteMuseToolNamesForUpstream (sha256 : JsString → JsString) (fuel : ℕ) (body : Json) :
    Option (Json × OMap JsString JsString) :=
  if body.isObject then
    (buildMuseToolNameAliasPlan sha256 fuel (collectMuseToolNames body)).map fun plan ↦
      if plan.2.size = 0 then (body, plan.2)
      else
        let rewritten := rewriteBody plan.1 body
        (rewritten, authorizedMuseAliases plan.2 (rewritten.field? (js "tool_choice")))
  else some (body, .empty)

/-! ## The way back -/

section

variable (aliases : OMap JsString JsString)

def identityTypes : List JsString :=
  [js "function_call", js "custom_tool_call", js "function", js "custom",
    js "response.function_call_arguments.done", js "response.function_call_arguments.delta"]

def isMuseToolIdentityType (v : Json) : Bool :=
  (stringOf (v.field? (js "type"))).any identityTypes.contains

/-- What the name of a value stands for, if for anything else. -/
def aliasOf (v : Json) : Option JsString :=
  (nameOf v).bind fun name ↦ (truthy (aliases.get? name)).filter (· ≠ name)

def restoreName (v : Json) : Json × Bool :=
  match aliasOf aliases v with
  | none => (v, false)
  | some original => (v.setField (js "name") (.str original), true)

def restoreNamedIdentity (value : Json) : Json × Bool :=
  let restored :=
    if isMuseToolIdentityType value then restoreName aliases value else (value, false)
  match nestedFunction restored.1 with
  | none => restored
  | some fn =>
    let r := restoreName aliases fn
    if r.2 then (restored.1.setField (js "function") r.1, true) else restored

mutual

/-- `restoreMuseToolNames` of a value where there are aliases. -/
def restoreValue : Json → Json × Bool
  | .arr items =>
    let r := restoreItems items
    if r.2 then (.arr r.1, true) else (.arr items, false)
  | .obj members =>
    let r := restoreMembers members
    let identity := restoreNamedIdentity aliases (if r.2 then .obj r.1 else .obj members)
    if identity.2 then (identity.1, true)
    else if r.2 then (.obj r.1, true) else (.obj members, false)
  | v => (v, false)

def restoreItems : List Json → List Json × Bool
  | [] => ([], false)
  | item :: items =>
    let r := restoreValue item
    let later := restoreItems items
    (r.1 :: later.1, r.2 || later.2)

/-- The members are assigned to a new object one by one, where `__proto__` is not a member. -/
def restoreMembers : List (JsString × Json) → List (JsString × Json) × Bool
  | [] => ([], false)
  | (key, entry) :: members =>
    let r := restoreValue entry
    let later := restoreMembers members
    (if key = js "__proto__" then later.1 else (key, r.1) :: later.1, r.2 || later.2)

end

def restoreMuseToolNames (value : Json) : Json × Bool :=
  if aliases.size = 0 then (value, false) else restoreValue aliases value

end

end MuseToolNames
