import OpenCodex.Sse.Rewrite
import OpenCodex.Tools.Names

/-!
# The guard against undeclared tools

A routed provider may call a tool that the request never declared.  The guard reads the catalog off
the request body — every wire name, the names declared bare, the custom ones among those, and the
kinds of call that carry no name — and looks at each event of the stream: an event with a call the
catalog does not admit is replaced by a failure, after which nothing is sent; a call that is admitted
under an invented spelling is sent on under the declared name.

Authorization (`undeclaredNameInItem`) and emission (`normalizeDefaultNamespaceInItem`) are two
functions of the source, and two here.
-/

set_option autoImplicit false

namespace Tools

open Sse (stringOf sseDataPayload parseSsePayload replaceSseDataPayload)

/-! ## Kinds of call -/

/-- Item types the client executes through a request-declared wire name. -/
def clientExecutedCallTypes : List JsString := [js "function_call", js "custom_tool_call"]

/-- Calls that the provider executes: their item type and the prefix of their call ids. -/
structure ProviderExecutedCallType where
  itemType : JsString
  callIdPrefix : JsString
  deriving DecidableEq

def providerExecutedDeclarationCallTypes : List (JsString × ProviderExecutedCallType) :=
  [(js "x_search", ⟨js "custom_tool_call", js "xs_call-"⟩)]

/-- Nameless declarations whose items still require the client. -/
def namelessClientDeclarationCallTypes : List (JsString × JsString) :=
  [(js "local_shell", js "local_shell_call"), (js "tool_search", js "tool_search_call"),
    (js "computer_use_preview", js "computer_call"), (js "computer_use", js "computer_call")]

def namelessClientCallDisplayNames : List (JsString × JsString) :=
  [(js "local_shell_call", js "local_shell"), (js "tool_search_call", js "tool_search"),
    (js "computer_call", js "computer_use")]

/-! ## The catalog of a request -/

/-- The containers of declarations in a request body. -/
def specGroupsOf (body : Json) : List (Option Json) :=
  body.field? (js "tools") :: ((arrayOf (body.field? (js "input"))).getD []).filterMap fun item ↦
    if item.isObject ∧ (stringAt item "type" = some (js "additional_tools") ∨
        stringAt item "type" = some (js "tool_search_output")) then
      some (item.field? (js "tools"))
    else none

/-- The names under which one declaration may be called. -/
def addWireToolName (tool : Json) (namespace? : Option JsString) (ambiguous : List JsString) :
    List JsString :=
  match wireToolInnerName tool with
  | none => []
  | some name =>
    match Bridge.truthy namespace? with
    | none => [name]
    | some ns =>
      if ns = builtinFunctionsNamespace then [name]
      else
        let dotted := dottedToolName (some ns) name
        namespacedToolName (some ns) name ::
          ((if dottedAliasIsUnambiguous ns name ∧ dotted ∉ ambiguous then [dotted] else []) ++
            if name ∈ namespacedBareAliasExcludedNames then [] else [name])

/-- The children of a namespace declaration. -/
def namespaceChildren (spec : Json) : Option (List Json) :=
  if stringAt spec "type" = some (js "namespace") then arrayOf (spec.field? (js "tools")) else none

def addWireToolSpec (ambiguous : List JsString) (spec : Json) : List JsString :=
  if !spec.isObject then []
  else match namespaceChildren spec with
    | some tools => tools.flatMap fun inner ↦ addWireToolName inner (stringAt spec "name") ambiguous
    | none => addWireToolName spec none ambiguous

/-- Every declaration of a body. -/
def specsOf (body : Json) : List Json :=
  (specGroupsOf body).flatMap fun specs ↦ (arrayOf specs).getD []

def collectDeclaredWireToolNames (body : Json) : List JsString :=
  if !body.isObject then []
  else (specsOf body).flatMap (addWireToolSpec (collectAmbiguousDottedAliases (specGroupsOf body)))

/-- The name of a declaration, if it has neither separator in it. -/
def bareName (tool : Json) : List JsString :=
  ((wireToolInnerName tool).filter fun name ↦
    !Bridge.includes name (js "__") && !Bridge.includes name (js ".")).toList

def addBareSpec (spec : Json) : List JsString :=
  if !spec.isObject then []
  else match namespaceChildren spec with
    | some tools =>
      if stringAt spec "name" = some builtinFunctionsNamespace then tools.flatMap bareName else []
    | none => bareName spec

def collectDeclaredBareWireToolNames (body : Json) : List JsString :=
  if !body.isObject then [] else (specsOf body).flatMap addBareSpec

/-- The name of a custom declaration. -/
def customName (tool : Json) : List JsString :=
  if tool.isObject ∧ stringAt tool "type" = some (js "custom") then (stringAt tool "name").toList
  else []

def addCustomSpec (spec : Json) : List JsString :=
  if !spec.isObject then []
  else if stringAt spec "type" = some (js "namespace") then
    if stringAt spec "name" = some builtinFunctionsNamespace then
      ((arrayOf (spec.field? (js "tools"))).getD []).flatMap customName
    else []
  else customName spec

/-- Custom declarations with no foreign namespace. -/
def collectDeclaredBareCustomWireToolNames (body : Json) : List JsString :=
  if !body.isObject then [] else (specsOf body).flatMap addCustomSpec

def collectDeclaredNamelessClientCallTypes (body : Json) : List JsString :=
  if !body.isObject then []
  else (specsOf body).filterMap fun spec ↦
    if spec.isObject then
      (stringAt spec "type").bind fun type ↦ namelessClientDeclarationCallTypes.lookup type
    else none

def collectProviderExecutedCallTypes (body : Json) : List ProviderExecutedCallType :=
  if !body.isObject then []
  else (specsOf body).filterMap fun spec ↦
    if spec.isObject then
      (stringAt spec "type").bind fun type ↦ providerExecutedDeclarationCallTypes.lookup type
    else none

/-- What a guard is given. -/
structure Catalog where
  declared : List JsString
  declaredNamelessClientCallTypes : List JsString
  providerExecutedCallTypes : List ProviderExecutedCallType
  declaredBare : Option (List JsString)
  declaredCustom : Option (List JsString)

/-- The sets collected from one request body; the provider's own calls count only where the
destination is that provider. -/
def Catalog.ofBody (body : Json) (destinationExecutes : Bool) : Catalog where
  declared := collectDeclaredWireToolNames body
  declaredNamelessClientCallTypes := collectDeclaredNamelessClientCallTypes body
  providerExecutedCallTypes :=
    if destinationExecutes then collectProviderExecutedCallTypes body else []
  declaredBare := some (collectDeclaredBareWireToolNames body)
  declaredCustom := some (collectDeclaredBareCustomWireToolNames body)

namespace Catalog

variable (C : Catalog)

def bareDeclared : List JsString := C.declaredBare.getD C.declared

/-! ## Authorization -/

def isAuthorizedProviderExecutedCall (item : Json) : Bool :=
  match stringAt item "call_id" with
  | none => false
  | some callId => C.providerExecutedCallTypes.any fun t ↦
      stringAt item "type" = some t.itemType && t.callIdPrefix.isPrefixOf callId

/-- A name with the invented prefix taken off, if it has it. -/
def stripDefault (name : JsString) : JsString :=
  if (js "default.").isPrefixOf name then name.drop 8 else name

/-- A call in the namespace `default` that means a tool declared bare. -/
def bareOfDefault (name : JsString) : Bool :=
  let bare := stripDefault name
  bare ≠ [] && C.bareDeclared.contains bare &&
    !C.declared.contains (namespacedToolName (some (js "default")) bare) &&
    !C.declared.contains (dottedToolName (some (js "default")) bare)

/-- A namespaced name is declared, under either spelling. -/
def declaredUnder (ns name : JsString) : Bool :=
  C.declared.contains (namespacedToolName (some ns) name) ||
    dottedAliasIsUnambiguous ns name && C.declared.contains (dottedToolName (some ns) name)

/-- The name that a call is refused for, if it is refused. -/
def undeclaredNameInItem (item : Json) : Option JsString :=
  if !item.isObject then none
  else match stringAt item "type" with
    | none => none
    | some type =>
      if C.isAuthorizedProviderExecutedCall item then none
      else match namelessClientCallDisplayNames.lookup type with
        | some displayName =>
          if type = js "tool_search_call" ∧ stringAt item "execution" ≠ some (js "client") then none
          else if type ∈ C.declaredNamelessClientCallTypes then none
          else some displayName
        | none =>
          if type ∉ clientExecutedCallTypes then none
          else match nonEmptyAt item "name" with
            | none => none
            | some name =>
              match stringAt item "namespace" with
              | some ns =>
                if C.declaredUnder ns name then none
                else if ns = js "default" ∧ C.bareOfDefault name then none
                else some name
              | none =>
                if C.declared.contains (normalizeDeclaredToolName name (some C.declared)
                    C.declaredBare C.declaredCustom) then none
                else some name

/-- The call that a named `arguments.done` event stands for. -/
def argumentsItem (payload : Json) (name : JsString) : Json :=
  .obj ((js "type", .str (js "function_call")) :: (js "name", .str name) ::
    ((payload.field? (js "namespace")).map fun v ↦ (js "namespace", v)).toList)

/-- The items of a response. -/
def outputOf (response : Option Json) : Option (List Json) :=
  (plainObject response).bind fun r ↦ arrayOf (r.field? (js "output"))

/-- What an event is, as far as the guard is concerned. -/
inductive EventKind where
  | item
  | argumentsDone (name : JsString)
  | snapshot
  | other

/-- The kind of a payload that is an object. -/
def eventKind (payload : Json) : EventKind :=
  let type := stringAt payload "type"
  if type = some (js "response.output_item.added") ∨ type = some (js "response.output_item.done") then
    .item
  else match if type = some (js "response.function_call_arguments.done") then
      stringAt payload "name" else none with
    | some name => .argumentsDone name
    | none =>
      if type = some (js "response.completed") ∨ type = some (js "response.incomplete") then .snapshot
      else .other

/-- `undeclaredToolCallNameInResponse` -/
def undeclaredToolCallNameInResponse (response : Option Json) : Option JsString :=
  match outputOf response with
  | none => none
  | some output => output.findSome? C.undeclaredNameInItem

/-- The first undeclared client tool named by a payload. -/
def undeclaredToolCallName (payload : Json) : Option JsString :=
  if !payload.isObject then none
  else match eventKind payload with
    | .item => (payload.field? (js "item")).bind C.undeclaredNameInItem
    | .argumentsDone name => C.undeclaredNameInItem (argumentsItem payload name)
    | .snapshot => C.undeclaredToolCallNameInResponse (payload.field? (js "response"))
    | .other => none

/-! ## Emission

Each function gives the changed value, and nothing where it leaves the value as it is. -/

/-- The declared name that an invented `default.` prefix stands before. -/
def bareOfPrefixed (name : JsString) : Option JsString :=
  if (js "default.").isPrefixOf name then
    let bare := name.drop 8
    if bare ≠ [] ∧ C.bareDeclared.contains bare ∧ undeclaredDefault C.declared bare then some bare
    else none
  else none

/-- The declared name for a name that the schema rejects; the set of custom tools is not asked. -/
def authorizedName (name : JsString) : Option JsString :=
  if isSchemaValidResponsesToolName name then none
  else
    let authorized := normalizeDeclaredToolName name (some C.declared) C.declaredBare none
    if authorized ≠ name ∧ C.declared.contains authorized ∧
        isSchemaValidResponsesToolName authorized then some authorized
    else none

def normalizeDefaultNamespaceInItem (item : Json) : Option Json :=
  if !item.isObject then none
  else if (stringAt item "type").all (· ∉ clientExecutedCallTypes) then none
  else match nonEmptyAt item "name" with
    | none => none
    | some name =>
      if stringAt item "namespace" = some (js "default") then
        if C.bareOfDefault name then
          some ((item.setField (js "name") (.str (stripDefault name))).eraseField (js "namespace"))
        else none
      else if (item.field? (js "namespace")).isNone ∨
          stringAt item "namespace" = some builtinFunctionsNamespace then
        ((C.bareOfPrefixed name).or (C.authorizedName name)).map fun m ↦
          item.setField (js "name") (.str m)
      else none

/-- An item as it is sent on. -/
def relayed (item : Json) : Json := (C.normalizeDefaultNamespaceInItem item).getD item

def normalizeDefaultNamespaceInResponse (response : Option Json) : Option Json :=
  match plainObject response, outputOf response with
  | some r, some output =>
    if output.any fun item ↦ (C.normalizeDefaultNamespaceInItem item).isSome then
      some (r.setField (js "output") (.arr (output.map C.relayed)))
    else none
  | _, _ => none

def normalizeDefaultNamespaceInPayload (payload : Json) : Option Json :=
  if !payload.isObject then none
  else match eventKind payload with
    | .item =>
      ((payload.field? (js "item")).bind C.normalizeDefaultNamespaceInItem).map
        (payload.setField (js "item"))
    | .argumentsDone name =>
      (C.normalizeDefaultNamespaceInItem (argumentsItem payload name)).map fun normalized ↦
        let next := payload.setField (js "name") ((normalized.field? (js "name")).getD .null)
        if (normalized.field? (js "namespace")).isNone then next.eraseField (js "namespace")
        else next
    | .snapshot =>
      (C.normalizeDefaultNamespaceInResponse (payload.field? (js "response"))).map
        (payload.setField (js "response"))
    | .other => none

/-! ## The rewrite -/

def maxReportedNameChars : ℕ := 100

def undeclaredToolCallErrorCode : JsString := js "undeclared_tool_call"

def undeclaredToolCallMessage (name : JsString) : JsString :=
  js "routed provider emitted undeclared client tool \"" ++ name.take maxReportedNameChars ++
    js "\"; only request-declared tools may be called"

def failure (name : JsString) : Json :=
  .obj [(js "type", .str (js "upstream_error")), (js "code", .str undeclaredToolCallErrorCode),
    (js "message", .str (undeclaredToolCallMessage name))]

def failedPayload (name : JsString) : Json :=
  .obj [(js "type", .str (js "response.failed")), (js "response",
    .obj [(js "status", .str (js "failed")), (js "error", failure name),
      (js "last_error", failure name)])]

def failedBlocks (name newline : JsString) : List JsString :=
  [js "event: response.failed" ++ newline ++ js "data: " ++ (failedPayload name).stringify,
    js "data: [DONE]"]

/-- One block through the rewrite: whether it has tripped, and what it sends. -/
def guardBlock (refuse tripped : Bool) (block : JsString) : Bool × List JsString :=
  if tripped then (true, [])
  else match (sseDataPayload block).bind parseSsePayload with
    | none => (false, [block])
    | some parsed =>
      match if refuse then C.undeclaredToolCallName parsed else none with
      | some name =>
        (true, failedBlocks name (if Bridge.includes block [13, 10] then [13, 10] else [10]))
      | none =>
        match C.normalizeDefaultNamespaceInPayload parsed with
        | some value => (false, [replaceSseDataPayload block value.stringify])
        | none => (false, [block])

/-- A sequence of blocks through `createUndeclaredToolCallGuardBlockRewrite`: what each is sent on
as. -/
def guardBlocks (refuse : Bool) : Bool → List JsString → List (List JsString)
  | _, [] => []
  | tripped, block :: blocks =>
    let result := C.guardBlock refuse tripped block
    result.2 :: guardBlocks refuse result.1 blocks

end Catalog

end Tools
