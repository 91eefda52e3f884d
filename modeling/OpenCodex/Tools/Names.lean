import OpenCodex.Data.JsonWrite
import OpenCodex.Data.OMap
import OpenCodex.Sse.Payload

/-!
# Names of tools

A tool is declared with a name, and perhaps inside a namespace.  On the wire it has one name: a
namespace is joined to it with two underscores, and some providers answer with a dot instead.  A
dotted spelling is accepted only while it means one tool, so the catalog is searched for the dotted
spellings that more than one identity would claim (`collectAmbiguousDottedAliases`).

A provider may also invent a prefix `default.`, or call one of the helpers that exist only inside
the code-mode shell; `normalizeDeclaredToolName` is the declared tool that it means.
-/

set_option autoImplicit false

namespace Tools

open Bridge (includes codeModeHelperToolNames isCodeModeMcpDirectName)
open Sse (stringOf)

/-! ## Fields -/

/-- A value that may be missing and is an object. -/
def plainObject (v : Option Json) : Option Json := v.filter (·.isObject)

/-- The elements of a value, where it is an array. -/
def arrayOf : Option Json → Option (List Json)
  | some (.arr items) => some items
  | _ => none

/-- A string field of a value. -/
def stringAt (v : Json) (name : String) : Option JsString := stringOf (v.field? (js name))

/-- A string field that is not empty. -/
def nonEmptyAt (v : Json) (name : String) : Option JsString :=
  (stringAt v name).filter fun s ↦ s ≠ []

/-! ## Spellings -/

def namespacedToolName (namespace? : Option JsString) (name : JsString) : JsString :=
  match Bridge.truthy namespace? with
  | some ns => ns ++ js "__" ++ name
  | none => name

def dottedToolName (namespace? : Option JsString) (name : JsString) : JsString :=
  match Bridge.truthy namespace? with
  | some ns => ns ++ js "." ++ name
  | none => name

/-- The dotted spelling cannot also be read as another identity's canonical name. -/
def dottedAliasIsUnambiguous (ns name : JsString) : Bool :=
  !includes ns (js "__") && !includes name (js "__")

/-- `[a-zA-Z0-9_-]` -/
def isNameUnit (c : CodeUnit) : Bool :=
  (0x61 ≤ c && c ≤ 0x7a) || (0x41 ≤ c && c ≤ 0x5a) || (0x30 ≤ c && c ≤ 0x39) || c == 0x5f || c == 0x2d

def isSchemaValidResponsesToolName (name : JsString) : Bool := name ≠ [] && name.all isNameUnit

/-- The name of a declaration, or of the function nested in it. -/
def wireToolInnerName (tool : Json) : Option JsString :=
  if !tool.isObject then none
  else
    let nestedFunction :=
      if stringAt tool "type" = some (js "function") then plainObject (tool.field? (js "function"))
      else none
    (nonEmptyAt tool "name").or (nestedFunction.bind (nonEmptyAt · "name"))

def builtinFunctionsNamespace : JsString := js "functions"

/-! ## Ambiguous aliases -/

/-- A tool's identity: its namespace, if it has one, and its name. -/
abbrev ToolIdentity := Option JsString × JsString

/-- Who owns each alias; `none` once two identities have claimed it. -/
abbrev AliasOwners := OMap JsString (Option ToolIdentity)

def claimAlias (owners : AliasOwners) (c : JsString × ToolIdentity) : AliasOwners :=
  match owners.get? c.1 with
  | none => owners.set c.1 (some c.2)
  | some owner => if owner = some c.2 then owners else owners.set c.1 none

/-- The aliases that one child of a namespace claims. -/
def childClaims (ns : JsString) (inner : Json) : List (JsString × ToolIdentity) :=
  match wireToolInnerName inner with
  | none => []
  | some name =>
    if ns = builtinFunctionsNamespace then [(name, (none, name))]
    else
      let identity : ToolIdentity := (some ns, name)
      [(dottedToolName (some ns) name, identity), (namespacedToolName (some ns) name, identity),
        (name, identity)]

/-- The aliases that one declaration claims. -/
def specClaims (spec : Json) : List (JsString × ToolIdentity) :=
  if !spec.isObject then []
  else match if stringAt spec "type" = some (js "namespace") then
      arrayOf (spec.field? (js "tools")) else none with
    | some tools =>
      match Bridge.truthy (stringAt spec "name") with
      | none => []
      | some ns => tools.flatMap (childClaims ns)
    | none =>
      match wireToolInnerName spec with
      | none => []
      | some name => [(name, (none, name))]

/-- The dotted aliases that more than one declared identity would claim. -/
def collectAmbiguousDottedAliases (specGroups : List (Option Json)) : List JsString :=
  let claims := specGroups.flatMap fun specs ↦ ((arrayOf specs).getD []).flatMap specClaims
  let owners : AliasOwners := claims.foldl claimAlias .empty
  (owners.entries.filter fun p ↦ p.2.isNone).map Prod.fst

/-! ## What a name means -/

def codeModeExecToolName : JsString := js "exec"

def legacyShellBridgeToolNames : List JsString := [js "exec_command", js "shell_command"]

/-- Spellings that are never made a bare alias of a namespaced tool. -/
def namespacedBareAliasExcludedNames : List JsString :=
  codeModeExecToolName :: codeModeHelperToolNames

/-- Neither spelling of a tool `bare` in the namespace `default` is declared. -/
def undeclaredDefault (declared : List JsString) (bare : JsString) : Bool :=
  !declared.contains (js "default." ++ bare) && !declared.contains (js "default__" ++ bare)

/-- The name with an invented prefix `default.` taken off, where what is left means a declared tool;
`customExec` if the code-mode shell is declared as a custom tool. -/
def withoutDefault (name : JsString) (declared : List JsString)
    (declaredBare : Option (List JsString)) (customExec : Bool) : JsString :=
  if (js "default.").isPrefixOf name then
    let bare := name.drop 8
    if bare.length > 0 ∧ ((declaredBare.getD declared).contains bare ||
        includes bare (js "__") && declared.contains bare) ∧ undeclaredDefault declared bare then
      bare
    else if bare.length > 0 ∧ declared.contains codeModeExecToolName ∧
        (codeModeHelperToolNames.contains bare ||
          customExec && isCodeModeMcpDirectName bare) ∧ undeclaredDefault declared bare then
      bare
    else name
  else name

/-- The declared tool that an emitted name means. -/
def normalizeDeclaredToolName (name : JsString) (declared : Option (List JsString))
    (declaredBare declaredCustom : Option (List JsString)) : JsString :=
  match declared with
  | none => name
  | some declared =>
    if declared.contains name then name
    else
      let customExec := declaredCustom.any (·.contains codeModeExecToolName)
      let candidate := withoutDefault name declared declaredBare customExec
      if !declared.contains codeModeExecToolName then candidate
      else if declared.contains candidate then candidate
      else if candidate = js "apply_patch" then codeModeExecToolName
      else if legacyShellBridgeToolNames.any declared.contains then candidate
      else if codeModeHelperToolNames.contains candidate then codeModeExecToolName
      else if customExec && isCodeModeMcpDirectName candidate then codeModeExecToolName
      else candidate

end Tools
