import OpenCodex.Data.Utf8Ascii
import OpenCodex.Sse.Decoder
import OpenCodex.Tools.Names

/-!
# Shapes of the Messages API

The Claude side of the proxy answers in the shapes of the Anthropic Messages API.  Here are the parts
that are computed without a state: errors and usage, the input of web searches, the pair of blocks a
finished search becomes, and the envelope that carries reasoning in a signature.

Values are JSON; `record` writes a record.  What the code takes from other modules or from the platform is
in `MessagesEnv`.
-/

set_option autoImplicit false

namespace Messages

open Bridge (trim toLowerCase truthy)
open Tools (plainObject arrayOf stringAt nonEmptyAt)

/-- An object with these members. -/
def record (members : List (String × Json)) : Json := .obj (members.map fun m ↦ (js m.1, m.2))

theorem field?_record (members : List (String × Json)) (name : String) :
    (record members).field? (js name) = Json.lookup (members.map fun m ↦ (js m.1, m.2)) (js name) :=
  rfl

/-- A member that is there only if its value is. -/
def optional (name : String) (value : Option Json) : List (String × Json) :=
  (value.map fun v ↦ (name, v)).toList

def word (s : String) : Json := .str (js s)

/-- A field of a value that may be missing. -/
def fieldOf (v : Option Json) (name : String) : Option Json := v.bind (·.field? (js name))

def numberOf : Option Json → Option ℚ
  | some (.num q) => some q
  | _ => none

/-- What the module takes from elsewhere. -/
structure MessagesEnv where
  model : JsString
  inputTokenFloor : Option ℚ
  nativeReasoningTagFor : JsString → Option JsString
  uuid : ℕ → JsString
  /-- `reasoningIdentityDigest`: SHA-256. -/
  reasoningIdentityDigest : JsString → JsString
  /-- Base64, both ways. -/
  base64 : List UInt8 → JsString
  unbase64 : JsString → List UInt8
  claudePromptTooLongMessage : JsString → JsString
  isThroughputLimitText : JsString → Bool
  /-- By type, code and message. -/
  httpStatusFromTerminalError : Option JsString → Option JsString → JsString → ℚ

variable (E : MessagesEnv)

/-! ## Errors and usage -/

def anthropicErrorType (status : ℚ) : JsString :=
  if status = 400 then js "invalid_request_error"
  else if status = 401 then js "authentication_error"
  else if status = 402 then js "billing_error"
  else if status = 403 then js "permission_error"
  else if status = 404 then js "not_found_error"
  else if status = 409 then js "conflict_error"
  else if status = 413 then js "request_too_large"
  else if status = 429 then js "rate_limit_error"
  else if status = 504 then js "timeout_error"
  else if status = 529 then js "overloaded_error"
  else if status ≥ 500 then js "api_error" else js "invalid_request_error"

def contextLengthExceeded : JsString := js "context_length_exceeded"

def translationBufferLimit : JsString := js "translation_buffer_limit"

def anthropicErrorBody (status : ℚ) (message : JsString) (type code : Option JsString) : Json :=
  let overflow := code = some contextLengthExceeded ∧ E.isThroughputLimitText message = false
  let text := if overflow then E.claudePromptTooLongMessage message else message
  record [("type", .str (js "error")),
    ("error", record ([("type", .str (type.getD (anthropicErrorType status))), ("message", .str text)] ++
      optional "code" ((truthy code).map .str)))]

/-- Responses usage as Anthropic usage. -/
def anthropicUsage (usage : Option Json) (webSearchRequests : ℕ) : Json :=
  let u := plainObject usage
  let details := plainObject (fieldOf u "input_tokens_details")
  let cached := (numberOf (fieldOf details "cached_tokens")).getD 0
  let cacheWrite := (numberOf (fieldOf details "cache_write_tokens")).getD 0
  let cacheWrite1h := (numberOf (fieldOf details "cache_write_1h_tokens")).map fun n ↦
    max 0 (min n cacheWrite)
  let input := (numberOf (fieldOf u "input_tokens")).getD 0
  let output := (numberOf (fieldOf u "output_tokens")).getD 0
  record ([("input_tokens", .num (max 0 (input - cached - cacheWrite))),
      ("output_tokens", .num output),
      ("cache_read_input_tokens", .num cached),
      ("cache_creation_input_tokens", .num cacheWrite)] ++
    optional "cache_creation" (cacheWrite1h.map fun n ↦
      record [("ephemeral_5m_input_tokens", .num (cacheWrite - n)),
        ("ephemeral_1h_input_tokens", .num n)]) ++
    optional "server_tool_use" (if webSearchRequests > 0 then
      some (record [("web_search_requests", .num webSearchRequests)]) else none))

/-- The message that `message_start` carries. -/
def messageSnapshot (id : JsString) (confirmedUsage : Option Json) : Json :=
  let floor := E.inputTokenFloor.filter fun n ↦ n > 0
  let usage := confirmedUsage.getD
    (record [("input_tokens", .num ((floor.map fun n ↦ (n.floor : ℚ)).getD 0)), ("output_tokens", .num 0)])
  record [("id", .str (js "msg_" ++ id)), ("type", word "message"), ("role", word "assistant"),
    ("content", .arr []), ("model", .str E.model), ("stop_reason", .null), ("stop_sequence", .null),
    ("usage", usage)]

/-- An output cap and a content filter are stop reasons; every other reason is a failure. -/
def anthropicIncompleteOutcome (reason message : Option Json) : JsString ⊕ JsString :=
  if Sse.stringOf reason = some (js "max_output_tokens") then .inl (js "max_tokens")
  else if Sse.stringOf reason = some (js "content_filter") then .inl (js "refusal")
  else
    match (Sse.stringOf message).filter fun m ↦ trim m ≠ [] with
    | some m => .inr m
    | none => .inr (js "upstream response was incomplete" ++ match Sse.stringOf reason with
      | some r => js " (" ++ r ++ js ")"
      | none => [])

def anthropicFailedStatus (error : Option Json) (message : JsString) : ℚ :=
  let code := Sse.stringOf (fieldOf error "code")
  if code = some contextLengthExceeded then 400
  else if code = some translationBufferLimit then 413
  else
    match numberOf (fieldOf error "status") with
    | some status => status
    | none =>
      E.httpStatusFromTerminalError (Sse.stringOf (fieldOf error "type")) code message

def isTransientUpstreamStatus (status : ℚ) : Bool :=
  status = 500 ∨ status = 502 ∨ status = 503 ∨ status = 504 ∨ status = 520 ∨ status = 521 ∨
    status = 522

/-! ## Web searches -/

def isClaudeWebSearchToolName (name : JsString) : Bool :=
  let trimmed := trim name
  trimmed = js "WebSearch" || (js "web_search").isPrefixOf (toLowerCase trimmed)

def normalizeWebSearchDomainList (value : Option Json) : Option (List Json) :=
  let domains := ((arrayOf value).getD []).filterMap fun entry ↦
    ((Sse.stringOf (some entry)).map trim).filter fun domain ↦ domain ≠ []
  if domains = [] then none else some (domains.map .str)

/-- Empty domain filters are dropped, and of two that are left the list of what is allowed stays. -/
def sanitizeWebSearchInput (input : Json) : Json :=
  let src := if input.isObject then input else record []
  let allowed := normalizeWebSearchDomainList (src.field? (js "allowed_domains"))
  let blocked := normalizeWebSearchDomainList (src.field? (js "blocked_domains"))
  let src := (src.eraseField (js "allowed_domains")).eraseField (js "blocked_domains")
  match allowed, blocked with
  | some allowed, _ => src.setField (js "allowed_domains") (.arr allowed)
  | none, some blocked => src.setField (js "blocked_domains") (.arr blocked)
  | none, none => src

/-- A finished search: the call and its result. -/
structure WebSearchPair where
  id : JsString
  name : JsString
  resultType : JsString
  input : Json
  resultContent : Option Json
  completed : Bool

/-- The blocks of a search that the provider itself made. -/
def ownBlocks (item : Json) : Option (Json × Json × JsString × JsString) := do
  let blocks ← plainObject (item.field? (js "anthropic_blocks"))
  let use ← plainObject (blocks.field? (js "use"))
  let result ← plainObject (blocks.field? (js "result"))
  let id ← stringAt use "id"
  let input ← plainObject (use.field? (js "input"))
  let name ← stringAt use "name"
  if (name = js "web_search" ∨ name = js "web_fetch") ∧ stringAt result "tool_use_id" = some id ∧
      stringAt result "type" = some (name ++ js "_tool_result") then
    some (input, result, id, name)
  else none

/-- What was found, where the search was completed. -/
def searchHits (item : Json) : List Json :=
  ((arrayOf (item.field? (js "sources"))).getD []).filterMap fun s ↦
    (nonEmptyAt s "url").map fun url ↦ record [("type", word "web_search_result"),
      ("title", .str ((stringAt s "title").getD [])), ("url", .str url)]

def webSearchPairFromItem (item : Json) (fresh : JsString) : WebSearchPair :=
  let action := plainObject (item.field? (js "action"))
  let completed := decide (stringAt item "status" ≠ some (js "failed"))
  match ownBlocks item with
  | some (input, result, id, name) =>
    ⟨id, name, name ++ js "_tool_result", input, result.field? (js "content"), completed⟩
  | none =>
    let id := (nonEmptyAt item "id").getD (js "srvtoolu_" ++ fresh)
    match item.field? (js "fetch_result") with
    | some fetched =>
      let url := (Sse.stringOf (fieldOf action "url")).getD []
      ⟨id, js "web_fetch", js "web_fetch_tool_result", record [("url", .str url)], some fetched, completed⟩
    | none =>
      let queries := ((arrayOf (fieldOf action "queries")).getD []).filterMap fun q ↦
        truthy (Sse.stringOf (some q))
      let query := (Sse.stringOf (fieldOf action "query")).getD []
      let input := sanitizeWebSearchInput
        (if queries.length > 1 then record [("queries", .arr (queries.map .str))]
          else record [("query", .str (queries.head?.getD query))])
      let resultContent : Json := if completed then .arr (searchHits item)
        else record [("type", word "web_search_tool_result_error"), ("error_code", word "unavailable")]
      ⟨id, js "web_search", js "web_search_tool_result", input, some resultContent, completed⟩

/-! ## Reasoning -/

def ocxReasoningPrefix : JsString := js "ocxr1:"

/-- A provider's own reasoning: its blob and the id of its item. -/
structure NativeReasoning where
  enc : JsString
  id : Option JsString

/-- `ReasoningEnvelope`, as far as it is read here. -/
structure ReasoningEnvelope where
  sig : Option JsString
  upd : Option JsString
  red : List JsString
  txt : Option JsString

/-- `{ enc, id?, model, tag }` -/
def nativeMember (native : NativeReasoning) (tag : JsString) : Json :=
  record ([("enc", .str native.enc)] ++ optional "id" (native.id.map .str) ++
    [("model", .str E.model), ("tag", .str tag)])

/-- `encodeReasoningEnvelope` of a text and perhaps a native member. -/
def encodeReasoningEnvelope (txt : JsString) (nat : Option Json) : JsString :=
  ocxReasoningPrefix ++ E.base64 (Utf8.bytesOf
    (record ([("txt", .str txt)] ++ optional "nat" nat)).stringify)

/-- `/^msg_[a-f0-9]{32}$/` -/
def isMirrorId (id : JsString) : Bool :=
  (js "msg_").isPrefixOf id && (id.drop 4).length = 32 &&
    (id.drop 4).all fun c ↦ (0x61 ≤ c && c ≤ 0x66) || (0x30 ≤ c && c ≤ 0x39)

def hasNative (v : Json) : Bool :=
  (plainObject (v.field? (js "nat"))).any fun nat ↦
    (nonEmptyAt nat "enc").isSome && (nonEmptyAt nat "model").isSome && (nonEmptyAt nat "tag").isSome

/-- `decodeReasoningEnvelope`; nothing for what a provider encrypted, or for garbage. -/
def decodeReasoningEnvelope (encrypted : JsString) : Option ReasoningEnvelope := do
  if ocxReasoningPrefix.isPrefixOf encrypted then
    let v ← plainObject (Json.parse
      (Utf8.tailText (E.unbase64 (encrypted.drop ocxReasoningPrefix.length))))
    let red := ((arrayOf (v.field? (js "red"))).getD []).filterMap fun r ↦ Sse.stringOf (some r)
    let envelope : ReasoningEnvelope :=
      ⟨stringAt v "sig", (stringAt v "upd").filter isMirrorId, red, stringAt v "txt"⟩
    if (truthy envelope.sig).isSome || !red.isEmpty || envelope.txt.isSome ||
        (nonEmptyAt v "krc").isSome || hasNative v then some envelope else none
  else none

def nativeEncryptedReasoning (encrypted : JsString) : JsString :=
  if ocxReasoningPrefix.isPrefixOf encrypted then [] else encrypted

end Messages
