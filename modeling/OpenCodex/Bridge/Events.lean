import OpenCodex.Data.Json

/-!
# What the bridge reads

An adapter turns an upstream answer into *adapter events*, and these are what the bridge translates
and what the guards and relays around it look at.  This module has the vocabulary they share: the
functions of strings as JavaScript has them, the events, and the names of the code-mode tools.

Text is a list of UTF-16 code units, so that the functions that look at single units can be given as
the source has them.
-/

set_option autoImplicit false

open List

namespace Bridge

/-! ## Strings as JavaScript has them -/

/-- The units `trim` removes. -/
def isTrimmed (c : CodeUnit) : Bool :=
  (0x09 ≤ c && c ≤ 0x0d) || c == 0x20 || c == 0xa0 || c == 0x1680 || (0x2000 ≤ c && c ≤ 0x200a) ||
    c == 0x2028 || c == 0x2029 || c == 0x202f || c == 0x205f || c == 0x3000 || c == 0xfeff

def trimStart (s : JsString) : JsString := s.dropWhile isTrimmed

def trim (s : JsString) : JsString := (trimStart (trimStart s).reverse).reverse

/-- `toLowerCase`, as far as it can lead into the basic Latin letters: the capital letters, and the
Kelvin sign. -/
def toLowerCase (s : JsString) : JsString :=
  s.map fun c ↦ if 0x41 ≤ c && c ≤ 0x5a then c + 0x20 else if c == 0x212a then 0x6b else c

/-- A string that is there and not empty. -/
def truthy (s : Option JsString) : Option JsString := s.filter fun t ↦ t ≠ []

/-- Whether a string occurs in another one, and at which unit for the first time. -/
def indexOf (pattern : JsString) : JsString → Option ℕ
  | [] => if pattern = [] then some 0 else none
  | c :: s => if pattern.isPrefixOf (c :: s) then some 0 else (indexOf pattern s).map (· + 1)

variable {pattern : JsString}

theorem indexOf_nil (h : pattern ≠ []) : indexOf pattern [] = none := if_neg h

variable {s : JsString} {i : ℕ}

theorem indexOf_spec (h : indexOf pattern s = some i) : pattern <+: s.drop i := by
  induction s generalizing i with
  | nil =>
    rw [indexOf] at h
    split_ifs at h with hnil
    rw [hnil]
    exact nil_prefix
  | cons c s ih =>
    rw [indexOf] at h
    split_ifs at h with hhead
    · obtain rfl := Option.some_inj.mp h
      exact isPrefixOf_iff_prefix.mp hhead
    · obtain ⟨j, hj, rfl⟩ := Option.map_eq_some_iff.mp h
      exact ih hj

theorem indexOf_le {j : ℕ} (h : pattern <+: s.drop j) :
    ∃ i, indexOf pattern s = some i ∧ i ≤ j := by
  induction s generalizing j with
  | nil =>
    rw [drop_nil, prefix_nil] at h
    exact ⟨0, if_pos h, Nat.zero_le j⟩
  | cons c s ih =>
    rw [indexOf]
    split_ifs with hhead
    · exact ⟨0, rfl, Nat.zero_le j⟩
    · cases j with
      | zero => exact absurd (List.isPrefixOf_iff_prefix.mpr h) hhead
      | succ j =>
        obtain ⟨i, hi, hle⟩ := ih (j := j) h
        exact ⟨i + 1, by rw [hi]; rfl, Nat.succ_le_succ hle⟩

variable {S text : JsString}

theorem suffix_take (h : S <+: text.drop i) : S <:+ text.take (i + S.length) := by
  rw [take_add, ← prefix_iff_eq_take.mp h]
  exact suffix_append _ _

theorem occurs_of_suffix {U : JsString} (hS : S <:+ U) (hU : U <+: text) :
    ∃ j, S <+: text.drop j ∧ j + S.length = U.length := by
  obtain ⟨g, rfl⟩ := hS
  obtain ⟨V, rfl⟩ := hU
  refine ⟨g.length, ⟨V, ?_⟩, by rw [length_append]⟩
  rw [append_assoc, drop_left]

def includes (s pattern : JsString) : Bool := (indexOf pattern s).isSome

/-! ## Adapter events -/

/-- The phase of an assistant message. -/
inductive MessagePhase where
  | commentary
  | finalAnswer
  deriving DecidableEq

/-- A cited page. -/
structure WebSource where
  url : JsString
  title : Option JsString
  deriving DecidableEq

/-- A server-side call as the provider returned it: of the call the name and the input, which the
adapter always sets, and the result block. -/
structure ServerBlocks where
  name : JsString
  input : Json
  result : Json

/-- How a search cell is closed. -/
inductive SearchStatus where
  | inProgress
  | completed
  | failed
  deriving DecidableEq

/-- The fields of a `web_search_call_end`. -/
structure SearchEnd where
  id : JsString
  itemId : Option JsString
  queries : List JsString
  status : Option SearchStatus
  sources : List WebSource
  anthropic : Option ServerBlocks

/-- The fields of a `done`. -/
structure Done where
  usage : Option Json
  compactionEncryptedContent : Option JsString
  stopReason : Option JsString
  endTurn : Option Bool
  providerState : Option Json

/-- The fields of an `incomplete`. -/
structure Incomplete where
  reason : JsString
  message : Option JsString
  usage : Option Json
  retryable : Option Bool
  endTurn : Option Bool
  providerState : Option Json

/-- The fields of an `error`. -/
structure Failure where
  message : JsString
  usage : Option Json
  status : Option ℕ
  errorType : Option JsString
  code : Option JsString
  retryable : Option Bool

/-- What an adapter yields. -/
inductive AdapterEvent where
  | heartbeat
  | textDelta (text : JsString) (phase : Option MessagePhase)
      (anthropicThinkingSignature : Option JsString)
  | thinkingDelta (thinking : JsString)
  | thinkingSignature (signature : JsString)
  | redactedThinking (data : JsString)
  | kiroRedactedReasoning (data : JsString)
  | reasoningRawDelta (text : JsString)
  | toolCallStart (id name : JsString) (providerMetadata : Option Json)
  | toolCallDelta (arguments : JsString)
  | toolCallEnd
  | assistantBoundary
  | webSearchCallBegin (id : JsString) (itemId : Option JsString)
  | webSearchCallEnd (e : SearchEnd)
  | done (e : Done)
  | incomplete (e : Incomplete)
  | error (e : Failure)

namespace AdapterEvent

/-- A terminal event of the adapter. -/
def isTerminal : AdapterEvent → Bool
  | done _ | incomplete _ | error _ => true
  | _ => false

end AdapterEvent

/-! ## Tool names -/

/-- The nested helper names of the code-mode shell. -/
def codeModeHelperToolNames : List JsString :=
  [js "exec_command", js "shell_command", js "write_stdin", js "apply_patch", js "view_image",
    js "create_goal", js "get_goal", js "update_goal"]

/-- A flattened name `mcp__<server>__<tool>`. -/
def isCodeModeMcpDirectName (name : JsString) : Bool :=
  (js "mcp__").isPrefixOf name &&
    match indexOf (js "__") (name.drop 5) with
    | some separator => decide (0 < separator ∧ separator + 2 < (name.drop 5).length)
    | none => false

end Bridge
