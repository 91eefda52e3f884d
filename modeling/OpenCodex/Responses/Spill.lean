import OpenCodex.Data.JsonText

/-!
# Continuations as they are written down

A response that was completed is kept for the turn that continues it: `createdAt`, the task it
belongs to, and all the items up to and including its output.  Such a continuation is in memory, or
*spilled* to a file of its own; this file is about the second form, and about how big either is.

A spill file holds the JSON text of the continuation together with the id of the response, and is
referred to by its name, its size and the digest of its text (`ResponseSpillRef`).  What lies outside
the process is in `StoreEnv`: the platform, the caps, `JSON.stringify` and SHA-256, and the answers
of the clock and of the disk.  The answers are numbered — the store counts what it has asked — and
nothing is assumed of them: a write may fail, a file may vanish or change, an unlink may leave it.
-/

set_option autoImplicit false

open Json

namespace Responses

/-- The id of a response. -/
abbrev ResponseId := JsString

/-! ## Sizes of texts -/

/-- The bytes of a unit that is not half of a pair. -/
def unitBytes (c : CodeUnit) : ℕ := if c < 0x80 then 1 else if c < 0x800 then 2 else 3

/-- `Buffer.byteLength(text, "utf8")`. -/
def utf8Length : JsString → ℕ
  | [] => 0
  | [c] => unitBytes c
  | c :: d :: rest =>
    if isHighSurrogate c && isLowSurrogate d then 4 + utf8Length rest
    else unitBytes c + utf8Length (d :: rest)

/-- What `String.prototype.trim` takes away. -/
def isBlank (c : CodeUnit) : Bool :=
  (0x09 ≤ c && c ≤ 0x0d) || c == 0x20 || c == 0xa0 || c == 0x1680 || (0x2000 ≤ c && c ≤ 0x200a) ||
    c == 0x2028 || c == 0x2029 || c == 0x202f || c == 0x205f || c == 0x3000 || c == 0xfeff

def trim (s : JsString) : JsString :=
  ((s.dropWhile isBlank).reverse.dropWhile isBlank).reverse

/-! ## The surroundings of the store -/

/-- What reading a spill file gives. -/
inductive FileRead where
  /-- There is no such file. -/
  | missing
  /-- It is not a regular file, or cannot be read, or its bytes are no UTF-8 text. -/
  | unreadable
  | contents (text : JsString)

/-- The surroundings of the store. -/
structure StoreEnv where
  /-- `windowsSecretAclApplies()`: spills are published from a queue. -/
  windows : Bool
  byteCap : ℕ
  spillByteCap : ℕ
  responseSpillPayloadCap : ℕ
  /-- `JSON.stringify`; `none` where it throws. -/
  stringify : Json → Option JsString
  /-- SHA-256 of the UTF-8 of a text, in hexadecimal. -/
  sha256 : JsString → JsString
  /-- The clock. -/
  clock : ℕ → ℚ
  /-- The name a written spill file got; `none` where the write failed. -/
  publish : ℕ → Option JsString
  /-- Does an unlink leave the file behind? -/
  unlinkFails : ℕ → Bool
  /-- Is there a file of this name? -/
  existsSync : ℕ → JsString → Bool
  /-- What is in the file of this name? -/
  readFile : ℕ → JsString → FileRead

variable (E : StoreEnv)

/-- The bytes of a value as JSON; `none` where it cannot be written. -/
def serializedBytes (v : Json) : Option ℕ := (E.stringify v).map utf8Length

/-! ## Continuations and their records -/

/-- What is known of a continuation wherever it is kept. -/
structure EntryHead where
  createdAt : ℚ
  /-- The task it belongs to. -/
  clientThreadId : Option JsString
  /-- Where the output of the provider begins. -/
  providerOutputStart : Option ℕ
  providers : Option Json
  /-- It is kept for a pending tool call only. -/
  unforcedStoreFalse : Bool

/-- A continuation with its items. -/
structure ResidentInput extends EntryHead where
  items : List Json

/-- A reference to a spill file. -/
structure ResponseSpillRef where
  fileName : JsString
  /-- The SHA-256 of its text. -/
  digest : JsString
  payloadBytes : ℕ
  deriving DecidableEq

/-- A member that is there only if it has a value. -/
def optional (name : JsString) (v : Option Json) : List (JsString × Json) :=
  (v.map fun v ↦ (name, v)).toList

def EntryHead.thread (e : EntryHead) : List (JsString × Json) :=
  optional (js "clientThreadId") ((e.clientThreadId.filter (· ≠ [])).map .str)

def EntryHead.rest (e : EntryHead) : List (JsString × Json) :=
  optional (js "providerOutputStart") (e.providerOutputStart.map fun n ↦ .num n) ++
    (optional (js "providers") e.providers ++
      optional (js "unforcedStoreFalse") (if e.unforcedStoreFalse then some (.bool true) else none))

/-- The members of a continuation, items and all. -/
def ResidentInput.members (e : ResidentInput) : List (JsString × Json) :=
  (js "createdAt", .num e.createdAt) :: (e.thread ++ (js "items", .arr e.items) :: e.rest)

def ResponseSpillRef.json (ref : ResponseSpillRef) : Json :=
  .obj [(js "version", .num 1), (js "fileName", .str ref.fileName), (js "digest", .str ref.digest),
    (js "payloadBytes", .num ref.payloadBytes)]

/-- The members that stand for a spilled continuation. -/
def stubMembers (e : EntryHead) (ref : ResponseSpillRef) : List (JsString × Json) :=
  (js "kind", .str (js "spill")) :: (js "createdAt", .num e.createdAt) ::
    (e.thread ++ e.rest ++ [(js "spill", ref.json)])

/-- The members that stand for a continuation that was lost. -/
def tombstoneMembers (createdAt : ℚ) : List (JsString × Json) :=
  [(js "kind", .str (js "spill-failed")), (js "createdAt", .num createdAt)]

/-- The size of a continuation in memory. -/
def residentSize (id : ResponseId) (e : ResidentInput) : Option ℕ :=
  serializedBytes E (.obj ((js "responseId", .str id) :: e.members))

def stubSize (id : ResponseId) (e : EntryHead) (ref : ResponseSpillRef) : ℕ :=
  (serializedBytes E (.obj ((js "responseId", .str id) :: stubMembers e ref))).getD 0

def tombstoneSize (id : ResponseId) (createdAt : ℚ) : ℕ :=
  (serializedBytes E (.obj ((js "responseId", .str id) :: tombstoneMembers createdAt))).getD 0

/-! ## Spill files -/

/-- What a spill file says. -/
def spillPayload (id : ResponseId) (e : ResidentInput) : Json :=
  .obj ((js "version", .num 1) :: (js "responseId", .str id) :: e.members)

/-- The text of a spill file. -/
def serializedSpill (id : ResponseId) (e : ResidentInput) : Option JsString :=
  E.stringify (spillPayload id e)

def prospectiveResponseSpillBytes (id : ResponseId) (e : ResidentInput) : Option ℕ :=
  (serializedSpill E id e).map utf8Length

/-- Write a spill file, at the given question to the disk. -/
def writeResponseSpillDurably (tick : ℕ) (id : ResponseId) (e : ResidentInput) :
    Option ResponseSpillRef :=
  (serializedSpill E id e).bind fun text ↦
    (E.publish tick).map fun fileName ↦ ⟨fileName, E.sha256 text, utf8Length text⟩

/-! ## Reading a spill file back -/

def MAX_SAFE_INTEGER : ℕ := 2 ^ 53 - 1

def isHexLower (c : CodeUnit) : Bool := (0x30 ≤ c && c ≤ 0x39) || (0x61 ≤ c && c ≤ 0x66)

def isDecimal (c : CodeUnit) : Bool := 0x30 ≤ c && c ≤ 0x39

/-- A letter, a digit, `.`, `_` or `-`. -/
def isNameUnit (c : CodeUnit) : Bool :=
  isDecimal c || (0x41 ≤ c && c ≤ 0x5a) || (0x61 ≤ c && c ≤ 0x7a) || c == 0x2e || c == 0x5f ||
    c == 0x2d

/-- So many lower-case hexadecimal digits. -/
def isHex (n : ℕ) (s : JsString) : Bool := s.length == n && s.all isHexLower

/-- The value of a run of decimal digits. -/
def decimalValue (s : JsString) : ℕ := s.foldl (fun n c ↦ 10 * n + (c.toNat - 0x30)) 0

/-- The groups of `OWNED_SPILL_NAME` that are looked at. -/
structure SpillName where
  idDigest : JsString
  contentDigest : JsString
  generation : JsString
  bytes : JsString

/-- `OWNED_SPILL_NAME`.  Only its first group can have dots in it, so the others are found from the
end. -/
def ownedSpillName (name : JsString) : Option SpillName :=
  match (name.splitOn 0x2e).reverse with
  | json :: spill :: bytes :: generation :: contentDigest :: idDigest :: visible =>
    let first : JsString := [0x2e].intercalate visible.reverse
    if json = js "json" ∧ spill = js "spill" ∧ bytes ≠ [] ∧ bytes.all isDecimal ∧
        generation ≠ [] ∧ generation.all isDecimal ∧ isHex 24 contentDigest ∧ isHex 12 idDigest ∧
        first ≠ [] ∧ first.length ≤ 80 ∧ first.all isNameUnit then
      some ⟨idDigest, contentDigest, generation, bytes⟩
    else none
  | _ => none

def validSpillRef (ref : ResponseSpillRef) : Bool :=
  (ownedSpillName ref.fileName).isSome && isHex 64 ref.digest &&
    decide (ref.payloadBytes ≤ MAX_SAFE_INTEGER)

/-- A string that is not too long, and not empty. -/
def bounded (v : Option Json) (max : ℕ) : Bool :=
  match v with
  | some (.str s) => s ≠ [] && s.length ≤ max
  | _ => false

/-- A string made of a word, a colon and 64 hexadecimal digits. -/
def isIdentity (v : Option Json) (words : List JsString) : Bool :=
  match v with
  | some (.str s) => words.any fun word ↦
      (word ++ [0x3a]).isPrefixOf s && isHex 64 (s.drop (word.length + 1))
  | _ => false

def isValidProviderContinuationOwner (v : Json) : Bool :=
  v.members?.isSome && (match v.field? (js "version") with | some (.num q) => q == 1 | _ => false) &&
    bounded (v.field? (js "providerName")) 256 &&
    isIdentity (v.field? (js "providerDestinationIdentity")) [js "destination"] &&
    bounded (v.field? (js "adapterName")) 128 && bounded (v.field? (js "modelId")) 512 &&
    isIdentity (v.field? (js "credentialIdentity")) [js "key", js "oauth", js "codex"]

/-- Every provider's state is an object, and the owner is a proper one. -/
def validProviders (v : Json) : Bool :=
  match v.members? with
  | none => false
  | some members => members.all fun (name, state) ↦
      if name = js "__ocxOwner" then isValidProviderContinuationOwner state
      else state.members?.isSome

/-- The safe integers from 0 to a bound. -/
def safeIndex (v : Json) (bound : ℕ) : Option ℕ :=
  match v with
  | .num q => if q.den = 1 ∧ 0 ≤ q.num ∧ q.num.toNat ≤ MAX_SAFE_INTEGER ∧ q.num.toNat ≤ bound then
      some q.num.toNat else none
  | _ => none

/-- The names a spill file may have at its top. -/
def payloadNames : List JsString :=
  [js "version", js "responseId", js "createdAt", js "clientThreadId", js "items",
    js "providerOutputStart", js "providers", js "unforcedStoreFalse"]

/-- `validPayload`, and the continuation a valid payload says. -/
def validPayload (v : Json) (id : ResponseId) : Option ResidentInput := do
  let members ← v.members?
  guard (members.all fun m ↦ payloadNames.contains m.1)
  match v.field? (js "version"), v.field? (js "responseId"), v.field? (js "createdAt"),
      v.field? (js "items") with
  | some (.num version), some (.str responseId), some (.num createdAt), some (.arr items) =>
    guard (version = 1 ∧ responseId = id)
    let clientThreadId ← match v.field? (js "clientThreadId") with
      | none => some none
      | some (.str thread) => if trim thread = [] then none else some (some thread)
      | some _ => none
    let unforcedStoreFalse ← match v.field? (js "unforcedStoreFalse") with
      | none => some false
      | some (.bool b) => some b
      | some _ => none
    let providerOutputStart ← match v.field? (js "providerOutputStart") with
      | none => some none
      | some anchor => (safeIndex anchor items.length).map some
    guard (unforcedStoreFalse = true → providerOutputStart ≠ none)
    let providers := v.field? (js "providers")
    guard (providers.all validProviders)
    some { createdAt, clientThreadId, providerOutputStart, providers, unforcedStoreFalse, items }
  | _, _, _, _ => none

/-- Why a spill file could not be read. -/
inductive SpillReadFailure where
  | missing
  | corrupt
  | too_large
  deriving DecidableEq

/-- Read a spill file, at the given question to the disk. -/
def readResponseSpill (tick : ℕ) (id : ResponseId) (ref : ResponseSpillRef) :
    Except SpillReadFailure ResidentInput :=
  if ¬ validSpillRef ref then .error .corrupt
  else if E.responseSpillPayloadCap < ref.payloadBytes then .error .too_large
  else
    match ownedSpillName ref.fileName with
    | none => .error .corrupt
    | some name =>
      if name.idDigest ≠ (E.sha256 id).take 12 ∨ name.contentDigest ≠ ref.digest.take 24 ∨
          decimalValue name.generation = 0 ∨ MAX_SAFE_INTEGER < decimalValue name.generation ∨
          decimalValue name.bytes ≠ ref.payloadBytes then .error .corrupt
      else
        match E.readFile tick ref.fileName with
        | .missing => .error .missing
        | .unreadable => .error .corrupt
        | .contents text =>
          if utf8Length text ≠ ref.payloadBytes ∨ E.sha256 text ≠ ref.digest then .error .corrupt
          else
            match (parse text).bind (validPayload · id) with
            | none => .error .corrupt
            | some e => .ok e

end Responses
