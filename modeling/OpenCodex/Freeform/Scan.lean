import OpenCodex.Bridge.Events

/-!
# Which wrapper a freeform input is in

A freeform tool takes a text, but a model calls it with JSON arguments, so the text arrives inside
an object: as the member `input`, or as the only member with one of a few other names.
`unwrapFreeformToolInput` takes it out of the complete arguments, with `JSON.parse`.
`scanFreeformWrapper` has to say the same of arguments that are still arriving: it reads as much of
an object as is there, with a reader of its own that finds where strings, numbers and whole values
end and does not keep what they are.

An index into the text is here what stands from it on.  A reader gives what stands behind what it
read, or says that the text ends too early (`Scan.hold`), or that no JSON goes on like this
(`Scan.never`).
-/

set_option autoImplicit false

namespace Freeform

/-! ## Where tokens end -/

/-- An index at or behind something, or one of the two marks. -/
inductive Scan (α : Type) where
  | at (a : α)
  /-- `HOLD`: the buffer ends inside a token. -/
  | hold
  /-- `NEVER`: `JSON.parse` rejects the text no matter what is appended. -/
  | never
  deriving DecidableEq

/-- A further reader goes on from the index, unless it is a mark. -/
def Scan.bind {α β : Type} (x : Scan α) (f : α → Scan β) : Scan β :=
  match x with
  | .at a => f a
  | .hold => .hold
  | .never => .never

/-- `JSON_WHITESPACE` -/
def jsonWhitespace : List CodeUnit := [0x20, 0x09, 0x0a, 0x0d]

/-- `JSON_ESCAPES`: the two-character escapes JSON defines. -/
def jsonEscapes : List (CodeUnit × CodeUnit) :=
  [(0x22, 0x22), (0x5c, 0x5c), (0x2f, 0x2f), (0x62, 0x08), (0x66, 0x0c), (0x6e, 0x0a), (0x72, 0x0d),
    (0x74, 0x09)]

/-- `MAX_FREEFORM_WRAPPER_SCAN_CHARS` -/
def maxFreeformWrapperScanChars : ℕ := 4096

/-- `CANONICAL_KEY` -/
def canonicalKey : JsString := js "input"

/-- The first unit at or after an index that is no whitespace. -/
def skipWhitespace : JsString → Scan JsString
  | [] => .hold
  | c :: l => if c ∈ jsonWhitespace then skipWhitespace l else .at (c :: l)

/-- `[0-9a-fA-F]` -/
def isHexDigit (c : CodeUnit) : Bool :=
  (0x30 ≤ c && c ≤ 0x39) || (0x61 ≤ c && c ≤ 0x66) || (0x41 ≤ c && c ≤ 0x46)

/-- What stands behind a string whose opening quote is in front of the text. -/
def scanString : JsString → Scan JsString
  | [] => .hold
  | c :: l =>
    if c = 0x22 then .at l
    else if c = 0x5c then
      match l with
      | [] => .hold
      | n :: l =>
        if n = 0x75 then
          match l with
          | d₁ :: d₂ :: d₃ :: d₄ :: l =>
            if [d₁, d₂, d₃, d₄].all isHexDigit then scanString l else .never
          | _ => .hold
        else if n ∈ jsonEscapes.map (·.1) then scanString l
        else .never
    else if c ≤ 0x1f then .never
    else scanString l

/-! ## Numbers -/

/-- `[0-9]` -/
def isDigit (c : CodeUnit) : Bool := 0x30 ≤ c && c ≤ 0x39

/-- `JSON_NUMBER_CHARS`: `[-+0-9.eE]` -/
def isNumberChar (c : CodeUnit) : Bool :=
  c == 0x2d || c == 0x2b || isDigit c || c == 0x2e || c == 0x65 || c == 0x45

/-- `[0-9]*` and then the rest. -/
def digitsThen (rest : JsString → Bool) : JsString → Bool
  | [] => rest []
  | c :: l => if isDigit c then digitsThen rest l else rest (c :: l)

/-- `[0-9]+` and then the rest. -/
def someDigitsThen (rest : JsString → Bool) : JsString → Bool
  | [] => false
  | c :: l => isDigit c && digitsThen rest l

/-- `[+-]?[0-9]+$` -/
def exponentDigits : JsString → Bool
  | [] => false
  | c :: l =>
    if c = 0x2b ∨ c = 0x2d then someDigitsThen List.isEmpty l
    else someDigitsThen List.isEmpty (c :: l)

/-- `(?:[eE][+-]?[0-9]+)?$` -/
def exponentPart : JsString → Bool
  | [] => true
  | c :: l => (c == 0x65 || c == 0x45) && exponentDigits l

/-- `(?:\.[0-9]+)?` and then the exponent. -/
def fractionPart : JsString → Bool
  | [] => true
  | c :: l => if c = 0x2e then someDigitsThen exponentPart l else exponentPart (c :: l)

/-- `(?:0|[1-9][0-9]*)` and then the fraction. -/
def wholePart : JsString → Bool
  | [] => false
  | c :: l => if c = 0x30 then fractionPart l else isDigit c && digitsThen fractionPart l

/-- `JSON_NUMBER`: `^-?(?:0|[1-9][0-9]*)(?:\.[0-9]+)?(?:[eE][+-]?[0-9]+)?$` -/
def jsonNumber : JsString → Bool
  | [] => false
  | c :: l => if c = 0x2d then wholePart l else wholePart (c :: l)

/-- What stands behind a number. -/
def scanNumber (text : JsString) : Scan JsString :=
  let number := text.takeWhile isNumberChar
  let rest := text.dropWhile isNumberChar
  if number = [] then .never
  else if rest = [] then .hold
  else if jsonNumber number then .at rest
  else .never

/-! ## Where values end -/

/-- What stands behind `true`, `false` or `null`. -/
def scanLiteral (literal text : JsString) : Scan JsString :=
  if literal.isPrefixOf text then .at (text.drop literal.length)
  else if text.isPrefixOf literal then .hold
  else .never

/-- What stands behind one complete scalar. -/
def scanScalar : JsString → Scan JsString
  | [] => .never
  | c :: l =>
    if c = 0x22 then scanString l
    else if c = 0x74 then scanLiteral (js "true") (c :: l)
    else if c = 0x66 then scanLiteral (js "false") (c :: l)
    else if c = 0x6e then scanLiteral (js "null") (c :: l)
    else scanNumber (c :: l)

/-- Where the value of the member begins whose name opens at an index. -/
def scanMemberKey : JsString → Scan JsString
  | [] => .never
  | c :: l =>
    if c ≠ 0x22 then .never
    else (scanString l).bind fun nameEnd ↦ (skipWhitespace nameEnd).bind fun colon ↦
      if colon.head? ≠ some 0x3a then .never else skipWhitespace colon.tail

/-- One value is complete: what it finished is closed, and the next value is read from where it
begins, if there is one. -/
def closeLoop (next : List CodeUnit → JsString → Scan JsString) :
    List CodeUnit → JsString → Scan JsString
  | [], l => .at l
  | closer :: closers, l => (skipWhitespace l).bind fun at' ↦
    if at'.head? = some closer then closeLoop next closers at'.tail
    else if at'.head? ≠ some 0x2c then .never
    else (skipWhitespace at'.tail).bind fun l ↦
      if closer = 0x7d then (scanMemberKey l).bind (next (closer :: closers))
      else next (closer :: closers) l

/-- What stands behind one complete value, and behind the containers it is in, given by the units
that close them. -/
def scanValues : ℕ → List CodeUnit → JsString → Scan JsString
  | 0, _, _ => .hold
  | turns + 1, closers, l =>
    if l.head? = some 0x7b ∨ l.head? = some 0x5b then
      let closer := if l.head? = some 0x7b then 0x7d else 0x5d
      (skipWhitespace l.tail).bind fun first ↦
        if first.head? = some closer then closeLoop (scanValues turns) closers first.tail
        else if closer = 0x7d then (scanMemberKey first).bind (scanValues turns (closer :: closers))
        else scanValues turns (closer :: closers) first
    else (scanScalar l).bind (closeLoop (scanValues turns) closers)

/-- What stands behind one complete value: every turn of the loop takes a unit at least. -/
def scanValue (text : JsString) : Scan JsString := scanValues (text.length + 1) [] text

/-! ## The wrapper -/

/-- What the scan remembers of a member. -/
structure Member where
  stringValue : Bool
  valueStart : ℕ
  deriving DecidableEq

/-- The members so far, by name; the last one first, which is the one that counts. -/
abbrev Members := List (JsString × Member)

/-- What the completed text will unwrap to, as far as can be said. -/
inductive FreeformWrapperScan where
  | hold
  | raw
  | input (valueStart : ℕ)
  deriving DecidableEq

/-- The object closed without a canonical key. -/
def afterTopLevelClose (text : JsString) (members : Members) (fallbackKeys : List JsString)
    (wholeText : Bool) : FreeformWrapperScan :=
  if skipWhitespace text ≠ .hold then .raw
  else if wholeText = false then .hold
  else
    match fallbackKeys.filterMap fun key ↦ (members.lookup key).filter (·.stringValue) with
    | [m] => .input m.valueStart
    | _ => .raw

/-- What a mark says of the wrapper; where it is an index, the scan goes on. -/
def Scan.wrapper {α : Type} (x : Scan α) (f : α → FreeformWrapperScan) : FreeformWrapperScan :=
  match x with
  | .at a => f a
  | .hold => .hold
  | .never => .raw

/-- The index of what stands at the end of a text. -/
def indexIn (text rest : JsString) : ℕ := text.length - rest.length

/-- The members of the object from an index on. -/
def scanMembers (bounded : JsString) (fallbackKeys : List JsString) (wholeText : Bool) :
    ℕ → Members → JsString → FreeformWrapperScan
  | 0, _, _ => .hold
  | turns + 1, members, l => (skipWhitespace l).wrapper fun at' ↦
    if at'.head? = some 0x7d then
      afterTopLevelClose at'.tail members fallbackKeys wholeText
    else if at'.head? ≠ some 0x22 then .raw
    else (scanString at'.tail).wrapper fun nameEnd ↦
      match Json.parse (at'.take (at'.length - nameEnd.length)) with
      | some (.str name) => (skipWhitespace nameEnd).wrapper fun colon ↦
        if colon.head? ≠ some 0x3a then .raw
        else (skipWhitespace colon.tail).wrapper fun valueAt ↦
          let stringValue := valueAt.head? == some 0x22
          let valueStart := indexIn bounded valueAt + 1
          if name = canonicalKey then if stringValue then .input valueStart else .raw
          else
            let members := (name, ⟨stringValue, valueStart⟩) :: members
            (scanValue valueAt).wrapper fun valueEnd ↦
              (skipWhitespace valueEnd).wrapper fun next ↦
              if next.head? = some 0x2c then (skipWhitespace next.tail).wrapper fun member ↦
                if member.head? ≠ some 0x22 then .raw
                else scanMembers bounded fallbackKeys wholeText turns members member
              else if next.head? = some 0x7d then
                afterTopLevelClose next.tail members fallbackKeys wholeText
              else .raw
      | _ => .raw

/-- Which wrapper the completed text will unwrap to, as far as this prefix can say. -/
def scanFreeformWrapper (text : JsString) (fallbackKeys : List JsString) : FreeformWrapperScan :=
  let wholeText : Bool := text.length ≤ maxFreeformWrapperScanChars
  let bounded := if wholeText then text else text.take maxFreeformWrapperScanChars
  (skipWhitespace bounded).wrapper fun l ↦
    if l.head? ≠ some 0x7b then .raw
    else scanMembers bounded fallbackKeys wholeText (bounded.length + 1) [] l.tail

/-! ## Completion -/

/-- `freeformFallbackKeys`: the names a tool's wrapper may unwrap through, besides `input`. -/
def freeformFallbackKeys (toolName : JsString) : List JsString :=
  if toolName = js "exec" then
    ["code", "script", "js", "javascript", "command", "cmd", "content"].map js
  else if toolName = js "apply_patch" then ["patch", "content"].map js
  else []

/-- The fence: three backticks. -/
def fence : JsString := js "```"

/-- The closing fence after the body: `\r?\n` and the backticks, to the end of the text. -/
def fenceBody (rest : JsString) : Option JsString :=
  if (0x0d :: 0x0a :: fence).isSuffixOf rest then some (rest.take (rest.length - 5))
  else if (0x0a :: fence).isSuffixOf rest then some (rest.take (rest.length - 4))
  else none

/-- `OUTER_MARKDOWN_CODE_FENCE`: the body of a text that is a fence, its info string, lines and a
fence. -/
def outerFenceBody (text : JsString) : Option JsString :=
  if fence.isPrefixOf text then
    match (text.drop 3).dropWhile fun c ↦ c ≠ 0x0d ∧ c ≠ 0x0a with
    | 0x0a :: rest => fenceBody rest
    | 0x0d :: 0x0a :: rest => fenceBody rest
    | _ => none
  else none

def stripMarkdownCodeFence (text toolName : JsString) : JsString :=
  if toolName ≠ js "exec" ∧ toolName ≠ js "apply_patch" then text
  else (outerFenceBody (Bridge.trim text)).getD text

/-- The string of a value that is one. -/
def string? : Json → Option JsString
  | .str s => some s
  | _ => none

/-- `unwrapFreeformToolInput` with the names the tool may unwrap through. -/
def unwrapThrough (fallbackKeys : List JsString) (argumentsText toolName : JsString) : JsString :=
  match Json.parse argumentsText with
  | some (.obj record) =>
    match Json.lookup record canonicalKey with
    | some (.str input) => stripMarkdownCodeFence input toolName
    | some _ => argumentsText
    | none =>
      match fallbackKeys.filterMap fun key ↦ (Json.lookup record key).bind string? with
      | [body] => stripMarkdownCodeFence body toolName
      | _ => stripMarkdownCodeFence argumentsText toolName
  | _ => stripMarkdownCodeFence argumentsText toolName

/-- Unwrap the `{input:string}` wrapper of a freeform tool. -/
def unwrapFreeformToolInput (argumentsText toolName : JsString) : JsString :=
  unwrapThrough (freeformFallbackKeys toolName) argumentsText toolName

end Freeform
