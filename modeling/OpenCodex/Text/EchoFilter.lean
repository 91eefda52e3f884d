import OpenCodex.Text.Search

/-!
# Echoed tool envelopes

A model that has been shown tool results as text may write such an envelope itself.  It is
recognised by a marker that stands alone on a line, unless the line is inside of a fenced code block
that is closed: there it is code that is shown.

Two places recognise it.  For text that is complete, `closedFenceLines` says which lines are code.
For text that is still being written there is `ToolEnvelopeEchoFilter`, which reads a character at a
time and cannot know yet whether a block is going to be closed; so from a marker in an open block on
it holds what it reads, until the block is closed or the text has ended.
-/

set_option autoImplicit false

namespace Text

open Bridge (trim trimStart isTrimmed)

/-! ## Lines -/

def markers : List JsString :=
  [js "[Tool Result]", js "[Tool Error]", js "[tool_result]", js "[Tool Call]", js "[Tool call:"]

def unterminatedMarkers : List JsString :=
  [js "[Tool Result", js "[Tool Error", js "[tool_result", js "[Tool Call"]

def wholeLineMarkers : List JsString := markers ++ unterminatedMarkers

def toolCallLine : JsString := js "[Tool call:"

def maxIndent : ℕ := 128

def maxFenceIndent : ℕ := 3

def maxFenceLine : ℕ := 1024

def maxHeldChars : ℕ := 64 * 1024

def newline : CodeUnit := 0x0a

/-- `text.trimEnd()` -/
def trimEnd (text : JsString) : JsString := (trimStart text.reverse).reverse

def isIndent (c : CodeUnit) : Bool := c == 0x20 || c == 0x09

/-- `line.replace(/^[ \t]*/, "")` -/
def dropIndent (line : JsString) : JsString := line.dropWhile isIndent

/-- How much is indented. -/
def indentOf (line : JsString) : ℕ := line.length - (dropIndent line).length

/-- A line that is a marker on its own, or a call line. -/
def isWholeLineEchoMarker (line : JsString) : Bool :=
  let trimmed := trimEnd (dropIndent line)
  wholeLineMarkers.contains trimmed || toolCallLine.isPrefixOf trimmed

structure FenceLine where
  char : CodeUnit
  length : ℕ
  rest : JsString
  deriving DecidableEq

/-- `text.replace(/\r$/, "")` -/
def dropReturn (text : JsString) : JsString :=
  if text.getLast? = some 0x0d then text.dropLast else text

/-- `text.replace(/\r?\n?$/, "")` -/
def dropLineEnd (text : JsString) : JsString :=
  dropReturn (if text.getLast? = some newline then text.dropLast else text)

/-- `text.replace(/\r?\n$/, "")` -/
def dropNewline (text : JsString) : JsString :=
  if text.getLast? = some newline then dropReturn text.dropLast else text

/-- `/^(\x60{3,}|~{3,})(.*)$/s` -/
def fenceLine (probe : JsString) : Option FenceLine :=
  match probe with
  | [] => none
  | char :: _ =>
    let run := probe.takeWhile (· == char)
    if (char = 0x60 ∨ char = 0x7e) ∧ 3 ≤ run.length then
      some ⟨char, run.length, probe.drop run.length⟩
    else none

def parseFenceLine (line : JsString) : Option FenceLine :=
  if indentOf line > maxFenceIndent then none else fenceLine (dropLineEnd (dropIndent line))

def opensFence (line : FenceLine) : Bool := !(line.char == 0x60 && line.rest.contains 0x60)

/-- Whether a line closes a block that was opened with so many of a character. -/
def closesFence (line : FenceLine) (char : CodeUnit) (length : ℕ) : Bool :=
  line.char == char && decide (length ≤ line.length) && decide (trim line.rest = [])

/-! ## Complete text -/

/-- The state of `closedFenceLines`: what is shielded so far, and the block that is open. -/
structure Shielding where
  shielded : List Bool
  /-- Its character, its length, and the line it was opened on. -/
  opened : Option (CodeUnit × ℕ × ℕ)

/-- A turn of the loop over the lines. -/
def Shielding.line (s : Shielding) (index : ℕ) (text : JsString) : Shielding :=
  match s.opened with
  | none =>
    match parseFenceLine text with
    | some fence =>
      if opensFence fence then ⟨s.shielded, some (fence.char, fence.length, index)⟩ else s
    | none => s
  | some (char, length, start) =>
    match parseFenceLine text with
    | some fence =>
      if closesFence fence char length then
        ⟨s.shielded.mapIdx fun i b ↦ if start ≤ i ∧ i ≤ index then true else b, none⟩
      else s
    | none => s

def closedFenceLines (lines : List JsString) : List Bool :=
  (lines.zipIdx.foldl (fun (s : Shielding) l ↦ s.line l.2 l.1)
    ⟨lines.map fun _ ↦ false, none⟩).shielded

/-! ## Text that is being written -/

/-- The block that is open. -/
structure Fence where
  char : CodeUnit
  length : ℕ
  holdDisabled : Bool
  /-- Its hold overflowed. -/
  overflowed : Bool
  deriving DecidableEq

structure ToolEnvelopeEchoFilter where
  pending : JsString
  safeLine : Bool
  fence : Option Fence
  held : Option JsString
  matched : Bool
  unverifiedMarker : Bool
  deriving DecidableEq

namespace ToolEnvelopeEchoFilter

def new : ToolEnvelopeEchoFilter := ⟨[], false, none, none, false, false⟩

/-- Text goes out, or into the hold. -/
def emit (s : ToolEnvelopeEchoFilter) (text : JsString) : ToolEnvelopeEchoFilter × JsString :=
  match s.held with
  | none => (s, text)
  | some held =>
    if (held ++ text).length ≤ maxHeldChars then ({ s with held := some (held ++ text) }, [])
    else
      ({ s with
          held := none
          unverifiedMarker := true
          fence := s.fence.map fun f ↦ { f with holdDisabled := true, overflowed := true } },
        held ++ text)

def startHold (s : ToolEnvelopeEchoFilter) : ToolEnvelopeEchoFilter :=
  match s.fence, s.held with
  | some fence, none => if fence.holdDisabled then s else { s with held := some [] }
  | _, _ => s

def flushLineStart (s : ToolEnvelopeEchoFilter) : ToolEnvelopeEchoFilter :=
  { s with safeLine := true }

/-- `this.emit(this.takePending())` -/
def emitPending (s : ToolEnvelopeEchoFilter) : ToolEnvelopeEchoFilter × JsString :=
  { s with pending := [] }.emit s.pending

def completeLine (s : ToolEnvelopeEchoFilter) : ToolEnvelopeEchoFilter × JsString :=
  let raw := s.pending
  let s := { s with pending := [] }
  match parseFenceLine raw with
  | some line =>
    match s.fence with
    | none =>
      if opensFence line then
        { s with fence := some ⟨line.char, line.length, false, false⟩ }.emit raw
      else s.emit raw
    | some fence =>
      if closesFence line fence.char fence.length then
        let r := s.emit raw
        ({ r.1 with
            unverifiedMarker := if r.1.fence.any Fence.overflowed then false
              else r.1.unverifiedMarker
            held := none
            fence := none },
          r.2 ++ r.1.held.getD [])
      else s.emit raw
  | none =>
    let line := dropNewline (dropIndent raw)
    if indentOf raw ≤ maxIndent ∧ isWholeLineEchoMarker (trimEnd line) = true then
      if s.fence = none then ({ s with matched := true }, [])
      else s.startHold.emit raw
    else s.emit raw

/-- `/^(\x60{1,2}|~{1,2})$/` or `/^(\x60{3,}|~{3,})/`: what a fence line begins with. -/
def fenceStart (probe : JsString) : Bool :=
  probe == [0x60] || probe == [0x60, 0x60] || probe == [0x7e] || probe == [0x7e, 0x7e] ||
    [0x60, 0x60, 0x60].isPrefixOf probe || [0x7e, 0x7e, 0x7e].isPrefixOf probe

/-- A line that may still become a fence line or a marker. -/
def candidate (pending : JsString) : Bool :=
  let probe := dropIndent pending
  (decide (indentOf pending ≤ maxFenceIndent) && decide (pending.length ≤ maxFenceLine) &&
      fenceStart probe) ||
    (decide (indentOf pending ≤ maxIndent) &&
      (probe == [] || markers.any (probe.isPrefixOf ·) ||
        wholeLineMarkers.contains (trimEnd probe)))

/-- A turn of the loop over the characters. -/
def feedChar (s : ToolEnvelopeEchoFilter) (char : JsString) : ToolEnvelopeEchoFilter × JsString :=
  if s.matched then (s, [])
  else if s.safeLine then
    let r := s.emit char
    (if char = [newline] then { r.1 with safeLine := false } else r.1, r.2)
  else
    let s := { s with pending := s.pending ++ char }
    if char = [newline] then s.completeLine
    else if indentOf s.pending ≤ maxIndent ∧ dropIndent s.pending = toolCallLine then
      if s.fence = none then ({ s with pending := [], matched := true }, [])
      else s.startHold.flushLineStart.emitPending
    else if candidate s.pending then (s, [])
    else s.flushLineStart.emitPending

/-- The characters of a string, in the loop `for (const char of delta)`. -/
def codePoints : JsString → List JsString
  | [] => []
  | [c] => [[c]]
  | c :: d :: text =>
    if 0xd800 ≤ c ∧ c ≤ 0xdbff ∧ 0xdc00 ≤ d ∧ d ≤ 0xdfff then [c, d] :: codePoints text
    else [c] :: codePoints (d :: text)

def feedChars (s : ToolEnvelopeEchoFilter) : List JsString → ToolEnvelopeEchoFilter × JsString
  | [] => (s, [])
  | char :: chars =>
    let r := s.feedChar char
    let r' := feedChars r.1 chars
    (r'.1, r.2 ++ r'.2)

def feed (s : ToolEnvelopeEchoFilter) (delta : JsString) : ToolEnvelopeEchoFilter × JsString :=
  s.feedChars (codePoints delta)

def finish (s : ToolEnvelopeEchoFilter) : ToolEnvelopeEchoFilter × JsString :=
  if s.matched then (s, [])
  else
    let settled :=
      if s.pending ≠ [] ∧ (parseFenceLine s.pending).isSome then s.completeLine else (s, [])
    let s := settled.1
    let pending := s.pending
    let s := { s with pending := [] }
    if s.held ≠ none then ({ s with held := none, matched := true }, [])
    else if isWholeLineEchoMarker (dropIndent pending) then ({ s with matched := true }, settled.2)
    else (s, settled.2 ++ pending)

/-- A text in deltas, and its end: what has gone out, and whether an echo was found. -/
def run (s : ToolEnvelopeEchoFilter) : List JsString → JsString × Bool
  | [] => (s.finish.2, s.finish.1.matched)
  | delta :: deltas =>
    let r := s.feed delta
    let rest := run r.1 deltas
    (r.2 ++ rest.1, rest.2)

end ToolEnvelopeEchoFilter

end Text
