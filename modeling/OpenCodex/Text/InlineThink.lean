import OpenCodex.Text.Search

/-!
# Thinking that was left inline

Some gateways leave a model's thinking in the visible content, as a `<think>` block, and
`InlineThinkTagParser` takes it out again while the content streams.  It is `pre` until it has seen
whether the content begins with an open tag, leading whitespace apart; `thinking` in a block; and
then `scanning` for further blocks, in the interleaved mode, or `streaming` whatever follows.

What a later chunk may still decide is carried: leading whitespace, the beginning of an open tag,
and in a block as many units as a close tag may have.  The reservations for what is carried are left
out; a parser may be built without a budget, and one that refuses ends the turn.
-/

set_option autoImplicit false

namespace Text

open Bridge (AdapterEvent isTrimmed trimStart)

inductive ThinkingTag where
  | thinking
  | think
  | reasoning
  deriving DecidableEq

namespace ThinkingTag

def name : ThinkingTag → JsString
  | thinking => js "thinking"
  | think => js "think"
  | reasoning => js "reasoning"

/-- The open tag as it is written. -/
def text (tag : ThinkingTag) : JsString := js "<" ++ (tag.name ++ js ">")

end ThinkingTag

inductive ParserState where
  | pre
  | thinking
  | scanning
  | streaming
  deriving DecidableEq

def openTags : List ThinkingTag := [.thinking, .think, .reasoning]

def closeTagFor (openTag : ThinkingTag) : JsString := js "</" ++ openTag.text.drop 1

def maxOpenTag : ℕ := (openTags.map fun t ↦ t.text.length).foldl max 0

def maxCloseTag : ℕ := (openTags.map fun t ↦ (closeTagFor t).length).foldl max 0

def isPossibleOpenTagPrefix (text : JsString) : Bool :=
  openTags.any fun tag ↦ text.isPrefixOf tag.text && decide (text.length < tag.text.length)

/-- Move a boundary back one unit rather than splitting a surrogate pair. -/
def surrogateSafeCut (text : JsString) (cut : ℕ) : ℕ :=
  if cut = 0 ∨ text.length ≤ cut then min cut text.length
  else
    match text[cut - 1]? with
    | some atCut => if 0xd800 ≤ atCut ∧ atCut ≤ 0xdbff then cut - 1 else cut
    | none => cut

/-- The open tag at a place. -/
def openTagAt (input : JsString) (i : ℕ) : Option ThinkingTag :=
  openTags.find? fun tag ↦ tag.text.isPrefixOf (input.drop i)

/-- From `<` to `<`, up to one that an open tag begins with; a turn for every unit is enough. -/
def findOpenTag (input : JsString) : ℕ → Option ℕ → Option (ℕ × ThinkingTag)
  | 0, _ | _ + 1, none => none
  | turns + 1, some openIndex =>
    match openTagAt input openIndex with
    | some tag => some (openIndex, tag)
    | none => findOpenTag input turns (indexOfFrom (js "<") input (openIndex + 1))

structure InlineThinkTagParser where
  interleaved : Bool
  state : ParserState := .pre
  preWhitespaceChunks : List JsString := []
  preWhitespaceLength : ℕ := 0
  preBuffer : JsString := []
  thinkingBuffer : JsString := []
  closeTag : JsString := []

namespace InlineThinkTagParser

def appendPreWhitespace (text : JsString) (p : InlineThinkTagParser) : InlineThinkTagParser :=
  if text = [] then p
  else
    { p with
      preWhitespaceChunks := p.preWhitespaceChunks ++ [text]
      preWhitespaceLength := p.preWhitespaceLength + text.length }

/-- The leading whitespace, where it is wanted; it is forgotten in any case. -/
def finishPreWhitespace (emit : Bool) (p : InlineThinkTagParser) :
    InlineThinkTagParser × JsString :=
  if p.preWhitespaceLength = 0 then (p, [])
  else
    ({ p with preWhitespaceChunks := [], preWhitespaceLength := 0 },
      if emit then p.preWhitespaceChunks.flatten else [])

/-- The events with a delta behind, where there is any. -/
def pushText (events : List AdapterEvent) (text : JsString) : List AdapterEvent :=
  if text = [] then events else events ++ [.textDelta text none none]

def pushReasoning (events : List AdapterEvent) (text : JsString) : List AdapterEvent :=
  if text = [] then events else events ++ [.reasoningRawDelta text]

/-- The loop over the tags in a chunk, from an offset on; a turn for every unit is enough. -/
def drainChunk (input : JsString) : ℕ → ℕ → List AdapterEvent → InlineThinkTagParser →
    InlineThinkTagParser × List AdapterEvent
  | 0, _, events, p => (p, events)
  | turns + 1, offset, events, p =>
    match p.state with
    | .thinking =>
      match indexOfFrom p.closeTag input offset with
      | some idx =>
        let events := pushReasoning events (input.slice offset (idx - offset))
        let offset := idx + p.closeTag.length
        if !p.interleaved then
          ({ p with state := .streaming }, pushText events (trimStart (input.drop offset)))
        else drainChunk input turns offset events { p with state := .scanning }
      | none =>
        let cut := max offset (surrogateSafeCut input (input.length - maxCloseTag))
        ({ p with thinkingBuffer := input.drop cut },
          pushReasoning events (input.slice offset (cut - offset)))
    | _ =>
      match findOpenTag input (input.length + 1) (indexOfFrom (js "<") input offset) with
      | some (openIndex, openTag) =>
        drainChunk input turns (openIndex + openTag.text.length)
          (pushText events (input.slice offset (openIndex - offset)))
          { p with state := .thinking, closeTag := closeTagFor openTag }
      | none =>
        let cut := max offset (surrogateSafeCut input (input.length - (maxOpenTag - 1)))
        ({ p with preBuffer := input.drop cut },
          pushText events (input.slice offset (cut - offset)))

def drain (input : JsString) (start : ℕ) (events : List AdapterEvent) (p : InlineThinkTagParser) :
    InlineThinkTagParser × List AdapterEvent :=
  drainChunk input (input.length + 1) start events p

/-- What is known of the beginning now: an open tag, the beginning of one, or neither. -/
def decideStart (input : JsString) (p : InlineThinkTagParser) :
    InlineThinkTagParser × List AdapterEvent :=
  match openTagAt input 0 with
  | some openTag =>
    let (p, leading) := p.finishPreWhitespace p.interleaved
    drain input openTag.text.length (pushText [] leading)
      { p with state := .thinking, closeTag := closeTagFor openTag }
  | none =>
    if input.length ≤ maxOpenTag && isPossibleOpenTagPrefix input then
      ({ p with preBuffer := input }, [])
    else
      let (p, leading) := { p with state := .streaming }.finishPreWhitespace true
      (p, [.textDelta (leading ++ input) none none])

def feed (text : JsString) (p : InlineThinkTagParser) : InlineThinkTagParser × List AdapterEvent :=
  if text = [] then (p, [])
  else
    match p.state with
    | .streaming => (p, [.textDelta text none none])
    | .pre =>
      if p.preBuffer ≠ [] then decideStart (p.preBuffer ++ text) { p with preBuffer := [] }
      else
        let stripped := trimStart text
        let p := p.appendPreWhitespace (text.take (text.length - stripped.length))
        if stripped = [] then (p, []) else decideStart stripped p
    | .thinking => drain (p.thinkingBuffer ++ text) 0 [] { p with thinkingBuffer := [] }
    | .scanning => drain (p.preBuffer ++ text) 0 [] { p with preBuffer := [] }

def flush (p : InlineThinkTagParser) : InlineThinkTagParser × List AdapterEvent :=
  if p.state = .thinking then
    ({ p with thinkingBuffer := [], state := .streaming }, pushReasoning [] p.thinkingBuffer)
  else if 0 < p.preWhitespaceLength ∨ p.preBuffer ≠ [] then
    let (q, leading) := p.finishPreWhitespace true
    ({ q with preBuffer := [], state := .streaming },
      [.textDelta (leading ++ p.preBuffer) none none])
  else (p, [])

/-- Feed the chunks, then flush. -/
def run : List JsString → InlineThinkTagParser → List AdapterEvent
  | [], p => p.flush.2
  | chunk :: chunks, p => (p.feed chunk).2 ++ run chunks (p.feed chunk).1

end InlineThinkTagParser

end Text
