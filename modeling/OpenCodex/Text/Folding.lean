import OpenCodex.Bridge.Events
import OpenCodex.Data.Utf8Strict

/-!
# The view a credential label is looked for in

`foldForMatching` makes a copy of a text in which a label cannot hide: look-alikes are replaced by
the letters they look like, what is invisible is dropped, and an escape is what it stands for.  With
the copy goes a map that says for each unit of it where in the text it comes from, so that what is
found in the copy can be masked in the text.

What Unicode knows of a character (`FoldTables`) is a parameter: whether it is invisible, its
compatibility decomposition, its lower case.
-/

set_option autoImplicit false

namespace Text

open Json (digit? hexDigit?)

/-- A character is a string of one code point. -/
structure FoldTables where
  /-- `INVISIBLE_FORMAT.test(ch)` -/
  invisibleFormat : JsString → Bool
  /-- `ch.normalize("NFKD")` -/
  normalize : JsString → JsString
  /-- `ch.toLowerCase()` -/
  toLowerCase : JsString → JsString

/-! ## Look-alikes -/

def colonConfusables : List CodeUnit :=
  [0xff1a, 0xfe55, 0xfe13, 0xa789, 0x02d0, 0x2236, 0x205a, 0x0589, 0x1361, 0x16ec, 0x1803, 0x2982,
    0x2af6, 0xfe30]

/-- Latin look-alikes for the letters that appear in credential labels. -/
def letterConfusables : List (CodeUnit × JsString) :=
  [(0x0430, js "a"), (0x0435, js "e"), (0x043e, js "o"), (0x0440, js "p"), (0x0441, js "c"),
    (0x0445, js "x"), (0x0443, js "y"), (0x04bb, js "h"), (0x0455, js "s"), (0x0456, js "i"),
    (0x0458, js "j"), (0x043a, js "k"), (0x0442, js "t"), (0x0432, js "b"), (0x043c, js "m"),
    (0x043d, js "h"), (0x0501, js "d"), (0x0503, js "g"), (0x051b, js "q"), (0x051d, js "w"),
    (0x04cf, js "l"), (0x0261, js "g"), (0x04ab, js "c"), (0x04bd, js "e"), (0x0459, js "k"),
    (0x03b1, js "a"), (0x03bf, js "o"), (0x03c1, js "p"), (0x03bd, js "v"), (0x03ba, js "k"),
    (0x03b5, js "e"), (0x03c4, js "t"), (0x03b9, js "i"), (0x03c5, js "u"), (0x03c7, js "x"),
    (0x03b7, js "n"), (0x03bc, js "u"), (0x03c3, js "o"), (0x03b2, js "b"), (0x03b3, js "y"),
    (0x0131, js "i"), (0x0269, js "i"), (0x1d0f, js "o"), (0x0280, js "r"), (0x01bf, js "p"),
    (0x0578, js "n"), (0x057d, js "u"), (0x0585, js "o"), (0x0581, js "g"), (0x2044, js "/")]

/-- The named references that spell a separator. -/
def separatorEntities : List (JsString × JsString) :=
  [(js "colon", js ":"), (js "semi", js ";"), (js "equals", js "="), (js "quot", js "\""),
    (js "apos", js "'"), (js "lt", js "<"), (js "gt", js ">"), (js "amp", js "&"),
    (js "sol", js "/"), (js "lowbar", js "_"), (js "hyphen", js "-"), (js "dash", js "-"), (js "ndash", js "-"),
    (js "mdash", js "-"), (js "minus", js "-"), (js "period", js "."), (js "comma", js ","),
    (js "num", js "#"), (js "nbsp", js " ")]

/-- What any other named reference is folded to. -/
def namedEntityPlaceholder : JsString := [0x0001]

/-- `LETTER_CONFUSABLES.get(ch)` -/
def letterConfusable (ch : JsString) : Option JsString :=
  (letterConfusables.find? fun entry ↦ ch == [entry.1]).map Prod.snd

/-- What is emitted for a character. -/
def FoldTables.emittedText (T : FoldTables) (ch : JsString) : JsString :=
  let mapped :=
    if colonConfusables.any fun c ↦ ch == [c] then js ":"
    else
      (letterConfusable (T.toLowerCase ch)).getD
        (if (T.normalize ch).length = 1 then T.normalize ch else ch)
  if mapped.length = 1 then mapped else ch

/-! ## Escapes -/

/-- A character and how many units it is written with. -/
structure Escaped where
  ch : JsString
  width : ℕ
  deriving DecidableEq

/-- `/^\\u([0-9a-fA-F]{4})/`: the unit it stands for. -/
def jsonUnit : JsString → Option ℕ
  | backslash :: u :: a :: b :: c :: d :: _ =>
    if backslash = 0x5c ∧ u = 0x75 then
      match hexDigit? a, hexDigit? b, hexDigit? c, hexDigit? d with
      | some a, some b, some c, some d => some (a * 4096 + b * 256 + c * 16 + d)
      | _, _, _, _ => none
    else none
  | _ => none

def jsonEscape (l : JsString) : Option Escaped :=
  (jsonUnit l).map fun high ↦
    match jsonUnit (l.drop 6) with
    | some low =>
      if 0xd800 ≤ high ∧ high ≤ 0xdbff ∧ 0xdc00 ≤ low ∧ low ≤ 0xdfff then
        ⟨[UInt16.ofNat high, UInt16.ofNat low], 12⟩
      else ⟨[UInt16.ofNat high], 6⟩
    | none => ⟨[UInt16.ofNat high], 6⟩

/-- `/^(?:%[0-9a-fA-F]{2})+/`, as far as so many bytes. -/
def percentBytes : ℕ → JsString → List UInt8
  | n + 1, percent :: a :: b :: l =>
    if percent = 0x25 then
      match hexDigit? a, hexDigit? b with
      | some a, some b => UInt8.ofNat (a * 16 + b) :: percentBytes n l
      | _, _ => []
    else []
  | _, _ => []

/-- How many bytes are looked at: those in a slice of 24 units. -/
def percentWindow : ℕ := 8

/-- Only the bytes of the first character are consumed; where the window is no UTF-8, one byte. -/
def percentEscape (l : JsString) : Option Escaped :=
  match percentBytes percentWindow l with
  | [] => none
  | byte :: bytes =>
    match Utf8.decodeStrict (byte :: bytes) with
    | some (point :: _) => some ⟨Utf8.unitsOf point, (Utf8.encode point).length * 3⟩
    | some [] => none
    | none => some ⟨[UInt16.ofNat byte.toNat], 3⟩

/-- The number some digits stand for. -/
def digitsValue (base : ℕ) (digits : List ℕ) : ℕ := digits.foldl (fun n d ↦ n * base + d) 0

/-- `/^&#(x[0-9a-fA-F]{1,6}|[0-9]{1,7});/` -/
def xmlEscape : JsString → Option Escaped
  | amp :: hash :: l =>
    if amp = 0x26 ∧ hash = 0x23 then
      let hex := l.head? = some 0x78
      let written := if hex then l.drop 1 else l
      let digits := (written.takeWhile fun c ↦
        (if hex then hexDigit? c else digit? c).isSome)
      let code := digitsValue (if hex then 16 else 10)
        (digits.filterMap fun c ↦ if hex then hexDigit? c else digit? c)
      if 1 ≤ digits.length ∧ digits.length ≤ (if hex then 6 else 7) ∧
          written[digits.length]? = some 0x3b ∧ 0 < code ∧ code ≤ 0x10ffff then
        some ⟨Utf8.unitsOf code, digits.length + if hex then 4 else 3⟩
      else none
    else none
  | _ => none

def isAsciiLetter (c : CodeUnit) : Bool := (0x41 ≤ c && c ≤ 0x5a) || (0x61 ≤ c && c ≤ 0x7a)

/-- `/^&([A-Za-z][A-Za-z0-9]{1,31});/` -/
def namedEscape : JsString → Option Escaped
  | amp :: l =>
    let name := l.takeWhile fun c ↦ isAsciiLetter c || (digit? c).isSome
    if amp = 0x26 ∧ name.head?.any isAsciiLetter ∧ 2 ≤ name.length ∧ name.length ≤ 32 ∧
        l[name.length]? = some 0x3b then
      some ⟨((separatorEntities.find? fun entry ↦ entry.1 == Bridge.toLowerCase name).map
        Prod.snd).getD namedEntityPlaceholder, name.length + 2⟩
    else none
  | _ => none

/-- The escape a text begins with. -/
def decodeEscape (l : JsString) : Option Escaped :=
  (jsonEscape l).or ((percentEscape l).or ((xmlEscape l).or (namedEscape l)))

/-! ## Folding -/

/-- `String.fromCodePoint(value.codePointAt(i))` -/
def codePoint : JsString → JsString
  | high :: low :: _ =>
    if 0xd800 ≤ high ∧ high ≤ 0xdbff ∧ 0xdc00 ≤ low ∧ low ≤ 0xdfff then [high, low] else [high]
  | l => l

/-- The character a text begins with, or the one an escape there stands for. -/
def nextCharacter (decodeEscapes : Bool) (l : JsString) : Escaped :=
  ((if decodeEscapes then decodeEscape l else none)).getD ⟨codePoint l, (codePoint l).length⟩

/-- The loop over the characters, from a place on: what is emitted, and where it comes from; a turn
for every unit is enough. -/
def foldLoop (T : FoldTables) (decodeEscapes : Bool) (value : JsString) : ℕ → ℕ → JsString × List ℕ
  | 0, _ => ([], [])
  | turns + 1, i =>
    if i < value.length then
      let next := nextCharacter decodeEscapes (value.drop i)
      let rest := foldLoop T decodeEscapes value turns (i + next.width)
      if T.invisibleFormat next.ch then rest
      else
        let emitted := T.emittedText next.ch
        (emitted ++ rest.1, List.replicate emitted.length i ++ rest.2)
    else ([], [])

/-- The folded copy and the index map. -/
def foldForMatching (T : FoldTables) (value : JsString) (decodeEscapes : Bool) :
    JsString × List ℕ :=
  let r := foldLoop T decodeEscapes value value.length 0
  (r.1, r.2 ++ [value.length])

end Text
