import OpenCodex.Data.Json

/-!
# Removing citation markers from text that streams

A citation span is `START cite SEPARATOR … END`, in three private-use units.  The filter withholds
what may still become such a span and releases everything else at once.  It reads one unit at a
time, so its output does not depend on how a text was cut into deltas (`push_append`), and the
deltas a client was sent add up to the text it is given at the end
(`stripCitationMarkers_flatten`).
-/

set_option autoImplicit false

namespace Bridge

/-- Opens a citation span. -/
def citationMarkerStart : CodeUnit := 0xe200
/-- Separates the keyword and each source reference inside a span. -/
def citationMarkerSeparator : CodeUnit := 0xe202
/-- Closes a citation span. -/
def citationMarkerEnd : CodeUnit := 0xe201

/-- The keywords that mark a span as a citation. -/
def citationKeywords : List JsString := [js "cite", js "filecite"]

/-- The bound on the length of a span. -/
def maxCitationSpanLength : ℕ := 4096

/-- What of a span has been read. -/
inductive CitationMode where
  | text
  /-- The start and a beginning of a keyword, withheld. -/
  | keyword
  /-- The body of a citation, withheld. -/
  | citation
  /-- The keyword of another span, released. -/
  | other
  /-- The body of another span, released. -/
  | directive
  deriving DecidableEq

/-- The streaming filter. -/
structure CitationMarkerFilter where
  mode : CitationMode
  /-- What is withheld. -/
  held : JsString
  /-- The units since the start of a span that is released. -/
  spanLength : ℕ
  deriving DecidableEq

def createCitationMarkerFilter : CitationMarkerFilter := ⟨.text, [], 0⟩

namespace CitationMarkerFilter

def isKeywordPrefix (keyword : JsString) : Bool := citationKeywords.any keyword.isPrefixOf

/-- One unit of ordinary text. -/
def stepText (f : CitationMarkerFilter) (ch : CodeUnit) : CitationMarkerFilter × JsString :=
  if ch = citationMarkerStart then ({ f with mode := .keyword, held := [ch] }, [])
  else ({ f with mode := .text }, [ch])

/-- One unit, and what is released on it. -/
def step (f : CitationMarkerFilter) (ch : CodeUnit) : CitationMarkerFilter × JsString :=
  match f.mode with
  | .text => f.stepText ch
  | .other =>
    if f.spanLength + 1 > maxCitationSpanLength then f.stepText ch
    else if ch = citationMarkerStart then ({ f with mode := .keyword, held := [ch] }, [])
    else
      ({ f with
          spanLength := f.spanLength + 1,
          mode := if ch = citationMarkerEnd then .text
            else if ch = citationMarkerSeparator then .directive else .other }, [ch])
  | .directive =>
    if f.spanLength + 1 > maxCitationSpanLength then f.stepText ch
    else
      ({ f with
          spanLength := f.spanLength + 1,
          mode := if ch = citationMarkerEnd then .text else .directive }, [ch])
  | .citation =>
    if ch = citationMarkerStart then ({ f with mode := .keyword, held := [ch] }, f.held)
    else if ch = citationMarkerEnd then ({ f with mode := .text, held := [] }, [])
    else if (f.held ++ [ch]).length ≥ maxCitationSpanLength then
      ({ f with mode := .text, held := [] }, f.held ++ [ch])
    else ({ f with held := f.held ++ [ch] }, [])
  | .keyword =>
    if ch = citationMarkerStart then ({ f with mode := .keyword, held := [ch] }, f.held)
    else if ch = citationMarkerSeparator ∨ ch = citationMarkerEnd then
      if citationKeywords.contains (f.held.drop 1) then
        if ch = citationMarkerEnd then ({ f with mode := .text, held := [] }, [])
        else ({ f with mode := .citation, held := f.held ++ [ch] }, [])
      else
        ({ mode := if ch = citationMarkerEnd then .text else .directive, held := [],
           spanLength := f.held.length + 1 }, f.held ++ [ch])
    else if isKeywordPrefix ((f.held ++ [ch]).drop 1) then
      ({ f with held := f.held ++ [ch] }, [])
    else
      ({ mode := .other, held := [], spanLength := (f.held ++ [ch]).length }, f.held ++ [ch])

/-- Feed a delta; what is safe to emit now. -/
def push (f : CitationMarkerFilter) : JsString → CitationMarkerFilter × JsString
  | [] => (f, [])
  | ch :: delta =>
    let r := (f.step ch).1.push delta
    (r.1, (f.step ch).2 ++ r.2)

/-- What is still withheld when the message closes. -/
def flush (f : CitationMarkerFilter) : JsString := f.held

/-- What is released on a delta after another one does not depend on where the two were cut. -/
theorem push_append (f : CitationMarkerFilter) (a b : JsString) :
    f.push (a ++ b) = (((f.push a).1.push b).1, (f.push a).2 ++ ((f.push a).1.push b).2) := by
  induction a generalizing f with
  | nil => simp [push]
  | cons ch a ih => simp [push, ih]

/-- The filter after several deltas, and what was released on each. -/
def pushAll (f : CitationMarkerFilter) : List JsString → CitationMarkerFilter × List JsString
  | [] => (f, [])
  | delta :: l =>
    let r := (f.push delta).1.pushAll l
    (r.1, (f.push delta).2 :: r.2)

theorem pushAll_flatten (f : CitationMarkerFilter) (l : List JsString) :
    f.push l.flatten = ((f.pushAll l).1, (f.pushAll l).2.flatten) := by
  induction l generalizing f with
  | nil => rfl
  | cons delta l ih => simp [pushAll, push_append, ih]

theorem push_plain {text : JsString} (h : citationMarkerStart ∉ text) :
    createCitationMarkerFilter.push text = (createCitationMarkerFilter, text) := by
  induction text with
  | nil => rfl
  | cons ch text ih =>
    rw [List.mem_cons, not_or] at h
    have hstep : createCitationMarkerFilter.step ch = (createCitationMarkerFilter, [ch]) :=
      if_neg (Ne.symm h.1)
    simp only [push, hstep, ih h.2, List.singleton_append]

end CitationMarkerFilter

/-- Remove every complete citation span from a whole text. -/
def stripCitationMarkers (text : JsString) : JsString :=
  if text.contains citationMarkerStart then
    (createCitationMarkerFilter.push text).2 ++ (createCitationMarkerFilter.push text).1.flush
  else text

theorem stripCitationMarkers_eq (text : JsString) : stripCitationMarkers text =
      (createCitationMarkerFilter.push text).2 ++
        (createCitationMarkerFilter.push text).1.flush := by
  rw [stripCitationMarkers]
  split
  · rfl
  · rename_i h
    rw [CitationMarkerFilter.push_plain (by simpa using h)]
    exact (List.append_nil _).symm

/-- **The deltas add up**: what is released on the deltas of a text, and at its end, is the text
stripped as a whole. -/
theorem stripCitationMarkers_flatten (l : List JsString) :
    (createCitationMarkerFilter.pushAll l).2.flatten ++
        (createCitationMarkerFilter.pushAll l).1.flush = stripCitationMarkers l.flatten := by
  rw [stripCitationMarkers_eq, CitationMarkerFilter.pushAll_flatten]

end Bridge
