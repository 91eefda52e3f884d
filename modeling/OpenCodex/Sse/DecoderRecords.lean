import OpenCodex.Data.Cutting
import OpenCodex.Sse.Decoder

/-!
# What the decoder yields

The reference is a parser of whole texts: `linesOf` cuts a text at its line endings, the lines fall
into groups at the blank ones, and a group is its comments and the event its fields make.

The decoder works line by line.  `Fields` is what it keeps of a group that is still open, and
`runLines` goes through lines with it; the records of a text are those of its groups (`runLines_eq`).
That the lines are the same however the text arrives is the frontier of `OpenCodex.Data.Cutting`: the
lines accepted so far, the line in the buffer, and the line feed that may still be skipped, are where
the cutting of all text stands (`Reading`).
-/

set_option autoImplicit false

open List

namespace Sse

/-! ## The reference -/

/-- How many units of a line ending stand at the head of a text. -/
def lineBreak : JsString → ℕ
  | [] => 0
  | [c] => if c = 13 ∨ c = 10 then 1 else 0
  | c :: d :: _ => if c = 13 ∧ d = 10 then 2 else if c = 13 ∨ c = 10 then 1 else 0

/-- The lines of a text, the last one without a line ending. -/
def linesOf (text : JsString) : List JsString :=
  (Cutting.blocks lineBreak [] text).1 ++ [(Cutting.blocks lineBreak [] text).2]

/-- The name of a field: what stands before the first colon. -/
def fieldName (line : JsString) : JsString := line.takeWhile (· ≠ 58)

/-- Its value: what stands behind the colon, without one leading space. -/
def fieldValue (line : JsString) : JsString :=
  let value := (line.dropWhile (· ≠ 58)).drop 1
  if value.head? = some 32 then value.drop 1 else value

/-- A line that begins with a colon is a comment. -/
def commentOf (line : JsString) : Option JsString :=
  if line.head? = some 58 then some (fieldValue line) else none

/-- The values a group of lines has for a field. -/
def valuesOf (name : JsString) (lines : List JsString) : List JsString :=
  (lines.filter fun line ↦ fieldName line = name).map fieldValue

/-- The event with this name and these data; an event without data is dropped, and an empty name is
no name. -/
def eventRecord (event : Option JsString) (data : List JsString) : List SseRecord :=
  if data = [] then [] else [.event (event.filter (· ≠ [])) ((js "\n").intercalate data)]

def commentRecords (includeComments : Bool) (lines : List JsString) : List SseRecord :=
  if includeComments then (lines.filterMap commentOf).map .comment else []

/-- The records of a group of lines: its comments, then its event. -/
def groupRecords (includeComments : Bool) (lines : List JsString) : List SseRecord :=
  commentRecords includeComments lines ++
    eventRecord (valuesOf (js "event") lines).getLast? (valuesOf (js "data") lines)

/-- **The reference parser**: the records of a whole text. -/
def recordsOf (includeComments : Bool) (text : JsString) : List SseRecord :=
  ((linesOf text).splitOn []).flatMap (groupRecords includeComments)

/-! ## Line by line -/

/-- What is kept of a group that is still open. -/
structure Fields where
  event : Option JsString
  data : List JsString

/-- What a line does to the fields, and the records it yields. -/
def acceptFields (includeComments : Bool) (f : Fields) (line : JsString) :
    Fields × List SseRecord :=
  if line = [] then (⟨none, []⟩, eventRecord f.event f.data)
  else match commentOf line with
    | some comment => (f, if includeComments then [.comment comment] else [])
    | none =>
      if fieldName line = js "event" then (⟨some (fieldValue line), f.data⟩, [])
      else if fieldName line = js "data" then (⟨f.event, f.data ++ [fieldValue line]⟩, [])
      else (f, [])

def runLines (includeComments : Bool) : Fields → List JsString → Fields × List SseRecord
  | f, [] => (f, [])
  | f, line :: lines =>
    let r := acceptFields includeComments f line
    let r' := runLines includeComments r.1 lines
    (r'.1, r.2 ++ r'.2)

/-- The fields of the lines of an open group. -/
def fieldsOf (lines : List JsString) : Fields :=
  ⟨(valuesOf (js "event") lines).getLast?, valuesOf (js "data") lines⟩

variable {includeComments : Bool}

theorem runLines_append (f : Fields) (l m : List JsString) : runLines includeComments f (l ++ m) =
      ((runLines includeComments (runLines includeComments f l).1 m).1,
        (runLines includeComments f l).2 ++
          (runLines includeComments (runLines includeComments f l).1 m).2) := by
  induction l generalizing f with
  | nil => rfl
  | cons line l ih =>
    rw [cons_append, runLines, ih, runLines]
    simp only [append_assoc]

theorem valuesOf_concat (name : JsString) (lines : List JsString) (line : JsString) :
    valuesOf name (lines ++ [line]) =
      valuesOf name lines ++ if fieldName line = name then [fieldValue line] else [] := by
  by_cases h : fieldName line = name <;> simp [valuesOf, h]

theorem commentRecords_concat (lines : List JsString) (line : JsString) :
    commentRecords includeComments (lines ++ [line]) =
      commentRecords includeComments lines ++ match commentOf line with
        | some comment => if includeComments then [.comment comment] else []
        | none => [] := by
  rw [commentRecords, commentRecords, filterMap_append, map_append]
  cases h : commentOf line <;> cases includeComments <;> simp [h]

theorem fieldName_of_comment {line comment : JsString} (h : commentOf line = some comment) :
    fieldName line = [] := by
  rw [commentOf] at h
  split_ifs at h with hhead
  cases line with
  | nil => rfl
  | cons c line =>
    obtain rfl := Option.some_inj.mp hhead
    rfl

theorem acceptFields_continues {line : JsString} (h : line ≠ []) (lines : List JsString) :
    acceptFields includeComments (fieldsOf lines) line =
      (fieldsOf (lines ++ [line]), match commentOf line with
        | some comment => if includeComments then [.comment comment] else []
        | none => []) := by
  rw [acceptFields, if_neg h, fieldsOf, fieldsOf, valuesOf_concat, valuesOf_concat]
  cases hc : commentOf line with
  | some comment =>
    have hname := fieldName_of_comment hc
    have hevent : ([] : JsString) ≠ js "event" := by decide
    have hdata : ([] : JsString) ≠ js "data" := by decide
    simp only [hname, hevent, hdata, if_false, append_nil]
  | none =>
    have hne : js "event" ≠ js "data" := by decide
    by_cases hevent : fieldName line = js "event"
    · simp [hevent, hne]
    · by_cases hdata : fieldName line = js "data"
      · simp [hdata, Ne.symm hne]
      · simp [hevent, hdata]

/-- **Line by line and group by group** give the same records: here from a group of which some lines
have been read. -/
theorem runLines_groups (includeComments : Bool) (lines open' : List JsString) :
    commentRecords includeComments open' ++ ((runLines includeComments (fieldsOf open') lines).2 ++
        eventRecord (runLines includeComments (fieldsOf open') lines).1.event
          (runLines includeComments (fieldsOf open') lines).1.data) =
      (lines.splitOnPPrepend (· == []) open'.reverse).flatMap (groupRecords includeComments) := by
  induction lines generalizing open' with
  | nil => simp [runLines, groupRecords, fieldsOf]
  | cons line lines ih =>
    rw [runLines, splitOnPPrepend_cons_eq_if]
    by_cases hline : line = []
    · subst hline
      have hnil := ih []
      simp only [reverse_nil] at hnil
      rw [if_pos (beq_self_eq_true _), flatMap_cons, ← splitOnPPrepend_nil_right, ← hnil,
        reverse_reverse, groupRecords]
      simp only [acceptFields, if_pos, fieldsOf, commentRecords, valuesOf, filterMap_nil,
        map_nil, filter_nil, getLast?_nil, ite_self, nil_append,
        append_assoc]
    · have hcont := ih (open' ++ [line])
      rw [reverse_append, reverse_singleton, singleton_append, commentRecords_concat] at hcont
      rw [if_neg (by simpa using hline), ← hcont, acceptFields_continues hline]
      simp only [append_assoc]

theorem recordsOf_eq (includeComments : Bool) (text : JsString) : recordsOf includeComments text =
    (runLines includeComments ⟨none, []⟩ (linesOf text)).2 ++
      eventRecord (runLines includeComments ⟨none, []⟩ (linesOf text)).1.event
        (runLines includeComments ⟨none, []⟩ (linesOf text)).1.data := by
  have h := runLines_groups includeComments (linesOf text) []
  simp only [reverse_nil, splitOnPPrepend_nil_right] at h
  rw [recordsOf, splitOn_eq_splitOnP, ← h]
  cases includeComments <;> rfl

end Sse
