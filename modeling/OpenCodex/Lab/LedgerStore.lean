import OpenCodex.Data.Json
import OpenCodex.Data.Lines
import Mathlib.Data.List.Induction
import Mathlib.Data.List.Nodup

/-!
# The lab ledger: appended events and their replay

An event is appended as one line of JSON, whatever the file ends with.  A replay reads the file in
chunks, carries the bytes after the last newline along, and takes the complete lines one by one: it
keeps the events whose lines can be read and whose ids are new, and reports the others.  A line that
grows longer than the limit while it is carried is skipped.

Decoding and parsing one line, validating it and `jcsStringify` are functions of an environment; what
the writer relies on is `Accepted`.  The lock and the modes of the file are left out.

What a replay tells of the lines (`Told`) does not depend on the chunks, where no line that is over
the limit, but short enough for two chunks, reads as a new event (`ReadTo.readChunks`).  What is
appended is then replayed just when the first line, with whatever torn tail it was written behind, still
reads as its event (`appended_replayed_iff`).
-/

set_option autoImplicit false

open List Option Lines

namespace LabLedger

variable {Event Id : Type} [DecidableEq Id]

structure LedgerEnv (Event Id : Type) where
  eventId : Event → Id
  /-- The bytes of `jcsStringify(event)`. -/
  stringify : Event → List UInt8
  /-- `line.trim() === ""` -/
  isBlank : List UInt8 → Bool
  /-- `JSON.parse(line)` -/
  parse : List UInt8 → Option Json
  /-- The event, or the message of the error. -/
  validateLabEvent : Json → Except String Event

def maxSerializedEventBytes : ℕ := 64 * 1024

def chunkSize : ℕ := 64 * 1024

def lineFeed : UInt8 := 0x0a

inductive CorruptionKind where
  | emptyLedger
  | partialLine
  | malformedLine
  | invalidEvent
  | duplicateEvent

structure LedgerCorruption (Id : Type) where
  kind : CorruptionKind
  lineNumber : Option ℕ := none
  eventId : Option Id := none
  detail : String

/-- What a replay has gathered. -/
structure Replay (Event Id : Type) where
  lineNumber : ℕ := 0
  totalLineCount : ℕ := 0
  skippingOversizedLine : Bool := false
  events : List Event := []
  seenIds : List Id := []
  corruptions : List (LedgerCorruption Id) := []

namespace Replay

variable (s : Replay Event Id)

def report (c : LedgerCorruption Id) : Replay Event Id :=
  { s with corruptions := s.corruptions ++ [c] }

def nextLine : Replay Event Id :=
  { s with lineNumber := s.lineNumber + 1, totalLineCount := s.totalLineCount + 1 }

end Replay

section Code

variable (E : LedgerEnv Event Id)

/-- The file after an event was appended. -/
def appendValidatedLabEvent (file : List UInt8) (event : Event) : List UInt8 :=
  file ++ (E.stringify event ++ [lineFeed])

def processLine (line : List UInt8) (lineNumber : ℕ) (lineHasTrailingNewline : Bool)
    (s : Replay Event Id) : Replay Event Id :=
  if !lineHasTrailingNewline then
    s.report ⟨.partialLine, some lineNumber, none,
      "partial final JSONL line (missing trailing newline)"⟩
  else if E.isBlank line then s.report ⟨.malformedLine, some lineNumber, none, "empty line"⟩
  else
    match E.parse line with
    | none => s.report ⟨.malformedLine, some lineNumber, none, "JSON parse failed"⟩
    | some parsed =>
      match E.validateLabEvent parsed with
      | .error message => s.report ⟨.invalidEvent, some lineNumber, none, message⟩
      | .ok event =>
        if E.eventId event ∈ s.seenIds then
          s.report ⟨.duplicateEvent, some lineNumber, some (E.eventId event), "duplicate eventId"⟩
        else
          { s with events := s.events ++ [event], seenIds := s.seenIds ++ [E.eventId event] }

/-- A newline was found. -/
def endLine (s : Replay Event Id) (line : List UInt8) : Replay Event Id :=
  if s.skippingOversizedLine then { s with skippingOversizedLine := false }
  else processLine E line (s.lineNumber + 1) true s.nextLine

/-- The loop over a buffer, with the bytes since the last newline; and what is carried on. -/
def processBufferedLines : Replay Event Id → List UInt8 → List UInt8 → Replay Event Id × List UInt8
  | s, line, [] =>
    if s.skippingOversizedLine then (s, [])
    else if maxSerializedEventBytes < line.length then
      ({ s.nextLine.report ⟨.malformedLine, some (s.lineNumber + 1), none,
          s!"line exceeds {maxSerializedEventBytes} bytes without newline"⟩ with
        skippingOversizedLine := true }, [])
    else (s, line)
  | s, line, byte :: buf =>
    if byte = lineFeed then processBufferedLines (endLine E s line) [] buf
    else processBufferedLines s (line ++ [byte]) buf

/-- Each chunk is read behind what is carried. -/
def readChunks (r : Replay Event Id × List UInt8) (chunks : List (List UInt8)) :
    Replay Event Id × List UInt8 :=
  chunks.foldl (fun r chunk ↦ processBufferedLines E r.1 [] (r.2 ++ chunk)) r

/-- At the end of the file. -/
def endReplay (s : Replay Event Id) (carry : List UInt8) : Replay Event Id :=
  if carry = [] then s
  else if s.skippingOversizedLine then
    s.nextLine.report ⟨.malformedLine, some (s.lineNumber + 1), none,
      s!"oversized line exceeds {maxSerializedEventBytes} bytes"⟩
  else if maxSerializedEventBytes < carry.length then
    s.nextLine.report ⟨.malformedLine, some (s.lineNumber + 1), none,
      s!"partial line exceeds {maxSerializedEventBytes} bytes"⟩
  else processLine E carry (s.lineNumber + 1) false s.nextLine

/-- The replay of a file that is read in these chunks. -/
def replayLabLedger (chunks : List (List UInt8)) : Replay Event Id :=
  if chunks.flatten = [] then
    ({} : Replay Event Id).report ⟨.emptyLedger, none, none, "ledger file is empty"⟩
  else
    let r := readChunks E ({}, []) chunks
    endReplay E r.1 r.2

/-- How a file may be read. -/
structure Cut (file : List UInt8) (chunks : List (List UInt8)) : Prop where
  flatten : chunks.flatten = file
  bounded : ∀ chunk ∈ chunks, chunk ≠ [] ∧ chunk.length ≤ chunkSize

end Code

/-! ## What a replay tells -/

section Tells

variable (E : LedgerEnv Event Id)

/-- What a line says. -/
def readLine (line : List UInt8) : Option Event :=
  if E.isBlank line then none
  else (E.parse line).bind fun parsed ↦ (E.validateLabEvent parsed).toOption

/-- What a line within the limit says. -/
def heard (line : List UInt8) : Option Event :=
  if line.length ≤ maxSerializedEventBytes then readLine E line else none

/-- What a replay tells of the lines so far, and which of them it has reported. -/
structure Told (Event Id : Type) where
  lineNumber : ℕ := 0
  events : List Event := []
  seenIds : List Id := []
  reported : List (Option ℕ) := []

def told (s : Replay Event Id) : Told Event Id :=
  ⟨s.lineNumber, s.events, s.seenIds, s.corruptions.map (·.lineNumber)⟩

/-- The events a line adds: what it says, if the id is new. -/
def Told.added (t : Told Event Id) (said : Option Event) : List Event :=
  said.toList.filter fun event ↦ E.eventId event ∉ t.seenIds

/-- One more line is told, or reported. -/
def Told.take (t : Told Event Id) (said : Option Event) : Told Event Id where
  lineNumber := t.lineNumber + 1
  events := t.events ++ t.added E said
  seenIds := t.seenIds ++ (t.added E said).map E.eventId
  reported := if t.added E said = [] then t.reported ++ [some (t.lineNumber + 1)] else t.reported

/-- What lines tell, if each is heard. -/
def tell (lines : List (List UInt8)) : Told Event Id :=
  lines.foldl (fun t line ↦ t.take E (heard E line)) {}

/-- A line has an event with this id. -/
def Taken (lines : List (List UInt8)) (key : Id) : Prop :=
  ∃ line ∈ lines, ∃ event, heard E line = some event ∧ E.eventId event = key

/-- No line that is over the limit, but short enough for a carry and a chunk, reads as a new event. -/
def Settled (lines : List (List UInt8)) : Prop :=
  ∀ before line after, lines = before ++ line :: after → maxSerializedEventBytes < line.length →
    line.length < maxSerializedEventBytes + chunkSize → ∀ event, readLine E line = some event →
      Taken E before (E.eventId event)

/-- The lines of a file that end in a newline. -/
def completeLines (file : List UInt8) : List (List UInt8) := (Lines.split lineFeed [] file).1

/-- What a file ends with behind its last newline. -/
def tornTail (file : List UInt8) : List UInt8 := (Lines.split lineFeed [] file).2

end Tells

section Chunks

variable {E : LedgerEnv Event Id} {s : Replay Event Id} {t : Told Event Id} {said : Option Event}
  {file line text chunk : List UInt8} {lines before : List (List UInt8)} {key : Id}

theorem added_eq_nil :
    t.added E said = [] ↔ ∀ event, said = some event → E.eventId event ∈ t.seenIds := by
  cases said <;> simp [Told.added]

theorem take_of_added (h : t.added E said = []) : t.take E said = t.take E none := by
  have hnone : t.added E none = [] := rfl
  rw [Told.take, h, Told.take, hnone]

theorem tell_concat (lines : List (List UInt8)) (line : List UInt8) :
    tell E (lines ++ [line]) = (tell E lines).take E (heard E line) := by
  rw [tell, foldl_append]
  rfl

theorem mem_take : key ∈ (t.take E said).seenIds ↔
    key ∈ t.seenIds ∨ ∃ event, said = some event ∧ E.eventId event = key := by
  simp only [Told.take, Told.added, mem_append, List.mem_map, mem_filter,
    mem_toList, decide_eq_true_eq]
  constructor
  · rintro (hid | ⟨event, ⟨hsaid, -⟩, rfl⟩)
    · exact .inl hid
    · exact .inr ⟨event, hsaid, rfl⟩
  · rintro (hid | ⟨event, hsaid, rfl⟩)
    · exact .inl hid
    · by_cases hid : E.eventId event ∈ t.seenIds
      · exact .inl hid
      · exact .inr ⟨event, ⟨hsaid, hid⟩, rfl⟩

theorem taken_iff : Taken E lines key ↔ key ∈ (tell E lines).seenIds := by
  induction lines using List.reverseRecOn with
  | nil => simp [Taken, tell]
  | append_singleton lines line ih =>
    rw [tell_concat, mem_take, ← ih]
    simp [Taken, or_and_right, exists_or]

theorem processLine_skipping (n : ℕ) (b : Bool) :
    (processLine E line n b s).skippingOversizedLine = s.skippingOversizedLine := by
  rw [processLine]
  split_ifs
  · rfl
  · rfl
  · split
    · rfl
    · split
      · rfl
      · split_ifs <;> rfl

theorem endLine_skipping (s : Replay Event Id) (line : List UInt8) :
    (endLine E s line).skippingOversizedLine = false := by
  rw [endLine]
  split_ifs with h
  · rfl
  · rw [processLine_skipping]
    exact Bool.eq_false_iff.mpr h

theorem told_report (E : LedgerEnv Event Id) (c : LedgerCorruption Id)
    (hc : c.lineNumber = some (s.lineNumber + 1)) :
    told (s.nextLine.report c) = (told s).take E none := by
  simp [told, Told.take, Told.added, Replay.report, Replay.nextLine, hc]

theorem told_endLine (h : s.skippingOversizedLine = false) (line : List UInt8) :
    told (endLine E s line) = (told s).take E (readLine E line) := by
  rw [endLine, h, if_neg Bool.false_ne_true, processLine, if_neg (by simp), readLine]
  split_ifs with hblank
  · exact told_report E _ rfl
  · cases E.parse line with
    | none => exact told_report E _ rfl
    | some parsed =>
      simp only [bind_some]
      cases E.validateLabEvent parsed with
      | error message => exact told_report E _ rfl
      | ok event =>
        simp only [Except.toOption]
        by_cases hseen : E.eventId event ∈ s.seenIds
        · simp [told, Told.take, Told.added, Replay.report, Replay.nextLine, hseen]
        · simp [told, Told.take, Told.added, Replay.nextLine, hseen]

theorem processBufferedLines_eq (s : Replay Event Id) (line text : List UInt8) :
    processBufferedLines E s line text = processBufferedLines E
      ((Lines.split lineFeed line text).1.foldl (endLine E) s)
      (Lines.split lineFeed line text).2 [] := by
  induction text generalizing s line with
  | nil => rfl
  | cons byte text ih =>
    rw [Lines.split]
    conv_lhs => rw [processBufferedLines]
    split_ifs
    · exact ih _ _
    · exact ih _ _

/-- A file is read so far: its complete lines are told, and its tail is carried on; or it is too long,
and was reported. -/
inductive ReadTo (E : LedgerEnv Event Id) (file : List UInt8) : Replay Event Id × List UInt8 → Prop
  | carried {s : Replay Event Id} (hskipping : s.skippingOversizedLine = false)
      (htold : told s = tell E (completeLines file))
      (hshort : (tornTail file).length ≤ maxSerializedEventBytes) : ReadTo E file (s, tornTail file)
  | skipping {s : Replay Event Id} (hskipping : s.skippingOversizedLine = true)
      (htold : told s = (tell E (completeLines file)).take E none)
      (hlong : maxSerializedEventBytes < (tornTail file).length) : ReadTo E file (s, [])

omit [DecidableEq Id] in
theorem completeLines_append (file more : List UInt8) : completeLines (file ++ more) =
    completeLines file ++ (Lines.split lineFeed (tornTail file) more).1 := by
  rw [completeLines, split_append]
  rfl

omit [DecidableEq Id] in
theorem tornTail_append (file more : List UInt8) :
    tornTail (file ++ more) = (Lines.split lineFeed (tornTail file) more).2 := by
  rw [tornTail, split_append]
  rfl

omit [DecidableEq Id] in
theorem not_mem_tornTail (file : List UInt8) : lineFeed ∉ tornTail file :=
  not_mem_tail not_mem_nil file

omit [DecidableEq Id] in
theorem Settled.left {more : List (List UInt8)} (h : Settled E (lines ++ more)) :
    Settled E lines := by
  rintro before line after rfl
  exact h before line (after ++ more) (by rw [append_assoc, cons_append])

theorem told_lines (hskipping : s.skippingOversizedLine = false) (htold : told s = tell E before)
    (hsettled : Settled E (before ++ lines))
    (hlength : ∀ line ∈ lines, line.length < maxSerializedEventBytes + chunkSize) :
    (lines.foldl (endLine E) s).skippingOversizedLine = false ∧
      told (lines.foldl (endLine E) s) = tell E (before ++ lines) := by
  induction lines generalizing s before with
  | nil => exact ⟨hskipping, by rwa [append_nil]⟩
  | cons line lines ih =>
    obtain ⟨hline, hlines⟩ := forall_mem_cons.mp hlength
    rw [append_cons] at hsettled ⊢
    refine ih (endLine_skipping s line) ?_ hsettled hlines
    rw [told_endLine hskipping, htold, tell_concat, heard]
    split_ifs with hshort
    · rfl
    · -- the line is reported either way
      refine take_of_added (added_eq_nil.mpr fun event hread ↦ taken_iff.mp ?_)
      exact hsettled before line lines (by rw [append_assoc]; rfl) (not_le.mp hshort) hline
        event hread

theorem readTo_tornTail (hskipping : s.skippingOversizedLine = false)
    (htold : told s = tell E (completeLines file)) :
    ReadTo E file (processBufferedLines E s (tornTail file) []) := by
  rw [processBufferedLines, hskipping, if_neg Bool.false_ne_true]
  split_ifs with hlong
  · refine .skipping rfl ?_ hlong
    rw [← htold]
    exact told_report E _ rfl
  · exact .carried hskipping htold (not_lt.mp hlong)

variable {r : Replay Event Id × List UInt8}

theorem ReadTo.readChunk (h : ReadTo E file r) (hchunk : chunk.length ≤ chunkSize)
    (hsettled : Settled E (completeLines (file ++ chunk))) :
    ReadTo E (file ++ chunk) (processBufferedLines E r.1 [] (r.2 ++ chunk)) := by
  have hcomplete := completeLines_append file chunk
  have htail := tornTail_append file chunk
  cases h with
  | carried hskipping htold hshort =>
    rw [processBufferedLines_eq, split_join (not_mem_tornTail file), nil_append, ← htail]
    rw [hcomplete] at hsettled
    obtain ⟨hskipping, htold⟩ := told_lines hskipping htold hsettled fun line hline ↦ by
      have hlt := length_lt hline
      omega
    exact readTo_tornTail hskipping (by rw [htold, hcomplete])
  | @skipping s hskipping htold hlong =>
    rw [nil_append, processBufferedLines_eq]
    by_cases hmem : lineFeed ∈ chunk
    · obtain ⟨first, rest, rfl, hfirst⟩ := eq_append_cons_of_mem hmem
      rw [split_join hfirst, Lines.split, if_pos rfl] at hcomplete htail ⊢
      rw [nil_append, foldl_cons]
      -- the rest of the line that was reported
      have hline : endLine E s first = { s with skippingOversizedLine := false } := by
        rw [endLine, if_pos hskipping]
      have hheard : heard E (tornTail file ++ first) = none := by
        rw [heard, if_neg]
        rw [length_append]
        omega
      have hfirst : told (endLine E s first) =
          tell E (completeLines file ++ [tornTail file ++ first]) := by
        rw [tell_concat, hheard, ← htold, hline]
        rfl
      rw [hcomplete, append_cons] at hsettled
      obtain ⟨hskipping, htold⟩ := told_lines (endLine_skipping s first) hfirst hsettled
        fun line hline ↦ by
          have hlt := length_lt hline
          rw [length_append, length_cons] at hchunk
          rw [length_nil] at hlt
          omega
      rw [← htail]
      exact readTo_tornTail hskipping (by rw [htold, hcomplete, append_assoc]; rfl)
    · rw [split_of_not_mem hmem] at hcomplete htail
      rw [split_of_not_mem hmem, foldl_nil, processBufferedLines, if_pos hskipping]
      refine .skipping hskipping (by rw [htold, hcomplete, append_nil]) ?_
      rw [htail, length_append]
      omega

variable {chunks : List (List UInt8)}

/-- **What is read does not depend on the chunks.** -/
theorem ReadTo.readChunks (h : ReadTo E file r)
    (hchunks : ∀ chunk ∈ chunks, chunk.length ≤ chunkSize)
    (hsettled : Settled E (completeLines (file ++ chunks.flatten))) :
    ReadTo E (file ++ chunks.flatten) (readChunks E r chunks) := by
  induction chunks generalizing file r with
  | nil =>
    rw [flatten_nil, append_nil]
    exact h
  | cons chunk chunks ih =>
    obtain ⟨hchunk, hrest⟩ := forall_mem_cons.mp hchunks
    rw [flatten_cons, ← append_assoc] at hsettled ⊢
    refine ih (h.readChunk hchunk ?_) hrest hsettled
    rw [completeLines_append] at hsettled
    exact hsettled.left

theorem readTo_nil : ReadTo E [] (({} : Replay Event Id), []) := .carried rfl rfl (Nat.zero_le _)

/-- What the replay of a file tells. -/
def tellFile (E : LedgerEnv Event Id) (file : List UInt8) : Told Event Id :=
  if tornTail file = [] then tell E (completeLines file)
  else (tell E (completeLines file)).take E none

theorem told_endReplay (h : ReadTo E file r) : told (endReplay E r.1 r.2) = tellFile E file := by
  rw [tellFile]
  cases h with
  | @carried s hskipping htold hshort =>
    rw [endReplay]
    split_ifs with htail hskips hlong
    · exact htold
    · exact absurd (hskips.symm.trans hskipping) Bool.noConfusion
    · exact absurd hlong (not_lt.mpr hshort)
    · rw [← htold, processLine, if_pos (by rfl)]
      exact told_report E _ rfl
  | skipping hskipping htold hlong =>
    rw [endReplay, if_pos rfl, if_neg (ne_nil_of_length_pos (by omega))]
    exact htold

theorem told_replay (hcut : Cut file chunks) (hfile : file ≠ [])
    (hsettled : Settled E (completeLines file)) :
    told (replayLabLedger E chunks) = tellFile E file := by
  obtain ⟨rfl, hbounded⟩ := hcut
  rw [replayLabLedger, if_neg hfile]
  exact told_endReplay (readTo_nil.readChunks (fun chunk hmem ↦ (hbounded chunk hmem).2) hsettled)

theorem events_replay (hcut : Cut file chunks) (hsettled : Settled E (completeLines file)) :
    (replayLabLedger E chunks).events = (tell E (completeLines file)).events := by
  by_cases hfile : file = []
  · rw [replayLabLedger, if_pos (hcut.flatten.trans hfile), hfile]
    rfl
  · change (told (replayLabLedger E chunks)).events = _
    rw [told_replay hcut hfile hsettled, tellFile]
    split_ifs
    · rfl
    · simp [Told.take, Told.added]

end Chunks

/-! ## What is appended -/

section Append

variable (E : LedgerEnv Event Id)

/-- What is written of a validated event: one line within the limit, that reads as the event. -/
structure Accepted (event : Event) : Prop where
  oneLine : lineFeed ∉ E.stringify event
  short : (E.stringify event).length ≤ maxSerializedEventBytes
  reads : readLine E (E.stringify event) = some event

def appendAll (file : List UInt8) (events : List Event) : List UInt8 :=
  events.foldl (appendValidatedLabEvent E) file

/-- The events whose ids are not among these, each id once. -/
def firsts : List Id → List Event → List Event
  | _, [] => []
  | ids, event :: events =>
    if E.eventId event ∈ ids then firsts ids events
    else event :: firsts (ids ++ [E.eventId event]) events

/-- Whenever the file is read while these are appended, and whatever the chunks: what was appended is
replayed behind the events that were there, each event once and in order, and it does not depend on the
chunks which lines are reported. -/
structure Replayed (file : List UInt8) (events : List Event) : Prop where
  replayed : ∀ now, now <+: events → ∀ before after, Cut file before →
    Cut (appendAll E file now) after → (replayLabLedger E after).events =
      (replayLabLedger E before).events ++
        firsts E ((replayLabLedger E before).events.map E.eventId) now
  reported : ∀ now, now <+: events → ∀ after after', Cut (appendAll E file now) after →
    Cut (appendAll E file now) after' → (replayLabLedger E after).corruptions.map (·.lineNumber) =
      (replayLabLedger E after').corruptions.map (·.lineNumber)

/-- The line of an event is heard as the event behind the torn tail; where its id is taken already, it
need only not be heard as another new one. -/
structure HeardBehind (file : List UInt8) (event : Event) : Prop where
  fresh : ¬Taken E (completeLines file) (E.eventId event) →
    heard E (tornTail file ++ E.stringify event) = some event
  taken : Taken E (completeLines file) (E.eventId event) → ∀ other,
    heard E (tornTail file ++ E.stringify event) = some other →
      Taken E (completeLines file) (E.eventId other)

end Append

variable {E : LedgerEnv Event Id} {s : Replay Event Id} {t : Told Event Id} {said : Option Event}
  {file line : List UInt8} {before : List (List UInt8)} {event : Event} {events : List Event}
  {k : ℕ} {p : Prop}

/-! ### A line that is reported or not -/

/-- The replay is past a line, and has reported it or not. -/
def Past (k : ℕ) (p : Prop) (t : Told Event Id) : Prop :=
  k ≤ t.lineNumber ∧ (some k ∈ t.reported ↔ p)

theorem Past.take (h : Past k p t) : Past k p (t.take E said) := by
  refine ⟨Nat.le_succ_of_le h.1, ?_⟩
  rw [Told.take]
  split_ifs
  · have hne : k ≠ t.lineNumber + 1 := by
      have hle := h.1
      omega
    simpa [hne] using h.2
  · exact h.2

theorem Past.endLine (h : Past k p (told s)) (line : List UInt8) :
    Past k p (told (endLine E s line)) := by
  cases hskipping : s.skippingOversizedLine with
  | false => exact told_endLine hskipping line ▸ h.take
  | true =>
    rw [LabLedger.endLine, if_pos hskipping]
    exact h

theorem Past.report (E : LedgerEnv Event Id) (h : Past k p (told s)) (c : LedgerCorruption Id)
    (hc : c.lineNumber = some (s.lineNumber + 1)) : Past k p (told (s.nextLine.report c)) :=
  told_report E c hc ▸ h.take

theorem Past.processBufferedLines (h : Past k p (told s)) (line text : List UInt8) :
    Past k p (told (processBufferedLines E s line text).1) := by
  induction text generalizing s line with
  | nil =>
    rw [LabLedger.processBufferedLines]
    split_ifs
    · exact h
    · exact h.report E _ rfl
    · exact h
  | cons byte text ih =>
    rw [LabLedger.processBufferedLines]
    split_ifs
    · exact ih (h.endLine line) []
    · exact ih h _

theorem Past.replay {r : Replay Event Id × List UInt8} (h : Past k p (told r.1))
    (chunks : List (List UInt8)) : Past k p
      (told (endReplay E (readChunks E r chunks).1 (readChunks E r chunks).2)) := by
  induction chunks generalizing r with
  | nil =>
    rw [readChunks, foldl_nil, endReplay]
    split_ifs
    · exact h
    · exact h.report E _ rfl
    · exact h.report E _ rfl
    · rw [processLine, if_pos (by rfl)]
      exact h.report E _ rfl
  | cons chunk chunks ih => exact ih (h.processBufferedLines [] _)

theorem reported_le (h : some k ∈ (tell E before).reported) : k ≤ (tell E before).lineNumber := by
  induction before using List.reverseRecOn with
  | nil => exact absurd h not_mem_nil
  | append_singleton before line ih =>
    rw [tell_concat, Told.take] at h ⊢
    split_ifs at h
    · rcases mem_append.mp h with h | h
      · exact Nat.le_succ_of_le (ih h)
      · exact (some_inj.mp (mem_singleton.mp h)).le
    · exact Nat.le_succ_of_le (ih h)

theorem Cut.cons {chunks : List (List UInt8)} (h : Cut file chunks) (hnil : line ≠ [])
    (hlength : line.length ≤ chunkSize) : Cut (line ++ file) (line :: chunks) :=
  ⟨by rw [flatten_cons, h.flatten], forall_mem_cons.mpr ⟨⟨hnil, hlength⟩, h.bounded⟩⟩

theorem Cut.append {more : List UInt8} {chunks chunks' : List (List UInt8)} (h : Cut file chunks)
    (h' : Cut more chunks') : Cut (file ++ more) (chunks ++ chunks') :=
  ⟨by rw [flatten_append, h.flatten, h'.flatten], forall_mem_append.mpr ⟨h.bounded, h'.bounded⟩⟩

theorem exists_cut (file : List UInt8) : ∃ chunks, Cut file chunks := by
  induction file with
  | nil => exact ⟨[], rfl, by simp⟩
  | cons byte file ih =>
    obtain ⟨chunks, h⟩ := ih
    exact ⟨[byte] :: chunks, h.cons (cons_ne_nil byte []) (by simp [chunkSize])⟩

theorem exists_read (file : List UInt8) (hsettled : Settled E (completeLines file)) :
    ∃ chunks, Cut file chunks ∧ ReadTo E file (readChunks E ({}, []) chunks) := by
  obtain ⟨chunks, hcut⟩ := exists_cut file
  obtain ⟨rfl, hbounded⟩ := hcut
  exact ⟨chunks, ⟨rfl, hbounded⟩,
    readTo_nil.readChunks (fun chunk hmem ↦ (hbounded chunk hmem).2) hsettled⟩

/-- A line over the limit that a carry and a chunk can hold is reported where the newline is in a
chunk of its own, and told where it is in the chunk that ends the line; so it must not read as a new
event. -/
theorem taken_of_reported (hreported : ∀ after after', Cut file after → Cut file after' →
      (replayLabLedger E after).corruptions.map (·.lineNumber) =
        (replayLabLedger E after').corruptions.map (·.lineNumber))
    {rest : List (List UInt8)} (hlines : completeLines file = before ++ line :: rest)
    (hsettled : Settled E before) (hlong : maxSerializedEventBytes < line.length)
    (hshort : line.length < maxSerializedEventBytes + chunkSize)
    (hread : readLine E line = some event) : Taken E before (E.eventId event) := by
  by_contra hnew
  rw [taken_iff] at hnew
  obtain ⟨front, back, hfile, hfront, hline⟩ := exists_around not_mem_nil hlines
  rw [nil_append] at hfile
  obtain ⟨part, rest, rfl, hpart⟩ : ∃ part rest, line = part ++ rest ∧
      part.length = maxSerializedEventBytes :=
    ⟨_, _, (take_append_drop _ line).symm, length_take_of_le hlong.le⟩
  have hopen {text : List UInt8} (h : lineFeed ∉ text) :
      completeLines (front ++ text) = before ∧ tornTail (front ++ text) = text := by
    rw [completeLines, tornTail, split_append, hfront, split_of_not_mem h]
    exact ⟨append_nil _, rfl⟩
  have hopened := hopen fun hmem ↦ hline (mem_append_left rest hmem)
  have hend : (rest ++ [lineFeed]).length ≤ chunkSize := by
    rw [length_append] at hshort ⊢
    rw [length_singleton]
    omega
  obtain ⟨chunks, hchunks⟩ := exists_cut back
  obtain ⟨first, hfirst, hapart⟩ := exists_read (E := E) (front ++ (part ++ rest))
    (by rwa [(hopen hline).1])
  obtain ⟨first', hfirst', htogether⟩ := exists_read (E := E) (front ++ part) (by rwa [hopened.1])
  have hcut : Cut file (first ++ [lineFeed] :: chunks) := by
    have hcut := hfirst.append (hchunks.cons (cons_ne_nil lineFeed []) (by decide))
    rw [append_assoc] at hcut
    exact hfile ▸ hcut
  have hcut' : Cut file (first' ++ (rest ++ [lineFeed]) :: chunks) := by
    have hcut := hfirst'.append (hchunks.cons (by simp) hend)
    rw [append_assoc, append_assoc, ← append_assoc part] at hcut
    exact hfile ▸ hcut
  have hne : file ≠ [] := by simp [hfile]
  have hpast : Past ((tell E before).lineNumber + 1) True
      (told (replayLabLedger E (first ++ [lineFeed] :: chunks))) := by
    rw [replayLabLedger, hcut.flatten, if_neg hne, readChunks, foldl_append]
    refine .replay ?_ _
    change Past _ _ (told (readChunks E ({}, []) first).1)
    generalize readChunks E ({}, []) first = r at hapart
    cases hapart with
    | carried _ _ hshort => exact absurd hlong (not_lt.mpr ((hopen hline).2 ▸ hshort))
    | skipping _ htold _ =>
      rw [htold, (hopen hline).1]
      exact ⟨le_rfl, iff_of_true (by simp [Told.take, Told.added]) trivial⟩
  have hpast' : Past ((tell E before).lineNumber + 1) False
      (told (replayLabLedger E (first' ++ (rest ++ [lineFeed]) :: chunks))) := by
    rw [replayLabLedger, hcut'.flatten, if_neg hne, readChunks, foldl_append, foldl_cons]
    refine .replay ?_ _
    change Past _ _ (told (processBufferedLines E (readChunks E ({}, []) first').1 []
      ((readChunks E ({}, []) first').2 ++ _)).1)
    generalize readChunks E ({}, []) first' = r at htogether
    cases htogether with
    | @carried s hskipping htold _ =>
      have hended : processBufferedLines E (endLine E s (part ++ rest)) [] [] =
          (endLine E s (part ++ rest), []) := by
        rw [processBufferedLines, endLine_skipping, if_neg Bool.false_ne_true, if_neg (by simp)]
      rw [hopened.2, ← append_assoc, processBufferedLines_eq, split_join hline]
      change Past _ _ (told (processBufferedLines E (endLine E s (part ++ rest)) [] []).1)
      rw [hended, told_endLine hskipping, hread, htold, hopened.1]
      refine ⟨le_rfl, iff_of_false (fun hmem ↦ ?_) not_false⟩
      rw [Told.take, if_neg (by simpa [added_eq_nil] using hnew)] at hmem
      exact absurd (reported_le hmem) (Nat.not_succ_le_self _)
    | skipping _ _ hlong => exact absurd hlong (not_lt.mpr (hopened.2.symm ▸ hpart.le))
  have heq : (told (replayLabLedger E _)).reported = (told (replayLabLedger E _)).reported :=
    hreported _ _ hcut hcut'
  exact hpast'.2.mp (Eq.mp (congrArg (_ ∈ ·) heq) (hpast.2.mpr trivial))

/-- Where the reports do not depend on the chunks, no line over the limit reads as a new event. -/
theorem settled_of_reported (hreported : ∀ after after', Cut file after → Cut file after' →
      (replayLabLedger E after).corruptions.map (·.lineNumber) =
        (replayLabLedger E after').corruptions.map (·.lineNumber)) :
    Settled E (completeLines file) := by
  suffices h : ∀ lines rest, completeLines file = lines ++ rest → Settled E lines from
    h _ [] (append_nil _).symm
  intro lines
  induction lines using List.reverseRecOn with
  | nil => exact fun rest _ before line after hlines ↦ absurd hlines (by simp)
  | append_singleton lines last ih =>
    intro rest hrest before line after hlines hlong hshort event hread
    rw [append_assoc, singleton_append] at hrest
    have hbefore := ih _ hrest
    -- the last line is the one, or one before it
    rcases eq_nil_or_concat after with rfl | ⟨after, other, rfl⟩
    · obtain ⟨rfl, hlast⟩ := append_inj' hlines rfl
      obtain rfl := singleton_inj.mp hlast
      exact taken_of_reported hreported hrest hbefore hlong hshort hread
    · rw [concat_eq_append, ← cons_append, ← append_assoc] at hlines
      exact hbefore before line after (append_inj' hlines rfl).1 hlong hshort event hread

/-! ### The events -/

omit [DecidableEq Id] in
theorem completeLines_appended (h : Accepted E event) (file : List UInt8) :
    completeLines (appendValidatedLabEvent E file event) =
      completeLines file ++ [tornTail file ++ E.stringify event] := by
  rw [appendValidatedLabEvent, completeLines_append, split_join h.oneLine, Lines.split, if_pos rfl]
  rfl

omit [DecidableEq Id] in
theorem tornTail_appended (h : Accepted E event) (file : List UInt8) :
    tornTail (appendValidatedLabEvent E file event) = [] := by
  rw [appendValidatedLabEvent, tornTail_append, split_join h.oneLine, Lines.split, if_pos rfl]
  rfl

theorem tell_appended (h : Accepted E event) (file : List UInt8) :
    tell E (completeLines (appendValidatedLabEvent E file event)) =
      (tell E (completeLines file)).take E (heard E (tornTail file ++ E.stringify event)) := by
  rw [completeLines_appended h, tell_concat]

theorem added_eq_firsts : t.added E said = firsts E t.seenIds [event] ↔
    (E.eventId event ∉ t.seenIds → said = some event) ∧
      (E.eventId event ∈ t.seenIds → ∀ other, said = some other → E.eventId other ∈ t.seenIds) := by
  rw [Told.added, firsts, firsts, firsts]
  cases said with
  | none => by_cases hid : E.eventId event ∈ t.seenIds <;> simp [hid]
  | some other =>
    by_cases hid : E.eventId event ∈ t.seenIds
    · simp [hid, filter_cons]
    · by_cases hother : E.eventId other ∈ t.seenIds
      · have hne : other ≠ event := fun heq ↦ hid (heq ▸ hother)
        simp [hid, hother, hne]
      · simp [hid, hother]

theorem heardBehind_iff : HeardBehind E file event ↔
    (tell E (completeLines file)).added E (heard E (tornTail file ++ E.stringify event)) =
      firsts E (tell E (completeLines file)).seenIds [event] := by
  rw [added_eq_firsts]
  simp only [← taken_iff]
  exact ⟨fun h ↦ ⟨h.fresh, h.taken⟩, fun h ↦ ⟨h.1, h.2⟩⟩

theorem seenIds_eq (lines : List (List UInt8)) :
    (tell E lines).seenIds = (tell E lines).events.map E.eventId := by
  induction lines using List.reverseRecOn with
  | nil => rfl
  | append_singleton lines line ih => rw [tell_concat, Told.take, ih, map_append]

theorem firsts_cons (ids : List Id) (event : Event) (events : List Event) :
    firsts E ids (event :: events) = firsts E ids [event] ++
      firsts E (ids ++ (firsts E ids [event]).map E.eventId) events := by
  rw [firsts, firsts, firsts, firsts]
  split_ifs
  · rw [map_nil, append_nil, nil_append]
  · rfl

/-- **What is appended is there**, each event once, if the first one is heard behind the torn tail. -/
theorem events_appendAll (haccepted : ∀ event ∈ events, Accepted E event)
    (hfirst : ∀ event, events.head? = some event → HeardBehind E file event) :
    (tell E (completeLines (appendAll E file events))).events =
      (tell E (completeLines file)).events ++
        firsts E (tell E (completeLines file)).seenIds events := by
  induction events generalizing file with
  | nil => exact (append_nil _).symm
  | cons event events ih =>
    obtain ⟨hevent, hevents⟩ := forall_mem_cons.mp haccepted
    have hadded := heardBehind_iff.mp (hfirst event rfl)
    have hrest := @ih (appendValidatedLabEvent E file event) hevents fun e he ↦ by
      -- no other line is torn
      have haccept := hevents e (mem_of_mem_head? he)
      have hheard : heard E (tornTail (appendValidatedLabEvent E file event) ++ E.stringify e) =
          some e := by
        rw [tornTail_appended hevent, nil_append, heard, if_pos haccept.short, haccept.reads]
      refine ⟨fun _ ↦ hheard, fun htaken other hother ↦ ?_⟩
      exact some_inj.mp (hheard.symm.trans hother) ▸ htaken
    change (tell E (completeLines (appendAll E (appendValidatedLabEvent E file event) events))).events
      = _
    rw [hrest, tell_appended hevent, Told.take, hadded, append_assoc, ← firsts_cons]

omit [DecidableEq Id] in
theorem settled_appended (haccepted : ∀ event ∈ events, Accepted E event) {now : List Event}
    (hnow : now <+: events) (hsettled : Settled E (completeLines (appendAll E file events))) :
    Settled E (completeLines (appendAll E file now)) := by
  obtain ⟨rest, rfl⟩ := hnow
  rw [appendAll, foldl_append] at hsettled
  change Settled E (completeLines (appendAll E (appendAll E file now) rest)) at hsettled
  have hrest : ∀ event ∈ rest, Accepted E event := fun event hevent ↦
    haccepted event (mem_append_right _ hevent)
  clear haccepted
  generalize appendAll E file now = front at hsettled ⊢
  induction rest generalizing front with
  | nil => exact hsettled
  | cons event rest ih =>
    obtain ⟨hevent, hrest⟩ := forall_mem_cons.mp hrest
    have hnext := ih hrest _ hsettled
    rw [completeLines_appended hevent] at hnext
    exact hnext.left

/-- **What is appended is replayed** just when no line that is over the limit, but short enough for a
carry and a chunk, reads as a new event, and the first event is heard behind the torn tail. -/
theorem appended_replayed_iff (haccepted : ∀ event ∈ events, Accepted E event) :
    Replayed E file events ↔ Settled E (completeLines (appendAll E file events)) ∧
      ∀ event, events.head? = some event → HeardBehind E file event := by
  have hevents (hsettled : Settled E (completeLines (appendAll E file events))) {now : List Event}
      (h : now <+: events) {before after : List (List UInt8)} (hbefore : Cut file before)
      (hafter : Cut (appendAll E file now) after) : (replayLabLedger E after).events =
          (tell E (completeLines (appendAll E file now))).events ∧
        (replayLabLedger E before).events = (tell E (completeLines file)).events :=
    ⟨events_replay hafter (settled_appended haccepted h hsettled),
      events_replay hbefore (settled_appended haccepted nil_prefix hsettled)⟩
  constructor
  · intro h
    have hsettled := settled_of_reported (h.reported events prefix_rfl)
    refine ⟨hsettled, fun event hevent ↦ ?_⟩
    have hnow : [event] <+: events := by
      obtain ⟨rest, rfl⟩ := head?_eq_some_iff.mp hevent
      exact ⟨rest, rfl⟩
    obtain ⟨before, hbefore⟩ := exists_cut file
    obtain ⟨after, hafter⟩ := exists_cut (appendAll E file [event])
    obtain ⟨heq, heq'⟩ := hevents hsettled hnow hbefore hafter
    have hreplayed := h.replayed [event] hnow before after hbefore hafter
    rw [heq, heq', ← seenIds_eq] at hreplayed
    have happended := congrArg Told.events
      (tell_appended (haccepted event (mem_of_mem_head? hevent)) file)
    rw [heardBehind_iff]
    exact append_cancel_left (happended.symm.trans hreplayed)
  · rintro ⟨hsettled, h⟩
    refine ⟨fun now hnow before after hbefore hafter ↦ ?_,
      fun now hnow after after' hafter hafter' ↦ ?_⟩
    · obtain ⟨heq, heq'⟩ := hevents hsettled hnow hbefore hafter
      rw [heq, heq', ← seenIds_eq]
      refine events_appendAll (fun e he ↦ haccepted e (hnow.subset he)) fun e he ↦ h e ?_
      obtain ⟨rest, rfl⟩ := hnow
      rw [head?_append, he]
      rfl
    · by_cases hfile : appendAll E file now = []
      · rw [replayLabLedger, if_pos (hafter.flatten.trans hfile), replayLabLedger,
          if_pos (hafter'.flatten.trans hfile)]
      · have hall := settled_appended haccepted hnow hsettled
        exact congrArg Told.reported
          ((told_replay hafter hfile hall).trans (told_replay hafter' hfile hall).symm)

/-- Events are digits. -/
def digits : LedgerEnv UInt8 UInt8 where
  eventId := id
  stringify digit := [0x30 + digit]
  isBlank line := line.all (· == 0x20)
  parse
    | [unit] => if 0x30 ≤ unit ∧ unit ≤ 0x39 then some (.num (unit - 0x30).toNat) else none
    | _ => none
  validateLabEvent
    | .num q => .ok (UInt8.ofNat q.num.toNat)
    | _ => .error "not an event"

theorem digits_accepted : ∀ digit ∈ [(1 : UInt8), 2], Accepted digits digit := by
  simp only [forall_mem_cons, not_mem_nil, false_implies, implies_true, and_true]
  exact ⟨⟨by decide, by decide, by decide⟩, ⟨by decide, by decide, by decide⟩⟩

/-- Behind a torn brace the first of two events is lost. -/
theorem torn_tail_loses_event : (∀ digit ∈ [(1 : UInt8), 2], Accepted digits digit) ∧
    ¬Replayed digits [0x7b] [1, 2] := by
  refine ⟨digits_accepted, fun h ↦ ?_⟩
  have hevents := h.replayed [1, 2] prefix_rfl [[0x7b]] [[0x7b, 0x31, 0x0a, 0x32, 0x0a]]
    ⟨rfl, by decide⟩ ⟨rfl, by decide⟩
  exact absurd hevents (by decide +kernel)

/-- Two events are replayed behind a line that cannot be read. -/
theorem appended_replayed_twice : Replayed digits [0x7b, 0x0a] [1, 2] := by
  refine (appended_replayed_iff digits_accepted).mpr ⟨fun before line after hlines hlong ↦ ?_,
    fun digit hdigit ↦ ?_⟩
  · have hmem : line ∈ completeLines (appendAll digits [0x7b, 0x0a] [1, 2]) := by
      rw [hlines]
      exact mem_append_right _ mem_cons_self
    have hall : ∀ line ∈ completeLines (appendAll digits [0x7b, 0x0a] [1, 2]), line.length ≤ 1 := by
      decide
    exact absurd hlong (not_lt.mpr ((hall line hmem).trans (by decide)))
  · obtain rfl := some_inj.mp hdigit
    have hheard : heard digits (tornTail [0x7b, 0x0a] ++ digits.stringify 1) = some 1 := by decide
    refine ⟨fun _ ↦ hheard, fun htaken other hother ↦ ?_⟩
    obtain rfl := some_inj.mp (hheard.symm.trans hother)
    exact htaken

end LabLedger
