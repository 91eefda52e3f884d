import OpenCodex.Spend.Moves

/-!
# The journal file

The production journal is one file of lines.  Appending adds a line and its newline; reading splits
at newlines and drops what is empty; rewriting replaces the file by the lines given.  The contents
are kept in two parts, for what is said about them: what was there when the file was opened, and what
was added since.

A line is whole as long as the file before it ended in a newline (`Complete`): then it is read back
as the last one, and the file ends in a newline again.  A file that does not end in one has a torn
tail, and whatever is appended next is read as one line together with it.
-/

set_option autoImplicit false

open List

namespace Spend

def newline : CodeUnit := 0x0a

/-- `split("\n").filter((line) => line.length > 0)` -/
def linesOf (text : JsString) : List JsString := (text.splitOn newline).filter (· ≠ [])

structure JournalFile where
  /-- What was there when the file was opened; nothing once the file was replaced. -/
  base : JsString
  /-- What was added since. -/
  added : JsString
  deriving DecidableEq

def JournalFile.contents (file : JournalFile) : JsString := file.base ++ file.added

/-- A file with these contents, opened now. -/
def JournalFile.opened (text : JsString) : JournalFile := ⟨text, []⟩

/-- The journal in a file; no operation of the file fails. -/
def fileJournal : SpendJournal JournalFile where
  read file := linesOf file.contents
  append file line := ({ file with added := file.added ++ (line ++ [newline]) }, true)
  rewrite := some fun _ lines ↦ (⟨[], (lines.map (· ++ [newline])).flatten⟩, true)

/-- Every line of the file is whole. -/
def Complete (text : JsString) : Prop := text = [] ∨ ∃ before, text = before ++ [newline]

theorem complete_append (text line : JsString) : Complete (text ++ (line ++ [newline])) :=
  .inr ⟨text ++ line, (append_assoc ..).symm⟩

theorem linesOf_nil : linesOf [] = [] := by simp [linesOf]

theorem linesOf_newline (text rest : JsString) :
    linesOf (text ++ newline :: rest) = linesOf text ++ linesOf rest := by
  rw [linesOf, splitOn_append_cons_self, filter_append]
  rfl

variable {line : JsString}

theorem linesOf_line (hne : line ≠ []) (hline : newline ∉ line) : linesOf line = [line] := by
  rw [linesOf, splitOn_eq_singleton hline]
  simp [hne]

variable {text : JsString}

theorem Complete.linesOf_append (h : Complete text) (rest : JsString) :
    linesOf (text ++ rest) = linesOf text ++ linesOf rest := by
  rcases h with rfl | ⟨before, rfl⟩
  · rw [nil_append, linesOf_nil, nil_append]
  · rw [append_assoc, singleton_append, linesOf_newline, linesOf_newline, linesOf_nil, append_nil]

theorem linesOf_terminated (hne : line ≠ []) (hline : newline ∉ line) :
    linesOf (line ++ [newline]) = [line] := by
  rw [linesOf_newline, linesOf_nil, append_nil, linesOf_line hne hline]

/-- **A line appended to a complete file** is read back behind the others. -/
theorem linesOf_append_complete (h : Complete text) (hne : line ≠ []) (hline : newline ∉ line) :
    linesOf (text ++ (line ++ [newline])) = linesOf text ++ [line] := by
  rw [h.linesOf_append, linesOf_terminated hne hline]

theorem JournalRecord.line_ne_nil (record : JournalRecord) : record.line ≠ [] := by
  obtain ⟨body, hbody⟩ := Json.render_obj ((js "v", .nat 1) :: record.members)
  exact cons_ne_nil _ _

theorem JournalRecord.newline_notMem_line (record : JournalRecord) : newline ∉ record.line :=
  (Json.render_printable _).no_newline

/-- **Every write to a complete file** succeeds, and leaves a complete file. -/
theorem fileJournal_succeeds : fileJournal.Succeeds fun file ↦ Complete file.contents where
  append file record hfile := by
    have heq : (JournalFile.mk file.base (file.added ++ (record.line ++ [newline]))).contents =
        file.contents ++ (record.line ++ [newline]) := (append_assoc ..).symm
    refine ⟨_, rfl, ?_, ?_⟩
    · rw [heq]
      exact complete_append file.contents record.line
    · show linesOf (JournalFile.contents _) = _
      rw [heq]
      exact linesOf_append_complete hfile record.line_ne_nil record.newline_notMem_line
  rewrite rewrite hrewrite file record _ := by
    rw [← Option.some_inj.mp hrewrite]
    refine ⟨_, rfl, .inr ⟨record.line, by simp [JournalFile.contents]⟩, ?_⟩
    show linesOf ([] ++ ([record.line].map (· ++ [newline])).flatten) = [record.line]
    rw [nil_append, map_singleton, flatten_singleton,
      linesOf_terminated record.line_ne_nil record.newline_notMem_line]

end Spend
