import Mathlib.Data.List.Basic

/-!
# Lines of a text that arrives in pieces

`split` goes on with a line that has begun: it gives the complete lines, and the tail after the last
separator.  A text in two pieces has the lines of the first, and those of the second where the tail of
the first goes on (`split_append`); so it does not matter how a text is cut, as long as the tail is
carried along.
-/

set_option autoImplicit false

open List

universe u

namespace Lines

variable {α : Type u} [DecidableEq α] (sep : α)

/-- The complete lines of a text whose first line has begun, and the tail. -/
def split : List α → List α → List (List α) × List α
  | line, [] => ([], line)
  | line, a :: text =>
    if a = sep then (line :: (split [] text).1, (split [] text).2) else split (line ++ [a]) text

variable {sep} {line text : List α}

theorem split_append (line text more : List α) :
    split sep line (text ++ more) = ((split sep line text).1 ++
      (split sep (split sep line text).2 more).1, (split sep (split sep line text).2 more).2) := by
  induction text generalizing line with
  | nil => rfl
  | cons a text ih =>
    rw [cons_append, split, split]
    split_ifs
    · rw [ih]
      rfl
    · exact ih _

theorem split_join (h : sep ∉ text) (line more : List α) :
    split sep line (text ++ more) = split sep (line ++ text) more := by
  induction text generalizing line with
  | nil => rw [nil_append, append_nil]
  | cons a text ih =>
    obtain ⟨ha, htext⟩ := not_or.mp (mt mem_cons.mpr h)
    rw [cons_append, split, if_neg (Ne.symm ha), ih htext, append_assoc]
    rfl

theorem split_of_not_mem (h : sep ∉ text) (line : List α) :
    split sep line text = ([], line ++ text) := by
  have hjoin := split_join h line []
  rwa [append_nil] at hjoin

theorem not_mem_tail (h : sep ∉ line) (text : List α) : sep ∉ (split sep line text).2 := by
  induction text generalizing line with
  | nil => exact h
  | cons a text ih =>
    rw [split]
    split_ifs with ha
    · exact ih not_mem_nil
    · exact ih fun hmem ↦ (mem_append.mp hmem).elim h fun hlast ↦ ha (mem_singleton.mp hlast).symm

variable {l : List α}

theorem length_lt (hl : l ∈ (split sep line text).1) : l.length < line.length + text.length := by
  induction text generalizing line with
  | nil => exact absurd hl not_mem_nil
  | cons a text ih =>
    rw [split] at hl
    rw [length_cons]
    split_ifs at hl
    · rcases mem_cons.mp hl with rfl | hl
      · omega
      · have hlt := ih hl
        rw [length_nil] at hlt
        omega
    · have hlt := ih hl
      rw [length_append, length_singleton] at hlt
      omega

theorem exists_around (h : sep ∉ line) {before after : List (List α)}
    (hlines : (split sep line text).1 = before ++ l :: after) :
    ∃ front rest, line ++ text = front ++ (l ++ sep :: rest) ∧
      split sep [] front = (before, []) ∧ sep ∉ l := by
  induction text generalizing line before with
  | nil => exact absurd hlines (by simp [split])
  | cons a text ih =>
    rw [split] at hlines
    split_ifs at hlines with ha
    · subst ha
      cases before with
      | nil =>
        obtain ⟨rfl, -⟩ := cons_eq_cons.mp hlines
        exact ⟨[], text, rfl, rfl, h⟩
      | cons first before =>
        obtain ⟨rfl, hrest⟩ := cons_eq_cons.mp hlines
        obtain ⟨front, rest, htext, hfront, hl⟩ := ih not_mem_nil hrest
        refine ⟨line ++ a :: front, rest, ?_, ?_, hl⟩
        · rw [append_assoc, cons_append, ← htext, nil_append]
        · rw [split_join h, split, if_pos rfl, hfront, nil_append]
    · have hbegun : sep ∉ line ++ [a] := fun hmem ↦ (mem_append.mp hmem).elim h fun hlast ↦
        ha (mem_singleton.mp hlast).symm
      rw [append_cons]
      exact ih hbegun hlines

end Lines
