import OpenCodex.Data.Bytes

/-!
# Replacing every match of a pattern

A `Pattern` is a test for a match at the head of a text: what was matched, and what follows it.
`Pattern.replace` is the global replacement that regular expressions are used for: from left to
right, at each place a match is replaced and gone past, and where there is none one letter is kept.

A replacement that is done by hand, by searching for where matches can be, is shown to be this one
by going from place to place: `replace_pass` goes over letters at which nothing matches,
`replace_hit` takes a match.
-/

set_option autoImplicit false

open List

universe u v

/-- A test for a match at the head of a text. -/
structure Pattern (α : Type u) (β : Type v) where
  test : List α → Option (β × List α)
  /-- A match is not empty. -/
  shorter : ∀ {l rest : List α} {value : β}, test l = some (value, rest) → rest.length < l.length

namespace Pattern

variable {α : Type u} {β : Type v} (P : Pattern α β) (f : β → Option (List α))

/-- Replace every match, from left to right; one for which there is nothing is kept. -/
def replace (l : List α) : List α :=
  match _ : P.test l with
  | some (value, rest) => (f value).getD (l.take (l.length - rest.length)) ++ replace rest
  | none =>
    match l with
    | [] => []
    | a :: l => a :: replace l
termination_by l.length
decreasing_by
  · exact P.shorter ‹_›
  · exact Nat.lt_succ_self _

variable {P f}

variable {l : List α}

theorem replace_hit {rest : List α} {value : β} (h : P.test l = some (value, rest)) :
    P.replace f l = (f value).getD (l.take (l.length - rest.length)) ++ P.replace f rest := by
  rw [replace]
  split
  · rename_i value' rest' hs
    rw [h, Option.some.injEq, Prod.mk.injEq] at hs
    rw [hs.1, hs.2]
  · rename_i hs
    rw [h] at hs
    nomatch hs

theorem replace_nil : P.replace f [] = [] := by
  rw [replace]
  split
  · rename_i rest hs
    exact absurd (P.shorter hs) (Nat.not_lt_zero _)
  · rfl

theorem replace_miss {a : α} (h : P.test (a :: l) = none) :
    P.replace f (a :: l) = a :: P.replace f l := by
  rw [replace]
  split
  · rename_i hs
    rw [h] at hs
    nomatch hs
  · rfl

theorem replace_skip {k : ℕ} (h : ∀ i < k, P.test (l.drop i) = none) :
    P.replace f l = l.take k ++ P.replace f (l.drop k) := by
  induction k generalizing l with
  | zero => rw [take_zero, drop_zero, nil_append]
  | succ k ih =>
    cases l with
    | nil => rw [take_nil, drop_nil, nil_append]
    | cons a l =>
      rw [replace_miss (h 0 (Nat.succ_pos k)), take_succ_cons, drop_succ_cons,
        cons_append, ih fun i hi ↦ h (i + 1) (Nat.succ_lt_succ hi)]

variable {text : List α} {p : ℕ}

theorem replace_pass {q : ℕ} (hle : p ≤ q) (h : ∀ i, p ≤ i → i < q → P.test (text.drop i) = none) :
    P.replace f (text.drop p) = text.slice p (q - p) ++ P.replace f (text.drop q) := by
  rw [replace_skip (k := q - p), drop_drop, Nat.add_sub_cancel' hle, List.slice]
  intro i hi
  rw [drop_drop]
  exact h _ (Nat.le_add_right _ _) (by omega)

theorem replace_none (h : ∀ i, P.test (l.drop i) = none) : P.replace f l = l := by
  rw [replace_skip (k := l.length) fun i _ ↦ h i, take_length, drop_length, replace_nil, append_nil]

theorem replace_rest (h : ∀ i, p ≤ i → P.test (text.drop i) = none) :
    P.replace f (text.drop p) = text.drop p :=
  replace_none fun i ↦ by rw [drop_drop]; exact h _ (Nat.le_add_right _ _)

end Pattern
