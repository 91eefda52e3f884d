import OpenCodex.Bridge.Events
import OpenCodex.Data.Bytes

/-!
# Searching a string from a place on

`text.indexOf(pattern, from)`, which the scanners of model output go from place to place with.
-/

set_option autoImplicit false

open List

namespace Text

open Bridge (indexOf)

/-- `text.indexOf(pattern, from)` -/
def indexOfFrom (pattern text : JsString) (start : ℕ) : Option ℕ :=
  (indexOf pattern (text.drop start)).map (start + ·)

variable {text pattern : JsString} {start i : ℕ}

theorem indexOfFrom_some (h : indexOfFrom pattern text start = some i) :
    start ≤ i ∧ pattern <+: text.drop i ∧ ∀ j, start ≤ j → j < i → ¬ pattern <+: text.drop j := by
  obtain ⟨k, hk, rfl⟩ := Option.map_eq_some_iff.mp h
  refine ⟨Nat.le_add_right _ _, ?_, fun j hj hlt hp ↦ ?_⟩
  · rw [← drop_drop]
    exact Bridge.indexOf_spec hk
  · obtain ⟨d, rfl⟩ := Nat.exists_eq_add_of_le hj
    rw [← drop_drop] at hp
    obtain ⟨i, hi, hle⟩ := Bridge.indexOf_le hp
    rw [hk, Option.some_inj] at hi
    omega

theorem indexOfFrom_none (h : indexOfFrom pattern text start = none) (j : ℕ) (hj : start ≤ j) :
    ¬ pattern <+: text.drop j := by
  intro hp
  obtain ⟨d, rfl⟩ := Nat.exists_eq_add_of_le hj
  rw [← drop_drop] at hp
  obtain ⟨i, hi, -⟩ := Bridge.indexOf_le hp
  rw [indexOfFrom, hi] at h
  nomatch h

theorem indexOfFrom_lt (hne : pattern ≠ []) (h : indexOfFrom pattern text start = some i) :
    i < text.length := by
  have := (indexOfFrom_some h).2.1.length_le
  rw [length_drop] at this
  have := length_pos_iff.mpr hne
  omega

/-! ### Searching for one unit -/

variable {c : CodeUnit}

theorem singleton_prefix_drop {j : ℕ} : [c] <+: text.drop j ↔ text[j]? = some c := by
  rw [← head?_drop]
  cases text.drop j with
  | nil => simp
  | cons d l => simp [cons_prefix_cons, eq_comm]

theorem not_mem_slice (h : ∀ j, start ≤ j → j < i → ¬ [c] <+: text.drop j) :
    c ∉ text.slice start (i - start) := by
  intro hm
  obtain ⟨j, hj, hget⟩ := getElem_of_mem hm
  have hlt : j < i - start :=
    lt_of_lt_of_le hj (by rw [List.slice, length_take]; exact min_le_left _ _)
  refine h (start + j) (Nat.le_add_right _ _) (by omega) (singleton_prefix_drop.mpr ?_)
  rw [← hget, ← getElem?_eq_getElem hj, List.slice, getElem?_take_of_lt hlt, getElem?_drop]

theorem not_mem_drop (h : indexOfFrom [c] text start = none) : c ∉ text.drop start := by
  intro hm
  obtain ⟨j, hj, hget⟩ := getElem_of_mem hm
  refine indexOfFrom_none h (start + j) (Nat.le_add_right _ _) (singleton_prefix_drop.mpr ?_)
  rw [← hget, ← getElem?_eq_getElem hj, getElem?_drop]

theorem drop_of_indexOfFrom (h : indexOfFrom [c] text start = some i) :
    text.drop i = c :: text.drop (i + 1) := by
  obtain ⟨rest, hrest⟩ := (indexOfFrom_some h).2.1
  rw [← drop_drop, ← hrest]
  rfl

end Text
