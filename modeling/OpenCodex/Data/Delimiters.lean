import Mathlib.Data.List.Infix

/-!
# Delimiters in a stream

A set of `Delimiters` is a mark and, behind it, one of some words, like `<` and a tag's name.  No
word has the mark in it and none begins with another one, so a text says at each place which
delimiter stands there, if any (`read`), and `search` finds the first.

Where the text comes in pieces, a search in what has arrived tells as much as one in the whole text
would.  A delimiter that is found is the first one in the whole text as well (`search_append`),
since another that begins before it would have to hold its mark.  Where none is found, all but as
many letters as the longest word has can be let go (`search_hold`): no delimiter begins there.
-/

set_option autoImplicit false

open List Option

universe u v

/-- Words that are introduced by a mark. -/
structure Delimiters (α : Type u) (β : Type v) where
  mark : α
  words : List (β × List α)
  /-- The mark is in no word. -/
  unmarked : ∀ {w : β × List α}, w ∈ words → mark ∉ w.2
  /-- No word begins with another one. -/
  prefixFree : words.Pairwise fun v w ↦ ¬ v.2 <+: w.2 ∧ ¬ w.2 <+: v.2

namespace Delimiters

variable {α : Type u} {β : Type v} [DecidableEq α] (D : Delimiters α β)

/-! ## Reading at a place -/

/-- The word a text begins with, and what follows it. -/
def readWord (words : List (β × List α)) (l : List α) : Option (β × List α) :=
  words.findSome? fun w ↦ if w.2 <+: l then some (w.1, l.drop w.2.length) else none

/-- The delimiter a text begins with, and what follows it. -/
def read : List α → Option (β × List α)
  | [] => none
  | a :: l => if a = D.mark then readWord D.words l else none

variable {l rest : List α} {value : β}

theorem readWord_eq_some {words : List (β × List α)}
    (hfree : words.Pairwise fun v w ↦ ¬ v.2 <+: w.2 ∧ ¬ w.2 <+: v.2) :
    readWord words l = some (value, rest) ↔ ∃ w, (value, w) ∈ words ∧ l = w ++ rest := by
  induction words with
  | nil => simp [readWord]
  | cons v words ih =>
    obtain ⟨hv, hfree⟩ := pairwise_cons.mp hfree
    rw [readWord, findSome?_cons]
    split_ifs with hp
    · constructor
      · intro h
        obtain ⟨rfl, rfl⟩ := Prod.mk.inj (some_inj.mp h)
        obtain ⟨more, rfl⟩ := hp
        exact ⟨v.2, mem_cons_self, by rw [drop_left]⟩
      · rintro ⟨w, hw, rfl⟩
        rcases mem_cons.mp hw with rfl | hw
        · rw [drop_left]
        · -- two words cannot begin the same text
          have := prefix_or_prefix_of_prefix hp (prefix_append w rest)
          exact absurd this (not_or.mpr (hv _ hw))
    · change readWord words l = _ ↔ _
      rw [ih hfree]
      refine exists_congr fun w ↦ and_congr_left fun hl ↦ ?_
      rw [mem_cons]
      refine ⟨Or.inr, fun h ↦ h.resolve_left ?_⟩
      rintro rfl
      exact hp (hl ▸ prefix_append w rest)

theorem read_eq_some :
    D.read l = some (value, rest) ↔ ∃ w, (value, w) ∈ D.words ∧ l = D.mark :: (w ++ rest) := by
  cases l with
  | nil => simp [read]
  | cons a l =>
    rw [read]
    split_ifs with ha
    · rw [readWord_eq_some D.prefixFree, ha]
      simp only [List.cons.injEq, true_and]
    · simp [ha]

variable {D}

theorem read_append (h : D.read l = some (value, rest)) (m : List α) :
    D.read (l ++ m) = some (value, rest ++ m) := by
  obtain ⟨w, hw, rfl⟩ := D.read_eq_some.mp h
  exact D.read_eq_some.mpr ⟨w, hw, by rw [cons_append, append_assoc]⟩

variable {m : List α}

theorem prefix_of_read_append (h : D.read l = none) (hm : D.read (l ++ m) = some (value, rest)) :
    ∃ w, (value, w) ∈ D.words ∧ l <+: D.mark :: w ∧ l.length < w.length + 1 := by
  obtain ⟨w, hw, hl⟩ := D.read_eq_some.mp hm
  have hlen : l.length < (D.mark :: w).length := by
    by_contra hge
    obtain ⟨more, rfl⟩ : D.mark :: w <+: l :=
      prefix_of_prefix_length_le (hl ▸ prefix_append _ rest) (prefix_append l m) (Nat.not_lt.mp hge)
    rw [D.read_eq_some.mpr ⟨w, hw, cons_append⟩] at h
    nomatch h
  exact ⟨w, hw, prefix_of_prefix_length_le (prefix_append l m)
    (hl ▸ prefix_append _ rest) hlen.le, hlen⟩

theorem read_shorter (h : D.read l = some (value, rest)) : rest.length < l.length := by
  obtain ⟨w, -, rfl⟩ := D.read_eq_some.mp h
  simp only [length_append, length_cons]
  omega

theorem read_rest_le (h : D.read l = none) (hm : D.read (l ++ m) = some (value, rest)) :
    rest.length ≤ m.length := by
  obtain ⟨w, hw, hl⟩ := D.read_eq_some.mp hm
  by_contra hgt
  obtain ⟨r, rfl⟩ : m <:+ rest := by
    refine suffix_of_suffix_length_le (suffix_append l m) ?_ (by omega)
    rw [hl, ← cons_append]
    exact suffix_append _ rest
  have hl' : l = D.mark :: (w ++ r) := by
    refine (append_left_inj m).mp ?_
    rw [hl]
    simp only [append_assoc, cons_append]
  rw [D.read_eq_some.mpr ⟨w, hw, hl'⟩] at h
  nomatch h

/-! ## Searching -/

variable (D) in
/-- The first delimiter: what stands before it, its value, and what follows it. -/
def search : List α → Option (List α × β × List α)
  | [] => none
  | a :: l =>
    match D.read (a :: l) with
    | some (value, rest) => some ([], value, rest)
    | none => (search l).map fun m ↦ (a :: m.1, m.2)

theorem search_of_read (h : D.read l = some (value, rest)) :
    D.search l = some ([], value, rest) := by
  cases l with
  | nil => nomatch h
  | cons a l => rw [search, h]

theorem search_of_not_read {a : α} (h : D.read (a :: l) = none) :
    D.search (a :: l) = (D.search l).map fun m ↦ (a :: m.1, m.2) := by
  rw [search, h]

theorem search_unmarked (h : D.mark ∉ l) (m : List α) :
    D.search (l ++ m) = (D.search m).map fun found ↦ (l ++ found.1, found.2) := by
  induction l with
  | nil => simp
  | cons a l ih =>
    obtain ⟨ha, hl⟩ := not_or.mp (mt mem_cons.mpr h)
    rw [cons_append, search_of_not_read (if_neg (Ne.symm ha)), ih hl, Option.map_map]
    rfl

theorem search_eq_none (h : D.mark ∉ l) : D.search l = none := by
  rw [← append_nil l, search_unmarked h []]
  rfl

theorem search_drop (h : D.search l = none) (k : ℕ) : D.search (l.drop k) = none := by
  induction k generalizing l with
  | zero => exact h
  | succ k ih =>
    cases l with
    | nil => rfl
    | cons a l =>
      refine ih ?_
      cases hr : D.read (a :: l) with
      | some found => rw [search_of_read hr] at h; nomatch h
      | none => rw [search_of_not_read hr] at h; exact map_eq_none_iff.mp h

variable {before : List α}

theorem search_spec (h : D.search l = some (before, value, rest)) :
    ∃ w, (value, w) ∈ D.words ∧ l = before ++ D.mark :: (w ++ rest) := by
  induction l generalizing before with
  | nil => nomatch h
  | cons a l ih =>
    cases hr : D.read (a :: l) with
    | some m =>
      rw [search_of_read hr, some_inj] at h
      obtain ⟨rfl, hm⟩ := Prod.mk.inj h
      rw [show m = (value, rest) from hm] at hr
      exact D.read_eq_some.mp hr
    | none =>
      rw [search_of_not_read hr] at h
      obtain ⟨m, hm, he⟩ := map_eq_some_iff.mp h
      obtain ⟨rfl, hm2⟩ := Prod.mk.inj he
      obtain ⟨w, hw, hl⟩ := ih (show D.search _ = some (m.1, value, rest) by rw [hm, ← hm2])
      exact ⟨w, hw, by rw [hl, cons_append]⟩

theorem search_shorter (h : D.search l = some (before, value, rest)) : rest.length < l.length := by
  obtain ⟨w, -, rfl⟩ := search_spec h
  simp only [length_append, length_cons]
  omega

theorem search_append (h : D.search l = some (before, value, rest)) (m : List α) :
    D.search (l ++ m) = some (before, value, rest ++ m) := by
  induction l generalizing before with
  | nil => nomatch h
  | cons a l ih =>
    cases hr : D.read (a :: l) with
    | some found =>
      rw [search_of_read hr, some_inj] at h
      obtain ⟨rfl, hfound⟩ := Prod.mk.inj h
      rw [show found = (value, rest) from hfound] at hr
      exact search_of_read (read_append hr m)
    | none =>
      rw [search_of_not_read hr] at h
      obtain ⟨found, hfound, he⟩ := map_eq_some_iff.mp h
      obtain ⟨rfl, hfound2⟩ := Prod.mk.inj he
      have hl : D.search l = some (found.1, value, rest) := by rw [hfound, ← hfound2]
      have hnone : D.read (a :: l ++ m) = none := by
        -- a delimiter that begins here would have the mark of the one that was found in it
        cases hm : D.read (a :: l ++ m) with
        | none => rfl
        | some n =>
          obtain ⟨w, hw, hp, -⟩ := prefix_of_read_append hr hm
          obtain ⟨v, -, rfl⟩ := search_spec hl
          have hmem : D.mark ∈ w := (cons_prefix_cons.mp hp).2.subset (by simp)
          exact absurd hmem (D.unmarked hw)
      rw [cons_append] at hnone ⊢
      rw [search_of_not_read hnone, ih hl]
      rfl

theorem rest_lt (h : D.search l = none) (hm : D.search (l ++ m) = some (before, value, rest)) :
    rest.length < m.length := by
  obtain ⟨w, hw, hl⟩ := search_spec hm
  by_contra hge
  obtain ⟨r, rfl⟩ : m <:+ rest := by
    refine suffix_of_suffix_length_le (suffix_append l m) ?_ (Nat.not_lt.mp hge)
    rw [hl, ← cons_append, ← append_assoc]
    exact suffix_append _ rest
  have hl' : l = before ++ D.mark :: (w ++ r) := by
    refine (append_left_inj m).mp ?_
    rw [hl]
    simp only [append_assoc, cons_append]
  have hnone := search_drop h before.length
  rw [hl', drop_left, search_of_read (D.read_eq_some.mpr ⟨w, hw, rfl⟩)] at hnone
  nomatch hnone

/-- Without a delimiter, what is further from the end than every word is long can be let go. -/
theorem search_hold {n k : ℕ} (h : D.search l = none)
    (hn : ∀ {w : β × List α}, w ∈ D.words → w.2.length ≤ n) (hk : k + n ≤ l.length) (m : List α) :
    D.search (l ++ m) =
      (D.search (l.drop k ++ m)).map fun found ↦ (l.take k ++ found.1, found.2) := by
  induction k generalizing l with
  | zero => simp
  | succ k ih =>
    cases l with
    | nil => exact absurd hk (by simp)
    | cons a l =>
      have hr : D.read (a :: l) = none := by
        cases hr : D.read (a :: l) with
        | none => rfl
        | some found => rw [search_of_read hr] at h; nomatch h
      rw [search_of_not_read hr, map_eq_none_iff] at h
      have hnone : D.read (a :: (l ++ m)) = none := by
        cases hm : D.read (a :: (l ++ m)) with
        | none => rfl
        | some found =>
          obtain ⟨w, hw, -, hlt⟩ := prefix_of_read_append (m := m) hr hm
          have : w.length ≤ n := hn hw
          rw [length_cons] at hlt hk
          omega
      rw [cons_append, search_of_not_read hnone,
        ih h (by rw [length_cons] at hk; omega), Option.map_map]
      rfl

end Delimiters
