import Mathlib.Data.List.Basic

/-!
# Cutting a word at its delimiters

A *delimiter recogniser* says how many letters of a word belong to a delimiter at its head, `0` when
no delimiter stands there.  `Cutting.blocks d acc l` cuts `l` from left to right at the delimiters
that `d` finds, the first block beginning with what was read before, `acc`: it is the list of the
blocks that are closed by a delimiter, and the block that is not.

A machine that reads the word in pieces knows at every moment the blocks it has closed, what it has
read of the open one, and the rest of the piece it is looking at.  `Cutting.Frontier` is the relation
of such a moment to the whole word: whatever follows, cutting the whole gives the closed blocks and
then what cutting the remainder gives.  Its rules are the moves of a machine: take a letter into the
open block, close the block at a delimiter, read the next piece, stop.

A delimiter may be closed before it is known how long it is.  `late` names the letter that still
belongs to it if it comes next; a machine that is waiting for it skips that letter.
-/

set_option autoImplicit false

open List

universe u

variable {α : Type u}

namespace Cutting

/-- The blocks of a word closed by a delimiter, and the last one. -/
def blocks (d : List α → ℕ) (acc : List α) : List α → List (List α) × List α
  | [] => ([], acc)
  | a :: l =>
    if d (a :: l) = 0 then blocks d (acc ++ [a]) l
    else
      let r := blocks d [] (l.drop (d (a :: l) - 1))
      (acc :: r.1, r.2)
termination_by l => l.length
decreasing_by
  · simp
  · simp only [length_drop, length_cons]; omega

variable {d : List α → ℕ}

@[simp] theorem blocks_nil (acc : List α) : blocks d acc [] = ([], acc) := by rw [blocks]

variable {a : α} {l : List α}

theorem blocks_letter (h : d (a :: l) = 0) (acc : List α) :
    blocks d acc (a :: l) = blocks d (acc ++ [a]) l := by
  rw [blocks, if_pos h]

theorem blocks_delimiter (hl : l ≠ []) (h : d l ≠ 0) (acc : List α) :
    blocks d acc l = (acc :: (blocks d [] (l.drop (d l))).1, (blocks d [] (l.drop (d l))).2) := by
  cases l with
  | nil => exact absurd rfl hl
  | cons a l =>
    obtain ⟨n, hn⟩ := Nat.exists_eq_succ_of_ne_zero h
    rw [blocks, if_neg h, hn]
    rfl

/-- What was read before belongs to the first block, or to the last where no block is closed. -/
theorem acc_opens (acc l : List α) :
    acc <+: ((blocks d acc l).1.head?.getD (blocks d acc l).2) := by
  fun_induction blocks d acc l with
  | case1 acc => exact prefix_refl _
  | case2 acc a l _ ih => exact (prefix_append acc [a]).trans ih
  | case3 acc a l _ r ih => exact prefix_refl _

theorem length_blocks_le (acc l : List α) :
    (∀ block ∈ (blocks d acc l).1, block.length ≤ acc.length + l.length) ∧
      (blocks d acc l).2.length ≤ acc.length + l.length := by
  fun_induction blocks d acc l with
  | case1 acc => simp
  | case2 acc a l _ ih =>
    simp only [length_append, length_cons, length_nil] at ih ⊢
    exact ⟨fun block hblock ↦ by have := ih.1 block hblock; omega, by omega⟩
  | case3 acc a l _ r ih =>
    simp only [length_drop, length_nil] at ih
    rw [length_cons]
    refine ⟨fun block hblock ↦ ?_, Nat.le_trans ih.2 (by omega)⟩
    rcases mem_cons.mp hblock with rfl | hblock
    · omega
    · exact Nat.le_trans (ih.1 block hblock) (by omega)

/-- The letters after one that a closed delimiter was waiting for. -/
def skip (late : α → Bool) (waiting : Bool) (l : List α) : List α :=
  match l with
  | [] => []
  | a :: l' => if waiting && late a then l' else l

@[simp] theorem skip_nil (late : α → Bool) (waiting : Bool) : skip late waiting [] = [] := rfl

@[simp] theorem skip_false (late : α → Bool) (l : List α) : skip late false l = l := by
  cases l <;> rfl

variable (d) (late : α → Bool)

/-- A moment in the cutting of a word of which `whole` has been read: the blocks closed so far, what
was read of the open one, whether a late letter of the last delimiter may still come, and the part
of `whole` that is not yet decided. -/
structure Frontier (whole : List α) (closed : List (List α)) (acc : List α) (waiting : Bool)
    (rest : List α) : Prop where
  /-- What the whole word is cut into, whatever follows. -/
  cut : ∀ ext, blocks d [] (whole ++ ext) =
    (closed ++ (blocks d acc (skip late waiting (rest ++ ext))).1,
      (blocks d acc (skip late waiting (rest ++ ext))).2)
  /-- A late letter is waited for between two blocks only. -/
  between : waiting = true → acc = [] ∧ rest = []

variable {d late} {whole acc rest : List α} {closed : List (List α)} {waiting : Bool}

namespace Frontier

variable (d late) in
theorem start : Frontier d late [] [] [] false [] where
  cut ext := by simp
  between h := by simp at h

theorem read (h : Frontier d late whole closed acc waiting rest) {piece : List α}
    (hne : rest ++ piece ≠ []) :
    Frontier d late (whole ++ piece) closed acc false (skip late waiting (rest ++ piece)) where
  cut ext := by
    rw [append_assoc, h.cut, skip_false, ← append_assoc]
    cases waiting with
    | false => simp
    | true =>
      generalize rest ++ piece = l at hne
      cases l with
      | nil => exact absurd rfl hne
      | cons a l =>
        simp only [cons_append, skip]
        split <;> rfl
  between h := by simp at h

/-- A letter at which no delimiter begins, whatever follows, belongs to the open block. -/
theorem letter (h : Frontier d late whole closed acc false (a :: rest))
    (ha : ∀ ext, d (a :: rest ++ ext) = 0) :
    Frontier d late whole closed (acc ++ [a]) false rest where
  cut ext := by
    have hcut := h.cut ext
    rw [skip_false, cons_append, blocks_letter (by rw [← cons_append, ha])] at hcut
    rw [hcut, skip_false]
  between h := by simp at h

variable {n : ℕ}

theorem letters (h : Frontier d late whole closed acc false rest) (hn : n ≤ rest.length)
    (hletters : ∀ j < n, ∀ ext, d (rest.drop j ++ ext) = 0) :
    Frontier d late whole closed (acc ++ rest.take n) false (rest.drop n) := by
  induction n with
  | zero => simpa using h
  | succ n ih =>
    have hlt : n < rest.length := hn
    have hnext := ih (Nat.le_of_lt hlt) fun j hj ↦ hletters j (Nat.lt_succ_of_lt hj)
    have hzero := hletters n (Nat.lt_succ_self n)
    rw [drop_eq_getElem_cons hlt] at hnext hzero
    have hmore := hnext.letter hzero
    rwa [append_assoc, take_append_getElem hlt] at hmore

theorem close (h : Frontier d late whole closed acc false rest) (hn : n ≠ 0)
    (hd : ∀ ext, d (rest ++ ext) = n) (hle : n ≤ rest.length) :
    Frontier d late whole (closed ++ [acc]) [] false (rest.drop n) where
  cut ext := by
    have hne : rest ++ ext ≠ [] := by
      intro hnil
      rw [append_eq_nil_iff] at hnil
      rw [hnil.1, length_nil] at hle
      omega
    have hcut := h.cut ext
    rw [skip_false, blocks_delimiter hne (by rw [hd]; exact hn), hd,
      drop_append_of_le_length hle] at hcut
    rw [hcut, skip_false, append_assoc]
    rfl
  between h := by simp at h

/-- A delimiter that ends the piece closes the block; a late letter of it may follow. -/
theorem closeLate (h : Frontier d late whole closed acc false rest) (hne : rest ≠ [])
    (hd : ∀ a ext, d (rest ++ a :: ext) = rest.length + if late a then 1 else 0)
    (hnil : d rest = rest.length) : Frontier d late whole (closed ++ [acc]) [] true [] where
  cut ext := by
    have hcut := h.cut ext
    cases ext with
    | nil =>
      rw [skip_false, append_nil, append_nil, blocks_delimiter hne
        (by rw [hnil]; simpa using hne), hnil, drop_length] at hcut
      rw [append_nil, hcut]
      simp
    | cons a ext =>
      have hpos := length_pos_iff.2 hne
      have hd' := hd a ext
      have hdrop : (rest ++ a :: ext).drop (rest.length + if late a then 1 else 0) =
          skip late true (a :: ext) := by
        rw [drop_append, drop_of_length_le (by omega), nil_append, skip]
        cases late a <;> simp
      rw [skip_false, blocks_delimiter (l := rest ++ a :: ext) (by simp) (by omega), hd',
        hdrop] at hcut
      rw [hcut, append_assoc]
      rfl
  between _ := ⟨rfl, rfl⟩

theorem stop (h : Frontier d late whole closed acc waiting rest)
    (hrest : blocks d acc (skip late waiting rest) = ([], acc ++ rest)) :
    blocks d [] whole = (closed, acc ++ rest) := by
  have hcut := h.cut []
  rw [append_nil, append_nil, hrest, append_nil] at hcut
  exact hcut

theorem waiting_false (h : Frontier d late whole closed acc waiting rest) (hne : rest ≠ []) :
    waiting = false := by
  cases waiting with
  | false => rfl
  | true => exact absurd (h.between rfl).2 hne

theorem length_acc_le (h : Frontier d late whole closed acc waiting rest) {ext : List α}
    (hblocks : ∀ block ∈ (blocks d [] (whole ++ ext)).1, block.length ≤ n)
    (hlast : (blocks d [] (whole ++ ext)).2.length ≤ n) : acc.length ≤ n := by
  rw [h.cut] at hblocks hlast
  refine Nat.le_trans (acc_opens (d := d) acc (skip late waiting (rest ++ ext))).length_le ?_
  cases hcut : (blocks d acc (skip late waiting (rest ++ ext))).1 with
  | nil => exact hlast
  | cons block later => exact hblocks block (by simp [hcut])

theorem closed_kept (h : Frontier d late whole closed acc waiting rest) (ext : List α) :
    closed <+: (blocks d [] (whole ++ ext)).1 := by
  rw [h.cut]
  exact prefix_append _ _

end Frontier

end Cutting
