import Mathlib.Data.List.DropRight

/-!
# Windows that roll over a stream

`RollingWindow α` keeps the last letters of a stream in a buffer of fixed size that is written round:
the letters stand from `start` on, `length` of them, and go on at the front of the buffer where its end
is reached.  A piece is appended by at most two copies, after as many letters as must go have been
dropped by moving `start`.

The abstraction is `contents`, the letters in their order.  Each operation is compared with it once:
to append is to append and to keep the last letters that fit (`contents_append`,
`contents_appendByte`, `contents_appendWindow`).
-/

set_option autoImplicit false

open List Option Nat

universe u

namespace List

variable {α : Type u} {n : ℕ}

theorem rtake_of_length_le {l : List α} (h : l.length ≤ n) : l.rtake n = l := by
  rw [rtake, Nat.sub_eq_zero_of_le h, drop_zero]

theorem rtake_rtake_append (l m : List α) : (l.rtake n ++ m).rtake n = (l ++ m).rtake n := by
  rw [rtake, rtake, rtake, length_append, length_append, length_drop]
  rcases le_total l.length n with hle | hle
  · rw [Nat.sub_eq_zero_of_le hle, drop_zero, Nat.sub_zero]
  · rw [show l.length - (l.length - n) + m.length - n = m.length by omega,
      show l.length + m.length - n = l.length - n + m.length by omega, ← drop_drop,
      drop_append_of_le_length (show l.length - n ≤ l.length by omega)]

theorem rtake_append_of_le {l m : List α} (h : n ≤ m.length) : (l ++ m).rtake n = m.rtake n := by
  rw [rtake, rtake, length_append, drop_append, drop_eq_nil_of_le (by omega), nil_append]
  congr 1
  omega

end List

/-- A buffer that is written round; its positions are the numbers below `capacity`. -/
structure RollingWindow (α : Type u) where
  capacity : ℕ
  bytes : ℕ → α
  start : ℕ
  length : ℕ

namespace RollingWindow

variable {α : Type u}

/-- `source.copy(bytes, at)` -/
def copyTo (bytes : ℕ → α) (source : List α) (position : ℕ) : ℕ → α := fun i ↦
  if position ≤ i then (source[i - position]?).getD (bytes i) else bytes i

/-- The two stretches of the buffer that hold the letters. -/
def stretches (w : RollingWindow α) : List α × List α :=
  let firstLength := min w.length (w.capacity - w.start)
  ((List.range firstLength).map fun i ↦ w.bytes (w.start + i),
    (List.range (w.length - firstLength)).map w.bytes)

/-- The letters in their order. -/
def contents (w : RollingWindow α) : List α :=
  (List.range w.length).map fun i ↦ w.bytes ((w.start + i) % w.capacity)

def append (w : RollingWindow α) (source : List α) : RollingWindow α :=
  if source = [] then w
  else if w.capacity ≤ source.length then
    { w with
      bytes := copyTo w.bytes (source.drop (source.length - w.capacity)) 0
      start := 0
      length := w.capacity }
  else
    let overflow := w.length + source.length - w.capacity
    let start := (w.start + overflow) % w.capacity
    let length := w.length - overflow
    let writeAt := (start + length) % w.capacity
    let firstLength := min source.length (w.capacity - writeAt)
    { w with
      bytes := copyTo (copyTo w.bytes (source.take firstLength) writeAt) (source.drop firstLength) 0
      start := start
      length := length + source.length }

def appendByte (w : RollingWindow α) (byte : α) : RollingWindow α :=
  if w.length < w.capacity then
    { w with
      bytes := copyTo w.bytes [byte] ((w.start + w.length) % w.capacity)
      length := w.length + 1 }
  else
    { w with
      bytes := copyTo w.bytes [byte] w.start
      start := (w.start + 1) % w.capacity }

def appendWindow (w source : RollingWindow α) : RollingWindow α :=
  (w.append source.stretches.1).append source.stretches.2

def reset (w : RollingWindow α) : RollingWindow α := { w with start := 0, length := 0 }

/-- What every operation keeps. -/
structure Fits (w : RollingWindow α) : Prop where
  start_lt : w.start < w.capacity
  length_le : w.length ≤ w.capacity

variable {w : RollingWindow α}

/-! ## Positions -/

theorem mod_eq {a b c : ℕ} (ha : a < c) (hb : b ≤ c) :
    (a + b) % c = if a + b < c then a + b else a + b - c := by
  split_ifs with h
  · exact mod_eq_of_lt h
  · rw [mod_eq_sub_mod (by omega), mod_eq_of_lt (by omega)]

theorem length_contents (w : RollingWindow α) : w.contents.length = w.length := by
  rw [contents, length_map, length_range]

theorem getElem?_contents {i : ℕ} (h : i < w.length) :
    w.contents[i]? = some (w.bytes ((w.start + i) % w.capacity)) := by
  rw [contents, getElem?_map, getElem?_range h, map_some]

theorem contents_eq (h : w.Fits) : w.contents = w.stretches.1 ++ w.stretches.2 := by
  have hstart := h.start_lt
  have hlength := h.length_le
  refine ext_getElem? fun i ↦ ?_
  simp only [stretches]
  by_cases hi : i < w.length
  · rw [getElem?_contents hi, mod_eq hstart (by omega)]
    by_cases hfirst : i < min w.length (w.capacity - w.start)
    · rw [getElem?_append_left (by simpa using hfirst), getElem?_map,
        getElem?_range hfirst, map_some, if_pos (by omega)]
    · rw [getElem?_append_right (by rw [length_map, length_range]; omega),
        getElem?_map, length_map, length_range, getElem?_range (by omega),
        map_some, if_neg (by omega)]
      congr 2
      omega
  · rw [getElem?_eq_none (by rw [length_contents]; omega), getElem?_eq_none (by simp; omega)]

/-- The two copies together: each position gets the letter as far on in the source as the position is
behind the first one. -/
theorem copyTo_copyTo {bytes : ℕ → α} {source : List α} {writeAt capacity i : ℕ}
    (hi : i < capacity) (hwrite : writeAt < capacity) (hsource : source.length < capacity) :
    copyTo (copyTo bytes (source.take (min source.length (capacity - writeAt))) writeAt)
        (source.drop (min source.length (capacity - writeAt))) 0 i =
      (source[if writeAt ≤ i then i - writeAt else i + capacity - writeAt]?).getD (bytes i) := by
  simp only [copyTo, Nat.zero_le, if_true, Nat.sub_zero, getElem?_drop, getElem?_take]
  by_cases hw : writeAt ≤ i
  · rw [if_pos hw, if_pos hw, getElem?_eq_none (by omega), getD_none]
    split_ifs
    · rfl
    · rw [getElem?_eq_none (by omega)]
  · rw [if_neg hw, if_neg hw]
    by_cases hn : source.length ≤ capacity - writeAt
    · rw [getElem?_eq_none (by omega), getElem?_eq_none (by omega)]
    · rw [show min source.length (capacity - writeAt) + i = i + capacity - writeAt by omega]

/-! ## Appending -/

theorem contents_append (h : w.Fits) (source : List α) :
    (w.append source).Fits ∧ (w.append source).capacity = w.capacity ∧
      (w.append source).contents = (w.contents ++ source).rtake w.capacity := by
  have hstart := h.start_lt
  have hlength := h.length_le
  rw [append]
  split_ifs with hnil hlong
  · refine ⟨h, rfl, ?_⟩
    rw [hnil, append_nil, List.rtake_of_length_le (by rwa [length_contents])]
  · refine ⟨⟨by simp only; omega, le_refl _⟩, rfl, ?_⟩
    rw [List.rtake_append_of_le hlong, List.rtake]
    refine ext_getElem? fun i ↦ ?_
    by_cases hi : i < w.capacity
    · rw [getElem?_contents hi]
      simp only [copyTo, Nat.zero_add, Nat.zero_le, if_true, Nat.sub_zero, Nat.mod_eq_of_lt hi]
      rw [getElem?_eq_getElem (by rw [length_drop]; omega), getD_some]
    · rw [getElem?_eq_none (by rw [length_contents]; exact not_lt.mp hi),
        getElem?_eq_none (by rw [length_drop]; omega)]
  · -- the letters that stay, and then those of the source, one position after the other
    refine ⟨⟨mod_lt _ (by omega), by simp only; omega⟩, rfl, ?_⟩
    rw [List.rtake, length_append, length_contents]
    simp only
    generalize hoverflow : w.length + source.length - w.capacity = overflow
    generalize hstart' : (w.start + overflow) % w.capacity = start
    generalize hwrite : (start + (w.length - overflow)) % w.capacity = writeAt
    have hstartlt : start < w.capacity := hstart' ▸ mod_lt _ (by omega)
    have hwritelt : writeAt < w.capacity := hwrite ▸ mod_lt _ (by omega)
    rw [mod_eq hstart (by omega)] at hstart'
    rw [mod_eq hstartlt (by omega)] at hwrite
    refine ext_getElem? fun i ↦ ?_
    by_cases hi : i < w.length - overflow + source.length
    · have hp := mod_eq hstartlt (show i ≤ w.capacity by omega)
      rw [getElem?_contents hi, getElem?_drop]
      simp only
      rw [copyTo_copyTo (mod_lt _ (by omega)) hwritelt (not_le.mp hlong), hp]
      by_cases hold : i < w.length - overflow
      · rw [getElem?_append_left (by rw [length_contents]; omega), getElem?_contents (by omega),
          getElem?_eq_none (by split_ifs at hstart' hwrite ⊢ <;> omega), getD_none,
          mod_eq hstart (by omega)]
        congr 2
        split_ifs at hstart' ⊢ <;> omega
      · rw [getElem?_append_right (by rw [length_contents]; omega), length_contents,
          show overflow + i - w.length = i - (w.length - overflow) by omega]
        have hoffset : (if writeAt ≤ if start + i < w.capacity then start + i
            else start + i - w.capacity then
              (if start + i < w.capacity then start + i else start + i - w.capacity) - writeAt
            else (if start + i < w.capacity then start + i else start + i - w.capacity) +
              w.capacity - writeAt) = i - (w.length - overflow) := by
          split_ifs at hstart' hwrite ⊢ <;> omega
        rw [hoffset, getElem?_eq_getElem (by omega), getD_some]
    · rw [getElem?_eq_none (by rw [length_contents]; exact not_lt.mp hi),
        getElem?_eq_none (by rw [length_drop, length_append, length_contents]; omega)]

theorem appendByte_eq (h : w.Fits) (hcapacity : 1 < w.capacity) (byte : α) :
    w.appendByte byte = w.append [byte] := by
  have hstart := h.start_lt
  have hlength := h.length_le
  rw [append, if_neg (cons_ne_nil byte []), if_neg (by simpa using hcapacity), appendByte]
  have hcopy {position : ℕ} (hposition : position < w.capacity) :
      copyTo (copyTo w.bytes ([byte].take (min 1 (w.capacity - position))) position)
        ([byte].drop (min 1 (w.capacity - position))) 0 = copyTo w.bytes [byte] position := by
    rw [min_eq_left (by omega)]
    funext i
    simp [copyTo]
  simp only [length_singleton]
  split_ifs with hroom
  · rw [show w.length + 1 - w.capacity = 0 by omega, Nat.add_zero w.start, Nat.sub_zero,
      mod_eq_of_lt hstart, hcopy (mod_lt _ (by omega))]
  · rw [show w.length + 1 - w.capacity = 1 by omega, mod_add_mod,
      show w.start + 1 + (w.length - 1) = w.start + w.capacity by omega, add_mod_right,
      Nat.mod_eq_of_lt hstart, Nat.sub_add_cancel (by omega), hcopy hstart]

theorem contents_appendWindow (h : w.Fits) {source : RollingWindow α} (hsource : source.Fits) :
    (w.appendWindow source).Fits ∧ (w.appendWindow source).capacity = w.capacity ∧
      (w.appendWindow source).contents = (w.contents ++ source.contents).rtake w.capacity := by
  obtain ⟨hfits, hcapacity, hcontents⟩ := contents_append h source.stretches.1
  obtain ⟨hfits', hcapacity', hcontents'⟩ := contents_append hfits source.stretches.2
  refine ⟨hfits', hcapacity'.trans hcapacity, ?_⟩
  rw [appendWindow, hcontents', hcapacity, hcontents, List.rtake_rtake_append, append_assoc,
    ← contents_eq hsource]

theorem fits_reset (h : w.Fits) : w.reset.Fits := ⟨zero_lt_of_lt h.start_lt, zero_le _⟩

end RollingWindow
