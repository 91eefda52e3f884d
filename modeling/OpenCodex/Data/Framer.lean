import Mathlib.Data.List.Basic

/-!
# Frames off a rolling buffer

A stream of frames arrives in pieces.  A reader keeps what it has in a buffer and asks of it, again
and again, for a `Verdict`: it needs more, the frame at hand is malformed, or a frame stands at the
head.  A `Framer` is such a test, with the two things that make it independent of how the stream was
cut: a frame it finds is there, and takes at least one letter; and a verdict once given stands
whatever follows.

`drain` takes frames off a buffer while there are any.  Draining `l ++ m` is draining `l`, then
draining what is left of it and `m` (`drain_append`), so a reader that drains after each piece
(`readPieces`) comes to exactly what draining the whole stream at once gives, frames, errors and all
(`readPieces_eq_drain`).

A reader may also take so many frames at a time (`takeUpTo`, `readTurns`, `drain_readTurns`).
-/

set_option autoImplicit false

open List

universe u v w

/-- What a test says of the letters at hand. -/
inductive Verdict (ε : Type u) (β : Type v) where
  | more
  | fail (error : ε)
  /-- The first so many letters are a frame. -/
  | frame (size : ℕ) (value : β)

/-- A test for frames whose verdicts do not depend on what has not arrived. -/
structure Framer (α : Type w) (ε : Type u) (β : Type v) where
  test : List α → Verdict ε β
  /-- A frame is not empty, and it is all there. -/
  size_pos : ∀ {l : List α} {size : ℕ} {value : β}, test l = .frame size value →
    0 < size ∧ size ≤ l.length
  /-- A malformed head stays so. -/
  fail_stands : ∀ {l : List α} {error : ε}, test l = .fail error →
    ∀ m, test (l ++ m) = .fail error
  frame_stands : ∀ {l : List α} {size : ℕ} {value : β}, test l = .frame size value →
    ∀ m, test (l ++ m) = .frame size value

namespace Framer

variable {α : Type w} {ε : Type u} {β : Type v} (F : Framer α ε β)

/-- The frames at the head of a buffer, and what is left, or the error that ends them. -/
def drain (l : List α) : List β × Except ε (List α) :=
  match _ : F.test l with
  | .more => ([], .ok l)
  | .fail error => ([], .error error)
  | .frame size value => (value :: (drain (l.drop size)).1, (drain (l.drop size)).2)
termination_by l.length
decreasing_by
  all_goals
    have hsize := F.size_pos ‹_›
    simp only [length_drop]
    omega

variable {F}

variable {l : List α}

theorem drain_more (h : F.test l = .more) : F.drain l = ([], .ok l) := by
  rw [drain]
  split
  · rfl
  · rename_i hs; rw [h] at hs; nomatch hs
  · rename_i hs; rw [h] at hs; nomatch hs

variable {error : ε}

theorem drain_fail (h : F.test l = .fail error) : F.drain l = ([], .error error) := by
  rw [drain]
  split
  · rename_i hs; rw [h] at hs; nomatch hs
  · rename_i error' hs
    rw [h, Verdict.fail.injEq] at hs
    rw [hs]
  · rename_i hs; rw [h] at hs; nomatch hs

variable {size : ℕ} {value : β}

theorem drain_frame (h : F.test l = .frame size value) :
    F.drain l = (value :: (F.drain (l.drop size)).1, (F.drain (l.drop size)).2) := by
  rw [drain]
  split
  · rename_i hs; rw [h] at hs; nomatch hs
  · rename_i hs; rw [h] at hs; nomatch hs
  · rename_i size' value' hs
    rw [h, Verdict.frame.injEq] at hs
    obtain ⟨rfl, rfl⟩ := hs
    rfl

/-- Go on with what a drain has left. -/
def andThen (r : List β × Except ε (List α)) (next : List α → List β × Except ε (List α)) :
    List β × Except ε (List α) :=
  match r.2 with
  | .error error => (r.1, .error error)
  | .ok rest => (r.1 ++ (next rest).1, (next rest).2)

theorem andThen_error (values : List β) (error : ε) (next : List α → List β × Except ε (List α)) :
    andThen (values, .error error) next = (values, .error error) := rfl

theorem andThen_ok (values : List β) (rest : List α) (next : List α → List β × Except ε (List α)) :
    andThen (values, .ok rest) next = (values ++ (next rest).1, (next rest).2) := rfl

theorem andThen_cons (value : β) (r : List β × Except ε (List α))
    (next : List α → List β × Except ε (List α)) :
    andThen (value :: r.1, r.2) next = (value :: (andThen r next).1, (andThen r next).2) := by
  obtain ⟨values, error | rest⟩ := r <;> rfl

/-- **A drain may stop anywhere**: what it has left, with what follows, gives the rest. -/
theorem drain_append (l m : List α) :
    F.drain (l ++ m) = andThen (F.drain l) fun rest ↦ F.drain (rest ++ m) := by
  induction h : l.length using Nat.strongRecOn generalizing l with
  | _ n ih =>
    cases hs : F.test l with
    | more => rw [drain_more hs, andThen_ok, nil_append]
    | fail error => rw [drain_fail hs, drain_fail (F.fail_stands hs m), andThen_error]
    | frame size value =>
      obtain ⟨hpos, hsize⟩ := F.size_pos hs
      rw [drain_frame hs, drain_frame (F.frame_stands hs m),
        drop_append_of_le_length hsize, andThen_cons,
        ih (l.drop size).length (by rw [length_drop]; omega) _ rfl]

theorem test_of_drain {rest : List α} {values : List β} (h : F.drain l = (values, .ok rest)) :
    F.test rest = .more := by
  induction hl : l.length using Nat.strongRecOn generalizing l values with
  | _ n ih =>
    cases hs : F.test l with
    | more =>
      rw [drain_more hs, Prod.mk.injEq, Except.ok.injEq] at h
      rw [← h.2]
      exact hs
    | fail error =>
      rw [drain_fail hs, Prod.mk.injEq] at h
      exact absurd h.2 (by simp)
    | frame size value =>
      obtain ⟨hpos, hsize⟩ := F.size_pos hs
      rw [drain_frame hs, Prod.mk.injEq] at h
      have hrest : F.drain (l.drop size) = ((F.drain (l.drop size)).1, .ok rest) := Prod.ext rfl h.2
      exact ih (l.drop size).length (by rw [length_drop]; omega) hrest rfl

variable (F)

/-- A reader: after each piece it drains what it has, and once more when the stream ends. -/
def readPieces : List (List α) → List α → List β × Except ε (List α)
  | [], buf => F.drain buf
  | piece :: pieces, buf => andThen (F.drain (buf ++ piece)) (readPieces pieces)

/-- **However the stream was cut**, a reader comes to what the whole of it gives. -/
theorem readPieces_eq_drain (pieces : List (List α)) (buf : List α) :
    F.readPieces pieces buf = F.drain (buf ++ pieces.flatten) := by
  induction pieces generalizing buf with
  | nil => rw [readPieces, flatten_nil, append_nil]
  | cons piece pieces ih =>
    rw [readPieces, flatten_cons, ← append_assoc, drain_append (buf ++ piece)]
    congr 1
    funext rest
    exact ih rest

/-! ## Taking some frames only -/

/-- At most `n` frames off the head of a buffer. -/
def drainSome : ℕ → List α → List β × Except ε (List α)
  | 0, l => ([], .ok l)
  | n + 1, l =>
    match F.test l with
    | .more => ([], .ok l)
    | .fail error => ([], .error error)
    | .frame size value =>
      (value :: (drainSome n (l.drop size)).1, (drainSome n (l.drop size)).2)

variable {F}

theorem drainSome_more (h : F.test l = .more) (n : ℕ) : F.drainSome n l = ([], .ok l) := by
  cases n with
  | zero => rfl
  | succ n => rw [drainSome, h]

theorem drainSome_fail (h : F.test l = .fail error) (n : ℕ) :
    F.drainSome (n + 1) l = ([], .error error) := by
  rw [drainSome, h]

theorem drainSome_frame (h : F.test l = .frame size value) (n : ℕ) : F.drainSome (n + 1) l =
      (value :: (F.drainSome n (l.drop size)).1, (F.drainSome n (l.drop size)).2) := by
  rw [drainSome, h]

/-- **A drain may stop after some frames**: what it has left, with what follows, gives the rest. -/
theorem drain_drainSome (n : ℕ) (l m : List α) :
    F.drain (l ++ m) = andThen (F.drainSome n l) fun rest ↦ F.drain (rest ++ m) := by
  induction n generalizing l with
  | zero => rw [drainSome, andThen_ok, nil_append]
  | succ n ih =>
    cases hs : F.test l with
    | more => rw [drainSome_more hs, andThen_ok, nil_append]
    | fail error => rw [drain_fail (F.fail_stands hs m), drainSome_fail hs, andThen_error]
    | frame size value =>
      rw [drain_frame (F.frame_stands hs m), drainSome_frame hs,
        drop_append_of_le_length (F.size_pos hs).2, andThen_cons, ih]

/-- With room for as many frames as there are letters, nothing is left that could be taken. -/
theorem drainSome_eq_drain {n : ℕ} (h : l.length < n) : F.drainSome n l = F.drain l := by
  induction n generalizing l with
  | zero => exact absurd h (Nat.not_lt_zero _)
  | succ n ih =>
    cases hs : F.test l with
    | more => rw [drainSome_more hs, drain_more hs]
    | fail error => rw [drainSome_fail hs, drain_fail hs]
    | frame size value =>
      obtain ⟨hpos, hsize⟩ := F.size_pos hs
      rw [drainSome_frame hs, drain_frame hs, ih (by rw [length_drop]; omega)]

theorem drainSome_min (n : ℕ) (l : List α) :
    F.drainSome (min n (l.length + 1)) l = F.drainSome n l := by
  rcases Nat.le_total n (l.length + 1) with h | h
  · rw [Nat.min_eq_left h]
  · rw [Nat.min_eq_right h, drainSome_eq_drain (Nat.lt_succ_self _), drainSome_eq_drain h]

variable (F)

/-- The frames a reader takes that has room for so many; `none` is no bound. -/
def takeUpTo (room : Option ℕ) (l : List α) : List β × Except ε (List α) :=
  match room with
  | none => F.drain l
  | some n => F.drainSome n l

variable {F}

theorem drain_takeUpTo (room : Option ℕ) (l m : List α) :
    F.drain (l ++ m) = andThen (F.takeUpTo room l) fun rest ↦ F.drain (rest ++ m) := by
  cases room with
  | none => exact drain_append l m
  | some n => exact drain_drainSome n l m

variable (F)

/-- A reader that has so much room after each piece. -/
def readTurns : List (Option ℕ × List α) → List α → List β × Except ε (List α)
  | [], buf => ([], .ok buf)
  | turn :: turns, buf => andThen (F.takeUpTo turn.1 (buf ++ turn.2)) (readTurns turns)

variable {F}

theorem andThen_andThen (r : List β × Except ε (List α))
    (next next' : List α → List β × Except ε (List α)) :
    andThen (andThen r next) next' = andThen r fun rest ↦ andThen (next rest) next' := by
  obtain ⟨values, error | rest⟩ := r
  · rfl
  · rw [andThen_ok, andThen_ok]
    obtain ⟨values', error | rest'⟩ := next rest
    · rfl
    · rw [andThen_ok, andThen_ok, append_assoc]

/-- **What a reader took and what it has left is the whole stream**, whatever room it had. -/
theorem drain_readTurns (turns : List (Option ℕ × List α)) (buf : List α) :
    F.drain (buf ++ (turns.map (·.2)).flatten) = andThen (F.readTurns turns buf) F.drain := by
  induction turns generalizing buf with
  | nil => rw [map_nil, flatten_nil, append_nil, readTurns, andThen_ok,
      nil_append]
  | cons turn turns ih =>
    rw [map_cons, flatten_cons, ← append_assoc, readTurns, andThen_andThen,
      drain_takeUpTo turn.1 (buf ++ turn.2)]
    congr 1
    funext rest
    exact ih rest

end Framer
