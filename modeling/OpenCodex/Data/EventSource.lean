import OpenCodex.Data.Utf8Ascii
import OpenCodex.Data.Utf8Strict

/-!
# Server-sent events, as a client reads them

A client decodes the bytes of a stream to code points, cuts these into lines at CR, LF or both, and
collects the fields of an event until an empty line dispatches it.  An event that has got no data is
not dispatched, and what is left behind the last empty line is dropped.

`run` reads one code point at a time, so that what a stream says so far is there without its end:
the events of the beginning of a stream are the first events of the stream (`events_append`), and
what the rest adds depends on the state in which it finds the reader.
-/

set_option autoImplicit false

open List Utf8

namespace EventSource

/-- The code points of a literal. -/
def chars (s : String) : List ℕ := s.toList.map Char.toNat

structure Event where
  type : List ℕ
  data : List ℕ
  lastEventId : List ℕ
  deriving DecidableEq, Repr

/-- The reader between two code points. -/
structure State where
  /-- What was read of the line. -/
  line : List ℕ
  /-- The line before was ended by a CR, to which an LF may belong. -/
  afterCr : Bool
  data : List ℕ
  type : List ℕ
  lastEventId : List ℕ
  deriving DecidableEq, Repr

def start : State := ⟨[], false, [], [], []⟩

/-- One field of an event. -/
def State.field (s : State) (name value : List ℕ) : State :=
  if name = chars "event" then { s with type := value }
  else if name = chars "data" then { s with data := s.data ++ value ++ [10] }
  else if name = chars "id" then if 0 ∈ value then s else { s with lastEventId := value }
  else s

/-- The end of an event. -/
def State.dispatch (s : State) : State × List Event :=
  if s.data = [] then ({ s with type := [] }, [])
  else ({ s with data := [], type := [] },
    [⟨if s.type = [] then chars "message" else s.type, s.data.dropLast, s.lastEventId⟩])

/-- What stands before the first colon of a line. -/
def fieldName (line : List ℕ) : List ℕ := line.takeWhile (· ≠ 58)

/-- What stands behind it, without one space. -/
def fieldValue (line : List ℕ) : List ℕ :=
  let value := (line.dropWhile (· ≠ 58)).drop 1
  if value.head? = some 32 then value.drop 1 else value

/-- A whole line. -/
def State.readLine (s : State) (line : List ℕ) : State × List Event :=
  if line = [] then s.dispatch
  else if line.head? = some 58 then (s, [])
  else (s.field (fieldName line) (fieldValue line), [])

/-- The end of a line. -/
def State.endLine (s : State) (afterCr : Bool) : State × List Event :=
  State.readLine { s with line := [], afterCr } s.line

def step (s : State) (p : ℕ) : State × List Event :=
  if p = 10 then if s.afterCr then ({ s with afterCr := false }, []) else s.endLine false
  else if p = 13 then s.endLine true
  else ({ s with line := s.line ++ [p], afterCr := false }, [])

def run (s : State) : List ℕ → State × List Event
  | [] => (s, [])
  | p :: points => ((run (step s p).1 points).1, (step s p).2 ++ (run (step s p).1 points).2)

/-- The code points of a stream. -/
def pointsOf (bytes : List UInt8) : List ℕ := dropMark (Utf8.decode bytes)

/-- Where a client stands that has read a stream. -/
def stateOf (bytes : List UInt8) : State := (run start (pointsOf bytes)).1

/-- The events of a stream. -/
def events (bytes : List UInt8) : List Event := (run start (pointsOf bytes)).2

variable {s : State} {line points points' : List ℕ}

theorem run_append (s : State) (points points' : List ℕ) : run s (points ++ points') =
      ((run (run s points).1 points').1, (run s points).2 ++ (run (run s points).1 points').2) := by
  induction points generalizing s with
  | nil => rfl
  | cons p points ih => simp only [cons_append, run, ih, append_assoc]

/-- Nothing of it ends a line. -/
def OneLine (line : List ℕ) : Prop := ∀ p ∈ line, p ≠ 10 ∧ p ≠ 13

instance (line : List ℕ) : Decidable (OneLine line) := inferInstanceAs (Decidable (∀ p ∈ line, _))

/-! ## Reading lines -/

theorem run_line (hline : OneLine line) (hne : line ≠ []) :
    run s line = ({ s with line := s.line ++ line, afterCr := false }, []) := by
  induction line generalizing s with
  | nil => exact absurd rfl hne
  | cons p line ih =>
    obtain ⟨hlf, hcr⟩ := hline p mem_cons_self
    have hstep : step s p = ({ s with line := s.line ++ [p], afterCr := false }, []) := by
      rw [step, if_neg hlf, if_neg hcr]
    rw [run, hstep]
    cases line with
    | nil => rfl
    | cons q line =>
      rw [ih (fun p' hp' ↦ hline p' (mem_cons_of_mem p hp')) (cons_ne_nil q line)]
      simp only [append_assoc, singleton_append, nil_append]

theorem run_line_feed (hline : OneLine line) (hne : line ≠ []) : run s (line ++ [10]) =
      State.readLine { s with line := [], afterCr := false } (s.line ++ line) := by
  rw [run_append, run_line hline hne]
  simp only [run, step, State.endLine, if_true, Bool.false_eq_true, if_false, append_nil,
    nil_append]

theorem run_empty_line (hline : s.line = []) (hcr : s.afterCr = false) :
    run s [10] = s.dispatch := by
  have hsame : ({ s with line := [], afterCr := false } : State) = s := by
    cases s
    simp_all
  simp only [run, step, if_true, hcr, Bool.false_eq_true, if_false, State.endLine, append_nil]
  rw [hline, hsame, State.readLine, if_pos rfl]

/-! ## The beginning of a stream -/

theorem run_flush (s : Utf8.State) (t : State) : (run t (Utf8.flush s)).2 = [] := by
  rw [Utf8.flush]
  split_ifs
  · rfl
  · rw [run_line (by decide) (cons_ne_nil _ _)]

/-- **What a stream says so far.** -/
theorem events_append (bytes rest : List UInt8) : events bytes <+: events (bytes ++ rest) := by
  have hout : Utf8.decode (bytes ++ rest) =
      (Utf8.run ground bytes).2 ++ out (Utf8.run ground bytes).1 rest := by
    rw [decode_eq_out, out, out, Utf8.run_append, append_assoc]
  rw [events, events, pointsOf, pointsOf, hout, Utf8.decode]
  cases hread : (Utf8.run ground bytes).2 with
  | nil =>
    have hmark : dropMark (Utf8.flush (Utf8.run ground bytes).1) =
        Utf8.flush (Utf8.run ground bytes).1 := by
      rw [Utf8.flush]
      split_ifs <;> rfl
    rw [nil_append, hmark, run_flush]
    exact nil_prefix
  | cons p read =>
    have hmark : ∀ later, dropMark (p :: read ++ later) = dropMark (p :: read) ++ later := by
      intro later
      rw [cons_append, dropMark, dropMark]
      split_ifs <;> rfl
    rw [hmark, hmark, run_append, run_append, run_flush, append_nil]
    exact prefix_append _ _

/-! ## What comes behind a stream -/

variable {c : CodeUnit}

theorem scalar_unit (h : ¬(0xd800 ≤ c.toNat ∧ c.toNat ≤ 0xdfff)) : Utf8.Scalar c.toNat := by
  have hlt := c.toNat_lt
  exact ⟨by omega, h⟩

theorem scalar_pointsOf (text : JsString) : ∀ p ∈ Utf8.pointsOf text, Utf8.Scalar p := by
  induction text using Utf8.pointsOf.induct with
  | case1 => exact nofun
  | case2 c =>
    intro p hp
    rw [Utf8.pointsOf, mem_singleton] at hp
    subst hp
    split_ifs with h
    · exact scalar_replacement
    · exact scalar_unit h
  | case3 c d text h ih =>
    intro p hp
    rw [Utf8.pointsOf, if_pos h, mem_cons] at hp
    rcases hp with heq | hp
    · exact ⟨by omega, by omega⟩
    · exact ih p hp
  | case4 c d text h ih =>
    intro p hp
    rw [Utf8.pointsOf, if_neg h] at hp
    rcases mem_cons.mp hp with rfl | hp
    · split_ifs with h
      · exact scalar_replacement
      · exact scalar_unit h
    · exact ih p hp

variable {text : JsString}

theorem pointsOf_append {text' : JsString} (hc : c.toNat < 0xd800) :
    Utf8.pointsOf (text ++ c :: text') = Utf8.pointsOf text ++ Utf8.pointsOf (c :: text') := by
  induction text using Utf8.pointsOf.induct with
  | case1 => rfl
  | case2 d =>
    have hpair : ¬(0xd800 ≤ d.toNat ∧ d.toNat ≤ 0xdbff ∧ 0xdc00 ≤ c.toNat ∧ c.toNat ≤ 0xdfff) := by
      omega
    have hone : Utf8.pointsOf [d] =
        [if 0xd800 ≤ d.toNat ∧ d.toNat ≤ 0xdfff then replacement else d.toNat] := rfl
    rw [hone, singleton_append, singleton_append, Utf8.pointsOf, if_neg hpair]
  | case3 d e text h ih =>
    rw [cons_append, cons_append, Utf8.pointsOf, if_pos h, ih, Utf8.pointsOf, if_pos h]
    rfl
  | case4 d e text h ih =>
    rw [cons_append, cons_append, Utf8.pointsOf, if_neg h, ← cons_append, ih,
      Utf8.pointsOf, if_neg h]
    rfl

theorem pointsOf_append_bytesOf (bytes : List UInt8) {c : ℕ} (hc : c < 128) {points : List ℕ}
    (htext : Utf8.pointsOf text = c :: points) :
    pointsOf (bytes ++ Utf8.bytesOf text) = pointsOf bytes ++ Utf8.pointsOf text := by
  have hscalar := scalar_pointsOf text
  rw [htext] at hscalar
  have hencode : Utf8.encode c = [UInt8.ofNat c] := by rw [Utf8.encode, if_pos hc]
  have hrest : Utf8.decode (points.flatMap Utf8.encode) = points := by
    rw [Utf8.decode, run_encodes fun p hp ↦ hscalar p (mem_cons_of_mem c hp)]
    exact append_nil points
  rw [pointsOf, Utf8.bytesOf, htext, flatMap_cons, hencode, singleton_append,
    decode_join bytes _ hc, hrest, dropMark_append hc]
  rfl

/-- **What a text adds to a stream.** -/
theorem events_append_bytesOf (bytes : List UInt8) {c : ℕ} (hc : c < 128) {points : List ℕ}
    (htext : Utf8.pointsOf text = c :: points) : events (bytes ++ Utf8.bytesOf text) =
      events bytes ++ (run (stateOf bytes) (Utf8.pointsOf text)).2 := by
  rw [events, pointsOf_append_bytesOf bytes hc htext, run_append]
  rfl

end EventSource
