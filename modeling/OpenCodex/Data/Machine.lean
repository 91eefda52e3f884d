import Mathlib.Logic.Relation

/-!
# Guarded machines and their runs

A component of the proxy is modelled as a machine: a set of initial states and a *partial* step
function, which answers `none` where an event is impossible in a state.  What is proved about a
component is proved of every run of its machine, and some of it only of the runs whose every step
meets a side condition — a claim that fails on one path of the code holds of the runs that stay off
that path.  So the side condition is a parameter of everything here: `Next C` is one step that meets
`C`, `Run C` any number of them, `ReachableIf C` what they reach from an initial state.

The one induction is `Preserved.run`: what every step preserves, every run preserves.  A run on fixed
input is established by evaluation: `play` goes through a list of events, `admits` checks that each
is possible in its turn and meets the condition, and `run_play` makes a run of it.
-/

set_option autoImplicit false

universe u v

/-- A machine with states `σ` and events `ε`. -/
structure Machine (σ : Type u) (ε : Type v) where
  /-- The states a run starts in. -/
  init : σ → Prop
  /-- What an event does to a state; `none` when it cannot happen there. -/
  step : σ → ε → Option σ

namespace Machine

variable {σ : Type u} {ε : Type v} (m : Machine σ ε) (C : σ → ε → Prop)

/-- The side condition that admits every step. -/
def Always : σ → ε → Prop := fun _ _ ↦ True

instance (s : σ) (e : ε) : Decidable (Always s e) := inferInstanceAs (Decidable True)

/-- One step that meets the side condition. -/
def Next (s s' : σ) : Prop := ∃ e, C s e ∧ m.step s e = some s'

/-- Any number of steps that all meet the side condition. -/
def Run : σ → σ → Prop := Relation.ReflTransGen (m.Next C)

/-- The states such runs reach from an initial state. -/
def ReachableIf (s : σ) : Prop := ∃ s₀, m.init s₀ ∧ m.Run C s₀ s

/-- The states any run reaches. -/
abbrev Reachable (s : σ) : Prop := m.ReachableIf Always s

variable {m C}

variable {s : σ}

theorem ReachableIf.init (h : m.init s) : m.ReachableIf C s := ⟨s, h, Relation.ReflTransGen.refl⟩

variable {s' : σ}

theorem ReachableIf.run (h : m.ReachableIf C s) (hr : m.Run C s s') : m.ReachableIf C s' :=
  let ⟨s₀, h₀, hs⟩ := h
  ⟨s₀, h₀, hs.trans hr⟩

theorem ReachableIf.next (h : m.ReachableIf C s) (hn : m.Next C s s') : m.ReachableIf C s' :=
  h.run (Relation.ReflTransGen.single hn)

variable (m C)

/-- What every step that meets the side condition preserves. -/
def Preserved (P : σ → Prop) : Prop := ∀ s e s', P s → C s e → m.step s e = some s' → P s'

/-- What holds initially and is preserved. -/
structure Inductive (P : σ → Prop) : Prop where
  /-- It holds of the initial states. -/
  init : ∀ s, m.init s → P s
  /-- It is preserved by every step that meets the side condition. -/
  step : m.Preserved C P

variable {m C}

variable {P : σ → Prop}

/-- **The run rule**: what every step preserves, every run preserves. -/
theorem Preserved.run (h : m.Preserved C P) (hr : m.Run C s s') (hs : P s) : P s' := by
  induction hr with
  | refl => exact hs
  | tail _ hn ih =>
    obtain ⟨e, hc, he⟩ := hn
    exact h _ e _ ih hc he

theorem Inductive.reachable (h : m.Inductive C P) (hr : m.ReachableIf C s) : P s :=
  let ⟨s₀, h₀, hs⟩ := hr
  h.step.run hs (h.init s₀ h₀)

theorem Inductive.and {Q : σ → Prop} (hP : m.Inductive C P) (hinit : ∀ s, m.init s → Q s)
    (hstep : ∀ s e s', P s → Q s → C s e → m.step s e = some s' → Q s') :
    m.Inductive C fun s ↦ P s ∧ Q s :=
  ⟨fun s h ↦ ⟨hP.init s h, hinit s h⟩,
    fun s e s' ⟨hp, hq⟩ hc hs ↦ ⟨hP.step s e s' hp hc hs, hstep s e s' hp hq hc hs⟩⟩

/-! ## What was read -/

/-- The machine, and beside it what its events have brought. -/
def recording {α : Type*} (m : Machine σ ε) (brings : ε → List α) : Machine (σ × List α) ε where
  init s := m.init s.1 ∧ s.2 = []
  step s e := (m.step s.1 e).map fun s' ↦ (s', s.2 ++ brings e)

/-! ## Runs on fixed input -/

/-- The state a list of events leads to; an impossible event is skipped. -/
def play (m : Machine σ ε) : σ → List ε → σ
  | s, [] => s
  | s, e :: l => play m ((m.step s e).getD s) l

variable (m C)

/-- Every event of the list is possible in its turn, and meets the side condition. -/
def admits [∀ s e, Decidable (C s e)] : σ → List ε → Bool
  | _, [] => true
  | s, e :: l => decide (C s e) && match m.step s e with
    | none => false
    | some s' => admits s' l

variable {m C}

theorem run_play [∀ s e, Decidable (C s e)] {l : List ε} (h : m.admits C s l = true) :
    m.Run C s (m.play s l) := by
  induction l generalizing s with
  | nil => exact Relation.ReflTransGen.refl
  | cons e l ih =>
    rw [admits, Bool.and_eq_true, decide_eq_true_eq] at h
    obtain ⟨hc, h⟩ := h
    cases hs : m.step s e with
    | none => rw [hs] at h; nomatch h
    | some s' =>
      rw [hs] at h
      rw [play, hs]
      exact Relation.ReflTransGen.head ⟨e, hc, hs⟩ (ih h)

end Machine
