import OpenCodex.Data.Machine
import Mathlib.Order.WellFounded

/-!
# Courses that come to an end

A *course* of a machine is an unbounded run: a state and an event for every number, each state but a
final one followed by the state its event leads to.  That a component stops is the statement that its
courses reach a final state.

A machine that waits for others cannot bound how long they take.  So two measures are needed.  The
first one, the patience, never grows; the second one, the work, shrinks with every event that leaves
the patience as it is, except for idle events — those the environment may repeat as often as it likes,
but not forever within one round (`IdleEnds`).  Then the course ends (`Course.ends`).
-/

set_option autoImplicit false

universe u v

namespace Machine

variable {σ : Type u} {ε : Type v} {m : Machine σ ε} {C : σ → ε → Prop} {final : σ → Prop}

/-- A run that goes on until a state is final. -/
structure Course (m : Machine σ ε) (C : σ → ε → Prop) (final : σ → Prop) where
  state : ℕ → σ
  event : ℕ → ε
  starts : m.init (state 0)
  /-- Every step meets the side condition. -/
  goes : ∀ n, ¬final (state n) →
    C (state n) (event n) ∧ m.step (state n) (event n) = some (state (n + 1))

namespace Course

variable (c : Course m C final)

variable {n : ℕ}

theorem next (h : ¬final (c.state n)) : m.Next C (c.state n) (c.state (n + 1)) :=
  ⟨c.event n, c.goes n h⟩

theorem reachable (h : ∀ n, m.ReachableIf C (c.state n) → ¬final (c.state n)) (n : ℕ) :
    m.ReachableIf C (c.state n) := by
  induction n with
  | zero => exact .init c.starts
  | succ n ih => exact ih.next (c.next (h n ih))

/-- Of no round are there idle events forever. -/
def IdleEnds (round : σ → ℕ) (idle : ε → Prop) : Prop :=
  ∀ r, ∃ N, ∀ n ≥ N, ¬final (c.state n) → round (c.state n) = r → ¬idle (c.event n)

variable {f : ℕ → ℕ}

theorem settles (h : ∀ n, f (n + 1) ≤ f n) : ∃ N, ∀ n ≥ N, f n = f N := by
  have hanti : Antitone f := antitone_nat_of_succ_le h
  refine ⟨Function.argmin f, fun n hn ↦ ?_⟩
  exact le_antisymm (hanti hn) (Function.argmin_le f n)

theorem not_shrinking {N : ℕ} : ¬∀ n ≥ N, f (n + 1) < f n := by
  intro h
  have hspent : ∀ i, f (N + i) + i ≤ f N := by
    intro i
    induction i with
    | zero => exact le_rfl
    | succ i ih =>
      have := h (N + i) (Nat.le_add_right N i)
      have heq : N + (i + 1) = N + i + 1 := rfl
      rw [heq]
      omega
  have := hspent (f N + 1)
  omega

/-- **A course ends** if its patience never grows and its work shrinks while the patience lasts, idle
events apart. -/
theorem ends (patience work : σ → ℕ) {round : σ → ℕ} {idle : ε → Prop}
    (hpatience : ∀ s e s', m.ReachableIf C s → ¬final s → m.step s e = some s' →
      patience s' ≤ patience s)
    (hround : ∀ s e s', m.ReachableIf C s → ¬final s → m.step s e = some s' →
      patience s' = patience s → round s' = round s)
    (hwork : ∀ s e s', m.ReachableIf C s → ¬final s → m.step s e = some s' → ¬idle e →
      patience s' = patience s → work s' < work s)
    (hidle : c.IdleEnds round idle) : ∃ n, m.ReachableIf C (c.state n) ∧ final (c.state n) := by
  by_contra hnever
  push Not at hnever
  have hreach := c.reachable hnever
  have hlive : ∀ n, ¬final (c.state n) := fun n ↦ hnever n (hreach n)
  have hstep : ∀ n, m.step (c.state n) (c.event n) = some (c.state (n + 1)) :=
    fun n ↦ (c.goes n (hlive n)).2
  obtain ⟨N, hN⟩ := settles (f := fun n ↦ patience (c.state n))
    fun n ↦ hpatience _ _ _ (hreach n) (hlive n) (hstep n)
  have hsame : ∀ n ≥ N, patience (c.state (n + 1)) = patience (c.state n) := by
    intro n hn
    exact (hN (n + 1) (Nat.le_succ_of_le hn)).trans (hN n hn).symm
  have hrounds : ∀ n ≥ N, round (c.state n) = round (c.state N) := by
    intro n hn
    induction n, hn using Nat.le_induction with
    | base => rfl
    | succ n hn ih => exact (hround _ _ _ (hreach n) (hlive n) (hstep n) (hsame n hn)).trans ih
  obtain ⟨M, hM⟩ := hidle (round (c.state N))
  apply not_shrinking (f := fun n ↦ work (c.state n)) (N := max N M)
  intro n hn
  have hnN : n ≥ N := le_trans (le_max_left N M) hn
  have hnM : n ≥ M := le_trans (le_max_right N M) hn
  exact hwork _ _ _ (hreach n) (hlive n) (hstep n) (hM n hnM (hlive n) (hrounds n hnN)) (hsame n hnN)

/-! ## Courses on fixed input -/

section Play

variable [∀ s e, Decidable (C s e)]

omit [∀ s e, Decidable (C s e)] in
theorem play_cons {s s' : σ} {e : ε} (h : m.step s e = some s') (l : List ε) :
    m.play s (e :: l) = m.play s' l := by
  rw [play, h, Option.getD_some]

variable {l : List ε}

theorem step_play {s : σ} (h : m.admits C s l = true) (e₀ : ε) (hn : n < l.length) :
    C (m.play s (l.take n)) (l.getD n e₀) ∧
      m.step (m.play s (l.take n)) (l.getD n e₀) = some (m.play s (l.take (n + 1))) := by
  induction l generalizing s n with
  | nil => exact absurd hn (Nat.not_lt_zero n)
  | cons e l ih =>
    rw [admits, Bool.and_eq_true, decide_eq_true_eq] at h
    obtain ⟨hc, h⟩ := h
    cases hs : m.step s e with
    | none =>
      rw [hs] at h
      cases h
    | some s' =>
      rw [hs] at h
      cases n with
      | zero =>
        rw [List.take_succ_cons, play_cons hs]
        exact ⟨hc, hs⟩
      | succ n =>
        rw [List.take_succ_cons, List.take_succ_cons, play_cons hs, play_cons hs]
        exact ih h (Nat.lt_of_succ_lt_succ hn)

/-- A list of events that leads to a final state is a course. -/
def ofPlay (s : σ) (l : List ε) (e₀ : ε) (hs : m.init s) (h : m.admits C s l = true)
    (hfinal : final (m.play s l)) : Course m C final where
  state n := m.play s (l.take n)
  event n := l.getD n e₀
  starts := hs
  goes n hn := step_play h e₀ <| by
    by_contra hle
    rw [List.take_of_length_le (Nat.le_of_not_lt hle)] at hn
    exact hn hfinal

theorem idleEnds_ofPlay {s : σ} {e₀ : ε} (hs : m.init s) (h : m.admits C s l = true)
    (hfinal : final (m.play s l)) (round : σ → ℕ) (idle : ε → Prop) :
    (ofPlay s l e₀ hs h hfinal).IdleEnds round idle := by
  intro r
  refine ⟨l.length, fun n hn hlive ↦ ?_⟩
  change ¬final (m.play s (l.take n)) at hlive
  rw [List.take_of_length_le hn] at hlive
  exact absurd hfinal hlive

end Play

end Course

end Machine
