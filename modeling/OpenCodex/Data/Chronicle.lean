import Mathlib.Data.List.Induction
import Mathlib.Data.List.Nodup

/-!
# Chronicles

A component that lends things and keeps people waiting writes down what it does, and what it
promises is about that record: at every entry, something held of the entries before it.  `AtEach P`
says so of a list of entries, and grows an entry at a time (`AtEach.concat`).

Two readings of a record are kept here.  `Out lends returns l s` — the thing `s` was lent and has
not come back; a lender keeps faith when it lends only what is not out.  `waiting joins answers l` —
who has joined the queue and has not been answered, in the order of arrival; a queue is fair when it
serves from the front of it.
-/

set_option autoImplicit false

open List

universe u v

namespace Chronicle

variable {ν : Type u}

/-- Every entry is as it should be, given the entries before it. -/
def AtEach (P : List ν → ν → Prop) (l : List ν) : Prop :=
  ∀ l₁ n l₂, l = l₁ ++ n :: l₂ → P l₁ n

variable {P : List ν → ν → Prop}

variable {l : List ν}

theorem AtEach.mono {Q : List ν → ν → Prop} (h : AtEach P l) (hPQ : ∀ l n, P l n → Q l n) :
    AtEach Q l :=
  fun l₁ n l₂ heq ↦ hPQ l₁ n (h l₁ n l₂ heq)

variable {n : ν}

theorem AtEach.of_concat (h : AtEach P (l ++ [n])) : AtEach P l ∧ P l n :=
  ⟨fun l₁ m l₂ heq ↦ h l₁ m (l₂ ++ [n]) (by simp [heq]), h l n [] rfl⟩

theorem AtEach.nil : AtEach P [] := by
  intro l₁ n l₂ h
  simp at h

/-- **A record grows by an entry that is as it should be.** -/
theorem AtEach.concat (h : AtEach P l) (hn : P l n) : AtEach P (l ++ [n]) := by
  intro l₁ m l₂ heq
  rcases eq_nil_or_concat l₂ with rfl | ⟨l₂, a, rfl⟩
  · obtain ⟨rfl, hm⟩ := append_inj' heq rfl
    obtain rfl : n = m := by simpa using hm
    exact hn
  · rw [concat_eq_append, ← cons_append, ← append_assoc] at heq
    exact h l₁ m l₂ (append_inj' heq rfl).1

/-! ## What is out -/

section Lending

variable {σ : Type v} (lends returns : ν → Option σ)

/-- It was lent, and has not come back since. -/
def Out (l : List ν) (s : σ) : Prop :=
  ∃ l₁ n l₂, l = l₁ ++ n :: l₂ ∧ lends n = some s ∧ ∀ m ∈ l₂, returns m ≠ some s

variable {lends returns}

variable {s : σ}

theorem not_out_nil : ¬ Out lends returns [] s := by
  rintro ⟨l₁, n, l₂, h, -⟩
  simp at h

/-- What is out after an entry was lent by it, or was out before and did not come back with it. -/
theorem Out.of_concat (h : Out lends returns (l ++ [n]) s) :
    lends n = some s ∨ Out lends returns l s ∧ returns n ≠ some s := by
  obtain ⟨l₁, m, l₂, heq, hm, hback⟩ := h
  rcases eq_nil_or_concat l₂ with rfl | ⟨l₂, a, rfl⟩
  · obtain ⟨-, hn⟩ := append_inj' heq rfl
    obtain rfl : n = m := by simpa using hn
    exact .inl hm
  · rw [concat_eq_append, ← cons_append, ← append_assoc] at heq
    obtain ⟨rfl, ha⟩ := append_inj' heq rfl
    obtain rfl : n = a := by simpa using ha
    exact .inr ⟨⟨l₁, m, l₂, rfl, hm, fun k hk ↦ hback k (by simp [hk])⟩, hback n (by simp)⟩

theorem AtEach.returned (h : AtEach (fun l n ↦ ∀ s, lends n = some s →
    ¬ Out lends returns l s) l) {l₁ l₂ l₃ : List ν} {a b : ν} (hl : l = l₁ ++ a :: (l₂ ++ b :: l₃))
    (ha : lends a = some s) (hb : lends b = some s) : ∃ c ∈ l₂, returns c = some s := by
  have hout := h (l₁ ++ a :: l₂) b l₃ (by rw [hl]; simp) s hb
  by_contra hnone
  exact hout ⟨l₁, a, l₂, rfl, ha, fun m hm hs ↦ hnone ⟨m, hm, hs⟩⟩

end Lending

/-! ## Who is waiting -/

section Queue

variable {ω : Type v} [DecidableEq ω] (joins answers : ν → Option ω)

/-- Who has joined and has not been answered, in the order of arrival. -/
def waiting (l : List ν) : List ω :=
  (l.filterMap joins).filter fun w ↦ w ∉ l.filterMap answers

variable {joins answers}

theorem waiting_concat_idle (hj : joins n = none) (ha : answers n = none) :
    waiting joins answers (l ++ [n]) = waiting joins answers l := by
  simp [waiting, filterMap_append, hj, ha]

variable {w : ω}

theorem waiting_concat_join (hj : joins n = some w) (ha : answers n = none)
    (hw : w ∉ l.filterMap answers) :
    waiting joins answers (l ++ [n]) = waiting joins answers l ++ [w] := by
  rw [waiting, waiting, filterMap_append, filterMap_append, filter_append]
  simp only [filterMap_cons, filterMap_nil, hj, ha, append_nil]
  rw [filter_cons_of_pos (by simpa using hw), filter_nil]

theorem waiting_concat_answer (hj : joins n = none) (ha : answers n = some w)
    (hnd : (waiting joins answers l).Nodup) :
    waiting joins answers (l ++ [n]) = (waiting joins answers l).erase w := by
  rw [hnd.erase_eq_filter, waiting, waiting, List.filter_filter]
  simp only [filterMap_append, filterMap_cons, filterMap_nil, hj, ha, append_nil]
  refine filter_congr fun v _ ↦ ?_
  rw [Bool.eq_iff_iff]
  simp only [mem_append, mem_singleton, not_or, decide_eq_true_eq, Bool.and_eq_true, bne_iff_ne]
  exact and_comm

theorem notMem_answered_of_waiting (h : w ∈ waiting joins answers l) : w ∉ l.filterMap answers := by
  simpa using (mem_filter.mp h).2

theorem mem_joined_of_waiting (h : w ∈ waiting joins answers l) : w ∈ l.filterMap joins :=
  mem_of_mem_filter h

theorem AtEach.nodup_answered (h : AtEach (fun l n ↦ ∀ w, answers n = some w →
    w ∈ waiting joins answers l) l) : (l.filterMap answers).Nodup := by
  induction l using List.reverseRecOn with
  | nil => exact nodup_nil
  | append_singleton l n ih =>
    obtain ⟨hl, hn⟩ := h.of_concat
    rw [filterMap_append]
    cases ha : answers n with
    | none => simpa [ha] using ih hl
    | some w =>
      simp only [filterMap_cons, ha, filterMap_nil]
      refine (ih hl).append (nodup_singleton w) ?_
      simpa using notMem_answered_of_waiting (hn w ha)

theorem nodup_waiting (h : (l.filterMap joins).Nodup) : (waiting joins answers l).Nodup :=
  h.filter _

end Queue

end Chronicle
