import Mathlib.Order.Lattice

/-!
# The first candidate of least cost

A selection loop walks a list with an index, passes over what is no candidate, and keeps the best
one so far, replacing it only by a strictly better one.  So it ends with the *first* of the cheapest
candidates.  `firstLeast cost l` is that loop, with the cost of a candidate as a parameter (`none`
for what is passed over) and any linear order to compare by; `firstLeast_eq_none` and
`firstLeast_spec` say what it finds.
-/

set_option autoImplicit false

open List Option

universe u v

variable {α : Type u} {β : Type v} (cost : α → Option β)

namespace FirstLeast

/-- The cost of what stands at an index. -/
def costAt (l : List α) (i : ℕ) : Option β := l[i]?.bind cost

variable {cost}

variable {l : List α} {j : ℕ}

theorem costAt_append_left {l' : List α} (h : j < l.length) :
    costAt cost (l ++ l') j = costAt cost l j := by
  rw [costAt, costAt, getElem?_append_left h]

variable {d : β}

theorem costAt_lt (h : costAt cost l j = some d) : j < l.length := by
  by_contra hj
  rw [costAt, getElem?_eq_none (Nat.le_of_not_lt hj)] at h
  nomatch h

theorem costAt_concat_length (l : List α) (a : α) : costAt cost (l ++ [a]) l.length = cost a := by
  simp only [costAt, getElem?_concat_length, bind_some]

theorem costAt_concat {a : α} (h : costAt cost (l ++ [a]) j = some d) :
    costAt cost l j = some d ∨ j = l.length ∧ cost a = some d := by
  have hj : j < l.length + 1 := by simpa using costAt_lt h
  rcases Nat.lt_succ_iff_lt_or_eq.mp hj with hlt | rfl
  · exact .inl ((costAt_append_left hlt).symm.trans h)
  · exact .inr ⟨rfl, (costAt_concat_length l a).symm.trans h⟩

variable [LinearOrder β] (cost)

/-- One turn of the loop, at index `i`. -/
def step (i : ℕ) (best : Option (ℕ × β)) (a : α) : Option (ℕ × β) :=
  match cost a with
  | none => best
  | some c =>
    match best with
    | none => some (i, c)
    | some b => if c < b.2 then some (i, c) else some b

/-- The loop, from index `i` on. -/
def scan : ℕ → Option (ℕ × β) → List α → Option (ℕ × β)
  | _, best, [] => best
  | i, best, a :: l => scan (i + 1) (step cost i best a) l

/-- `best` is what the loop should hold after walking all of `l`. -/
def Describes (l : List α) (best : Option (ℕ × β)) : Prop :=
  match best with
  | none => ∀ j, costAt cost l j = none
  | some b => costAt cost l b.1 = some b.2 ∧
      ∀ j d, costAt cost l j = some d → b.2 ≤ d ∧ (j < b.1 → b.2 < d)

variable {cost}

variable {best : Option (ℕ × β)}

theorem Describes.step (h : Describes cost l best) (a : α) :
    Describes cost (l ++ [a]) (step cost l.length best a) := by
  rw [FirstLeast.step]
  cases ha : cost a with
  | none =>
    have hold : ∀ j d, costAt cost (l ++ [a]) j = some d → costAt cost l j = some d := by
      intro j d hd
      rcases costAt_concat hd with hd | ⟨-, hd⟩
      · exact hd
      · exact absurd (ha.symm.trans hd) (by simp)
    cases best with
    | none =>
      intro j
      cases hj : costAt cost (l ++ [a]) j with
      | none => rfl
      | some d => exact absurd (h j) (by rw [hold j d hj]; simp)
    | some b =>
      exact ⟨(costAt_append_left (costAt_lt h.1)).trans h.1, fun j d hd ↦ h.2 j d (hold j d hd)⟩
  | some c =>
    cases best with
    | none =>
      refine ⟨(costAt_concat_length l a).trans ha, fun j d hd ↦ ?_⟩
      rcases costAt_concat hd with hd' | ⟨rfl, hd'⟩
      · exact absurd (h j) (by rw [hd']; simp)
      · rw [ha, some_inj] at hd'
        exact ⟨hd'.le, fun hlt ↦ absurd hlt (Nat.lt_irrefl _)⟩
    | some b =>
      obtain ⟨hb, hmin⟩ := h
      by_cases hc : c < b.2
      · simp only [if_pos hc]
        refine ⟨(costAt_concat_length l a).trans ha, fun j d hd ↦ ?_⟩
        rcases costAt_concat hd with hd' | ⟨rfl, hd'⟩
        · have hlt : c < d := hc.trans_le (hmin j d hd').1
          exact ⟨hlt.le, fun _ ↦ hlt⟩
        · rw [ha, some_inj] at hd'
          exact ⟨hd'.le, fun hlt ↦ absurd hlt (Nat.lt_irrefl _)⟩
      · simp only [if_neg hc]
        refine ⟨(costAt_append_left (costAt_lt hb)).trans hb, fun j d hd ↦ ?_⟩
        rcases costAt_concat hd with hd' | ⟨rfl, hd'⟩
        · exact hmin j d hd'
        · rw [ha, some_inj] at hd'
          subst hd'
          exact ⟨not_lt.mp hc, fun hlt ↦ absurd (costAt_lt hb) (by omega)⟩

theorem Describes.scan (h : Describes cost l best) (l' : List α) :
    Describes cost (l ++ l') (scan cost l.length best l') := by
  induction l' generalizing l best with
  | nil => rw [append_nil]; exact h
  | cons a l' ih =>
    have hrec := ih (h.step a)
    rw [length_append, length_singleton, append_assoc] at hrec
    exact hrec

end FirstLeast

open FirstLeast

variable [LinearOrder β]

/-- The index of the first candidate of least cost. -/
def firstLeast (l : List α) : Option ℕ := (scan cost 0 none l).map Prod.fst

variable {cost}

theorem firstLeast_describes (l : List α) : Describes cost l (scan cost 0 none l) := by
  have hnil : Describes cost [] none := fun _ ↦ rfl
  exact hnil.scan l

theorem firstLeast_eq_none {l : List α} : firstLeast cost l = none ↔ ∀ a ∈ l, cost a = none := by
  have h : Describes cost l (scan cost 0 none l) := firstLeast_describes l
  rw [firstLeast, map_eq_none_iff]
  constructor
  · intro hn a ha
    rw [hn] at h
    obtain ⟨j, hj, rfl⟩ := mem_iff_getElem.mp ha
    simpa [costAt, getElem?_eq_getElem hj] using h j
  · intro hn
    cases hs : scan cost 0 none l with
    | none => rfl
    | some b =>
      rw [hs] at h
      obtain ⟨a, ha, hc⟩ := bind_eq_some_iff.mp h.1
      exact absurd (hn a (mem_of_getElem? ha)) (by rw [hc]; simp)

/-- What the loop finds is a candidate, no candidate is cheaper, and every earlier one is dearer. -/
theorem firstLeast_spec {l : List α} {i : ℕ} (h : firstLeast cost l = some i) :
    ∃ a c, l[i]? = some a ∧ cost a = some c ∧
      ∀ (j : ℕ) (b : α) (d : β), l[j]? = some b → cost b = some d → c ≤ d ∧ (j < i → c < d) := by
  have hd : Describes cost l (scan cost 0 none l) := firstLeast_describes l
  rw [firstLeast, map_eq_some_iff] at h
  obtain ⟨b, hb, rfl⟩ := h
  rw [hb] at hd
  obtain ⟨a, ha, hc⟩ := bind_eq_some_iff.mp hd.1
  refine ⟨a, b.2, ha, hc, fun j a' d ha' hd' ↦ hd.2 j d ?_⟩
  rw [costAt, ha', bind_some, hd']
