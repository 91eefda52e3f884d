import Mathlib.Order.WellFounded
import Mathlib.Data.Set.Finite.Basic

/-!
# Replacement without cycles

Some things replace others.  A *head* is replaced by nothing.  Where replacement has no cycles and
the things are finitely many, there is a head if there is anything at all, and a single head
replaces everything else, directly or through others.
-/

set_option autoImplicit false

universe u

namespace SingleHead

variable {α : Type u} (s : Set α) (R : α → α → Prop)

/-- Nothing in the set comes back to itself along `R`. -/
def Acyclic : Prop := ∀ a ∈ s, ¬ Relation.TransGen (fun x y ↦ x ∈ s ∧ y ∈ s ∧ R x y) a a

/-- Nothing in the set is related to it. -/
def IsHead (a : α) : Prop := a ∈ s ∧ ∀ b ∈ s, ¬ R b a

variable {s R}

theorem Acyclic.wellFounded (h : Acyclic s R) (hs : s.Finite) :
    WellFounded fun x y : s ↦ Relation.TransGen (fun x y ↦ x ∈ s ∧ y ∈ s ∧ R x y) x.1 y.1 := by
  have : Finite s := hs
  have : IsTrans s fun x y ↦ Relation.TransGen (fun x y ↦ x ∈ s ∧ y ∈ s ∧ R x y) x.1 y.1 :=
    ⟨fun _ _ _ h h' ↦ h.trans h'⟩
  have : Std.Irrefl fun x y : s ↦ Relation.TransGen (fun x y ↦ x ∈ s ∧ y ∈ s ∧ R x y) x.1 y.1 :=
    ⟨fun x ↦ h x.1 x.2⟩
  exact Finite.wellFounded_of_trans_of_irrefl _

theorem Acyclic.exists_head (h : Acyclic s R) (hs : s.Finite) (hne : s.Nonempty) :
    ∃ a, IsHead s R a := by
  obtain ⟨a, ha⟩ := hne
  obtain ⟨⟨m, hm⟩, -, hmin⟩ := (h.wellFounded hs).has_min Set.univ ⟨⟨a, ha⟩, trivial⟩
  exact ⟨m, hm, fun b hb hR ↦ hmin ⟨b, hb⟩ trivial (.single ⟨hb, hm, hR⟩)⟩

/-- **A single head replaces everything else.** -/
theorem Acyclic.reaches (h : Acyclic s R) (hs : s.Finite) {c : α}
    (honly : ∀ a, IsHead s R a → a = c) :
    ∀ b ∈ s, b ≠ c → Relation.TransGen (fun x y ↦ x ∈ s ∧ y ∈ s ∧ R x y) c b := by
  intro b hb
  induction hx : (⟨b, hb⟩ : s) using (h.wellFounded hs).induction generalizing b with
  | _ x ih =>
    subst hx
    intro hne
    have hnot : ¬ IsHead s R b := fun hhead ↦ hne (honly b hhead)
    have hpred : ∃ a ∈ s, R a b := by
      by_contra hnone
      push Not at hnone
      exact hnot ⟨hb, hnone⟩
    obtain ⟨a, ha, hR⟩ := hpred
    by_cases hac : a = c
    · exact .single ⟨hac ▸ ha, hb, hac ▸ hR⟩
    · exact (ih ⟨a, ha⟩ (.single ⟨ha, hb, hR⟩) a ha rfl hac).tail ⟨ha, hb, hR⟩

end SingleHead
