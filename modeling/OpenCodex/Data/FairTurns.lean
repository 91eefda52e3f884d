import Mathlib.Algebra.BigOperators.Ring.Finset
import Mathlib.Algebra.Order.BigOperators.Group.Finset
import Mathlib.Tactic.Linarith
import Mathlib.Tactic.Ring

/-!
# Taking turns among whoever is there

Round-robin by balances, when those who take part change from turn to turn: each of them gains one,
and one who had most pays for them all.  Nothing is asked of who takes part when.

With `k` of `n` in hand, no `k` balances together exceed `k * (n - k)`.  That is the bound a turn
preserves (`FairTurn.fair`): if the one who pays is among the `k`, they gain nothing together; if
not, those of the `k` who gained were not ahead of it, and the bounds for `k + 1` and for the others
of the `k` leave just as much room as they gain.  For one balance it says `n - 1`, and for all but
one the same from below, so who is passed over `2 * n - 1` times in a row would be past the bound.
-/

set_option autoImplicit false

open Finset

variable {ι : Type*}

/-- One turn among the members of `E`: each gains one, and `p`, who had most, pays for all. -/
structure FairTurn [DecidableEq ι] (E : Finset ι) (b b' : ι → ℤ) (p : ι) : Prop where
  mem : p ∈ E
  most : ∀ i ∈ E, b i ≤ b p
  turn : ∀ i, b' i = b i + (if i ∈ E then 1 else 0) - if i = p then (E.card : ℤ) else 0

/-- The balances of the members of `s` add up to zero, and no `k` of them exceed `k * (n - k)`. -/
structure Fair (s : Finset ι) (b : ι → ℤ) : Prop where
  sum : ∑ i ∈ s, b i = 0
  share : ∀ A ⊆ s, ∑ i ∈ A, b i ≤ A.card * (s.card - A.card : ℤ)

section Bounds

variable {s : Finset ι} {b : ι → ℤ}

theorem Fair.start (s : Finset ι) : Fair s fun _ ↦ 0 where
  sum := Finset.sum_const_zero
  share A hA := by
    rw [Finset.sum_const_zero]
    have hcard : (A.card : ℤ) ≤ s.card := Int.ofNat_le.mpr (Finset.card_le_card hA)
    exact mul_nonneg (Int.natCast_nonneg _) (by omega)

/-- **From above.** -/
theorem Fair.le (h : Fair s b) {i : ι} (hi : i ∈ s) : b i ≤ s.card - 1 := by
  have hone := h.share {i} (Finset.singleton_subset_iff.mpr hi)
  rwa [Finset.sum_singleton, Finset.card_singleton, Nat.cast_one, one_mul] at hone

/-- **From below.** -/
theorem Fair.ge [DecidableEq ι] (h : Fair s b) {i : ι} (hi : i ∈ s) : -(s.card - 1 : ℤ) ≤ b i := by
  have hothers := h.share (s.erase i) (Finset.erase_subset i s)
  have hsum := Finset.add_sum_erase s b hi
  have hpos : 0 < s.card := Finset.card_pos.mpr ⟨i, hi⟩
  have hcard : ((s.erase i).card : ℤ) = s.card - 1 := by
    rw [Finset.card_erase_of_mem hi]
    omega
  rw [h.sum] at hsum
  rw [hcard] at hothers
  linarith

end Bounds

section Turn

variable [DecidableEq ι] {s E : Finset ι} {b b' : ι → ℤ} {p : ι}

theorem FairTurn.sum_eq (h : FairTurn E b b' p) (A : Finset ι) :
    ∑ i ∈ A, b' i = ∑ i ∈ A, b i + (A ∩ E).card - if p ∈ A then (E.card : ℤ) else 0 := by
  rw [Finset.sum_congr rfl fun i _ ↦ h.turn i, Finset.sum_sub_distrib, Finset.sum_add_distrib,
    Finset.sum_ite_eq', Finset.sum_boole, Finset.filter_mem_eq_inter]

/-- **A turn keeps the bounds**, whoever takes part in it. -/
theorem FairTurn.fair (h : FairTurn E b b' p) (hE : E ⊆ s) (hfair : Fair s b) : Fair s b' := by
  refine ⟨?_, fun A hA ↦ ?_⟩
  · rw [h.sum_eq, hfair.sum, Finset.inter_eq_right.mpr hE, if_pos (hE h.mem)]
    ring
  rw [h.sum_eq]
  by_cases hp : p ∈ A
  · -- together they gain nothing
    have hcard : ((A ∩ E).card : ℤ) ≤ E.card :=
      Int.ofNat_le.mpr (Finset.card_le_card Finset.inter_subset_right)
    have := hfair.share A hA
    rw [if_pos hp]
    omega
  -- those who gained, and those who did not
  have hgained : ∑ i ∈ A ∩ E, b i ≤ (A ∩ E).card * b p := by
    rw [← nsmul_eq_mul, ← Finset.sum_const]
    exact Finset.sum_le_sum fun i hi ↦ h.most i (Finset.mem_of_mem_inter_right hi)
  have hsplit : ∑ i ∈ A ∩ E, b i + ∑ i ∈ A \ E, b i = ∑ i ∈ A, b i :=
    Finset.sum_inter_add_sum_sdiff A E b
  have hcard : ((A ∩ E).card : ℤ) + (A \ E).card = A.card := by
    exact_mod_cast Finset.card_inter_add_card_sdiff A E
  have hothers := hfair.share (A \ E) (Finset.sdiff_subset.trans hA)
  have hall := hfair.share (insert p A) (Finset.insert_subset (hE h.mem) hA)
  rw [Finset.sum_insert hp, Finset.card_insert_of_notMem hp, Nat.cast_add_one] at hall
  rw [if_neg hp, sub_zero]
  set m : ℤ := ((A ∩ E).card : ℤ)
  set n : ℤ := ((A \ E).card : ℤ)
  set k : ℤ := (A.card : ℤ)
  have hm : 0 ≤ m := Int.natCast_nonneg _
  have hroom : (m + 1) * ∑ i ∈ A, b i ≤ m * ((k + 1) * (s.card - (k + 1))) + n * (s.card - n) := by
    calc (m + 1) * ∑ i ∈ A, b i
        = m * ∑ i ∈ A, b i + ∑ i ∈ A ∩ E, b i + ∑ i ∈ A \ E, b i := by rw [← hsplit]; ring
      _ ≤ m * ∑ i ∈ A, b i + m * b p + n * (s.card - n) := by linarith
      _ = m * (b p + ∑ i ∈ A, b i) + n * (s.card - n) := by ring
      _ ≤ m * ((k + 1) * (s.card - (k + 1))) + n * (s.card - n) := by
        have := mul_le_mul_of_nonneg_left hall hm
        linarith
  refine le_of_mul_le_mul_left (a := m + 1) ?_ (by omega)
  calc (m + 1) * (∑ i ∈ A, b i + m)
      = (m + 1) * ∑ i ∈ A, b i + m * (m + 1) := by ring
    _ ≤ m * ((k + 1) * (s.card - (k + 1))) + n * (s.card - n) + m * (m + 1) := by linarith
    _ = (m + 1) * (k * (s.card - k)) := by rw [← hcard]; ring

end Turn
