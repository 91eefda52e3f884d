import Mathlib.Algebra.BigOperators.Ring.Finset
import Mathlib.NumberTheory.Harmonic.Defs
import Mathlib.Tactic.FieldSimp
import Mathlib.Tactic.Linarith
import Mathlib.Tactic.Positivity
import Mathlib.Tactic.Ring

/-!
# Smooth weighted round-robin

Some entries, each with a weight; in every turn each gains its weight, and one with the most pays the
total weight back and is the turn's pick.  Ties may go either way.

The balances of the entries always add up to zero, and none falls to minus the total: who pays has at
least the average before (`neg_total_lt`).  That one bound makes the picks exactly proportional, in
every block of as many turns as the weights add up to (`block_count`), since a balance is what an
entry is owed less what it was given.

From above a balance is bounded by the total times `1/2 + … + 1/n` (`le_harmonic`), as in the game of
filling and emptying cups: what the `k` fullest hold together can only grow at the expense of one that
is fuller than all of them.
-/

set_option autoImplicit false

/-- Turns of smooth weighted round-robin over the entries `s`: the balances before each turn, and the
picks. -/
structure SmoothWeights {ι : Type*} [DecidableEq ι] (s : Finset ι) (weight : ι → ℕ)
    (balance : ℕ → ι → ℤ) (pick : ℕ → ι) : Prop where
  start : ∀ i ∈ s, balance 0 i = 0
  pick_mem : ∀ t, pick t ∈ s
  most : ∀ t, ∀ i ∈ s, balance t i + weight i ≤ balance t (pick t) + weight (pick t)
  turn : ∀ t, ∀ i ∈ s,
    balance (t + 1) i =
      balance t i + weight i - if pick t = i then ((∑ j ∈ s, weight j : ℕ) : ℤ) else 0

namespace SmoothWeights

variable {ι : Type*} [DecidableEq ι] {s : Finset ι} {weight : ι → ℕ} {balance : ℕ → ι → ℤ}
  {pick : ℕ → ι}

theorem sum_balance (h : SmoothWeights s weight balance pick) (t : ℕ) :
    ∑ i ∈ s, balance t i = 0 := by
  induction t with
  | zero => exact Finset.sum_eq_zero h.start
  | succ t ih =>
    have hpaid : ∑ i ∈ s, (if pick t = i then ((∑ j ∈ s, weight j : ℕ) : ℤ) else 0) =
        (∑ j ∈ s, weight j : ℕ) := by
      rw [Finset.sum_ite_eq, if_pos (h.pick_mem t)]
    rw [Finset.sum_congr rfl (h.turn t), Finset.sum_sub_distrib, Finset.sum_add_distrib, ih, hpaid]
    push_cast
    ring

theorem pick_pos (h : SmoothWeights s weight balance pick) (hpos : ∀ i ∈ s, 0 < weight i) (t : ℕ) :
    0 < balance t (pick t) + weight (pick t) := by
  by_contra hle
  have hsum : ∑ i ∈ s, (balance t i + weight i) ≤ ∑ i ∈ s, 0 :=
    Finset.sum_le_sum fun i hi ↦ (h.most t i hi).trans (not_lt.mp hle)
  rw [Finset.sum_add_distrib, h.sum_balance, Finset.sum_const_zero, zero_add] at hsum
  have hone : (weight (pick t) : ℤ) ≤ ∑ i ∈ s, (weight i : ℤ) :=
    Finset.single_le_sum (f := fun i ↦ (weight i : ℤ)) (fun i _ ↦ Int.natCast_nonneg _) (h.pick_mem t)
  have := hpos (pick t) (h.pick_mem t)
  omega

/-- **No balance falls to minus the total.** -/
theorem neg_total_lt (h : SmoothWeights s weight balance pick) (hpos : ∀ i ∈ s, 0 < weight i)
    (t : ℕ) : ∀ i ∈ s, -((∑ j ∈ s, weight j : ℕ) : ℤ) < balance t i := by
  induction t with
  | zero =>
    intro i hi
    have hone : weight i ≤ ∑ j ∈ s, weight j := Finset.single_le_sum (fun j _ ↦ Nat.zero_le _) hi
    have := hpos i hi
    rw [h.start i hi]
    omega
  | succ t ih =>
    intro i hi
    rw [h.turn t i hi]
    split
    · rename_i heq
      subst heq
      have := h.pick_pos hpos t
      omega
    · have := ih i hi
      omega

/-- How often an entry was picked in the first turns. -/
def picked (pick : ℕ → ι) (t : ℕ) (i : ι) : ℕ := ((List.range t).map pick).count i

theorem picked_succ (pick : ℕ → ι) (t : ℕ) (i : ι) :
    picked pick (t + 1) i = picked pick t i + if pick t = i then 1 else 0 := by
  rw [picked, List.range_succ, List.map_append, List.count_append, picked, List.map_singleton,
    List.count_singleton]
  simp only [beq_iff_eq]

theorem balance_eq (h : SmoothWeights s weight balance pick) {i : ι} (hi : i ∈ s) (t : ℕ) :
    balance t i = t * weight i - (∑ j ∈ s, weight j : ℕ) * picked pick t i := by
  induction t with
  | zero => simp [h.start i hi, picked]
  | succ t ih =>
    rw [h.turn t i hi, ih, picked_succ]
    split
    · push_cast
      ring
    · push_cast
      ring

theorem sum_picked (h : SmoothWeights s weight balance pick) (t : ℕ) :
    ∑ i ∈ s, picked pick t i = t := by
  induction t with
  | zero => simp [picked]
  | succ t ih =>
    rw [Finset.sum_congr rfl fun i _ ↦ picked_succ pick t i, Finset.sum_add_distrib, ih,
      Finset.sum_ite_eq, if_pos (h.pick_mem t)]

theorem picked_total (h : SmoothWeights s weight balance pick) (hpos : ∀ i ∈ s, 0 < weight i) :
    ∀ i ∈ s, picked pick (∑ j ∈ s, weight j) i = weight i := by
  have hle : ∀ i ∈ s, picked pick (∑ j ∈ s, weight j) i ≤ weight i := by
    intro i hi
    have hlow := h.neg_total_lt hpos (∑ j ∈ s, weight j) i hi
    rw [h.balance_eq hi] at hlow
    have hW : (0 : ℤ) ≤ (∑ j ∈ s, weight j : ℕ) := Int.natCast_nonneg _
    by_contra hlt
    have hge : (weight i : ℤ) + 1 ≤ picked pick (∑ j ∈ s, weight j) i := by omega
    have hmul := mul_le_mul_of_nonneg_left hge hW
    rw [mul_add, mul_one] at hmul
    omega
  exact (Finset.sum_eq_sum_iff_of_le hle).mp (h.sum_picked _)

theorem balance_total (h : SmoothWeights s weight balance pick) (hpos : ∀ i ∈ s, 0 < weight i) :
    ∀ i ∈ s, balance (∑ j ∈ s, weight j) i = 0 := by
  intro i hi
  rw [h.balance_eq hi, h.picked_total hpos i hi]
  ring

theorem shift (h : SmoothWeights s weight balance pick) (hpos : ∀ i ∈ s, 0 < weight i) :
    SmoothWeights s weight (fun t ↦ balance (∑ j ∈ s, weight j + t))
      (fun t ↦ pick (∑ j ∈ s, weight j + t)) where
  start := h.balance_total hpos
  pick_mem _ := h.pick_mem _
  most _ := h.most _
  turn _ := h.turn _

theorem shift_blocks (h : SmoothWeights s weight balance pick) (hpos : ∀ i ∈ s, 0 < weight i)
    (k : ℕ) : SmoothWeights s weight (fun t ↦ balance (k * ∑ j ∈ s, weight j + t))
      (fun t ↦ pick (k * ∑ j ∈ s, weight j + t)) := by
  induction k with
  | zero => simpa using h
  | succ k ih =>
    have hnext := ih.shift hpos
    have heq (t : ℕ) : k * ∑ j ∈ s, weight j + (∑ j ∈ s, weight j + t) =
        (k + 1) * ∑ j ∈ s, weight j + t := by ring
    simpa only [heq] using hnext

theorem balance_blocks (h : SmoothWeights s weight balance pick) (hpos : ∀ i ∈ s, 0 < weight i)
    (k : ℕ) : ∀ i ∈ s, balance (k * ∑ j ∈ s, weight j) i = 0 :=
  (h.shift_blocks hpos k).start

/-- **In every block each entry is picked exactly as often as it weighs.** -/
theorem block_count (h : SmoothWeights s weight balance pick) (hpos : ∀ i ∈ s, 0 < weight i)
    (k : ℕ) : ∀ i ∈ s, ((List.range (∑ j ∈ s, weight j)).map
      fun t ↦ pick (k * ∑ j ∈ s, weight j + t)).count i = weight i :=
  (h.shift_blocks hpos k).picked_total hpos

/-! ## The bound from above -/

/-- What `k` of `n` entries hold together, at most, in units of the total. -/
def share (n k : ℕ) : ℚ := k * (harmonic n - harmonic k)

theorem harmonic_mono : Monotone harmonic := by
  refine monotone_nat_of_le_succ fun n ↦ ?_
  rw [harmonic_succ]
  have : (0 : ℚ) ≤ (↑(n + 1))⁻¹ := by positivity
  linarith

theorem share_nonneg {n k : ℕ} (h : k ≤ n) : 0 ≤ share n k :=
  mul_nonneg (Nat.cast_nonneg k) (sub_nonneg.mpr (harmonic_mono h))

theorem share_succ (n k : ℕ) : share n k * (k + 1) = (share n (k + 1) + 1) * k := by
  have hk : ((k : ℚ) + 1) ≠ 0 := by positivity
  rw [share, share, harmonic_succ]
  push_cast
  field_simp
  ring

theorem sum_le_share (h : SmoothWeights s weight balance pick) (t : ℕ) :
    ∀ A ⊆ s, ((∑ i ∈ A, balance t i : ℤ) : ℚ) ≤ (∑ j ∈ s, weight j : ℕ) * share s.card A.card := by
  induction t with
  | zero =>
    intro A hA
    rw [Finset.sum_eq_zero fun i hi ↦ h.start i (hA hi), Int.cast_zero]
    exact mul_nonneg (Nat.cast_nonneg _) (share_nonneg (Finset.card_le_card hA))
  | succ t ih =>
    intro A hA
    have hturn : ∑ i ∈ A, balance (t + 1) i = ∑ i ∈ A, balance t i + ∑ i ∈ A, (weight i : ℤ) -
        if pick t ∈ A then ((∑ j ∈ s, weight j : ℕ) : ℤ) else 0 := by
      rw [Finset.sum_congr rfl fun i hi ↦ h.turn t i (hA hi), Finset.sum_sub_distrib,
        Finset.sum_add_distrib, Finset.sum_ite_eq]
    have hweight {B : Finset ι} (hB : B ⊆ s) :
        ∑ i ∈ B, (weight i : ℤ) ≤ (∑ j ∈ s, weight j : ℕ) := by
      rw [Nat.cast_sum]
      exact Finset.sum_le_sum_of_subset_of_nonneg hB fun i _ _ ↦ Int.natCast_nonneg _
    by_cases hmem : pick t ∈ A
    · -- One of them paid the total, which is at least what they all gained.
      have hle : ∑ i ∈ A, balance (t + 1) i ≤ ∑ i ∈ A, balance t i := by
        rw [hturn, if_pos hmem]
        have := hweight hA
        omega
      exact (Int.cast_le.mpr hle).trans (ih A hA)
    · -- None of them was fuller than the one that paid.
      have hB : insert (pick t) A ⊆ s := Finset.insert_subset (h.pick_mem t) hA
      have hsum : ∑ i ∈ A, balance (t + 1) i = ∑ i ∈ A, (balance t i + weight i) := by
        rw [hturn, if_neg hmem, Finset.sum_add_distrib, sub_zero]
      have hmost : ∑ i ∈ A, (balance t i + weight i) ≤
          A.card * (balance t (pick t) + weight (pick t)) := by
        rw [← nsmul_eq_mul, ← Finset.sum_const]
        exact Finset.sum_le_sum fun i hi ↦ h.most t i (hA hi)
      have hall : ∑ i ∈ insert (pick t) A, (balance t i + weight i) =
          (balance t (pick t) + weight (pick t)) + ∑ i ∈ A, (balance t i + weight i) :=
        Finset.sum_insert hmem
      have hbefore := ih (insert (pick t) A) hB
      rw [Finset.card_insert_of_notMem hmem] at hbefore
      have hgain := hweight hB
      rw [Finset.sum_add_distrib] at hall
      have hrest : (((balance t (pick t) + weight (pick t)) +
          ∑ i ∈ A, (balance t i + weight i) : ℤ) : ℚ) ≤
          (∑ j ∈ s, weight j : ℕ) * share s.card (A.card + 1) + (∑ j ∈ s, weight j : ℕ) := by
        rw [← hall, Int.cast_add]
        have hgain' : ((∑ i ∈ insert (pick t) A, (weight i : ℤ) : ℤ) : ℚ) ≤
            ((∑ j ∈ s, weight j : ℕ) : ℚ) := by exact_mod_cast hgain
        linarith
      have hmost' : ((∑ i ∈ A, (balance t i + weight i) : ℤ) : ℚ) ≤
          A.card * ((balance t (pick t) + weight (pick t) : ℤ) : ℚ) := by exact_mod_cast hmost
      have hk : (0 : ℚ) < A.card + 1 := Nat.cast_add_one_pos A.card
      have hshare := share_succ s.card A.card
      rw [hsum, ← mul_le_mul_iff_left₀ hk]
      rw [Int.cast_add] at hrest
      nlinarith [Nat.cast_nonneg (α := ℚ) A.card]

/-- **No balance exceeds the total times `1/2 + … + 1/n`.** -/
theorem le_harmonic (h : SmoothWeights s weight balance pick) (t : ℕ) : ∀ i ∈ s,
    (balance t i : ℚ) ≤ (∑ j ∈ s, weight j : ℕ) * (harmonic s.card - 1) := by
  intro i hi
  have hone := h.sum_le_share t {i} (Finset.singleton_subset_iff.mpr hi)
  rw [Finset.sum_singleton, Finset.card_singleton, share] at hone
  have hfirst : harmonic 1 = 1 := by rw [harmonic_succ, harmonic_zero]; norm_num
  rwa [hfirst, Nat.cast_one, one_mul] at hone

end SmoothWeights
