import Mathlib.Algebra.BigOperators.Fin
import Mathlib.Data.Int.ModEq

/-!
# Counting inside a sliding window, in a ring of slots

Time is cut into numbered slots, and a ring of `k` buckets counts what happened in the last `k` of
them: bucket `i` belongs to the slots that are `i` modulo `k`, one after the other, and starts anew
when the next of them comes.  Nothing is ever cleared for a slot in which nothing happens, so old
buckets stay until they are needed again; a reader passes over the ones that are too old.

`total_ofList` says that nothing is lost by this: if events come in the order of their slots, the
ring counts exactly the events of the last `k` slots.  The invariant is `Holds`: a bucket counts the
latest slot of its residue in which something happened.
-/

set_option autoImplicit false

/-- The buckets, and the slot each of them counts; none has come yet in an empty bucket. -/
structure SlotRing (k : ℕ) where
  slotAt : Vector (Option ℤ) k
  count : Vector ℕ k

namespace SlotRing

variable {k : ℕ} [NeZero k]

/-- The bucket of a slot. -/
def index (slot : ℤ) : Fin k :=
  ⟨(slot % k).toNat, by
    have hk : (0 : ℤ) < k := by exact_mod_cast Nat.pos_of_neZero k
    have := Int.emod_nonneg slot hk.ne'
    have := Int.emod_lt_of_pos slot hk
    omega⟩

def empty : SlotRing k := ⟨Vector.replicate k none, Vector.replicate k 0⟩

/-- Count `n` more in a slot that has this bucket; one whose turn has come round again starts
anew. -/
def put (r : SlotRing k) (i : Fin k) (slot : ℤ) (n : ℕ) : SlotRing k :=
  let before := if r.slotAt.get i = some slot then r.count.get i else 0
  ⟨r.slotAt.set i (some slot), r.count.set i (before + n)⟩

/-- Count `n` more in a slot. -/
def add (r : SlotRing k) (slot : ℤ) (n : ℕ) : SlotRing k := r.put (index slot) slot n

/-- What happened in the last `k` slots. -/
def total (r : SlotRing k) (now : ℤ) : ℕ :=
  ((List.finRange k).map fun i ↦
    if (r.slotAt.get i).any fun slot ↦ decide (now - (k - 1 : ℕ) ≤ slot) then r.count.get i
    else 0).sum

/-- The ring after some events, each with its slot. -/
def ofList (l : List (ℤ × ℕ)) : SlotRing k := l.foldl (fun r c ↦ r.add c.1 c.2) empty

theorem index_eq_iff {s t : ℤ} : (index s : Fin k) = index t ↔ s % k = t % k := by
  have hk : (0 : ℤ) < k := by exact_mod_cast Nat.pos_of_neZero k
  have hs := Int.emod_nonneg s hk.ne'
  have ht := Int.emod_nonneg t hk.ne'
  rw [index, index, Fin.mk.injEq]
  constructor
  · intro h
    omega
  · intro h
    rw [h]

theorem eq_of_index_eq {s t : ℤ} (h : (index s : Fin k) = index t) (hst : s ≤ t)
    (hlt : t < s + k) : s = t := by
  have hmod : (k : ℤ) ∣ t - s := Int.ModEq.dvd (index_eq_iff.mp h)
  have hzero := Int.eq_zero_of_dvd_of_nonneg_of_lt (by omega) (by omega) hmod
  omega

/-! ## The list it stands for -/

/-- How much happened in the slots with a property. -/
def sumWhere (l : List (ℤ × ℕ)) (p : ℤ → Prop) [DecidablePred p] : ℕ :=
  ((l.filter fun c ↦ p c.1).map (·.2)).sum

theorem sumWhere_cons (c : ℤ × ℕ) (l : List (ℤ × ℕ)) (p : ℤ → Prop) [DecidablePred p] :
    sumWhere (c :: l) p = (if p c.1 then c.2 else 0) + sumWhere l p := by
  by_cases h : p c.1 <;> simp [sumWhere, h]

theorem sumWhere_append (l m : List (ℤ × ℕ)) (p : ℤ → Prop) [DecidablePred p] :
    sumWhere (l ++ m) p = sumWhere l p + sumWhere m p := by
  rw [sumWhere, List.filter_append, List.map_append, List.sum_append]
  rfl

variable {l : List (ℤ × ℕ)}

theorem sumWhere_congr {p q : ℤ → Prop} [DecidablePred p] [DecidablePred q]
    (h : ∀ c ∈ l, p c.1 ↔ q c.1) : sumWhere l p = sumWhere l q := by
  have hfilter : l.filter (fun c ↦ decide (p c.1)) = l.filter fun c ↦ decide (q c.1) :=
    List.filter_congr fun c hc ↦ decide_eq_decide.mpr (h c hc)
  rw [sumWhere, sumWhere, hfilter]

theorem sumWhere_eq_zero {p : ℤ → Prop} [DecidablePred p] (h : ∀ c ∈ l, ¬p c.1) :
    sumWhere l p = 0 := by
  have hnil : l.filter (fun c ↦ decide (p c.1)) = [] := by
    rw [List.filter_eq_nil_iff]
    intro c hc
    simpa using h c hc
  rw [sumWhere, hnil]
  rfl

theorem get_set_self {α : Type} (v : Vector α k) (i : Fin k) (a : α) : (v.set i a).get i = a :=
  Vector.getElem_set_self i.2

variable {i : Fin k}

theorem get_set_other {α : Type} (v : Vector α k) {j : Fin k} (h : i ≠ j) (a : α) :
    (v.set i a).get j = v.get j :=
  Vector.getElem_set_ne i.2 j.2 fun heq ↦ h (Fin.ext heq)

/-- Every bucket counts the latest slot of its residue. -/
def Holds (r : SlotRing k) (l : List (ℤ × ℕ)) : Prop :=
  ∀ i, match r.slotAt.get i with
    | none => ∀ c ∈ l, (index c.1 : Fin k) ≠ i
    | some s => (∃ c ∈ l, c.1 = s) ∧ index s = i ∧
        (∀ c ∈ l, (index c.1 : Fin k) = i → c.1 ≤ s) ∧ r.count.get i = sumWhere l (· = s)

theorem slotAt_add_self (r : SlotRing k) (slot : ℤ) (n : ℕ) :
    (r.add slot n).slotAt.get (index slot) = some slot :=
  get_set_self _ _ _

variable {slot : ℤ}

theorem slotAt_add_other (r : SlotRing k) (h : index slot ≠ i) (n : ℕ) :
    (r.add slot n).slotAt.get i = r.slotAt.get i :=
  get_set_other _ h _

theorem count_add_self (r : SlotRing k) (slot : ℤ) (n : ℕ) : (r.add slot n).count.get (index slot) =
      (if r.slotAt.get (index slot) = some slot then r.count.get (index slot) else 0) + n :=
  get_set_self _ _ _

theorem count_add_other (r : SlotRing k) (h : index slot ≠ i) (n : ℕ) :
    (r.add slot n).count.get i = r.count.get i :=
  get_set_other _ h _

theorem Holds.empty : (empty : SlotRing k).Holds [] := by
  intro i
  have hnone : (.empty : SlotRing k).slotAt.get i = none := Vector.getElem_replicate i.2
  rw [hnone]
  intro c hc
  exact absurd hc List.not_mem_nil

variable {r : SlotRing k}

theorem Holds.add (h : r.Holds l) (hle : ∀ c ∈ l, c.1 ≤ slot) (n : ℕ) :
    (r.add slot n).Holds (l ++ [(slot, n)]) := by
  intro i
  by_cases hi : index slot = i
  · subst hi
    rw [slotAt_add_self]
    refine ⟨⟨(slot, n), by simp, rfl⟩, rfl, ?_, ?_⟩
    · intro c hc _
      rcases List.mem_append.mp hc with hc | hc
      · exact hle c hc
      · obtain rfl := List.mem_singleton.mp hc
        exact le_rfl
    · have hold : (if r.slotAt.get (index slot) = some slot then r.count.get (index slot) else 0) =
          sumWhere l (· = slot) := by
        have hslot := h (index slot)
        cases hs : r.slotAt.get (index slot) with
        | none =>
          rw [hs] at hslot
          rw [if_neg (by simp), sumWhere_eq_zero fun c hc heq ↦ hslot c hc (by rw [heq])]
        | some s =>
          rw [hs] at hslot
          obtain ⟨⟨c, hc, rfl⟩, -, hmax, hcount⟩ := hslot
          by_cases heq : c.1 = slot
          · rw [if_pos (by rw [heq]), hcount, heq]
          · rw [if_neg (by simpa using heq), sumWhere_eq_zero]
            rintro d hd rfl
            exact heq (le_antisymm (hle c hc) (hmax d hd rfl))
      rw [count_add_self, hold, sumWhere_append]
      simp [sumWhere]
  · rw [slotAt_add_other r hi n, count_add_other r hi n]
    have hslot := h i
    cases hs : r.slotAt.get i with
    | none =>
      rw [hs] at hslot
      intro c hc
      rcases List.mem_append.mp hc with hc | hc
      · exact hslot c hc
      · obtain rfl := List.mem_singleton.mp hc
        exact hi
    | some s =>
      rw [hs] at hslot
      obtain ⟨⟨d, hd, hds⟩, hindex, hmax, hcount⟩ := hslot
      refine ⟨⟨d, List.mem_append_left _ hd, hds⟩, hindex, ?_, ?_⟩
      · intro c hc hci
        rcases List.mem_append.mp hc with hc | hc
        · exact hmax c hc hci
        · obtain rfl := List.mem_singleton.mp hc
          exact absurd hci hi
      · have hne : slot ≠ s := by
          rintro rfl
          exact hi hindex
        rw [hcount, sumWhere_append, sumWhere_eq_zero (l := [(slot, n)]), Nat.add_zero]
        intro c hc heq
        obtain rfl := List.mem_singleton.mp hc
        exact hne heq

theorem Holds.ofList (h : l.Pairwise fun c d ↦ c.1 ≤ d.1) : (ofList l : SlotRing k).Holds l := by
  induction l using List.reverseRecOn with
  | nil => exact .empty
  | append_singleton l c ih =>
    rw [List.pairwise_append] at h
    rw [SlotRing.ofList, List.foldl_concat]
    exact (ih h.1).add (fun d hd ↦ h.2.2 d hd c List.mem_cons_self) c.2

/-! ## Reading -/

variable {now : ℤ}

theorem Holds.bucket (h : r.Holds l) (hnow : ∀ c ∈ l, c.1 ≤ now) (i : Fin k) :
    (if (r.slotAt.get i).any fun slot ↦ decide (now - (k - 1 : ℕ) ≤ slot) then r.count.get i
      else 0) = sumWhere l fun s ↦ index s = i ∧ now - (k - 1 : ℕ) ≤ s := by
  have hk : 0 < k := Nat.pos_of_neZero k
  have hslot := h i
  cases hs : r.slotAt.get i with
  | none =>
    rw [hs] at hslot
    rw [Option.any_none, if_neg (by simp), sumWhere_eq_zero fun c hc hcond ↦ hslot c hc hcond.1]
  | some s =>
    rw [hs] at hslot
    obtain ⟨⟨d, hd, rfl⟩, hindex, hmax, hcount⟩ := hslot
    simp only [Option.any_some, decide_eq_true_eq]
    split
    · rename_i hold
      rw [hcount]
      refine sumWhere_congr fun c hc ↦ ⟨fun heq ↦ ?_, fun ⟨hci, hold'⟩ ↦ ?_⟩
      · rw [heq]
        exact ⟨hindex, hold⟩
      · refine eq_of_index_eq (hci.trans hindex.symm) (hmax c hc hci) ?_
        have := hnow d hd
        omega
    · rename_i hold
      rw [sumWhere_eq_zero]
      rintro c hc ⟨hci, hold'⟩
      exact hold (hold'.trans (hmax c hc hci))

theorem sum_buckets (l : List (ℤ × ℕ)) (p : ℤ → Prop) [DecidablePred p] :
    ∑ i : Fin k, sumWhere l (fun s ↦ index s = i ∧ p s) = sumWhere l p := by
  induction l with
  | nil => simp [sumWhere]
  | cons c l ih =>
    have hone : ∑ i : Fin k, (if index c.1 = i ∧ p c.1 then c.2 else 0) =
        if p c.1 then c.2 else 0 := by
      by_cases hp : p c.1 <;> simp [hp]
    calc ∑ i : Fin k, sumWhere (c :: l) (fun s ↦ index s = i ∧ p s)
        = ∑ i : Fin k, ((if index c.1 = i ∧ p c.1 then c.2 else 0) +
            sumWhere l fun s ↦ index s = i ∧ p s) :=
          Finset.sum_congr rfl fun i _ ↦ sumWhere_cons c l _
      _ = sumWhere (c :: l) p := by rw [Finset.sum_add_distrib, hone, ih, sumWhere_cons]

theorem Holds.total (h : r.Holds l) (hnow : ∀ c ∈ l, c.1 ≤ now) :
    r.total now = sumWhere l fun s ↦ now - (k - 1 : ℕ) ≤ s := by
  rw [SlotRing.total, ← Fin.sum_univ_def, ← sum_buckets (k := k)]
  exact Finset.sum_congr rfl fun i _ ↦ h.bucket hnow i

/-- **The ring counts exactly the last `k` slots**, whatever gaps and bursts there were. -/
theorem total_ofList (h : l.Pairwise fun c d ↦ c.1 ≤ d.1) (hnow : ∀ c ∈ l, c.1 ≤ now) :
    (ofList l : SlotRing k).total now = sumWhere l fun s ↦ now - (k - 1 : ℕ) ≤ s :=
  (Holds.ofList h).total hnow

end SlotRing
