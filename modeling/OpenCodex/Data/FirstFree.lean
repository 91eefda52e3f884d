import Mathlib.Data.List.Nodup
import Mathlib.Data.List.Perm.Subperm
import Mathlib.Data.Nat.Find

/-!
# The first candidate that is free

Candidates are numbered, and some of them are taken.  As long as no two candidates are the same, one
of the first `taken.length + 1` is free (`exists_isFirst`), and the loop that tries one after another
ends with the first (`search_eq`).
-/

set_option autoImplicit false

namespace FirstFree

variable {α : Type} (c : ℕ → α) (taken : List α)

/-- The first number from `start` on whose candidate is free. -/
structure IsFirst (start n : ℕ) : Prop where
  le : start ≤ n
  free : c n ∉ taken
  taken : ∀ m, start ≤ m → m < n → c m ∈ taken

variable {c taken} {start n : ℕ}

theorem IsFirst.exists_of_free (h : c n ∉ taken) (hn : start ≤ n) :
    ∃ m ≤ n, IsFirst c taken start m := by
  classical
  have hfree : ∃ m, start ≤ m ∧ c m ∉ taken := ⟨n, hn, h⟩
  refine ⟨Nat.find hfree, Nat.find_min' hfree ⟨hn, h⟩, (Nat.find_spec hfree).1,
    (Nat.find_spec hfree).2, fun m hm hlt ↦ ?_⟩
  by_contra hnot
  exact Nat.find_min hfree hlt ⟨hm, hnot⟩

theorem exists_isFirst {base : ℕ} (hinj : ∀ m n, base ≤ m → base ≤ n → c m = c n → m = n)
    (hstart : start ≤ base) : ∃ n ≤ base + taken.length, IsFirst c taken start n := by
  classical
  obtain ⟨k, hk, hck⟩ : ∃ k ≤ taken.length, c (base + k) ∉ taken := by
    by_contra h
    push Not at h
    have hnodup : ((List.range (taken.length + 1)).map fun k ↦ c (base + k)).Nodup :=
      List.nodup_range.map_on fun k _ k' _ heq ↦
        Nat.add_left_cancel (hinj _ _ (by omega) (by omega) heq)
    have hsub : (List.range (taken.length + 1)).map (fun k ↦ c (base + k)) ⊆ taken := fun a ha ↦ by
      obtain ⟨k, hk, rfl⟩ := List.mem_map.mp ha
      exact h k (Nat.lt_succ_iff.mp (List.mem_range.mp hk))
    have hlength := (hnodup.subperm hsub).length_le
    rw [List.length_map, List.length_range] at hlength
    omega
  obtain ⟨n, hle, hfirst⟩ := IsFirst.exists_of_free hck (show start ≤ base + k by omega)
  exact ⟨n, by omega, hfirst⟩

theorem IsFirst.succ (h : IsFirst c taken start n) (htaken : c start ∈ taken) :
    IsFirst c taken (start + 1) n := by
  have hne : start ≠ n := fun heq ↦ h.free (heq ▸ htaken)
  have hle := h.le
  exact ⟨by omega, h.free, fun m hm hlt ↦ h.taken m (by omega) hlt⟩

variable [DecidableEq α]

/-- The loop that tries one after another. -/
def search (c : ℕ → α) (taken : List α) : ℕ → ℕ → Option α
  | 0, _ => none
  | fuel + 1, n => if c n ∈ taken then search c taken fuel (n + 1) else some (c n)

theorem search_eq {fuel : ℕ} (h : IsFirst c taken start n) (hfuel : n < start + fuel) :
    search c taken fuel start = some (c n) := by
  induction fuel generalizing start with
  | zero => exact absurd h.le (by omega)
  | succ fuel ih =>
    rw [search]
    split_ifs with htaken
    · exact ih (h.succ htaken) (by omega)
    · obtain heq | hlt := Nat.eq_or_lt_of_le h.le
      · rw [heq]
      · exact absurd (h.taken start le_rfl hlt) htaken

end FirstFree
