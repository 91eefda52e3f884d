import OpenCodex.Data.OMap

/-!
# Maps of maps

A table under two keys is kept as a map of maps, and a key whose inner map has become empty is taken
out.  Such a table is *tidy*.  Three operations are enough to speak of it: `put` writes one entry,
`sweepKey` takes out entries of one key, and what is stored is `find?`, or `flat` with all entries
in their order.  `count` is how many there are; each operation says what it does to it, so that a
counter that is kept beside the table can be compared with it.
-/

set_option autoImplicit false

open List Option OMap

universe u v w

/-- A map of maps. -/
abbrev Nested (κ : Type u) (σ : Type v) (α : Type w) := OMap κ (OMap σ α)

namespace Nested

variable {κ : Type u} {σ : Type v} {α : Type w}

/-- How many entries there are. -/
def count (m : Nested κ σ α) : ℕ := m.total fun _ inner ↦ inner.size

/-- All entries, with both keys. -/
def flat (m : Nested κ σ α) : List (κ × σ × α) :=
  m.entries.flatMap fun p ↦ p.2.entries.map fun q ↦ (p.1, q.1, q.2)

theorem length_flat (m : Nested κ σ α) : m.flat.length = m.count := by
  rw [flat, count, OMap.total, length_flatMap]
  simp only [length_map, OMap.size]

variable [DecidableEq κ] {m : Nested κ σ α} {k k' : κ} {drops : σ → α → Bool}

/-- No inner map is empty. -/
def Tidy (m : Nested κ σ α) : Prop := ∀ k inner, m.get? k = some inner → 0 < inner.size

/-- Take out the entries of one key that a test rejects, and the key if nothing is left. -/
def sweepKey (drops : σ → α → Bool) (k : κ) (m : Nested κ σ α) : Nested κ σ α :=
  match m.get? k with
  | none => m
  | some inner =>
    let kept := inner.filter fun s a ↦ !drops s a
    if kept.size = 0 then m.delete k else m.set k kept

/-- How many entries that takes out. -/
def dropped (drops : σ → α → Bool) (k : κ) (m : Nested κ σ α) : ℕ :=
  ((m.get? k).map fun inner ↦ inner.size - (inner.filter fun s a ↦ !drops s a).size).getD 0

theorem tidy_empty : Tidy (.empty : Nested κ σ α) := fun _ _ h ↦ absurd h.symm (some_ne_none _)

theorem Tidy.delete (h : m.Tidy) (k : κ) : Tidy (m.delete k) :=
  fun k' inner hget ↦ h k' inner (get?_of_delete hget)

variable {inner : OMap σ α}

theorem Tidy.set (h : m.Tidy) (hinner : 0 < inner.size) (k : κ) : Tidy (m.set k inner) := by
  intro k' inner' hget
  rw [get?_set] at hget
  split at hget
  · exact some.inj hget ▸ hinner
  · exact h k' inner' hget

theorem Tidy.sweepKey (h : m.Tidy) (drops : σ → α → Bool) (k : κ) :
    (Nested.sweepKey drops k m).Tidy := by
  rw [Nested.sweepKey]
  split
  · exact h
  · dsimp only
    split_ifs with hzero
    · exact h.delete k
    · exact h.set (Nat.pos_of_ne_zero hzero) k

/-- **How many are left.** -/
theorem count_sweepKey (drops : σ → α → Bool) (k : κ) (m : Nested κ σ α) :
    (sweepKey drops k m).count + dropped drops k m = m.count := by
  rw [sweepKey, dropped]
  cases hget : m.get? k with
  | none => rfl
  | some inner =>
    have hle := size_filter_le (fun s a ↦ !drops s a) inner
    dsimp only
    rw [map_some, getD_some]
    split_ifs with hzero
    · have hdelete := total_delete hget fun _ inner ↦ inner.size
      rw [hzero, Nat.sub_zero]
      exact hdelete
    · have hset := total_set_of_get? hget (inner.filter fun s a ↦ !drops s a)
        fun _ inner ↦ inner.size
      rw [count, count]
      omega

theorem has_of_sweepKey (h : (sweepKey drops k m).has k' = true) : m.has k' = true := by
  rw [sweepKey] at h
  split at h
  · exact h
  · rename_i inner hget
    dsimp only at h
    split_ifs at h with hzero
    · rw [has_delete] at h
      exact (Bool.and_eq_true _ _ ▸ h).2
    · rw [has_set] at h
      rcases Bool.or_eq_true _ _ ▸ h with heq | hhas
      · rw [of_decide_eq_true heq]
        exact has_of_get? hget
      · exact hhas

variable [DecidableEq σ] {s s' : σ} {a : α}

/-- What is stored under two keys. -/
def find? (m : Nested κ σ α) (k : κ) (s : σ) : Option α := (m.get? k).bind (·.get? s)

/-- Write one entry. -/
def put (m : Nested κ σ α) (k : κ) (s : σ) (a : α) : Nested κ σ α :=
  m.set k (((m.get? k).getD .empty).set s a)

theorem find?_of_get? (h : m.get? k = some inner) (s : σ) : m.find? k s = inner.get? s := by
  rw [find?, h, bind_some]

theorem mem_flat : (k, s, a) ∈ m.flat ↔ m.find? k s = some a := by
  rw [flat, mem_flatMap, find?, bind_eq_some_iff]
  constructor
  · rintro ⟨⟨k', inner⟩, hp, hq⟩
    obtain ⟨⟨s', a'⟩, hin, heq⟩ := List.mem_map.mp hq
    obtain ⟨rfl, rfl, rfl⟩ : k' = k ∧ s' = s ∧ a' = a := by simpa using heq
    exact ⟨inner, mem_entries.mp hp, mem_entries.mp hin⟩
  · rintro ⟨inner, hk, hs⟩
    exact ⟨(k, inner), mem_entries.mpr hk, List.mem_map.mpr ⟨(s, a), mem_entries.mpr hs, rfl⟩⟩

theorem has_of_find? (h : m.find? k s = some a) : m.has k = true := by
  obtain ⟨inner, hget, -⟩ := bind_eq_some_iff.mp h
  exact has_of_get? hget

/-! ## Taking out -/

theorem get?_filter_eq (inner : OMap σ α) (p : σ → α → Bool) (s : σ) :
    (inner.filter p).get? s = (inner.get? s).filter (p s) := by
  refine Option.ext fun a ↦ ?_
  rw [get?_filter, filter_eq_some_iff]

theorem get?_eq_none_of_size (h : inner.size = 0) (s : σ) : inner.get? s = none := by
  rw [← OMap.notMem_keys, OMap.keys, length_eq_zero_iff.mp h]
  exact not_mem_nil

theorem find?_delete : find? (m.delete k) k' s = if k' = k then none else m.find? k' s := by
  rw [find?, get?_delete]
  split <;> rfl

theorem find?_set : find? (m.set k inner) k' s = if k' = k then inner.get? s else m.find? k' s := by
  rw [find?, get?_set]
  split <;> rfl

/-- **What is left.** -/
theorem find?_sweepKey : (sweepKey drops k m).find? k' s =
    if k' = k then (m.find? k s).filter (fun a ↦ !drops s a) else m.find? k' s := by
  rw [sweepKey]
  cases hget : m.get? k with
  | none =>
    have hnone : m.find? k s = none := by rw [find?, hget]; rfl
    split_ifs with heq
    · rw [heq, hnone]
      rfl
    · rfl
  | some inner =>
    dsimp only
    rw [find?_of_get? hget, ← get?_filter_eq inner fun s a ↦ !drops s a]
    split_ifs with hzero heq heq
    · rw [find?_delete, if_pos heq, get?_eq_none_of_size hzero]
    · rw [find?_delete, if_neg heq]
    · rw [find?_set, if_pos heq]
    · rw [find?_set, if_neg heq]

theorem dropped_pos (h : m.find? k s = some a) (hdrops : drops s a = true) :
    0 < dropped drops k m := by
  obtain ⟨inner, hget, hs⟩ := bind_eq_some_iff.mp h
  have hlt : (inner.filter fun s a ↦ !drops s a).size < inner.size := by
    refine length_filter_lt_length_iff_exists.mpr ⟨(s, a), mem_entries.mpr hs, ?_⟩
    simp [hdrops]
  rw [dropped, hget, map_some, getD_some]
  exact Nat.sub_pos_of_lt hlt

/-! ## Writing -/

/-- **What is there after writing.** -/
theorem find?_put : (put m k s a).find? k' s' =
    if k' = k ∧ s' = s then some a else m.find? k' s' := by
  rw [put, find?_set]
  by_cases hk : k' = k
  · subst hk
    rw [if_pos rfl, get?_set]
    by_cases hs : s' = s
    · rw [if_pos hs, if_pos ⟨rfl, hs⟩]
    · rw [if_neg hs, if_neg fun h ↦ hs h.2, find?]
      cases m.get? k' <;> rfl
  · rw [if_neg hk, if_neg fun h ↦ hk h.1]

theorem size_set_pos (inner : OMap σ α) (s : σ) (a : α) : 0 < (inner.set s a).size :=
  length_pos_of_mem (mem_entries.mpr (inner.get?_set_self s a))

theorem Tidy.put (h : m.Tidy) (k : κ) (s : σ) (a : α) : (Nested.put m k s a).Tidy :=
  h.set (size_set_pos _ s a) k

theorem has_put : (put m k s a).has k' = (decide (k' = k) || m.has k') := has_set ..

/-- **How many there are after writing.** -/
theorem count_put (m : Nested κ σ α) (k : κ) (s : σ) (a : α) :
    (put m k s a).count = m.count + if (m.find? k s).isNone then 1 else 0 := by
  cases hget : m.get? k with
  | none =>
    have hnew := total_set_of_not_has (has_eq_false_iff.mpr hget) (OMap.empty.set s a)
      fun _ inner ↦ inner.size
    rw [put, find?, hget, count, getD_none, hnew, size_set]
    rfl
  | some inner =>
    have hold := total_set_of_get? hget (inner.set s a) fun _ inner ↦ inner.size
    rw [size_set, OMap.has] at hold
    rw [put, find?_of_get? hget, hget, count, count, getD_some]
    cases hs : inner.get? s with
    | none =>
      rw [hs, isSome_none, if_neg Bool.false_ne_true] at hold
      rw [isNone_none, if_pos rfl]
      omega
    | some a' =>
      rw [hs, isSome_some, if_pos rfl] at hold
      rw [isNone_some, if_neg Bool.false_ne_true]
      omega

/-! ## Changing every entry -/

/-- Change every entry, where it is. -/
def mapEntries (f : α → α) (m : Nested κ σ α) : Nested κ σ α :=
  m.mapValues fun inner ↦ inner.mapValues f

omit [DecidableEq κ] [DecidableEq σ] in
theorem count_mapEntries (f : α → α) (m : Nested κ σ α) : (mapEntries f m).count = m.count := by
  rw [mapEntries, count, count, OMap.total, OMap.total, mapValues, List.map_map]
  refine congrArg List.sum (map_congr_left fun p _ ↦ ?_)
  exact length_map ..

omit [DecidableEq σ] in
theorem Tidy.mapEntries (h : m.Tidy) (f : α → α) : (Nested.mapEntries f m).Tidy := by
  intro k inner hget
  rw [Nested.mapEntries, get?_mapValues] at hget
  obtain ⟨inner', hget', rfl⟩ := map_eq_some_iff.mp hget
  exact (h k inner' hget').trans_eq (length_map ..).symm

omit [DecidableEq σ] in
theorem has_mapEntries {f : α → α} : (mapEntries f m).has k = m.has k := by
  rw [OMap.has, mapEntries, get?_mapValues, isSome_map, OMap.has]

end Nested
