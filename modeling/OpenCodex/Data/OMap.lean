import Mathlib.Data.List.Nodup
import Mathlib.Algebra.GroupWithZero.Nat
import Mathlib.Algebra.Order.BigOperators.Group.List

/-!
# Insertion-ordered finite maps

The stores modelled in this development are JavaScript `Map`s.  Such a map is finite, holds one
value per key, and is iterated in the order in which its keys first appeared: writing to a key that
is already there keeps its place, writing to a new key puts it last, and deleting a key and writing
it again puts it last too.  The order is visible — eviction loops break ties by it — so neither
`AList`, which moves a rewritten key to the front, nor a `Finmap`, which forgets the order, will do.

`OMap κ α` is the list of entries together with the proof that no key occurs twice, so a map with a
repeated key cannot be built.  Beside the three operations and their lookup laws the file has what
accounting needs: `OMap.total`, the sum of a quantity over the entries, with what each operation does
to it, and `OMap.rebuild`, by which the entries of a map, written one after the other, give it back.
-/

set_option autoImplicit false

open List Option

universe u v

/-- A finite map that remembers the order in which its keys were first written. -/
structure OMap (κ : Type u) (α : Type v) where
  /-- The entries, oldest key first. -/
  entries : List (κ × α)
  /-- No key occurs twice. -/
  nodup : (entries.map Prod.fst).Nodup

namespace OMap

variable {κ : Type u} {α : Type v}

variable {m : OMap κ α}

variable {m' : OMap κ α}

@[ext] theorem ext (h : m.entries = m'.entries) : m = m' := by cases m; cases m'; cases h; rfl

/-- The map without entries. -/
def empty : OMap κ α := ⟨[], nodup_nil⟩

instance : Inhabited (OMap κ α) := ⟨empty⟩

instance [DecidableEq κ] [DecidableEq α] : DecidableEq (OMap κ α) := fun m m' ↦
  decidable_of_iff (m.entries = m'.entries) ⟨ext, fun h ↦ h ▸ rfl⟩

/-- The number of keys. -/
def size (m : OMap κ α) : ℕ := m.entries.length

/-- The keys, oldest first. -/
def keys (m : OMap κ α) : List κ := m.entries.map Prod.fst

theorem keys_nodup (m : OMap κ α) : m.keys.Nodup := m.nodup

@[simp] theorem length_keys (m : OMap κ α) : m.keys.length = m.size := length_map ..

@[simp] theorem entries_empty : (empty : OMap κ α).entries = [] := rfl

@[simp] theorem size_empty : (empty : OMap κ α).size = 0 := rfl

variable [DecidableEq κ]

/-- The value of a key. -/
def get? (m : OMap κ α) (k : κ) : Option α := m.entries.lookup k

/-- Does the key occur? -/
def has (m : OMap κ α) (k : κ) : Bool := (m.get? k).isSome

/-- Write a value: in place if the key is there, at the end if it is not. -/
def set (m : OMap κ α) (k : κ) (v : α) : OMap κ α :=
  if h : k ∈ m.keys then
    ⟨m.entries.map fun p ↦ if p.1 = k then (k, v) else p, by
      have hk : (m.entries.map fun p ↦ if p.1 = k then (k, v) else p).map Prod.fst = m.keys := by
        rw [List.map_map, keys]
        refine map_congr_left fun p _ ↦ ?_
        by_cases hp : p.1 = k <;> simp [hp]
      rw [hk]; exact m.nodup⟩
  else
    ⟨m.entries ++ [(k, v)], by
      rw [map_append]
      exact nodup_append.mpr ⟨m.nodup, by simp, fun a ha b hb hab ↦ by
        simp only [map_cons, map_nil, mem_singleton] at hb
        exact h (hb ▸ hab ▸ ha)⟩⟩

/-- Remove a key. -/
def delete (m : OMap κ α) (k : κ) : OMap κ α :=
  ⟨m.entries.filter fun p ↦ p.1 ≠ k, m.nodup.sublist (filter_sublist.map _)⟩

/-! ## Lookup -/

variable {k : κ} {v : α} {l : List (κ × α)}

theorem lookup_mem (h : l.lookup k = some v) : (k, v) ∈ l := by
  induction l with
  | nil => simp at h
  | cons p l ih =>
    obtain ⟨k', v'⟩ := p
    rw [lookup_cons] at h
    by_cases hk : k = k'
    · subst hk; simp only [beq_self_eq_true, Option.some.injEq] at h; simp [h]
    · simp only [beq_eq_false_iff_ne.mpr hk] at h
      exact mem_cons_of_mem _ (ih h)

theorem lookup_of_mem (hnd : (l.map Prod.fst).Nodup) (h : (k, v) ∈ l) : l.lookup k = some v := by
  induction l with
  | nil => simp at h
  | cons p l ih =>
    obtain ⟨k', v'⟩ := p
    rw [map_cons, nodup_cons] at hnd
    rw [lookup_cons]
    rcases mem_cons.mp h with h | h
    · simp only [Prod.mk.injEq] at h
      simp [h.1, h.2]
    · have hk : k ≠ k' := fun hk ↦ hnd.1 (mem_map.mpr ⟨(k, v), h, hk⟩)
      simpa only [beq_eq_false_iff_ne.mpr hk] using ih hnd.2 h

/-- **An entry is a lookup**: the list of entries and the lookup function say the same thing. -/
theorem mem_entries : (k, v) ∈ m.entries ↔ m.get? k = some v := ⟨lookup_of_mem m.nodup, lookup_mem⟩

theorem mem_keys : k ∈ m.keys ↔ ∃ v, m.get? k = some v := by
  rw [keys, List.mem_map]
  constructor
  · rintro ⟨⟨k', v⟩, hm, rfl⟩; exact ⟨v, mem_entries.mp hm⟩
  · rintro ⟨v, hv⟩; exact ⟨(k, v), mem_entries.mpr hv, rfl⟩

theorem has_iff : m.has k = true ↔ ∃ v, m.get? k = some v := by rw [has, isSome_iff_exists]

theorem has_iff_mem_keys : m.has k = true ↔ k ∈ m.keys := by rw [has_iff, mem_keys]

theorem has_eq_false_iff : m.has k = false ↔ m.get? k = none := by rw [has]; cases m.get? k <;> simp

theorem notMem_keys : k ∉ m.keys ↔ m.get? k = none := by rw [mem_keys]; cases m.get? k <;> simp

@[simp] theorem get?_empty (k : κ) : (empty : OMap κ α).get? k = none := rfl

@[simp] theorem has_empty (k : κ) : (empty : OMap κ α).has k = false := rfl

theorem has_of_get? (h : m.get? k = some v) : m.has k = true := has_iff.mpr ⟨v, h⟩

theorem entries_set_of_mem (h : k ∈ m.keys) (v : α) :
    (m.set k v).entries = m.entries.map fun p ↦ if p.1 = k then (k, v) else p := by
  rw [set, dif_pos h]

theorem entries_set_of_notMem (h : k ∉ m.keys) (v : α) :
    (m.set k v).entries = m.entries ++ [(k, v)] := by
  rw [set, dif_neg h]

theorem get?_set (m : OMap κ α) (k k' : κ) (v : α) :
    (m.set k v).get? k' = if k' = k then some v else m.get? k' := by
  have key : ∀ w, (k', w) ∈ (m.set k v).entries ↔ if k' = k then w = v else (k', w) ∈ m.entries := by
    intro w
    by_cases h : k ∈ m.keys
    · rw [entries_set_of_mem h, List.mem_map]
      by_cases hk : k' = k
      · subst hk
        rw [if_pos rfl]
        obtain ⟨u, hu⟩ := mem_keys.mp h
        constructor
        · rintro ⟨p, hp, hpw⟩
          by_cases hpk : p.1 = k'
          · simpa [hpk] using hpw.symm
          · rw [if_neg hpk] at hpw
            exact absurd (congrArg Prod.fst hpw) hpk
        · rintro rfl
          exact ⟨(k', u), mem_entries.mpr hu, by simp⟩
      · rw [if_neg hk]
        constructor
        · rintro ⟨p, hp, hpw⟩
          by_cases hpk : p.1 = k
          · rw [if_pos hpk] at hpw
            exact absurd (congrArg Prod.fst hpw).symm hk
          · rw [if_neg hpk] at hpw; exact hpw ▸ hp
        · intro hm; exact ⟨(k', w), hm, by simp [hk]⟩
    · rw [entries_set_of_notMem h, mem_append, mem_singleton, Prod.mk.injEq]
      by_cases hk : k' = k
      · subst hk
        rw [if_pos rfl]
        exact ⟨fun hw ↦ hw.elim (fun hm ↦ absurd (mem_map_of_mem hm) h) And.right,
          fun hw ↦ Or.inr ⟨rfl, hw⟩⟩
      · simp [hk]
  by_cases hk : k' = k
  · rw [if_pos hk]; exact mem_entries.mp ((key v).mpr (by simp [hk]))
  · rw [if_neg hk]
    refine Option.ext fun w ↦ ?_
    rw [← mem_entries, ← mem_entries, key, if_neg hk]

@[simp] theorem get?_set_self (m : OMap κ α) (k : κ) (v : α) : (m.set k v).get? k = some v := by
  rw [get?_set, if_pos rfl]

variable {k' : κ}

theorem get?_set_of_ne (m : OMap κ α) (h : k' ≠ k) (v : α) : (m.set k v).get? k' = m.get? k' := by
  rw [get?_set, if_neg h]

theorem entries_delete (m : OMap κ α) (k : κ) :
    (m.delete k).entries = m.entries.filter fun p ↦ p.1 ≠ k := rfl

theorem get?_delete (m : OMap κ α) (k k' : κ) :
    (m.delete k).get? k' = if k' = k then none else m.get? k' := by
  refine Option.ext fun w ↦ ?_
  rw [← mem_entries, delete, mem_filter]
  by_cases hk : k' = k
  · simp [hk]
  · simp [hk, mem_entries]

@[simp] theorem get?_delete_self (m : OMap κ α) (k : κ) : (m.delete k).get? k = none := by
  rw [get?_delete, if_pos rfl]

theorem get?_delete_of_ne (m : OMap κ α) (h : k' ≠ k) : (m.delete k).get? k' = m.get? k' := by
  rw [get?_delete, if_neg h]

theorem get?_of_delete (h : (m.delete k).get? k' = some v) : m.get? k' = some v := by
  rw [get?_delete] at h
  split at h
  · nomatch h
  · exact h

theorem has_set (m : OMap κ α) (k k' : κ) (v : α) :
    (m.set k v).has k' = (decide (k' = k) || m.has k') := by
  rw [has, get?_set]
  by_cases h : k' = k <;> simp [h, has]

theorem has_delete (m : OMap κ α) (k k' : κ) :
    (m.delete k).has k' = (decide (k' ≠ k) && m.has k') := by
  rw [has, get?_delete]
  by_cases h : k' = k <;> simp [h, has]

/-! ## Size -/

theorem size_set (m : OMap κ α) (k : κ) (v : α) :
    (m.set k v).size = if m.has k then m.size else m.size + 1 := by
  by_cases h : k ∈ m.keys
  · rw [if_pos (has_iff_mem_keys.mpr h), size, entries_set_of_mem h, length_map, size]
  · rw [if_neg (by rwa [has_iff_mem_keys]), size, entries_set_of_notMem h, length_append, size]
    rfl

theorem split_of_get? (h : m.get? k = some v) :
    ∃ l₁ l₂, m.entries = l₁ ++ (k, v) :: l₂ ∧ (∀ p ∈ l₁, p.1 ≠ k) ∧ ∀ p ∈ l₂, p.1 ≠ k := by
  obtain ⟨l₁, l₂, hl⟩ := append_of_mem (mem_entries.mpr h)
  have hnd := m.nodup
  rw [hl, map_append, map_cons, nodup_append, nodup_cons] at hnd
  refine ⟨l₁, l₂, hl, fun p hp hk ↦ ?_, fun p hp hk ↦ ?_⟩
  · exact hnd.2.2 p.1 (mem_map.mpr ⟨p, hp, rfl⟩) k (by simp) hk
  · exact hnd.2.1.1 (mem_map.mpr ⟨p, hp, hk⟩)

variable {l₁ l₂ : List (κ × α)}

theorem entries_delete_split (hl : m.entries = l₁ ++ (k, v) :: l₂) (h₁ : ∀ p ∈ l₁, p.1 ≠ k)
    (h₂ : ∀ p ∈ l₂, p.1 ≠ k) : (m.delete k).entries = l₁ ++ l₂ := by
  have e₁ : l₁.filter (fun q ↦ decide (q.1 ≠ k)) = l₁ :=
    filter_eq_self.mpr fun q hq ↦ by simpa using h₁ q hq
  have e₂ : l₂.filter (fun q ↦ decide (q.1 ≠ k)) = l₂ :=
    filter_eq_self.mpr fun q hq ↦ by simpa using h₂ q hq
  rw [entries_delete, hl, filter_append, filter_cons, e₁, e₂]
  simp

theorem entries_set_split (hl : m.entries = l₁ ++ (k, v) :: l₂) (h₁ : ∀ p ∈ l₁, p.1 ≠ k)
    (h₂ : ∀ p ∈ l₂, p.1 ≠ k) (w : α) : (m.set k w).entries = l₁ ++ (k, w) :: l₂ := by
  have hk : k ∈ m.keys := by rw [keys, hl]; simp
  have keep : ∀ l : List (κ × α), (∀ p ∈ l, p.1 ≠ k) →
      l.map (fun p ↦ if p.1 = k then (k, w) else p) = l := fun l hne ↦ by
    rw [map_congr_left (fun p hp ↦ if_neg (hne p hp)), List.map_id']
  rw [entries_set_of_mem hk, hl, map_append, map_cons, keep l₁ h₁, keep l₂ h₂]
  simp

theorem delete_of_not_has (h : m.has k = false) : m.delete k = m := by
  refine ext (filter_eq_self.mpr fun q hq ↦ ?_)
  have hk := notMem_keys.mpr (has_eq_false_iff.mp h)
  simpa using fun hqk ↦ hk (mem_map.mpr ⟨q, hq, hqk⟩)

theorem size_delete_of_has (h : m.has k = true) : (m.delete k).size + 1 = m.size := by
  obtain ⟨v, hv⟩ := has_iff.mp h
  obtain ⟨l₁, l₂, hl, h₁, h₂⟩ := split_of_get? hv
  rw [size, size, entries_delete_split hl h₁ h₂, hl]
  simp; omega

theorem size_delete_le (m : OMap κ α) (k : κ) : (m.delete k).size ≤ m.size := length_filter_le ..

theorem keys_set_of_has (h : m.has k = true) (v : α) : (m.set k v).keys = m.keys := by
  obtain ⟨w, hw⟩ := has_iff.mp h
  obtain ⟨l₁, l₂, hl, h₁, h₂⟩ := split_of_get? hw
  rw [keys, entries_set_split hl h₁ h₂, keys, hl]
  simp

theorem keys_set_of_not_has (h : m.has k = false) (v w : α) :
    (m.set k v).keys = (m.set k w).keys := by
  have hk := notMem_keys.mpr (has_eq_false_iff.mp h)
  rw [keys, keys, entries_set_of_notMem hk, entries_set_of_notMem hk]
  simp

theorem ext_get? (hkeys : m.keys = m'.keys) (h : ∀ k, m.get? k = m'.get? k) : m = m' := by
  refine ext (ext_getElem ?_ fun i hi hi' ↦ ?_)
  · simpa [keys] using congrArg length hkeys
  · have hkey : m.entries[i].1 = m'.entries[i].1 := by
      have := congrArg (·[i]?) hkeys
      simpa [keys, getElem?_map, hi, hi'] using this
    have hm : m.get? m.entries[i].1 = some m.entries[i].2 := mem_entries.mp (getElem_mem hi)
    have hm' : m'.get? m'.entries[i].1 = some m'.entries[i].2 := mem_entries.mp (getElem_mem hi')
    rw [h, hkey, hm'] at hm
    exact Prod.ext hkey (some_inj.mp hm).symm

/-! ## Totals -/

/-- The sum of a quantity over the entries. -/
def total (m : OMap κ α) (f : κ → α → ℕ) : ℕ := (m.entries.map fun p ↦ f p.1 p.2).sum

omit [DecidableEq κ] in
@[simp] theorem total_empty (f : κ → α → ℕ) : (empty : OMap κ α).total f = 0 := rfl

variable {f : κ → α → ℕ}

theorem total_congr {g : κ → α → ℕ} (h : ∀ k v, m.get? k = some v → f k v = g k v) :
    m.total f = m.total g := by
  exact congrArg sum (map_congr_left fun p hp ↦ h p.1 p.2 (mem_entries.mp hp))

theorem total_delete (h : m.get? k = some v) (f : κ → α → ℕ) :
    (m.delete k).total f + f k v = m.total f := by
  obtain ⟨l₁, l₂, hl, h₁, h₂⟩ := split_of_get? h
  rw [total, total, entries_delete_split hl h₁ h₂, hl]
  simp; omega

theorem total_set_of_not_has (h : m.has k = false) (v : α) (f : κ → α → ℕ) :
    (m.set k v).total f = m.total f + f k v := by
  rw [total, entries_set_of_notMem (notMem_keys.mpr (has_eq_false_iff.mp h)), total]
  simp

theorem total_set_of_get? (h : m.get? k = some v) (w : α) (f : κ → α → ℕ) :
    (m.set k w).total f + f k v = m.total f + f k w := by
  obtain ⟨l₁, l₂, hl, h₁, h₂⟩ := split_of_get? h
  rw [total, total, entries_set_split hl h₁ h₂, hl]
  simp; omega

theorem total_set (m : OMap κ α) (k : κ) (v : α) (f : κ → α → ℕ) :
    (m.set k v).total f + ((m.get? k).map (f k)).getD 0 = m.total f + f k v := by
  cases h : m.get? k with
  | none => rw [total_set_of_not_has (has_eq_false_iff.mpr h), map_none, getD_none, Nat.add_zero]
  | some w => exact total_set_of_get? h v f

theorem le_total (h : m.get? k = some v) (f : κ → α → ℕ) : f k v ≤ m.total f := by
  rw [← total_delete h f]; omega

theorem total_eq_zero (h : ∀ k v, m.get? k = some v → f k v = 0) : m.total f = 0 := by
  rw [total_congr (g := fun _ _ ↦ 0) h, total]; simp

/-- How many values have a property. -/
def count (m : OMap κ α) (f : α → Bool) : ℕ := m.total fun _ v ↦ (f v).toNat

theorem count_set_of_not_has (h : m.has k = false) (v : α) (f : α → Bool) :
    (m.set k v).count f = m.count f + (f v).toNat :=
  total_set_of_not_has h v _

theorem count_set_of_get? (h : m.get? k = some v) (w : α) (f : α → Bool) :
    (m.set k w).count f + (f v).toNat = m.count f + (f w).toNat :=
  total_set_of_get? h w _

theorem count_set_congr {w : α} (h : m.get? k = some v) {f : α → Bool} (hf : f w = f v) :
    (m.set k w).count f = m.count f := by
  have hset := count_set_of_get? h w f
  rw [hf] at hset
  omega

/-! ## Writing a list of entries -/

/-- Write a list of entries, first one first. -/
def setAll (m : OMap κ α) (l : List (κ × α)) : OMap κ α := l.foldl (fun m p ↦ m.set p.1 p.2) m

@[simp] theorem setAll_nil (m : OMap κ α) : m.setAll [] = m := rfl

@[simp] theorem setAll_cons (m : OMap κ α) (p : κ × α) (l : List (κ × α)) :
    m.setAll (p :: l) = (m.set p.1 p.2).setAll l := rfl

theorem entries_setAll (h : ((m.entries ++ l).map Prod.fst).Nodup) :
    (m.setAll l).entries = m.entries ++ l := by
  induction l generalizing m with
  | nil => simp
  | cons p l ih =>
    have hp : p.1 ∉ m.keys := by
      rw [map_append, nodup_append] at h
      exact fun hk ↦ h.2.2 p.1 hk p.1 (by simp) rfl
    have hs : (m.set p.1 p.2).entries = m.entries ++ [p] := entries_set_of_notMem hp _
    rw [setAll_cons, ih (by rw [hs]; simpa using h), hs]
    simp

/-- **Rebuilding a map from its entries** gives the map back. -/
theorem rebuild (m : OMap κ α) : empty.setAll m.entries = m :=
  ext (by rw [entries_setAll (by simpa using m.nodup)]; rfl)

/-! ## Keeping some entries -/

omit [DecidableEq κ] in
/-- Delete the entries a test rejects. -/
def filter (p : κ → α → Bool) (m : OMap κ α) : OMap κ α :=
  ⟨m.entries.filter fun e ↦ p e.1 e.2, m.nodup.sublist (filter_sublist.map _)⟩

omit [DecidableEq κ] in
theorem size_filter_le (p : κ → α → Bool) (m : OMap κ α) : (m.filter p).size ≤ m.size :=
  length_filter_le ..

theorem get?_filter {p : κ → α → Bool} :
    (m.filter p).get? k = some v ↔ m.get? k = some v ∧ p k v = true := by
  rw [← mem_entries, ← mem_entries, filter, mem_filter]

/-! ## Changing every value -/

variable {β : Type v}

omit [DecidableEq κ] in
/-- Change every value, keeping the keys and their order. -/
def mapValues (f : α → β) (m : OMap κ α) : OMap κ β :=
  ⟨m.entries.map fun p ↦ (p.1, f p.2), by
    rw [List.map_map]
    exact m.nodup⟩

omit [DecidableEq κ] in
theorem keys_mapValues (f : α → β) (m : OMap κ α) : (m.mapValues f).keys = m.keys := by
  rw [keys, mapValues, List.map_map]
  rfl

theorem get?_mapValues (f : α → β) (m : OMap κ α) (k : κ) :
    (m.mapValues f).get? k = (m.get? k).map f := by
  refine Option.ext fun w ↦ ?_
  rw [← mem_entries, map_eq_some_iff]
  constructor
  · intro h
    obtain ⟨⟨k', v⟩, hm, heq⟩ := mem_map.mp h
    rw [Prod.mk.injEq] at heq
    obtain ⟨rfl, rfl⟩ := heq
    exact ⟨v, mem_entries.mp hm, rfl⟩
  · rintro ⟨v, hv, rfl⟩
    exact mem_map.mpr ⟨(k, v), mem_entries.mpr hv, rfl⟩

end OMap
