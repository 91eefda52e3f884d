import OpenCodex.Routing.ThreadAffinity

/-!
# The affinity table in a run

What every operation does to the table is said in terms of `find?`, the entry under a thread and a
scope, and of the counter.  `Sound` is what holds of the table between any two steps, and with the
bound (`Kept`) between any two operations.  A bind first drops what is expired, then writes its
entry; what it evicts is read off the rank of the entries at that point (`Held`).
-/

set_option autoImplicit false

open List Option Nested

namespace ThreadAffinity

variable {table : AffinityTable} {threadId threadId' : ThreadId}
  {scope scope' : ThreadAffinityScope} {entry entry' : ThreadAffinityEntry} {now : ℤ}
  {drops : ThreadAffinityScope → ThreadAffinityEntry → Bool}

/-- The entry under a thread and a scope. -/
def AffinityTable.find? (table : AffinityTable) (threadId : ThreadId)
    (scope : ThreadAffinityScope) : Option ThreadAffinityEntry :=
  table.threadAccountMap.find? threadId scope

/-- The counter counts, no thread has an empty map, and the ids are admissible. -/
structure Sound (table : AffinityTable) : Prop where
  counted : table.threadAffinityEntryTotal = table.threadAccountMap.count
  tidy : table.threadAccountMap.Tidy
  admissible : ∀ threadId, table.threadAccountMap.has threadId = true →
    admissibleAffinityComponent threadId = true

/-- No thread has an empty id. -/
def Named (table : AffinityTable) : Prop :=
  ∀ threadId, table.threadAccountMap.has threadId = true → threadId ≠ []

/-- And there are not too many entries. -/
structure Kept (table : AffinityTable) : Prop extends Sound table where
  named : Named table
  bounded : table.threadAffinityEntryTotal ≤ codexThreadAffinityMaxEntries

/-! ## Dropping entries -/

theorem Sound.drop (h : Sound table) (drops : ThreadAffinityScope → ThreadAffinityEntry → Bool)
    (threadId : ThreadId) : Sound (dropEntries drops table threadId) where
  counted := by
    have hcount := count_sweepKey drops threadId table.threadAccountMap
    rw [dropEntries, h.counted]
    dsimp only
    omega
  tidy := h.tidy.sweepKey drops threadId
  admissible := fun threadId' hhas ↦ h.admissible threadId' (has_of_sweepKey hhas)

theorem Named.drop (h : Named table) (drops : ThreadAffinityScope → ThreadAffinityEntry → Bool)
    (threadId : ThreadId) : Named (dropEntries drops table threadId) :=
  fun threadId' hhas ↦ h threadId' (has_of_sweepKey hhas)

theorem find?_dropEntries : (dropEntries drops table threadId).find? threadId' scope =
    if threadId' = threadId then
      (table.find? threadId scope).filter (fun entry ↦ !drops scope entry)
    else table.find? threadId' scope := find?_sweepKey

theorem total_dropEntries_le : (dropEntries drops table threadId).threadAffinityEntryTotal ≤
    table.threadAffinityEntryTotal := Nat.sub_le _ _

theorem Kept.drop (h : Kept table) (drops : ThreadAffinityScope → ThreadAffinityEntry → Bool)
    (threadId : ThreadId) : Kept (dropEntries drops table threadId) :=
  ⟨h.toSound.drop drops threadId, h.named.drop drops threadId, total_dropEntries_le.trans h.bounded⟩

/-- What dropping the entries of a thread keeps, dropping those of all threads keeps. -/
theorem dropAllEntries_induction {P : AffinityTable → Prop}
    (hdrop : ∀ table threadId, P table → P (dropEntries drops table threadId)) (h : P table) :
    P (dropAllEntries drops table) := by
  rw [dropAllEntries]
  generalize table.threadAccountMap.keys = threadIds
  induction threadIds generalizing table with
  | nil => exact h
  | cons threadId threadIds ih => exact ih (hdrop table threadId h)

variable (drops)

theorem Sound.dropAll (h : Sound table) : Sound (dropAllEntries drops table) :=
  dropAllEntries_induction (fun _ threadId h ↦ h.drop drops threadId) h

theorem Kept.dropAll (h : Kept table) : Kept (dropAllEntries drops table) :=
  dropAllEntries_induction (fun _ threadId h ↦ h.drop drops threadId) h

theorem total_dropAllEntries_le (table : AffinityTable) :
    (dropAllEntries drops table).threadAffinityEntryTotal ≤ table.threadAffinityEntryTotal :=
  dropAllEntries_induction (P := (·.threadAffinityEntryTotal ≤ table.threadAffinityEntryTotal))
    (fun _ _ ↦ total_dropEntries_le.trans) le_rfl

theorem find?_foldl_dropEntries (threadIds : List ThreadId) (table : AffinityTable) :
    (threadIds.foldl (dropEntries drops) table).find? threadId scope = if threadId ∈ threadIds then
        (table.find? threadId scope).filter (fun entry ↦ !drops scope entry)
      else table.find? threadId scope := by
  induction threadIds generalizing table with
  | nil => rfl
  | cons threadId' threadIds ih =>
    rw [foldl_cons, ih, find?_dropEntries]
    by_cases heq : threadId = threadId'
    · subst heq
      rw [if_pos rfl, if_pos mem_cons_self, Option.filter_filter]
      simp only [Bool.and_self, ite_self]
    · simp only [heq, mem_cons, false_or, if_false]

/-- **What is left of all entries.** -/
theorem find?_dropAllEntries (table : AffinityTable) : (dropAllEntries drops table).find? threadId scope =
      (table.find? threadId scope).filter (fun entry ↦ !drops scope entry) := by
  rw [dropAllEntries, find?_foldl_dropEntries]
  split
  · rfl
  · rename_i hnot
    have hnone : table.find? threadId scope = none := by
      rw [AffinityTable.find?, Nested.find?, OMap.notMem_keys.mp hnot]
      rfl
    rw [hnone]
    rfl

variable {drops}

theorem Sound.delete (h : Sound table) (threadId : ThreadId)
    (scope : ThreadAffinityScope) : Sound (deleteThreadAffinityForScope table threadId scope) := by
  rw [deleteThreadAffinityForScope]
  split
  · exact h.drop _ threadId
  · exact h

theorem Named.delete (h : Named table) (threadId : ThreadId)
    (scope : ThreadAffinityScope) : Named (deleteThreadAffinityForScope table threadId scope) := by
  rw [deleteThreadAffinityForScope]
  split
  · exact h.drop _ threadId
  · exact h

theorem Kept.delete (h : Kept table) (threadId : ThreadId)
    (scope : ThreadAffinityScope) : Kept (deleteThreadAffinityForScope table threadId scope) := by
  rw [deleteThreadAffinityForScope]
  split
  · exact h.drop _ threadId
  · exact h

theorem Sound.find?_eq_none (h : Sound table) (hid : ¬ admissibleAffinityComponent threadId = true)
    (scope : ThreadAffinityScope) : table.find? threadId scope = none := by
  cases hentry : table.find? threadId scope with
  | none => rfl
  | some entry => exact absurd (h.admissible threadId (has_of_find? hentry)) hid

theorem Sound.get (h : Sound table) :
    getThreadAffinityForScope table threadId scope = table.find? threadId scope := by
  rw [getThreadAffinityForScope]
  split
  · rfl
  · rename_i hid
    exact (h.find?_eq_none hid scope).symm

/-- **What a deletion leaves.** -/
theorem Sound.find?_delete (h : Sound table) :
    (deleteThreadAffinityForScope table threadId scope).find? threadId' scope' =
      if threadId' = threadId ∧ scope' = scope then none else table.find? threadId' scope' := by
  rw [deleteThreadAffinityForScope]
  split
  · rw [find?_dropEntries]
    by_cases hthread : threadId' = threadId
    · subst hthread
      by_cases hscope : scope' = scope
      · subst hscope
        rw [if_pos rfl, if_pos ⟨rfl, rfl⟩]
        cases table.find? threadId' scope' <;> simp
      · rw [if_pos rfl, if_neg fun h ↦ hscope h.2]
        cases table.find? threadId' scope' <;> simp [hscope]
    · rw [if_neg hthread, if_neg fun h ↦ hthread h.1]
  · rename_i hid
    split
    · rename_i heq
      rw [heq.1, h.find?_eq_none hid]
    · rfl

/-! ## Writing and evicting -/

section Binding

variable {accountId : AccountId} {generation : ℕ} {store : AccountStore}

/-- The entry that a bind writes. -/
def boundEntry (table : AffinityTable) (threadId : ThreadId) (accountId : AccountId)
    (generation : ℕ) (now : ℤ) (scope : ThreadAffinityScope) : ThreadAffinityEntry :=
  ⟨accountId, generation, ((table.find? threadId scope).map (·.createdAt)).getD now, now, now⟩

theorem has_withEntry (h : (withEntry table threadId accountId generation now scope
    ).threadAccountMap.has threadId' = true) :
    threadId' = threadId ∨ table.threadAccountMap.has threadId' = true := by
  rw [withEntry, has_put, Bool.or_eq_true, decide_eq_true_iff] at h
  exact h

theorem Sound.write (h : Sound table) (hid : admissibleAffinityComponent threadId = true)
    (accountId : AccountId) (generation : ℕ) (now : ℤ) (scope : ThreadAffinityScope) :
    Sound (withEntry table threadId accountId generation now scope) where
  counted := by
    rw [withEntry, h.counted]
    exact (count_put _ _ _ _).symm
  tidy := h.tidy.put _ _ _
  admissible := fun threadId' hhas ↦ by
    rcases has_withEntry hhas with rfl | hold
    · exact hid
    · exact h.admissible threadId' hold

theorem Named.write (h : Named table) (hname : threadId ≠ []) (accountId : AccountId)
    (generation : ℕ) (now : ℤ) (scope : ThreadAffinityScope) :
    Named (withEntry table threadId accountId generation now scope) := by
  intro threadId' hhas
  rcases has_withEntry hhas with rfl | hold
  · exact hname
  · exact h threadId' hold

theorem find?_withEntry :
    (withEntry table threadId accountId generation now scope).find? threadId' scope' =
      if threadId' = threadId ∧ scope' = scope then
        some (boundEntry table threadId accountId generation now scope)
      else table.find? threadId' scope' := find?_put

theorem total_withEntry : (withEntry table threadId accountId generation now scope
    ).threadAffinityEntryTotal = table.threadAffinityEntryTotal +
      if (table.find? threadId scope).isNone then 1 else 0 := rfl

theorem of_oldestEntry (h : oldestEntry table = some (threadId, scope, entry)) :
    table.find? threadId scope = some entry ∧
      ∀ threadId' scope' entry', table.find? threadId' scope' = some entry' →
        evictionRank scope entry ≤ evictionRank scope' entry' := by
  obtain ⟨i, hi, hget⟩ := bind_eq_some_iff.mp h
  obtain ⟨p, rank, hp, hrank, hleast⟩ := firstLeast_spec hi
  obtain rfl : p = (threadId, scope, entry) := some.inj (hp.symm.trans hget)
  refine ⟨mem_flat.mp (mem_of_getElem? hget), fun threadId' scope' entry' hentry ↦ ?_⟩
  obtain ⟨j, hj, heq⟩ := mem_iff_getElem.mp (mem_flat.mpr hentry)
  have hle := (hleast j (threadId', scope', entry') _ (List.getElem?_eq_some_iff.mpr ⟨hj, heq⟩)
    rfl).1
  rw [← some.inj hrank] at hle
  exact hle

theorem oldestEntry_ne_none (h : 0 < table.threadAccountMap.count) : oldestEntry table ≠ none := by
  intro hnone
  rw [← length_flat] at h
  rw [oldestEntry, bind_eq_none_iff] at hnone
  cases hfirst : firstLeast (fun p ↦ some (evictionRank p.2.1 p.2.2))
      table.threadAccountMap.flat with
  | none =>
    have hall := firstLeast_eq_none.mp hfirst _ (getElem_mem h)
    exact absurd hall.symm (some_ne_none _).symm
  | some i =>
    obtain ⟨p, _, hp, -, -⟩ := firstLeast_spec hfirst
    exact absurd ((hnone i hfirst).symm.trans hp) (some_ne_none _).symm

theorem pruneLru_of_le (h : table.threadAffinityEntryTotal ≤ codexThreadAffinityMaxEntries)
    (turns : ℕ) : pruneLruThreadAffinities turns table = table := by
  cases turns with
  | zero => rfl
  | succ turns => rw [pruneLruThreadAffinities, if_pos h]

theorem Sound.total_delete_lt (h : Sound table) (hentry : table.find? threadId scope = some entry) :
    (deleteThreadAffinityForScope table threadId scope).threadAffinityEntryTotal <
      table.threadAffinityEntryTotal := by
  have hpos : 0 < Nested.dropped (fun scope' _ ↦ scope' == scope) threadId table.threadAccountMap :=
    dropped_pos hentry (beq_self_eq_true scope)
  have hcount := count_sweepKey (fun scope' _ ↦ scope' == scope) threadId table.threadAccountMap
  rw [deleteThreadAffinityForScope, if_pos (h.admissible threadId (has_of_find? hentry)),
    dropEntries, h.counted]
  dsimp only
  omega

/-- **What is evicted**, if there is one entry too many. -/
theorem Sound.pruneLru_full (h : Sound table) (hnamed : Named table)
    (hfull : table.threadAffinityEntryTotal = codexThreadAffinityMaxEntries + 1) :
    ∃ threadId scope entry, oldestEntry table = some (threadId, scope, entry) ∧
      pruneLruThreadAffinities table.threadAffinityEntryTotal table =
        deleteThreadAffinityForScope table threadId scope ∧
      (deleteThreadAffinityForScope table threadId scope).threadAffinityEntryTotal ≤
        codexThreadAffinityMaxEntries := by
  have hpos : 0 < table.threadAccountMap.count := by
    rw [← h.counted, hfull]
    exact Nat.succ_pos _
  obtain ⟨⟨threadId, scope, entry⟩, holdest⟩ := ne_none_iff_exists'.mp (oldestEntry_ne_none hpos)
  have hentry := (of_oldestEntry holdest).1
  have hless := h.total_delete_lt hentry
  rw [hfull] at hless
  refine ⟨threadId, scope, entry, holdest, ?_, Nat.le_of_lt_succ hless⟩
  rw [hfull, pruneLruThreadAffinities, hfull, if_neg (Nat.not_succ_le_self _), holdest]
  dsimp only
  rw [if_neg (hnamed threadId (has_of_find? hentry)), pruneLru_of_le (Nat.le_of_lt_succ hless)]

/-- **A bind.**  Nothing happens, or the entry is written and at most one is evicted. -/
theorem bind_cases (h : Kept table) (hname : threadId ≠ []) (store : AccountStore)
    (accountId : AccountId) (now : ℤ) (scope : ThreadAffinityScope) :
    bindThreadAffinityForScope store table threadId accountId now scope = table ∨
      ∃ generation, let pruned := pruneExpiredThreadAffinities table now
        let written := withEntry pruned threadId accountId generation now scope
        Kept pruned ∧ Sound written ∧ Named written ∧
        (bindThreadAffinityForScope store table threadId accountId now scope = written ∧
          written.threadAffinityEntryTotal ≤ codexThreadAffinityMaxEntries ∨
        ∃ threadId' scope' entry', oldestEntry written = some (threadId', scope', entry') ∧
          pruned.threadAffinityEntryTotal = codexThreadAffinityMaxEntries ∧
          bindThreadAffinityForScope store table threadId accountId now scope =
            deleteThreadAffinityForScope written threadId' scope' ∧
          (deleteThreadAffinityForScope written threadId' scope').threadAffinityEntryTotal ≤
            codexThreadAffinityMaxEntries) := by
  rw [bindThreadAffinityForScope]
  split
  · rename_i hids
    split
    · exact Or.inl rfl
    · rename_i generation hgeneration
      have hpruned : Kept (pruneExpiredThreadAffinities table now) := h.dropAll _
      rw [Bool.and_eq_true] at hids
      have hwritten := hpruned.toSound.write hids.1 accountId generation now scope
      have hnamed := hpruned.named.write hname accountId generation now scope
      refine Or.inr ⟨generation, hpruned, hwritten, hnamed, ?_⟩
      by_cases hle : (withEntry (pruneExpiredThreadAffinities table now) threadId accountId
          generation now scope).threadAffinityEntryTotal ≤ codexThreadAffinityMaxEntries
      · exact Or.inl ⟨pruneLru_of_le hle _, hle⟩
      · have hbounded := hpruned.bounded
        have hgrown := Nat.lt_of_not_le hle
        rw [total_withEntry] at hgrown
        have hfull : (pruneExpiredThreadAffinities table now).threadAffinityEntryTotal =
            codexThreadAffinityMaxEntries := by split at hgrown <;> omega
        have hone : (withEntry (pruneExpiredThreadAffinities table now) threadId accountId
            generation now scope).threadAffinityEntryTotal = codexThreadAffinityMaxEntries + 1 := by
          rw [total_withEntry]
          split at hgrown
          · rename_i hnew
            rw [if_pos hnew]
            omega
          · omega
        obtain ⟨threadId', scope', entry', holdest, heq, hfits⟩ :=
          hwritten.pruneLru_full hnamed hone
        exact Or.inr ⟨threadId', scope', entry', holdest, hfull, heq, hfits⟩
  · exact Or.inl rfl

theorem Kept.bindFor (h : Kept table) (hname : threadId ≠ [])
    (store : AccountStore) (accountId : AccountId) (now : ℤ) (scope : ThreadAffinityScope) :
    Kept (bindThreadAffinityForScope store table threadId accountId now scope) := by
  rcases bind_cases h hname store accountId now scope with
    heq | ⟨generation, -, hwritten, hnamed, hcases⟩
  · rw [heq]
    exact h
  · rcases hcases with ⟨heq, hle⟩ | ⟨threadId', scope', entry', -, -, heq, hle⟩
    · rw [heq]
      exact ⟨hwritten, hnamed, hle⟩
    · rw [heq]
      exact ⟨hwritten.delete threadId' scope', hnamed.delete threadId' scope', hle⟩

/-- What a bind has to keep: the new entry, and what was there and is not expired. -/
def Held (table : AffinityTable) (now : ℤ) (threadId : ThreadId) (scope : ThreadAffinityScope)
    (new : ThreadAffinityEntry) (threadId' : ThreadId) (scope' : ThreadAffinityScope)
    (entry' : ThreadAffinityEntry) : Prop :=
  if threadId' = threadId ∧ scope' = scope then entry' = new
  else table.find? threadId' scope' = some entry' ∧ isThreadAffinityExpired entry' now = false

theorem held_iff : Held table now threadId scope
      (boundEntry (pruneExpiredThreadAffinities table now) threadId accountId generation now scope)
      threadId' scope' entry' ↔
    (withEntry (pruneExpiredThreadAffinities table now) threadId accountId generation now
      scope).find? threadId' scope' = some entry' := by
  rw [Held, find?_withEntry]
  split
  · rw [some_inj]
    exact eq_comm
  · rw [pruneExpiredThreadAffinities, find?_dropAllEntries, filter_eq_some_iff, Bool.not_eq_true']

theorem evictionRank_le (h : evictionRank scope entry ≤ evictionRank scope' entry') :
    (isModelDetourAffinityScope scope = false → isModelDetourAffinityScope scope' = false) ∧
      (isModelDetourAffinityScope scope' = isModelDetourAffinityScope scope →
        entry.lastUsedAt ≤ entry'.lastUsedAt) := by
  rw [evictionRank, evictionRank, Prod.Lex.toLex_le_toLex] at h
  cases hscope : isModelDetourAffinityScope scope <;>
    cases hscope' : isModelDetourAffinityScope scope' <;> simp [hscope, hscope'] at h ⊢ <;> exact h

/-- **What a bind evicts.**  All it has to keep is there afterwards, but for one entry if the table
was full; and that one is a detour if there are any, and was not used for longest. -/
theorem evicted_by_bind (h : Kept table) (hname : threadId ≠ []) (store : AccountStore)
    (accountId : AccountId) (now : ℤ) (scope : ThreadAffinityScope) :
    bindThreadAffinityForScope store table threadId accountId now scope = table ∨
    ∃ generation createdAt, ∀ threadId' scope' entry',
      Held table now threadId scope ⟨accountId, generation, createdAt, now, now⟩ threadId' scope'
        entry' →
      let bound := bindThreadAffinityForScope store table threadId accountId now scope
      bound.find? threadId' scope' = some entry' ∨ bound.find? threadId' scope' = none ∧
        table.threadAffinityEntryTotal = codexThreadAffinityMaxEntries ∧
        ∀ threadId'' scope'' entry'',
          Held table now threadId scope ⟨accountId, generation, createdAt, now, now⟩ threadId''
            scope'' entry'' →
          (isModelDetourAffinityScope scope' = false → isModelDetourAffinityScope scope'' = false) ∧
          (isModelDetourAffinityScope scope'' = isModelDetourAffinityScope scope' →
            entry'.lastUsedAt ≤ entry''.lastUsedAt) := by
  rcases bind_cases h hname store accountId now scope with
    heq | ⟨generation, -, hwritten, -, hcases⟩
  · exact Or.inl heq
  · refine Or.inr ⟨generation,
      (boundEntry (pruneExpiredThreadAffinities table now) threadId accountId generation now
        scope).createdAt, fun threadId' scope' entry' hheld ↦ ?_⟩
    have hentry := held_iff.mp hheld
    rcases hcases with ⟨heq, -⟩ | ⟨threadId₀, scope₀, entry₀, holdest, hfull, heq, -⟩
    · rw [heq]
      exact Or.inl hentry
    · obtain ⟨hthere, hleast⟩ := of_oldestEntry holdest
      dsimp only
      rw [heq, hwritten.find?_delete]
      by_cases hkey : threadId' = threadId₀ ∧ scope' = scope₀
      · obtain ⟨rfl, rfl⟩ := hkey
        obtain rfl : entry₀ = entry' := some.inj (hthere.symm.trans hentry)
        have htotal := total_dropAllEntries_le
          (fun _ entry ↦ isThreadAffinityExpired entry now) table
        rw [← pruneExpiredThreadAffinities, hfull] at htotal
        refine Or.inr ⟨if_pos ⟨rfl, rfl⟩, le_antisymm h.bounded htotal, ?_⟩
        intro threadId'' scope'' entry'' hheld''
        exact evictionRank_le (hleast threadId'' scope'' entry'' (held_iff.mp hheld''))
      · rw [if_neg hkey]
        exact Or.inl hentry

theorem bind_of_ne (h : Kept table) (hname : threadId ≠ []) (store : AccountStore)
    (accountId : AccountId) (now : ℤ) (scope : ThreadAffinityScope)
    (hne : ¬ (threadId' = threadId ∧ scope' = scope))
    (hnone : table.find? threadId' scope' = none) :
    (bindThreadAffinityForScope store table threadId accountId now scope).find? threadId' scope' =
      none := by
  rcases bind_cases h hname store accountId now scope with
    heq | ⟨generation, -, hwritten, -, hcases⟩
  · rw [heq]
    exact hnone
  · have hwrite : (withEntry (pruneExpiredThreadAffinities table now) threadId accountId generation
        now scope).find? threadId' scope' = none := by
      rw [find?_withEntry, if_neg hne, pruneExpiredThreadAffinities, find?_dropAllEntries, hnone]
      rfl
    rcases hcases with ⟨heq, -⟩ | ⟨threadId₀, scope₀, entry₀, -, -, heq, -⟩
    · rw [heq]
      exact hwrite
    · rw [heq, hwritten.find?_delete, hwrite, ite_self]

end Binding

/-! ## Adopting a legacy binding -/

section Adopting

variable {legacyKey : ThreadId} {store : AccountStore}

theorem Kept.adopt (h : Kept table) (hname : threadId ≠ []) (store : AccountStore)
    (legacyKey : ThreadId) (now : ℤ) (scope : ThreadAffinityScope) :
    Kept (adoptLegacyAffinityForScope store table threadId legacyKey now scope) := by
  rw [adoptLegacyAffinityForScope]
  split
  · exact h
  · split
    · exact h
    · dsimp only
      split
      · exact (h.bindFor hname store _ now scope).delete legacyKey scope
      · exact h.delete legacyKey scope

theorem adopt_clears (h : Kept table) (hname : threadId ≠ [])
    (hown : table.find? threadId scope = none) :
    (adoptLegacyAffinityForScope store table threadId legacyKey now scope).find? legacyKey scope =
      none := by
  rw [adoptLegacyAffinityForScope, h.get, h.get, hown]
  cases hlegacy : table.find? legacyKey scope with
  | none => exact hlegacy
  | some legacy =>
    dsimp only [isSome_none]
    rw [if_neg Bool.false_ne_true]
    split
    · rw [(h.bindFor hname store _ now scope).find?_delete, if_pos ⟨rfl, rfl⟩]
    · rw [h.find?_delete, if_pos ⟨rfl, rfl⟩]

theorem adopt_of_ne (h : Kept table) (hname : threadId ≠ [])
    (hne : ¬ (threadId' = threadId ∧ scope' = scope))
    (hnone : table.find? threadId' scope' = none) :
    (adoptLegacyAffinityForScope store table threadId legacyKey now scope).find? threadId' scope' =
      none := by
  rw [adoptLegacyAffinityForScope]
  split
  · exact hnone
  · split
    · exact hnone
    · dsimp only
      split
      · rw [(h.bindFor hname store _ now scope).find?_delete,
          bind_of_ne h hname store _ now scope hne hnone, ite_self]
      · rw [h.find?_delete, hnone, ite_self]

/-- **A legacy binding is retired.**  No lane in which the thread had no entry of its own has a
legacy entry left. -/
theorem adoption_clears (toLowerCase : JsString → JsString) (h : Kept table) (hname : threadId ≠ [])
    (hne : legacyKey ≠ threadId) (store : AccountStore) (now : ℤ)
    (quotaScope : Option CodexQuotaScope) (modelId : Option JsString)
    (hlane : scope = .base quotaScope ∨
      modelDetourAffinityScope toLowerCase modelId quotaScope = some scope)
    (hown : table.find? threadId scope = none) :
    (adoptLegacyLineageAffinity toLowerCase store table threadId (some legacyKey) now quotaScope
      modelId).find? legacyKey scope = none := by
  rw [adoptLegacyLineageAffinity]
  dsimp only
  rw [if_neg hne]
  have hfirst := h.adopt hname store legacyKey now (.base quotaScope)
  have hother : ∀ {scope'}, ¬ (legacyKey = threadId ∧ scope = scope') := fun heq ↦ hne heq.1
  by_cases hbase : scope = .base quotaScope
  · subst hbase
    have hcleared : (adoptLegacyAffinityForScope store table threadId legacyKey now
        (.base quotaScope)).find? legacyKey (.base quotaScope) = none := adopt_clears h hname hown
    split
    · exact hcleared
    · exact adopt_of_ne hfirst hname hother hcleared
  · have hdetour := hlane.resolve_left hbase
    rw [hdetour]
    exact adopt_clears hfirst hname (adopt_of_ne h hname (fun heq ↦ hbase heq.2) hown)

end Adopting

/-! ## Every run -/

theorem Kept.handOff (h : Kept table) (store : AccountStore) (accountId : AccountId)
    (fromGeneration toGeneration : ℕ) :
    Kept (handOffThreadAffinityGeneration store table accountId fromGeneration toGeneration) := by
  rw [handOffThreadAffinityGeneration]
  split_ifs
  · exact h
  · exact h
  · refine ⟨⟨?_, h.tidy.mapEntries _, fun threadId hhas ↦ ?_⟩, fun threadId hhas ↦ ?_, h.bounded⟩
    · exact h.counted.trans (count_mapEntries _ _).symm
    · rw [has_mapEntries] at hhas
      exact h.admissible threadId hhas
    · rw [has_mapEntries] at hhas
      exact h.named threadId hhas
  · exact h

theorem kept_empty : Kept .empty :=
  ⟨⟨rfl, tidy_empty, fun _ h ↦ absurd h Bool.false_ne_true⟩,
    fun _ h ↦ absurd h Bool.false_ne_true, Nat.zero_le _⟩

/-- **Every operation keeps the table in order.** -/
theorem Kept.apply (h : Kept table) (toLowerCase : JsString → JsString) {op : Op}
    (hname : op.binds ≠ some []) : Kept (apply toLowerCase table op) := by
  cases op with
  | bindThread store threadId accountId now quotaScope =>
    exact h.bindFor (fun heq ↦ hname (congrArg some heq)) store accountId now _
  | bindModelDetour store threadId accountId now modelId quotaScope =>
    rw [ThreadAffinity.apply, bindModelDetourAffinity]
    split
    · exact h
    · exact h.bindFor (fun heq ↦ hname (congrArg some heq)) store accountId now _
  | deleteThread threadId quotaScope => exact h.delete threadId _
  | deleteModelDetour threadId modelId quotaScope =>
    rw [ThreadAffinity.apply, deleteModelDetourAffinity]
    split
    · exact h
    · exact h.delete threadId _
  | deleteForAccount threadId accountId =>
    rw [ThreadAffinity.apply, deleteThreadAffinitiesForAccount]
    split
    · exact h.drop _ threadId
    · exact h
  | clearForAccount accountId => exact h.dropAll _
  | clear => exact kept_empty
  | adoptLegacy store threadId legacyConversationKey now quotaScope modelId =>
    have hthread : threadId ≠ [] := fun heq ↦ hname (congrArg some heq)
    cases legacyConversationKey with
    | none => exact h
    | some legacyKey =>
      have hfirst := h.adopt hthread store legacyKey now (.base quotaScope)
      rw [ThreadAffinity.apply, adoptLegacyLineageAffinity]
      dsimp only
      split
      · exact h
      · split
        · exact hfirst
        · exact hfirst.adopt hthread store legacyKey now _
  | handOff store accountId fromGeneration toGeneration => exact h.handOff store accountId _ _
  | pruneExpired now => exact h.dropAll _

theorem kept_after (toLowerCase : JsString → JsString) {ops : List Op}
    (hnamed : ∀ op ∈ ops, op.binds ≠ some []) : Kept (after toLowerCase ops) := by
  induction ops using reverseRecOn with
  | nil => exact kept_empty
  | append_singleton ops op ih =>
    rw [after, foldl_concat]
    exact (ih fun op' hop ↦ hnamed op' (mem_append_left _ hop)).apply toLowerCase
      (hnamed op (by simp))

/-- **The affinity table is kept in order.**  In every run that binds no thread with an empty id the
counter is the number of entries, no thread has an empty map, and there are never too many entries.
A bind evicts what it has to keep only if the table was full, an ordinary binding only if there is
no model detour, and of one class what was not used for longest.  And where a legacy binding is
adopted, no lane in which the thread had no entry of its own has a legacy entry left. -/
theorem affinity_table_kept (toLowerCase : JsString → JsString) (ops : List Op)
    (hnamed : ∀ op ∈ ops, op.binds ≠ some []) :
    let table := after toLowerCase ops
    (table.threadAffinityEntryTotal = table.threadAccountMap.count ∧
      (∀ threadId affinities, table.threadAccountMap.get? threadId = some affinities →
        0 < affinities.size) ∧
      table.threadAffinityEntryTotal ≤ codexThreadAffinityMaxEntries) ∧
    (∀ store threadId accountId now scope, threadId ≠ [] →
      let bound := bindThreadAffinityForScope store table threadId accountId now scope
      bound = table ∨ ∃ generation createdAt,
        let new : ThreadAffinityEntry := ⟨accountId, generation, createdAt, now, now⟩
        ∀ threadId' scope' entry', Held table now threadId scope new threadId' scope' entry' →
          bound.find? threadId' scope' = some entry' ∨ bound.find? threadId' scope' = none ∧
            table.threadAffinityEntryTotal = codexThreadAffinityMaxEntries ∧
            ∀ threadId'' scope'' entry'',
              Held table now threadId scope new threadId'' scope'' entry'' →
              (isModelDetourAffinityScope scope' = false →
                isModelDetourAffinityScope scope'' = false) ∧
              (isModelDetourAffinityScope scope'' = isModelDetourAffinityScope scope' →
                entry'.lastUsedAt ≤ entry''.lastUsedAt)) ∧
    ∀ store threadId legacyKey now quotaScope modelId scope, threadId ≠ [] → legacyKey ≠ threadId →
      (scope = .base quotaScope ∨
        modelDetourAffinityScope toLowerCase modelId quotaScope = some scope) →
      table.find? threadId scope = none →
      (adoptLegacyLineageAffinity toLowerCase store table threadId (some legacyKey) now quotaScope
        modelId).find? legacyKey scope = none := by
  have hkept := kept_after toLowerCase hnamed
  refine ⟨⟨hkept.counted, hkept.tidy, hkept.bounded⟩, ?_, ?_⟩
  · intro store threadId accountId now scope hname
    exact evicted_by_bind hkept hname store accountId now scope
  · intro store threadId legacyKey now quotaScope modelId scope hname hne hlane hown
    exact adoption_clears toLowerCase hkept hname hne store now quotaScope modelId hlane hown

/-- One thread is bound, and a legacy binding is adopted by another. -/
theorem legacy_binding_adopted :
    let table := after id [.bindThread (fun _ ↦ none) (js "old") mainCodexAccountId 0 none]
    table.threadAffinityEntryTotal = table.threadAccountMap.count ∧
    (adoptLegacyLineageAffinity id (fun _ ↦ none) table (js "new") (some (js "old")) 1 none
      none).find? (js "old") (.base none) = none := by
  have hkept := affinity_table_kept id
    [.bindThread (fun _ ↦ none) (js "old") mainCodexAccountId 0 none] (by decide)
  exact ⟨hkept.1.1, hkept.2.2 _ (js "new") (js "old") 1 none none (.base none) (by decide)
    (by decide) (Or.inl rfl) (by decide +kernel)⟩

/-! ## A thread without a name -/

section Unnamed

/-- The ids of the other threads. -/
def guest (i : ℕ) : ThreadId := [UInt16.ofNat (i + 1)]

def bindMain (threadId : ThreadId) (now : ℤ) : Op :=
  .bindThread (fun _ ↦ none) threadId mainCodexAccountId now none

/-- The thread without a name comes first, then so many others. -/
def crowd (n : ℕ) : List Op := bindMain [] 0 :: (List.range n).map fun i ↦ bindMain (guest i) 1

/-- What is stored of it. -/
def Crowded (n : ℕ) (table : AffinityTable) : Prop :=
  Sound table ∧
  (∃ entry, table.find? [] (.base none) = some entry) ∧
  (∀ i < n, ∃ entry, table.find? (guest i) (.base none) = some entry) ∧
  ∀ threadId scope entry, table.find? threadId scope = some entry →
    scope = .base none ∧ entry.lastUsedAt = if threadId = [] then 0 else 1

variable {n : ℕ}

theorem Crowded.pruneLru (h : Crowded n table) (turns : ℕ) :
    pruneLruThreadAffinities turns table = table := by
  obtain ⟨-, ⟨unnamed, hunnamed⟩, -, hall⟩ := h
  cases turns with
  | zero => rfl
  | succ turns =>
    rw [pruneLruThreadAffinities]
    split
    · rfl
    · split
      · rfl
      · rename_i threadId scope entry holdest
        obtain ⟨hentry, hleast⟩ := of_oldestEntry holdest
        obtain ⟨rfl, hused⟩ := hall _ _ _ hentry
        have hle := (evictionRank_le (hleast _ _ _ hunnamed)).2 rfl
        rw [hused, (hall _ _ _ hunnamed).2, if_pos rfl] at hle
        split at hused
        · rename_i hempty
          rw [if_pos hempty]
        · rename_i hname
          rw [if_neg hname] at hle
          nomatch hle

theorem admissible_guest (i : ℕ) : admissibleAffinityComponent (guest i) = true := by
  have hlength : ∀ p, (Utf8.encode p).length ≤ 4 := fun p ↦ by
    rw [Utf8.encode]
    split_ifs <;> simp
  rw [admissibleAffinityComponent, guest, Utf8.bytesOf, Utf8.pointsOf, flatMap_singleton,
    decide_eq_true_iff]
  exact (hlength _).trans (by decide)

theorem guest_ne_nil (i : ℕ) : guest i ≠ [] := cons_ne_nil _ _

theorem guest_injective {i j : ℕ} (hi : i < 65535) (hj : j < 65535) (h : guest i = guest j) :
    i = j := by
  have hunit := congrArg UInt16.toNat (cons.inj h).1
  rw [UInt16.toNat_ofNat', UInt16.toNat_ofNat'] at hunit
  omega

/-- A bind of the main account, before the eviction. -/
def written (table : AffinityTable) (threadId : ThreadId) (now : ℤ) : AffinityTable :=
  withEntry (pruneExpiredThreadAffinities table now) threadId mainCodexAccountId 0 now (.base none)

theorem apply_bindMain (hid : admissibleAffinityComponent threadId = true) :
    apply id table (bindMain threadId now) =
      pruneLruThreadAffinities (written table threadId now).threadAffinityEntryTotal
        (written table threadId now) := by
  rw [bindMain, apply, bindThreadAffinity, bindThreadAffinityForScope, if_pos (by rw [hid]; decide),
    bindingGeneration, if_pos rfl]
  rfl

theorem find?_written : (written table threadId now).find? threadId' scope =
    if threadId' = threadId ∧ scope = .base none then
      some (boundEntry (pruneExpiredThreadAffinities table now) threadId mainCodexAccountId 0 now
        (.base none))
    else (table.find? threadId' scope).filter (!isThreadAffinityExpired · now) := by
  rw [written, find?_withEntry, pruneExpiredThreadAffinities, find?_dropAllEntries]

theorem Crowded.arrive (h : Crowded n table) :
    Crowded (n + 1) (apply id table (bindMain (guest n) 1)) := by
  obtain ⟨hsound, ⟨unnamed, hunnamed⟩, hguests, hall⟩ := h
  have hyoung : ∀ {threadId scope entry}, table.find? threadId scope = some entry →
      (table.find? threadId scope).filter (!isThreadAffinityExpired · 1) = some entry := by
    intro threadId scope entry hentry
    refine filter_eq_some_iff.mpr ⟨hentry, ?_⟩
    have hused := (hall _ _ _ hentry).2
    have hle : ¬ codexThreadAffinityIdleTtlMs < 1 - entry.lastUsedAt := by
      rw [codexThreadAffinityIdleTtlMs]
      split at hused <;> omega
    rw [isThreadAffinityExpired, decide_eq_false hle]
    rfl
  have hthere : ∀ {threadId entry}, table.find? threadId (.base none) = some entry →
      ∃ entry, (written table (guest n) 1).find? threadId (.base none) = some entry := by
    intro threadId entry hentry
    rw [find?_written]
    split
    · exact ⟨_, rfl⟩
    · exact ⟨entry, hyoung hentry⟩
  have hcrowded : Crowded (n + 1) (written table (guest n) 1) := by
    refine ⟨(hsound.dropAll _).write (admissible_guest n) _ _ _ _, hthere hunnamed,
      fun i hi ↦ ?_, fun threadId scope entry hentry ↦ ?_⟩
    · rcases Nat.lt_succ_iff_lt_or_eq.mp hi with hlt | rfl
      · obtain ⟨entry, hentry⟩ := hguests i hlt
        exact hthere hentry
      · rw [find?_written, if_pos ⟨rfl, rfl⟩]
        exact ⟨_, rfl⟩
    · rw [find?_written] at hentry
      split at hentry
      · rename_i hkey
        rw [hkey.1, hkey.2, ← some.inj hentry, if_neg (guest_ne_nil n)]
        exact ⟨rfl, rfl⟩
      · exact hall _ _ _ (filter_eq_some_iff.mp hentry).1
  rw [apply_bindMain (admissible_guest n), hcrowded.pruneLru]
  exact hcrowded

theorem crowded_first : Crowded 0 (apply id .empty (bindMain [] 0)) := by
  have hid : admissibleAffinityComponent [] = true := by decide
  have hcrowded : Crowded 0 (written .empty [] 0) := by
    refine ⟨(kept_empty.toSound.dropAll _).write hid _ _ _ _, ?_,
      fun i hi ↦ absurd hi (Nat.not_lt_zero i), fun threadId scope entry hentry ↦ ?_⟩
    · rw [find?_written, if_pos ⟨rfl, rfl⟩]
      exact ⟨_, rfl⟩
    · rw [find?_written] at hentry
      split at hentry
      · rename_i hkey
        rw [hkey.1, hkey.2, ← some.inj hentry, if_pos rfl]
        exact ⟨rfl, rfl⟩
      · exact absurd (filter_eq_some_iff.mp hentry).1.symm (some_ne_none _)
  exact hcrowded

theorem crowded_after (n : ℕ) : Crowded n (after id (crowd n)) := by
  rw [after, crowd, foldl_cons]
  induction n with
  | zero => exact crowded_first
  | succ n ih =>
    rw [range_succ, map_append, foldl_append]
    exact ih.arrive

theorem Crowded.le_total (h : Crowded n table) (hn : n < 65535) :
    n + 1 ≤ table.threadAffinityEntryTotal := by
  obtain ⟨hsound, ⟨unnamed, hunnamed⟩, hguests, -⟩ := h
  have hnodup : ([] :: (range n).map guest).Nodup := by
    refine nodup_cons.mpr ⟨fun hmem ↦ ?_, List.Nodup.map_on (fun i hi j hj heq ↦ ?_) nodup_range⟩
    · obtain ⟨i, -, heq⟩ := mem_map.mp hmem
      exact guest_ne_nil i heq
    · rw [mem_range] at hi hj
      exact guest_injective (by omega) (by omega) heq
  have hsubset : ([] :: (range n).map guest) ⊆ table.threadAccountMap.flat.map fun p ↦ p.1 := by
    intro threadId hmem
    rcases mem_cons.mp hmem with rfl | hguest
    · exact mem_map.mpr ⟨_, mem_flat.mpr hunnamed, rfl⟩
    · obtain ⟨i, hi, rfl⟩ := mem_map.mp hguest
      obtain ⟨entry, hentry⟩ := hguests i (mem_range.mp hi)
      exact mem_map.mpr ⟨_, mem_flat.mpr hentry, rfl⟩
  have hle := (subperm_of_subset hnodup hsubset).length_le
  rw [length_map, length_flat, ← hsound.counted] at hle
  simpa using hle

/-- **A thread without a name stops the eviction.**  It is bound once, then other threads are, and
the table has one entry too many. -/
theorem empty_thread_unbounded :
    codexThreadAffinityMaxEntries < (after id (crowd 2048)).threadAffinityEntryTotal :=
  (crowded_after 2048).le_total (by decide)

end Unnamed

end ThreadAffinity
