import OpenCodex.Responses.Upkeep

/-!
# The accounts of the continuation store

The byte counters and the oldest resident are kept by hand: every change of the map adjusts them
where it happens.  `Sound ok skip s` says that they are right — the counters are the sums they stand
for and were never clamped, the numbers of objects are fresh, and the oldest resident is the oldest —
where `skip` are ids that do not count for the last of these.  Between two steps nothing is skipped;
within one, cancelling the publication of a resident makes it loose again before it is counted, and
its id is skipped until the entry is put, deleted or queued again.

`ok` limits the ids of the store, and in stores that are kept clear of the empty id no pruning has
ended over the bounds.

So the accounts are upheld within every operation (`upheld_sound`).
-/

set_option autoImplicit false

open Option OMap

namespace Responses

variable (E : StoreEnv) (ok : ResponseId → Prop)

/-! ## What is right about a store -/

/-- The oldest resident is what it should be, as far as the ids that are not skipped go. -/
structure OldestExact (skip : Set ResponseId) (s : ResponseStore) : Prop where
  /-- No resident is named where there is none. -/
  unnamed : s.oldestResidentId = none → s.oldestResidentAt = none ∧
    ∀ id cell, id ∉ skip → s.states.get? id = some cell → loose s id cell = false
  /-- The one that is named is loose, and none is older. -/
  named : ∀ id, id ∉ skip → s.oldestResidentId = some id → ∃ cell, s.states.get? id = some cell ∧
    loose s id cell = true ∧ s.oldestResidentAt = some cell.state.createdAt ∧
    ∀ id' cell', id' ∉ skip → s.states.get? id' = some cell' → loose s id' cell' = true →
      cell.state.createdAt ≤ cell'.state.createdAt

/-- The counters and the numbers of a store are right. -/
structure Counted (s : ResponseStore) : Prop where
  stored : s.storedResponseBytes = s.states.total fun _ cell ↦ cell.state.sizeBytes
  resident : s.residentResponseBytes = s.states.total fun _ cell ↦ cell.state.residentBytes
  unclamped : s.watch.clamped = false
  cells : ∀ id cell, s.states.get? id = some cell → cell.object < s.nextObject
  jobs : ∀ id job, s.pendingResponseSpillById.get? id = some job → job.object < s.nextObject
  finished : s.watch.unfinished = false
  ids : ∀ id cell, s.states.get? id = some cell → ok id
  within : ¬ ok [] → s.watch.overfull = false

/-- The accounts of a store are right. -/
structure Sound (skip : Set ResponseId) (s : ResponseStore) : Prop extends Counted ok s where
  oldest : OldestExact skip s

variable {E ok} {skip : Set ResponseId} {s s' : ResponseStore} {id : ResponseId}

/-! ## Looseness -/

theorem loose_congr (h : s'.pendingResponseSpillById.get? id = s.pendingResponseSpillById.get? id)
    (cell : Cell) : loose s' id cell = loose s id cell := by
  rw [loose, loose, spillQueueHoldsResidentCandidate, spillQueueHoldsResidentCandidate, h]

theorem Same.loose (h : Same s s') (id : ResponseId) (cell : Cell) :
    loose s' id cell = Responses.loose s id cell :=
  loose_congr (by rw [h.queue]) cell

variable {skip' : Set ResponseId}

theorem OldestExact.mono (h : OldestExact skip s) (hsub : skip ⊆ skip') : OldestExact skip' s := by
  refine ⟨fun hid ↦ ?_, fun id hout hid ↦ ?_⟩
  · exact ⟨(h.unnamed hid).1, fun j cell hj ↦ (h.unnamed hid).2 j cell (fun hm ↦ hj (hsub hm))⟩
  · obtain ⟨cell, hget, hloose, hat, hmin⟩ := h.named id (fun hm ↦ hout (hsub hm)) hid
    exact ⟨cell, hget, hloose, hat, fun j cell' hj ↦ hmin j cell' fun hm ↦ hj (hsub hm)⟩

theorem Sound.mono (h : Sound ok skip s) (hsub : skip ⊆ skip') : Sound ok skip' s :=
  ⟨h.toCounted, h.oldest.mono hsub⟩

/-! ## The oldest resident -/

variable {cell : Cell}

theorem loose_isResident (h : loose s id cell = true) : cell.state.isResident = true := by
  rw [loose, Bool.and_eq_true] at h
  exact h.1

theorem looseSince_eq_some {entry : ResponseId × Cell} {t : ℚ} : looseSince s entry = some t ↔
      loose s entry.1 entry.2 = true ∧ entry.2.state.createdAt = t := by
  rw [looseSince]
  split <;> simp_all

/-- **Recomputing finds the oldest resident.** -/
theorem oldestExact_recompute (s : ResponseStore) : OldestExact ∅ (recomputeOldestResident s) := by
  have hloose : ∀ id cell, loose (recomputeOldestResident s) id cell = loose s id cell :=
    fun _ _ ↦ rfl
  cases hf : firstLeast (looseSince s) s.states.entries with
  | none =>
    have hnone := firstLeast_eq_none.mp hf
    refine ⟨fun _ ↦ ⟨?_, fun id cell _ hget ↦ ?_⟩, fun id _ hid ↦ ?_⟩
    · simp [recomputeOldestResident, hf]
    · have hsince := hnone (id, cell) (mem_entries.mpr hget)
      rw [looseSince] at hsince
      simpa [hloose] using hsince
    · simp [recomputeOldestResident, hf] at hid
  | some i =>
    obtain ⟨entry, t, hi, ht, hmin⟩ := firstLeast_spec hf
    obtain ⟨hl, rfl⟩ := looseSince_eq_some.mp ht
    have hid : (recomputeOldestResident s).oldestResidentId = some entry.1 := by
      simp [recomputeOldestResident, hf, hi]
    refine ⟨fun hnone ↦ absurd (hid.symm.trans hnone) (by simp), fun id _ hid' ↦ ?_⟩
    obtain rfl : entry.1 = id := some_inj.mp (hid.symm.trans hid')
    refine ⟨entry.2, mem_entries.mp (List.mem_of_getElem? hi), hl, ?_, ?_⟩
    · simp [recomputeOldestResident, hf, hi]
    · intro id' cell' _ hget' hloose'
      obtain ⟨j, hj⟩ := List.mem_iff_getElem?.mp (mem_entries.mpr hget')
      exact (hmin j (id', cell') _ hj (looseSince_eq_some.mpr ⟨hloose', rfl⟩)).1

theorem Counted.recompute (h : Counted ok s) : Counted ok (recomputeOldestResident s) :=
  ⟨h.stored, h.resident, h.unclamped, h.cells, h.jobs, h.finished, h.ids, h.within⟩

theorem Counted.sound_recompute (h : Counted ok s) : Sound ok ∅ (recomputeOldestResident s) :=
  ⟨h.recompute, oldestExact_recompute s⟩

/-! ## The two operations that change the map -/

/-- The map with an entry put last. -/
def putMap (id : ResponseId) (cell : Cell) (m : OMap ResponseId Cell) : OMap ResponseId Cell :=
  (m.delete id).set id cell

theorem total_putMap (m : OMap ResponseId Cell) (id : ResponseId) (cell : Cell)
    (f : ResponseId → Cell → ℕ) :
    (putMap id cell m).total f + ((m.get? id).map (f id)).getD 0 = m.total f + f id cell := by
  have hnew : (m.delete id).has id = false := by rw [has_delete]; simp
  rw [putMap, total_set_of_not_has hnew]
  cases hget : m.get? id with
  | none => rw [delete_of_not_has (has_eq_false_iff.mpr hget)]; rfl
  | some old =>
    have hdel := total_delete hget f
    simp only [map_some, getD_some]
    omega

variable {gone : ℕ}

theorem counted {counter total total' : ℕ} (come : ℕ) (h : counter = total)
    (hmove : total' + gone = total + come) :
    ((counter : ℤ) - gone + come).toNat = total' ∧ ¬ ((counter : ℤ) - gone + come < 0) := by
  omega

theorem countBytes_watch {come goneResident comeResident : ℕ}
    (h : ¬ ((s.storedResponseBytes : ℤ) - gone + come < 0))
    (h' : ¬ ((s.residentResponseBytes : ℤ) - goneResident + comeResident < 0)) :
    (countBytes s gone come goneResident comeResident).watch = s.watch := by
  simp only [countBytes, decide_eq_false h, decide_eq_false h', Bool.or_false]

theorem Counted.putEntry (h : Counted ok s) (hid : ok id) (next : StoredResponseState) :
    Counted ok (putEntry id next s) := by
  have hstored := counted _ h.stored (total_putMap s.states id ⟨s.nextObject, next⟩
    fun _ cell ↦ cell.state.sizeBytes)
  have hresident := counted _ h.resident (total_putMap s.states id ⟨s.nextObject, next⟩
    fun _ cell ↦ cell.state.residentBytes)
  have hwatch : (Responses.putEntry id next s).watch = s.watch :=
    countBytes_watch hstored.2 hresident.2
  refine ⟨hstored.1, hresident.1, hwatch ▸ h.unclamped, fun id' cell hget ↦ ?_,
    fun id' job hjob ↦ Nat.lt_succ_of_lt (h.jobs id' job hjob), hwatch ▸ h.finished,
    fun id' cell hget ↦ ?_, hwatch ▸ h.within⟩
  all_goals
    rw [get?_putEntry] at hget
    split at hget
  · obtain rfl := some_inj.mp hget
    exact Nat.lt_succ_self _
  · exact Nat.lt_succ_of_lt (h.cells id' cell hget)
  · rename_i heq
    exact heq ▸ hid
  · exact h.ids id' cell hget

theorem Counted.loose_putEntry (h : Counted ok s) (id : ResponseId) (next : StoredResponseState) :
    loose (Responses.putEntry id next s) id ⟨s.nextObject, next⟩ = next.isResident := by
  change loose s id _ = _
  rw [loose, spillQueueHoldsResidentCandidate]
  cases hjob : s.pendingResponseSpillById.get? id with
  | none => simp
  | some job =>
    have hlt := h.jobs id job hjob
    have hne : (job.object == s.nextObject) = false := by simp; omega
    simp [hne]

theorem OldestExact.putEntry (h : OldestExact {id} s) (next : StoredResponseState) :
    OldestExact {id} (putEntry id next s) := by
  have hget : ∀ id', id' ∉ ({id} : Set ResponseId) →
      (Responses.putEntry id next s).states.get? id' = s.states.get? id' :=
    fun id' hne ↦ by rw [get?_putEntry, if_neg (by simpa using hne)]
  refine ⟨fun hnone ↦ ⟨(h.unnamed hnone).1, fun id' cell hout hcell ↦ ?_⟩, fun j hj hid ↦ ?_⟩
  · rw [hget id' hout] at hcell
    exact (h.unnamed hnone).2 id' cell hout hcell
  · obtain ⟨cell, hcell, hl, hat, hmin⟩ := h.named j hj hid
    refine ⟨cell, (hget j hj).trans hcell, hl, hat, fun id' cell' hout hcell' hl' ↦ ?_⟩
    rw [hget id' hout] at hcell'
    exact hmin id' cell' hout hcell' hl'

/-- **The oldest resident is kept track of**: it need only be compared with the entry that was
put. -/
theorem OldestExact.noteOldest (h : OldestExact {id} s) (cell : Cell)
    (hget : s.states.get? id = some cell) (hnew : loose s id cell = cell.state.isResident) :
    OldestExact ∅ (noteOldest id cell.state s) := by
  rw [Responses.noteOldest]
  split
  · exact oldestExact_recompute s
  rename_i hne
  have hother : ∀ {id'}, id' ≠ id → id' ∉ ({id} : Set ResponseId) := fun hne hm ↦ hne hm
  split
  case isTrue hbetter =>
    rw [Bool.and_eq_true] at hbetter
    obtain ⟨hres, hbetter⟩ := hbetter
    refine ⟨by rintro ⟨⟩, fun id₁ _ hid₁ ↦ ?_⟩
    obtain rfl : id = id₁ := some_inj.mp hid₁
    refine ⟨cell, hget, hnew.trans hres, rfl, fun id' cell' _ hget' hl' ↦ ?_⟩
    by_cases heq : id' = id
    · subst heq
      obtain rfl := some_inj.mp (hget.symm.trans hget')
      exact le_rfl
    cases hold : s.oldestResidentId with
    | none =>
      have hloose : loose s id' cell' = true := hl'
      exact absurd hloose (by rw [(h.unnamed hold).2 id' cell' (hother heq) hget']; simp)
    | some j =>
      have hji : j ≠ id := fun hji ↦ hne (hji ▸ hold)
      obtain ⟨first, -, -, hat, hmin⟩ := h.named j (hother hji) hold
      rw [hat] at hbetter
      exact (of_decide_eq_true hbetter).le.trans (hmin id' cell' (hother heq) hget' hl')
  case isFalse hbetter =>
    refine ⟨fun hnone ↦ ⟨(h.unnamed hnone).1, fun id' cell' _ hget' ↦ ?_⟩, fun j _ hj ↦ ?_⟩
    · by_cases heq : id' = id
      · subst heq
        obtain rfl := some_inj.mp (hget.symm.trans hget')
        rw [(h.unnamed hnone).1] at hbetter
        simpa [hnew] using hbetter
      · exact (h.unnamed hnone).2 id' cell' (hother heq) hget'
    · have hji : j ≠ id := fun hji ↦ hne (hji ▸ hj)
      obtain ⟨first, hfirst, hl, hat, hmin⟩ := h.named j (hother hji) hj
      refine ⟨first, hfirst, hl, hat, fun id' cell' _ hget' hl' ↦ ?_⟩
      by_cases heq : id' = id
      · subst heq
        obtain rfl := some_inj.mp (hget.symm.trans hget')
        rw [hat, ← hnew, hl'] at hbetter
        simpa using hbetter
      · exact hmin id' cell' (hother heq) hget' hl'

/-- An entry that is put keeps the accounts right, and its id need not be skipped any more. -/
theorem Sound.setEntry (h : Sound ok {id} s) (hid : ok id) (next : StoredResponseState) :
    Sound ok ∅ (noteOldest id next (putEntry id next s)) := by
  have hput := h.toCounted.putEntry hid next
  refine ⟨?_, (h.oldest.putEntry next).noteOldest ⟨s.nextObject, next⟩
    (by rw [get?_putEntry, if_pos rfl]) (h.loose_putEntry id next)⟩
  rw [noteOldest]
  split
  · exact hput.recompute
  split
  · exact ⟨hput.stored, hput.resident, hput.unclamped, hput.cells, hput.jobs, hput.finished,
      hput.ids, hput.within⟩
  · exact hput

variable {id' : ResponseId}

theorem loose_unqueue_of_ne (h : id' ≠ id) (cell : Cell) :
    loose (unqueue id s) id' cell = loose s id' cell :=
  loose_congr (get?_delete_of_ne _ h) cell

theorem loose_unqueue_self (cell : Cell) :
    loose (unqueue id s) id cell = cell.state.isResident := by
  rw [loose, spillQueueHoldsResidentCandidate, unqueue, get?_delete_self]
  simp

theorem loose_unqueue (h : loose s id' cell = true) : loose (unqueue id s) id' cell = true := by
  by_cases heq : id' = id
  · subst heq
    rw [loose_unqueue_self]
    exact loose_isResident h
  · rwa [loose_unqueue_of_ne heq]

theorem Sound.unqueue (h : Sound ok skip s) (id : ResponseId) :
    Sound ok (insert id skip) (unqueue id s) := by
  refine ⟨⟨h.stored, h.resident, h.unclamped, h.cells, fun id' job hjob ↦
    h.jobs id' job (get?_of_delete hjob), h.finished, h.ids, h.within⟩, ?_⟩
  have hother : ∀ {id'}, id' ∉ insert id skip → id' ≠ id ∧ id' ∉ skip :=
    fun hout ↦ ⟨fun heq ↦ hout (.inl heq), fun hm ↦ hout (.inr hm)⟩
  refine ⟨fun hnone ↦ ⟨(h.oldest.unnamed hnone).1, fun id' cell hout hget ↦ ?_⟩, fun j hj hid ↦ ?_⟩
  · rw [loose_unqueue_of_ne (hother hout).1]
    exact (h.oldest.unnamed hnone).2 id' cell (hother hout).2 hget
  · obtain ⟨cell, hget, hl, hat, hmin⟩ := h.oldest.named j (hother hj).2 hid
    refine ⟨cell, hget, loose_unqueue hl, hat, fun id' cell' hout hget' hl' ↦ ?_⟩
    rw [loose_unqueue_of_ne (hother hout).1] at hl'
    exact hmin id' cell' (hother hout).2 hget' hl'

theorem dropEntry_queue (id : ResponseId) (existing : StoredResponseState) (s : ResponseStore) :
    (dropEntry id existing s).pendingResponseSpillById = s.pendingResponseSpillById := by
  rw [dropEntry]
  split <;> rfl

theorem Sound.dropEntry (h : Sound ok (insert id skip) s) (hget : s.states.get? id = some cell) :
    Sound ok skip (dropEntry id cell.state s) := by
  have hstored := counted 0 h.stored (total_delete hget fun _ cell ↦ cell.state.sizeBytes)
  have hresident := counted 0 h.resident (total_delete hget fun _ cell ↦ cell.state.residentBytes)
  have hcounted : Counted ok
      { countBytes s cell.state.sizeBytes 0 cell.state.residentBytes 0 with
        states := s.states.delete id } := by
    have hwatch := countBytes_watch hstored.2 hresident.2
    exact ⟨hstored.1, hresident.1, hwatch ▸ h.unclamped,
      fun id' cell hc ↦ h.cells id' cell (get?_of_delete hc), h.jobs, hwatch ▸ h.finished,
      fun id' cell hc ↦ h.ids id' cell (get?_of_delete hc), hwatch ▸ h.within⟩
  rw [Responses.dropEntry]
  split
  · exact hcounted.sound_recompute.mono (Set.empty_subset _)
  rename_i hne
  have hne' : ¬ s.oldestResidentId = some id := hne
  have hother : ∀ {id'}, id' ≠ id → id' ∉ skip → id' ∉ insert id skip :=
    fun hne hout hm ↦ hm.elim hne hout
  refine ⟨hcounted, fun hnone ↦ ⟨(h.oldest.unnamed hnone).1, fun id' cell' hout hget' ↦ ?_⟩,
    fun j hj hid ↦ ?_⟩
  · by_cases heq : id' = id
    · rw [heq] at hget'
      exact absurd hget' (by simp)
    · exact (h.oldest.unnamed hnone).2 id' cell' (hother heq hout) (get?_of_delete hget')
  · have hji : j ≠ id := fun heq ↦ hne' (heq ▸ hid)
    obtain ⟨first, hfirst, hl, hat, hmin⟩ := h.oldest.named j (hother hji hj) hid
    refine ⟨first, (get?_delete_of_ne _ hji).trans hfirst, hl, hat,
      fun id' cell' hout hget' hl' ↦ ?_⟩
    by_cases heq : id' = id
    · rw [heq] at hget'
      exact absurd hget' (by simp)
    · exact hmin id' cell' (hother heq hout) (get?_of_delete hget') hl'

/-! ## Every operation -/

theorem Sound.enqueue {candidate : ResidentResponseState} {ref : Option ResponseSpillRef}
    (h : Sound ok skip s) (hget : s.states.get? id = some cell) :
    Sound ok ∅ (enqueue E id cell candidate ref s) := by
  refine Counted.sound_recompute ⟨h.stored, h.resident, h.unclamped, h.cells, fun id' job hjob ↦ ?_,
    h.finished, h.ids, h.within⟩
  rw [get?_set] at hjob
  split at hjob
  · obtain rfl := some_inj.mp hjob
    exact h.cells id cell hget
  · exact h.jobs id' job hjob

/-- **The accounts are kept right** within every operation. -/
theorem upheld_sound (E : StoreEnv) (ok : ResponseId → Prop) :
    Upheld E (Sound ok) fun id _ ↦ ok id where
  toCore _ _ h := ⟨⟨h.stored, h.resident, h.unclamped, h.cells, h.jobs, h.finished, h.ids, h.within⟩,
    ⟨h.oldest.unnamed, h.oldest.named⟩⟩
  ofCore _ _ h := ⟨⟨h.stored, h.resident, h.unclamped, h.cells, h.jobs, h.finished, h.ids, h.within⟩,
    ⟨h.oldest.unnamed, h.oldest.named⟩⟩
  mono _ hsub h := h.mono hsub
  held h hget := h.ids _ _ hget
  tombstone hid _ := hid
  stub hid _ := hid
  put h hid := h.setEntry hid _
  unqueue id h := h.unqueue id
  drop h hget := h.dropEntry hget
  enqueue _ h hget _ := h.enqueue hget

end Responses
