import OpenCodex.Responses.Operations

/-!
# What every operation of the store keeps

Only a few operations change what an invariant of the store can speak of: an entry is put or counted
out, a publication is queued, taken off the queue, started or released, a snapshot is written.  All
others are made of these and of steps on the disk and the clock (`Same`).

Between two steps an invariant holds of the whole store.  Within one, cancelling the publication of a
resident changes what is to be said of this resident before anything is done about it, so an
invariant comes with a set of ids that it need not hold of.  `Upheld` and `Kept` list what must be
shown of an invariant, and of the states it allows under an id; then every step keeps it
(`Kept.storeStep`).
-/

set_option autoImplicit false

open List Option

namespace Responses

variable {E : StoreEnv} {s s' : ResponseStore} {id : ResponseId}

/-! ## Steps on the disk and the clock -/

/-- The store without what no invariant speaks of. -/
def ResponseStore.core (s : ResponseStore) : ResponseStore :=
  { s with
    pendingSpillUnlinks := []
    pendingResponseSpillBytes := 0
    reservedResponseSpillBytes := 0
    responseSpillPublicationTail := []
    publication := s.publication.map fun p ↦ { p with detached := none }
    unreclaimableSpillPaths := .empty
    loaded := false
    nextJob := 0
    tick := 0 }

/-- The entries, their accounts, the queue, the publication and the snapshot are the same. -/
def Same (s s' : ResponseStore) : Prop := s'.core = s.core

theorem Same.trans {s'' : ResponseStore} (h : Same s s') (h' : Same s' s'') : Same s s'' :=
  Eq.trans h' h

theorem Same.states (h : Same s s') : s'.states = s.states :=
  show s'.core.states = s.core.states from congrArg _ h

theorem Same.queue (h : Same s s') : s'.pendingResponseSpillById = s.pendingResponseSpillById :=
  show s'.core.pendingResponseSpillById = s.core.pendingResponseSpillById from congrArg _ h

theorem Same.stored (h : Same s s') : s'.storedResponseBytes = s.storedResponseBytes :=
  show s'.core.storedResponseBytes = s.core.storedResponseBytes from congrArg _ h

theorem same_deleteResponseSpill (ref : ResponseSpillRef) (s : ResponseStore) :
    Same s (deleteResponseSpill E ref s) := rfl

theorem same_trimSpillUnlinks (refs : List ResponseSpillRef) (s : ResponseStore) :
    Same s (trimSpillUnlinks E refs s) := by
  induction refs generalizing s with
  | nil => rfl
  | cons ref refs ih =>
    rw [trimSpillUnlinks]
    split
    · exact (same_deleteResponseSpill ref s).trans (ih _)
    · rfl

theorem same_deferSupersededSpill (ref : Option ResponseSpillRef) (s : ResponseStore) :
    Same s (deferSupersededSpill E ref s) := by
  cases ref with
  | none => rfl
  | some ref => exact same_trimSpillUnlinks _ s

theorem same_deleteSpillOf (ref : Option ResponseSpillRef) (s : ResponseStore) :
    Same s (deleteSpillOf E ref s) := by
  cases ref <;> rfl

theorem same_accounted (s : ResponseStore) : Same s (accountedResponseSpillBytes E s).2 := rfl

theorem same_feasible (headroom : Headroom) (spilledBytes : ℤ) (s : ResponseStore) :
    Same s (feasible E headroom spilledBytes s).2.2 := by
  cases headroom <;> rfl

theorem same_reclaimUnlinks (headroom : Headroom) (refs : List ResponseSpillRef)
    (spilledBytes : ℤ) (s : ResponseStore) :
    Same s (reclaimUnlinks E headroom refs spilledBytes s).2.2 := by
  induction refs generalizing spilledBytes s with
  | nil => rfl
  | cons ref refs ih =>
    rw [reclaimUnlinks]
    split
    · have hone : Same s (feasible E headroom (spilledBytes - ref.payloadBytes)
          (deleteResponseSpill E ref { s with pendingSpillUnlinks := refs })).2.2 :=
        same_feasible (E := E) headroom _ _
      dsimp only
      split
      · exact hone.trans (ih _ _)
      · exact hone
    · rfl

theorem same_tombstoneTime (expected existing : Option Cell) (s : ResponseStore) :
    Same s (tombstoneTime E expected existing s).2 := by
  rw [tombstoneTime]
  split <;> rfl

theorem same_tick (s : ResponseStore) : Same s { s with tick := s.tick + 1 } := rfl

theorem same_loaded (s : ResponseStore) : Same s { s with loaded := true } := rfl

theorem same_writeSpill (id : ResponseId) (e : ResidentInput) (s : ResponseStore) :
    Same s (writeSpill E id e s).2 := rfl

theorem same_drain (s : ResponseStore) : Same s (drainPendingSpillUnlinks E s) := by
  have hall : ∀ (refs : List ResponseSpillRef) (t : ResponseStore), Same s t →
      Same s (refs.foldl (fun s ref ↦ deleteResponseSpill E ref s) t) := by
    intro refs
    induction refs with
    | nil => exact fun _ ht ↦ ht
    | cons ref refs ih => exact fun t ht ↦ ih _ (ht.trans (same_deleteResponseSpill ref t))
  exact hall _ _ rfl

/-- The store without the job of an id. -/
def unqueue (id : ResponseId) (s : ResponseStore) : ResponseStore :=
  { s with pendingResponseSpillById := s.pendingResponseSpillById.delete id }

theorem same_cancel (id : ResponseId) (s : ResponseStore) :
    Same (unqueue id s) (cancelPendingResponseSpill id s).2 := by
  rw [cancelPendingResponseSpill, unqueue]
  cases hjob : s.pendingResponseSpillById.get? id with
  | none =>
    rw [OMap.delete_of_not_has (OMap.has_eq_false_iff.mpr hjob)]
    rfl
  | some job =>
    dsimp only
    split
    · unfold Same ResponseStore.core
      dsimp only
      rw [Option.map_map]
      rfl
    · rfl

/-! ## What is there -/

theorem cancel_get? (id id' : ResponseId) (s : ResponseStore) :
    (cancelPendingResponseSpill id s).2.states.get? id' = s.states.get? id' := by
  rw [(same_cancel id s).states]
  rfl

variable {cell : Cell}

theorem same_deleteEntry (hget : s.states.get? id = some cell) :
    Same (dropEntry id cell.state (cancelPendingResponseSpill id s).2) (deleteEntry E id s) := by
  rw [deleteEntry, hget]
  exact (same_deleteSpillOf _ _).trans (same_deleteSpillOf _ _)

theorem deleteEntry_of_none (hget : s.states.get? id = none) : deleteEntry E id s = s := by
  rw [deleteEntry, hget]

theorem dropEntry_states (id : ResponseId) (existing : StoredResponseState) (s : ResponseStore) :
    (dropEntry id existing s).states = s.states.delete id := by
  rw [dropEntry]
  split <;> rfl

theorem deleteEntry_states (id : ResponseId) (s : ResponseStore) :
    (deleteEntry E id s).states = s.states.delete id := by
  cases hget : s.states.get? id with
  | none => rw [deleteEntry_of_none hget, OMap.delete_of_not_has (OMap.has_eq_false_iff.mpr hget)]
  | some cell =>
    rw [(same_deleteEntry hget).states, dropEntry_states, (same_cancel id s).states]
    rfl

variable {next : StoredResponseState}

theorem get?_putEntry (id id' : ResponseId) (next : StoredResponseState) (s : ResponseStore) :
    (putEntry id next s).states.get? id' =
      if id' = id then some ⟨s.nextObject, next⟩ else s.states.get? id' := by
  show ((s.states.delete id).set id _).get? id' = _
  rw [OMap.get?_set, OMap.get?_delete]
  split <;> rfl

theorem get?_noteOldest (id id' : ResponseId) (next : StoredResponseState) (s : ResponseStore) :
    (noteOldest id next s).states.get? id' = s.states.get? id' := by
  rw [noteOldest]
  split
  · rfl
  · split <;> rfl

theorem replaceMapEntry_of_expects {expected : Option ℕ}
    (h : expects expected (s.states.get? id) = true) :
    replaceMapEntry id next expected s = some (noteOldest id next (putEntry id next s)) := by
  rw [replaceMapEntry, if_pos h]

theorem expects_self (hget : s.states.get? id = some cell) :
    expects (some cell.object) (s.states.get? id) = true := by
  simp [expects, hget]

theorem expects_get? (id : ResponseId) (s : ResponseStore) :
    expects ((s.states.get? id).map (·.object)) (s.states.get? id) = true := by
  cases hget : s.states.get? id <;> simp [expects]

theorem get?_of_expects {object : ℕ} (h : expects (some object) (s.states.get? id) = true) :
    ∃ cell, s.states.get? id = some cell := by
  cases hget : s.states.get? id with
  | none => exact absurd h (by simp [expects, hget])
  | some cell => exact ⟨cell, rfl⟩

theorem get?_replaceMapEntry {expected : Option ℕ}
    (hr : replaceMapEntry id next expected s = some s') (id' : ResponseId) :
    s'.states.get? id' = if id' = id then some ⟨s.nextObject, next⟩ else s.states.get? id' := by
  rw [replaceMapEntry] at hr
  split at hr
  · obtain rfl := some_inj.mp hr
    rw [get?_noteOldest, get?_putEntry]
  · cases hr

theorem eq_of_resident? {state : StoredResponseState} {entry : ResidentResponseState}
    (h : state.resident? = some entry) : state = .resident entry := by
  cases state with
  | resident state => exact congrArg _ (some_inj.mp h)
  | spill _ => nomatch h
  | failed _ => nomatch h

variable {expected : Option Cell}

theorem same_replaceWithSpillFailure (deferSpillUnlink : Bool)
    (h : expects (expected.map (·.object)) (s.states.get? id) = true) : ∃ createdAt s₀, Same s s₀ ∧
      Same (noteOldest id (tombstone E id createdAt) (putEntry id (tombstone E id createdAt) s₀))
        (replaceWithSpillFailure E id expected deferSpillUnlink s) := by
  have hsame : Same s (tombstoneTime E expected (s.states.get? id) s).2 := same_tombstoneTime ..
  refine ⟨(tombstoneTime E expected (s.states.get? id) s).1,
    (tombstoneTime E expected (s.states.get? id) s).2, hsame, ?_⟩
  rw [replaceWithSpillFailure, if_pos h]
  dsimp only
  rw [replaceMapEntry_of_expects (by rwa [hsame.states])]
  dsimp only
  split
  · exact same_deferSupersededSpill _ _
  · exact same_deleteSpillOf _ _

theorem mem_spilledByAge {entry : ResponseId × ResponseSpillRef} (h : entry ∈ spilledByAge s) :
    ∃ cell, s.states.get? entry.1 = some cell ∧ cell.state.spill? = some entry.2 := by
  rw [spilledByAge, List.mem_map] at h
  obtain ⟨⟨id, createdAt, ref⟩, hm, rfl⟩ := h
  rw [mem_insertionSort, mem_filterMap] at hm
  obtain ⟨⟨id', cell⟩, hcell, heq⟩ := hm
  obtain ⟨ref', href, heq'⟩ := map_eq_some_iff.mp heq
  simp only [Prod.mk.injEq] at heq'
  obtain ⟨rfl, -, rfl⟩ := heq'
  exact ⟨cell, OMap.mem_entries.mp hcell, href⟩

/-- **What making room keeps** is what keeps to the disk, and to the deletion of such entries as were
spilled before. -/
theorem enforce_keeps {P : ResponseStore → Prop} (hsame : ∀ t t', Same t t' → P t → P t')
    (hdelete : ∀ t id', P t → (∃ cell, s.states.get? id' = some cell ∧
      cell.state.spill?.isSome = true) → P (deleteEntry E id' t)) (hs : P s)
    (headroom : Headroom) : P (enforceSpilledResponseBudget E headroom s).2 := by
  have hentries : ∀ (entries : List (ResponseId × ResponseSpillRef)) (bytes : ℤ)
      (t : ResponseStore), (∀ entry ∈ entries, ∃ cell, s.states.get? entry.1 = some cell ∧
        cell.state.spill?.isSome = true) → P t →
      P (reclaimEntries E headroom entries bytes t).2 := by
    intro entries
    induction entries with
    | nil => exact fun _ _ _ ht ↦ ht
    | cons entry entries ih =>
      intro bytes t hspilled ht
      obtain ⟨hentry, hentries⟩ := forall_mem_cons.mp hspilled
      rw [reclaimEntries]
      split
      · have hone := hsame _ _ (same_feasible (E := E) headroom (bytes - entry.2.payloadBytes) _)
          (hdelete t entry.1 ht hentry)
        dsimp only
        split
        · exact ih _ _ hentries hone
        · exact hone
      · exact ht
  have hf : Same s (feasible E headroom (accountedResponseSpillBytes E s).1
      (accountedResponseSpillBytes E s).2).2.2 := same_feasible headroom _ _
  have hu := fun refs bytes ↦ hf.trans (same_reclaimUnlinks (E := E) headroom refs bytes _)
  rw [enforceSpilledResponseBudget]
  dsimp only
  split
  · split
    · refine hentries _ _ _ (fun entry hentry ↦ ?_) (hsame _ _ (hu _ _) hs)
      obtain ⟨cell, hcell, hspill⟩ := mem_spilledByAge hentry
      rw [(hu _ _).states] at hcell
      exact ⟨cell, hcell, isSome_iff_exists.mpr ⟨_, hspill⟩⟩
    · exact hsame _ _ (hu _ _) hs
  · exact hsame _ _ hf hs

theorem makeRoom_keeps {P : ResponseStore → Prop} (hsame : ∀ t t', Same t t' → P t → P t')
    (hdelete : ∀ t id', P t → (∃ cell, s.states.get? id' = some cell ∧
      cell.state.spill?.isSome = true) → P (deleteEntry E id' t)) (hs : P s)
    (footprint inherited : ℕ) : P (makeRoom E footprint inherited s).2 := by
  rw [makeRoom]
  dsimp only
  split
  · exact hsame _ _ (same_accounted s) hs
  refine hsame _ _ (same_accounted _) ?_
  split
  · exact enforce_keeps (s := (accountedResponseSpillBytes E s).2) hsame hdelete
      (hsame _ _ (same_accounted s) hs) _
  · exact hsame _ _ (same_accounted s) hs

theorem makeRoom_get? (hget : s.states.get? id = some cell) (hres : cell.state.spill? = none)
    (footprint inherited : ℕ) :
    (makeRoom E footprint inherited s).2.states.get? id = some cell := by
  refine makeRoom_keeps (P := fun t ↦ t.states.get? id = some cell)
    (fun t t' hsame ht ↦ hsame.states ▸ ht) (fun t id' ht hspilled ↦ ?_) hget footprint inherited
  obtain ⟨cell', hcell', hspill⟩ := hspilled
  have hne : id ≠ id' := by
    rintro rfl
    obtain rfl := some_inj.mp (hget.symm.trans hcell')
    rw [hres] at hspill
    nomatch hspill
  rw [deleteEntry_states, OMap.get?_delete_of_ne _ hne, ht]

theorem oldestLoose_spec {entry : ResponseId × Cell} (h : oldestLoose s = some entry) :
    s.states.get? entry.1 = some entry.2 ∧ loose s entry.1 entry.2 = true :=
  ⟨OMap.mem_entries.mp (mem_of_find?_eq_some h), by simpa using find?_some h⟩

/-! ## Invariants -/

/-- What an invariant has to be kept by: `P skip` says that it holds where `skip` are ids it need not
hold of, and `fits` what may be put under an id. -/
structure Upheld (E : StoreEnv) (P : Set ResponseId → ResponseStore → Prop)
    (fits : ResponseId → StoredResponseState → Prop) : Prop where
  toCore : ∀ skip s, P skip s → P skip s.core
  ofCore : ∀ skip s, P skip s.core → P skip s
  mono : ∀ {skip skip'} s, skip ⊆ skip' → P skip s → P skip' s
  /-- What is in the store was put there. -/
  held : ∀ {skip s id cell}, P skip s → s.states.get? id = some cell → fits id cell.state
  tombstone : ∀ {id state}, fits id state → ∀ createdAt, fits id (tombstone E id createdAt)
  /-- A stub may be put for the file a resident was written to. -/
  stub : ∀ {id entry tick ref}, fits id (.resident entry) →
    writeResponseSpillDurably E tick id entry.toResidentInput = some ref →
      fits id (stubState E id entry.toResidentInput ref)
  put : ∀ {s id next}, P {id} s → fits id next → P ∅ (noteOldest id next (putEntry id next s))
  unqueue : ∀ {skip s} id, P skip s → P (insert id skip) (unqueue id s)
  drop : ∀ {skip s id cell}, P (insert id skip) s → s.states.get? id = some cell →
    P skip (dropEntry id cell.state s)
  enqueue : ∀ {skip s id cell candidate} ref, P skip s → s.states.get? id = some cell →
    fits id (.resident candidate) → P ∅ (enqueue E id cell candidate ref s)

namespace Upheld

variable {P : Set ResponseId → ResponseStore → Prop}
  {fits : ResponseId → StoredResponseState → Prop} {skip : Set ResponseId}

section Operations

variable (h : Upheld E P fits)
include h

theorem same (hsame : Same s s') (hs : P skip s) : P skip s' :=
  h.ofCore skip s' (hsame ▸ h.toCore skip s hs)

theorem cancel (id : ResponseId) (hs : P skip s) :
    P (insert id skip) (cancelPendingResponseSpill id s).2 :=
  h.same (same_cancel id s) (h.unqueue id hs)

theorem deleteEntry (id : ResponseId) (hs : P skip s) : P skip (deleteEntry E id s) := by
  cases hget : s.states.get? id with
  | none => rwa [deleteEntry_of_none hget]
  | some cell => exact h.same (same_deleteEntry hget) (h.drop (h.cancel id hs) ((cancel_get? ..).trans hget))

theorem replaceMapEntry {expected : Option ℕ} (hs : P ∅ s) (hfits : fits id next)
    (hr : replaceMapEntry id next expected s = some s') : P ∅ s' := by
  rw [Responses.replaceMapEntry] at hr
  split at hr
  · exact some_inj.mp hr ▸ h.put (h.mono s (Set.empty_subset _) hs) hfits
  · cases hr

variable {deferSpillUnlink : Bool}

theorem replaceWithSpillFailure (hs : P {id} s)
    (hfits : ∀ createdAt, fits id (Responses.tombstone E id createdAt))
    (hexp : expects (expected.map (·.object)) (s.states.get? id) = true) :
    P ∅ (replaceWithSpillFailure E id expected deferSpillUnlink s) := by
  obtain ⟨createdAt, s₀, hsame, hto⟩ := same_replaceWithSpillFailure (E := E) deferSpillUnlink hexp
  exact h.same hto (h.put (h.same hsame hs) (hfits createdAt))

theorem replaceWithSpillFailure' (hs : P ∅ s)
    (hfits : ∀ createdAt, fits id (Responses.tombstone E id createdAt)) :
    P ∅ (Responses.replaceWithSpillFailure E id expected deferSpillUnlink s) := by
  by_cases hexp : expects (expected.map (·.object)) (s.states.get? id) = true
  · exact h.replaceWithSpillFailure (h.mono s (Set.empty_subset _) hs) hfits hexp
  · rw [Responses.replaceWithSpillFailure, if_neg hexp]
    exact hs

theorem swapResidentForSpill (object : ℕ) {e : ResidentInput} {ref : ResponseSpillRef}
    (hs : P ∅ s) (hfits : fits id (stubState E id e ref)) :
    P ∅ (swapResidentForSpill E id object e ref s).2 := by
  rw [Responses.swapResidentForSpill]
  split
  · exact h.same (same_deleteResponseSpill ref s) hs
  · rename_i hr
    exact h.replaceMapEntry hs hfits hr

variable {entry candidate : ResidentResponseState}

theorem demoteNow (hs : P ∅ s) (hfits : fits id (.resident entry)) :
    P ∅ (demoteNow E id cell entry s) := by
  have hw := h.same (same_writeSpill (E := E) id entry.toResidentInput s) hs
  rw [Responses.demoteNow]
  split
  · exact h.replaceWithSpillFailure' hw (h.tombstone hfits)
  · rename_i href
    exact h.swapResidentForSpill _ hw (h.stub hfits href)

theorem enforce (headroom : Headroom) (hs : P skip s) :
    P skip (enforceSpilledResponseBudget E headroom s).2 :=
  enforce_keeps (fun _ _ hsame ↦ h.same hsame) (fun _ id ht _ ↦ h.deleteEntry id ht) hs headroom

theorem makeRoom (footprint inherited : ℕ) (hs : P skip s) :
    P skip (makeRoom E footprint inherited s).2 :=
  makeRoom_keeps (fun _ _ hsame ↦ h.same hsame) (fun _ id ht _ ↦ h.deleteEntry id ht) hs footprint
    inherited

/-- **Queueing a resident**, whether there is room for it or not. -/
theorem queuePendingResponseSpill {ref : Option ResponseSpillRef} (hs : P ∅ s)
    (hget : s.states.get? id = some cell) (hres : cell.state.spill? = none)
    (hfits : fits id (.resident candidate)) :
    P ∅ (queuePendingResponseSpill E id cell candidate ref s) := by
  have hc := h.cancel id hs
  have hget' := (cancel_get? id id s).trans hget
  have hrefuse : ∀ (inherited : Option ResponseSpillRef) (t : ResponseStore),
      P (insert id ∅) t → t.states.get? id = some cell →
      P ∅ (deferSupersededSpill E inherited
        (Responses.replaceWithSpillFailure E id (some cell) false t)) := by
    intro inherited t ht hcell
    rw [insert_empty_eq] at ht
    exact h.same (same_deferSupersededSpill _ _)
      (h.replaceWithSpillFailure ht (h.tombstone hfits) (expects_self hcell))
  rw [Responses.queuePendingResponseSpill]
  dsimp only
  split
  · exact hrefuse _ _ hc hget'
  have hm := fun footprint inherited ↦ h.makeRoom footprint inherited hc
  have hgm := makeRoom_get? (E := E) hget' hres
  split
  · exact h.enqueue _ (hm _ _) (hgm _ _) hfits
  · exact hrefuse _ _ (hm _ _) (hgm _ _)

theorem replaceWithPendingResponseSpill (hs : P ∅ s) (hfits : fits id (.resident candidate)) :
    P ∅ (replaceWithPendingResponseSpill E id candidate expected s) := by
  rw [Responses.replaceWithPendingResponseSpill]
  split
  · exact hs
  · rename_i hr
    refine h.queuePendingResponseSpill (h.replaceMapEntry hs hfits hr) ?_ rfl hfits
    rw [get?_replaceMapEntry hr, if_pos rfl]

theorem resident (hs : P skip s) (hget : s.states.get? id = some cell)
    (hres : cell.state.resident? = some entry) : fits id (.resident entry) :=
  eq_of_resident? hres ▸ h.held hs hget

theorem demote (hs : P ∅ s) (hget : s.states.get? id = some cell)
    (hres : cell.state.resident? = some entry) : P ∅ (demote E id cell entry s) := by
  have hfits := h.resident hs hget hres
  rw [Responses.demote]
  split
  · exact h.queuePendingResponseSpill hs hget (by rw [eq_of_resident? hres]; rfl) hfits
  · exact h.demoteNow hs hfits

theorem expire {at_ : ℚ} {ids : List ResponseId} (hs : P ∅ s) : P ∅ (expire E at_ ids s).2 := by
  induction ids generalizing s with
  | nil => exact hs
  | cons id ids ih =>
    rw [Responses.expire]
    split
    · exact ih hs
    split
    · exact ih (h.deleteEntry id hs)
    · exact ih hs

theorem countStep (hs : P ∅ s) (hstep : countStep E s = some s') : P ∅ s' := by
  rw [Responses.countStep] at hstep
  split at hstep
  case isFalse => nomatch hstep
  split at hstep
  · nomatch hstep
  split at hstep
  · nomatch hstep
  · exact some_inj.mp hstep ▸ h.deleteEntry _ hs

theorem byteStep (hs : P ∅ s) (hstep : byteStep E s = some s') : P ∅ s' := by
  rw [Responses.byteStep] at hstep
  split at hstep
  case isFalse => nomatch hstep
  split at hstep
  · rename_i hfind
    obtain ⟨hget, -⟩ := oldestLoose_spec hfind
    split at hstep
    · nomatch hstep
    split at hstep
    · rename_i hres
      exact some_inj.mp hstep ▸ h.demote hs hget hres
    · exact some_inj.mp hstep ▸ h.deleteEntry _ hs
  split at hstep
  · nomatch hstep
  split at hstep
  · nomatch hstep
  split at hstep
  · nomatch hstep
  · exact some_inj.mp hstep ▸ h.deleteEntry _ hs

theorem replaceSpillEntryAtomically (hs : P ∅ s) (hfits : fits id (.resident candidate)) :
    P ∅ (replaceSpillEntryAtomically E id cell candidate s) := by
  have hw := h.same (same_writeSpill (E := E) id candidate.toResidentInput s) hs
  rw [Responses.replaceSpillEntryAtomically]
  split
  · exact h.replaceWithSpillFailure' hw (h.tombstone hfits)
  rename_i href
  split
  · exact h.same (same_deleteResponseSpill _ _) hw
  · rename_i hr
    exact h.same (same_deferSupersededSpill _ _) (h.replaceMapEntry hw (h.stub hfits href) hr)

theorem admitOversizedCandidate (hs : P ∅ s) (hfits : fits id (.resident candidate)) :
    P ∅ (admitOversizedCandidate E id candidate expected s) := by
  have hw := h.same (same_writeSpill (E := E) id candidate.toResidentInput s) hs
  have htombstone := h.tombstone hfits
  rw [Responses.admitOversizedCandidate]
  split
  · exact h.replaceWithSpillFailure' hs htombstone
  split
  · exact h.replaceWithPendingResponseSpill hs hfits
  dsimp only
  split
  · exact h.replaceWithSpillFailure' hw htombstone
  rename_i href
  split
  · exact h.replaceWithSpillFailure' (h.same (same_deleteResponseSpill _ _) hw) htombstone
  split
  · exact h.same (same_deleteResponseSpill _ _) hw
  · rename_i hr
    exact h.same (same_deferSupersededSpill _ _) (h.replaceMapEntry hw (h.stub hfits href) hr)

theorem materializeEntry (cell : Cell) (hs : P ∅ s)
    (hfits : ∀ createdAt, fits id (Responses.tombstone E id createdAt)) :
    P ∅ (materializeEntry E id cell s).2 := by
  have ht : P ∅ { s with tick := s.tick + 1 } := h.same (same_tick s) hs
  have hlost : P ∅ (Responses.replaceWithSpillFailure E id (some cell) false
      { s with tick := s.tick + 1 }) := h.replaceWithSpillFailure' ht hfits
  rw [Responses.materializeEntry]
  split
  · exact hs
  · exact hs
  dsimp only
  split
  · exact hlost
  split
  · split
    · exact ht
    · exact hlost
  · exact hlost

theorem evict (hs : P ∅ s) : P ∅ (evictOldestResponseContinuationForBudget E s).2 := by
  rw [evictOldestResponseContinuationForBudget]
  split
  · exact hs
  split
  · exact hs
  rename_i cell hget
  split
  · exact hs
  rename_i entry hres
  have hfits := h.resident hs hget hres
  split
  · exact h.queuePendingResponseSpill hs hget (by rw [eq_of_resident? hres]; rfl) hfits
  · exact h.demoteNow hs hfits

end Operations

end Upheld

/-- What a row of a snapshot may be loaded as. -/
structure RowFits (E : StoreEnv) (fits : ResponseId → StoredResponseState → Prop) (id : ResponseId)
    (row : Json) : Prop where
  tombstone : ∀ createdAt, fits id (tombstone E id createdAt)
  resident : ∀ items createdAt providers sizeBytes, row.field? (js "items") = some (.arr items) →
    fits id (.resident ⟨⟨rowHead row createdAt items.length providers, items⟩, sizeBytes⟩)
  spill : ∀ head ref sizeBytes, (row.field? (js "spill")).bind spillRef? = some ref →
    fits id (.spill ⟨head, ref, sizeBytes⟩)

/-- What an invariant has to be kept by over whole steps. -/
structure Kept (E : StoreEnv) (P : Set ResponseId → ResponseStore → Prop)
    (fits : ResponseId → StoredResponseState → Prop) : Prop extends Upheld E P fits where
  prune : ∀ {s}, P ∅ s → P ∅ (pruneResponses E s)
  start : ∀ {s s'}, P ∅ s → startPublication s = some s' → P ∅ s'
  published : ∀ {s p cell}, P ∅ s → s.publication = some p → s.states.get? p.id = some cell →
    fits p.id (.resident p.candidate)
  release : ∀ {s} p, P ∅ s → P ∅ (releasePublication p s)
  snapshot : ∀ {s rows}, P ∅ s → selectSnapshotEntries E s = some rows →
    P ∅ { s with snapshot := rows }
  restart : ∀ {s}, P ∅ s → P ∅ (restart s)

namespace Kept

variable {P : Set ResponseId → ResponseStore → Prop}
  {fits : ResponseId → StoredResponseState → Prop} {candidate : ResidentResponseState}
  (h : Kept E P fits)
include h

theorem putResident (hs : P ∅ s) (hfits : fits id (.resident candidate))
    (hexp : expects (expected.map (·.object)) (s.states.get? id) = true) :
    P ∅ (putResident E id candidate expected s) := by
  have hskip : P {id} (if E.windows then (cancelPendingResponseSpill id s).2 else s) := by
    split
    · have hc := h.cancel id hs
      rwa [insert_empty_eq] at hc
    · exact h.mono s (Set.empty_subset _) hs
  have hget : (if E.windows then (cancelPendingResponseSpill id s).2 else s).states.get? id =
      s.states.get? id := by
    split
    · exact cancel_get? id id s
    · rfl
  rw [Responses.putResident]
  generalize (if E.windows then (cancelPendingResponseSpill id s).2 else s) = t at hskip hget
  rw [replaceMapEntry_of_expects (by rwa [hget])]
  exact h.prune (h.put hskip hfits)

theorem setResidentEntry {e : ResidentInput} (hs : P ∅ s)
    (hfits : ∀ sizeBytes, fits id (.resident ⟨e, sizeBytes⟩)) :
    P ∅ (setResidentEntry E id e s) := by
  rw [Responses.setResidentEntry]
  split
  · exact h.prune (h.replaceWithSpillFailure' hs (h.tombstone (hfits 0)))
  rename_i candidate hmeasure
  obtain ⟨size, -, rfl⟩ := map_eq_some_iff.mp hmeasure
  rw [setCandidate]
  split
  · exact h.prune (h.admitOversizedCandidate hs (hfits size))
  split
  · exact h.prune (h.replaceWithPendingResponseSpill hs (hfits size))
  split
  · exact h.prune (h.replaceSpillEntryAtomically hs (hfits size))
  · exact h.putResident hs (hfits size) (expects_get? id s)

theorem loadSnapshotEntry {row : Json} (hs : P ∅ s) (hrow : RowFits E fits id row) :
    P ∅ (loadSnapshotEntry E id row s) := by
  have hput : ∀ next, fits id next → P ∅ ((Responses.replaceMapEntry id next none s).getD s) := by
    intro next hfits
    exact h.put (h.mono s (Set.empty_subset _) hs) hfits
  have hresident : ∀ createdAt, P ∅ (loadSnapshotEntry.loadResident E id row s createdAt
      fun next ↦ (Responses.replaceMapEntry id next none s).getD s) := by
    intro createdAt
    rw [loadSnapshotEntry.loadResident]
    split
    case h_2 => exact hs
    rename_i items hitems
    dsimp only
    split
    case isFalse => exact hs
    split
    · exact hput _ (hrow.tombstone _)
    rename_i resident hmeasure
    obtain ⟨size, -, rfl⟩ := map_eq_some_iff.mp hmeasure
    have hfits := hrow.resident items createdAt
      (orElse (row.field? (js "providers")) (legacyProviders row)) size hitems
    split
    · exact h.admitOversizedCandidate hs hfits
    · exact hput _ hfits
  rw [Responses.loadSnapshotEntry]
  dsimp only
  split
  · split
    · split
      · split
        · rename_i spill hspill
          split
          · exact hput _ (hrow.spill _ spill _ hspill)
          · exact hs
        · exact hs
      split
      · split
        · exact hput _ (hrow.tombstone _)
        · exact hs
      split
      · exact hresident _
      · exact hs
    · exact hs
    · exact hresident _
  · exact hs

theorem ensureLoaded (hs : P ∅ s)
    (hrows : s.loaded = false → ∀ row ∈ s.snapshot, RowFits E fits row.1 row.2) :
    P ∅ (ensureLoaded E s) := by
  have hall : ∀ (rows : List (ResponseId × Json)) (t : ResponseStore),
      (∀ row ∈ rows, RowFits E fits row.1 row.2) → P ∅ t → P ∅ (loadRows E rows t) := by
    intro rows
    induction rows with
    | nil => exact fun _ _ ht ↦ ht
    | cons row rows ih =>
      intro t hfits ht
      obtain ⟨hrow, hrest⟩ := forall_mem_cons.mp hfits
      exact ih _ hrest (h.loadSnapshotEntry ht hrow)
  rw [Responses.ensureLoaded]
  split
  · exact hs
  · rename_i hloaded
    exact h.prune (hall _ _ (hrows (by simpa using hloaded)) (h.same (same_loaded s) hs))

theorem expand {body : Json} {clientThreadId : Option JsString} (hs : P ∅ s)
    (hrows : s.loaded = false → ∀ row ∈ s.snapshot, RowFits E fits row.1 row.2) :
    P ∅ (expandPreviousResponseInput E body clientThreadId s).2 := by
  have hp := h.prune (h.ensureLoaded hs hrows)
  rw [expandPreviousResponseInput]
  split
  · exact hs
  dsimp only
  split
  · exact hp
  rename_i cell hget
  have hm := h.materializeEntry cell hp (h.tombstone (h.held hp hget))
  rw [replayEntry]
  split
  · exact hm
  · split <;> exact hm

theorem remember {requestBody response : Json} {providers : List (JsString × Json)}
    {options : RememberOptions} (hs : P ∅ s)
    (hfits : ∀ id entry, continuationOf requestBody response providers options 0 = some (id, entry) →
      ∀ createdAt sizeBytes, fits id (.resident ⟨{ entry with createdAt }, sizeBytes⟩))
    (hrows : s.loaded = false → ∀ row ∈ s.snapshot, RowFits E fits row.1 row.2) :
    P ∅ (rememberResponseState E requestBody response providers options s) := by
  rw [rememberResponseState]
  split
  · exact hs
  · rename_i hc
    exact h.setResidentEntry (h.same (same_tick _) (h.ensureLoaded hs hrows)) (hfits _ _ hc _)

theorem settlePublication (hs : P ∅ s) (hstep : settlePublication E s = some s') : P ∅ s' := by
  rw [Responses.settlePublication, map_eq_some_iff] at hstep
  obtain ⟨p, hp, rfl⟩ := hstep
  have hw := h.same (same_writeSpill (E := E) p.id p.candidate.toResidentInput s) hs
  have hfits : (installableJob p (writeSpill E p.id p.candidate.toResidentInput s).2).isSome = true →
      fits p.id (.resident p.candidate) := by
    intro hsome
    obtain ⟨job, hjob⟩ := isSome_iff_exists.mp hsome
    obtain ⟨cell, hget⟩ := get?_of_expects (filter_eq_some_iff.mp hjob).2
    exact h.published hs hp hget
  have hfail : ∀ {t job}, P ∅ t → (job.isSome = true → fits p.id (.resident p.candidate)) →
      P ∅ (failPublication E p job t) := by
    intro t job ht hjob
    cases job with
    | none => exact ht
    | some job =>
      exact h.same (same_deferSupersededSpill _ _)
        (h.replaceWithSpillFailure' ht (h.tombstone (hjob rfl)))
  have hinstalled : P ∅ (installPublication E p (writeSpill E p.id p.candidate.toResidentInput s).1
      (writeSpill E p.id p.candidate.toResidentInput s).2) := by
    cases hwritten : (writeSpill E p.id p.candidate.toResidentInput s).1 with
    | none => exact hfail hw hfits
    | some ref =>
      rw [installPublication]
      split
      · exact hfail (h.same (same_deleteResponseSpill ref _) hw) hfits
      · cases hjob : installableJob p (writeSpill E p.id p.candidate.toResidentInput s).2 with
        | none => exact h.same (same_deleteResponseSpill ref _) hw
        | some job =>
          have hswap := h.swapResidentForSpill p.object hw (h.stub (hfits (hjob ▸ rfl)) hwritten)
          rw [swapPublication]
          split
          · exact h.same (same_deferSupersededSpill _ _) hswap
          · exact hswap
  dsimp only
  split
  · exact h.prune (h.release p hinstalled)
  · exact h.release p hinstalled

/-- **Every step keeps the invariant**, if what it remembers and the rows it loads may be put. -/
theorem storeStep {event : StoreEvent} (hs : P ∅ s)
    (hfits : ∀ requestBody response providers options id entry,
      event = .remember requestBody response providers options →
      continuationOf requestBody response providers options 0 = some (id, entry) →
      ∀ createdAt sizeBytes, fits id (.resident ⟨{ entry with createdAt }, sizeBytes⟩))
    (hrows : s.loaded = false → ∀ row ∈ s.snapshot, RowFits E fits row.1 row.2)
    (hstep : storeStep E s event = some s') : P ∅ s' := by
  cases event with
  | remember requestBody response providers options =>
    exact some_inj.mp hstep ▸ h.remember hs (fun id entry hc ↦ hfits _ _ _ _ id entry rfl hc) hrows
  | expand body clientThreadId => exact some_inj.mp hstep ▸ h.expand hs hrows
  | sweep => exact some_inj.mp hstep ▸ h.enforce none (h.expire (h.same (same_tick s) hs))
  | evict => exact some_inj.mp hstep ▸ h.evict hs
  | startPublication => exact h.start hs hstep
  | settlePublication => exact h.settlePublication hs hstep
  | snapshot =>
    obtain ⟨rows, hrows, rfl⟩ := map_eq_some_iff.mp hstep
    exact h.same (same_drain _) (h.snapshot hs hrows)
  | restart => exact some_inj.mp hstep ▸ h.restart hs

end Kept

end Responses
