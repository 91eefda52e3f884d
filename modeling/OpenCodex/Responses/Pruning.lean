import OpenCodex.Responses.Accounting
import Mathlib.Data.List.Perm.Subperm

/-!
# Pruning comes to its end, and within the bounds

Pruning has two loops.  The first deletes entries while there are too many of them.  The second
demotes residents while there are too many bytes; a demotion may fail, may make room on the disk by
deleting other entries, and on Windows leaves the resident where it is and only holds it.  What every
turn does to the store is captured by `Shrinks`: no id is new, and no resident is newly loose.  Every
turn of the second loop takes away an entry or a loose resident, so the two numbers together bound
its turns (`byteStep_measure`).

When the loops are left, the store is within its bounds (`Within`) — provided the loop conditions
were the reason, and not the test for an id that is falsy.
-/

set_option autoImplicit false

open List Option

namespace Responses

variable {E : StoreEnv} {ok : ResponseId → Prop} {s s' : ResponseStore} {id : ResponseId}

/-! ## Nothing new -/

theorem mem_looseIds : id ∈ looseIds s ↔
    ∃ cell, s.states.get? id = some cell ∧ loose s id cell = true := by
  simp only [looseIds, List.mem_map, mem_filter, ← OMap.mem_entries]
  constructor
  · rintro ⟨⟨id', cell⟩, ⟨hm, hl⟩, rfl⟩
    exact ⟨cell, hm, hl⟩
  · rintro ⟨cell, hm, hl⟩
    exact ⟨(id, cell), ⟨hm, hl⟩, rfl⟩

theorem looseIds_nodup (s : ResponseStore) : (looseIds s).Nodup :=
  s.states.nodup.sublist (filter_sublist.map _)

/-- No id is new, and no resident is newly loose. -/
structure Shrinks (s s' : ResponseStore) : Prop where
  keys : ∀ id ∈ s'.states.keys, id ∈ s.states.keys
  loose : ∀ id ∈ looseIds s', id ∈ looseIds s

theorem Shrinks.refl (s : ResponseStore) : Shrinks s s := ⟨fun _ h ↦ h, fun _ h ↦ h⟩

theorem Shrinks.trans {s'' : ResponseStore} (h : Shrinks s s') (h' : Shrinks s' s'') :
    Shrinks s s'' :=
  ⟨fun id hm ↦ h.keys id (h'.keys id hm), fun id hm ↦ h.loose id (h'.loose id hm)⟩

theorem Shrinks.size_le (h : Shrinks s s') : s'.states.size ≤ s.states.size := by
  have hle := (s'.states.keys_nodup.subperm h.keys).length_le
  rwa [OMap.length_keys, OMap.length_keys] at hle

theorem Shrinks.loose_le (h : Shrinks s s') : (looseIds s').length ≤ (looseIds s).length :=
  ((looseIds_nodup s').subperm h.loose).length_le

theorem Shrinks.loose_lt (h : Shrinks s s') (hin : id ∈ looseIds s) (hout : id ∉ looseIds s') :
    (looseIds s').length < (looseIds s).length := by
  have hnd : (id :: looseIds s').Nodup := nodup_cons.mpr ⟨hout, looseIds_nodup s'⟩
  have hsub : id :: looseIds s' ⊆ looseIds s := by
    intro id' hm
    rcases mem_cons.mp hm with rfl | hm
    · exact hin
    · exact h.loose id' hm
  exact (hnd.subperm hsub).length_le

theorem Same.looseIds (h : Same s s') : looseIds s' = Responses.looseIds s := by
  rw [Responses.looseIds, Responses.looseIds, h.states]
  simp only [h.loose]

theorem Same.shrinks (h : Same s s') : Shrinks s s' :=
  ⟨fun id hm ↦ by rwa [h.states] at hm, fun id hm ↦ by rwa [h.looseIds] at hm⟩

/-! ## What shrinks a store -/

theorem deleteEntry_queue_of_ne {id' : ResponseId} (h : id' ≠ id) (s : ResponseStore) :
    (deleteEntry E id s).pendingResponseSpillById.get? id' =
      s.pendingResponseSpillById.get? id' := by
  cases hget : s.states.get? id with
  | none => rw [deleteEntry_of_none hget]
  | some cell =>
    rw [(same_deleteEntry hget).queue, dropEntry_queue, (same_cancel id s).queue]
    exact OMap.get?_delete_of_ne _ h

theorem shrinks_deleteEntry (id : ResponseId) (s : ResponseStore) :
    Shrinks s (deleteEntry E id s) := by
  refine ⟨fun id' hm ↦ ?_, fun id' hm ↦ ?_⟩
  · rw [deleteEntry_states, OMap.mem_keys] at hm
    obtain ⟨cell, hcell⟩ := hm
    exact OMap.mem_keys.mpr ⟨cell, OMap.get?_of_delete hcell⟩
  · obtain ⟨cell, hcell, hl⟩ := mem_looseIds.mp hm
    rw [deleteEntry_states] at hcell
    have hne : id' ≠ id := by
      intro heq
      rw [heq] at hcell
      exact absurd hcell (by simp)
    rw [loose_congr (deleteEntry_queue_of_ne hne s)] at hl
    exact mem_looseIds.mpr ⟨cell, OMap.get?_of_delete hcell, hl⟩

theorem size_deleteEntry_lt (h : id ∈ s.states.keys) :
    (deleteEntry E id s).states.size < s.states.size := by
  have hsize := OMap.size_delete_of_has (OMap.has_iff_mem_keys.mpr h)
  rw [deleteEntry_states]
  omega

theorem noteOldest_queue (id : ResponseId) (next : StoredResponseState) (s : ResponseStore) :
    (noteOldest id next s).pendingResponseSpillById = s.pendingResponseSpillById := by
  rw [noteOldest]
  split
  · rfl
  · split <;> rfl

/-- An entry that gives way to one that is no resident: its id is not loose any more. -/
theorem shrinks_setEntry (hid : id ∈ s.states.keys) (next : StoredResponseState)
    (hnext : next.isResident = false) : Shrinks s (noteOldest id next (putEntry id next s)) ∧
      id ∉ looseIds (noteOldest id next (putEntry id next s)) := by
  have hget : ∀ id', (noteOldest id next (putEntry id next s)).states.get? id' =
      if id' = id then some ⟨s.nextObject, next⟩ else s.states.get? id' :=
    fun id' ↦ by rw [get?_noteOldest, get?_putEntry]
  have hloose : ∀ id' cell, loose (noteOldest id next (putEntry id next s)) id' cell =
      loose s id' cell := fun id' cell ↦ loose_congr (by rw [noteOldest_queue]; rfl) cell
  have hout : ∀ id' cell, (noteOldest id next (putEntry id next s)).states.get? id' = some cell →
      loose s id' cell = true → id' ≠ id := by
    rintro id' cell hcell hl rfl
    rw [hget, if_pos rfl] at hcell
    obtain rfl := some_inj.mp hcell
    exact absurd (loose_isResident hl) (by simp [hnext])
  refine ⟨⟨fun id' hm ↦ ?_, fun id' hm ↦ ?_⟩, fun hm ↦ ?_⟩
  · obtain ⟨cell, hcell⟩ := OMap.mem_keys.mp hm
    rw [hget] at hcell
    split at hcell
    · rename_i heq; exact heq ▸ hid
    · exact OMap.mem_keys.mpr ⟨cell, hcell⟩
  · obtain ⟨cell, hcell, hl⟩ := mem_looseIds.mp hm
    rw [hloose] at hl
    have hne := hout id' cell hcell hl
    rw [hget, if_neg hne] at hcell
    exact mem_looseIds.mpr ⟨cell, hcell, hl⟩
  · obtain ⟨cell, hcell, hl⟩ := mem_looseIds.mp hm
    rw [hloose] at hl
    exact hout id cell hcell hl rfl

variable {cell : Cell}

theorem shrinks_replaceWithSpillFailure (hget : s.states.get? id = some cell)
    (deferSpillUnlink : Bool) :
    Shrinks s (replaceWithSpillFailure E id (some cell) deferSpillUnlink s) ∧
      id ∉ looseIds (replaceWithSpillFailure E id (some cell) deferSpillUnlink s) := by
  obtain ⟨createdAt, s₀, hsame, hto⟩ := same_replaceWithSpillFailure (E := E)
    deferSpillUnlink (show expects ((some cell).map (·.object)) _ = true from expects_self hget)
  have hid : id ∈ s₀.states.keys := OMap.mem_keys.mpr ⟨cell, hsame.states ▸ hget⟩
  obtain ⟨hsh, hout⟩ := shrinks_setEntry hid (tombstone E id createdAt) rfl
  exact ⟨(hsame.shrinks.trans hsh).trans hto.shrinks, by rwa [hto.looseIds]⟩

variable {entry : ResidentResponseState}

theorem shrinks_demoteNow (hget : s.states.get? id = some cell) :
    Shrinks s (demoteNow E id cell entry s) ∧ id ∉ looseIds (demoteNow E id cell entry s) := by
  have hw := same_writeSpill (E := E) id entry.toResidentInput s
  have hget' : (writeSpill E id entry.toResidentInput s).2.states.get? id = some cell := hget
  rw [demoteNow]
  split
  · obtain ⟨hsh, hout⟩ := shrinks_replaceWithSpillFailure (E := E) hget' false
    exact ⟨hw.shrinks.trans hsh, hout⟩
  · rename_i ref _
    rw [swapResidentForSpill, replaceMapEntry_of_expects (expects_self hget')]
    obtain ⟨hsh, hout⟩ := shrinks_setEntry (OMap.mem_keys.mpr ⟨cell, hget'⟩)
      (stubState E id entry.toResidentInput ref) rfl
    exact ⟨hw.shrinks.trans hsh, hout⟩

theorem shrinks_makeRoom (footprint inherited : ℕ) (s : ResponseStore) :
    Shrinks s (makeRoom E footprint inherited s).2 :=
  makeRoom_keeps (fun _ _ hsame ht ↦ ht.trans hsame.shrinks)
    (fun t id ht _ ↦ ht.trans (shrinks_deleteEntry id t)) (.refl s) footprint inherited

theorem shrinks_cancel (h : id ∈ looseIds s) : Shrinks s (cancelPendingResponseSpill id s).2 := by
  refine .trans ?_ (same_cancel id s).shrinks
  refine ⟨fun _ hm ↦ hm, fun id' hm ↦ ?_⟩
  obtain ⟨cell, hcell, hl⟩ := mem_looseIds.mp hm
  by_cases heq : id' = id
  · exact heq ▸ h
  · rw [loose_unqueue_of_ne heq] at hl
    exact mem_looseIds.mpr ⟨cell, hcell, hl⟩

variable {candidate : ResidentResponseState} {ref : Option ResponseSpillRef}

theorem shrinks_enqueue (hget : s.states.get? id = some cell) :
    Shrinks s (enqueue E id cell candidate ref s) ∧
      id ∉ looseIds (enqueue E id cell candidate ref s) := by
  have hother : ∀ {id'}, id' ≠ id → ∀ cell', loose (enqueue E id cell candidate ref s) id' cell' =
      loose s id' cell' := fun hne cell' ↦ loose_congr (OMap.get?_set_of_ne _ hne _) cell'
  have hself : loose (enqueue E id cell candidate ref s) id cell = false := by
    simp [loose, spillQueueHoldsResidentCandidate, enqueue, recomputeOldestResident]
  have hout : id ∉ looseIds (enqueue E id cell candidate ref s) := by
    intro hm
    obtain ⟨cell', hcell', hl⟩ := mem_looseIds.mp hm
    obtain rfl := some_inj.mp (hget.symm.trans hcell')
    exact absurd hl (by rw [hself]; simp)
  refine ⟨⟨fun _ hm ↦ hm, fun id' hm ↦ ?_⟩, hout⟩
  obtain ⟨cell', hcell', hl⟩ := mem_looseIds.mp hm
  have hne : id' ≠ id := fun heq ↦ hout (heq ▸ hm)
  rw [hother hne] at hl
  exact mem_looseIds.mpr ⟨cell', hcell', hl⟩

/-- **A loose resident that is queued is loose no more**: it is held, or lost. -/
theorem shrinks_queue (hget : s.states.get? id = some cell) (hres : cell.state.spill? = none)
    (hl : loose s id cell = true) :
    Shrinks s (queuePendingResponseSpill E id cell candidate ref s) ∧
      id ∉ looseIds (queuePendingResponseSpill E id cell candidate ref s) := by
  have hc := shrinks_cancel (mem_looseIds.mpr ⟨cell, hget, hl⟩)
  have hget' := (cancel_get? id id s).trans hget
  have hrefuse : ∀ (inherited : Option ResponseSpillRef) (t : ResponseStore), Shrinks s t →
      t.states.get? id = some cell →
      Shrinks s (deferSupersededSpill E inherited
        (replaceWithSpillFailure E id (some cell) false t)) ∧
      id ∉ looseIds (deferSupersededSpill E inherited
        (replaceWithSpillFailure E id (some cell) false t)) := by
    intro inherited t ht hcell
    have hsame := same_deferSupersededSpill (E := E) inherited
      (replaceWithSpillFailure E id (some cell) false t)
    obtain ⟨hsh, hout⟩ := shrinks_replaceWithSpillFailure (E := E) hcell false
    exact ⟨(ht.trans hsh).trans hsame.shrinks, by rwa [hsame.looseIds]⟩
  have hm := fun footprint inherited ↦ hc.trans (shrinks_makeRoom (E := E) footprint inherited _)
  have hgm := makeRoom_get? (E := E) hget' hres
  rw [queuePendingResponseSpill]
  dsimp only
  split
  · exact hrefuse _ _ hc hget'
  split
  · obtain ⟨hsh, hout⟩ := shrinks_enqueue (E := E) (hgm _ _)
    exact ⟨(hm _ _).trans hsh, hout⟩
  · exact hrefuse _ _ (hm _ _) (hgm _ _)

theorem shrinks_demote (hget : s.states.get? id = some cell)
    (hres : cell.state.resident? = some entry) (hl : loose s id cell = true) :
    Shrinks s (demote E id cell entry s) ∧ id ∉ looseIds (demote E id cell entry s) := by
  rw [demote]
  split
  · exact shrinks_queue hget (by rw [eq_of_resident? hres]; rfl) hl
  · exact shrinks_demoteNow hget

/-! ## The turns of the two loops -/

theorem countStep_spec (h : countStep E s = some s') :
    Shrinks s s' ∧ s'.states.size < s.states.size := by
  rw [countStep] at h
  split at h
  case isFalse => cases h
  split at h
  · cases h
  rename_i oldest hhead
  split at h
  · cases h
  · obtain rfl := some_inj.mp h
    exact ⟨shrinks_deleteEntry oldest s, size_deleteEntry_lt (mem_of_head? hhead)⟩

theorem byteMeasure_deleteEntry_lt (h : id ∈ s.states.keys) :
    byteMeasure (deleteEntry E id s) < byteMeasure s := by
  have hsize := size_deleteEntry_lt (E := E) h
  have hloose := (shrinks_deleteEntry (E := E) id s).loose_le
  rw [byteMeasure, byteMeasure]
  omega

theorem Shrinks.byteMeasure_lt (h : Shrinks s s') (hin : id ∈ looseIds s)
    (hout : id ∉ looseIds s') : byteMeasure s' < byteMeasure s :=
  Nat.add_lt_add_of_le_of_lt h.size_le (h.loose_lt hin hout)

/-- **What a turn of the second loop does**: an entry goes, or a loose resident does. -/
theorem byteStep_spec (h : byteStep E s = some s') : Shrinks s s' ∧ byteMeasure s' < byteMeasure s := by
  rw [byteStep] at h
  split at h
  case isFalse => cases h
  split at h
  · rename_i id cell hfind
    obtain ⟨hget, hl⟩ := oldestLoose_spec hfind
    split at h
    · cases h
    split at h
    · rename_i entry hres
      obtain rfl := some_inj.mp h
      obtain ⟨hsh, hout⟩ := shrinks_demote (E := E) hget hres hl
      exact ⟨hsh, hsh.byteMeasure_lt (mem_looseIds.mpr ⟨cell, hget, hl⟩) hout⟩
    · obtain rfl := some_inj.mp h
      exact ⟨shrinks_deleteEntry id s, byteMeasure_deleteEntry_lt (OMap.mem_keys.mpr ⟨cell, hget⟩)⟩
  split at h
  · cases h
  split at h
  · cases h
  rename_i id hhead
  split at h
  · cases h
  · obtain rfl := some_inj.mp h
    exact ⟨shrinks_deleteEntry id s, byteMeasure_deleteEntry_lt (mem_of_head? hhead)⟩

/-! ## The loops end -/

theorem pruneLoop_exits {step : ResponseStore → Option ResponseStore} {P : ResponseStore → Prop}
    {μ : ResponseStore → ℕ} (hP : ∀ s s', P s → step s = some s' → P s')
    (hμ : ∀ s s', step s = some s' → μ s' < μ s) (hs : P s) :
    Loop.Exits step s (pruneLoop step (μ s) s) ∧ P (pruneLoop step (μ s) s) := by
  have hexit := Loop.run_exits hP (fun s s' _ ↦ hμ s s') hs (le_refl (μ s))
  have heq : pruneLoop step (μ s) s = Loop.run step (μ s) s := by
    rw [pruneLoop]
    simp [hexit.left]
  rw [heq]
  exact ⟨hexit, Loop.run_preserves hP hs _⟩

theorem countLoop_exits (h : Sound ok ∅ s) :
    Loop.Exits (countStep E) s (boundCount E s) ∧ Sound ok ∅ (boundCount E s) ∧
      Shrinks s (boundCount E s) :=
  pruneLoop_exits (P := fun t ↦ Sound ok ∅ t ∧ Shrinks s t) (μ := fun t ↦ t.states.size)
    (fun _ _ ⟨ht, hsh⟩ hstep ↦ ⟨(upheld_sound E ok).countStep ht hstep, hsh.trans (countStep_spec hstep).1⟩)
    (fun _ _ hstep ↦ (countStep_spec hstep).2) ⟨h, .refl s⟩

theorem byteLoop_exits (h : Sound ok ∅ s) :
    Loop.Exits (byteStep E) s (boundBytes E s) ∧ Sound ok ∅ (boundBytes E s) ∧
      Shrinks s (boundBytes E s) :=
  pruneLoop_exits (P := fun t ↦ Sound ok ∅ t ∧ Shrinks s t) (μ := byteMeasure)
    (fun _ _ ⟨ht, hsh⟩ hstep ↦ ⟨(upheld_sound E ok).byteStep ht hstep, hsh.trans (byteStep_spec hstep).1⟩)
    (fun _ _ hstep ↦ (byteStep_spec hstep).2) ⟨h, .refl s⟩

/-! ## The bounds -/

variable (E) in
/-- At most so many entries, and the bytes within the cap or every resident held. -/
structure Within (s : ResponseStore) : Prop where
  count : s.states.size ≤ MAX_STORED_RESPONSES
  bytes : s.storedResponseBytes ≤ E.byteCap ∨ looseIds s = []

theorem overfull_eq_false (h : Within E s) : overfull E s = false := by
  rw [overfull, Bool.or_eq_false_iff, Bool.and_eq_false_iff]
  refine ⟨decide_eq_false (by have := h.count; omega), h.bytes.imp (fun hle ↦ ?_) fun hnil ↦ ?_⟩
  · exact decide_eq_false (by omega)
  · rw [List.any_eq_false]
    intro entry hm hl
    have hin : entry.1 ∈ looseIds s := mem_looseIds.mpr ⟨entry.2, OMap.mem_entries.mp hm, hl⟩
    rw [hnil] at hin
    exact absurd hin not_mem_nil

theorem Within.of_same (h : Within E s) (hsame : Same s s') : Within E s' :=
  ⟨by rw [hsame.states]; exact h.count, by rw [hsame.stored, hsame.looseIds]; exact h.bytes⟩

theorem dropEntry_stored_le (id : ResponseId) (existing : StoredResponseState) (s : ResponseStore) :
    (dropEntry id existing s).storedResponseBytes ≤ s.storedResponseBytes := by
  have hle : ((s.storedResponseBytes : ℤ) - existing.sizeBytes + (0 : ℕ)).toNat ≤
      s.storedResponseBytes := by omega
  rw [dropEntry]
  split <;> exact hle

theorem Within.deleteEntry (h : Within E s) (id : ResponseId) : Within E (deleteEntry E id s) := by
  have hsh := shrinks_deleteEntry (E := E) id s
  refine ⟨hsh.size_le.trans h.count, h.bytes.imp (fun hle ↦ ?_) fun hnil ↦ ?_⟩
  · cases hget : s.states.get? id with
    | none => rwa [deleteEntry_of_none hget]
    | some cell =>
      rw [(same_deleteEntry hget).stored]
      refine (dropEntry_stored_le _ _ _).trans ?_
      rw [(same_cancel id s).stored]
      exact hle
  · exact eq_nil_iff_forall_not_mem.mpr fun id' hm ↦ by
      have hin := hsh.loose id' hm
      rw [hnil] at hin
      exact absurd hin not_mem_nil

theorem Within.enforce (h : Within E s) (headroom : Headroom) :
    Within E (enforceSpilledResponseBudget E headroom s).2 :=
  enforce_keeps (fun _ _ hsame ht ↦ ht.of_same hsame) (fun _ id ht _ ↦ ht.deleteEntry id) h headroom

/-- **Where the loops are left, the store is within its bounds**, if it is clear of the empty id. -/
theorem within_of_left (hclear : ([] : ResponseId) ∉ s.states.keys)
    (hcount : s.states.size ≤ MAX_STORED_RESPONSES) (hbyte : byteStep E s = none) : Within E s := by
  refine ⟨hcount, ?_⟩
  rw [byteStep] at hbyte
  split at hbyte
  case isFalse hcond =>
    rw [not_and_or] at hcond
    refine hcond.imp (fun hle ↦ by omega) fun hempty ↦ ?_
    have hnil : s.states.entries = [] := length_eq_zero_iff.mp (by rw [OMap.size] at hempty; omega)
    rw [looseIds, hnil]
    rfl
  split at hbyte
  · rename_i id cell hfind
    obtain ⟨hget, -⟩ := oldestLoose_spec hfind
    split at hbyte
    · rename_i hid
      exact absurd (OMap.mem_keys.mpr ⟨cell, hget⟩) (hid ▸ hclear)
    split at hbyte
    · cases hbyte
    · cases hbyte
  · rename_i hfind
    right
    rw [oldestLoose, List.find?_eq_none] at hfind
    rw [looseIds, filter_eq_nil_iff.mpr hfind]
    rfl

theorem count_of_left (hclear : ([] : ResponseId) ∉ s.states.keys) (hcount : countStep E s = none) :
    s.states.size ≤ MAX_STORED_RESPONSES := by
  by_contra hlt
  rw [countStep, if_pos (by omega)] at hcount
  split at hcount
  · rename_i hhead
    rw [head?_eq_none_iff] at hhead
    have hsize := OMap.length_keys s.states
    rw [hhead] at hsize
    simp at hsize
    omega
  · rename_i oldest hhead
    split at hcount
    · rename_i hid
      exact hclear (hid ▸ mem_of_head? hhead)
    · cases hcount

/-- **Pruning terminates, keeps the accounts right, and ends within the bounds** of a store that is
clear of the empty id. -/
theorem Sound.pruneResponses (h : Sound ok ∅ s) : Sound ok ∅ (pruneResponses E s) := by
  have hlive : Sound ok ∅ (Responses.expire E (now E s).1 s.states.keys (now E s).2).2 :=
    (upheld_sound E ok).expire ((upheld_sound E ok).same (same_tick s) h)
  rw [Responses.pruneResponses]
  generalize (Responses.expire E (now E s).1 s.states.keys (now E s).2).2 = live at hlive
  obtain ⟨hleft₁, hs₁, -⟩ := countLoop_exits (E := E) hlive
  generalize boundCount E live = s₁ at hleft₁ hs₁
  obtain ⟨hleft₂, hs₂, hsh⟩ := byteLoop_exits (E := E) hs₁
  generalize boundBytes E s₁ = s₂ at hleft₂ hs₂ hsh
  have hs₃ := (upheld_sound E ok).enforce none hs₂
  refine ⟨⟨hs₃.stored, hs₃.resident, hs₃.unclamped, hs₃.cells, hs₃.jobs, hs₃.finished, hs₃.ids,
    fun hok ↦ ?_⟩, ⟨hs₃.oldest.unnamed, hs₃.oldest.named⟩⟩
  have hclear : ∀ t : ResponseStore, Sound ok ∅ t → ([] : ResponseId) ∉ t.states.keys :=
    fun t ht hm ↦ hok (let ⟨cell, hcell⟩ := OMap.mem_keys.mp hm; ht.ids [] cell hcell)
  have hwithin : Within E s₂ := within_of_left (hclear _ hs₂)
    (hsh.size_le.trans (count_of_left (hclear _ hs₁) hleft₁.left)) hleft₂.left
  change (_ || _) = false
  rw [hs₃.within hok, overfull_eq_false (hwithin.enforce none)]
  rfl

end Responses
