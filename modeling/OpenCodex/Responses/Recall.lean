import OpenCodex.Responses.Genuine

/-!
# Every operation keeps the contents genuine

What is put into the store is the continuation that is remembered, or one that the store had already
in another form: the resident that is demoted or queued, the candidate of a publication, the row of
the snapshot that is loaded.  So the contents stay genuine within every operation
(`upheld_genuine`), and over every step (`Genuine.storeStep`).
-/

set_option autoImplicit false

open Option

open Json

namespace Responses

variable {E : StoreEnv} {G : ResponseId → ResidentInput → Prop} {s s' : ResponseStore}
  {id : ResponseId} {e : ResidentInput}

/-! ## Putting and deleting entries -/

theorem Genuine.putEntry {next : StoredResponseState} (h : Genuine E G s)
    (hnext : GenuineState E G id next) : Genuine E G (putEntry id next s) where
  entries := by
    intro id' cell hget
    rw [get?_putEntry] at hget
    split at hget
    · rename_i heq
      obtain rfl := some_inj.mp hget
      exact heq ▸ hnext
    · exact h.entries id' cell hget
  jobs := h.jobs
  publication := h.publication
  rows := h.rows

theorem Genuine.noteOldest (h : Genuine E G s) (id : ResponseId) (next : StoredResponseState) :
    Genuine E G (noteOldest id next s) := by
  unfold Responses.noteOldest
  split_ifs <;> exact ⟨h.entries, h.jobs, h.publication, h.rows⟩

theorem Genuine.dropEntry (h : Genuine E G s) (id : ResponseId) (existing : StoredResponseState) :
    Genuine E G (dropEntry id existing s) := by
  have hentries : ∀ id' cell, (s.states.delete id).get? id' = some cell →
      GenuineState E G id' cell.state :=
    fun id' cell hget ↦ h.entries id' cell (OMap.get?_of_delete hget)
  unfold Responses.dropEntry
  dsimp only
  split <;> exact ⟨hentries, h.jobs, h.publication, h.rows⟩

/-! ## Spilling -/

variable {ref : ResponseSpillRef}

theorem Backed.of_write {tick : ℕ} (he : Recalls G id e)
    (hwrite : writeResponseSpillDurably E tick id e = some ref) : Backed E G id ref := by
  obtain ⟨text, htext, hpublish⟩ := bind_eq_some_iff.mp hwrite
  obtain ⟨fileName, -, rfl⟩ := map_eq_some_iff.mp hpublish
  exact ⟨e, text, he, htext, rfl⟩

variable {cell : Cell}

variable {candidate : ResidentResponseState}

theorem Genuine.enqueue {supersededSpill : Option ResponseSpillRef} (h : Genuine E G s)
    (he : Recalls G id candidate.toResidentInput) :
    Genuine E G (enqueue E id cell candidate supersededSpill s) where
  entries := h.entries
  jobs := by
    intro id' job hjob
    have hset : (s.pendingResponseSpillById.set id _).get? id' = some job := hjob
    rw [OMap.get?_set] at hset
    split at hset
    · rename_i heq
      obtain rfl := some_inj.mp hset
      exact heq ▸ he
    · exact h.jobs id' job hset
  publication := h.publication
  rows := h.rows

/-- No id need be skipped. -/
def GenuineBut (E : StoreEnv) (G : ResponseId → ResidentInput → Prop) (_ : Set ResponseId)
    (s : ResponseStore) : Prop := Genuine E G s

/-- **The contents stay genuine** within every operation. -/
theorem upheld_genuine (E : StoreEnv) (G : ResponseId → ResidentInput → Prop) :
    Upheld E (GenuineBut E G) (GenuineState E G) where
  toCore _ s h := by
    refine ⟨h.entries, h.jobs, fun p hp ↦ ?_, h.rows⟩
    obtain ⟨p₀, hp₀, rfl⟩ := map_eq_some_iff.mp hp
    exact h.publication p₀ hp₀
  ofCore _ s h := by
    refine ⟨h.entries, h.jobs, fun p hp ↦ ?_, h.rows⟩
    exact h.publication { p with detached := none } (congrArg (Option.map _) hp)
  mono _ _ h := h
  held h hget := h.entries _ _ hget
  tombstone _ _ := trivial
  stub he hwrite := .of_write he hwrite
  put h hnext := (h.putEntry hnext).noteOldest _ _
  unqueue id h := ⟨h.entries, fun id' job hjob ↦ h.jobs id' job (OMap.get?_of_delete hjob),
    h.publication, h.rows⟩
  drop h _ := h.dropEntry _ _
  enqueue _ h _ he := h.enqueue he

theorem Genuine.pruneLoop {step : ResponseStore → Option ResponseStore} {turns : ℕ}
    (h : Genuine E G s) (hstep : ∀ t t', Genuine E G t → step t = some t' → Genuine E G t') :
    Genuine E G (pruneLoop step turns s) :=
  have hrun := Loop.run_preserves (P := Genuine E G) hstep h turns
  ⟨hrun.entries, hrun.jobs, hrun.publication, hrun.rows⟩

theorem Genuine.pruneResponses (h : Genuine E G s) : Genuine E G (pruneResponses E s) := by
  have hU := upheld_genuine E G
  have hlive : Genuine E G (Responses.expire E (now E s).1 s.states.keys (now E s).2).2 :=
    hU.expire (hU.same (same_tick s) h)
  rw [Responses.pruneResponses]
  generalize (Responses.expire E (now E s).1 s.states.keys (now E s).2).2 = live at hlive
  have hcount : Genuine E G (boundCount E live) :=
    hlive.pruneLoop fun _ _ ht hs ↦ hU.countStep ht hs
  generalize boundCount E live = s₁ at hcount
  have hbytes : GenuineBut E G ∅ (boundBytes E s₁) :=
    hcount.pruneLoop fun _ _ ht hs ↦ hU.byteStep ht hs
  generalize boundBytes E s₁ = s₂ at hbytes
  have hbudget : Genuine E G _ := hU.enforce none hbytes
  generalize (enforceSpilledResponseBudget E none s₂).2 = s₃ at hbudget
  exact ⟨hbudget.entries, hbudget.jobs, hbudget.publication, hbudget.rows⟩

/-! ## Expanding and remembering -/

/-- **What an entry is replayed as was remembered under its id.** -/
theorem Genuine.materializeEntry (hdigest : CollisionFree E) (hparse : ReadsBack E)
    (h : Genuine E G s) (hget : s.states.get? id = some cell)
    (he : (materializeEntry E id cell s).1 = .ok e) : Recalls G id e := by
  have hstate := h.entries id cell hget
  unfold Responses.materializeEntry at he
  split at he
  · rename_i state hcell
    rw [hcell] at hstate
    obtain rfl : state.toResidentInput = e := by simpa using he
    exact hstate
  · nomatch he
  · rename_i stub hcell
    rw [hcell] at hstate
    dsimp only at he
    split at he
    · nomatch he
    rename_i payload hread
    split at he
    · split at he
      · obtain rfl : payload = e := by simpa using he
        exact Backed.recalls_of_read hdigest hparse hstate hread
      · nomatch he
    · nomatch he

/-! ## Publications, snapshots and whole steps -/

theorem Genuine.startPublication (h : Genuine E G s) (hs : startPublication s = some s') :
    Genuine E G s' := by
  unfold Responses.startPublication at hs
  split at hs
  case h_2 => nomatch hs
  rename_i id number tail _ _
  split at hs
  · rename_i job hjob
    split at hs
    · obtain rfl := some_inj.mp hs
      refine ⟨h.entries, fun id' job' hjob' ↦ ?_, fun p hp ↦ ?_, h.rows⟩
      · rw [OMap.get?_set] at hjob'
        split at hjob'
        · rename_i heq
          obtain rfl := some_inj.mp hjob'
          exact heq ▸ h.jobs id job hjob
        · exact h.jobs id' job' hjob'
      · obtain rfl := some_inj.mp hp
        exact h.jobs id job hjob
    · exact some_inj.mp hs ▸ ⟨h.entries, h.jobs, h.publication, h.rows⟩
  · exact some_inj.mp hs ▸ ⟨h.entries, h.jobs, h.publication, h.rows⟩

theorem Genuine.releasePublication (h : Genuine E G s) (p : Publication) :
    Genuine E G (releasePublication p s) := by
  unfold Responses.releasePublication
  split
  · exact ⟨h.entries, fun id job hjob ↦ h.jobs id job (OMap.get?_of_delete hjob),
      fun q hq ↦ absurd hq (by simp [recomputeOldestResident, releaseBytes]), h.rows⟩
  · split <;> exact ⟨h.entries, h.jobs,
      fun q hq ↦ absurd hq (by simp [recomputeOldestResident, releaseBytes]), h.rows⟩

theorem Genuine.snapshot {rows : List (ResponseId × Json)} (h : Genuine E G s)
    (hselected : selectSnapshotEntries E s = some rows) : Genuine E G { s with snapshot := rows } := by
  obtain ⟨kept, -, hkept⟩ := map_eq_some_iff.mp hselected
  refine ⟨h.entries, h.jobs, h.publication, fun row hrow ↦ ?_⟩
  rw [← hkept] at hrow
  obtain ⟨⟨id, cell⟩, hentry, rfl⟩ := List.mem_map.mp hrow
  have hget : s.states.get? id = some cell := OMap.mem_entries.mp (List.mem_filter.mp hentry).1
  exact (h.entries id cell hget).row

theorem Genuine.restart (h : Genuine E G s) : Genuine E G (restart s) where
  entries := fun _ _ hget ↦ nomatch hget
  jobs := fun _ _ hjob ↦ nomatch hjob
  publication := fun _ hp ↦ nomatch hp
  rows := h.rows

theorem genuine_start (tick : ℕ) : Genuine E G (.start [] tick) where
  entries := fun _ _ hget ↦ nomatch hget
  jobs := fun _ _ hjob ↦ nomatch hjob
  publication := fun _ hp ↦ nomatch hp
  rows := fun _ hrow ↦ nomatch hrow

theorem kept_genuine (E : StoreEnv) (G : ResponseId → ResidentInput → Prop) :
    Kept E (GenuineBut E G) (GenuineState E G) where
  toUpheld := upheld_genuine E G
  prune h := h.pruneResponses
  start h hs := h.startPublication hs
  published h hp _ := h.publication _ hp
  release p h := h.releasePublication p
  snapshot h hrows := h.snapshot hrows
  restart h := h.restart

theorem GenuineRow.fits {row : Json} (h : GenuineRow E G id row) :
    RowFits E (GenuineState E G) id row where
  tombstone _ := trivial
  resident items createdAt providers _ hitems := h.items items createdAt providers hitems
  spill _ ref _ href := h.spill ref href

theorem Genuine.fits (h : Genuine E G s) (_ : s.loaded = false) :
    ∀ row ∈ s.snapshot, RowFits E (GenuineState E G) row.1 row.2 :=
  fun row hrow ↦ (h.rows row hrow).fits

theorem Genuine.ensureLoaded (h : Genuine E G s) : Genuine E G (ensureLoaded E s) :=
  (kept_genuine E G).ensureLoaded h h.fits

theorem Genuine.expand {body : Json} {clientThreadId : Option JsString} (h : Genuine E G s) :
    Genuine E G (expandPreviousResponseInput E body clientThreadId s).2 :=
  (kept_genuine E G).expand h h.fits

theorem Genuine.remember {requestBody response : Json} {providers : List (JsString × Json)}
    {options : RememberOptions} (h : Genuine E G s)
    (he : ∀ id entry, continuationOf requestBody response providers options 0 = some (id, entry) →
      Recalls G id entry) :
    Genuine E G (rememberResponseState E requestBody response providers options s) :=
  (kept_genuine E G).remember h (fun id entry hc _ _ ↦ (he id entry hc).alike ⟨rfl, rfl, rfl⟩) h.fits

/-- **Every step keeps the contents genuine**, if what it remembers is. -/
theorem Genuine.storeStep {event : StoreEvent} (h : Genuine E G s)
    (he : ∀ requestBody response providers options id entry,
      event = .remember requestBody response providers options →
      continuationOf requestBody response providers options 0 = some (id, entry) →
      Recalls G id entry) (hs : storeStep E s event = some s') : Genuine E G s' :=
  (kept_genuine E G).storeStep h (fun _ _ _ _ id entry hevent hc _ _ ↦
      (he _ _ _ _ id entry hevent hc).alike ⟨rfl, rfl, rfl⟩)
    h.fits hs

end Responses
