import Mathlib.Data.List.DropRight
import OpenCodex.Responses.Bounds

/-!
# Where the contents of the store come from

A continuation changes its form many times: it is in memory, queued, in a spill file, in a row of the
snapshot and in memory again, and every change builds a new record.  `Genuine G s` says of all these
forms at once that they go back to a continuation `G` has under that very id.  What is compared is
what a replay depends on (`Alike`): the items, the task up to blanks, and whether the continuation
was kept for a tool call only.

A spill file is referred to by its digest, so what is read back is what was written as long as the
digests are `CollisionFree` and `JSON.parse` undoes `JSON.stringify` (`ReadsBack`).  Nothing else is
assumed of the disk.
-/

set_option autoImplicit false

open Option

open Json

namespace Responses

/-! ## Continuations that replay alike -/

/-- Two continuations that are replayed in the same way. -/
structure ResidentInput.Alike (e e' : ResidentInput) : Prop where
  items : e'.items = e.items
  thread : normalizedClientThreadId (e'.clientThreadId.map .str) =
    normalizedClientThreadId (e.clientThreadId.map .str)
  unforced : e'.unforcedStoreFalse = e.unforcedStoreFalse

theorem ResidentInput.Alike.refl (e : ResidentInput) : e.Alike e := ⟨rfl, rfl, rfl⟩

theorem ResidentInput.Alike.trans {e e' e'' : ResidentInput} (h : e.Alike e') (h' : e'.Alike e'') :
    e.Alike e'' :=
  ⟨h'.items.trans h.items, h'.thread.trans h.thread, h'.unforced.trans h.unforced⟩

variable (E : StoreEnv) (G : ResponseId → ResidentInput → Prop)

/-- A continuation of this id is replayed like this one. -/
def Recalls (id : ResponseId) (e : ResidentInput) : Prop := ∃ e₀, G id e₀ ∧ e₀.Alike e

/-- The digest is that of the text of such a continuation. -/
def Backed (id : ResponseId) (ref : ResponseSpillRef) : Prop :=
  ∃ e text, Recalls G id e ∧ serializedSpill E id e = some text ∧ ref.digest = E.sha256 text

/-- What an entry says goes back to a continuation of its id. -/
def GenuineState (id : ResponseId) : StoredResponseState → Prop
  | .resident state => Recalls G id state.toResidentInput
  | .spill state => Backed E G id state.spill
  | .failed _ => True

/-- What a row of a snapshot says goes back to a continuation of its id. -/
structure GenuineRow (id : ResponseId) (row : Json) : Prop where
  items : ∀ items createdAt providers, row.field? (js "items") = some (.arr items) →
    Recalls G id ⟨rowHead row createdAt items.length providers, items⟩
  spill : ∀ ref, (row.field? (js "spill")).bind spillRef? = some ref → Backed E G id ref

/-- Whatever the store could give back under an id goes back to a continuation of that id. -/
structure Genuine (s : ResponseStore) : Prop where
  entries : ∀ id cell, s.states.get? id = some cell → GenuineState E G id cell.state
  jobs : ∀ id job, s.pendingResponseSpillById.get? id = some job →
    Recalls G id job.candidate.toResidentInput
  publication : ∀ p, s.publication = some p → Recalls G p.id p.candidate.toResidentInput
  rows : ∀ row ∈ s.snapshot, GenuineRow E G row.1 row.2

variable {E G} {s s' : ResponseStore} {id : ResponseId} {e e' : ResidentInput}

theorem Recalls.alike (h : Recalls G id e) (halike : e.Alike e') : Recalls G id e' :=
  let ⟨e₀, hG, h₀⟩ := h
  ⟨e₀, hG, h₀.trans halike⟩

theorem Recalls.self (h : G id e) : Recalls G id e := ⟨e, h, .refl e⟩

variable {G' : ResponseId → ResidentInput → Prop}

theorem Recalls.mono (hmono : ∀ id e, G id e → G' id e) (h : Recalls G id e) : Recalls G' id e :=
  let ⟨e₀, hG, h₀⟩ := h
  ⟨e₀, hmono id e₀ hG, h₀⟩

variable {ref : ResponseSpillRef}

theorem Backed.mono (hmono : ∀ id e, G id e → G' id e) (h : Backed E G id ref) :
    Backed E G' id ref :=
  let ⟨e, text, he, htext⟩ := h
  ⟨e, text, he.mono hmono, htext⟩

variable {state : StoredResponseState}

theorem GenuineState.mono (hmono : ∀ id e, G id e → G' id e) (h : GenuineState E G id state) :
    GenuineState E G' id state := by
  cases state with
  | resident state => exact .mono hmono h
  | spill state => exact .mono hmono h
  | failed state => trivial

theorem Genuine.mono (hmono : ∀ id e, G id e → G' id e) (h : Genuine E G s) : Genuine E G' s where
  entries := fun id cell hget ↦ (h.entries id cell hget).mono hmono
  jobs := fun id job hjob ↦ (h.jobs id job hjob).mono hmono
  publication := fun p hp ↦ (h.publication p hp).mono hmono
  rows := fun row hrow ↦ ⟨fun items createdAt providers hitems ↦
    ((h.rows row hrow).items items createdAt providers hitems).mono hmono,
    fun ref href ↦ ((h.rows row hrow).spill ref href).mono hmono⟩

/-! ## Reading a continuation back -/

theorem lookup_optional (name name' : JsString) (v : Option Json) :
    lookup (optional name v) name' = if name = name' then v else none := by
  cases v <;> by_cases h : name = name' <;> simp [optional, lookup, h]

theorem lookup_members_items (e : ResidentInput) :
    lookup e.members (js "items") = some (.arr e.items) := by
  simp +decide [ResidentInput.members, EntryHead.thread, EntryHead.rest, lookup_cons, lookup_append,
    lookup_optional]

theorem lookup_members_thread (e : ResidentInput) :
    lookup e.members (js "clientThreadId") = (e.clientThreadId.filter (· ≠ [])).map .str := by
  simp +decide [ResidentInput.members, EntryHead.thread, EntryHead.rest, lookup_cons, lookup_append,
    lookup_optional]

theorem lookup_members_unforced (e : ResidentInput) : lookup e.members (js "unforcedStoreFalse") =
      if e.unforcedStoreFalse then some (.bool true) else none := by
  simp +decide [ResidentInput.members, EntryHead.thread, EntryHead.rest, lookup_cons, lookup_append,
    lookup_optional]

theorem lookup_members_spill (e : ResidentInput) : lookup e.members (js "spill") = none := by
  simp +decide [ResidentInput.members, EntryHead.thread, EntryHead.rest, lookup_cons, lookup_append,
    lookup_optional]

theorem lookup_stubMembers_items (e : EntryHead) (ref : ResponseSpillRef) :
    lookup (stubMembers e ref) (js "items") = none := by
  simp +decide [stubMembers, EntryHead.thread, EntryHead.rest, lookup_cons, lookup_append,
    lookup_optional]

theorem lookup_stubMembers_spill (e : EntryHead) (ref : ResponseSpillRef) :
    lookup (stubMembers e ref) (js "spill") = some ref.json := by
  simp +decide [stubMembers, EntryHead.thread, EntryHead.rest, lookup_cons, lookup_append,
    lookup_optional]

theorem normalized_filter (thread : Option JsString) :
    normalizedClientThreadId ((thread.filter (· ≠ [])).map .str) =
      normalizedClientThreadId (thread.map .str) := by
  rcases thread with _ | _ | ⟨c, rest⟩ <;> rfl

theorem trim_trim (text : JsString) : trim (trim text) = trim text := by
  have htrim : ∀ t : JsString, trim t = (t.dropWhile isBlank).rdropWhile isBlank := fun t ↦ rfl
  have hself : (trim text).dropWhile isBlank = trim text := by
    rw [List.dropWhile_eq_self_iff]
    intro hpos
    have hbegins : trim text <+: text.dropWhile isBlank := List.rdropWhile_prefix _ _
    rw [hbegins.getElem hpos]
    exact List.dropWhile_get_zero_not _ _ _
  rw [htrim (trim text), hself, htrim text, List.rdropWhile_idempotent]

theorem normalized_normalized (v : Option Json) :
    normalizedClientThreadId ((normalizedClientThreadId v).map .str) =
      normalizedClientThreadId v := by
  rw [normalizedClientThreadId, normalizedClientThreadId]
  cases h : visible? v with
  | none => rfl
  | some text =>
    have hne : trim text ≠ [] := by
      unfold visible? at h
      split at h
      · split at h
        · nomatch h
        · rename_i hne
          exact some_inj.mp h ▸ hne
      · nomatch h
    simp [visible?, trim_trim, hne]

theorem validPayload_says {v : Json} (h : validPayload v id = some e) :
    v.field? (js "items") = some (.arr e.items) ∧
      v.field? (js "clientThreadId") = e.clientThreadId.map .str ∧
      (v.field? (js "unforcedStoreFalse") = none ∧ e.unforcedStoreFalse = false ∨
        v.field? (js "unforcedStoreFalse") = some (.bool e.unforcedStoreFalse)) := by
  rw [validPayload, bind_eq_bind, bind_eq_some_iff] at h
  obtain ⟨members, -, h⟩ := h
  rw [bind_eq_bind, bind_eq_some_iff] at h
  obtain ⟨-, -, h⟩ := h
  split at h
  case h_2 => nomatch h
  rename_i version responseId createdAt items _ _ _ hitems
  rw [bind_eq_bind, bind_eq_some_iff] at h
  obtain ⟨-, -, h⟩ := h
  extract_lets providers built at h
  have hbuilt : ∀ thread, built thread = some e → e.items = items ∧ e.clientThreadId = thread ∧
        (v.field? (js "unforcedStoreFalse") = none ∧ e.unforcedStoreFalse = false ∨
          v.field? (js "unforcedStoreFalse") = some (.bool e.unforcedStoreFalse)) := by
    intro thread hsome
    simp only [built] at hsome
    split at hsome
    · rename_i hnone
      split at hsome
      · simp only [bind_eq_bind, bind_eq_some_iff, some_inj] at hsome
        obtain ⟨_, rfl, _, rfl, -, -, -, -, rfl⟩ := hsome
        exact ⟨rfl, rfl, .inl ⟨hnone, rfl⟩⟩
      · simp only [bind_eq_bind, bind_eq_some_iff, some_inj] at hsome
        obtain ⟨_, rfl, _, -, -, -, -, -, rfl⟩ := hsome
        exact ⟨rfl, rfl, .inl ⟨hnone, rfl⟩⟩
    · rename_i kept hkept
      split at hsome
      · simp only [bind_eq_bind, bind_eq_some_iff, some_inj] at hsome
        obtain ⟨_, rfl, _, rfl, -, -, -, -, rfl⟩ := hsome
        exact ⟨rfl, rfl, .inr hkept⟩
      · simp only [bind_eq_bind, bind_eq_some_iff, some_inj] at hsome
        obtain ⟨_, rfl, _, -, -, -, -, -, rfl⟩ := hsome
        exact ⟨rfl, rfl, .inr hkept⟩
    · nomatch hsome
  split at h
  · rename_i hnone
    obtain ⟨hi, ht, hu⟩ := hbuilt _ h
    exact ⟨hi ▸ hitems, by rw [hnone, ht, map_none], hu⟩
  · rename_i thread hthread
    split at h
    · nomatch h
    · obtain ⟨hi, ht, hu⟩ := hbuilt _ h
      exact ⟨hi ▸ hitems, by rw [hthread, ht, map_some], hu⟩
  · nomatch h

theorem alike_of_validPayload {id' : ResponseId}
    (h : validPayload (spillPayload id e) id' = some e') : e.Alike e' := by
  obtain ⟨hitems, hthread, hunforced⟩ := validPayload_says h
  have hfield : ∀ name, name ≠ js "version" → name ≠ js "responseId" →
      (spillPayload id e).field? name = lookup e.members name := by
    intro name hversion hid
    simp [spillPayload, field?, members?, lookup_cons, hversion.symm, hid.symm]
  rw [hfield _ (by decide) (by decide), lookup_members_items] at hitems
  rw [hfield _ (by decide) (by decide), lookup_members_thread] at hthread
  rw [hfield _ (by decide) (by decide), lookup_members_unforced] at hunforced
  refine ⟨(Json.arr.inj (some_inj.mp hitems)).symm, ?_, ?_⟩
  · rw [← hthread, normalized_filter]
  · cases hkept : e.unforcedStoreFalse <;> simpa [hkept] using hunforced

/-- No file has the digest of a continuation that was written without having its text. -/
def CollisionFree (E : StoreEnv) : Prop := ∀ tick fileName text id e written,
  E.readFile tick fileName = .contents text → serializedSpill E id e = some written →
    E.sha256 text = E.sha256 written → text = written

/-- `JSON.parse` gives back what `JSON.stringify` wrote. -/
def ReadsBack (E : StoreEnv) : Prop := ∀ v text, E.stringify v = some text → parse text = some v

/-- **A spill file is read back as what was remembered**, or not at all. -/
theorem Backed.recalls_of_read (hdigest : CollisionFree E) (hparse : ReadsBack E) {tick : ℕ}
    (h : Backed E G id ref) (hread : readResponseSpill E tick id ref = .ok e) : Recalls G id e := by
  obtain ⟨e₀, written, hrecalls, hwritten, href⟩ := h
  rw [readResponseSpill] at hread
  split at hread
  · nomatch hread
  split at hread
  · nomatch hread
  split at hread
  · nomatch hread
  split at hread
  · nomatch hread
  split at hread
  · nomatch hread
  · nomatch hread
  rename_i text htext
  split at hread
  · nomatch hread
  rename_i hsame
  obtain ⟨-, hdig⟩ := not_or.mp hsame
  obtain rfl : text = written := hdigest _ _ _ _ _ _ htext hwritten ((not_not.mp hdig).trans href)
  split at hread
  · nomatch hread
  rename_i e₁ hvalid
  obtain rfl : e₁ = e := by simpa using hread
  rw [hparse _ _ hwritten, bind_some] at hvalid
  exact hrecalls.alike (alike_of_validPayload hvalid)

theorem spillRef?_json {ref' : ResponseSpillRef} (h : spillRef? ref.json = some ref') :
    ref'.digest = ref.digest := by
  have hfields : ref.json.field? (js "version") = some (.num 1) ∧
      ref.json.field? (js "fileName") = some (.str ref.fileName) ∧
      ref.json.field? (js "digest") = some (.str ref.digest) ∧
      ref.json.field? (js "payloadBytes") = some (.num ref.payloadBytes) := by
    refine ⟨?_, ?_, ?_, ?_⟩ <;>
      simp +decide [ResponseSpillRef.json, field?, members?, lookup_cons]
  obtain ⟨hversion, hname, hdigest, hbytes⟩ := hfields
  rw [spillRef?, hversion, hname, hdigest, hbytes] at h
  dsimp only at h
  split at h
  · obtain ⟨bytes, -, rfl⟩ := map_eq_some_iff.mp h
    rfl
  · nomatch h

theorem GenuineState.row (h : GenuineState E G id state) :
    GenuineRow E G id (snapshotRow state) := by
  cases state with
  | resident state =>
    refine ⟨fun items createdAt providers hitems ↦ ?_, fun ref href ↦ ?_⟩
    · have hfield : ∀ name, (snapshotRow (.resident state)).field? name =
          lookup state.members name := fun name ↦ rfl
      rw [hfield, lookup_members_items] at hitems
      refine .alike h ⟨(Json.arr.inj (some_inj.mp hitems)).symm, ?_, ?_⟩
      · rw [rowHead, hfield, lookup_members_thread, normalized_normalized, normalized_filter]
      · simp only [rowHead, hfield, lookup_members_unforced]
        cases state.unforcedStoreFalse <;> rfl
    · rw [snapshotRow, field?, members?, bind_some, lookup_members_spill] at href
      nomatch href
  | spill state =>
    refine ⟨fun items createdAt providers hitems ↦ ?_, fun ref href ↦ ?_⟩
    · rw [snapshotRow, field?, members?, bind_some, lookup_stubMembers_items] at hitems
      nomatch hitems
    · rw [snapshotRow, field?, members?, bind_some, lookup_stubMembers_spill] at href
      obtain ⟨e, text, he, htext, hdigest⟩ := h
      exact ⟨e, text, he, htext, (spillRef?_json href).trans hdigest⟩
  | failed state =>
    refine ⟨fun items createdAt providers hitems ↦ ?_, fun ref href ↦ ?_⟩
    · have hnone : (snapshotRow (.failed state)).field? (js "items") = none := rfl
      exact absurd (hnone.symm.trans hitems) (by simp)
    · have hnone : (snapshotRow (.failed state)).field? (js "spill") = none := rfl
      nomatch href

end Responses
