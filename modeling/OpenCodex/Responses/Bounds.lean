import OpenCodex.Responses.Pruning

/-!
# The accounts over whole runs

Every operation of the store keeps its accounts right, and every pruning within an operation ends,
within the bounds if the store is clear of the empty id.  So over any run the counters are exact and
never clamped, the oldest resident is known, and pruning terminates; and in the runs that put nothing
under the empty id, pruning has always brought the store within its bounds (`accounts_exact`).

A response with the empty id is recorded like any other.  But the pruning loops read the id of their
victim, test it for being falsy, and stop (`empty_id_stops_pruning`): nothing behind it is pruned
any more.
-/

set_option autoImplicit false

open List Option

open Json

namespace Responses

variable {E : StoreEnv} {ok : ResponseId → Prop} {s s' : ResponseStore} {id : ResponseId}

/-! ## Publications -/

theorem Sound.requeue {job job' : PendingResponseSpill} (h : Sound ok ∅ s)
    (hjob : s.pendingResponseSpillById.get? id = some job) (hobject : job'.object = job.object) :
    Sound ok ∅ { s with pendingResponseSpillById := s.pendingResponseSpillById.set id job' } := by
  have hloose : ∀ id' cell, loose { s with
      pendingResponseSpillById := s.pendingResponseSpillById.set id job' } id' cell =
      loose s id' cell := by
    intro id' cell
    rw [loose, loose, spillQueueHoldsResidentCandidate, spillQueueHoldsResidentCandidate,
      OMap.get?_set]
    by_cases heq : id' = id
    · simp only [heq, if_true, hjob, hobject]
    · rw [if_neg heq]
  refine ⟨⟨h.stored, h.resident, h.unclamped, h.cells, fun id' job₁ hjob₁ ↦ ?_, h.finished,
    h.ids, h.within⟩, ⟨fun hnone ↦ ⟨(h.oldest.unnamed hnone).1, fun id' cell hout hget ↦ ?_⟩,
    fun id' hout hid ↦ ?_⟩⟩
  · rw [OMap.get?_set] at hjob₁
    split at hjob₁
    · obtain rfl := some_inj.mp hjob₁
      rw [hobject]
      exact h.jobs id job hjob
    · exact h.jobs id' job₁ hjob₁
  · exact (hloose id' cell).trans ((h.oldest.unnamed hnone).2 id' cell hout hget)
  · obtain ⟨cell, hget, hl, hat, hmin⟩ := h.oldest.named id' hout hid
    exact ⟨cell, hget, (hloose id' cell).trans hl, hat, fun id₁ cell₁ hout₁ hget₁ hl₁ ↦
      hmin id₁ cell₁ hout₁ hget₁ ((hloose id₁ cell₁).symm.trans hl₁)⟩

theorem Sound.startPublication (h : Sound ok ∅ s) (hs : startPublication s = some s') :
    Sound ok ∅ s' := by
  have hpass : ∀ tail, Sound ok ∅ { s with responseSpillPublicationTail := tail } := fun _ ↦
    ⟨⟨h.stored, h.resident, h.unclamped, h.cells, h.jobs, h.finished, h.ids, h.within⟩,
      ⟨h.oldest.unnamed, h.oldest.named⟩⟩
  rw [Responses.startPublication] at hs
  split at hs
  case h_2 => nomatch hs
  rename_i id number tail _ _
  split at hs
  · rename_i job hjob
    split at hs
    · obtain rfl := some_inj.mp hs
      have hq : Sound ok ∅ { s with pendingResponseSpillById :=
          s.pendingResponseSpillById.set id { job with running := true } } := h.requeue hjob rfl
      exact ⟨⟨hq.stored, hq.resident, hq.unclamped, hq.cells, hq.jobs, hq.finished, hq.ids,
        hq.within⟩, ⟨hq.oldest.unnamed, hq.oldest.named⟩⟩
    · exact some_inj.mp hs ▸ hpass tail
  · exact some_inj.mp hs ▸ hpass tail

theorem Sound.releasePublication (h : Sound ok ∅ s) (p : Publication) :
    Sound ok ∅ (releasePublication p s) := by
  rw [Responses.releasePublication]
  split
  · refine Counted.sound_recompute ⟨h.stored, h.resident, h.unclamped, h.cells,
      fun id job hjob ↦ h.jobs id job (OMap.get?_of_delete hjob), h.finished, h.ids, h.within⟩
  · refine Counted.sound_recompute ?_
    split <;> exact ⟨h.stored, h.resident, h.unclamped, h.cells, h.jobs, h.finished, h.ids, h.within⟩

theorem sound_start (ok : ResponseId → Prop) (snapshot : List (ResponseId × Json)) (tick : ℕ) :
    Sound ok ∅ (.start snapshot tick) where
  stored := rfl
  resident := rfl
  unclamped := rfl
  cells := fun _ _ h ↦ nomatch h
  jobs := fun _ _ h ↦ nomatch h
  finished := rfl
  ids := fun _ _ h ↦ nomatch h
  within := fun _ ↦ rfl
  oldest := ⟨fun _ ↦ ⟨rfl, fun _ _ _ h ↦ nomatch h⟩, fun _ _ h ↦ nomatch h⟩

/-! ## Runs -/

theorem kept_sound (E : StoreEnv) (ok : ResponseId → Prop) :
    Kept E (Sound ok) fun id _ ↦ ok id where
  toUpheld := upheld_sound E ok
  prune h := h.pruneResponses
  start h hs := h.startPublication hs
  published h _ hget := h.ids _ _ hget
  release p h := h.releasePublication p
  snapshot h _ := ⟨⟨h.stored, h.resident, h.unclamped, h.cells, h.jobs, h.finished, h.ids, h.within⟩,
    ⟨h.oldest.unnamed, h.oldest.named⟩⟩
  restart _ := sound_start ok _ _

variable (ok) in
/-- The step puts entries only under such ids: the response it remembers, if any, and the rows it
loads. -/
def PutsUnder (s : ResponseStore) (event : StoreEvent) : Prop :=
  (match event with
    | .remember requestBody response providers options => ∀ id entry,
        continuationOf requestBody response providers options 0 = some (id, entry) → ok id
    | _ => True) ∧
  (s.loaded = false → ∀ row ∈ s.snapshot, ok row.1)

/-- **Every operation keeps the accounts right.** -/
theorem sound_step {event : StoreEvent} (h : Sound ok ∅ s) (hputs : PutsUnder ok s event)
    (hs : storeStep E s event = some s') : Sound ok ∅ s' := by
  obtain ⟨hid, hrows⟩ := hputs
  refine (kept_sound E ok).storeStep h ?_
    (fun hloaded row hrow ↦ ⟨fun _ ↦ hrows hloaded row hrow, fun _ _ _ _ _ ↦ hrows hloaded row hrow,
      fun _ _ _ _ ↦ hrows hloaded row hrow⟩) hs
  rintro requestBody response providers options id entry rfl hc - -
  exact hid id entry hc

theorem sound_inductive (E : StoreEnv) (ok : ResponseId → Prop) :
    (continuationStore E).Inductive (PutsUnder ok) (Sound ok ∅) where
  init := by
    rintro _ ⟨snapshot, tick, rfl⟩
    exact sound_start ok snapshot tick
  step := fun _ _ _ h hputs hs ↦ sound_step h hputs hs

/-- What the accounts say. -/
structure Balanced (s : ResponseStore) : Prop where
  /-- The stored bytes are the sum over all entries. -/
  stored : s.storedResponseBytes = s.states.total fun _ cell ↦ cell.state.sizeBytes
  /-- The resident bytes are the sum over the residents. -/
  resident : s.residentResponseBytes = s.states.total fun _ cell ↦ cell.state.residentBytes
  /-- No clamp at zero has acted. -/
  unclamped : s.watch.clamped = false
  /-- Where no resident is named, none is loose. -/
  unnamed : s.oldestResidentId = none →
    ∀ id cell, s.states.get? id = some cell → loose s id cell = false
  /-- The resident that is named is loose, and no loose one is older. -/
  named : ∀ id, s.oldestResidentId = some id → ∃ cell, s.states.get? id = some cell ∧
    loose s id cell = true ∧ ∀ id' cell', s.states.get? id' = some cell' →
      loose s id' cell' = true → cell.state.createdAt ≤ cell'.state.createdAt

theorem Sound.balanced (h : Sound ok ∅ s) : Balanced s where
  stored := h.stored
  resident := h.resident
  unclamped := h.unclamped
  unnamed := fun hnone id cell ↦ (h.oldest.unnamed hnone).2 id cell (Set.notMem_empty id)
  named := fun id hid ↦
    let ⟨cell, hget, hl, _, hmin⟩ := h.oldest.named id (Set.notMem_empty id) hid
    ⟨cell, hget, hl, fun id' cell' ↦ hmin id' cell' (Set.notMem_empty id')⟩

/-- **The accounts are exact and the store is bounded**, in every run that puts nothing under the
empty id: the counters are the sums they stand for, the oldest resident is known, every pruning has
come to its end, and none has left the store over its bounds. -/
theorem accounts_exact (h : (continuationStore E).ReachableIf (PutsUnder (· ≠ [])) s) :
    Balanced s ∧ s.watch.unfinished = false ∧ s.watch.overfull = false := by
  have hsound := (sound_inductive E (· ≠ [])).reachable h
  exact ⟨hsound.balanced, hsound.finished, hsound.within fun hne ↦ hne rfl⟩

/-! ## The empty id -/

theorem utf8Length_ascii {text : JsString} (h : ∀ c ∈ text, c < 0x80) :
    utf8Length text = text.length := by
  induction text with
  | nil => rfl
  | cons c text ih =>
    have hc : c < 0x80 := h c mem_cons_self
    have htext := ih fun d hd ↦ h d (mem_cons_of_mem _ hd)
    have hone : unitBytes c = 1 := if_pos hc
    have hhigh : isHighSurrogate c = false := by
      rw [isHighSurrogate, Bool.and_eq_false_iff, decide_eq_false_iff_not, UInt16.le_iff_toNat_le]
      rw [UInt16.lt_iff_toNat_lt] at hc
      have h80 : (0x80 : UInt16).toNat = 0x80 := rfl
      have hd800 : (0xd800 : UInt16).toNat = 0xd800 := rfl
      omega
    cases text with
    | nil => simp [utf8Length, hone]
    | cons d text =>
      rw [utf8Length, hhigh, htext, hone]
      simp
      omega

theorem quoted_replicate (n : ℕ) : quoted (List.replicate n 0x61) = List.replicate n 0x61 := by
  induction n with
  | zero => rfl
  | succ n ih =>
    cases n with
    | zero => rfl
    | succ n =>
      rw [replicate_succ, replicate_succ, quoted, ← replicate_succ, ih]
      rfl

/-- A value without fractions, signs, truth values and null, that is not nested too deeply. -/
def plainDoc : ℕ → Json → Option Doc
  | 0, _ => none
  | _ + 1, .num q => if q.den = 1 ∧ 0 ≤ q.num then some (.nat q.num.toNat) else none
  | _ + 1, .str s => some (.str s)
  | depth + 1, .arr items => (items.mapM (plainDoc depth)).map .arr
  | depth + 1, .obj members =>
    (members.mapM fun m ↦ (plainDoc depth m.2).map fun d ↦ (m.1, d)).map .obj
  | _ + 1, _ => none

/-- The caps as they are shipped, on a platform without ACLs, with plain values and no disk. -/
def shippedEnv : StoreEnv where
  windows := false
  byteCap := 64 * 1024 * 1024
  spillByteCap := 1024 * 1024 * 1024
  responseSpillPayloadCap := 256 * 1024 * 1024
  stringify v := (plainDoc 5 v).map Doc.render
  sha256 _ := []
  clock _ := 0
  publish _ := none
  unlinkFails _ := false
  existsSync _ _ := false
  readFile _ _ := .missing

/-- Forty million letters. -/
def largeText : JsString := List.replicate 40000000 0x61

def largeItem : Json := .obj [(js "type", .str (js "message")), (js "content", .str largeText)]

/-- A response whose output is one large message. -/
def largeResponse (id : ResponseId) : Json :=
  .obj [(js "id", .str id), (js "output", .arr [largeItem])]

/-- What is remembered of it. -/
def largeEntry : ResidentInput where
  createdAt := 0
  clientThreadId := none
  providerOutputStart := some 0
  providers := none
  unforcedStoreFalse := false
  items := [largeItem]

theorem continuationOf_large (id : ResponseId) :
    continuationOf (.obj []) (largeResponse id) [] ⟨true, none, false, false⟩ 0 =
      some (id, largeEntry) := rfl

/-- The record of a continuation with one message. -/
def messageDoc (id text : JsString) : Doc :=
  .obj [(js "responseId", .str id), (js "createdAt", .nat 0),
    (js "items", .arr [.obj [(js "type", .str (js "message")), (js "content", .str text)]]),
    (js "providerOutputStart", .nat 0)]

theorem render_messageDoc (id text : JsString) : (messageDoc id text).render =
    js "\x7b\"responseId\":\"" ++ (quoted id ++
      (js "\",\"createdAt\":0,\"items\":[\x7b\"type\":\"message\",\"content\":\"" ++
        (quoted text ++ js "\"\x7d],\"providerOutputStart\":0\x7d"))) := by
  have hliteral : ∀ s rest : JsString, literal s ++ rest = 0x22 :: (quoted s ++ 0x22 :: rest) := by
    intro s rest
    simp [literal]
  simp only [messageDoc, Doc.render, renderMembers, renderItems, hliteral, append_assoc,
    cons_append, nil_append]
  rfl

theorem residentSize_large {id : ResponseId} (hquoted : quoted id = id) (hid : ∀ c ∈ id, c < 0x80) :
    residentSize shippedEnv id largeEntry = some (id.length + 40000097) := by
  have hdoc : shippedEnv.stringify (.obj ((js "responseId", .str id) :: largeEntry.members)) =
      some (messageDoc id largeText).render := rfl
  rw [residentSize, serializedBytes, hdoc, map_some, render_messageDoc, hquoted, largeText,
    quoted_replicate, utf8Length_ascii]
  · have hpre : (js "\x7b\"responseId\":\"").length = 15 := by decide +kernel
    have hmid : (js "\",\"createdAt\":0,\"items\":[\x7b\"type\":\"message\",\"content\":\"").length =
        54 := by decide +kernel
    have hpost : (js "\"\x7d],\"providerOutputStart\":0\x7d").length = 28 := by decide +kernel
    simp only [length_append, hpre, hmid, hpost, length_replicate, some_inj]
    omega
  · intro c hc
    have hpre : ∀ c ∈ js "\x7b\"responseId\":\"", c < 0x80 := by decide +kernel
    have hmid : ∀ c ∈ js "\",\"createdAt\":0,\"items\":[\x7b\"type\":\"message\",\"content\":\"",
        c < 0x80 := by decide +kernel
    have hpost : ∀ c ∈ js "\"\x7d],\"providerOutputStart\":0\x7d", c < 0x80 := by decide +kernel
    simp only [mem_append, mem_replicate] at hc
    rcases hc with hc | hc | hc | ⟨-, rfl⟩ | hc
    · exact hpre c hc
    · exact hid c hc
    · exact hmid c hc
    · decide
    · exact hpost c hc

/-- The large response is remembered under an id. -/
def rememberLarge (id : ResponseId) : StoreEvent :=
  .remember (.obj []) (largeResponse id) [] ⟨true, none, false, false⟩

/-- The store with the large response put under an id. -/
def withLarge (id : ResponseId) (sizeBytes : ℕ) (s : ResponseStore) : ResponseStore :=
  let loaded := (now shippedEnv (ensureLoaded shippedEnv s)).2
  setCandidate shippedEnv id { largeEntry with sizeBytes } (loaded.states.get? id) loaded

theorem storeStep_rememberLarge {id : ResponseId} (hquoted : quoted id = id)
    (hid : ∀ c ∈ id, c < 0x80) (s : ResponseStore) :
    storeStep shippedEnv s (rememberLarge id) = some (withLarge id (id.length + 40000097) s) := by
  have hmeasure : measureResidentEntry shippedEnv id largeEntry =
      some { largeEntry with sizeBytes := id.length + 40000097 } := by
    rw [measureResidentEntry, residentSize_large hquoted hid]
    rfl
  have hentry : ({ largeEntry with
      createdAt := (now shippedEnv (ensureLoaded shippedEnv s)).1 } : ResidentInput) = largeEntry :=
    rfl
  rw [rememberLarge, storeStep, rememberResponseState, continuationOf_large]
  dsimp only
  rw [setResidentEntry, hentry, hmeasure]
  rfl

theorem next_rememberLarge {C : ResponseStore → StoreEvent → Prop} {id : ResponseId}
    (hquoted : quoted id = id) (hid : ∀ c ∈ id, c < 0x80) (s : ResponseStore)
    (hC : C s (rememberLarge id)) :
    (continuationStore shippedEnv).Next C s (withLarge id (id.length + 40000097) s) :=
  ⟨rememberLarge id, hC, storeStep_rememberLarge hquoted hid s⟩

theorem start_init (E : StoreEnv) (snapshot : List (ResponseId × Json)) (tick : ℕ) :
    (continuationStore E).init (.start snapshot tick) := ⟨snapshot, tick, rfl⟩

/-- A large response that is remembered under an id of its own. -/
theorem accounts_exact_large : Balanced (withLarge [0x62] 40000098 (.start [] 0)) ∧
      (withLarge [0x62] 40000098 (.start [] 0)).watch.unfinished = false ∧
      (withLarge [0x62] 40000098 (.start [] 0)).watch.overfull = false :=
  accounts_exact ((Machine.ReachableIf.init (start_init shippedEnv [] 0)).next
    (next_rememberLarge rfl (by decide) (.start [] 0) ⟨fun id entry hc ↦ by
      obtain ⟨rfl, -⟩ := Prod.mk.injEq _ _ _ _ ▸ some_inj.mp hc
      exact cons_ne_nil _ _, nofun⟩))

/-- **The empty id stops pruning**: two large responses, the first of them with the empty id, and the
store has more bytes than the cap and no resident that is held. -/
theorem empty_id_stops_pruning : ∃ s, (continuationStore shippedEnv).Reachable s ∧
    shippedEnv.byteCap < s.storedResponseBytes ∧ looseIds s = [[], [0x62]] ∧
    s.watch.overfull = true :=
  ⟨withLarge [0x62] 40000098 (withLarge [] 40000097 (.start [] 0)),
    ((Machine.ReachableIf.init (start_init shippedEnv [] 0)).next
      (next_rememberLarge rfl (by decide) (.start [] 0) trivial)).next
      (next_rememberLarge rfl (by decide) _ trivial),
    by decide +kernel, by decide +kernel, by decide +kernel⟩

end Responses
