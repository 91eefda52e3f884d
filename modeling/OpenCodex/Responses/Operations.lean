import OpenCodex.Data.Machine
import OpenCodex.Responses.Overlap
import OpenCodex.Responses.Store

/-!
# What is done with the continuation store

A turn first *expands* its request: the continuation its `previous_response_id` names is looked up,
read back from its spill file if it has one, and put in front of the new items.  Once the response
is completed, the request and the response are *remembered* under the response's id.  Beside these
there are the periodic sweep, the eviction on behalf of the process-wide memory budget, the
publications of the queue, and the snapshot, which a later process loads.

`continuationStore` is the machine of all of them, in any order.
-/

set_option autoImplicit false

open Json

namespace Responses

variable (E : StoreEnv)

/-! ## Putting a continuation into the store -/

/-- The resident a continuation would be; `none` where it cannot be measured. -/
def measureResidentEntry (id : ResponseId) (entry : ResidentInput) : Option ResidentResponseState :=
  (residentSize E id entry).map fun sizeBytes ↦ { entry with sizeBytes }

/-- Write the continuation that replaces a spilled one, and swap the stubs. -/
def replaceSpillEntryAtomically (id : ResponseId) (expected : Cell)
    (candidate : ResidentResponseState) (s : ResponseStore) : ResponseStore :=
  let written := writeSpill E id candidate.toResidentInput s
  match written.1 with
  | none => replaceWithSpillFailure E id (some expected) true written.2
  | some ref =>
    match replaceMapEntry id (stubState E id candidate.toResidentInput ref)
        (some expected.object) written.2 with
    | none => deleteResponseSpill E ref written.2
    | some s => deferSupersededSpill E expected.state.spill? s

/-- Admit a continuation that is too large for memory: straight to a spill file. -/
def admitOversizedCandidate (id : ResponseId) (candidate : ResidentResponseState)
    (expected : Option Cell) (s : ResponseStore) : ResponseStore :=
  if E.responseSpillPayloadCap < candidate.sizeBytes then
    replaceWithSpillFailure E id expected true s
  else if E.windows then replaceWithPendingResponseSpill E id candidate expected s
  else
    let written := writeSpill E id candidate.toResidentInput s
    match written.1 with
    | none => replaceWithSpillFailure E id expected true written.2
    | some ref =>
      if E.responseSpillPayloadCap < ref.payloadBytes then
        replaceWithSpillFailure E id expected true (deleteResponseSpill E ref written.2)
      else
        match replaceMapEntry id (stubState E id candidate.toResidentInput ref)
            (expected.map (·.object)) written.2 with
        | none => deleteResponseSpill E ref written.2
        | some s => deferSupersededSpill E (expected.bind (·.state.spill?)) s

/-- Put a resident in the place of one that is in memory, or of none. -/
def putResident (id : ResponseId) (candidate : ResidentResponseState) (expected : Option Cell)
    (s : ResponseStore) : ResponseStore :=
  let s := if E.windows then (cancelPendingResponseSpill id s).2 else s
  match replaceMapEntry id (.resident candidate) (expected.map (·.object)) s with
  | none => s
  | some s => pruneResponses E s

/-- The file a queued resident of this id replaced. -/
def spillQueueSupersededSpillFor (id : ResponseId) (s : ResponseStore) : Option ResponseSpillRef :=
  (s.pendingResponseSpillById.get? id).bind (·.supersededSpill)

/-- An entry, if it is spilled. -/
def ifSpilled (expected : Option Cell) : Option Cell := expected.filter (·.state.spill?.isSome)

/-- Put a continuation that was measured under a response id. -/
def setCandidate (id : ResponseId) (candidate : ResidentResponseState) (expected : Option Cell)
    (s : ResponseStore) : ResponseStore :=
  if E.byteCap < candidate.sizeBytes then
    pruneResponses E (admitOversizedCandidate E id candidate expected s)
  else if E.windows ∧
      ((ifSpilled expected).isSome ∨ (spillQueueSupersededSpillFor id s).isSome) then
    pruneResponses E (replaceWithPendingResponseSpill E id candidate expected s)
  else
    match ifSpilled expected with
    | some cell => pruneResponses E (replaceSpillEntryAtomically E id cell candidate s)
    | none => putResident E id candidate expected s

/-- Put a continuation under a response id. -/
def setResidentEntry (id : ResponseId) (entry : ResidentInput) (s : ResponseStore) :
    ResponseStore :=
  let expected := s.states.get? id
  match measureResidentEntry E id entry with
  | none => pruneResponses E (replaceWithSpillFailure E id expected false s)
  | some candidate => setCandidate E id candidate expected s

/-! ## Loading a snapshot -/

/-- A reference as a snapshot has it. -/
def spillRef? (v : Json) : Option ResponseSpillRef :=
  match v.field? (js "version"), v.field? (js "fileName"), v.field? (js "digest"),
      v.field? (js "payloadBytes") with
  | some (.num version), some (.str fileName), some (.str digest), some bytes =>
    if version = 1 ∧ isHex 64 digest then
      (safeIndex bytes MAX_SAFE_INTEGER).map fun payloadBytes ↦ ⟨fileName, digest, payloadBytes⟩
    else none
  | _, _, _, _ => none

/-- Is a value truthy? -/
def truthy : Json → Bool
  | .null => false
  | .bool b => b
  | .num q => q ≠ 0
  | .str s => s ≠ []
  | .arr _ => true
  | .obj _ => true

/-- `value ?? other`. -/
def orElse (v other : Option Json) : Option Json :=
  match v with
  | none => other
  | some .null => other
  | some v => some v

def normalizedClientThreadId (v : Option Json) : Option JsString := (visible? v).map trim

/-- The providers of a row that was written before there were any. -/
def legacyProviders (row : Json) : Option Json :=
  match row.field? (js "conversationId") with
  | some (.str conversationId) =>
    some (.obj [(js "cursor", .obj ((js "conversationId", .str conversationId) ::
      match row.field? (js "cursorCheckpointUsable") with
      | some (.bool b) => [(js "checkpointUsable", .bool b)]
      | _ => []))])
  | _ => none

/-- What all kinds of rows say. -/
def rowHead (row : Json) (createdAt : ℚ) (itemCount : ℕ) (providers : Option Json) : EntryHead where
  createdAt := createdAt
  clientThreadId := normalizedClientThreadId (row.field? (js "clientThreadId"))
  providerOutputStart := (row.field? (js "providerOutputStart")).bind (safeIndex · itemCount)
  providers := providers.filter truthy
  unforcedStoreFalse :=
    match row.field? (js "unforcedStoreFalse") with
    | some (.bool b) => b
    | _ => false

/-- The number of items of a row. -/
def itemCount (row : Json) : ℕ :=
  match row.field? (js "items") with
  | some (.arr items) => items.length
  | _ => 0

/-- A row whose continuation was kept for a tool call must say where its output begins. -/
def EntryHead.anchored (head : EntryHead) : Bool :=
  !head.unforcedStoreFalse || head.providerOutputStart.isSome

/-- Put one row of the snapshot into the store. -/
def loadSnapshotEntry (id : ResponseId) (row : Json) (s : ResponseStore) : ResponseStore :=
  let put := fun next ↦ (replaceMapEntry id next none s).getD s
  match row.field? (js "createdAt") with
  | some (.num createdAt) =>
    match row.field? (js "kind") with
    | some (.str kind) =>
      if kind = js "spill" then
        let head := rowHead row createdAt MAX_SAFE_INTEGER (row.field? (js "providers"))
        match (row.field? (js "spill")).bind spillRef? with
        | some spill =>
          if head.anchored then
            put (.spill { toEntryHead := head, spill, sizeBytes := stubSize E id head spill })
          else s
        | none => s
      else if kind = js "spill-failed" then
        if (rowHead row createdAt (itemCount row) none).anchored then put (tombstone E id createdAt) else s
      else if kind = js "resident" then loadResident createdAt put
      else s
    | some _ => s
    | none => loadResident createdAt put
  | _ => s
where
  loadResident (createdAt : ℚ) (put : StoredResponseState → ResponseStore) : ResponseStore :=
    match row.field? (js "items") with
    | some (.arr items) =>
      let head := rowHead row createdAt items.length
        (orElse (row.field? (js "providers")) (legacyProviders row))
      if head.anchored then
        match measureResidentEntry E id { toEntryHead := head, items } with
        | none => put (tombstone E id createdAt)
        | some resident =>
          if E.byteCap < resident.sizeBytes then admitOversizedCandidate E id resident none s
          else put (.resident resident)
      else s
    | _ => s

/-- Put the rows of the snapshot into the store. -/
def loadRows : List (ResponseId × Json) → ResponseStore → ResponseStore
  | [], s => s
  | (id, row) :: rows, s => loadRows rows (loadSnapshotEntry E id row s)

def ensureLoaded (s : ResponseStore) : ResponseStore :=
  if s.loaded then s else pruneResponses E (loadRows E s.snapshot { s with loaded := true })

/-! ## Expanding a request -/

/-- Why a continuation could not be replayed. -/
inductive ReplayFailure where
  | spill_missing
  | spill_corrupt
  | spill_failed
  | spill_too_large
  | scope_mismatch
  deriving DecidableEq

def SpillReadFailure.replay : SpillReadFailure → ReplayFailure
  | .missing => .spill_missing
  | .too_large => .spill_too_large
  | .corrupt => .spill_corrupt

/-- A stub that is kept for a tool call must agree with its file. -/
def stubAgrees (stub : SpilledResponseState) (payload : ResidentInput) : Bool :=
  !stub.unforcedStoreFalse || (payload.unforcedStoreFalse &&
    stub.providerOutputStart.any (fun anchor ↦ decide (anchor ≤ payload.items.length)) &&
    decide (stub.providerOutputStart = payload.providerOutputStart))

/-- The continuation of an entry, read back from its file if need be; an entry whose file cannot be
used gives way to a tombstone. -/
def materializeEntry (id : ResponseId) (cell : Cell) (s : ResponseStore) :
    Except ReplayFailure ResidentInput × ResponseStore :=
  match cell.state with
  | .resident state => (.ok state.toResidentInput, s)
  | .failed _ => (.error .spill_failed, s)
  | .spill stub =>
    let s' := { s with tick := s.tick + 1 }
    let lost := fun failure ↦ (.error failure, replaceWithSpillFailure E id (some cell) false s')
    match readResponseSpill E s.tick id stub.spill with
    | .error failure => lost failure.replay
    | .ok payload =>
      if stubAgrees stub payload then
        match measureResidentEntry E id payload with
        | some _ => (.ok payload, s')
        | none => lost .spill_corrupt
      else lost .spill_corrupt

/-- The items of a request's input. -/
def inputItems (input : Option Json) : List Json :=
  match input with
  | none => []
  | some (.arr items) => items
  | some (.str text) => [.obj [(js "role", .str (js "user")), (js "content", .str text)]]
  | some other => [other]

/-- An object with a property set. -/
def setMember (members : List (JsString × Json)) (name : JsString) (v : Json) :
    List (JsString × Json) :=
  if members.any (·.1 == name) then members.map fun m ↦ if m.1 = name then (name, v) else m
  else members ++ [(name, v)]

/-- What comes of expanding a request.  Only `restored` changes its items; `carried` gives a copy of
it, and the others the request itself. -/
inductive Expansion where
  | untouched
  /-- The failure is recorded for the request. -/
  | refused (failure : ReplayFailure)
  /-- So many of its leading items are replayed history. -/
  | carried (replayedPrefix : ℕ)
  /-- The history was put in front of its items. -/
  | restored (replayedPrefix : ℕ) (body : Json)

namespace Expansion

/-- The body to go on with. -/
def bodyOr (request : Json) : Expansion → Json
  | restored _ body => body
  | _ => request

/-- `previousResponseReplayFailure`. -/
def failure : Expansion → Option ReplayFailure
  | refused failure => some failure
  | _ => none

/-- Is it another object than the request? -/
def expanded : Expansion → Bool
  | carried _ => true
  | restored _ _ => true
  | _ => false

end Expansion

/-- Put the stored history in front of the input, unless it is there already. -/
def replay (members : List (JsString × Json)) (previous : ResidentInput) : Expansion :=
  let clientInput := inputItems (lookup members (js "input"))
  let stored := previous.items
  let carried := clientCarriedPrefixLength E stored clientInput
  if previous.unforcedStoreFalse ∧
      ¬ allowsUnforcedStoreFalseReplay stored previous.providerOutputStart clientInput carried then
    .untouched
  else if carried = stored.length ∧ previous.providerOutputStart.any (fun anchor ↦
      decide (anchor < carried) && ((stored.take carried).drop anchor).any fun item ↦
        (providerIssuedIdentity item).isSome) then
    .carried carried
  else
    .restored stored.length (.obj (setMember members (js "input") (.arr (stored ++ clientInput))))

/-- The response a request continues. -/
def previousResponseId (members : List (JsString × Json)) : Option ResponseId :=
  match lookup members (js "previous_response_id") with
  | some (.str previousId) => if previousId = [] then none else some previousId
  | _ => none

/-- Replay a continuation that was found, in its own scope only. -/
def replayEntry (members : List (JsString × Json)) (clientThreadId : Option JsString)
    (previousId : ResponseId) (cell : Cell) (s : ResponseStore) : Expansion × ResponseStore :=
  let materialized := materializeEntry E previousId cell s
  match materialized.1 with
  | .error failure => (.refused failure, materialized.2)
  | .ok previous =>
    if normalizedClientThreadId (clientThreadId.map .str) ≠
        normalizedClientThreadId (previous.clientThreadId.map .str) then
      (.refused .scope_mismatch, materialized.2)
    else (replay E members previous, materialized.2)

def expandPreviousResponseInput (body : Json) (clientThreadId : Option JsString)
    (s : ResponseStore) : Expansion × ResponseStore :=
  match body.members?.bind fun members ↦ (previousResponseId members).map (members, ·) with
  | none => (.untouched, s)
  | some (members, previousId) =>
    let s := pruneResponses E (ensureLoaded E s)
    match s.states.get? previousId with
    | none => (.untouched, s)
    | some cell => replayEntry E members clientThreadId previousId cell s

/-! ## Remembering a response -/

/-- How a response is to be remembered. -/
structure RememberOptions where
  /-- Even where the request said not to store it. -/
  force : Bool
  clientThreadId : Option JsString
  retainForToolContinuation : Bool
  /-- The body was marked as one that must not reach the disk. -/
  nonPersistable : Bool

/-- A cursor conversation, and whether its checkpoint may be used again. -/
def noteCheckpoint (providers : List (JsString × Json)) (output : List Json) :
    List (JsString × Json) :=
  match lookup providers (js "cursor") with
  | some (.obj cursor) =>
    if ((lookup cursor (js "conversationId")).map truthy).getD false then
      setMember providers (js "cursor") (.obj (setMember cursor (js "checkpointUsable")
        (.bool !(output.any fun item ↦ itemType item == some (js "function_call")))))
    else providers
  | _ => providers

/-- Is a response complete enough to be replayed? -/
def replayable (response : Json) : Bool :=
  match response.field? (js "status") with
  | none => true
  | some (.str status) =>
    if status = js "incomplete" then
      match (response.field? (js "incomplete_details")).bind (·.field? (js "reason")) with
      | some (.str reason) => reason == js "max_output_tokens"
      | _ => false
    else status == js "completed"
  | some _ => false

/-- What there is to remember of a request and its response, and the id it is remembered under. -/
def continuationOf (requestBody response : Json) (providers : List (JsString × Json))
    (options : RememberOptions) (createdAt : ℚ) : Option (ResponseId × ResidentInput) :=
  match requestBody, response.field? (js "id"), response.field? (js "output") with
  | .obj request, some (.str id), some (.arr output) =>
    let unforcedStoreFalse :=
      (match lookup request (js "store") with | some (.bool b) => !b | _ => false) && !options.force
    let requestItems := inputItems (lookup request (js "input"))
    let providers := noteCheckpoint providers output
    if options.nonPersistable then none
    else if unforcedStoreFalse ∧
        ¬ (options.retainForToolContinuation ∧ hasPendingClientToolCall output) then none
    else if replayable response then
      some (id,
        { createdAt
          clientThreadId := normalizedClientThreadId (options.clientThreadId.map .str)
          items := requestItems ++ output
          providerOutputStart := some requestItems.length
          providers := if providers = [] then none else some (.obj providers)
          unforcedStoreFalse })
    else none
  | _, _, _ => none

def rememberResponseState (requestBody response : Json) (providers : List (JsString × Json))
    (options : RememberOptions) (s : ResponseStore) : ResponseStore :=
  match continuationOf requestBody response providers options 0 with
  | none => s
  | some (id, entry) =>
    let read := now E (ensureLoaded E s)
    setResidentEntry E id { entry with createdAt := read.1 } read.2

/-! ## Sweeps, evictions and publications -/

/-- The periodic sweep; with how many entries had expired. -/
def sweepExpiredResponseStates (s : ResponseStore) : ℕ × ResponseStore :=
  let read := now E s
  let expired := expire E read.1 read.2.states.keys read.2
  (expired.1, (enforceSpilledResponseBudget E none expired.2).2)

/-- Demote the oldest resident; with the bytes that gives back at once. -/
def evictOldestResponseContinuationForBudget (s : ResponseStore) : ℕ × ResponseStore :=
  match s.oldestResidentId with
  | none => (0, s)
  | some id =>
    match s.states.get? id with
    | none => (0, s)
    | some cell =>
      match cell.state.resident? with
      | none => (0, s)
      | some entry =>
        if E.windows then (0, queuePendingResponseSpill E id cell entry none s)
        else
          let s := demoteNow E id cell entry s
          (match s.states.get? id with
            | none => 0
            | some replacement =>
              if replacement.state.isResident then 0
              else entry.sizeBytes - replacement.state.sizeBytes, s)

/-- The next job of the queue has its turn: a job that was cancelled passes. -/
def startPublication (s : ResponseStore) : Option ResponseStore :=
  match s.publication, s.responseSpillPublicationTail with
  | none, (id, number) :: tail =>
    match s.pendingResponseSpillById.get? id with
    | some job =>
      if job.job = number then
        some { s with
          responseSpillPublicationTail := tail
          pendingResponseSpillById := s.pendingResponseSpillById.set id { job with running := true }
          publication := some ⟨id, number, job.object, job.candidate, none⟩ }
      else some { s with responseSpillPublicationTail := tail }
    | none => some { s with responseSpillPublicationTail := tail }
  | _, _ => none

/-- The job of a publication, if it was not cancelled. -/
def currentJob (p : Publication) (s : ResponseStore) : Option PendingResponseSpill :=
  (s.pendingResponseSpillById.get? p.id).filter (·.job == p.job)

/-- Its job, if moreover the resident it was queued for is still there. -/
def installableJob (p : Publication) (s : ResponseStore) : Option PendingResponseSpill :=
  (currentJob p s).filter fun _ ↦ expects (some p.object) (s.states.get? p.id)

/-- A publication that failed leaves a tombstone, if its resident is still there. -/
def failPublication (p : Publication) (job : Option PendingResponseSpill) (s : ResponseStore) :
    ResponseStore :=
  match job with
  | none => s
  | some job => deferSupersededSpill E job.supersededSpill
      (replaceWithSpillFailure E p.id (some ⟨p.object, .resident p.candidate⟩) false s)

/-- A publication that wrote its file swaps its resident for the stub, if it is still there. -/
def swapPublication (p : Publication) (job : Option PendingResponseSpill) (ref : ResponseSpillRef)
    (s : ResponseStore) : ResponseStore :=
  match job with
  | none => deleteResponseSpill E ref s
  | some job =>
    let swapped := swapResidentForSpill E p.id p.object p.candidate.toResidentInput ref s
    if swapped.1 then deferSupersededSpill E job.supersededSpill swapped.2 else swapped.2

/-- What a publication does with the file it wrote, or failed to write. -/
def installPublication (p : Publication) (written : Option ResponseSpillRef) (s : ResponseStore) :
    ResponseStore :=
  match written with
  | none => failPublication E p (installableJob p s) s
  | some ref =>
    if E.responseSpillPayloadCap < ref.payloadBytes then
      failPublication E p (installableJob p s) (deleteResponseSpill E ref s)
    else swapPublication E p (installableJob p s) ref s

/-- The job of a publication leaves the queue. -/
def releasePublication (p : Publication) (s : ResponseStore) : ResponseStore :=
  match currentJob p s with
  | some job => recomputeOldestResident (releaseBytes job
      { s with
        publication := none
        pendingResponseSpillById := s.pendingResponseSpillById.delete p.id })
  | none =>
    recomputeOldestResident
      (match p.detached with
        | some job => releaseBytes job { s with publication := none }
        | none => { s with publication := none })

/-- The publication that is under way settles. -/
def settlePublication (s : ResponseStore) : Option ResponseStore :=
  s.publication.map fun p ↦
    let written := writeSpill E p.id p.candidate.toResidentInput s
    let settled := releasePublication p (installPublication E p written.1 written.2)
    if (currentJob p s).isSome then pruneResponses E settled else settled

/-! ## Snapshots -/

def SNAPSHOT_ENTRY_MAX_BYTES : ℕ := 2 * 1024 * 1024

def SNAPSHOT_TOTAL_MAX_BYTES : ℕ := 24 * 1024 * 1024

/-- An entry as a row of the snapshot. -/
def snapshotRow : StoredResponseState → Json
  | .resident state => .obj state.members
  | .spill state => .obj (stubMembers state.toEntryHead state.spill)
  | .failed state => .obj (tombstoneMembers state.createdAt)

/-- The bytes of a row; `none` where it cannot be written. -/
def rowBytes (id : ResponseId) (state : StoredResponseState) : Option ℕ :=
  serializedBytes E (.arr [.str id, snapshotRow state])

/-- Stubs and tombstones are selected while there is room for them. -/
def selectSmall : List (ResponseId × Cell) → ℕ × List ResponseId → Option (ℕ × List ResponseId)
  | [], kept => some kept
  | (id, cell) :: entries, kept =>
    if cell.state.isResident then selectSmall entries kept
    else
      (rowBytes E id cell.state).bind fun size ↦
        if SNAPSHOT_TOTAL_MAX_BYTES < kept.1 + size then selectSmall entries kept
        else selectSmall entries (kept.1 + size, id :: kept.2)

/-- Residents that are not too large are selected until one does not fit. -/
def selectResidents : List (ResponseId × Cell) → ℕ × List ResponseId → Option (ℕ × List ResponseId)
  | [], kept => some kept
  | (id, cell) :: entries, kept =>
    if cell.state.isResident then
      (rowBytes E id cell.state).bind fun size ↦
        if SNAPSHOT_ENTRY_MAX_BYTES < size then selectResidents entries kept
        else if SNAPSHOT_TOTAL_MAX_BYTES < kept.1 + size then some kept
        else selectResidents entries (kept.1 + size, id :: kept.2)
    else selectResidents entries kept

/-- The rows of a snapshot, in the order of the store. -/
def selectSnapshotEntries (s : ResponseStore) : Option (List (ResponseId × Json)) :=
  ((selectSmall E s.states.entries.reverse (0, [])).bind
    (selectResidents E s.states.entries.reverse)).map fun kept ↦
      (s.states.entries.filter fun entry ↦ kept.2.contains entry.1).map fun entry ↦
        (entry.1, snapshotRow entry.2.state)

/-- Unlink every superseded file. -/
def drainPendingSpillUnlinks (s : ResponseStore) : ResponseStore :=
  s.pendingSpillUnlinks.foldl (fun s ref ↦ deleteResponseSpill E ref s)
    { s with pendingSpillUnlinks := [] }

/-- Write a snapshot, with nothing happening meanwhile; the superseded files can go then. -/
def writeStableSnapshot (s : ResponseStore) : Option ResponseStore :=
  (selectSnapshotEntries E s).map fun rows ↦ drainPendingSpillUnlinks E { s with snapshot := rows }

/-- The process ends; the next one has the snapshot and the files. -/
def restart (s : ResponseStore) : ResponseStore := .start s.snapshot s.tick

/-! ## The machine -/

inductive StoreEvent where
  | remember (requestBody response : Json) (providers : List (JsString × Json))
      (options : RememberOptions)
  | expand (body : Json) (clientThreadId : Option JsString)
  | sweep
  | evict
  | startPublication
  | settlePublication
  | snapshot
  | restart

/-- What an event does to the store. -/
def storeStep (s : ResponseStore) : StoreEvent → Option ResponseStore
  | .remember requestBody response providers options =>
    some (rememberResponseState E requestBody response providers options s)
  | .expand body clientThreadId => some (expandPreviousResponseInput E body clientThreadId s).2
  | .sweep => some (sweepExpiredResponseStates E s).2
  | .evict => some (evictOldestResponseContinuationForBudget E s).2
  | .startPublication => startPublication s
  | .settlePublication => settlePublication E s
  | .snapshot => writeStableSnapshot E s
  | .restart => some (restart s)

/-- The store with all that is done with it. -/
def continuationStore : Machine ResponseStore StoreEvent where
  init s := ∃ snapshot tick, s = .start snapshot tick
  step := storeStep E

end Responses
