import OpenCodex.Data.FirstLeast
import OpenCodex.Data.Loop
import OpenCodex.Data.OMap
import OpenCodex.Responses.Spill
import Mathlib.Data.List.Sort

/-!
# The continuation store

The store is a map from response ids to entries, and what goes with it: how many bytes the entries
have, how many of them are in memory, and which of these is oldest.  Memory is bounded by *demoting*
residents, oldest first: an entry in memory gives way to a stub that refers to a spill file, or to a
tombstone where the file cannot be written.  On Windows a file cannot be made safe at once, so there
a resident is *queued* for publication, stays readable while it waits, and is swapped for its stub
when the publication settles.  Entries change places in between: a queued resident may be replaced,
deleted, or queued again, and then its publication must come to nothing.

JavaScript tells objects apart by identity, and the queue relies on it.  So every object that is put
into the map gets a number (`Cell`), and `===` compares numbers.

The `Watch` is not the code's.  It records what the code never looks at again: whether a clamp of a
byte counter at zero ever acted, whether a loop of the pruning failed to come to its end, and whether
a pruning ended with the store over its bounds.
-/

set_option autoImplicit false

open Json

namespace Responses

/-! ## Entries -/

/-- A continuation in memory. -/
structure ResidentResponseState extends ResidentInput where
  sizeBytes : ℕ

/-- A stub for a continuation in a spill file. -/
structure SpilledResponseState extends EntryHead where
  spill : ResponseSpillRef
  sizeBytes : ℕ

/-- A tombstone for a continuation that could not be spilled, or not be read back. -/
structure SpillFailedResponseState where
  createdAt : ℚ
  sizeBytes : ℕ

inductive StoredResponseState where
  | resident (state : ResidentResponseState)
  | spill (state : SpilledResponseState)
  | failed (state : SpillFailedResponseState)

namespace StoredResponseState

def createdAt : StoredResponseState → ℚ
  | resident state => state.createdAt
  | spill state => state.createdAt
  | failed state => state.createdAt

def sizeBytes : StoredResponseState → ℕ
  | resident state => state.sizeBytes
  | spill state => state.sizeBytes
  | failed state => state.sizeBytes

/-- The continuation, if it is in memory. -/
def resident? : StoredResponseState → Option ResidentResponseState
  | resident state => some state
  | _ => none

/-- The spill file it refers to. -/
def spill? : StoredResponseState → Option ResponseSpillRef
  | spill state => some state.spill
  | _ => none

def isResident (state : StoredResponseState) : Bool := state.resident?.isSome

/-- The bytes it has in memory as a continuation. -/
def residentBytes (state : StoredResponseState) : ℕ := if state.isResident then state.sizeBytes else 0

end StoredResponseState

/-- An object in the map, with the number that is its identity. -/
structure Cell where
  object : ℕ
  state : StoredResponseState

/-- A queued publication. -/
structure PendingResponseSpill where
  /-- The number of the job. -/
  job : ℕ
  /-- The identity of the resident it will swap. -/
  object : ℕ
  candidate : ResidentResponseState
  /-- The spill file the resident replaced. -/
  supersededSpill : Option ResponseSpillRef
  running : Bool
  sizeBytes : ℕ
  /-- The disk space set aside for it. -/
  reservedBytes : ℕ

/-- The publication that is under way. -/
structure Publication where
  id : ResponseId
  job : ℕ
  object : ℕ
  candidate : ResidentResponseState
  /-- Its job, once that was cancelled: it is still accounted for until the publication settles. -/
  detached : Option PendingResponseSpill

/-- What is recorded about the store, beside the code. -/
structure Watch where
  /-- A byte counter was clamped at zero. -/
  clamped : Bool
  /-- A loop of the pruning did not come to its end. -/
  unfinished : Bool
  /-- A pruning left the store over its bounds. -/
  overfull : Bool
  deriving DecidableEq

/-- The store. -/
structure ResponseStore where
  states : OMap ResponseId Cell
  storedResponseBytes : ℕ
  residentResponseBytes : ℕ
  oldestResidentId : Option ResponseId
  oldestResidentAt : Option ℚ
  /-- Superseded spill files that wait for a durable snapshot. -/
  pendingSpillUnlinks : List ResponseSpillRef
  pendingResponseSpillById : OMap ResponseId PendingResponseSpill
  pendingResponseSpillBytes : ℕ
  reservedResponseSpillBytes : ℕ
  /-- The jobs that are still to run, in turn; a cancelled one passes when its turn comes. -/
  responseSpillPublicationTail : List (ResponseId × ℕ)
  publication : Option Publication
  /-- The files a failed unlink left behind. -/
  unreclaimableSpillPaths : OMap JsString ℕ
  loaded : Bool
  /-- The rows of the snapshot file. -/
  snapshot : List (ResponseId × Json)
  nextObject : ℕ
  nextJob : ℕ
  /-- The questions asked of the clock and the disk. -/
  tick : ℕ
  watch : Watch

def MAX_STORED_RESPONSES : ℕ := 1000

def RESPONSE_TTL_MS : ℚ := 24 * 60 * 60 * 1000

def PENDING_SPILL_UNLINKS_MAX : ℕ := 128

def MAX_PENDING_RESPONSE_SPILL_BYTES : ℕ := 256 * 1024 * 1024

/-- A process that has not loaded its snapshot yet. -/
def ResponseStore.start (snapshot : List (ResponseId × Json)) (tick : ℕ) : ResponseStore where
  states := .empty
  storedResponseBytes := 0
  residentResponseBytes := 0
  oldestResidentId := none
  oldestResidentAt := none
  pendingSpillUnlinks := []
  pendingResponseSpillById := .empty
  pendingResponseSpillBytes := 0
  reservedResponseSpillBytes := 0
  responseSpillPublicationTail := []
  publication := none
  unreclaimableSpillPaths := .empty
  loaded := false
  snapshot := snapshot
  nextObject := 0
  nextJob := 0
  tick := tick
  watch := ⟨false, false, false⟩

variable (E : StoreEnv)

/-- Ask the clock. -/
def now (s : ResponseStore) : ℚ × ResponseStore := (E.clock s.tick, { s with tick := s.tick + 1 })

/-! ## The entries and their counters -/

/-- `spillQueueHoldsResidentCandidate`: a queued publication will swap this very object. -/
def spillQueueHoldsResidentCandidate (s : ResponseStore) (id : ResponseId) (cell : Cell) : Bool :=
  match s.pendingResponseSpillById.get? id with
  | some job => job.object == cell.object
  | none => false

/-- A resident that no queued publication holds. -/
def loose (s : ResponseStore) (id : ResponseId) (cell : Cell) : Bool :=
  cell.state.isResident && !spillQueueHoldsResidentCandidate s id cell

/-- When a loose resident was created. -/
def looseSince (s : ResponseStore) (entry : ResponseId × Cell) : Option ℚ :=
  if loose s entry.1 entry.2 then some entry.2.state.createdAt else none

def recomputeOldestResident (s : ResponseStore) : ResponseStore :=
  let oldest := (firstLeast (looseSince s) s.states.entries).bind (s.states.entries[·]?)
  { s with
    oldestResidentId := oldest.map Prod.fst
    oldestResidentAt := oldest.map fun entry ↦ entry.2.state.createdAt }

/-- Move the byte counters by what goes and what comes, and clamp them at zero. -/
def countBytes (s : ResponseStore) (gone come goneResident comeResident : ℕ) : ResponseStore :=
  let stored : ℤ := s.storedResponseBytes - gone + come
  let resident : ℤ := s.residentResponseBytes - goneResident + comeResident
  { s with
    storedResponseBytes := stored.toNat
    residentResponseBytes := resident.toNat
    watch := { s.watch with clamped := s.watch.clamped || stored < 0 || resident < 0 } }

/-- Is this the object the caller expects? -/
def expects (expected : Option ℕ) (existing : Option Cell) : Bool :=
  expected.all fun object ↦ existing.any (·.object == object)

/-- Put an entry last, in the place of the one there was. -/
def putEntry (id : ResponseId) (next : StoredResponseState) (s : ResponseStore) : ResponseStore :=
  let existing := s.states.get? id
  let s := countBytes s ((existing.map (·.state.sizeBytes)).getD 0) next.sizeBytes
    ((existing.map (·.state.residentBytes)).getD 0) next.residentBytes
  { s with
    states := (s.states.delete id).set id ⟨s.nextObject, next⟩
    nextObject := s.nextObject + 1 }

/-- Keep track of the oldest resident when an entry was put. -/
def noteOldest (id : ResponseId) (next : StoredResponseState) (s : ResponseStore) : ResponseStore :=
  if s.oldestResidentId = some id then recomputeOldestResident s
  else if next.isResident && s.oldestResidentAt.all (next.createdAt < ·) then
    { s with oldestResidentId := some id, oldestResidentAt := some next.createdAt }
  else s

/-- Put an entry; `none` where another object than the expected one is there. -/
def replaceMapEntry (id : ResponseId) (next : StoredResponseState) (expected : Option ℕ)
    (s : ResponseStore) : Option ResponseStore :=
  if expects expected (s.states.get? id) then some (noteOldest id next (putEntry id next s))
  else none

/-! ## Spill files and queued publications -/

/-- Unlink a spill file; one that is left behind is charged. -/
def deleteResponseSpill (ref : ResponseSpillRef) (s : ResponseStore) : ResponseStore :=
  { s with
    unreclaimableSpillPaths :=
      if E.unlinkFails s.tick ∧ validSpillRef ref ∧ 0 < ref.payloadBytes then
        s.unreclaimableSpillPaths.set ref.fileName ref.payloadBytes
      else s.unreclaimableSpillPaths
    tick := s.tick + 1 }

/-- The superseded files beyond the bound are unlinked at once, oldest first. -/
def trimSpillUnlinks : List ResponseSpillRef → ResponseStore → ResponseStore
  | [], s => { s with pendingSpillUnlinks := [] }
  | ref :: refs, s =>
    if PENDING_SPILL_UNLINKS_MAX < (ref :: refs).length then
      trimSpillUnlinks refs (deleteResponseSpill E ref s)
    else { s with pendingSpillUnlinks := ref :: refs }

def deferSupersededSpill (ref : Option ResponseSpillRef) (s : ResponseStore) : ResponseStore :=
  match ref with
  | none => s
  | some ref => trimSpillUnlinks E (s.pendingSpillUnlinks ++ [ref]) s

/-- Unlink a spill file, if there is one. -/
def deleteSpillOf (ref : Option ResponseSpillRef) (s : ResponseStore) : ResponseStore :=
  match ref with
  | none => s
  | some ref => deleteResponseSpill E ref s

def deleteOwnedSpills (state : StoredResponseState) (s : ResponseStore) : ResponseStore :=
  deleteSpillOf E state.spill? s

/-- Give back what a job has set aside. -/
def releaseBytes (job : PendingResponseSpill) (s : ResponseStore) : ResponseStore :=
  { s with
    pendingResponseSpillBytes := s.pendingResponseSpillBytes - job.sizeBytes
    reservedResponseSpillBytes := s.reservedResponseSpillBytes - job.reservedBytes }

/-- Take the job of an id off the queue.  One that is running keeps its accounting until it settles;
the file its resident had replaced passes to the caller. -/
def cancelPendingResponseSpill (id : ResponseId) (s : ResponseStore) :
    Option ResponseSpillRef × ResponseStore :=
  match s.pendingResponseSpillById.get? id with
  | none => (none, s)
  | some job =>
    let s := { s with pendingResponseSpillById := s.pendingResponseSpillById.delete id }
    (job.supersededSpill,
      if job.running then
        { s with publication := s.publication.map fun p ↦
            { p with detached := some { job with supersededSpill := none } } }
      else releaseBytes job s)

/-- Count an entry out of the store. -/
def dropEntry (id : ResponseId) (existing : StoredResponseState) (s : ResponseStore) :
    ResponseStore :=
  let s := countBytes s existing.sizeBytes 0 existing.residentBytes 0
  let s := { s with states := s.states.delete id }
  if s.oldestResidentId = some id then recomputeOldestResident s else s

/-- Delete an entry, with its publication and its files. -/
def deleteEntry (id : ResponseId) (s : ResponseStore) : ResponseStore :=
  match s.states.get? id with
  | none => s
  | some existing =>
    let cancelled := cancelPendingResponseSpill id s
    deleteSpillOf E cancelled.1
      (deleteOwnedSpills E existing.state (dropEntry id existing.state cancelled.2))

/-- When the tombstone of an entry says it was created. -/
def tombstoneTime (expected existing : Option Cell) (s : ResponseStore) : ℚ × ResponseStore :=
  match expected.or existing with
  | some cell => (cell.state.createdAt, s)
  | none => now E s

def tombstone (id : ResponseId) (createdAt : ℚ) : StoredResponseState :=
  .failed ⟨createdAt, tombstoneSize E id createdAt⟩

/-- Leave a tombstone; the file of the entry there was is unlinked, or kept until the next durable
snapshot. -/
def replaceWithSpillFailure (id : ResponseId) (expected : Option Cell) (deferSpillUnlink : Bool)
    (s : ResponseStore) : ResponseStore :=
  let existing := s.states.get? id
  if expects (expected.map (·.object)) existing then
    let dated := tombstoneTime E expected existing s
    match replaceMapEntry id (tombstone E id dated.1) (expected.map (·.object)) dated.2 with
    | none => s
    | some s =>
      let owned := existing.bind (·.state.spill?)
      if deferSpillUnlink then deferSupersededSpill E owned s else deleteSpillOf E owned s
  else s

/-- The stub of a continuation that was written to a file. -/
def stubState (id : ResponseId) (e : ResidentInput) (ref : ResponseSpillRef) : StoredResponseState :=
  .spill { toEntryHead := e.toEntryHead, spill := ref, sizeBytes := stubSize E id e.toEntryHead ref }

/-- Write a spill file. -/
def writeSpill (id : ResponseId) (e : ResidentInput) (s : ResponseStore) :
    Option ResponseSpillRef × ResponseStore :=
  (writeResponseSpillDurably E s.tick id e, { s with tick := s.tick + 1 })

/-- Swap a resident for its stub; where it is no longer there, the file goes again. -/
def swapResidentForSpill (id : ResponseId) (object : ℕ) (expected : ResidentInput)
    (ref : ResponseSpillRef) (s : ResponseStore) : Bool × ResponseStore :=
  match replaceMapEntry id (stubState E id expected ref) (some object) s with
  | none => (false, deleteResponseSpill E ref s)
  | some s => (true, s)

/-- Swap a resident for its stub, or leave a tombstone, at once. -/
def demoteNow (id : ResponseId) (cell : Cell) (entry : ResidentResponseState) (s : ResponseStore) :
    ResponseStore :=
  let written := writeSpill E id entry.toResidentInput s
  match written.1 with
  | none => replaceWithSpillFailure E id (some cell) false written.2
  | some ref => (swapResidentForSpill E id cell.object entry.toResidentInput ref written.2).2

/-! ## The disk -/

def spilledResponseBytes (s : ResponseStore) : ℕ :=
  s.states.total (fun _ cell ↦ (cell.state.spill?.map (·.payloadBytes)).getD 0) +
    (s.pendingSpillUnlinks.map (·.payloadBytes)).sum

/-- The files the queued publications will replace. -/
def jobOwnedBytes (s : ResponseStore) : ℕ :=
  s.pendingResponseSpillById.total fun _ job ↦ (job.supersededSpill.map (·.payloadBytes)).getD 0

/-- What the store accounts for on the disk; a charge is dropped once its file is gone. -/
def accountedResponseSpillBytes (s : ResponseStore) : ℕ × ResponseStore :=
  let left := s.unreclaimableSpillPaths.filter fun path _ ↦ E.existsSync s.tick path
  (spilledResponseBytes s + s.reservedResponseSpillBytes + jobOwnedBytes s +
      left.total (fun _ bytes ↦ bytes),
    { s with unreclaimableSpillPaths := left, tick := s.tick + 1 })

/-- The room an admission asks for; none where the cap alone is enforced. -/
abbrev Headroom := Option ℕ

/-- Can the room still be made?  An admission asks anew what is on the disk. -/
def feasible (headroom : Headroom) (spilledBytes : ℤ) (s : ResponseStore) :
    Bool × ℤ × ResponseStore :=
  match headroom with
  | none => (true, spilledBytes, s)
  | some room =>
    let accounted := accountedResponseSpillBytes E s
    (decide (((accounted.1 : ℤ) - spilledResponseBytes accounted.2 + room) ≤ E.spillByteCap),
      accounted.1, accounted.2)

/-- Is there still something to reclaim? -/
def overBudget (headroom : Headroom) (spilledBytes : ℤ) : Bool :=
  decide ((E.spillByteCap : ℤ) - headroom.getD 0 < spilledBytes)

/-- Unlink superseded files while the budget is exceeded; `true` in front when the reclaim may go
on. -/
def reclaimUnlinks (headroom : Headroom) : List ResponseSpillRef → ℤ → ResponseStore →
    Bool × ℤ × ResponseStore
  | [], spilledBytes, s => (true, spilledBytes, { s with pendingSpillUnlinks := [] })
  | ref :: refs, spilledBytes, s =>
    if overBudget E headroom spilledBytes then
      let room := feasible E headroom (spilledBytes - ref.payloadBytes)
        (deleteResponseSpill E ref { s with pendingSpillUnlinks := refs })
      if room.1 then reclaimUnlinks headroom refs room.2.1 room.2.2 else room
    else (true, spilledBytes, { s with pendingSpillUnlinks := ref :: refs })

/-- Delete spilled entries while the budget is exceeded. -/
def reclaimEntries (headroom : Headroom) : List (ResponseId × ResponseSpillRef) → ℤ →
    ResponseStore → ℤ × ResponseStore
  | [], spilledBytes, s => (spilledBytes, s)
  | (id, ref) :: entries, spilledBytes, s =>
    if overBudget E headroom spilledBytes then
      let room := feasible E headroom (spilledBytes - ref.payloadBytes) (deleteEntry E id s)
      if room.1 then reclaimEntries headroom entries room.2.1 room.2.2 else room.2
    else (spilledBytes, s)

/-- Older first; the response id breaks ties. -/
def OlderSpill (a b : ResponseId × ℚ × ResponseSpillRef) : Prop :=
  a.2.1 < b.2.1 ∨ a.2.1 = b.2.1 ∧ a.1 ≤ b.1

instance : DecidableRel OlderSpill := fun _ _ ↦ inferInstanceAs (Decidable (_ ∨ _))

/-- The spilled entries, oldest first. -/
def spilledByAge (s : ResponseStore) : List (ResponseId × ResponseSpillRef) :=
  ((s.states.entries.filterMap fun (id, cell) ↦
      cell.state.spill?.map fun ref ↦ (id, cell.state.createdAt, ref)).insertionSort
    OlderSpill).map fun (id, _, ref) ↦ (id, ref)

/-- Bring the spill files within their cap; with the bytes that were reclaimed. -/
def enforceSpilledResponseBudget (headroom : Headroom) (s : ResponseStore) : ℤ × ResponseStore :=
  let accounted := accountedResponseSpillBytes E s
  let room := feasible E headroom accounted.1 accounted.2
  if room.1 ∧ overBudget E headroom room.2.1 then
    let unlinked := reclaimUnlinks E headroom room.2.2.pendingSpillUnlinks room.2.1 room.2.2
    let left :=
      if unlinked.1 then
        reclaimEntries E headroom (spilledByAge unlinked.2.2) unlinked.2.1 unlinked.2.2
      else unlinked.2
    (room.2.1 - left.1, left.2)
  else (0, room.2.2)

/-! ## Queueing a publication -/

/-- What a publication occupies at its peak: a temporary file and its copy. -/
def publicationFootprintBytes (id : ResponseId) (candidate : ResidentResponseState) : ℕ :=
  ((prospectiveResponseSpillBytes E id candidate.toResidentInput).getD candidate.sizeBytes) * 2

/-- Does a publication fit on the disk?  Spilled entries make room for it if that helps. -/
def makeRoom (footprint inherited : ℕ) (s : ResponseStore) : Bool × ResponseStore :=
  let accounted := accountedResponseSpillBytes E s
  if accounted.1 + footprint + inherited ≤ E.spillByteCap then (true, accounted.2)
  else
    let s := if footprint / 2 ≤ E.responseSpillPayloadCap then
      (enforceSpilledResponseBudget E (some (footprint + inherited)) accounted.2).2
      else accounted.2
    let accounted := accountedResponseSpillBytes E s
    (decide (accounted.1 + footprint + inherited ≤ E.spillByteCap), accounted.2)

/-- Put a job on the queue. -/
def enqueue (id : ResponseId) (cell : Cell) (candidate : ResidentResponseState)
    (supersededSpill : Option ResponseSpillRef) (s : ResponseStore) : ResponseStore :=
  let job : PendingResponseSpill :=
    { job := s.nextJob, object := cell.object, candidate, supersededSpill, running := false
      sizeBytes := candidate.sizeBytes
      reservedBytes := publicationFootprintBytes E id candidate }
  recomputeOldestResident
    { s with
      pendingResponseSpillById := s.pendingResponseSpillById.set id job
      pendingResponseSpillBytes := s.pendingResponseSpillBytes + job.sizeBytes
      reservedResponseSpillBytes := s.reservedResponseSpillBytes + job.reservedBytes
      responseSpillPublicationTail := s.responseSpillPublicationTail ++ [(id, job.job)]
      nextJob := s.nextJob + 1 }

/-- Queue a resident for publication, or leave a tombstone where there is no room for it. -/
def queuePendingResponseSpill (id : ResponseId) (cell : Cell) (candidate : ResidentResponseState)
    (supersededSpill : Option ResponseSpillRef) (s : ResponseStore) : ResponseStore :=
  let cancelled := cancelPendingResponseSpill id s
  let s := cancelled.2
  let inherited := cancelled.1.or supersededSpill
  let refuse := fun s ↦
    deferSupersededSpill E inherited (replaceWithSpillFailure E id (some cell) false s)
  if MAX_PENDING_RESPONSE_SPILL_BYTES < s.pendingResponseSpillBytes + candidate.sizeBytes then
    refuse s
  else
    let room := makeRoom E (publicationFootprintBytes E id candidate)
      ((inherited.map (·.payloadBytes)).getD 0) s
    if room.1 then enqueue E id cell candidate inherited room.2 else refuse room.2

/-- Put a resident and queue it. -/
def replaceWithPendingResponseSpill (id : ResponseId) (candidate : ResidentResponseState)
    (expected : Option Cell) (s : ResponseStore) : ResponseStore :=
  let inherited := ((s.pendingResponseSpillById.get? id).bind (·.supersededSpill)).or
    (expected.bind (·.state.spill?))
  match replaceMapEntry id (.resident candidate) (expected.map (·.object)) s with
  | none => s
  | some s' => queuePendingResponseSpill E id ⟨s.nextObject, .resident candidate⟩ candidate inherited s'

/-- Demote a resident: from the queue on Windows, elsewhere at once. -/
def demote (id : ResponseId) (cell : Cell) (entry : ResidentResponseState) (s : ResponseStore) :
    ResponseStore :=
  if E.windows then queuePendingResponseSpill E id cell entry none s
  else demoteNow E id cell entry s

/-! ## Pruning -/

/-- Delete what has expired among some ids; with how many. -/
def expire (at_ : ℚ) : List ResponseId → ResponseStore → ℕ × ResponseStore
  | [], s => (0, s)
  | id :: ids, s =>
    match s.states.get? id with
    | none => expire at_ ids s
    | some cell =>
      if RESPONSE_TTL_MS < at_ - cell.state.createdAt then
        let rest := expire at_ ids (deleteEntry E id s)
        (rest.1 + 1, rest.2)
      else expire at_ ids s

/-- One turn of the loop that bounds the number of entries.  The loop tests an id for being falsy
before it deletes it, and the empty id is falsy. -/
def countStep (s : ResponseStore) : Option ResponseStore :=
  if MAX_STORED_RESPONSES < s.states.size then
    match s.states.keys.head? with
    | none => none
    | some oldest => if oldest = [] then none else some (deleteEntry E oldest s)
  else none

/-- The oldest entry that is a loose resident. -/
def oldestLoose (s : ResponseStore) : Option (ResponseId × Cell) :=
  s.states.entries.find? fun entry ↦ loose s entry.1 entry.2

/-- Is there a resident that a queued publication holds? -/
def hasPendingResident (s : ResponseStore) : Bool :=
  s.states.entries.any fun entry ↦
    entry.2.state.isResident && spillQueueHoldsResidentCandidate s entry.1 entry.2

/-- One turn of the loop that bounds the bytes: the first loose resident is demoted, and where no
resident is left the first entry is deleted.  Here too the empty id stops the loop. -/
def byteStep (s : ResponseStore) : Option ResponseStore :=
  if E.byteCap < s.storedResponseBytes ∧ 0 < s.states.size then
    match oldestLoose s with
    | some (id, cell) =>
      if id = [] then none
      else
        match cell.state.resident? with
        | some entry => some (demote E id cell entry s)
        | none => some (deleteEntry E id s)
    | none =>
      if hasPendingResident s then none
      else
        match s.states.keys.head? with
        | none => none
        | some id => if id = [] then none else some (deleteEntry E id s)
  else none

/-- The ids of the residents that no queued publication holds. -/
def looseIds (s : ResponseStore) : List ResponseId :=
  (s.states.entries.filter fun entry ↦ loose s entry.1 entry.2).map Prod.fst

/-- A loop of the pruning, with enough turns for it; the watch notes if they were not enough. -/
def pruneLoop (step : ResponseStore → Option ResponseStore) (turns : ℕ) (s : ResponseStore) :
    ResponseStore :=
  let t := Loop.run step turns s
  { t with watch := { t.watch with unfinished := t.watch.unfinished || (step t).isSome } }

/-- The loop that bounds the number of entries. -/
def boundCount (s : ResponseStore) : ResponseStore := pruneLoop (countStep E) s.states.size s

/-- What bounds the turns of the loop that bounds the bytes. -/
def byteMeasure (s : ResponseStore) : ℕ := s.states.size + (looseIds s).length

/-- The loop that bounds the bytes. -/
def boundBytes (s : ResponseStore) : ResponseStore := pruneLoop (byteStep E) (byteMeasure s) s

/-- Too many entries, or too many bytes though a resident could be demoted. -/
def overfull (s : ResponseStore) : Bool :=
  decide (MAX_STORED_RESPONSES < s.states.size) ||
    (decide (E.byteCap < s.storedResponseBytes) &&
      s.states.entries.any fun entry ↦ loose s entry.1 entry.2)

/-- The watch notes whether the store is within its bounds. -/
def noteBounds (s : ResponseStore) : ResponseStore :=
  { s with watch := { s.watch with overfull := s.watch.overfull || overfull E s } }

def pruneResponses (s : ResponseStore) : ResponseStore :=
  let read := now E s
  let live := (expire E read.1 s.states.keys read.2).2
  noteBounds E (enforceSpilledResponseBudget E none (boundBytes E (boundCount E live))).2

end Responses
