import OpenCodex.Spend.Books
import Mathlib.Data.List.Sort
import Mathlib.Data.Finset.Basic

/-!
# The spend reservation ledger

The ledger keeps the books, writes every change of them to a journal, and cleans both up.  This file
is what each of its operations computes.

The journal is whatever can be read as lines, appended to and perhaps rewritten (`SpendJournal`); a
write answers whether it reached storage.  Objects that the source tells apart by identity — seeds,
tracker owners — are numbered.  What an operation reads from the clock is its argument `now`.

Two things of the source are not here.  A ledger without a journal behaves like one whose journal
forgets everything and never fails.  And the retried cleanups of finished trackers are calls of
`forgetResolved` and `finishSeed` like any others, so they are operations of their own.
-/

set_option autoImplicit false

namespace Spend

/-- Append-mostly persistence. -/
structure SpendJournal (J : Type) where
  read : J → List JsString
  /-- Append a line; false where it throws. -/
  append : J → JsString → J × Bool
  /-- Replace the contents; a store that cannot do so never compacts. -/
  rewrite : Option (J → List JsString → J × Bool)

/-- What the ledger keeps of a seed. -/
structure SeedState where
  /-- The send the seed was reserved for. -/
  sendId : JsString
  targets : List ScopeRef
  /-- All sends enrolled on it, oldest first. -/
  sends : List SpendAlias
  abandoned : Bool
  owner : Option ℕ
  deriving DecidableEq

structure SpendLedger (J : Type) where
  policy : SpendReservationPolicy
  pools : PoolContinuity
  books : Books
  seeds : OMap ℕ SeedState
  /-- How many seeds there were, to number the next one. -/
  seedCount : ℕ
  seedBySend : OMap SpendAlias ℕ
  pinnedKeys : OMap ScopeRef ℕ
  /-- Records that are owed to the journal, oldest first. -/
  pendingRecords : List JournalRecord
  /-- Reservations that were admitted although their record did not reach the journal. -/
  nondurableReserves : OMap SpendAlias JournalRecord
  retainedOrdinary : Finset SpendAlias
  reporters : ℕ
  ownerReporters : OMap ℕ ℕ
  persistFailures : ℕ
  corruptRecords : ℕ
  recordsOnDisk : ℕ
  journal : J

structure SpendReservationRequest where
  admissionPolicy : Option SpendAdmissionPolicy
  sendId : JsString
  scopes : SpendScopes
  inputTokens : JsNumber
  outputCeilingTokens : JsNumber
  /-- The request's own `at`. -/
  time : Option ℕ
  /-- The send has left already, and is recorded rather than admitted. -/
  alreadySent : Bool
  deriving DecidableEq

structure SpendUsage where
  inputTokens : JsNumber
  outputTokens : JsNumber
  deriving DecidableEq

inductive SpendDenial where
  | poolHistoryUnresolved
  | spendLimitExceeded (scope : SpendScope) (scopeId : JsString) (limit projected : ℕ)
      (includesUnboundPoolHistory : Bool)
  | duplicateSendId (sendId : JsString)
  | reserveNotDurable (sendId : JsString)
  | journalCorrupt (corruptRecords : ℕ)
  | trackingCapacityExhausted (scope : Option SpendScope)
  deriving DecidableEq

/-- An admitted reservation. -/
structure SpendBooking where
  sendId : JsString
  tokens : ℕ
  durable : Bool
  deriving DecidableEq

abbrev SpendReservationDecision := Except SpendDenial SpendBooking

def SpendReservationRequest.tokens (request : SpendReservationRequest) : ℕ :=
  sanitizeTokens request.inputTokens + sanitizeTokens request.outputCeilingTokens

/-- The identifier a request gives for a scope. -/
def SpendReservationRequest.scopeId (request : SpendReservationRequest) : SpendScope → JsString
  | .root => request.scopes.rootId.getD []
  | .identity => request.scopes.identityId.getD []
  | .pool => request.scopes.poolId.getD []

def SpendUsage.tokens (usage : SpendUsage) : ℕ :=
  sanitizeTokens usage.inputTokens + sanitizeTokens usage.outputTokens

namespace SpendLedger

variable {J : Type}

/-! ## Figures and ceilings -/

section Figures

variable (l : SpendLedger J)

/-- Does a live send name this scope? -/
def isActive (ref : ScopeRef) : Bool :=
  l.books.reservations.entries.any fun p ↦ p.2.status.isLive && p.2.targets.contains ref

def pinnedScope (ref : ScopeRef) : Bool := l.pinnedKeys.has ref

/-- Nothing is under way in this scope. -/
def idle (ref : ScopeRef) (state : ScopeState) : Bool :=
  state.reserved == 0 && !l.isActive ref && !l.pinnedScope ref

/-- The tracked pools. -/
def poolEntries : List (ScopeRef × ScopeState) :=
  l.books.scopes.entries.filter fun p ↦ p.1.scope == .pool

/-- Historical labels no configured provider owns. -/
def unbound (ref : ScopeRef) : Bool := ref.scope == .pool && !l.pools.known ref.name.units

def hasUnboundPositivePoolHistory : Bool :=
  l.poolEntries.any fun p ↦ l.unbound p.1 && 0 < p.2.spend

/-- The figures of several scopes together. -/
def sumStates (states : List ScopeState) : ScopeState :=
  ⟨(states.map (·.settled)).sum, (states.map (·.reserved)).sum, (states.map (·.unresolved)).sum,
    states.foldl (fun seen state ↦ max seen state.lastSeenAt) 0⟩

/-- The pools that count against a pool: its own group, and unbound ones with a history. -/
def poolMembers (name : SpendAlias) : List (ScopeRef × ScopeState) :=
  l.poolEntries.filter fun p ↦
    if l.unbound p.1 then p.2.spend != 0
    else l.pools.resolve p.1.name.units == l.pools.resolve name.units

/-- The figures a pool is judged by, and whether unbound history is among them. -/
def poolState (name : SpendAlias) : Option (ScopeState × Bool) :=
  let members := l.poolMembers name
  if members = [] then none
  else some (sumStates (members.map (·.2)), members.any fun p ↦ l.unbound p.1)

/-- The figures a scope is judged by. -/
def stateFor (ref : ScopeRef) : Option ScopeState :=
  match ref.scope with
  | .pool => (l.poolState ref.name).map (·.1)
  | .root | .identity => l.books.scopes.get? ref

/-- Has the scope reached its ceiling? -/
def isExhausted (policy : SpendAdmissionPolicy) (scope : SpendScope) (state : ScopeState) : Bool :=
  (policy.maxTokens scope).any fun limit ↦ limit ≤ state.spend

end Figures

/-! ## Writing -/

section Write

variable (store : SpendJournal J) (l : SpendLedger J)

/-- Append a record; whether it reached storage. -/
def append (record : JournalRecord) : SpendLedger J × Bool :=
  let r := store.append l.journal record.line
  if r.2 then ({ l with journal := r.1, recordsOnDisk := l.recordsOnDisk + 1 }, true)
  else ({ l with journal := r.1, persistFailures := l.persistFailures + 1 }, false)

/-- The record is owed to the journal until it is there. -/
def appendReported (record : JournalRecord) : SpendLedger J :=
  let owed := { l with pendingRecords := l.pendingRecords ++ [record] }
  if l.pendingRecords = [] then
    let r := owed.append store record
    if r.2 then { r.1 with pendingRecords := [] } else r.1
  else owed

def flushRecords : List JournalRecord → SpendLedger J → SpendLedger J × Bool
  | [], l => (l, true)
  | record :: records, l =>
    let r := l.append store record
    if r.2 then flushRecords records { r.1 with pendingRecords := records } else (r.1, false)

/-- Pay what is owed to the journal, as far as it goes. -/
def flushPending : SpendLedger J × Bool := flushRecords store l.pendingRecords l

/-- A reservation the journal does not have is owed to it once the send moves on. -/
def repairReservePrefix (send : SpendAlias) (reservation : Reservation) : SpendLedger J :=
  match l.nondurableReserves.get? send with
  | none => l
  | some reserve =>
    { l with
      pendingRecords := l.pendingRecords ++ reserve ::
        if reservation.status = .dispatched then [.dispatch send reservation.resolvedAt] else []
      nondurableReserves := l.nondurableReserves.delete send
      retainedOrdinary := insert send l.retainedOrdinary }

def applyReserve (send : SpendAlias) (targets : List ScopeRef) (tokens time : ℕ) : SpendLedger J :=
  { l with books := l.books.applyReserve send targets tokens time }

def applyResolve (send : SpendAlias) (outcome : Outcome) (time : ℕ) : SpendLedger J :=
  if l.books.isLive send then
    { l with
      books := l.books.applyResolve send outcome time
      nondurableReserves := l.nondurableReserves.delete send
      retainedOrdinary := l.retainedOrdinary.erase send }
  else l

def applyDispatch (send : SpendAlias) (time : ℕ) : SpendLedger J :=
  { l with books := l.books.applyDispatch send time }

def applyForget (send : SpendAlias) : SpendLedger J :=
  if l.books.reservations.has send && !l.books.isLive send then
    { l with
      books := l.books.applyForget send
      nondurableReserves := l.nondurableReserves.delete send
      retainedOrdinary := l.retainedOrdinary.erase send }
  else l

end Write

/-! ## Cleaning up -/

section CleanUp

variable (store : SpendJournal J) (l : SpendLedger J) (time : ℕ) (force : Bool)

/-- Last seen before the retention window. -/
def expired (seenAt : ℕ) : Bool := seenAt + l.policy.retentionMs < time

/-- Write a tombstone and remove the scope; the number removed. -/
def dropScope (ref : ScopeRef) : SpendLedger J × ℕ :=
  let flushed := l.flushPending store
  if !flushed.2 then (flushed.1, 0)
  else
    let r := flushed.1.append store (.drop ref time)
    if !r.2 then (r.1, 0)
    else
      ({ r.1 with books := { r.1.books with scopes := r.1.books.scopes.delete ref } }, 1)

def dropScopes : List ScopeRef → SpendLedger J → SpendLedger J × ℕ
  | [], l => (l, 0)
  | ref :: refs, l =>
    let r := l.dropScope store time ref
    let rest := dropScopes refs r.1
    (rest.1, r.2 + rest.2)

/-- Unbound pools whose own retention is over. -/
def expiredUnbound : List ScopeRef :=
  (l.books.scopes.entries.filter fun p ↦
    l.unbound p.1 && l.idle p.1 p.2 && l.expired time p.2.lastSeenAt).map (·.1)

/-- Pool groups with a live send or a seed. -/
def pinnedPoolGroup (name : JsString) : Bool :=
  (l.books.reservations.entries.any fun p ↦ p.2.status.isLive && p.2.targets.any fun ref ↦
    ref.scope == .pool && l.pools.resolve ref.name.units == l.pools.resolve name) ||
  l.seeds.entries.any fun p ↦ p.2.targets.any fun ref ↦
    ref.scope == .pool && l.pools.resolve ref.name.units == l.pools.resolve name

/-- The figures of a pool group alone. -/
def groupState (name : JsString) : ScopeState :=
  sumStates ((l.poolEntries.filter fun p ↦
    !l.unbound p.1 && l.pools.resolve p.1.name.units == l.pools.resolve name).map (·.2))

/-- The figures of all unbound pools. -/
def overlay : ScopeState := sumStates ((l.poolEntries.filter fun p ↦ l.unbound p.1).map (·.2))

/-- The figures a scope is kept or evicted by. -/
def effective (ref : ScopeRef) (state : ScopeState) : ScopeState :=
  if ref.scope == .pool && !l.unbound ref then
    let group := l.groupState ref.name.units
    ⟨group.settled + l.overlay.settled, group.reserved + l.overlay.reserved,
      group.unresolved + l.overlay.unresolved, group.lastSeenAt⟩
  else state

/-- May the scope be removed?  Never while it is active or exhausted. -/
def evictable (ref : ScopeRef) (state : ScopeState) : Bool :=
  l.idle ref state && !(l.unbound ref && 0 < state.spend) &&
    (l.effective ref state).reserved == 0 &&
    !(ref.scope == .pool && l.pinnedPoolGroup ref.name.units) &&
    !isExhausted l.policy.toSpendAdmissionPolicy ref.scope (l.effective ref state) &&
    (force || l.expired time (l.effective ref state).lastSeenAt)

/-- The scopes a pass removes: all that have expired, or at capacity the oldest one. -/
def scopeCandidates : List ScopeRef :=
  let candidates := l.books.scopes.entries.filter fun p ↦ l.evictable time force p.1 p.2
  let chosen := if force then
      (candidates.insertionSort fun p q ↦ p.2.lastSeenAt ≤ q.2.lastSeenAt).take 1
    else candidates
  chosen.map (·.1)

def evictScopes : SpendLedger J × ℕ :=
  let unbounds := dropScopes store time (l.expiredUnbound time) l
  let r := dropScopes store time (unbounds.1.scopeCandidates time force) unbounds.1
  (r.1, unbounds.2 + r.2)

/-- The sends a pass forgets: all that were resolved before the window, or the oldest one. -/
def sendCandidates : List SpendAlias :=
  let candidates := l.books.reservations.entries.filter fun p ↦
    !p.2.status.isLive && !l.seedBySend.has p.1 && (force || l.expired time p.2.resolvedAt)
  let chosen := if force then
      (candidates.insertionSort fun p q ↦ p.2.resolvedAt ≤ q.2.resolvedAt).take 1
    else candidates
  chosen.map (·.1)

/-- Write a tombstone and forget the send; the number forgotten. -/
def forgetSend (send : SpendAlias) : SpendLedger J × ℕ :=
  let flushed := l.flushPending store
  if !flushed.2 then (flushed.1, 0)
  else
    let r := flushed.1.append store (.forget send time)
    if !r.2 then (r.1, 0)
    else
      ({ r.1 with
          books := { r.1.books with reservations := r.1.books.reservations.delete send }
          nondurableReserves := r.1.nondurableReserves.delete send
          retainedOrdinary := r.1.retainedOrdinary.erase send }, 1)

def forgetSends : List SpendAlias → SpendLedger J → SpendLedger J × ℕ
  | [], l => (l, 0)
  | send :: sends, l =>
    let r := l.forgetSend store time send
    let rest := forgetSends sends r.1
    (rest.1, r.2 + rest.2)

def evictSends : SpendLedger J × ℕ := forgetSends store time (l.sendCandidates time force) l

/-- Replace the journal with a single checkpoint once it has grown past its budget. -/
def compact : SpendLedger J :=
  match store.rewrite with
  | none => l
  | some rewrite =>
    if l.pendingRecords ≠ [] ∨ l.recordsOnDisk < l.policy.compactAfterRecords then l
    else
      let r := rewrite l.journal [(l.books.checkpointRecord time).line]
      if r.2 then { l with journal := r.1, recordsOnDisk := 1 }
      else { l with journal := r.1, persistFailures := l.persistFailures + 1 }

/-- At capacity for sends: forget one after the other until there is room. -/
def roomForSends : ℕ → SpendLedger J → SpendLedger J × Bool
  | 0, l => (l, decide (l.books.reservations.size < l.policy.maxTrackedSends))
  | fuel + 1, l =>
    if l.books.reservations.size < l.policy.maxTrackedSends then (l, true)
    else
      let r := l.evictSends store time true
      if r.2 = 0 then (r.1, false) else roomForSends fuel r.1

/-- How many of a request's scopes are not tracked. -/
def freshCount (refs : List ScopeRef) : ℕ :=
  (refs.filter fun ref ↦ !l.books.scopes.has ref).length

/-- At capacity for scopes: remove the oldest evictable one until there is room. -/
def roomForScopes (refs : List ScopeRef) : ℕ → SpendLedger J → SpendLedger J × Bool
  | 0, l => (l, decide (l.books.scopes.size + l.freshCount refs ≤ l.policy.maxTrackedScopes))
  | fuel + 1, l =>
    if l.books.scopes.size + l.freshCount refs ≤ l.policy.maxTrackedScopes then (l, true)
    else
      let r := l.evictScopes store time true
      if r.2 = 0 then (r.1, false) else roomForScopes refs fuel r.1

/-- The denial when tracking cannot fit the request.  Each round of a loop removes something, so
there are at most as many as there are entries. -/
def makeRoom (refs : List ScopeRef) : SpendLedger J × Option SpendDenial :=
  let l := (l.evictSends store time false).1
  let l := (l.evictScopes store time false).1
  let sends := roomForSends store time (l.books.reservations.size + 1) l
  if !sends.2 then (sends.1, some (.trackingCapacityExhausted none))
  else
    let scopes := roomForScopes store time refs (sends.1.books.scopes.size + 1) sends.1
    if !scopes.2 then (scopes.1, some (.trackingCapacityExhausted (refs.head?.map (·.scope))))
    else (scopes.1, none)

end CleanUp

/-! ## Reserving -/

section Reserve

variable (store : SpendJournal J) (hash : AliasHash) (l : SpendLedger J)

/-- Pool history nobody can be charged with, given the providers in play. -/
def preparePoolContinuity (requestedProvider : Option JsString) : Option SpendDenial :=
  if !l.pools.valid || (validatePoolAliasOwners hash l.policy.poolAliases
      (l.policy.canonicalProviderIds.getD [] ++ requestedProvider.toList)).isSome then
    some .poolHistoryUnresolved
  else none

/-- The ceilings a request is admitted under. -/
def admissionPolicy (request : SpendReservationRequest) : SpendAdmissionPolicy :=
  request.admissionPolicy.getD l.policy.toSpendAdmissionPolicy

/-- Is any of the request's scopes under a ceiling? -/
def enforced (request : SpendReservationRequest) : Bool :=
  (refsFor hash request.scopes).any fun ref ↦
    ((l.admissionPolicy request).maxTokens ref.scope).isSome

/-- The denial of one scope whose ceiling the request would cross. -/
def scopeDenial (request : SpendReservationRequest) (ref : ScopeRef) : Option SpendDenial :=
  if request.alreadySent then none
  else ((l.admissionPolicy request).maxTokens ref.scope).bind fun limit ↦
    let projected := ((l.stateFor ref).map ScopeState.spend).getD 0 + request.tokens
    if limit < projected then
      some (.spendLimitExceeded ref.scope (request.scopeId ref.scope) limit
        projected (ref.scope == .pool && ((l.poolState ref.name).map (·.2)).getD false))
    else none

/-- What refuses a request before any room is made for it; `pendingDurable` says that nothing is
owed to the journal. -/
def denialBeforeRoom (request : SpendReservationRequest) (pendingDurable : Bool) :
    Option SpendDenial :=
  let send := hash .send request.sendId
  let enforced := l.enforced hash request
  if l.books.reservations.has send || l.seedBySend.has send then
    some (.duplicateSendId request.sendId)
  else if enforced && 0 < l.corruptRecords then some (.journalCorrupt l.corruptRecords)
  else if enforced && !request.alreadySent && !pendingDurable then
    some (.reserveNotDurable request.sendId)
  else if enforced && !request.alreadySent then l.preparePoolContinuity hash request.scopes.poolId
  else none

/-- Write the reservation, and book it: under a ceiling only if it reached the journal. -/
def book (request : SpendReservationRequest) (time : ℕ) :
    SpendLedger J × SpendReservationDecision :=
  let send := hash .send request.sendId
  let refs := refsFor hash request.scopes
  let record := JournalRecord.reserve send refs request.tokens time
  let r := l.append store record
  if !r.2 && l.enforced hash request && !request.alreadySent then
    (r.1, .error (.reserveNotDurable request.sendId))
  else
    let booked := r.1.applyReserve send refs request.tokens time
    let booked := if r.2 then booked else
      { booked with nondurableReserves := booked.nondurableReserves.set send record }
    (booked.compact store time, .ok ⟨request.sendId, request.tokens, r.2⟩)

def reserve (request : SpendReservationRequest) (now : ℕ) :
    SpendLedger J × SpendReservationDecision :=
  let flushed := l.flushPending store
  let time := request.time.getD now
  match flushed.1.denialBeforeRoom hash request flushed.2 with
  | some denial => (flushed.1, .error denial)
  | none =>
    let refs := refsFor hash request.scopes
    let room := flushed.1.makeRoom store time refs
    match room.2 with
    | some denial => (room.1, .error denial)
    | none =>
      match refs.findSome? (room.1.scopeDenial request) with
      | some denial => (room.1, .error denial)
      | none => room.1.book store hash request time

end Reserve

/-! ## Seeds -/

section Seeds

variable (store : SpendJournal J) (hash : AliasHash) (l : SpendLedger J)

/-- A scope is pinned once more. -/
def pin (pinned : OMap ScopeRef ℕ) (ref : ScopeRef) : OMap ScopeRef ℕ :=
  pinned.set ref ((pinned.get? ref).getD 0 + 1)

def unpin (pinned : OMap ScopeRef ℕ) (ref : ScopeRef) : OMap ScopeRef ℕ :=
  if (pinned.get? ref).getD 0 - 1 = 0 then pinned.delete ref
  else pinned.set ref ((pinned.get? ref).getD 0 - 1)

/-- Reserve a seed: a first send, and the right to report further sends against its scopes. -/
def reserveSeed (request : SpendReservationRequest) (owner : Option ℕ) (now : ℕ) :
    SpendLedger J × Except SpendDenial ℕ :=
  let r := l.reserve store hash { request with alreadySent := false } now
  match r.2 with
  | .error denial => (r.1, .error denial)
  | .ok _ =>
    let send := hash .send request.sendId
    let targets := ((r.1.books.reservations.get? send).map (·.targets)).getD []
    ({ r.1 with
        seeds := r.1.seeds.set r.1.seedCount ⟨request.sendId, targets, [send], false, owner⟩
        seedCount := r.1.seedCount + 1
        seedBySend := r.1.seedBySend.set send r.1.seedCount
        pinnedKeys := targets.foldl pin r.1.pinnedKeys }, .ok r.1.seedCount)

/-- Report a send that has left against a seed. -/
def reserveReportedFromSeed (seed : ℕ) (sendId : JsString) (inputTokens outputCeilingTokens : JsNumber)
    (now : ℕ) : SpendLedger J × Bool :=
  match l.seeds.get? seed with
  | none => (l, false)
  | some owned =>
    let send := hash .send sendId
    let tokens := sanitizeTokens inputTokens + sanitizeTokens outputCeilingTokens
    if owned.abandoned || owned.targets.any fun ref ↦ !l.books.scopes.has ref then (l, false)
    else if l.books.reservations.has send || l.seedBySend.has send then
      (l, l.seedBySend.get? send == some seed && (l.books.reservations.get? send).any fun r ↦
        r.status.isLive && r.tokens == tokens)
    else
      let booked := l.applyReserve send owned.targets tokens now
      let enrolled := { booked with
        seeds := booked.seeds.set seed { owned with sends := owned.sends ++ [send] }
        seedBySend := booked.seedBySend.set send seed }
      let reported := enrolled.appendReported store (.reserve send owned.targets tokens now)
      (reported.compact store now, true)

/-- The reporters that hold up the cleanup of an owner, or of the installation. -/
def activeReporters (owner : Option ℕ) : ℕ :=
  match owner with
  | none => l.reporters
  | some owner => (l.ownerReporters.get? owner).getD 0

/-- Forget sends one after the other; stops where a tombstone cannot be written. -/
def forgetEach (now : ℕ) : List SpendAlias → SpendLedger J → SpendLedger J × Bool
  | [], l => (l, true)
  | send :: sends, l =>
    if !l.books.reservations.has send then forgetEach now sends l
    else
      let r := l.append store (.forget send now)
      if !r.2 then (r.1, false) else forgetEach now sends (r.1.applyForget send)

def forgetResolved (sendIds : List JsString) (owner : Option ℕ) (now : ℕ) : SpendLedger J × Bool :=
  if 0 < l.activeReporters owner then (l, false)
  else
    let sends := (sendIds.map (hash .send)).reverse.dedup.reverse
    if sends.any fun send ↦ (l.seedBySend.get? send).any fun seed ↦
        (l.seeds.get? seed).any fun owned ↦ owned.owner != owner then (l, false)
    else
      let flushed := l.flushPending store
      if !flushed.2 then (flushed.1, false)
      else if sends.any flushed.1.books.isLive then (flushed.1, false)
      else forgetEach store now sends flushed.1

/-- The anchor of an abandoned seed is forgotten before the seed is finished. -/
def forgetAnchor (owned : SeedState) (now : ℕ) : SpendLedger J × Bool :=
  let send := hash .send owned.sendId
  if l.books.reservations.has send then
    let r := l.append store (.forget send now)
    if !r.2 then (r.1, false) else (r.1.applyForget send, true)
  else (l, true)

def finishSeed (seed : ℕ) (owner : Option ℕ) (now : ℕ) : SpendLedger J × Bool :=
  match l.seeds.get? seed with
  | none => (l, false)
  | some owned =>
    if owned.owner ≠ owner then (l, false)
    else
      let flushed := l.flushPending store
      if !flushed.2 then (flushed.1, false)
      else
        let r := if owned.abandoned then flushed.1.forgetAnchor store hash owned now
          else (flushed.1, flushed.1.activeReporters owner == 0)
        if !r.2 then (r.1, false)
        else if owned.sends.any r.1.books.reservations.has then (r.1, false)
        else
          ({ r.1 with
              seeds := r.1.seeds.delete seed
              seedBySend := owned.sends.foldl OMap.delete r.1.seedBySend
              pinnedKeys := owned.targets.foldl unpin r.1.pinnedKeys }, true)

def registerReporter (owner : Option ℕ) : SpendLedger J :=
  { l with
    reporters := l.reporters + 1
    ownerReporters := match owner with
      | none => l.ownerReporters
      | some id => l.ownerReporters.set id (l.activeReporters (some id) + 1) }

/-- Close a reporter that was registered and is still open. -/
def closeReporter (owner : Option ℕ) : SpendLedger J :=
  { l with
    reporters := l.reporters - 1
    ownerReporters := match owner with
      | none => l.ownerReporters
      | some id =>
        if l.activeReporters (some id) - 1 = 0 then l.ownerReporters.delete id
        else l.ownerReporters.set id (l.activeReporters (some id) - 1) }

end Seeds

/-! ## Moving a send on -/

section Sends

variable (store : SpendJournal J) (hash : AliasHash) (l : SpendLedger J)

/-- Sends whose records are owed to the journal until they are there. -/
def retained (send : SpendAlias) : Bool := l.seedBySend.has send || decide (send ∈ l.retainedOrdinary)

def markDispatched (sendId : JsString) (now : ℕ) : SpendLedger J × Bool :=
  let send := hash .send sendId
  match l.books.reservations.get? send with
  | none => (l, false)
  | some r =>
    if r.status = .dispatched ∧ l.seedBySend.has send = true then (l, true)
    else if r.status ≠ .opened then (l, false)
    else
      let moved := (l.repairReservePrefix send r).applyDispatch send now
      let record := JournalRecord.dispatch send now
      (if moved.retained send then moved.appendReported store record
        else (moved.append store record).1, true)

/-- The seed of a send will not be used. -/
def abandonSeed (seed : ℕ) : SpendLedger J :=
  match l.seeds.get? seed with
  | none => l
  | some owned => { l with seeds := l.seeds.set seed { owned with abandoned := true } }

def abandon (sendId : JsString) (now : ℕ) : SpendLedger J × Bool :=
  let send := hash .send sendId
  match l.books.reservations.get? send with
  | none => (l, false)
  | some r =>
    if r.status ≠ .opened then (l, false)
    else
      let record := JournalRecord.abandon send now
      match l.seedBySend.get? send with
      | some seed =>
        let flushed := l.flushPending store
        if !flushed.2 then (flushed.1, false)
        else
          let written := flushed.1.append store record
          if !written.2 then (written.1, false)
          else ((written.1.applyResolve send .abandoned now).abandonSeed seed, true)
      | none => (((l.applyResolve send .abandoned now).append store record).1, true)

/-- Append a record that must not be lost, behind what is owed already. -/
def appendTerminal (record : JournalRecord) : SpendLedger J :=
  if l.pendingRecords ≠ [] then { l with pendingRecords := l.pendingRecords ++ [record] }
  else
    let r := l.append store record
    if r.2 then r.1 else { r.1 with pendingRecords := r.1.pendingRecords ++ [record] }

/-- Resolve a send that is live, and write so. -/
def resolveSend (sendId : JsString) (outcome : Outcome) (record : SpendAlias → JournalRecord)
    (now : ℕ) : SpendLedger J × Bool :=
  let send := hash .send sendId
  match l.books.reservations.get? send with
  | none => (l, false)
  | some r =>
    if !r.status.isLive then (l, false)
    else
      let repaired := l.repairReservePrefix send r
      if repaired.retained send then
        ((repaired.appendTerminal store (record send)).applyResolve send outcome now, true)
      else (((repaired.applyResolve send outcome now).append store (record send)).1, true)

/-- Settle with real usage. -/
def settle (sendId : JsString) (usage : SpendUsage) (now : ℕ) : SpendLedger J × Bool :=
  l.resolveSend store hash sendId (.settled usage.tokens) (.settle · usage.tokens now) now

/-- Usage never arrived: the reservation becomes unresolved spend. -/
def markLost (sendId : JsString) (now : ℕ) : SpendLedger J × Bool :=
  l.resolveSend store hash sendId .lost (.lost · now) now

end Sends

/-! ## Reading and maintenance -/

section Maintenance

variable (store : SpendJournal J) (hash : AliasHash) (l : SpendLedger J)

def knows (sendId : JsString) : Bool :=
  l.books.reservations.has (hash .send sendId) || l.seedBySend.has (hash .send sendId)

/-- Has the scope reached its ceiling?  A current dispatch's own open reservation is left out. -/
def exhausted (scope : SpendScope) (scopeId : JsString) (excludingSendId : Option JsString)
    (admissionPolicy : Option SpendAdmissionPolicy) : Bool :=
  let name := hash (.scope scope) scopeId
  (l.stateFor ⟨scope, name⟩).any fun state ↦
    let own := (excludingSendId.bind fun id ↦ l.books.reservations.get? (hash .send id)).filter
      fun r ↦ r.status == .opened && r.targets.any fun target ↦ target.scope == scope &&
        match scope with
        | .pool => l.unbound target ||
            l.pools.resolve target.name.units == l.pools.resolve name.units
        | .root | .identity => target.name == name
    let totals := { state with reserved := state.reserved - (own.map (·.tokens)).getD 0 }
    isExhausted (admissionPolicy.getD l.policy.toSpendAdmissionPolicy) scope totals

def prune (time : ℕ) : SpendLedger J :=
  let l := (l.flushPending store).1
  let l := (l.evictSends store time false).1
  (l.evictScopes store time false).1

def reconfigure (next : SpendReservationPolicy) : SpendLedger J :=
  { l with
    policy := next
    pools := resolvePoolAliases hash next.poolAliases next.canonicalProviderIds }

end Maintenance

/-! ## Restart -/

section Restart

variable (store : SpendJournal J) (hash : AliasHash)

/-- What replay makes of one line; `last` marks the final one.  The second component counts the
records that were rejected although they cannot be a torn tail. -/
def replayLine (last : Bool) (state : Books × ℕ) (line : JsString) : Books × ℕ :=
  match parseSpendJournalRecord line with
  | some record => (state.1.apply record, state.2)
  | none =>
    if (Json.parse line).isSome || !last then (state.1, state.2 + 1) else state

/-- The books a journal says, and how many of its records were rejected. -/
def replay : List JsString → Books × ℕ → Books × ℕ
  | [], state => state
  | line :: lines, state => replay lines (replayLine lines.isEmpty state line)

/-- Give up what a live send has reserved, as unresolved spend. -/
def reconcileLive (now : ℕ) (enforced : Bool) (l : SpendLedger J) (send : SpendAlias) :
    SpendLedger J :=
  if l.books.isLive send then
    let r := l.append store (.lost send now)
    let resolved := r.1.applyResolve send .lost now
    if !r.2 && enforced then
      { resolved with pendingRecords := resolved.pendingRecords ++ [.lost send now] }
    else resolved
  else l

/-- A send that survived replay has no owner left: a live one is lost, and under a ceiling its
identity is reclaimed. -/
def reconcile (now : ℕ) (enforced : Bool) (l : SpendLedger J) (send : SpendAlias) : SpendLedger J :=
  let l := reconcileLive store now enforced l send
  if !enforced then l
  else
    let flushed := l.flushPending store
    if !flushed.2 then flushed.1
    else
      let r := flushed.1.append store (.forget send now)
      if r.2 then r.1.applyForget send else r.1

/-- The ledger replay builds, before it is reconciled. -/
def replayed (policy : SpendReservationPolicy) (journal : J) : SpendLedger J :=
  let lines := store.read journal
  let state := replay lines (.empty, 0)
  { policy, journal
    pools := resolvePoolAliases hash policy.poolAliases policy.canonicalProviderIds
    books := state.1
    seeds := .empty
    seedCount := 0
    seedBySend := .empty
    pinnedKeys := .empty
    pendingRecords := []
    nondurableReserves := .empty
    retainedOrdinary := ∅
    reporters := 0
    ownerReporters := .empty
    persistFailures := 0
    corruptRecords := state.2
    recordsOnDisk := lines.length }

/-- `createSpendReservationLedger`: replay the journal, and reconcile what it left live. -/
def create (policy : SpendReservationPolicy) (journal : J) (now : ℕ) : SpendLedger J :=
  let l := replayed store hash policy journal
  l.books.reservations.keys.foldl
    (reconcile store now policy.spendCeilingsConfigured) l

end Restart

end SpendLedger

end Spend
