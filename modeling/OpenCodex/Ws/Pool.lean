import OpenCodex.Data.Machine
import OpenCodex.Data.OMap
import Mathlib.Data.List.Sort

/-!
# The pool of retained upstream sockets

A conversation that talks to the upstream over a WebSocket keeps its socket between requests.  The
pool lends a socket to one request at a time: a request *claims* the socket kept under its identity
key or dials a fresh one, and when the socket it wants is busy it may *wait* for it, in a queue that
is served by the callback with which a session announces that it has been released.

The session objects are numbered in the order they are made, and a session carries the key of the
entry its callback was made with.  What the pool did is written to a `log` — which sessions were
made and for whom, who was lent which, what came back, who waits and what became of the wait — which
nothing reads; it is what the results are about.

A `sweep` and a `dispose` may happen at any moment.  The callback by which a closing session tells
its exchange is left out: the exchange can only release a session that is closed by then.
-/

set_option autoImplicit false

namespace Ws

/-! ## Constants -/

def maxCodexWsSessionExchanges : ℕ := 32

def codexWsPoolMaxSessions : ℕ := 32

def codexWsPoolIdleMs : ℕ := 30000

def codexWsPoolMaxAgeMs : ℕ := 5 * 60000

/-- Retained sockets per account and thread while cross-turn reuse is on. -/
def codexWsPoolScopeLimit : ℕ := 2

def codexWsPoolWaitDepth : ℕ := 2

def codexWsCrossTurnIdleMs : ℕ := 60000

def codexWsCrossTurnMaxAgeMs : ℕ := 10 * 60000

/-! ## Sessions -/

/-- One physical socket and its lease. -/
structure Session where
  opened : Bool
  closed : Bool
  busy : Bool
  crossTurnReuse : Bool
  completedIds : List String
  retainable : Bool
  /-- The state the socket reports, if it reports one; 1 is open. -/
  readyState : Option ℕ
  /-- The key of the entry that the `changed` callback was made with. -/
  entryKey : String
  deriving DecidableEq, Repr

namespace Session

/-- A session as the pool constructs it. -/
def new (key : String) : Session :=
  ⟨false, false, false, false, [], true, none, key⟩

def markCrossTurnReuse (s : Session) : Session := { s with crossTurnReuse := true }

/-- `readyState` is known and not open. -/
def socketNotOpen (s : Session) : Bool := s.readyState.any (· != 1)

def reserve (s : Session) : Option Session :=
  if s.closed || s.busy || (s.opened && s.socketNotOpen) then none
  else some { s with busy := true }

/-- What `dispose` and the socket's own close leave behind. -/
def close (s : Session) : Session := { s with closed := true, busy := false, completedIds := [] }

/-- The completed exchanges once this one is added to them. -/
def completedWith (s : Session) (id : String) : List String :=
  if id ∈ s.completedIds then s.completedIds else s.completedIds ++ [id]

/-- Whether a release hands the socket back rather than disposing of it. -/
def retains (s : Session) (completedId : Option String) : Bool :=
  match completedId with
  | none => false
  | some id => s.retainable && id != "" && s.opened && !s.socketNotOpen
      && decide ((s.completedWith id).length < maxCodexWsSessionExchanges)

end Session

/-! ## The pool -/

/-- What a request is known by: digests of its lane, its conversation, its route and its turn. -/
structure CodexWsReuseIdentity where
  key : String
  scope : String
  routeTag : String
  turn : String
  deriving DecidableEq, Repr

structure Entry where
  identity : CodexWsReuseIdentity
  session : ℕ
  createdAt : ℕ
  idleAt : ℕ
  retired : Bool
  /-- The socket was opened while cross-turn reuse was on, so it uses the wider windows. -/
  crossTurn : Bool
  deriving DecidableEq, Repr

/-- A request in the queue.  The code keeps its key only; `request` is the whole of what was asked
for, which nothing reads. -/
structure Waiter where
  id : ℕ
  key : String
  request : CodexWsReuseIdentity
  deriving DecidableEq, Repr

structure PoolOptions where
  maxSessions : ℕ
  idleMs : ℕ
  maxAgeMs : ℕ
  crossTurnIdleMs : ℕ
  crossTurnMaxAgeMs : ℕ
  deriving DecidableEq, Repr

def PoolOptions.default : PoolOptions :=
  ⟨codexWsPoolMaxSessions, codexWsPoolIdleMs, codexWsPoolMaxAgeMs, codexWsCrossTurnIdleMs,
    codexWsCrossTurnMaxAgeMs⟩

/-- How long a retained socket may lie idle, and how old it may get. -/
def PoolOptions.windows (o : PoolOptions) (entry : Entry) : ℕ × ℕ :=
  if entry.crossTurn then (o.crossTurnIdleMs, o.crossTurnMaxAgeMs) else (o.idleMs, o.maxAgeMs)

/-- A session is lent. -/
structure HandOver where
  /-- The request it is lent to. -/
  request : CodexWsReuseIdentity
  /-- The entry it is lent from, as it stands. -/
  entry : Entry
  /-- The session as it stands, before it is reserved. -/
  lease : Session
  time : ℕ
  deriving DecidableEq, Repr

inductive Note where
  /-- A session was made, for this entry. -/
  | made (entry : Entry)
  | lent (h : HandOver)
  /-- A session was released or closed. -/
  | back (session : ℕ)
  | waits (waiter : Waiter)
  /-- A waiter's promise was resolved, with this session or with none. -/
  | resolved (waiter : Waiter) (session : Option ℕ)
  deriving DecidableEq, Repr

structure CodexWsPool where
  options : PoolOptions
  entries : OMap String Entry
  waiters : List Waiter
  /-- Every session object made so far, by number. -/
  sessions : ℕ → Session
  /-- The number of the next session. -/
  made : ℕ
  /-- The number of the next waiter. -/
  arrivals : ℕ
  now : ℕ
  log : List Note

/-- What the two switches say while a request is claiming. -/
structure Switches where
  codexWsReuseAcrossTurnsEnabled : Bool
  codexWsCrossTurnReuseEnabled : Bool
  deriving DecidableEq, Repr

namespace CodexWsPool

def new (o : PoolOptions) : CodexWsPool :=
  ⟨o, .empty, [], fun _ ↦ Session.new "", 0, 0, 0, []⟩

variable (p : CodexWsPool)

def note (n : Note) : CodexWsPool := { p with log := p.log ++ [n] }

def putSession (sid : ℕ) (s : Session) : CodexWsPool :=
  { p with sessions := Function.update p.sessions sid s }

def putEntry (entry : Entry) : CodexWsPool :=
  { p with entries := p.entries.set entry.identity.key entry }

def dropEntry (key : String) : CodexWsPool := { p with entries := p.entries.delete key }

/-- The entry a session's callback was made with, while it is the one in the map. -/
def entryOf (sid : ℕ) : Option Entry :=
  (p.entries.get? (p.sessions sid).entryKey).filter fun entry ↦ entry.session = sid

/-! ### Closing -/

/-- `changed` when the session is closed. -/
def changedClosed (sid : ℕ) : CodexWsPool :=
  match p.entryOf sid with
  | none => p
  | some entry => p.dropEntry entry.identity.key

/-- A session stops for good, and its callback runs. -/
def closeSession (sid : ℕ) : CodexWsPool :=
  ((p.putSession sid (p.sessions sid).close).note (.back sid)).changedClosed sid

/-- `session.dispose`. -/
def disposeSession (sid : ℕ) : CodexWsPool :=
  if (p.sessions sid).closed then p else p.closeSession sid

/-- `remove`. -/
def remove (entry : Entry) : CodexWsPool :=
  (if (p.entries.get? entry.identity.key).any (·.session = entry.session)
    then p.dropEntry entry.identity.key else p).disposeSession entry.session

/-- The entries that a sweep removes: idle ones that are closed, retired or past a window. -/
def expired (entry : Entry) : Bool :=
  let (idleMs, maxAgeMs) := p.options.windows entry
  !(p.sessions entry.session).busy && ((p.sessions entry.session).closed || entry.retired
    || decide (idleMs ≤ p.now - entry.idleAt) || decide (maxAgeMs ≤ p.now - entry.createdAt))

/-- `sweep`; the map is walked while entries are deleted from it, each its own only. -/
def sweep : CodexWsPool :=
  p.entries.entries.foldl (fun p e ↦ if p.expired e.2 then p.remove e.2 else p) p

/-! ### Lending -/

/-- A reserved session goes to a request. -/
def lend (request : CodexWsReuseIdentity) (entry : Entry) (reserved : Session) : CodexWsPool :=
  (p.putSession entry.session reserved).note
    (.lent ⟨request, entry, p.sessions entry.session, p.now⟩)

/-- `finishWaiter`; a waiter that is no longer in the queue is left alone. -/
def finishWaiter (waiter : Waiter) (session : Option ℕ) : CodexWsPool :=
  if waiter ∈ p.waiters then
    { p with waiters := p.waiters.erase waiter }.note (.resolved waiter session)
  else p

/-- An entry whose session came back and is wanted by nobody. -/
def settle (entry : Entry) : CodexWsPool :=
  let entry := { entry with idleAt := p.now }
  let p := p.putEntry entry
  if entry.retired || decide ((p.options.windows entry).2 ≤ entry.idleAt - entry.createdAt)
  then p.remove entry else p

/-- `changed`: the callback of a session that was released or closed. -/
def changed (sid : ℕ) : CodexWsPool :=
  match p.entryOf sid with
  | none => p
  | some entry =>
    if (p.sessions sid).closed then p.dropEntry entry.identity.key
    else if (p.sessions sid).busy then p
    else match p.waiters.find? (·.key = entry.identity.key) with
      | none => p.settle entry
      | some waiter =>
        if entry.retired then p.settle entry
        else match (p.sessions sid).reserve with
          | none => p.settle entry
          | some reserved =>
            (p.lend waiter.request entry reserved).finishWaiter waiter (some sid)

/-- `session.release`. -/
def release (sid : ℕ) (completedId : Option String) : CodexWsPool :=
  let s := p.sessions sid
  if s.closed then p
  else match completedId with
    | none => p.disposeSession sid
    | some id =>
      if s.retains (some id) then
        ((p.putSession sid { s with busy := false, completedIds := s.completedWith id }).note
          (.back sid)).changed sid
      else p.disposeSession sid

/-! ### Claiming -/

/-- `retireSiblings`: the other lanes of the conversation are given up. -/
def retireSiblings (w : Switches) (identity : CodexWsReuseIdentity) : CodexWsPool :=
  p.entries.entries.foldl (fun p e ↦
    let entry := e.2
    if entry.identity.scope ≠ identity.scope ∨ entry.identity.key = identity.key then p
    else if w.codexWsReuseAcrossTurnsEnabled ∧ entry.identity.routeTag = identity.routeTag then p
    else
      let entry := { entry with retired := true }
      let p := p.putEntry entry
      if (p.sessions entry.session).busy then p else p.remove entry) p

def scopeCount (scope : String) : ℕ :=
  (p.entries.entries.filter fun e ↦ e.2.identity.scope = scope && !e.2.retired).length

/-- The idle entry, among those meeting `q`, that has been idle longest. -/
def oldestIdle (q : Entry → Bool) : Option Entry :=
  (((p.entries.entries.map Prod.snd).filter fun e ↦ q e && !(p.sessions e.session).busy).mergeSort
    fun left right ↦ left.idleAt ≤ right.idleAt).head?

/-- The outcome of a claim: the session lent, and whether one to wait for is busy. -/
structure Claimed where
  pool : CodexWsPool
  session : Option ℕ
  busy : Bool

/-- A fresh socket is dialled and lent. -/
def dial (w : Switches) (identity : CodexWsReuseIdentity) : Claimed :=
  let entry : Entry := ⟨identity, p.made, p.now, p.now, false, w.codexWsCrossTurnReuseEnabled⟩
  let s := Session.new identity.key
  let p := { p with made := p.made + 1 }.putSession entry.session s
  let p := (p.note (.made entry)).lend identity entry { s with busy := true }
  ⟨p.putEntry entry, some entry.session, false⟩

/-- The end of a claim: make room under the pool's cap, then dial. -/
def claimFresh (w : Switches) (identity : CodexWsReuseIdentity) : Claimed :=
  if p.options.maxSessions ≤ p.entries.size then
    match p.oldestIdle fun _ ↦ true with
    | none => ⟨p, none, false⟩
    | some oldest => (p.remove oldest).dial w identity
  else p.dial w identity

/-- `claim`, once the sweep is made and the siblings are retired. -/
def claimSwept (w : Switches) (identity : CodexWsReuseIdentity) : Claimed :=
  match p.entries.get? identity.key with
  | some existing =>
    if existing.retired then ⟨p, none, false⟩
    else if (p.sessions existing.session).busy then ⟨p, none, true⟩
    else
      let p := if existing.identity.turn ≠ identity.turn then
          p.putSession existing.session (p.sessions existing.session).markCrossTurnReuse
        else p
      match (p.sessions existing.session).reserve with
      | some reserved => ⟨p.lend identity existing reserved, some existing.session, false⟩
      | none => (p.remove existing).claimFresh w identity
  | none =>
    if w.codexWsReuseAcrossTurnsEnabled ∧ codexWsPoolScopeLimit ≤ p.scopeCount identity.scope then
      match p.oldestIdle fun entry ↦ entry.identity.scope = identity.scope with
      | none => ⟨p, none, false⟩
      | some oldest => (p.remove oldest).claimFresh w identity
    else p.claimFresh w identity

def claim (w : Switches) (identity : CodexWsReuseIdentity) : Claimed :=
  (p.sweep.retireSiblings w identity).claimSwept w identity

def acquire (w : Switches) (identity : CodexWsReuseIdentity) : CodexWsPool :=
  (p.claim w identity).pool

/-- A request joins the queue. -/
def enqueue (identity : CodexWsReuseIdentity) : CodexWsPool :=
  let waiter : Waiter := ⟨p.arrivals, identity.key, identity⟩
  { p with waiters := p.waiters ++ [waiter], arrivals := p.arrivals + 1 }.note (.waits waiter)

def acquireWaiting (w : Switches) (identity : CodexWsReuseIdentity) (aborted : Bool) :
    CodexWsPool :=
  let claimed := p.claim w identity
  let p := claimed.pool
  if claimed.session.isSome || !claimed.busy then p
  else if aborted then p
  else if codexWsPoolWaitDepth ≤ (p.waiters.filter (·.key = identity.key)).length then p
  else p.enqueue identity

/-- `dispose`: the map is emptied, the queue turned away, and every session closed. -/
def dispose : CodexWsPool :=
  let entries := p.entries.entries
  let p := { p with entries := .empty }
  let p := p.waiters.foldl (fun p waiter ↦ p.finishWaiter waiter none) p
  entries.foldl (fun p e ↦ p.disposeSession e.2.session) p

end CodexWsPool

/-! ## The machine -/

/-- What can happen to a pool. -/
inductive Event where
  | acquire (w : Switches) (identity : CodexWsReuseIdentity)
  | acquireWaiting (w : Switches) (identity : CodexWsReuseIdentity) (aborted : Bool)
  /-- The timer of a waiter, or its abort signal. -/
  | giveUp (waiter : Waiter)
  | release (sid : ℕ) (completedId : Option String)
  | disposeSession (sid : ℕ)
  | onOpen (sid : ℕ)
  | onIdleMessage (sid : ℕ)
  | onIdleError (sid : ℕ)
  | onClose (sid : ℕ)
  /-- What the socket reports of itself changes. -/
  | readyState (sid : ℕ) (state : Option ℕ)
  | sweep
  | dispose
  | tick (ms : ℕ)
  deriving DecidableEq, Repr

open CodexWsPool

/-- The listeners of a closed session are detached, so a socket speaks to an unclosed one only. -/
def CodexWsPool.listening (p : CodexWsPool) (sid : ℕ) : Bool :=
  decide (sid < p.made) && !(p.sessions sid).closed

def step (p : CodexWsPool) : Event → Option CodexWsPool
  | .acquire w identity => some (p.acquire w identity)
  | .acquireWaiting w identity aborted => some (p.acquireWaiting w identity aborted)
  | .giveUp waiter => some (p.finishWaiter waiter none)
  | .release sid completedId => if sid < p.made then some (p.release sid completedId) else none
  | .disposeSession sid => if sid < p.made then some (p.disposeSession sid) else none
  | .onOpen sid =>
    if p.listening sid then some (p.putSession sid { p.sessions sid with opened := true }) else none
  | .onIdleMessage sid | .onIdleError sid =>
    if p.listening sid then
      some (if (p.sessions sid).busy then p else p.disposeSession sid)
    else none
  | .onClose sid => if p.listening sid then some (p.closeSession sid) else none
  | .readyState sid state =>
    if sid < p.made then some (p.putSession sid { p.sessions sid with readyState := state })
    else none
  | .sweep => some p.sweep
  | .dispose => some p.dispose
  | .tick ms => some { p with now := p.now + ms }

/-- A pool and everything that may happen to it. -/
def machine (o : PoolOptions) : Machine CodexWsPool Event where
  init p := p = .new o
  step := step

end Ws
