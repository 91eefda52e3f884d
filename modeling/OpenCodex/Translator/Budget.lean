import OpenCodex.Data.OMap
import Mathlib.Algebra.Order.Ring.Rat

/-!
# The translator's memory budget

A turn that is translated between wire formats keeps bytes in many buffers: arguments of tool calls,
reasoning texts, collected events.  Each turn has a budget.  A charge names the kind of buffer and
perhaps a call; what is charged without a call is counted under its kind, what is charged to a call
is counted with the call, and the budget keeps the sum of both and refuses what would take it over
the turn's limit.  Memory that is bounded elsewhere is only *observed*.

Beside the budgets the process keeps two aggregates, the bytes and the active calls of all of them.
Every operation moves its budget and the aggregates together, so they are passed along as a pair.

A byte count comes in as a number that may be negative, fractional or not finite at all (`none`);
`normalizeBytes` makes a natural number of it.
-/

set_option autoImplicit false

namespace Translator

/-! ## Budgets -/

inductive TranslatorBufferKind where
  | toolArgs
  | retainedCollectors
  | liveTransient
  | reasoning
  | itemIds
  | toolSearchSources
  | cursorTransport
  | cursorKv
  | requestCopies
  deriving DecidableEq

def TranslatorBufferKind.text : TranslatorBufferKind → String
  | .toolArgs => "tool_args"
  | .retainedCollectors => "retained_collectors"
  | .liveTransient => "live_transient"
  | .reasoning => "reasoning"
  | .itemIds => "item_ids"
  | .toolSearchSources => "tool_search_sources"
  | .cursorTransport => "cursor_transport"
  | .cursorKv => "cursor_kv"
  | .requestCopies => "request_copies"

structure TranslatorBudgetExceededError where
  kind : TranslatorBufferKind
  limitBytes : ℕ
  deriving DecidableEq

def TranslatorBudgetExceededError.message (e : TranslatorBudgetExceededError) : String :=
  "translator " ++ e.kind.text ++ " buffer exceeded " ++ toString e.limitBytes ++ " bytes"

/-- What a charge is for. -/
structure ChargeScope where
  kind : TranslatorBufferKind
  callId : Option String
  deriving DecidableEq

/-- The call a scope names; an empty id names none. -/
def ChargeScope.call (scope : ChargeScope) : Option String := scope.callId.filter (· ≠ "")

/-- A call that a budget tracks. -/
structure Call where
  logicalBytes : ℕ
  physicalBytes : ℕ
  deriving DecidableEq

structure Budget where
  maxCallArgumentBytes : ℕ
  maxTurnBytes : ℕ
  calls : OMap String Call
  /-- What is charged under each kind, apart from calls. -/
  charged : OMap TranslatorBufferKind ℕ
  hardChargedBytes : ℕ
  observedBytes : ℕ
  currentBytes : ℕ
  highWaterBytes : ℕ
  overflowCount : ℕ
  disposed : Bool
  deriving DecidableEq

/-- What the process keeps of all budgets. -/
structure Aggregates where
  currentBytes : ℤ
  activeCalls : ℕ
  highWaterBytes : ℤ
  overflows : ℕ
  deriving DecidableEq

def translatorMaxCallArgumentBytes : ℕ := 2 * 1024 * 1024

def translatorMaxTurnBytes : ℕ := 32 * 1024 * 1024

structure TranslatorBudgetOptions where
  maxCallArgumentBytes : Option ℕ
  maxTurnBytes : Option ℕ

def Budget.create (options : TranslatorBudgetOptions) : Budget where
  maxCallArgumentBytes := options.maxCallArgumentBytes.getD translatorMaxCallArgumentBytes
  maxTurnBytes := options.maxTurnBytes.getD translatorMaxTurnBytes
  calls := .empty
  charged := .empty
  hardChargedBytes := 0
  observedBytes := 0
  currentBytes := 0
  highWaterBytes := 0
  overflowCount := 0
  disposed := false

/-- Fractions are dropped, and what is not a positive finite number counts as nothing. -/
def normalizeBytes (bytes : Option ℚ) : ℕ :=
  match bytes with
  | none => 0
  | some b => if 0 < b then b.floor.toNat else 0

def observeAggregate (agg : Aggregates) : Aggregates :=
  { agg with highWaterBytes := max agg.highWaterBytes agg.currentBytes }

namespace Budget

variable (b : Budget) (agg : Aggregates)

/-- What is charged under a kind. -/
def chargedFor (kind : TranslatorBufferKind) : ℕ := (b.charged.get? kind).getD 0

/-- A call as tracked, or one that was not charged yet. -/
def callOf (id : String) : Call := (b.calls.get? id).getD ⟨0, 0⟩

/-- Carry a change of the budget's bytes over to the aggregate. -/
def changed : Budget × Aggregates :=
  let nextBytes := b.hardChargedBytes + b.observedBytes
  ({ b with currentBytes := nextBytes, highWaterBytes := max b.highWaterBytes nextBytes },
    observeAggregate
      { agg with currentBytes := agg.currentBytes + ((nextBytes : ℤ) - b.currentBytes) })

/-- Count a refused charge. -/
def reject : Budget × Aggregates :=
  ({ b with overflowCount := b.overflowCount + 1 }, { agg with overflows := agg.overflows + 1 })

/-- The charge would take the turn over its limit. -/
def overTurn (admitted : ℕ) : Bool := decide (b.maxTurnBytes < b.hardChargedBytes + admitted)

def openCall (id : String) : Budget × Aggregates :=
  if b.disposed || b.calls.has id then (b, agg)
  else
    ({ b with calls := b.calls.set id ⟨0, 0⟩ }, { agg with activeCalls := agg.activeCalls + 1 })

def closeCall (id : String) : Budget × Aggregates :=
  match b.calls.get? id with
  | none => (b, agg)
  | some call =>
    changed
      { b with
        hardChargedBytes := b.hardChargedBytes - call.physicalBytes
        calls := b.calls.delete id }
      { agg with activeCalls := agg.activeCalls - 1 }

/-! ### Transient reservations -/

inductive ReservationState where
  | reserved
  | committed
  | released
  deriving DecidableEq

/-- The handle of a transient reservation. -/
structure Reservation where
  scope : ChargeScope
  admitted : ℕ
  state : ReservationState
  deriving DecidableEq

/-- Reserve bytes for a while.  A disposed budget hands out a handle that does nothing. -/
def reserveTransient (bytes : Option ℚ) (scope : ChargeScope) :
    Except TranslatorBudgetExceededError Reservation × Budget × Aggregates :=
  if b.disposed then (.ok ⟨scope, 0, .released⟩, b, agg)
  else
    let admitted := normalizeBytes bytes
    if scope.call.isSome && decide (b.maxCallArgumentBytes < admitted) then
      (.error ⟨.toolArgs, b.maxCallArgumentBytes⟩, b.reject agg)
    else if b.overTurn admitted then (.error ⟨scope.kind, b.maxTurnBytes⟩, b.reject agg)
    else
      (.ok ⟨scope, admitted, .reserved⟩,
        changed
          { b with
            charged := b.charged.set scope.kind (b.chargedFor scope.kind + admitted)
            hardChargedBytes := b.hardChargedBytes + admitted } agg)

/-- Keep what was reserved: under its kind, or with the call it was reserved for. -/
def commitRetained (r : Reservation) : Reservation × Budget × Aggregates :=
  if r.state ≠ .reserved then (r, b, agg)
  else if b.disposed then ({ r with state := .released }, b, agg)
  else
    match r.scope.call with
    | none => ({ r with state := .committed }, b, agg)
    | some id =>
      ({ r with state := .committed },
        changed
          { b with
            charged := b.charged.set r.scope.kind (b.chargedFor r.scope.kind - r.admitted)
            calls := b.calls.set id ⟨r.admitted, (b.callOf id).physicalBytes + r.admitted⟩ } agg)

/-- Give back what was reserved. -/
def release (r : Reservation) : Reservation × Budget × Aggregates :=
  if r.state ≠ .reserved then (r, b, agg)
  else if b.disposed then ({ r with state := .released }, b, agg)
  else
    ({ r with state := .released },
      changed
        { b with
          charged := b.charged.set r.scope.kind (b.chargedFor r.scope.kind - r.admitted)
          hardChargedBytes := b.hardChargedBytes - r.admitted } agg)

/-! ### Retained bytes -/

/-- Why a retained charge is refused. -/
def refusal (bytes : Option ℚ) (scope : ChargeScope) : Option TranslatorBudgetExceededError :=
  let admitted := normalizeBytes bytes
  match scope.call with
  | some id =>
    if b.maxCallArgumentBytes < (b.callOf id).logicalBytes + admitted then
      some ⟨.toolArgs, b.maxCallArgumentBytes⟩
    else if b.overTurn admitted then some ⟨scope.kind, b.maxTurnBytes⟩
    else none
  | none => if b.overTurn admitted then some ⟨scope.kind, b.maxTurnBytes⟩ else none

def chargeRetained (delta : Option ℚ) (scope : ChargeScope) :
    Except TranslatorBudgetExceededError Unit × Budget × Aggregates :=
  if b.disposed then (.ok (), b, agg)
  else
    let admitted := normalizeBytes delta
    match b.refusal delta scope with
    | some e => (.error e, b.reject agg)
    | none =>
      match scope.call with
      | some id =>
        let call := b.callOf id
        (.ok (),
          changed
            { b with
              calls := b.calls.set id ⟨call.logicalBytes + admitted, call.physicalBytes + admitted⟩
              hardChargedBytes := b.hardChargedBytes + admitted } agg)
      | none =>
        (.ok (),
          changed
            { b with
              charged := b.charged.set scope.kind (b.chargedFor scope.kind + admitted)
              hardChargedBytes := b.hardChargedBytes + admitted } agg)

/-- Give back retained bytes; at most what is there. -/
def releaseRetained (bytes : Option ℚ) (scope : ChargeScope) : Budget × Aggregates :=
  let released := normalizeBytes bytes
  match scope.call with
  | some id =>
    match b.calls.get? id with
    | none => b.changed agg
    | some call =>
      let actual := min released call.physicalBytes
      changed
        { b with
          calls := b.calls.set id { call with physicalBytes := call.physicalBytes - actual }
          hardChargedBytes := b.hardChargedBytes - actual } agg
  | none =>
    let current := b.chargedFor scope.kind
    let actual := min released current
    changed
      { b with
        charged := b.charged.set scope.kind (current - actual)
        hardChargedBytes := b.hardChargedBytes - actual } agg

/-! ### Observed bytes -/

/-- The handle of observed bytes. -/
structure Observation where
  observed : ℕ
  released : Bool
  deriving DecidableEq

/-- Count bytes that are bounded elsewhere. -/
def observe (bytes : Option ℚ) : Observation × Budget × Aggregates :=
  if b.disposed then (⟨0, true⟩, b, agg)
  else
    let observed := normalizeBytes bytes
    (⟨observed, false⟩, changed { b with observedBytes := b.observedBytes + observed } agg)

/-- Stop counting them. -/
def unobserve (o : Observation) : Observation × Budget × Aggregates :=
  if o.released then (o, b, agg)
  else
    ({ o with released := true },
      changed { b with observedBytes := b.observedBytes - o.observed } agg)

/-- Take everything back. -/
def dispose : Budget × Aggregates :=
  if b.disposed then (b, agg)
  else
    ({ b with
        disposed := true
        calls := .empty
        charged := .empty
        hardChargedBytes := 0
        observedBytes := 0
        currentBytes := 0 },
      observeAggregate { agg with
        activeCalls := agg.activeCalls - b.calls.size
        currentBytes := max 0 (agg.currentBytes - b.currentBytes) })

end Budget

/-! ## Retained events

An event that is kept for later owns the bytes it was charged for: its own text, and its share of the
brackets and commas of the array it stands in. -/

/-- Who was charged for an event, and how much. -/
structure Ownership where
  budget : ℕ
  bytes : ℕ
  deriving DecidableEq

inductive RetainError where
  | alreadyRetained
  | tailNotDistinct
  | tailNotRetained
  | exceeded (e : TranslatorBudgetExceededError)
  deriving DecidableEq

def RetainError.message : RetainError → String
  | .alreadyRetained => "translated event is already retained"
  | .tailNotDistinct => "incremental translated event tail must be a distinct object"
  | .tailNotRetained => "incremental translated event tail is not retained by this budget"
  | .exceeded e => e.message

def collectorScope : ChargeScope := ⟨.retainedCollectors, none⟩

section Events

variable (owned : OMap ℕ Ownership) (id : ℕ) (b : Budget) (agg : Aggregates)

/-- The tail can hand the closing bracket on. -/
def tailRetained (tail : ℕ) : Bool :=
  (owned.get? tail).any fun o ↦ o.budget == id && decide (2 ≤ o.bytes)

/-- Charge one event appended to a growing batch; `serializedBytes` is the length of its text.  The
newest event owns the closing bracket. -/
def retainTranslatedEvent (event serializedBytes : ℕ) (previousTail : Option ℕ) :
    Except RetainError Unit × OMap ℕ Ownership × Budget × Aggregates :=
  if owned.has event then (.error .alreadyRetained, owned, b, agg)
  else if previousTail = some event then (.error .tailNotDistinct, owned, b, agg)
  else if previousTail.any (fun tail ↦ !tailRetained owned id tail) then
    (.error .tailNotRetained, owned, b, agg)
  else
    let delimiter := if previousTail.isNone then 2 else 1
    match b.chargeRetained agg (some ((serializedBytes + delimiter : ℕ) : ℚ)) collectorScope with
    | (.error e, books) => (.error (.exceeded e), owned, books)
    | (.ok _, books) =>
      let owned := match previousTail with
        | none => owned
        | some tail =>
          match owned.get? tail with
          | none => owned
          | some o => owned.set tail { o with bytes := o.bytes - 1 }
      (.ok (), owned.set event ⟨id, serializedBytes + 2⟩, books)

/-- Charge a whole batch at once; the last event owns the closing bracket. -/
def retainTranslatedEventBatch (events : List (ℕ × ℕ)) :
    Except RetainError Unit × OMap ℕ Ownership × Budget × Aggregates :=
  if events = [] then (.ok (), owned, b, agg)
  else
    let totalBytes := (events.map (·.2)).sum + (events.length + 1)
    match b.chargeRetained agg (some (totalBytes : ℚ)) collectorScope with
    | (.error e, books) => (.error (.exceeded e), owned, books)
    | (.ok _, books) =>
      (.ok (),
        events.zipIdx.foldl (fun owned e ↦
          owned.set e.1.1 ⟨id, e.1.2 + if e.2 = events.length - 1 then 2 else 1⟩) owned, books)

/-- Give an event's bytes back to the budget that was charged for them. -/
def releaseTranslatedEvent (event : ℕ) : OMap ℕ Ownership × Budget × Aggregates :=
  match owned.get? event with
  | none => (owned, b, agg)
  | some o =>
    if o.budget ≠ id then (owned, b, agg)
    else (owned.delete event, b.releaseRetained agg (some (o.bytes : ℚ)) collectorScope)

end Events

end Translator
