import OpenCodex.Spend.Ledger
import OpenCodex.Data.FirstLeast

/-!
# Root-workflow admission

Above the single request stands the root workflow: the user's task, which may fan out into children.
Four counts of it are bounded — turns under way, physical sends and distinct children inside a
window, and how many roots are tracked at all — and with a spend request the durable ledger has its
say too.

Sends are counted in a ring of twelve slots, children by the time each was last admitted; both are
measured over the window that was fixed when the root appeared.  A root that is not tracked gets an
entry, and at the bound an idle one has to make room for it.  `admitWorkflowTurn` checks the counts
first and the tokens second, and takes a concurrency slot last; every refusal is recorded.

The ledger an admission consults is an argument (`none` where the source resolves none), and so is
every reading of the clock.
-/

set_option autoImplicit false

namespace Workflow

open Spend

structure WorkflowBudgetPolicy where
  /-- Turns admitted concurrently under one root. -/
  maxConcurrentChildren : ℕ
  /-- Sends charged to one root inside the window. -/
  maxPhysicalSends : ℕ
  /-- Distinct children of one root inside the window. -/
  maxDistinctChildren : ℕ
  /-- The window, where one is declared. -/
  windowMs : Option ℤ
  /-- Slots a worker may not take. -/
  interactiveReserve : ℕ
  maxTrackedRoots : ℕ
  deriving DecidableEq

def defaultWindowMs : ℕ := 10 * 60000

def defaultWorkflowBudgetPolicy : WorkflowBudgetPolicy := ⟨8, 256, 64, some 600000, 1, 512⟩

/-- The declared window, if it is positive. -/
def workflowWindowMs (policy : WorkflowBudgetPolicy) : ℕ :=
  match policy.windowMs with
  | some declared => if 0 < declared then declared.toNat else defaultWindowMs
  | none => defaultWindowMs

/-- The size of the ring. -/
abbrev windowSlots : ℕ := 12

/-- How long a slot is. -/
def windowSlotMs (windowMs : ℕ) : ℕ := max 1 ((windowMs + (windowSlots - 1)) / windowSlots)

structure WorkflowState where
  /-- Turns under way. -/
  active : ℕ
  /-- All sends ever; no ceiling reads it. -/
  sends : ℕ
  sendSlotCount : Vector ℕ windowSlots
  /-- The slot each bucket holds; none has come yet in an empty bucket. -/
  sendSlotAt : Vector (Option ℤ) windowSlots
  /-- When each child was last admitted. -/
  children : OMap JsString ℕ
  lastSeenMs : ℕ
  /-- The window of this root. -/
  windowMs : ℕ
  deriving DecidableEq

def newWorkflowState (now : ℕ) (policy : WorkflowBudgetPolicy) : WorkflowState where
  active := 0
  sends := 0
  sendSlotCount := Vector.replicate windowSlots 0
  sendSlotAt := Vector.replicate windowSlots none
  children := .empty
  lastSeenMs := now
  windowMs := workflowWindowMs policy

namespace WorkflowState

variable (state : WorkflowState)

/-- The bucket of a slot: its remainder, which is not negative. -/
def slotIndex (slot : ℤ) : Fin windowSlots :=
  ⟨((slot.tmod windowSlots + windowSlots).tmod windowSlots).toNat, by
    have := Int.tmod_lt_of_pos (slot.tmod windowSlots + windowSlots)
      (show (0 : ℤ) < windowSlots by decide)
    have hsize : windowSlots = 12 := rfl
    omega⟩

/-- Add sends to the ring; a slot whose turn has come round again starts anew. -/
def recordWindowedSends (now : ℤ) (sends : ℕ) : WorkflowState :=
  let slot := now / windowSlotMs state.windowMs
  let index := slotIndex slot
  let before := if state.sendSlotAt.get index = some slot then state.sendSlotCount.get index else 0
  { state with
    sendSlotAt := state.sendSlotAt.set index (some slot)
    sendSlotCount := state.sendSlotCount.set index (before + sends) }

/-- Sends inside the window. -/
def windowedSends (now : ℤ) : ℕ :=
  let oldest : ℤ := now / windowSlotMs state.windowMs - (windowSlots - 1 : ℕ)
  ((List.finRange windowSlots).map fun index ↦
    if (state.sendSlotAt.get index).any fun slot ↦ decide (oldest ≤ slot) then
      state.sendSlotCount.get index
    else 0).sum

variable (now : ℕ)

/-- Was a child that was last seen then admitted inside the window? -/
def recent (lastSeenMs : ℕ) : Bool := decide ((now : ℤ) - state.windowMs < lastSeenMs)

/-- Forget the children that were last seen before the window opened. -/
def forgetChildren : WorkflowState :=
  { state with children := state.children.filter fun _ seen ↦ state.recent now seen }

/-- How many children are left once the others are forgotten. -/
def windowedChildren : ℕ := (state.forgetChildren now).children.size

/-- Forget what the windowed ceilings count. -/
def cleared : WorkflowState :=
  { state with
    sendSlotCount := Vector.replicate windowSlots 0
    sendSlotAt := Vector.replicate windowSlots none
    children := .empty
    lastSeenMs := now }

end WorkflowState

/-! ## Refusals and their record -/

inductive WorkflowDenial where
  | concurrencyExhausted
  | sendsExhausted
  | childrenExhausted
  | spendExhausted
  | trackingExhausted
  | sendReplayed
  | spendUndurable
  | poolHistoryUnresolved
  deriving DecidableEq

/-- What a refusal by a token ceiling has to say. -/
structure WorkflowSpendDenialDetail where
  scope : SpendScope
  limit : ℕ
  projected : Option ℕ
  includesUnboundPoolHistory : Bool
  deriving DecidableEq

inductive WorkflowBudgetEventKind where
  | refused
  | cleared
  deriving DecidableEq

/-- A local decision, as it is recorded. -/
structure WorkflowBudgetEvent where
  time : ℕ
  kind : WorkflowBudgetEventKind
  rootId : JsString
  reason : Option WorkflowDenial
  spendScope : Option SpendScope
  spendLimit : Option ℕ
  /-- Windowed sends at that moment. -/
  sends : ℕ
  /-- Windowed children at that moment. -/
  children : ℕ
  deriving DecidableEq

def eventCapacity : ℕ := 64

/-- The roots that are tracked, and the recent decisions, oldest first. -/
structure WorkflowBudgets where
  roots : OMap JsString WorkflowState
  events : List WorkflowBudgetEvent
  deriving DecidableEq

inductive WorkflowLane where
  | interactive
  | worker
  deriving DecidableEq

structure WorkflowSpendRequest where
  sendId : JsString
  identityId : Option JsString
  poolId : Option JsString
  inputTokens : JsNumber
  outputCeilingTokens : JsNumber
  deriving DecidableEq

/-- What an admission gives out, and what its release needs. -/
structure WorkflowLease where
  rootId : JsString
  /-- The send a reservation was booked for. -/
  send : Option JsString
  deriving DecidableEq

inductive WorkflowDecision where
  | admitted (lease : WorkflowLease)
  | refused (reason : WorkflowDenial) (rootId : JsString)
      (spend : Option WorkflowSpendDenialDetail)
  deriving DecidableEq

def WorkflowDecision.isAdmitted : WorkflowDecision → Bool
  | .admitted _ => true
  | .refused _ _ _ => false

/-- How a denial of the ledger is reported. -/
def denialReason : SpendDenial → WorkflowDenial
  | .duplicateSendId _ => .sendReplayed
  | .poolHistoryUnresolved => .poolHistoryUnresolved
  | .reserveNotDurable _ => .spendUndurable
  | .journalCorrupt _ => .spendUndurable
  | .trackingCapacityExhausted _ => .trackingExhausted
  | .spendLimitExceeded _ _ _ _ _ => .spendExhausted

def denialDetail : SpendDenial → Option WorkflowSpendDenialDetail
  | .spendLimitExceeded scope _ limit projected includesUnbound =>
    some ⟨scope, limit, some projected, includesUnbound⟩
  | _ => none

/-- The root's own token ceiling, once it is spent. -/
def spentRootCeiling {J : Type} (hash : AliasHash) (ledger : SpendLedger J) (rootId : JsString) :
    Option WorkflowSpendDenialDetail :=
  ledger.policy.root.bind fun limit ↦
    if ledger.exhausted hash .root rootId none none then some ⟨.root, limit, none, false⟩ else none

namespace WorkflowBudgets

variable {J : Type} (b : WorkflowBudgets)

/-- Keep the newest decisions. -/
def recordBudgetEvent (event : WorkflowBudgetEvent) : WorkflowBudgets :=
  let events := b.events ++ [event]
  { b with events := events.drop (events.length - eventCapacity) }

/-- Change the state of a tracked root. -/
def update (rootId : JsString) (f : WorkflowState → WorkflowState) : WorkflowBudgets :=
  match b.roots.get? rootId with
  | none => b
  | some state => { b with roots := b.roots.set rootId (f state) }

/-- Record a refusal.  To count the children is to forget those outside the window. -/
def refuse (rootId : JsString) (now : ℕ) (reason : WorkflowDenial)
    (denial : Option WorkflowSpendDenialDetail) : WorkflowBudgets × WorkflowDecision :=
  let current := b.roots.get? rootId
  let event : WorkflowBudgetEvent :=
    { time := now
      kind := .refused
      rootId
      reason := some reason
      spendScope := denial.map (·.scope)
      spendLimit := denial.map (·.limit)
      sends := (current.map (·.windowedSends now)).getD 0
      children := (current.map (·.windowedChildren now)).getD 0 }
  ((b.update rootId (·.forgetChildren now)).recordBudgetEvent event,
    .refused reason rootId denial)

section Admission

variable (store : SpendJournal J) (hash : AliasHash) (policy : WorkflowBudgetPolicy)

/-- May this root be forgotten?  Its age decides between those that may. -/
def evictionAge (ledger : Option (SpendLedger J)) (now : ℕ) (root : JsString × WorkflowState) :
    Option ℕ :=
  if 0 < root.2.active then none
  else if policy.maxPhysicalSends ≤ root.2.windowedSends now then none
  else if ledger.any fun l ↦ l.exhausted hash .root root.1 none none then none
  else some root.2.lastSeenMs

/-- The oldest root that may be forgotten. -/
def rootToEvict (ledger : Option (SpendLedger J)) (now : ℕ) : Option JsString :=
  (firstLeast (evictionAge hash policy ledger now) b.roots.entries).bind fun i ↦
    b.roots.entries[i]?.map (·.1)

/-- Evict the oldest root that may be forgotten, if there is one. -/
def evictOneRoot (ledger : Option (SpendLedger J)) (now : ℕ) : Option WorkflowBudgets :=
  (b.rootToEvict hash policy ledger now).map fun rootId ↦
    { b with roots := b.roots.delete rootId }

/-- The budgets with the root in them; none where there is no room for it. -/
def track (rootId : JsString) (ledger : Option (SpendLedger J)) (now : ℕ) :
    Option WorkflowBudgets :=
  if b.roots.has rootId then some b
  else
    (if policy.maxTrackedRoots ≤ b.roots.size then b.evictOneRoot hash policy ledger now
      else some b).map fun b ↦ { b with roots := b.roots.set rootId (newWorkflowState now policy) }

/-- The concurrency ceiling of a lane. -/
def laneCeiling : WorkflowLane → ℕ
  | .worker => policy.maxConcurrentChildren - policy.interactiveReserve
  | .interactive => policy.maxConcurrentChildren

/-- Is the child one the root does not remember? -/
def newChild (state : WorkflowState) (childId : Option JsString) : Bool :=
  childId.any fun child ↦ !state.children.has child

/-- The count that refuses a turn. -/
def countDenial (state : WorkflowState) (lane : WorkflowLane) (childId : Option JsString)
    (now : ℕ) : Option WorkflowDenial :=
  if policy.maxPhysicalSends ≤ state.windowedSends now then some .sendsExhausted
  else if newChild state childId && policy.maxDistinctChildren ≤ state.windowedChildren now then
    some .childrenExhausted
  else if laneCeiling policy lane ≤ state.active then some .concurrencyExhausted
  else none

/-- The reservation an admission books. -/
def spendReservation (rootId : JsString) (spend : WorkflowSpendRequest) (now : ℕ) :
    SpendReservationRequest :=
  ⟨none, spend.sendId, ⟨some rootId, spend.identityId, spend.poolId⟩, spend.inputTokens,
    spend.outputCeilingTokens, some now, false⟩

/-- What the ledger says to a turn the counts admit. -/
def spendDenial (rootId : JsString) (now : ℕ) (spend : Option WorkflowSpendRequest) :
    Option (SpendLedger J) →
      Option (SpendLedger J) × Option (WorkflowDenial × Option WorkflowSpendDenialDetail)
  | none => (none, none)
  | some ledger =>
    match spend with
    | none => (some ledger, (spentRootCeiling hash ledger rootId).map fun reached ↦
        (.spendExhausted, some reached))
    | some spend =>
      let r := ledger.reserve store hash (spendReservation rootId spend now) now
      (some r.1, match r.2 with
        | .ok _ => none
        | .error denial => some (denialReason denial, denialDetail denial))

/-- Take a concurrency slot. -/
def takeSlot (childId : Option JsString) (now : ℕ) (state : WorkflowState) : WorkflowState :=
  { state with
    active := state.active + 1
    children := match childId with
      | none => state.children
      | some child => state.children.set child now }

/-- Admit one turn under a root workflow; no decision without a root. -/
def admitWorkflowTurn (rootId : Option JsString) (lane : WorkflowLane) (childId : Option JsString)
    (now : ℕ) (spend : Option WorkflowSpendRequest) (ledger : Option (SpendLedger J)) :
    WorkflowBudgets × Option (SpendLedger J) × Option WorkflowDecision :=
  match rootId.filter (· ≠ []) with
  | none => (b, ledger, none)
  | some rootId =>
    match b.track hash policy rootId ledger now with
    | none =>
      let r := b.refuse rootId now .trackingExhausted none
      (r.1, ledger, some r.2)
    | some b =>
      let b := b.update rootId ({ · with lastSeenMs := now })
      let state := (b.roots.get? rootId).getD (newWorkflowState now policy)
      match countDenial policy state lane childId now with
      | some reason =>
        let r := b.refuse rootId now reason none
        (r.1, ledger, some r.2)
      | none =>
        -- Asking whether a new child fits has forgotten the old ones.
        let b := if newChild state childId then b.update rootId (·.forgetChildren now) else b
        let asked := spendDenial store hash rootId now spend ledger
        match asked.2 with
        | some (reason, denial) =>
          let r := b.refuse rootId now reason denial
          (r.1, asked.1, some r.2)
        | none =>
          (b.update rootId (takeSlot childId now), asked.1,
            some (.admitted ⟨rootId, asked.1.bind fun _ ↦ spend.map (·.sendId)⟩))

end Admission

/-! ## After admission -/

/-- A lease gives its slot back. -/
def releaseSlot (rootId : JsString) (now : ℕ) : WorkflowBudgets :=
  b.update rootId fun state ↦ { state with active := state.active - 1, lastSeenMs := now }

/-- A lease gives its reservation back, or leaves it as unresolved spend. -/
def releaseSpend (store : SpendJournal J) (hash : AliasHash) (sendId : JsString) (now : ℕ)
    (ledger : SpendLedger J) : SpendLedger J :=
  let r := ledger.abandon store hash sendId now
  if r.2 then r.1 else (r.1.markLost store hash sendId now).1

/-- Charge physical sends to a root. -/
def chargeWorkflowSends (rootId : Option JsString) (sends now : ℕ) : WorkflowBudgets :=
  match rootId.filter (· ≠ []) with
  | none => b
  | some rootId =>
    if sends = 0 then b
    else b.update rootId fun state ↦
      { ({ state with sends := state.sends + sends }).recordWindowedSends now sends with
        lastSeenMs := now }

/-- Clear the windowed counts of one root, and record what they were. -/
def clearWorkflowBudgetForRoot (rootId : JsString) (now : ℕ) : WorkflowBudgets :=
  match b.roots.get? rootId with
  | none => b
  | some state =>
    (b.update rootId (·.cleared now)).recordBudgetEvent
      { time := now
        kind := .cleared
        rootId
        reason := none
        spendScope := none
        spendLimit := none
        sends := state.windowedSends now
        children := state.windowedChildren now }

end WorkflowBudgets

end Workflow
