import Mathlib.Data.Finset.Basic

/-!
# The execution budget of a logical request

Every layer that can send a request again — transport retry, auth recovery, account and combo
failover, repair — draws on one budget.  A dispatch is *reserved* first, and the reservation is the
charge: what a layer holds afterwards is a single-use permit, with which it may confirm the dispatch
(`use`), take the booking over (`assumeCharge`) or hand it back (`release`).

A combo child works under a policy of its own, in a derived *scope*.  All scopes of one request
spend one shared ledger; what a scope keeps for itself is how it used its reserve, its alternate
targets and its target transitions.

Objects that the source compares by identity — scopes, permits, receipts — are numbered here.  The
durable spend ledger that watches the counter is an *observer*: it may refuse a charge, and when it
enforces its own limit it decides about physical starts.  What it answers in one call is in
`ObserverAnswers`.
-/

set_option autoImplicit false

namespace Request

/-! ## Policies and intents -/

inductive SendClass where
  | initial
  | transient
  | authRecovery
  | repair
  | accountFailover
  | comboFailover
  | prewarm
  deriving DecidableEq

structure RequestExecutionBudgetPolicy where
  /-- Every model send of one logical request, including the reserve. -/
  maxTotalModelSends : ℕ
  /-- Shared by the initial send, same-target retries, and refresh and repair legs. -/
  baseSendAllowance : ℕ
  /-- One final recovery, shared by an account move and a validated rebuild. -/
  finalRecoveryAllowance : ℕ
  maxAlternateTargetSends : ℕ
  maxTargetTransitions : ℕ
  deriving DecidableEq

/-- Three sends on the same account plus one alternate. -/
def codexTextGuardedBudgetPolicy : RequestExecutionBudgetPolicy := ⟨4, 3, 1, 1, 1⟩

inductive BudgetDenial where
  | totalExhausted
  | baseAllowanceExhausted
  | finalRecoverySpent
  | alternateTargetExhausted
  | targetTransitionExhausted
  | spendExhausted
  | notReplaySafe
  deriving DecidableEq

structure DispatchIntent where
  sendClass : SendClass
  targetKey : String
  replaySafe : Bool
  /-- The physical send is named by an external reporter, so the booking waits for it. -/
  countedExternally : Bool
  /-- The request was rebuilt onto another destination; the move is no failover decision. -/
  rebasedTarget : Bool
  deriving DecidableEq

/-- The classes that may draw on the reserve once the base allowance is gone. -/
def reserveFundedClasses : List SendClass := [.accountFailover, .comboFailover, .repair, .authRecovery]

/-- What the observer answers during one call. -/
structure ObserverAnswers where
  /-- A charge is booked. -/
  charge : Bool
  /-- The observer enforces its own limit on physical sends. -/
  enforced : Bool
  /-- The observer has a seed for this start. -/
  seed : Bool
  deriving DecidableEq

def ObserverAnswers.absent : ObserverAnswers := ⟨true, false, false⟩

/-! ## The state -/

/-- The send ledger all scopes of one request share. -/
structure SharedSendLedger where
  spent : ℤ
  physicalStarted : ℕ
  physicalLimit : Option ℕ
  /-- The receipts that wait for an external reporter. -/
  pendingExternalSends : Finset ℕ
  deriving DecidableEq

/-- What one scope keeps for itself. -/
structure BudgetScope where
  policy : RequestExecutionBudgetPolicy
  reserveSpent : Bool
  alternateTargetSends : ℤ
  targetTransitions : ℤ
  lastTargetKey : Option String
  /-- The receipts of this scope's reservations, with their targets, oldest first. -/
  targetReservations : List (ℕ × String)
  deriving DecidableEq

inductive Settled where
  | opened
  | used
  | released
  deriving DecidableEq

/-- A single-use permit: what `reserveDispatch` booked, and what became of it. -/
structure DispatchPermit where
  /-- The scope that granted it. -/
  scope : ℕ
  intent : DispatchIntent
  drawsReserve : Bool
  chargesAlternateTarget : Bool
  chargesTransition : Bool
  settled : Settled
  deriving DecidableEq

def SharedSendLedger.fresh : SharedSendLedger := ⟨0, 0, none, ∅⟩

def BudgetScope.fresh (policy : RequestExecutionBudgetPolicy) : BudgetScope :=
  ⟨policy, false, 0, 0, none, []⟩

/-! ## Physical starts -/

/-- An enforcing observer fixes the limit of physical sends at the first start. -/
def startRequest (policy : RequestExecutionBudgetPolicy) (answers : ObserverAnswers)
    (ledger : SharedSendLedger) : SharedSendLedger :=
  if answers.enforced && ledger.physicalLimit.isNone then
    { ledger with physicalLimit := some policy.maxTotalModelSends }
  else ledger

/-- Claim the next physical send, where an observer enforces its limit. -/
def claimPhysicalSend (policy : RequestExecutionBudgetPolicy) (answers : ObserverAnswers)
    (ledger : SharedSendLedger) : SharedSendLedger × Option ℕ :=
  let ledger := startRequest policy answers ledger
  match ledger.physicalLimit with
  | none => (ledger, none)
  | some limit =>
    if !answers.enforced || limit ≤ ledger.physicalStarted then (ledger, none)
    else
      ({ ledger with physicalStarted := ledger.physicalStarted + 1 },
        some (ledger.physicalStarted + 1))

/-- Begin the physical send of a permit; an enforcing observer may refuse. -/
def startPhysical (policy : RequestExecutionBudgetPolicy) (answers : ObserverAnswers)
    (ledger : SharedSendLedger) : SharedSendLedger × Bool :=
  if !answers.enforced then (ledger, true)
  else if !answers.seed then (ledger, false)
  else
    let r := claimPhysicalSend policy answers ledger
    (r.1, r.2.isSome)

/-! ## Reserving -/

/-- Seed a fresh scope with the target of its already paid initial send. -/
def BudgetScope.bindPrepaidTarget (scope : BudgetScope) (targetKey : String) : BudgetScope :=
  if scope.lastTargetKey.isNone then { scope with lastTargetKey := some targetKey } else scope

section Reserve

variable (scope : BudgetScope) (intent : DispatchIntent)

def changesTarget : Bool := scope.lastTargetKey.any fun key ↦ key != intent.targetKey

def isAlternateTarget : Bool :=
  changesTarget scope intent || intent.sendClass == .accountFailover ||
    intent.sendClass == .comboFailover

def chargesTransition : Bool := changesTarget scope intent && !intent.rebasedTarget

def chargesAlternateTarget : Bool := isAlternateTarget scope intent && !intent.rebasedTarget

/-- The base allowance is gone, so the dispatch is funded by the reserve. -/
def drawsReserve (ledger : SharedSendLedger) : Bool :=
  decide (scope.policy.baseSendAllowance - ledger.spent ≤ 0)

/-- The bounds a dispatch is checked against before the observer is asked. -/
def denial (ledger : SharedSendLedger) : Option BudgetDenial :=
  if !intent.replaySafe then some .notReplaySafe
  else if (scope.policy.maxTotalModelSends : ℤ) ≤ ledger.spent then some .totalExhausted
  else if isAlternateTarget scope intent && chargesTransition scope intent &&
      decide ((scope.policy.maxTargetTransitions : ℤ) ≤ scope.targetTransitions) then
    some .targetTransitionExhausted
  else if chargesAlternateTarget scope intent &&
      decide ((scope.policy.maxAlternateTargetSends : ℤ) ≤ scope.alternateTargetSends) then
    some .alternateTargetExhausted
  else if drawsReserve scope ledger && !reserveFundedClasses.contains intent.sendClass then
    some .baseAllowanceExhausted
  else if drawsReserve scope ledger &&
      (scope.reserveSpent || scope.policy.finalRecoveryAllowance == 0) then
    some .finalRecoverySpent
  else none

/-- Reserve one dispatch.  The reservation is the charge: counter, receipt and allowances are all
booked here, and `release` is the way back. -/
def reserveDispatch (ledger : SharedSendLedger) (answers : ObserverAnswers) (scopeId receipt : ℕ) :
    Except BudgetDenial DispatchPermit × BudgetScope × SharedSendLedger :=
  match denial scope intent ledger with
  | some reason => (.error reason, scope, ledger)
  | none =>
    let draws := drawsReserve scope ledger
    let alternate := chargesAlternateTarget scope intent
    let transition := chargesTransition scope intent
    let ledger := startRequest scope.policy answers ledger
    if !answers.charge then (.error .spendExhausted, scope, ledger)
    else
      (.ok ⟨scopeId, intent, draws, alternate, transition, .opened⟩,
        { scope with
          reserveSpent := scope.reserveSpent || draws
          alternateTargetSends := scope.alternateTargetSends + if alternate then 1 else 0
          targetTransitions := scope.targetTransitions + if transition then 1 else 0
          lastTargetKey := some intent.targetKey
          targetReservations := scope.targetReservations ++ [(receipt, intent.targetKey)] },
        { ledger with
          spent := ledger.spent + 1
          pendingExternalSends :=
            if intent.countedExternally then insert receipt ledger.pendingExternalSends
            else ledger.pendingExternalSends })

end Reserve

/-! ## Settling a permit -/

section Settle

variable (policy : RequestExecutionBudgetPolicy) (permit : DispatchPermit) (receipt : ℕ)
  (ledger : SharedSendLedger) (answers : ObserverAnswers)

/-- Confirm the dispatch the permit already paid for. -/
def DispatchPermit.use : DispatchPermit × SharedSendLedger × Bool :=
  if permit.settled ≠ .opened then (permit, ledger, false)
  else if permit.intent.countedExternally then ({ permit with settled := .used }, ledger, true)
  else
    let r := startPhysical policy answers ledger
    if r.2 then ({ permit with settled := .used }, r.1, true) else (permit, r.1, false)

/-- Take over a booking that waits for an external reporter, because this layer sends itself. -/
def DispatchPermit.assumeCharge : DispatchPermit × SharedSendLedger × Bool :=
  if permit.settled ≠ .opened ∨
      permit.intent.countedExternally = true ∧ receipt ∉ ledger.pendingExternalSends then
    (permit, ledger, false)
  else
    let r := startPhysical policy answers ledger
    if r.2 then
      ({ permit with settled := .used },
        if permit.intent.countedExternally then
          { r.1 with pendingExternalSends := r.1.pendingExternalSends.erase receipt }
        else r.1, true)
    else (permit, r.1, false)

/-- Give the bookings of a reservation back to its scope. -/
def BudgetScope.refund (scope : BudgetScope) : BudgetScope :=
  let reservations := scope.targetReservations.eraseP fun r ↦ r.1 == receipt
  { scope with
    reserveSpent := scope.reserveSpent && !permit.drawsReserve
    alternateTargetSends :=
      scope.alternateTargetSends - if permit.chargesAlternateTarget then 1 else 0
    targetTransitions := scope.targetTransitions - if permit.chargesTransition then 1 else 0
    targetReservations := reservations
    lastTargetKey := reservations.getLast?.map (·.2) }

/-- Hand back a reservation that never dispatched.  One that its reporter already settled paid for a
send that happened, and is not refunded. -/
def DispatchPermit.release (scope : BudgetScope) :
    DispatchPermit × BudgetScope × SharedSendLedger :=
  if permit.settled ≠ .opened then (permit, scope, ledger)
  else if permit.intent.countedExternally = true ∧ receipt ∉ ledger.pendingExternalSends then
    ({ permit with settled := .released }, scope, ledger)
  else
    ({ permit with settled := .released }, scope.refund permit receipt,
      { ledger with
        spent := ledger.spent - 1
        pendingExternalSends :=
          if permit.intent.countedExternally then ledger.pendingExternalSends.erase receipt
          else ledger.pendingExternalSends })

/-- Write the counter from outside; an enforcing observer takes no number from outside. -/
def SharedSendLedger.setUsed (next : ℤ) : SharedSendLedger :=
  if answers.enforced then ledger else { ledger with spent := max 0 next }

/-- Settle the booking of a receipt that waits for its reporter; false where none waits. -/
def SharedSendLedger.settleReceipt : SharedSendLedger × Bool :=
  if receipt ∈ ledger.pendingExternalSends then
    ({ ledger with pendingExternalSends := ledger.pendingExternalSends.erase receipt }, true)
  else (ledger, false)

end Settle

/-- Report physical sends.  One of them settles the booking of the named permit, if that still
waits; all others are charged as sends of their own. -/
def reportDispatchSends (ledger : SharedSendLedger) (answers : ObserverAnswers) (sends : ℕ)
    (receipt : Option ℕ) : SharedSendLedger :=
  if sends = 0 then ledger
  else
    let r := match receipt with
      | none => (ledger, false)
      | some receipt => ledger.settleReceipt receipt
    r.1.setUsed answers (r.1.spent + (sends - if r.2 then 1 else 0))

end Request
