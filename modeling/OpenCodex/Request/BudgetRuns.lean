import OpenCodex.Request.Budget
import OpenCodex.Data.OMap
import OpenCodex.Data.Machine
import Mathlib.Algebra.Ring.Int.Defs
import Mathlib.Data.Nat.Cast.Order.Basic

/-!
# One send cap for a logical request

The machine of `Request/Budget.lean`: a budget is created with a policy, scopes are derived from it
with policies of their own, and permits of all scopes are reserved, used, taken over, released and
reported in any order.  Beside the code's state, each permit carries a log — how often it confirmed
a dispatch, and whether a report settled it — and the system counts the reports that found no
booking to settle.

What holds in every run (`one_send_cap`): the shared counter is the number of permits that are
*live* — confirmed, settled by their report, or outstanding — plus those reports, which the code
charges as sends of their own; the live permits never exceed the policy of the request; a permit
confirms at most once; and what is live of a scope's recoveries, alternate targets and target
transitions stays within that scope's allowances.
-/

set_option autoImplicit false

open Option OMap Request.SharedSendLedger Bool

namespace Request

/-! ## The system -/

/-- A permit and what happened to it. -/
structure Dispatch where
  permit : DispatchPermit
  /-- How often `use` or `assumeCharge` answered true. -/
  confirms : ℕ
  /-- A report settled its booking. -/
  reported : Bool
  deriving DecidableEq

/-- Confirmed, settled by its report, or outstanding. -/
def Dispatch.live (d : Dispatch) : Bool := d.permit.settled != .released || d.reported

structure BudgetSys where
  ledger : SharedSendLedger
  scopes : OMap ℕ BudgetScope
  dispatches : OMap ℕ Dispatch
  /-- Reports charged because they found no booking to settle. -/
  unmatched : ℕ
  deriving DecidableEq

inductive BudgetEvent where
  | derive (parent scope : ℕ) (policy : RequestExecutionBudgetPolicy)
  | bindPrepaidTarget (scope : ℕ) (targetKey : String)
  | reserve (scope receipt : ℕ) (intent : DispatchIntent) (answers : ObserverAnswers)
  | use (receipt : ℕ) (answers : ObserverAnswers)
  | assumeCharge (receipt : ℕ) (answers : ObserverAnswers)
  | release (receipt : ℕ)
  | report (receipt : ℕ) (answers : ObserverAnswers)
  deriving DecidableEq

namespace BudgetSys

/-- The request's own budget is scope `0`. -/
def create (policy : RequestExecutionBudgetPolicy) : BudgetSys :=
  ⟨.fresh, OMap.empty.set 0 (.fresh policy), .empty, 0⟩

variable (s : BudgetSys)

/-- Confirm a dispatch through one of the two ways. -/
def confirm (receipt : ℕ) (d : Dispatch)
    (r : DispatchPermit × SharedSendLedger × Bool) : BudgetSys :=
  { s with
    ledger := r.2.1
    dispatches := s.dispatches.set receipt
      { d with permit := r.1, confirms := d.confirms + if r.2.2 then 1 else 0 } }

/-- Release a permit. -/
def handBack (receipt : ℕ) (d : Dispatch) (scope : BudgetScope) : BudgetSys :=
  let r := d.permit.release receipt s.ledger scope
  { s with
    ledger := r.2.2
    scopes := s.scopes.set d.permit.scope r.2.1
    dispatches := s.dispatches.set receipt { d with permit := r.1 } }

/-- Report one send against a permit. -/
def report (receipt : ℕ) (d : Dispatch) (answers : ObserverAnswers) : BudgetSys :=
  let settles := (s.ledger.settleReceipt receipt).2
  { s with
    ledger := reportDispatchSends s.ledger answers 1 (some receipt)
    dispatches := s.dispatches.set receipt { d with reported := d.reported || settles }
    unmatched := s.unmatched + if settles || answers.enforced then 0 else 1 }

end BudgetSys

/-- What an event does; `cap` is the most a derived policy may allow. -/
def budgetStep (cap : ℕ) (s : BudgetSys) : BudgetEvent → Option BudgetSys
  | .derive parent scope policy =>
    if s.scopes.has parent ∧ s.scopes.has scope = false ∧ policy.maxTotalModelSends ≤ cap then
      some { s with scopes := s.scopes.set scope (.fresh policy) }
    else none
  | .bindPrepaidTarget scope targetKey =>
    (s.scopes.get? scope).map fun sc ↦
      { s with scopes := s.scopes.set scope (sc.bindPrepaidTarget targetKey) }
  | .reserve scope receipt intent answers =>
    if s.dispatches.has receipt then none
    else (s.scopes.get? scope).map fun sc ↦
      match reserveDispatch sc intent s.ledger answers scope receipt with
      | (.error _, _, ledger) => { s with ledger }
      | (.ok permit, sc, ledger) =>
        { s with
          ledger
          scopes := s.scopes.set scope sc
          dispatches := s.dispatches.set receipt ⟨permit, 0, false⟩ }
  | .use receipt answers =>
    (s.dispatches.get? receipt).bind fun d ↦ (s.scopes.get? d.permit.scope).map fun sc ↦
      s.confirm receipt d (d.permit.use sc.policy s.ledger answers)
  | .assumeCharge receipt answers =>
    (s.dispatches.get? receipt).bind fun d ↦ (s.scopes.get? d.permit.scope).map fun sc ↦
      s.confirm receipt d (d.permit.assumeCharge sc.policy receipt s.ledger answers)
  | .release receipt =>
    (s.dispatches.get? receipt).bind fun d ↦ (s.scopes.get? d.permit.scope).map fun sc ↦
      s.handBack receipt d sc
  | .report receipt answers =>
    (s.dispatches.get? receipt).map fun d ↦ s.report receipt d answers

/-- The runs of one logical request under a policy. -/
def budgetMachine (policy : RequestExecutionBudgetPolicy) : Machine BudgetSys BudgetEvent where
  init s := s = .create policy
  step := budgetStep policy.maxTotalModelSends

/-! ## Counting permits -/

namespace BudgetSys

variable (s : BudgetSys)

/-- The live permits. -/
def live : ℕ := s.dispatches.count Dispatch.live

/-- The live permits of a scope with some property. -/
def liveIn (scope : ℕ) (f : DispatchPermit → Bool) : ℕ :=
  s.dispatches.count fun d ↦ d.live && d.permit.scope == scope && f d.permit

end BudgetSys

/-! ## The invariant -/

/-- A permit's log agrees with what the code remembers of it. -/
structure Dispatch.Logged (d : Dispatch) (pending : Bool) : Prop where
  /-- A booking waits for its reporter only while it is external, unreported and not released. -/
  waits : pending = true → d.permit.intent.countedExternally = true ∧ d.reported = false ∧
    d.permit.settled ≠ .released
  /-- An open external booking waits until it is reported. -/
  opened : d.permit.intent.countedExternally = true → d.permit.settled = .opened →
    d.reported = false → pending = true
  /-- Only external bookings are settled by reports. -/
  internal : d.permit.intent.countedExternally = false → d.reported = false
  /-- A permit is confirmed once, when it becomes used. -/
  confirms : d.confirms = if d.permit.settled = .used then 1 else 0

/-- A scope's books agree with its live permits, and stay within its allowances. -/
structure ScopeBooks (s : BudgetSys) (k : ℕ) (sc : BudgetScope) : Prop where
  recovery : s.liveIn k (·.drawsReserve) = sc.reserveSpent.toNat
  recoveryFunded : sc.reserveSpent = true → 0 < sc.policy.finalRecoveryAllowance
  alternates : (s.liveIn k (·.chargesAlternateTarget) : ℤ) = sc.alternateTargetSends
  alternatesBound : sc.alternateTargetSends ≤ sc.policy.maxAlternateTargetSends
  transitions : (s.liveIn k (·.chargesTransition) : ℤ) = sc.targetTransitions
  transitionsBound : sc.targetTransitions ≤ sc.policy.maxTargetTransitions

/-- What every reachable state of a request's budget satisfies. -/
structure Booked (cap : ℕ) (s : BudgetSys) : Prop where
  spent : s.ledger.spent = s.live + s.unmatched
  bound : s.live ≤ cap
  policies : ∀ k sc, s.scopes.get? k = some sc → sc.policy.maxTotalModelSends ≤ cap
  logged : ∀ i d, s.dispatches.get? i = some d →
    d.Logged (decide (i ∈ s.ledger.pendingExternalSends))
  known : ∀ i, i ∈ s.ledger.pendingExternalSends → s.dispatches.has i = true
  granted : ∀ i d, s.dispatches.get? i = some d → s.scopes.has d.permit.scope = true
  books : ∀ k sc, s.scopes.get? k = some sc → ScopeBooks s k sc

/-! ## What the operations do to the ledger -/

section Ledger

variable (policy : RequestExecutionBudgetPolicy) (answers : ObserverAnswers)
  (ledger : SharedSendLedger)

/-- A physical start moves neither the counter nor a booking. -/
def SameBooks (ledger ledger' : SharedSendLedger) : Prop :=
  ledger'.spent = ledger.spent ∧ ledger'.pendingExternalSends = ledger.pendingExternalSends

theorem startRequest_books : SameBooks ledger (startRequest policy answers ledger) := by
  rw [startRequest]
  split
  · exact ⟨rfl, rfl⟩
  · exact ⟨rfl, rfl⟩

theorem claimPhysicalSend_books : SameBooks ledger (claimPhysicalSend policy answers ledger).1 := by
  have hstart := startRequest_books policy answers ledger
  rw [claimPhysicalSend]
  split
  · exact hstart
  · split
    · exact hstart
    · exact hstart

theorem startPhysical_books : SameBooks ledger (startPhysical policy answers ledger).1 := by
  rw [startPhysical]
  split_ifs
  · exact ⟨rfl, rfl⟩
  · exact ⟨rfl, rfl⟩
  · exact claimPhysicalSend_books policy answers ledger

end Ledger

/-- What confirming a dispatch can do: nothing, or use up an open permit. -/
def ConfirmsOnce (permit : DispatchPermit) (receipt : ℕ) (ledger : SharedSendLedger)
    (r : DispatchPermit × SharedSendLedger × Bool) : Prop :=
  (r.1 = permit ∧ r.2.2 = false ∧ SameBooks ledger r.2.1) ∨
  (permit.settled = .opened ∧ r.1 = { permit with settled := .used } ∧ r.2.2 = true ∧
    r.2.1.spent = ledger.spent ∧
    (r.2.1.pendingExternalSends = ledger.pendingExternalSends ∨
      r.2.1.pendingExternalSends = ledger.pendingExternalSends.erase receipt))

theorem use_confirmsOnce (policy : RequestExecutionBudgetPolicy) (permit : DispatchPermit)
    (receipt : ℕ) (ledger : SharedSendLedger) (answers : ObserverAnswers) :
    ConfirmsOnce permit receipt ledger (permit.use policy ledger answers) := by
  have hstart := startPhysical_books policy answers ledger
  rw [DispatchPermit.use]
  dsimp only
  split_ifs with hopen
  · exact .inl ⟨rfl, rfl, rfl, rfl⟩
  · exact .inr ⟨not_not.mp hopen, rfl, rfl, rfl, .inl rfl⟩
  · exact .inr ⟨not_not.mp hopen, rfl, rfl, hstart.1, .inl hstart.2⟩
  · exact .inl ⟨rfl, rfl, hstart⟩

theorem assumeCharge_confirmsOnce (policy : RequestExecutionBudgetPolicy) (permit : DispatchPermit)
    (receipt : ℕ) (ledger : SharedSendLedger) (answers : ObserverAnswers) :
    ConfirmsOnce permit receipt ledger (permit.assumeCharge policy receipt ledger answers) := by
  have hstart := startPhysical_books policy answers ledger
  rw [DispatchPermit.assumeCharge]
  dsimp only
  split_ifs with hopen
  · exact .inl ⟨rfl, rfl, rfl, rfl⟩
  · refine .inr ⟨by_contra fun h ↦ hopen (.inl h), rfl, rfl, hstart.1, .inr ?_⟩
    exact congrArg (·.erase receipt) hstart.2
  · exact .inr ⟨by_contra fun h ↦ hopen (.inl h), rfl, rfl, hstart.1, .inl hstart.2⟩
  · exact .inl ⟨rfl, rfl, hstart⟩

variable {i : ℕ}

theorem report_settles {ledger : SharedSendLedger} (hi : i ∈ ledger.pendingExternalSends)
    (hspent : 0 ≤ ledger.spent) (answers : ObserverAnswers) :
    reportDispatchSends ledger answers 1 (some i) =
      { ledger with pendingExternalSends := ledger.pendingExternalSends.erase i } := by
  rw [reportDispatchSends, if_neg one_ne_zero]
  simp only [settleReceipt, if_pos hi, setUsed, if_true]
  split
  · rfl
  · simp only [Nat.cast_one, sub_self, add_zero, max_eq_right hspent]

/-- A report that finds no booking is a send of its own, unless the observer counts the starts. -/
theorem report_charges {ledger : SharedSendLedger} (hi : i ∉ ledger.pendingExternalSends)
    (hspent : 0 ≤ ledger.spent) (answers : ObserverAnswers) :
    reportDispatchSends ledger answers 1 (some i) =
      { ledger with spent := ledger.spent + if answers.enforced then 0 else 1 } := by
  rw [reportDispatchSends, if_neg one_ne_zero]
  simp only [settleReceipt, if_neg hi, setUsed, false_eq_true, if_false, sub_zero, Nat.cast_one]
  split
  · rw [add_zero]
  · rw [max_eq_right (by omega)]

variable {intent : DispatchIntent}

theorem denial_eq_none {scope : BudgetScope} {ledger : SharedSendLedger}
    (h : denial scope intent ledger = none) : ledger.spent < scope.policy.maxTotalModelSends ∧
    (chargesTransition scope intent = true →
      scope.targetTransitions < scope.policy.maxTargetTransitions) ∧
    (chargesAlternateTarget scope intent = true →
      scope.alternateTargetSends < scope.policy.maxAlternateTargetSends) ∧
    (drawsReserve scope ledger = true →
      scope.reserveSpent = false ∧ 0 < scope.policy.finalRecoveryAllowance) := by
  rw [denial] at h
  split at h
  · nomatch h
  split at h
  · nomatch h
  rename_i htotal
  split at h
  · nomatch h
  rename_i htransition
  split at h
  · nomatch h
  rename_i halternate
  split at h
  · nomatch h
  split at h
  · nomatch h
  rename_i hreserve
  refine ⟨not_le.mp htotal, fun hc ↦ ?_, fun hc ↦ ?_, fun hc ↦ ?_⟩
  · have halt : isAlternateTarget scope intent = true := by
      rw [chargesTransition, and_eq_true] at hc
      rw [isAlternateTarget, hc.1, Bool.true_or, Bool.true_or]
    rw [halt, hc] at htransition
    simpa using htransition
  · rw [hc] at halternate
    simpa using halternate
  · rw [hc] at hreserve
    simpa [Nat.pos_iff_ne_zero] using hreserve

/-- A scope after it granted a dispatch. -/
def BudgetScope.granted (scope : BudgetScope) (permit : DispatchPermit) (receipt : ℕ) :
    BudgetScope :=
  { scope with
    reserveSpent := scope.reserveSpent || permit.drawsReserve
    alternateTargetSends :=
      scope.alternateTargetSends + if permit.chargesAlternateTarget then 1 else 0
    targetTransitions := scope.targetTransitions + if permit.chargesTransition then 1 else 0
    lastTargetKey := some permit.intent.targetKey
    targetReservations := scope.targetReservations ++ [(receipt, permit.intent.targetKey)] }

/-- The permit of a granted dispatch. -/
def grantedPermit (scope : BudgetScope) (intent : DispatchIntent) (ledger : SharedSendLedger)
    (scopeId : ℕ) : DispatchPermit :=
  ⟨scopeId, intent, drawsReserve scope ledger, chargesAlternateTarget scope intent,
    chargesTransition scope intent, .opened⟩

/-- A reservation is refused and books nothing, or passes every bound and books one send. -/
theorem reserveDispatch_cases (scope : BudgetScope) (intent : DispatchIntent)
    (ledger : SharedSendLedger) (answers : ObserverAnswers) (scopeId receipt : ℕ) :
    (∃ reason ledger', SameBooks ledger ledger' ∧
      reserveDispatch scope intent ledger answers scopeId receipt =
        (.error reason, scope, ledger')) ∨ (denial scope intent ledger = none ∧ ∃ ledger',
      ledger'.spent = ledger.spent + 1 ∧ ledger'.pendingExternalSends =
        (if intent.countedExternally then insert receipt ledger.pendingExternalSends
          else ledger.pendingExternalSends) ∧
      reserveDispatch scope intent ledger answers scopeId receipt =
        (.ok (grantedPermit scope intent ledger scopeId),
          scope.granted (grantedPermit scope intent ledger scopeId) receipt, ledger')) := by
  have hstart := startRequest_books scope.policy answers ledger
  rw [reserveDispatch]
  cases hden : denial scope intent ledger with
  | some reason => exact .inl ⟨reason, ledger, ⟨rfl, rfl⟩, rfl⟩
  | none =>
    dsimp only
    split
    · exact .inl ⟨.spendExhausted, _, hstart, rfl⟩
    · refine .inr ⟨rfl, _, ?_, ?_, rfl⟩
      · exact congrArg (· + 1) hstart.1
      · show (if _ then insert receipt (startRequest scope.policy answers ledger).pendingExternalSends
          else (startRequest scope.policy answers ledger).pendingExternalSends) = _
        rw [hstart.2]

/-! ## What a step keeps -/

section Steps

variable {cap : ℕ} {s : BudgetSys}

variable {d d' : Dispatch}

/-- Writing one permit, without changing whether it is live or what it was granted, keeps every
count. -/
theorem liveIn_set_same (hd : s.dispatches.get? i = some d) (hlive : d'.live = d.live)
    (hscope : d'.permit.scope = d.permit.scope) (k : ℕ) {f : DispatchPermit → Bool}
    (hf : f d'.permit = f d.permit) :
    (s.dispatches.set i d').count (fun d ↦ d.live && d.permit.scope == k && f d.permit) =
      s.liveIn k f :=
  count_set_congr hd (by rw [hlive, hscope, hf])

/-- What a permit was granted. -/
def SameGrant (p p' : DispatchPermit) : Prop :=
  p'.scope = p.scope ∧ p'.intent = p.intent ∧ p'.drawsReserve = p.drawsReserve ∧
    p'.chargesAlternateTarget = p.chargesAlternateTarget ∧
    p'.chargesTransition = p.chargesTransition

/-- **A step that keeps every permit's liveness keeps the invariant**, when counter, log and
bookings move together. -/
theorem Booked.keep (h : Booked cap s) {ledger : SharedSendLedger} {scopes : OMap ℕ BudgetScope}
    {unmatched : ℕ} (hd : s.dispatches.get? i = some d) (hlive : d'.live = d.live)
    (hgrant : SameGrant d.permit d'.permit) (hscopes : ∀ k, scopes.get? k = s.scopes.get? k)
    (hspent : ledger.spent + s.unmatched = s.ledger.spent + unmatched)
    (hpending : ∀ j, j ≠ i → (j ∈ ledger.pendingExternalSends ↔ j ∈ s.ledger.pendingExternalSends))
    (hlogged : d'.Logged (decide (i ∈ ledger.pendingExternalSends))) :
    Booked cap ⟨ledger, scopes, s.dispatches.set i d', unmatched⟩ := by
  obtain ⟨hscope, -, hdraws, halternate, htransition⟩ := hgrant
  have hcount : (s.dispatches.set i d').count Dispatch.live = s.live := count_set_congr hd hlive
  have hgranted : ∀ j dj, s.dispatches.get? j = some dj → scopes.has dj.permit.scope = true := by
    intro j dj hj
    obtain ⟨sc, hsc⟩ := OMap.has_iff.mp (h.granted j dj hj)
    exact has_of_get? ((hscopes _).trans hsc)
  refine ⟨?_, ?_, fun k sc hk ↦ h.policies k sc ((hscopes k).symm.trans hk), fun j dj hj ↦ ?_,
    fun j hj ↦ ?_, fun j dj hj ↦ ?_, fun k sc hk ↦ ?_⟩
  · have := h.spent
    simp only [BudgetSys.live] at hcount this ⊢
    omega
  · exact hcount.trans_le h.bound
  · rw [get?_set] at hj
    split at hj
    · rename_i hji
      subst hji
      rw [← some_inj.mp hj]
      exact hlogged
    · rename_i hji
      have := h.logged j dj hj
      rwa [← decide_eq_decide.mpr (hpending j hji)] at this
  · rw [has_set]
    by_cases hji : j = i
    · simp [hji]
    · rw [h.known j ((hpending j hji).mp hj), Bool.or_true]
  · rw [get?_set] at hj
    split at hj
    · rw [← some_inj.mp hj, hscope]
      exact hgranted i d hd
    · exact hgranted j dj hj
  · obtain ⟨hr, hrf, ha, hab, ht, htb⟩ := h.books k sc ((hscopes k).symm.trans hk)
    refine ⟨?_, hrf, ?_, hab, ?_, htb⟩
    · exact (liveIn_set_same hd hlive hscope k hdraws).trans hr
    · exact (congrArg Nat.cast (liveIn_set_same hd hlive hscope k halternate)).trans ha
    · exact (congrArg Nat.cast (liveIn_set_same hd hlive hscope k htransition)).trans ht

theorem SameGrant.refl (p : DispatchPermit) : SameGrant p p := ⟨rfl, rfl, rfl, rfl, rfl⟩

theorem Booked.confirm (h : Booked cap s) (hd : s.dispatches.get? i = some d)
    {r : DispatchPermit × SharedSendLedger × Bool} (hr : ConfirmsOnce d.permit i s.ledger r) :
    Booked cap (s.confirm i d r) := by
  have hlog := h.logged i d hd
  rw [BudgetSys.confirm]
  rcases hr with ⟨hp, hok, hspent, hpending⟩ | ⟨hopen, hp, hok, hspent, hpending⟩
  · rw [hp, hok]
    refine h.keep hd rfl (.refl _) (fun _ ↦ rfl) (by rw [hspent]) (fun j _ ↦ by rw [hpending]) ?_
    rw [hpending]
    exact ⟨hlog.waits, hlog.opened, hlog.internal, hlog.confirms⟩
  · rw [hp, hok]
    have hlive : Dispatch.live ⟨{ d.permit with settled := .used }, d.confirms + 1, d.reported⟩ =
        d.live := by
      rw [Dispatch.live, Dispatch.live, hopen]
      rfl
    refine h.keep hd hlive ⟨rfl, rfl, rfl, rfl, rfl⟩ (fun _ ↦ rfl) (by rw [hspent])
      (fun j hj ↦ ?_) ?_
    · rcases hpending with hpending | hpending
      · rw [hpending]
      · rw [hpending, Finset.mem_erase]
        exact and_iff_right hj
    · have hzero : d.confirms = 0 := by rw [hlog.confirms, hopen]; rfl
      have hwaits : decide (i ∈ r.2.1.pendingExternalSends) = true →
          i ∈ s.ledger.pendingExternalSends := by
        intro hi
        have hi := of_decide_eq_true hi
        rcases hpending with hpending | hpending
        · exact hpending ▸ hi
        · exact Finset.mem_of_mem_erase (hpending ▸ hi)
      refine ⟨fun hi ↦ ?_, nofun, hlog.internal, ?_⟩
      · obtain ⟨hext, hrep, -⟩ := hlog.waits (decide_eq_true (hwaits hi))
        exact ⟨hext, hrep, nofun⟩
      · show d.confirms + 1 = 1
        rw [hzero]

theorem Booked.spent_nonneg (h : Booked cap s) : 0 ≤ s.ledger.spent := by
  rw [h.spent]
  omega

/-- Reporting a send keeps the invariant: it settles the permit's booking, or is charged. -/
theorem Booked.report (h : Booked cap s) (hd : s.dispatches.get? i = some d)
    (answers : ObserverAnswers) : Booked cap (s.report i d answers) := by
  have hlog := h.logged i d hd
  rw [BudgetSys.report]
  by_cases hi : i ∈ s.ledger.pendingExternalSends
  · obtain ⟨hext, hrep, hrel⟩ := hlog.waits (decide_eq_true hi)
    have hsettle : (s.ledger.settleReceipt i).2 = true := by rw [settleReceipt, if_pos hi]
    have hlive : Dispatch.live ⟨d.permit, d.confirms, true⟩ = d.live := by
      rw [Dispatch.live, Dispatch.live, Bool.or_true, bne_iff_ne.mpr hrel, Bool.true_or]
    simp only [hsettle, report_settles hi h.spent_nonneg, Bool.or_true, Bool.true_or, if_true,
      Nat.add_zero]
    refine h.keep hd hlive (.refl _) (fun _ ↦ rfl) rfl (fun j hj ↦ ?_) ?_
    · rw [Finset.mem_erase]
      exact and_iff_right hj
    · rw [decide_eq_false (Finset.notMem_erase i _)]
      exact ⟨nofun, nofun, fun hc ↦ absurd (hext.symm.trans hc) (by decide), hlog.confirms⟩
  · have hsettle : (s.ledger.settleReceipt i).2 = false := by rw [settleReceipt, if_neg hi]
    simp only [hsettle, report_charges hi h.spent_nonneg, Bool.or_false, Bool.false_or]
    refine h.keep hd rfl (.refl _) (fun _ ↦ rfl) ?_ (fun j _ ↦ Iff.rfl) hlog
    cases answers.enforced with
    | true => simp
    | false => simp only [false_eq_true, if_false]; omega

theorem charge_eq_toNat (b : Bool) : (if b = true then 1 else 0 : ℤ) = (b.toNat : ℤ) := by
  cases b <;> rfl

variable {k : ℕ} {sc : BudgetScope} {s' : BudgetSys}

theorem ScopeBooks.refund (h : ScopeBooks s k sc) (hs' : s'.dispatches = s.dispatches.set i d')
    (hd : s.dispatches.get? i = some d) (hlive : d.live = true) (hdead : d'.live = false)
    (hk : d.permit.scope = k) : ScopeBooks s' k (sc.refund d.permit i) := by
  have hcount : ∀ f : DispatchPermit → Bool, s'.liveIn k f + (f d.permit).toNat = s.liveIn k f := by
    intro f
    have hset := count_set_of_get? hd d' fun d ↦ d.live && d.permit.scope == k && f d.permit
    rw [BudgetSys.liveIn, BudgetSys.liveIn, hs']
    simpa only [hlive, hdead, hk, beq_self_eq_true, Bool.and_true,
      Bool.true_and, Bool.false_and, Bool.toNat_false, Nat.add_zero] using hset
  obtain ⟨hr, hrf, ha, hab, ht, htb⟩ := h
  have hr' := hcount (·.drawsReserve)
  have ha' := hcount (·.chargesAlternateTarget)
  have ht' := hcount (·.chargesTransition)
  refine ⟨?_, fun hc ↦ hrf (and_eq_true _ _ ▸ hc).1, ?_, ?_, ?_, ?_⟩
  · show _ = (sc.reserveSpent && !d.permit.drawsReserve).toNat
    cases hd : d.permit.drawsReserve with
    | true =>
      have hle := toNat_le sc.reserveSpent
      rw [hd, toNat_true] at hr'
      rw [Bool.not_true, Bool.and_false, Bool.toNat_false]
      omega
    | false =>
      rw [hd, toNat_false] at hr'
      rw [Bool.not_false, Bool.and_true, ← hr]
      exact hr'
  · show _ = sc.alternateTargetSends - ite _ _ _
    rw [charge_eq_toNat]
    omega
  · show sc.alternateTargetSends - ite _ _ _ ≤ _
    rw [charge_eq_toNat]
    exact (Int.sub_le_self _ (Int.natCast_nonneg _)).trans hab
  · show _ = sc.targetTransitions - ite _ _ _
    rw [charge_eq_toNat]
    omega
  · show sc.targetTransitions - ite _ _ _ ≤ _
    rw [charge_eq_toNat]
    exact (Int.sub_le_self _ (Int.natCast_nonneg _)).trans htb

theorem ScopeBooks.grant {p : DispatchPermit} (h : ScopeBooks s k sc)
    (hs' : s'.dispatches = s.dispatches.set i ⟨p, 0, false⟩) (hfresh : s.dispatches.has i = false)
    (hk : p.scope = k) (hopen : p.settled = .opened)
    (ht : p.chargesTransition = true → sc.targetTransitions < sc.policy.maxTargetTransitions)
    (ha : p.chargesAlternateTarget = true →
      sc.alternateTargetSends < sc.policy.maxAlternateTargetSends) (hr : p.drawsReserve = true →
      sc.reserveSpent = false ∧ 0 < sc.policy.finalRecoveryAllowance) :
    ScopeBooks s' k (sc.granted p i) := by
  have hcount : ∀ f : DispatchPermit → Bool, s'.liveIn k f = s.liveIn k f + (f p).toNat := by
    intro f
    have hset := count_set_of_not_has hfresh (⟨p, 0, false⟩ : Dispatch)
      fun d ↦ d.live && d.permit.scope == k && f d.permit
    have hlive : Dispatch.live ⟨p, 0, false⟩ = true := by
      rw [Dispatch.live, hopen]
      rfl
    rw [BudgetSys.liveIn, BudgetSys.liveIn, hs']
    simpa only [hlive, hk, beq_self_eq_true, Bool.and_true, Bool.true_and] using hset
  obtain ⟨hrec, hrf, halt, hab, htr, htb⟩ := h
  refine ⟨?_, fun hc ↦ ?_, ?_, ?_, ?_, ?_⟩
  · rw [hcount, hrec]
    show _ = (sc.reserveSpent || p.drawsReserve).toNat
    cases hd : p.drawsReserve with
    | true => rw [(hr hd).1]; rfl
    | false => rw [Bool.or_false]; rfl
  · rcases or_eq_true_iff.mp hc with hc | hc
    · exact hrf hc
    · exact (hr hc).2
  · rw [hcount]
    show _ = sc.alternateTargetSends + ite _ _ _
    rw [charge_eq_toNat]
    omega
  · show sc.alternateTargetSends + ite _ _ _ ≤ _
    cases hd : p.chargesAlternateTarget with
    | true => exact ha hd
    | false => exact (Int.add_zero _).trans_le hab
  · rw [hcount]
    show _ = sc.targetTransitions + ite _ _ _
    rw [charge_eq_toNat]
    omega
  · show sc.targetTransitions + ite _ _ _ ≤ _
    cases hd : p.chargesTransition with
    | true => exact ht hd
    | false => exact (Int.add_zero _).trans_le htb

theorem ScopeBooks.of_other (h : ScopeBooks s k sc) (hcount : ∀ f, s'.liveIn k f = s.liveIn k f) :
    ScopeBooks s' k sc := by
  obtain ⟨hr, hrf, ha, hab, ht, htb⟩ := h
  exact ⟨(hcount _).trans hr, hrf, (congrArg Nat.cast (hcount _)).trans ha, hab,
    (congrArg Nat.cast (hcount _)).trans ht, htb⟩

theorem Booked.refund (h : Booked cap s) {pending : Finset ℕ} (hd : s.dispatches.get? i = some d)
    (hsc : s.scopes.get? d.permit.scope = some sc) (hopen : d.permit.settled = .opened)
    (hrep : d.reported = false) (hi : i ∉ pending)
    (hpending : ∀ j, j ≠ i → (j ∈ pending ↔ j ∈ s.ledger.pendingExternalSends)) : Booked cap
      { s with
        ledger := { s.ledger with
          spent := s.ledger.spent - 1
          pendingExternalSends := pending }
        scopes := s.scopes.set d.permit.scope (sc.refund d.permit i)
        dispatches :=
          s.dispatches.set i { d with permit := { d.permit with settled := .released } } } := by
  have hlog := h.logged i d hd
  have hlive : d.live = true := by
    rw [Dispatch.live, hopen]
    rfl
  have hdead : Dispatch.live ⟨{ d.permit with settled := .released }, d.confirms, d.reported⟩ =
      false := by
    rw [Dispatch.live, hrep]
    rfl
  have hcount : (s.dispatches.set i ⟨{ d.permit with settled := .released }, d.confirms,
      d.reported⟩).count Dispatch.live + 1 = s.live := by
    have hset := count_set_of_get? hd
      ⟨{ d.permit with settled := .released }, d.confirms, d.reported⟩ Dispatch.live
    rwa [hlive, hdead, toNat_true, toNat_false, Nat.add_zero] at hset
  refine ⟨?_, ?_, fun k sc' hk ↦ ?_, fun j dj hj ↦ ?_, fun j hj ↦ ?_, fun j dj hj ↦ ?_,
    fun k sc' hk ↦ ?_⟩
  · have hspent := h.spent
    simp only [BudgetSys.live] at hcount hspent ⊢
    omega
  · have hbound := h.bound
    simp only [BudgetSys.live] at hcount hbound ⊢
    omega
  · rw [get?_set] at hk
    split at hk
    · rw [← some_inj.mp hk]
      exact h.policies _ sc hsc
    · exact h.policies k sc' hk
  · rw [get?_set] at hj
    split at hj
    · rename_i hji
      subst hji
      rw [← some_inj.mp hj, decide_eq_false hi]
      exact ⟨by rintro ⟨⟩, by rintro - ⟨⟩, fun _ ↦ hrep, by rw [hlog.confirms, hopen]; rfl⟩
    · rename_i hji
      have := h.logged j dj hj
      rwa [← decide_eq_decide.mpr (hpending j hji)] at this
  · have hji : j ≠ i := fun hji ↦ hi (hji ▸ hj)
    rw [has_set, h.known j ((hpending j hji).mp hj), Bool.or_true]
  · rw [has_set]
    rw [get?_set] at hj
    split at hj
    · rw [← some_inj.mp hj]
      simp
    · rw [h.granted j dj hj, Bool.or_true]
  · rw [get?_set] at hk
    split at hk
    · rename_i hkd
      rw [← some_inj.mp hk, hkd]
      exact (h.books _ sc hsc).refund rfl hd hlive hdead rfl
    · rename_i hkd
      refine (h.books k sc' hk).of_other fun f ↦ count_set_congr hd ?_
      have hne : (d.permit.scope == k) = false := beq_eq_false_iff_ne.mpr (Ne.symm hkd)
      simp [hne]

theorem Booked.handBack (h : Booked cap s) (hd : s.dispatches.get? i = some d)
    (hsc : s.scopes.get? d.permit.scope = some sc) : Booked cap (s.handBack i d sc) := by
  have hlog := h.logged i d hd
  have hsame : ∀ k, (s.scopes.set d.permit.scope sc).get? k = s.scopes.get? k := by
    intro k
    rw [get?_set]
    split
    · rename_i hk
      rw [hk, hsc]
    · rfl
  rw [BudgetSys.handBack, DispatchPermit.release]
  split_ifs with hopen hsettled hext
  · exact h.keep hd rfl (.refl _) hsame rfl (fun _ _ ↦ Iff.rfl) hlog
  · -- its report came first: the booking stays paid for
    have hopen := not_not.mp hopen
    have hrep : d.reported = true := by
      by_contra hrep
      exact hsettled.2 (of_decide_eq_true (hlog.opened hsettled.1 hopen (eq_false_of_ne_true hrep)))
    refine h.keep hd ?_ ⟨rfl, rfl, rfl, rfl, rfl⟩ hsame rfl (fun _ _ ↦ Iff.rfl) ?_
    · rw [Dispatch.live, Dispatch.live, hrep, Bool.or_true, Bool.or_true]
    · rw [decide_eq_false hsettled.2]
      exact ⟨by rintro ⟨⟩, by rintro - ⟨⟩, hlog.internal, by rw [hlog.confirms, hopen]; rfl⟩
  · have hopen := not_not.mp hopen
    have hmem : i ∈ s.ledger.pendingExternalSends := by
      by_contra hmem
      exact hsettled ⟨hext, hmem⟩
    refine h.refund hd hsc hopen (hlog.waits (decide_eq_true hmem)).2.1
      (Finset.notMem_erase i _) fun j hj ↦ ?_
    rw [Finset.mem_erase]
    exact and_iff_right hj
  · have hopen := not_not.mp hopen
    have hext := eq_false_of_ne_true hext
    refine h.refund hd hsc hopen (hlog.internal hext) (fun hmem ↦ ?_) fun j _ ↦ Iff.rfl
    exact absurd ((hlog.waits (decide_eq_true hmem)).1.symm.trans hext) (by decide)

theorem Booked.sameBooks (h : Booked cap s) {ledger : SharedSendLedger}
    (hl : SameBooks s.ledger ledger) : Booked cap { s with ledger } where
  spent := hl.1.trans h.spent
  bound := h.bound
  policies := h.policies
  logged i d hd := by
    show d.Logged (decide (i ∈ ledger.pendingExternalSends))
    rw [hl.2]
    exact h.logged i d hd
  known i hi := h.known i (hl.2 ▸ hi)
  granted := h.granted
  books k sc hk := (h.books k sc hk).of_other fun _ ↦ rfl

theorem Booked.reserve (h : Booked cap s) (hsc : s.scopes.get? k = some sc)
    (hfresh : s.dispatches.has i = false) (hden : denial sc intent s.ledger = none)
    {ledger : SharedSendLedger} (hspent : ledger.spent = s.ledger.spent + 1)
    (hpending : ledger.pendingExternalSends =
      if intent.countedExternally then insert i s.ledger.pendingExternalSends
      else s.ledger.pendingExternalSends) : Booked cap { s with
        ledger
        scopes := s.scopes.set k (sc.granted (grantedPermit sc intent s.ledger k) i)
        dispatches := s.dispatches.set i ⟨grantedPermit sc intent s.ledger k, 0, false⟩ } := by
  obtain ⟨htotal, htransition, halternate, hreserve⟩ := denial_eq_none hden
  have hout : i ∉ s.ledger.pendingExternalSends := by
    intro hi
    exact absurd ((h.known i hi).symm.trans hfresh) (by decide)
  have hmem : ∀ j, j ≠ i →
      (j ∈ ledger.pendingExternalSends ↔ j ∈ s.ledger.pendingExternalSends) := by
    intro j hj
    rw [hpending]
    split
    · rw [Finset.mem_insert]
      exact or_iff_right hj
    · exact Iff.rfl
  have hmemi : decide (i ∈ ledger.pendingExternalSends) = intent.countedExternally := by
    rw [hpending]
    cases hc : intent.countedExternally with
    | true => exact decide_eq_true (Finset.mem_insert_self i _)
    | false => exact decide_eq_false hout
  have hcount : (s.dispatches.set i ⟨grantedPermit sc intent s.ledger k, 0, false⟩).count
      Dispatch.live = s.live + 1 :=
    count_set_of_not_has hfresh _ _
  have hlt : s.live < cap := by
    have hle := h.policies k sc hsc
    have := h.spent
    omega
  refine ⟨?_, ?_, fun k' sc' hk ↦ ?_, fun j dj hj ↦ ?_, fun j hj ↦ ?_, fun j dj hj ↦ ?_,
    fun k' sc' hk ↦ ?_⟩
  · have := h.spent
    simp only [BudgetSys.live] at hcount this ⊢
    omega
  · simp only [BudgetSys.live] at hcount hlt ⊢
    omega
  · rw [get?_set] at hk
    split at hk
    · rw [← some_inj.mp hk]
      exact h.policies k sc hsc
    · exact h.policies k' sc' hk
  · rw [get?_set] at hj
    split at hj
    · rename_i hji
      subst hji
      rw [← some_inj.mp hj, hmemi]
      exact ⟨fun hc ↦ ⟨hc, rfl, by rintro ⟨⟩⟩, fun hc _ _ ↦ hc, fun _ ↦ rfl, rfl⟩
    · rename_i hji
      have := h.logged j dj hj
      rwa [← decide_eq_decide.mpr (hmem j hji)] at this
  · rw [has_set]
    by_cases hji : j = i
    · simp [hji]
    · rw [h.known j ((hmem j hji).mp hj), Bool.or_true]
  · rw [has_set]
    rw [get?_set] at hj
    split at hj
    · rw [← some_inj.mp hj]
      simp [grantedPermit]
    · rw [h.granted j dj hj, Bool.or_true]
  · rw [get?_set] at hk
    split at hk
    · rename_i hkk
      subst hkk
      rw [← some_inj.mp hk]
      exact (h.books k' sc hsc).grant rfl hfresh rfl rfl htransition halternate hreserve
    · rename_i hkk
      refine (h.books k' sc' hk).of_other fun f ↦ ?_
      have hne : (k == k') = false := beq_eq_false_iff_ne.mpr (Ne.symm hkk)
      rw [BudgetSys.liveIn, count_set_of_not_has hfresh]
      simp [grantedPermit, hne, BudgetSys.liveIn]

/-- Writing a scope keeps the invariant, when the scope's books agree with its permits. -/
theorem Booked.rescope (h : Booked cap s) (hcap : sc.policy.maxTotalModelSends ≤ cap)
    (hbooks : ScopeBooks s k sc) : Booked cap { s with scopes := s.scopes.set k sc } where
  spent := h.spent
  bound := h.bound
  policies k' sc' hk := by
    rw [get?_set] at hk
    split at hk
    · rw [← some_inj.mp hk]
      exact hcap
    · exact h.policies k' sc' hk
  logged := h.logged
  known := h.known
  granted i d hd := by rw [has_set, h.granted i d hd, Bool.or_true]
  books k' sc' hk := by
    rw [get?_set] at hk
    split at hk
    · rename_i hkk
      rw [← some_inj.mp hk, hkk]
      exact hbooks.of_other fun _ ↦ rfl
    · exact (h.books k' sc' hk).of_other fun _ ↦ rfl

theorem ScopeBooks.fresh (hnone : ∀ f, s.liveIn k f = 0) (policy : RequestExecutionBudgetPolicy) :
    ScopeBooks s k (.fresh policy) where
  recovery := hnone _
  recoveryFunded hc := Bool.noConfusion hc
  alternates := congrArg Nat.cast (hnone _)
  alternatesBound := Int.natCast_nonneg _
  transitions := congrArg Nat.cast (hnone _)
  transitionsBound := Int.natCast_nonneg _

theorem Booked.liveIn_fresh (h : Booked cap s) (hk : s.scopes.has k = false)
    (f : DispatchPermit → Bool) : s.liveIn k f = 0 := by
  rw [BudgetSys.liveIn, OMap.count]
  refine total_eq_zero fun i d hd ↦ ?_
  have hne : d.permit.scope ≠ k := by
    intro hkd
    exact absurd ((hkd ▸ h.granted i d hd).symm.trans hk) (by decide)
  rw [beq_eq_false_iff_ne.mpr hne, Bool.and_false, Bool.false_and, Bool.toNat_false]

theorem Booked.derive (h : Booked cap s) {policy : RequestExecutionBudgetPolicy}
    (hk : s.scopes.has k = false) (hcap : policy.maxTotalModelSends ≤ cap) :
    Booked cap { s with scopes := s.scopes.set k (.fresh policy) } :=
  h.rescope hcap (.fresh (h.liveIn_fresh hk) policy)

theorem ScopeBooks.bindPrepaidTarget (h : ScopeBooks s k sc) (targetKey : String) :
    ScopeBooks s k (sc.bindPrepaidTarget targetKey) := by
  rw [BudgetScope.bindPrepaidTarget]
  split
  · exact ⟨h.recovery, h.recoveryFunded, h.alternates, h.alternatesBound, h.transitions,
      h.transitionsBound⟩
  · exact h

theorem bindPrepaidTarget_policy (sc : BudgetScope) (targetKey : String) :
    (sc.bindPrepaidTarget targetKey).policy = sc.policy := by
  rw [BudgetScope.bindPrepaidTarget]
  split
  · rfl
  · rfl

end Steps

/-! ## Runs -/

theorem Booked.create (policy : RequestExecutionBudgetPolicy) :
    Booked policy.maxTotalModelSends (.create policy) where
  spent := rfl
  bound := Nat.zero_le _
  policies k sc hk := by
    rw [BudgetSys.create, get?_set] at hk
    split at hk
    · rw [← some_inj.mp hk]
      exact le_rfl
    · cases hk
  logged i d hd := by cases hd
  known i hi := absurd hi (Finset.notMem_empty i)
  granted i d hd := by cases hd
  books k sc hk := by
    rw [BudgetSys.create, get?_set] at hk
    split at hk
    · rw [← some_inj.mp hk]
      exact .fresh (fun _ ↦ rfl) policy
    · cases hk

theorem booked_preserved (policy : RequestExecutionBudgetPolicy) :
    (budgetMachine policy).Preserved Machine.Always (Booked policy.maxTotalModelSends) := by
  intro s e s' h _ hs
  change budgetStep _ s e = some s' at hs
  cases e with
  | derive parent scope derived =>
    simp only [budgetStep, ite_none_right_eq_some, some_inj] at hs
    obtain ⟨⟨-, hk, hcap⟩, rfl⟩ := hs
    exact h.derive hk hcap
  | bindPrepaidTarget scope targetKey =>
    simp only [budgetStep, map_eq_some_iff] at hs
    obtain ⟨sc, hsc, rfl⟩ := hs
    refine h.rescope ?_ ((h.books scope sc hsc).bindPrepaidTarget targetKey)
    rw [bindPrepaidTarget_policy]
    exact h.policies scope sc hsc
  | reserve scope receipt intent answers =>
    simp only [budgetStep, ite_none_left_eq_some, map_eq_some_iff] at hs
    obtain ⟨hfresh, sc, hsc, rfl⟩ := hs
    rcases reserveDispatch_cases sc intent s.ledger answers scope receipt with
      ⟨reason, ledger, hsame, heq⟩ | ⟨hden, ledger, hspent, hpending, heq⟩
    · rw [heq]
      exact h.sameBooks hsame
    · rw [heq]
      exact h.reserve hsc (eq_false_of_ne_true hfresh) hden hspent hpending
  | use receipt answers =>
    simp only [budgetStep, bind_eq_some_iff, map_eq_some_iff] at hs
    obtain ⟨d, hd, sc, -, rfl⟩ := hs
    exact h.confirm hd (use_confirmsOnce sc.policy d.permit receipt s.ledger answers)
  | assumeCharge receipt answers =>
    simp only [budgetStep, bind_eq_some_iff, map_eq_some_iff] at hs
    obtain ⟨d, hd, sc, -, rfl⟩ := hs
    exact h.confirm hd (assumeCharge_confirmsOnce sc.policy d.permit receipt s.ledger answers)
  | release receipt =>
    simp only [budgetStep, bind_eq_some_iff, map_eq_some_iff] at hs
    obtain ⟨d, hd, sc, hsc, rfl⟩ := hs
    exact h.handBack hd hsc
  | report receipt answers =>
    simp only [budgetStep, map_eq_some_iff] at hs
    obtain ⟨d, hd, rfl⟩ := hs
    exact h.report hd answers

theorem booked_inductive (policy : RequestExecutionBudgetPolicy) :
    (budgetMachine policy).Inductive Machine.Always (Booked policy.maxTotalModelSends) where
  init s hs := by
    rw [show s = .create policy from hs]
    exact .create policy
  step := booked_preserved policy

/-- **One logical request, one send cap.**  Whatever the scopes of a request do with their permits,
the shared counter is the number of live permits plus the reports that found no booking to settle;
the live permits never exceed the request's own limit, and neither does the counter while every
report found its booking; each permit confirms at most once; and each scope stays within its own
allowances. -/
theorem one_send_cap {policy : RequestExecutionBudgetPolicy} {s : BudgetSys}
    (h : (budgetMachine policy).Reachable s) : s.ledger.spent = s.live + s.unmatched ∧
    s.live ≤ policy.maxTotalModelSends ∧
    (s.unmatched = 0 → s.ledger.spent ≤ policy.maxTotalModelSends) ∧
    (∀ i d, s.dispatches.get? i = some d → d.confirms ≤ 1) ∧ ∀ k sc, s.scopes.get? k = some sc →
      s.liveIn k (·.drawsReserve) ≤ min 1 sc.policy.finalRecoveryAllowance ∧
      s.liveIn k (·.chargesAlternateTarget) ≤ sc.policy.maxAlternateTargetSends ∧
      s.liveIn k (·.chargesTransition) ≤ sc.policy.maxTargetTransitions := by
  have hb := (booked_inductive policy).reachable h
  refine ⟨hb.spent, hb.bound, fun hu ↦ ?_, fun i d hd ↦ ?_, fun k sc hk ↦ ⟨?_, ?_, ?_⟩⟩
  · rw [hb.spent, hu]
    have := hb.bound
    omega
  · rw [(hb.logged i d hd).confirms]
    split <;> omega
  · have hbooks := hb.books k sc hk
    rw [hbooks.recovery]
    cases hr : sc.reserveSpent with
    | true => exact le_min le_rfl (hbooks.recoveryFunded hr)
    | false => exact Nat.zero_le _
  · have hbooks := hb.books k sc hk
    have := hbooks.alternates
    have := hbooks.alternatesBound
    omega
  · have hbooks := hb.books k sc hk
    have := hbooks.transitions
    have := hbooks.transitionsBound
    omega

/-- A first send that its own layer makes. -/
def ownSend : DispatchIntent := ⟨.initial, "account-a", true, false, false⟩

/-- A failover to another account, counted by the retry helper. -/
def failoverSend : DispatchIntent := ⟨.accountFailover, "account-b", true, true, false⟩

/-- A run of the default policy, without an observer. -/
def BudgetSys.played (events : List BudgetEvent) : BudgetSys :=
  (budgetMachine codexTextGuardedBudgetPolicy).play (.create codexTextGuardedBudgetPolicy) events

/-- One send of the request itself and one of a derived scope, which its reporter names. -/
def reportedRun : List BudgetEvent :=
  [.reserve 0 0 ownSend .absent, .use 0 .absent, .derive 0 1 codexTextGuardedBudgetPolicy,
    .bindPrepaidTarget 1 "account-a", .reserve 1 1 failoverSend .absent, .report 1 .absent,
    .release 1]

theorem one_send_cap_reported : (BudgetSys.played reportedRun).unmatched = 0 ∧
      (BudgetSys.played reportedRun).ledger.spent ≤ codexTextGuardedBudgetPolicy.maxTotalModelSends :=
  have hr : (budgetMachine codexTextGuardedBudgetPolicy).Reachable (.played reportedRun) :=
    ⟨_, rfl, Machine.run_play (by decide +kernel)⟩
  ⟨by decide +kernel, (one_send_cap hr).2.2.1 (by decide +kernel)⟩

/-- Three confirmed permits that are not counted externally, two of them reported all the same. -/
def doubleChargedRun : List BudgetEvent :=
  [.reserve 0 0 ownSend .absent, .reserve 0 1 ownSend .absent, .reserve 0 2 ownSend .absent,
    .use 0 .absent, .use 1 .absent, .use 2 .absent, .report 0 .absent, .report 1 .absent]

/-- A report that names a permit without a booking is a send of its own: three permits, each
reported at most once, bring the counter to five, beyond the limit of four. -/
theorem unmatched_reports_exceed_cap :
    ∃ s, (budgetMachine codexTextGuardedBudgetPolicy).Reachable s ∧
      s.dispatches.size = 3 ∧ s.live = 3 ∧ s.ledger.spent = 5 ∧
      codexTextGuardedBudgetPolicy.maxTotalModelSends = 4 :=
  ⟨.played doubleChargedRun, ⟨_, rfl, Machine.run_play (by decide +kernel)⟩, by decide +kernel,
    by decide +kernel, by decide +kernel, rfl⟩

end Request
