import OpenCodex.Request.BudgetRuns

/-!
# Handing a reservation back

`release` undoes what `reserveDispatch` booked.  Four of the five bookings are undone by taking off
what was put on; the fifth, the scope's last target, is read off the receipts that remain.

Receipts and last target agree in every run: a scope that holds a receipt was last aimed at the target
of its newest one (`tied_inductive`).  But a scope may have a last target without any receipt, when
`bindPrepaidTarget` seeded it with the target of a send that was paid elsewhere.  The first
reservation of such a scope, handed back, takes the seed with it.  That is the one case in which a
release undoes more than the reservation did (`release_undoes_iff`).
-/

set_option autoImplicit false

open List Option

namespace Request

/-! ## Runs with other writers -/

/-- What may happen to a request's budget: an event of its own, or any other write to the shared
ledger, such as a counter set from outside or a physical start. -/
inductive OpenEvent where
  | dispatch (e : BudgetEvent)
  | ledger (next : SharedSendLedger)

def openStep (cap : ℕ) (s : BudgetSys) : OpenEvent → Option BudgetSys
  | .dispatch e => budgetStep cap s e
  | .ledger next => some { s with ledger := next }

/-- The runs of one logical request whose ledger has other writers too. -/
def openBudgetMachine (policy : RequestExecutionBudgetPolicy) : Machine BudgetSys OpenEvent where
  init s := s = .create policy
  step := openStep policy.maxTotalModelSends

/-! ## Receipts and the last target -/

/-- A scope with receipts was last aimed at the target of the newest. -/
def BudgetScope.Tied (scope : BudgetScope) : Prop :=
  ∀ r, scope.targetReservations.getLast? = some r → scope.lastTargetKey = some r.2

/-- Every scope is tied, and its receipts belong to permits. -/
structure Tied (s : BudgetSys) : Prop where
  tied : ∀ k sc, s.scopes.get? k = some sc → sc.Tied
  known : ∀ k sc, s.scopes.get? k = some sc →
    ∀ r ∈ sc.targetReservations, s.dispatches.has r.1 = true

section Steps

variable {s : BudgetSys}

variable {s' : BudgetSys}

theorem Tied.keep (h : Tied s) (hscopes : s'.scopes = s.scopes)
    (hmore : ∀ i, s.dispatches.has i = true → s'.dispatches.has i = true) : Tied s' where
  tied k sc hk := h.tied k sc (hscopes ▸ hk)
  known k sc hk r hr := hmore _ (h.known k sc (hscopes ▸ hk) r hr)

theorem Tied.write (h : Tied s) {k : ℕ} (sc : BudgetScope) (hscopes : s'.scopes = s.scopes.set k sc)
    (htied : sc.Tied) (hknown : ∀ r ∈ sc.targetReservations, s'.dispatches.has r.1 = true)
    (hmore : ∀ i, s.dispatches.has i = true → s'.dispatches.has i = true) : Tied s' := by
  have hcase : ∀ j sc', s'.scopes.get? j = some sc' → sc' = sc ∨ s.scopes.get? j = some sc' := by
    intro j sc' hj
    rw [hscopes, OMap.get?_set] at hj
    split at hj
    · exact .inl (some_inj.mp hj).symm
    · exact .inr hj
  refine ⟨?_, ?_⟩
  · intro j sc' hj
    rcases hcase j sc' hj with rfl | hold
    · exact htied
    · exact h.tied j sc' hold
  · intro j sc' hj r hr
    rcases hcase j sc' hj with rfl | hold
    · exact hknown r hr
    · exact hmore _ (h.known j sc' hold r hr)

theorem has_set_of_has {α : Type} (m : OMap ℕ α) (j : ℕ) (v : α) (i : ℕ) (h : m.has i = true) :
    (m.set j v).has i = true := by
  rw [OMap.has_set, h, Bool.or_true]

theorem BudgetScope.Tied.fresh (policy : RequestExecutionBudgetPolicy) :
    (BudgetScope.fresh policy).Tied := by
  intro r hr
  nomatch hr

theorem BudgetScope.Tied.bindPrepaidTarget {sc : BudgetScope} (h : sc.Tied) (targetKey : String) :
    (sc.bindPrepaidTarget targetKey).Tied := by
  rw [BudgetScope.bindPrepaidTarget]
  split
  · rename_i hnone
    intro r hr
    rw [h r hr] at hnone
    cases hnone
  · exact h

theorem BudgetScope.Tied.refund (sc : BudgetScope) (permit : DispatchPermit) (receipt : ℕ) :
    (sc.refund permit receipt).Tied := by
  intro r hr
  change (List.eraseP _ _).getLast? = some r at hr
  change (List.getLast? (List.eraseP _ _)).map _ = _
  rw [hr, map_some]

theorem BudgetScope.Tied.granted (sc : BudgetScope) (permit : DispatchPermit) (receipt : ℕ) :
    (sc.granted permit receipt).Tied := by
  intro r hr
  change (sc.targetReservations ++ [(receipt, permit.intent.targetKey)]).getLast? = some r at hr
  rw [getLast?_append, getLast?_singleton, some_or] at hr
  rw [← some_inj.mp hr]
  rfl

theorem bindPrepaidTarget_targetReservations (sc : BudgetScope) (targetKey : String) :
    (sc.bindPrepaidTarget targetKey).targetReservations = sc.targetReservations := by
  rw [BudgetScope.bindPrepaidTarget]
  split
  · rfl
  · rfl

theorem release_scope (permit : DispatchPermit) (receipt : ℕ) (ledger : SharedSendLedger)
    (sc : BudgetScope) : (permit.release receipt ledger sc).2.1 = sc ∨
      (permit.release receipt ledger sc).2.1 = sc.refund permit receipt := by
  rw [DispatchPermit.release]
  split
  · exact .inl rfl
  · split
    · exact .inl rfl
    · exact .inr rfl

theorem Tied.dispatch (h : Tied s) {cap : ℕ} {e : BudgetEvent} (hs : budgetStep cap s e = some s') :
    Tied s' := by
  cases e with
  | derive parent scope policy =>
    simp only [budgetStep, ite_none_right_eq_some, some_inj] at hs
    obtain ⟨-, rfl⟩ := hs
    refine h.write _ rfl (.fresh policy) ?_ fun _ hi ↦ hi
    intro r hr
    cases hr
  | bindPrepaidTarget scope targetKey =>
    simp only [budgetStep, map_eq_some_iff] at hs
    obtain ⟨sc, hsc, rfl⟩ := hs
    refine h.write _ rfl ((h.tied scope sc hsc).bindPrepaidTarget targetKey) ?_ fun _ hi ↦ hi
    rw [bindPrepaidTarget_targetReservations]
    exact h.known scope sc hsc
  | reserve scope receipt intent answers =>
    simp only [budgetStep, ite_none_left_eq_some, map_eq_some_iff] at hs
    obtain ⟨-, sc, hsc, rfl⟩ := hs
    rcases reserveDispatch_cases sc intent s.ledger answers scope receipt with
      ⟨reason, ledger, -, heq⟩ | ⟨-, ledger, -, -, heq⟩
    · rw [heq]
      exact h.keep rfl fun _ hi ↦ hi
    · rw [heq]
      refine h.write _ rfl (.granted sc _ receipt) ?_ (has_set_of_has _ _ _)
      intro r hr
      rcases mem_append.mp hr with hr | hr
      · exact has_set_of_has _ _ _ _ (h.known scope sc hsc r hr)
      · rw [mem_singleton.mp hr]
        simp [OMap.has_set]
  | use receipt answers | assumeCharge receipt answers =>
    simp only [budgetStep, bind_eq_some_iff, map_eq_some_iff] at hs
    obtain ⟨d, -, sc, -, rfl⟩ := hs
    exact h.keep rfl (has_set_of_has _ _ _)
  | release receipt =>
    simp only [budgetStep, bind_eq_some_iff, map_eq_some_iff] at hs
    obtain ⟨d, -, sc, hsc, rfl⟩ := hs
    refine h.write (d.permit.release receipt s.ledger sc).2.1 rfl ?_ ?_ (has_set_of_has _ _ _)
    · rcases release_scope d.permit receipt s.ledger sc with heq | heq
      · rw [heq]
        exact h.tied _ sc hsc
      · rw [heq]
        exact .refund sc d.permit receipt
    · intro r hr
      refine has_set_of_has _ _ _ _ (h.known _ sc hsc r ?_)
      rcases release_scope d.permit receipt s.ledger sc with heq | heq
      · rwa [heq] at hr
      · rw [heq] at hr
        exact mem_of_mem_eraseP hr
  | report receipt answers =>
    simp only [budgetStep, map_eq_some_iff] at hs
    obtain ⟨d, -, rfl⟩ := hs
    exact h.keep rfl (has_set_of_has _ _ _)

end Steps

theorem tied_inductive (policy : RequestExecutionBudgetPolicy) :
    (openBudgetMachine policy).Inductive Machine.Always Tied where
  init s hs := by
    rw [show s = .create policy from hs]
    have hscope : ∀ k sc, (BudgetSys.create policy).scopes.get? k = some sc → sc = .fresh policy := by
      intro k sc hk
      rw [BudgetSys.create, OMap.get?_set] at hk
      split at hk
      · exact (some_inj.mp hk).symm
      · cases hk
    refine ⟨?_, ?_⟩
    · intro k sc hk
      rw [hscope k sc hk]
      exact .fresh policy
    · intro k sc hk r hr
      rw [hscope k sc hk] at hr
      cases hr
  step s e s' h _ hs := by
    cases e with
    | dispatch e => exact h.dispatch hs
    | ledger next =>
      rw [← some_inj.mp hs]
      exact h.keep rfl fun _ hi ↦ hi

/-! ## Undoing a reservation -/

/-- A scope and the ledger are as before, as far as any decision looks at them. -/
structure Undone (sc : BudgetScope) (ledger : SharedSendLedger) (sc' : BudgetScope)
    (ledger' : SharedSendLedger) : Prop where
  used : ledger'.spent = ledger.spent
  reserveSpent : sc'.reserveSpent = sc.reserveSpent
  alternateTargetSends : sc'.alternateTargetSends = sc.alternateTargetSends
  targetTransitions : sc'.targetTransitions = sc.targetTransitions
  lastTargetKey : sc'.lastTargetKey = sc.lastTargetKey
  /-- Every later intent gets the same decision. -/
  decisions : ∀ intent answers k receipt,
    (reserveDispatch sc' intent ledger' answers k receipt).1 =
      (reserveDispatch sc intent ledger answers k receipt).1

variable {sc sc' : BudgetScope} {ledger ledger' : SharedSendLedger}

/-- Decisions depend on the policy, the counter and what the scope keeps of its recoveries. -/
theorem reserveDispatch_decision (hpolicy : sc'.policy = sc.policy)
    (hused : ledger'.spent = ledger.spent) (hreserve : sc'.reserveSpent = sc.reserveSpent)
    (halternate : sc'.alternateTargetSends = sc.alternateTargetSends)
    (htransition : sc'.targetTransitions = sc.targetTransitions)
    (hlast : sc'.lastTargetKey = sc.lastTargetKey) (intent : DispatchIntent)
    (answers : ObserverAnswers) (k receipt : ℕ) :
    (reserveDispatch sc' intent ledger' answers k receipt).1 =
      (reserveDispatch sc intent ledger answers k receipt).1 := by
  have hchanges : changesTarget sc' intent = changesTarget sc intent := by
    rw [changesTarget, hlast, changesTarget]
  have halt : isAlternateTarget sc' intent = isAlternateTarget sc intent := by
    rw [isAlternateTarget, hchanges, isAlternateTarget]
  have htrans : chargesTransition sc' intent = chargesTransition sc intent := by
    rw [chargesTransition, hchanges, chargesTransition]
  have hcharges : chargesAlternateTarget sc' intent = chargesAlternateTarget sc intent := by
    rw [chargesAlternateTarget, halt, chargesAlternateTarget]
  have hdraws : drawsReserve sc' ledger' = drawsReserve sc ledger := by
    rw [drawsReserve, hpolicy, hused, drawsReserve]
  have hdenial : denial sc' intent ledger' = denial sc intent ledger := by
    rw [denial, denial, hpolicy, hused, halt, htrans, hcharges, hdraws, hreserve, halternate,
      htransition]
  rw [reserveDispatch, reserveDispatch, hdenial, hdraws, hcharges, htrans]
  cases denial sc intent ledger with
  | some reason => rfl
  | none =>
    simp only
    split
    · rfl
    · rfl

/-- What a reservation that is handed back at once leaves of the scope: everything but the last
target, which is read off the receipts. -/
theorem release_granted {intent : DispatchIntent} {answers : ObserverAnswers} {k receipt : ℕ}
    {permit : DispatchPermit}
    (hreserve : reserveDispatch sc intent ledger answers k receipt = (.ok permit, sc', ledger'))
    (hfresh : ∀ r ∈ sc.targetReservations, r.1 ≠ receipt) :
    (permit.release receipt ledger' sc').2.1 =
        { sc with lastTargetKey := sc.targetReservations.getLast?.map (·.2) } ∧
      (permit.release receipt ledger' sc').2.2.spent = ledger.spent := by
  rcases reserveDispatch_cases sc intent ledger answers k receipt with
    ⟨reason, ledger'', -, heq⟩ | ⟨hden, ledger'', hspent, hpending, heq⟩
  · rw [heq] at hreserve
    simp at hreserve
  · rw [heq, Prod.mk.injEq, Prod.mk.injEq, Except.ok.injEq] at hreserve
    obtain ⟨rfl, rfl, rfl⟩ := hreserve
    have hwaits : ¬((grantedPermit sc intent ledger k).intent.countedExternally = true ∧
        receipt ∉ ledger''.pendingExternalSends) := by
      rintro ⟨hexternal, hnot⟩
      have hexternal' : intent.countedExternally = true := hexternal
      rw [hpending, if_pos hexternal'] at hnot
      exact hnot (Finset.mem_insert_self _ _)
    have hopened : ¬(grantedPermit sc intent ledger k).settled ≠ .opened := not_not.mpr rfl
    have herase : (sc.targetReservations ++ [(receipt, intent.targetKey)]).eraseP
        (fun r ↦ r.1 == receipt) = sc.targetReservations := by
      rw [eraseP_append_right]
      · simp
      · intro r hr
        simpa using hfresh r hr
    have hreserve : ((sc.reserveSpent || drawsReserve sc ledger) && !drawsReserve sc ledger) =
        sc.reserveSpent := by
      cases hdraws : drawsReserve sc ledger with
      | false => simp
      | true => simp [((denial_eq_none hden).2.2.2 hdraws).1]
    rw [DispatchPermit.release, if_neg hopened, if_neg hwaits]
    refine ⟨?_, ?_⟩
    · simp only [BudgetScope.refund, BudgetScope.granted, grantedPermit, herase, hreserve,
        add_sub_cancel_right]
    · simp only [hspent, add_sub_cancel_right]

/-- **A reservation handed back is undone, unless the scope's target was seeded and nothing has been
reserved in it since.** -/
theorem release_undoes_iff {policy : RequestExecutionBudgetPolicy} {s : BudgetSys}
    (h : (openBudgetMachine policy).Reachable s) {k receipt : ℕ} {sc sc' : BudgetScope}
    (hsc : s.scopes.get? k = some sc) (hnew : s.dispatches.has receipt = false)
    {intent : DispatchIntent} {answers : ObserverAnswers} {permit : DispatchPermit}
    {ledger' : SharedSendLedger}
    (hreserve : reserveDispatch sc intent s.ledger answers k receipt = (.ok permit, sc', ledger')) :
    Undone sc s.ledger (permit.release receipt ledger' sc').2.1
        (permit.release receipt ledger' sc').2.2 ↔
      sc.lastTargetKey = none ∨ sc.targetReservations ≠ [] := by
  have htied := (tied_inductive policy).reachable h
  have hfresh : ∀ r ∈ sc.targetReservations, r.1 ≠ receipt := by
    intro r hr heq
    have hknown := htied.known k sc hsc r hr
    rw [heq, hnew] at hknown
    nomatch hknown
  obtain ⟨hscope, hused⟩ := release_granted hreserve hfresh
  rw [hscope]
  constructor
  · intro hundone
    have hlast : sc.targetReservations.getLast?.map (·.2) = sc.lastTargetKey := hundone.lastTargetKey
    by_contra hnot
    rw [not_or, not_not] at hnot
    rw [hnot.2, getLast?_nil, map_none] at hlast
    exact hnot.1 hlast.symm
  · intro hor
    have hlast : sc.targetReservations.getLast?.map (·.2) = sc.lastTargetKey := by
      cases hnewest : sc.targetReservations.getLast? with
      | none =>
        rw [getLast?_eq_none_iff] at hnewest
        rcases hor with hnone | hne
        · rw [hnone, map_none]
        · exact absurd hnewest hne
      | some r => rw [htied.tied k sc hsc r hnewest, map_some]
    refine ⟨hused, rfl, rfl, rfl, hlast, ?_⟩
    exact reserveDispatch_decision rfl hused rfl rfl rfl hlast

/-- A failover to another target of the combo, made by its own layer. -/
def comboSend : DispatchIntent := ⟨.comboFailover, "account-b", true, false, false⟩

/-- A derived scope, seeded with the target of its prepaid first send. -/
def seededRun : List OpenEvent :=
  [.dispatch (.derive 0 1 codexTextGuardedBudgetPolicy),
    .dispatch (.bindPrepaidTarget 1 "account-a")]

/-- A run of the default policy whose ledger has other writers. -/
def BudgetSys.openPlayed (events : List OpenEvent) : BudgetSys :=
  (openBudgetMachine codexTextGuardedBudgetPolicy).play (.create codexTextGuardedBudgetPolicy) events

/-- Handing back the first reservation of a seeded scope takes its target away: the move to
`account-b` was a transition before, and is none afterwards. -/
theorem release_forgets_prepaid_target :
    ∃ s sc permit sc' ledger', (openBudgetMachine codexTextGuardedBudgetPolicy).Reachable s ∧
      s.scopes.get? 1 = some sc ∧ s.dispatches.has 0 = false ∧
      reserveDispatch sc comboSend s.ledger .absent 1 0 = (.ok permit, sc', ledger') ∧
      sc.lastTargetKey = some "account-a" ∧
      (permit.release 0 ledger' sc').2.1.lastTargetKey = none ∧
      chargesTransition sc comboSend = true ∧
      chargesTransition (permit.release 0 ledger' sc').2.1 comboSend = false ∧
      ¬ Undone sc s.ledger (permit.release 0 ledger' sc').2.1
        (permit.release 0 ledger' sc').2.2 := by
  refine ⟨.openPlayed seededRun, _, _, _, _, ⟨_, rfl, Machine.run_play (by decide +kernel)⟩, rfl,
    rfl, rfl, by decide +kernel, by decide +kernel, by decide +kernel, by decide +kernel, ?_⟩
  intro hundone
  exact absurd hundone.lastTargetKey (by decide +kernel)

/-- Once the scope has sent to the seeded target itself, a failover handed back is undone. -/
theorem release_undoes_after_send :
    ∃ s sc permit sc' ledger', (openBudgetMachine codexTextGuardedBudgetPolicy).Reachable s ∧
      s.scopes.get? 1 = some sc ∧ sc.targetReservations ≠ [] ∧
      reserveDispatch sc comboSend s.ledger .absent 1 1 = (.ok permit, sc', ledger') ∧
      Undone sc s.ledger (permit.release 1 ledger' sc').2.1 (permit.release 1 ledger' sc').2.2 := by
  have hr : (openBudgetMachine codexTextGuardedBudgetPolicy).Reachable
      (.openPlayed (seededRun ++ [.dispatch (.reserve 1 0 ownSend .absent)])) :=
    ⟨_, rfl, Machine.run_play (by decide +kernel)⟩
  have hreserve : reserveDispatch
      ⟨codexTextGuardedBudgetPolicy, false, 0, 0, some "account-a", [(0, "account-a")]⟩ comboSend
      ⟨1, 0, none, ∅⟩ .absent 1 1 = (.ok ⟨1, comboSend, false, true, true, .opened⟩, _, _) := rfl
  exact ⟨_, _, _, _, _, hr, rfl, by decide +kernel, hreserve,
    (release_undoes_iff hr rfl rfl hreserve).mpr (.inr (by decide +kernel))⟩

end Request
