import OpenCodex.Workflow.Turns
import OpenCodex.Spend.JournalFile

/-!
# Concurrency accounting

The active count of a root is the number of its leases that were not released: a lease outlives the
call that gave it out and finds its root again by name, and it does find it, since a root with a
turn under way is never evicted.  So the clamp in the release never acts, the count stays within the
bound an admission checks it against, and no more roots are tracked than there may be.

A refused admission changes no active count and books nothing.  It is not without effect, though:
it forgets the children of its root that were last seen before the window, it may have evicted an
idle root to make room, and its own root may be tracked from then on.
-/

set_option autoImplicit false

open Option

namespace Workflow

open Spend WorkflowBudgets

variable {J : Type} {store : SpendJournal J} {hash : AliasHash} {policy : WorkflowBudgetPolicy}

/-- The turns under way in a root, as the table has them. -/
def WorkflowBudgets.activeOf (b : WorkflowBudgets) (rootId : JsString) : ℕ :=
  ((b.roots.get? rootId).map (·.active)).getD 0

/-- When a child was last admitted under a root, as the table has it. -/
def WorkflowBudgets.childSeen (b : WorkflowBudgets) (rootId child : JsString) : Option ℕ :=
  (b.roots.get? rootId).bind (·.children.get? child)

/-- A lease of this root that was not released. -/
def LeaseRecord.holds (rootId : JsString) (record : LeaseRecord) : Bool :=
  !record.released && record.lease.rootId == rootId

/-- The admitted leases of a root that were not released. -/
def WorkflowRun.unreleased (run : WorkflowRun J) (rootId : JsString) : ℕ :=
  run.leases.countP (·.holds rootId)

/-- The table agrees with the leases, and is within its bounds. -/
structure Accounted (policy : WorkflowBudgetPolicy) (run : WorkflowRun J) : Prop where
  active : ∀ rootId, run.budgets.activeOf rootId = run.unreleased rootId
  bounded : ∀ rootId, run.budgets.activeOf rootId ≤ policy.maxConcurrentChildren
  tracked : run.budgets.roots.size ≤ policy.maxTrackedRoots

/-! ## What keeps the counts -/

/-- The counts of the table stay, and so do the roots. -/
structure SameActive (b b' : WorkflowBudgets) : Prop where
  active : ∀ rootId, b'.activeOf rootId = b.activeOf rootId
  size : b'.roots.size = b.roots.size

theorem activeOf_update (b : WorkflowBudgets) (rootId r : JsString)
    (f : WorkflowState → WorkflowState) : (b.update rootId f).activeOf r = if r = rootId then
      ((b.roots.get? rootId).map fun state ↦ (f state).active).getD 0 else b.activeOf r := by
  rw [activeOf, get?_update]
  split
  · rw [Option.map_map]
    rfl
  · rfl

theorem update_sameActive (b : WorkflowBudgets) (rootId : JsString)
    {f : WorkflowState → WorkflowState} (h : ∀ state, (f state).active = state.active) :
    SameActive b (b.update rootId f) := by
  refine ⟨fun r ↦ ?_, size_update b rootId f⟩
  rw [activeOf_update]
  split
  · rename_i hr
    simp only [h, hr, activeOf]
  · rfl

variable {run run' : WorkflowRun J}

theorem Accounted.of_same (h : Accounted policy run) (hb : SameActive run.budgets run'.budgets)
    (hl : run'.leases = run.leases) : Accounted policy run' where
  active rootId := by rw [hb.active, h.active, WorkflowRun.unreleased, WorkflowRun.unreleased, hl]
  bounded rootId := by
    rw [hb.active]
    exact h.bounded rootId
  tracked := by
    rw [hb.size]
    exact h.tracked

theorem charge_sameActive (b : WorkflowBudgets) (rootId : Option JsString) (sends now : ℕ) :
    SameActive b (b.chargeWorkflowSends rootId sends now) := by
  rw [chargeWorkflowSends]
  split
  · exact ⟨fun _ ↦ rfl, rfl⟩
  split
  · exact ⟨fun _ ↦ rfl, rfl⟩
  · exact update_sameActive b _ fun _ ↦ rfl

theorem clear_sameActive (b : WorkflowBudgets) (rootId : JsString) (now : ℕ) :
    SameActive b (b.clearWorkflowBudgetForRoot rootId now) := by
  rw [clearWorkflowBudgetForRoot]
  split
  · exact ⟨fun _ ↦ rfl, rfl⟩
  · have h := update_sameActive b rootId (f := (·.cleared now)) fun _ ↦ rfl
    exact ⟨h.active, h.size⟩

/-! ## Admissions -/

section Admissions

variable {b b' : WorkflowBudgets} {ledger : Option (SpendLedger J)} {lane : WorkflowLane}
  {childId : Option JsString} {now : ℕ} {rootId : JsString}

/-- Away from its root an admission changes no active count: a root that goes is idle. -/
theorem WorkflowBudgets.Elsewhere.active (h : Elsewhere hash policy ledger now rootId b b') {r : JsString} (hr : r ≠ rootId) :
    b'.activeOf r = b.activeOf r := by
  rw [activeOf, activeOf]
  rcases h.others r hr with hsame | ⟨hgone, hevictee⟩
  · rw [hsame]
  · obtain ⟨-, state, hstate, hidle, -⟩ := evictee_spec hevictee
    simp [hgone, hstate, hidle]

theorem rootState_active (b : WorkflowBudgets) (rootId : JsString) (now : ℕ) :
    (rootState policy b rootId now).active = b.activeOf rootId := by
  rw [rootState, activeOf]
  cases b.roots.get? rootId with
  | none => rfl
  | some state => rfl

theorem askedState_active (state : WorkflowState) (childId : Option JsString) (now : ℕ) :
    (askedState state childId now).active = state.active := by
  rw [askedState]
  split
  · rfl
  · rfl

theorem WorkflowBudgets.RefusedTurn.active
    (h : RefusedTurn hash policy ledger now rootId b b') (r : JsString) : b'.activeOf r = b.activeOf r := by
  by_cases hr : r = rootId
  · subst hr
    rcases h.root with ⟨hnone', hnone⟩ | hsome
    · rw [activeOf, activeOf, hnone', hnone]
    · rw [activeOf, hsome]
      exact rootState_active b r now
  · exact h.toElsewhere.active hr

theorem WorkflowBudgets.AdmittedTurn.active
    (h : AdmittedTurn hash policy ledger lane childId now rootId b b') (r : JsString) :
    b'.activeOf r = b.activeOf r + if r = rootId then 1 else 0 := by
  by_cases hr : r = rootId
  · subst hr
    have hasked : (askedState (rootState policy b r now) childId now).active = b.activeOf r :=
      (askedState_active ..).trans (rootState_active ..)
    rw [activeOf, h.root, if_pos rfl, ← hasked]
    rfl
  · rw [h.toElsewhere.active hr, if_neg hr, Nat.add_zero]

theorem WorkflowBudgets.AdmittedTurn.below
    (h : AdmittedTurn hash policy ledger lane childId now rootId b b') :
    b.activeOf rootId < laneCeiling policy lane := by
  have hcounts := h.counts
  rw [countDenial] at hcounts
  split at hcounts
  · nomatch hcounts
  split at hcounts
  · nomatch hcounts
  split at hcounts
  · nomatch hcounts
  rename_i hbelow
  rw [rootState_active] at hbelow
  omega

end Admissions

theorem laneCeiling_le (policy : WorkflowBudgetPolicy) (lane : WorkflowLane) :
    laneCeiling policy lane ≤ policy.maxConcurrentChildren := by
  cases lane with
  | interactive => exact le_rfl
  | worker => exact Nat.sub_le ..

theorem tracked_of_active {b : WorkflowBudgets} {rootId : JsString} (h : 0 < b.activeOf rootId) :
    b.roots.has rootId = true := by
  rw [activeOf] at h
  cases hget : b.roots.get? rootId with
  | none => rw [hget] at h; nomatch h
  | some state => exact OMap.has_of_get? hget

/-! ## Releases -/

theorem releaseSlot_active (b : WorkflowBudgets) (rootId r : JsString) (now : ℕ) :
    (b.releaseSlot rootId now).activeOf r =
      if r = rootId then b.activeOf rootId - 1 else b.activeOf r := by
  rw [releaseSlot, activeOf_update]
  split
  · rw [activeOf]
    cases b.roots.get? rootId with
    | none => rfl
    | some state => rfl
  · rfl

variable {i : ℕ} {record : LeaseRecord}

theorem unreleased_set {leases : List LeaseRecord} (h : leases[i]? = some record)
    (hheld : record.released = false) (rootId : JsString) :
    (leases.set i { record with released := true }).countP (·.holds rootId) +
      (if rootId = record.lease.rootId then 1 else 0) = leases.countP (·.holds rootId) := by
  obtain ⟨hi, hget⟩ := List.getElem?_eq_some_iff.mp h
  have hdone : ({ record with released := true } : LeaseRecord).holds rootId = false := rfl
  rw [List.countP_set hi, hget, hdone, if_neg Bool.false_ne_true, Nat.add_zero]
  by_cases hr : rootId = record.lease.rootId
  · have hholds : record.holds rootId = true := by simp [LeaseRecord.holds, hheld, hr]
    have hpos : 0 < leases.countP (·.holds rootId) :=
      List.countP_pos_iff.mpr ⟨record, List.mem_of_getElem? h, hholds⟩
    rw [if_pos hholds, if_pos hr]
    omega
  · have hother : record.holds rootId = false := by simp [LeaseRecord.holds, hheld, Ne.symm hr]
    rw [hother, if_neg Bool.false_ne_true, if_neg hr]
    rfl

theorem releaseLease_accounted {now : ℕ} (h : Accounted policy run)
    (hi : run.leases[i]? = some record) :
    Accounted policy (run.releaseLease store hash i now record) := by
  rw [WorkflowRun.releaseLease]
  split
  · exact h
  rename_i hheld
  have hset := unreleased_set hi (eq_false_of_ne_true hheld)
  refine ⟨fun r ↦ ?_, fun r ↦ ?_, ?_⟩
  · have hactive := h.active r
    have hr := hset r
    simp only [WorkflowRun.unreleased, releaseSlot_active] at hactive ⊢
    split
    · rename_i heq
      rw [if_pos heq] at hr
      rw [← heq]
      omega
    · rename_i hne
      rw [if_neg hne] at hr
      omega
  · have hbounded := h.bounded r
    simp only [releaseSlot_active]
    split
    · rename_i heq
      rw [← heq]
      omega
    · exact hbounded
  · simp only [releaseSlot, size_update]
    exact h.tracked

/-! ## Every step -/

theorem admission_cases (store : SpendJournal J) (hash : AliasHash)
    (policy : WorkflowBudgetPolicy) (run : WorkflowRun J) (rootId : Option JsString)
    (lane : WorkflowLane) (childId : Option JsString) (now : ℕ) (spend : Option WorkflowSpendRequest)
    (consults : Bool) :
    let r := run.admission store hash policy rootId lane childId now spend consults
    r = (run.budgets, run.consulted spend consults, none) ∨
      (∃ root reason denial, rootId.filter (· ≠ []) = some root ∧ r.2.2 = some (.refused reason root denial) ∧
        RefusedTurn hash policy (run.consulted spend consults) now root run.budgets r.1 ∧
          RefusedSpend store hash (run.consulted spend consults) r.2.1) ∨
      ∃ root lease, rootId.filter (· ≠ []) = some root ∧ lease.rootId = root ∧
        r.2.2 = some (.admitted lease) ∧
        AdmittedTurn hash policy (run.consulted spend consults) lane childId now root run.budgets
          r.1 :=
  admitWorkflowTurn_cases store hash policy run.budgets rootId lane childId now spend _

variable {event : WorkflowEvent J}

theorem after_accounted (h : Accounted policy run)
    (hstep : run.after store hash policy event = some run') : Accounted policy run' := by
  cases event with
  | turn rootId lane childId now spend consults =>
    obtain rfl := some_inj.mp hstep
    rcases admission_cases store hash policy run rootId lane childId
      now spend consults with heq | ⟨root, reason, denial, -, hrefused, hturn, -⟩ |
        ⟨root, lease, -, hlease, hadmitted, hturn⟩
    · refine h.of_same ⟨fun r ↦ ?_, ?_⟩ ?_
      · simp only [heq]
      · simp only [heq]
      · simp only [heq, WorkflowRun.granted, List.append_nil]
    · refine ⟨fun r ↦ ?_, fun r ↦ ?_, hturn.size h.tracked⟩
      · simp only [WorkflowRun.unreleased, hrefused, WorkflowRun.granted, List.append_nil]
        exact (hturn.active r).trans (h.active r)
      · exact (hturn.active r).trans_le (h.bounded r)
    · refine ⟨fun r ↦ ?_, fun r ↦ ?_, hturn.size h.tracked⟩
      · have hactive := h.active r
        have hcount := hturn.active r
        simp only [WorkflowRun.unreleased, hadmitted, WorkflowRun.granted, List.countP_append,
          List.countP_singleton, LeaseRecord.holds] at hactive ⊢
        rw [hcount, hactive, hlease]
        by_cases hr : r = root
        · simp [hr]
        · simp [hr, Ne.symm hr]
      · have hbelow := hturn.below.trans_le (laneCeiling_le policy lane)
        have hcount := hturn.active r
        have hbounded := h.bounded r
        simp only [hcount]
        split
        · rename_i hr
          rw [hr]
          exact hbelow
        · exact hbounded
  | release i now =>
    obtain ⟨record, hi, rfl⟩ := map_eq_some_iff.mp hstep
    exact releaseLease_accounted h hi
  | charge rootId sends now =>
    obtain rfl := some_inj.mp hstep
    exact h.of_same (charge_sameActive ..) rfl
  | clear rootId now =>
    obtain rfl := some_inj.mp hstep
    exact h.of_same (clear_sameActive ..) rfl
  | spend event =>
    obtain rfl := some_inj.mp hstep
    exact h.of_same ⟨fun _ ↦ rfl, rfl⟩ rfl

theorem accounted_inductive :
    (workflowRuns store hash policy).Inductive Machine.Always (Accounted policy) := by
  refine ⟨fun run hinit ↦ ?_, fun run event run' h _ hstep ↦ after_accounted h hstep⟩
  obtain ⟨ledger, rfl⟩ := hinit
  exact ⟨fun r ↦ rfl, fun r ↦ Nat.zero_le _, Nat.zero_le _⟩

/-! ## What a refusal changes -/

/-- What a refused admission leaves alone: every active count, every child entry but those that are
forgotten with their window or with an evicted idle root, and the books. -/
structure RefusalIsHarmless (rootId : JsString) (now : ℕ) (run run' : WorkflowRun J) : Prop where
  active : ∀ r, run'.budgets.activeOf r = run.budgets.activeOf r
  noChild : ∀ r child seenAt, run'.budgets.childSeen r child = some seenAt →
    run.budgets.childSeen r child = some seenAt
  /-- An entry that is gone was last seen before the window of its root, or went with a root that
  was idle and had to make room. -/
  children : ∀ r child seenAt, run.budgets.childSeen r child = some seenAt →
    run'.budgets.childSeen r child = some seenAt ∨
      (r = rootId ∧ ∃ state, run.budgets.roots.get? r = some state ∧
        state.recent now seenAt = false) ∨
      (r ≠ rootId ∧ run.budgets.roots.has rootId = false ∧ run.unreleased r = 0 ∧
        run'.budgets.roots.has r = false)
  /-- No reservation is booked, and nothing is added to any scope. -/
  books : SpendLedger.Within run'.ledger.books run.ledger.books

theorem childSeen_forgetChildren {state : WorkflowState} {now : ℕ} {child : JsString} {seenAt : ℕ} :
    (state.forgetChildren now).children.get? child = some seenAt ↔
      state.children.get? child = some seenAt ∧ state.recent now seenAt = true := by
  exact OMap.get?_filter

theorem rootState_children (b : WorkflowBudgets) (rootId child : JsString) (now : ℕ) :
    (rootState policy b rootId now).children.get? child = b.childSeen rootId child := by
  rw [rootState, childSeen]
  cases b.roots.get? rootId with
  | none => rfl
  | some state => rfl

theorem WorkflowBudgets.RefusedTurn.childSeen_root {b b' : WorkflowBudgets}
    {ledger : Option (SpendLedger J)} {now : ℕ} {rootId : JsString}
    (h : RefusedTurn hash policy ledger now rootId b b') (child : JsString) (seenAt : ℕ) :
    b'.childSeen rootId child = some seenAt ↔ b.childSeen rootId child = some seenAt ∧
      (rootState policy b rootId now).recent now seenAt = true := by
  rcases h.root with ⟨hnone', hnone⟩ | hsome
  · simp [childSeen, hnone', hnone]
  · rw [childSeen, hsome, bind_some, childSeen_forgetChildren, rootState_children]

theorem WorkflowBudgets.RefusedSpend.within {spend : Option WorkflowSpendRequest} {consults : Bool}
    {ledger : Option (SpendLedger J)}
    (h : RefusedSpend store hash (run.consulted spend consults) ledger) :
    SpendLedger.Within (ledger.getD run.ledger).books run.ledger.books := by
  rcases h with heq | ⟨l, request, now, denial, hl, hdenied, heq⟩
  · rw [heq, WorkflowRun.consulted]
    split
    · exact .refl _
    · exact .refl _
  · rw [heq]
    rw [WorkflowRun.consulted] at hl
    split at hl
    · obtain rfl := some_inj.mp hl
      exact SpendLedger.reserve_refused hdenied
    · nomatch hl

/-- **A refused admission is harmless.** -/
theorem refusal_harmless (h : Accounted policy run) {root : JsString}
    {ledger : Option (SpendLedger J)} {now : ℕ}
    (hturn : RefusedTurn hash policy ledger now root run.budgets run'.budgets)
    (hbooks : SpendLedger.Within run'.ledger.books run.ledger.books) :
    RefusalIsHarmless root now run run' := by
  refine ⟨hturn.active, fun r child seenAt hseen ↦ ?_, fun r child seenAt hseen ↦ ?_, hbooks⟩
  · by_cases hr : r = root
    · subst hr
      exact ((hturn.childSeen_root child seenAt).mp hseen).1
    · rcases hturn.others r hr with hsame | ⟨hgone, -⟩
      · rwa [childSeen, hsame] at hseen
      · rw [childSeen, hgone] at hseen
        nomatch hseen
  · by_cases hr : r = root
    · subst hr
      cases hrecent : (rootState policy run.budgets r now).recent now seenAt with
      | true => exact .inl ((hturn.childSeen_root child seenAt).mpr ⟨hseen, hrecent⟩)
      | false =>
        obtain ⟨state, hstate, -⟩ := bind_eq_some_iff.mp hseen
        refine .inr (.inl ⟨rfl, state, hstate, ?_⟩)
        rw [rootState, hstate, getD_some] at hrecent
        exact hrecent
    · rcases hturn.others r hr with hsame | ⟨hgone, hevictee⟩
      · exact .inl (by rwa [childSeen, hsame])
      · obtain ⟨hnone, state, hstate, hidle, -⟩ := evictee_spec hevictee
        have hactive := h.active r
        rw [activeOf, hstate, map_some, getD_some, hidle] at hactive
        exact .inr (.inr ⟨hr, OMap.has_eq_false_iff.mpr hnone, hactive.symm,
          OMap.has_eq_false_iff.mpr hgone⟩)

/-! ## The accounting -/

/-- What one step leaves alone and what it was allowed to do. -/
structure StepIsExact (store : SpendJournal J) (hash : AliasHash) (policy : WorkflowBudgetPolicy)
    (run : WorkflowRun J) (event : WorkflowEvent J) (run' : WorkflowRun J) : Prop where
  /-- A root with an unreleased lease is tracked, and is not evicted. -/
  stays : ∀ rootId, 0 < run.unreleased rootId →
    run.budgets.roots.has rootId = true ∧ run'.budgets.roots.has rootId = true
  /-- A worker leaves the reserve alone. -/
  worker : ∀ rootId childId now spend consults lease,
    event = .turn rootId .worker childId now spend consults →
    (run.admission store hash policy rootId .worker childId now spend consults).2.2 =
      some (.admitted lease) →
    run.budgets.activeOf lease.rootId < policy.maxConcurrentChildren - policy.interactiveReserve
  /-- A refusal is harmless. -/
  refused : ∀ rootId lane childId now spend consults reason root denial,
    event = .turn rootId lane childId now spend consults →
    (run.admission store hash policy rootId lane childId now spend consults).2.2 =
      some (.refused reason root denial) →
    RefusalIsHarmless root now run run'

theorem SameActive.has {b b' : WorkflowBudgets} (h : SameActive b b') {rootId : JsString}
    (hactive : 0 < b.activeOf rootId) : b'.roots.has rootId = true :=
  tracked_of_active (by rwa [h.active])

theorem has_update (b : WorkflowBudgets) (rootId r : JsString)
    (f : WorkflowState → WorkflowState) : (b.update rootId f).roots.has r = b.roots.has r := by
  rw [OMap.has, get?_update]
  split
  · rename_i hr
    rw [hr, isSome_map, OMap.has]
  · rfl

theorem after_stays (hstep : run.after store hash policy event = some run') {rootId : JsString}
    (hactive : 0 < run.budgets.activeOf rootId) : run'.budgets.roots.has rootId = true := by
  cases event with
  | turn root? lane childId now spend consults =>
    obtain rfl := some_inj.mp hstep
    rcases admission_cases store hash policy run root? lane childId
      now spend consults with heq | ⟨root, reason, denial, -, -, hturn, -⟩ |
        ⟨root, lease, -, -, -, hturn⟩
    · simp only [heq]
      exact tracked_of_active hactive
    · exact tracked_of_active (hactive.trans_eq (hturn.active rootId).symm)
    · refine tracked_of_active (hactive.trans_le ?_)
      rw [hturn.active rootId]
      exact Nat.le_add_right ..
  | release i now =>
    obtain ⟨record, hi, rfl⟩ := map_eq_some_iff.mp hstep
    rw [WorkflowRun.releaseLease]
    split
    · exact tracked_of_active hactive
    · exact (has_update ..).trans (tracked_of_active hactive)
  | charge root? sends now =>
    obtain rfl := some_inj.mp hstep
    exact (charge_sameActive ..).has hactive
  | clear root now =>
    obtain rfl := some_inj.mp hstep
    exact (clear_sameActive ..).has hactive
  | spend event =>
    obtain rfl := some_inj.mp hstep
    exact tracked_of_active hactive

theorem after_exact (h : Accounted policy run)
    (hstep : run.after store hash policy event = some run') :
    StepIsExact store hash policy run event run' := by
  refine ⟨fun r hheld ↦ ?_, ?_, ?_⟩
  · rw [← h.active] at hheld
    exact ⟨tracked_of_active hheld, after_stays hstep hheld⟩
  · rintro rootId childId now spend consults lease rfl hadmitted
    rcases admission_cases store hash policy run rootId .worker
      childId now spend consults with heq | ⟨root, reason, denial, -, hrefused, -, -⟩ |
        ⟨root, lease', -, hlease, hadmitted', hturn⟩
    · rw [heq] at hadmitted
      nomatch hadmitted
    · rw [hrefused] at hadmitted
      nomatch hadmitted
    · rw [hadmitted', some_inj, WorkflowDecision.admitted.injEq] at hadmitted
      rw [← hadmitted, hlease]
      exact hturn.below
  · rintro rootId lane childId now spend consults reason root denial rfl hrefused
    obtain rfl := some_inj.mp hstep
    rcases admission_cases store hash policy run rootId lane childId
      now spend consults with heq | ⟨root', reason', denial', -, hrefused', hturn, hspend⟩ |
        ⟨root', lease, -, -, hadmitted, -⟩
    · rw [heq] at hrefused
      nomatch hrefused
    · rw [hrefused', some_inj, WorkflowDecision.refused.injEq] at hrefused
      obtain ⟨-, rfl, -⟩ := hrefused
      exact refusal_harmless h hturn hspend.within
    · rw [hadmitted] at hrefused
      nomatch hrefused

/-- **Workflow concurrency accounting is exact**, in every run under one policy. -/
theorem concurrency_exact {run : WorkflowRun J}
    (h : (workflowRuns store hash policy).Reachable run) :
    Accounted policy run ∧ ∀ event run', run.after store hash policy event = some run' →
      StepIsExact store hash policy run event run' := by
  have haccounted := accounted_inductive.reachable h
  exact ⟨haccounted, fun event run' hstep ↦ after_exact haccounted hstep⟩

/-- One turn at a time, and a window of ten milliseconds. -/
def oneTurnPolicy : WorkflowBudgetPolicy := ⟨1, 256, 64, some 10, 0, 512⟩

/-- A run before its first event, with a ledger that has never been used. -/
def unusedRun : WorkflowRun JournalFile :=
  .start (.create fileJournal plainHash defaultSpendReservationPolicy (.opened []) 0)

/-- A child's turn in a task. -/
def childTurn : WorkflowEvent JournalFile :=
  .turn (some (js "task")) .interactive (some (js "child")) 0 none false

theorem unusedRun_plays {policy : WorkflowBudgetPolicy} {events : List (WorkflowEvent JournalFile)}
    (h : (workflowRuns fileJournal plainHash policy).admits Machine.Always unusedRun events =
      true) : (workflowRuns fileJournal plainHash policy).Reachable
      ((workflowRuns fileJournal plainHash policy).play unusedRun events) := by
  have hinit : (workflowRuns fileJournal plainHash policy).init unusedRun := ⟨_, rfl⟩
  exact (Machine.ReachableIf.init hinit).run (Machine.run_play h)

theorem concurrency_exact_child_turn :
    ((workflowRuns fileJournal plainHash oneTurnPolicy).play unusedRun
      [childTurn]).budgets.activeOf (js "task") = 1 := by
  have hexact := concurrency_exact (@unusedRun_plays oneTurnPolicy [childTurn] rfl)
  exact hexact.1.active (js "task")

/-- **A refusal may forget a child**: the task has its one turn under way, and the next one is
refused after the window of the child has passed. -/
theorem refusal_forgets_child : ∃ run run', (workflowRuns fileJournal plainHash
      oneTurnPolicy).Reachable run ∧ run.after fileJournal plainHash oneTurnPolicy
      (.turn (some (js "task")) .interactive none 20 none false) = some run' ∧
    (run.admission fileJournal plainHash oneTurnPolicy (some (js "task")) .interactive none 20 none
      false).2.2 = some (.refused .concurrencyExhausted (js "task") none) ∧
    run.budgets.childSeen (js "task") (js "child") = some 0 ∧
    run'.budgets.childSeen (js "task") (js "child") = none :=
  ⟨_, _, @unusedRun_plays oneTurnPolicy [childTurn] rfl, rfl, by decide +kernel, by decide +kernel,
    by decide +kernel⟩

end Workflow
