import OpenCodex.Workflow.Budget
import OpenCodex.Spend.Runs

/-!
# What a turn does to the table of roots

One lemma for each thing that happens to the table, from the change of a single entry up to a whole
admission.  Making room takes at most one root away, and only one that is idle and below its ceiling
of sends (`Tracked`); after that an admission touches the root it is for and no other
(`admitWorkflowTurn_cases`).

A run is any interleaving of admissions, releases, charges and clearings over any roots, with any
other calls of the ledger in between.  A lease is known by its number; whoever holds it may release
it again and again.
-/

set_option autoImplicit false

open Option OMap

namespace Workflow

open Spend

namespace WorkflowBudgets

variable {J : Type} {b b' : WorkflowBudgets} {hash : AliasHash} {policy : WorkflowBudgetPolicy}

/-! ## One entry -/

theorem get?_update (b : WorkflowBudgets) (rootId r : JsString)
    (f : WorkflowState → WorkflowState) : (b.update rootId f).roots.get? r =
      if r = rootId then (b.roots.get? rootId).map f else b.roots.get? r := by
  rw [update]
  cases hget : b.roots.get? rootId with
  | none => by_cases hr : r = rootId <;> simp [hr, hget]
  | some state => by_cases hr : r = rootId <;> simp [hr, get?_set]

theorem size_update (b : WorkflowBudgets) (rootId : JsString)
    (f : WorkflowState → WorkflowState) : (b.update rootId f).roots.size = b.roots.size := by
  rw [update]
  cases hget : b.roots.get? rootId with
  | none => rfl
  | some state => simp [size_set, has_of_get? hget]

theorem recordBudgetEvent_roots (b : WorkflowBudgets) (event : WorkflowBudgetEvent) :
    (b.recordBudgetEvent event).roots = b.roots := by
  rw [recordBudgetEvent]

theorem refuse_roots (b : WorkflowBudgets) (rootId : JsString) (now : ℕ)
    (reason : WorkflowDenial) (denial : Option WorkflowSpendDenialDetail) :
    (b.refuse rootId now reason denial).1.roots =
      (b.update rootId (·.forgetChildren now)).roots := by
  rw [refuse, recordBudgetEvent_roots]

/-! ## Making room -/

theorem rootToEvict_spec {ledger : Option (SpendLedger J)} {now : ℕ} {r : JsString}
    (h : b.rootToEvict hash policy ledger now = some r) :
    ∃ state, b.roots.get? r = some state ∧ state.active = 0 ∧
      state.windowedSends now < policy.maxPhysicalSends := by
  obtain ⟨i, hi, hr⟩ := bind_eq_some_iff.mp h
  obtain ⟨root, age, hroot, hage, -⟩ := firstLeast_spec hi
  rw [hroot, map_some, some_inj] at hr
  subst hr
  refine ⟨root.2, mem_entries.mp (List.mem_of_getElem? hroot), ?_⟩
  rw [evictionAge] at hage
  split at hage
  · nomatch hage
  split at hage
  · nomatch hage
  exact ⟨by omega, by omega⟩

/-- The root that has to go if this one is to be tracked. -/
def evictee (hash : AliasHash) (policy : WorkflowBudgetPolicy) (b : WorkflowBudgets)
    (rootId : JsString) (ledger : Option (SpendLedger J)) (now : ℕ) : Option JsString :=
  if b.roots.has rootId then none
  else if policy.maxTrackedRoots ≤ b.roots.size then b.rootToEvict hash policy ledger now
  else none

/-- What an admission does to the roots it is not for: nothing, or one has to go.  The bound on the
table is kept. -/
structure Elsewhere (hash : AliasHash) (policy : WorkflowBudgetPolicy)
    (ledger : Option (SpendLedger J)) (now : ℕ) (rootId : JsString) (b b' : WorkflowBudgets) :
    Prop where
  others : ∀ r ≠ rootId, b'.roots.get? r = b.roots.get? r ∨
    b'.roots.get? r = none ∧ b.evictee hash policy rootId ledger now = some r
  size : b.roots.size ≤ policy.maxTrackedRoots → b'.roots.size ≤ policy.maxTrackedRoots

/-- A root that has to go is idle and below its ceiling of sends, and makes room for one that is not
tracked. -/
theorem evictee_spec {ledger : Option (SpendLedger J)} {now : ℕ} {rootId r : JsString}
    (h : b.evictee hash policy rootId ledger now = some r) : b.roots.get? rootId = none ∧
      ∃ state, b.roots.get? r = some state ∧ state.active = 0 ∧
        state.windowedSends now < policy.maxPhysicalSends := by
  rw [evictee] at h
  split at h
  · cases h
  rename_i hhas
  split at h
  · exact ⟨has_eq_false_iff.mp (eq_false_of_ne_true hhas), rootToEvict_spec h⟩
  · cases h

theorem Elsewhere.of_roots {ledger : Option (SpendLedger J)} {now : ℕ} {rootId : JsString}
    (h : b'.roots = b.roots) : Elsewhere hash policy ledger now rootId b b' :=
  ⟨fun _ _ ↦ .inl (by rw [h]), by rw [h]; exact id⟩

theorem Elsewhere.update {ledger : Option (SpendLedger J)} {now : ℕ} {rootId : JsString}
    (h : Elsewhere hash policy ledger now rootId b b') (f : WorkflowState → WorkflowState) :
    Elsewhere hash policy ledger now rootId b (b'.update rootId f) := by
  refine ⟨fun r hr ↦ ?_, fun hsize ↦ ?_⟩
  · rw [get?_update, if_neg hr]
    exact h.others r hr
  · rw [size_update]
    exact h.size hsize

theorem Elsewhere.refuse {ledger : Option (SpendLedger J)} {now : ℕ} {rootId : JsString}
    (h : Elsewhere hash policy ledger now rootId b b') (now' : ℕ) (reason : WorkflowDenial)
    (denial : Option WorkflowSpendDenialDetail) :
    Elsewhere hash policy ledger now rootId b (b'.refuse rootId now' reason denial).1 := by
  have hupdate := h.update (·.forgetChildren now')
  exact ⟨by rw [refuse_roots]; exact hupdate.others, by rw [refuse_roots]; exact hupdate.size⟩

theorem get?_refuse (b : WorkflowBudgets) (rootId : JsString) (now : ℕ) (reason : WorkflowDenial)
    (denial : Option WorkflowSpendDenialDetail) :
    (b.refuse rootId now reason denial).1.roots.get? rootId =
      (b.roots.get? rootId).map (·.forgetChildren now) := by
  rw [refuse_roots, get?_update, if_pos rfl]

/-- The state of the root an admission is for. -/
def rootState (policy : WorkflowBudgetPolicy) (b : WorkflowBudgets) (rootId : JsString) (now : ℕ) :
    WorkflowState :=
  { (b.roots.get? rootId).getD (newWorkflowState now policy) with lastSeenMs := now }

theorem track_spec {ledger : Option (SpendLedger J)} {now : ℕ} {rootId : JsString}
    (h : b.track hash policy rootId ledger now = some b') :
    Elsewhere hash policy ledger now rootId b b' ∧
      b'.roots.get? rootId = some ((b.roots.get? rootId).getD (newWorkflowState now policy)) := by
  rw [track] at h
  split at h
  · rename_i hhas
    obtain ⟨state, hstate⟩ := OMap.has_iff.mp hhas
    obtain rfl := some_inj.mp h
    exact ⟨.of_roots rfl, by simp [hstate]⟩
  rename_i hhas
  have hhas : b.roots.has rootId = false := eq_false_of_ne_true hhas
  have hnone : b.roots.get? rootId = none := has_eq_false_iff.mp hhas
  obtain ⟨room, hroom, rfl⟩ := map_eq_some_iff.mp h
  refine ⟨?_, by simp [hnone]⟩
  have hset (r : JsString) (hr : r ≠ rootId) :
      (room.roots.set rootId (newWorkflowState now policy)).get? r = room.roots.get? r :=
    get?_set_of_ne _ hr _
  split at hroom
  · rename_i hfull
    obtain ⟨gone, hgone, rfl⟩ := map_eq_some_iff.mp hroom
    obtain ⟨state, hstate, -, -⟩ := rootToEvict_spec hgone
    refine ⟨fun r hr ↦ ?_, fun hsize ↦ ?_⟩
    · rw [hset r hr]
      by_cases hrg : r = gone
      · subst hrg
        refine .inr ⟨get?_delete_self .., ?_⟩
        rw [evictee, hhas, if_neg Bool.false_ne_true, if_pos hfull]
        exact hgone
      · exact .inl (get?_delete_of_ne _ hrg)
    · have hdelete := size_delete_of_has (has_of_get? hstate)
      have hless : (b.roots.delete gone).has rootId = false := by simp [has_delete, hhas]
      simp only [size_set, hless, Bool.false_eq_true, if_false]
      omega
  · rename_i hfull
    obtain rfl := some_inj.mp hroom
    refine ⟨fun r hr ↦ .inl (hset r hr), fun hsize ↦ ?_⟩
    simp only [size_set, hhas, Bool.false_eq_true, if_false]
    omega

theorem track_eq_none {ledger : Option (SpendLedger J)} {now : ℕ} {rootId : JsString}
    (h : b.track hash policy rootId ledger now = none) : b.roots.get? rootId = none := by
  rw [track] at h
  split at h
  · cases h
  · rename_i hhas
    exact has_eq_false_iff.mp (eq_false_of_ne_true hhas)

/-! ## A whole admission -/

theorem forgetChildren_forgetChildren (state : WorkflowState) (now : ℕ) :
    (state.forgetChildren now).forgetChildren now = state.forgetChildren now := by
  have hfilter : (state.forgetChildren now).children.filter
      (fun _ seen ↦ (state.forgetChildren now).recent now seen) =
        (state.forgetChildren now).children := by
    refine OMap.ext (List.filter_eq_self.mpr fun entry hentry ↦ ?_)
    exact (List.mem_filter.mp hentry).2
  rw [WorkflowState.forgetChildren, hfilter]

/-- The root's state when the ledger is asked: a new child has made it forget the old ones. -/
def askedState (state : WorkflowState) (childId : Option JsString) (now : ℕ) : WorkflowState :=
  if newChild state childId then state.forgetChildren now else state

theorem forgetChildren_askedState (state : WorkflowState) (childId : Option JsString) (now : ℕ) :
    (askedState state childId now).forgetChildren now = state.forgetChildren now := by
  rw [askedState]
  split
  · exact forgetChildren_forgetChildren state now
  · rfl

variable {store : SpendJournal J} {lane : WorkflowLane} {childId : Option JsString} {now : ℕ}
  {spend : Option WorkflowSpendRequest} {ledger ledger' : Option (SpendLedger J)}
  {rootId : Option JsString}

/-- A refused admission leaves the root as it is, but for the children it forgets. -/
structure RefusedTurn (hash : AliasHash) (policy : WorkflowBudgetPolicy)
    (ledger : Option (SpendLedger J)) (now : ℕ) (rootId : JsString) (b b' : WorkflowBudgets) : Prop
    extends Elsewhere hash policy ledger now rootId b b' where
  root : b'.roots.get? rootId = none ∧ b.roots.get? rootId = none ∨
    b'.roots.get? rootId = some ((rootState policy b rootId now).forgetChildren now)

/-- An admitted turn passed every count, and takes its slot. -/
structure AdmittedTurn (hash : AliasHash) (policy : WorkflowBudgetPolicy)
    (ledger : Option (SpendLedger J)) (lane : WorkflowLane) (childId : Option JsString) (now : ℕ)
    (rootId : JsString) (b b' : WorkflowBudgets) : Prop
    extends Elsewhere hash policy ledger now rootId b b' where
  counts : countDenial policy (rootState policy b rootId now) lane childId now = none
  root : b'.roots.get? rootId =
    some (takeSlot childId now (askedState (rootState policy b rootId now) childId now))

/-- The ledger moved only to refuse a reservation. -/
def RefusedSpend (store : SpendJournal J) (hash : AliasHash) (ledger ledger' : Option (SpendLedger J)) :
    Prop :=
  ledger' = ledger ∨ ∃ l request now denial, ledger = some l ∧
    (l.reserve store hash request now).2 = .error denial ∧
      ledger' = some (l.reserve store hash request now).1

theorem spendDenial_refused {root : JsString} {refusal : WorkflowDenial × Option WorkflowSpendDenialDetail}
    (h : (spendDenial store hash root now spend ledger).2 = some refusal) :
    RefusedSpend store hash ledger (spendDenial store hash root now spend ledger).1 := by
  cases ledger with
  | none => exact .inl rfl
  | some l =>
    cases spend with
    | none => exact .inl rfl
    | some spend =>
      rw [spendDenial] at h ⊢
      dsimp only at h ⊢
      split at h
      · nomatch h
      · rename_i denial herror
        exact .inr ⟨l, _, _, denial, rfl, herror, rfl⟩

/-- **What an admission does**: nothing without a root, else it refuses or admits the turn. -/
theorem admitWorkflowTurn_cases (store : SpendJournal J) (hash : AliasHash)
    (policy : WorkflowBudgetPolicy) (b : WorkflowBudgets) (rootId : Option JsString)
    (lane : WorkflowLane) (childId : Option JsString) (now : ℕ)
    (spend : Option WorkflowSpendRequest) (ledger : Option (SpendLedger J)) :
    let r := b.admitWorkflowTurn store hash policy rootId lane childId now spend ledger
    r = (b, ledger, none) ∨
      (∃ root reason denial, rootId.filter (· ≠ []) = some root ∧ r.2.2 = some (.refused reason root denial) ∧
        RefusedTurn hash policy ledger now root b r.1 ∧ RefusedSpend store hash ledger r.2.1) ∨
      ∃ root lease, rootId.filter (· ≠ []) = some root ∧ lease.rootId = root ∧
        r.2.2 = some (.admitted lease) ∧
        AdmittedTurn hash policy ledger lane childId now root b r.1 := by
  intro r
  simp only [r]
  rw [admitWorkflowTurn]
  split
  · exact .inl rfl
  rename_i root hroot
  refine .inr ?_
  split
  · rename_i htrack
    have hnone := track_eq_none htrack
    refine .inl ⟨root, _, _, hroot, rfl, ⟨?_, .inl ⟨?_, hnone⟩⟩, .inl rfl⟩
    · exact (Elsewhere.of_roots rfl).refuse now _ _
    · exact (get?_refuse ..).trans (by rw [hnone, map_none])
  rename_i bt htrack
  obtain ⟨helse, hget⟩ := track_spec htrack
  dsimp only
  have hseen : (bt.update root ({ · with lastSeenMs := now })).roots.get? root =
      some (rootState policy b root now) := by
    rw [get?_update, if_pos rfl, hget, map_some, rootState]
  have helse' := helse.update ({ · with lastSeenMs := now })
  rw [hseen, getD_some]
  split
  · refine .inl ⟨root, _, _, hroot, rfl, ⟨helse'.refuse now _ _, .inr ?_⟩, .inl rfl⟩
    exact (get?_refuse ..).trans (by rw [hseen, map_some])
  rename_i hcounts
  -- The table when the ledger is asked.
  generalize hbn : (if newChild (rootState policy b root now) childId then
      (bt.update root ({ · with lastSeenMs := now })).update root (·.forgetChildren now)
    else bt.update root ({ · with lastSeenMs := now })) = bn
  have helse'' : Elsewhere hash policy ledger now root b bn := by
    rw [← hbn]
    split
    · exact helse'.update _
    · exact helse'
  have hasked : bn.roots.get? root = some (askedState (rootState policy b root now) childId now) := by
    rw [← hbn, askedState]
    split
    · rw [get?_update, if_pos rfl, hseen, map_some]
    · exact hseen
  split
  · rename_i reason denial hrefused
    refine .inl ⟨root, _, _, hroot, rfl, ⟨helse''.refuse now _ _, .inr ?_⟩,
      spendDenial_refused hrefused⟩
    refine (get?_refuse ..).trans ?_
    rw [hasked, map_some, forgetChildren_askedState]
  · refine .inr ⟨root, _, hroot, rfl, rfl, ⟨helse''.update _, hcounts, ?_⟩⟩
    dsimp only
    rw [get?_update, if_pos rfl, hasked, map_some]

end WorkflowBudgets

/-! ## Runs -/

/-- A lease that was given out, and whether it was released. -/
structure LeaseRecord where
  lease : WorkflowLease
  released : Bool
  deriving DecidableEq

/-- A child that was admitted under a root. -/
structure ChildAdmission where
  rootId : JsString
  child : JsString
  time : ℕ
  deriving DecidableEq

/-- The table, the ledger and every lease so far; and, for what is said of a run, the children that
were admitted and the latest reading of the clock. -/
structure WorkflowRun (J : Type) where
  budgets : WorkflowBudgets
  ledger : SpendLedger J
  leases : List LeaseRecord
  admissions : List ChildAdmission
  clock : ℕ

/-- What happens to a workflow table. -/
inductive WorkflowEvent (J : Type) where
  /-- An admission.  Without a spend request the ledger may be consulted or not. -/
  | turn (rootId : Option JsString) (lane : WorkflowLane) (childId : Option JsString) (now : ℕ)
      (spend : Option WorkflowSpendRequest) (consults : Bool)
  /-- The holder of this lease releases it, perhaps once more. -/
  | release (lease now : ℕ)
  | charge (rootId : Option JsString) (sends now : ℕ)
  | clear (rootId : JsString) (now : ℕ)
  /-- Any other call of the ledger. -/
  | spend (event : LedgerEvent J)

namespace WorkflowRun

variable {J : Type} (store : SpendJournal J) (hash : AliasHash) (policy : WorkflowBudgetPolicy)

/-- The ledger an admission consults. -/
def consulted (run : WorkflowRun J) (spend : Option WorkflowSpendRequest) (consults : Bool) :
    Option (SpendLedger J) :=
  if spend.isSome || consults then some run.ledger else none

/-- What an admission returns. -/
def admission (run : WorkflowRun J) (rootId : Option JsString) (lane : WorkflowLane)
    (childId : Option JsString) (now : ℕ) (spend : Option WorkflowSpendRequest)
    (consults : Bool) : WorkflowBudgets × Option (SpendLedger J) × Option WorkflowDecision :=
  run.budgets.admitWorkflowTurn store hash policy rootId lane childId now spend
    (run.consulted spend consults)

/-- The lease a decision gives out. -/
def granted : Option WorkflowDecision → List LeaseRecord
  | some (.admitted lease) => [⟨lease, false⟩]
  | _ => []

/-- The child a decision admits. -/
def entered (childId : Option JsString) (now : ℕ) : Option WorkflowDecision → List ChildAdmission
  | some (.admitted lease) => (childId.map fun child ↦ ⟨lease.rootId, child, now⟩).toList
  | _ => []

/-- Release a lease; nothing happens the second time. -/
def releaseLease (run : WorkflowRun J) (i now : ℕ) (record : LeaseRecord) : WorkflowRun J :=
  if record.released then run
  else
    { run with
      budgets := run.budgets.releaseSlot record.lease.rootId now
      ledger := match record.lease.send with
        | none => run.ledger
        | some sendId => WorkflowBudgets.releaseSpend store hash sendId now run.ledger
      leases := run.leases.set i { record with released := true }
      clock := now }

/-- One event; a lease that was never given out cannot be released. -/
def after (run : WorkflowRun J) : WorkflowEvent J → Option (WorkflowRun J)
  | .turn rootId lane childId now spend consults =>
    let r := run.admission store hash policy rootId lane childId now spend consults
    some
      { budgets := r.1
        ledger := r.2.1.getD run.ledger
        leases := run.leases ++ granted r.2.2
        admissions := run.admissions ++ entered childId now r.2.2
        clock := now }
  | .release i now => run.leases[i]?.map (run.releaseLease store hash i now)
  | .charge rootId sends now =>
    some { run with budgets := run.budgets.chargeWorkflowSends rootId sends now, clock := now }
  | .clear rootId now =>
    some { run with budgets := run.budgets.clearWorkflowBudgetForRoot rootId now, clock := now }
  | .spend event => some { run with ledger := run.ledger.call store hash event }

/-- The run that begins with this ledger. -/
def start (ledger : SpendLedger J) : WorkflowRun J := ⟨⟨.empty, []⟩, ledger, [], [], 0⟩

end WorkflowRun

/-- The runs under one policy, with any ledger. -/
def workflowRuns {J : Type} (store : SpendJournal J) (hash : AliasHash)
    (policy : WorkflowBudgetPolicy) : Machine (WorkflowRun J) (WorkflowEvent J) where
  init run := ∃ ledger, run = .start ledger
  step run event := run.after store hash policy event

end Workflow
