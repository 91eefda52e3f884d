import OpenCodex.Workflow.Concurrency

/-!
# Eviction and the windowed ceilings

Distinct children are counted by what the root remembers of them, so the count is right as long as
the root is remembered: every child admitted inside the window is in its map, and the map is kept
within the ceiling by asking for room before a new child is entered.

An idle root may be evicted.  The test for that looks at the ceiling of sends and at the tokens that
were spent, but not at the children; so a root whose child ceiling has fired can be evicted and
start again, under the same name, with an empty map.  In the runs in which no root is evicted that
still has a child inside its window, the ceilings hold (`eviction_spares_ceilings`).
-/

set_option autoImplicit false

open List Option Bool

namespace Workflow

open Spend WorkflowBudgets

variable {J : Type} {store : SpendJournal J} {hash : AliasHash} {policy : WorkflowBudgetPolicy}

/-! ## What is said of a run -/

/-- The children admitted under a root in the window that ends at `t`. -/
def childrenIn (policy : WorkflowBudgetPolicy) (admissions : List ChildAdmission)
    (rootId : JsString) (t : ℕ) : List JsString :=
  (admissions.filter fun a ↦ a.rootId == rootId &&
    decide ((t : ℤ) - workflowWindowMs policy < a.time) && decide (a.time ≤ t)).map (·.child)

/-- A further admission would be refused by a windowed count: of sends, or of children if the child
is new. -/
def WorkflowState.atCountCeiling (policy : WorkflowBudgetPolicy) (state : WorkflowState)
    (now : ℕ) : Bool :=
  decide (policy.maxPhysicalSends ≤ state.windowedSends now) ||
    decide (policy.maxDistinctChildren ≤ state.windowedChildren now)

/-- The clock of an event; the ledger has its own. -/
def WorkflowEvent.time? : WorkflowEvent J → Option ℕ
  | .turn _ _ _ now _ _ => some now
  | .release _ now => some now
  | .charge _ _ now => some now
  | .clear _ now => some now
  | .spend _ => none

/-- Admissions, releases and charges, in the order of the clock. -/
def WorkflowRun.ordered (run : WorkflowRun J) (event : WorkflowEvent J) : Bool :=
  (event.time?.all fun now ↦ decide (run.clock ≤ now)) && match event with
    | .clear _ _ => false
    | _ => true

/-- The root an event evicts. -/
def WorkflowRun.evicted (hash : AliasHash) (policy : WorkflowBudgetPolicy) (run : WorkflowRun J) :
    WorkflowEvent J → Option JsString
  | .turn rootId _ _ now spend consults => (rootId.filter (· ≠ [])).bind fun rootId ↦
    run.budgets.evictee hash policy rootId (run.consulted spend consults) now
  | _ => none

/-- **The condition**: the root that is evicted has no child inside its window, and room for one. -/
def WorkflowRun.sparesChildren (hash : AliasHash) (policy : WorkflowBudgetPolicy)
    (run : WorkflowRun J) (event : WorkflowEvent J) : Bool :=
  (run.evicted hash policy event).all fun rootId ↦ (run.budgets.roots.get? rootId).all fun state ↦
    event.time?.all fun now ↦
      state.windowedChildren now == 0 && decide (0 < policy.maxDistinctChildren)

/-! ## What the table remembers -/

/-- How many children a root remembers. -/
def WorkflowBudgets.childCount (b : WorkflowBudgets) (rootId : JsString) : ℕ :=
  ((b.roots.get? rootId).map (·.children.size)).getD 0

/-- Every child inside the window is remembered, no root remembers too many, and the children that
were admitted in any window are not too many. -/
structure Remembers (policy : WorkflowBudgetPolicy) (run : WorkflowRun J) : Prop where
  past : ∀ a ∈ run.admissions, a.time ≤ run.clock
  recent : ∀ a ∈ run.admissions, (run.clock : ℤ) - workflowWindowMs policy < a.time →
    ∃ seenAt, run.budgets.childSeen a.rootId a.child = some seenAt ∧ a.time ≤ seenAt
  window : ∀ rootId state, run.budgets.roots.get? rootId = some state →
    state.windowMs = workflowWindowMs policy
  count : ∀ rootId, run.budgets.childCount rootId ≤ policy.maxDistinctChildren
  distinct : ∀ rootId t, (childrenIn policy run.admissions rootId t).dedup.length ≤
    policy.maxDistinctChildren

variable {child : JsString}

variable {rootId : JsString}

theorem mem_childrenIn {admissions : List ChildAdmission} {t : ℕ} :
    child ∈ childrenIn policy admissions rootId t ↔ ∃ a ∈ admissions, a.rootId = rootId ∧
      (t : ℤ) - workflowWindowMs policy < a.time ∧ a.time ≤ t ∧ a.child = child := by
  simp only [childrenIn, List.mem_map, mem_filter, and_eq_true, beq_iff_eq, decide_eq_true_eq]
  constructor
  · rintro ⟨a, ⟨ha, ⟨hroot, hafter⟩, hbefore⟩, hchild⟩
    exact ⟨a, ha, hroot, hafter, hbefore, hchild⟩
  · rintro ⟨a, ha, hroot, hafter, hbefore, hchild⟩
    exact ⟨a, ⟨ha, ⟨hroot, hafter⟩, hbefore⟩, hchild⟩

variable {b : WorkflowBudgets}

theorem dedup_le_childCount {children : List JsString}
    (h : ∀ child ∈ children, ∃ seenAt, b.childSeen rootId child = some seenAt) :
    children.dedup.length ≤ b.childCount rootId := by
  cases hget : b.roots.get? rootId with
  | none =>
    have hnil : children = [] := by
      refine eq_nil_iff_forall_not_mem.mpr fun child hchild ↦ ?_
      obtain ⟨seenAt, hseen⟩ := h child hchild
      rw [childSeen, hget] at hseen
      cases hseen
    simp [hnil]
  | some state =>
    have hsub : children.dedup ⊆ state.children.keys := by
      intro child hchild
      obtain ⟨seenAt, hseen⟩ := h child (mem_dedup.mp hchild)
      rw [childSeen, hget, bind_some] at hseen
      exact OMap.mem_keys.mpr ⟨seenAt, hseen⟩
    have hle := ((nodup_dedup children).subperm hsub).length_le
    simpa [childCount, hget] using hle

variable {state : WorkflowState} {seenAt : ℕ}

theorem windowedChildren_pos {now : ℕ} (h : state.children.get? child = some seenAt)
    (hrecent : state.recent now seenAt = true) : 0 < state.windowedChildren now :=
  length_pos_of_mem (OMap.mem_entries.mpr (childSeen_forgetChildren.mpr ⟨h, hrecent⟩))

/-! ## Steps that are not about children -/

/-- The children of every root stay, and so does its window. -/
def SameChildren (b b' : WorkflowBudgets) : Prop :=
  ∀ rootId, (b'.roots.get? rootId).map (fun state ↦ (state.children, state.windowMs)) =
    (b.roots.get? rootId).map fun state ↦ (state.children, state.windowMs)

theorem update_sameChildren (b : WorkflowBudgets) (rootId : JsString)
    {f : WorkflowState → WorkflowState}
    (h : ∀ state, (f state).children = state.children ∧ (f state).windowMs = state.windowMs) :
    SameChildren b (b.update rootId f) := by
  intro r
  rw [get?_update]
  split
  · rename_i hr
    subst hr
    rw [Option.map_map]
    exact congrFun (congrArg Option.map (funext fun state ↦ Prod.ext (h state).1 (h state).2)) _
  · rfl

theorem SameChildren.childSeen {b' : WorkflowBudgets} (h : SameChildren b b')
    (rootId child : JsString) : b'.childSeen rootId child = b.childSeen rootId child := by
  have hsame := congrArg (Option.bind · fun p ↦ p.1.get? child) (h rootId)
  rw [bind_map, bind_map] at hsame
  exact hsame

theorem SameChildren.childCount {b' : WorkflowBudgets} (h : SameChildren b b') (rootId : JsString) :
    b'.childCount rootId = b.childCount rootId := by
  have hsame := congrArg (Option.map fun p ↦ p.1.size) (h rootId)
  rw [Option.map_map, Option.map_map] at hsame
  exact congrArg (Option.getD · 0) hsame

variable {run' : WorkflowRun J}

theorem Remembers.of_same {run : WorkflowRun J} (h : Remembers policy run)
    (hb : SameChildren run.budgets run'.budgets) (ha : run'.admissions = run.admissions)
    (hclock : run.clock ≤ run'.clock) : Remembers policy run' where
  past a hmem := (h.past a (ha ▸ hmem)).trans hclock
  recent a hmem hrecent := by
    obtain ⟨seenAt, hseen, hle⟩ := h.recent a (ha ▸ hmem) (by omega)
    exact ⟨seenAt, (hb.childSeen ..).trans hseen, hle⟩
  window rootId state hstate := by
    have hsame := hb rootId
    rw [hstate, map_some] at hsame
    obtain ⟨state', hstate', heq⟩ := map_eq_some_iff.mp hsame.symm
    rw [Prod.mk.injEq] at heq
    exact heq.2.symm.trans (h.window rootId state' hstate')
  count rootId := (hb.childCount rootId).trans_le (h.count rootId)
  distinct rootId t := by
    rw [ha]
    exact h.distinct rootId t

theorem charge_sameChildren (b : WorkflowBudgets) (rootId : Option JsString) (sends now : ℕ) :
    SameChildren b (b.chargeWorkflowSends rootId sends now) := by
  rw [chargeWorkflowSends]
  split
  · exact fun _ ↦ rfl
  split
  · exact fun _ ↦ rfl
  · exact update_sameChildren b _ fun _ ↦ ⟨rfl, rfl⟩

/-! ## Admissions -/

section Admissions

variable {run : WorkflowRun J} {b' : WorkflowBudgets} {ledger : Option (SpendLedger J)} {now : ℕ}
  {root : JsString}

/-- **What an admission owes the invariant**: its own root keeps the children inside the window, and
the root that goes has none. -/
theorem Remembers.turn (h : Remembers policy run) (hclock : run.clock ≤ now)
    (helse : Elsewhere hash policy ledger now root run.budgets b')
    (hspares : ∀ r, run.budgets.evictee hash policy root ledger now = some r →
      ∀ state, run.budgets.roots.get? r = some state → state.windowedChildren now = 0)
    (hwindow : ∀ state, b'.roots.get? root = some state → state.windowMs = workflowWindowMs policy)
    (hcount : b'.childCount root ≤ policy.maxDistinctChildren)
    (hkeeps : ∀ child seenAt, run.budgets.childSeen root child = some seenAt →
      (now : ℤ) - workflowWindowMs policy < seenAt →
        ∃ seenAt', b'.childSeen root child = some seenAt' ∧ min seenAt now ≤ seenAt')
    {extra : List ChildAdmission} (hextra : ∀ a ∈ extra, a.rootId = root ∧ a.time = now ∧
      b'.childSeen root a.child = some now) (ledger' : SpendLedger J) (leases : List LeaseRecord) :
    Remembers policy ⟨b', ledger', leases, run.admissions ++ extra, now⟩ := by
  have hrecent : ∀ a ∈ run.admissions ++ extra, (now : ℤ) - workflowWindowMs policy < a.time →
      ∃ seenAt, b'.childSeen a.rootId a.child = some seenAt ∧ a.time ≤ seenAt := by
    intro a ha hafter
    rcases mem_append.mp ha with ha | ha
    · obtain ⟨seenAt, hseen, hle⟩ := h.recent a ha (by omega)
      by_cases hroot : a.rootId = root
      · rw [hroot] at hseen ⊢
        obtain ⟨seenAt', hseen', hle'⟩ := hkeeps a.child seenAt hseen (by omega)
        exact ⟨seenAt', hseen', (le_min hle ((h.past a ha).trans hclock)).trans hle'⟩
      rcases helse.others a.rootId hroot with hsame | ⟨-, hevictee⟩
      · exact ⟨seenAt, by rwa [childSeen, hsame], hle⟩
      · -- the root that goes would have had this child inside its window
        obtain ⟨state, hstate, hchild⟩ := bind_eq_some_iff.mp hseen
        have hnone := hspares _ hevictee state hstate
        have hpos : 0 < state.windowedChildren now := windowedChildren_pos hchild (by
          rw [WorkflowState.recent, h.window _ state hstate]
          exact decide_eq_true (by omega))
        omega
    · obtain ⟨hroot, htime, hseen⟩ := hextra a ha
      exact ⟨now, by rwa [hroot], htime.le⟩
  have hcounts : ∀ r, b'.childCount r ≤ policy.maxDistinctChildren := by
    intro r
    by_cases hr : r = root
    · rwa [hr]
    rcases helse.others r hr with hsame | ⟨hgone, -⟩
    · rw [childCount, hsame]
      exact h.count r
    · rw [childCount, hgone]
      exact Nat.zero_le _
  refine ⟨fun a ha ↦ ?_, hrecent, fun r state hstate ↦ ?_, hcounts, fun r t ↦ ?_⟩
  · rcases mem_append.mp ha with ha | ha
    · exact (h.past a ha).trans hclock
    · exact (hextra a ha).2.1.le
  · by_cases hr : r = root
    · exact hwindow state (hr ▸ hstate)
    rcases helse.others r hr with hsame | ⟨hgone, -⟩
    · exact h.window r state (hsame ▸ hstate)
    · rw [hgone] at hstate
      cases hstate
  · by_cases ht : now ≤ t
    · refine (dedup_le_childCount fun child hchild ↦ ?_).trans (hcounts r)
      obtain ⟨a, ha, rfl, hafter, -, rfl⟩ := mem_childrenIn.mp hchild
      obtain ⟨seenAt, hseen, -⟩ := hrecent a ha (by omega)
      exact ⟨seenAt, hseen⟩
    · have hold : childrenIn policy (run.admissions ++ extra) r t =
          childrenIn policy run.admissions r t := by
        rw [childrenIn, filter_append, map_append, childrenIn]
        refine append_right_eq_self.mpr (map_eq_nil_iff.mpr ?_)
        refine filter_eq_nil_iff.mpr fun a ha hin ↦ ?_
        simp only [and_eq_true, decide_eq_true_eq] at hin
        have htime := (hextra a ha).2.1
        omega
      rw [hold]
      exact h.distinct r t

theorem rootState_window (h : Remembers policy run) (root : JsString) (now : ℕ) :
    (rootState policy run.budgets root now).windowMs = workflowWindowMs policy := by
  rw [rootState]
  cases hget : run.budgets.roots.get? root with
  | none => rfl
  | some state => exact h.window root state hget

theorem rootState_count (b : WorkflowBudgets) (root : JsString) (now : ℕ) :
    (rootState policy b root now).children.size = b.childCount root := by
  rw [rootState, childCount]
  cases b.roots.get? root with
  | none => rfl
  | some state => rfl

theorem recent_iff (h : state.windowMs = workflowWindowMs policy) :
    state.recent now seenAt = true ↔ (now : ℤ) - workflowWindowMs policy < seenAt := by
  rw [WorkflowState.recent, h, decide_eq_true_eq]

theorem Remembers.refused (h : Remembers policy run) (hclock : run.clock ≤ now)
    (hturn : RefusedTurn hash policy ledger now root run.budgets b')
    (hspares : ∀ r, run.budgets.evictee hash policy root ledger now = some r →
      ∀ state, run.budgets.roots.get? r = some state → state.windowedChildren now = 0)
    (ledger' : SpendLedger J) (leases : List LeaseRecord) :
    Remembers policy ⟨b', ledger', leases, run.admissions ++ [], now⟩ := by
  refine h.turn hclock hturn.toElsewhere hspares (fun state hstate ↦ ?_) ?_
    (fun child seenAt hseen hrecent ↦ ?_) (fun a ha ↦ absurd ha not_mem_nil) ledger' leases
  · rcases hturn.root with ⟨hnone, -⟩ | hsome
    · rw [hnone] at hstate
      nomatch hstate
    · obtain rfl := some_inj.mp (hsome.symm.trans hstate)
      exact rootState_window h root now
  · rcases hturn.root with ⟨hnone, -⟩ | hsome
    · rw [childCount, hnone]
      exact Nat.zero_le _
    · rw [childCount, hsome]
      refine (OMap.size_filter_le ..).trans ?_
      rw [rootState_count]
      exact h.count root
  · refine ⟨seenAt, (hturn.childSeen_root child seenAt).mpr ⟨hseen, ?_⟩, min_le_left ..⟩
    exact (recent_iff (rootState_window h root now)).mpr hrecent

variable {childId : Option JsString}

variable {lane : WorkflowLane}

theorem takeSlot_count (hcounts : countDenial policy state lane childId now = none)
    (hsize : state.children.size ≤ policy.maxDistinctChildren) :
    (takeSlot childId now (askedState state childId now)).children.size ≤
      policy.maxDistinctChildren := by
  cases childId with
  | none => exact hsize
  | some child =>
    have hset : (takeSlot (some child) now (askedState state (some child) now)).children =
        (askedState state (some child) now).children.set child now := rfl
    rw [hset, OMap.size_set]
    cases hhas : state.children.has child with
    | true =>
      have hasked : askedState state (some child) now = state := by
        rw [askedState, newChild, any_some, hhas, Bool.not_true, if_neg Bool.false_ne_true]
      rw [hasked, hhas, if_pos rfl]
      exact hsize
    | false =>
      have hnew : newChild state (some child) = true := by
        rw [newChild, any_some, hhas, Bool.not_false]
      have hroom : state.windowedChildren now < policy.maxDistinctChildren := by
        rw [countDenial, hnew, Bool.true_and] at hcounts
        split at hcounts
        · cases hcounts
        split at hcounts
        · cases hcounts
        · rename_i hroom
          simpa using hroom
      rw [askedState, hnew, if_pos rfl]
      rw [WorkflowState.windowedChildren] at hroom
      split
      · exact hroom.le
      · exact hroom

theorem askedState_keeps (h : state.children.get? child = some seenAt)
    (hrecent : state.recent now seenAt = true) :
    (askedState state childId now).children.get? child = some seenAt := by
  rw [askedState]
  split
  · exact childSeen_forgetChildren.mpr ⟨h, hrecent⟩
  · exact h

theorem Remembers.admitted (h : Remembers policy run) (hclock : run.clock ≤ now)
    (hturn : AdmittedTurn hash policy ledger lane childId now root run.budgets b')
    (hspares : ∀ r, run.budgets.evictee hash policy root ledger now = some r →
      ∀ state, run.budgets.roots.get? r = some state → state.windowedChildren now = 0)
    (ledger' : SpendLedger J) (leases : List LeaseRecord) :
    Remembers policy ⟨b', ledger', leases, run.admissions ++
      (childId.map fun child ↦ (⟨root, child, now⟩ : ChildAdmission)).toList, now⟩ := by
  have hwindow := rootState_window h root now
  have hseenBy (child : JsString) : b'.childSeen root child =
      (takeSlot childId now (askedState (rootState policy run.budgets root now) childId
        now)).children.get? child := by
    rw [childSeen, hturn.root, bind_some]
  refine h.turn hclock hturn.toElsewhere hspares (fun state hstate ↦ ?_) ?_
    (fun child seenAt hseen hrecent ↦ ?_) (fun a ha ↦ ?_) ledger' leases
  · obtain rfl := some_inj.mp (hturn.root.symm.trans hstate)
    refine Eq.trans ?_ hwindow
    rw [askedState]
    split
    · rfl
    · rfl
  · rw [childCount, hturn.root]
    refine takeSlot_count hturn.counts ?_
    rw [rootState_count]
    exact h.count root
  · have hkept : (askedState (rootState policy run.budgets root now) childId
        now).children.get? child = some seenAt :=
      askedState_keeps ((rootState_children ..).trans hseen) ((recent_iff hwindow).mpr hrecent)
    rw [hseenBy]
    cases childId with
    | none => exact ⟨seenAt, hkept, min_le_left ..⟩
    | some entered =>
      show ∃ seenAt', (OMap.set _ entered now).get? child = some seenAt' ∧ min seenAt now ≤ seenAt'
      rw [OMap.get?_set]
      split
      · exact ⟨now, rfl, min_le_right ..⟩
      · exact ⟨seenAt, hkept, min_le_left ..⟩
  · cases childId with
    | none => exact absurd ha not_mem_nil
    | some entered =>
      obtain rfl := mem_singleton.mp ha
      refine ⟨rfl, rfl, ?_⟩
      rw [hseenBy]
      exact OMap.get?_set_self ..

end Admissions

/-! ## Runs -/

/-- The runs in question: in the order of the clock, and sparing the children. -/
def WorkflowRun.spares (hash : AliasHash) (policy : WorkflowBudgetPolicy) (run : WorkflowRun J)
    (event : WorkflowEvent J) : Prop :=
  run.ordered event = true ∧ run.sparesChildren hash policy event = true

instance (run : WorkflowRun J) (event : WorkflowEvent J) :
    Decidable (run.spares hash policy event) := inferInstanceAs (Decidable (_ ∧ _))

variable {event : WorkflowEvent J}

theorem WorkflowRun.ordered.le {run : WorkflowRun J} (h : run.ordered event = true) {now : ℕ}
    (htime : event.time? = some now) : run.clock ≤ now := by
  obtain ⟨hle, -⟩ := and_eq_true_iff.mp h
  rw [htime, all_some] at hle
  exact of_decide_eq_true hle

variable {spend : Option WorkflowSpendRequest} {consults : Bool} {r : JsString}

theorem spares_evictee {run : WorkflowRun J} {rootId : Option JsString} {lane : WorkflowLane}
    {childId : Option JsString} {now : ℕ}
    (h : run.sparesChildren hash policy (.turn rootId lane childId now spend consults) = true)
    {root : JsString} (hroot : rootId.filter (· ≠ []) = some root)
    (hevictee : run.budgets.evictee hash policy root (run.consulted spend consults) now = some r)
    (hstate : run.budgets.roots.get? r = some state) :
    state.windowedChildren now = 0 ∧ 0 < policy.maxDistinctChildren := by
  rw [WorkflowRun.sparesChildren, WorkflowRun.evicted, hroot, bind_some, hevictee,
    all_some, hstate, all_some, WorkflowEvent.time?, all_some,
    and_eq_true, beq_iff_eq, decide_eq_true_eq] at h
  exact h

theorem after_remembers {run : WorkflowRun J} (h : Remembers policy run)
    (hspares : run.spares hash policy event) (hstep : run.after store hash policy event = some run') :
    Remembers policy run' := by
  obtain ⟨hordered, hspares⟩ := hspares
  cases event with
  | turn rootId lane childId now spend consults =>
    have hclock : run.clock ≤ now := WorkflowRun.ordered.le hordered rfl
    obtain rfl := some_inj.mp hstep
    rcases admission_cases store hash policy run rootId lane childId now spend consults with
      heq | ⟨root, reason, denial, hroot, hrefused, hturn, -⟩ |
        ⟨root, lease, hroot, hlease, hadmitted, hturn⟩
    · refine h.of_same (fun r ↦ ?_) ?_ hclock
      · simp only [heq]
      · simp only [heq, WorkflowRun.entered, append_nil]
    · simp only [hrefused, WorkflowRun.entered]
      exact h.refused hclock hturn
        (fun r hr state hstate ↦ (spares_evictee hspares hroot hr hstate).1) _ _
    · subst hlease
      simp only [hadmitted, WorkflowRun.entered]
      exact h.admitted hclock hturn
        (fun r hr state hstate ↦ (spares_evictee hspares hroot hr hstate).1) _ _
  | release i now =>
    have hclock : run.clock ≤ now := WorkflowRun.ordered.le hordered rfl
    obtain ⟨record, -, rfl⟩ := map_eq_some_iff.mp hstep
    rw [WorkflowRun.releaseLease]
    split
    · exact h
    · exact h.of_same (update_sameChildren run.budgets _ fun _ ↦ ⟨rfl, rfl⟩) rfl hclock
  | charge rootId sends now =>
    have hclock : run.clock ≤ now := WorkflowRun.ordered.le hordered rfl
    obtain rfl := some_inj.mp hstep
    exact h.of_same (charge_sameChildren _ rootId sends now) rfl hclock
  | clear rootId now => exact absurd (and_eq_true_iff.mp hordered).2 false_ne_true
  | spend event =>
    obtain rfl := some_inj.mp hstep
    exact h.of_same (fun _ ↦ rfl) rfl le_rfl

theorem remembers_inductive :
    (workflowRuns store hash policy).Inductive (WorkflowRun.spares hash policy)
      (Remembers policy) := by
  refine ⟨fun run hinit ↦ ?_, fun run event run' h hspares hstep ↦ after_remembers h hspares hstep⟩
  obtain ⟨ledger, rfl⟩ := hinit
  exact ⟨nofun, nofun,
    fun r state hstate ↦ absurd hstate (by simp [WorkflowRun.start]), fun r ↦ Nat.zero_le _,
    fun r t ↦ Nat.zero_le _⟩

theorem turn_spares_ceilings {run : WorkflowRun J} {rootId : Option JsString} {lane : WorkflowLane}
    {childId : Option JsString} {now : ℕ}
    (hspares : run.sparesChildren hash policy (.turn rootId lane childId now spend consults) = true)
    (hstep : run.after store hash policy (.turn rootId lane childId now spend consults) =
      some run') (hstate : run.budgets.roots.get? r = some state)
    (hceiling : state.atCountCeiling policy now = true) : run'.budgets.roots.has r = true := by
  have hstays {root : JsString} (hroot : rootId.filter (· ≠ []) = some root) {b' : WorkflowBudgets}
      (helse : Elsewhere hash policy (run.consulted spend consults) now root run.budgets b')
      (hr : r ≠ root) : b'.roots.has r = true := by
    rcases helse.others r hr with hsame | ⟨-, hevictee⟩
    · exact OMap.has_of_get? (hsame.trans hstate)
    obtain ⟨-, state', hstate', -, hsends⟩ := evictee_spec hevictee
    obtain rfl := some_inj.mp (hstate.symm.trans hstate')
    have hspared := spares_evictee hspares hroot hevictee hstate
    rw [WorkflowState.atCountCeiling, or_eq_true, decide_eq_true_eq, decide_eq_true_eq]
      at hceiling
    omega
  obtain rfl := some_inj.mp hstep
  rcases admission_cases store hash policy run rootId lane childId now spend consults with
    heq | ⟨root, reason, denial, hroot, -, hturn, -⟩ | ⟨root, lease, hroot, -, -, hturn⟩
  · simp only [heq]
    exact OMap.has_of_get? hstate
  · by_cases hr : r = root
    · rcases hturn.root with ⟨-, hnone⟩ | hsome
      · rw [← hr, hstate] at hnone
        cases hnone
      · exact OMap.has_of_get? (hr ▸ hsome)
    · exact hstays hroot hturn.toElsewhere hr
  · by_cases hr : r = root
    · exact OMap.has_of_get? (hr ▸ hturn.root)
    · exact hstays hroot hturn.toElsewhere hr

/-- **Eviction resets no ceiling that has fired**, in every run in which no root is evicted that
still has a child inside its window: no root at a ceiling is removed, and no window of any root holds
more distinct children than there may be. -/
theorem eviction_spares_ceilings {run : WorkflowRun J}
    (h : (workflowRuns store hash policy).ReachableIf (WorkflowRun.spares hash policy) run) :
    (∀ rootId t, (childrenIn policy run.admissions rootId t).dedup.length ≤
      policy.maxDistinctChildren) ∧ ∀ rootId lane childId now spend consults run',
      run.spares hash policy (.turn rootId lane childId now spend consults) →
      run.after store hash policy (.turn rootId lane childId now spend consults) = some run' →
      ∀ r state, run.budgets.roots.get? r = some state →
        state.atCountCeiling policy now = true → run'.budgets.roots.has r = true := by
  refine ⟨(remembers_inductive.reachable h).distinct, ?_⟩
  intro rootId lane childId now spend consults run' hspares hstep r state hstate hceiling
  exact turn_spares_ceilings hspares.2 hstep hstate hceiling

/-! ## A full table -/

/-- One root, one child. -/
def oneRootPolicy : WorkflowBudgetPolicy := ⟨8, 256, 1, none, 1, 1⟩

/-- A turn of a root that ends at once. -/
def shortTurn (lease : ℕ) (rootId : String) (childId : Option String) :
    List (WorkflowEvent JournalFile) :=
  [.turn (some (js rootId)) .interactive (childId.map js) (2 * lease) none false,
    .release lease (2 * lease + 1)]

/-- The root that has to go has no child. -/
theorem eviction_spares_ceilings_childless :
    (childrenIn oneRootPolicy ((workflowRuns fileJournal plainHash oneRootPolicy).play unusedRun
      (shortTurn 0 "other" none ++ shortTurn 1 "task" (some "child"))).admissions
        (js "task") 4).dedup.length ≤ 1 := by
  have hinit : (workflowRuns fileJournal plainHash oneRootPolicy).init unusedRun := ⟨_, rfl⟩
  exact (eviction_spares_ceilings ((Machine.ReachableIf.init hinit).run (Machine.run_play
    (l := shortTurn 0 "other" none ++ shortTurn 1 "task" (some "child"))
    (by decide +kernel)))).1 (js "task") 4

/-- **A root at its child ceiling is evicted**, and under its name a second child is admitted in the
same window. -/
theorem eviction_resets_ceiling : ∃ run,
    (workflowRuns fileJournal plainHash oneRootPolicy).ReachableIf
      (fun run event ↦ run.ordered event = true) run ∧ oneRootPolicy.maxDistinctChildren <
      (childrenIn oneRootPolicy run.admissions (js "task") 4).dedup.length := by
  have hinit : (workflowRuns fileJournal plainHash oneRootPolicy).init unusedRun := ⟨_, rfl⟩
  exact ⟨_, (Machine.ReachableIf.init hinit).run (Machine.run_play
    (l := shortTurn 0 "task" (some "first") ++ shortTurn 1 "other" none ++
      shortTurn 2 "task" (some "second")) (by decide +kernel)), by decide +kernel⟩

end Workflow
