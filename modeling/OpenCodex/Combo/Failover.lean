import OpenCodex.Combo.RoundRobin
import OpenCodex.Combo.Wait

/-!
# Failing over

When a target fails, `advanceComboAfterFailure` picks the next one, which was not tried before and is
not cooling by now.  However many failures follow each other, its picks are different targets
(`failover_tries_once`), whatever the failures and other requests make of the tables.
-/

set_option autoImplicit false

open List

namespace Combo

/-- Round-robin does not stay on a target that failed. -/
def noteComboFailure (s : ComboTables) (comboId : String) (target : NormalizedComboTarget)
    (writerGeneration : ℕ) : ComboTables :=
  let key := targetKey target
  if !mayCommitComboState s comboId key writerGeneration then s
  else
    match s.selectionState.get? comboId with
    | none => s
    | some state =>
      if state.activeKey = some key then
        let state := { state with activeKey := none, successes := 0 }
        { s with selectionState := s.selectionState.set comboId state }
      else s

/-- What a failure makes of the tables (`coolComboTarget`), with all that happens meanwhile, and what
the caller asks then. -/
structure Failure where
  meanwhile : ComboTables → ComboTables
  eligible : NormalizedComboTarget → Bool
  now : ℤ
  draw : ℚ

variable (config : OcxConfig)

/-- Not cooling, fine with the caller, and no last resort that is to be deferred. -/
def Failure.accepts (failure : Failure) (health : Health) (comboId : String)
    (target : NormalizedComboTarget) : Bool :=
  !isComboTargetInCooldown health comboId target failure.now && failure.eligible target &&
    !((getCombo config comboId).any defersLastResort && target.lastResort)

def advanceComboAfterFailure (s : ComboTables) (pick : ComboPick) (failure : Failure) :
    Except UnknownComboError (Option ComboPick × ComboTables) :=
  let s := failure.meanwhile (noteComboFailure s pick.comboId pick.target pick.writerGeneration)
  let eligible := failure.accepts config s.health pick.comboId
  match pickComboTarget config s.health pick.comboId
    ⟨pick.attempted, eligible, failure.now, false, false⟩ s.selectionState s.configGeneration
    failure.draw with
  | .error e => .error e
  | .ok (next, table) => .ok (next, { s with selectionState := table })

/-- The picks that follow a pick, failure after failure. -/
def failovers : ComboTables → ComboPick → List Failure → List ComboPick
  | _, _, [] => []
  | s, pick, failure :: failures =>
    match advanceComboAfterFailure config s pick failure with
    | .ok (some next, s') => next :: failovers s' next failures
    | _ => []

/-- The targets that were not attempted. -/
def untried (pick : ComboPick) : List NormalizedComboTarget :=
  ((getCombo config pick.comboId).elim [] NormalizedComboConfig.targets).filter fun target ↦
    targetKey target ∉ pick.attempted

variable {config} {s s' : ComboTables} {pick next : ComboPick}

/-- A failover tries one of the targets that were not attempted, and leaves the others. -/
theorem advance_untried {failure : Failure}
    (h : advanceComboAfterFailure config s pick failure = .ok (some next, s')) :
    next.target ∈ untried config pick ∧ untried config next =
      (untried config pick).filter fun target ↦ targetKey target ≠ targetKey next.target := by
  rw [advanceComboAfterFailure] at h
  split at h
  · cases h
  rename_i hpick
  obtain ⟨rfl, -⟩ := Prod.mk.inj (Except.ok.inj h)
  obtain ⟨combo, hcombo, hmem, hselectable, hid, hattempted⟩ := pickComboTarget_spec hpick
  obtain ⟨r, hr⟩ := selectable_eq_true.mp hselectable
  have hfresh : targetKey next.target ∉ pick.attempted := fun hin ↦ by
    simp [rankOf, routable, hin] at hr
  simp only [untried, hid, hcombo, hattempted, Option.elim_some, filter_filter]
  refine ⟨mem_filter.mpr ⟨hmem, decide_eq_true hfresh⟩, filter_congr fun t _ ↦ ?_⟩
  simp [and_comm]

/-- **No target is tried twice.**  The picks that follow a pick are different targets that were not
attempted before; so there are at most as many of them as such targets. -/
theorem failover_tries_once (s : ComboTables) (pick : ComboPick) (failures : List Failure) :
    ((failovers config s pick failures).map (targetKey ·.target)).Nodup ∧
      (∀ next ∈ failovers config s pick failures, next.target ∈ untried config pick) ∧
      (failovers config s pick failures).length ≤ (untried config pick).length := by
  induction failures generalizing s pick with
  | nil => exact ⟨nodup_nil, forall_mem_nil _, Nat.zero_le _⟩
  | cons failure failures ih =>
    rw [failovers]
    split
    · rename_i next s' hadvance
      obtain ⟨hnext, huntried⟩ := advance_untried hadvance
      obtain ⟨hnodup, hmem, hlength⟩ := ih s' next
      rw [huntried] at hmem hlength
      refine ⟨nodup_cons.mpr ⟨fun hin ↦ ?_, hnodup⟩,
        forall_mem_cons.mpr ⟨hnext, fun later hl ↦ (mem_filter.mp (hmem later hl)).1⟩, ?_⟩
      · obtain ⟨later, hl, heq⟩ := mem_map.mp hin
        exact of_decide_eq_true (mem_filter.mp (hmem later hl)).2 heq
      · have hless : ((untried config pick).filter fun target ↦
            targetKey target ≠ targetKey next.target).length < (untried config pick).length :=
          length_filter_lt_length_iff_exists.mpr ⟨next.target, hnext, by simp⟩
        exact hlength.trans_lt hless
    · exact ⟨nodup_nil, forall_mem_nil _, Nat.zero_le _⟩

end Combo
