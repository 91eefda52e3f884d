import OpenCodex.Combo.Pick

/-!
# Waiting for a cooldown

When every good target of a combo is cooling down, a request may wait for one.
`pickComboTargetWithWait` picks up to three times and sleeps up to twice: under the policy
`before-last-resort` it first looks among the normal targets alone and waits for the one that is back
soonest, and then, with what the first wait has left of the budget, it makes the ordinary pick and
may wait once more.

While a call sleeps, everything it reads may change: the cooldowns, the configuration, the selection
table, the request's signal.  So a call is given the `World` of every time of its clock, and nothing
relates one of them to another.  The clock is the code's own: `now`, and from there what it has slept.

Two things hold whatever the worlds are (`wait_within_budget_and_policy`).  The call never sleeps
longer than its budget.  And a last-resort target is not picked while a normal one is ready, or while
the normal target that is back soonest can be waited out and some normal target is ready then.
-/

set_option autoImplicit false

open List Option

namespace Combo

/-! ## The usable targets and their cooldowns -/

/-- The provider may be used, and its quota is not known to be spent. -/
def targetProviderIsUsable (config : OcxConfig) (health : Health) (target : NormalizedComboTarget)
    (now : ℤ) : Bool :=
  targetProviderIsRoutable config target && !targetProviderQuotaExhausted config health target now

section Earliest

variable (health : Health) (comboId : String) (now : ℤ)

/-- One turn of the search: a target replaces the one held only if it is back sooner. -/
def earlierCooldown (earliest : Option (ℤ × NormalizedComboTarget))
    (target : NormalizedComboTarget) : Option (ℤ × NormalizedComboTarget) :=
  match health.targetCooldowns.get? (cooldownMapKey comboId target) with
  | none => earliest
  | some entry =>
    if entry.cooldownUntil ≤ now then earliest
    else if earliest.all fun e ↦ decide (entry.cooldownUntil < e.1) then
      some (entry.cooldownUntil, target)
    else earliest

/-- The target that is back first, and when; the order of the targets decides a tie. -/
def earliestComboCooldown (targets : List NormalizedComboTarget) :
    Option (ℤ × NormalizedComboTarget) :=
  targets.foldl (earlierCooldown health comboId now) none

end Earliest

/-! ## The call -/

/-- What a call finds at one time of its clock. -/
structure World where
  config : OcxConfig
  health : Health
  table : SelectionTable
  writerGeneration : ℕ
  /-- The draw of the `random` strategy. -/
  draw : ℚ
  /-- The request has been aborted. -/
  aborted : Bool
  /-- A sleep that ends here ends by throwing. -/
  rejected : Bool

structure WaitOptions where
  exclude : List String
  /-- The caller's predicate, at a time: it may read state that moves while the call sleeps. -/
  eligible : ℤ → NormalizedComboTarget → Bool
  waitForCooldownMs : ℕ
  now : ℤ
  allowCapacityParked : Bool

inductive WaitError where
  | unknownCombo (error : UnknownComboError)
  /-- What a sleep threw while the request was not aborted. -/
  | sleepFailed

/-- The sleeps of a call, and what it returns or throws. -/
structure Waited where
  slept : List ℤ
  outcome : Except WaitError (Option ComboPick)

/-- What the stage that defers the last resort comes to. -/
inductive Deferral where
  | settled (waited : Waited)
  /-- The ordinary selection follows, with the selection table as it is by now. -/
  | fallThrough (slept : List ℤ) (table : SelectionTable)

section Wait

variable (world : ℤ → World) (comboId : String) (options : WaitOptions)

/-- The options of one pick. -/
def pickOptions (eligible : NormalizedComboTarget → Bool) (now : ℤ) (parked : Bool) : PickOptions :=
  ⟨options.exclude, eligible, now, false, parked⟩

/-- One pick at a time of the clock. -/
def pickAt (eligible : NormalizedComboTarget → Bool) (now : ℤ) (parked : Bool)
    (table : SelectionTable) : Except WaitError (Option ComboPick × SelectionTable) :=
  let w := world now
  match pickComboTarget w.config w.health comboId (pickOptions options eligible now parked) table
    w.writerGeneration w.draw with
  | .error e => .error (.unknownCombo e)
  | .ok r => .ok r

/-- Not cooling at that time, and fine with the caller. -/
def eligibleAt (now : ℤ) (target : NormalizedComboTarget) : Bool :=
  !isComboTargetInCooldown (world now).health comboId target now && options.eligible now target

/-- Cooling at that time, and usable but for that. -/
def waitingAt (now : ℤ) (target : NormalizedComboTarget) : Bool :=
  let w := world now
  targetProviderIsUsable w.config w.health target now &&
    !options.exclude.contains (targetKey target) &&
    isComboTargetInCooldown w.health comboId target now && options.eligible now target

/-- What ends the call after a sleep: a sleep that threw, an aborted request, a combo that was
deleted meanwhile. -/
def afterSleep (w : World) : Option (Except WaitError (Option ComboPick)) :=
  if w.rejected && !w.aborted then some (.error .sleepFailed)
  else if w.aborted then some (.ok none)
  else if (getCombo w.config comboId).isNone then some (.ok none)
  else none

/-- The combo asks to defer its last-resort targets, and has others. -/
def defersLastResort (combo : NormalizedComboConfig) : Bool :=
  decide (combo.cooldownWaitPolicy = some .beforeLastResort) &&
    combo.targets.any fun target ↦ !target.lastResort

/-- The targets a deferral may wait for. -/
def deferralTargets (combo : NormalizedComboConfig) : List NormalizedComboTarget :=
  combo.targets.filter fun target ↦
    !target.lastResort && waitingAt world comboId options options.now target

/-- The deferral: a pick among the normal targets, and one wait for the first of them to be back. -/
def deferLastResort (combo : NormalizedComboConfig) : Deferral :=
  let now := options.now
  let w := world now
  let normalOnly (target : NormalizedComboTarget) : Bool :=
    !target.lastResort && eligibleAt world comboId options now target
  match pickAt world comboId options normalOnly now false w.table with
  | .error e => .settled ⟨[], .error e⟩
  | .ok (some normalPick, _) => .settled ⟨[], .ok (some normalPick)⟩
  | .ok (none, table) =>
    match earliestComboCooldown w.health comboId now
      (deferralTargets world comboId options combo) with
    | none => .fallThrough [] table
    | some (expiry, _) =>
      let normalDelay := expiry - now
      if options.waitForCooldownMs < normalDelay then .fallThrough [] table
      else
        let clock := now + normalDelay
        let later := world clock
        match afterSleep comboId later with
        | some outcome => .settled ⟨[normalDelay], outcome⟩
        | none =>
          let normalThen (target : NormalizedComboTarget) : Bool :=
            !target.lastResort && eligibleAt world comboId options clock target
          match pickAt world comboId options normalThen clock false later.table with
          | .error e => .settled ⟨[normalDelay], .error e⟩
          | .ok (some waited, _) => .settled ⟨[normalDelay], .ok (some waited)⟩
          | .ok (none, table) => .fallThrough [normalDelay] table

/-- The ordinary selection, after what the deferral has slept. -/
def ordinarySelection (slept : List ℤ) (table : SelectionTable) : Waited :=
  let clock := options.now + slept.sum
  let remainingWaitMs := options.waitForCooldownMs - slept.sum
  let w := world clock
  match pickAt world comboId options (options.eligible clock) clock options.allowCapacityParked
    table with
  | .error e => ⟨slept, .error e⟩
  | .ok (none, _) => ⟨slept, .ok none⟩
  | .ok (some pick, _) =>
    if pick.rank = some 0 ∨ remainingWaitMs ≤ 0 ∨ w.aborted then ⟨slept, .ok (some pick)⟩
    else
      match getCombo w.config comboId with
      | none => ⟨slept, .error (.unknownCombo ⟨comboId⟩)⟩
      | some combo =>
        match earliestComboCooldown w.health comboId clock
          (combo.targets.filter (waitingAt world comboId options clock)) with
        | none => ⟨slept, .ok (some pick)⟩
        | some (expiry, _) =>
          let delay := expiry - clock
          if remainingWaitMs < delay then ⟨slept, .ok (some pick)⟩
          else
            let wake := clock + delay
            let later := world wake
            match afterSleep comboId later with
            | some outcome => ⟨slept ++ [delay], outcome⟩
            | none =>
              ⟨slept ++ [delay],
                (pickAt world comboId options (options.eligible wake) wake
                  options.allowCapacityParked later.table).map Prod.fst⟩

/-- The policy's stage: it is passed over without the policy, and once the request is aborted. -/
def deferralStage : Deferral :=
  let w := world options.now
  match getCombo w.config comboId with
  | none => .fallThrough [] w.table
  | some policyCombo =>
    if defersLastResort policyCombo && !w.aborted then
      deferLastResort world comboId options policyCombo
    else .fallThrough [] w.table

/-- Pick a target of the combo, waiting for a cooldown to end where that buys a better one. -/
def pickComboTargetWithWait : Waited :=
  match deferralStage world comboId options with
  | .settled waited => waited
  | .fallThrough slept table => ordinarySelection world comboId options slept table

end Wait

/-! ## The earliest cooldown -/

section Earliest

variable {health : Health} {comboId : String} {now : ℤ}

/-- The target is cooling down until then. -/
def CoolingUntil (health : Health) (comboId : String) (now : ℤ) (target : NormalizedComboTarget)
    (expiry : ℤ) : Prop :=
  now < expiry ∧ ∃ entry, health.targetCooldowns.get? (cooldownMapKey comboId target) = some entry ∧
    entry.cooldownUntil = expiry

/-- When a target of the list is back. -/
def expiries (health : Health) (comboId : String) (now : ℤ)
    (targets : List NormalizedComboTarget) : Set ℤ :=
  {expiry | ∃ target ∈ targets, CoolingUntil health comboId now target expiry}

theorem expiries_concat (targets : List NormalizedComboTarget) (target : NormalizedComboTarget) :
    expiries health comboId now (targets ++ [target]) =
      expiries health comboId now targets ∪ {expiry | CoolingUntil health comboId now target expiry} := by
  ext expiry
  simp only [expiries, Set.mem_ofPred_eq, Set.mem_union, mem_append, mem_singleton,
    or_and_right, exists_or, exists_eq_left]

/-- What the search should hold after some targets. -/
def Earliest (health : Health) (comboId : String) (now : ℤ) (targets : List NormalizedComboTarget) :
    Option (ℤ × NormalizedComboTarget) → Prop
  | none => expiries health comboId now targets = ∅
  | some found => IsLeast (expiries health comboId now targets) found.1

variable {targets : List NormalizedComboTarget}

theorem Earliest.step {earliest : Option (ℤ × NormalizedComboTarget)}
    (h : Earliest health comboId now targets earliest) (target : NormalizedComboTarget) :
    Earliest health comboId now (targets ++ [target])
      (earlierCooldown health comboId now earliest target) := by
  -- where the target is not cooling, nothing is new
  have hsame : {expiry | CoolingUntil health comboId now target expiry} = ∅ →
      Earliest health comboId now (targets ++ [target]) earliest := by
    intro hempty
    cases earliest with
    | none | some found => rw [Earliest, expiries_concat, hempty, Set.union_empty]; exact h
  rw [earlierCooldown]
  cases hentry : health.targetCooldowns.get? (cooldownMapKey comboId target) with
  | none =>
    refine hsame (Set.eq_empty_iff_forall_notMem.mpr fun expiry hc ↦ ?_)
    obtain ⟨-, entry, hget, -⟩ := hc
    exact absurd (hentry.symm.trans hget) (by simp)
  | some entry =>
    simp only
    by_cases hover : entry.cooldownUntil ≤ now
    · rw [if_pos hover]
      refine hsame (Set.eq_empty_iff_forall_notMem.mpr fun expiry hc ↦ ?_)
      obtain ⟨hlt, entry', hget, rfl⟩ := hc
      obtain rfl : entry = entry' := some_inj.mp (hentry.symm.trans hget)
      omega
    · rw [if_neg hover]
      have hnew : {expiry | CoolingUntil health comboId now target expiry} =
          {entry.cooldownUntil} := by
        ext expiry
        constructor
        · rintro ⟨-, entry', hget, rfl⟩
          obtain rfl : entry = entry' := some_inj.mp (hentry.symm.trans hget)
          rfl
        · rintro rfl
          exact ⟨not_le.mp hover, entry, hentry, rfl⟩
      cases earliest with
      | none =>
        have hnone : expiries health comboId now targets = ∅ := h
        rw [all_none, if_pos rfl, Earliest, expiries_concat, hnone, hnew, Set.empty_union]
        exact isLeast_singleton
      | some found =>
        have hleast : IsLeast (expiries health comboId now targets) found.1 := h
        have hboth := hleast.union (isLeast_singleton (a := entry.cooldownUntil))
        rw [← hnew, ← expiries_concat] at hboth
        by_cases hsooner : entry.cooldownUntil < found.1
        · rw [all_some, if_pos (decide_eq_true hsooner), Earliest]
          rw [min_eq_right hsooner.le] at hboth
          exact hboth
        · rw [all_some, if_neg (by rw [decide_eq_true_eq]; exact hsooner), Earliest]
          rw [min_eq_left (not_lt.mp hsooner)] at hboth
          exact hboth

/-- **The search ends with the least expiry**, or finds that no target is cooling. -/
theorem earliestComboCooldown_earliest (health : Health) (comboId : String) (now : ℤ)
    (targets : List NormalizedComboTarget) :
    Earliest health comboId now targets (earliestComboCooldown health comboId now targets) := by
  have hfold : ∀ (rest walked : List NormalizedComboTarget)
      (earliest : Option (ℤ × NormalizedComboTarget)),
      Earliest health comboId now walked earliest →
      Earliest health comboId now (walked ++ rest)
        (rest.foldl (earlierCooldown health comboId now) earliest) := by
    intro rest
    induction rest with
    | nil => intro walked earliest h; rw [append_nil]; exact h
    | cons target rest ih =>
      intro walked earliest h
      have hrest := ih _ _ (h.step target)
      rw [append_assoc] at hrest
      exact hrest
  refine hfold targets [] none (Set.eq_empty_iff_forall_notMem.mpr ?_)
  rintro expiry ⟨target, hmem, -⟩
  exact absurd hmem not_mem_nil

theorem earliestComboCooldown_ahead {found : ℤ × NormalizedComboTarget}
    (h : earliestComboCooldown health comboId now targets = some found) : now < found.1 := by
  have hleast := earliestComboCooldown_earliest health comboId now targets
  rw [h] at hleast
  obtain ⟨⟨target, -, hlt, -⟩, -⟩ := hleast
  exact hlt

end Earliest

section Wait

variable {world : ℤ → World} {comboId : String} {options : WaitOptions}

/-! ## One pick -/

variable {clock : ℤ} {eligible : NormalizedComboTarget → Bool} {parked : Bool}

variable {table table' : SelectionTable} {pick : ComboPick}

theorem pickAt_some
    (h : pickAt world comboId options eligible clock parked table = .ok (some pick, table')) :
    ∃ combo, getCombo (world clock).config comboId = some combo ∧ pick.target ∈ combo.targets ∧
      selectable (world clock).config (world clock).health comboId
        (pickOptions options eligible clock parked) pick.target = true := by
  rw [pickAt] at h
  split at h
  · cases h
  rename_i hpick
  obtain rfl := Except.ok.inj h
  obtain ⟨combo, hcombo, hmem, hs, -⟩ := pickComboTarget_spec hpick
  exact ⟨combo, hcombo, hmem, hs⟩

variable {target : NormalizedComboTarget} {combo : NormalizedComboConfig}

theorem pickAt_finds (hcombo : getCombo (world clock).config comboId = some combo)
    (hmem : target ∈ combo.targets)
    (hs : selectable (world clock).config (world clock).health comboId
      (pickOptions options eligible clock parked) target = true) (table : SelectionTable) :
    ∃ pick table',
      pickAt world comboId options eligible clock parked table = .ok (some pick, table') := by
  have hf := chosenIndex_finds (world clock).config (world clock).health comboId
    (pickOptions options eligible clock parked) combo table (world clock).draw
  cases hc : (chosenIndex (world clock).config (world clock).health comboId
      (pickOptions options eligible clock parked) combo table (world clock).draw).1 with
  | none =>
    rw [hc] at hf
    exact absurd (hf target hmem) (by rw [hs]; simp)
  | some i =>
    rw [hc] at hf
    obtain ⟨t, ht, -⟩ := hf
    simp only [pickAt, pickComboTarget, hcombo, hc, bind_some, ht, map_some]
    exact ⟨_, _, rfl⟩

variable {config : OcxConfig} {health : Health}

theorem selectable_congr {eligible' : NormalizedComboTarget → Bool}
    (h : eligible target = eligible' target) :
    selectable config health comboId (pickOptions options eligible clock parked) target =
      selectable config health comboId (pickOptions options eligible' clock parked) target := by
  have hr : routable config (pickOptions options eligible clock parked) target =
      routable config (pickOptions options eligible' clock parked) target := by
    simp only [routable, pickOptions, h]
  rw [selectable, selectable, rankOf, rankOf, hr]
  rfl

theorem selectable_eligible
    (h : selectable config health comboId (pickOptions options eligible clock parked) target = true) :
    eligible target = true := by
  by_contra hno
  rw [Bool.not_eq_true] at hno
  have hout : routable config (pickOptions options eligible clock parked) target = false := by
    rw [routable]
    simp only [pickOptions, hno, Bool.and_false]
  rw [selectable, rankOf, hout] at h
  nomatch h

/-! ## A normal target that is ready -/

/-- At that time of the clock some normal target of the combo is not cooling and may be picked. -/
def NormalReady (world : ℤ → World) (comboId : String) (options : WaitOptions) (clock : ℤ) : Prop :=
  ∃ combo, getCombo (world clock).config comboId = some combo ∧
    ∃ target ∈ combo.targets, target.lastResort = false ∧
      isComboTargetInCooldown (world clock).health comboId target clock = false ∧
      selectable (world clock).config (world clock).health comboId
        (pickOptions options (options.eligible clock) clock false) target = true

/-- A pick among the normal targets, as the deferral makes it. -/
def normalPickAt (world : ℤ → World) (comboId : String) (options : WaitOptions) (clock : ℤ)
    (table : SelectionTable) : Except WaitError (Option ComboPick × SelectionTable) :=
  pickAt world comboId options
    (fun target ↦ !target.lastResort && eligibleAt world comboId options clock target) clock false table

theorem normalPickAt_normal
    (h : normalPickAt world comboId options clock table = .ok (some pick, table')) :
    pick.target.lastResort = false := by
  obtain ⟨combo, -, -, hs⟩ := pickAt_some h
  have he := selectable_eligible hs
  rw [Bool.and_eq_true, Bool.not_eq_true'] at he
  exact he.1

theorem normalPickAt_finds (h : NormalReady world comboId options clock) (table : SelectionTable) :
    ∃ pick table', normalPickAt world comboId options clock table = .ok (some pick, table') := by
  obtain ⟨combo, hcombo, target, hmem, hnormal, hcool, hs⟩ := h
  refine pickAt_finds hcombo hmem ?_ table
  rw [← hs]
  refine selectable_congr ?_
  rw [hnormal, Bool.not_false, Bool.true_and, eligibleAt, hcool, Bool.not_false, Bool.true_and]

/-! ## The budget -/

/-- What the deferral has slept. -/
def Deferral.slept : Deferral → List ℤ
  | .settled waited => waited.slept
  | .fallThrough slept _ => slept

/-- The sleeps of a call keep the budget: each of them takes time, and together they fit in it. -/
structure WithinBudget (options : WaitOptions) (slept : List ℤ) : Prop where
  ahead : ∀ ms ∈ slept, 0 < ms
  total : slept.sum ≤ options.waitForCooldownMs

theorem WithinBudget.nil : WithinBudget options [] where
  ahead := nofun
  total := by rw [sum_nil]; exact Int.natCast_nonneg _

variable {slept : List ℤ}

theorem WithinBudget.concat (h : WithinBudget options slept) {ms : ℤ} (hahead : 0 < ms)
    (hleft : ms ≤ options.waitForCooldownMs - slept.sum) :
    WithinBudget options (slept ++ [ms]) where
  ahead := by
    intro ms' hms'
    rcases mem_append.mp hms' with hms' | hms'
    · exact h.ahead ms' hms'
    · rw [mem_singleton.mp hms']
      exact hahead
  total := by
    rw [sum_append, sum_singleton]
    omega

theorem deferLastResort_slept (combo : NormalizedComboConfig) :
    WithinBudget options (deferLastResort world comboId options combo).slept := by
  rw [deferLastResort]
  simp only
  split
  · exact .nil
  · exact .nil
  · split
    · exact .nil
    · rename_i expiry _ hfound
      by_cases hlong : (options.waitForCooldownMs : ℤ) < expiry - options.now
      · rw [if_pos hlong]
        exact .nil
      · rw [if_neg hlong]
        have hahead : 0 < expiry - options.now := by
          have hlt : options.now < expiry := earliestComboCooldown_ahead hfound
          omega
        have hone : WithinBudget options [expiry - options.now] := by
          refine WithinBudget.nil.concat hahead ?_
          rw [sum_nil]
          omega
        split
        · exact hone
        · split <;> exact hone

theorem ordinarySelection_slept (h : WithinBudget options slept) (table : SelectionTable) :
    WithinBudget options (ordinarySelection world comboId options slept table).slept := by
  rw [ordinarySelection]
  simp only
  split
  · exact h
  · exact h
  · split
    · exact h
    · split
      · exact h
      · split
        · exact h
        · rename_i expiry _ hfound
          by_cases hlong : (options.waitForCooldownMs : ℤ) - slept.sum <
              expiry - (options.now + slept.sum)
          · rw [if_pos hlong]
            exact h
          · rw [if_neg hlong]
            have hahead : 0 < expiry - (options.now + slept.sum) := by
              have hlt : options.now + slept.sum < expiry := earliestComboCooldown_ahead hfound
              omega
            have hmore := h.concat hahead (not_lt.mp hlong)
            split <;> exact hmore

theorem deferralStage_slept : WithinBudget options (deferralStage world comboId options).slept := by
  rw [deferralStage]
  split
  · exact .nil
  · split
    · exact deferLastResort_slept _
    · exact .nil

theorem pickComboTargetWithWait_slept :
    WithinBudget options (pickComboTargetWithWait world comboId options).slept := by
  have hstage : WithinBudget options (deferralStage world comboId options).slept :=
    deferralStage_slept
  rw [pickComboTargetWithWait]
  cases h : deferralStage world comboId options with
  | settled waited => rw [h] at hstage; exact hstage
  | fallThrough slept table => rw [h] at hstage; exact ordinarySelection_slept hstage table

/-! ## The last resort -/

theorem pickComboTargetWithWait_deferred
    (hcombo : getCombo (world options.now).config comboId = some combo)
    (hdefers : defersLastResort combo = true) (hlive : (world options.now).aborted = false)
    {waited : Waited} (h : deferLastResort world comboId options combo = .settled waited) :
    pickComboTargetWithWait world comboId options = waited := by
  simp only [pickComboTargetWithWait, deferralStage, hcombo, hdefers, hlive, Bool.not_false,
    Bool.and_self, if_true, h]

theorem deferLastResort_ready (combo : NormalizedComboConfig)
    (h : NormalReady world comboId options options.now) :
    ∃ pick, deferLastResort world comboId options combo = .settled ⟨[], .ok (some pick)⟩ ∧
      pick.target.lastResort = false := by
  obtain ⟨pick, table', hpick⟩ := normalPickAt_finds h (world options.now).table
  refine ⟨pick, ?_, normalPickAt_normal hpick⟩
  rw [normalPickAt] at hpick
  rw [deferLastResort]
  simp only [hpick]

/-- The normal target that is back soonest is waited for, and what the pick after the wait finds is
normal. -/
theorem deferLastResort_waits (combo : NormalizedComboConfig) {expiry : ℤ}
    (hleast : IsLeast (expiries (world options.now).health comboId options.now
      (deferralTargets world comboId options combo)) expiry)
    (hbudget : expiry - options.now ≤ options.waitForCooldownMs)
    (h : NormalReady world comboId options expiry) :
    ∃ waited, deferLastResort world comboId options combo = .settled waited ∧
      ∀ pick, waited.outcome = .ok (some pick) → pick.target.lastResort = false := by
  have hclock : options.now + (expiry - options.now) = expiry := by omega
  have hfound : ∃ target, earliestComboCooldown (world options.now).health comboId options.now
      (deferralTargets world comboId options combo) = some (expiry, target) := by
    have hspec := earliestComboCooldown_earliest (world options.now).health comboId options.now
      (deferralTargets world comboId options combo)
    cases hf : earliestComboCooldown (world options.now).health comboId options.now
        (deferralTargets world comboId options combo) with
    | none =>
      rw [hf] at hspec
      have hempty : expiries (world options.now).health comboId options.now
          (deferralTargets world comboId options combo) = ∅ := hspec
      exact absurd hleast.1 (by rw [hempty]; exact Set.notMem_empty expiry)
    | some found =>
      rw [hf] at hspec
      refine ⟨found.2, ?_⟩
      rw [← IsLeast.unique (show IsLeast _ found.1 from hspec) hleast]
  obtain ⟨target, hearliest⟩ := hfound
  obtain ⟨pick₁, table₁, hpick₁⟩ := normalPickAt_finds h (world expiry).table
  have hnormal₁ := normalPickAt_normal hpick₁
  rw [deferLastResort]
  simp only
  split
  · exact ⟨_, rfl, nofun⟩
  · rename_i pick₀ table₀ hpick₀
    refine ⟨_, rfl, fun pick hp ↦ ?_⟩
    rw [← some_inj.mp (Except.ok.inj hp)]
    exact normalPickAt_normal hpick₀
  · rw [hearliest]
    simp only
    rw [if_neg (not_lt.mpr hbudget), hclock]
    cases hexit : afterSleep comboId (world expiry) with
    | some outcome =>
      refine ⟨_, rfl, fun pick hp ↦ ?_⟩
      rw [afterSleep] at hexit
      split at hexit
      · rw [← some_inj.mp hexit] at hp
        nomatch hp
      · split at hexit
        · rw [← some_inj.mp hexit] at hp
          nomatch hp
        · split at hexit
          · rw [← some_inj.mp hexit] at hp
            nomatch hp
          · nomatch hexit
    | none =>
      rw [normalPickAt] at hpick₁
      simp only [hpick₁]
      refine ⟨_, rfl, fun pick hp ↦ ?_⟩
      rw [← some_inj.mp (Except.ok.inj hp)]
      exact hnormal₁

theorem defersLastResort_of_waits (hpolicy : combo.cooldownWaitPolicy = some .beforeLastResort)
    (hmem : target ∈ combo.targets) (hnormal : target.lastResort = false) :
    defersLastResort combo = true := by
  rw [defersLastResort, Bool.and_eq_true, decide_eq_true_eq]
  refine ⟨hpolicy, List.any_eq_true.mpr ⟨target, hmem, ?_⟩⟩
  rw [hnormal, Bool.not_false]

end Wait

/-- **A call keeps its budget and the policy.**  Whatever the worlds it wakes in, each of its sleeps
takes time and together they fit in the budget.  Under the policy, and unless the request was aborted
before the call, it picks no last-resort target where a normal one is ready at once, or where the
normal target that is back soonest can be waited out and some normal target is ready then. -/
theorem wait_within_budget_and_policy (world : ℤ → World) (comboId : String)
    (options : WaitOptions) :
    ((∀ ms ∈ (pickComboTargetWithWait world comboId options).slept, 0 < ms) ∧
      (pickComboTargetWithWait world comboId options).slept.sum ≤ options.waitForCooldownMs) ∧
    ∀ combo, getCombo (world options.now).config comboId = some combo →
      combo.cooldownWaitPolicy = some .beforeLastResort → (world options.now).aborted = false →
      (NormalReady world comboId options options.now ∨
        ∃ expiry, IsLeast (expiries (world options.now).health comboId options.now
            (deferralTargets world comboId options combo)) expiry ∧
          expiry - options.now ≤ options.waitForCooldownMs ∧
          NormalReady world comboId options expiry) →
      ∀ pick, (pickComboTargetWithWait world comboId options).outcome = .ok (some pick) →
        pick.target.lastResort = false := by
  have hslept : WithinBudget options (pickComboTargetWithWait world comboId options).slept :=
    pickComboTargetWithWait_slept
  refine ⟨⟨hslept.ahead, hslept.total⟩, ?_⟩
  intro combo hcombo hpolicy hlive hready pick hpick
  rcases hready with hready | ⟨expiry, hleast, hbudget, hready⟩
  · obtain ⟨combo', hcombo', target, hmem, hnormal, -⟩ := id hready
    obtain rfl : combo = combo' := some_inj.mp (hcombo.symm.trans hcombo')
    obtain ⟨pick', hsettled, hnormal'⟩ := deferLastResort_ready combo hready
    rw [pickComboTargetWithWait_deferred hcombo (defersLastResort_of_waits hpolicy hmem hnormal)
      hlive hsettled] at hpick
    rw [← some_inj.mp (Except.ok.inj hpick)]
    exact hnormal'
  · obtain ⟨target, hwaits, -⟩ := id hleast.1
    obtain ⟨hmem, hwaits⟩ := mem_filter.mp hwaits
    rw [Bool.and_eq_true, Bool.not_eq_true'] at hwaits
    obtain ⟨waited, hsettled, hnormal⟩ := deferLastResort_waits combo hleast hbudget hready
    rw [pickComboTargetWithWait_deferred hcombo (defersLastResort_of_waits hpolicy hmem hwaits.1)
      hlive hsettled] at hpick
    exact hnormal pick hpick

def emergencyTarget : NormalizedComboTarget := { plainTarget "c" with lastResort := true }

def deferringCombo (targets : List NormalizedComboTarget)
    (h : (targets.map targetKey).Nodup) : NormalizedComboConfig where
  strategy := .failover
  targets := targets
  keys_nodup := h
  cooldownWaitPolicy := some .beforeLastResort

def deferringConfig (combo : NormalizedComboConfig) : OcxConfig :=
  ⟨((OMap.empty.set "a" ⟨false⟩).set "b" ⟨false⟩).set "c" ⟨false⟩, OMap.empty.set "main" combo⟩

/-- Targets `a` and `b` are cooling down until those times. -/
def coolingUntil (a b : ℤ) : Health :=
  { quietHealth with
    targetCooldowns :=
      (OMap.empty.set (cooldownMapKey "main" (plainTarget "a")) ⟨a, false⟩).set
        (cooldownMapKey "main" (plainTarget "b")) ⟨b, false⟩ }

def tenMs : WaitOptions := ⟨[], fun _ _ ↦ true, 10, 0, false⟩

/-- Two normal targets and one of last resort. -/
def threeTargets : NormalizedComboConfig :=
  deferringCombo [plainTarget "a", plainTarget "b", emergencyTarget] (by decide +kernel)

/-- `a` is back after three milliseconds, `b` after five. -/
def quietWorld (_ : ℤ) : World :=
  ⟨deferringConfig threeTargets, coolingUntil 3 5, .empty, 0, 0, false, false⟩

/-- `a` fails again for another request while this one sleeps. -/
def failingWorld (clock : ℤ) : World :=
  ⟨deferringConfig threeTargets, coolingUntil (if clock < 3 then 3 else 100) 5, .empty, 0, 0, false,
    false⟩

/-- The combo lists its last resort first, and the request is aborted before the call. -/
def abortedWorld (_ : ℤ) : World :=
  ⟨deferringConfig (deferringCombo [emergencyTarget, plainTarget "a"] (by decide +kernel)),
    quietHealth, .empty, 0, 0, true, false⟩

/-- Nothing happens during the sleep: `a` is waited for, and taken. -/
theorem wait_keeps_policy_quiet :
    ∃ pick, (pickComboTargetWithWait quietWorld "main" tenMs).outcome = .ok (some pick) ∧
      pick.target.lastResort = false := by
  refine ⟨_, rfl, ?_⟩
  refine (wait_within_budget_and_policy quietWorld "main" tenMs).2 threeTargets rfl rfl rfl
    (.inr ⟨3, ⟨⟨plainTarget "a", by decide +kernel, by decide, _, rfl, rfl⟩, ?_⟩, by decide,
      threeTargets, rfl, plainTarget "a", by decide +kernel, rfl, by decide +kernel,
      by decide +kernel⟩) _ rfl
  -- nothing the deferral may wait for is back before
  rintro expiry ⟨target, hwaits, hlt, entry, hget, rfl⟩
  have hall : ∀ target ∈ threeTargets.targets,
      ((coolingUntil 3 5).targetCooldowns.get? (cooldownMapKey "main" target)).all
        (fun entry ↦ decide (3 ≤ entry.cooldownUntil)) = true := by decide +kernel
  have hthree := hall target (mem_of_mem_filter hwaits)
  have hget' : (coolingUntil 3 5).targetCooldowns.get? (cooldownMapKey "main" target) =
    some entry := hget
  rw [hget', all_some, decide_eq_true_eq] at hthree
  exact hthree

/-- **Only the first of the normal targets is waited for, and an aborted request defers nothing.**
In the first run `b` is back after five of the ten milliseconds and may be picked then, but `a`, which
was to be back sooner, fails again during the sleep, and the last resort is picked.  In the second a
normal target is ready at once, but the request was aborted before the call. -/
theorem last_resort_before_ready_target :
    (waitingAt failingWorld "main" tenMs 0 (plainTarget "b") = true ∧
      NormalReady failingWorld "main" tenMs 5 ∧
      ∃ pick, (pickComboTargetWithWait failingWorld "main" tenMs).outcome = .ok (some pick) ∧
        pick.target.lastResort = true) ∧ (NormalReady abortedWorld "main" tenMs 0 ∧
      ∃ pick, (pickComboTargetWithWait abortedWorld "main" tenMs).outcome = .ok (some pick) ∧
        pick.target.lastResort = true) := by
  refine ⟨⟨by decide +kernel, ⟨threeTargets, rfl, plainTarget "b", by decide +kernel, rfl,
    by decide +kernel, by decide +kernel⟩, _, rfl, rfl⟩,
    ⟨_, rfl, plainTarget "a", by decide +kernel, rfl, by decide +kernel, by decide +kernel⟩,
    _, rfl, rfl⟩

end Combo
