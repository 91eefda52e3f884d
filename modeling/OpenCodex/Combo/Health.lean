import OpenCodex.Combo.Hold
import Mathlib.Algebra.Order.Ring.Rat
import Mathlib.Data.List.Infix
import Mathlib.Order.WithBot

/-!
# Targets and their health

A combo is a list of targets and a strategy.  Before a strategy looks at a target, the picker ranks
it: `rankOf` puts together nine reports about the target's health — the provider's hold, the
target's breaker and cooldown, a quality hold, the site's own verdicts, a recent stall, the quota —
into one of three tiers, `0` healthy, `1` demoted, `2` breaker open, or into none where the target
may not be picked at all.

`Health` is the state those reports are read from.  What other modules compute from files and
upstream answers (the quality verdict, the panel's verdicts, the cached routing quota) is read
through functions of the provider and the time.  The combo tables drop an entry they find expired;
an expired entry is one that no report counts, so the tables are only read here.
-/

set_option autoImplicit false

namespace Combo

/-! ## Configuration -/

/-- A provider's configuration, as far as the picker reads it. -/
structure OcxProvider where
  disabled : Bool
  deriving DecidableEq

/-- A combo target after normalization.  The loader refuses a weight outside `1..10000`. -/
structure NormalizedComboTarget where
  provider : String
  model : String
  weight : ℕ
  lastResort : Bool
  metered : Bool
  weight_pos : 0 < weight
  deriving DecidableEq

/-- The name a target goes by in every table. -/
def targetKey (target : NormalizedComboTarget) : String := target.provider ++ "/" ++ target.model

inductive OcxComboStrategy where
  | failover
  | roundRobin
  | random
  | leastUsed
  | resetWindow
  | jev
  deriving DecidableEq

inductive OcxComboCooldownWaitPolicy where
  | beforeLastResort
  deriving DecidableEq

/-- A combo after normalization.  The loader refuses two targets of one name. -/
structure NormalizedComboConfig where
  strategy : OcxComboStrategy
  targets : List NormalizedComboTarget
  keys_nodup : (targets.map targetKey).Nodup
  /-- Successes that round-robin spends on one target before it moves on. -/
  stickyLimit : ℕ := 1
  breakerFailureThreshold : Option ℕ := none
  breakerSuccessThreshold : Option ℕ := none
  breakerOpenMs : Option ℕ := none
  /-- Defer last-resort targets while a normal one can be waited out. -/
  cooldownWaitPolicy : Option OcxComboCooldownWaitPolicy := none

structure OcxConfig where
  providers : OMap String OcxProvider
  /-- The combos, in their normalized form. -/
  combos : OMap String NormalizedComboConfig

def getCombo (config : OcxConfig) (id : String) : Option NormalizedComboConfig :=
  config.combos.get? id

/-! ## Quota -/

/-- A quota window.  Percentages and reset times that are absent or not finite count for nothing,
so both are `none`. -/
structure ProviderQuotaWindow where
  label : String
  percent : Option ℚ
  resetAt : Option ℤ
  modelId : Option String
  /-- The producer proved that the window covers one model family. -/
  scopeModel : Bool

structure ProviderQuotaCreditsUsd where
  remaining : ℚ
  percent : Option ℚ
  unlimited : Bool

structure ProviderQuota where
  fiveHourPercent : Option ℚ
  fiveHourResetAt : Option ℤ
  weeklyPercent : Option ℚ
  weeklyResetAt : Option ℤ
  monthlyPercent : Option ℚ
  monthlyResetAt : Option ℤ
  customWindows : List ProviderQuotaWindow
  creditsUsd : Option ProviderQuotaCreditsUsd

/-- A full window is exhausted until its reset; without a known reset it stays so. -/
def quotaWindowExhausted (percent : Option ℚ) (resetAt : Option ℤ) (now : ℤ) : Bool :=
  percent.any (fun p ↦ decide (100 ≤ p)) && resetAt.all fun t ↦ decide (now < t)

def modelFamilyWindowLabels : List String := ["fable", "opus", "sonnet"]

/-- The characters `String.prototype.trim` strips. -/
def isJsWhitespace (c : Char) : Bool :=
  (9 ≤ c.toNat && c.toNat ≤ 13) || (0x2000 ≤ c.toNat && c.toNat ≤ 0x200A) ||
    [0x20, 0xA0, 0x1680, 0x2028, 0x2029, 0x202F, 0x205F, 0x3000, 0xFEFF].contains c.toNat

def jsTrim (s : List Char) : List Char :=
  ((s.dropWhile isJsWhitespace).reverse.dropWhile isJsWhitespace).reverse

/-- A window with a proved model scope counts only for models of its family; every other one counts
for all of them, except exact model readings, which are never evidence. -/
def customWindowAppliesToModel (window : ProviderQuotaWindow) (model : Option String) : Bool :=
  if window.modelId.isSome then false
  else match model with
  | none => true
  | some model =>
    if !window.scopeModel then true
    else
      let family := (jsTrim window.label.toList).map Char.toLower
      if !(modelFamilyWindowLabels.map String.toList).contains family then true
      else decide (family <:+: model.toList.map Char.toLower)

def cachedProviderQuotaIsExhausted (quota : Option ProviderQuota) (now : ℤ)
    (model : Option String) : Bool :=
  match quota with
  | none => false
  | some q =>
    quotaWindowExhausted q.fiveHourPercent q.fiveHourResetAt now ||
    quotaWindowExhausted q.weeklyPercent q.weeklyResetAt now ||
    quotaWindowExhausted q.monthlyPercent q.monthlyResetAt now ||
    (q.customWindows.any fun window ↦ customWindowAppliesToModel window model &&
      quotaWindowExhausted window.percent window.resetAt now) ||
    q.creditsUsd.any fun credits ↦ !credits.unlimited &&
      credits.percent.any (fun p ↦ decide (100 ≤ p)) && decide (credits.remaining ≤ 0)

def collectResetCandidates (quota : ProviderQuota) (includeWindow : ProviderQuotaWindow → Bool) :
    List ℤ :=
  [quota.fiveHourResetAt, quota.weeklyResetAt, quota.monthlyResetAt].filterMap id ++
    (quota.customWindows.filter includeWindow).filterMap (·.resetAt)

def earliestQuotaResetAt (quota : Option ProviderQuota) (now : ℤ)
    (includeWindow : ProviderQuotaWindow → Bool) : Option ℤ :=
  quota.bind fun q ↦ ((collectResetCandidates q includeWindow).filter fun t ↦ decide (now < t)).min?

/-- Milliseconds to the nearest known reset, `⊤` where none is known. -/
def quotaResetRemainingMs (quota : Option ProviderQuota) (now : ℤ)
    (includeWindow : ProviderQuotaWindow → Bool) : WithTop ℤ :=
  match earliestQuotaResetAt quota now includeWindow with
  | none => ⊤
  | some nearest => ((nearest - now : ℤ) : WithTop ℤ)

/-! ## The tables -/

structure TargetCooldown where
  cooldownUntil : ℤ
  breakerTripped : Bool
  deriving DecidableEq

/-- Everything the picker asks about the health of a target. -/
structure Health where
  holds : Holds
  targetCooldowns : OMap String TargetCooldown
  targetStuckAt : OMap String ℤ
  /-- A probe with a verified answer judged this provider's answers wrong. -/
  providerQualityHeld : String → ℤ → Bool
  panelProviderHopeless : String → ℤ → Bool
  panelProviderDegraded : String → ℤ → Bool
  /-- The fresh quota evidence that may rank or veto the whole provider. -/
  getCachedProviderRoutingQuota : String → OcxProvider → ℤ → Option ProviderQuota

def targetStuckDeferMs : ℤ := 10 * 60000

def cooldownMapKey (comboId : String) (target : NormalizedComboTarget) : String :=
  comboId ++ "\x00" ++ targetKey target

def isComboTargetInCooldown (health : Health) (comboId : String) (target : NormalizedComboTarget)
    (now : ℤ) : Bool :=
  (health.targetCooldowns.get? (cooldownMapKey comboId target)).any fun entry ↦
    decide (now < entry.cooldownUntil)

def isComboTargetBreakerOpen (health : Health) (comboId : String) (target : NormalizedComboTarget)
    (now : ℤ) : Bool :=
  (health.targetCooldowns.get? (cooldownMapKey comboId target)).any fun entry ↦
    entry.breakerTripped && decide (now < entry.cooldownUntil)

/-- The target stalled a short while ago. -/
def comboTargetDeferred (health : Health) (comboId : String) (target : NormalizedComboTarget)
    (now : ℤ) : Bool :=
  (health.targetStuckAt.get? (cooldownMapKey comboId target)).any fun stuckAt ↦
    decide (now - stuckAt < targetStuckDeferMs)

/-- The provider is configured and enabled. -/
def targetProviderIsRoutable (config : OcxConfig) (target : NormalizedComboTarget) : Bool :=
  (config.providers.get? target.provider).any fun provider ↦ !provider.disabled

def targetProviderQuotaExhausted (config : OcxConfig) (health : Health)
    (target : NormalizedComboTarget) (now : ℤ) : Bool :=
  (config.providers.get? target.provider).any fun provider ↦
    cachedProviderQuotaIsExhausted
      (health.getCachedProviderRoutingQuota target.provider provider now) now (some target.model)

/-! ## The rank -/

/-- What a caller may ask of the picker. -/
structure PickOptions where
  exclude : List String
  eligible : NormalizedComboTarget → Bool
  now : ℤ
  /-- Inspect a round-robin choice without moving its state. -/
  preview : Bool
  /-- Let a capacity-parked row compete as a demoted one. -/
  allowCapacityParked : Bool

section Rank

variable (config : OcxConfig) (health : Health) (comboId : String) (options : PickOptions)

/-- Facts, not judgements: the provider is configured, and the caller accepts the target. -/
def routable (target : NormalizedComboTarget) : Bool :=
  targetProviderIsRoutable config target && !options.exclude.contains (targetKey target) &&
    options.eligible target

/-- The tier of a target; `none` (`-1` in the source) where it may not be picked. -/
def rankOf (target : NormalizedComboTarget) : Option ℕ :=
  if !routable config options target then none
  else
    let hold := providerHoldKind health.holds target.provider options.now
    if hold = some .capacity then if options.allowCapacityParked then some 1 else none
    else if isComboTargetBreakerOpen health comboId target options.now then some 2
    else if hold = some .failures ||
        isComboTargetInCooldown health comboId target options.now ||
        health.providerQualityHeld target.provider options.now ||
        health.panelProviderHopeless target.provider options.now ||
        health.panelProviderDegraded target.provider options.now ||
        comboTargetDeferred health comboId target options.now ||
        targetProviderQuotaExhausted config health target options.now then some 1
    else some 0

/-- The target may be picked. -/
def selectable (target : NormalizedComboTarget) : Bool :=
  (rankOf config health comboId options target).isSome

end Rank

end Combo
