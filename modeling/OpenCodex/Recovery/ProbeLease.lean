import OpenCodex.Data.OMap
import Mathlib.Data.List.Sort
import Mathlib.Data.Rat.Floor

/-!
# Trials of a held account

An account that fails is held: its threads keep their binding, but requests go elsewhere.  Whether
it is back is found out by a trial, one request that is let through under a lease.  The lease has a
number that never comes back, an epoch that every grant and every invalidation advances, and a
deadline; whoever answers with a lease whose number or epoch is not the recorded one changes nothing.

What is remembered of an account outlives its lease, so that trials are spaced, and a sweep on the
granting path keeps the accounts that are remembered bounded.  Above the leases stands a limiter for
the whole pool: trials and retries together may be only a share of the initial sends in a sliding
window of buckets.
-/

set_option autoImplicit false

namespace Recovery

abbrev AccountId := String

def transientProbeLeaseMs : ℤ := 30000
def transientProbeIntervalMs : ℤ := 15000
def probeStateRetentionMs : ℤ := 60000
def maxTransientProbeStates : ℕ := 1024
def probeStateSweepThreshold : ℕ := 64
/-- Nine tenths of the ceiling, rounded down. -/
def probeStateEvictionLowWater : ℕ := maxTransientProbeStates * 9 / 10

structure TransientProbeLease where
  accountId : AccountId
  leaseId : ℕ
  /-- The epoch the lease was issued under. -/
  generation : ℕ
  expiresAt : ℤ
  deriving DecidableEq

inductive TransientProbeOutcome where
  | recovered
  | failed
  deriving DecidableEq

/-- What a settle did. -/
inductive TransientProbeSettle where
  | applied
  | stale
  | expired
  deriving DecidableEq

structure AccountProbeState where
  generation : ℕ
  leaseId : Option ℕ
  leaseExpiresAt : Option ℤ
  lastProbeAt : Option ℤ
  /-- When the interval lapses that the last grant used. -/
  pacedUntil : Option ℤ
  lastOutcome : Option TransientProbeOutcome
  deriving DecidableEq

namespace AccountProbeState

def fresh : AccountProbeState := ⟨0, none, none, none, none, none⟩

variable (state : AccountProbeState) (now : ℤ)

def liveLease : Bool := state.leaseId.isSome && state.leaseExpiresAt.any fun at' ↦ decide (now < at')

/-- When the entry stops carrying anything a decision can read. -/
def retiresAt : ℤ :=
  max (state.pacedUntil.getD 0) (state.leaseExpiresAt.getD 0) + probeStateRetentionMs

/-- Has the interval since the last trial passed? -/
def paced (minIntervalMs : ℤ) : Bool :=
  state.lastProbeAt.all fun last ↦ decide (minIntervalMs ≤ now - last)

/-- No lease, whatever there was. -/
def withoutLease : AccountProbeState := { state with leaseId := none, leaseExpiresAt := none }

end AccountProbeState

/-- What is remembered of the accounts that were tried. -/
structure ProbeStates where
  states : OMap AccountId AccountProbeState
  probeLeaseSeq : ℕ
  deriving DecidableEq

/-- What a caller may ask of a trial. -/
structure ProbeOptions where
  leaseMs : Option ℤ
  minIntervalMs : Option ℤ
  deriving DecidableEq

def ProbeOptions.interval (options : ProbeOptions) : ℤ :=
  options.minIntervalMs.getD transientProbeIntervalMs

namespace ProbeStates

variable (p : ProbeStates)

def empty : ProbeStates := ⟨.empty, 0⟩

/-- Forget the entries that can no longer change an answer, and above the ceiling those that retire
first; never one with a live lease. -/
def sweep (now : ℤ) (states : OMap AccountId AccountProbeState) :
    OMap AccountId AccountProbeState :=
  if states.size ≤ probeStateSweepThreshold then states
  else
    let kept := states.filter fun _ state ↦ state.liveLease now || decide (now < state.retiresAt)
    if kept.size ≤ maxTransientProbeStates then kept
    else
      let evictable := (kept.entries.filter fun entry ↦ !entry.2.liveLease now).insertionSort
        fun a b ↦ a.2.retiresAt ≤ b.2.retiresAt
      (evictable.take (kept.size - probeStateEvictionLowWater)).foldl
        (fun states entry ↦ states.delete entry.1) kept

/-- The only trial of a held account that may be under way, if it may begin. -/
def tryAcquireTransientProbe (accountId : AccountId) (now : ℤ) (options : ProbeOptions) :
    ProbeStates × Option TransientProbeLease :=
  let state := (p.states.get? accountId).getD .fresh
  if state.liveLease now then (p, none)
  else if !state.paced now options.interval then (p, none)
  else
    let leaseId := p.probeLeaseSeq + 1
    let expiresAt := now + max 1 (options.leaseMs.getD transientProbeLeaseMs)
    let granted : AccountProbeState :=
      { state with
        generation := state.generation + 1
        leaseId := some leaseId
        leaseExpiresAt := some expiresAt
        lastProbeAt := some now
        pacedUntil := some (now + max 0 options.interval) }
    (⟨sweep now (p.states.set accountId granted), leaseId⟩,
      some ⟨accountId, leaseId, state.generation + 1, expiresAt⟩)

/-- Could a trial begin? -/
def canAcquireTransientProbe (accountId : AccountId) (now : ℤ) (options : ProbeOptions) : Bool :=
  (p.states.get? accountId).all fun state ↦
    !state.liveLease now && state.paced now options.interval

/-- The entry a lease is recorded in, if it is the recorded one. -/
def holder (lease : TransientProbeLease) : Option AccountProbeState :=
  (p.states.get? lease.accountId).filter fun state ↦
    state.leaseId == some lease.leaseId && state.generation == lease.generation

/-- Write the entry of an account. -/
def put (accountId : AccountId) (state : AccountProbeState) : ProbeStates :=
  ⟨p.states.set accountId state, p.probeLeaseSeq⟩

/-- The outcome of a trial.  Only the recorded lease, inside its deadline, applies. -/
def settleTransientProbe (lease : TransientProbeLease) (outcome : TransientProbeOutcome) (now : ℤ) :
    ProbeStates × TransientProbeSettle :=
  match p.holder lease with
  | none => (p, .stale)
  | some state =>
    if lease.expiresAt ≤ now then (p, .expired)
    else
      (p.put lease.accountId { state.withoutLease with lastOutcome := some outcome }, .applied)

/-- Hand a lease back without an outcome. -/
def releaseTransientProbe (lease : TransientProbeLease) : ProbeStates :=
  match p.holder lease with
  | none => p
  | some state => p.put lease.accountId state.withoutLease

/-- Burn the epoch of an account: every lease of it is stale from now on. -/
def invalidateTransientProbe (accountId : AccountId) : ProbeStates :=
  match p.states.get? accountId with
  | none => p
  | some state =>
    p.put accountId { state.withoutLease with generation := state.generation + 1 }

/-- The earliest moment a trial could begin. -/
def nextProbeAt (accountId : AccountId) (now : ℤ) (options : ProbeOptions) : ℤ :=
  match p.states.get? accountId with
  | none => now
  | some state =>
    let paced := (state.lastProbeAt.map (· + options.interval)).getD now
    let leased := if state.liveLease now then state.leaseExpiresAt.getD now else now
    max paced leased

end ProbeStates

/-! ## The limiter of the pool -/

structure PoolBackpressurePolicy where
  windowMs : ℕ
  /-- Recoveries admitted for each initial send. -/
  maxRetryRatio : ℚ
  minRecoveryAllowance : ℕ

def defaultPoolBackpressurePolicy : PoolBackpressurePolicy := ⟨10000, 1 / 5, 3⟩

structure Bucket where
  start : ℤ
  initials : ℕ
  recoveries : ℕ
  deriving DecidableEq

structure PoolBackpressureLimiter where
  policy : PoolBackpressurePolicy
  /-- Oldest first. -/
  buckets : List Bucket
  refusedTotal : ℕ

namespace PoolBackpressureLimiter

variable (limiter : PoolBackpressureLimiter) (now : ℤ)

def create (policy : PoolBackpressurePolicy) : PoolBackpressureLimiter := ⟨policy, [], 0⟩

def bucketMs : ℤ := max 1 (limiter.policy.windowMs / 10 : ℕ)

def startOf : ℤ := now / limiter.bucketMs * limiter.bucketMs

/-- The buckets, the last of which is the one for this moment. -/
def bucketFor : List Bucket :=
  if limiter.buckets.getLast?.any fun last ↦ last.start == limiter.startOf now then limiter.buckets
  else
    (limiter.buckets.dropWhile fun bucket ↦
      decide (bucket.start ≤ limiter.startOf now - limiter.policy.windowMs)) ++
        [⟨limiter.startOf now, 0, 0⟩]

/-- Count something in the last bucket. -/
def charge (f : Bucket → Bucket) (buckets : List Bucket) : List Bucket :=
  buckets.dropLast ++ buckets.getLast?.toList.map f

/-- The buckets inside the window. -/
def inWindow (buckets : List Bucket) : List Bucket :=
  buckets.filter fun bucket ↦ decide (now - limiter.policy.windowMs < bucket.start)

def allowanceFor (initials : ℕ) : ℕ :=
  max limiter.policy.minRecoveryAllowance ⌊initials * limiter.policy.maxRetryRatio⌋.toNat

/-- Is the allowance spent? -/
def spent (buckets : List Bucket) : Bool :=
  let window := limiter.inWindow now buckets
  decide (limiter.allowanceFor (window.map (·.initials)).sum <
    (window.map (·.recoveries)).sum + 1)

def recordInitialSend : PoolBackpressureLimiter :=
  let buckets := limiter.bucketFor now
  { limiter with buckets := charge (fun b ↦ { b with initials := b.initials + 1 }) buckets }

/-- Admit a retry or a trial, unless the allowance is spent. -/
def tryPermit : PoolBackpressureLimiter × Bool :=
  let buckets := limiter.bucketFor now
  if limiter.spent now buckets then
    ({ limiter with buckets, refusedTotal := limiter.refusedTotal + 1 }, false)
  else
    ({ limiter with
      buckets := charge (fun b ↦ { b with recoveries := b.recoveries + 1 }) buckets }, true)

/-- The earliest moment another recovery could be admitted. -/
def nextRecoveryAt : ℤ :=
  if !limiter.spent now limiter.buckets then now
  else
    match limiter.inWindow now limiter.buckets with
    | [] => now + limiter.policy.windowMs
    | bucket :: _ => bucket.start + limiter.policy.windowMs

end PoolBackpressureLimiter

/-! ## A request that is bound to a held account -/

/-- The leases and the limiter all trials share. -/
structure RecoveryState where
  probes : ProbeStates
  limiter : PoolBackpressureLimiter

inductive HeldAccountDispatch where
  | probe (lease : TransientProbeLease)
  | detour (accountId : AccountId)
  | withheld (boundAccountId : AccountId) (detourAccountId : Option AccountId) (retryAt : ℤ)
  deriving DecidableEq

/-- The trial is tried first; who does not get it keeps the detour, or waits. -/
def resolveHeldAccountDispatch (s : RecoveryState) (boundAccountId : AccountId)
    (detourAccountId : Option AccountId) (now : ℤ) (options : ProbeOptions) :
    RecoveryState × HeldAccountDispatch :=
  let eligible := s.probes.canAcquireTransientProbe boundAccountId now options
  let permitted := if eligible then s.limiter.tryPermit now else (s.limiter, false)
  let acquired := if permitted.2 then s.probes.tryAcquireTransientProbe boundAccountId now options
    else (s.probes, none)
  let s' : RecoveryState := ⟨acquired.1, permitted.1⟩
  match acquired.2 with
  | some lease => (s', .probe lease)
  | none =>
    match detourAccountId.filter (· ≠ boundAccountId) with
    | some detour => (s', .detour detour)
    | none => (s', .withheld boundAccountId detourAccountId
        (max (s'.probes.nextProbeAt boundAccountId now options) (s'.limiter.nextRecoveryAt now)))

/-! ## Answers that name a trial -/

/-- How an answer of the upstream is classed. -/
inductive CodexUpstreamOutcomeClass where
  | success
  | credential
  | workspace
  | quota
  | transient
  | caller
  | neutral
  | unknown
  deriving DecidableEq

/-- A trial, and the generation of the credential it was granted for. -/
structure TransientProbeGrant where
  lease : TransientProbeLease
  affinityGeneration : ℕ
  deriving DecidableEq

def mainCodexAccountId : AccountId := "__main__"

/-- Does the credential a trial was granted for still exist at that generation?  What the account
store says of the accounts it has is a parameter. -/
def transientProbeCredentialLive (isCodexAccountGenerationLive : AccountId → ℕ → Bool)
    (accountId : AccountId) (generation : ℕ) : Bool :=
  if accountId = mainCodexAccountId then generation == 0
  else isCodexAccountGenerationLive accountId generation

/-- Conclude the trial a request was holding, by the class of its answer. -/
def ProbeStates.settleTransientProbeForOutcome (p : ProbeStates)
    (isCodexAccountGenerationLive : AccountId → ℕ → Bool) (accountId : AccountId)
    (grant : Option TransientProbeGrant) (outcomeClass : CodexUpstreamOutcomeClass) (now : ℤ) :
    ProbeStates :=
  match grant with
  | none => p
  | some grant =>
    if !transientProbeCredentialLive isCodexAccountGenerationLive accountId
        grant.affinityGeneration then
      p.invalidateTransientProbe accountId
    else
      match outcomeClass with
      | .neutral | .caller | .unknown => p.releaseTransientProbe grant.lease
      | .success => (p.settleTransientProbe grant.lease .recovered now).1
      | .credential | .workspace | .quota | .transient =>
        (p.settleTransientProbe grant.lease .failed now).1

end Recovery
