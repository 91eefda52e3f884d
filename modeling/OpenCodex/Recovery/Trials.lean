import OpenCodex.Recovery.ProbeLease
import OpenCodex.Data.Machine

/-!
# One trial at a time

Every way to begin a trial, to answer one and to burn an epoch, in any order and over any number of
accounts.  Beside what the code keeps, a run keeps a record of every lease it has granted: whether
its holder has settled or released it, whether the epoch was burned since, and when an answer of it
was applied.

What the code keeps says as much as is needed of those records (`Trials`): the lease an account has
on record is the last one granted for it, and has not been spent; and an unspent lease inside its
deadline is on record.  The second half is what a grant relies on, and the sweep must not break it;
the first is why a late answer finds nothing.
-/

set_option autoImplicit false

open List Option

namespace Recovery

/-! ## The operations on what is remembered -/

namespace ProbeStates

variable {p : ProbeStates} {now : ℤ}

variable {state : AccountProbeState}

theorem holder_eq_some {lease : TransientProbeLease} :
    p.holder lease = some state ↔ p.states.get? lease.accountId = some state ∧
      state.leaseId = some lease.leaseId ∧ state.generation = lease.generation := by
  simp [holder, filter_eq_some_iff]

variable {a : AccountId} {m : OMap AccountId AccountProbeState}

variable {l : List (AccountId × AccountProbeState)}

theorem get?_of_foldl_delete
    (h : (l.foldl (fun states entry ↦ states.delete entry.1) m).get? a = some state) :
    m.get? a = some state := by
  induction l generalizing m with
  | nil => exact h
  | cons entry l ih => exact OMap.get?_of_delete (ih h)

theorem get?_foldl_delete (h : a ∉ l.map Prod.fst) :
    (l.foldl (fun states entry ↦ states.delete entry.1) m).get? a = m.get? a := by
  induction l generalizing m with
  | nil => rfl
  | cons entry l ih =>
    rw [map_cons, mem_cons, not_or] at h
    exact (ih h.2).trans (OMap.get?_delete_of_ne _ h.1)

theorem get?_of_sweep (h : (sweep now m).get? a = some state) : m.get? a = some state := by
  rw [sweep] at h
  split at h
  · exact h
  dsimp only at h
  split at h
  · exact (OMap.get?_filter.mp h).1
  · exact (OMap.get?_filter.mp (get?_of_foldl_delete h)).1

/-- **The sweep keeps a live lease.** -/
theorem get?_sweep (h : m.get? a = some state) (hlive : state.liveLease now = true) :
    (sweep now m).get? a = some state := by
  rw [sweep]
  split
  · exact h
  have hkept : (m.filter fun _ state ↦
      state.liveLease now || decide (now < state.retiresAt)).get? a = some state :=
    OMap.get?_filter.mpr ⟨h, by simp [hlive]⟩
  dsimp only
  split
  · exact hkept
  refine Eq.trans (get?_foldl_delete ?_) hkept
  intro hmem
  obtain ⟨⟨a', state'⟩, htaken, rfl⟩ := List.mem_map.mp hmem
  -- only what has no live lease is up for eviction
  have hsorted := mem_of_mem_take htaken
  rw [mem_insertionSort, mem_filter] at hsorted
  obtain ⟨hentry, hdead⟩ := hsorted
  obtain rfl := some_inj.mp (hkept.symm.trans (OMap.mem_entries.mp hentry))
  rw [hlive] at hdead
  cases hdead

/-- What a grant does: the account had no live lease, and has this one now; no other entry is
changed, and none with a live lease is forgotten. -/
structure Grants (p p' : ProbeStates) (now : ℤ) (lease : TransientProbeLease) : Prop where
  dead : ∀ state, p.states.get? lease.accountId = some state → state.liveLease now = false
  number : lease.leaseId = p.probeLeaseSeq + 1
  seq : p'.probeLeaseSeq = p.probeLeaseSeq + 1
  deadline : now < lease.expiresAt
  recorded : ∃ state, p'.states.get? lease.accountId = some state ∧
    state.leaseId = some lease.leaseId ∧ state.generation = lease.generation ∧
      state.leaseExpiresAt = some lease.expiresAt
  others : ∀ a ≠ lease.accountId, ∀ state, p'.states.get? a = some state →
    p.states.get? a = some state
  live : ∀ a ≠ lease.accountId, ∀ state, p.states.get? a = some state →
    state.liveLease now = true → p'.states.get? a = some state

theorem tryAcquire_spec (p : ProbeStates) (a : AccountId) (now : ℤ) (options : ProbeOptions) :
    (p.tryAcquireTransientProbe a now options = (p, none)) ∨ ∃ lease, lease.accountId = a ∧
        (p.tryAcquireTransientProbe a now options).2 = some lease ∧
          Grants p (p.tryAcquireTransientProbe a now options).1 now lease := by
  rw [tryAcquireTransientProbe]
  dsimp only
  split
  · exact .inl rfl
  rename_i hdead
  split
  · exact .inl rfl
  refine .inr ⟨_, rfl, rfl, ?_⟩
  generalize hgranted : ({ (p.states.get? a).getD .fresh with
    generation := ((p.states.get? a).getD .fresh).generation + 1
    leaseId := some (p.probeLeaseSeq + 1)
    leaseExpiresAt := some (now + max 1 (options.leaseMs.getD transientProbeLeaseMs))
    lastProbeAt := some now
    pacedUntil := some (now + max 0 options.interval) } : AccountProbeState) = granted
  have hdeadline : now < now + max 1 (options.leaseMs.getD transientProbeLeaseMs) := by
    have := le_max_left (1 : ℤ) (options.leaseMs.getD transientProbeLeaseMs)
    omega
  have hlive : granted.liveLease now = true := by
    rw [← hgranted, AccountProbeState.liveLease, isSome_some, Bool.true_and, any_some]
    exact decide_eq_true hdeadline
  refine ⟨fun state hstate ↦ ?_, rfl, rfl, hdeadline,
    ⟨granted, get?_sweep (OMap.get?_set_self ..) hlive, ?_⟩, fun b hb state hstate ↦ ?_,
    fun b hb state hstate hlive ↦ ?_⟩
  · rw [hstate, getD_some] at hdead
    exact eq_false_of_ne_true hdead
  · rw [← hgranted]
    exact ⟨rfl, rfl, rfl⟩
  · rw [← OMap.get?_set_of_ne p.states hb granted]
    exact get?_of_sweep hstate
  · exact get?_sweep ((OMap.get?_set_of_ne p.states hb granted).trans hstate) hlive

/-- What ends a lease does: the account has none on record now, and no other entry is changed. -/
structure Clears (p p' : ProbeStates) (a : AccountId) : Prop where
  seq : p'.probeLeaseSeq = p.probeLeaseSeq
  cleared : ∀ state, p'.states.get? a = some state → state.leaseId = none
  others : ∀ a' ≠ a, p'.states.get? a' = p.states.get? a'

theorem put_clears (h : state.leaseId = none) : Clears p (p.put a state) a := by
  refine ⟨rfl, fun state' hstate' ↦ ?_, fun a' ha' ↦ OMap.get?_set_of_ne _ ha' _⟩
  rw [put, OMap.get?_set_self, some_inj] at hstate'
  rw [← hstate', h]

/-- A settle applies for the holder inside its deadline, and changes nothing otherwise. -/
theorem settle_spec (p : ProbeStates) (lease : TransientProbeLease)
    (outcome : TransientProbeOutcome) (now : ℤ) : (p.settleTransientProbe lease outcome now).1 = p ∧
        (p.settleTransientProbe lease outcome now).2 ≠ .applied ∨
      (∃ state, p.holder lease = some state) ∧ now < lease.expiresAt ∧
        (p.settleTransientProbe lease outcome now).2 = .applied ∧
          Clears p (p.settleTransientProbe lease outcome now).1 lease.accountId := by
  rw [settleTransientProbe]
  split
  · exact .inl ⟨rfl, by simp⟩
  rename_i state hholder
  split
  · exact .inl ⟨rfl, by simp⟩
  · rename_i hinside
    exact .inr ⟨⟨state, hholder⟩, by omega, rfl, put_clears rfl⟩

theorem release_spec (p : ProbeStates) (lease : TransientProbeLease) :
    p.holder lease = none ∧ p.releaseTransientProbe lease = p ∨
      (∃ state, p.holder lease = some state) ∧
        Clears p (p.releaseTransientProbe lease) lease.accountId := by
  rw [releaseTransientProbe]
  split
  · rename_i hholder
    exact .inl ⟨hholder, rfl⟩
  · rename_i state hholder
    exact .inr ⟨⟨state, hholder⟩, put_clears rfl⟩

theorem invalidate_clears (p : ProbeStates) (a : AccountId) :
    Clears p (p.invalidateTransientProbe a) a := by
  rw [invalidateTransientProbe]
  split
  · rename_i hnone
    refine ⟨rfl, fun state hstate ↦ ?_, fun _ _ ↦ rfl⟩
    rw [hnone] at hstate
    nomatch hstate
  · exact put_clears rfl

end ProbeStates

/-! ## Runs -/

/-- A lease that was granted, and what became of it. -/
structure TrialRecord where
  lease : TransientProbeLease
  /-- Its holder has settled it, whatever the answer. -/
  settled : Bool
  /-- Its holder has handed it back. -/
  released : Bool
  /-- The epoch of its account was burned since. -/
  burned : Bool
  /-- When an outcome of it was applied. -/
  applied : List ℤ
  deriving DecidableEq

def TrialRecord.new (lease : TransientProbeLease) : TrialRecord := ⟨lease, false, false, false, []⟩

/-- Nothing has ended the trial but perhaps its deadline. -/
def TrialRecord.unspent (record : TrialRecord) : Bool :=
  !record.settled && !record.released && !record.burned

/-- What the code keeps, every lease so far, and the latest reading of the clock. -/
structure TrialRun where
  recovery : RecoveryState
  granted : List TrialRecord
  clock : ℤ

/-- What happens to the trials.  A lease that was granted is named by its place. -/
inductive TrialEvent where
  | acquire (accountId : AccountId) (now : ℤ) (options : ProbeOptions)
  | dispatch (boundAccountId : AccountId) (detourAccountId : Option AccountId) (now : ℤ)
      (options : ProbeOptions)
  | settle (lease : ℕ) (outcome : TransientProbeOutcome) (now : ℤ)
  | release (lease : ℕ)
  | invalidate (accountId : AccountId)
  /-- An answer of the upstream to a request that holds this trial, for a credential of that
  generation. -/
  | outcome (accountId : AccountId) (lease affinityGeneration : ℕ)
      (isCodexAccountGenerationLive : AccountId → ℕ → Bool)
      (outcomeClass : CodexUpstreamOutcomeClass) (now : ℤ)
  | initialSend (now : ℤ)
  | retry (now : ℤ)

/-- What an answer comes to. -/
inductive TrialCall where
  | settle (outcome : TransientProbeOutcome)
  | release
  | invalidate

/-- Which call an answer comes to. -/
def outcomeCall (live : Bool) : CodexUpstreamOutcomeClass → TrialCall
  | .neutral | .caller | .unknown => if live then .release else .invalidate
  | .success => if live then .settle .recovered else .invalidate
  | .credential | .workspace | .quota | .transient =>
    if live then .settle .failed else .invalidate

namespace TrialRun

variable (run : TrialRun)

def start (limiter : PoolBackpressureLimiter) : TrialRun := ⟨⟨.empty, limiter⟩, [], 0⟩

def withProbes (probes : ProbeStates) : TrialRun :=
  { run with recovery := ⟨probes, run.recovery.limiter⟩ }

/-- A lease is granted, or none is. -/
def grants (lease : Option TransientProbeLease) : List TrialRecord :=
  run.granted ++ lease.toList.map .new

/-- The lease a dispatch grants. -/
def leaseOf : HeldAccountDispatch → Option TransientProbeLease
  | .probe lease => some lease
  | _ => none

def settleRecord (record : TrialRecord) (answer : TransientProbeSettle) (now : ℤ) : TrialRecord :=
  { record with
    settled := true
    applied := if answer = .applied then record.applied ++ [now] else record.applied }

/-- Burn every lease of an account. -/
def burn (accountId : AccountId) : List TrialRecord :=
  run.granted.map fun record ↦
    if record.lease.accountId = accountId then { record with burned := true } else record

def settled (i : ℕ) (record : TrialRecord) (outcome : TransientProbeOutcome) (now : ℤ) : TrialRun :=
  let r := run.recovery.probes.settleTransientProbe record.lease outcome now
  { run.withProbes r.1 with
    granted := run.granted.set i (settleRecord record r.2 now)
    clock := now }

def released (i : ℕ) (record : TrialRecord) : TrialRun :=
  { run.withProbes (run.recovery.probes.releaseTransientProbe record.lease) with
    granted := run.granted.set i { record with released := true } }

def invalidated (accountId : AccountId) : TrialRun :=
  { run.withProbes (run.recovery.probes.invalidateTransientProbe accountId) with
    granted := run.burn accountId }

/-- What an answer does to the records; what it does to what the code keeps, the code says. -/
def answered (accountId : AccountId) (i : ℕ) (record : TrialRecord) (now : ℤ)
    (probes : ProbeStates) (call : TrialCall) : TrialRun :=
  { (match call with
      | .settle outcome => run.settled i record outcome now
      | .release => run.released i record
      | .invalidate => run.invalidated accountId).withProbes probes with clock := now }

def after : TrialEvent → TrialRun
  | .acquire accountId now options =>
    let r := run.recovery.probes.tryAcquireTransientProbe accountId now options
    { run.withProbes r.1 with granted := run.grants r.2, clock := now }
  | .dispatch boundAccountId detourAccountId now options =>
    let r := resolveHeldAccountDispatch run.recovery boundAccountId detourAccountId now options
    { recovery := r.1, granted := run.grants (leaseOf r.2), clock := now }
  | .settle i outcome now =>
    match run.granted[i]? with
    | none => run
    | some record => run.settled i record outcome now
  | .release i =>
    match run.granted[i]? with
    | none => run
    | some record => run.released i record
  | .invalidate accountId => run.invalidated accountId
  | .outcome accountId i affinityGeneration isCodexAccountGenerationLive outcomeClass now =>
    match run.granted[i]? with
    | none => run
    | some record =>
      run.answered accountId i record now
        (run.recovery.probes.settleTransientProbeForOutcome isCodexAccountGenerationLive accountId
          (some ⟨record.lease, affinityGeneration⟩) outcomeClass now)
        (outcomeCall (transientProbeCredentialLive isCodexAccountGenerationLive accountId
          affinityGeneration) outcomeClass)
  | .initialSend now =>
    { run with
      recovery := ⟨run.recovery.probes, run.recovery.limiter.recordInitialSend now⟩
      clock := now }
  | .retry now =>
    { run with
      recovery := ⟨run.recovery.probes, (run.recovery.limiter.tryPermit now).1⟩
      clock := now }

end TrialRun

/-- When an event happens, where it reads the clock. -/
def TrialEvent.time? : TrialEvent → Option ℤ
  | .acquire _ now _ => some now
  | .dispatch _ _ now _ => some now
  | .settle _ _ now => some now
  | .release _ => none
  | .invalidate _ => none
  | .outcome _ _ _ _ _ now => some now
  | .initialSend now => some now
  | .retry now => some now

/-- The runs whose clock does not go back. -/
def trialRuns : Machine TrialRun TrialEvent where
  init run := ∃ limiter, run = .start limiter
  step run event :=
    if event.time?.all fun now ↦ decide (run.clock ≤ now) then some (run.after event) else none

/-! ## What the code keeps and what was granted -/

/-- The lease an account has on record is the last one granted for it, and not spent; an unspent
lease inside its deadline is on record. -/
structure Trials (run : TrialRun) : Prop where
  seq : run.recovery.probes.probeLeaseSeq = run.granted.length
  number : ∀ (i : ℕ) (record : TrialRecord), run.granted[i]? = some record →
    record.lease.leaseId = i + 1
  onRecord : ∀ a state, run.recovery.probes.states.get? a = some state → ∀ n,
    state.leaseId = some n → ∃ (i : ℕ) (record : TrialRecord), run.granted[i]? = some record ∧
      record.lease.leaseId = n ∧ record.lease.accountId = a ∧
        record.lease.generation = state.generation ∧
          record.released = false ∧ record.burned = false ∧ record.applied = [] ∧
            ∀ (j : ℕ) (later : TrialRecord), i < j → run.granted[j]? = some later →
              later.lease.accountId ≠ a
  live : ∀ (i : ℕ) (record : TrialRecord), run.granted[i]? = some record →
    record.unspent = true → run.clock < record.lease.expiresAt → ∃ state,
      run.recovery.probes.states.get? record.lease.accountId = some state ∧
        state.leaseId = some record.lease.leaseId ∧
          state.leaseExpiresAt = some record.lease.expiresAt
  applied : ∀ (i : ℕ) (record : TrialRecord), run.granted[i]? = some record →
    record.applied.length ≤ 1 ∧ ∀ t ∈ record.applied, t < record.lease.expiresAt

namespace Trials

variable {run run' : TrialRun}

theorem start (limiter : PoolBackpressureLimiter) : Trials (.start limiter) where
  seq := rfl
  number i record h := nomatch h
  onRecord a state h := nomatch h
  live i record h := nomatch h
  applied i record h := nomatch h

variable {i : ℕ} {α : Type}

variable {l : List α} {a b : α}

theorem getElem?_concat (h : (l ++ [a])[i]? = some b) : l[i]? = some b ∨ i = l.length ∧ b = a := by
  rcases Nat.lt_trichotomy i l.length with hi | hi | hi
  · rw [getElem?_append_left hi] at h
    exact .inl h
  · rw [hi, getElem?_concat_length, some_inj] at h
    exact .inr ⟨hi, h.symm⟩
  · rw [getElem?_eq_none (by simp; omega)] at h
    cases h

variable {state : AccountProbeState}

variable {now : ℤ}

theorem liveLease_of {n : ℕ} {deadline : ℤ} (hlease : state.leaseId = some n)
    (hdeadline : state.leaseExpiresAt = some deadline) (hinside : now < deadline) :
    state.liveLease now = true := by
  rw [AccountProbeState.liveLease, hlease, hdeadline, isSome_some, Bool.true_and, any_some]
  exact decide_eq_true hinside

variable {record : TrialRecord}

variable {lease : TransientProbeLease}

/-- **A grant finds no trial under way**: every unspent lease of the account has passed its
deadline. -/
theorem grant_alone (h : Trials run) {p' : ProbeStates}
    (hg : ProbeStates.Grants run.recovery.probes p' now lease) (hclock : run.clock ≤ now)
    (hi : run.granted[i]? = some record) (ha : record.lease.accountId = lease.accountId)
    (hunspent : record.unspent = true) : record.lease.expiresAt ≤ now := by
  by_contra hinside
  obtain ⟨state, hstate, hlease, hdeadline⟩ := h.live i record hi hunspent (by omega)
  rw [ha] at hstate
  have hlive := liveLease_of hlease hdeadline (not_le.mp hinside)
  rw [hg.dead state hstate] at hlive
  nomatch hlive

theorem grant (h : Trials run)
    (hg : ProbeStates.Grants run.recovery.probes run'.recovery.probes now lease)
    (hgranted : run'.granted = run.granted ++ [.new lease]) (hclock : run.clock ≤ now)
    (hnow : run'.clock = now) : Trials run' := by
  refine ⟨?_, fun i record hi ↦ ?_, fun a state hstate n hn ↦ ?_,
    fun i record hi hunspent hinside ↦ ?_, fun i record hi ↦ ?_⟩
  · rw [hg.seq, h.seq, hgranted, length_append, length_singleton]
  · rw [hgranted] at hi
    rcases getElem?_concat hi with hi | ⟨rfl, rfl⟩
    · exact h.number i record hi
    · exact hg.number.trans (congrArg (· + 1) h.seq)
  · rw [hgranted]
    by_cases ha : a = lease.accountId
    · obtain ⟨state', hstate', hlease, hgeneration, -⟩ := hg.recorded
      rw [ha, hstate', some_inj] at hstate
      subst hstate
      rw [hlease, some_inj] at hn
      refine ⟨_, _, getElem?_concat_length, hn, ha.symm, hgeneration.symm, rfl, rfl, rfl,
        fun j later hj hlater ↦ ?_⟩
      rw [getElem?_eq_none (by simp; omega)] at hlater
      cases hlater
    · obtain ⟨i, record, hi, hrec, haccount, hgen, hrel, hburn, happ, hlast⟩ :=
        h.onRecord a state (hg.others a ha state hstate) n hn
      refine ⟨i, record, ?_, hrec, haccount, hgen, hrel, hburn, happ, fun j later hj hlater ↦ ?_⟩
      · rw [getElem?_append_left (List.getElem?_eq_some_iff.mp hi).1]
        exact hi
      · rcases getElem?_concat hlater with hlater | ⟨-, rfl⟩
        · exact hlast j later hj hlater
        · exact Ne.symm ha
  · rw [hgranted] at hi
    rw [hnow] at hinside
    rcases getElem?_concat hi with hi | ⟨-, rfl⟩
    · obtain ⟨state, hstate, hlease, hdeadline⟩ := h.live i record hi hunspent (by omega)
      by_cases ha : record.lease.accountId = lease.accountId
      · have hpast := h.grant_alone hg hclock hi ha hunspent
        omega
      · exact ⟨state, hg.live _ ha state hstate (liveLease_of hlease hdeadline hinside), hlease,
          hdeadline⟩
    · obtain ⟨state, hstate, hlease, -, hdeadline⟩ := hg.recorded
      exact ⟨state, hstate, hlease, hdeadline⟩
  · rw [hgranted] at hi
    rcases getElem?_concat hi with hi | ⟨-, rfl⟩
    · exact h.applied i record hi
    · exact ⟨Nat.zero_le _, forall_mem_nil _⟩

theorem exists_getElem? {β : Type} {l' : List β} (hlen : l'.length = l.length) (h : l[i]? = some a) :
    ∃ b, l'[i]? = some b := by
  obtain ⟨hi, -⟩ := List.getElem?_eq_some_iff.mp h
  exact ⟨l'[i], getElem?_eq_getElem _⟩

/-- **Ending the lease an account has on record** keeps the agreement, if no lease of that account
goes on after it. -/
theorem clear (h : Trials run) {a : AccountId}
    (hc : ProbeStates.Clears run.recovery.probes run'.recovery.probes a)
    (hlen : run'.granted.length = run.granted.length) (hclock : run.clock ≤ run'.clock)
    (hsame : ∀ (i : ℕ) (record' : TrialRecord), run'.granted[i]? = some record' →
      ∃ record, run.granted[i]? = some record ∧ record'.lease = record.lease ∧
        (record.lease.accountId ≠ a → record' = record) ∧
        (record.lease.accountId = a → record'.unspent = true →
          run'.clock < record.lease.expiresAt → False) ∧
        record'.applied.length ≤ 1 ∧ ∀ t ∈ record'.applied, t < record.lease.expiresAt) :
    Trials run' := by
  refine ⟨hc.seq.trans (h.seq.trans hlen.symm), fun i record' hi ↦ ?_,
    fun b state hstate n hn ↦ ?_, fun i record' hi hunspent hinside ↦ ?_, fun i record' hi ↦ ?_⟩
  · obtain ⟨record, hi, hlease, -⟩ := hsame i record' hi
    rw [hlease]
    exact h.number i record hi
  · by_cases hb : b = a
    · rw [hc.cleared state (hb ▸ hstate)] at hn
      nomatch hn
    · rw [hc.others b hb] at hstate
      obtain ⟨i, record, hi, hrec, haccount, hgen, hrel, hburn, happ, hlast⟩ :=
        h.onRecord b state hstate n hn
      obtain ⟨record', hi'⟩ := exists_getElem? hlen hi
      obtain ⟨old, hold, -, heq, -⟩ := hsame i record' hi'
      obtain rfl := some_inj.mp (hi.symm.trans hold)
      obtain rfl := heq (by rw [haccount]; exact hb)
      refine ⟨i, record', hi', hrec, haccount, hgen, hrel, hburn, happ, fun j later hj hlater ↦ ?_⟩
      obtain ⟨old, hold, hlease, -⟩ := hsame j later hlater
      rw [hlease]
      exact hlast j old hj hold
  · obtain ⟨record, hi, hlease, heq, hends, -⟩ := hsame i record' hi
    rw [hlease] at hinside
    by_cases ha : record.lease.accountId = a
    · exact (hends ha hunspent hinside).elim
    · obtain rfl := heq ha
      rw [hc.others _ ha]
      exact h.live i record' hi hunspent (hclock.trans_lt hinside)
  · obtain ⟨record, -, hlease, -, -, happ⟩ := hsame i record' hi
    rw [hlease]
    exact happ

theorem mark (h : Trials run) (hprobes : run'.recovery.probes = run.recovery.probes)
    (hlen : run'.granted.length = run.granted.length) (hclock : run.clock ≤ run'.clock)
    (hsame : ∀ (i : ℕ) (record' : TrialRecord), run'.granted[i]? = some record' →
      ∃ record, run.granted[i]? = some record ∧ record'.lease = record.lease ∧
        (record'.unspent = true → record.unspent = true) ∧ record'.applied = record.applied ∧
        record'.burned = record.burned ∧ (record'.released = record.released ∨
          run.recovery.probes.holder record.lease = none)) : Trials run' := by
  refine ⟨hprobes ▸ h.seq.trans hlen.symm, fun i record' hi ↦ ?_, fun b state hstate n hn ↦ ?_,
    fun i record' hi hunspent hinside ↦ ?_, fun i record' hi ↦ ?_⟩
  · obtain ⟨record, hi, hlease, -⟩ := hsame i record' hi
    rw [hlease]
    exact h.number i record hi
  · rw [hprobes] at hstate
    obtain ⟨i, record, hi, hrec, haccount, hgen, hrel, hburn, happ, hlast⟩ :=
      h.onRecord b state hstate n hn
    obtain ⟨record', hi'⟩ := exists_getElem? hlen hi
    obtain ⟨old, hold, hlease, -, happ', hburn', hrel'⟩ := hsame i record' hi'
    obtain rfl := some_inj.mp (hi.symm.trans hold)
    refine ⟨i, record', hi', by rw [hlease]; exact hrec, by rw [hlease]; exact haccount,
      by rw [hlease]; exact hgen, ?_, hburn'.trans hburn, happ'.trans happ,
      fun j later hj hlater ↦ ?_⟩
    · rcases hrel' with hrel' | hnone
      · exact hrel'.trans hrel
      · have hholder : run.recovery.probes.holder record.lease = some state :=
          ProbeStates.holder_eq_some.mpr ⟨haccount ▸ hstate, by rw [hrec]; exact hn, hgen.symm⟩
        rw [hnone] at hholder
        nomatch hholder
    · obtain ⟨old, hold, hlease, -⟩ := hsame j later hlater
      rw [hlease]
      exact hlast j old hj hold
  · obtain ⟨record, hi, hlease, hunspent', -⟩ := hsame i record' hi
    rw [hlease] at hinside ⊢
    rw [hprobes]
    exact h.live i record hi (hunspent' hunspent) (hclock.trans_lt hinside)
  · obtain ⟨record, hi, hlease, -, happ, -⟩ := hsame i record' hi
    rw [hlease, happ]
    exact h.applied i record hi

theorem later (h : Trials run) (hprobes : run'.recovery.probes = run.recovery.probes)
    (hgranted : run'.granted = run.granted) (hclock : run.clock ≤ run'.clock) : Trials run' :=
  h.mark hprobes (congrArg length hgranted) hclock fun _ record hi ↦
    ⟨record, hgranted ▸ hi, rfl, id, rfl, rfl, .inl rfl⟩

variable {j : ℕ}

theorem eq_of_holder (h : Trials run) {other : TrialRecord} (hi : run.granted[i]? = some record)
    (hj : run.granted[j]? = some other)
    (hholder : run.recovery.probes.holder record.lease = some state)
    (ha : other.lease.accountId = record.lease.accountId) (hunspent : other.unspent = true)
    (hinside : run.clock < other.lease.expiresAt) : j = i := by
  obtain ⟨hstate, hlease, -⟩ := ProbeStates.holder_eq_some.mp hholder
  obtain ⟨state', hstate', hlease', -⟩ := h.live j other hj hunspent hinside
  rw [ha, hstate, some_inj] at hstate'
  rw [← hstate', hlease, some_inj, h.number i record hi, h.number j other hj] at hlease'
  omega

theorem of_holder (h : Trials run) (hi : run.granted[i]? = some record)
    (hholder : run.recovery.probes.holder record.lease = some state) :
    record.released = false ∧ record.burned = false ∧ record.applied = [] ∧
      ∀ (j : ℕ) (later : TrialRecord), i < j → run.granted[j]? = some later →
        later.lease.accountId ≠ record.lease.accountId := by
  obtain ⟨hstate, hlease, -⟩ := ProbeStates.holder_eq_some.mp hholder
  obtain ⟨i', record', hi', hrec, -, -, hrel, hburn, happ, hlast⟩ :=
    h.onRecord _ state hstate _ hlease
  have hindex : i' = i := by
    have hn := h.number i record hi
    have hn' := h.number i' record' hi'
    omega
  subst hindex
  obtain rfl := some_inj.mp (hi.symm.trans hi')
  exact ⟨hrel, hburn, happ, hlast⟩

theorem getElem?_set_cases (h : (l.set i a)[j]? = some b) :
    j = i ∧ b = a ∨ j ≠ i ∧ l[j]? = some b := by
  rw [getElem?_set] at h
  split at h
  · rename_i hij
    split at h
    · exact .inl ⟨hij.symm, (some_inj.mp h).symm⟩
    · nomatch h
  · rename_i hij
    exact .inr ⟨Ne.symm hij, h⟩

theorem settled (h : Trials run) (hi : run.granted[i]? = some record)
    (outcome : TransientProbeOutcome) (hclock : run.clock ≤ now) :
    Trials (run.settled i record outcome now) := by
  rcases ProbeStates.settle_spec run.recovery.probes record.lease outcome now with
    ⟨hsame, hanswer⟩ | ⟨⟨state, hholder⟩, hinside, hanswer, hclears⟩
  · refine h.mark hsame (length_set ..) hclock fun j record' hj ↦ ?_
    rcases getElem?_set_cases hj with ⟨rfl, rfl⟩ | ⟨-, hj⟩
    · refine ⟨record, hi, rfl, fun hunspent ↦ ?_, ?_, rfl, .inl rfl⟩
      · nomatch hunspent
      · exact if_neg hanswer
    · exact ⟨record', hj, rfl, id, rfl, rfl, .inl rfl⟩
  · refine h.clear hclears (length_set ..) hclock fun j record' hj ↦ ?_
    rcases getElem?_set_cases hj with ⟨rfl, rfl⟩ | ⟨hne, hj⟩
    · refine ⟨record, hi, rfl, fun hne ↦ absurd rfl hne, fun _ hunspent ↦ ?_, ?_⟩
      · nomatch hunspent
      · have happ := (h.of_holder hi hholder).2.2.1
        simp [TrialRun.settleRecord, hanswer, happ, hinside]
    · refine ⟨record', hj, rfl, fun _ ↦ rfl, fun ha hunspent hin ↦ ?_, h.applied j record' hj⟩
      exact hne (h.eq_of_holder hi hj hholder ha hunspent (hclock.trans_lt hin))

theorem released (h : Trials run) (hi : run.granted[i]? = some record) :
    Trials (run.released i record) := by
  rcases ProbeStates.release_spec run.recovery.probes record.lease with
    ⟨hnone, hsame⟩ | ⟨⟨state, hholder⟩, hclears⟩
  · refine h.mark hsame (length_set ..) le_rfl fun j record' hj ↦ ?_
    rcases getElem?_set_cases hj with ⟨rfl, rfl⟩ | ⟨-, hj⟩
    · refine ⟨record, hi, rfl, fun hunspent ↦ ?_, rfl, rfl, .inr hnone⟩
      exact absurd hunspent (by simp [TrialRecord.unspent])
    · exact ⟨record', hj, rfl, id, rfl, rfl, .inl rfl⟩
  · refine h.clear hclears (length_set ..) le_rfl fun j record' hj ↦ ?_
    rcases getElem?_set_cases hj with ⟨rfl, rfl⟩ | ⟨hne, hj⟩
    · refine ⟨record, hi, rfl, fun hne ↦ absurd rfl hne, fun _ hunspent ↦ ?_, h.applied j record hi⟩
      exact absurd hunspent (by simp [TrialRecord.unspent])
    · refine ⟨record', hj, rfl, fun _ ↦ rfl, fun ha hunspent hin ↦ ?_, h.applied j record' hj⟩
      exact hne (h.eq_of_holder hi hj hholder ha hunspent hin)

theorem invalidated (h : Trials run) (a : AccountId) : Trials (run.invalidated a) := by
  refine h.clear (ProbeStates.invalidate_clears run.recovery.probes a) (length_map ..) le_rfl
    fun j record' hj ↦ ?_
  rw [TrialRun.invalidated, TrialRun.burn, getElem?_map, map_eq_some_iff] at hj
  obtain ⟨record, hj, rfl⟩ := hj
  have happ := h.applied j record hj
  by_cases ha : record.lease.accountId = a
  · rw [if_pos ha]
    refine ⟨record, hj, rfl, fun hne ↦ absurd ha hne, fun _ hunspent ↦ ?_, happ⟩
    exact absurd hunspent (by simp [TrialRecord.unspent])
  · rw [if_neg ha]
    exact ⟨record, hj, rfl, fun _ ↦ rfl, fun ha' ↦ absurd ha' ha, happ⟩

end Trials

/-! ## Every step -/

section Steps

variable {run : TrialRun}

/-- **An answer comes to one of the calls**: what it does to the leases is what that call does. -/
theorem settleTransientProbeForOutcome_eq (run : TrialRun) (accountId : AccountId) (i : ℕ)
    (record : TrialRecord) (affinityGeneration : ℕ) (isLive : AccountId → ℕ → Bool)
    (outcomeClass : CodexUpstreamOutcomeClass) (now : ℤ) :
    run.recovery.probes.settleTransientProbeForOutcome isLive accountId
        (some ⟨record.lease, affinityGeneration⟩) outcomeClass now =
      match outcomeCall (transientProbeCredentialLive isLive accountId affinityGeneration)
        outcomeClass with
      | .settle outcome => (run.settled i record outcome now).recovery.probes
      | .release => (run.released i record).recovery.probes
      | .invalidate => (run.invalidated accountId).recovery.probes := by
  simp only [ProbeStates.settleTransientProbeForOutcome]
  cases transientProbeCredentialLive isLive accountId affinityGeneration with
  | false => cases outcomeClass <;> rfl
  | true => cases outcomeClass <;> rfl

theorem dispatch_spec (s : RecoveryState) (boundAccountId : AccountId)
    (detourAccountId : Option AccountId) (now : ℤ) (options : ProbeOptions) :
    let r := resolveHeldAccountDispatch s boundAccountId detourAccountId now options
    (r.1.probes = s.probes ∧ TrialRun.leaseOf r.2 = none) ∨
      ∃ lease, lease.accountId = boundAccountId ∧ TrialRun.leaseOf r.2 = some lease ∧
        ProbeStates.Grants s.probes r.1.probes now lease := by
  intro r
  simp only [r, resolveHeldAccountDispatch]
  generalize (if s.probes.canAcquireTransientProbe boundAccountId now options then
    s.limiter.tryPermit now else (s.limiter, false)) = permitted
  generalize hacquired : (if permitted.2 = true then
    s.probes.tryAcquireTransientProbe boundAccountId now options else (s.probes, none)) = acquired
  have hspec : acquired = (s.probes, none) ∨ ∃ lease, lease.accountId = boundAccountId ∧
      acquired.2 = some lease ∧ ProbeStates.Grants s.probes acquired.1 now lease := by
    rw [← hacquired]
    split
    · exact ProbeStates.tryAcquire_spec s.probes boundAccountId now options
    · exact .inl rfl
  rcases hspec with rfl | ⟨lease, haccount, hlease, hgrants⟩
  · refine .inl ?_
    dsimp only
    split
    · exact ⟨rfl, rfl⟩
    · exact ⟨rfl, rfl⟩
  · refine .inr ⟨lease, haccount, ?_⟩
    rw [hlease]
    exact ⟨rfl, hgrants⟩

variable {run' : TrialRun}

theorem grants_trials (h : Trials run) {now : ℤ} {lease : Option TransientProbeLease}
    (hclock : run.clock ≤ now) (hspec : run'.recovery.probes = run.recovery.probes ∧ lease = none ∨
      ∃ granted, lease = some granted ∧
        ProbeStates.Grants run.recovery.probes run'.recovery.probes now granted)
    (hgranted : run'.granted = run.grants lease) (hnow : run'.clock = now) : Trials run' := by
  rcases hspec with ⟨hsame, rfl⟩ | ⟨granted, rfl, hgrants⟩
  · exact h.later hsame (hgranted.trans (append_nil _)) (hclock.trans_eq hnow.symm)
  · exact h.grant hgrants hgranted hclock hnow

theorem acquire_spec (p : ProbeStates) (accountId : AccountId) (now : ℤ) (options : ProbeOptions) :
    let r := p.tryAcquireTransientProbe accountId now options
    (r.1 = p ∧ r.2 = none) ∨ ∃ lease, r.2 = some lease ∧ ProbeStates.Grants p r.1 now lease := by
  intro r
  rcases ProbeStates.tryAcquire_spec p accountId now options with heq | ⟨lease, -, hlease, hgrants⟩
  · exact .inl ⟨congrArg Prod.fst heq, congrArg Prod.snd heq⟩
  · exact .inr ⟨lease, hlease, hgrants⟩

variable {event : TrialEvent}

/-- **Every event keeps the agreement.** -/
theorem after_trials (h : Trials run) (hclock : ∀ now, event.time? = some now → run.clock ≤ now) :
    Trials (run.after event) := by
  cases event with
  | acquire accountId now options =>
    exact grants_trials h (hclock now rfl)
      (acquire_spec run.recovery.probes accountId now options) rfl rfl
  | dispatch boundAccountId detourAccountId now options =>
    refine grants_trials h (hclock now rfl) ?_ rfl rfl
    rcases dispatch_spec run.recovery boundAccountId detourAccountId now options with
      hsame | ⟨lease, -, hlease, hgrants⟩
    · exact .inl hsame
    · exact .inr ⟨lease, hlease, hgrants⟩
  | settle i outcome now =>
    rw [TrialRun.after]
    split
    · exact h
    · rename_i record hi
      exact h.settled hi outcome (hclock now rfl)
  | release i =>
    rw [TrialRun.after]
    split
    · exact h
    · rename_i record hi
      exact h.released hi
  | invalidate accountId => exact h.invalidated accountId
  | outcome accountId i affinityGeneration isLive outcomeClass now =>
    have hle : run.clock ≤ now := hclock now rfl
    rw [TrialRun.after]
    split
    · exact h
    rename_i record hi
    rw [settleTransientProbeForOutcome_eq run accountId i record]
    cases outcomeCall (transientProbeCredentialLive isLive accountId affinityGeneration)
      outcomeClass with
    | settle outcome => exact (h.settled hi outcome hle).later rfl rfl le_rfl
    | release => exact (h.released hi).later rfl rfl hle
    | invalidate => exact (h.invalidated accountId).later rfl rfl hle
  | initialSend now | retry now => exact h.later rfl rfl (hclock now rfl)

theorem trialRuns_step {run : TrialRun} (h : trialRuns.step run event = some run') :
    run' = run.after event ∧ ∀ now, event.time? = some now → run.clock ≤ now := by
  simp only [trialRuns] at h
  split at h
  · rename_i hordered
    refine ⟨(some_inj.mp h).symm, fun now hnow ↦ ?_⟩
    rw [hnow, all_some] at hordered
    exact of_decide_eq_true hordered
  · nomatch h

theorem trials_inductive : trialRuns.Inductive Machine.Always Trials := by
  refine ⟨fun run hinit ↦ ?_, fun run event run' h _ hstep ↦ ?_⟩
  · obtain ⟨limiter, rfl⟩ := hinit
    exact .start limiter
  · obtain ⟨rfl, hclock⟩ := trialRuns_step hstep
    exact after_trials h hclock

/-- A lease that cannot come back: it was handed back, burned or applied, or a later one was granted
for its account. -/
def TrialRun.Lost (run : TrialRun) (i : ℕ) (record : TrialRecord) : Prop :=
  record.released = true ∨ record.burned = true ∨ record.applied ≠ [] ∨
    ∃ (j : ℕ) (later : TrialRecord), i < j ∧ run.granted[j]? = some later ∧
      later.lease.accountId = record.lease.accountId

variable {i : ℕ} {record : TrialRecord}

theorem holder_of_lost (h : Trials run) (hi : run.granted[i]? = some record)
    (hlost : run.Lost i record) : run.recovery.probes.holder record.lease = none := by
  refine eq_none_iff_forall_ne_some.mpr fun state hholder ↦ ?_
  obtain ⟨hrel, hburn, happ, hlast⟩ := h.of_holder hi hholder
  rcases hlost with hlost | hlost | hlost | ⟨j, later, hj, hlater, ha⟩
  · rw [hrel] at hlost
    nomatch hlost
  · rw [hburn] at hlost
    nomatch hlost
  · exact hlost happ
  · exact hlast j later hj hlater ha

/-- The lease an event answers with, where its credential is still the one it was granted for. -/
def TrialEvent.answers : TrialEvent → Option ℕ
  | .settle i _ _ => some i
  | .release i => some i
  | .outcome accountId i affinityGeneration isLive _ _ =>
    if transientProbeCredentialLive isLive accountId affinityGeneration then some i else none
  | _ => none

/-- What one event may not do. -/
structure Fenced (run : TrialRun) (event : TrialEvent) (run' : TrialRun) : Prop where
  /-- A lease is granted only when every earlier one of its account was settled, handed back or
  burned, or has passed its deadline. -/
  alone : ∀ granted ∈ run'.granted.drop run.granted.length, ∀ record ∈ run.granted,
    record.lease.accountId = granted.lease.accountId → record.unspent = true →
      record.lease.expiresAt ≤ run'.clock
  /-- An answer with a lost lease changes no probe state. -/
  stale : ∀ (i : ℕ) (record : TrialRecord), event.answers = some i →
    run.granted[i]? = some record → run.Lost i record →
      run'.recovery.probes = run.recovery.probes

theorem after_granted (run : TrialRun) (event : TrialEvent) :
    (run.after event).granted.length = run.granted.length ∨ ∃ lease,
      (run.after event).granted = run.granted ++ [.new lease] ∧
        event.time? = some (run.after event).clock ∧
          ProbeStates.Grants run.recovery.probes (run.after event).recovery.probes
            (run.after event).clock lease := by
  cases event with
  | acquire accountId now options =>
    rcases acquire_spec run.recovery.probes accountId now options with
      ⟨-, hnone⟩ | ⟨lease, hlease, hgrants⟩
    · exact .inl (by simp [TrialRun.after, TrialRun.grants, hnone])
    · exact .inr ⟨lease, by simp [TrialRun.after, TrialRun.grants, hlease], rfl, hgrants⟩
  | dispatch boundAccountId detourAccountId now options =>
    rcases dispatch_spec run.recovery boundAccountId detourAccountId now options with
      ⟨-, hnone⟩ | ⟨lease, -, hlease, hgrants⟩
    · exact .inl (by simp [TrialRun.after, TrialRun.grants, hnone])
    · exact .inr ⟨lease, by simp [TrialRun.after, TrialRun.grants, hlease], rfl, hgrants⟩
  | settle i outcome now | release i =>
    rw [TrialRun.after]
    split
    · exact .inl rfl
    · exact .inl (length_set ..)
  | invalidate accountId => exact .inl (length_map ..)
  | outcome accountId i affinityGeneration isLive outcomeClass now =>
    refine .inl ?_
    rw [TrialRun.after]
    split
    · rfl
    cases outcomeCall (transientProbeCredentialLive isLive accountId affinityGeneration)
      outcomeClass with
    | settle outcome => exact length_set ..
    | release => exact length_set ..
    | invalidate => exact length_map ..
  | initialSend now => exact .inl rfl
  | retry now => exact .inl rfl

variable {lease : TransientProbeLease} {p : ProbeStates}

theorem settle_of_lost (h : p.holder lease = none) (outcome : TransientProbeOutcome) (now : ℤ) :
    (p.settleTransientProbe lease outcome now).1 = p := by
  rw [ProbeStates.settleTransientProbe, h]

theorem release_of_lost (h : p.holder lease = none) : p.releaseTransientProbe lease = p := by
  rw [ProbeStates.releaseTransientProbe, h]

theorem answered_probes (run : TrialRun) (accountId : AccountId) (i : ℕ) (record : TrialRecord)
    (now : ℤ) (probes : ProbeStates) (call : TrialCall) :
    (run.answered accountId i record now probes call).recovery.probes = probes := by
  cases call with
  | settle outcome => rfl
  | release => rfl
  | invalidate => rfl

theorem after_stale (h : Trials run) (hanswers : event.answers = some i)
    (hi : run.granted[i]? = some record) (hlost : run.Lost i record) :
    (run.after event).recovery.probes = run.recovery.probes := by
  have hnone := holder_of_lost h hi hlost
  cases event with
  | settle j outcome now =>
    obtain rfl := some_inj.mp hanswers
    rw [TrialRun.after, hi]
    exact settle_of_lost hnone outcome now
  | release j =>
    obtain rfl := some_inj.mp hanswers
    rw [TrialRun.after, hi]
    exact release_of_lost hnone
  | outcome accountId j affinityGeneration isLive outcomeClass now =>
    rw [TrialEvent.answers] at hanswers
    split at hanswers
    · rename_i hlive
      obtain rfl := some_inj.mp hanswers
      simp only [TrialRun.after, hi]
      refine (answered_probes ..).trans ?_
      simp only [ProbeStates.settleTransientProbeForOutcome, hlive]
      cases outcomeClass with
      | neutral | caller | unknown => exact release_of_lost hnone
      | success => exact settle_of_lost hnone .recovered now
      | credential | workspace | quota | transient => exact settle_of_lost hnone .failed now
    · nomatch hanswers
  | _ => nomatch hanswers

/-- **A held account has at most one trial in flight**, in every run: a lease is applied at most once
and inside its deadline, a grant waits until every earlier lease of its account is settled, handed
back, burned or past its deadline, and a lost lease changes nothing. -/
theorem one_trial_in_flight {run : TrialRun} (h : trialRuns.Reachable run) :
    (∀ record ∈ run.granted, record.applied.length ≤ 1 ∧
      ∀ t ∈ record.applied, t < record.lease.expiresAt) ∧
    ∀ event run', trialRuns.step run event = some run' → Fenced run event run' := by
  have htrials : Trials run := trials_inductive.reachable h
  refine ⟨fun record hrecord ↦ ?_, fun event run' hstep ↦ ?_⟩
  · obtain ⟨i, hi⟩ := mem_iff_getElem?.mp hrecord
    exact htrials.applied i record hi
  obtain ⟨rfl, hclock⟩ := trialRuns_step hstep
  refine ⟨fun granted hgranted record hrecord ha hunspent ↦ ?_, fun i record hanswers hi hlost ↦
    after_stale htrials hanswers hi hlost⟩
  rcases after_granted run event with hlen | ⟨lease, hgrants, htime, hspec⟩
  · rw [drop_eq_nil_of_le hlen.le] at hgranted
    exact absurd hgranted not_mem_nil
  · rw [hgrants, drop_left, mem_singleton] at hgranted
    subst hgranted
    obtain ⟨i, hi⟩ := mem_iff_getElem?.mp hrecord
    exact htrials.grant_alone hspec (hclock _ htime) hi ha hunspent

/-- A trial of half a minute. -/
def plainTrial (now : ℤ) : TrialEvent := .acquire "account" now ⟨none, none⟩

/-- Before any trial. -/
def untried : TrialRun := .start (.create defaultPoolBackpressurePolicy)

theorem untried_init : trialRuns.init untried := ⟨_, rfl⟩

/-- A trial that is answered in time. -/
theorem one_trial_in_flight_recovered :
    (trialRuns.play untried [plainTrial 0, .settle 0 .recovered 100]).granted.length = 1 ∧
      ∀ record ∈ (trialRuns.play untried [plainTrial 0, .settle 0 .recovered 100]).granted,
        record.applied.length ≤ 1 ∧ ∀ t ∈ record.applied, t < record.lease.expiresAt :=
  ⟨by decide +kernel, (one_trial_in_flight ((Machine.ReachableIf.init untried_init).run
    (Machine.run_play (by decide +kernel)))).1⟩

/-- **A burned trial is not waited for**: the epoch of an account is burned while its trial is out,
and a second trial begins before the first was settled or handed back, and before its deadline. -/
theorem second_trial_in_flight : ∃ run first second, trialRuns.Reachable run ∧
    run.granted = [first, second] ∧ first.lease.accountId = second.lease.accountId ∧
      first.settled = false ∧ first.released = false ∧ run.clock < first.lease.expiresAt :=
  ⟨trialRuns.play untried [plainTrial 0, .invalidate "account", plainTrial 15000], _, _,
    (Machine.ReachableIf.init untried_init).run (Machine.run_play (by decide +kernel)), rfl, rfl,
    rfl, rfl, by decide +kernel⟩

end Steps

end Recovery
