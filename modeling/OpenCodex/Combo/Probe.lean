import OpenCodex.Combo.HoldRuns

/-!
# Half-open probes

A held provider is re-checked in the background: `claimProviderProbe` marks the hold record while
the probe is out, and the record counts a relay's failed probes and the time of the last one.  So
the record is meant to say all that matters about the probes, and the log of `Combo/HoldRuns.lean`
says what really happened to them; `LogOfHold` and `relayTally` are where the two agree.

From the agreement follows what is promised: **one probe is out at a time, and a relay's probes are
few and spaced** (`one_probe_in_flight`).  The mark and the counters are lost where a call replaces
or deletes the record while it carries them — a failure or a verdict that sets a new hold, a success
that clears a relay — and those calls are what the side conditions leave out: `dropsTrial` for a
trial that is out, `dropsHistory` for a relay's past probes.
-/

set_option autoImplicit false

open Option

namespace Combo

/-! ## The record and the log -/

/-- The call replaces or deletes a record whose trial has not been answered. -/
def dropsTrial (s : Holds) (e : HoldEvent) : Bool :=
  (s.hold e.provider).any fun h ↦ h.probing && match e.call with
    | .failure => s.demotes e.provider e.now
    | .verdict _ => s.parksAnew e.provider e.now
    | .success => decide (h.kind = .failures)
    | _ => false

/-- The call replaces a relay's record that has been probed. -/
def dropsHistory (s : Holds) (e : HoldEvent) : Bool :=
  (s.hold e.provider).any fun h ↦ decide (h.kind = .failures) && h.lastProbeAt.isSome &&
    match e.call with
    | .failure => s.demotes e.provider e.now
    | .verdict _ => s.parksAnew e.provider e.now
    | _ => false

/-- The side condition under which the record knows whether a probe is out. -/
def KeepsTrial (s : HoldSys) (e : HoldEvent) : Prop := dropsTrial s.holds e = false

/-- The side condition under which the record also knows how the relay's probes have gone since the
last success. -/
def KeepsHistory (s : HoldSys) (e : HoldEvent) : Prop :=
  KeepsTrial s e ∧ dropsHistory s.holds e = false

instance (s : HoldSys) (e : HoldEvent) : Decidable (KeepsTrial s e) :=
  inferInstanceAs (Decidable (_ = _))

instance (s : HoldSys) (e : HoldEvent) : Decidable (KeepsHistory s e) :=
  inferInstanceAs (Decidable (_ ∧ _))

/-- What the provider's record says of its relay probes. -/
def ProviderCapacityHold.tally (h : ProviderCapacityHold) : Tally := ⟨h.probes, h.lastProbeAt⟩

/-- The record and the log agree on the probe that is out and on the hold's own relay probes. -/
structure LogOfHold (hold : Option ProviderCapacityHold) (l : ProbeLog) : Prop where
  /-- A probe is out just when the record says so, and then only one. -/
  inFlight : l.inFlight = (hold.any (·.probing)).toNat
  /-- The record counts the relay probes of its hold. -/
  ofHold : ∀ h, hold = some h → h.kind = .failures → l.ofHold = h.tally
  /-- A relay that is being probed has a try left. -/
  tryLeft : ∀ h, hold = some h → h.kind = .failures →
    h.probes ≤ relayProbeMax ∧ (h.probing = true → h.probes < relayProbeMax)
  /-- A relay that was never probed has no failed probe. -/
  unprobed : ∀ h, hold = some h → h.kind = .failures → h.lastProbeAt = none →
    h.probing = false ∧ h.probes = 0
  /-- The tries are bounded whatever the record says. -/
  bound : l.ofHold.failed ≤ relayProbeMax

/-- What a provider's record says of its relay probes: nothing, where no relay's record stands. -/
def relayTally : Option ProviderCapacityHold → Tally
  | some h => if h.kind = .failures then h.tally else .zero
  | none => .zero

variable {h : ProviderCapacityHold}

theorem relayTally_relay (hk : h.kind = .failures) : relayTally (some h) = h.tally := if_pos hk

theorem relayTally_capacity (hk : h.kind = .capacity) :
    relayTally (some h) = .zero := if_neg (by rw [hk]; decide)

namespace LogOfHold

variable {l : ProbeLog}

theorem ofFailures {now : ℤ} (hf : h.OfFailures now) (hl : l.inFlight = 0) (ht : l.ofHold = .zero) :
    LogOfHold (some h) l := by
  obtain ⟨-, -, hp, hat, hpr⟩ := hf
  refine ⟨by simp [hl, hp], ?_, ?_, ?_, by simp [ht, Tally.zero]⟩
  · rintro _ ⟨rfl⟩ -
    rw [ht, ProviderCapacityHold.tally, hpr, hat, Tally.zero]
  · rintro _ ⟨rfl⟩ -
    exact ⟨by omega, fun hc ↦ absurd (hp.symm.trans hc) (by decide)⟩
  · rintro _ ⟨rfl⟩ - -
    exact ⟨hp, hpr⟩

theorem ofCapacity (hk : h.kind = .capacity) (hl : l.inFlight = h.probing.toNat)
    (hb : l.ofHold.failed ≤ relayProbeMax) : LogOfHold (some h) l := by
  have hno : h.kind ≠ .failures := by rw [hk]; decide
  refine ⟨hl, ?_, ?_, ?_, hb⟩
  · rintro _ ⟨rfl⟩ hf
    exact absurd hf hno
  · rintro _ ⟨rfl⟩ hf
    exact absurd hf hno
  · rintro _ ⟨rfl⟩ hf
    exact absurd hf hno

theorem noHold (hl : l.inFlight = 0) (hb : l.ofHold.failed ≤ relayProbeMax) : LogOfHold none l where
  inFlight := by simp [hl]
  ofHold := by rintro h hh; simp at hh
  tryLeft := by rintro h hh; simp at hh
  unprobed := by rintro h hh; simp at hh
  bound := hb

theorem congr {h' : ProviderCapacityHold} (hi : LogOfHold (some h) l) (hk : h'.kind = h.kind)
    (hp : h'.probing = h.probing) (hpr : h'.probes = h.probes)
    (hat : h'.lastProbeAt = h.lastProbeAt) : LogOfHold (some h') l where
  inFlight := by simpa [hp] using hi.inFlight
  ofHold := by
    rintro _ ⟨rfl⟩ hf
    rw [hi.ofHold h rfl (hk ▸ hf), ProviderCapacityHold.tally, ProviderCapacityHold.tally, hpr, hat]
  tryLeft := by
    rintro _ ⟨rfl⟩ hf
    rw [hpr, hp]
    exact hi.tryLeft h rfl (hk ▸ hf)
  unprobed := by
    rintro _ ⟨rfl⟩ hf hn
    rw [hpr, hp]
    exact hi.unprobed h rfl (hk ▸ hf) (hat ▸ hn)
  bound := hi.bound

end LogOfHold

variable {hold : Option ProviderCapacityHold}

theorem LogOfHold.inFlight_eq_zero {l : ProbeLog} (hi : LogOfHold hold l)
    (hp : ∀ h, hold = some h → h.probing = false) : l.inFlight = 0 := by
  rw [hi.inFlight]
  cases hold with
  | none => rfl
  | some h => simp [hp h rfl]

theorem LogOfHold.probing {l : ProbeLog} (hi : LogOfHold hold l) (hl : 0 < l.inFlight) :
    ∃ h, hold = some h ∧ h.probing = true ∧ l.inFlight = 1 := by
  have hin := hi.inFlight
  cases hold with
  | none => simp [hin] at hl
  | some h =>
    cases hp : h.probing with
    | true => exact ⟨h, rfl, hp, by simpa [hp] using hin⟩
    | false => simp [hin, hp] at hl

variable {s : Holds} {now : ℤ} {p : String}

theorem record_failure_of_demotes (hd : s.demotes p now = true) (l : ProbeLog) :
    HoldEvent.record ⟨p, now, .failure⟩ s l = { l with ofHold := .zero } :=
  if_pos hd

theorem record_failure_of_not_demotes (hd : s.demotes p now = false) (l : ProbeLog) :
    HoldEvent.record ⟨p, now, .failure⟩ s l = l :=
  if_neg (by rw [hd]; decide)

/-- The call is the end of a trial only while one is out. -/
def HoldEvent.Paired (e : HoldEvent) (l : ProbeLog) : Prop :=
  ∀ ok, e.call = .finish ok → 0 < l.inFlight

variable {e : HoldEvent}

theorem dropsTrial_false (hc : dropsTrial s e = false) (hh : s.hold e.provider = some h)
    (he : match e.call with
      | .failure => s.demotes e.provider e.now = true
      | .verdict _ => s.parksAnew e.provider e.now = true
      | .success => h.kind = .failures
      | _ => False) : h.probing = false := by
  rw [dropsTrial, hh, any_some, Bool.and_eq_false_iff] at hc
  rcases hc with hc | hc
  · exact hc
  · obtain ⟨p, now, call⟩ := e
    cases call with
    | failure | verdict => exact absurd (he.symm.trans hc) (by decide)
    | success => exact absurd he (of_decide_eq_false hc)
    | claim | finish => exact he.elim

/-- **One call keeps the record in agreement with the log**, unless it drops a record whose trial is
out. -/
theorem call_logOfHold {l : ProbeLog} (hi : LogOfHold (s.hold e.provider) l)
    (hc : dropsTrial s e = false) (hp : e.Paired l) :
    LogOfHold ((e.after s).hold e.provider) (e.record s l) := by
  have hdrop := fun {h} ↦ dropsTrial_false (h := h) hc
  obtain ⟨p, now, call⟩ := e
  simp only at hi hdrop ⊢
  cases call with
  | failure =>
    rcases noteProviderFailure_row s p now with ⟨hd, hsame⟩ | ⟨hd, -, h', hh', hnew⟩
    · rw [record_failure_of_not_demotes hd, HoldEvent.after, hsame.1]
      exact hi
    · rw [record_failure_of_demotes hd, HoldEvent.after, hh']
      exact .ofFailures hnew (hi.inFlight_eq_zero fun h hh ↦ hdrop hh hd) rfl
  | verdict reason =>
    rcases noteProviderCapacityVerdict_row s p now reason with ⟨-, hsame⟩ | ⟨-, h, hh, hnew, -⟩ |
      ⟨hd, -, h', hh', -, hk, -, -, hpr, -⟩
    · rw [HoldEvent.after, hsame.1]
      exact hi
    · rw [HoldEvent.after, hnew]
      exact (hh ▸ hi).congr rfl rfl rfl rfl
    · rw [HoldEvent.after, hh']
      refine .ofCapacity hk ?_ hi.bound
      rw [hpr, Bool.toNat_false]
      exact hi.inFlight_eq_zero fun h hh ↦ hdrop hh hd
  | success =>
    rw [HoldEvent.after, (noteProviderSuccess_row s p).2]
    cases hh : s.hold p with
    | none => exact .noHold (hi.inFlight_eq_zero (by simp [hh])) (Nat.zero_le _)
    | some h =>
      cases hk : h.kind with
      | capacity =>
        rw [filter_some, if_pos (by simp [hk])]
        exact .ofCapacity hk (hh ▸ hi).inFlight (Nat.zero_le _)
      | failures =>
        rw [filter_some, if_neg (by simp [hk])]
        refine .noHold (hi.inFlight_eq_zero fun h' hh' ↦ hdrop hh' ?_) (Nat.zero_le _)
        exact (some_inj.mp (hh.symm.trans hh')) ▸ hk
  | claim =>
    rcases claimProviderProbe_row s p now with hno | ⟨h, hh, hpr, hyes, -, hrel⟩
    · rw [HoldEvent.after, HoldEvent.record, hno]
      exact hi
    · have hzero : l.inFlight = 0 := by simpa [hh, hpr] using hi.inFlight
      rw [HoldEvent.after, HoldEvent.record, hyes]
      simp only [if_true, Holds.hold_putHold_self]
      refine ⟨by simp [hzero, ProviderCapacityHold.claimed], ?_, ?_, ?_, ?_⟩
      · rintro _ ⟨rfl⟩ hf
        have ht := hi.ofHold h hh hf
        have hf : h.kind = .failures := hf
        simp [HoldEvent.probed, Holds.isRelay, hh, hf, ht, ProviderCapacityHold.tally,
          ProviderCapacityHold.claimed]
      · rintro _ ⟨rfl⟩ hf
        exact ⟨(hi.tryLeft h hh hf).1, fun _ ↦ (hrel hf).1⟩
      · rintro _ ⟨rfl⟩ hf hat
        cases hat
      · simp only [HoldEvent.probed]
        split <;> exact hi.bound
  | finish ok =>
    obtain ⟨h, hh, hpr, hone⟩ := hi.probing (hp ok rfl)
    cases ok with
    | true =>
      rw [HoldEvent.after, (finishProviderProbe_ok_row s p now).1]
      exact .noHold (by simp [HoldEvent.record, hone]) (Nat.zero_le _)
    | false =>
      rw [HoldEvent.after, HoldEvent.record]
      rcases finishProviderProbe_failed_row s p now hh with ⟨hk, hnew, -⟩ | ⟨hk, -, hnew, -⟩ |
        ⟨hk, -, -, h', hnew, -, hk', -, -, hpr', -⟩
      · rw [hnew]
        have ht := hi.ofHold h hh hk
        have htry := (hi.tryLeft h hh hk).2 hpr
        refine ⟨by simp [hone, ProviderCapacityHold.probeFailed], ?_, ?_, ?_, ?_⟩
        · rintro _ ⟨rfl⟩ -
          simp [HoldEvent.probeFailed, Holds.isRelay, hh, hk, ht, ProviderCapacityHold.tally,
            ProviderCapacityHold.probeFailed]
        · rintro _ ⟨rfl⟩ -
          exact ⟨htry, by rintro ⟨⟩⟩
        · rintro _ ⟨rfl⟩ - hat
          exact absurd (hpr.symm.trans (hi.unprobed h hh hk hat).1) (by decide)
        · simp only [HoldEvent.probeFailed, Holds.isRelay, hh, any_some, hk, decide_true,
            if_true, ht]
          exact htry
      · rw [hnew]
        refine .ofCapacity hk (by simp [hone]) ?_
        simpa [HoldEvent.probeFailed, Holds.isRelay, hh, hk] using hi.bound
      · rw [hnew]
        refine .ofCapacity hk' (by simp [hone, hpr']) ?_
        simpa [HoldEvent.probeFailed, Holds.isRelay, hh, hk] using hi.bound

theorem LogOfHold.relayTally_eq_zero {l : ProbeLog} (hi : LogOfHold hold l)
    (hn : ∀ h, hold = some h → h.kind = .failures → h.lastProbeAt = none) :
    relayTally hold = .zero := by
  cases hold with
  | none => rfl
  | some h =>
    cases hk : h.kind with
    | capacity => exact relayTally_capacity hk
    | failures =>
      have hat := hn h rfl hk
      rw [relayTally_relay hk, ProviderCapacityHold.tally, hat, (hi.unprobed h rfl hk hat).2,
        Tally.zero]

theorem dropsHistory_false (hc : dropsHistory s e = false) (hh : s.hold e.provider = some h)
    (hk : h.kind = .failures) (he : match e.call with
      | .failure => s.demotes e.provider e.now = true
      | .verdict _ => s.parksAnew e.provider e.now = true
      | _ => False) : h.lastProbeAt = none := by
  rw [dropsHistory, hh, any_some, decide_eq_true hk, Bool.true_and, Bool.and_eq_false_iff] at hc
  rcases hc with hc | hc
  · exact isSome_eq_false_iff.mp hc |> isNone_iff_eq_none.mp
  · obtain ⟨p, now, call⟩ := e
    cases call with
    | failure | verdict => exact absurd (he.symm.trans hc) (by decide)
    | success | claim | finish => exact he.elim

/-- **One call keeps the record in agreement with the relay's probes since the last success**,
unless it drops a relay's record that has been probed. -/
theorem call_sinceSuccess {l : ProbeLog} (hi : LogOfHold (s.hold e.provider) l)
    (hs : l.sinceSuccess = relayTally (s.hold e.provider)) (hc : dropsHistory s e = false)
    (hp : e.Paired l) : (e.record s l).sinceSuccess = relayTally ((e.after s).hold e.provider) := by
  have hdrop := fun {h} ↦ dropsHistory_false (h := h) hc
  obtain ⟨p, now, call⟩ := e
  simp only at hi hs hdrop ⊢
  cases call with
  | failure =>
    rcases noteProviderFailure_row s p now with ⟨hd, hsame⟩ | ⟨hd, -, h', hh', -, hk, -, hat, hn⟩
    · rw [record_failure_of_not_demotes hd, HoldEvent.after, hsame.1]
      exact hs
    · rw [record_failure_of_demotes hd, HoldEvent.after, hh', relayTally_relay hk,
        ProviderCapacityHold.tally, hat, hn]
      exact hs.trans (hi.relayTally_eq_zero fun h hh hk ↦ hdrop hh hk hd)
  | verdict reason =>
    show l.sinceSuccess = relayTally ((noteProviderCapacityVerdict s p reason now).1.hold p)
    rcases noteProviderCapacityVerdict_row s p now reason with ⟨-, hsame⟩ | ⟨-, h, hh, hnew, -⟩ |
      ⟨hd, -, h', hh', -, hk, -⟩
    · rw [hsame.1]
      exact hs
    · rw [hnew, hs, hh]
      rfl
    · rw [hh', relayTally_capacity hk]
      exact hs.trans (hi.relayTally_eq_zero fun h hh hk ↦ hdrop hh hk hd)
  | success =>
    show Tally.zero = relayTally ((noteProviderSuccess s p).hold p)
    rw [(noteProviderSuccess_row s p).2]
    cases hh : s.hold p with
    | none => rfl
    | some h =>
      cases hk : h.kind with
      | capacity => rw [filter_some, if_pos (by simp [hk]), relayTally_capacity hk]
      | failures =>
        rw [filter_some, if_neg (by simp [hk])]
        rfl
  | claim =>
    rcases claimProviderProbe_row s p now with hno | ⟨h, hh, -, hyes, -⟩
    · rw [HoldEvent.after, HoldEvent.record, hno]
      exact hs
    · rw [hh] at hs
      rw [HoldEvent.after, HoldEvent.record, hyes]
      simp only [if_true, Holds.hold_putHold_self, HoldEvent.probed, Holds.isRelay, hh,
        any_some, hs]
      cases hk : h.kind with
      | capacity =>
        rw [relayTally_capacity hk, relayTally_capacity (h := h.claimed now) hk]
        rfl
      | failures =>
        rw [relayTally_relay hk, relayTally_relay (h := h.claimed now) hk]
        rfl
  | finish ok =>
    obtain ⟨h, hh, -⟩ := hi.probing (hp ok rfl)
    cases ok with
    | true =>
      rw [HoldEvent.after, (finishProviderProbe_ok_row s p now).1]
      rfl
    | false =>
      rw [HoldEvent.after, HoldEvent.record]
      simp only [HoldEvent.probeFailed, Holds.isRelay, hh, any_some, hs]
      rcases finishProviderProbe_failed_row s p now hh with ⟨hk, hnew, -⟩ | ⟨hk, -, hnew, -⟩ |
        ⟨hk, -, -, h', hnew, -, hk', -⟩
      · rw [hnew, relayTally_relay hk, relayTally_relay (h := h.probeFailed now) hk,
          decide_eq_true hk]
        rfl
      · rw [hnew, relayTally_capacity hk, decide_eq_false (by rw [hk]; decide)]
        exact (relayTally_capacity (h := { h with probing := false, lastHitAt := some now }) hk).symm
      · rw [hnew, relayTally_capacity hk, relayTally_capacity hk']
        simp [hk]

/-! ## Probes in a run -/

/-- The agreement, for every provider. -/
def HoldSys.Logged (s : HoldSys) : Prop := ∀ p, LogOfHold (s.holds.hold p) (s.log p)

def HoldSys.LoggedSinceSuccess (s : HoldSys) : Prop :=
  ∀ p, (s.log p).sinceSuccess = relayTally (s.holds.hold p)

theorem holdStep_paired {s s' : HoldSys} (hs : holdMachine.step s e = some s') :
    e.Paired (s.log e.provider) := by
  obtain ⟨hp, -⟩ := holdStep_eq_some hs
  obtain ⟨p, now, call⟩ := e
  rintro ok rfl
  exact HoldEvent.possible_finish hp

theorem logged_inductive : holdMachine.Inductive KeepsTrial HoldSys.Logged where
  init := by
    rintro s ⟨hh, hl⟩ p
    rw [hh, hl]
    exact .noHold rfl (Nat.zero_le _)
  step := by
    intro s e s' hi hc hs p
    obtain ⟨-, hh, -, hl⟩ := holdStep_eq_some hs
    rw [hh, hl]
    by_cases hq : p = e.provider
    · subst hq
      rw [Function.update_self]
      exact call_logOfHold (hi _) hc (holdStep_paired hs)
    · rw [Function.update_of_ne hq, (e.after_frame s.holds hq).1]
      exact hi p

theorem loggedSinceSuccess_inductive :
    holdMachine.Inductive KeepsHistory fun s ↦ s.Logged ∧ s.LoggedSinceSuccess := by
  refine .and ⟨logged_inductive.init, fun s e s' hi hc ↦ logged_inductive.step s e s' hi hc.1⟩ ?_ ?_
  · rintro s ⟨hh, hl⟩ p
    rw [hh, hl]
    rfl
  · intro s e s' hi hi' hc hs p
    obtain ⟨-, hh, -, hl⟩ := holdStep_eq_some hs
    rw [hh, hl]
    by_cases hq : p = e.provider
    · subst hq
      rw [Function.update_self]
      exact call_sinceSuccess (hi _) (hi' _) hc.2 (holdStep_paired hs)
    · rw [Function.update_of_ne hq, (e.after_frame s.holds hq).1]
      exact hi' p

/-- A claim that succeeds finds no probe out, and on a relay's record it keeps its distance from the
one before. -/
theorem claim_spaced {s : HoldSys} (hi : s.Logged)
    (hc : (claimProviderProbe s.holds p now).2 = true) : (s.log p).inFlight = 0 ∧
      ∀ t, s.holds.isRelay p = true → (relayTally (s.holds.hold p)).probedAt = some t →
        relayProbeMinIntervalMs ≤ now - t := by
  rcases claimProviderProbe_row s.holds p now with hno | ⟨h, hh, hpr, -, -, hrel⟩
  · rw [hno] at hc
    nomatch hc
  · refine ⟨(hi p).inFlight_eq_zero fun h' hh' ↦ ?_, fun t hk ht ↦ ?_⟩
    · exact some_inj.mp (hh.symm.trans hh') ▸ hpr
    · have hk : h.kind = .failures := by simpa [Holds.isRelay, hh] using hk
      rw [hh, relayTally_relay hk] at ht
      have ht : h.lastProbeAt = some t := ht
      simpa [ht] using (hrel hk).2

/-- **One half-open probe at a time, and few and spaced ones for a relay.**  As long as no call drops
a record whose trial is out, no provider has two probes out, a claim succeeds only where none is,
and a relay's hold gets at most `relayProbeMax` failed probes, `relayProbeMinIntervalMs` apart.  As
long as no call replaces a relay's record that has been probed either, the same bounds hold from one
success to the next, over however many holds. -/
theorem one_probe_in_flight {s : HoldSys} (hr : holdMachine.ReachableIf KeepsTrial s) (p : String) :
    ((s.log p).inFlight ≤ 1 ∧ (s.log p).ofHold.failed ≤ relayProbeMax ∧
      ∀ now, (claimProviderProbe s.holds p now).2 = true → (s.log p).inFlight = 0 ∧
        ∀ t, s.holds.isRelay p = true → (s.log p).ofHold.probedAt = some t →
          relayProbeMinIntervalMs ≤ now - t) ∧ (holdMachine.ReachableIf KeepsHistory s →
      (s.log p).sinceSuccess.failed ≤ relayProbeMax ∧
      ∀ now, (claimProviderProbe s.holds p now).2 = true →
        ∀ t, s.holds.isRelay p = true → (s.log p).sinceSuccess.probedAt = some t →
          relayProbeMinIntervalMs ≤ now - t) := by
  have hi := logged_inductive.reachable hr
  refine ⟨⟨?_, (hi p).bound, fun now hc ↦ ⟨(claim_spaced hi hc).1, fun t hk ht ↦ ?_⟩⟩, fun hr' ↦ ?_⟩
  · rw [(hi p).inFlight]
    exact Bool.toNat_le _
  · refine (claim_spaced hi hc).2 t hk ?_
    obtain ⟨h, hh, hf⟩ := (Option.any_eq_true _ _).mp hk
    have hf : h.kind = .failures := of_decide_eq_true hf
    rw [hh, relayTally_relay hf, ← (hi p).ofHold h hh hf]
    exact ht
  · have hs := (loggedSinceSuccess_inductive.reachable hr').2
    refine ⟨?_, fun now hc t hk ht ↦ (claim_spaced hi hc).2 t hk (hs p ▸ ht)⟩
    rw [hs p]
    cases hh : s.holds.hold p with
    | none => exact Nat.zero_le _
    | some h =>
      cases hk : h.kind with
      | capacity => rw [relayTally_capacity hk]; exact Nat.zero_le _
      | failures => rw [relayTally_relay hk]; exact ((hi p).tryLeft h hh hk).1

/-- A relay demoted by three failures, and then the calls on it. -/
def HoldSys.demoted (calls : List (ℤ × HoldCall)) : HoldSys :=
  holdMachine.play .start <|
    ((100000, .failure) :: (101000, .failure) :: (102000, .failure) :: calls).map
      fun c ↦ ⟨"relay", c.1, c.2⟩

/-- After one failed probe, claimed at `140000`, the next cannot be claimed before `170000`. -/
theorem one_probe_in_flight_after_failed_probe :
    ((HoldSys.demoted [(140000, .claim), (141000, .finish false)]).log "relay").inFlight ≤ 1 ∧
      relayProbeMinIntervalMs ≤ 171000 - 140000 :=
  have hr : holdMachine.ReachableIf KeepsTrial
      (.demoted [(140000, .claim), (141000, .finish false)]) :=
    ⟨_, HoldSys.start_init, Machine.run_play (by decide +kernel)⟩
  have hrec := (one_probe_in_flight hr "relay").1
  ⟨hrec.1, (hrec.2.2 171000 (by decide +kernel)).2 140000 (by decide +kernel) (by decide +kernel)⟩

/-- A failure that lands while a relay's probe is out replaces the record, and with it the mark of
the probe: a second one is claimed a second after the first, with the first still out. -/
theorem second_probe_in_flight : ∃ s, holdMachine.Reachable s ∧ (s.log "relay").inFlight = 1 ∧
      (s.log "relay").sinceSuccess.probedAt = some 140000 ∧
      (claimProviderProbe s.holds "relay" 141000).2 = true :=
  ⟨.demoted [(140000, .claim), (140500, .failure)],
    ⟨_, HoldSys.start_init, Machine.run_play (by decide +kernel)⟩, by decide +kernel,
    by decide +kernel, by decide +kernel⟩

end Combo
