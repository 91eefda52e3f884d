import OpenCodex.Combo.Hold
import OpenCodex.Data.Machine

/-!
# Runs of the provider holds

The entry points of `Combo/Hold.lean` are called from request handlers and background probes, in any
order, with a clock that does not go back.  `holdMachine` is that system: an event is one call on one
provider, and a `finishProviderProbe` is possible only while a probe that was claimed has not been
answered yet.  Around the code's own maps the state keeps a log that the code does not have — how
many probes are out, and how the relay probes have gone — so that what the code promises about
probes can be compared with what its record says.

The promise of this file is that **a capacity park lasts its whole rung** (`capacity_park_lasts`).
Two calls break it (`endsPark`): a failure that trips the failure ledger in the last 90 seconds of
the park replaces the record, and a success of a probe that was claimed under an *older* hold deletes
whatever record stands.  What is promised of the probes is in `Combo/Probe.lean`.
-/

set_option autoImplicit false

open Option

namespace Combo

/-! ## The system -/

/-- How a relay's probes have gone, over some stretch of a run. -/
structure Tally where
  /-- Probes that failed. -/
  failed : ℕ
  /-- The time of the last probe claimed. -/
  probedAt : Option ℤ
  deriving DecidableEq

def Tally.zero : Tally := ⟨0, none⟩

/-- The log kept of one provider's probes. -/
structure ProbeLog where
  /-- Probes claimed and not yet finished. -/
  inFlight : ℕ
  /-- Relay probes since the relay's hold was set, or its last success. -/
  ofHold : Tally
  /-- Relay probes since the provider's last success. -/
  sinceSuccess : Tally
  deriving DecidableEq

def ProbeLog.zero : ProbeLog := ⟨0, .zero, .zero⟩

/-- The maps, the clock, and the log. -/
structure HoldSys where
  holds : Holds
  clock : ℤ
  log : String → ProbeLog

inductive HoldCall where
  | failure
  | verdict (reason : String)
  | success
  | claim
  | finish (ok : Bool)
  deriving DecidableEq

/-- One call on one provider, at one time. -/
structure HoldEvent where
  provider : String
  now : ℤ
  call : HoldCall
  deriving DecidableEq

/-- The provider carries a relay's hold. -/
def Holds.isRelay (s : Holds) (p : String) : Bool :=
  (s.hold p).any fun h ↦ decide (h.kind = .failures)

namespace HoldEvent

/-- The maps after the call. -/
def after (e : HoldEvent) (s : Holds) : Holds :=
  match e.call with
  | .failure => (noteProviderFailure s e.provider e.now).1
  | .verdict reason => (noteProviderCapacityVerdict s e.provider reason e.now).1
  | .success => noteProviderSuccess s e.provider
  | .claim => (claimProviderProbe s e.provider e.now).1
  | .finish ok => finishProviderProbe s e.provider ok e.now

/-- A relay's probe, in a tally. -/
def probed (e : HoldEvent) (s : Holds) (t : Tally) : Tally :=
  if s.isRelay e.provider then { t with probedAt := some e.now } else t

/-- A failed relay probe, in a tally. -/
def probeFailed (e : HoldEvent) (s : Holds) (t : Tally) : Tally :=
  if s.isRelay e.provider then { t with failed := t.failed + 1 } else t

/-- The provider's log after the call. -/
def record (e : HoldEvent) (s : Holds) (l : ProbeLog) : ProbeLog :=
  match e.call with
  | .failure => if s.demotes e.provider e.now then { l with ofHold := .zero } else l
  | .verdict _ => l
  | .success => { l with ofHold := .zero, sinceSuccess := .zero }
  | .claim =>
    if (claimProviderProbe s e.provider e.now).2 then
      ⟨l.inFlight + 1, e.probed s l.ofHold, e.probed s l.sinceSuccess⟩
    else l
  | .finish true => ⟨l.inFlight - 1, .zero, .zero⟩
  | .finish false =>
    ⟨l.inFlight - 1, e.probeFailed s l.ofHold, e.probeFailed s l.sinceSuccess⟩

/-- The clock does not go back, and only a probe that is out can finish. -/
def possible (e : HoldEvent) (s : HoldSys) : Bool :=
  decide (s.clock ≤ e.now) && match e.call with
    | .finish _ => decide (0 < (s.log e.provider).inFlight)
    | _ => true

end HoldEvent

def holdStep (s : HoldSys) (e : HoldEvent) : Option HoldSys :=
  if e.possible s then
    some
      { holds := e.after s.holds
        clock := e.now
        log := Function.update s.log e.provider (e.record s.holds (s.log e.provider)) }
  else none

/-- The module starts with empty maps and no probe out. -/
def holdMachine : Machine HoldSys HoldEvent where
  init s := s.holds = .empty ∧ s.log = fun _ ↦ .zero
  step := holdStep

variable {e : HoldEvent} {s' : HoldSys}

theorem holdStep_eq_some {s : HoldSys} (h : holdMachine.step s e = some s') :
    e.possible s = true ∧ s'.holds = e.after s.holds ∧ s'.clock = e.now ∧
      s'.log = Function.update s.log e.provider (e.record s.holds (s.log e.provider)) := by
  rw [show holdMachine.step s e = holdStep s e from rfl, holdStep] at h
  split at h
  · rename_i hp
    rw [← some_inj.mp h]
    exact ⟨hp, rfl, rfl, rfl⟩
  · nomatch h

theorem HoldEvent.possible_clock {s : HoldSys} (h : e.possible s = true) : s.clock ≤ e.now := by
  rw [HoldEvent.possible, Bool.and_eq_true] at h
  exact of_decide_eq_true h.1

variable {p : String} {now : ℤ}

theorem HoldEvent.possible_finish {ok : Bool} {s : HoldSys}
    (h : HoldEvent.possible ⟨p, now, .finish ok⟩ s = true) : 0 < (s.log p).inFlight := by
  rw [HoldEvent.possible, Bool.and_eq_true] at h
  exact of_decide_eq_true h.2

theorem HoldEvent.after_frame (e : HoldEvent) (s : Holds) {q : String} (hq : q ≠ e.provider) :
    s.SameRow (e.after s) q := by
  rw [HoldEvent.after]
  split
  · exact noteProviderFailure_frame s hq _
  · exact noteProviderCapacityVerdict_frame s hq _ _
  · exact noteProviderSuccess_frame s hq
  · exact claimProviderProbe_frame s hq _
  · exact finishProviderProbe_frame s hq _ _

/-! ## A capacity park -/

/-- The call ends a capacity park that has not expired: a failure trips whose hold would outlast
it, or a probe succeeds. -/
def endsPark (s : Holds) (e : HoldEvent) : Bool :=
  (s.hold e.provider).any fun h ↦
    decide (h.kind = .capacity ∧ e.now < h.untilAt) && match e.call with
      | .failure => s.demotes e.provider e.now
      | .finish true => true
      | _ => false

/-- The side condition under which a park lasts. -/
def KeepsPark (s : HoldSys) (e : HoldEvent) : Prop := endsPark s.holds e = false

instance (s : HoldSys) (e : HoldEvent) : Decidable (KeepsPark s e) :=
  inferInstanceAs (Decidable (_ = _))

/-- The provider is parked until `t` on the rung `esc`, its ladder standing at `str`. -/
def ParkedAt (s : Holds) (p : String) (t : ℤ) (esc str : ℕ) : Prop :=
  ∃ h, s.hold p = some h ∧ h.kind = .capacity ∧ h.untilAt = t ∧ h.escalations = esc ∧
    s.streak p = str

variable {s : Holds} {t : ℤ} {esc str : ℕ}

theorem ParkedAt.same {s' : Holds} (h : ParkedAt s p t esc str) (hs : s.SameRow s' p) :
    ParkedAt s' p t esc str := by
  obtain ⟨r, hr, hrest⟩ := h
  exact ⟨r, hs.1.trans hr, hrest.1, hrest.2.1, hrest.2.2.1, hs.2.trans hrest.2.2.2⟩

theorem ParkedAt.holdKind (h : ParkedAt s p t esc str) (hnow : now < t) :
    providerHoldKind s p now = some .capacity := by
  obtain ⟨r, hr, hk, ht, -, -⟩ := h
  rw [providerHoldKind, hr]
  simp only [hk]
  rw [if_neg (by omega)]

/-- **One call keeps an unexpired park**, with its expiry and its rung, unless it is one of the two
that end it. -/
theorem call_keeps_park (h : ParkedAt s e.provider t esc str) (hnow : e.now < t)
    (hc : endsPark s e = false) : ParkedAt (e.after s) e.provider t esc str := by
  obtain ⟨r, hr, hk, ht, hesc, hstr⟩ := h
  have hpark : ParkedAt s e.provider t esc str := ⟨r, hr, hk, ht, hesc, hstr⟩
  obtain ⟨p, now, call⟩ := e
  simp only at hr hnow hpark
  subst ht
  rw [endsPark, hr] at hc
  simp only [any_some, hk, true_and, decide_eq_true hnow, Bool.true_and] at hc
  cases call with
  | failure =>
    rcases noteProviderFailure_row s p now with ⟨-, hsame⟩ | ⟨hd, -⟩
    · exact hpark.same hsame
    · exact absurd (hd.symm.trans hc) (by decide)
  | verdict reason =>
    rcases noteProviderCapacityVerdict_row s p now reason with ⟨-, hsame⟩ |
      ⟨-, r', hr', hnew, hs⟩ | ⟨hd, -⟩
    · exact hpark.same hsame
    · obtain rfl : r = r' := some_inj.mp (hr.symm.trans hr')
      exact ⟨_, hnew, hk, rfl, hesc, hs.trans hstr⟩
    · exact absurd (Holds.parksAnew_until hd hr) (by omega)
  | success =>
    obtain ⟨hs, hh⟩ := noteProviderSuccess_row s p
    refine ⟨r, ?_, hk, rfl, hesc, hs.trans hstr⟩
    rw [HoldEvent.after, hh, hr]
    simp [Option.filter, hk]
  | claim =>
    rcases claimProviderProbe_row s p now with hno | ⟨r', hr', -, -, hcap, -⟩
    · rw [HoldEvent.after, hno]
      exact hpark
    · obtain rfl : r = r' := some_inj.mp (hr.symm.trans hr')
      exact absurd (hcap hk) (by omega)
  | finish ok =>
    cases ok with
    | true => nomatch hc
    | false =>
      rcases finishProviderProbe_failed_row s p now hr with ⟨hf, -⟩ | ⟨-, -, hnew, hs⟩ | ⟨-, hle, -⟩
      · exact absurd (hk.symm.trans hf) (by decide)
      · exact ⟨_, hnew, hk, rfl, hesc, hs.trans hstr⟩
      · omega

theorem call_ends_park (h : ParkedAt s e.provider t esc str) (hnow : e.now < t)
    (hc : endsPark s e = true) :
    providerHoldKind (e.after s) e.provider e.now ≠ some .capacity := by
  obtain ⟨r, hr, hk, ht, -, -⟩ := h
  obtain ⟨p, now, call⟩ := e
  simp only at hr hnow
  subst ht
  rw [endsPark, hr] at hc
  simp only [any_some, hk, true_and, decide_eq_true hnow, Bool.true_and] at hc
  cases call with
  | failure =>
    rcases noteProviderFailure_row s p now with ⟨hd, -⟩ | ⟨-, -, r', hr', -, hk', -⟩
    · exact absurd (hc.symm.trans hd) (by decide)
    · rw [providerHoldKind, HoldEvent.after, hr']
      simp only [hk']
      split <;> simp
  | finish ok =>
    cases ok with
    | true =>
      rw [providerHoldKind, HoldEvent.after, (finishProviderProbe_ok_row s p now).1]
      simp
    | false => nomatch hc
  | verdict | success | claim => nomatch hc

/-- **The condition is exact**: a call on a provider whose park has not expired leaves the park
standing just when it is not one of the two that end it. -/
theorem keeps_park_iff (h : ParkedAt s e.provider t esc str) (hnow : e.now < t) :
    ParkedAt (e.after s) e.provider t esc str ↔ endsPark s e = false := by
  refine ⟨fun h' ↦ ?_, call_keeps_park h hnow⟩
  rw [← Bool.not_eq_true]
  exact fun hc ↦ call_ends_park h hnow hc (h'.holdKind hnow)

theorem step_keeps_park {s : HoldSys} (h : ParkedAt s.holds p t esc str) (hc : KeepsPark s e)
    (hs : holdMachine.step s e = some s') (ht : s'.clock < t) : ParkedAt s'.holds p t esc str := by
  obtain ⟨-, hh, hclock, -⟩ := holdStep_eq_some hs
  rw [hh]
  by_cases hq : p = e.provider
  · subst hq
    exact call_keeps_park h (hclock ▸ ht) hc
  · exact h.same (e.after_frame s.holds hq)

theorem step_clock {s : HoldSys} (hs : holdMachine.step s e = some s') : s.clock ≤ s'.clock := by
  obtain ⟨hp, -, hclock, -⟩ := holdStep_eq_some hs
  exact hclock ▸ HoldEvent.possible_clock hp

/-- **A park is kept until its expiry.** -/
theorem run_keeps_park {s : HoldSys} (hr : holdMachine.Run KeepsPark s s')
    (h : ParkedAt s.holds p t esc str) (ht : s'.clock < t) : ParkedAt s'.holds p t esc str := by
  have key : holdMachine.Preserved KeepsPark
      fun u ↦ u.clock < t → ParkedAt u.holds p t esc str := by
    intro u e u' hu hc hs hlt
    exact step_keeps_park (hu ((step_clock hs).trans_lt hlt)) hc hs hlt
  refine key.run hr (fun _ ↦ h) ht

/-- The call sets a capacity hold of its own on the next rung, where no hold is running. -/
def Climbs (s s' : Holds) (p : String) (now : ℤ) : Prop :=
  s'.streak p = s.streak p + 1 ∧ (∀ h, s.hold p = some h → h.untilAt ≤ now) ∧
    ∃ t, now < t ∧ ParkedAt s' p t (s'.streak p) (s'.streak p)

theorem climbs_of_ofCapacity {s' : Holds} (hlt : s.streak p < s'.streak p)
    (hexp : ∀ h, s.hold p = some h → h.untilAt ≤ now) (hle : s'.streak p ≤ s.streak p + 1)
    (hnew : ∃ h, s'.hold p = some h ∧ h.OfCapacity (s'.streak p) now) : Climbs s s' p now := by
  obtain ⟨h, hh, hfut, hk, hesc, -⟩ := hnew
  exact ⟨by omega, hexp, h.untilAt, hfut, h, hh, hk, rfl, hesc, rfl⟩

theorem call_rung (hlt : s.streak p < (e.after s).streak p) : Climbs s (e.after s) p e.now := by
  have hq : p = e.provider := by
    by_contra hq
    exact absurd (e.after_frame s hq).2 hlt.ne'
  subst hq
  obtain ⟨p, now, call⟩ := e
  cases call with
  | failure =>
    rcases noteProviderFailure_row s p now with ⟨-, hsame⟩ | ⟨-, hstr, -⟩
    · exact absurd hsame.2 hlt.ne'
    · exact absurd hstr hlt.ne'
  | verdict reason =>
    rcases noteProviderCapacityVerdict_row s p now reason with ⟨-, hsame⟩ | ⟨-, -, -, -, hstr⟩ |
      ⟨hd, hle, hnew⟩
    · exact absurd hsame.2 hlt.ne'
    · exact absurd hstr hlt.ne'
    · exact climbs_of_ofCapacity hlt (fun _ ↦ Holds.parksAnew_until hd) hle hnew
  | success => exact absurd (noteProviderSuccess_row s p).1 hlt.ne'
  | claim =>
    rcases claimProviderProbe_row s p now with hno | ⟨r, -, -, hyes, -⟩
    · simp only [HoldEvent.after, hno, lt_irrefl] at hlt
    · simp only [HoldEvent.after, hyes, Holds.streak_putHold, lt_irrefl] at hlt
  | finish ok =>
    cases ok with
    | true => exact absurd (finishProviderProbe_ok_row s p now).2 (not_le.mpr hlt)
    | false =>
      cases hr : s.hold p with
      | none => simp only [HoldEvent.after, finishProviderProbe, hr, lt_irrefl] at hlt
      | some r =>
        rcases finishProviderProbe_failed_row s p now hr with ⟨-, -, hstr⟩ | ⟨-, -, -, hstr⟩ |
          ⟨-, hexp, hle, hnew⟩
        · exact absurd hstr hlt.ne'
        · exact absurd hstr hlt.ne'
        · refine climbs_of_ofCapacity hlt (fun h hh ↦ ?_) hle hnew
          rwa [← some_inj.mp (hr.symm.trans hh)]

theorem verdict_keeps_hold {h : ProviderCapacityHold} (hh : s.hold p = some h)
    (hlt : now < h.untilAt) (reason : String) :
    ∃ h', (noteProviderCapacityVerdict s p reason now).1.hold p = some h' ∧
      h'.untilAt = h.untilAt ∧ h'.kind = h.kind ∧ h'.escalations = h.escalations ∧
      (noteProviderCapacityVerdict s p reason now).1.streak p = s.streak p := by
  rcases noteProviderCapacityVerdict_row s p now reason with ⟨-, hsame⟩ | ⟨-, r, hr, hnew, hstr⟩ |
    ⟨hd, -⟩
  · exact ⟨h, hsame.1.trans hh, rfl, rfl, rfl, hsame.2⟩
  · obtain rfl : h = r := some_inj.mp (hh.symm.trans hr)
    exact ⟨_, hnew, rfl, rfl, rfl, hstr⟩
  · exact absurd (Holds.parksAnew_until hd hh) (by omega)

/-- **A capacity park lasts its whole rung.**  In a run none of whose calls is one of the two that
end a park, a provider parked until `h.untilAt` answers `capacity` at every moment before, on the
rung it was parked on.  Wherever the run stands, a verdict on an unexpired hold moves neither its
expiry nor its rung, and a next call that raises the ladder raises it by one rung, finds no hold
running, and sets the capacity hold of the new rung. -/
theorem capacity_park_lasts {s s' : HoldSys} (hr : holdMachine.Run KeepsPark s s') (p : String) :
    (∀ h, s.holds.hold p = some h → h.kind = .capacity → ∀ now, s'.clock ≤ now → now < h.untilAt →
        providerHoldKind s'.holds p now = some .capacity ∧
        ∃ h', s'.holds.hold p = some h' ∧ h'.untilAt = h.untilAt ∧
          h'.escalations = h.escalations ∧ s'.holds.streak p = s.holds.streak p) ∧
    (∀ h, s'.holds.hold p = some h → ∀ (reason : String) (now : ℤ), now < h.untilAt →
      ∃ h', (noteProviderCapacityVerdict s'.holds p reason now).1.hold p = some h' ∧
        h'.untilAt = h.untilAt ∧ h'.kind = h.kind ∧ h'.escalations = h.escalations ∧
        (noteProviderCapacityVerdict s'.holds p reason now).1.streak p = s'.holds.streak p) ∧
    ∀ e s'', holdMachine.step s' e = some s'' → s'.holds.streak p < s''.holds.streak p →
      Climbs s'.holds s''.holds p s''.clock := by
  refine ⟨fun h hh hk now hnow hlt ↦ ?_, fun h hh reason now hlt ↦ verdict_keeps_hold hh hlt reason,
    fun e s'' hs hlt ↦ ?_⟩
  · have hpark : ParkedAt s'.holds p h.untilAt h.escalations (s.holds.streak p) :=
      run_keeps_park hr ⟨h, hh, hk, rfl, rfl, rfl⟩ (hnow.trans_lt hlt)
    obtain ⟨h', hh', -, hu, hesc, hstr⟩ := id hpark
    exact ⟨hpark.holdKind hlt, h', hh', hu, hesc, hstr⟩
  · obtain ⟨-, hh, hclock, -⟩ := holdStep_eq_some hs
    rw [hh] at hlt ⊢
    rw [hclock]
    exact call_rung hlt

/-- The module as it is loaded, at time `0`. -/
def HoldSys.start : HoldSys := ⟨.empty, 0, fun _ ↦ .zero⟩

theorem HoldSys.start_init : holdMachine.init .start := ⟨rfl, rfl⟩

/-- The official account, parked at `10` by its second verdict. -/
def HoldSys.parked : HoldSys :=
  holdMachine.play .start
    [⟨"openai", 0, .verdict "overloaded"⟩, ⟨"openai", 10, .verdict "overloaded"⟩]

/-- Three failures within a few seconds. -/
def failuresAt (now : ℤ) : List HoldEvent :=
  [⟨"openai", now, .failure⟩, ⟨"openai", now + 1000, .failure⟩, ⟨"openai", now + 2000, .failure⟩]

/-- Three failures early in a park leave it standing to its last millisecond. -/
theorem capacity_park_outlasts_failures :
    providerHoldKind (holdMachine.play .parked (failuresAt 100000)).holds "openai" 600009 =
      some .capacity :=
  ((capacity_park_lasts (Machine.run_play (by decide +kernel)) "openai").1
    ⟨600010, 1, "overloaded", .capacity, some 10, false, none, 0⟩ (by decide +kernel) rfl 600009
    (by decide +kernel) (by decide)).1

/-- Three failures in the last ninety seconds of a park turn it into a relay's short hold, with a
second of the park still to run. -/
theorem capacity_park_cut_short : ∃ s s' : HoldSys, holdMachine.Reachable s ∧
      holdMachine.Run (fun _ e ↦ e.call = .failure) s s' ∧
      (∃ h, s.holds.hold "openai" = some h ∧ h.kind = .capacity ∧ h.untilAt = 600010) ∧
      s'.clock = 599000 ∧ providerHoldKind s'.holds "openai" 599000 = some .failures :=
  ⟨.parked, holdMachine.play .parked (failuresAt 597000),
    ⟨_, HoldSys.start_init, Machine.run_play (by decide +kernel)⟩,
    Machine.run_play (by decide +kernel),
    ⟨⟨600010, 1, "overloaded", .capacity, some 10, false, none, 0⟩, by decide +kernel, rfl, rfl⟩,
    by decide +kernel, by decide +kernel⟩

end Combo
