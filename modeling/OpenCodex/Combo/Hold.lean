import OpenCodex.Data.OMap

/-!
# Provider holds

A combo walks a list of `provider/model` targets, and a provider that keeps failing is *held*: its
rows step aside for every combo at once.  There are two kinds of hold, and they share one record
per provider:

* a **capacity** hold is the official account's park.  Two capacity verdicts inside half an hour
  set it, it lasts one rung of `capacityHoldLadderMs`, and a verdict after it has expired climbs to
  the next rung;
* a **failures** hold is a relay's short demotion.  Three failures inside a quarter of an hour set
  it, a background probe re-checks the channel while it lasts, and the first success clears it.

Six entry points write that record, and this file is what each of them computes.  `Holds` is the
module's four maps; every function takes them and gives them back.  A provider is read through
`Holds.hold` and `Holds.streak`, and for each function there is one lemma saying what it can do to
those two (`noteProviderFailure_hold`, `holdProviderForCapacity_hold`, …); nothing after this file
unfolds the maps.

Times are milliseconds, as integers: a call may carry any clock value, and the code subtracts them.
-/

set_option autoImplicit false

namespace Combo

/-! ## Constants -/

def providerFailureWindowMs : ℤ := 15 * 60000

def providerFailureLimit : ℕ := 3

/-- How long a relay stays demoted after it tripped the shared failure ledger. -/
def providerFailureHoldMs : ℤ := 90000

/-- Background re-checks per hold. -/
def relayProbeMax : ℕ := 5

def relayProbeMinIntervalMs : ℤ := 30000

def relayProbeGiveUpHoldMs : ℤ := 5 * 60000

/-- The rungs of a capacity hold: ten minutes, then 1 h, 3 h, 6 h, 12 h, and 24 h from then on. -/
def capacityHoldLadderMs : List ℤ := [10, 60, 180, 360, 720, 1440].map (· * 60000)

/-- A rung decays after a full quiet day. -/
def capacityRungResetMs : ℤ := 24 * 60 * 60 * 1000

def capacityHitWindowMs : ℤ := 30 * 60000

def capacityHitLimit : ℕ := 2

/-! ## The record and the maps -/

inductive HoldKind where
  | capacity
  | failures
  deriving DecidableEq, Repr

/-- One provider's hold.  The source's optional `probing` and `probes` are read only through
`=== true` and `?? 0`, so absence is `false` and `0` here; every writer sets `kind`. -/
structure ProviderCapacityHold where
  /-- The hold has expired from this moment on (`until` in the source). -/
  untilAt : ℤ
  /-- The rung, for a capacity hold; the number of trips, for a relay's. -/
  escalations : ℕ
  reason : String
  kind : HoldKind
  /-- The last capacity verdict seen, by which the rung decays. -/
  lastHitAt : Option ℤ
  /-- A half-open trial is in flight. -/
  probing : Bool
  lastProbeAt : Option ℤ
  /-- Failed background re-checks. -/
  probes : ℕ
  deriving DecidableEq, Repr

/-- The module's four maps. -/
structure Holds where
  providerCapacityHolds : OMap String ProviderCapacityHold
  providerFailureTimes : OMap String (List ℤ)
  /-- Consecutive capacity verdicts, which index the ladder. -/
  providerCapacityStreaks : OMap String ℕ
  providerCapacityHits : OMap String (List ℤ)
  deriving DecidableEq

namespace Holds

def empty : Holds := ⟨.empty, .empty, .empty, .empty⟩

variable (s : Holds) (provider : String) (now : ℤ)

/-- The provider's hold record, expired or not. -/
def hold : Option ProviderCapacityHold := s.providerCapacityHolds.get? provider

/-- The provider's place on the ladder. -/
def streak : ℕ := (s.providerCapacityStreaks.get? provider).getD 0

/-- The failures that still count at `now`, the one being noted left out. -/
def recentFailures : List ℤ :=
  ((s.providerFailureTimes.get? provider).getD []).filter fun t ↦ now - t < providerFailureWindowMs

/-- The capacity verdicts that still count at `now`, the one being noted left out. -/
def recentHits : List ℤ :=
  ((s.providerCapacityHits.get? provider).getD []).filter fun t ↦ now - t < capacityHitWindowMs

/-! ### Writing the maps

One definition for each map, and what it does to the two things that are read. -/

def putHold (h : ProviderCapacityHold) : Holds :=
  { s with providerCapacityHolds := s.providerCapacityHolds.set provider h }

def dropHold : Holds :=
  { s with providerCapacityHolds := s.providerCapacityHolds.delete provider }

def putFailures (times : List ℤ) : Holds :=
  { s with providerFailureTimes := s.providerFailureTimes.set provider times }

def dropFailures : Holds :=
  { s with providerFailureTimes := s.providerFailureTimes.delete provider }

def putStreak (n : ℕ) : Holds :=
  { s with providerCapacityStreaks := s.providerCapacityStreaks.set provider n }

def putHits (times : List ℤ) : Holds :=
  { s with providerCapacityHits := s.providerCapacityHits.set provider times }

/-- Forget the provider's streak and the verdicts behind it. -/
def dropStreak : Holds :=
  { s with
    providerCapacityStreaks := s.providerCapacityStreaks.delete provider
    providerCapacityHits := s.providerCapacityHits.delete provider }

variable {s provider} {q : String}

@[simp] theorem hold_putHold_self (h : ProviderCapacityHold) :
    (s.putHold provider h).hold provider = some h := OMap.get?_set_self ..

theorem hold_putHold_of_ne (hq : q ≠ provider) (h : ProviderCapacityHold) :
    (s.putHold provider h).hold q = s.hold q := OMap.get?_set_of_ne _ hq _

@[simp] theorem hold_dropHold_self : (s.dropHold provider).hold provider = none :=
  OMap.get?_delete_self ..

theorem hold_dropHold_of_ne (hq : q ≠ provider) : (s.dropHold provider).hold q = s.hold q :=
  OMap.get?_delete_of_ne _ hq

variable (l : List ℤ)

@[simp] theorem hold_putFailures : (s.putFailures provider l).hold q = s.hold q := rfl

@[simp] theorem hold_dropFailures : (s.dropFailures provider).hold q = s.hold q := rfl

@[simp] theorem hold_dropStreak : (s.dropStreak provider).hold q = s.hold q := rfl

@[simp] theorem streak_putHold (h : ProviderCapacityHold) :
    (s.putHold provider h).streak q = s.streak q := rfl

@[simp] theorem streak_dropHold : (s.dropHold provider).streak q = s.streak q := rfl

@[simp] theorem streak_dropFailures : (s.dropFailures provider).streak q = s.streak q := rfl

@[simp] theorem streak_putStreak_self (n : ℕ) : (s.putStreak provider n).streak provider = n := by
  simp only [streak, putStreak, OMap.get?_set_self, Option.getD_some]

theorem streak_putStreak_of_ne (hq : q ≠ provider) (n : ℕ) :
    (s.putStreak provider n).streak q = s.streak q := by
  simp only [streak, putStreak, OMap.get?_set_of_ne _ hq]

@[simp] theorem streak_dropStreak_self : (s.dropStreak provider).streak provider = 0 := by
  simp only [streak, dropStreak, OMap.get?_delete_self, Option.getD_none]

theorem streak_dropStreak_of_ne (hq : q ≠ provider) :
    (s.dropStreak provider).streak q = s.streak q := by
  simp only [streak, dropStreak, OMap.get?_delete_of_ne _ hq]

end Holds

namespace ProviderCapacityHold

/-- The record of a claimed probe. -/
def claimed (h : ProviderCapacityHold) (now : ℤ) : ProviderCapacityHold :=
  { h with probing := true, lastProbeAt := some now }

/-- The record of a relay whose probe failed. -/
def probeFailed (h : ProviderCapacityHold) (now : ℤ) : ProviderCapacityHold :=
  { h with
    untilAt := now +
      (if relayProbeMax ≤ h.probes + 1 then relayProbeGiveUpHoldMs else providerFailureHoldMs)
    probing := false
    probes := h.probes + 1
    lastHitAt := some now }

end ProviderCapacityHold

/-! ## The entry points -/

/-- Record one failed attempt; the answer says whether it tripped a shared hold. -/
def noteProviderFailure (s : Holds) (provider : String) (now : ℤ) : Holds × Bool :=
  let times := s.recentFailures provider now ++ [now]
  let s := s.putFailures provider times
  if times.length < providerFailureLimit then (s, false)
  else
    let existing := s.hold provider
    let untilAt := now + providerFailureHoldMs
    if existing.any fun h ↦ decide (untilAt ≤ h.untilAt) then (s, true)
    else
      (s.putHold provider
        { untilAt
          escalations := (existing.map (·.escalations)).getD 0 + 1
          reason := "repeated failures (" ++ toString times.length ++ " in 15min)"
          kind := .failures
          lastHitAt := none
          probing := false
          lastProbeAt := none
          probes := 0 }, true)

def isProviderCapacityHeld (s : Holds) (provider : String) (now : ℤ) : Bool :=
  (s.hold provider).any fun h ↦ decide (now < h.untilAt) || h.probing

/-- Which kind of hold is active, if any. -/
def providerHoldKind (s : Holds) (provider : String) (now : ℤ) : Option HoldKind :=
  match s.hold provider with
  | none => none
  | some h => if h.untilAt ≤ now ∧ h.probing = false then none else some h.kind

/-- The hold, while it has not expired. -/
def providerCapacityHold (s : Holds) (provider : String) (now : ℤ) : Option ProviderCapacityHold :=
  (s.hold provider).filter fun h ↦ decide (now < h.untilAt)

/-- Claim the probe a hold allows: one per expiry for a capacity hold, spaced and bounded ones while
a relay is demoted. -/
def claimProviderProbe (s : Holds) (provider : String) (now : ℤ) : Holds × Bool :=
  match s.hold provider with
  | none => (s, false)
  | some h =>
    if h.probing = true then (s, false)
    else if h.kind = .capacity then
      if now < h.untilAt then (s, false)
      else if h.untilAt ≤ h.lastProbeAt.getD 0 then (s, false)
      else (s.putHold provider (h.claimed now), true)
    else if relayProbeMax ≤ h.probes then (s, false)
    else if now - h.lastProbeAt.getD 0 < relayProbeMinIntervalMs then (s, false)
    else (s.putHold provider (h.claimed now), true)

/-- Park a provider after a capacity verdict; the answer is the hold it now carries. -/
def holdProviderForCapacity (s : Holds) (provider reason : String) (now : ℤ) :
    Holds × ProviderCapacityHold :=
  let previous := s.hold provider
  match previous.filter fun h ↦ decide (now < h.untilAt) with
  | some h =>
    let activity := { h with lastHitAt := some now }
    (s.putHold provider activity, activity)
  | none =>
    let quiet := (previous.bind (·.lastHitAt)).any fun t ↦ decide (capacityRungResetMs < now - t)
    let streak := (if quiet then 0 else s.streak provider) + 1
    let holdMs := capacityHoldLadderMs.getD (min streak capacityHoldLadderMs.length - 1) 0
    let hold : ProviderCapacityHold :=
      { untilAt := now + holdMs
        escalations := streak
        reason
        kind := .capacity
        lastHitAt := some now
        probing := false
        lastProbeAt := none
        probes := 0 }
    ((s.putStreak provider streak).putHold provider hold, hold)

/-- The outcome of a half-open trial: success re-admits the provider, failure re-arms a relay's
hold or lets an expired capacity hold climb. -/
def finishProviderProbe (s : Holds) (provider : String) (ok : Bool) (now : ℤ) : Holds :=
  match s.hold provider with
  | none => s
  | some h =>
    let s := s.putHold provider { h with probing := false }
    if ok = true then (s.dropHold provider).dropStreak provider
    else if h.kind ≠ .capacity then s.putHold provider (h.probeFailed now)
    else (holdProviderForCapacity s provider "half-open probe failed" now).1

/-- Count a capacity verdict, and park the provider once there were several. -/
def noteProviderCapacityVerdict (s : Holds) (provider reason : String) (now : ℤ) :
    Holds × Option ProviderCapacityHold :=
  let hits := s.recentHits provider now ++ [now]
  let s := s.putHits provider hits
  if hits.length < capacityHitLimit then (s, none)
  else
    let r := holdProviderForCapacity s provider reason now
    (r.1, some r.2)

/-- A success clears a relay's hold and its failures, and leaves a capacity hold alone. -/
def noteProviderSuccess (s : Holds) (provider : String) : Holds :=
  let s :=
    if (s.hold provider).all fun h ↦ decide (h.kind ≠ .capacity) then s.dropHold provider else s
  s.dropFailures provider

/-! ## What each entry point can do to a provider -/

namespace ProviderCapacityHold

/-- The record of a relay that tripped the failure ledger at `now`. -/
def OfFailures (h : ProviderCapacityHold) (now : ℤ) : Prop :=
  h.untilAt = now + providerFailureHoldMs ∧ h.kind = .failures ∧ h.probing = false ∧
    h.lastProbeAt = none ∧ h.probes = 0

/-- A capacity hold on its way up the ladder: rung `streak`, set at `now`. -/
def OfCapacity (h : ProviderCapacityHold) (streak : ℕ) (now : ℤ) : Prop :=
  now < h.untilAt ∧ h.kind = .capacity ∧ h.escalations = streak ∧ h.lastHitAt = some now ∧
    h.probing = false ∧ h.lastProbeAt = none ∧ h.probes = 0

end ProviderCapacityHold

theorem ladder_pos (streak : ℕ) :
    0 < capacityHoldLadderMs.getD (min streak capacityHoldLadderMs.length - 1) 0 := by
  have key : ∀ k ≤ 5, 0 < capacityHoldLadderMs.getD k 0 := by decide
  refine key _ ?_
  have hl : capacityHoldLadderMs.length = 6 := rfl
  omega

namespace Holds

/-- A failure at `now` sets a new relay hold: it reaches the limit, and what stands would expire
first. -/
def demotes (s : Holds) (provider : String) (now : ℤ) : Bool :=
  decide (providerFailureLimit ≤ (s.recentFailures provider now).length + 1) &&
    !(s.hold provider).any fun h ↦ decide (now + providerFailureHoldMs ≤ h.untilAt)

/-- A verdict at `now` sets a new capacity hold: it reaches the limit, and no hold is running. -/
def parksAnew (s : Holds) (provider : String) (now : ℤ) : Bool :=
  decide (capacityHitLimit ≤ (s.recentHits provider now).length + 1) &&
    !(s.hold provider).any fun h ↦ decide (now < h.untilAt)

theorem parksAnew_until {s : Holds} {p : String} {now : ℤ} (hd : s.parksAnew p now = true)
    {h : ProviderCapacityHold} (hh : s.hold p = some h) : h.untilAt ≤ now := by
  rw [parksAnew, hh, Bool.and_eq_true] at hd
  simpa using hd.2

/-- Nothing about the provider's hold or its place on the ladder has changed. -/
def SameRow (s s' : Holds) (provider : String) : Prop :=
  s'.hold provider = s.hold provider ∧ s'.streak provider = s.streak provider

theorem SameRow.refl (s : Holds) (provider : String) : SameRow s s provider := ⟨rfl, rfl⟩

theorem SameRow.trans {s₁ s₂ s₃ : Holds} {provider : String} (h₁ : SameRow s₁ s₂ provider)
    (h₂ : SameRow s₂ s₃ provider) : SameRow s₁ s₃ provider :=
  ⟨h₂.1.trans h₁.1, h₂.2.trans h₁.2⟩

end Holds

section Rows

variable (s : Holds) (p : String) (now : ℤ)

theorem noteProviderFailure_row :
    (s.demotes p now = false ∧ s.SameRow (noteProviderFailure s p now).1 p) ∨
    (s.demotes p now = true ∧ (noteProviderFailure s p now).1.streak p = s.streak p ∧
      ∃ h, (noteProviderFailure s p now).1.hold p = some h ∧ h.OfFailures now) := by
  simp only [noteProviderFailure, Holds.hold_putFailures, List.length_append,
    List.length_singleton, Holds.demotes]
  split
  · rename_i hlen
    exact .inl ⟨by rw [decide_eq_false (not_le.mpr hlen), Bool.false_and], rfl, rfl⟩
  · split
    · rename_i hex
      exact .inl ⟨by rw [hex, Bool.not_true, Bool.and_false], rfl, rfl⟩
    · rename_i hlen hex
      refine .inr ⟨?_, rfl, _, Holds.hold_putHold_self _, rfl, rfl, rfl, rfl, rfl⟩
      rw [decide_eq_true (not_lt.mp hlen), eq_false_of_ne_true hex]
      rfl

/-- A claim that succeeds finds a record with no trial in flight, marks it, and is spaced and
bounded as the record's kind asks. -/
theorem claimProviderProbe_row : claimProviderProbe s p now = (s, false) ∨
    ∃ h, s.hold p = some h ∧ h.probing = false ∧
      claimProviderProbe s p now = (s.putHold p (h.claimed now), true) ∧
      (h.kind = .capacity → h.untilAt ≤ now) ∧ (h.kind = .failures → h.probes < relayProbeMax ∧
        relayProbeMinIntervalMs ≤ now - h.lastProbeAt.getD 0) := by
  rw [claimProviderProbe]
  cases hh : s.hold p with
  | none => exact .inl rfl
  | some h =>
    dsimp only
    split_ifs with hp hk h₁ h₂ h₁ h₂
    · exact .inl rfl
    · exact .inl rfl
    · exact .inl rfl
    · exact .inr ⟨h, rfl, by simpa using hp, rfl, fun _ ↦ by omega,
        fun hf ↦ absurd (hk.symm.trans hf) (by decide)⟩
    · exact .inl rfl
    · exact .inl rfl
    · exact .inr ⟨h, rfl, by simpa using hp, rfl, fun hc ↦ absurd hc hk,
        fun _ ↦ ⟨by omega, by omega⟩⟩

/-- A verdict on a hold that has not expired is noted as activity; after that it climbs. -/
theorem holdProviderForCapacity_row (reason : String) : (∃ h, s.hold p = some h ∧ now < h.untilAt ∧
      (holdProviderForCapacity s p reason now).1.hold p = some { h with lastHitAt := some now } ∧
      (holdProviderForCapacity s p reason now).1.streak p = s.streak p) ∨
    ((∀ h, s.hold p = some h → h.untilAt ≤ now) ∧
      (holdProviderForCapacity s p reason now).1.streak p ≤ s.streak p + 1 ∧
      ∃ h, (holdProviderForCapacity s p reason now).1.hold p = some h ∧
        h.OfCapacity ((holdProviderForCapacity s p reason now).1.streak p) now) := by
  rw [holdProviderForCapacity]
  cases hf : (s.hold p).filter fun h ↦ decide (now < h.untilAt) with
  | some h =>
    obtain ⟨hh, hlt⟩ := Option.filter_eq_some_iff.mp hf
    exact .inl ⟨h, hh, by simpa using hlt, Holds.hold_putHold_self _, rfl⟩
  | none =>
    have hexp : ∀ h, s.hold p = some h → h.untilAt ≤ now := fun h hh ↦ by
      rw [hh] at hf
      simpa [Option.filter] using hf
    simp only [Holds.streak_putHold, Holds.streak_putStreak_self]
    refine .inr ⟨hexp, ?_, _, Holds.hold_putHold_self _, lt_add_of_pos_right _ (ladder_pos _),
      rfl, rfl, rfl, rfl, rfl, rfl⟩
    split <;> omega

theorem noteProviderCapacityVerdict_row (reason : String) :
    (s.parksAnew p now = false ∧ s.SameRow (noteProviderCapacityVerdict s p reason now).1 p) ∨
    (s.parksAnew p now = false ∧ ∃ h, s.hold p = some h ∧
      (noteProviderCapacityVerdict s p reason now).1.hold p =
        some { h with lastHitAt := some now } ∧
      (noteProviderCapacityVerdict s p reason now).1.streak p = s.streak p) ∨
    (s.parksAnew p now = true ∧
      (noteProviderCapacityVerdict s p reason now).1.streak p ≤ s.streak p + 1 ∧
      ∃ h, (noteProviderCapacityVerdict s p reason now).1.hold p = some h ∧
        h.OfCapacity ((noteProviderCapacityVerdict s p reason now).1.streak p) now) := by
  simp only [noteProviderCapacityVerdict, List.length_append, List.length_singleton,
    Holds.parksAnew]
  split
  · rename_i hlen
    exact .inl ⟨by rw [decide_eq_false (not_le.mpr hlen), Bool.false_and], rfl, rfl⟩
  · rename_i hlen
    rw [decide_eq_true (not_lt.mp hlen), Bool.true_and]
    rcases holdProviderForCapacity_row (s.putHits p (s.recentHits p now ++ [now])) p now reason
      with ⟨h, hh, hlt, hrow⟩ | ⟨hexp, hrow⟩
    · have hh : s.hold p = some h := hh
      exact .inr (.inl ⟨by simp [hh, hlt], h, hh, hrow⟩)
    · refine .inr (.inr ⟨?_, hrow⟩)
      cases hh : s.hold p with
      | none => rfl
      | some h => simpa using hexp h hh

theorem noteProviderSuccess_row : (noteProviderSuccess s p).streak p = s.streak p ∧
      (noteProviderSuccess s p).hold p = (s.hold p).filter fun h ↦ decide (h.kind = .capacity) := by
  rw [noteProviderSuccess]
  cases hh : s.hold p with
  | none => simp
  | some h =>
    by_cases hk : h.kind = .capacity
    · simp [hk, hh, Option.filter]
    · simp [hk, Option.filter]

theorem finishProviderProbe_ok_row : (finishProviderProbe s p true now).hold p = none ∧
    (finishProviderProbe s p true now).streak p ≤ s.streak p := by
  rw [finishProviderProbe]
  cases hh : s.hold p with
  | none => exact ⟨hh, le_rfl⟩
  | some h => simp

/-- A trial that fails re-arms a relay's hold, and lets a capacity hold climb once it has
expired. -/
theorem finishProviderProbe_failed_row {h : ProviderCapacityHold} (hh : s.hold p = some h) :
    (h.kind = .failures ∧ (finishProviderProbe s p false now).hold p = some (h.probeFailed now) ∧
      (finishProviderProbe s p false now).streak p = s.streak p) ∨
    (h.kind = .capacity ∧ now < h.untilAt ∧ (finishProviderProbe s p false now).hold p =
        some { h with probing := false, lastHitAt := some now } ∧
      (finishProviderProbe s p false now).streak p = s.streak p) ∨
    (h.kind = .capacity ∧ h.untilAt ≤ now ∧
      (finishProviderProbe s p false now).streak p ≤ s.streak p + 1 ∧
      ∃ h', (finishProviderProbe s p false now).hold p = some h' ∧
        h'.OfCapacity ((finishProviderProbe s p false now).streak p) now) := by
  simp only [finishProviderProbe, hh, Bool.false_eq_true, if_false]
  split
  · rename_i hk
    refine .inl ⟨?_, Holds.hold_putHold_self _, rfl⟩
    cases hc : h.kind with
    | failures => rfl
    | capacity => exact absurd hc hk
  · rename_i hk
    have hk : h.kind = .capacity := not_not.mp hk
    rcases holdProviderForCapacity_row (s.putHold p { h with probing := false }) p now
        "half-open probe failed" with ⟨h', hh', hlt, hnew, hstr⟩ | ⟨hexp, hstr, hnew⟩
    · rw [Holds.hold_putHold_self, Option.some_inj] at hh'
      subst hh'
      exact .inr (.inl ⟨hk, hlt, hnew, hstr⟩)
    · exact .inr (.inr ⟨hk, hexp { h with probing := false } (Holds.hold_putHold_self _), hstr, hnew⟩)

end Rows

/-! ## What no entry point does: touch another provider -/

section Frame

variable (s : Holds) {p q : String} (hq : q ≠ p) (now : ℤ)
include hq

theorem noteProviderFailure_frame : s.SameRow (noteProviderFailure s p now).1 q := by
  rw [noteProviderFailure]
  dsimp only
  split_ifs
  · exact ⟨rfl, rfl⟩
  · exact ⟨rfl, rfl⟩
  · exact ⟨Holds.hold_putHold_of_ne hq _, rfl⟩

theorem claimProviderProbe_frame : s.SameRow (claimProviderProbe s p now).1 q := by
  rcases claimProviderProbe_row s p now with h | ⟨h, _, _, he, _⟩
  · rw [h]
    exact .refl ..
  · rw [he]
    exact ⟨Holds.hold_putHold_of_ne hq _, rfl⟩

theorem holdProviderForCapacity_frame (reason : String) :
    s.SameRow (holdProviderForCapacity s p reason now).1 q := by
  rw [holdProviderForCapacity]
  dsimp only
  split
  · exact ⟨Holds.hold_putHold_of_ne hq _, rfl⟩
  · exact ⟨Holds.hold_putHold_of_ne hq _, Holds.streak_putStreak_of_ne hq _⟩

theorem noteProviderCapacityVerdict_frame (reason : String) :
    s.SameRow (noteProviderCapacityVerdict s p reason now).1 q := by
  rw [noteProviderCapacityVerdict]
  dsimp only
  split
  · exact ⟨rfl, rfl⟩
  · exact holdProviderForCapacity_frame (s.putHits p _) hq now reason

theorem finishProviderProbe_frame (ok : Bool) : s.SameRow (finishProviderProbe s p ok now) q := by
  rw [finishProviderProbe]
  cases s.hold p with
  | none => exact .refl ..
  | some h =>
    have hset : s.SameRow (s.putHold p { h with probing := false }) q :=
      ⟨Holds.hold_putHold_of_ne hq _, rfl⟩
    dsimp only
    split_ifs
    · exact hset.trans ⟨Holds.hold_dropHold_of_ne hq, Holds.streak_dropStreak_of_ne hq⟩
    · exact hset.trans ⟨Holds.hold_putHold_of_ne hq _, rfl⟩
    · exact hset.trans (holdProviderForCapacity_frame _ hq now _)

theorem noteProviderSuccess_frame : s.SameRow (noteProviderSuccess s p) q := by
  rw [noteProviderSuccess]
  split
  · exact ⟨Holds.hold_dropHold_of_ne hq, rfl⟩
  · exact ⟨rfl, rfl⟩

end Frame

end Combo
