import OpenCodex.Translator.Budget
import OpenCodex.Data.Machine

/-!
# The process's translator accounts

All budgets of a process, with the handles they gave out, as a machine.  What should hold in every
state is `Exact`: each budget's hard-charged bytes are what it holds under its kinds and its calls,
within the turn's limit, and the two aggregates are the sums over the live budgets.

Two operations can break it.  A charge for a call that was never opened makes the budget track the
call without counting it as active, so closing it takes away the count of some other call.  And a
handle gives back what it reserved even if a plain release has already given back part of it.
`Meets` says of each event that it does neither; a step from an exact state leads to an exact state
just when its event meets it (`step_exact_iff`), so runs whose events all do keep exact accounts
(`translator_accounts_exact`).
-/

set_option autoImplicit false

open Option OMap

namespace Translator

/-! ## The process -/

structure Process where
  /-- Every budget that was created, also when it is disposed. -/
  budgets : OMap ℕ Budget
  /-- The handles given out, each with its budget. -/
  reservations : OMap ℕ (ℕ × Budget.Reservation)
  observations : OMap ℕ (ℕ × Budget.Observation)
  retainedEventOwnership : OMap ℕ Ownership
  aggregates : Aggregates

def Process.start : Process := ⟨.empty, .empty, .empty, .empty, ⟨0, 0, 0, 0⟩⟩

inductive Event where
  | create (id : ℕ) (options : TranslatorBudgetOptions)
  | openCall (id : ℕ) (callId : String)
  | closeCall (id : ℕ) (callId : String)
  | reserveTransient (id handle : ℕ) (bytes : Option ℚ) (scope : ChargeScope)
  | commitRetained (handle : ℕ)
  | release (handle : ℕ)
  | chargeRetained (id : ℕ) (delta : Option ℚ) (scope : ChargeScope)
  | releaseRetained (id : ℕ) (bytes : Option ℚ) (scope : ChargeScope)
  | observe (id handle : ℕ) (bytes : Option ℚ)
  | unobserve (handle : ℕ)
  | dispose (id : ℕ)
  | retainTranslatedEvent (id event serializedBytes : ℕ) (previousTail : Option ℕ)
  | retainTranslatedEventBatch (id : ℕ) (events : List (ℕ × ℕ))
  | releaseTranslatedEvent (id event : ℕ)

namespace Process

variable (p : Process)

/-- Write a budget and the aggregates back. -/
def put (id : ℕ) (books : Budget × Aggregates) : Process :=
  { p with budgets := p.budgets.set id books.1, aggregates := books.2 }

/-- An operation on one budget. -/
def onBudget (id : ℕ) (f : Budget → Aggregates → Budget × Aggregates) : Option Process :=
  (p.budgets.get? id).map fun b ↦ p.put id (f b p.aggregates)

/-- Write a handle. -/
def putReservation (handle id : ℕ) (r : Budget.Reservation) : Process :=
  { p with reservations := p.reservations.set handle (id, r) }

def putObservation (handle id : ℕ) (o : Budget.Observation) : Process :=
  { p with observations := p.observations.set handle (id, o) }

end Process

/-- What an event does; a new budget or handle gets a number that was not used before. -/
def step (p : Process) : Event → Option Process
  | .create id options =>
    if p.budgets.has id then none
    else some (p.put id (.create options, observeAggregate p.aggregates))
  | .openCall id callId => p.onBudget id fun b agg ↦ b.openCall agg callId
  | .closeCall id callId => p.onBudget id fun b agg ↦ b.closeCall agg callId
  | .reserveTransient id handle bytes scope =>
    if p.reservations.has handle then none
    else (p.budgets.get? id).map fun b ↦
      match b.reserveTransient p.aggregates bytes scope with
      | (.error _, books) => p.put id books
      | (.ok r, books) => (p.put id books).putReservation handle id r
  | .commitRetained handle =>
    (p.reservations.get? handle).bind fun h ↦ (p.budgets.get? h.1).map fun b ↦
      let r := b.commitRetained p.aggregates h.2
      (p.put h.1 r.2).putReservation handle h.1 r.1
  | .release handle =>
    (p.reservations.get? handle).bind fun h ↦ (p.budgets.get? h.1).map fun b ↦
      let r := b.release p.aggregates h.2
      (p.put h.1 r.2).putReservation handle h.1 r.1
  | .chargeRetained id delta scope => p.onBudget id fun b agg ↦ (b.chargeRetained agg delta scope).2
  | .releaseRetained id bytes scope => p.onBudget id fun b agg ↦ b.releaseRetained agg bytes scope
  | .observe id handle bytes =>
    if p.observations.has handle then none
    else (p.budgets.get? id).map fun b ↦
      let r := b.observe p.aggregates bytes
      (p.put id r.2).putObservation handle id r.1
  | .unobserve handle =>
    (p.observations.get? handle).bind fun h ↦ (p.budgets.get? h.1).map fun b ↦
      let r := b.unobserve p.aggregates h.2
      (p.put h.1 r.2).putObservation handle h.1 r.1
  | .dispose id => p.onBudget id fun b agg ↦ b.dispose agg
  | .retainTranslatedEvent id event serializedBytes previousTail =>
    (p.budgets.get? id).map fun b ↦
      let r := retainTranslatedEvent p.retainedEventOwnership id b p.aggregates event
        serializedBytes previousTail
      { p.put id r.2.2 with retainedEventOwnership := r.2.1 }
  | .retainTranslatedEventBatch id events =>
    (p.budgets.get? id).map fun b ↦
      let r := retainTranslatedEventBatch p.retainedEventOwnership id b p.aggregates events
      { p.put id r.2.2 with retainedEventOwnership := r.2.1 }
  | .releaseTranslatedEvent id event =>
    (p.budgets.get? id).map fun b ↦
      let r := releaseTranslatedEvent p.retainedEventOwnership id b p.aggregates event
      { p.put id r.2 with retainedEventOwnership := r.1 }

/-- The runs of the translator accounts of one process. -/
def processMachine : Machine Process Event where
  init p := p = .start
  step := step

/-! ## Exact accounts -/

/-- What a budget holds under its kinds and with its calls. -/
def Budget.heldBytes (b : Budget) : ℕ :=
  b.charged.total (fun _ n ↦ n) + b.calls.total fun _ c ↦ c.physicalBytes

/-- What holds of a budget whatever is done with it. -/
structure Budget.Sound (b : Budget) : Prop where
  current : b.currentBytes = b.hardChargedBytes + b.observedBytes
  bound : b.hardChargedBytes ≤ b.maxTurnBytes
  cleared : b.disposed = true → b.calls = .empty ∧ b.charged.total (fun _ n ↦ n) = 0 ∧
    b.hardChargedBytes = 0 ∧ b.observedBytes = 0

/-- A sum over the live budgets. -/
def Process.live (p : Process) (f : Budget → ℕ) : ℕ :=
  p.budgets.total fun _ b ↦ if b.disposed then 0 else f b

/-- **Exact accounts.** -/
structure Exact (p : Process) : Prop where
  held : ∀ id b, p.budgets.get? id = some b → b.disposed = false → b.hardChargedBytes = b.heldBytes
  bound : ∀ id b, p.budgets.get? id = some b → b.hardChargedBytes ≤ b.maxTurnBytes
  bytes : p.aggregates.currentBytes = p.live fun b ↦ b.hardChargedBytes + b.observedBytes
  calls : p.aggregates.activeCalls = p.live fun b ↦ b.calls.size

/-! ## What an operation does to one budget -/

/-- How an operation moves a budget and the aggregates: soundly, and with the byte aggregate. -/
structure Moves (b : Budget) (agg : Aggregates) (books : Budget × Aggregates) : Prop where
  sound : books.1.Sound
  bytes : books.2.currentBytes = agg.currentBytes + ((books.1.currentBytes : ℤ) - b.currentBytes)

/-- An operation keeps the budget's sum, and the count of active calls goes with its calls. -/
def Keeps (b : Budget) (agg : Aggregates) (books : Budget × Aggregates) : Prop :=
  (books.1.disposed = false → books.1.hardChargedBytes = books.1.heldBytes) ∧
    books.2.activeCalls + b.calls.size = agg.activeCalls + books.1.calls.size

namespace Budget

variable {b b₁ : Budget} {agg agg₁ : Aggregates}

theorem moves_changed (hcurrent : b₁.currentBytes = b.currentBytes)
    (hagg : agg₁.currentBytes = agg.currentBytes) (hbound : b₁.hardChargedBytes ≤ b₁.maxTurnBytes)
    (hcleared : b₁.disposed = true → b₁.calls = .empty ∧ b₁.charged.total (fun _ n ↦ n) = 0 ∧
      b₁.hardChargedBytes = 0 ∧ b₁.observedBytes = 0) : Moves b agg (b₁.changed agg₁) where
  sound := ⟨rfl, hbound, hcleared⟩
  bytes := by
    change agg₁.currentBytes + _ = _
    rw [hagg, hcurrent]
    rfl

theorem moves_same (h : b.Sound) (hagg : agg₁.currentBytes = agg.currentBytes)
    (hsame : b₁.Sound) (hcurrent : b₁.currentBytes = b.currentBytes) : Moves b agg (b₁, agg₁) where
  sound := hsame
  bytes := by
    change agg₁.currentBytes = _
    rw [hagg, hcurrent, sub_self, add_zero]

theorem charged_set (b : Budget) (kind : TranslatorBufferKind) (n : ℕ) :
    (b.charged.set kind n).total (fun _ n ↦ n) + b.chargedFor kind =
      b.charged.total (fun _ n ↦ n) + n := by
  have h := b.charged.total_set kind n fun _ n ↦ n
  rwa [Option.map_id'] at h

theorem chargedFor_le (b : Budget) (kind : TranslatorBufferKind) :
    b.chargedFor kind ≤ b.charged.total fun _ n ↦ n := by
  rw [chargedFor]
  cases h : b.charged.get? kind with
  | none => exact Nat.zero_le _
  | some n => exact OMap.le_total h fun _ n ↦ n

theorem calls_set (b : Budget) (id : String) (c : Call) :
    (b.calls.set id c).total (fun _ c ↦ c.physicalBytes) + (b.callOf id).physicalBytes =
      b.calls.total (fun _ c ↦ c.physicalBytes) + c.physicalBytes := by
  have h := b.calls.total_set id c fun _ c ↦ c.physicalBytes
  have hold : ((b.calls.get? id).map fun c ↦ c.physicalBytes).getD 0 = (b.callOf id).physicalBytes := by
    rw [callOf]
    cases b.calls.get? id with
    | none => rfl
    | some c => rfl
  rwa [hold] at h

theorem size_calls_set (b : Budget) (id : String) (c : Call) :
    (b.calls.set id c).size = b.calls.size ↔ b.calls.has id = true := by
  rw [size_set]
  split
  · rename_i h
    simp [h]
  · rename_i h
    simp [h]

theorem Sound.held (h : b.Sound) (hheld : b.disposed = false → b.hardChargedBytes = b.heldBytes) :
    b.hardChargedBytes = b.heldBytes := by
  cases hd : b.disposed with
  | false => exact hheld hd
  | true =>
    obtain ⟨hcalls, hcharged, hhard, -⟩ := h.cleared hd
    rw [heldBytes, hcalls, hcharged, hhard, total_empty]

theorem keeps_same (hheld : b.hardChargedBytes = b.heldBytes) : Keeps b agg (b, agg) :=
  ⟨fun _ ↦ hheld, rfl⟩

theorem reject_moves (h : b.Sound) : Moves b agg (b.reject agg) :=
  moves_same h rfl ⟨h.current, h.bound, h.cleared⟩ rfl

theorem reject_keeps (hheld : b.hardChargedBytes = b.heldBytes) : Keeps b agg (b.reject agg) :=
  ⟨fun _ ↦ hheld, rfl⟩

/-! ### Calls -/

theorem openCall_moves (h : b.Sound) (id : String) : Moves b agg (b.openCall agg id) := by
  rw [openCall]
  split
  · exact moves_same h rfl h rfl
  · rename_i hnew
    refine moves_same h rfl ⟨h.current, h.bound, ?_⟩ rfl
    intro hd
    have hd' : b.disposed = true := hd
    rw [hd', Bool.true_or] at hnew
    exact absurd rfl hnew

theorem openCall_keeps (hheld : b.hardChargedBytes = b.heldBytes) (id : String) :
    Keeps b agg (b.openCall agg id) := by
  rw [openCall]
  split
  · exact keeps_same hheld
  · rename_i hnew
    rw [Bool.or_eq_true, not_or, Bool.not_eq_true, Bool.not_eq_true] at hnew
    refine ⟨fun _ ↦ ?_, ?_⟩
    · have hnone : (b.callOf id).physicalBytes = 0 := by
        rw [callOf, has_eq_false_iff.mp hnew.2, getD_none]
      have hset := b.calls_set id ⟨0, 0⟩
      rw [hnone, Nat.add_zero, Nat.add_zero] at hset
      change b.hardChargedBytes = b.charged.total (fun _ n ↦ n) + (b.calls.set id ⟨0, 0⟩).total _
      rw [hset]
      exact hheld
    · simp only [size_set, hnew.2, Bool.false_eq_true, if_false]
      omega

theorem closeCall_moves (h : b.Sound) (id : String) : Moves b agg (b.closeCall agg id) := by
  rw [closeCall]
  split
  · exact moves_same h rfl h rfl
  · rename_i call hcall
    refine moves_changed rfl rfl ((Nat.sub_le _ _).trans h.bound) ?_
    intro hd
    rw [(h.cleared hd).1] at hcall
    nomatch hcall

theorem closeCall_keeps (hheld : b.hardChargedBytes = b.heldBytes)
    (hactive : b.calls.size ≤ agg.activeCalls) (id : String) :
    Keeps b agg (b.closeCall agg id) := by
  rw [closeCall]
  split
  · exact keeps_same hheld
  · rename_i call hcall
    have hbytes := total_delete hcall fun _ c ↦ c.physicalBytes
    have hsize := size_delete_of_has (has_of_get? hcall)
    rw [heldBytes] at hheld
    refine ⟨fun _ ↦ ?_, ?_⟩
    · change b.hardChargedBytes - call.physicalBytes = b.charged.total _ + (b.calls.delete id).total _
      omega
    · change agg.activeCalls - 1 + b.calls.size = agg.activeCalls + (b.calls.delete id).size
      omega

/-! ### Charges under a kind -/

theorem reserveTransient_moves (h : b.Sound) (bytes : Option ℚ) (scope : ChargeScope) :
    Moves b agg (b.reserveTransient agg bytes scope).2 := by
  rw [reserveTransient]
  split
  · exact moves_same h rfl h rfl
  · rename_i hlive
    simp only
    split
    · exact reject_moves h
    · split
      · exact reject_moves h
      · rename_i hfits
        refine moves_changed rfl rfl ?_ fun hd ↦ absurd hd hlive
        simpa [overTurn] using hfits

theorem reserveTransient_keeps (hheld : b.hardChargedBytes = b.heldBytes) (bytes : Option ℚ)
    (scope : ChargeScope) : Keeps b agg (b.reserveTransient agg bytes scope).2 := by
  rw [reserveTransient]
  split
  · exact keeps_same hheld
  · simp only
    split
    · exact reject_keeps hheld
    · split
      · exact reject_keeps hheld
      · refine ⟨fun _ ↦ ?_, rfl⟩
        have hset := b.charged_set scope.kind (b.chargedFor scope.kind + normalizeBytes bytes)
        rw [heldBytes] at hheld
        change b.hardChargedBytes + normalizeBytes bytes = (b.charged.set _ _).total (fun _ n ↦ n) +
          b.calls.total fun _ c ↦ c.physicalBytes
        omega

theorem release_moves (h : b.Sound) (r : Reservation) : Moves b agg (b.release agg r).2 := by
  rw [release]
  split
  · exact moves_same h rfl h rfl
  · split
    · exact moves_same h rfl h rfl
    · rename_i hlive
      exact moves_changed rfl rfl ((Nat.sub_le _ _).trans h.bound) fun hd ↦ absurd hd hlive

/-- A handle that is released keeps the sum if its bytes are still there, or if nothing else is. -/
theorem release_keeps_iff (hheld : b.hardChargedBytes = b.heldBytes) (r : Reservation) :
    Keeps b agg (b.release agg r).2 ↔ (b.disposed = false → r.state = .reserved →
      r.admitted ≤ b.chargedFor r.scope.kind ∨ b.hardChargedBytes ≤ b.chargedFor r.scope.kind) := by
  rw [release]
  split
  · rename_i hstate
    exact iff_of_true (keeps_same hheld) fun _ hr ↦ absurd hr hstate
  · rename_i hstate
    split
    · rename_i hd
      exact iff_of_true (keeps_same hheld) fun hd' ↦ absurd (hd.symm.trans hd') (by decide)
    · rename_i hlive
      have hset := b.charged_set r.scope.kind (b.chargedFor r.scope.kind - r.admitted)
      have hle := b.chargedFor_le r.scope.kind
      rw [heldBytes] at hheld
      have hkeeps : Keeps b agg (b.release agg r).2 ↔ b.hardChargedBytes - r.admitted =
          (b.charged.set r.scope.kind (b.chargedFor r.scope.kind - r.admitted)).total (fun _ n ↦ n) +
            b.calls.total fun _ c ↦ c.physicalBytes := by
        rw [release, if_neg hstate, if_neg hlive]
        exact ⟨fun hk ↦ hk.1 (eq_false_of_ne_true hlive), fun heq ↦ ⟨fun _ ↦ heq, rfl⟩⟩
      rw [release, if_neg hstate, if_neg hlive] at hkeeps
      rw [hkeeps]
      have hreserved : r.state = .reserved := not_not.mp hstate
      simp only [eq_false_of_ne_true hlive, hreserved, true_imp_iff]
      omega

/-! ### Charges to a call -/

theorem commitRetained_moves (h : b.Sound) (r : Reservation) :
    Moves b agg (b.commitRetained agg r).2 := by
  rw [commitRetained]
  split
  · exact moves_same h rfl h rfl
  · split
    · exact moves_same h rfl h rfl
    · rename_i hlive
      split
      · exact moves_same h rfl h rfl
      · exact moves_changed rfl rfl h.bound fun hd ↦ absurd hd hlive

/-- The scope names no call, or one that is tracked. -/
def tracks (b : Budget) (scope : ChargeScope) : Bool := scope.call.all b.calls.has

/-- A handle that is committed to a call keeps the accounts if the call is tracked and the bytes are
still there. -/
theorem commitRetained_keeps_iff (hheld : b.hardChargedBytes = b.heldBytes) (r : Reservation) :
    Keeps b agg (b.commitRetained agg r).2 ↔ (b.disposed = false → r.state = .reserved →
      r.scope.call.isSome = true → b.tracks r.scope = true ∧
        r.admitted ≤ b.chargedFor r.scope.kind) := by
  rw [commitRetained]
  split
  · rename_i hstate
    exact iff_of_true (keeps_same hheld) fun _ hr ↦ absurd hr hstate
  · rename_i hstate
    split
    · rename_i hd
      exact iff_of_true (keeps_same hheld) fun hd' ↦ absurd (hd.symm.trans hd') (by decide)
    · rename_i hlive
      have hreserved : r.state = .reserved := not_not.mp hstate
      split
      · rename_i hcall
        refine iff_of_true (keeps_same hheld) fun _ _ hsome ↦ ?_
        rw [hcall] at hsome
        nomatch hsome
      · rename_i id hcall
        have hcharged := b.charged_set r.scope.kind (b.chargedFor r.scope.kind - r.admitted)
        have hcalls := b.calls_set id ⟨r.admitted, (b.callOf id).physicalBytes + r.admitted⟩
        have hsize := b.size_calls_set id ⟨r.admitted, (b.callOf id).physicalBytes + r.admitted⟩
        have hle := b.chargedFor_le r.scope.kind
        have htracks : b.tracks r.scope = b.calls.has id := by rw [tracks, hcall, all_some]
        rw [heldBytes] at hheld
        have hcond {P : Prop} : (b.disposed = false → r.state = .reserved →
            r.scope.call.isSome = true → P) ↔ P := by
          simp [eq_false_of_ne_true hlive, hreserved, hcall]
        rw [hcond, htracks, ← hsize]
        constructor
        · rintro ⟨hbytes, hcount⟩
          replace hbytes : b.hardChargedBytes = (b.charged.set _ _).total (fun _ n ↦ n) +
            (b.calls.set id _).total fun _ c ↦ c.physicalBytes := hbytes (eq_false_of_ne_true hlive)
          replace hcount : agg.activeCalls + b.calls.size = agg.activeCalls + (b.calls.set id _).size :=
            hcount
          simp only at hcalls
          omega
        · rintro ⟨hcount, hadmitted⟩
          refine ⟨fun _ ↦ ?_, ?_⟩
          · change b.hardChargedBytes = (b.charged.set _ _).total (fun _ n ↦ n) +
              (b.calls.set id _).total fun _ c ↦ c.physicalBytes
            simp only at hcalls
            omega
          · change agg.activeCalls + b.calls.size = agg.activeCalls + (b.calls.set id _).size
            rw [hcount]

theorem refusal_fits {bytes : Option ℚ} {scope : ChargeScope} (h : b.refusal bytes scope = none) :
    b.hardChargedBytes + normalizeBytes bytes ≤ b.maxTurnBytes := by
  rw [refusal] at h
  split at h
  · split at h
    · nomatch h
    · split at h
      · nomatch h
      · rename_i hfits
        simpa [overTurn] using hfits
  · split at h
    · nomatch h
    · rename_i hfits
      simpa [overTurn] using hfits

theorem chargeRetained_moves (h : b.Sound) (delta : Option ℚ) (scope : ChargeScope) :
    Moves b agg (b.chargeRetained agg delta scope).2 := by
  rw [chargeRetained]
  split
  · exact moves_same h rfl h rfl
  · rename_i hlive
    simp only
    split
    · exact reject_moves h
    · rename_i hfits
      split
      · exact moves_changed rfl rfl (refusal_fits hfits) fun hd ↦ absurd hd hlive
      · exact moves_changed rfl rfl (refusal_fits hfits) fun hd ↦ absurd hd hlive

/-- A charge keeps the accounts unless it is admitted for a call that is not tracked. -/
theorem chargeRetained_keeps_iff (hheld : b.hardChargedBytes = b.heldBytes) (delta : Option ℚ)
    (scope : ChargeScope) : Keeps b agg (b.chargeRetained agg delta scope).2 ↔
      (b.disposed = false → b.refusal delta scope = none → b.tracks scope = true) := by
  rw [chargeRetained]
  split
  · rename_i hd
    exact iff_of_true (keeps_same hheld) fun hd' ↦ absurd (hd.symm.trans hd') (by decide)
  · rename_i hlive
    simp only
    split
    · rename_i hrefused
      refine iff_of_true (reject_keeps hheld) fun _ hadmitted ↦ ?_
      rw [hadmitted] at hrefused
      nomatch hrefused
    · rename_i hadmitted
      rw [heldBytes] at hheld
      simp only [eq_false_of_ne_true hlive, hadmitted, true_imp_iff]
      split
      · rename_i id hcall
        have hcalls := b.calls_set id ⟨(b.callOf id).logicalBytes + normalizeBytes delta,
          (b.callOf id).physicalBytes + normalizeBytes delta⟩
        have hsize := b.size_calls_set id ⟨(b.callOf id).logicalBytes + normalizeBytes delta,
          (b.callOf id).physicalBytes + normalizeBytes delta⟩
        rw [tracks, hcall, all_some, ← hsize]
        constructor
        · rintro ⟨-, hcount⟩
          replace hcount : agg.activeCalls + b.calls.size = agg.activeCalls + (b.calls.set id _).size :=
            hcount
          omega
        · intro hcount
          refine ⟨fun _ ↦ ?_, ?_⟩
          · change b.hardChargedBytes + normalizeBytes delta = b.charged.total (fun _ n ↦ n) +
              (b.calls.set id _).total fun _ c ↦ c.physicalBytes
            simp only at hcalls
            omega
          · change agg.activeCalls + b.calls.size = agg.activeCalls + (b.calls.set id _).size
            rw [hcount]
      · rename_i hcall
        refine iff_of_true ⟨fun _ ↦ ?_, rfl⟩ ?_
        · have hset := b.charged_set scope.kind (b.chargedFor scope.kind + normalizeBytes delta)
          change b.hardChargedBytes + normalizeBytes delta = (b.charged.set _ _).total (fun _ n ↦ n) +
            b.calls.total fun _ c ↦ c.physicalBytes
          omega
        · rw [tracks, hcall, all_none]

/-! ### Giving back -/

theorem releaseRetained_moves (h : b.Sound) (bytes : Option ℚ) (scope : ChargeScope) :
    Moves b agg (b.releaseRetained agg bytes scope) := by
  rw [releaseRetained]
  simp only
  split
  · split
    · exact moves_changed rfl rfl h.bound h.cleared
    · rename_i id call hcall
      refine moves_changed rfl rfl ((Nat.sub_le _ _).trans h.bound) fun hd ↦ ?_
      rw [(h.cleared hd).1] at hcall
      cases hcall
  · refine moves_changed rfl rfl ((Nat.sub_le _ _).trans h.bound) fun hd ↦ ?_
    obtain ⟨hcalls, hcharged, hhard, hobserved⟩ := h.cleared hd
    have hset := b.charged_set scope.kind
      (b.chargedFor scope.kind - min (normalizeBytes bytes) (b.chargedFor scope.kind))
    have hle := b.chargedFor_le scope.kind
    refine ⟨hcalls, ?_, ?_, hobserved⟩
    · change (b.charged.set _ _).total (fun _ n ↦ n) = 0
      omega
    · change b.hardChargedBytes - _ = 0
      omega

theorem releaseRetained_keeps (hheld : b.hardChargedBytes = b.heldBytes) (bytes : Option ℚ)
    (scope : ChargeScope) : Keeps b agg (b.releaseRetained agg bytes scope) := by
  rw [releaseRetained]
  simp only
  rw [heldBytes] at hheld
  split
  · split
    · exact ⟨fun _ ↦ hheld, rfl⟩
    · rename_i id _ _ call hcall
      have hset := total_set_of_get? hcall ⟨call.logicalBytes,
        call.physicalBytes - min (normalizeBytes bytes) call.physicalBytes⟩ fun _ c ↦ c.physicalBytes
      have hle := OMap.le_total hcall fun _ c ↦ c.physicalBytes
      refine ⟨fun _ ↦ ?_, ?_⟩
      · change b.hardChargedBytes - min (normalizeBytes bytes) call.physicalBytes =
          b.charged.total (fun _ n ↦ n) + (b.calls.set id _).total fun _ c ↦ c.physicalBytes
        simp only at hset
        omega
      · change agg.activeCalls + b.calls.size = agg.activeCalls + (b.calls.set id _).size
        rw [(b.size_calls_set id _).mpr (has_of_get? hcall)]
  · refine ⟨fun _ ↦ ?_, rfl⟩
    have hset := b.charged_set scope.kind
      (b.chargedFor scope.kind - min (normalizeBytes bytes) (b.chargedFor scope.kind))
    have hle := b.chargedFor_le scope.kind
    change b.hardChargedBytes - min (normalizeBytes bytes) (b.chargedFor scope.kind) =
      (b.charged.set _ _).total (fun _ n ↦ n) + b.calls.total fun _ c ↦ c.physicalBytes
    omega

theorem observe_moves (h : b.Sound) (bytes : Option ℚ) : Moves b agg (b.observe agg bytes).2 := by
  rw [observe]
  split
  · exact moves_same h rfl h rfl
  · rename_i hlive
    exact moves_changed rfl rfl h.bound fun hd ↦ absurd hd hlive

theorem observe_keeps (hheld : b.hardChargedBytes = b.heldBytes) (bytes : Option ℚ) :
    Keeps b agg (b.observe agg bytes).2 := by
  rw [observe]
  split
  · exact keeps_same hheld
  · exact ⟨fun _ ↦ hheld, rfl⟩

theorem unobserve_moves (h : b.Sound) (o : Observation) : Moves b agg (b.unobserve agg o).2 := by
  rw [unobserve]
  split
  · exact moves_same h rfl h rfl
  · refine moves_changed rfl rfl h.bound fun hd ↦ ?_
    obtain ⟨hcalls, hcharged, hhard, hobserved⟩ := h.cleared hd
    refine ⟨hcalls, hcharged, hhard, ?_⟩
    change b.observedBytes - o.observed = 0
    omega

theorem unobserve_keeps (hheld : b.hardChargedBytes = b.heldBytes) (o : Observation) :
    Keeps b agg (b.unobserve agg o).2 := by
  rw [unobserve]
  split
  · exact keeps_same hheld
  · exact ⟨fun _ ↦ hheld, rfl⟩

theorem dispose_moves (h : b.Sound) (hbytes : (b.currentBytes : ℤ) ≤ agg.currentBytes) :
    Moves b agg (b.dispose agg) := by
  rw [dispose]
  split
  · exact moves_same h rfl h rfl
  · refine ⟨⟨rfl, Nat.zero_le _, fun _ ↦ ⟨rfl, rfl, rfl, rfl⟩⟩, ?_⟩
    change max 0 (agg.currentBytes - b.currentBytes) = agg.currentBytes + (((0 : ℕ) : ℤ) - b.currentBytes)
    omega

theorem dispose_keeps (hheld : b.hardChargedBytes = b.heldBytes)
    (hactive : b.calls.size ≤ agg.activeCalls) : Keeps b agg (b.dispose agg) := by
  rw [dispose]
  split
  · exact keeps_same hheld
  · refine ⟨nofun, ?_⟩
    change agg.activeCalls - b.calls.size + b.calls.size = agg.activeCalls + 0
    omega

/-! ### Retained events -/

theorem tracks_collectorScope (b : Budget) : b.tracks collectorScope = true := rfl

/-- The books after an event was collected or given back: nothing, a charge or a release. -/
def Collected (b : Budget) (agg : Aggregates) (books : Budget × Aggregates) : Prop :=
  books = (b, agg) ∨ (∃ delta, books = (b.chargeRetained agg delta collectorScope).2) ∨
    ∃ bytes, books = b.releaseRetained agg bytes collectorScope

theorem collected (h : b.Sound) {books : Budget × Aggregates} (hbooks : b.Collected agg books) :
    Moves b agg books ∧ (b.hardChargedBytes = b.heldBytes → Keeps b agg books) := by
  obtain rfl | ⟨delta, rfl⟩ | ⟨bytes, rfl⟩ := hbooks
  · exact ⟨moves_same h rfl h rfl, keeps_same⟩
  · exact ⟨chargeRetained_moves h delta collectorScope, fun hheld ↦
      (chargeRetained_keeps_iff hheld _ _).mpr fun _ _ ↦ b.tracks_collectorScope⟩
  · exact ⟨releaseRetained_moves h bytes collectorScope, fun hheld ↦
      releaseRetained_keeps hheld _ _⟩

variable (owned : OMap ℕ Ownership)

theorem retainTranslatedEvent_books (id event serializedBytes : ℕ) (previousTail : Option ℕ) :
    b.Collected agg
      (retainTranslatedEvent owned id b agg event serializedBytes previousTail).2.2 := by
  unfold retainTranslatedEvent
  split
  · exact .inl rfl
  · split
    · exact .inl rfl
    · split
      · exact .inl rfl
      · simp only
        split <;>
        · rename_i hcharge
          exact .inr (.inl ⟨_, (congrArg Prod.snd hcharge).symm⟩)

theorem retainTranslatedEventBatch_books (id : ℕ) (events : List (ℕ × ℕ)) :
    b.Collected agg (retainTranslatedEventBatch owned id b agg events).2.2 := by
  rw [retainTranslatedEventBatch]
  split
  · exact .inl rfl
  · simp only
    split <;>
    · rename_i hcharge
      exact .inr (.inl ⟨_, (congrArg Prod.snd hcharge).symm⟩)

theorem releaseTranslatedEvent_books (id event : ℕ) :
    b.Collected agg (releaseTranslatedEvent owned id b agg event).2 := by
  rw [releaseTranslatedEvent]
  split
  · exact .inl rfl
  · split
    · exact .inl rfl
    · exact .inr (.inr ⟨_, rfl⟩)

end Budget

/-! ## Steps -/

/-- What an event must not do, for the accounts to stay exact: have a charge admitted for a call that
is not tracked, or settle a handle whose bytes are no longer there. -/
def Meets (p : Process) : Event → Prop
  | .chargeRetained id delta scope => ∀ b ∈ p.budgets.get? id,
      b.disposed = false → b.refusal delta scope = none → b.tracks scope = true
  | .commitRetained handle => ∀ h ∈ p.reservations.get? handle, ∀ b ∈ p.budgets.get? h.1,
      b.disposed = false → h.2.state = .reserved → h.2.scope.call.isSome = true →
      b.tracks h.2.scope = true ∧ h.2.admitted ≤ b.chargedFor h.2.scope.kind
  | .release handle => ∀ h ∈ p.reservations.get? handle, ∀ b ∈ p.budgets.get? h.1,
      b.disposed = false → h.2.state = .reserved →
      h.2.admitted ≤ b.chargedFor h.2.scope.kind ∨
        b.hardChargedBytes ≤ b.chargedFor h.2.scope.kind
  | .create .. | .openCall .. | .closeCall .. | .reserveTransient .. | .releaseRetained ..
  | .observe .. | .unobserve .. | .dispose .. | .retainTranslatedEvent ..
  | .retainTranslatedEventBatch .. | .releaseTranslatedEvent .. => True

instance (p : Process) : (e : Event) → Decidable (Meets p e)
  | .chargeRetained id delta scope => inferInstanceAs (Decidable (∀ b ∈ p.budgets.get? id,
      b.disposed = false → b.refusal delta scope = none → b.tracks scope = true))
  | .commitRetained handle => inferInstanceAs (Decidable
      (∀ h ∈ p.reservations.get? handle, ∀ b ∈ p.budgets.get? h.1,
        b.disposed = false → h.2.state = .reserved → h.2.scope.call.isSome = true →
        b.tracks h.2.scope = true ∧ h.2.admitted ≤ b.chargedFor h.2.scope.kind))
  | .release handle => inferInstanceAs (Decidable
      (∀ h ∈ p.reservations.get? handle, ∀ b ∈ p.budgets.get? h.1,
        b.disposed = false → h.2.state = .reserved →
        h.2.admitted ≤ b.chargedFor h.2.scope.kind ∨
          b.hardChargedBytes ≤ b.chargedFor h.2.scope.kind))
  | .create .. | .openCall .. | .closeCall .. | .reserveTransient .. | .releaseRetained ..
  | .observe .. | .unobserve .. | .dispose .. | .retainTranslatedEvent ..
  | .retainTranslatedEventBatch .. | .releaseTranslatedEvent .. => inferInstanceAs (Decidable True)

/-- What holds of the accounts whatever happens. -/
structure Accounts (p : Process) : Prop where
  sound : ∀ id b, p.budgets.get? id = some b → b.Sound
  bytes : p.aggregates.currentBytes = (p.budgets.total fun _ b ↦ b.currentBytes : ℕ)

section Step

variable {p p' : Process} {e : Event}

/-- The event works on one budget that was there, and moves it and the aggregates together. -/
def WorksOn (p p' : Process) (e : Event) (id : ℕ) (b : Budget) (books : Budget × Aggregates) : Prop :=
  p.budgets.get? id = some b ∧ p'.budgets = p.budgets.set id books.1 ∧ p'.aggregates = books.2 ∧
    Moves b p.aggregates books ∧
    (b.hardChargedBytes = b.heldBytes → b.calls.size ≤ p.aggregates.activeCalls →
      (Keeps b p.aggregates books ↔ Meets p e))

/-- **What a step can do**: create a budget, or work on one. -/
theorem step_cases (h : Accounts p) (hs : step p e = some p') :
    (∃ id options, p.budgets.has id = false ∧ e = .create id options ∧
      p' = p.put id (.create options, observeAggregate p.aggregates)) ∨
    ∃ id b books, WorksOn p p' e id b books := by
  cases e with
  | create id options =>
    simp only [step, ite_none_left_eq_some, some_inj] at hs
    exact .inl ⟨id, options, eq_false_of_ne_true hs.1, rfl, hs.2.symm⟩
  | openCall id callId =>
    simp only [step, Process.onBudget, map_eq_some_iff] at hs
    obtain ⟨b, hb, rfl⟩ := hs
    exact .inr ⟨id, b, _, hb, rfl, rfl, b.openCall_moves (h.sound id b hb) callId,
      fun hheld _ ↦ iff_of_true (b.openCall_keeps hheld callId) trivial⟩
  | closeCall id callId =>
    simp only [step, Process.onBudget, map_eq_some_iff] at hs
    obtain ⟨b, hb, rfl⟩ := hs
    exact .inr ⟨id, b, _, hb, rfl, rfl, b.closeCall_moves (h.sound id b hb) callId,
      fun hheld hactive ↦ iff_of_true (b.closeCall_keeps hheld hactive callId) trivial⟩
  | reserveTransient id handle bytes scope =>
    simp only [step, ite_none_left_eq_some, map_eq_some_iff] at hs
    obtain ⟨-, b, hb, rfl⟩ := hs
    refine .inr ⟨id, b, (b.reserveTransient p.aggregates bytes scope).2, hb, ?_, ?_,
      b.reserveTransient_moves (h.sound id b hb) bytes scope,
      fun hheld _ ↦ iff_of_true (b.reserveTransient_keeps hheld bytes scope) trivial⟩
    all_goals
      split <;>
      · rename_i hr
        rw [hr]
        rfl
  | commitRetained handle =>
    simp only [step, bind_eq_some_iff, map_eq_some_iff] at hs
    obtain ⟨⟨id, r⟩, hr, b, hb, rfl⟩ := hs
    refine .inr ⟨id, b, (b.commitRetained p.aggregates r).2, hb, rfl, rfl,
      b.commitRetained_moves (h.sound id b hb) r, fun hheld _ ↦ ?_⟩
    simp only [b.commitRetained_keeps_iff hheld, Meets, hr, hb, mem_def, some_inj, forall_eq']
  | release handle =>
    simp only [step, bind_eq_some_iff, map_eq_some_iff] at hs
    obtain ⟨⟨id, r⟩, hr, b, hb, rfl⟩ := hs
    refine .inr ⟨id, b, (b.release p.aggregates r).2, hb, rfl, rfl,
      b.release_moves (h.sound id b hb) r, fun hheld _ ↦ ?_⟩
    simp only [b.release_keeps_iff hheld, Meets, hr, hb, mem_def, some_inj, forall_eq']
  | chargeRetained id delta scope =>
    simp only [step, Process.onBudget, map_eq_some_iff] at hs
    obtain ⟨b, hb, rfl⟩ := hs
    refine .inr ⟨id, b, _, hb, rfl, rfl, b.chargeRetained_moves (h.sound id b hb) delta scope,
      fun hheld _ ↦ ?_⟩
    simp only [b.chargeRetained_keeps_iff hheld, Meets, hb, mem_def, some_inj, forall_eq']
  | releaseRetained id bytes scope =>
    simp only [step, Process.onBudget, map_eq_some_iff] at hs
    obtain ⟨b, hb, rfl⟩ := hs
    exact .inr ⟨id, b, _, hb, rfl, rfl, b.releaseRetained_moves (h.sound id b hb) bytes scope,
      fun hheld _ ↦ iff_of_true (b.releaseRetained_keeps hheld bytes scope) trivial⟩
  | observe id handle bytes =>
    simp only [step, ite_none_left_eq_some, map_eq_some_iff] at hs
    obtain ⟨-, b, hb, rfl⟩ := hs
    exact .inr ⟨id, b, _, hb, rfl, rfl, b.observe_moves (h.sound id b hb) bytes,
      fun hheld _ ↦ iff_of_true (b.observe_keeps hheld bytes) trivial⟩
  | unobserve handle =>
    simp only [step, bind_eq_some_iff, map_eq_some_iff] at hs
    obtain ⟨⟨id, o⟩, -, b, hb, rfl⟩ := hs
    exact .inr ⟨id, b, _, hb, rfl, rfl, b.unobserve_moves (h.sound id b hb) o,
      fun hheld _ ↦ iff_of_true (b.unobserve_keeps hheld o) trivial⟩
  | dispose id =>
    simp only [step, Process.onBudget, map_eq_some_iff] at hs
    obtain ⟨b, hb, rfl⟩ := hs
    have hle : (b.currentBytes : ℤ) ≤ p.aggregates.currentBytes := by
      rw [h.bytes]
      exact Int.ofNat_le.mpr (OMap.le_total hb fun _ b ↦ b.currentBytes)
    exact .inr ⟨id, b, _, hb, rfl, rfl, b.dispose_moves (h.sound id b hb) hle,
      fun hheld hactive ↦ iff_of_true (b.dispose_keeps hheld hactive) trivial⟩
  | retainTranslatedEvent id event serializedBytes previousTail =>
    simp only [step, map_eq_some_iff] at hs
    obtain ⟨b, hb, rfl⟩ := hs
    obtain ⟨hm, hk⟩ := b.collected (h.sound id b hb) (b.retainTranslatedEvent_books _ _ _ _ _)
    exact .inr ⟨id, b, _, hb, rfl, rfl, hm, fun hheld _ ↦ iff_of_true (hk hheld) trivial⟩
  | retainTranslatedEventBatch id events =>
    simp only [step, map_eq_some_iff] at hs
    obtain ⟨b, hb, rfl⟩ := hs
    obtain ⟨hm, hk⟩ := b.collected (h.sound id b hb) (b.retainTranslatedEventBatch_books _ _ _)
    exact .inr ⟨id, b, _, hb, rfl, rfl, hm, fun hheld _ ↦ iff_of_true (hk hheld) trivial⟩
  | releaseTranslatedEvent id event =>
    simp only [step, map_eq_some_iff] at hs
    obtain ⟨b, hb, rfl⟩ := hs
    obtain ⟨hm, hk⟩ := b.collected (h.sound id b hb) (b.releaseTranslatedEvent_books _ _ _)
    exact .inr ⟨id, b, _, hb, rfl, rfl, hm, fun hheld _ ↦ iff_of_true (hk hheld) trivial⟩

theorem Accounts.live_eq (h : Accounts p) {f : Budget → ℕ}
    (hf : ∀ b, b.Sound → b.disposed = true → f b = 0) :
    p.live f = p.budgets.total fun _ b ↦ f b := by
  refine total_congr fun id b hb ↦ ?_
  cases hd : b.disposed with
  | false => rfl
  | true => rw [if_pos rfl, hf b (h.sound id b hb) hd]

theorem Accounts.live_calls (h : Accounts p) :
    p.live (fun b ↦ b.calls.size) = p.budgets.total fun _ b ↦ b.calls.size := by
  refine h.live_eq fun b hb hd ↦ ?_
  rw [(hb.cleared hd).1, size_empty]

theorem Accounts.live_bytes (h : Accounts p) :
    p.live (fun b ↦ b.hardChargedBytes + b.observedBytes) =
      p.budgets.total fun _ b ↦ b.currentBytes := by
  rw [h.live_eq fun b hb hd ↦ by rw [(hb.cleared hd).2.2.1, (hb.cleared hd).2.2.2]]
  refine total_congr fun id b hb ↦ ?_
  rw [(h.sound id b hb).current]

theorem sound_create (options : TranslatorBudgetOptions) : (Budget.create options).Sound :=
  ⟨rfl, Nat.zero_le _, fun _ ↦ ⟨rfl, rfl, rfl, rfl⟩⟩

theorem Accounts.step (h : Accounts p) (hs : step p e = some p') : Accounts p' := by
  rcases step_cases h hs with ⟨id, options, hnew, -, rfl⟩ | ⟨id, b, books, hb, hbudgets, hagg, hm, -⟩
  · refine ⟨fun id' b' hb' ↦ ?_, ?_⟩
    · simp only [Process.put, get?_set] at hb'
      split at hb'
      · rw [← some_inj.mp hb']
        exact sound_create options
      · exact h.sound id' b' hb'
    · simp only [Process.put, observeAggregate]
      rw [total_set_of_not_has hnew, h.bytes]
      rfl
  · refine ⟨fun id' b' hb' ↦ ?_, ?_⟩
    · rw [hbudgets, get?_set] at hb'
      split at hb'
      · rw [← some_inj.mp hb']
        exact hm.sound
      · exact h.sound id' b' hb'
    · have hset := total_set_of_get? hb books.1 fun _ b ↦ b.currentBytes
      rw [hagg, hbudgets, hm.bytes, h.bytes]
      omega

/-- **A step from exact accounts leaves them exact just when its event meets the condition.** -/
theorem step_exact_iff (h : Accounts p) (he : Exact p) (hs : step p e = some p') :
    Exact p' ↔ Meets p e := by
  have h' := h.step hs
  have hbound : ∀ id b, p'.budgets.get? id = some b → b.hardChargedBytes ≤ b.maxTurnBytes :=
    fun id b hb ↦ (h'.sound id b hb).bound
  have hbytes : p'.aggregates.currentBytes =
      p'.live fun b ↦ b.hardChargedBytes + b.observedBytes := by rw [h'.live_bytes, h'.bytes]
  have hcalls := he.calls
  rw [h.live_calls] at hcalls
  rcases step_cases h hs with
    ⟨id, options, hnew, rfl, hp'⟩ | ⟨id, b, books, hb, hbudgets, hagg, hm, hkeeps⟩
  · refine iff_of_true ⟨?_, hbound, hbytes, ?_⟩ trivial
    · intro id' b' hb' hd
      simp only [hp', Process.put, get?_set] at hb'
      split at hb'
      · rw [← some_inj.mp hb']
        rfl
      · exact he.held id' b' hb' hd
    · rw [h'.live_calls, hp']
      simp only [Process.put, observeAggregate]
      rw [total_set_of_not_has hnew, hcalls]
      rfl
  · have hheld := (h.sound id b hb).held (he.held id b hb)
    have hactive : b.calls.size ≤ p.aggregates.activeCalls := by
      rw [hcalls]
      exact OMap.le_total hb fun _ b ↦ b.calls.size
    have hset := total_set_of_get? hb books.1 fun _ b ↦ b.calls.size
    rw [← hkeeps hheld hactive]
    constructor
    · intro he'
      have hcalls' := he'.calls
      rw [h'.live_calls, hagg, hbudgets] at hcalls'
      refine ⟨he'.held id books.1 (by rw [hbudgets, get?_set, if_pos rfl]), ?_⟩
      omega
    · rintro ⟨hheld', hcount⟩
      refine ⟨?_, hbound, hbytes, ?_⟩
      · intro id' b' hb' hd
        rw [hbudgets, get?_set] at hb'
        split at hb'
        · rw [← some_inj.mp hb'] at hd ⊢
          exact hheld' hd
        · exact he.held id' b' hb' hd
      · rw [h'.live_calls, hagg, hbudgets]
        omega

end Step

/-! ## Runs -/

theorem accounts_inductive : processMachine.Inductive Meets fun p ↦ Accounts p ∧ Exact p where
  init p hp := by
    rw [show p = .start from hp]
    have hnone (id : ℕ) (b : Budget) : ¬Process.start.budgets.get? id = some b := by
      simp [Process.start, get?, OMap.empty]
    exact ⟨⟨fun id b hb ↦ absurd hb (hnone id b), rfl⟩,
      ⟨fun id b hb ↦ absurd hb (hnone id b), fun id b hb ↦ absurd hb (hnone id b), rfl, rfl⟩⟩
  step p e p' := by
    rintro ⟨h, he⟩ hmeets hs
    exact ⟨h.step hs, (step_exact_iff h he hs).mpr hmeets⟩

/-- A refused charge only counts itself. -/
def OnlyCounted (b : Budget) (agg : Aggregates) (books : Budget × Aggregates) : Prop :=
  books = ({ b with overflowCount := b.overflowCount + 1 },
    { agg with overflows := agg.overflows + 1 })

variable {scope : ChargeScope} {books : Budget × Aggregates} {err : TranslatorBudgetExceededError}

theorem reserveTransient_refused {b : Budget} {agg : Aggregates} {bytes : Option ℚ}
    (h : b.reserveTransient agg bytes scope = (.error err, books)) : OnlyCounted b agg books := by
  rw [Budget.reserveTransient] at h
  split at h
  · simp at h
  · simp only at h
    split at h
    · exact (congrArg Prod.snd h).symm
    · split at h
      · exact (congrArg Prod.snd h).symm
      · simp at h

theorem chargeRetained_refused {b : Budget} {agg : Aggregates} {delta : Option ℚ}
    (h : b.chargeRetained agg delta scope = (.error err, books)) : OnlyCounted b agg books := by
  rw [Budget.chargeRetained] at h
  split at h
  · simp at h
  · simp only at h
    split at h
    · exact (congrArg Prod.snd h).symm
    · split at h
      · simp at h
      · simp at h

/-- **The translator's accounts are exact.**  In every run in which no charge is admitted for a call
that is not tracked and every handle settles bytes that are still there: each live budget's
hard-charged bytes are what it holds under its kinds and its calls, within the limit; the aggregates
are the sums over the live budgets; they are zero again once every budget is disposed; and a refused
charge only counts itself.  The next step that does not meet the condition ends this. -/
theorem translator_accounts_exact {p : Process} (h : processMachine.ReachableIf Meets p) : Exact p ∧
    ((∀ id b, p.budgets.get? id = some b → b.disposed = true) →
      p.aggregates.currentBytes = 0 ∧ p.aggregates.activeCalls = 0) ∧
    (∀ id b bytes scope err books, p.budgets.get? id = some b →
      (b.reserveTransient p.aggregates bytes scope = (.error err, books) ∨
        b.chargeRetained p.aggregates bytes scope = (.error err, books)) →
      OnlyCounted b p.aggregates books) ∧ ∀ e p', step p e = some p' → (Exact p' ↔ Meets p e) := by
  obtain ⟨ha, he⟩ := accounts_inductive.reachable h
  refine ⟨he, ?_, ?_, fun e p' hs ↦ step_exact_iff ha he hs⟩
  · intro hall
    have hzero (f : Budget → ℕ) : p.live f = 0 := by
      refine total_eq_zero fun id b hb ↦ ?_
      rw [if_pos (hall id b hb)]
    rw [he.bytes, he.calls, hzero, hzero]
    exact ⟨rfl, rfl⟩
  · intro id b bytes scope err books _ hrefused
    rcases hrefused with hrefused | hrefused
    · exact reserveTransient_refused hrefused
    · exact chargeRetained_refused hrefused

/-- A budget with the default limits. -/
def defaults : TranslatorBudgetOptions := ⟨none, none⟩

/-- Bytes charged to the arguments of a call. -/
def argsOf (callId : String) : ChargeScope := ⟨.toolArgs, some callId⟩

/-- Two turns; the second charges a call that it never opened, and closes it. -/
def unopenedRun : List Event :=
  [.create 0 defaults, .create 1 defaults, .openCall 0 "a", .chargeRetained 1 (some 5) (argsOf "b"),
    .closeCall 1 "b"]

/-- Bytes are reserved for a call, given back by a plain release, and then committed. -/
def givenBackRun : List Event :=
  [.create 0 defaults, .openCall 0 "a", .reserveTransient 0 0 (some 100) (argsOf "a"),
    .releaseRetained 0 (some 100) ⟨.toolArgs, none⟩, .commitRetained 0]

/-- Closing a call that was never opened takes away the count of another turn's call; and a handle
commits bytes that are no longer charged. -/
theorem accounts_drift :
    (∃ p, processMachine.Reachable p ∧ p = processMachine.play .start unopenedRun ∧
      p.aggregates.activeCalls = 0 ∧ p.live (fun b ↦ b.calls.size) = 1 ∧ ¬Exact p) ∧
    ∃ p b, processMachine.Reachable p ∧ p = processMachine.play .start givenBackRun ∧
      p.budgets.get? 0 = some b ∧ b.hardChargedBytes = 0 ∧ b.heldBytes = 100 ∧ ¬Exact p := by
  refine ⟨⟨_, ⟨_, rfl, Machine.run_play (by decide +kernel)⟩, rfl, by decide +kernel,
    by decide +kernel, ?_⟩, ⟨_, _, ⟨_, rfl, Machine.run_play (by decide +kernel)⟩, rfl, rfl,
    by decide +kernel, by decide +kernel, ?_⟩⟩
  · intro he
    exact absurd he.calls (by decide +kernel)
  · intro he
    exact absurd (he.held 0 _ rfl (by decide +kernel)) (by decide +kernel)

/-- A turn that opens its call first, and is disposed. -/
def openedRun : List Event :=
  [.create 0 defaults, .openCall 0 "a", .reserveTransient 0 0 (some 100) (argsOf "a"),
    .commitRetained 0, .chargeRetained 0 (some 5) (argsOf "a"), .dispose 0]

theorem translator_accounts_exact_opened :
    (processMachine.play .start openedRun).aggregates.currentBytes = 0 ∧
      (processMachine.play .start openedRun).aggregates.activeCalls = 0 := by
  have hr : processMachine.ReachableIf Meets (processMachine.play .start openedRun) :=
    ⟨_, rfl, Machine.run_play (by decide +kernel)⟩
  refine (translator_accounts_exact hr).2.1 ?_
  intro id b hb
  have hone : (processMachine.play .start openedRun).budgets.entries.all (fun e ↦ e.2.disposed) =
      true := by decide +kernel
  exact List.all_eq_true.mp hone (id, b) (mem_entries.mpr hb)

end Translator
