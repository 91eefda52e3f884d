import OpenCodex.Data.OMap
import Mathlib.Data.List.Induction

/-!
# Accounts that fail too often

Of each account the outcomes of the last minute are kept.  An account of which a quarter has failed
is degraded: threads that are not bound to it yet are sent elsewhere.  It stays degraded until no
more than a tenth fails, at two evaluations half a minute apart and at all between them.

Both verdicts need twenty outcomes, and that is where the hysteresis can stick: new threads stay
away, the outcomes of the others become fewer, and with less than twenty in the minute the account
is not evaluated again (`degraded_without_samples`).  With twenty it comes back within two reads
(`account_recovers`).
-/

set_option autoImplicit false

open List Option Bool

namespace FailureWindow

abbrev AccountId := String

def codexSlidingFailureWindowMs : ℤ := 60000
def codexSlidingFailureMinSamples : ℕ := 20
def codexSlidingFailureRecoverSustainMs : ℤ := 30000
def maxSamples : ℕ := 512

/-- The outcome of a request. -/
structure Sample where
  sampledAt : ℤ
  failed : Bool
  /-- The generation of the credential it was sent with, if that is known. -/
  credentialGeneration : Option ℕ
  deriving DecidableEq

structure WindowState where
  samples : List Sample
  degraded : Bool
  healthySince : Option ℤ
  credentialGeneration : Option ℕ
  deriving DecidableEq

def WindowState.fresh : WindowState := ⟨[], false, none, none⟩

/-- A snapshot of the stored credentials: whether it could not be taken, and which generations of
which accounts are live in it. -/
structure GenerationLiveCheck where
  failed : Bool
  live : AccountId → ℕ → Bool

structure OcxConfig where
  codexFailureWindow : Option Bool
  /-- Is `codexPinnedTransientPolicy` the one that detours new threads? -/
  detourNewThreads : Bool
  pinnedCodexAccountId : Option AccountId

def codexFailureWindowEnabled (config : OcxConfig) : Bool := config.codexFailureWindow != some false

/-- The outcomes that failed. -/
def failures (samples : List Sample) : ℕ := samples.countP (·.failed)

/-- A quarter of enough outcomes has failed. -/
def Degrading (samples : List Sample) : Prop :=
  codexSlidingFailureMinSamples ≤ samples.length ∧ samples.length ≤ failures samples * 4

/-- At most a tenth of enough outcomes has failed. -/
def Recovering (samples : List Sample) : Prop :=
  codexSlidingFailureMinSamples ≤ samples.length ∧ failures samples * 10 ≤ samples.length

instance (samples : List Sample) : Decidable (Degrading samples) :=
  inferInstanceAs (Decidable (_ ∧ _))

instance (samples : List Sample) : Decidable (Recovering samples) :=
  inferInstanceAs (Decidable (_ ∧ _))

/-- The verdict on the samples of the window. -/
def WindowState.settle (state : WindowState) (now : ℤ) : WindowState :=
  if Degrading state.samples then { state with degraded := true, healthySince := none }
  else if state.degraded = false then { state with healthySince := none }
  else if ¬ Recovering state.samples then { state with healthySince := none }
  else if codexSlidingFailureRecoverSustainMs ≤ now - state.healthySince.getD now then
    { state with degraded := false, healthySince := none }
  else { state with healthySince := some (state.healthySince.getD now) }

/-- Is there a generation in the state that can have been replaced? -/
def WindowState.tagged (state : WindowState) : Bool :=
  state.credentialGeneration.isSome || state.samples.any (·.credentialGeneration.isSome)

def recompute (begin : GenerationLiveCheck) (accountId : AccountId) (state : WindowState) (now : ℤ)
    (generationLive : Option GenerationLiveCheck) : WindowState :=
  let check := generationLive.or (if state.tagged then some begin else none)
  let live (generation : ℕ) : Bool := check.any fun check ↦ check.live accountId generation
  -- what could not be read is no reason to forget
  if check.any (·.failed) then state
  else
    let state := if state.credentialGeneration.any fun generation ↦ !live generation then
        { state with degraded := false, healthySince := none, credentialGeneration := none }
      else state
    let samples := state.samples.filter fun sample ↦
      decide (now - codexSlidingFailureWindowMs < sample.sampledAt) &&
        sample.credentialGeneration.all live
    let generation := state.credentialGeneration.or (samples.findSome? (·.credentialGeneration))
    { state with samples, credentialGeneration := generation }.settle now

/-- Of each account that was sampled, its window. -/
abbrev Windows := OMap AccountId WindowState

/-- Only so many samples are kept. -/
@[irreducible] def spliced (samples : List Sample) : List Sample :=
  samples.drop (samples.length - maxSamples)

def appendSample (config : OcxConfig) (begin : GenerationLiveCheck) (windows : Windows)
    (accountId : AccountId) (failed : Bool) (now : ℤ) (credentialGeneration : Option ℕ) : Windows :=
  if !codexFailureWindowEnabled config then windows
  else
    let tagged := credentialGeneration.isSome ||
      (windows.get? accountId).any WindowState.tagged
    let check := if tagged then some begin else none
    if check.any (·.failed) then windows
    else if credentialGeneration.any fun generation ↦
        !check.any fun check ↦ check.live accountId generation then windows
    else
      let state := (windows.get? accountId).getD .fresh
      let samples := spliced (state.samples ++ [⟨now, failed, credentialGeneration⟩])
      windows.set accountId (recompute begin accountId { state with samples } now check)

def noteCodexFailureWindowSample (config : OcxConfig) (begin : GenerationLiveCheck)
    (windows : Windows) (accountId : AccountId) (failed : Bool) (now : ℤ) : Windows :=
  appendSample config begin windows accountId failed now none

def isCodexFailureWindowDegraded (begin : GenerationLiveCheck) (windows : Windows)
    (accountId : AccountId) (now : ℤ) : Windows × Bool :=
  match windows.get? accountId with
  | none => (windows, false)
  | some state =>
    let state := recompute begin accountId state now none
    (windows.set accountId state, state.degraded)

/-- New threads leave a degraded account, unless it is pinned and the pin is to hold. -/
def failureWindowSteersNewThreads (config : OcxConfig) (begin : GenerationLiveCheck)
    (windows : Windows) (accountId : AccountId) (now : ℤ) : Windows × Bool :=
  if !codexFailureWindowEnabled config then (windows, false)
  else
    let (windows, degraded) := isCodexFailureWindowDegraded begin windows accountId now
    (windows, degraded &&
      (config.pinnedCodexAccountId != some accountId || config.detourNewThreads))

/-! ## Runs -/

/-- A sample without a generation, or a read. -/
inductive Event where
  | sample (config : OcxConfig) (accountId : AccountId) (failed : Bool) (now : ℤ)
  | read (accountId : AccountId) (now : ℤ)

namespace Event

def now : Event → ℤ
  | sample _ _ _ now => now
  | read _ now => now

/-- The events that evaluate the window of an account. -/
def Evaluates (accountId : AccountId) : Event → Prop
  | sample config accountId' _ _ => accountId' = accountId ∧ codexFailureWindowEnabled config = true
  | read accountId' _ => accountId' = accountId

instance (accountId : AccountId) : DecidablePred (Evaluates accountId)
  | sample _ _ _ _ => inferInstanceAs (Decidable (_ ∧ _))
  | read _ _ => inferInstanceAs (Decidable (_ = _))

/-- The sample that an event brings. -/
def brings : Event → Option Sample
  | sample _ _ failed now => some ⟨now, failed, none⟩
  | read _ _ => none

end Event

def apply (begin : GenerationLiveCheck) (windows : Windows) : Event → Windows
  | .sample config accountId failed now =>
    noteCodexFailureWindowSample config begin windows accountId failed now
  | .read accountId now => (isCodexFailureWindowDegraded begin windows accountId now).1

/-- The windows after some events. -/
def after (begin : GenerationLiveCheck) (events : List Event) : Windows :=
  events.foldl (apply begin) .empty

/-- The window of an account in a table. -/
def windowOf (windows : Windows) (accountId : AccountId) : WindowState :=
  (windows.get? accountId).getD .fresh

/-- The window of an account after some events. -/
def windowAfter (begin : GenerationLiveCheck) (events : List Event) (accountId : AccountId) :
    WindowState := windowOf (after begin events) accountId

/-- What is recorded of an account. -/
def recorded (accountId : AccountId) (events : List Event) : List Sample :=
  (events.filter (·.Evaluates accountId)).filterMap (·.brings)

/-! ## One evaluation -/

section Evaluation

variable {state : WindowState} {now : ℤ}

/-- A state without generations. -/
def WindowState.Untagged (state : WindowState) : Prop :=
  state.credentialGeneration = none ∧ ∀ sample ∈ state.samples, sample.credentialGeneration = none

/-- The samples that are still inside the window. -/
def inWindow (now : ℤ) (samples : List Sample) : List Sample :=
  samples.filter fun sample ↦ decide (now - codexSlidingFailureWindowMs < sample.sampledAt)

/-- An evaluation without generations. -/
def WindowState.evaluated (state : WindowState) (now : ℤ) : WindowState :=
  { state with samples := inWindow now state.samples }.settle now

theorem WindowState.Untagged.tagged (h : state.Untagged) : state.tagged = false := by
  rw [WindowState.tagged, h.1, isSome_none, Bool.false_or, List.any_eq_false]
  intro sample hsample
  simp [h.2 sample hsample]

theorem settle_samples (state : WindowState) (now : ℤ) :
    (state.settle now).samples = state.samples := by
  rw [WindowState.settle]
  split_ifs <;> rfl

theorem settle_credentialGeneration (state : WindowState) (now : ℤ) :
    (state.settle now).credentialGeneration = state.credentialGeneration := by
  rw [WindowState.settle]
  split_ifs <;> rfl

theorem evaluated_samples (state : WindowState) (now : ℤ) :
    (state.evaluated now).samples = inWindow now state.samples := settle_samples _ now

theorem WindowState.Untagged.evaluated (h : state.Untagged) (now : ℤ) :
    (state.evaluated now).Untagged := by
  refine ⟨(settle_credentialGeneration _ now).trans h.1, fun sample hsample ↦ ?_⟩
  rw [evaluated_samples] at hsample
  exact h.2 sample (mem_of_mem_filter hsample)

theorem WindowState.Untagged.recompute (h : state.Untagged) (begin : GenerationLiveCheck)
    (accountId : AccountId) (now : ℤ) :
    recompute begin accountId state now none = state.evaluated now := by
  have hsamples : (state.samples.filter fun sample ↦
      decide (now - codexSlidingFailureWindowMs < sample.sampledAt) &&
        sample.credentialGeneration.all fun _ ↦ false) = inWindow now state.samples := by
    refine filter_congr fun sample hsample ↦ ?_
    rw [h.2 sample hsample, all_none, Bool.and_true]
  have hgeneration : (inWindow now state.samples).findSome? (·.credentialGeneration) = none := by
    refine findSome?_eq_none_iff.mpr fun sample hsample ↦ ?_
    exact h.2 sample (mem_of_mem_filter hsample)
  rw [FailureWindow.recompute]
  simp only [h.tagged, false_eq_true, if_false, or_none, any_none, h.1, hsamples, hgeneration]
  rw [WindowState.evaluated, ← h.1]

end Evaluation

/-! ## One event -/

/-- The window with one more sample. -/
def WindowState.sampled (state : WindowState) (sample : Sample) : WindowState :=
  { state with samples := spliced (state.samples ++ [sample]) }

/-- The window that an event evaluates. -/
def WindowState.taking (state : WindowState) (sample? : Option Sample) : WindowState :=
  sample?.elim state state.sampled

section Events

variable {begin : GenerationLiveCheck} {state : WindowState} {e : Event} {events : List Event}
  {accountId : AccountId}

theorem untagged_fresh : WindowState.fresh.Untagged := ⟨rfl, nofun⟩

theorem spliced_suffix (samples : List Sample) : spliced samples <:+ samples := by
  unfold spliced
  exact drop_suffix (samples.length - maxSamples) samples

theorem sampled_samples (state : WindowState) (sample : Sample) :
    (state.sampled sample).samples = spliced (state.samples ++ [sample]) := rfl

variable {sample : Sample}

theorem mem_sampled {sample' : Sample} (h : sample' ∈ (state.sampled sample).samples) :
    sample' ∈ state.samples ∨ sample' = sample := by
  have hmem := (spliced_suffix _).subset h
  rw [mem_append, mem_singleton] at hmem
  exact hmem

theorem WindowState.Untagged.sampled (h : state.Untagged)
    (hsample : sample.credentialGeneration = none) : (state.sampled sample).Untagged := by
  refine ⟨h.1, ?_⟩
  intro sample' hsample'
  rcases mem_sampled hsample' with hold | hnew
  · exact h.2 sample' hold
  · rwa [hnew]

theorem WindowState.Untagged.taking (h : state.Untagged) (e : Event) :
    (state.taking e.brings).Untagged := by
  cases e with
  | sample config accountId failed now => exact h.sampled rfl
  | read accountId now => exact h

theorem windowOf_set (windows : Windows) (accountId accountId' : AccountId) (state : WindowState) :
    windowOf (windows.set accountId state) accountId' =
      if accountId' = accountId then state else windowOf windows accountId' := by
  rw [windowOf, OMap.get?_set]
  split
  · rfl
  · rfl

theorem not_degrading_nil : ¬ Degrading [] := fun h ↦ absurd h.1 (by decide)

theorem settle_fresh (now : ℤ) : WindowState.fresh.settle now = .fresh := by
  have hnot : ¬ Degrading WindowState.fresh.samples := not_degrading_nil
  rfl

theorem evaluated_fresh (now : ℤ) : WindowState.fresh.evaluated now = .fresh := settle_fresh now

/-- **What an event does.** -/
theorem windowOf_apply {windows : Windows}
    (h : ∀ accountId, (windowOf windows accountId).Untagged) :
    windowOf (apply begin windows e) accountId = if e.Evaluates accountId then
        ((windowOf windows accountId).taking e.brings).evaluated e.now
      else windowOf windows accountId := by
  cases e with
  | sample config accountId' failed now =>
    have huntagged := h accountId'
    have htagged : (windows.get? accountId').any WindowState.tagged = false := by
      cases hget : windows.get? accountId' with
      | none => rfl
      | some state =>
        rw [windowOf, hget] at huntagged
        exact huntagged.tagged
    rw [apply, noteCodexFailureWindowSample, appendSample]
    cases henabled : codexFailureWindowEnabled config with
    | false =>
      rw [if_neg (show ¬ Event.Evaluates accountId _ from fun hev ↦ by simp [hev.2] at henabled)]
      rfl
    | true =>
      simp only [Bool.not_true, Bool.false_eq_true, if_false, isSome_none, htagged,
        Bool.or_self, any_none, windowOf_set]
      by_cases heq : accountId' = accountId
      · rw [if_pos heq.symm, if_pos ⟨heq, henabled⟩, ← heq]
        exact (huntagged.sampled rfl).recompute begin accountId' now
      · rw [if_neg (Ne.symm heq), if_neg fun hev ↦ heq hev.1]
  | read accountId' now =>
    have huntagged := h accountId'
    rw [apply, isCodexFailureWindowDegraded]
    by_cases heq : accountId' = accountId
    · subst heq
      rw [if_pos (show Event.Evaluates accountId' (.read accountId' now) from rfl)]
      cases hget : windows.get? accountId' with
      | none =>
        have hfresh : windowOf windows accountId' = .fresh := by rw [windowOf, hget]; rfl
        rw [hfresh]
        exact (evaluated_fresh now).symm
      | some state =>
        have hstate : windowOf windows accountId' = state := by rw [windowOf, hget]; rfl
        rw [hstate] at huntagged ⊢
        dsimp only
        rw [windowOf_set, if_pos rfl]
        exact huntagged.recompute begin accountId' now
    · rw [if_neg (show ¬ Event.Evaluates accountId (.read accountId' now) from heq)]
      cases windows.get? accountId' with
      | none => rfl
      | some state =>
        dsimp only
        rw [windowOf_set, if_neg (Ne.symm heq)]

theorem after_concat : after begin (events ++ [e]) = apply begin (after begin events) e :=
  foldl_concat ..

theorem untagged_after (begin : GenerationLiveCheck) (events : List Event) (accountId : AccountId) :
    (windowAfter begin events accountId).Untagged := by
  induction events using List.reverseRecOn generalizing accountId with
  | nil => exact untagged_fresh
  | append_singleton events e ih =>
    rw [windowAfter, after_concat, windowOf_apply ih]
    split
    · exact ((ih accountId).taking e).evaluated e.now
    · exact ih accountId

/-- **The window of an account goes from event to event.** -/
theorem windowAfter_concat (begin : GenerationLiveCheck) (events : List Event) (e : Event)
    (accountId : AccountId) : windowAfter begin (events ++ [e]) accountId =
      if e.Evaluates accountId then
        ((windowAfter begin events accountId).taking e.brings).evaluated e.now
      else windowAfter begin events accountId := by
  rw [windowAfter, after_concat]
  exact windowOf_apply (untagged_after begin events)

end Events

/-! ## The verdicts -/

section Verdicts

variable {begin : GenerationLiveCheck} {state : WindowState} {e : Event} {events : List Event}
  {accountId : AccountId} {now : ℤ}

theorem not_degrading_of_recovering {samples : List Sample} (h : Recovering samples) :
    ¬ Degrading samples := by
  rintro ⟨-, hdegrading⟩
  obtain ⟨hmin, hrecovering⟩ := h
  rw [codexSlidingFailureMinSamples] at hmin
  omega

theorem degrading_of_evaluated (hbefore : state.degraded = false)
    (hafter : (state.evaluated now).degraded = true) : Degrading (state.evaluated now).samples := by
  rw [evaluated_samples]
  by_contra hnot
  rw [WindowState.evaluated, WindowState.settle, if_neg hnot, if_pos hbefore] at hafter
  exact absurd (hbefore.symm.trans hafter) false_ne_true

theorem recovering_of_evaluated (hbefore : state.degraded = true)
    (hafter : (state.evaluated now).degraded = false) : Recovering (state.evaluated now).samples ∧
      codexSlidingFailureRecoverSustainMs ≤ now - state.healthySince.getD now := by
  have hnot : ¬ state.degraded = false := by rw [hbefore]; exact true_eq_false_eq_False.elim
  rw [evaluated_samples]
  rw [WindowState.evaluated, WindowState.settle] at hafter
  split_ifs at hafter with hdegrading hrecovering hlong
  · exact ⟨hrecovering, hlong⟩
  · exact absurd hafter hnot
  · exact absurd hafter hnot

/-- The timer runs only while the account recovers, from the evaluation that started it. -/
theorem healthySince_evaluated {since : ℤ} (h : (state.evaluated now).healthySince = some since) :
    Recovering (state.evaluated now).samples ∧ since = state.healthySince.getD now := by
  rw [evaluated_samples]
  rw [WindowState.evaluated, WindowState.settle] at h
  split_ifs at h with hdegrading hdegraded hrecovering hlong
  exact ⟨hrecovering, (some.inj h).symm⟩

theorem evaluated_of_recovering (h : Recovering (state.evaluated now).samples) :
    (state.evaluated now).degraded = false ∨ state.degraded = true ∧
      (state.evaluated now).healthySince = some (state.healthySince.getD now) ∧
        now - state.healthySince.getD now < codexSlidingFailureRecoverSustainMs := by
  rw [evaluated_samples] at h
  rw [WindowState.evaluated, WindowState.settle, if_neg (not_degrading_of_recovering h)]
  split_ifs with hdegraded hlong
  · exact Or.inl hdegraded
  · exact Or.inl rfl
  · exact Or.inr ⟨eq_true_of_not_eq_false hdegraded, rfl, not_le.mp hlong⟩

end Verdicts

/-! ## The samples of a run -/

section Samples

variable {begin : GenerationLiveCheck} {e : Event} {events : List Event} {accountId : AccountId}

/-- The times of a run do not go back. -/
def Timed (events : List Event) : Prop := events.Pairwise (·.now ≤ ·.now)

theorem recorded_concat : recorded accountId (events ++ [e]) =
    recorded accountId events ++ if e.Evaluates accountId then e.brings.toList else [] := by
  rw [recorded, filter_append, filterMap_append, recorded]
  by_cases h : e.Evaluates accountId
  · rw [filter_singleton, decide_eq_true h, if_pos h]
    cases hbrings : e.brings <;> simp [hbrings]
  · rw [filter_singleton, decide_eq_false h, if_neg h]
    rfl

theorem sampledAt_of_brings {sample : Sample} (h : e.brings = some sample) :
    sample.sampledAt = e.now := by
  cases e with
  | sample config accountId failed now => rw [← some.inj h]; rfl
  | read accountId now => exact absurd h.symm (some_ne_none _)

theorem Timed.recorded (h : Timed events) (accountId : AccountId) :
    (recorded accountId events).Pairwise (·.sampledAt ≤ ·.sampledAt) := by
  rw [FailureWindow.recorded, pairwise_filterMap]
  refine (h.filter _).imp fun hle sample hsample sample' hsample' ↦ ?_
  rw [sampledAt_of_brings hsample, sampledAt_of_brings hsample']
  exact hle

theorem inWindow_suffix {samples : List Sample} (h : samples.Pairwise (·.sampledAt ≤ ·.sampledAt))
    (now : ℤ) : inWindow now samples <:+ samples := by
  induction samples with
  | nil => exact suffix_rfl
  | cons sample samples ih =>
    obtain ⟨hhead, htail⟩ := pairwise_cons.mp h
    by_cases hin : now - codexSlidingFailureWindowMs < sample.sampledAt
    · have hall : inWindow now (sample :: samples) = sample :: samples := by
        refine filter_eq_self.mpr fun sample' hsample' ↦ decide_eq_true ?_
        rcases mem_cons.mp hsample' with rfl | hmem
        · exact hin
        · exact lt_of_lt_of_le hin (hhead sample' hmem)
      exact ⟨[], hall⟩
    · rw [inWindow, filter_cons_of_neg (by simpa using hin)]
      exact (ih htail).trans (suffix_cons _ _)

variable (state : WindowState)

theorem taking_samples_suffix (sample? : Option Sample) :
    (state.taking sample?).samples <:+ state.samples ++ sample?.toList := by
  cases sample? with
  | none => rw [toList_none, append_nil]; exact suffix_rfl
  | some sample => exact spliced_suffix (state.samples ++ [sample])

theorem taking_healthySince (sample? : Option Sample) :
    (state.taking sample?).healthySince = state.healthySince := by
  cases sample? <;> rfl

theorem taking_degraded (sample? : Option Sample) :
    (state.taking sample?).degraded = state.degraded := by
  cases sample? <;> rfl

/-- **The window of an account holds the latest of its samples.** -/
theorem samples_suffix (begin : GenerationLiveCheck) (accountId : AccountId) (h : Timed events) :
    (windowAfter begin events accountId).samples <:+ recorded accountId events := by
  induction events using List.reverseRecOn with
  | nil => exact suffix_rfl
  | append_singleton events e ih =>
    have hsorted := h.recorded accountId
    rw [recorded_concat] at hsorted ⊢
    have hbefore := ih (pairwise_append.mp h).1
    rw [windowAfter_concat]
    split
    · rename_i hev
      rw [if_pos hev] at hsorted
      have htaking : ((windowAfter begin events accountId).taking e.brings).samples <:+
          recorded accountId events ++ e.brings.toList :=
        (taking_samples_suffix _ _).trans (suffix_append_self_iff.mpr hbefore)
      rw [evaluated_samples]
      exact (inWindow_suffix (hsorted.sublist htaking.sublist) e.now).trans htaking
    · rw [append_nil]
      exact hbefore

end Samples

/-! ## Coming back -/

section Recovery

variable {begin : GenerationLiveCheck} {e : Event} {start events : List Event}
  {accountId : AccountId}

/-- The account recovers at every point of a run from some point on. -/
def RecoversFrom (begin : GenerationLiveCheck) (accountId : AccountId)
    (start events : List Event) : Prop :=
  ∀ part, start <+: part → part <+: events → Recovering (windowAfter begin part accountId).samples

theorem RecoversFrom.self (h : Recovering (windowAfter begin events accountId).samples) :
    RecoversFrom begin accountId events events := by
  intro part hstart hpart
  rwa [hpart.eq_of_length_le hstart.length_le]

theorem RecoversFrom.concat (h : RecoversFrom begin accountId start events)
    (hnew : Recovering (windowAfter begin (events ++ [e]) accountId).samples) :
    RecoversFrom begin accountId start (events ++ [e]) := by
  intro part hstart hpart
  rcases prefix_concat_iff.mp hpart with rfl | hbefore
  · exact hnew
  · exact h part hstart hbefore

/-- The timer of an account that recovers started at an evaluation. -/
structure Since (begin : GenerationLiveCheck) (accountId : AccountId) (events : List Event)
    (since : ℤ) (before : List Event) (first : Event) : Prop where
  evaluates : first.Evaluates accountId
  now : first.now = since
  started : before ++ [first] <+: events
  recovers : RecoversFrom begin accountId (before ++ [first]) events

variable {since : ℤ} {before : List Event}

variable {first : Event}

theorem Since.concat (h : Since begin accountId events since before first)
    (hnew : Recovering (windowAfter begin (events ++ [e]) accountId).samples) :
    Since begin accountId (events ++ [e]) since before first :=
  ⟨h.evaluates, h.now, h.started.trans (prefix_append _ _), h.recovers.concat hnew⟩

/-- **Where the timer comes from.**  All the time since then the account has recovered. -/
theorem since_of_healthySince (h : (windowAfter begin events accountId).healthySince = some since) :
    ∃ before first, Since begin accountId events since before first := by
  induction events using List.reverseRecOn generalizing since with
  | nil => exact absurd h.symm (some_ne_none _)
  | append_singleton events e ih =>
    have hwindow := windowAfter_concat begin events e accountId
    by_cases hev : e.Evaluates accountId
    · rw [if_pos hev] at hwindow
      rw [hwindow] at h
      obtain ⟨hnew, hsince⟩ := healthySince_evaluated h
      rw [taking_healthySince] at hsince
      rw [← hwindow] at hnew
      cases hbefore : (windowAfter begin events accountId).healthySince with
      | none =>
        refine ⟨events, e, hev, ?_, prefix_rfl, .self hnew⟩
        rw [hsince, hbefore, getD_none]
      | some since' =>
        obtain ⟨before, first, hfirst⟩ := ih hbefore
        have heq : since = since' := by rw [hsince, hbefore, getD_some]
        exact ⟨before, first, heq ▸ hfirst.concat hnew⟩
    · rw [if_neg hev] at hwindow
      rw [hwindow] at h
      obtain ⟨before, first, hfirst⟩ := ih h
      refine ⟨before, first, hfirst.concat ?_⟩
      rw [hwindow]
      exact hfirst.recovers events hfirst.started prefix_rfl

variable {now : ℤ}

theorem Since.le (h : Since begin accountId events since before first)
    (hlast : ∀ e ∈ events, e.now ≤ now) : since ≤ now :=
  h.now ▸ hlast first (h.started.subset (by simp))

theorem recovering_of_quiet {samples : List Sample}
    (hmin : codexSlidingFailureMinSamples ≤ samples.length)
    (hquiet : ∀ sample ∈ samples, ¬ sample.failed = true) : Recovering samples := by
  refine ⟨hmin, ?_⟩
  rw [failures, countP_eq_zero.mpr hquiet]
  exact Nat.zero_le _

theorem quiet_of_evaluates (htimes : Timed (events ++ [e])) (hev : e.Evaluates accountId)
    (hnow : now ≤ e.now)
    (hold : ∀ sample ∈ recorded accountId (events ++ [e]), sample.failed = true →
      sample.sampledAt ≤ now - codexSlidingFailureWindowMs) :
    ∀ sample ∈ (windowAfter begin (events ++ [e]) accountId).samples, ¬ sample.failed = true := by
  intro sample hsample hfailed
  have hrecorded := (samples_suffix begin accountId htimes).subset hsample
  rw [windowAfter_concat, if_pos hev, evaluated_samples, inWindow, mem_filter,
    decide_eq_true_iff] at hsample
  have hlate := hold sample hrecorded hfailed
  omega

variable {later : List Event}

/-- **A timer that is not stopped.**  From a read on, as long as nothing fails and there are enough
samples, either the account has come back or its timer has not been started anew. -/
theorem timer_goes_on (begin : GenerationLiveCheck)
    (htimes : Timed (before ++ .read accountId now :: later))
    (hold : ∀ sample ∈ recorded accountId (before ++ .read accountId now :: later),
      sample.failed = true → sample.sampledAt ≤ now - codexSlidingFailureWindowMs)
    (hmin : ∀ part, before ++ [.read accountId now] <+: part →
      part <+: before ++ .read accountId now :: later →
      codexSlidingFailureMinSamples ≤ (windowAfter begin part accountId).samples.length) :
    (windowAfter begin (before ++ .read accountId now :: later) accountId).degraded = false ∨
      ∃ since ≤ now, (windowAfter begin (before ++ .read accountId now :: later)
        accountId).healthySince = some since := by
  induction later using List.reverseRecOn with
  | nil =>
    have hev : (Event.read accountId now).Evaluates accountId := rfl
    have hrecovering := recovering_of_quiet (hmin _ prefix_rfl prefix_rfl)
      (quiet_of_evaluates htimes hev le_rfl hold)
    rw [windowAfter_concat, if_pos hev] at hrecovering ⊢
    rcases evaluated_of_recovering hrecovering with hback | ⟨-, hsince, -⟩
    · exact Or.inl hback
    · refine Or.inr ⟨_, ?_, hsince⟩
      rw [taking_healthySince]
      cases hbefore : (windowAfter begin before accountId).healthySince with
      | none => exact le_rfl
      | some since =>
        obtain ⟨before', first, hfirst⟩ := since_of_healthySince hbefore
        exact hfirst.le fun e he ↦
          (pairwise_append.mp htimes).2.2 e he (.read accountId now) (by simp)
  | append_singleton later e ih =>
    rw [← cons_append, ← append_assoc] at htimes hold hmin ⊢
    have hprefix := prefix_append (before ++ Event.read accountId now :: later) [e]
    have hbefore := ih (pairwise_append.mp htimes).1
      (fun sample hsample ↦ hold sample (recorded_concat ▸ mem_append_left _ hsample))
      fun part hstart hpart ↦ hmin part hstart (hpart.trans hprefix)
    by_cases hev : e.Evaluates accountId
    · have hlater : now ≤ e.now :=
        (pairwise_append.mp htimes).2.2 (.read accountId now) (by simp) e (by simp)
      have hrecovering := recovering_of_quiet (hmin _ ⟨later ++ [e], by simp⟩ prefix_rfl)
        (quiet_of_evaluates htimes hev hlater hold)
      rw [windowAfter_concat, if_pos hev] at hrecovering ⊢
      rcases evaluated_of_recovering hrecovering with hback | ⟨hdegraded, hsince, -⟩
      · exact Or.inl hback
      · rw [taking_degraded] at hdegraded
        rcases hbefore with hback | ⟨since, hle, hrun⟩
        · exact absurd (hback.symm.trans hdegraded) false_ne_true
        · rw [taking_healthySince, hrun] at hsince
          exact Or.inr ⟨since, hle, hsince⟩
    · rw [windowAfter_concat, if_neg hev]
      exact hbefore

theorem recorded_read {accountId' : AccountId} :
    recorded accountId (events ++ [.read accountId' now]) = recorded accountId events := by
  rw [recorded_concat, Event.brings, toList_none, ite_self, append_nil]

/-- **Back at the second read.** -/
theorem back_at_second_read {now' : ℤ}
    (htimes : Timed (before ++ .read accountId now :: later ++ [.read accountId now']))
    (hlong : now + codexSlidingFailureRecoverSustainMs ≤ now')
    (hold : ∀ sample ∈ recorded accountId (before ++ .read accountId now :: later),
      sample.failed = true → sample.sampledAt ≤ now - codexSlidingFailureWindowMs)
    (hmin : ∀ part, before ++ [.read accountId now] <+: part →
      part <+: before ++ .read accountId now :: later ++ [.read accountId now'] →
      codexSlidingFailureMinSamples ≤ (windowAfter begin part accountId).samples.length) :
    (windowAfter begin (before ++ .read accountId now :: later ++ [.read accountId now'])
      accountId).degraded = false := by
  have hprefix := prefix_append (before ++ Event.read accountId now :: later) [.read accountId now']
  have hev : (Event.read accountId now').Evaluates accountId := rfl
  have hlater : now ≤ now' :=
    (pairwise_append.mp htimes).2.2 (.read accountId now) (by simp) (.read accountId now') (by simp)
  have htimer := timer_goes_on begin (pairwise_append.mp htimes).1 hold
    fun part hstart hpart ↦ hmin part hstart (hpart.trans hprefix)
  have hrecovering := recovering_of_quiet
    (hmin _ ⟨later ++ [.read accountId now'], by simp⟩ prefix_rfl)
    (quiet_of_evaluates htimes hev hlater (by rwa [recorded_read]))
  rw [windowAfter_concat, if_pos hev] at hrecovering ⊢
  rcases evaluated_of_recovering hrecovering with hback | ⟨hdegraded, -, hshort⟩
  · exact hback
  · rw [taking_degraded] at hdegraded
    rcases htimer with hback | ⟨since, hle, hrun⟩
    · exact absurd (hback.symm.trans hdegraded) false_ne_true
    · rw [taking_healthySince, hrun, getD_some, Event.now] at hshort
      omega

theorem read_degraded (begin : GenerationLiveCheck) (windows : Windows) (accountId : AccountId)
    (now : ℤ) : (isCodexFailureWindowDegraded begin windows accountId now).2 =
      (windowOf (apply begin windows (.read accountId now)) accountId).degraded := by
  rw [apply, isCodexFailureWindowDegraded]
  cases hget : windows.get? accountId with
  | none =>
    rw [windowOf, hget]
    rfl
  | some state =>
    dsimp only
    rw [windowOf_set, if_pos rfl]

/-- **A degraded account comes back.**  It turns degraded when at least twenty samples of the last
minute are retained of which a quarter has failed; it turns back when no more than a tenth has, at
two evaluations half a minute apart and ever between them; and when nothing fails for long enough,
it is back at the second of two reads, if at each evaluation from the first on enough samples are
retained. -/
theorem account_recovers (begin : GenerationLiveCheck) (accountId : AccountId) (past : List Event)
    (e : Event) (htimes : Timed (past ++ [e])) :
    ((windowAfter begin past accountId).degraded = false →
      (windowAfter begin (past ++ [e]) accountId).degraded = true →
        let samples := (windowAfter begin (past ++ [e]) accountId).samples
        (codexSlidingFailureMinSamples ≤ samples.length ∧ samples.length ≤ failures samples * 4) ∧
        samples <:+ recorded accountId (past ++ [e]) ∧
        ∀ sample ∈ samples, e.now - codexSlidingFailureWindowMs < sample.sampledAt) ∧
    ((windowAfter begin past accountId).degraded = true →
      (windowAfter begin (past ++ [e]) accountId).degraded = false → e.Evaluates accountId ∧
        ∃ before first later, past = before ++ first :: later ∧ first.Evaluates accountId ∧
          first.now + codexSlidingFailureRecoverSustainMs ≤ e.now ∧
          ∀ part, before ++ [first] <+: part → part <+: past ++ [e] →
            let samples := (windowAfter begin part accountId).samples
            codexSlidingFailureMinSamples ≤ samples.length ∧
              failures samples * 10 ≤ samples.length) ∧
    ∀ before later now now', past = before ++ .read accountId now :: later →
      e = .read accountId now' → now + codexSlidingFailureRecoverSustainMs ≤ now' →
      (∀ sample ∈ recorded accountId past, sample.failed = true →
        sample.sampledAt ≤ now - codexSlidingFailureWindowMs) →
      (∀ part, before ++ [.read accountId now] <+: part → part <+: past ++ [e] →
        codexSlidingFailureMinSamples ≤ (windowAfter begin part accountId).samples.length) →
      (isCodexFailureWindowDegraded begin (after begin past) accountId now').2 = false ∧
        ∀ config, (failureWindowSteersNewThreads config begin (after begin past) accountId now').2 =
          false := by
  refine ⟨?_, ?_, ?_⟩
  · intro hbefore hafter
    by_cases hev : e.Evaluates accountId
    · have hsuffix := samples_suffix begin accountId htimes
      rw [windowAfter_concat, if_pos hev] at hafter hsuffix ⊢
      rw [← taking_degraded _ e.brings] at hbefore
      refine ⟨degrading_of_evaluated hbefore hafter, hsuffix, fun sample hsample ↦ ?_⟩
      rw [evaluated_samples, inWindow, mem_filter, decide_eq_true_iff] at hsample
      exact hsample.2
    · rw [windowAfter_concat, if_neg hev] at hafter
      exact absurd (hbefore.symm.trans hafter) false_ne_true
  · intro hbefore hafter
    by_cases hev : e.Evaluates accountId
    · refine ⟨hev, ?_⟩
      have hwindow := windowAfter_concat begin past e accountId
      rw [if_pos hev] at hwindow
      rw [hwindow] at hafter
      rw [← taking_degraded _ e.brings] at hbefore
      obtain ⟨hrecovering, hlong⟩ := recovering_of_evaluated hbefore hafter
      rw [← hwindow] at hrecovering
      rw [taking_healthySince] at hlong
      cases hsince : (windowAfter begin past accountId).healthySince with
      | none =>
        rw [hsince, getD_none, sub_self] at hlong
        nomatch hlong
      | some since =>
        obtain ⟨before, first, hfirst⟩ := since_of_healthySince hsince
        obtain ⟨later, hlater⟩ := hfirst.started
        rw [hsince, getD_some, ← hfirst.now] at hlong
        refine ⟨before, first, later, by simp [← hlater], hfirst.evaluates, by omega, ?_⟩
        exact (hfirst.concat hrecovering).recovers
    · rw [windowAfter_concat, if_neg hev] at hafter
      exact absurd (hbefore.symm.trans hafter) true_eq_false_eq_False.elim
  · rintro before later now now' rfl rfl hlong hold hmin
    have hback := back_at_second_read htimes hlong hold hmin
    rw [windowAfter, after_concat, ← read_degraded] at hback
    refine ⟨hback, fun config ↦ ?_⟩
    rw [failureWindowSteersNewThreads]
    split_ifs
    · rfl
    · simp only [hback, Bool.false_and]

end Recovery

/-! ## An account that failed -/

def unread : GenerationLiveCheck := ⟨true, fun _ _ ↦ false⟩

/-- So many samples of one account. -/
def samplesOf (n : ℕ) (failed : Bool) (now : ℤ) : List Event :=
  List.replicate n (.sample ⟨none, false, none⟩ "a" failed now)

/-- A quarter of the first twenty fails. -/
def failing : List Event := samplesOf 15 false 0 ++ samplesOf 5 true 0

/-- **Back in time.**  After twenty good samples, at the second of two reads half a minute apart. -/
theorem recovers_after_failing :
    (isCodexFailureWindowDegraded unread (after unread failing) "a" 0).2 = true ∧
    (isCodexFailureWindowDegraded unread
      (after unread (failing ++ samplesOf 20 false 90000 ++ [.read "a" 90000])) "a" 120000).2 =
        false := by
  refine ⟨by decide +kernel, ?_⟩
  have htimes : Timed (failing ++ samplesOf 20 false 90000 ++ [.read "a" 90000] ++
      [.read "a" 120000]) := by
    unfold Timed
    decide +kernel
  have hback := account_recovers unread "a" _ _ htimes
  refine (hback.2.2 (failing ++ samplesOf 20 false 90000) [] 90000 120000 rfl rfl (by decide)
    (by decide +kernel) fun part hstart hpart ↦ ?_).1
  rcases prefix_concat_iff.mp hpart with rfl | hbefore
  · decide +kernel
  · rw [hbefore.eq_of_length_le hstart.length_le]
    decide +kernel

/-- **Not without samples.**  Nothing fails for three minutes, and the second of two reads half a
minute apart still finds the account degraded. -/
theorem degraded_without_samples : Timed (failing ++ [.read "a" 200000] ++ [.read "a" 230000]) ∧
    (∀ sample ∈ recorded "a" (failing ++ [.read "a" 200000]), sample.failed = true →
      sample.sampledAt ≤ 230000 - (codexSlidingFailureWindowMs +
        codexSlidingFailureRecoverSustainMs)) ∧
    (isCodexFailureWindowDegraded unread (after unread (failing ++ [.read "a" 200000])) "a"
      230000).2 = true := by
  refine ⟨?_, by decide +kernel, by decide +kernel⟩
  unfold Timed
  decide +kernel

end FailureWindow
