import Mathlib.Data.List.Basic

/-!
# Streams that are pulled

A stream with a default queue of high-water mark one, as its producer and its reader see it.  The
producer enqueues chunks whenever it likes; the reader asks for one chunk at a time, and a request that
finds the queue empty waits for the next chunk.  The stream calls the producer's `pull` to say that it
wants more — but only after a chunk was enqueued or a request was made, only where the queue is empty
or a request waits, and never while an earlier call is outstanding (`callPullIfNeeded`); a call that
would have come then is made up for by one call when the earlier one settles.

So calls of `pull` do not count the chunks that are read.  A producer that settles one entry of a list
with each call keeps up only while every chunk that reaches the reader comes with a call: `Trails` says
that it is at most one chunk behind, and has a rule for each operation.
-/

set_option autoImplicit false

open List Option

universe u v w

/-- What can still be done with a stream: it is open, or closed with chunks left, or over. -/
inductive StreamPhase where
  | readable
  | closing
  | closed
  deriving DecidableEq

/-- A stream of chunks `α` over a producer with states `σ`. -/
structure PullStream (α : Type u) (σ : Type v) where
  queue : List α := []
  /-- The chunks the reader got. -/
  received : List α := []
  /-- Requests that wait for a chunk. -/
  pendingReads : ℕ := 0
  started : Bool := false
  /-- A call of `pull` is outstanding. -/
  pulling : Bool := false
  pullAgain : Bool := false
  phase : StreamPhase := .readable
  source : σ

namespace PullStream

variable {α : Type u} {σ : Type v} (pull : σ → σ)

/-- `desiredSize > 0` -/
def hasRoom (s : PullStream α σ) : Bool := s.phase ≠ .closed && s.queue.isEmpty

def shouldCallPull (s : PullStream α σ) : Bool :=
  s.phase = .readable && s.started && (0 < s.pendingReads || s.queue.isEmpty)

def callPullIfNeeded (s : PullStream α σ) : PullStream α σ :=
  if s.shouldCallPull = false then s
  else if s.pulling then { s with pullAgain := true }
  else { s with pulling := true, source := pull s.source }

/-- The producer's start is over. -/
def start (s : PullStream α σ) : Option (PullStream α σ) :=
  if s.started then none else some (callPullIfNeeded pull { s with started := true })

/-- The outstanding call of `pull` settles. -/
def settle (s : PullStream α σ) : Option (PullStream α σ) :=
  if s.pulling = false then none
  else if s.pullAgain then
    some (callPullIfNeeded pull { s with pulling := false, pullAgain := false })
  else some { s with pulling := false }

/-- Hand a chunk to a request that waits, or put it into the queue. -/
def put (a : α) (s : PullStream α σ) : PullStream α σ :=
  if 0 < s.pendingReads then
    { s with pendingReads := s.pendingReads - 1, received := s.received ++ [a] }
  else { s with queue := s.queue ++ [a] }

/-- `controller.enqueue`; it throws where the stream is not open. -/
def enqueue (a : α) (s : PullStream α σ) : Option (PullStream α σ) :=
  if s.phase = .readable then some (callPullIfNeeded pull (s.put a)) else none

/-- The reader asks for a chunk. -/
def read (s : PullStream α σ) : PullStream α σ :=
  match s.queue with
  | a :: rest =>
    let s' := { s with queue := rest, received := s.received ++ [a] }
    if s.phase = .closing ∧ rest = [] then { s' with phase := .closed } else callPullIfNeeded pull s'
  | [] =>
    if s.phase = .readable then callPullIfNeeded pull { s with pendingReads := s.pendingReads + 1 }
    else s

/-- `controller.close`; it throws where the stream is not open. -/
def close (s : PullStream α σ) : Option (PullStream α σ) :=
  if s.phase = .readable then
    if s.queue = [] then some { s with phase := .closed, pendingReads := 0 }
    else some { s with phase := .closing }
  else none

/-! ## What a call touches -/

variable {pull}

@[simp] theorem callPullIfNeeded_queue (s : PullStream α σ) :
    (callPullIfNeeded pull s).queue = s.queue := by
  rw [callPullIfNeeded]
  split_ifs <;> rfl

@[simp] theorem callPullIfNeeded_received (s : PullStream α σ) :
    (callPullIfNeeded pull s).received = s.received := by
  rw [callPullIfNeeded]
  split_ifs <;> rfl

@[simp] theorem callPullIfNeeded_pendingReads (s : PullStream α σ) :
    (callPullIfNeeded pull s).pendingReads = s.pendingReads := by
  rw [callPullIfNeeded]
  split_ifs <;> rfl

/-- The producer is called where the stream wants a chunk and no call is outstanding. -/
theorem callPullIfNeeded_source (s : PullStream α σ) : (callPullIfNeeded pull s).source =
      if s.shouldCallPull = true ∧ s.pulling = false then pull s.source else s.source := by
  rw [callPullIfNeeded]
  by_cases hs : s.shouldCallPull = true <;> by_cases hp : s.pulling = true <;> simp [hs, hp]

variable {s : PullStream α σ}

theorem shouldCallPull_eq_false (hreads : s.pendingReads = 0) (hqueue : s.queue ≠ []) :
    s.shouldCallPull = false := by
  have hempty : s.queue.isEmpty = false := by simpa using hqueue
  rw [shouldCallPull, hreads, hempty]
  simp

/-! ## What the producer keeps -/

variable {P : σ → Prop}

theorem callPullIfNeeded_keeps (hpull : ∀ x, P x → P (pull x)) (h : P s.source) :
    P (callPullIfNeeded pull s).source := by
  rw [callPullIfNeeded_source]
  split_ifs
  · exact hpull _ h
  · exact h

variable {s' : PullStream α σ}

theorem start_keeps (hpull : ∀ x, P x → P (pull x)) (h : P s.source) (hs : s.start pull = some s') :
    P s'.source := by
  rw [start] at hs
  split_ifs at hs
  exact some_inj.mp hs ▸ callPullIfNeeded_keeps hpull h

theorem settle_keeps (hpull : ∀ x, P x → P (pull x)) (h : P s.source) (hs : s.settle pull = some s') :
    P s'.source := by
  rw [settle] at hs
  split_ifs at hs
  · exact some_inj.mp hs ▸ callPullIfNeeded_keeps hpull h
  · exact some_inj.mp hs ▸ h

theorem put_source (a : α) (s : PullStream α σ) : (s.put a).source = s.source := by
  rw [put]
  split_ifs <;> rfl

theorem enqueue_keeps (hpull : ∀ x, P x → P (pull x)) {a : α} (h : P s.source)
    (hs : s.enqueue pull a = some s') : P s'.source := by
  rw [enqueue] at hs
  split_ifs at hs
  refine some_inj.mp hs ▸ callPullIfNeeded_keeps hpull ?_
  rwa [put_source]

theorem read_keeps (hpull : ∀ x, P x → P (pull x)) (h : P s.source) : P (s.read pull).source := by
  rw [read]
  split
  · simp only
    split_ifs
    · exact h
    · exact callPullIfNeeded_keeps hpull h
  · split_ifs
    · exact callPullIfNeeded_keeps hpull h
    · exact h

theorem close_source (hs : s.close = some s') : s'.source = s.source := by
  rw [close] at hs
  split_ifs at hs
  · exact some_inj.mp hs ▸ rfl
  · exact some_inj.mp hs ▸ rfl

/-! ## One entry for each call -/

variable {β : Type w} {owed : σ → List β} {f : α → β}

/-- The producer is at most one chunk behind the reader: what it has not settled are the chunks in the
queue and at most the last one that was read. -/
structure Trails (owed : σ → List β) (f : α → β) (s : PullStream α σ) : Prop where
  /-- A request waits only for a queue that is empty. -/
  served : 0 < s.pendingReads → s.queue = []
  behind : ∃ last, last.length ≤ 1 ∧ last <:+ s.received ∧
    owed s.source = last.map f ++ s.queue.map f

/-- A chunk that is read now comes with a call of `pull`: nothing waits behind it, the stream is open
and no call is outstanding. -/
def ReadsPromptly (s : PullStream α σ) : Prop :=
  s.queue = [] ∨ (s.queue.length = 1 ∧ s.phase = .readable ∧ s.started = true ∧ s.pulling = false)

instance (s : PullStream α σ) : Decidable s.ReadsPromptly := by
  unfold ReadsPromptly
  infer_instance

theorem Trails.callPullIfNeeded (hpull : ∀ x, owed (pull x) = (owed x).tail) (h : Trails owed f s) :
    Trails owed f (callPullIfNeeded pull s) where
  served := by simpa using h.served
  behind := by
    obtain ⟨last, hlength, hlast, howed⟩ := h.behind
    simp only [callPullIfNeeded_received, callPullIfNeeded_queue, callPullIfNeeded_source]
    split_ifs with hcall
    · have hqueue : s.queue = [] := by
        have hwants := hcall.1
        rw [shouldCallPull, Bool.and_eq_true, Bool.or_eq_true, decide_eq_true_eq] at hwants
        exact hwants.2.elim h.served List.isEmpty_iff.mp
      refine ⟨[], by simp, nil_suffix, ?_⟩
      rw [hpull, howed, hqueue]
      cases last with
      | nil => rfl
      | cons a l =>
        obtain rfl : l = [] := length_eq_zero_iff.mp (by simpa using hlength)
        rfl
    · exact ⟨last, hlength, hlast, howed⟩

theorem Trails.start (hpull : ∀ x, owed (pull x) = (owed x).tail) (h : Trails owed f s)
    (hs : s.start pull = some s') : Trails owed f s' := by
  rw [PullStream.start] at hs
  split_ifs at hs
  exact some_inj.mp hs ▸ Trails.callPullIfNeeded hpull ⟨h.served, h.behind⟩

theorem Trails.settle (hpull : ∀ x, owed (pull x) = (owed x).tail) (h : Trails owed f s)
    (hs : s.settle pull = some s') : Trails owed f s' := by
  rw [PullStream.settle] at hs
  split_ifs at hs
  · exact some_inj.mp hs ▸ Trails.callPullIfNeeded hpull ⟨h.served, h.behind⟩
  · exact some_inj.mp hs ▸ ⟨h.served, h.behind⟩

theorem Trails.close (h : Trails owed f s) (hs : s.close = some s') : Trails owed f s' := by
  rw [PullStream.close] at hs
  split_ifs at hs
  · exact some_inj.mp hs ▸ ⟨fun hreads ↦ absurd hreads (Nat.lt_irrefl 0), h.behind⟩
  · exact some_inj.mp hs ▸ ⟨h.served, h.behind⟩

/-- **A read that comes with a call leaves the producer at most one chunk behind.** -/
theorem Trails.read (hpull : ∀ x, owed (pull x) = (owed x).tail) (h : Trails owed f s)
    (hprompt : s.ReadsPromptly) : Trails owed f (s.read pull) := by
  rw [PullStream.read]
  split
  · rename_i a rest hqueue
    obtain hnone | ⟨hlength, hphase, hstarted, hidle⟩ := hprompt
    · rw [hqueue] at hnone
      exact absurd hnone (cons_ne_nil a rest)
    · obtain rfl : rest = [] := by simpa [hqueue] using hlength
      simp only [hphase, reduceCtorEq, false_and, if_false]
      -- the queue is empty now, and so the stream calls for what was just read
      obtain ⟨last, hlast1, -, howed⟩ := h.behind
      rw [hqueue] at howed
      refine ⟨fun _ ↦ by simp, ?_⟩
      simp only [callPullIfNeeded_received, callPullIfNeeded_queue, callPullIfNeeded_source]
      rw [if_pos ⟨by simp [shouldCallPull, hstarted], hidle⟩, hpull, howed]
      cases last with
      | nil => exact ⟨[], by simp, nil_suffix, rfl⟩
      | cons b l =>
        obtain rfl : l = [] := length_eq_zero_iff.mp (by simpa using hlast1)
        exact ⟨[a], by simp, ⟨_, rfl⟩, rfl⟩
  · rename_i hqueue
    split_ifs
    · exact .callPullIfNeeded hpull ⟨fun _ ↦ hqueue, h.behind⟩
    · exact h

/-- **A chunk that is queued, or that is read with a call, leaves the producer at most one chunk
behind**, once it is entered. -/
theorem Trails.enqueue (hpull : ∀ x, owed (pull x) = (owed x).tail) {enter : σ → σ} {a : α}
    (henter : ∀ x, owed (enter x) = owed x ++ [f a]) (h : Trails owed f s)
    (hprompt : s.pendingReads = 0 ∨ (s.started = true ∧ s.pulling = false))
    (hs : s.enqueue pull a = some s') : Trails owed f { s' with source := enter s'.source } := by
  rw [PullStream.enqueue] at hs
  split_ifs at hs with hphase
  obtain rfl := some_inj.mp hs
  obtain ⟨last, hlast1, hlast, howed⟩ := h.behind
  rw [put]
  by_cases hreads : 0 < s.pendingReads
  · obtain ⟨hstarted, hidle⟩ := hprompt.resolve_left (Nat.ne_of_gt hreads)
    have hqueue := h.served hreads
    rw [if_pos hreads]
    refine ⟨fun _ ↦ by simpa using hqueue, [a], by simp, ?_⟩
    simp only [callPullIfNeeded_received, callPullIfNeeded_queue, henter, callPullIfNeeded_source]
    refine ⟨⟨_, rfl⟩, ?_⟩
    rw [if_pos ⟨by simp [shouldCallPull, hphase, hstarted, hqueue], hidle⟩, hpull, howed, hqueue]
    cases last with
    | nil => rfl
    | cons b l =>
      obtain rfl : l = [] := length_eq_zero_iff.mp (by simpa using hlast1)
      rfl
  · have hzero := Nat.eq_zero_of_not_pos hreads
    rw [if_neg hreads]
    refine ⟨fun hpos ↦ absurd (by simpa using hpos) hreads, last, hlast1, ?_⟩
    simp only [callPullIfNeeded_received, callPullIfNeeded_queue, henter, callPullIfNeeded_source]
    refine ⟨hlast, ?_⟩
    have hquiet : shouldCallPull { s with queue := s.queue ++ [a] } = false :=
      shouldCallPull_eq_false hzero (by simp)
    rw [if_neg (by simp [hquiet]), howed]
    simp

end PullStream
