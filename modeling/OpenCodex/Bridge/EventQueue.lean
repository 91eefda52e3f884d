import Mathlib.Data.PNat.Basic
import OpenCodex.Bridge.Events
import OpenCodex.Data.Machine

/-!
# The queue between an adapter and its consumer

An adapter that runs a turn pushes events, and one consumer reads them.  An event goes straight to a
reader that waits; otherwise it is queued, where a delta may be merged into the last event, and what
the queue retains is bounded.  `Merged pushed given` says what may become of the pushed events:
neighbours of a kind may be one event.

A merge of two text deltas keeps their text and phase, but not the signature that a delta may carry.
In the runs in which no signed delta is merged nothing is lost (`delivers_what_was_pushed`).
-/

set_option autoImplicit false

open List Option

namespace Bridge

variable {ρ : Type}

/-! ## Merges -/

/-- An event, told apart as far as the queue does.  `error` is the one it adds itself, and `other`
stands for the kinds it only passes on. -/
inductive QueuedEvent (ρ : Type) where
  | heartbeat (replayUnsafe preflightReady : Bool)
  | textDelta (text : JsString) (phase : Option MessagePhase)
      (anthropicThinkingSignature : Option JsString)
  | thinkingDelta (thinking : JsString)
  | error (message : JsString)
  | other (payload : ρ)
  deriving DecidableEq

def coalesceMaxChunkLength : ℕ := 64 * 1024

/-- The tail of the queue with an event merged into it. -/
def planTailMerge : QueuedEvent ρ → QueuedEvent ρ → Option (QueuedEvent ρ)
  | .heartbeat replayUnsafe preflightReady, .heartbeat replayUnsafe' preflightReady' =>
    if replayUnsafe' = false ∧ preflightReady' = false then
      some (.heartbeat replayUnsafe preflightReady)
    else some (.heartbeat (replayUnsafe || replayUnsafe') (preflightReady || preflightReady'))
  | .textDelta text phase _, .textDelta text' phase' _ =>
    if phase = phase' then
      if text.length + text'.length > coalesceMaxChunkLength then none
      else some (.textDelta (text ++ text') phase none)
    else none
  | .thinkingDelta thinking, .thinkingDelta thinking' =>
    if thinking.length + thinking'.length > coalesceMaxChunkLength then none
    else some (.thinkingDelta (thinking ++ thinking'))
  | _, _ => none

/-- Neighbours of a kind, as one event. -/
inductive Joins : List (QueuedEvent ρ) → QueuedEvent ρ → Prop where
  | one (event : QueuedEvent ρ) : Joins [event] event
  | heartbeat {l : List (QueuedEvent ρ)} {u r : Bool} (u' r' : Bool) : Joins l (.heartbeat u r) →
      Joins (l ++ [.heartbeat u' r']) (.heartbeat (u || u') (r || r'))
  | text {l : List (QueuedEvent ρ)} {text : JsString} {phase : Option MessagePhase}
      (text' : JsString) : Joins l (.textDelta text phase none) →
      Joins (l ++ [.textDelta text' phase none]) (.textDelta (text ++ text') phase none)
  | thinking {l : List (QueuedEvent ρ)} {thinking : JsString} (thinking' : JsString) :
      Joins l (.thinkingDelta thinking) →
      Joins (l ++ [.thinkingDelta thinking']) (.thinkingDelta (thinking ++ thinking'))

/-- **What may become of the pushed events**: all of them in order, neighbours of a kind as one. -/
inductive Merged : List (QueuedEvent ρ) → List (QueuedEvent ρ) → Prop where
  | nil : Merged [] []
  | snoc {l given g : List (QueuedEvent ρ)} {event : QueuedEvent ρ} : Merged l given →
      Joins g event → Merged (l ++ g) (given ++ [event])

def QueuedEvent.signature : QueuedEvent ρ → Option JsString
  | .textDelta _ _ signature => signature
  | _ => none

variable {tail event merged : QueuedEvent ρ} {l given g : List (QueuedEvent ρ)}

theorem joins_planTailMerge (hplan : planTailMerge tail event = some merged)
    (htail : tail.signature = none) (hevent : event.signature = none) (h : Joins g tail) :
    Joins (g ++ [event]) merged := by
  unfold planTailMerge at hplan
  split at hplan
  · rename_i u r u' r'
    have hjoin := h.heartbeat u' r'
    split_ifs at hplan with hplain
    · obtain ⟨rfl, rfl⟩ := hplain
      rw [Bool.or_false, Bool.or_false] at hjoin
      exact some_inj.mp hplan ▸ hjoin
    · exact some_inj.mp hplan ▸ hjoin
  · rename_i text phase signature text' phase' signature'
    obtain rfl : signature = none := htail
    obtain rfl : signature' = none := hevent
    split_ifs at hplan with hphase
    subst hphase
    exact some_inj.mp hplan ▸ h.text text'
  · rename_i thinking thinking'
    split_ifs at hplan
    exact some_inj.mp hplan ▸ h.thinking thinking'
  · nomatch hplan

theorem Merged.one (h : Merged l given) (event : QueuedEvent ρ) :
    Merged (l ++ [event]) (given ++ [event]) := h.snoc (.one event)

theorem Merged.grow (h : Merged l (given ++ [tail]))
    (hjoin : ∀ g, Joins g tail → Joins (g ++ [event]) merged) :
    Merged (l ++ [event]) (given ++ [merged]) := by
  generalize hall : given ++ [tail] = all at h
  cases h with
  | nil => exact absurd hall (by simp)
  | snoc h hg =>
    obtain ⟨rfl, hlast⟩ := append_inj' hall rfl
    obtain rfl := singleton_inj.mp hlast
    rw [append_assoc]
    exact h.snoc (hjoin _ hg)

theorem Merged.signatures (h : Merged l given) :
    l.filterMap QueuedEvent.signature = given.filterMap QueuedEvent.signature := by
  have hjoin : ∀ g (event : QueuedEvent ρ), Joins g event →
      g.filterMap QueuedEvent.signature = [event].filterMap QueuedEvent.signature := by
    intro g event h
    induction h with
    | one => rfl
    | heartbeat _ _ _ ih | text _ _ ih | thinking _ _ ih =>
      rw [filterMap_append, ih]
      rfl
  induction h with
  | nil => rfl
  | snoc _ hg ih => rw [filterMap_append, filterMap_append, ih, hjoin _ _ hg]

/-! ## The queue -/

structure QueueOptions (ρ : Type) where
  maxBacklog : ℚ
  maxBacklogCodeUnits : ℕ+
  maxEventCodeUnits : ℕ+
  /-- What the walk through the fields counts in an event of another kind. -/
  otherCodeUnits : ρ → ℕ

/-- Of the only consumer. -/
inductive Consumer (ρ : Type) where
  /-- It is between two reads. -/
  | ready
  /-- Its reader is in the list of readers. -/
  | waiting
  /-- Its reader has been called, with an event or with the end. -/
  | handed (event : Option (QueuedEvent ρ))
  | ended
  deriving DecidableEq

/-- The queue, its consumer, and beside them what was pushed and delivered. -/
structure EventQueue (ρ : Type) where
  queued : List (QueuedEvent ρ) := []
  charged : List ℤ := []
  retained : ℤ := 0
  closed : Bool := false
  consumer : Consumer ρ := .ready
  /-- The events pushed before the queue was closed, the refused one apart. -/
  accepted : List (QueuedEvent ρ) := []
  /-- The message for the event that was refused. -/
  refusal : Option JsString := none
  delivered : List (QueuedEvent ρ) := []

def backlogExceededMessage : JsString :=
  js "consumer stalled: adapter event backlog exceeded — turn aborted"

def eventTooLargeMessage : JsString :=
  js "adapter event exceeds the single-event retained-string budget — turn aborted"

def MessagePhase.text : MessagePhase → JsString
  | .commentary => js "commentary"
  | .finalAnswer => js "final_answer"

def retainedEventCodeUnits (o : QueueOptions ρ) : QueuedEvent ρ → ℕ
  | .heartbeat _ _ => 0
  | .textDelta text phase signature =>
    text.length + ((phase.map MessagePhase.text).getD []).length + (signature.getD []).length
  | .thinkingDelta thinking => thinking.length
  | .error message => message.length
  | .other payload => o.otherCodeUnits payload

namespace EventQueue

def close (q : EventQueue ρ) : EventQueue ρ :=
  if q.closed then q
  else { q with
    closed := true
    consumer := match q.consumer with
      | .waiting => .handed none
      | consumer => consumer }

def abortWith (o : QueueOptions ρ) (message : JsString) (q : EventQueue ρ) : EventQueue ρ :=
  let cost := retainedEventCodeUnits o (.error message)
  close { q with
    queued := q.queued ++ [.error message], charged := q.charged ++ [(cost : ℤ)]
    retained := q.retained + cost, refusal := some message }

/-- The last event, with this one merged into it. -/
def mergedTail (q : EventQueue ρ) (event : QueuedEvent ρ) : Option (QueuedEvent ρ) :=
  q.queued.getLast?.bind (planTailMerge · event)

/-- What the backlog gains by a merge. -/
def gain (o : QueueOptions ρ) (q : EventQueue ρ) (merged : QueuedEvent ρ) : ℤ :=
  retainedEventCodeUnits o merged - q.charged.getLast?.getD 0

def push (o : QueueOptions ρ) (event : QueuedEvent ρ) (q : EventQueue ρ) : EventQueue ρ :=
  if q.closed then q
  else match q.consumer with
  | .waiting => { q with consumer := .handed (some event), accepted := q.accepted ++ [event] }
  | _ => match q.mergedTail event with
    | some merged =>
      let replacement := retainedEventCodeUnits o merged
      if replacement > o.maxEventCodeUnits then q.abortWith o eventTooLargeMessage
      else if q.gain o merged > o.maxBacklogCodeUnits - q.retained then
        q.abortWith o backlogExceededMessage
      else { q with
        queued := q.queued.dropLast ++ [merged]
        charged := q.charged.dropLast ++ [(replacement : ℤ)]
        retained := q.retained + q.gain o merged, accepted := q.accepted ++ [event] }
    | none =>
      let cost := retainedEventCodeUnits o event
      if cost > o.maxEventCodeUnits then q.abortWith o eventTooLargeMessage
      else if q.queued.length ≥ o.maxBacklog then q.abortWith o backlogExceededMessage
      else if cost > o.maxBacklogCodeUnits - q.retained then q.abortWith o backlogExceededMessage
      else { q with
        queued := q.queued ++ [event], charged := q.charged ++ [(cost : ℤ)]
        retained := q.retained + cost, accepted := q.accepted ++ [event] }

/-- The consumer asks for an event. -/
def read (q : EventQueue ρ) : Option (EventQueue ρ) :=
  match q.consumer with
  | .ready => some <| match q.queued with
    | next :: queued => { q with
        queued := queued, retained := q.retained - q.charged.headD 0
        charged := q.charged.tail, delivered := q.delivered ++ [next] }
    | [] => { q with consumer := if q.closed then .ended else .waiting }
  | _ => none

/-- The consumer goes on after its reader was called. -/
def resume (q : EventQueue ρ) : Option (EventQueue ρ) :=
  match q.consumer with
  | .handed (some event) => some { q with consumer := .ready, delivered := q.delivered ++ [event] }
  | .handed none => some { q with consumer := .ended }
  | _ => none

/-- What was handed over and the consumer has not come to. -/
def pending (q : EventQueue ρ) : List (QueuedEvent ρ) :=
  match q.consumer with
  | .handed event => event.toList
  | _ => []

end EventQueue

/-- What may happen to a queue. -/
inductive QueueCall (ρ : Type) where
  | push (event : QueuedEvent ρ)
  | close
  | read
  | resume
  deriving DecidableEq

def queueMachine (o : QueueOptions ρ) : Machine (EventQueue ρ) (QueueCall ρ) where
  init q := q = {}
  step q
    | .push event => some (q.push o event)
    | .close => some q.close
    | .read => q.read
    | .resume => q.resume

/-- No delta with a signature is merged. -/
def KeepsSignatures (o : QueueOptions ρ) (q : EventQueue ρ) : QueueCall ρ → Prop
  | .push event => q.closed = false → ∀ merged ∈ q.mergedTail event,
      retainedEventCodeUnits o merged ≤ o.maxEventCodeUnits →
      q.gain o merged ≤ o.maxBacklogCodeUnits - q.retained →
        event.signature = none ∧ ∀ tail ∈ q.queued.getLast?, tail.signature = none
  | _ => True

namespace EventQueue

variable {o : QueueOptions ρ} {q q' : EventQueue ρ}

/-- What the consumer's rest says of the queue. -/
def Idle (queued : List (QueuedEvent ρ)) (closed : Bool) : Consumer ρ → Prop
  | .waiting => queued = [] ∧ closed = false
  | .handed none | .ended => queued = [] ∧ closed = true
  | _ => True

/-- What was pushed is kept, what is retained is counted, and nobody waits for nothing. -/
structure Standing (o : QueueOptions ρ) (q : EventQueue ρ) : Prop where
  kept : ∃ given, Merged q.accepted given ∧
    q.delivered ++ q.pending ++ q.queued = given ++ (q.refusal.map .error).toList
  charged : q.charged = q.queued.map fun event ↦ (retainedEventCodeUnits o event : ℤ)
  retained : q.retained = q.charged.sum
  within : q.retained ≤ o.maxBacklogCodeUnits + (q.refusal.getD []).length
  idle : Idle q.queued q.closed q.consumer

/-- What holds of a queue in the runs in which no signed delta is merged. -/
structure Sound (o : QueueOptions ρ) (q : EventQueue ρ) : Prop extends Standing o q where
  refused : q.refusal ≠ none → q.closed = true

theorem Sound.refusal_none (h : Sound o q) (hopen : q.closed = false) : q.refusal = none := by
  by_contra hne
  exact Bool.noConfusion (hopen.symm.trans (h.refused hne))

theorem Standing.close (h : Standing o q) (hopen : q.closed = false) : Sound o q.close := by
  obtain ⟨hkept, hcharged, hretained, hwithin, hidle⟩ := h
  rw [EventQueue.close, hopen, if_neg Bool.false_ne_true]
  rcases q with ⟨queued, charged, retained, closed, _ | _ | (_ | event) | _, accepted, refusal, d⟩
  all_goals refine ⟨⟨hkept, hcharged, hretained, hwithin, ?_⟩, fun _ ↦ rfl⟩
  · trivial
  · exact ⟨(show _ ∧ _ from hidle).1, rfl⟩
  · exact ⟨(show _ ∧ _ from hidle).1, rfl⟩
  · trivial
  · exact ⟨(show _ ∧ _ from hidle).1, rfl⟩

theorem Sound.close (h : Sound o q) : Sound o q.close := by
  cases hclosed : q.closed with
  | true =>
    rw [EventQueue.close, if_pos hclosed]
    exact h
  | false => exact h.toStanding.close hclosed

theorem Sound.queue (h : Sound o q) (event : QueuedEvent ρ) :
    (q.charged ++ [(retainedEventCodeUnits o event : ℤ)] =
      (q.queued ++ [event]).map fun event ↦ (retainedEventCodeUnits o event : ℤ)) ∧
    q.retained + retainedEventCodeUnits o event =
      (q.charged ++ [(retainedEventCodeUnits o event : ℤ)]).sum := by
  rw [h.charged, map_append, sum_append, ← h.charged, ← h.retained, sum_singleton]
  exact ⟨rfl, rfl⟩

theorem Sound.busy (h : Sound o q) (hopen : q.closed = false) (hwaiting : q.consumer ≠ .waiting)
    (queued : List (QueuedEvent ρ)) : Idle queued q.closed q.consumer := by
  have hidle := h.idle
  rw [hopen] at hidle ⊢
  rcases hconsumer : q.consumer with _ | _ | (_ | event) | _
  all_goals rw [hconsumer] at hidle
  · trivial
  · exact absurd hconsumer hwaiting
  · exact absurd hidle.2 Bool.false_ne_true
  · trivial
  · exact absurd hidle.2 Bool.false_ne_true

theorem Sound.abortWith (h : Sound o q) (hopen : q.closed = false)
    (hwaiting : q.consumer ≠ .waiting) (message : JsString) :
    Sound o (q.abortWith o message) := by
  obtain ⟨given, hmerged, hgiven⟩ := h.kept
  have hwithin := h.within
  rw [h.refusal_none hopen] at hgiven hwithin
  obtain ⟨hcharged, hsum⟩ := h.queue (.error message)
  refine Standing.close ⟨⟨given, hmerged, ?_⟩, hcharged, hsum, ?_, h.busy hopen hwaiting _⟩ hopen
  · rw [← append_nil given, ← append_assoc]
    exact congrArg (· ++ [.error message]) hgiven
  · exact Int.add_le_add_right (hwithin.trans_eq (add_zero _)) _

theorem Sound.push (h : Sound o q) {event : QueuedEvent ρ}
    (hkeeps : KeepsSignatures o q (.push event)) : Sound o (q.push o event) := by
  rw [EventQueue.push]
  by_cases hclosed : q.closed = true
  · rw [if_pos hclosed]
    exact h
  rw [if_neg hclosed]
  rw [Bool.not_eq_true] at hclosed
  have hnone := h.refusal_none hclosed
  obtain ⟨given, hmerged, hgiven⟩ := h.kept
  have hwithin := h.within
  split
  · rename_i hwaiting
    have hidle := h.idle
    rw [hwaiting] at hidle
    refine ⟨⟨⟨given ++ [event], hmerged.one event, ?_⟩, h.charged, h.retained, h.within, trivial⟩,
      h.refused⟩
    rw [pending, hwaiting, hnone, hidle.1] at hgiven
    rw [hnone, show q.queued = [] from hidle.1]
    simpa [pending] using hgiven
  · rename_i hwaiting
    have hwaiting : q.consumer ≠ .waiting := hwaiting
    rw [hnone, map_none, toList_none, append_nil] at hgiven
    split
    · rename_i merged hmerge
      dsimp only
      split_ifs with hlarge hfull
      · exact h.abortWith hclosed hwaiting _
      · exact h.abortWith hclosed hwaiting _
      · obtain ⟨hevent, hsigned⟩ := hkeeps hclosed merged hmerge (not_lt.mp hlarge) (not_lt.mp hfull)
        obtain ⟨tail, htail, hplan⟩ := bind_eq_some_iff.mp hmerge
        have hjoin := fun g ↦ joins_planTailMerge hplan (hsigned tail htail) hevent (g := g)
        obtain ⟨init, hqueued⟩ := getLast?_eq_some_iff.mp htail
        have hcharged := h.charged
        have hretained := h.retained
        rw [hqueued, map_append, map_singleton] at hcharged
        rw [hqueued, ← append_assoc] at hgiven
        refine ⟨⟨⟨_, .grow (hgiven ▸ hmerged) hjoin, ?_⟩, ?_, ?_, ?_,
          h.busy hclosed hwaiting _⟩, h.refused⟩
        · rw [hqueued, dropLast_concat, hnone]
          simp [pending]
        · rw [hqueued, hcharged, dropLast_concat, dropLast_concat, map_append, map_singleton]
        · rw [gain, hretained, hcharged, dropLast_concat, getLast?_concat, sum_append, sum_append]
          simp
        · rw [hnone] at hwithin ⊢
          have := not_lt.mp hfull
          simp only [getD_none, length_nil] at hwithin ⊢
          omega
    · dsimp only
      split_ifs with hmany hlarge hfull
      · exact h.abortWith hclosed hwaiting _
      · exact h.abortWith hclosed hwaiting _
      · exact h.abortWith hclosed hwaiting _
      · obtain ⟨hcharged, hsum⟩ := h.queue event
        refine ⟨⟨⟨given ++ [event], hmerged.one event, ?_⟩, hcharged, hsum, ?_,
          h.busy hclosed hwaiting _⟩, h.refused⟩
        · rw [hnone, ← hgiven]
          simp [pending]
        · rw [hnone]
          have := not_lt.mp hfull
          simp only [getD_none, length_nil]
          omega

theorem Sound.read (h : Sound o q) (hread : q.read = some q') : Sound o q' := by
  rw [EventQueue.read] at hread
  split at hread
  · rename_i hready
    obtain rfl := some_inj.mp hread
    obtain ⟨given, hmerged, hgiven⟩ := h.kept
    rw [pending, hready] at hgiven
    split
    · rename_i next queued hqueued
      have hcharged := h.charged
      have hretained := h.retained
      rw [hqueued, map_cons] at hcharged
      rw [hcharged, sum_cons] at hretained
      refine ⟨⟨⟨given, hmerged, ?_⟩, ?_, ?_, ?_, ?_⟩, h.refused⟩
      · rw [← hgiven, hqueued, pending, hready]
        simp
      · rw [hcharged, tail_cons]
      · rw [hcharged, tail_cons, hretained]
        exact add_sub_cancel_left _ _
      · refine le_trans ?_ h.within
        rw [hcharged, headD_cons]
        exact sub_le_self _ (Int.natCast_nonneg _)
      · rw [hready]
        trivial
    · rename_i hqueued
      refine ⟨⟨⟨given, hmerged, ?_⟩, h.charged, h.retained, h.within, ?_⟩, h.refused⟩
      · rw [← hgiven, pending]
        cases q.closed <;> rfl
      · cases hclosed : q.closed
        · exact ⟨hqueued, rfl⟩
        · exact ⟨hqueued, rfl⟩
  · nomatch hread

theorem Sound.resume (h : Sound o q) (hresume : q.resume = some q') : Sound o q' := by
  rw [EventQueue.resume] at hresume
  have hidle := h.idle
  obtain ⟨given, hmerged, hgiven⟩ := h.kept
  split at hresume
  · rename_i event hhanded
    obtain rfl := some_inj.mp hresume
    refine ⟨⟨⟨given, hmerged, ?_⟩, h.charged, h.retained, h.within, trivial⟩, h.refused⟩
    rw [← hgiven, pending, pending, hhanded]
    simp
  · rename_i hhanded
    obtain rfl := some_inj.mp hresume
    rw [hhanded] at hidle
    refine ⟨⟨⟨given, hmerged, ?_⟩, h.charged, h.retained, h.within, hidle⟩, h.refused⟩
    rw [← hgiven, pending, pending, hhanded]
    rfl
  · nomatch hresume

theorem sound_always (o : QueueOptions ρ) :
    (queueMachine o).Inductive (KeepsSignatures o) (Sound o) where
  init q hq := by
    obtain rfl := hq
    exact ⟨⟨⟨[], .nil, rfl⟩, rfl, rfl, by simp, trivial⟩, nofun⟩
  step q call q' h hkeeps hstep := by
    cases call with
    | push event => exact some_inj.mp hstep ▸ h.push hkeeps
    | close => exact some_inj.mp hstep ▸ h.close
    | read => exact h.read hstep
    | resume => exact h.resume hstep

/-! ## The end of the stream -/

theorem Sound.retained_nil (h : Sound o q) (hqueued : q.queued = []) : q.retained = 0 := by
  rw [h.retained, h.charged, hqueued]
  rfl

/-- The calls of the consumer. -/
def OfConsumer (_ : EventQueue ρ) : QueueCall ρ → Prop
  | .read | .resume => True
  | _ => False

theorem drains_ready (h : Sound o q) (hclosed : q.closed = true) (hready : q.consumer = .ready) :
    ∃ q', (queueMachine o).Run OfConsumer q q' ∧ q'.consumer = .ended ∧ q'.retained = 0 ∧
      q'.delivered = q.delivered ++ q.queued := by
  generalize hqueued : q.queued = queued
  induction queued generalizing q with
  | nil =>
    refine ⟨{ q with consumer := .ended }, .single ⟨.read, trivial, ?_⟩, rfl,
      h.retained_nil hqueued, (append_nil _).symm⟩
    simp only [queueMachine, EventQueue.read, hready, hqueued, hclosed, if_true]
  | cons next queued ih =>
    obtain ⟨q₁, hread, hclosed₁, hready₁, hqueued₁, hdelivered⟩ : ∃ q₁, q.read = some q₁ ∧
        q₁.closed = true ∧ q₁.consumer = .ready ∧ q₁.queued = queued ∧
        q₁.delivered = q.delivered ++ [next] := by
      simp only [EventQueue.read, hready, hqueued]
      exact ⟨_, rfl, hclosed, rfl, rfl, rfl⟩
    obtain ⟨q', hrun, hended, hretained, hall⟩ := ih (h.read hread) hclosed₁ hready₁ hqueued₁
    refine ⟨q', .head ⟨.read, trivial, hread⟩ hrun, hended, hretained, ?_⟩
    rw [hall, hdelivered, append_assoc, singleton_append]

theorem Sound.drains (h : Sound o q) (hclosed : q.closed = true) :
    ∃ q', (queueMachine o).Run OfConsumer q q' ∧ q'.consumer = .ended ∧ q'.retained = 0 ∧
      q'.delivered = q.delivered ++ q.pending ++ q.queued := by
  have hidle := h.idle
  rcases hconsumer : q.consumer with _ | _ | (_ | event) | _
  all_goals rw [hconsumer] at hidle
  · obtain ⟨q', hrun, hended, hretained, hall⟩ := drains_ready h hclosed hconsumer
    refine ⟨q', hrun, hended, hretained, ?_⟩
    rw [hall, pending, hconsumer, append_nil]
  · exact Bool.noConfusion (hclosed.symm.trans hidle.2)
  · refine ⟨{ q with consumer := .ended }, .single ⟨.resume, trivial, ?_⟩, rfl,
      h.retained_nil hidle.1, ?_⟩
    · simp only [queueMachine, EventQueue.resume, hconsumer]
    · rw [hidle.1, pending, hconsumer]
      simp
  · have hresume : q.resume = some { q with
        consumer := .ready, delivered := q.delivered ++ [event] } := by
      simp only [EventQueue.resume, hconsumer]
    obtain ⟨q', hrun, hended, hretained, hall⟩ := drains_ready (h.resume hresume) hclosed rfl
    refine ⟨q', .head ⟨.resume, trivial, hresume⟩ hrun, hended, hretained, ?_⟩
    rw [hall, pending, hconsumer]
    rfl
  · refine ⟨q, .refl, hconsumer, h.retained_nil hidle.1, ?_⟩
    rw [hidle.1, pending, hconsumer, append_nil, append_nil]

def defaultOptions : QueueOptions Unit :=
  ⟨1024, 32 * 1024 * 1024, 8 * 1024 * 1024, fun _ ↦ 0⟩

end EventQueue

end Bridge
