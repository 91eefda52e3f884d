import OpenCodex.Sse.PreludeRetry

/-!
# Runs of the retried body

The client sees one attempt: every frame it has got is of the attempt that is being read
(`one_attempt`).  This holds in runs in which an attempt is only given up while nothing of it was
delivered and, where it is given up because it stalled, nothing of it is held.  The code tests neither;
it tests whether content was seen.

What an event does is said once, by the phase it finds (`retryStep_cases`), with one lemma for each
stretch of code: `passFrame_cases`, `scan_cases`, `onDone_cases`.
-/

set_option autoImplicit false

open List Option

namespace Sse

namespace RetryBody

variable {o : RetryOptions} {s s' : RetryBody}

/-! ## What the pieces do -/

theorem foldl_emit (l : List Sent) (t : RetryBody) : l.foldl (fun s frame ↦ emit frame s) t =
      { t with delivered := if t.ending = none then t.delivered ++ l else t.delivered } := by
  induction l generalizing t with
  | nil => simp
  | cons frame l ih =>
    rw [foldl_cons, ih, emit]
    split_ifs <;> simp_all

theorem flushHeld_eq (s : RetryBody) : flushHeld s = { s with
      flushTimer := false, released := true, held := []
      delivered := if s.ending = none then s.delivered ++ s.held else s.delivered } := by
  rw [flushHeld, foldl_emit]

theorem flushUnreleased_delivered (hending : s.ending = none) (hreleased : s.released = true → s.held = []) :
    (flushUnreleased s).delivered = s.delivered ++ s.held := by
  rw [flushUnreleased]
  split_ifs with h
  · rw [flushHeld_eq]
    exact if_pos hending
  · by_cases hheld : s.held = []
    · rw [hheld, append_nil]
    · rw [hreleased (by simpa using fun hr ↦ h ⟨hr, hheld⟩), append_nil]

theorem flushUnreleased_held (hreleased : s.released = true → s.held = []) :
    (flushUnreleased s).held = [] := by
  rw [flushUnreleased]
  split_ifs with h
  · rw [flushHeld_eq]
  · by_contra hheld
    exact hheld (hreleased (by simpa using fun hr ↦ h ⟨hr, hheld⟩))

@[simp] theorem flushUnreleased_watch (s : RetryBody) : (flushUnreleased s).watch = s.watch := by
  rw [flushUnreleased]
  split_ifs
  · rw [flushHeld_eq]
  · rfl

@[simp] theorem flushUnreleased_ending (s : RetryBody) : (flushUnreleased s).ending = s.ending := by
  rw [flushUnreleased]
  split_ifs
  · rw [flushHeld_eq]
  · rfl

@[simp] theorem flushUnreleased_phase (s : RetryBody) : (flushUnreleased s).phase = s.phase := by
  rw [flushUnreleased]
  split_ifs
  · rw [flushHeld_eq]
  · rfl

@[simp] theorem flushUnreleased_contentSeen (s : RetryBody) :
    (flushUnreleased s).contentSeen = s.contentSeen := by
  rw [flushUnreleased]
  split_ifs
  · rw [flushHeld_eq]
  · rfl

@[simp] theorem flushUnreleased_rung (s : RetryBody) : (flushUnreleased s).rung = s.rung := by
  rw [flushUnreleased]
  split_ifs
  · rw [flushHeld_eq]
  · rfl

@[simp] theorem flushUnreleased_buffer (s : RetryBody) : (flushUnreleased s).buffer = s.buffer := by
  rw [flushUnreleased]
  split_ifs
  · rw [flushHeld_eq]
  · rfl

@[simp] theorem flushUnreleased_stallBounces (s : RetryBody) :
    (flushUnreleased s).stallBounces = s.stallBounces := by
  rw [flushUnreleased]
  split_ifs
  · rw [flushHeld_eq]
  · rfl

@[simp] theorem flushUnreleased_sent (s : RetryBody) : (flushUnreleased s).sent = s.sent := by
  funext bytes
  rw [sent, flushUnreleased_watch, sent]

theorem emit_eq (frame : Sent) (s : RetryBody) : emit frame s =
    { s with delivered := if s.ending = none then s.delivered ++ [frame] else s.delivered } := by
  rw [emit]
  split_ifs <;> rfl

/-! ## Giving an attempt up -/

/-- The frame at the head of the buffer is a decline, and a rung is left for it. -/
def RetriesFrame (o : RetryOptions) (s : RetryBody) : Prop :=
  s.contentSeen = false ∧ s.rung < o.delaysMs.length ∧
    ∃ r, cutFrame s.buffer = some r ∧ isDeclineFrame r.1 (frameType r.1) = true

/-- The end of the body was brought about by the stall timer. -/
def Stalled (s : RetryBody) : Prop :=
  s.stallFired = true ∧ s.contentSeen = false ∧ s.stallBounces < 1

/-- What the body ends with is a decline, and a rung is left for it. -/
def RetriesTail (o : RetryOptions) (s : RetryBody) : Prop :=
  s.contentSeen = false ∧ s.rung < o.delaysMs.length ∧ declines s.buffer = true

/-- **The side condition**: an attempt is given up for a decline only while nothing has been delivered,
and because it stalled only while nothing is held either. -/
def GivesUpUnseen (o : RetryOptions) (s : RetryBody) (e : RetryEvent) : Prop :=
  match e with
  | .scan => RetriesFrame o s → s.delivered = []
  | .done => (Stalled s → s.delivered = [] ∧ s.held = []) ∧
      (¬Stalled s → RetriesTail o s → s.delivered = [])
  | _ => True

instance (o : RetryOptions) (s : RetryBody) : Decidable (RetriesFrame o s) :=
  decidable_of_iff (s.contentSeen = false ∧ s.rung < o.delaysMs.length ∧
      ∃ r ∈ cutFrame s.buffer, isDeclineFrame r.1 (frameType r.1) = true)
    (by simp only [RetriesFrame, mem_def])

instance (s : RetryBody) : Decidable (Stalled s) := inferInstanceAs (Decidable (_ ∧ _ ∧ _))

instance (o : RetryOptions) (s : RetryBody) : Decidable (RetriesTail o s) :=
  inferInstanceAs (Decidable (_ ∧ _ ∧ _))

instance (o : RetryOptions) (s : RetryBody) (e : RetryEvent) : Decidable (GivesUpUnseen o s e) :=
  match e with
  | .scan => inferInstanceAs (Decidable (RetriesFrame o s → s.delivered = []))
  | .done => inferInstanceAs (Decidable ((Stalled s → s.delivered = [] ∧ s.held = []) ∧
      (¬Stalled s → RetriesTail o s → s.delivered = [])))
  | .chunk _ | .noValue | .readError | .waited | .aborted | .resent _ | .holdFires | .stallFires =>
    inferInstanceAs (Decidable True)

/-! ## What an event does -/

theorem deliver_eq (hending : s.ending = none) (hreleased : s.released = true → s.held = [])
    (frame : Sent) : ∃ flushTimer released, (s.released = true → released = true) ∧
      emit frame (flushUnreleased s) = { s with
          held := [], flushTimer := flushTimer, released := released
          delivered := s.delivered ++ s.held ++ [frame] } := by
  rw [emit_eq, flushUnreleased_ending, if_pos hending, flushUnreleased_delivered hending hreleased]
  rw [flushUnreleased]
  split_ifs with h
  · rw [flushHeld_eq]
    exact ⟨false, true, fun _ ↦ rfl, rfl⟩
  · have hheld : s.held = [] := by
      by_contra hheld
      exact hheld (hreleased (by simpa using fun hr ↦ h ⟨hr, hheld⟩))
    refine ⟨s.flushTimer, s.released, id, ?_⟩
    rw [← hheld]

/-- **A frame that is not retried** is held, or delivered with all that was held. -/
theorem passFrame_cases (hending : s.ending = none) (hreleased : s.released = true → s.held = [])
    (isPrelude : Bool) (frameBytes : Bytes) :
    (s.contentSeen = false ∧ isPrelude = true ∧ s.released = false ∧
      passFrame isPrelude frameBytes s =
        { s with held := s.held ++ [s.sent frameBytes], flushTimer := true }) ∨
    ∃ stallTimer flushTimer released, (s.released = true → released = true) ∧
      passFrame isPrelude frameBytes s =
        { s with
          held := [], stallTimer := stallTimer, flushTimer := flushTimer, released := released
          contentSeen := s.contentSeen || !isPrelude
          delivered := s.delivered ++ s.held ++ [s.sent frameBytes] } := by
  rw [passFrame]
  dsimp only
  rw [flushUnreleased_sent]
  split_ifs with hhold hcontent
  · exact .inl ⟨hhold.1, hhold.2.1, hhold.2.2, rfl⟩
  · obtain ⟨flushTimer, released, hmono, heq⟩ := deliver_eq
      (s := { s with contentSeen := true, stallTimer := false }) hending hreleased (s.sent frameBytes)
    refine .inr ⟨false, flushTimer, released, hmono, ?_⟩
    rw [hcontent.1, hcontent.2]
    exact heq
  · obtain ⟨flushTimer, released, hmono, heq⟩ := deliver_eq hending hreleased (s.sent frameBytes)
    refine .inr ⟨s.stallTimer, flushTimer, released, hmono, ?_⟩
    have hseen : s.contentSeen = (s.contentSeen || !isPrelude) := by
      cases hc : s.contentSeen <;> cases hp : isPrelude <;> simp_all
    rw [← hseen]
    exact heq

/-- **One turn of the inner loop**: no frame is left, a decline is retried, or a frame passes. -/
theorem scan_cases (o : RetryOptions) (s : RetryBody) :
    cutFrame s.buffer = none ∧ RetryBody.scan o s = enterRead o s ∨
    ∃ r, cutFrame s.buffer = some r ∧ (RetriesFrame o s ∧
          RetryBody.scan o s = retryDecline (some r.2.1) r.2.1 { s with buffer := r.2.2 } ∨
        ¬RetriesFrame o s ∧
          RetryBody.scan o s = passFrame (isPreludeFrame r.1 (frameType r.1)) r.2.1
            (refuse (isDeclineFrame r.1 (frameType r.1)) r.2.1 { s with buffer := r.2.2 })) := by
  cases hcut : cutFrame s.buffer with
  | none => exact .inl ⟨rfl, by rw [RetryBody.scan, hcut]⟩
  | some r =>
    refine .inr ⟨r, rfl, ?_⟩
    have hiff : RetriesFrame o s ↔ s.contentSeen = false ∧
        isDeclineFrame r.1 (frameType r.1) = true ∧ s.rung < o.delaysMs.length := by
      simp only [RetriesFrame, hcut, some_inj, exists_eq_left']
      tauto
    rw [RetryBody.scan, hcut]
    dsimp only
    split_ifs with hretry
    · exact .inl ⟨hiff.mpr hretry, rfl⟩
    · exact .inr ⟨fun h ↦ hretry (hiff.mp h), rfl⟩

/-- **The end of a body**: the attempt stalled; a decline at its end is retried, or dropped with
nothing closed; what is left is delivered; or nothing is left. -/
theorem onDone_cases (o : RetryOptions) (s : RetryBody) : Stalled s ∧ onDone o s = { s with
          stallTimer := false, stallBounces := s.stallBounces + 1, stallFired := false
          phase := .resending .stall } ∨
    ¬Stalled s ∧ (RetriesTail o s ∧ onDone o s =
          retryDecline none s.buffer { s with stallTimer := false, buffer := [] } ∨
        s.contentSeen = false ∧ declines s.buffer = true ∧ o.delaysMs.length ≤ s.rung ∧ onDone o s =
            { refuse true s.buffer { s with stallTimer := false, buffer := [] } with
              phase := .finished } ∨
        s.contentSeen = false ∧ declines s.buffer = false ∧ s.buffer ≠ [] ∧ onDone o s =
            { release (emit (s.sent (Utf8.bytesOf (decodeFrame s.buffer)))
                (flushUnreleased { s with stallTimer := false, buffer := [] })) with
              phase := .finished } ∨
        (s.contentSeen = true ∨ s.buffer = []) ∧ onDone o s =
            { release (flushUnreleased
                (refuse (declines s.buffer) s.buffer { s with stallTimer := false })) with
              phase := .finished }) := by
  rw [onDone]
  dsimp only
  split_ifs with hstalled htail hdecline hrung
  · exact .inl ⟨hstalled, rfl⟩
  · exact .inr ⟨hstalled, .inr (.inl ⟨htail.1, hdecline,
      hrung.resolve_left (by rw [htail.1]; exact Bool.false_ne_true), rfl⟩)⟩
  · refine .inr ⟨hstalled, .inl ⟨⟨htail.1, ?_, hdecline⟩, rfl⟩⟩
    exact Nat.lt_of_not_le fun h ↦ hrung (.inr h)
  · refine .inr ⟨hstalled, .inr (.inr (.inl ⟨htail.1, eq_false_of_ne_true hdecline,
      ne_nil_of_length_pos htail.2, ?_⟩))⟩
    rw [flushUnreleased_sent]
    rfl
  · refine .inr ⟨hstalled, .inr (.inr (.inr ⟨?_, rfl⟩))⟩
    by_cases hseen : s.contentSeen = true
    · exact .inl hseen
    · right
      by_contra hne
      exact htail ⟨by simpa using hseen, length_pos_iff.mpr hne⟩

variable {e : RetryEvent}

/-- **What an event does**, by the phase it finds. -/
theorem retryStep_cases (h : retryStep o s e = some s') : (s.phase = .reading ∧
      ((∃ value, e = .chunk value ∧ s' = { s with
            phase := .scanning, stallTimer := false, buffer := s.buffer ++ value
            watch := { s.watch with read := s.watch.read ++ value } }) ∨
        (e = .noValue ∧ s' = enterRead o { s with stallTimer := false, stallFired := false }) ∨
        (e = .done ∧ s' = onDone o s) ∨ (e = .readError ∧ s' = onError s) ∨
        (e = .stallFires ∧ s.stallTimer = true ∧
          s' = { s with stallTimer := false, stallFired := true }))) ∨
    (s.phase = .scanning ∧ e = .scan ∧ s' = RetryBody.scan o s) ∨
    (∃ declined, s.phase = .waiting declined ∧
      ((e = .waited ∧ s' = { s with phase := .resending (.decline declined) }) ∨
        (e = .aborted ∧ s' = handOver declined s))) ∨
    (∃ why next, s.phase = .resending why ∧ e = .resent next ∧ s' = onResent o why next s) ∨
    (e = .holdFires ∧ s.phase ≠ .scanning ∧ s.flushTimer = true ∧ s' = flushHeld s) := by
  unfold retryStep at h
  split at h
  all_goals rename_i hphase
  · exact .inl ⟨hphase, .inl ⟨_, rfl, (some_inj.mp h).symm⟩⟩
  · exact .inl ⟨hphase, .inr (.inl ⟨rfl, (some_inj.mp h).symm⟩)⟩
  · exact .inl ⟨hphase, .inr (.inr (.inl ⟨rfl, (some_inj.mp h).symm⟩))⟩
  · exact .inl ⟨hphase, .inr (.inr (.inr (.inl ⟨rfl, (some_inj.mp h).symm⟩)))⟩
  · exact .inr (.inl ⟨hphase, rfl, (some_inj.mp h).symm⟩)
  · exact .inr (.inr (.inl ⟨_, hphase, .inl ⟨rfl, (some_inj.mp h).symm⟩⟩))
  · exact .inr (.inr (.inl ⟨_, hphase, .inr ⟨rfl, (some_inj.mp h).symm⟩⟩))
  · exact .inr (.inr (.inr (.inl ⟨_, _, hphase, rfl, (some_inj.mp h).symm⟩)))
  · nomatch h
  · split_ifs at h with htimer
    exact .inr (.inr (.inr (.inr ⟨rfl, hphase, htimer, (some_inj.mp h).symm⟩)))
  · split_ifs at h with htimer
    exact .inl ⟨hphase, .inr (.inr (.inr (.inr ⟨rfl, htimer, (some_inj.mp h).symm⟩)))⟩
  · nomatch h

/-! ## Order -/

/-- The controller is open until the end, and what was released is not held. -/
structure Orderly (s : RetryBody) : Prop where
  live : s.phase ≠ .finished → s.ending = none
  released : s.released = true → s.held = []

theorem orderly_flushed (s : RetryBody) (h : s.released = true → s.held = []) :
    (flushUnreleased s).released = true → (flushUnreleased s).held = [] :=
  fun _ ↦ flushUnreleased_held h

theorem orderly_handOver (h : Orderly s) (declined : Option Bytes) : Orderly (handOver declined s) := by
  refine ⟨fun hphase ↦ absurd rfl hphase, fun _ ↦ ?_⟩
  unfold handOver
  by_cases hreleased : s.released = false
  · cases declined <;> simp [release, emit_eq, flushHeld_eq, hreleased]
  · have hheld := h.released (by simpa using hreleased)
    cases declined <;> simp [release, emit_eq, hreleased, hheld]

theorem orderly_scan (h : Orderly s) (hphase : s.phase = .scanning) :
    Orderly (RetryBody.scan o s) := by
  have hending := h.live (by rw [hphase]; simp)
  rcases scan_cases o s with ⟨-, heq⟩ | ⟨r, -, ⟨-, heq⟩ | ⟨-, heq⟩⟩
  · rw [heq]
    exact ⟨fun _ ↦ hending, h.released⟩
  · rw [heq]
    exact ⟨fun _ ↦ hending, fun _ ↦ rfl⟩
  · rw [heq]
    rcases passFrame_cases (s := refuse (isDeclineFrame r.1 (frameType r.1)) r.2.1
        { s with buffer := r.2.2 }) hending h.released (isPreludeFrame r.1 (frameType r.1)) r.2.1 with
      ⟨-, -, hreleased, heq⟩ | ⟨_, _, _, -, heq⟩
    · rw [heq]
      exact ⟨fun _ ↦ hending, fun hr ↦ absurd (hreleased.symm.trans hr) Bool.false_ne_true⟩
    · rw [heq]
      exact ⟨fun _ ↦ hending, fun _ ↦ rfl⟩

theorem orderly_onDone (h : Orderly s) (hphase : s.phase = .reading) : Orderly (onDone o s) := by
  have hending := h.live (by rw [hphase]; simp)
  rcases onDone_cases o s with ⟨-, heq⟩ | ⟨-, ⟨-, heq⟩ | ⟨-, -, -, heq⟩ | ⟨-, -, -, heq⟩ | ⟨-, heq⟩⟩
  · rw [heq]
    exact ⟨fun _ ↦ hending, h.released⟩
  · rw [heq]
    exact ⟨fun _ ↦ hending, fun _ ↦ rfl⟩
  · rw [heq]
    exact ⟨fun hne ↦ absurd rfl hne, h.released⟩
  · rw [heq, emit_eq]
    exact ⟨fun hne ↦ absurd rfl hne, orderly_flushed _ h.released⟩
  · rw [heq]
    exact ⟨fun hne ↦ absurd rfl hne, orderly_flushed _ h.released⟩

theorem orderly_step (h : Orderly s) (hstep : retryStep o s e = some s') : Orderly s' := by
  rcases retryStep_cases hstep with ⟨hphase, ⟨value, -, rfl⟩ | ⟨-, rfl⟩ | ⟨-, rfl⟩ | ⟨-, rfl⟩ | ⟨-, -, rfl⟩⟩ |
    ⟨hphase, -, rfl⟩ | ⟨declined, hphase, ⟨-, rfl⟩ | ⟨-, rfl⟩⟩ | ⟨why, next, hphase, -, rfl⟩ |
    ⟨-, -, -, rfl⟩
  · exact ⟨fun _ ↦ h.live (by rw [hphase]; simp), h.released⟩
  · exact ⟨fun _ ↦ h.live (by rw [hphase]; simp), h.released⟩
  · have := orderly_onDone (o := o) h hphase
    exact ⟨this.live, this.released⟩
  · exact ⟨fun hne ↦ absurd rfl hne, orderly_flushed _ h.released⟩
  · exact ⟨fun _ ↦ h.live (by rw [hphase]; simp), h.released⟩
  · exact orderly_scan h hphase
  · exact ⟨fun _ ↦ h.live (by rw [hphase]; simp), h.released⟩
  · have := orderly_handOver h declined
    exact ⟨this.live, this.released⟩
  · unfold onResent
    split_ifs with hstream
    · exact ⟨fun _ ↦ h.live (by rw [hphase]; simp), h.released⟩
    · cases why with
      | stall => exact ⟨fun hne ↦ absurd rfl hne, h.released⟩
      | decline declined =>
        have := orderly_handOver h declined
        exact ⟨this.live, this.released⟩
  · rw [flushHeld_eq]
    exact ⟨h.live, fun _ ↦ rfl⟩

theorem orderly_always (o : RetryOptions) (C : RetryBody → RetryEvent → Prop) :
    (retryMachine o).Inductive C Orderly where
  init s hs := by
    obtain rfl := hs
    exact ⟨fun _ ↦ rfl, fun _ ↦ rfl⟩
  step _ _ _ h _ hstep := orderly_step h hstep

/-! ## One attempt -/

/-- Every frame is of the attempt that is being read; while an attempt is being given up there is
none. -/
structure Single (s : RetryBody) : Prop where
  held : ∀ f ∈ s.held, f.attempt = s.watch.attempt
  delivered : ∀ f ∈ s.delivered, f.attempt = s.watch.attempt
  between : ∀ why, s.phase = .resending why → s.delivered = [] ∧ s.held = []
  waiting : ∀ declined, s.phase = .waiting declined → s.delivered = [] ∧ s.held = []

variable {f : Sent}

variable {l : List Sent} {n : ℕ}

theorem single_concat (h : ∀ f ∈ l, f.attempt = n) (hf : f.attempt = n) :
    ∀ g ∈ l ++ [f], g.attempt = n := by
  intro g hg
  rcases mem_append.mp hg with hg | hg
  · exact h g hg
  · exact mem_singleton.mp hg ▸ hf

theorem single_append {m : List Sent} (hl : ∀ f ∈ l, f.attempt = n) (hm : ∀ f ∈ m, f.attempt = n) :
    ∀ g ∈ l ++ m, g.attempt = n :=
  fun g hg ↦ (mem_append.mp hg).elim (hl g) (hm g)

theorem single_finished (h : Single s) (hphase : s'.phase = .finished)
    (hattempt : s'.watch.attempt = s.watch.attempt) (hheld : ∀ f ∈ s'.held, f ∈ s.held)
    (hdelivered : ∀ f ∈ s'.delivered, f ∈ s.delivered ∨ f ∈ s.held ∨ f.attempt = s.watch.attempt) :
    Single s' where
  held f hf := (h.held f (hheld f hf)).trans hattempt.symm
  delivered f hf := by
    rw [hattempt]
    rcases hdelivered f hf with hf | hf | hf
    · exact h.delivered f hf
    · exact h.held f hf
    · exact hf
  between why hwhy := by rw [hphase] at hwhy; nomatch hwhy
  waiting d hd := by rw [hphase] at hd; nomatch hd

theorem mem_flushUnreleased_delivered (horder : Orderly s) (hphase : s.phase ≠ .finished)
    (hf : f ∈ (flushUnreleased s).delivered) : f ∈ s.delivered ∨ f ∈ s.held := by
  rw [flushUnreleased_delivered (horder.live hphase) horder.released] at hf
  exact mem_append.mp hf

theorem mem_emit_delivered {g : Sent} (hf : f ∈ (emit g s).delivered) :
    f ∈ s.delivered ∨ f = g := by
  rw [emit_eq] at hf
  dsimp only at hf
  split_ifs at hf
  · simpa using hf
  · exact .inl hf

theorem single_scan (h : Single s) (horder : Orderly s) (hphase : s.phase = .scanning)
    (hC : RetriesFrame o s → s.delivered = []) : Single (RetryBody.scan o s) := by
  have hending := horder.live (by rw [hphase]; simp)
  rcases scan_cases o s with ⟨-, heq⟩ | ⟨r, -, ⟨hretries, heq⟩ | ⟨-, heq⟩⟩
  · rw [heq]
    exact ⟨h.held, h.delivered, nofun,
      nofun⟩
  · rw [heq]
    have hnone := hC hretries
    exact ⟨nofun, h.delivered,
      nofun, fun _ _ ↦ ⟨hnone, rfl⟩⟩
  · have hbusy : ∀ p : RetryPhase, s.phase = p → p = .scanning := fun p hp ↦ hp ▸ hphase
    rw [heq]
    rcases passFrame_cases (s := refuse (isDeclineFrame r.1 (frameType r.1)) r.2.1
        { s with buffer := r.2.2 }) hending horder.released
        (isPreludeFrame r.1 (frameType r.1)) r.2.1 with
      ⟨-, -, -, heq⟩ | ⟨_, _, _, -, heq⟩
    · rw [heq]
      exact ⟨single_concat h.held rfl, h.delivered,
        fun _ hwhy ↦ RetryPhase.noConfusion (hbusy _ hwhy),
        fun _ hd ↦ RetryPhase.noConfusion (hbusy _ hd)⟩
    · rw [heq]
      exact ⟨nofun, single_concat (single_append h.delivered h.held) rfl,
        fun _ hwhy ↦ RetryPhase.noConfusion (hbusy _ hwhy),
        fun _ hd ↦ RetryPhase.noConfusion (hbusy _ hd)⟩

theorem single_onDone (h : Single s) (horder : Orderly s) (hphase : s.phase = .reading)
    (hC : GivesUpUnseen o s .done) : Single (onDone o s) := by
  have hlive : s.phase ≠ .finished := by rw [hphase]; simp
  rcases onDone_cases o s with
    ⟨hstalled, heq⟩ | ⟨hstalled, ⟨hretries, heq⟩ | ⟨-, -, -, heq⟩ | ⟨-, -, -, heq⟩ | ⟨-, heq⟩⟩
  · rw [heq]
    exact ⟨h.held, h.delivered, fun _ _ ↦ hC.1 hstalled, nofun⟩
  · rw [heq]
    have hnone := hC.2 hstalled hretries
    exact ⟨nofun, h.delivered,
      nofun, fun _ _ ↦ ⟨hnone, rfl⟩⟩
  · rw [heq]
    exact single_finished h rfl rfl (fun _ hf ↦ hf) fun _ hf ↦ .inl hf
  · rw [heq]
    have horder' : Orderly { s with stallTimer := false, buffer := [] } :=
      ⟨horder.live, horder.released⟩
    refine single_finished h rfl ?_ (fun f hf ↦ ?_) fun f hf ↦ ?_
    · rw [release, emit_eq]
      exact congrArg RetryWatch.attempt (flushUnreleased_watch _)
    · rw [release, emit_eq] at hf
      exact absurd (flushUnreleased_held horder'.released ▸ hf) not_mem_nil
    · rcases mem_emit_delivered hf with hf | rfl
      · exact (mem_flushUnreleased_delivered horder' hlive hf).imp_right .inl
      · exact .inr (.inr rfl)
  · rw [heq]
    have horder' : Orderly (refuse (declines s.buffer) s.buffer { s with stallTimer := false }) :=
      ⟨horder.live, horder.released⟩
    refine single_finished h rfl ?_ (fun f hf ↦ ?_) fun f hf ↦ ?_
    · exact (congrArg RetryWatch.attempt (flushUnreleased_watch
        (refuse (declines s.buffer) s.buffer { s with stallTimer := false })) :)
    · exact absurd (flushUnreleased_held horder'.released ▸ hf) not_mem_nil
    · exact (mem_flushUnreleased_delivered horder' hlive hf).imp_right .inl

theorem attempt_onError (s : RetryBody) : (onError s).watch.attempt = s.watch.attempt := by
  unfold onError
  dsimp only
  rw [flushUnreleased_watch, refuse]

theorem single_onError (h : Single s) (horder : Orderly s) (hphase : s.phase = .reading) :
    Single (onError s) := by
  have hlive : s.phase ≠ .finished := by rw [hphase]; simp
  have horder' : Orderly (refuse (declines s.buffer) s.buffer s) := ⟨horder.live, horder.released⟩
  refine single_finished h rfl (attempt_onError s) (fun f hf ↦ ?_) fun f hf ↦ ?_
  · exact absurd (flushUnreleased_held horder'.released ▸ hf) not_mem_nil
  · exact (mem_flushUnreleased_delivered horder' hlive hf).imp_right .inl

/-- Nothing is held once a decline is handed over, and what it adds is of the same attempt. -/
theorem single_handOver (h : Single s) (declined : Option Bytes) : Single (handOver declined s) := by
  have hflush : ∀ f ∈ (if s.released = false then flushHeld s else s).delivered,
      f ∈ s.delivered ∨ f ∈ s.held := by
    intro f hf
    split_ifs at hf with hr
    · rw [flushHeld_eq] at hf
      dsimp only at hf
      split_ifs at hf
      · exact mem_append.mp hf
      · exact .inl hf
    · exact .inl hf
  have hwatch : (if s.released = false then flushHeld s else s).watch = s.watch := by
    split_ifs
    · rw [flushHeld_eq]
    · rfl
  have hheld : ∀ f ∈ (if s.released = false then flushHeld s else s).held, f ∈ s.held := by
    intro f hf
    split_ifs at hf
    · rw [flushHeld_eq] at hf
      exact absurd hf not_mem_nil
    · exact hf
  cases declined with
  | none =>
    refine single_finished h rfl (congrArg RetryWatch.attempt hwatch : _) hheld fun f hf ↦ ?_
    exact (hflush f hf).imp_right .inl
  | some frame =>
    refine single_finished h rfl ?_ (fun f hf ↦ ?_) fun f hf ↦ ?_
    · unfold handOver
      simp only [release, emit_eq]
      exact congrArg RetryWatch.attempt hwatch
    · unfold handOver at hf
      simp only [release, emit_eq] at hf
      exact hheld f hf
    · unfold handOver at hf
      rcases mem_emit_delivered hf with hf | rfl
      · exact (hflush f hf).imp_right .inl
      · exact .inr (.inr (congrArg RetryWatch.attempt hwatch))

/-- Where another attempt may be spliced in, nothing was delivered and nothing is held. -/
theorem single_onResent (h : Single s) {why : Splice} (hphase : s.phase = .resending why)
    (next : Option Answer) : Single (onResent o why next s) := by
  obtain ⟨hdelivered, hheld⟩ := h.between why hphase
  unfold onResent
  split_ifs
  · refine ⟨fun f hf ↦ ?_, fun f hf ↦ ?_, nofun,
      nofun⟩
    · exact absurd (hheld ▸ hf : f ∈ []) not_mem_nil
    · exact absurd (hdelivered ▸ hf : f ∈ []) not_mem_nil
  · cases why with
    | stall => exact single_finished h rfl rfl (fun _ hf ↦ hf) fun _ hf ↦ .inl hf
    | decline declined => exact single_handOver h declined

theorem single_flushHeld (h : Single s) : Single (flushHeld s) := by
  rw [flushHeld_eq]
  refine ⟨nofun, fun f hf ↦ ?_, fun why hwhy ↦ ⟨?_, rfl⟩, fun d hd ↦ ⟨?_, rfl⟩⟩
  · dsimp only at hf
    split_ifs at hf
    · exact single_append h.delivered h.held f hf
    · exact h.delivered f hf
  · obtain ⟨hdelivered, hheld⟩ := h.between why hwhy
    simp [hdelivered, hheld]
  · obtain ⟨hdelivered, hheld⟩ := h.waiting d hd
    simp [hdelivered, hheld]

/-- **Frames stay of one attempt**, event for event. -/
theorem single_step (h : Single s) (horder : Orderly s) (hC : GivesUpUnseen o s e)
    (hstep : retryStep o s e = some s') : Single s' := by
  rcases retryStep_cases hstep with
    ⟨hphase, ⟨value, rfl, rfl⟩ | ⟨rfl, rfl⟩ | ⟨rfl, rfl⟩ | ⟨rfl, rfl⟩ | ⟨rfl, -, rfl⟩⟩ |
    ⟨hphase, rfl, rfl⟩ | ⟨declined, hphase, ⟨rfl, rfl⟩ | ⟨rfl, rfl⟩⟩ |
    ⟨why, next, hphase, rfl, rfl⟩ | ⟨rfl, -, -, rfl⟩
  · exact ⟨h.held, h.delivered, nofun,
      nofun⟩
  · exact ⟨h.held, h.delivered, nofun,
      nofun⟩
  · exact single_onDone h horder hphase hC
  · exact single_onError h horder hphase
  · exact ⟨h.held, h.delivered, h.between, h.waiting⟩
  · exact single_scan h horder hphase hC
  · exact ⟨h.held, h.delivered, fun _ _ ↦ h.waiting declined hphase,
      nofun⟩
  · exact single_handOver h declined
  · exact single_onResent h hphase next
  · exact single_flushHeld h

theorem single_always (o : RetryOptions) :
    (retryMachine o).Inductive (GivesUpUnseen o) fun s ↦ Orderly s ∧ Single s :=
  (orderly_always o (GivesUpUnseen o)).and (fun s hs ↦ by
      obtain rfl := hs
      exact ⟨nofun, nofun,
        nofun, nofun⟩)
    fun _ _ _ horder h hC hstep ↦ single_step h horder hC hstep

@[simp] theorem emit_watch (frame : Sent) (s : RetryBody) : (emit frame s).watch = s.watch := by
  rw [emit_eq]

theorem attempt_passFrame (isPrelude : Bool) (frameBytes : Bytes) (s : RetryBody) :
    (passFrame isPrelude frameBytes s).watch = s.watch := by
  unfold passFrame
  dsimp only
  split_ifs
  · rfl
  · rw [emit_watch, flushUnreleased_watch]
  · rw [emit_watch, flushUnreleased_watch]

theorem attempt_scan (o : RetryOptions) (s : RetryBody) :
    (RetryBody.scan o s).watch.attempt = s.watch.attempt := by
  rcases scan_cases o s with ⟨-, heq⟩ | ⟨r, -, ⟨-, heq⟩ | ⟨-, heq⟩⟩
  · rw [heq, enterRead]
  · rw [heq, retryDecline]
  · rw [heq, attempt_passFrame, refuse]

theorem watch_onDone (o : RetryOptions) (s : RetryBody) :
    (onDone o s).watch.attempt = s.watch.attempt ∧ (onDone o s).watch.read = s.watch.read := by
  rcases onDone_cases o s with
    ⟨-, heq⟩ | ⟨-, ⟨-, heq⟩ | ⟨-, -, -, heq⟩ | ⟨-, -, -, heq⟩ | ⟨-, heq⟩⟩
  · rw [heq]
    exact ⟨rfl, rfl⟩
  · rw [heq]
    exact ⟨rfl, rfl⟩
  · rw [heq]
    exact ⟨rfl, rfl⟩
  · rw [heq, release]
    dsimp only
    rw [emit_watch, flushUnreleased_watch]
    exact ⟨rfl, rfl⟩
  · rw [heq, release]
    dsimp only
    rw [flushUnreleased_watch]
    exact ⟨rfl, rfl⟩

theorem attempt_handOver (declined : Option Bytes) (s : RetryBody) :
    (handOver declined s).watch.attempt = s.watch.attempt := by
  unfold handOver
  by_cases hreleased : s.released = false
  · cases declined <;> simp [release, hreleased, flushHeld_eq]
  · cases declined <;> simp [release, hreleased]

theorem attempt_step (hstep : retryStep o s e = some s') :
    s'.watch.attempt = s.watch.attempt ∨ ∃ why, s.phase = .resending why := by
  rcases retryStep_cases hstep with
    ⟨-, ⟨value, rfl, rfl⟩ | ⟨rfl, rfl⟩ | ⟨rfl, rfl⟩ | ⟨rfl, rfl⟩ | ⟨rfl, -, rfl⟩⟩ |
    ⟨-, rfl, rfl⟩ | ⟨declined, -, ⟨rfl, rfl⟩ | ⟨rfl, rfl⟩⟩ | ⟨why, next, hphase, rfl, rfl⟩ |
    ⟨rfl, -, -, rfl⟩
  · exact .inl rfl
  · exact .inl rfl
  · exact .inl (watch_onDone o s).1
  · exact .inl (attempt_onError s)
  · exact .inl rfl
  · exact .inl (attempt_scan o s)
  · exact .inl rfl
  · exact .inl (attempt_handOver declined s)
  · exact .inr ⟨why, hphase⟩
  · rw [flushHeld_eq]
    exact .inl rfl

def createdFrame : Bytes :=
  Utf8.bytesOf (js "data: \x7b\"type\":\"response.created\"\x7d\n\n")

def overloadedFrame : Bytes :=
  Utf8.bytesOf (js "data: \x7b\"type\":\"error\",\"message\":\"overloaded\"\x7d\n\n")

def streamAnswer : Answer := ⟨true, true, js "text/event-stream"⟩

/-- No resends, and no bound on silence. -/
def noRung : RetryOptions := ⟨[], false, 0⟩

/-- One resend. -/
def oneRung : RetryOptions := ⟨[0], false, 0⟩

/-- The first attempt declines, and the second one begins to answer. -/
def secondAttempt : List RetryEvent :=
  [.chunk overloadedFrame, .scan, .waited, .resent (some streamAnswer), .chunk createdFrame, .scan]

/-- Its prelude is released before it declines. -/
def releasedThenDeclined : List RetryEvent :=
  [.chunk createdFrame, .scan, .scan, .holdFires] ++ secondAttempt

end RetryBody

end Sse
