import OpenCodex.Sse.PreludeFrames
import OpenCodex.Sse.PreludeRuns

/-!
# What an undisturbed body becomes

A body is undisturbed if nothing in it is a decline and its attempt neither stalls nor fails; it may
arrive in any chunks, and the hold timer may fire at any time.  It should come out as it went in.  It
does exactly if it is `Faithful` (`transparent_iff`): every frame is UTF-8 without a byte order mark at
its head, and so is what is left behind the last separator — which must be empty where content came
before, for the end of the body only looks at the buffer while no content was seen.

Both directions follow the frames of the body one by one.  Where a body is not faithful, one run is
enough: the whole body in one chunk.
-/

set_option autoImplicit false

open List Segments

namespace Sse

/-! ## Bodies -/

/-- The frames of a body, and what is left behind the last separator. -/
def frames (body : Bytes) : List Bytes × Bytes := Segments.cut endsFrame body

/-- The user can see something of this frame. -/
def content (f : Bytes) : Bool :=
  !isPreludeFrame (decodeFrame f) (frameType (decodeFrame f))

def NoDecline (body : Bytes) : Prop :=
  (∀ f ∈ (frames body).1, RetryBody.declines f = false) ∧ RetryBody.declines (frames body).2 = false

/-- Every frame is the same written again, and so is the tail; but behind content there is none. -/
def Faithful (seen : Bool) (body : Bytes) : Prop :=
  (∀ f ∈ (frames body).1, rewritten f = f) ∧
    if (seen || (frames body).1.any content) = true then (frames body).2 = []
    else rewritten (frames body).2 = (frames body).2

instance (body : Bytes) : Decidable (NoDecline body) := inferInstanceAs (Decidable (_ ∧ _))

instance (seen : Bool) (body : Bytes) : Decidable (Faithful seen body) :=
  inferInstanceAs (Decidable (_ ∧ ite _ _ _))

variable {body : Bytes}

theorem frames_of_none (h : Segments.head endsFrame body = none) :
    frames body = ([], body) := cut_of_none h

variable {f : Bytes}

theorem frames_of_some (h : Segments.head endsFrame body = some f) :
    frames body = (f :: (frames (body.drop f.length)).1, (frames (body.drop f.length)).2) :=
  cut_of_some rfl h

theorem noDecline_of_some (h : Segments.head endsFrame body = some f) (hno : NoDecline body) :
    RetryBody.declines f = false ∧ NoDecline (body.drop f.length) := by
  obtain ⟨hframes, htail⟩ := hno
  rw [frames_of_some h] at hframes htail
  exact ⟨hframes f (mem_cons_self ..), fun g hg ↦ hframes g (mem_cons_of_mem _ hg), htail⟩

theorem faithful_of_some (h : Segments.head endsFrame body = some f) (seen : Bool) :
    Faithful seen body ↔ rewritten f = f ∧ Faithful (seen || content f) (body.drop f.length) := by
  rw [Faithful, Faithful, frames_of_some h]
  rw [forall_mem_cons, any_cons, Bool.or_assoc, and_assoc]

theorem faithful_of_none (h : Segments.head endsFrame body = none) (seen : Bool) :
    Faithful seen body ↔ if seen = true then body = [] else rewritten body = body := by
  rw [Faithful, frames_of_none h]
  simp only [not_mem_nil, false_imp_iff, implies_true, true_and, any_nil, Bool.or_false]

theorem noDecline_of_none (h : Segments.head endsFrame body = none) (hno : NoDecline body) :
    RetryBody.declines body = false := by
  rw [NoDecline, frames_of_none h] at hno
  exact hno.2

/-! ## Undisturbed runs -/

/-- The reads yield bytes until the end, and only the hold timer fires. -/
def Undisturbed (_ : RetryBody) (e : RetryEvent) : Prop :=
  match e with
  | .chunk _ | .noValue | .done | .scan | .holdFires => True
  | _ => False

instance (s : RetryBody) (e : RetryEvent) : Decidable (Undisturbed s e) :=
  match e with
  | .chunk _ | .noValue | .done | .scan | .holdFires => inferInstanceAs (Decidable True)
  | .readError | .waited | .aborted | .resent _ | .stallFires => inferInstanceAs (Decidable False)

/-- The bytes of some frames. -/
def shown (l : List Sent) : Bytes := (l.map Sent.bytes).flatten

theorem shown_append (l m : List Sent) : shown (l ++ m) = shown l ++ shown m := by
  rw [shown, map_append, flatten_append]
  rfl

theorem shown_singleton (f : Sent) : shown [f] = f.bytes := append_nil _

/-- However it arrives, it is delivered as it was sent, and closed. -/
def Transparent (body : Bytes) : Prop :=
  ∀ (o : RetryOptions) (s : RetryBody), (retryMachine o).ReachableIf Undisturbed s →
    s.phase = .finished → s.watch.read = body →
      shown s.delivered = body ∧ s.ending = some .closed

namespace RetryBody

variable {o : RetryOptions} {s s' : RetryBody}

/-! ## A faithful body is delivered -/

/-- What was read is what was passed on, and the buffer. -/
structure Tracks (s : RetryBody) : Prop where
  /-- So far, whatever follows. -/
  going : s.phase = .reading ∨ s.phase = .scanning → ∀ unread,
    NoDecline (s.watch.read ++ unread) → Faithful false (s.watch.read ++ unread) →
      shown (s.delivered ++ s.held) ++ s.buffer = s.watch.read ∧
        NoDecline (s.buffer ++ unread) ∧ Faithful s.contentSeen (s.buffer ++ unread)
  /-- The buffer holds no frame when the next read is awaited. -/
  searched : s.phase = .reading → Segments.head endsFrame s.buffer = none
  calm : s.phase = .reading ∨ s.phase = .scanning → s.stallFired = false
  /-- At the end it was delivered. -/
  «over» : ¬(s.phase = .reading ∨ s.phase = .scanning) → NoDecline s.watch.read →
    Faithful false s.watch.read →
      s.phase = .finished ∧ shown s.delivered = s.watch.read ∧ s.ending = some .closed

theorem retriesFrame_declines (h : RetriesFrame o s) :
    ∃ f, Segments.head endsFrame s.buffer = some f ∧ declines f = true := by
  obtain ⟨-, -, r, hcut, hdecline⟩ := h
  rw [cutFrame_eq, Option.map_eq_some_iff] at hcut
  obtain ⟨f, hf, rfl⟩ := hcut
  exact ⟨f, hf, hdecline⟩

/-- **A frame that is not retried** is passed on as it is written again. -/
theorem scan_passed (horder : Orderly s) (hphase : s.phase = .scanning)
    (hf : Segments.head endsFrame s.buffer = some f) (hpass : ¬RetriesFrame o s) :
    (RetryBody.scan o s).phase = .scanning ∧
      (RetryBody.scan o s).buffer = s.buffer.drop (rewritten f).length ∧
      (RetryBody.scan o s).watch.read = s.watch.read ∧
      (RetryBody.scan o s).stallFired = s.stallFired ∧
      (RetryBody.scan o s).contentSeen = (s.contentSeen || content f) ∧
      shown ((RetryBody.scan o s).delivered ++ (RetryBody.scan o s).held) =
        shown (s.delivered ++ s.held) ++ rewritten f := by
  have hending := horder.live (by rw [hphase]; simp)
  have hcut : cutFrame s.buffer =
      some (Utf8.textOf f, rewritten f, s.buffer.drop (rewritten f).length) := by
    rw [cutFrame_eq, hf]
    rfl
  rcases scan_cases o s with ⟨hnone, -⟩ | ⟨r, hr, ⟨hretries, -⟩ | ⟨-, heq⟩⟩
  · exact absurd (hcut.symm.trans hnone) (by simp)
  · exact absurd hretries hpass
  · obtain rfl := Option.some_inj.mp (hcut.symm.trans hr)
    rw [heq]
    rcases passFrame_cases (s := refuse (isDeclineFrame (Utf8.textOf f) (frameType (Utf8.textOf f)))
        (rewritten f) { s with buffer := s.buffer.drop (rewritten f).length }) hending horder.released
        (isPreludeFrame (Utf8.textOf f) (frameType (Utf8.textOf f))) (rewritten f) with
      ⟨hseen, hprelude, -, heq⟩ | ⟨_, _, _, -, heq⟩
    · have hcontent : content f = false := by
        rw [content, decodeFrame, hprelude]
        rfl
      rw [heq, hcontent, Bool.or_false]
      refine ⟨hphase, rfl, rfl, rfl, rfl, ?_⟩
      dsimp only
      rw [← append_assoc, shown_append, shown_singleton]
      rfl
    · rw [heq]
      refine ⟨hphase, rfl, rfl, rfl, rfl, ?_⟩
      dsimp only
      rw [append_nil, shown_append, shown_singleton]
      rfl

theorem tracks_scan (h : Tracks s) (horder : Orderly s) (hphase : s.phase = .scanning) :
    Tracks (RetryBody.scan o s) := by
  have hgoing := h.going (.inr hphase)
  cases hf : Segments.head endsFrame s.buffer with
  | none =>
    have hcut : cutFrame s.buffer = none := by rw [cutFrame_eq, hf, Option.map_none]
    rw [RetryBody.scan, hcut]
    exact ⟨fun _ ↦ hgoing, fun _ ↦ hf, fun _ ↦ h.calm (.inr hphase),
      fun hover ↦ absurd (.inl rfl) hover⟩
  | some f =>
    by_cases hretries : RetriesFrame o s
    · obtain ⟨g, hg, hdecline⟩ := retriesFrame_declines hretries
      rcases scan_cases o s with ⟨hcut, -⟩ | ⟨r, -, ⟨-, heq⟩ | ⟨hpass, -⟩⟩
      · rw [cutFrame_eq, hf] at hcut
        cases hcut
      · have hwaits : ¬(RetryPhase.waiting (some r.2.1) = .reading ∨
            RetryPhase.waiting (some r.2.1) = .scanning) := by simp
        rw [heq]
        refine ⟨fun hp ↦ absurd hp hwaits, by rintro ⟨⟩,
          fun hp ↦ absurd hp hwaits, fun _ hno hfaithful ↦ ?_⟩
        change NoDecline s.watch.read at hno
        change Faithful false s.watch.read at hfaithful
        obtain ⟨-, hno, -⟩ := hgoing [] (by rwa [append_nil]) (by rwa [append_nil])
        rw [append_nil] at hno
        exact absurd ((noDecline_of_some hg hno).1.symm.trans hdecline) Bool.false_ne_true
      · exact absurd hretries hpass
    · obtain ⟨hscanning, hbuffer, hsame, hcalm, hseen, hshown⟩ :=
        scan_passed horder hphase hf hretries
      obtain ⟨⟨rest, hrest⟩, -⟩ := head_eq_some.mp hf
      refine ⟨fun _ unread hno hfaithful ↦ ?_, fun hp ↦ ?_, fun _ ↦ ?_, fun hover ↦ ?_⟩
      · rw [hsame] at hno hfaithful ⊢
        obtain ⟨hread, hno, hfaithful⟩ := hgoing unread hno hfaithful
        have hhead := Segments.head_append hf unread
        obtain ⟨hsame, hfaithful⟩ := (faithful_of_some hhead _).mp hfaithful
        obtain ⟨-, hno⟩ := noDecline_of_some hhead hno
        rw [← hrest, append_assoc, drop_left] at hno hfaithful
        rw [hbuffer, hshown, hseen, hsame, ← hrest, drop_left]
        rw [← hrest] at hread
        exact ⟨by rw [append_assoc, hread], hno, hfaithful⟩
      · exact RetryPhase.noConfusion (hscanning.symm.trans hp)
      · rw [hcalm]
        exact h.calm (.inr hphase)
      · exact absurd (.inr hscanning) hover

theorem onDone_tracked (h : Tracks s) (horder : Orderly s) (hphase : s.phase = .reading)
    (hno : NoDecline s.watch.read) (hfaithful : Faithful false s.watch.read) :
    (onDone o s).phase = .finished ∧ shown (onDone o s).delivered = s.watch.read ∧
      (onDone o s).ending = some .closed := by
  have hlive : s.phase ≠ .finished := by rw [hphase]; simp
  have hending := horder.live hlive
  obtain ⟨hread, hno, hfaithful⟩ :=
    h.going (.inl hphase) [] (by rwa [append_nil]) (by rwa [append_nil])
  rw [append_nil] at hno hfaithful
  have htail := noDecline_of_none (h.searched hphase) hno
  rw [faithful_of_none (h.searched hphase)] at hfaithful
  rcases onDone_cases o s with
    ⟨hstalled, -⟩ | ⟨-, ⟨hretries, -⟩ | ⟨-, hdecline, -⟩ | ⟨hseen, -, -, heq⟩ | ⟨hend, heq⟩⟩
  · exact absurd ((h.calm (.inl hphase)).symm.trans hstalled.1) Bool.false_ne_true
  · exact absurd (htail.symm.trans hretries.2.2) Bool.false_ne_true
  · exact absurd (htail.symm.trans hdecline) Bool.false_ne_true
  · have horder' : Orderly { s with stallTimer := false, buffer := [] } :=
      ⟨horder.live, horder.released⟩
    rw [if_neg (by rw [hseen]; exact Bool.false_ne_true)] at hfaithful
    have hdelivered := flushUnreleased_delivered (s := { s with stallTimer := false, buffer := [] })
      hending horder'.released
    rw [heq, release, emit_eq, flushUnreleased_ending, if_pos hending, hdelivered]
    refine ⟨rfl, ?_, by rw [hending]; rfl⟩
    change shown (s.delivered ++ s.held ++ [s.sent (rewritten s.buffer)]) = s.watch.read
    rw [shown_append, shown_singleton, sent, hfaithful]
    exact hread
  · have horder' : Orderly (refuse (declines s.buffer) s.buffer { s with stallTimer := false }) :=
      ⟨horder.live, horder.released⟩
    have hnil : s.buffer = [] := by
      rcases hend with hseen | hnil
      · rwa [if_pos hseen] at hfaithful
      · exact hnil
    have hdelivered := flushUnreleased_delivered
      (s := refuse (declines s.buffer) s.buffer { s with stallTimer := false }) hending
      horder'.released
    rw [heq, release, flushUnreleased_ending]
    refine ⟨rfl, ?_, by rw [refuse, hending]; rfl⟩
    change shown (flushUnreleased _).delivered = s.watch.read
    rw [hdelivered, ← hread, hnil, append_nil]
    rfl

theorem onDone_phase (o : RetryOptions) (s : RetryBody) :
    (onDone o s).phase ≠ .reading ∧ (onDone o s).phase ≠ .scanning := by
  rcases onDone_cases o s with
    ⟨-, heq⟩ | ⟨-, ⟨-, heq⟩ | ⟨-, -, -, heq⟩ | ⟨-, -, -, heq⟩ | ⟨-, heq⟩⟩
  all_goals
    rw [heq]
    exact ⟨RetryPhase.noConfusion, RetryPhase.noConfusion⟩

theorem tracks_onDone (h : Tracks s) (horder : Orderly s) (hphase : s.phase = .reading) :
    Tracks (onDone o s) := by
  obtain ⟨hreading, hscanning⟩ := onDone_phase o s
  refine ⟨fun hp ↦ (hp.elim hreading hscanning).elim, fun hp ↦ absurd hp hreading,
    fun hp ↦ (hp.elim hreading hscanning).elim, fun _ hno hfaithful ↦ ?_⟩
  rw [(watch_onDone o _).2] at hno hfaithful ⊢
  exact onDone_tracked h horder hphase hno hfaithful

theorem tracks_flushHeld (h : Tracks s) (horder : Orderly s) : Tracks (flushHeld s) := by
  rw [flushHeld_eq]
  refine ⟨fun hp unread hno hfaithful ↦ ?_, h.searched, h.calm, fun hp hno hfaithful ↦ ?_⟩
  · have hlive : s.phase ≠ .finished := by
      rcases hp with hp | hp
      · exact fun hf ↦ RetryPhase.noConfusion (hp.symm.trans hf)
      · exact fun hf ↦ RetryPhase.noConfusion (hp.symm.trans hf)
    obtain ⟨hread, hrest⟩ := h.going hp unread hno hfaithful
    rw [if_pos (horder.live hlive)]
    exact ⟨by rw [append_nil]; exact hread, hrest⟩
  · obtain ⟨hfinished, hshown, hending⟩ := h.over hp hno hfaithful
    rw [if_neg (by rw [hending]; simp)]
    exact ⟨hfinished, hshown, hending⟩

variable {e : RetryEvent}

theorem tracks_step (h : Tracks s) (horder : Orderly s) (hC : Undisturbed s e)
    (hstep : retryStep o s e = some s') : Tracks s' := by
  rcases retryStep_cases hstep with
    ⟨hphase, ⟨value, rfl, rfl⟩ | ⟨rfl, rfl⟩ | ⟨rfl, rfl⟩ | ⟨rfl, -⟩ | ⟨rfl, -⟩⟩ |
    ⟨hphase, rfl, rfl⟩ | ⟨declined, hphase, ⟨rfl, -⟩ | ⟨rfl, -⟩⟩ | ⟨why, next, hphase, rfl, -⟩ |
    ⟨rfl, -, -, rfl⟩
  · refine ⟨fun _ unread hno hfaithful ↦ ?_, nofun, fun _ ↦ h.calm (.inl hphase),
      fun hover ↦ absurd (.inr rfl) hover⟩
    dsimp only at hno hfaithful ⊢
    rw [append_assoc] at hno hfaithful
    obtain ⟨hread, hrest⟩ := h.going (.inl hphase) (value ++ unread) hno hfaithful
    rw [← hread, append_assoc, append_assoc]
    exact ⟨rfl, hrest⟩
  · exact ⟨fun _ ↦ h.going (.inl hphase), fun _ ↦ h.searched hphase, fun _ ↦ rfl,
      fun hover ↦ absurd (.inl rfl) hover⟩
  · exact tracks_onDone h horder hphase
  · exact hC.elim
  · exact hC.elim
  · exact tracks_scan h horder hphase
  · exact hC.elim
  · exact hC.elim
  · exact hC.elim
  · exact tracks_flushHeld h horder

theorem tracks_always (o : RetryOptions) :
    (retryMachine o).Inductive Undisturbed fun s ↦ Orderly s ∧ Tracks s :=
  (orderly_always o Undisturbed).and (fun s hs ↦ by
      obtain rfl := hs
      exact ⟨fun _ unread hno hfaithful ↦ ⟨rfl, hno, hfaithful⟩, fun _ ↦ rfl, fun _ ↦ rfl,
        fun hover ↦ absurd (.inl rfl) hover⟩)
    fun _ _ _ horder h hC hstep ↦ tracks_step h horder hC hstep

theorem transparent_of_faithful (hno : NoDecline body) (h : Faithful false body) :
    Transparent body := by
  intro o s hreach hfinished hread
  have htracks := ((tracks_always o).reachable hreach).2
  have hover : ¬(s.phase = .reading ∨ s.phase = .scanning) := by
    rw [hfinished]
    simp
  obtain ⟨-, hshown, hending⟩ := htracks.over hover (by rwa [hread]) (by rwa [hread])
  exact ⟨hshown.trans hread, hending⟩

/-! ## A body that is not faithful shows it -/

/-- A state in which the inner loop runs and nothing has stalled. -/
structure Scanning (s : RetryBody) : Prop where
  order : Orderly s
  phase : s.phase = .scanning
  calm : s.stallFired = false

theorem next_of_step (hC : Undisturbed s e) (h : retryStep o s e = some s') :
    (retryMachine o).Next Undisturbed s s' := ⟨e, hC, h⟩

theorem next_scan (h : s.phase = .scanning) :
    (retryMachine o).Next Undisturbed s (RetryBody.scan o s) :=
  next_of_step (e := .scan) trivial (by simp only [retryStep, h])

theorem next_done (h : s.phase = .reading) : (retryMachine o).Next Undisturbed s (onDone o s) :=
  next_of_step (e := .done) trivial (by simp only [retryStep, h])

theorem not_retriesFrame (hrungs : o.delaysMs = []) : ¬RetriesFrame o s := by
  rintro ⟨-, hrung, -⟩
  rw [hrungs] at hrung
  exact absurd hrung (Nat.not_lt_zero _)

/-- The body ends, with no rung: what is held is delivered, and then what is in the buffer, unless
content came before; or else the buffer is a decline. -/
theorem onDone_ends (horder : Orderly s) (hphase : s.phase = .reading) (hcalm : s.stallFired = false)
    (hrungs : o.delaysMs = []) : (onDone o s).phase = .finished ∧
      (declines s.buffer = true ∧ (onDone o s).delivered = s.delivered ∧
          (onDone o s).held = s.held ∨
        (onDone o s).held = [] ∧ shown (onDone o s).delivered = shown (s.delivered ++ s.held) ++
          if s.contentSeen = true then [] else rewritten s.buffer) := by
  have hending := horder.live (by rw [hphase]; simp)
  rcases onDone_cases o s with
    ⟨hstalled, -⟩ | ⟨-, ⟨hretries, -⟩ | ⟨-, hdecline, -, heq⟩ | ⟨hseen, -, -, heq⟩ | ⟨hend, heq⟩⟩
  · exact absurd (hcalm.symm.trans hstalled.1) Bool.false_ne_true
  · have := hretries.2.1
    rw [hrungs] at this
    exact absurd this (Nat.not_lt_zero _)
  · rw [heq]
    exact ⟨rfl, .inl ⟨hdecline, rfl, rfl⟩⟩
  · have hreleased : ({ s with stallTimer := false, buffer := [] } : RetryBody).released = true →
        ({ s with stallTimer := false, buffer := [] } : RetryBody).held = [] := horder.released
    have hdelivered := flushUnreleased_delivered (s := { s with stallTimer := false, buffer := [] })
      hending hreleased
    rw [heq, release, emit_eq, flushUnreleased_ending, if_pos hending, hdelivered,
      if_neg (by rw [hseen]; exact Bool.false_ne_true)]
    refine ⟨rfl, .inr ⟨flushUnreleased_held hreleased, ?_⟩⟩
    dsimp only
    rw [shown_append, shown_singleton]
    rfl
  · have hreleased : (refuse (declines s.buffer) s.buffer { s with stallTimer := false }).released =
        true → (refuse (declines s.buffer) s.buffer { s with stallTimer := false }).held = [] :=
      horder.released
    have hdelivered := flushUnreleased_delivered
      (s := refuse (declines s.buffer) s.buffer { s with stallTimer := false }) hending hreleased
    rw [heq, release]
    refine ⟨rfl, .inr ⟨flushUnreleased_held hreleased, ?_⟩⟩
    have hnothing : (if s.contentSeen = true then [] else rewritten s.buffer) = [] := by
      split_ifs with hseen
      · rfl
      · rw [hend.resolve_left hseen]
        rfl
    rw [hnothing, append_nil]
    exact congrArg shown hdelivered

theorem run_end (h : Scanning s) (hrungs : o.delaysMs = [])
    (hf : Segments.head endsFrame s.buffer = none) :
    ∃ s', (retryMachine o).Run Undisturbed s s' ∧ s'.phase = .finished ∧
      s'.watch.read = s.watch.read ∧
      (declines s.buffer = true ∧ s'.delivered = s.delivered ∧ s'.held = s.held ∨
        s'.held = [] ∧ shown s'.delivered = shown (s.delivered ++ s.held) ++
          if s.contentSeen = true then [] else rewritten s.buffer) := by
  have hcut : cutFrame s.buffer = none := by rw [cutFrame_eq, hf, Option.map_none]
  have hscan : RetryBody.scan o s = enterRead o s := by rw [RetryBody.scan, hcut]
  have horder : Orderly (enterRead o s) := hscan ▸ orderly_scan h.order h.phase
  obtain ⟨hfinished, hends⟩ := onDone_ends (o := o) (s := enterRead o s) horder rfl h.calm hrungs
  refine ⟨onDone o (enterRead o s), ?_, hfinished, (watch_onDone o _).2, hends⟩
  refine Relation.ReflTransGen.tail (.single ?_) (next_done rfl)
  rw [← hscan]
  exact next_scan h.phase

theorem Scanning.scan (h : Scanning s) (hrungs : o.delaysMs = [])
    (hf : Segments.head endsFrame s.buffer = some f) : Scanning (RetryBody.scan o s) := by
  obtain ⟨hscanning, -, -, hcalm, -⟩ :=
    scan_passed h.order h.phase hf (not_retriesFrame (s := s) hrungs)
  exact ⟨orderly_scan h.order h.phase, hscanning, hcalm.trans h.calm⟩

theorem rewritten_ne_nil {l : Bytes} (h : Segments.head endsFrame l = some f) : rewritten f ≠ [] :=
  head_ne_nil rfl (head_rewritten h)

theorem run_on (hrungs : o.delaysMs = []) (n : ℕ) :
    ∀ s : RetryBody, Scanning s → s.buffer.length = n →
      ∃ s', (retryMachine o).Run Undisturbed s s' ∧ s'.phase = .finished ∧
        s'.watch.read = s.watch.read ∧
        ∃ Y, shown (s'.delivered ++ s'.held) = shown (s.delivered ++ s.held) ++ Y := by
  induction n using Nat.strong_induction_on with
  | h n ih =>
    intro s h hn
    cases hf : Segments.head endsFrame s.buffer with
    | none =>
      obtain ⟨s', hrun, hfinished, hread, hends⟩ := run_end h hrungs hf
      refine ⟨s', hrun, hfinished, hread, ?_⟩
      rcases hends with ⟨-, hdelivered, hheld⟩ | ⟨hheld, hdelivered⟩
      · exact ⟨[], by rw [hdelivered, hheld, append_nil]⟩
      · exact ⟨_, by rw [hheld, append_nil, hdelivered]⟩
    | some f =>
      obtain ⟨-, hbuffer, hsame, -, -, hshown⟩ :=
        scan_passed h.order h.phase hf (not_retriesFrame (s := s) hrungs)
      have hpos := length_pos_iff.mpr (rewritten_ne_nil hf)
      have hle := (head_eq_some.mp hf).1.length_le
      have hfpos := length_pos_iff.mpr (head_ne_nil rfl hf)
      obtain ⟨s', hrun, hfinished, hread, Y, hY⟩ := ih (RetryBody.scan o s).buffer.length
        (by rw [hbuffer, length_drop]; omega) (.scan o s) (h.scan hrungs hf) rfl
      refine ⟨s', .head (next_scan h.phase) hrun, hfinished, hread.trans hsame, rewritten f ++ Y, ?_⟩
      rw [hY, hshown, append_assoc]

/-- **What is not faithful is not delivered as it was**, where the whole body is in the buffer. -/
theorem run_shows (hrungs : o.delaysMs = []) (n : ℕ) :
    ∀ s : RetryBody, Scanning s → NoDecline s.buffer → s.buffer.length = n →
      ∃ s', (retryMachine o).Run Undisturbed s s' ∧ s'.phase = .finished ∧
        s'.watch.read = s.watch.read ∧
        (shown s'.delivered = shown (s.delivered ++ s.held) ++ s.buffer →
          Faithful s.contentSeen s.buffer) := by
  induction n using Nat.strong_induction_on with
  | h n ih =>
    intro s h hno hn
    cases hf : Segments.head endsFrame s.buffer with
    | none =>
      obtain ⟨s', hrun, hfinished, hread, hends⟩ := run_end h hrungs hf
      refine ⟨s', hrun, hfinished, hread, fun hsame ↦ ?_⟩
      rw [faithful_of_none hf]
      rcases hends with ⟨hdecline, -⟩ | ⟨-, hdelivered⟩
      · exact absurd ((noDecline_of_none hf hno).symm.trans hdecline) Bool.false_ne_true
      · have hbuffer := append_cancel_left (hdelivered.symm.trans hsame)
        split_ifs with hseen
        · rw [if_pos hseen] at hbuffer
          exact hbuffer.symm
        · rwa [if_neg hseen] at hbuffer
    | some f =>
      obtain ⟨-, hbuffer, hsame, -, hseen, hshown⟩ :=
        scan_passed h.order h.phase hf (not_retriesFrame (s := s) hrungs)
      obtain ⟨⟨rest, hrest⟩, -⟩ := head_eq_some.mp hf
      have hfpos := length_pos_iff.mpr (head_ne_nil rfl hf)
      have hlength := congrArg List.length hrest
      rw [length_append] at hlength
      by_cases hclean : rewritten f = f
      · have hnext : (RetryBody.scan o s).buffer = s.buffer.drop f.length := by rw [hbuffer, hclean]
        have hdrop : s.buffer.drop f.length = rest := by rw [← hrest, drop_left]
        obtain ⟨s', hrun, hfinished, hread, hfaithful⟩ := ih (RetryBody.scan o s).buffer.length
          (by rw [hnext, hdrop]; omega) (.scan o s) (h.scan hrungs hf)
          (by rw [hnext]; exact (noDecline_of_some hf hno).2) rfl
        refine ⟨s', .head (next_scan h.phase) hrun, hfinished, hread.trans hsame, fun hall ↦ ?_⟩
        rw [hseen, hnext] at hfaithful
        refine (faithful_of_some hf _).mpr ⟨hclean, hfaithful ?_⟩
        rw [hall, hshown, hclean, hdrop, append_assoc, hrest]
      · -- the frame was changed, so what is delivered goes another way
        obtain ⟨s', hrun, hfinished, hread, Y, hY⟩ :=
          run_on hrungs _ (.scan o s) (h.scan hrungs hf) rfl
        refine ⟨s', .head (next_scan h.phase) hrun, hfinished, hread.trans hsame, fun hall ↦ ?_⟩
        rw [shown_append, hall, hshown, ← hrest] at hY
        simp only [append_assoc] at hY
        have hsplit := append_cancel_left hY
        have hcomparable : rewritten f <+: f ∨ f <+: rewritten f :=
          prefix_or_prefix_of_prefix ⟨Y, hsplit.symm⟩ ⟨_, rfl⟩
        exact absurd (rewritten_comparable hf hcomparable) hclean

/-- The whole body has arrived in one chunk. -/
def arrived (body : Bytes) : RetryBody :=
  { RetryBody.start noRung with
    phase := .scanning, stallTimer := false, buffer := body, watch := { read := body } }

theorem next_arrived (body : Bytes) :
    (retryMachine noRung).Next Undisturbed (RetryBody.start noRung) (arrived body) :=
  next_of_step (e := .chunk body) trivial rfl

theorem scanning_arrived (body : Bytes) : Scanning (arrived body) :=
  ⟨⟨fun _ ↦ rfl, fun _ ↦ rfl⟩, rfl, rfl⟩

theorem faithful_of_transparent (hno : NoDecline body) (h : Transparent body) :
    Faithful false body := by
  obtain ⟨s, hrun, hfinished, hread, hfaithful⟩ :=
    run_shows (o := noRung) rfl _ (arrived body) (scanning_arrived body) hno rfl
  have hreach : (retryMachine noRung).ReachableIf Undisturbed s :=
    ⟨_, rfl, .head (next_arrived body) hrun⟩
  obtain ⟨hshown, -⟩ := h noRung s hreach hfinished hread
  exact hfaithful hshown

/-- **What goes in comes out**, for any chunks, any options and any time of the hold timer, exactly if
the body is faithful. -/
theorem transparent_iff (body : Bytes) (hno : NoDecline body) :
    Transparent body ↔ Faithful false body :=
  ⟨faithful_of_transparent hno, transparent_of_faithful hno⟩

/-! ## A body whose last frame is not terminated -/

/-- A delta, and behind it the last frame without its blank line. -/
def unfinishedBody : Bytes :=
  Utf8.bytesOf (js "data: \x7b\"type\":\"response.output_text.delta\",\"delta\":\"a\"\x7d\n\ndata: \x7b\"type\":\"response.completed\"\x7d\n")

/-- The last frame is lost. -/
theorem final_frame_lost : NoDecline unfinishedBody ∧ ¬Transparent unfinishedBody := by
  refine ⟨by decide +kernel, fun h ↦ ?_⟩
  obtain ⟨hshown, -⟩ := h noRung
    ((retryMachine noRung).play (.start noRung) [.chunk unfinishedBody, .scan, .scan, .done])
    ⟨_, rfl, Machine.run_play (by decide +kernel)⟩ (by decide +kernel) (by decide +kernel)
  exact absurd hshown (by decide +kernel)

/-- A body with CR LF separators and a comment, and one with no separator at all. -/
theorem transparent_two :
    Transparent (Utf8.bytesOf (js ": ping\r\n\r\ndata: \x7b\"type\":\"x.delta\"\x7d\r\n\r\n")) ∧
      Transparent (Utf8.bytesOf (js "\x7b\"id\":1\x7d")) :=
  ⟨(transparent_iff _ (by decide +kernel)).mpr (by decide +kernel),
    (transparent_iff _ (by decide +kernel)).mpr (by decide +kernel)⟩

end RetryBody

end Sse
