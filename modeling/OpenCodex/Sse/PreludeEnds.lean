import OpenCodex.Data.Course
import OpenCodex.Sse.PreludeRuns

/-!
# The retried body ends

A body is finished when its loop has returned.  Then it must have been closed or errored, and no decline
that was not retried may have been lost on the way.  Both hold (`body_ends`) of the runs in which no
reader ends with a decline that has no blank line behind it, except where that decline is retried and
the retry gets another stream: for such a decline the code has no frame to hand over, and with no rung
left it returns without closing anything.

That the loop returns at all, whatever the attempts and the timers do, is a matter of two measures.
Each end of a read, a wait or a resend uses up `patience`; what happens in between uses up `work`.
-/

set_option autoImplicit false

open List Option Bool

namespace Sse

open Bridge (indexOf indexOf_nil)
open Machine (Course)

namespace RetryBody

variable {o : RetryOptions} {s s' : RetryBody}

/-! ## What becomes of a refused decline -/

/-- **The side condition**: an attempt that ends with an unterminated decline is retried, and its retry
gets a stream; and when a stalled attempt cannot be replaced, no refused decline is held. -/
def HandsOver (o : RetryOptions) (s : RetryBody) (e : RetryEvent) : Prop :=
  match e with
  | .done => ¬Stalled s → declines s.buffer = true →
      s.contentSeen = false ∧ s.rung < o.delaysMs.length
  | .readError => declines s.buffer = false
  | .aborted => s.phase ≠ .waiting none
  | .resent next => isStream o next = false → s.phase ≠ .resending (.decline none) ∧
      (s.phase = .resending .stall →
        declines s.buffer = false ∧ ∀ f ∈ s.held, f.bytes ∉ s.watch.refused)
  | _ => True

instance (o : RetryOptions) (s : RetryBody) (e : RetryEvent) : Decidable (HandsOver o s e) :=
  match e with
  | .done => inferInstanceAs (Decidable (¬Stalled s → declines s.buffer = true →
      s.contentSeen = false ∧ s.rung < o.delaysMs.length))
  | .readError => inferInstanceAs (Decidable (declines s.buffer = false))
  | .aborted => inferInstanceAs (Decidable (s.phase ≠ .waiting none))
  | .resent next => inferInstanceAs (Decidable (isStream o next = false →
      s.phase ≠ .resending (.decline none) ∧ (s.phase = .resending .stall →
        declines s.buffer = false ∧ ∀ f ∈ s.held, f.bytes ∉ s.watch.refused)))
  | .chunk _ | .noValue | .scan | .waited | .holdFires | .stallFires =>
    inferInstanceAs (Decidable True)

/-- No refused decline is lost. -/
structure Kept (o : RetryOptions) (s : RetryBody) : Prop where
  /-- It was passed on, or is held. -/
  passed : ∀ d ∈ s.watch.refused, d ∈ (s.delivered ++ s.held).map Sent.bytes
  /-- It was refused because it came too late. -/
  late : s.phase ≠ .finished → s.watch.refused ≠ [] →
    s.contentSeen = true ∨ o.delaysMs.length ≤ s.rung
  waiting : ∀ d, s.phase = .waiting (some d) → s.watch.pending = d
  resending : ∀ d, s.phase = .resending (.decline (some d)) → s.watch.pending = d
  ended : s.phase = .finished →
    s.ending ≠ none ∧ ∀ d ∈ s.watch.refused, d ∈ s.delivered.map Sent.bytes

theorem declines_nil : declines [] = false := by decide +kernel

variable {d : Bytes}

theorem mem_refused {decline : Bool} {text : Bytes} (h : d ∈ (refuse decline text s).watch.refused) :
    d ∈ s.watch.refused ∨ decline = true ∧ d = text := by
  rcases mem_append.mp h with h | h
  · exact .inl h
  · cases decline with
    | false => exact absurd h not_mem_nil
    | true => exact .inr ⟨rfl, mem_singleton.mp h⟩

/-- **A decline that is handed over** goes after all that was held. -/
theorem handOver_eq (hending : s.ending = none) (hreleased : s.released = true → s.held = [])
    (declined : Option Bytes) : ∃ released, handOver declined s = { s with
        phase := .finished, held := [], released := released, stallTimer := false
        flushTimer := false, ending := some .closed
        delivered := s.delivered ++ s.held ++ (declined.map s.sent).toList
        watch := { s.watch with refused := s.watch.refused ++ [s.watch.pending] } } := by
  unfold handOver
  by_cases hr : s.released = false
  · refine ⟨true, ?_⟩
    cases declined <;> simp [release, emit_eq, flushHeld_eq, hr, hending, sent]
  · have hheld := hreleased (by simpa using hr)
    refine ⟨s.released, ?_⟩
    cases declined <;> simp [release, emit_eq, hr, hending, hheld, sent]

theorem Kept.none_retried (h : Kept o s) (hlive : s.phase ≠ .finished)
    (hseen : s.contentSeen = false) (hrung : s.rung < o.delaysMs.length) : s.watch.refused = [] := by
  by_contra hne
  rcases h.late hlive hne with hc | hr
  · exact absurd (hseen.symm.trans hc) false_ne_true
  · omega

theorem kept_scan (h : Kept o s) (horder : Orderly s) (hphase : s.phase = .scanning) :
    Kept o (RetryBody.scan o s) := by
  have hlive : s.phase ≠ .finished := by rw [hphase]; simp
  have hending := horder.live hlive
  rcases scan_cases o s with ⟨-, heq⟩ | ⟨r, hcut, ⟨hretries, heq⟩ | ⟨hpasses, heq⟩⟩
  · rw [heq]
    exact ⟨h.passed, fun _ ↦ h.late hlive, nofun,
      nofun, nofun⟩
  · have hnone := h.none_retried hlive hretries.1 hretries.2.1
    rw [heq]
    refine ⟨fun d hd ↦ ?_, fun _ hne ↦ absurd hnone hne, fun d hd ↦ ?_,
      nofun, nofun⟩
    · exact absurd (hnone ▸ hd : d ∈ []) not_mem_nil
    · exact (some_inj.mp (RetryPhase.waiting.inj hd))
  · -- a decline that passes came after content, or when no rung was left
    have hlate : isDeclineFrame r.1 (frameType r.1) = true →
        s.contentSeen = true ∨ o.delaysMs.length ≤ s.rung := by
      intro hdecline
      by_contra hnot
      push Not at hnot
      exact hpasses ⟨by simpa using hnot.1, hnot.2, r, hcut, hdecline⟩
    have hlate' : ∀ seen : Bool, (s.contentSeen = true → seen = true) →
        (refuse (isDeclineFrame r.1 (frameType r.1)) r.2.1 { s with buffer := r.2.2 }).watch.refused ≠ [] →
        seen = true ∨ o.delaysMs.length ≤ s.rung := by
      intro seen hmono hne
      obtain ⟨d, hd⟩ := exists_mem_of_ne_nil _ hne
      rcases mem_refused hd with hd | ⟨hdecline, -⟩
      · exact (h.late hlive (ne_nil_of_mem hd)).imp_left hmono
      · exact (hlate hdecline).imp_left hmono
    have hbusy : ∀ p : RetryPhase, s.phase = p → p = .scanning := fun p hp ↦ hp ▸ hphase
    rw [heq]
    rcases passFrame_cases (s := refuse (isDeclineFrame r.1 (frameType r.1)) r.2.1
        { s with buffer := r.2.2 }) hending horder.released
        (isPreludeFrame r.1 (frameType r.1)) r.2.1 with
      ⟨-, -, -, heq⟩ | ⟨_, _, _, -, heq⟩
    · rw [heq]
      refine ⟨fun d hd ↦ ?_, fun _ ↦ hlate' _ id, fun _ hd ↦ RetryPhase.noConfusion (hbusy _ hd),
        fun _ hd ↦ RetryPhase.noConfusion (hbusy _ hd),
        fun hd ↦ RetryPhase.noConfusion (hbusy _ hd)⟩
      dsimp only
      rw [← append_assoc, map_append]
      rcases mem_refused hd with hd | ⟨-, rfl⟩
      · exact mem_append_left _ (h.passed d hd)
      · exact mem_append_right _ (mem_singleton_self _)
    · rw [heq]
      refine ⟨fun d hd ↦ ?_, fun _ ↦ hlate' _ fun hc ↦ ?_,
        fun _ hd ↦ RetryPhase.noConfusion (hbusy _ hd),
        fun _ hd ↦ RetryPhase.noConfusion (hbusy _ hd),
        fun hd ↦ RetryPhase.noConfusion (hbusy _ hd)⟩
      · dsimp only
        rw [append_nil, map_append]
        rcases mem_refused hd with hd | ⟨-, rfl⟩
        · exact mem_append_left _ (h.passed d hd)
        · exact mem_append_right _ (mem_singleton_self _)
      · rw [refuse, hc]
        rfl

theorem kept_finished (hphase : s'.phase = .finished) (hending : s'.ending ≠ none)
    (hrefused : ∀ d ∈ s'.watch.refused, d ∈ s'.delivered.map Sent.bytes) : Kept o s' where
  passed d hd := by
    rw [map_append]
    exact mem_append_left _ (hrefused d hd)
  late hlive := absurd hphase hlive
  waiting d hd := by rw [hphase] at hd; exact RetryPhase.noConfusion hd
  resending d hd := by rw [hphase] at hd; exact RetryPhase.noConfusion hd
  ended _ := ⟨hending, hrefused⟩

theorem kept_flushed (h : Kept o s) (horder : Orderly s) (hlive : s.phase ≠ .finished)
    (hd : d ∈ s.watch.refused) : d ∈ (flushUnreleased s).delivered.map Sent.bytes := by
  rw [flushUnreleased_delivered (horder.live hlive) horder.released]
  exact h.passed d hd

theorem kept_onDone (h : Kept o s) (horder : Orderly s) (hphase : s.phase = .reading)
    (hC : HandsOver o s .done) : Kept o (onDone o s) := by
  have hlive : s.phase ≠ .finished := by rw [hphase]; simp
  have hending := horder.live hlive
  rcases onDone_cases o s with
    ⟨-, heq⟩ | ⟨hstalled, ⟨hretries, heq⟩ | ⟨-, hdecline, hrung, heq⟩ | ⟨-, -, -, heq⟩ | ⟨hend, heq⟩⟩
  · rw [heq]
    exact ⟨h.passed, fun _ ↦ h.late hlive, by rintro _ ⟨⟩,
      fun _ hd ↦ Splice.noConfusion (RetryPhase.resending.inj hd),
      by rintro ⟨⟩⟩
  · have hnone := h.none_retried hlive hretries.1 hretries.2.1
    rw [heq]
    refine ⟨fun d hd ↦ ?_, fun _ hne ↦ absurd hnone hne, fun d hd ↦ ?_,
      by rintro _ ⟨⟩, by rintro ⟨⟩⟩
    · exact absurd (hnone ▸ hd : d ∈ []) not_mem_nil
    · exact absurd (RetryPhase.waiting.inj hd) (by simp)
  · have := (hC hstalled hdecline).2
    omega
  · have h' : Kept o { s with stallTimer := false, buffer := [] } :=
      ⟨h.passed, h.late, h.waiting, h.resending, h.ended⟩
    have horder' : Orderly { s with stallTimer := false, buffer := [] } :=
      ⟨horder.live, horder.released⟩
    rw [heq]
    refine kept_finished rfl (by simp [release]) fun d hd ↦ ?_
    have hd' : d ∈ s.watch.refused := by simpa [release] using hd
    have := kept_flushed h' horder' hlive hd'
    rw [release, emit_eq, flushUnreleased_ending, if_pos hending]
    dsimp only
    rw [map_append]
    exact mem_append_left _ this
  · have hno : declines s.buffer = false := by
      by_contra hdecline
      have hdecline : declines s.buffer = true := by simpa using hdecline
      rcases hend with hseen | hnil
      · exact absurd ((hC hstalled hdecline).1.symm.trans hseen) false_ne_true
      · rw [hnil, declines_nil] at hdecline
        cases hdecline
    have h' : Kept o (refuse false s.buffer { s with stallTimer := false }) :=
      ⟨by simpa [refuse] using h.passed, by simpa [refuse] using h.late, h.waiting, h.resending,
        by simpa [refuse] using h.ended⟩
    have horder' : Orderly (refuse false s.buffer { s with stallTimer := false }) :=
      ⟨horder.live, horder.released⟩
    rw [heq, hno]
    refine kept_finished rfl (by simp [release]) fun d hd ↦ ?_
    have hd' : d ∈ (refuse false s.buffer { s with stallTimer := false }).watch.refused := by
      simpa [release] using hd
    exact kept_flushed h' horder' hlive hd'

theorem kept_onError (h : Kept o s) (horder : Orderly s) (hphase : s.phase = .reading)
    (hC : declines s.buffer = false) : Kept o (onError s) := by
  have hlive : s.phase ≠ .finished := by rw [hphase]; simp
  have hrefuse : refuse false s.buffer s = s := by simp [refuse]
  rw [onError, hC, hrefuse]
  refine kept_finished rfl (by simp) fun d hd ↦ ?_
  have hd' : d ∈ s.watch.refused := by simpa using hd
  exact kept_flushed h horder hlive hd'

theorem kept_handOver (h : Kept o s) (horder : Orderly s) (hlive : s.phase ≠ .finished)
    (hpending : s.watch.pending = d) : Kept o (handOver (some d) s) := by
  obtain ⟨released, heq⟩ := handOver_eq (horder.live hlive) horder.released (some d)
  rw [heq]
  refine kept_finished rfl (by simp) fun e he ↦ ?_
  dsimp only
  rw [map_append]
  rcases mem_append.mp he with he | he
  · exact mem_append_left _ (h.passed e he)
  · rw [hpending] at he
    exact mem_append_right _ (mem_singleton.mp he ▸ mem_singleton_self d)

variable {why : Splice}

theorem kept_onResent (h : Kept o s) (horder : Orderly s) (hphase : s.phase = .resending why)
    {next : Option Answer} (hC : HandsOver o s (.resent next)) :
    Kept o (onResent o why next s) := by
  have hlive : s.phase ≠ .finished := by rw [hphase]; simp
  unfold onResent
  split_ifs with hstream
  · exact ⟨h.passed, fun _ ↦ h.late hlive, nofun,
      nofun, nofun⟩
  · have hno : isStream o next = false := by simpa using hstream
    obtain ⟨hframe, hstall⟩ := hC hno
    match why, hphase with
    | .stall, hphase =>
      obtain ⟨hdecline, hheld⟩ := hstall hphase
      have hrefuse : refuse false s.buffer s = s := by simp [refuse]
      rw [hdecline, hrefuse]
      refine kept_finished rfl (by simp [release]) fun d hd ↦ ?_
      rcases mem_append.mp (map_append ▸ h.passed d hd) with hd' | hd'
      · exact hd'
      · obtain ⟨f, hf, rfl⟩ := List.mem_map.mp hd'
        exact absurd hd (hheld f hf)
    | .decline none, hphase => exact absurd hphase hframe
    | .decline (some d), hphase => exact kept_handOver h horder hlive (h.resending d hphase)

theorem kept_flushHeld (h : Kept o s) (horder : Orderly s) : Kept o (flushHeld s) := by
  by_cases hlive : s.phase = .finished
  · obtain ⟨hending, hrefused⟩ := h.ended hlive
    rw [flushHeld_eq, if_neg hending]
    exact kept_finished hlive hending hrefused
  · rw [flushHeld_eq, if_pos (horder.live hlive)]
    refine ⟨fun d hd ↦ ?_, h.late, h.waiting, h.resending, fun hd ↦ absurd hd hlive⟩
    dsimp only
    rw [append_nil]
    exact h.passed d hd

variable {e : RetryEvent}

theorem kept_step (h : Kept o s) (horder : Orderly s) (hC : HandsOver o s e)
    (hstep : retryStep o s e = some s') : Kept o s' := by
  rcases retryStep_cases hstep with
    ⟨hphase, ⟨value, rfl, rfl⟩ | ⟨rfl, rfl⟩ | ⟨rfl, rfl⟩ | ⟨rfl, rfl⟩ | ⟨rfl, -, rfl⟩⟩ |
    ⟨hphase, rfl, rfl⟩ | ⟨declined, hphase, ⟨rfl, rfl⟩ | ⟨rfl, rfl⟩⟩ |
    ⟨why, next, hphase, rfl, rfl⟩ | ⟨rfl, -, -, rfl⟩
  · exact ⟨h.passed, fun _ ↦ h.late (by rw [hphase]; simp), nofun,
      nofun, nofun⟩
  · exact ⟨h.passed, fun _ ↦ h.late (by rw [hphase]; simp), nofun,
      nofun, nofun⟩
  · exact kept_onDone h horder hphase hC
  · exact kept_onError h horder hphase hC
  · exact ⟨h.passed, h.late, h.waiting, h.resending, h.ended⟩
  · exact kept_scan h horder hphase
  · refine ⟨h.passed, fun _ ↦ h.late (by rw [hphase]; simp), nofun, fun d hd ↦ ?_, nofun⟩
    have hdeclined := Splice.decline.inj (RetryPhase.resending.inj hd)
    exact h.waiting d (hphase.trans (congrArg RetryPhase.waiting hdeclined))
  · cases declined with
    | none => exact absurd hphase hC
    | some d => exact kept_handOver h horder (by rw [hphase]; simp) (h.waiting d hphase)
  · exact kept_onResent h horder hphase hC
  · exact kept_flushHeld h horder

theorem kept_always (o : RetryOptions) :
    (retryMachine o).Inductive (HandsOver o) fun s ↦ Orderly s ∧ Kept o s :=
  (orderly_always o (HandsOver o)).and (fun s hs ↦ by
      obtain rfl := hs
      exact ⟨nofun, fun _ hne ↦ absurd rfl hne,
        nofun, nofun,
        nofun⟩)
    fun _ _ _ horder h hC hstep ↦ kept_step h horder hC hstep

/-! ## Patience and work -/

theorem cutFrame_shrinks {buffer : Bytes} {r : JsString × Bytes × Bytes}
    (h : cutFrame buffer = some r) : r.2.2.length < buffer.length := by
  unfold cutFrame at h
  dsimp only at h
  obtain ⟨stop, hstop, rfl⟩ := map_eq_some_iff.mp h
  have htext : decodeFrame buffer ≠ [] := by
    intro hnil
    rw [hnil, indexOf_nil (by decide), indexOf_nil (by decide)] at hstop
    nomatch hstop
  have hpos : 0 < stop := by
    split at hstop
    · nomatch hstop
    · rw [← some_inj.mp hstop]
      omega
    · rw [← some_inj.mp hstop]
      omega
    · split_ifs at hstop
      · rw [← some_inj.mp hstop]
        omega
      · rw [← some_inj.mp hstop]
        omega
  have hframe : (decodeFrame buffer).take stop ≠ [] := by
    rw [Ne, take_eq_nil_iff]
    exact not_or.mpr ⟨Nat.ne_of_gt hpos, htext⟩
  have hbuffer : buffer ≠ [] := by
    rintro rfl
    exact htext rfl
  have hbytes := length_pos_iff.mpr (Utf8.bytesOf_ne_nil hframe)
  have hlength := length_pos_iff.mpr hbuffer
  rw [length_drop]
  omega

/-- How many more times an attempt can be given up. -/
def chances (o : RetryOptions) (s : RetryBody) : ℕ :=
  (o.delaysMs.length - s.rung) + (1 - s.stallBounces)

/-- What every end of a read, a wait or a resend uses up. -/
def patience (o : RetryOptions) (s : RetryBody) : ℕ :=
  match s.phase with
  | .reading | .scanning => 3 * chances o s + 1
  | .waiting _ => 3 * chances o s + 3
  | .resending _ => 3 * chances o s + 2
  | .finished => 0

/-- What scanning the buffer and the timers use up. -/
def work (s : RetryBody) : ℕ :=
  3 * (if s.phase = .scanning then s.buffer.length + 1 else 0) + s.flushTimer.toNat +
    s.stallTimer.toNat

/-- A read that settles and is not the last one of its reader. -/
def Yields (e : RetryEvent) : Prop :=
  match e with
  | .chunk _ | .noValue => True
  | _ => False

/-- An event uses up patience, or else it uses up work, unless it is a read. -/
def Uses (o : RetryOptions) (s s' : RetryBody) (e : RetryEvent) : Prop :=
  patience o s' < patience o s ∨
    patience o s' = patience o s ∧ s'.watch.attempt = s.watch.attempt ∧
      (¬Yields e → work s' < work s)

theorem patience_finished (h : s'.phase = .finished) (hlive : s.phase ≠ .finished) :
    patience o s' < patience o s := by
  have hnone : patience o s' = 0 := by rw [patience, h]
  rw [hnone, patience]
  split
  · exact Nat.succ_pos _
  · exact Nat.succ_pos _
  · exact Nat.succ_pos _
  · exact Nat.succ_pos _
  · exact absurd ‹_› hlive

theorem uses_scan (horder : Orderly s) (hphase : s.phase = .scanning) :
    Uses o s (RetryBody.scan o s) .scan := by
  have hending := horder.live (by rw [hphase]; simp)
  rcases scan_cases o s with ⟨-, heq⟩ | ⟨r, hcut, ⟨hretries, heq⟩ | ⟨-, heq⟩⟩
  · rw [heq]
    refine .inr ⟨?_, rfl, fun _ ↦ ?_⟩
    · simp only [patience, enterRead, hphase, chances]
    · simp only [work, enterRead, hphase, if_true, reduceCtorEq, if_false]
      have := toNat_le (decide (o.stallMs > 0 ∧ s.contentSeen = false ∧ s.released = false ∧
        s.stallBounces < 1))
      omega
  · rw [heq]
    left
    have := hretries.2.1
    simp only [patience, retryDecline, hphase, chances]
    omega
  · have hshrinks := cutFrame_shrinks hcut
    rw [heq]
    right
    rcases passFrame_cases (s := refuse (isDeclineFrame r.1 (frameType r.1)) r.2.1
        { s with buffer := r.2.2 }) hending horder.released
        (isPreludeFrame r.1 (frameType r.1)) r.2.1 with
      ⟨-, -, -, heq⟩ | ⟨stallTimer, flushTimer, _, -, heq⟩
    · rw [heq]
      refine ⟨?_, rfl, fun _ ↦ ?_⟩
      · simp only [patience, refuse, hphase, chances]
      · simp only [work, refuse, hphase, if_true, toNat_true]
        omega
    · rw [heq]
      refine ⟨?_, rfl, fun _ ↦ ?_⟩
      · simp only [patience, refuse, hphase, chances]
      · simp only [work, refuse, hphase, if_true]
        have := toNat_le stallTimer
        have := toNat_le flushTimer
        omega

theorem uses_onDone (hphase : s.phase = .reading) : patience o (onDone o s) < patience o s := by
  have hlive : s.phase ≠ .finished := by rw [hphase]; simp
  rcases onDone_cases o s with
    ⟨hstalled, heq⟩ | ⟨-, ⟨hretries, heq⟩ | ⟨-, -, -, heq⟩ | ⟨-, -, -, heq⟩ | ⟨-, heq⟩⟩
  · have := hstalled.2.2
    simp only [heq, patience, hphase, chances]
    omega
  · have := hretries.2.1
    simp only [heq, patience, retryDecline, hphase, chances]
    omega
  · rw [heq]
    exact patience_finished rfl hlive
  · rw [heq]
    exact patience_finished rfl hlive
  · rw [heq]
    exact patience_finished rfl hlive

theorem uses_onResent (hphase : s.phase = .resending why) (next : Option Answer) :
    patience o (onResent o why next s) < patience o s := by
  have hlive : s.phase ≠ .finished := by rw [hphase]; simp
  unfold onResent
  split_ifs
  · simp only [patience, enterRead, hphase, chances]
    omega
  · cases why with
    | stall | decline declined => exact patience_finished rfl hlive

/-- **Every event uses up patience or work**, the reads apart. -/
theorem uses_step (horder : Orderly s) (hlive : s.phase ≠ .finished)
    (hstep : retryStep o s e = some s') : Uses o s s' e := by
  rcases retryStep_cases hstep with
    ⟨hphase, ⟨value, rfl, rfl⟩ | ⟨rfl, rfl⟩ | ⟨rfl, rfl⟩ | ⟨rfl, rfl⟩ | ⟨rfl, htimer, rfl⟩⟩ |
    ⟨hphase, rfl, rfl⟩ | ⟨declined, hphase, ⟨rfl, rfl⟩ | ⟨rfl, rfl⟩⟩ |
    ⟨why, next, hphase, rfl, rfl⟩ | ⟨rfl, hphase, htimer, rfl⟩
  · refine .inr ⟨?_, rfl, fun hidle ↦ absurd trivial hidle⟩
    simp only [patience, hphase, chances]
  · refine .inr ⟨?_, rfl, fun hidle ↦ absurd trivial hidle⟩
    simp only [patience, enterRead, hphase, chances]
  · exact .inl (uses_onDone hphase)
  · exact .inl (patience_finished rfl hlive)
  · refine .inr ⟨?_, rfl, fun _ ↦ ?_⟩
    · simp only [patience, hphase, chances]
    · simp only [work, htimer, toNat_true, toNat_false]
      omega
  · exact uses_scan horder hphase
  · left
    simp only [patience, hphase, chances]
    omega
  · exact .inl (patience_finished rfl hlive)
  · exact .inl (uses_onResent hphase next)
  · rw [flushHeld_eq]
    refine .inr ⟨?_, rfl, fun _ ↦ ?_⟩
    · simp only [patience, chances]
    · simp only [work, htimer, toNat_true, toNat_false]
      omega

/-! ## The end -/

def Finished (s : RetryBody) : Prop := s.phase = .finished

instance (s : RetryBody) : Decidable (Finished s) := inferInstanceAs (Decidable (_ = _))

/-- Every reader ends or fails: of no attempt is there always another read. -/
def ReadersEnd {C : RetryBody → RetryEvent → Prop} (c : Course (retryMachine o) C Finished) : Prop :=
  c.IdleEnds (fun s ↦ s.watch.attempt) Yields

/-- The client has got the end of the body, and every decline that was not retried. -/
def Told (s : RetryBody) : Prop :=
  s.ending ≠ none ∧ ∀ d ∈ s.watch.refused, d ∈ s.delivered.map Sent.bytes

theorem not_stuck (hlive : ¬Finished s) :
    ∃ e, ¬Yields e ∧ e ≠ .holdFires ∧ e ≠ .stallFires ∧ (retryStep o s e).isSome = true := by
  cases hphase : s.phase with
  | reading => exact ⟨.done, id, by simp, by simp, by simp [retryStep, hphase]⟩
  | scanning => exact ⟨.scan, id, by simp, by simp, by simp [retryStep, hphase]⟩
  | waiting declined => exact ⟨.waited, id, by simp, by simp, by simp [retryStep, hphase]⟩
  | resending why => exact ⟨.resent none, id, by simp, by simp, by simp [retryStep, hphase]⟩
  | finished => exact absurd hphase hlive

theorem finishes {C : RetryBody → RetryEvent → Prop} (c : Course (retryMachine o) C Finished)
    (hreaders : ReadersEnd c) :
    ∃ n, (retryMachine o).ReachableIf C (c.state n) ∧ Finished (c.state n) := by
  have horder : ∀ s, (retryMachine o).ReachableIf C s → Orderly s :=
    fun s h ↦ (orderly_always o C).reachable h
  refine c.ends (patience o) work (fun s e s' h hlive hstep ↦ ?_)
    (fun s e s' h hlive hstep hsame ↦ ?_) (fun s e s' h hlive hstep hidle hsame ↦ ?_) hreaders
  · rcases uses_step (horder s h) hlive hstep with hless | ⟨heq, -⟩
    · exact hless.le
    · exact heq.le
  · rcases uses_step (horder s h) hlive hstep with hless | ⟨-, hattempt, -⟩
    · exact absurd hsame hless.ne
    · exact hattempt
  · rcases uses_step (horder s h) hlive hstep with hless | ⟨-, -, hwork⟩
    · exact absurd hsame hless.ne
    · exact hwork hidle

/-- **The body ends**: in a course in which every reader ends, it is closed or errored at some point,
and nothing that was declined for good has been dropped. -/
theorem body_ends (o : RetryOptions) (c : Course (retryMachine o) (HandsOver o) Finished)
    (hreaders : ReadersEnd c) :
    (∃ n, (retryMachine o).ReachableIf (HandsOver o) (c.state n) ∧ Finished (c.state n)) ∧
      ∀ s, (retryMachine o).ReachableIf (HandsOver o) s → if Finished s then Told s else
        ∃ e, ¬Yields e ∧ e ≠ .holdFires ∧ e ≠ .stallFires ∧ (retryStep o s e).isSome = true := by
  refine ⟨finishes c hreaders, fun s h ↦ ?_⟩
  split_ifs with hfinished
  · exact ((kept_always o).reachable h).2.ended hfinished
  · exact not_stuck hfinished

/-! ## A decline at the very end -/

/-- A decline without the blank line. -/
def unterminated : Bytes :=
  Utf8.bytesOf (js "data: \x7b\"type\":\"error\",\"message\":\"overloaded\"\x7d")

/-- The loop has returned: nothing is closed, the decline is dropped, and nothing can happen any
more. -/
theorem decline_dropped_unclosed : ∃ s, (retryMachine noRung).Reachable s ∧ Finished s ∧
    s.ending = none ∧ s.watch.refused = [unterminated] ∧ s.delivered = [] ∧
      ∀ e, retryStep noRung s e = none := by
  refine ⟨(retryMachine noRung).play (.start noRung) [.chunk unterminated, .scan, .done],
    ⟨_, rfl, Machine.run_play (by decide +kernel)⟩, by decide +kernel, by decide +kernel,
    by decide +kernel, by decide +kernel, fun e ↦ ?_⟩
  have hphase : ((retryMachine noRung).play (.start noRung)
      [.chunk unterminated, .scan, .done]).phase = .finished := by decide +kernel
  have htimer : ((retryMachine noRung).play (.start noRung)
      [.chunk unterminated, .scan, .done]).flushTimer = false := by decide +kernel
  cases e <;> simp [retryStep, hphase, htimer]

/-- A decline that no rung is left for, as a whole frame. -/
def declinedWhole : List RetryEvent := [.chunk overloadedFrame, .scan, .scan, .done]

theorem body_ends_declined :
    ∃ s, (retryMachine noRung).ReachableIf (HandsOver noRung) s ∧ Finished s ∧ Told s ∧
      s.watch.refused = [overloadedFrame] :=
  have hadmits : (retryMachine noRung).admits (HandsOver noRung) (.start noRung)
      declinedWhole = true := by decide +kernel
  have hfinal : Finished ((retryMachine noRung).play (.start noRung) declinedWhole) := by
    decide +kernel
  have hends := (body_ends noRung (.ofPlay _ declinedWhole .done rfl hadmits hfinal)
    (Course.idleEnds_ofPlay rfl hadmits hfinal _ _)).2 _ ⟨_, rfl, Machine.run_play hadmits⟩
  ⟨_, ⟨_, rfl, Machine.run_play hadmits⟩, hfinal, by rwa [if_pos hfinal] at hends,
    by decide +kernel⟩

end RetryBody

end Sse
