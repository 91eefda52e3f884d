import OpenCodex.Messages.WellFormed

/-!
# Runs of the translation

What `Messages.WellFormed` says of one event is put together here to what holds of whole runs: for
every body, every split into chunks, every read error and every refusal of the budget.

Two things remain.  Where the budget refuses the `message_stop` that follows `message_delta`, the error
of the overflow follows `message_delta`.  And the error of a failed read is itself asked for: where that
is refused, nothing is written (`errorsWritten` keeps a run off that path).
-/

set_option autoImplicit false

open Option

namespace Messages

open Act (Ensures Keeps when forSome)

variable (E : MessagesEnv)

/-! ## Frames -/

variable {s : MessageStream}

theorem Delivered.granted (h : Delivered s) (g : Option ℕ) :
    Delivered { s with grants := g } := ⟨h.read, h.terminated, h.delivered⟩

theorem Sound.granted (h : Sound s) (g : Option ℕ) :
    Sound { s with grants := g } := h.imp (·.granted g) (·.granted g)

theorem CutOff.granted (h : CutOff s) (g : Option ℕ) :
    CutOff { s with grants := g } := h.imp (fun h ↦ ⟨h.read, h.delivered⟩) (·.granted g)

theorem Sound.cutOff (h : Sound s) : CutOff s := h.imp_left Live.midway

theorem CutOff.readable (h : CutOff s) : ∃ p, Progress.fresh.readAll false s.written = some p := by
  rcases h with h | h
  · obtain ⟨p, hread, -⟩ := h.read
    exact ⟨p, hread⟩
  · exact ⟨.over, h.read⟩

theorem ask_sound : Keeps Sound (fun _ ↦ CutOff) ask :=
  ask_ensures (fun _ g h ↦ h.granted g) fun _ h ↦ h.cutOff

theorem onLine_sound (read : JsString × JsString) (line : JsString) :
    Keeps Sound (fun _ ↦ CutOff) (onLine read line) := by
  unfold onLine
  split
  · exact Keeps.pure _
  · exact ask_sound.bind fun _ ↦ ask_sound.bind fun _ ↦ Keeps.pure _
  · exact Keeps.pure _

theorem onFrame_sound (room : Bool) (rawFrame : JsString) :
    Keeps Sound (fun _ ↦ CutOff) (onFrame E room rawFrame) := by
  refine ask_sound.bind fun _ ↦ ask_sound.bind fun _ ↦
    (Keeps.foldlM onLine_sound _ _).bind fun read ↦ Ensures.read fun s h ↦ ?_
  rcases h with h | h
  · rw [Act.when_pos h.terminated]
    cases frameEvent read with
    | none => exact .inl h
    | some e =>
      exact (handleFrame_sound E room e.1 e.2).mono (fun _ h ↦ h) (fun _ _ h ↦ h)
        (fun _ _ h ↦ .inl h) s h
  · rw [Act.when_neg (by rw [h.terminated]; exact Bool.noConfusion)]
    exact .inr h

theorem fail_sound (status : ℚ) (message : JsString) (upstreamDerived : Bool)
    (code : Option JsString) :
    Ensures Sound (fail E status message upstreamDerived code) (fun _ ↦ Delivered)
      fun _ ↦ CutOff := by
  intro s h
  rcases h with h | h
  · exact (fail_delivered E status message upstreamDerived code).mono (fun _ h ↦ h) (fun _ _ h ↦ h)
      (fun _ _ h ↦ .inl h) s h
  · have hnothing : fail E status message upstreamDerived code s = (.ok ⟨⟩, s) := by
      rw [fail, Act.bind_run, Act.get_run, Act.andThen_ok,
        Act.when_neg (by rw [h.terminated]; exact Bool.noConfusion), Act.pure_run]
    rw [hnothing]
    exact h

/-- **After an overflow** the stream ends at once. -/
theorem failOverflow_delivered (h : CutOff s) : Delivered (failOverflow E s) := by
  rcases h with h | h
  · rw [failOverflow, if_neg fun hboth ↦ absurd (h.delivered.symm.trans hboth.2) Bool.noConfusion]
    obtain ⟨p, hread, hp⟩ := h.read
    exact ⟨(readAll_concat hread _).trans (overflowError_read E hp), rfl, rfl⟩
  · rw [failOverflow, if_pos ⟨h.terminated, h.delivered⟩]
    exact h

/-! ## The timer -/

theorem Midway.pinged (h : Midway s) : Midway { s with written := s.written ++ [.ping] } :=
  let ⟨⟨p, hread, hp⟩, hd⟩ := h
  ⟨⟨p, readAll_ping hread, hp⟩, hd⟩

theorem Delivered.pinged (h : Delivered s) : Delivered { s with written := s.written ++ [.ping] } :=
  ⟨readAll_ping h.read, h.terminated, h.delivered⟩

variable {c : Prop}

theorem ping_after {P : MessageStream → Prop} (hg : ∀ s g, P s → P { s with grants := g })
    (hp : ∀ s : MessageStream, P s → P { s with written := s.written ++ [.ping] }) [Decidable c]
    (hs : P s) : P (when c (emit .ping) s).2 := by
  refine Keeps.after (Keeps.when fun _ ↦ ?_) hs
  exact Keeps.bind (ask_ensures hg fun _ h ↦ h) fun _ ↦ Keeps.modify hp

theorem ping_sound [Decidable c] (hs : Sound s) : Sound (when c (emit .ping) s).2 :=
  ping_after (fun _ g h ↦ h.granted g) (fun _ h ↦ h.imp Live.pinged Delivered.pinged) hs

theorem ping_cutOff [Decidable c] (hs : CutOff s) : CutOff (when c (emit .ping) s).2 :=
  ping_after (fun _ g h ↦ h.granted g) (fun _ h ↦ h.imp Midway.pinged Delivered.pinged) hs

/-! ## The invariant -/

/-- What holds of the stream in each phase. -/
def Translating (t : Translation) : Prop :=
  match t.phase with
  | .reading => Sound t.stream
  | .scanning => Sound t.stream
  | .cancelling => CutOff t.stream
  | .over => Delivered t.stream

/-- The error of a failed read is granted what it asks for. -/
def errorsWritten (t : Translation) : TranslationEvent → Bool
  | .readError grants message => (fail E 500 message false none { t.stream with grants := grants }).1.isOk
  | _ => true

theorem runWith_translating {t : Translation} {grants : Option ℕ} {code : Code PUnit}
    {next : TranslationPhase} {Q : PUnit → MessageStream → Prop}
    (hcode : Ensures Sound code Q fun _ ↦ CutOff) (h : Sound t.stream)
    (hnext : ∀ s, Q ⟨⟩ s → Translating { t with phase := next, stream := s }) :
    Translating (runWith t grants code next) := by
  have hr := hcode _ (h.granted grants)
  rw [runWith]
  cases hrun : code { t.stream with grants := grants } with
  | mk r s =>
    rw [hrun] at hr
    cases r with
    | ok a => exact hnext s hr
    | error e => exact hr

theorem translating_step {t t' : Translation} {e : TranslationEvent} (h : Translating t)
    (hc : errorsWritten E t e = true) (hs : translationStep E t e = some t') : Translating t' := by
  cases e with
  | chunk grants value =>
    cases hphase : t.phase with
    | reading =>
      rw [Translating, hphase] at h
      simp only [translationStep, hphase, some.injEq] at hs
      subst hs
      exact runWith_translating (ask_sound.bind fun _ ↦ ask_sound) h fun _ h ↦ h
    | _ => simp [translationStep, hphase] at hs
  | scan grants room =>
    cases hphase : t.phase with
    | scanning =>
      rw [Translating, hphase] at h
      simp only [translationStep, hphase] at hs
      split at hs
      · obtain rfl := some.inj hs
        exact h
      · obtain rfl := some.inj hs
        exact runWith_translating (onFrame_sound E room _) h fun _ h ↦ h
    | _ => simp [translationStep, hphase] at hs
  | done grants =>
    cases hphase : t.phase with
    | reading =>
      rw [Translating, hphase] at h
      simp only [translationStep, hphase, some.injEq] at hs
      subst hs
      exact runWith_translating (fail_sound E 502 truncated true none) h fun _ h ↦ h
    | _ => simp [translationStep, hphase] at hs
  | readError grants message =>
    cases hphase : t.phase with
    | reading =>
      rw [Translating, hphase] at h
      simp only [translationStep, hphase, some.injEq] at hs
      subst hs
      have hr := fail_sound E 500 message false none _ (h.granted grants)
      rw [errorsWritten] at hc
      cases hrun : fail E 500 message false none { t.stream with grants := grants } with
      | mk r s =>
        rw [hrun] at hr hc
        cases r with
        | ok a => exact hr
        | error e => exact absurd hc Bool.noConfusion
    | _ => simp [translationStep, hphase] at hs
  | readOverflow =>
    cases hphase : t.phase with
    | reading =>
      rw [Translating, hphase] at h
      simp only [translationStep, hphase, some.injEq] at hs
      subst hs
      exact h.cutOff
    | _ => simp [translationStep, hphase] at hs
  | cancelled =>
    cases hphase : t.phase with
    | cancelling =>
      rw [Translating, hphase] at h
      simp only [translationStep, hphase, some.injEq] at hs
      subst hs
      exact failOverflow_delivered E h
    | _ => simp [translationStep, hphase] at hs
  | ping grants room =>
    obtain ⟨phase, decoder, buffer, stream⟩ := t
    cases phase with
    | reading =>
      obtain rfl := some.inj hs
      exact ping_sound (Sound.granted h grants)
    | cancelling =>
      obtain rfl := some.inj hs
      exact ping_cutOff (CutOff.granted h grants)
    | scanning => simp [translationStep] at hs
    | «over» => simp [translationStep] at hs

theorem translating_inductive :
    (responsesSseToAnthropicSse E).Inductive (fun t e ↦ errorsWritten E t e = true) Translating where
  init := by
    rintro t rfl
    exact .inl (.inl ⟨rfl, rfl, rfl, rfl, rfl, rfl⟩)
  step _ _ _ h hc hs := translating_step E h hc hs

/-- **The stream is well formed**, for any body, any chunks, any read error and any refusals of the
budget: at all times what was written can be read in order, and when the controller is closed the end
has been reached. -/
theorem written_well_formed {t : Translation}
    (h : (responsesSseToAnthropicSse E).ReachableIf (fun t e ↦ errorsWritten E t e = true) t) :
    ∃ p, Progress.fresh.readAll false t.stream.written = some p ∧ (t.phase = .over → p = .over) := by
  have ht := (translating_inductive E).reachable h
  obtain ⟨phase, decoder, buffer, stream⟩ := t
  cases phase with
  | reading => exact (Sound.cutOff ht).readable.imp fun p hp ↦ ⟨hp, TranslationPhase.noConfusion⟩
  | scanning => exact (Sound.cutOff ht).readable.imp fun p hp ↦ ⟨hp, TranslationPhase.noConfusion⟩
  | cancelling => exact (CutOff.readable ht).imp fun p hp ↦ ⟨hp, TranslationPhase.noConfusion⟩
  | «over» => exact ⟨.over, Delivered.read ht, fun _ ↦ rfl⟩

/-! ## Runs -/

/-- Surroundings in which nothing is translated further. -/
def plainEnv : MessagesEnv where
  model := js "m"
  inputTokenFloor := none
  nativeReasoningTagFor _ := none
  uuid n := (Json.num n).stringify
  reasoningIdentityDigest s := s
  base64 bytes := bytes.map (·.toUInt16)
  unbase64 text := text.map (·.toUInt8)
  claudePromptTooLongMessage _ := js "prompt is too long"
  isThroughputLimitText _ := false
  httpStatusFromTerminalError _ _ _ := 502

/-- A text and its end. -/
def shortBody : List UInt8 :=
  Utf8.bytesOf (js "data: \x7b\"type\":\"response.output_text.delta\",\"delta\":\"a\"\x7d\n\n" ++
    js "data: \x7b\"type\":\"response.completed\"\x7d\n\n")

/-- A short run; its last frame is given these grants. -/
def shortRun (grants : Option ℕ) (rest : List TranslationEvent) : List TranslationEvent :=
  [.ping none true, .chunk none shortBody, .scan none true, .scan grants true] ++ rest

/-- The budget refuses `message_stop`: the error follows `message_delta`. -/
theorem message_stop_refused :
    ∃ t, (responsesSseToAnthropicSse plainEnv).Reachable t ∧ t.phase = .over ∧
      t.stream.written.map MessagesEvent.name = [js "ping", js "message_start", js "ping",
        js "content_block_start", js "content_block_delta", js "content_block_stop",
        js "message_delta", js "error"] ∧ Progress.fresh.readAll true t.stream.written = none :=
  ⟨(responsesSseToAnthropicSse plainEnv).play {} (shortRun (some 6) [.cancelled]),
    ⟨{}, rfl, Machine.run_play (by decide +kernel)⟩, by decide +kernel, by decide +kernel,
    by decide +kernel⟩

/-- A run to the end, and one whose first read fails. -/
theorem written_well_formed_runs : (∃ t : Translation, t.phase = .over ∧
      ∃ p, Progress.fresh.readAll false t.stream.written = some p ∧ (t.phase = .over → p = .over)) ∧
    ∃ t : Translation, t.phase = .over ∧ t.stream.terminalDelivered = true ∧
      ∃ p, Progress.fresh.readAll false t.stream.written = some p ∧ (t.phase = .over → p = .over) :=
  ⟨⟨(responsesSseToAnthropicSse plainEnv).play {} (shortRun none [.scan none true, .done none]),
      by decide +kernel, written_well_formed plainEnv ⟨{}, rfl, Machine.run_play (by decide +kernel)⟩⟩,
    ⟨(responsesSseToAnthropicSse plainEnv).play {}
        [.ping (some 0) true, .readError none (js "connection reset")],
      by decide +kernel, by decide +kernel,
      written_well_formed plainEnv ⟨{}, rfl, Machine.run_play (by decide +kernel)⟩⟩⟩

end Messages
