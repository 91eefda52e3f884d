import OpenCodex.Sse.Preflight

/-!
# The preflight decides by events, but for one order of frames

What the preflight should say depends on the events of a body alone: the first one that is no control
event decides.  `Weight` is what an event contributes, and `verdict` reads the first deciding weight
off a list of readings.

The code looks at its flags once per chunk.  Two things make that harmless: what commits output stays
committed, and nothing is scanned any more once a terminal was reported.  A bare error event is
neither.  It does not end the inspection, so an unreadable payload after it in the same chunk — the
`[DONE]` sentinel is one — still commits output, and the failure is handed on as an accepted answer.
`Swallowed` is that order of frames, and it is the only way the verdict goes wrong.
-/

set_option autoImplicit false

open List Option

namespace Sse

open SseScanner (deliveries deliveries_flatten)

variable (E : SseEnv) (F : FailureRules)

/-! ## Readings -/

/-- What the inspector makes of a block with a payload. -/
inductive Reading
  /-- A payload that is no JSON. -/
  | unread
  | event (payload : Json)

/-- The reading of a payload; an empty payload has none. -/
def readingOfPayload : Option JsString → Option Reading
  | none => none
  | some payload =>
    if payload = [] then none
    else
      match parseSsePayload payload with
      | some v => some (.event v)
      | none => some .unread

def readingOf (block : Bytes) : Option Reading := readingOfPayload (sseDataPayload (E.decode block))

/-- The reading of a block that no delimiter closed. -/
def readingOfTail (tail : Bytes) : Option Reading :=
  if tail.length = 0 then none
  else readingOfPayload
    (if Bridge.trim (E.decode tail) = [] then none else sseDataPayload (E.decode tail))

/-- The readings of some blocks. -/
def readings (blocks : List Bytes) : List Reading := blocks.filterMap (readingOf E)

/-- The terminal status of a reading. -/
def Reading.status : Reading → Option TerminalStatus
  | unread => none
  | event v => terminalStatusFromParsed E (some v)

/-- What a reading does to an inspection that has not reported a terminal. -/
def Reading.apply {τ : Type} (H : InspectorHandlers τ) (r : Reading) (s : Inspection τ) :
    Inspection τ :=
  match r with
  | unread => { s with caller := H.onOpaquePayload [] s.caller }
  | event v =>
    let s := { s with caller := H.onParsedPayload v s.caller }
    match terminalStatusFromParsed E (some v) with
    | none => s
    | some status =>
      { s with sawTerminal := true, reported := true, caller := H.onTerminal status s.caller }

/-- A control event: it commits nothing, fails nothing and ends nothing. -/
def Control (r : Reading) : Prop :=
  ∃ v, r = .event v ∧ comboStreamPayloadCommitsOutput v = false ∧
    retryableZeroOutputTerminal F v = false ∧ terminalStatusFromParsed E (some v) = none

/-- A failure that is worth another target: `response.failed`, an incomplete answer without output,
or an error event of that kind. -/
def Fails (r : Reading) : Prop := ∃ v, r = .event v ∧ retryableZeroOutputTerminal F v = true

/-! ## Weights -/

/-- What a reading contributes to the verdict. -/
inductive Weight
  | control
  /-- It commits output. -/
  | commits
  /-- It ends the turn, and the answer stands. -/
  | ends
  /-- It ends the turn with a failure worth another target. -/
  | fails
  /-- It is a failure worth another target, and no terminal. -/
  | errs
  deriving DecidableEq

def weigh : Reading → Weight
  | .unread => .commits
  | .event v =>
    if retryableZeroOutputTerminal F v then
      if (terminalStatusFromParsed E (some v)).isSome then .fails else .errs
    else if comboStreamPayloadCommitsOutput v then .commits
    else if (terminalStatusFromParsed E (some v)).isSome then .ends
    else .control

/-- The verdict of the first deciding reading; nothing where all are control events. -/
def verdict : List Reading → Option PreflightKind
  | [] => none
  | r :: rs =>
    match weigh E F r with
    | .control => verdict rs
    | .commits | .ends => some .accepted
    | .fails | .errs => some .failed

/-- An unreadable payload comes before any terminal. -/
def swallows : List Reading → Bool
  | [] => false
  | .unread :: _ => true
  | .event v :: rs => (terminalStatusFromParsed E (some v)).isNone && swallows rs

/-- What the code says after the readings of one chunk. -/
def chunkVerdict : List Reading → Option PreflightKind
  | [] => none
  | r :: rs =>
    match weigh E F r with
    | .control => chunkVerdict rs
    | .commits | .ends => some .accepted
    | .fails => some .failed
    | .errs => some (if swallows E rs then .accepted else .failed)

variable {E F}

variable {v : Json}

theorem isRecord_of_typeOf {t : JsString} (h : typeOf (some v) = some t) :
    v.members?.isNone = false := by
  rw [typeOf, asJsonRecord] at h
  cases hm : v.members? with
  | none => simp [Option.filter, hm, stringOf] at h
  | some ms => rfl

/-- An event that is a failure worth another target is an error event, or ends the turn. -/
theorem type_of_retryable (h : retryableZeroOutputTerminal F v = true) :
    typeOf (some v) = some (js "error") ∨ typeOf (some v) = some (js "response.failed") ∨
      typeOf (some v) = some (js "response.incomplete") := by
  rw [retryableZeroOutputTerminal] at h
  split at h
  · nomatch h
  split at h
  · rename_i hbare
    refine .inl ?_
    by_contra hne
    rw [bareErrorIsRetryable, bareErrorStatus, if_pos hne] at hbare
    nomatch hbare
  split at h
  · rename_i hfailed
    exact .inr (.inl hfailed)
  split at h
  · nomatch h
  · rename_i hincomplete
    exact .inr (.inr (not_not.mp hincomplete))

/-- Such an event commits no output, an error event apart, which is matched as a failure. -/
theorem commits_of_retryable (h : retryableZeroOutputTerminal F v = true)
    (herror : isErrorEvent v = false) : comboStreamPayloadCommitsOutput v = false := by
  rcases type_of_retryable h with htype | htype | htype
  · rw [isErrorEvent, htype] at herror
    nomatch herror
  · rw [comboStreamPayloadCommitsOutput, isRecord_of_typeOf htype, htype]
    simp only [Bool.false_eq_true, if_false]
    rw [if_neg (fun hc ↦ absurd hc.1 (by decide))]
    decide
  · rw [comboStreamPayloadCommitsOutput, isRecord_of_typeOf htype, htype]
    simp only [Bool.false_eq_true, if_false]
    rw [if_neg (fun hc ↦ absurd hc.1 (by decide))]
    decide

theorem status_of_retryable (h : retryableZeroOutputTerminal F v = true) :
    (∃ status, terminalStatusFromParsed E (some v) = some status ∧
      (status = .failed ∨ status = .incomplete)) ∨
    (isErrorEvent v = true ∧ terminalStatusFromParsed E (some v) = none) := by
  rcases type_of_retryable h with htype | htype | htype
  · rw [terminalStatusFromParsed, htype, isErrorEvent, htype]
    rw [if_neg (by decide), if_neg (by decide), if_neg (by decide), if_pos rfl]
    split
    · exact .inl ⟨_, rfl, .inl rfl⟩
    · exact .inr ⟨by decide, rfl⟩
  · rw [terminalStatusFromParsed, htype, if_neg (by decide), if_pos rfl]
    exact .inl ⟨_, rfl, .inl rfl⟩
  · rw [terminalStatusFromParsed, htype, if_neg (by decide), if_neg (by decide), if_pos rfl]
    refine .inl ⟨_, rfl, ?_⟩
    split
    · exact .inl rfl
    · exact .inr rfl

/-! ## One chunk -/

variable (E F)

/-- The callbacks of the preflight with the default classifier. -/
abbrev defaultHandlers : InspectorHandlers PreflightFlags :=
  preflightHandlers (retryableZeroOutputTerminal F)

/-- What a reading does to the preflight's inspection. -/
def react (s : Inspection PreflightFlags) (r : Reading) : Inspection PreflightFlags :=
  if s.reported then s else r.apply E (defaultHandlers F) s

/-- The beginning of a stream: nothing is decided. -/
def Open (s : Inspection PreflightFlags) : Prop :=
  s.reported = false ∧ s.caller.outputCommitted = false ∧ s.caller.terminalStatus = none ∧
    s.caller.retryableTerminalPayload = none

/-- The flags say that the answer is handed back. -/
def SaysAccepted (s : Inspection PreflightFlags) : Prop :=
  s.caller.outputCommitted = true ∨
    (s.caller.terminalStatus.isSome = true ∧ s.caller.retryableTerminalPayload = none)

/-- The flags say that the request can go to another target. -/
def SaysFailed (s : Inspection PreflightFlags) : Prop :=
  s.caller.outputCommitted = false ∧ ∃ v, s.caller.retryableTerminalPayload = some v ∧
    (s.caller.terminalStatus = some .failed ∨ s.caller.terminalStatus = some .incomplete ∨
      isErrorEvent v = true)

variable {E F} {s : Inspection PreflightFlags}

theorem foldl_react_reported (h : s.reported = true) (rs : List Reading) :
    rs.foldl (react E F) s = s := by
  induction rs with
  | nil => rfl
  | cons r rs ih => rw [foldl_cons, react, if_pos h, ih]

theorem react_committed (h : s.caller.outputCommitted = true) (r : Reading) :
    (react E F s r).caller.outputCommitted = true := by
  rw [react]
  split
  · exact h
  cases r with
  | unread => rfl
  | event v =>
    have hsame : (defaultHandlers F).onParsedPayload v s.caller = s.caller := if_pos (.inr (.inl h))
    simp only [Reading.apply, hsame]
    split
    · exact h
    · exact h

theorem foldl_react_committed (h : s.caller.outputCommitted = true) (rs : List Reading) :
    (rs.foldl (react E F) s).caller.outputCommitted = true := by
  induction rs generalizing s with
  | nil => exact h
  | cons r rs ih => exact ih (react_committed h r)

/-- After an error event the flags wait for a terminal: an unreadable payload before it commits
output after all, and nothing else changes the verdict. -/
theorem foldl_react_errs (hrep : s.reported = false) (hcommit : s.caller.outputCommitted = false)
    (hretry : s.caller.retryableTerminalPayload = some v) (herror : isErrorEvent v = true)
    (rs : List Reading) : if swallows E rs then SaysAccepted (rs.foldl (react E F) s)
    else SaysFailed (rs.foldl (react E F) s) := by
  induction rs generalizing s with
  | nil => exact ⟨hcommit, v, hretry, .inr (.inr herror)⟩
  | cons r rs ih =>
    rw [foldl_cons]
    have hstep : react E F s r = r.apply E (defaultHandlers F) s := by
      rw [react, if_neg (by rw [hrep]; simp)]
    cases r with
    | unread =>
      rw [swallows, if_pos rfl]
      exact .inl (foldl_react_committed (by rw [hstep]; rfl) rs)
    | event w =>
      have hsame : (defaultHandlers F).onParsedPayload w s.caller = s.caller :=
        if_pos (.inr (.inr (by rw [hretry]; rfl)))
      simp only [Reading.apply, hsame] at hstep
      rw [swallows]
      cases hstatus : terminalStatusFromParsed E (some w) with
      | none =>
        rw [hstatus] at hstep
        rw [hstep, isNone_none, Bool.true_and]
        exact ih hrep hcommit hretry
      | some status =>
        rw [hstatus] at hstep
        rw [isNone_some, Bool.false_and, if_neg (by simp), hstep, foldl_react_reported rfl]
        exact ⟨hcommit, v, hretry, .inr (.inr herror)⟩

theorem onParsedPayload_open {c : PreflightFlags} (hstatus : c.terminalStatus = none)
    (hcommit : c.outputCommitted = false) (hretry : c.retryableTerminalPayload = none) (v : Json) :
    let c' := PreflightFlags.onParsedPayload (retryableZeroOutputTerminal F) v c
    c'.terminalStatus = none ∧
    c'.outputCommitted = (comboStreamPayloadCommitsOutput v &&
      !(retryableZeroOutputTerminal F v && isErrorEvent v)) ∧
    c'.retryableTerminalPayload = if retryableZeroOutputTerminal F v then some v else none := by
  have hrecord : v.members?.isNone = true → retryableZeroOutputTerminal F v = false := by
    intro h
    rw [retryableZeroOutputTerminal, if_pos h]
  rw [PreflightFlags.onParsedPayload, if_neg (by simp [hstatus, hcommit, hretry])]
  generalize hcreated : (if typeOf (some v) = some (js "response.created") then
    { c with responseCreated := true } else c) = c₁
  have hc₁ : c₁.terminalStatus = none ∧ c₁.outputCommitted = false ∧
      c₁.retryableTerminalPayload = none := by
    rw [← hcreated]
    split
    · exact ⟨hstatus, hcommit, hretry⟩
    · exact ⟨hstatus, hcommit, hretry⟩
  obtain ⟨hstatus₁, hcommit₁, hretry₁⟩ := hc₁
  cases hnone : v.members?.isNone with
  | true =>
    simp only [hrecord hnone, Bool.false_and, Bool.not_false, Bool.and_true, if_true]
    cases comboStreamPayloadCommitsOutput v <;> simp [hstatus₁, hcommit₁, hretry₁]
  | false =>
    cases retryableZeroOutputTerminal F v <;> cases comboStreamPayloadCommitsOutput v <;>
      cases isErrorEvent v <;> simp [hstatus₁, hcommit₁, hretry₁]

/-- **One chunk** from an open state: the flags say what `chunkVerdict` says of its readings. -/
theorem foldl_react_open (h : Open s) (rs : List Reading) :
    (chunkVerdict E F rs = none ∧ Open (rs.foldl (react E F) s)) ∨
    (chunkVerdict E F rs = some .accepted ∧ SaysAccepted (rs.foldl (react E F) s)) ∨
    (chunkVerdict E F rs = some .failed ∧ SaysFailed (rs.foldl (react E F) s)) := by
  induction rs generalizing s with
  | nil => exact .inl ⟨rfl, h⟩
  | cons r rs ih =>
    obtain ⟨hrep, hcommit, hstatus, hretry⟩ := h
    have hstep : react E F s r = r.apply E (defaultHandlers F) s := by
      rw [react, if_neg (by rw [hrep]; simp)]
    rw [foldl_cons]
    cases r with
    | unread =>
      refine .inr (.inl ⟨rfl, .inl ?_⟩)
      rw [hstep]
      exact foldl_react_committed rfl rs
    | event v =>
      obtain ⟨hs', hc', hr'⟩ := onParsedPayload_open (F := F) hstatus hcommit hretry v
      generalize hcaller : PreflightFlags.onParsedPayload (retryableZeroOutputTerminal F) v s.caller
        = c' at hs' hc' hr'
      have hsame : (defaultHandlers F).onParsedPayload v s.caller = c' := hcaller
      simp only [Reading.apply, hsame] at hstep
      cases hr : retryableZeroOutputTerminal F v with
      | true =>
        have hcommits : c'.outputCommitted = false := by
          rw [hc', hr]
          cases herror : isErrorEvent v with
          | true => simp
          | false => rw [commits_of_retryable hr herror]; rfl
        rw [hr, if_pos rfl] at hr'
        rcases status_of_retryable (E := E) hr with ⟨status, hst, hkind⟩ | ⟨herror, hst⟩
        · -- a terminal is reported with it
          rw [hst] at hstep
          refine .inr (.inr ⟨?_, ?_⟩)
          · simp only [chunkVerdict, weigh, hr, hst, if_true, isSome_some]
          · rw [hstep, foldl_react_reported rfl]
            refine ⟨hcommits, v, hr', ?_⟩
            rcases hkind with rfl | rfl
            · exact .inl rfl
            · exact .inr (.inl rfl)
        · -- the inspection goes on
          rw [hst] at hstep
          have hrest := foldl_react_errs (E := E) (F := F)
            (s := { s with caller := c' }) hrep hcommits hr' herror rs
          have hverdict : chunkVerdict E F (.event v :: rs) =
              some (if swallows E rs then .accepted else .failed) := by
            simp only [chunkVerdict, weigh, hr, hst, if_true, isSome_none,
              Bool.false_eq_true, if_false]
          rw [hverdict, hstep]
          cases hsw : swallows E rs with
          | true =>
            rw [hsw, if_pos rfl] at hrest
            exact .inr (.inl ⟨rfl, hrest⟩)
          | false =>
            rw [hsw, if_neg (by simp)] at hrest
            exact .inr (.inr ⟨rfl, hrest⟩)
      | false =>
        rw [hr, if_neg (by simp)] at hr'
        rw [hr, Bool.false_and, Bool.not_false, Bool.and_true] at hc'
        cases hcommits : comboStreamPayloadCommitsOutput v with
        | true =>
          rw [hcommits] at hc'
          refine .inr (.inl ⟨?_, .inl (foldl_react_committed ?_ rs)⟩)
          · simp only [chunkVerdict, weigh, hr, hcommits, Bool.false_eq_true, if_false, if_true]
          · rw [hstep]
            split
            · exact hc'
            · exact hc'
        | false =>
          rw [hcommits] at hc'
          cases hst : terminalStatusFromParsed E (some v) with
          | some status =>
            rw [hst] at hstep
            refine .inr (.inl ⟨?_, .inr ?_⟩)
            · simp only [chunkVerdict, weigh, hr, hcommits, hst, Bool.false_eq_true, if_false,
                isSome_some, if_true]
            · rw [hstep, foldl_react_reported rfl]
              exact ⟨rfl, hr'⟩
          | none =>
            rw [hst] at hstep
            have hweigh : chunkVerdict E F (.event v :: rs) = chunkVerdict E F rs := by
              simp only [chunkVerdict, weigh, hr, hcommits, hst, Bool.false_eq_true, if_false,
                isSome_none]
            rw [hweigh, hstep]
            exact ih ⟨hrep, hc', hs', hr'⟩

/-! ## The inspector, reading by reading -/

theorem scanPayload_react (payload : Option JsString) (hrep : s.reported = false) :
    scanPayload E (defaultHandlers F) payload s =
      (readingOfPayload payload).toList.foldl (react E F) s := by
  cases payload with
  | none => rfl
  | some payload =>
    rw [scanPayload, readingOfPayload]
    by_cases hnil : payload = []
    · rw [if_pos hnil, if_pos hnil]
      rfl
    · rw [if_neg hnil, if_neg hnil]
      cases hparse : parseSsePayload payload with
      | none =>
        simp only [toList_some, foldl_cons, foldl_nil, react, hrep,
          Bool.false_eq_true, if_false, Reading.apply]
        rfl
      | some v =>
        have hreact : [Reading.event v].foldl (react E F) s =
            (Reading.event v).apply E (defaultHandlers F) s := by
          simp [react, hrep]
        change _ = [Reading.event v].foldl (react E F) s
        rw [hreact, Reading.apply]
        cases hstatus : terminalStatusFromParsed E (some v) with
        | none => simp [hrep, hstatus]
        | some status => simp [hrep, hstatus]

theorem scanFrame_react (frame : Bytes) (s : Inspection PreflightFlags) :
    scanFrame E (defaultHandlers F) frame s = (readingOf E frame).toList.foldl (react E F) s := by
  rw [scanFrame]
  cases hrep : s.reported with
  | true => rw [if_pos rfl, foldl_react_reported hrep]
  | false => rw [if_neg (by simp), scanPayload_react _ hrep, readingOf]

theorem scanTail_react (tail : Bytes) (s : Inspection PreflightFlags) :
    (if 0 < tail.length then scanTail E (defaultHandlers F) tail s else s) =
      (readingOfTail E tail).toList.foldl (react E F) s := by
  rw [readingOfTail]
  split
  · rename_i hpos
    rw [if_neg (by omega), scanTail]
    cases hrep : s.reported with
    | true => rw [if_pos rfl, foldl_react_reported hrep]
    | false => rw [if_neg (by simp), scanPayload_react _ hrep]
  · rename_i hnil
    rw [if_pos (by omega)]
    rfl

theorem foldl_visit_react {blocks : List Bytes}
    (hfit : ∀ block ∈ blocks, block.length ≤ maxInspectionSseFrameBytes)
    (s : Inspection PreflightFlags) :
    blocks.foldl (SseScanner.visit (scanFrame E (defaultHandlers F))) s =
      (readings E blocks).foldl (react E F) s := by
  induction blocks generalizing s with
  | nil => rfl
  | cons block blocks ih =>
    have hblock := hfit block (mem_cons_self ..)
    rw [foldl_cons, SseScanner.visit, if_pos hblock, scanFrame_react,
      ih fun b hb ↦ hfit b (mem_cons_of_mem _ hb), readings, readings, filterMap_cons]
    cases readingOf E block with
    | none => rfl
    | some r => rfl

/-! ## The loop -/

/-- The readings of the chunks of a body, where `read` came before. -/
def chunkReadings (E : SseEnv) (read : Bytes) (chunks : List Bytes) : List (List Reading) :=
  (deliveries read chunks).map (readings E)

/-- What becomes of a body that decides nothing. -/
def undecidedKind (o : PreflightOptions) : BodyEnd → PreflightKind
  | .done => .accepted
  | .errored => if o.replayReadErrors then .readError else .thrown

/-- The reading of what no delimiter closed, which counts where the body ends without an error. -/
def tailReading (E : SseEnv) (ending : BodyEnd) (tail : Bytes) : List Reading :=
  match ending with
  | .done => (readingOfTail E tail).toList
  | .errored => []

/-- The kind the code arrives at, chunk by chunk. -/
def outcome (E : SseEnv) (F : FailureRules) (o : PreflightOptions) (ending : BodyEnd)
    (tail : List Reading) : List (List Reading) → PreflightKind
  | [] => (chunkVerdict E F tail).getD (undecidedKind o ending)
  | g :: gs => (chunkVerdict E F g).getD (outcome E F o ending tail gs)

variable {p : Preflight}

theorem settle_accepted (h : SaysAccepted p.inspector.seen) (done : Bool) :
    settle p done = .accepted := by
  rw [settle]
  rcases h with hcommit | ⟨hstatus, hretry⟩
  · cases hretry : p.inspector.seen.caller.retryableTerminalPayload with
    | none => simp [hcommit]
    | some v => simp [hcommit]
  · simp [hretry, hstatus]

theorem settle_failed (h : SaysFailed p.inspector.seen) (done : Bool) :
    ∃ v, settle p done = .failed v := by
  obtain ⟨hcommit, v, hretry, hkind⟩ := h
  refine ⟨v, ?_⟩
  rw [settle]
  rcases hkind with hkind | hkind | hkind <;> simp [hretry, hcommit, hkind]

theorem settle_open (h : Open p.inspector.seen) (done : Bool)
    (hbytes : p.bufferedBytes < comboStreamPreflightMaxBytes)
    (hchunks : p.buffered.length < comboStreamPreflightMaxChunks) :
    settle p done = if done then .accepted else .undecided := by
  obtain ⟨-, hcommit, hstatus, hretry⟩ := h
  rw [settle]
  simp only [hretry, hstatus, hcommit, isSome_none, Bool.or_false,
    decide_eq_false (Nat.not_le.mpr hbytes), decide_eq_false (Nat.not_le.mpr hchunks)]

/-- **The loop** says what the first chunk that decides says. -/
theorem preflightReads_kind (o : PreflightOptions) (ending : BodyEnd) {read : Bytes}
    {seen₀ : Inspection PreflightFlags} (chunks : List Bytes)
    (hwatched : SseScanner.Watched (scanFrame E (defaultHandlers F)) seen₀ read p.inspector)
    (hopen : Open p.inspector.seen) (hread : p.bufferedBytes = read.length)
    (hbytes : (read ++ chunks.flatten).length < comboStreamPreflightMaxBytes)
    (hchunks : p.buffered.length + chunks.length < comboStreamPreflightMaxChunks) :
    (preflightReads E (retryableZeroOutputTerminal F) o ending chunks p).kind =
      outcome E F o ending (tailReading E ending (blocksOf (read ++ chunks.flatten)).2)
        (chunkReadings E read chunks) := by
  induction chunks generalizing p read with
  | nil =>
    rw [flatten_nil, append_nil] at hbytes ⊢
    rw [chunkReadings, deliveries, map_nil, outcome]
    cases ending with
    | errored =>
      simp only [preflightReads, tailReading, chunkVerdict, getD_none, undecidedKind]
      split <;> rfl
    | done =>
      rw [preflightReads]
      have hfinish : (p.finish E (retryableZeroOutputTerminal F)).inspector.seen =
          (tailReading E .done (blocksOf read).2).foldl (react E F) p.inspector.seen := by
        rw [Preflight.finish, SseScanner.finish_watched hwatched, ← hwatched.seen_eq,
          SseScanner.visitTail, tailReading, ← scanTail_react]
        have hfit := (length_blocksOf_le read).2
        have hmax : maxInspectionSseFrameBytes = comboStreamPreflightMaxBytes := rfl
        simp only [show (blocksOf read).2.length ≤ maxInspectionSseFrameBytes by omega, and_true]
      rcases foldl_react_open (E := E) (F := F) hopen (tailReading E .done (blocksOf read).2) with
        ⟨hv, hs⟩ | ⟨hv, hs⟩ | ⟨hv, hs⟩
      all_goals rw [← hfinish] at hs; rw [hv]
      · rw [length_nil, Nat.add_zero] at hchunks
        rw [← hread] at hbytes
        rw [settle_open hs true hbytes hchunks]
        rfl
      · rw [settle_accepted hs]
        rfl
      · obtain ⟨v, hv⟩ := settle_failed hs true
        rw [hv]
        rfl
  | cons chunk chunks ih =>
    rw [flatten_cons, ← append_assoc] at hbytes ⊢
    rw [length_cons] at hchunks
    have hlen := hbytes
    rw [length_append, length_append] at hlen
    have hseen : (p.take E (retryableZeroOutputTerminal F) chunk).inspector.seen =
        (readings E ((blocksOf (read ++ chunk)).1.drop (blocksOf read).1.length)).foldl
          (react E F) p.inspector.seen := by
      rw [Preflight.take, hwatched.feed_seen, foldl_visit_react]
      intro block hblock
      have hfit := (length_blocksOf_le (read ++ chunk)).1 block (mem_of_mem_drop hblock)
      have hmax : maxInspectionSseFrameBytes = comboStreamPreflightMaxBytes := rfl
      rw [length_append] at hfit
      omega
    rw [preflightReads, if_neg (by omega), chunkReadings, deliveries, map_cons, outcome]
    rcases foldl_react_open (E := E) (F := F) hopen
      (readings E ((blocksOf (read ++ chunk)).1.drop (blocksOf read).1.length)) with
      ⟨hv, hs⟩ | ⟨hv, hs⟩ | ⟨hv, hs⟩
    all_goals rw [← hseen] at hs; rw [hv]
    · have htake : (p.take E (retryableZeroOutputTerminal F) chunk).bufferedBytes =
          (read ++ chunk).length := by
        rw [Preflight.take, hread, length_append]
      have hcount : (p.take E (retryableZeroOutputTerminal F) chunk).buffered.length =
          p.buffered.length + 1 := by
        rw [Preflight.take, length_append, length_singleton]
      simp only [settle_open hs false (by rw [htake, length_append]; omega) (by omega),
        Bool.false_eq_true, if_false, getD_none]
      exact ih (SseScanner.feed_watched hwatched chunk) hs htake hbytes (by omega)
    · simp only [settle_accepted hs, getD_some]
      rfl
    · obtain ⟨v, hv⟩ := settle_failed hs false
      simp only [hv, getD_some]
      rfl

variable {body : Option Body}

theorem preflightReads_body (retryableTerminal : Json → Bool) (o : PreflightOptions)
    (ending : BodyEnd) (chunks : List Bytes) (p : Preflight)
    (h : preflightReads E retryableTerminal o ending chunks p = .accepted body) :
    body = some ⟨p.buffered ++ chunks, ending⟩ := by
  induction chunks generalizing p with
  | nil =>
    cases ending with
    | errored =>
      rw [preflightReads] at h
      split at h <;> nomatch h
    | done =>
      rw [preflightReads] at h
      split at h
      · nomatch h
      · exact (PreflightResult.accepted.inj h).symm
  | cons chunk chunks ih =>
    rw [preflightReads] at h
    split at h
    · have hbody := (PreflightResult.accepted.inj h).symm
      rw [replayBufferedResponse, append_assoc] at hbody
      exact hbody
    · have htake : (p.take E retryableTerminal chunk).buffered ++ chunks =
          p.buffered ++ chunk :: chunks := append_assoc _ _ _
      simp only at h
      split at h
      · nomatch h
      · have hbody := (PreflightResult.accepted.inj h).symm
        rw [replayBufferedResponse, htake] at hbody
        exact hbody
      · rw [ih _ h, htake]

/-! ## Where the verdict goes wrong -/

variable (E F)

/-- The events of a body, in order. -/
def bodyReadings (bytes : Bytes) (ending : BodyEnd) : List Reading :=
  readings E (blocksOf bytes).1 ++ tailReading E ending (blocksOf bytes).2

/-- The first event that is no control event is a failure worth another target. -/
def FailsFirst (rs : List Reading) : Prop :=
  ∃ before r after, rs = before ++ r :: after ∧ (∀ q ∈ before, Control E F q) ∧ Fails F r

/-- Among the readings of the chunks, an error event decides, and an unreadable payload follows it in
the same chunk before any terminal. -/
def SwallowedIn (groups : List (List Reading)) : Prop :=
  ∃ before pre e mid post after,
    groups = before ++ (pre ++ .event e :: (mid ++ .unread :: post)) :: after ∧
    (∀ r ∈ before.flatten ++ pre, Control E F r) ∧ retryableZeroOutputTerminal F e = true ∧
    terminalStatusFromParsed E (some e) = none ∧ ∀ r ∈ mid, r.status E = none

/-- Cut into these chunks, the body has its deciding error event swallowed. -/
def Swallowed (chunks : List Bytes) : Prop := SwallowedIn E F (chunkReadings E [] chunks)

variable {E F} {r : Reading} {rs pre : List Reading} {groups : List (List Reading)}

theorem weigh_control_iff : weigh E F r = .control ↔ Control E F r := by
  cases r with
  | unread => simp [weigh, Control]
  | event v =>
    rw [weigh]
    constructor
    · intro h
      split at h
      · split at h <;> nomatch h
      split at h
      · nomatch h
      split at h
      · nomatch h
      · rename_i hr hc hst
        exact ⟨v, rfl, by simpa using hc, by simpa using hr, by simpa using hst⟩
    · rintro ⟨w, hw, hc, hr, hst⟩
      obtain rfl := Reading.event.inj hw
      simp [hr, hc, hst]

theorem weigh_fails_iff : (weigh E F r = .fails ∨ weigh E F r = .errs) ↔ Fails F r := by
  cases r with
  | unread => simp [weigh, Fails]
  | event v =>
    rw [weigh]
    constructor
    · intro h
      refine ⟨v, rfl, ?_⟩
      by_contra hr
      rw [if_neg hr] at h
      split at h
      · nomatch h
      split at h <;> nomatch h
    · rintro ⟨w, hw, hr⟩
      obtain rfl := Reading.event.inj hw
      rw [if_pos hr]
      split
      · exact .inl rfl
      · exact .inr rfl

theorem weigh_errs (hr : retryableZeroOutputTerminal F v = true)
    (hst : terminalStatusFromParsed E (some v) = none) : weigh E F (.event v) = .errs := by
  simp [weigh, hr, hst]

theorem swallows_iff : swallows E rs = true ↔
    ∃ mid post, rs = mid ++ .unread :: post ∧ ∀ q ∈ mid, q.status E = none := by
  induction rs with
  | nil => simp [swallows]
  | cons r rs ih =>
    cases r with
    | unread => exact ⟨fun _ ↦ ⟨[], rs, rfl, by simp⟩, fun _ ↦ rfl⟩
    | event v =>
      rw [swallows, Bool.and_eq_true, ih, isNone_iff_eq_none]
      constructor
      · rintro ⟨hst, mid, post, rfl, hmid⟩
        refine ⟨.event v :: mid, post, rfl, fun q hq ↦ ?_⟩
        rcases mem_cons.mp hq with rfl | hq
        · exact hst
        · exact hmid q hq
      · rintro ⟨mid, post, heq, hmid⟩
        cases mid with
        | nil => exact absurd (List.cons.inj heq).1 (by simp)
        | cons q mid =>
          obtain ⟨rfl, hrest⟩ := List.cons.inj heq
          exact ⟨hmid _ (mem_cons_self ..), mid, post, hrest,
            fun q hq ↦ hmid q (mem_cons_of_mem _ hq)⟩

theorem verdict_controls (h : ∀ q ∈ pre, Control E F q) (rs : List Reading) :
    verdict E F (pre ++ rs) = verdict E F rs := by
  induction pre with
  | nil => rfl
  | cons q pre ih =>
    rw [cons_append, verdict, weigh_control_iff.mpr (h q (mem_cons_self ..)),
      ih fun q hq ↦ h q (mem_cons_of_mem _ hq)]

theorem chunkVerdict_controls (h : ∀ q ∈ pre, Control E F q) (rs : List Reading) :
    chunkVerdict E F (pre ++ rs) = chunkVerdict E F rs := by
  induction pre with
  | nil => rfl
  | cons q pre ih =>
    rw [cons_append, chunkVerdict, weigh_control_iff.mpr (h q (mem_cons_self ..)),
      ih fun q hq ↦ h q (mem_cons_of_mem _ hq)]

theorem controls_or_first (rs : List Reading) : (∀ q ∈ rs, Control E F q) ∨
    ∃ pre r post, rs = pre ++ r :: post ∧ (∀ q ∈ pre, Control E F q) ∧ weigh E F r ≠ .control := by
  induction rs with
  | nil => exact .inl (by simp)
  | cons r rs ih =>
    by_cases hr : weigh E F r = .control
    · have hctl := weigh_control_iff.mp hr
      rcases ih with hall | ⟨pre, r', post, rfl, hpre, hr'⟩
      · exact .inl (forall_mem_cons.mpr ⟨hctl, hall⟩)
      · exact .inr ⟨r :: pre, r', post, rfl, forall_mem_cons.mpr ⟨hctl, hpre⟩, hr'⟩
    · exact .inr ⟨[], r, rs, rfl, by simp, hr⟩

theorem verdict_failed_iff : verdict E F rs = some .failed ↔ FailsFirst E F rs := by
  constructor
  · intro h
    rcases controls_or_first (E := E) (F := F) rs with hall | ⟨pre, r, post, rfl, hpre, hr⟩
    · rw [← append_nil rs, verdict_controls hall] at h
      nomatch h
    · rw [verdict_controls hpre, verdict] at h
      refine ⟨pre, r, post, rfl, hpre, (weigh_fails_iff (E := E)).mp ?_⟩
      cases hw : weigh E F r <;> simp [hw] at h hr ⊢
  · rintro ⟨pre, r, post, rfl, hpre, hr⟩
    rw [verdict_controls hpre, verdict]
    rcases (weigh_fails_iff (E := E)).mpr hr with hw | hw <;> rw [hw]

/-- The code decides a chunk as its first deciding event does, where it swallows nothing. -/
theorem chunkVerdict_eq (h : ¬SwallowedIn E F [rs]) : chunkVerdict E F rs = verdict E F rs := by
  rcases controls_or_first (E := E) (F := F) rs with hall | ⟨pre, r, post, rfl, hpre, hr⟩
  · rw [← append_nil rs, verdict_controls hall, chunkVerdict_controls hall]
    rfl
  · rw [verdict_controls hpre, chunkVerdict_controls hpre, verdict, chunkVerdict]
    cases hw : weigh E F r with
    | control => exact absurd hw hr
    | commits => rfl
    | ends => rfl
    | fails => rfl
    | errs =>
      have hsw : swallows E post = false := by
        by_contra hsw
        rw [Bool.not_eq_false] at hsw
        obtain ⟨mid, later, rfl, hmid⟩ := swallows_iff.mp hsw
        obtain ⟨v, rfl, hv⟩ := weigh_fails_iff.mp (.inr hw)
        refine h ⟨[], pre, v, mid, later, [], rfl, by simpa using hpre, hv, ?_, hmid⟩
        by_contra hst
        rw [weigh, if_pos hv, if_pos (ne_none_iff_isSome.mp hst)] at hw
        nomatch hw
      rw [hsw]
      rfl

theorem verdict_append {k : PreflightKind} (h : verdict E F rs = some k) (later : List Reading) :
    verdict E F (rs ++ later) = some k := by
  rcases controls_or_first (E := E) (F := F) rs with hall | ⟨pre, r, post, rfl, hpre, hr⟩
  · rw [← append_nil rs, verdict_controls hall] at h
    nomatch h
  · rw [append_assoc, verdict_controls hpre] at *
    rw [cons_append, verdict] at *
    cases hw : weigh E F r <;> simp [hw] at h hr ⊢ <;> exact h

theorem verdict_none (h : verdict E F rs = none) : ∀ q ∈ rs, Control E F q := by
  rcases controls_or_first (E := E) (F := F) rs with hall | ⟨pre, r, post, rfl, hpre, hr⟩
  · exact hall
  · rw [verdict_controls hpre, verdict] at h
    cases hw : weigh E F r <;> simp [hw] at h hr

/-- **Without a swallowed event** the code arrives at the verdict of the events. -/
theorem outcome_eq (o : PreflightOptions) (ending : BodyEnd) {tail : List Reading}
    (htail : tail.length ≤ 1) (h : ¬SwallowedIn E F groups) : outcome E F o ending tail groups =
      (verdict E F (groups.flatten ++ tail)).getD (undecidedKind o ending) := by
  induction groups with
  | nil =>
    rw [outcome, flatten_nil, nil_append, chunkVerdict_eq]
    rintro ⟨before, pre, e, mid, post, after, heq, -⟩
    have hlen := congrArg (fun l ↦ l.flatten.length) heq
    simp only [flatten_append, flatten_cons, flatten_nil, length_append,
      length_cons, append_nil] at hlen
    omega
  | cons g gs ih =>
    have hg : ¬SwallowedIn E F [g] := by
      rintro ⟨before, pre, e, mid, post, after, heq, hrest⟩
      refine h ⟨before, pre, e, mid, post, after ++ gs, ?_, hrest⟩
      rw [← singleton_append, heq, append_assoc, cons_append]
    rw [outcome, chunkVerdict_eq hg, flatten_cons, append_assoc]
    cases hv : verdict E F g with
    | some k => rw [verdict_append hv]; rfl
    | none =>
      have hall := verdict_none hv
      rw [verdict_controls hall, getD_none]
      refine ih ?_
      rintro ⟨before, pre, e, mid, post, after, rfl, hctl, hrest⟩
      refine h ⟨g :: before, pre, e, mid, post, after, rfl, ?_, hrest⟩
      intro r hr
      rw [flatten_cons, append_assoc] at hr
      exact (mem_append.mp hr).elim (hall r) (hctl r)

/-- **A swallowed event** is handed on as an accepted answer, though the events say a failure. -/
theorem outcome_swallowed (o : PreflightOptions) (ending : BodyEnd) (tail : List Reading)
    (h : SwallowedIn E F groups) :
    outcome E F o ending tail groups = .accepted ∧ FailsFirst E F (groups.flatten ++ tail) := by
  obtain ⟨before, pre, e, mid, post, after, rfl, hctl, he, hst, hmid⟩ := h
  constructor
  · induction before with
    | nil =>
      have hpre : ∀ r ∈ pre, Control E F r := fun r hr ↦ hctl r (by simpa using hr)
      rw [nil_append, outcome, chunkVerdict_controls hpre, chunkVerdict, weigh_errs he hst,
        swallows_iff.mpr ⟨mid, post, rfl, hmid⟩]
      rfl
    | cons g before ih =>
      have hg : ∀ r ∈ g, Control E F r := fun r hr ↦ hctl r (by simp [hr])
      rw [cons_append, outcome, ← append_nil g, chunkVerdict_controls hg]
      refine ih fun r hr ↦ hctl r ?_
      rw [flatten_cons, append_assoc]
      exact mem_append_right _ hr
  · refine ⟨before.flatten ++ pre, .event e,
      mid ++ .unread :: post ++ after.flatten ++ tail, ?_, hctl, e, rfl, he⟩
    simp

/-! ## The preflight -/

section Claim

variable (E F) (o : PreflightOptions) (contentType : Option JsString) (ending : BodyEnd)

/-- The preflight of an event stream that arrives in these chunks. -/
def preflightOf (chunks : List Bytes) : PreflightResult :=
  preflightComboStreamResponse E (retryableZeroOutputTerminal F) o
    ⟨true, contentType, some ⟨chunks, ending⟩⟩

/-- What the preflight should do with a body: say `failed` exactly where the first event that is no
control event is a failure worth another target, and hand an accepted body back unchanged. -/
def DecidesByEvents (chunks : List Bytes) : Prop :=
  ((preflightOf E F o contentType ending chunks).kind = .failed ↔
    FailsFirst E F (bodyReadings E chunks.flatten ending)) ∧
  ∀ body, preflightOf E F o contentType ending chunks = .accepted body →
    ∃ b, body = some b ∧ b.chunks.flatten = chunks.flatten ∧ b.ending = ending

variable {E F o contentType ending} {chunks chunks' : List Bytes}

theorem preflightOf_kind (hstream : isEventStream o contentType = true)
    (hbytes : chunks.flatten.length < comboStreamPreflightMaxBytes)
    (hchunks : chunks.length < comboStreamPreflightMaxChunks) :
    (preflightOf E F o contentType ending chunks).kind =
      outcome E F o ending (tailReading E ending (blocksOf chunks.flatten).2)
        (chunkReadings E [] chunks) := by
  rw [preflightOf, preflightComboStreamResponse]
  simp only [Bool.true_and]
  rw [if_pos hstream]
  exact preflightReads_kind (p := .start) o ending chunks
    (SseScanner.new_watched (scanFrame E (defaultHandlers F)) _) ⟨rfl, rfl, rfl, rfl⟩ rfl hbytes
    (by rw [Preflight.start, length_nil, Nat.zero_add]; exact hchunks)

theorem bodyReadings_eq : bodyReadings E chunks.flatten ending =
      (chunkReadings E [] chunks).flatten ++ tailReading E ending (blocksOf chunks.flatten).2 := by
  have hflat := deliveries_flatten [] chunks
  rw [nil_append, blocksOf_nil, nil_append] at hflat
  rw [bodyReadings, ← hflat, chunkReadings, readings, filterMap_flatten]
  rfl

theorem length_tailReading_le (tail : Bytes) : (tailReading E ending tail).length ≤ 1 := by
  cases ending with
  | errored => exact Nat.zero_le _
  | done =>
    rw [tailReading]
    cases readingOfTail E tail <;> simp

theorem preflightOf_body (hstream : isEventStream o contentType = true)
    (h : preflightOf E F o contentType ending chunks = .accepted body) :
    body = some ⟨chunks, ending⟩ := by
  rw [preflightOf, preflightComboStreamResponse] at h
  simp only [Bool.true_and] at h
  rw [if_pos hstream] at h
  exact preflightReads_body _ o ending chunks .start h

theorem preflightOf_verdict (hstream : isEventStream o contentType = true)
    (hbytes : chunks.flatten.length < comboStreamPreflightMaxBytes)
    (hchunks : chunks.length < comboStreamPreflightMaxChunks) (h : ¬Swallowed E F chunks) :
    (preflightOf E F o contentType ending chunks).kind =
      (verdict E F (bodyReadings E chunks.flatten ending)).getD (undecidedKind o ending) := by
  rw [preflightOf_kind hstream hbytes hchunks, outcome_eq o ending (length_tailReading_le _) h,
    bodyReadings_eq]

theorem decidesByEvents_iff (hstream : isEventStream o contentType = true)
    (hbytes : chunks.flatten.length < comboStreamPreflightMaxBytes)
    (hchunks : chunks.length < comboStreamPreflightMaxChunks) :
    DecidesByEvents E F o contentType ending chunks ↔ ¬Swallowed E F chunks := by
  constructor
  · rintro ⟨hkind, -⟩ hsw
    obtain ⟨hacc, hfails⟩ := outcome_swallowed o ending
      (tailReading E ending (blocksOf chunks.flatten).2) hsw
    rw [← bodyReadings_eq] at hfails
    have hfailed := hkind.mpr hfails
    rw [preflightOf_kind hstream hbytes hchunks, hacc] at hfailed
    nomatch hfailed
  · intro h
    refine ⟨?_, fun body hbody ↦ ⟨⟨chunks, ending⟩, preflightOf_body hstream hbody, rfl, rfl⟩⟩
    rw [preflightOf_verdict hstream hbytes hchunks h, ← verdict_failed_iff]
    cases hv : verdict E F (bodyReadings E chunks.flatten ending) with
    | some k => simp
    | none =>
      rw [getD_none]
      cases ending with
      | done => simp [undecidedKind]
      | errored =>
        rw [undecidedKind]
        split <;> simp

end Claim

/-- Surroundings of the two runs below: text in the basic Latin letters, and an error event with a
status from 500 on, which is worth another target. -/
def plainEnv : SseEnv := ⟨fun bytes ↦ bytes.map fun b ↦ b.toNat.toUInt16, fun _ ↦ false⟩

def serverErrorsHop : FailureRules := ⟨fun _ _ _ ↦ 502, fun status _ _ _ ↦ decide (500 ≤ status)⟩

/-- A frame of a stream, as bytes. -/
def frameOf (text : String) : Bytes := (text ++ "\n\n").toList.map fun c ↦ c.toNat.toUInt8

end Sse
