import OpenCodex.Combo.DegenerateGuard

/-!
# What a client reads of a stream that was cut

The frame of the guard is three blocks: one without data, a `response.failed` and `[DONE]`.  Read
from any state of the client it adds the last two as events; before them it adds the event that was
open, if that has data by then.  So a cut is well formed just if the relayed chunks leave no data
behind and hold no terminal.
-/

set_option autoImplicit false

open List

namespace DegenerateGuard

open EventSource

/-! ## Reading the frame -/

/-- The event that the first block of the frame dispatches, if there is one. -/
def fragment (s : State) : List Event :=
  (State.dispatch (State.readLine { s with line := [], afterCr := false }
    (s.line ++ chars "event: response.failed")).1).2

section Frame

variable {s : State} {points : List ℕ} {message : JsString}

theorem pointsOf_printable {text : JsString} (h : Json.Printable text) :
    OneLine (Utf8.pointsOf text) := by
  have hunit : ∀ {c : CodeUnit}, 0x20 ≤ c.toNat →
      (if 0xd800 ≤ c.toNat ∧ c.toNat ≤ 0xdfff then Utf8.replacement else c.toNat) ≠ 10 ∧
        (if 0xd800 ≤ c.toNat ∧ c.toNat ≤ 0xdfff then Utf8.replacement else c.toNat) ≠ 13 := by
    intro c hc
    rw [Utf8.replacement]
    split_ifs <;> omega
  induction text using Utf8.pointsOf.induct with
  | case1 => exact forall_mem_nil _
  | case2 c =>
    intro p hp
    rw [Utf8.pointsOf, mem_singleton] at hp
    rw [hp]
    exact hunit (h c mem_cons_self)
  | case3 c d text hpair ih =>
    intro p hp
    rw [Utf8.pointsOf, if_pos hpair, mem_cons] at hp
    rcases hp with heq | hp
    · omega
    · exact ih (fun e he ↦ h e (mem_cons_of_mem c (mem_cons_of_mem d he))) p hp
  | case4 c d text hpair ih =>
    intro p hp
    rw [Utf8.pointsOf, if_neg hpair, mem_cons] at hp
    rcases hp with heq | hp
    · rw [heq]
      exact hunit (h c mem_cons_self)
    · exact ih (fun e he ↦ h e (mem_cons_of_mem c he)) p hp

variable {line : List ℕ}

theorem oneLine_append {line' : List ℕ} (h : OneLine line) (h' : OneLine line') :
    OneLine (line ++ line') := forall_mem_append.mpr ⟨h, h'⟩

theorem readLine_data (s : State) (value : List ℕ) :
    s.readLine (chars "data: " ++ value) = ({ s with data := s.data ++ value ++ [10] }, []) := by
  have hname : fieldName (chars "data: " ++ value) = chars "data" := by simp [fieldName, chars]
  have hvalue : fieldValue (chars "data: " ++ value) = value := by simp [fieldValue, chars]
  rw [State.readLine, if_neg (by simp [chars]), if_neg (by simp [chars]), hname, hvalue,
    State.field, if_neg (by decide), if_pos rfl]

theorem run_data {value : List ℕ} (hvalue : OneLine value) (hline : s.line = [])
    (hdata : s.data = []) (htype : s.type = []) : run s (chars "data: " ++ value ++ [10] ++ [10]) =
      (⟨[], false, [], [], s.lastEventId⟩, [⟨chars "message", value, s.lastEventId⟩]) := by
  have hone : OneLine (chars "data: " ++ value) := oneLine_append (by decide) hvalue
  rw [run_append, run_line_feed hone (by simp [chars]), hline, nil_append, readLine_data,
    run_empty_line rfl rfl, State.dispatch, hdata, htype, nil_append, if_neg (by simp),
    if_pos rfl, dropLast_concat]
  rfl

theorem dispatch_fst (s : State) : s.dispatch.1 = { s with data := [], type := [] } := by
  rw [State.dispatch]
  by_cases h : s.data = []
  · rw [if_pos h, ← h]
  · rw [if_neg h]

theorem readLine_ne_nil (h : line ≠ []) : (s.readLine line).2 = [] := by
  rw [State.readLine, if_neg h]
  split_ifs <;> rfl

theorem field_line (s : State) (name value : List ℕ) : (s.field name value).line = s.line ∧
    (s.field name value).afterCr = s.afterCr := by
  rw [State.field]
  split_ifs <;> exact ⟨rfl, rfl⟩

theorem readLine_line (h : line ≠ []) : (s.readLine line).1.line = s.line ∧
    (s.readLine line).1.afterCr = s.afterCr := by
  rw [State.readLine, if_neg h]
  split_ifs
  · exact ⟨rfl, rfl⟩
  · exact field_line _ _ _

theorem pointsOf_terminalText (message : JsString) :
    Utf8.pointsOf (terminalText message) = (chars "event: response.failed" ++ [10] ++ [10]) ++
      ((chars "data: " ++ Utf8.pointsOf (terminalPayload message) ++ [10] ++ [10]) ++
        (chars "data: " ++ chars "[DONE]" ++ [10] ++ [10])) := by
  obtain ⟨rest, hrest⟩ : ∃ rest, terminalPayload message = 0x7b :: rest := ⟨_, rfl⟩
  have hhead : Utf8.pointsOf (js "event: response.failed\n\ndata: ") =
      chars "event: response.failed" ++ [10] ++ [10] ++ chars "data: " := by decide
  have hlast : Utf8.pointsOf (js "\n\ndata: [DONE]\n\n") =
      [10] ++ [10] ++ (chars "data: " ++ chars "[DONE]" ++ [10] ++ [10]) := by decide
  have hdone : js "\n\ndata: [DONE]\n\n" = 10 :: js "\ndata: [DONE]\n\n" := rfl
  rw [terminalText, hdone, pointsOf_append (by decide), ← hdone, hlast, hrest,
    pointsOf_append (by decide), ← hrest, hhead]
  simp only [append_assoc]

theorem oneLine_terminalPayload (message : JsString) :
    OneLine (Utf8.pointsOf (terminalPayload message)) :=
  pointsOf_printable (Json.render_printable _)

theorem run_ending {payload : List ℕ} (hpayload : OneLine payload) (hline : s.line = [])
    (hdata : s.data = []) (htype : s.type = []) :
    (run s ((chars "data: " ++ payload ++ [10] ++ [10]) ++
      (chars "data: " ++ chars "[DONE]" ++ [10] ++ [10]))).2 =
      [⟨chars "message", payload, s.lastEventId⟩,
        ⟨chars "message", chars "[DONE]", s.lastEventId⟩] := by
  rw [run_append, run_data hpayload hline hdata htype, run_data (by decide) rfl rfl rfl]
  rfl

/-- **What the frame adds**, wherever it finds the reader. -/
theorem run_terminalText (s : State) (message : JsString) : ∃ lastEventId,
    (run s (Utf8.pointsOf (terminalText message))).2 = fragment s ++
      [⟨chars "message", Utf8.pointsOf (terminalPayload message), lastEventId⟩,
        ⟨chars "message", chars "[DONE]", lastEventId⟩] := by
  have hline : s.line ++ chars "event: response.failed" ≠ [] := by simp [chars]
  obtain ⟨hopen, hcr⟩ := readLine_line (s := { s with line := [], afterCr := false }) hline
  refine ⟨(State.readLine { s with line := [], afterCr := false }
    (s.line ++ chars "event: response.failed")).1.lastEventId, ?_⟩
  rw [pointsOf_terminalText, run_append s _ (_ ++ _),
    run_append s (chars "event: response.failed" ++ [10]) [10],
    run_line_feed (by decide) (by decide), readLine_ne_nil hline, run_empty_line hopen hcr,
    dispatch_fst]
  exact congrArg (fragment s ++ ·) (run_ending (oneLine_terminalPayload message) hopen rfl rfl)

theorem fieldName_append {name : List ℕ} (h : 58 ∉ name) (rest : List ℕ) :
    fieldName (name ++ rest) = name ++ fieldName rest := by
  refine takeWhile_append_of_pos fun p hp ↦ decide_eq_true ?_
  exact fun heq ↦ h (heq ▸ hp)

theorem fieldName_open (line : List ℕ) :
    fieldName (line ++ chars "event: response.failed") = chars "data" ↔ chars "data:" <+: line := by
  constructor
  · intro h
    by_cases hcolon : 58 ∈ line
    · obtain ⟨name, value, rfl, hnot⟩ := eq_append_cons_of_mem hcolon
      rw [append_assoc, fieldName_append hnot, cons_append, fieldName,
        takeWhile_cons_of_neg (by simp), append_nil] at h
      exact ⟨value, by rw [h]; rfl⟩
    · rw [fieldName_append hcolon] at h
      have hlong := congrArg List.length h
      rw [length_append] at hlong
      have hrest : (fieldName (chars "event: response.failed")).length = 5 := by decide
      have hname : (chars "data").length = 4 := by decide
      omega
  · rintro ⟨value, rfl⟩
    simp [fieldName, chars]

theorem fragment_eq_nil (s : State) :
    fragment s = [] ↔ s.data = [] ∧ ¬chars "data:" <+: s.line := by
  have hne : s.line ++ chars "event: response.failed" ≠ [] := by simp [chars]
  have hdispatch : ∀ t : State, t.dispatch.2 = [] ↔ t.data = [] := by
    intro t
    rw [State.dispatch]
    split_ifs with h <;> simp [h]
  rw [fragment, hdispatch, State.readLine, if_neg hne, ← fieldName_open]
  split_ifs with hcomment
  · have hcolon : fieldName (s.line ++ chars "event: response.failed") = [] := by
      obtain ⟨rest, hrest⟩ := head?_eq_some_iff.mp hcomment
      rw [hrest, fieldName, takeWhile_cons_of_neg (by simp)]
    rw [hcolon]
    exact ⟨fun h ↦ ⟨h, by decide⟩, And.left⟩
  · rw [State.field]
    split_ifs with hevent hdata hid hzero
    · rw [hevent]
      exact ⟨fun h ↦ ⟨h, by decide⟩, And.left⟩
    · exact ⟨fun h ↦ absurd h (by simp), fun h ↦ absurd hdata h.2⟩
    all_goals exact ⟨fun h ↦ ⟨h, hdata⟩, And.left⟩

end Frame

/-! ## What is relayed -/

/-- The monitor behind some chunks. -/
def watched (E : MonitorEnv) (chunks : List Sse.Bytes) : DegenerateStreamMonitor :=
  chunks.foldl (fun monitor chunk ↦ monitor.feed E chunk) .start

section Relay

variable {E : MonitorEnv} {monitor : DegenerateStreamMonitor} {before rest : List Sse.Bytes}
  {chunk : Sse.Bytes}

theorem feed_triggered (h : monitor.triggered = true) : monitor.feed E chunk = monitor := by
  rw [DegenerateStreamMonitor.feed, h, Bool.or_true, if_pos rfl]

theorem feeds_triggered (h : monitor.triggered = true) (chunks : List Sse.Bytes) :
    chunks.foldl (fun monitor chunk ↦ monitor.feed E chunk) monitor = monitor := by
  induction chunks with
  | nil => rfl
  | cons chunk chunks ih => rw [foldl_cons, feed_triggered h, ih]

theorem relay_fires (monitor : DegenerateStreamMonitor)
    (hquiet : (before.foldl (fun monitor chunk ↦ monitor.feed E chunk) monitor).triggered = false)
    (hfires : ((before.foldl (fun monitor chunk ↦ monitor.feed E chunk) monitor).feed E
      chunk).triggered = true) :
    relay E monitor (before ++ chunk :: rest) = (before ++ [chunk], true) := by
  induction before generalizing monitor with
  | nil => rw [nil_append, relay, if_pos (by exact hfires), nil_append]
  | cons first before ih =>
    have hfirst : (monitor.feed E first).triggered = false := by
      by_contra h
      rw [foldl_cons, feeds_triggered (Bool.eq_true_of_not_eq_false h)] at hquiet
      exact h hquiet
    rw [cons_append, relay, if_neg (by simp [hfirst]), ih _ hquiet hfires]
    rfl

theorem guardStream_fires (frame : Sse.Bytes) (hquiet : (watched E before).triggered = false)
    (hfires : (watched E (before ++ [chunk])).triggered = true) :
    guardStream E frame (before ++ chunk :: rest) = before ++ [chunk] ++ [frame] := by
  rw [watched, foldl_append] at hfires
  rw [guardStream, relay_fires .start hquiet hfires]
  rfl

end Relay

/-! ## Cutting well -/

/-- An event that ends a response for the client. -/
def ends (E : MonitorEnv) (e : Event) : Bool :=
  let payload := e.data.flatMap Utf8.unitsOf
  payload == Sse.doneSentinel ||
    (Sse.terminalStatusFromParsed E.sse (Sse.parseSsePayload payload)).isSome

/-- The events of the frame.  Its `event` line is in a block of its own, so that they are known by
their data. -/
def frameEvents (message : JsString) (lastEventId : List ℕ) : List Event :=
  [⟨chars "message", Utf8.pointsOf (terminalPayload message), lastEventId⟩,
    ⟨chars "message", chars "[DONE]", lastEventId⟩]

/-- The client reads events of the upstream, from its first on and without an end, and then those of
the frame. -/
def CutWell (E : MonitorEnv) (message : JsString) (upstream delivered : Sse.Bytes) : Prop :=
  ∃ complete lastEventId, complete <+: events upstream ∧ (∀ e ∈ complete, ends E e = false) ∧
    events delivered = complete ++ frameEvents message lastEventId

/-- Where a cut does no harm: behind an event, or when the line that is missing is the empty one,
and before the end of the response. -/
def CutsBetween (E : MonitorEnv) (relayed upstream : Sse.Bytes) : Prop :=
  ((stateOf relayed).data = [] ∧ ¬chars "data:" <+: (stateOf relayed).line ∧
    ∀ e ∈ events relayed, ends E e = false) ∨
  ∃ e, fragment (stateOf relayed) = [e] ∧ (events upstream)[(events relayed).length]? = some e ∧
    ∀ e' ∈ events relayed ++ [e], ends E e' = false

theorem events_cut (relayed : Sse.Bytes) (message : JsString) : ∃ lastEventId,
    events (relayed ++ terminalFrame message) =
      events relayed ++ fragment (stateOf relayed) ++ frameEvents message lastEventId := by
  obtain ⟨lastEventId, hframe⟩ := run_terminalText (stateOf relayed) message
  refine ⟨lastEventId, ?_⟩
  have hhead : Utf8.pointsOf (terminalText message) = 101 :: (Utf8.pointsOf
      (terminalText message)).tail := by
    rfl
  rw [terminalFrame, events_append_bytesOf relayed (by omega) hhead, hframe, append_assoc]
  rfl

theorem fragment_one (s : State) : fragment s = [] ∨ ∃ e, fragment s = [e] := by
  rw [fragment, State.dispatch]
  split_ifs
  · exact Or.inl rfl
  · exact Or.inr ⟨_, rfl⟩
  · exact Or.inr ⟨_, rfl⟩

theorem concat_prefix_iff {α : Type} {l m : List α} {a : α} (h : l <+: m) :
    l ++ [a] <+: m ↔ m[l.length]? = some a := by
  obtain ⟨rest, rfl⟩ := h
  rw [prefix_append_right_inj, getElem?_append_right le_rfl, Nat.sub_self]
  cases rest <;> simp [eq_comm]

theorem cutsBetween_iff (E : MonitorEnv) (relayed rest : Sse.Bytes) :
    CutsBetween E relayed (relayed ++ rest) ↔
      events relayed ++ fragment (stateOf relayed) <+: events (relayed ++ rest) ∧
        ∀ e ∈ events relayed ++ fragment (stateOf relayed), ends E e = false := by
  have hfront : events relayed <+: events (relayed ++ rest) := events_append relayed rest
  rw [CutsBetween, ← and_assoc, ← fragment_eq_nil]
  rcases fragment_one (stateOf relayed) with h | ⟨e, h⟩
  · rw [h, append_nil]
    simp only [hfront, true_and, nil_eq, reduceCtorEq, false_and, exists_false, or_false]
  · rw [h, concat_prefix_iff hfront]
    simp only [reduceCtorEq, false_and, false_or, List.cons.injEq, and_true, exists_eq_left']

instance (E : MonitorEnv) (relayed rest : Sse.Bytes) :
    Decidable (CutsBetween E relayed (relayed ++ rest)) :=
  decidable_of_iff _ (cutsBetween_iff E relayed rest).symm

theorem cutWell_iff (E : MonitorEnv) (message : JsString) (relayed rest : Sse.Bytes) :
    CutWell E message (relayed ++ rest) (relayed ++ terminalFrame message) ↔
      CutsBetween E relayed (relayed ++ rest) := by
  obtain ⟨lastEventId, hcut⟩ := events_cut relayed message
  rw [cutsBetween_iff]
  constructor
  · rintro ⟨complete, lastEventId', hpre, hopen, heq⟩
    rw [hcut] at heq
    have hsame := (append_inj' heq rfl).1
    exact hsame ▸ ⟨hpre, hopen⟩
  · exact fun ⟨hpre, hopen⟩ ↦ ⟨_, lastEventId, hpre, hopen, hcut⟩

/-! ## The two guards -/

/-- The bytes that a response delivers. -/
def delivered (response : Response) : Sse.Bytes := (response.body.getD []).flatten

section Guards

variable {E : MonitorEnv} {contentType : Option JsString} {before rest : List Sse.Bytes}
  {chunk : Sse.Bytes}

theorem flatten_fires (before rest : List Sse.Bytes) (chunk : Sse.Bytes) :
    (before ++ chunk :: rest).flatten = (before ++ [chunk]).flatten ++ rest.flatten := by
  simp only [flatten_append, flatten_cons, flatten_nil, append_nil, append_assoc]

theorem delivered_guardStream (frame : Sse.Bytes) (hquiet : (watched E before).triggered = false)
    (hfires : (watched E (before ++ [chunk])).triggered = true) :
    (guardStream E frame (before ++ chunk :: rest)).flatten =
      (before ++ [chunk]).flatten ++ frame := by
  rw [guardStream_fires frame hquiet hfires, flatten_append, flatten_singleton]

section Fires

variable
  (hguard : guardableComboStream ⟨contentType, some (before ++ chunk :: rest)⟩ = true)
  (hquiet : (watched E before).triggered = false)
  (hfires : (watched E (before ++ [chunk])).triggered = true)

include hguard hquiet hfires

theorem delivered_combo :
    delivered (guardComboDegenerateOutput E true ⟨contentType, some (before ++ chunk :: rest)⟩) =
      (before ++ [chunk]).flatten ++ terminalFrame comboMessage := by
  rw [guardComboDegenerateOutput, hguard, if_neg (by decide)]
  exact delivered_guardStream _ hquiet hfires

theorem delivered_native (label : JsString) :
    delivered (guardNativeDegenerateOutput E label ⟨contentType, some (before ++ chunk :: rest)⟩) =
      (before ++ [chunk]).flatten ++ terminalFrame (nativeMessage label) := by
  rw [guardNativeDegenerateOutput, hguard, if_neg (by decide)]
  exact delivered_guardStream _ hquiet hfires

end Fires

theorem cutWell_of_delivered {message : JsString} {out : Response}
    (h : delivered out = (before ++ [chunk]).flatten ++ terminalFrame message) :
    CutWell E message (delivered ⟨contentType, some (before ++ chunk :: rest)⟩) (delivered out) ↔
      CutsBetween E (before ++ [chunk]).flatten ((before ++ [chunk]).flatten ++ rest.flatten) := by
  have hall : delivered ⟨contentType, some (before ++ chunk :: rest)⟩ =
      (before ++ [chunk]).flatten ++ rest.flatten := flatten_fires before rest chunk
  rw [h, hall]
  exact cutWell_iff E _ _ _

end Guards

/-- Only calls are judged. -/
def callsOnly : MonitorEnv := ⟨⟨Utf8.textOf, fun _ ↦ false⟩, fun _ ↦ none, fun _ ↦ none⟩

/-- The event of a call. -/
def callFrame : Sse.Bytes :=
  Utf8.bytesOf (js "data: \x7b\"type\":\"response.output_item.done\"," ++
    js "\"item\":\x7b\"type\":\"function_call\",\"name\":\"f\",\"arguments\":\"1\"\x7d\x7d\n\n")

def completedFrame : Sse.Bytes :=
  Utf8.bytesOf (js "data: \x7b\"type\":\"response.completed\"\x7d\n\n")

/-- Three calls and the end of the response; `tail` comes in the chunk of the third call. -/
def threeCalls (tail : Sse.Bytes) : Response :=
  ⟨none, some ([callFrame, callFrame] ++ (callFrame ++ tail) ::
    [completedFrame.drop tail.length])⟩

theorem two_calls_quiet : (watched callsOnly [callFrame, callFrame]).triggered = false := by
  decide +kernel

end DegenerateGuard
