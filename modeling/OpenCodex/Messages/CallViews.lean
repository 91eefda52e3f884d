import OpenCodex.Messages.Attribution

/-!
# The translator keeps to the position

Of the state of the translator only some things matter for function calls (`Desk`): what is open, and the
tool blocks that were written (`callsIn`).  `Desk.Fits` says that a desk agrees with a `Position`, that is, with
what a reader of the events knows.  One lemma for each stretch of code says that it leaves a desk that
fits; `handleFrame_at` puts them together.
-/

set_option autoImplicit false

open List Option Act Messages.Position

namespace Messages

open Bridge (truthy)
open Tools (plainObject stringAt nonEmptyAt)

variable (E : MessagesEnv) {t : Bool}

/-! ## Calls that were written -/

/-- A tool block, with the arguments that its deltas carry. -/
structure ToolCall where
  index : ℕ
  sent : SentCall

def ToolCall.add (c : ToolCall) (text : JsString) : ToolCall :=
  { c with sent := { c.sent with arguments := c.sent.arguments ++ text } }

/-- A tool block begins, or a delta continues the block it names. -/
def note (calls : List ToolCall) : MessagesEvent → List ToolCall
  | .blockStart index (.toolUse id name) => calls ++ [⟨index, ⟨id, name, []⟩⟩]
  | .blockDelta index (.inputJson text) => calls.map fun c ↦ if c.index = index then c.add text else c
  | _ => calls

/-- **The tool blocks of a stream.** -/
def callsIn (events : List MessagesEvent) : List ToolCall := events.foldl note []

theorem callsIn_concat (events : List MessagesEvent) (e : MessagesEvent) :
    callsIn (events ++ [e]) = note (callsIn events) e := by
  rw [callsIn, foldl_append]
  rfl

theorem note_fresh {calls : List ToolCall} {n : ℕ} (h : ∀ c ∈ calls, c.index < n) (text : JsString) :
    note calls (.blockDelta n (.inputJson text)) = calls :=
  (map_congr_left fun c hc ↦ if_neg (h c hc).ne).trans (List.map_id' calls)

variable {before : List ToolCall}

theorem note_last {c : ToolCall} (h : ∀ b ∈ before, b.index < c.index) (text : JsString) :
    note (before ++ [c]) (.blockDelta c.index (.inputJson text)) = before ++ [c.add text] := by
  have hbefore := note_fresh h text
  rw [note] at hbefore ⊢
  rw [map_append, hbefore, map_singleton, if_pos rfl]

/-! ## The desk -/

/-- What matters for calls. -/
structure Desk where
  calls : List ToolCall
  opened : Option OpenBlock
  next : ℕ
  saw : Bool
  mirror : Option JsString

def deskOf (s : MessageStream) : Desk :=
  ⟨callsIn s.written, s.opened, s.blockIndex, s.sawToolUse, s.progressMirrorId⟩

/-- The desk of a stream, where the budget refuses nothing. -/
structure Seen (t : Bool) (d : Desk) (s : MessageStream) : Prop where
  desk : deskOf s = d
  terminated : s.terminated = t
  granted : s.grants = none

/-- No exception. -/
abbrev Never : Overflow → MessageStream → Prop := fun _ _ ↦ False

variable {d : Desk}

theorem Seen.ask : Keeps (Seen t d) Never ask := by
  intro s h
  rw [ask_granted h.granted]
  exact h

theorem Seen.emit (e : MessagesEvent) :
    Ensures (Seen t d) (emit e) (fun _ ↦ Seen t { d with calls := note d.calls e }) Never := by
  refine Ensures.bind Seen.ask fun _ ↦ Ensures.modify fun s h ↦ ?_
  obtain ⟨rfl, hlive, hgranted⟩ := h
  refine ⟨?_, hlive, hgranted⟩
  simp only [deskOf, callsIn_concat]

variable {e : MessagesEvent}

theorem Seen.emitQuiet (he : note d.calls e = d.calls) : Keeps (Seen t d) Never (Messages.emit e) :=
  (Seen.emit e).post fun _ _ h ↦ by rwa [he] at h

theorem Seen.setOpen (o : Option OpenBlock) :
    Ensures (Seen t d) (setOpen o) (fun _ ↦ Seen t { d with opened := o }) Never := by
  refine Ensures.modify fun s h ↦ ?_
  obtain ⟨rfl, hlive, hgranted⟩ := h
  exact ⟨rfl, hlive, hgranted⟩

theorem Seen.withIndex {α : Type} {f : ℕ → Code α} {Q : α → MessageStream → Prop}
    (hf : Ensures (Seen t { d with next := d.next + 1 }) (f d.next) Q Never) :
    Ensures (Seen t d) (nextIndex >>= f) Q Never := by
  intro s h
  obtain ⟨rfl, hlive, hgranted⟩ := h
  exact hf { s with blockIndex := s.blockIndex + 1 } ⟨rfl, hlive, hgranted⟩

theorem Seen.uuid : Keeps (Seen t d) Never (uuid E) := by
  refine Ensures.read fun s h ↦ ?_
  obtain ⟨rfl, hlive, hgranted⟩ := h
  exact ⟨rfl, hlive, hgranted⟩

theorem Seen.modify {D : Desk} {g : MessageStream → MessageStream}
    (hg : ∀ s, deskOf s = d → deskOf (g s) = D ∧ (g s).terminated = s.terminated ∧
      (g s).grants = s.grants) : Ensures (Seen t d) (modify g) (fun _ ↦ Seen t D) Never := by
  refine Ensures.modify fun s h ↦ ?_
  obtain ⟨hdesk, hlive, hgranted⟩ := hg s h.desk
  exact ⟨hdesk, hlive.trans h.terminated, hgranted.trans h.granted⟩

theorem Seen.ensureStarted : Keeps (Seen t d) Never (ensureStarted E) := by
  refine Ensures.read fun s h ↦ Keeps.when (P := Seen t d) (fun _ ↦ ?_) s h
  refine Ensures.bind (Q := fun _ ↦ Seen t d) (Seen.modify fun s h ↦ ⟨h, rfl, rfl⟩) fun _ ↦
    Ensures.bind (Seen.uuid E) fun _ ↦ Ensures.bind (Seen.emitQuiet rfl) fun _ ↦ Seen.emitQuiet rfl

theorem Seen.closeThinking (block : ThinkingBlock) : Ensures (Seen t d) (closeThinking E block)
      (fun _ s ↦ ∃ n, d.next ≤ n ∧ Seen t { d with opened := none, next := n } s) Never := by
  unfold Messages.closeThinking
  refine Ensures.ite (fun _ ↦ ?_) fun _ ↦ ?_
  · exact (Seen.setOpen none).post fun _ _ h ↦ ⟨d.next, le_rfl, h⟩
  · refine Seen.withIndex (Ensures.post (Q := fun _ ↦ Seen t { d with opened := none, next := d.next + 1 })
      ?_ fun _ _ h ↦ ⟨d.next + 1, Nat.le_succ _, h⟩)
    exact Ensures.bind (Seen.emitQuiet rfl) fun _ ↦
      Ensures.bind (Keeps.when fun _ ↦ Seen.emitQuiet rfl) fun _ ↦
      Ensures.bind (Keeps.when fun _ ↦ Seen.ask) fun _ ↦
      Ensures.bind (Seen.emitQuiet rfl) fun _ ↦
      Ensures.bind (Seen.emitQuiet rfl) fun _ ↦ Seen.setOpen none

/-! ## Desks that fit -/

/-- The blocks that were written for the calls that are past, and the open block. -/
def Desk.Holds (past : List SentCall) (d : Desk) : Focus → Prop
  | .idle => d.calls.map ToolCall.sent = past ∧ ∀ block, d.opened ≠ some (.thinking block) ∧
      ∀ tool, d.opened ≠ some (.toolUse tool)
  | .thinking itemKey => d.calls.map ToolCall.sent = past ∧
      ∃ block, d.opened = some (.thinking block) ∧ block.reasoningItemKey = some itemKey
  | .call callId name given => ∃ before block, d.opened = some (.toolUse block) ∧
      d.calls = before ++ [⟨block.index, ⟨callId, name, if isClaudeWebSearchToolName name then [] else given⟩⟩] ∧
      before.map ToolCall.sent = past ∧ (∀ b ∈ before, b.index < block.index) ∧
      block.bufferWebSearchArgs = isClaudeWebSearchToolName name ∧ block.webSearchArgsEmitted = false ∧
      block.argsBuf = (if isClaudeWebSearchToolName name then given else []) ∧
      (block.toolArgsEmitted = true ↔ isClaudeWebSearchToolName name = false ∧ given ≠ [])

def Focus.isCall : Focus → Bool
  | .call _ _ _ => true
  | _ => false

/-- The desk is that of a reader at this position. -/
structure Desk.Fits (σ : Position) (d : Desk) : Prop where
  holds : d.Holds σ.past σ.focus
  fresh : ∀ c ∈ d.calls, c.index < d.next
  saw : d.saw = (!σ.past.isEmpty || σ.focus.isCall)
  mirror : d.mirror = σ.mirror

def At (t : Bool) (σ : Position) (s : MessageStream) : Prop := ∃ d, Seen t d s ∧ d.Fits σ

/-- Nothing is open. -/
def Shut (t : Bool) (σ : Position) (s : MessageStream) : Prop := ∃ d, Seen t d s ∧ d.Fits σ ∧ d.opened = none

variable {s : MessageStream} {σ : Position}

theorem Shut.at (h : Shut t σ s) : At t σ s :=
  let ⟨d, hseen, hfits, _⟩ := h
  ⟨d, hseen, hfits⟩

theorem keeps_at {α : Type} {x : Code α} (h : ∀ d, Keeps (Seen t d) Never x) :
    Keeps (At t σ) Never x := by
  intro s hs
  obtain ⟨d, hseen, hfits⟩ := hs
  exact (h d).post (fun _ _ h ↦ ⟨d, h, hfits⟩) s hseen

theorem Seen.opened (h : Seen t d s) : s.opened = d.opened := congrArg Desk.opened h.desk

/-! ## Closing -/

theorem Seen.closeTool (block : ToolBlock) :
    Ensures (Seen t d) (closeTool block) (fun _ ↦ Seen t { d with
      calls := if block.bufferWebSearchArgs = true ∧ block.webSearchArgsEmitted = false then
        note d.calls (.blockDelta block.index (.inputJson (sanitizedArguments block.argsBuf)))
        else d.calls
      opened := none }) Never := by
  unfold Messages.closeTool
  by_cases hsearch : block.bufferWebSearchArgs = true ∧ block.webSearchArgsEmitted = false
  · rw [when_pos hsearch, if_pos hsearch]
    exact Ensures.bind (Seen.emit _) fun _ ↦ Ensures.bind (Seen.emitQuiet rfl) fun _ ↦ Seen.setOpen none
  · rw [when_neg hsearch, if_neg hsearch]
    exact Ensures.bind (Keeps.pure _) fun _ ↦ Ensures.bind (Seen.emitQuiet rfl) fun _ ↦
      Seen.setOpen none

/-- The position when the open block has been closed. -/
def Position.closed (σ : Position) : Position := ⟨.idle, σ.past ++ σ.focus.closing, σ.mirror⟩

variable {past : List SentCall} {mirror : Option JsString} {callId name given : JsString}

theorem Desk.Fits.close {index : ℕ} {arguments : JsString}
    (h : d.Fits ⟨.call callId name given, past, mirror⟩) (hpast : before.map ToolCall.sent = past)
    (hbefore : ∀ b ∈ before, b.index < index) (hindex : index < d.next) :
    Desk.Fits ⟨.idle, past ++ [⟨callId, name, arguments⟩], mirror⟩
      { d with calls := before ++ [⟨index, ⟨callId, name, arguments⟩⟩], opened := none } := by
  refine ⟨⟨?_, fun block ↦ ⟨by simp, fun tool ↦ by simp⟩⟩, ?_, ?_, h.mirror⟩
  · rw [map_append, hpast, map_singleton]
  · intro c hc
    rcases mem_append.mp hc with hc | hc
    · exact (hbefore c hc).trans hindex
    · rw [mem_singleton.mp hc]
      exact hindex
  · have hsaw := h.saw
    simp only [Focus.isCall, Bool.or_true] at hsaw
    simp [hsaw, Focus.isCall]

theorem closeOpenBlock_shut (σ : Position) :
    Ensures (At t σ) (closeOpenBlock E) (fun _ ↦ Shut t σ.closed) Never := by
  refine Ensures.read fun s h ↦ ?_
  obtain ⟨d, hseen, hfits⟩ := h
  obtain ⟨focus, past, mirror⟩ := σ
  have hfresh := hfits.fresh
  have hsaw := hfits.saw
  have hmirror := hfits.mirror
  rw [hseen.opened]
  cases focus with
  | idle =>
    obtain ⟨hpast, hidle⟩ := hfits.holds
    have hfits' : ({ d with opened := none } : Desk).Fits (Position.closed ⟨.idle, past, mirror⟩) := by
      change Desk.Fits ⟨.idle, past ++ [], mirror⟩ _
      rw [append_nil]
      exact ⟨⟨hpast, fun block ↦ ⟨by simp, fun tool ↦ by simp⟩⟩, hfresh, hsaw, hmirror⟩
    cases hopened : d.opened with
    | none =>
      rw [← hopened] at hfits'
      exact ⟨d, hseen, hfits', hopened⟩
    | some block =>
      cases block with
      | text index =>
        refine (Ensures.bind (Seen.emitQuiet rfl) fun _ ↦
          (Seen.setOpen none).post fun _ s h ↦ ?_) s hseen
        exact ⟨_, h, hfits', rfl⟩
      | thinking block => exact absurd hopened (hidle block).1
      | toolUse tool => exact absurd hopened ((hidle {}).2 tool)
  | thinking itemKey =>
    obtain ⟨hpast, block, hopened, -⟩ := hfits.holds
    rw [hopened]
    refine ((Seen.closeThinking E block).post fun _ s h ↦ ?_) s hseen
    obtain ⟨n, hn, h⟩ := h
    refine ⟨_, h, ?_, rfl⟩
    change Desk.Fits ⟨.idle, past ++ [], mirror⟩ _
    rw [append_nil]
    exact ⟨⟨hpast, fun block ↦ ⟨by simp, fun tool ↦ by simp⟩⟩,
      fun c hc ↦ (hfresh c hc).trans_le hn, hsaw, hmirror⟩
  | call callId name given =>
    obtain ⟨before, block, hopened, hcalls, hpast, hbefore, hsearch, hsent, hbuf, -⟩ := hfits.holds
    rw [hopened]
    have hindex : block.index < d.next := hfresh ⟨block.index, _⟩ (hcalls ▸ mem_concat_self)
    have hclosed : (if block.bufferWebSearchArgs = true ∧ block.webSearchArgsEmitted = false then
        note d.calls (.blockDelta block.index (.inputJson (sanitizedArguments block.argsBuf)))
        else d.calls) = before ++ [⟨block.index,
          ⟨callId, name, closedWith (isClaudeWebSearchToolName name) given⟩⟩] := by
      rw [hsearch, hsent, hbuf, hcalls]
      cases isClaudeWebSearchToolName name with
      | true => exact note_last (c := ⟨block.index, ⟨callId, name, []⟩⟩) hbefore _
      | false => rfl
    refine ((Seen.closeTool block).post fun _ s h ↦ ?_) s hseen
    rw [hclosed] at h
    exact ⟨_, h, hfits.close hpast hbefore hindex, rfl⟩

/-! ## What is open -/

theorem At.isThinking (h : At t σ s) : s.isThinking = σ.focus.key.isSome := by
  obtain ⟨d, hseen, hfits⟩ := h
  obtain ⟨focus, past, mirror⟩ := σ
  rw [MessageStream.isThinking, hseen.opened]
  cases focus with
  | idle =>
    obtain ⟨-, hidle⟩ := hfits.holds
    rcases ho : d.opened with - | (index | block | block)
    · rfl
    · rfl
    · exact absurd ho (hidle block).1
    · rfl
  | thinking itemKey =>
    obtain ⟨-, block, ho, -⟩ := hfits.holds
    rw [ho]
    rfl
  | call callId name given =>
    obtain ⟨before, block, ho, -⟩ := hfits.holds
    rw [ho]
    rfl

theorem At.no_tool (h : At t σ s) (hcall : σ.focus.isCall = false) (block : ToolBlock) :
    s.opened ≠ some (.toolUse block) := by
  obtain ⟨d, hseen, hfits⟩ := h
  obtain ⟨focus, past, mirror⟩ := σ
  rw [hseen.opened]
  cases focus with
  | idle => exact (hfits.holds.2 {}).2 block
  | thinking itemKey =>
    obtain ⟨-, thinking, ho, -⟩ := hfits.holds
    rw [ho]
    exact fun h ↦ by simp at h
  | call callId name given => exact absurd hcall Bool.noConfusion

theorem At.skip (h : At t σ s) (hcall : σ.focus.isCall = false) {onTool : ToolBlock → Code PUnit} :
    Meets (fun _ ↦ At t σ) Never ((match s.opened with
      | some (.toolUse block) => onTool block
      | _ => pure ⟨⟩) s) := by
  rcases ho : s.opened with - | (index | block | block)
  · exact h
  · exact h
  · exact h
  · exact absurd ho (h.no_tool hcall block)

theorem hear_other (σ : Position) : σ.hear E .other = σ := by
  obtain ⟨focus, past, mirror⟩ := σ
  simp [Position.hear, Focus.next, Focus.ended, Attention.hear, attention]

theorem hear_arguments (σ : Position) (delta : JsString) :
    σ.hear E (.arguments delta) = { σ with focus := σ.focus.next E (.arguments delta) } := by
  simp [Position.hear, Focus.ended, Attention.hear, attention]

theorem hear_wholeArguments (σ : Position) (arguments : JsString) :
    σ.hear E (.wholeArguments arguments) =
      { σ with focus := σ.focus.next E (.wholeArguments arguments) } := by
  simp [Position.hear, Focus.ended, Attention.hear, attention]

/-! ## Opening -/

theorem ensureStarted_at (σ : Position) : Keeps (At t σ) Never (ensureStarted E) :=
  keeps_at fun _ ↦ Seen.ensureStarted E

theorem emitQuiet_at (he : ∀ calls, note calls e = calls) (σ : Position) :
    Keeps (At t σ) Never (emit e) :=
  keeps_at fun d ↦ Seen.emitQuiet (he d.calls)

theorem At.closed_of_idle (h : At t σ s) (hidle : σ.focus = .idle) : At t σ.closed s := by
  obtain ⟨focus, past, mirror⟩ := σ
  obtain rfl : focus = .idle := hidle
  change At t ⟨.idle, past ++ [], mirror⟩ s
  rw [append_nil]
  exact h

theorem At.idle_of_isText (h : At t σ s) (htext : s.isText = true) : σ.focus = .idle := by
  obtain ⟨d, hseen, hfits⟩ := h
  rw [MessageStream.isText, hseen.opened] at htext
  obtain ⟨focus, past, mirror⟩ := σ
  cases focus with
  | idle => rfl
  | thinking itemKey =>
    obtain ⟨-, block, hopened, -⟩ := hfits.holds
    rw [hopened] at htext
    exact absurd htext Bool.noConfusion
  | call callId name given =>
    obtain ⟨before, block, hopened, -⟩ := hfits.holds
    rw [hopened] at htext
    exact absurd htext Bool.noConfusion

theorem openText_at : Ensures (Shut t ⟨.idle, past, mirror⟩) (do
      let index ← nextIndex
      emit (.blockStart index .text)
      setOpen (some (.text index))) (fun _ ↦ At t ⟨.idle, past, mirror⟩) Never := by
  intro s h
  obtain ⟨d, hseen, hfits, -⟩ := h
  obtain ⟨hpast, -⟩ := hfits.holds
  refine (Seen.withIndex (Ensures.bind (Seen.emitQuiet rfl) fun _ ↦
    (Seen.setOpen _).post fun _ s h ↦ ?_)) s hseen
  exact ⟨_, h, ⟨hpast, fun block ↦ ⟨by simp, fun tool ↦ by simp⟩⟩,
    fun c hc ↦ (hfits.fresh c hc).trans (Nat.lt_succ_self _), hfits.saw, hfits.mirror⟩

theorem ensureText_at (σ : Position) :
    Ensures (At t σ) (ensureText E) (fun _ ↦ At t σ.closed) Never := by
  refine Ensures.bind (ensureStarted_at E σ) fun _ ↦ Ensures.read fun s h ↦ ?_
  by_cases htext : s.isText = false
  · rw [when_pos htext]
    exact Ensures.bind (closeOpenBlock_shut E σ) (fun _ ↦ openText_at) s h
  · rw [when_neg htext]
    rw [Bool.not_eq_false] at htext
    exact h.closed_of_idle (h.idle_of_isText htext)

theorem onTextDelta_at (σ : Position) (data : Json) : Ensures (At t σ) (onTextDelta E data)
      (fun _ ↦ At t (σ.hear E (if (nonEmptyAt data "delta").isSome then .text else .other))) Never := by
  unfold onTextDelta
  cases nonEmptyAt data "delta" with
  | none => exact (hear_other E σ).symm ▸ fun s h ↦ h
  | some delta =>
    refine Ensures.bind (ensureText_at E σ) fun _ ↦ Ensures.read fun s h ↦ ?_
    rcases s.opened with - | (index | block | block)
    · exact h
    · exact emitQuiet_at (e := .blockDelta index (.text delta)) (fun _ ↦ rfl) σ.closed s h
    · exact h
    · exact h

/-- A thinking block is open, and every call is past. -/
def Thinks (t : Bool) (past : List SentCall) (mirror : Option JsString) (s : MessageStream) : Prop :=
  ∃ d, Seen t d s ∧ d.calls.map ToolCall.sent = past ∧ (∀ c ∈ d.calls, c.index < d.next) ∧
    d.saw = !past.isEmpty ∧ d.mirror = mirror ∧ s.isThinking = true

theorem Thinks.opened (h : Thinks t past mirror s) :
    ∃ block, s.opened = some (.thinking block) := by
  obtain ⟨d, hseen, -, -, -, -, hthinking⟩ := h
  rw [MessageStream.isThinking] at hthinking
  split at hthinking
  · exact ⟨_, by assumption⟩
  · exact absurd hthinking Bool.noConfusion

theorem Thinks.setOpen (block : ThinkingBlock) {itemKey : Identity}
    (hkey : block.reasoningItemKey = some itemKey) :
    Ensures (Thinks t past mirror) (setOpen (some (.thinking block)))
      (fun _ ↦ At t ⟨.thinking itemKey, past, mirror⟩) Never := by
  intro s h
  obtain ⟨d, hseen, hpast, hfresh, hsaw, hmirror, -⟩ := h
  refine ((Seen.setOpen _).post fun _ s h ↦ ?_) s hseen
  exact ⟨_, h, ⟨hpast, block, rfl, hkey⟩, hfresh, by rw [hsaw]; simp [Focus.isCall], hmirror⟩

theorem At.thinks (h : At t σ s) (hthinks : s.isThinking = true) :
    Thinks t σ.past σ.mirror s ∧ σ.closed.past = σ.past := by
  have hkey := h.isThinking.symm.trans hthinks
  obtain ⟨d, hseen, hfits⟩ := h
  obtain ⟨focus, past, mirror⟩ := σ
  cases focus with
  | thinking itemKey =>
    obtain ⟨hpast, -⟩ := hfits.holds
    refine ⟨⟨d, hseen, hpast, hfits.fresh, ?_, hfits.mirror, hthinks⟩, append_nil past⟩
    rw [hfits.saw]
    exact Bool.or_false _
  | _ => exact absurd hkey Bool.noConfusion

theorem ensureThinking_thinks (σ : Position) :
    Ensures (At t σ) (ensureThinking E) (fun _ ↦ Thinks t σ.closed.past σ.mirror) Never := by
  refine Ensures.bind (ensureStarted_at E σ) fun _ ↦ Ensures.read fun s h ↦ ?_
  by_cases hthinking : s.isThinking = false
  · rw [when_pos hthinking]
    refine (Ensures.bind (closeOpenBlock_shut E σ) fun _ ↦ ?_) s h
    intro s h
    obtain ⟨d, hseen, hfits, -⟩ := h
    obtain ⟨hpast, -⟩ := hfits.holds
    refine ((Seen.setOpen _).post fun _ s h ↦ ?_) s hseen
    refine ⟨_, h, hpast, hfits.fresh, ?_, hfits.mirror, ?_⟩
    · exact hfits.saw.trans (Bool.or_false _)
    · rw [MessageStream.isThinking, h.opened]
  · rw [when_neg hthinking]
    rw [Bool.not_eq_false] at hthinking
    obtain ⟨hthinks, hpast⟩ := h.thinks hthinking
    rw [hpast]
    exact hthinks

theorem ask_thinks : Keeps (Thinks t past mirror) Never ask := by
  intro s h
  obtain ⟨d, hseen, h⟩ := h
  rw [ask_granted hseen.granted]
  exact ⟨d, hseen, h⟩

/-- The position when the reasoning of another item has been closed. -/
def Position.turn (σ : Position) (itemKey : Identity) : Position :=
  match σ.focus with
  | .thinking key => if key = itemKey then σ else σ.closed
  | _ => σ

theorem turn_closed (σ : Position) (itemKey : Identity) :
    (σ.turn itemKey).closed = σ.closed ∧ (σ.turn itemKey).mirror = σ.mirror := by
  obtain ⟨focus, past, mirror⟩ := σ
  cases focus with
  | thinking key =>
    by_cases hkey : key = itemKey
    · simp [Position.turn, hkey]
    · simp [Position.turn, hkey, Position.closed, Focus.closing]
  | _ => exact ⟨rfl, rfl⟩

theorem closeOther_at (itemKey : Identity) (h : At t σ s) :
    Meets (fun _ ↦ At t (σ.turn itemKey)) Never
      (when (s.thinksOther itemKey = true) (closeOpenBlock E) s) := by
  have hclose := (closeOpenBlock_shut E σ).post (fun _ _ h ↦ h.at) s h
  obtain ⟨d, hseen, hfits⟩ := id h
  obtain ⟨focus, past, mirror⟩ := σ
  have hnot : s.thinksOther itemKey = false → At t (Position.mk focus past mirror |>.turn itemKey) s →
      Meets (fun _ ↦ At t (Position.mk focus past mirror |>.turn itemKey)) Never
        (when (s.thinksOther itemKey = true) (closeOpenBlock E) s) := by
    intro hother hat
    rw [when_neg (by rw [hother]; exact Bool.noConfusion)]
    exact hat
  cases focus with
  | idle =>
    obtain ⟨-, hidle⟩ := hfits.holds
    refine hnot ?_ h
    rw [MessageStream.thinksOther, hseen.opened]
    rcases ho : d.opened with - | (index | block | block)
    · rfl
    · rfl
    · exact absurd ho (hidle block).1
    · rfl
  | thinking key =>
    obtain ⟨-, block, ho, hkey⟩ := hfits.holds
    have hother : s.thinksOther itemKey = decide (key ≠ itemKey) := by
      rw [MessageStream.thinksOther, hseen.opened, ho]
      simp [hkey]
    by_cases heq : key = itemKey
    · refine hnot (by rw [hother]; simp [heq]) ?_
      simp only [Position.turn, if_pos heq]
      exact h
    · rw [when_pos (by rw [hother]; simp [heq])]
      simp only [Position.turn, if_neg heq]
      exact hclose
  | call callId name given =>
    obtain ⟨before, block, ho, -⟩ := hfits.holds
    refine hnot ?_ h
    rw [MessageStream.thinksOther, hseen.opened, ho]

theorem onReasoningDelta_at (summary : Bool) (σ : Position) (data : Json) :
    Ensures (At t σ) (onReasoningDelta E summary data)
      (fun _ ↦ At t (σ.hear E (if (nonEmptyAt data "delta").isSome then
        .reasoning (boundedReasoningIdentity E (data.field? (js "item_id"))) else .other))) Never := by
  unfold onReasoningDelta
  cases nonEmptyAt data "delta" with
  | none => exact (hear_other E σ).symm ▸ fun s h ↦ h
  | some delta =>
    generalize boundedReasoningIdentity E (data.field? (js "item_id")) = itemKey
    refine Ensures.read fun s h ↦ ?_
    obtain ⟨hclosed, hmirror⟩ := turn_closed σ itemKey
    refine Ensures.bind (P := fun s' ↦ s' = s) (Q := fun _ ↦ At t (σ.turn itemKey))
      (by rintro s' rfl; exact closeOther_at E itemKey h) (fun _ ↦ ?_) s rfl
    have hthinks := ensureThinking_thinks E (t := t) (σ.turn itemKey)
    rw [hclosed, hmirror] at hthinks
    refine Ensures.bind hthinks fun _ ↦ Ensures.read fun s h ↦ ?_
    obtain ⟨block, ho⟩ := h.opened
    rw [ho]
    exact Ensures.bind ask_thinks (fun _ ↦ Thinks.setOpen _ rfl) s h

/-! ## Calls -/

variable {item : Json}

theorem announce_at (hid : (stringAt item "call_id").isSome = true) :
    Ensures (Shut t ⟨.idle, past, mirror⟩) (do
      modify fun s : MessageStream ↦ { s with sawToolUse := true }
      let index ← nextIndex
      let name := (stringAt item "name").getD []
      let fresh ← uuid E
      let callId := (stringAt item "call_id").getD (js "toolu_" ++ fresh)
      emit (.blockStart index (.toolUse callId name))
      setOpen (some (.toolUse
        { index := index, callId := callId, itemId := stringAt item "id"
          bufferWebSearchArgs := isClaudeWebSearchToolName name })))
      (fun _ ↦ At t ⟨.call (callIdOf item) (nameOf item) [], past, mirror⟩) Never := by
  intro s h
  obtain ⟨d, hseen, hfits, -⟩ := h
  obtain ⟨hpast, -⟩ := hfits.holds
  obtain ⟨callId, hcallId⟩ := isSome_iff_exists.mp hid
  have hcode : Ensures (Seen t d) (do
      modify fun s : MessageStream ↦ { s with sawToolUse := true }
      let index ← nextIndex
      let _ ← uuid E
      emit (.blockStart index (.toolUse callId (nameOf item)))
      setOpen (some (.toolUse
        { index := index, callId := callId, itemId := stringAt item "id"
          bufferWebSearchArgs := isClaudeWebSearchToolName (nameOf item) })))
      (fun _ ↦ Seen t { d with
        calls := note d.calls (.blockStart d.next (.toolUse callId (nameOf item)))
        opened := some (.toolUse
          { index := d.next, callId := callId, itemId := stringAt item "id"
            bufferWebSearchArgs := isClaudeWebSearchToolName (nameOf item) })
        next := d.next + 1, saw := true }) Never := by
    refine Ensures.bind (Seen.modify (D := { d with saw := true })
      fun s h ↦ ⟨by rw [← h]; rfl, rfl, rfl⟩) fun _ ↦ Seen.withIndex ?_
    exact Ensures.bind (Seen.uuid E) fun _ ↦ Ensures.bind (Seen.emit _) fun _ ↦ Seen.setOpen _
  simp only [hcallId, getD_some]
  refine (hcode.post fun _ s h ↦ ⟨_, h, ?_⟩) s hseen
  refine ⟨⟨d.calls, _, rfl, ?_, hpast, hfits.fresh, rfl, rfl, ?_, ?_⟩, ?_, ?_, hfits.mirror⟩
  · simp only [note, callIdOf, hcallId, getD_some, ite_self]
  · simp only [ite_self]
  · simp
  · intro c hc
    rcases mem_append.mp hc with hc | hc
    · exact (hfits.fresh c hc).trans (Nat.lt_succ_self _)
    · rw [mem_singleton.mp hc]
      exact Nat.lt_succ_self _
  · simp [Focus.isCall]

theorem onItemAdded_at (σ : Position) (data : Json)
    (hid : ∀ item, itemOf "function_call" data = some item → (stringAt item "call_id").isSome = true) :
    Ensures (At t σ) (onItemAdded E data)
      (fun _ ↦ At t (σ.hear E (((itemOf "function_call" data).map .call).getD .other))) Never := by
  unfold onItemAdded
  change Ensures (At t σ) (forSome (itemOf "function_call" data) _) _ Never
  cases hitem : itemOf "function_call" data with
  | none => exact (hear_other E σ).symm ▸ fun s h ↦ h
  | some item =>
    exact Ensures.bind (ensureStarted_at E σ) fun _ ↦ Ensures.bind (closeOpenBlock_shut E σ) fun _ ↦
      announce_at E (hid item hitem)

/-! ## Arguments -/

variable {text : JsString}

theorem ne_nil_of_nonEmptyAt {v : Json} {name : String} (h : nonEmptyAt v name = some text) :
    text ≠ [] := by
  rw [nonEmptyAt, filter_eq_some_iff] at h
  exact of_decide_eq_true h.2

theorem Desk.Fits.more (h : d.Fits ⟨.call callId name given, past, mirror⟩) (given' : JsString)
    (block : ToolBlock) (hpast : before.map ToolCall.sent = past)
    (hbefore : ∀ b ∈ before, b.index < block.index) (hindex : block.index < d.next)
    (hsearch : block.bufferWebSearchArgs = isClaudeWebSearchToolName name)
    (hsent : block.webSearchArgsEmitted = false)
    (hbuf : block.argsBuf = if isClaudeWebSearchToolName name then given' else [])
    (hemitted : block.toolArgsEmitted = true ↔ isClaudeWebSearchToolName name = false ∧ given' ≠ []) :
    Desk.Fits ⟨.call callId name given', past, mirror⟩ { d with
      calls := before ++ [⟨block.index,
        ⟨callId, name, if isClaudeWebSearchToolName name then [] else given'⟩⟩]
      opened := some (.toolUse block) } := by
  refine ⟨⟨before, block, rfl, rfl, hpast, hbefore, hsearch, hsent, hbuf, hemitted⟩, ?_, ?_, h.mirror⟩
  · intro c hc
    rcases mem_append.mp hc with hc | hc
    · exact (hbefore c hc).trans hindex
    · rw [mem_singleton.mp hc]
      exact hindex
  · exact h.saw

variable {block : ToolBlock}

theorem emitMore_at (hseen : Seen t d s) (hfits : d.Fits ⟨.call callId name given, past, mirror⟩)
    (ho : d.opened = some (.toolUse block)) (hname : isClaudeWebSearchToolName name = false)
    (htext : text ≠ []) :
    Meets (fun _ ↦ At t ⟨.call callId name (given ++ text), past, mirror⟩) Never ((do
        emit (.blockDelta block.index (.inputJson text))
        setOpen (some (.toolUse { block with toolArgsEmitted := true })) : Code PUnit) s) := by
  obtain ⟨before, block', ho', hcalls, hpast, hbefore, hsearch, hsent, hbuf, -⟩ := hfits.holds
  obtain rfl : block = block' := by simpa [ho'] using ho.symm
  have hindex : block.index < d.next := hfits.fresh ⟨block.index, _⟩ (hcalls ▸ mem_concat_self)
  have hmore := hfits.more (given ++ text) { block with toolArgsEmitted := true }
    hpast hbefore hindex hsearch hsent (by rw [hbuf, hname]; rfl) (by simp [hname, htext])
  have hnote : note d.calls (.blockDelta block.index (.inputJson text)) =
      before ++ [⟨block.index, ⟨callId, name,
        if isClaudeWebSearchToolName name then [] else given ++ text⟩⟩] := by
    rw [hcalls, hname]
    exact note_last (c := ⟨block.index, ⟨callId, name, given⟩⟩) hbefore text
  refine (Ensures.bind (Seen.emit _) fun _ ↦ (Seen.setOpen _).post fun _ s h ↦ ?_) s hseen
  rw [hnote] at h
  exact ⟨_, h, hmore⟩

theorem onArgumentsDelta_at (σ : Position) (data : Json) : Ensures (At t σ) (onArgumentsDelta data)
      (fun _ ↦ At t (σ.hear E (((nonEmptyAt data "delta").map .arguments).getD .other))) Never := by
  unfold onArgumentsDelta
  cases hdelta : nonEmptyAt data "delta" with
  | none => exact (hear_other E σ).symm ▸ fun s h ↦ h
  | some delta =>
    rw [map_some, getD_some, hear_arguments]
    have hne := ne_nil_of_nonEmptyAt hdelta
    refine Ensures.read fun s h ↦ ?_
    obtain ⟨focus, past, mirror⟩ := σ
    change Meets (fun _ ↦ At t ⟨focus.next E (.arguments delta), past, mirror⟩) Never _
    cases focus with
    | call callId name given =>
      obtain ⟨d, hseen, hfits⟩ := h
      obtain ⟨before, block, ho, hcalls, hpast, hbefore, hsearch, hsent, hbuf, hemitted⟩ := hfits.holds
      have hindex : block.index < d.next := hfits.fresh ⟨block.index, _⟩ (hcalls ▸ mem_concat_self)
      rw [hseen.opened, ho]
      cases hname : isClaudeWebSearchToolName name with
      | true =>
        have hmore := hfits.more (given ++ delta)
          { block with argsBuf := block.argsBuf ++ delta } hpast hbefore hindex hsearch hsent
          (by rw [hbuf, hname]; rfl) (by simpa [hname] using hemitted)
        refine Ensures.ite (P := Seen t d) (fun _ ↦ ?_) (fun hno ↦ absurd (hsearch.trans hname) hno) s hseen
        refine Ensures.bind Seen.ask fun _ ↦ (Seen.setOpen _).post fun _ s h ↦ ?_
        have hsame : before ++ [(⟨block.index, ⟨callId, name,
            if isClaudeWebSearchToolName name then [] else given ++ delta⟩⟩ : ToolCall)] = d.calls := by
          rw [hcalls, hname]
          rfl
        rw [hsame] at hmore
        exact ⟨_, h, hmore⟩
      | false =>
        refine Ensures.ite (P := Seen t d) (fun hyes ↦ ?_)
          (fun _ s h ↦ emitMore_at h hfits ho hname hne) s hseen
        exact absurd (hyes.symm.trans (hsearch.trans hname)) Bool.noConfusion
    | _ => exact h.skip rfl

theorem emitArguments_at (hseen : Seen t d s)
    (hfits : d.Fits ⟨.call callId name given, past, mirror⟩) (ho : d.opened = some (.toolUse block))
    (v : Json) : Meets (fun _ ↦ At t ⟨.call callId name
      (if isClaudeWebSearchToolName name = true ∨ given ≠ [] then given
        else (nonEmptyAt v "arguments").getD []), past, mirror⟩) Never
      (emitArguments block (nonEmptyAt v "arguments") s) := by
  obtain ⟨before, block', ho', hcalls, hpast, hbefore, hsearch, hsent, hbuf, hemitted⟩ := hfits.holds
  obtain rfl : block = block' := by simpa [ho'] using ho.symm
  rw [emitArguments]
  by_cases hdone : isClaudeWebSearchToolName name = true ∨ given ≠ []
  · rw [if_pos hdone, if_pos]
    · exact ⟨d, hseen, hfits⟩
    · rw [hsearch, Bool.or_eq_true]
      rcases hdone with hname | hgiven
      · exact .inl hname
      · cases hname : isClaudeWebSearchToolName name with
        | true => exact .inl rfl
        | false => exact .inr (hemitted.mpr ⟨hname, hgiven⟩)
  · rw [not_or, not_not, Bool.not_eq_true] at hdone
    obtain ⟨hname, rfl⟩ := hdone
    have hnot : block.toolArgsEmitted = false := by
      rw [← Bool.not_eq_true, hemitted]
      simp
    rw [if_neg (by simp [hname]), if_neg (by simp [hsearch, hname, hnot])]
    cases harguments : nonEmptyAt v "arguments" with
    | none => exact ⟨d, hseen, hfits⟩
    | some text => exact emitMore_at hseen hfits ho hname (ne_nil_of_nonEmptyAt harguments)

theorem onArgumentsDone_at (σ : Position) (data : Json) : Ensures (At t σ) (onArgumentsDone data)
      (fun _ ↦ At t (σ.hear E (((nonEmptyAt data "arguments").map .wholeArguments).getD .other)))
      Never := by
  refine Ensures.read fun s h ↦ ?_
  obtain ⟨focus, past, mirror⟩ := σ
  cases focus with
  | call callId name given =>
    obtain ⟨d, hseen, hfits⟩ := h
    obtain ⟨before, block, ho, -⟩ := id hfits.holds
    have hwhole := emitArguments_at hseen hfits ho data
    rw [hseen.opened, ho]
    cases harguments : nonEmptyAt data "arguments" with
    | none =>
      have hsame : (if isClaudeWebSearchToolName name = true ∨ given ≠ [] then given
          else (none : Option JsString).getD []) = given := by
        split_ifs with hdone
        · rfl
        · rw [not_or, not_not] at hdone
          exact hdone.2.symm
      rw [harguments, hsame] at hwhole
      exact (hear_other E _).symm ▸ hwhole
    | some arguments =>
      rw [harguments] at hwhole
      exact (hear_wholeArguments E _ arguments).symm ▸ hwhole
  | _ =>
    cases nonEmptyAt data "arguments" with
    | none => exact (hear_other E _).symm ▸ h.skip rfl
    | some arguments => exact (hear_wholeArguments E _ arguments).symm ▸ h.skip rfl

/-! ## Items that are done -/

theorem onSearchDone_at (σ : Position) (item : Json) :
    Ensures (At t σ) (onSearchDone E item) (fun _ ↦ At t σ.closed) Never := by
  refine Ensures.bind (ensureStarted_at E σ) fun _ ↦ Ensures.bind (closeOpenBlock_shut E σ) fun _ ↦ ?_
  intro s h
  obtain ⟨d, hseen, hfits, -⟩ := h
  refine (Ensures.bind (Seen.uuid E) fun fresh ↦ Seen.withIndex ?_) s hseen
  -- the index of the search is no tool's index
  have hinput := note_fresh hfits.fresh (webSearchPairFromItem item fresh).input.stringify
  refine Ensures.bind (Seen.emitQuiet rfl) fun _ ↦ Ensures.bind (Seen.emitQuiet hinput) fun _ ↦
    Ensures.bind (Seen.emitQuiet rfl) fun _ ↦ Seen.withIndex ?_
  refine Ensures.bind (Seen.emitQuiet rfl) fun _ ↦ Ensures.bind (Seen.emitQuiet rfl) fun _ ↦ ?_
  refine Ensures.post (Keeps.when fun _ ↦ Seen.modify fun s h ↦ ⟨h, rfl, rfl⟩)
    fun _ s h ↦ ⟨_, h, hfits.holds, fun c hc ↦ ?_, hfits.saw, hfits.mirror⟩
  exact (hfits.fresh c hc).trans ((Nat.lt_succ_self _).trans (Nat.lt_succ_self _))

theorem Seen.closeOpenTool (ho : d.opened = some (.toolUse block)) :
    Ensures (Seen t d) (closeOpenBlock E) (fun _ ↦ Seen t { d with
      calls := if block.bufferWebSearchArgs = true ∧ block.webSearchArgsEmitted = false then
        note d.calls (.blockDelta block.index (.inputJson (sanitizedArguments block.argsBuf)))
        else d.calls
      opened := none }) Never := by
  refine Ensures.read fun s h ↦ ?_
  rw [h.opened, ho]
  exact Seen.closeTool block s h

theorem onCallDone_at (hseen : Seen t d s) (hfits : d.Fits ⟨.call callId name given, past, mirror⟩)
    (ho : d.opened = some (.toolUse block)) (item : Json) :
    Meets (fun _ ↦ At t ⟨.idle, past ++ [⟨callId, name,
      doneWith (isClaudeWebSearchToolName name) given item⟩], mirror⟩) Never
      (onCallDone E block item s) := by
  obtain ⟨before, block', ho', hcalls, hpast, hbefore, hsearch, hsent, hbuf, hemitted⟩ := id hfits.holds
  obtain rfl : block = block' := by simpa [ho'] using ho.symm
  have hindex : block.index < d.next := hfits.fresh ⟨block.index, _⟩ (hcalls ▸ mem_concat_self)
  rw [onCallDone]
  cases hname : isClaudeWebSearchToolName name with
  | true =>
    rw [if_pos ⟨hsearch.trans hname, hsent⟩]
    have hnote : note d.calls (.blockDelta block.index (.inputJson
        (sanitizedArguments ((nonEmptyAt item "arguments").getD block.argsBuf)))) =
        before ++ [⟨block.index, ⟨callId, name, doneWith true given item⟩⟩] := by
      rw [hcalls, hname, hbuf, hname]
      exact note_last (c := ⟨block.index, ⟨callId, name, []⟩⟩) hbefore _
    refine (Ensures.bind (Seen.emit _) fun _ ↦ Ensures.bind (Seen.setOpen _) fun _ ↦
      (Seen.closeOpenTool E rfl).post fun _ s h ↦ ?_) s hseen
    rw [hnote] at h
    refine ⟨_, h, ?_⟩
    rw [if_neg (by simp)]
    exact hfits.close hpast hbefore hindex
  | false =>
    rw [if_neg (by simp [hsearch, hname])]
    have hwhole := emitArguments_at hseen hfits ho item
    rw [hname] at hwhole
    refine Ensures.bind (P := fun s' ↦ s' = s) (Q := fun _ ↦ At t ⟨.call callId name _, past, mirror⟩)
      (fun s' hs' ↦ hs' ▸ hwhole) (fun _ ↦ ?_) s rfl
    refine (closeOpenBlock_shut E _).post fun _ s h ↦ ?_
    have hend : (Position.closed ⟨.call callId name (if false = true ∨ given ≠ [] then given
        else (nonEmptyAt item "arguments").getD []), past, mirror⟩) =
        ⟨.idle, past ++ [⟨callId, name, doneWith false given item⟩], mirror⟩ := by
      rw [Position.closed, Focus.closing, hname]
      by_cases hgiven : given = [] <;> simp [closedWith, doneWith, hgiven]
    rw [hend] at h
    exact h.at

/-! ## Reasoning that is done -/

theorem emitRedacted_at (σ : Position) (data : JsString) : Keeps (At t σ) Never (emitRedacted data) := by
  intro s h
  obtain ⟨d, hseen, hfits⟩ := h
  refine (Seen.withIndex (Ensures.bind (Seen.emitQuiet rfl) fun _ ↦
    (Seen.emitQuiet rfl).post fun _ s h ↦ ?_)) s hseen
  exact ⟨_, h, hfits.holds, fun c hc ↦ (hfits.fresh c hc).trans (Nat.lt_succ_self _), hfits.saw,
    hfits.mirror⟩

/-- The position when there is room for redacted blocks. -/
def Position.room (σ : Position) : Position :=
  match σ.focus with
  | .thinking _ => σ
  | _ => σ.closed

theorem emitRedactedBlocks_at (σ : Position) (red : List JsString) :
    Ensures (At t σ) (emitRedactedBlocks E red) (fun _ ↦ At t (if red = [] then σ else σ.room)) Never := by
  unfold emitRedactedBlocks
  by_cases hred : red = []
  · subst hred
    exact fun s h ↦ h
  · rw [when_pos hred, if_neg hred]
    refine Ensures.bind ?_ fun _ ↦ Keeps.forM (emitRedacted_at σ.room) red
    refine Ensures.bind (ensureStarted_at E σ) fun _ ↦ Ensures.read fun s h ↦ ?_
    have hthinking := h.isThinking
    obtain ⟨focus, past, mirror⟩ := σ
    cases focus with
    | thinking itemKey =>
      rw [when_neg (by rw [hthinking]; exact Bool.noConfusion)]
      exact h
    | _ =>
      have hno : s.isThinking = false := hthinking
      rw [when_pos hno]
      exact (closeOpenBlock_shut E _).post (fun _ _ h ↦ h.at) s h

theorem closeThinks :
    Ensures (Thinks t past mirror) (closeOpenBlock E) (fun _ ↦ At t ⟨.idle, past, mirror⟩) Never := by
  refine Ensures.read fun s h ↦ ?_
  obtain ⟨block, ho⟩ := h.opened
  obtain ⟨d, hseen, hpast, hfresh, hsaw, hmirror, -⟩ := h
  rw [ho]
  refine ((Seen.closeThinking E block).post fun _ s h ↦ ?_) s hseen
  obtain ⟨n, hn, h⟩ := h
  exact ⟨_, h, ⟨hpast, fun block ↦ ⟨by simp, fun tool ↦ by simp⟩⟩,
    fun c hc ↦ (hfresh c hc).trans_le hn, hsaw.trans (Bool.or_false _).symm, hmirror⟩

/-- The mirror when reasoning has been shown. -/
def mirrorAfter (env : Option ReasoningEnvelope) (mirror : Option JsString) : Option JsString :=
  (env.bind fun env ↦ env.upd.bind fun upd ↦ env.txt.map fun _ ↦ upd).or mirror

theorem completeThinking_at (item : Json) (env : Option ReasoningEnvelope) (native : JsString)
    (block : ThinkingBlock) :
    Ensures (Thinks t past mirror) (completeThinking E item env native block)
      (fun _ ↦ At t ⟨.idle, past, mirrorAfter env mirror⟩) Never := by
  unfold completeThinking
  refine Ensures.bind (Q := fun _ ↦ Thinks t past (mirrorAfter env mirror)) ?_ fun _ ↦
    Ensures.bind (Q := fun _ ↦ Thinks t past (mirrorAfter env mirror)) ?_ fun _ ↦ closeThinks E
  · have hcopy : ∀ m : JsString × JsString, Ensures (Thinks t past mirror) (do
        modify fun s : MessageStream ↦ { s with progressMirrorId := some m.1 }
        ask) (fun _ ↦ Thinks t past (some m.1)) Never := by
      intro m
      refine Ensures.bind (Q := fun _ ↦ Thinks t past (some m.1)) (Ensures.modify fun s h ↦ ?_)
        fun _ ↦ ask_thinks
      obtain ⟨d, ⟨hdesk, hlive, hgranted⟩, hpast, hfresh, hsaw, -, hthinking⟩ := h
      refine ⟨{ d with mirror := some m.1 }, ⟨?_, hlive, hgranted⟩, hpast, hfresh, hsaw, rfl, hthinking⟩
      rw [← hdesk]
      rfl
    rcases env with - | ⟨sig, upd, red, txt⟩
    · exact fun s h ↦ h
    · cases upd with
      | none => exact fun s h ↦ h
      | some upd =>
        cases txt with
        | none => exact fun s h ↦ h
        | some txt => exact hcopy (upd, txt)
  · intro s h
    obtain ⟨d, hseen, hpast, hfresh, hsaw, hmirror, -⟩ := h
    refine ((Seen.setOpen _).post fun _ s h ↦ ?_) s hseen
    refine ⟨_, h, hpast, hfresh, hsaw, hmirror, ?_⟩
    rw [MessageStream.isThinking, h.opened]

theorem showThinking_at (σ : Position) (item : Json) (env : Option ReasoningEnvelope)
    (native : JsString) : Ensures (At t σ) (showThinking E item env native)
      (fun _ ↦ At t (if σ.focus.key.isSome = true ∨ (truthy (env.bind (·.sig))).isSome = true ∨ native ≠ []
        then ⟨.idle, σ.closed.past, mirrorAfter env σ.mirror⟩ else σ)) Never := by
  unfold showThinking
  refine Ensures.read fun s h ↦ ?_
  have hthinking := h.isThinking
  by_cases hkey : σ.focus.key.isSome = true
  · rw [if_pos (.inl hkey)]
    have hopen : s.isThinking = true := hthinking.trans hkey
    obtain ⟨hthinks, hpast⟩ := h.thinks hopen
    rw [when_neg (by simp [hopen])]
    rw [← hpast] at hthinks
    rw [bind_run, pure_run, andThen_ok]
    refine Ensures.read (fun s h ↦ ?_) s hthinks
    obtain ⟨block, ho⟩ := h.opened
    rw [ho]
    exact completeThinking_at E item env native block s h
  · rw [Bool.not_eq_true] at hkey
    have hclosed : s.isThinking = false := hthinking.trans hkey
    by_cases hsigns : (truthy (env.bind (·.sig))).isSome = true ∨ native ≠ []
    · rw [if_pos (.inr hsigns), when_pos ⟨hsigns, hclosed⟩]
      refine (Ensures.bind (ensureThinking_thinks E σ) fun _ ↦ Ensures.read fun s h ↦ ?_) s h
      obtain ⟨block, ho⟩ := h.opened
      rw [ho]
      exact completeThinking_at E item env native block s h
    · rw [if_neg (by simp [hkey, hsigns]), when_neg fun hboth ↦ hsigns hboth.1]
      refine Ensures.bind (Keeps.pure (P := At t σ) _) (fun _ ↦ Ensures.read fun s h ↦ ?_) s h
      have hnot : ∀ block, s.opened ≠ some (.thinking block) := by
        intro block ho
        have hthinking := h.isThinking
        rw [MessageStream.isThinking, ho, hkey] at hthinking
        exact Bool.noConfusion hthinking
      rcases ho : s.opened with - | (index | block | block)
      · exact h
      · exact h
      · exact absurd ho (hnot block)
      · exact h

theorem signs_iff (item : Json) :
    ((truthy ((decodeReasoningEnvelope E (encryptedOf item)).bind (·.sig))).isSome = true ∨
      nativeEncryptedReasoning (encryptedOf item) ≠ []) ↔ signs E item = true := by
  simp [signs]

theorem hasRedacted_eq (item : Json) : hasRedacted E item =
      !decide (((decodeReasoningEnvelope E (encryptedOf item)).map (·.red)).getD [] = []) := by
  simp [hasRedacted]

theorem hear_reasoningDone (σ : Position) (item : Json) {redacted turned : Position}
    (hturned : turned = σ.turn (boundedReasoningIdentity E (item.field? (js "id"))))
    (hredacted : redacted = if hasRedacted E item = false then turned else turned.room) :
    (if redacted.focus.key.isSome = true ∨ signs E item = true then ⟨.idle, redacted.closed.past,
        mirrorAfter (decodeReasoningEnvelope E (encryptedOf item)) redacted.mirror⟩ else redacted) =
      σ.hear E (.reasoningDone item) := by
  obtain ⟨focus, past, mirror⟩ := σ
  cases focus with
  | idle =>
    have hsame : redacted = ⟨.idle, past, mirror⟩ := by
      rw [hredacted, hturned]
      simp [Position.turn, Position.room, Position.closed, Focus.closing]
    subst hsame
    by_cases hsigns : signs E item = true <;>
      simp [Position.hear, Focus.next, Focus.ended, Focus.closing, Attention.hear, Attention.copies,
        attention, Position.closed, Focus.key, copiedBy, mirrorAfter, hsigns]
  | thinking itemKey =>
    by_cases hkey : itemKey = boundedReasoningIdentity E (item.field? (js "id"))
    · have hsame : redacted = ⟨.thinking itemKey, past, mirror⟩ := by
        rw [hredacted, hturned]
        simp [Position.turn, Position.room, hkey]
      subst hsame
      simp [Position.hear, Focus.next, Focus.ended, Focus.closing, Attention.hear, Attention.copies,
        attention, Position.closed, Focus.key, copiedBy, mirrorAfter, hkey]
    · have hsame : redacted = ⟨.idle, past, mirror⟩ := by
        rw [hredacted, hturned]
        simp [Position.turn, Position.room, Position.closed, Focus.closing, hkey]
      subst hsame
      by_cases hsigns : signs E item = true <;>
        simp [Position.hear, Focus.next, Focus.ended, Focus.closing, Attention.hear, Attention.copies,
          attention, Position.closed, Focus.key, copiedBy, mirrorAfter, hsigns, hkey]
  | call callId name given =>
    by_cases hred : hasRedacted E item = false
    · have hsame : redacted = ⟨.call callId name given, past, mirror⟩ := by
        rw [hredacted, if_pos hred, hturned]
        rfl
      subst hsame
      by_cases hsigns : signs E item = true <;>
        simp [Position.hear, Focus.next, Focus.ended, Focus.closing, Attention.hear, Attention.copies,
          attention, Position.closed, Focus.key, copiedBy, mirrorAfter, hsigns, hred]
    · have hsame : redacted = Position.closed ⟨.call callId name given, past, mirror⟩ := by
        rw [hredacted, if_neg hred, hturned]
        rfl
      subst hsame
      by_cases hsigns : signs E item = true <;>
        simp [Position.hear, Focus.next, Focus.ended, Focus.closing, Attention.hear, Attention.copies,
          attention, Position.closed, Focus.key, copiedBy, mirrorAfter, hsigns, hred]

theorem onReasoningDone_at (σ : Position) (item : Json) :
    Ensures (At t σ) (onReasoningDone E item) (fun _ ↦ At t (σ.hear E (.reasoningDone item))) Never := by
  refine Ensures.bind (Keeps.when fun _ ↦ keeps_at fun _ ↦ Seen.ask) fun _ ↦ Ensures.read fun s h ↦ ?_
  have hcode := Ensures.bind (P := fun s' ↦ s' = s)
    (by rintro s' rfl; exact closeOther_at E (boundedReasoningIdentity E (item.field? (js "id"))) h)
    (fun _ ↦ Ensures.bind (emitRedactedBlocks_at E _
        (((decodeReasoningEnvelope E (encryptedOf item)).map (·.red)).getD [])) fun _ ↦
      showThinking_at E _ item (decodeReasoningEnvelope E (encryptedOf item))
        (nativeEncryptedReasoning (encryptedOf item))) s rfl
  simp only [signs_iff] at hcode
  rw [hear_reasoningDone E σ item rfl (by simp only [hasRedacted_eq, Bool.not_eq_false', decide_eq_true_eq])]
    at hcode
  exact hcode

/-! ## Every event -/

theorem hear_callDone (h : σ.focus.isCall = false) (item : Json) :
    σ.hear E (.callDone item) = σ := by
  obtain ⟨focus, past, mirror⟩ := σ
  cases focus with
  | call callId name given => exact absurd h Bool.noConfusion
  | _ => simp [Position.hear, Focus.next, Focus.ended, Attention.hear, attention]

theorem itemDone_other (h : At t σ s) (item : Json) (hno : σ.focus.isCall = false) :
    Meets (fun _ ↦ At t (σ.hear E (if stringAt item "type" = some (js "function_call") then
        .callDone item else if stringAt item "type" = some (js "reasoning") then .reasoningDone item
        else .other))) Never
      ((if s.isText = true ∧ stringAt item "type" = some (js "message") then closeOpenBlock E
        else if stringAt item "type" = some (js "reasoning") then onReasoningDone E item
        else pure ⟨⟩ : Code PUnit) s) := by
  have hreasoning : js "reasoning" ≠ js "function_call" := by decide +kernel
  have hmessage : js "message" ≠ js "function_call" := by decide +kernel
  have hmessage' : js "message" ≠ js "reasoning" := by decide +kernel
  by_cases htext : s.isText = true ∧ stringAt item "type" = some (js "message")
  · rw [if_pos htext, if_neg (by rw [htext.2]; simpa using hmessage),
      if_neg (by rw [htext.2]; simpa using hmessage'), hear_other]
    have hidle := h.idle_of_isText htext.1
    refine (closeOpenBlock_shut E σ).post (fun _ s h ↦ ?_) s h
    have hsame : σ.closed = σ := by
      obtain ⟨focus, past, mirror⟩ := σ
      obtain rfl : focus = .idle := hidle
      simp [Position.closed, Focus.closing]
    rw [hsame] at h
    exact h.at
  · rw [if_neg htext]
    by_cases hr : stringAt item "type" = some (js "reasoning")
    · rw [if_pos hr, if_neg (by rw [hr]; simpa using hreasoning), if_pos hr]
      exact onReasoningDone_at E σ item s h
    · rw [if_neg hr, if_neg hr]
      split_ifs
      · rw [hear_callDone E hno]
        exact h
      · rw [hear_other]
        exact h

theorem meaningOfDone_eq {data : Json} (h : plainObject (data.field? (js "item")) = some item) :
    meaningOfDone data = if stringAt item "type" = some (js "web_search_call") then .searchDone
      else if stringAt item "type" = some (js "function_call") then .callDone item
      else if stringAt item "type" = some (js "reasoning") then .reasoningDone item else .other := by
  unfold meaningOfDone itemOf
  rw [h]
  simp only [filter_some, decide_eq_true_eq]
  by_cases hsearch : stringAt item "type" = some (js "web_search_call")
  · simp only [if_pos hsearch, isSome_some, if_true]
  · simp only [if_neg hsearch, isSome_none, Bool.false_eq_true, if_false]
    split_ifs <;> rfl

theorem onItemDone_at (σ : Position) (data : Json) :
    Ensures (At t σ) (onItemDone E data) (fun _ ↦ At t (σ.hear E (meaningOfDone data))) Never := by
  unfold onItemDone
  cases hitem : plainObject (data.field? (js "item")) with
  | none =>
    have hmeaning : meaningOfDone data = .other := by simp [meaningOfDone, itemOf, hitem]
    rw [hmeaning, hear_other]
    exact fun s h ↦ h
  | some item =>
    rw [meaningOfDone_eq hitem]
    refine Ensures.read fun s h ↦ ?_
    by_cases hsearch : stringAt item "type" = some (js "web_search_call")
    · rw [if_pos hsearch, if_pos hsearch]
      exact onSearchDone_at E σ item s h
    rw [if_neg hsearch, if_neg hsearch]
    by_cases hno : σ.focus.isCall = false
    · have hother := itemDone_other E h item hno
      rcases ho : s.opened with - | (index | block | block)
      · exact hother
      · exact hother
      · exact hother
      · exact absurd ho (h.no_tool hno block)
    · obtain ⟨focus, past, mirror⟩ := σ
      cases focus with
      | idle => exact absurd rfl hno
      | thinking itemKey => exact absurd rfl hno
      | call callId name given =>
        obtain ⟨d, hseen, hfits⟩ := id h
        obtain ⟨before, block, ho, -⟩ := id hfits.holds
        rw [hseen.opened, ho]
        have hdone := onCallDone_at E hseen hfits ho item
        by_cases hcall : stringAt item "type" = some (js "function_call")
        · rw [if_pos hcall]
          exact Ensures.ite (P := fun s' ↦ s' = s) (fun _ s' hs' ↦ hs' ▸ hdone)
            (fun hneg ↦ absurd hcall hneg) s rfl
        · rw [if_neg hcall]
          refine Ensures.ite (P := fun s' ↦ s' = s) (fun hpos ↦ absurd hpos hcall) (fun _ ↦ ?_) s rfl
          refine Ensures.ite (fun hr ↦ ?_) fun hr ↦ ?_
          · rw [if_pos hr]
            rintro s' rfl
            exact onReasoningDone_at E _ item _ h
          · rw [if_neg hr, hear_other]
            rintro s' rfl
            exact h

/-- The events that end a response. -/
def isTerminal (eventName : JsString) : Bool :=
  eventName = js "response.completed" ∨ eventName = js "response.incomplete" ∨
    eventName = js "response.failed"

theorem onLifecycle_at (σ : Position) (data : Json) : Keeps (At t σ) Never (onLifecycle data) := by
  refine keeps_at fun d ↦ Seen.modify fun s h ↦ ?_
  dsimp only
  split_ifs <;> exact ⟨h, rfl, rfl⟩

theorem handleFrame_at (room : Bool) (σ : Position) (f : Frame) (hlast : isTerminal f.1 = false)
    (hid : ∀ item, f.1 = js "response.output_item.added" → itemOf "function_call" f.2 = some item →
      (stringAt item "call_id").isSome = true) :
    Ensures (At t σ) (handleFrame E room f.1 f.2) (fun _ ↦ At t (σ.read E f)) Never := by
  obtain ⟨name, data⟩ := f
  dsimp only at hlast hid ⊢
  refine Ensures.read fun s h ↦ ?_
  have hmirror : s.progressMirrorId = σ.mirror := by
    obtain ⟨d, hseen, hfits⟩ := h
    exact (congrArg Desk.mirror hseen.desk).trans hfits.mirror
  rw [hmirror, Position.read]
  dsimp only
  by_cases hskip : mirrors σ.mirror data = true
  · rw [if_pos hskip, if_pos hskip]
    by_cases hdone : name = js "response.output_item.done"
    · rw [if_pos hdone, when_pos hdone]
      obtain ⟨d, hseen, hfits⟩ := h
      exact ⟨{ d with mirror := none }, ⟨by rw [← hseen.desk]; rfl, hseen.terminated, hseen.granted⟩,
        hfits.holds, hfits.fresh, hfits.saw, rfl⟩
    · rw [if_neg hdone, when_neg hdone]
      exact h
  rw [if_neg hskip, if_neg hskip, meaningOf]
  dsimp only
  by_cases hcreated : name = js "response.created" ∨ name = js "response.in_progress"
  · rw [if_pos hcreated, if_pos hcreated, hear_other]
    exact onLifecycle_at σ data s h
  rw [if_neg hcreated, if_neg hcreated]
  by_cases hbeat : name = js "response.heartbeat"
  · rw [if_pos hbeat, if_pos hbeat, hear_other]
    exact Keeps.when (P := At t σ) (fun _ ↦ emitQuiet_at (fun _ ↦ rfl) σ) s h
  rw [if_neg hbeat, if_neg hbeat]
  by_cases htext : name = js "response.output_text.delta"
  · rw [if_pos htext, if_pos htext]
    exact onTextDelta_at E σ data s h
  rw [if_neg htext, if_neg htext]
  by_cases hsummary : name = js "response.reasoning_summary_text.delta"
  · rw [if_pos hsummary, if_pos (.inl hsummary)]
    exact onReasoningDelta_at E true σ data s h
  rw [if_neg hsummary]
  by_cases hraw : name = js "response.reasoning_text.delta"
  · rw [if_pos hraw, if_pos (.inr hraw)]
    exact onReasoningDelta_at E false σ data s h
  rw [if_neg hraw, if_neg (not_or.mpr ⟨hsummary, hraw⟩)]
  by_cases hadded : name = js "response.output_item.added"
  · rw [if_pos hadded, if_pos hadded]
    exact onItemAdded_at E σ data (fun item ↦ hid item hadded) s h
  rw [if_neg hadded, if_neg hadded]
  by_cases hdelta : name = js "response.function_call_arguments.delta"
  · rw [if_pos hdelta, if_pos hdelta]
    exact onArgumentsDelta_at E σ data s h
  rw [if_neg hdelta, if_neg hdelta]
  by_cases hargs : name = js "response.function_call_arguments.done"
  · rw [if_pos hargs, if_pos hargs]
    exact onArgumentsDone_at E σ data s h
  rw [if_neg hargs, if_neg hargs]
  by_cases hdone : name = js "response.output_item.done"
  · rw [if_pos hdone, if_pos hdone]
    exact onItemDone_at E σ data s h
  rw [if_neg hdone, if_neg hdone]
  rw [isTerminal, decide_eq_false_iff_not, not_or, not_or] at hlast
  obtain ⟨hcompleted, hincomplete, hfailed⟩ := hlast
  rw [if_neg hcompleted, if_neg hincomplete, when_neg hfailed,
    if_neg (by simp [hcompleted, hincomplete, hfailed]), hear_other]
  exact h

/-! ## The end -/

/-- All calls have been written, and if there are any they are the reason to stop. -/
structure Finished (sent : List SentCall) (s : MessageStream) : Prop where
  terminated : s.terminated = true
  calls : (callsIn s.written).map ToolCall.sent = sent
  stops : sent ≠ [] → ∃ usage, .messageDelta (js "tool_use") usage ∈ s.written

theorem At.saw (h : At t σ s) : s.sawToolUse = !σ.closed.past.isEmpty := by
  obtain ⟨d, hseen, hfits⟩ := h
  have hsaw : s.sawToolUse = d.saw := congrArg Desk.saw hseen.desk
  obtain ⟨focus, past, mirror⟩ := σ
  rw [hsaw, hfits.saw]
  cases focus with
  | call callId name given | _ => simp [Focus.isCall, Position.closed, Focus.closing]

theorem terminate_at :
    Ensures (At false σ) (modify fun s : MessageStream ↦ { s with terminated := true })
      (fun _ ↦ At true σ) Never := by
  refine Ensures.modify fun s h ↦ ?_
  obtain ⟨d, ⟨rfl, -, hgranted⟩, hfits⟩ := h
  exact ⟨deskOf s, ⟨rfl, rfl, hgranted⟩, hfits⟩

theorem Shut.calls (h : Shut t σ.closed s) :
    (callsIn s.written).map ToolCall.sent = σ.closed.past := by
  obtain ⟨d, hseen, hfits, -⟩ := h
  obtain ⟨hpast, -⟩ := hfits.holds
  rw [← hpast, ← hseen.desk]
  rfl

theorem Shut.state (h : Shut t σ s) : s.terminated = t ∧ s.grants = none :=
  let ⟨_, hseen, _, _⟩ := h
  ⟨hseen.terminated, hseen.granted⟩

theorem At.state (h : At t σ s) : s.terminated = t ∧ s.grants = none :=
  let ⟨_, hseen, _⟩ := h
  ⟨hseen.terminated, hseen.granted⟩

/-- Behind the last block; some events have been written. -/
structure Behind (sent : List SentCall) (events : List MessagesEvent) (s : MessageStream) : Prop where
  terminated : s.terminated = true
  granted : s.grants = none
  calls : (callsIn s.written).map ToolCall.sent = sent
  written : ∀ e ∈ events, e ∈ s.written

theorem Behind.emit {sent : List SentCall} {events : List MessagesEvent}
    (he : ∀ calls, note calls e = calls) :
    Ensures (Behind sent events) (emit e) (fun _ ↦ Behind sent (e :: events)) Never := by
  refine Ensures.bind (Q := fun _ ↦ Behind sent events) (fun s h ↦ ?_) fun _ ↦
    Ensures.modify fun s h ↦ ?_
  · rw [ask_granted h.granted]
    exact h
  · refine ⟨h.terminated, h.granted, ?_, fun e' he' ↦ ?_⟩
    · rw [callsIn_concat, he]
      exact h.calls
    · rcases mem_cons.mp he' with rfl | he'
      · exact mem_concat_self
      · exact mem_append_left _ (h.written e' he')

theorem finish_finished (σ : Position) {stopReason : JsString}
    (hstop : σ.closed.past ≠ [] → stopReason = js "tool_use") (usage : Option Json) :
    Ensures (At false σ) (finish E stopReason usage) (fun _ ↦ Finished σ.closed.past) Never := by
  refine Ensures.read fun s h ↦ ?_
  rw [when_pos h.state.1]
  refine (Ensures.bind terminate_at fun _ ↦ Ensures.bind (ensureStarted_at E σ) fun _ ↦
    Ensures.bind (closeOpenBlock_shut E σ) fun _ ↦ Ensures.read fun s h ↦ ?_) s h
  refine Ensures.bind (P := Behind σ.closed.past []) (Behind.emit fun _ ↦ rfl) (fun _ ↦
    Ensures.bind (Behind.emit fun _ ↦ rfl) fun _ ↦ Ensures.modify fun s h ↦ ?_) s
    ⟨h.state.1, h.state.2, h.calls, by simp⟩
  have hwritten := h.written _ (mem_cons_of_mem _ mem_cons_self)
  exact ⟨h.terminated, h.calls, fun hne ↦ ⟨_, hstop hne ▸ hwritten⟩⟩

theorem fail_finished (σ : Position) (hnone : σ.closed.past = []) (status : ℚ) (message : JsString)
    (upstreamDerived : Bool) (code : Option JsString) :
    Ensures (At false σ) (fail E status message upstreamDerived code)
      (fun _ ↦ Finished σ.closed.past) Never := by
  refine Ensures.read fun s h ↦ ?_
  rw [when_pos h.state.1]
  have hbehind : ∀ s, At true σ s ∨ Shut true σ.closed s → Behind σ.closed.past [] s := by
    rintro s (h | h)
    · refine ⟨h.state.1, h.state.2, ?_, by simp⟩
      obtain ⟨d, hseen, hfits⟩ := h
      have hcalls : callsIn s.written = d.calls := congrArg Desk.calls hseen.desk
      obtain ⟨focus, past, mirror⟩ := σ
      obtain ⟨hpast, hclosing⟩ := append_eq_nil_iff.mp hnone
      rw [hcalls, hnone]
      cases focus with
      | idle | thinking itemKey => exact hfits.holds.1.trans hpast
      | call callId name given => exact absurd hclosing (cons_ne_nil _ _)
    · exact ⟨h.state.1, h.state.2, h.calls, by simp⟩
  refine (Ensures.bind terminate_at fun _ ↦ Ensures.bind
    (Q := fun _ s ↦ At true σ s ∨ Shut true σ.closed s) ?_ fun _ ↦ ?_) s h
  · by_cases hstarted : s.started = true
    · rw [when_pos hstarted]
      exact (closeOpenBlock_shut E σ).post fun _ _ h ↦ .inr h
    · rw [when_neg hstarted]
      exact fun s h ↦ .inl h
  · refine Ensures.mono (Ensures.bind (Behind.emit fun _ ↦ rfl) fun _ ↦ Ensures.modify fun s h ↦ ?_)
      hbehind (fun _ _ h ↦ h) fun _ _ h ↦ h
    exact ⟨h.terminated, h.calls, fun hne ↦ absurd hnone hne⟩

theorem onCompleted_finished (σ : Position) (data : Json) :
    Ensures (At false σ) (onCompleted E data) (fun _ ↦ Finished (σ.closed.past)) Never := by
  refine Ensures.reading fun s h ↦ ?_
  have hsaw := h.saw
  cases hpast : σ.closed.past with
  | nil =>
    rw [hpast] at hsaw
    rw [show s.sawToolUse = false from hsaw, ← hpast]
    split
    · exact fail_finished E σ hpast _ _ _ _
    · exact finish_finished E σ (fun hne ↦ absurd hpast hne) _
  | cons c past =>
    rw [hpast] at hsaw
    rw [show s.sawToolUse = true from hsaw, ← hpast]
    split
    · exact absurd ‹true = false› (by simp)
    · exact finish_finished E σ (fun _ ↦ by simp_all) _

end Messages
