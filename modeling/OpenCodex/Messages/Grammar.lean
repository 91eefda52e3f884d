import OpenCodex.Messages.Stream

/-!
# The grammar of a Messages stream

A reader of the stream is always in one of five places (`Progress`): before the message, between two
blocks, inside a block, behind the closing `message_delta`, or at the end.  `Progress.read` says what may
come there and where it leads; a stream is well formed if it can be read to the end.  Pings may come
anywhere.

What is proved of the code is the relation of its state to that place.  Between two stretches of code it
is fixed by the open block and the block index (`Stage`, `Live`); where code was cut off by an overflow
it is anywhere but at the end (`Midway`), and there the error of the overflow may follow.
-/

set_option autoImplicit false

namespace Messages

open Act (Ensures Keeps)

/-! ## Places -/

inductive BlockKind where
  | text
  | thinking
  | tool
  /-- A block that takes no delta. -/
  | whole
  deriving DecidableEq

def ContentBlock.kind : ContentBlock → BlockKind
  | .text => .text
  | .thinking => .thinking
  | .redactedThinking _ => .whole
  | .toolUse _ _ => .tool
  | .serverToolUse _ _ => .tool
  | .result _ _ _ => .whole

/-- The deltas a block takes. -/
def BlockKind.takes : BlockKind → Delta → Bool
  | .text, .text _ => true
  | .thinking, .thinking _ => true
  | .thinking, .signature _ => true
  | .tool, .inputJson _ => true
  | _, _ => false

inductive Progress where
  | fresh
  /-- So many blocks are complete. -/
  | between (n : ℕ)
  /-- The block with this index is open. -/
  | inside (n : ℕ) (kind : BlockKind)
  /-- `message_delta` has been read. -/
  | stopping
  | over
  deriving DecidableEq

/-- An error that reports an overflow of the budget. -/
def isOverflowError (body : Json) : Bool :=
  Sse.stringOf (fieldOf (body.field? (js "error")) "code") = some translationBufferLimit

/-- What may come next.  If `strict`, nothing but `message_stop` may follow `message_delta`. -/
def Progress.read (strict : Bool) : Progress → MessagesEvent → Option Progress
  | p, .ping => some p
  | .fresh, .messageStart _ => some (.between 0)
  | .fresh, .error _ => some .over
  | .between n, .blockStart i block => if i = n then some (.inside n block.kind) else none
  | .inside n kind, .blockDelta i delta =>
    if i = n ∧ kind.takes delta = true then some (.inside n kind) else none
  | .inside n _, .blockStop i => if i = n then some (.between (n + 1)) else none
  | .between _, .messageDelta _ _ => some .stopping
  | .stopping, .messageStop => some .over
  | .between _, .error _ => some .over
  | .inside _ _, .error body => if isOverflowError body then some .over else none
  | .stopping, .error body =>
    if strict = false ∧ isOverflowError body = true then some .over else none
  | _, _ => none

/-- The place after some events, if they may come in this order. -/
def Progress.readAll (strict : Bool) (p : Progress) (events : List MessagesEvent) : Option Progress :=
  events.foldlM (Progress.read strict) p

theorem readAll_concat {strict : Bool} {p q : Progress} {events : List MessagesEvent}
    (h : p.readAll strict events = some q) (e : MessagesEvent) :
    p.readAll strict (events ++ [e]) = q.read strict e := by
  rw [Progress.readAll] at h ⊢
  rw [List.foldlM_append, h]
  change Progress.read strict q e >>= _ = _
  cases Progress.read strict q e <;> rfl

variable (E : MessagesEnv)

theorem isOverflowError_body (status : ℚ) (message : JsString) (type : Option JsString) :
    isOverflowError (anthropicErrorBody E status message type (some translationBufferLimit)) =
      true := by
  have htype : js "type" ≠ js "error" := by decide +kernel
  have htype' : js "type" ≠ js "code" := by decide +kernel
  have hmessage : js "message" ≠ js "code" := by decide +kernel
  have hcode : Bridge.truthy (some translationBufferLimit) = some translationBufferLimit := by
    decide +kernel
  simp [isOverflowError, anthropicErrorBody, field?_record, fieldOf, Json.lookup_cons, optional, hcode,
    htype, htype', hmessage, Sse.stringOf]

theorem overflowError_read {p : Progress} (h : p ≠ .over) :
    p.read false (overflowError E) = some .over := by
  have hoverflow := isOverflowError_body E 413
    (js "upstream translation buffer exceeded the safe limit") (some (js "request_too_large"))
  cases p with
  | fresh => rfl
  | between n => rfl
  | inside n kind => exact if_pos hoverflow
  | stopping => exact if_pos ⟨rfl, hoverflow⟩
  | «over» => exact absurd rfl h

/-! ## The state and the place -/

/-- Where the reader is while this block is open. -/
def placeOf (n : ℕ) : Option OpenBlock → Progress
  | none => .between n
  | some (.thinking _) => .between n
  | some (.text index) => .inside index .text
  | some (.toolUse block) => .inside block.index .tool

/-- A block that was announced was announced last. -/
def Newest (n : ℕ) : Option OpenBlock → Prop
  | none => True
  | some (.thinking _) => True
  | some (.text index) => index + 1 = n
  | some (.toolUse block) => block.index + 1 = n

/-- What is fixed at some point of the code. -/
structure Stage (terminated : Bool) (p : Progress) (opened : Option OpenBlock) (n : ℕ)
    (s : MessageStream) : Prop where
  read : Progress.fresh.readAll false s.written = some p
  opened : s.opened = opened
  index : s.blockIndex = n
  started : s.started = true
  terminated : s.terminated = terminated
  delivered : s.terminalDelivered = false

/-- The message has begun. -/
def Running (terminated : Bool) (s : MessageStream) : Prop :=
  ∃ opened n, Newest n opened ∧ Stage terminated (placeOf n opened) opened n s

/-- Nothing has been written but pings. -/
structure Unstarted (terminated : Bool) (s : MessageStream) : Prop where
  read : Progress.fresh.readAll false s.written = some .fresh
  opened : s.opened = none
  index : s.blockIndex = 0
  started : s.started = false
  terminated : s.terminated = terminated
  delivered : s.terminalDelivered = false

def Live (terminated : Bool) (s : MessageStream) : Prop := Unstarted terminated s ∨ Running terminated s

/-- The terminal has been written. -/
structure Delivered (s : MessageStream) : Prop where
  read : Progress.fresh.readAll false s.written = some .over
  terminated : s.terminated = true
  delivered : s.terminalDelivered = true

/-- Code was cut off before a terminal. -/
structure Midway (s : MessageStream) : Prop where
  read : ∃ p, Progress.fresh.readAll false s.written = some p ∧ p ≠ .over
  delivered : s.terminalDelivered = false

/-- Between two stretches of code. -/
def Sound (s : MessageStream) : Prop := Live false s ∨ Delivered s

/-- Where code was cut off. -/
def CutOff (s : MessageStream) : Prop := Midway s ∨ Delivered s

variable {s : MessageStream}

theorem Stage.midway {t : Bool} {p : Progress} {o : Option OpenBlock} {n : ℕ} (h : Stage t p o n s)
    (hp : p ≠ .over) : Midway s := ⟨⟨p, h.read, hp⟩, h.delivered⟩

theorem placeOf_ne_over (n : ℕ) (o : Option OpenBlock) : placeOf n o ≠ .over := by
  rcases o with - | (_ | _ | _) <;> exact Progress.noConfusion

theorem Running.midway {t : Bool} (h : Running t s) : Midway s := by
  obtain ⟨o, n, -, hstage⟩ := h
  exact hstage.midway (placeOf_ne_over n o)

theorem Live.midway {t : Bool} (h : Live t s) : Midway s :=
  h.elim (fun h ↦ ⟨⟨_, h.read, Progress.noConfusion⟩, h.delivered⟩) Running.midway

theorem Live.terminated {t : Bool} (h : Live t s) : s.terminated = t :=
  h.elim (·.terminated) fun ⟨_, _, _, h⟩ ↦ h.terminated

/-! ## What the primitives do -/

variable {t : Bool} {p q : Progress} {o : Option OpenBlock} {n : ℕ}

variable {R : Overflow → MessageStream → Prop}

theorem ask_ensures {P : MessageStream → Prop} (hP : ∀ s g, P s → P { s with grants := g })
    (hR : ∀ s, P s → R .overflow s) : Keeps P R ask := by
  intro s hs
  rw [ask]
  split
  · exact hs
  · exact hR s hs
  · exact hP s _ hs

theorem Stage.ask (hp : p ≠ .over) : Keeps (Stage t p o n) (fun _ ↦ Midway) ask :=
  ask_ensures (fun _ _ h ↦ ⟨h.read, h.opened, h.index, h.started, h.terminated, h.delivered⟩)
    fun _ h ↦ h.midway hp

/-- **Emitting** moves the reader on. -/
theorem Stage.emit {e : MessagesEvent} (hp : p ≠ .over) (he : p.read false e = some q) :
    Ensures (Stage t p o n) (emit e) (fun _ ↦ Stage t q o n) fun _ ↦ Midway := by
  refine Ensures.bind (Stage.ask hp) fun _ ↦ Ensures.modify fun s h ↦ ?_
  exact ⟨(readAll_concat h.read e).trans he, h.opened, h.index, h.started, h.terminated, h.delivered⟩

theorem Stage.setOpen (o' : Option OpenBlock) :
    Ensures (Stage t p o n) (setOpen o') (fun _ ↦ Stage t p o' n) R :=
  Ensures.modify fun _ h ↦ ⟨h.read, rfl, h.index, h.started, h.terminated, h.delivered⟩

theorem Stage.withIndex {α : Type} {f : ℕ → Code α} {Q : α → MessageStream → Prop}
    (hf : Ensures (Stage t p o (n + 1)) (f n) Q R) :
    Ensures (Stage t p o n) (nextIndex >>= f) Q R := by
  intro s h
  have hrun : (nextIndex >>= f) s = f n { s with blockIndex := s.blockIndex + 1 } := by
    rw [← h.index]
    rfl
  rw [hrun]
  exact hf _ ⟨h.read, h.opened, congrArg (· + 1) h.index, h.started, h.terminated, h.delivered⟩

theorem Stage.uuid : Ensures (Stage t p o n) (uuid E) (fun _ ↦ Stage t p o n) R := by
  refine .read fun s h ↦ ?_
  exact ⟨h.read, h.opened, h.index, h.started, h.terminated, h.delivered⟩

theorem Stage.modify {g : MessageStream → MessageStream}
    (hg : ∀ s, (g s).written = s.written ∧ (g s).opened = s.opened ∧
      (g s).blockIndex = s.blockIndex ∧ (g s).started = s.started ∧
      (g s).terminated = s.terminated ∧ (g s).terminalDelivered = s.terminalDelivered) :
    Keeps (Stage t p o n) R (modify g) := by
  refine .modify fun s h ↦ ?_
  obtain ⟨hw, ho, hi, hs, ht, hd⟩ := hg s
  exact ⟨hw ▸ h.read, ho ▸ h.opened, hi ▸ h.index, hs ▸ h.started, ht ▸ h.terminated,
    hd ▸ h.delivered⟩

end Messages
