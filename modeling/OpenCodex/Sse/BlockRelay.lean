import OpenCodex.Bridge.Events
import OpenCodex.Sse.BlockBuffer
import OpenCodex.Sse.DecoderRuns

/-!
# A relay that rewrites blocks

The relay decodes a body, hands each block to a rewrite and delivers what that returns, with the
delimiter the block had.  A delimiter that ends in a carriage return at the end of the buffer may
still get a line feed with the next chunk; the relay remembers this (`pendingLineFeed`), takes the
line feed out of the text and delivers it at once.

With what the buffer has not scanned, the state of the relay is a `Cutting.Frontier` of the text
(`Standing.front`): so the blocks that it hands on are those of the whole text, wherever the chunks
were cut, and with a rewrite that returns its block the bytes are those of the text.
-/

set_option autoImplicit false

open List Act Sse.SseBlockBuffer Utf8

namespace Sse

/-! ## The relay -/

/-- What a relay works with. -/
structure RelayEnv (β σ δ : Type) where
  budget : TranslatorBudget β
  decoder : TextDecoder δ
  rewrite : JsString → σ → List JsString × σ

structure BlockRelay (β σ : Type) where
  buffer : SseBlockBuffer β
  pendingLineFeed : Bool := false
  pendingLineFeedVisible : Bool := false
  /-- The state of the rewrite. -/
  rewriting : σ
  /-- The blocks that the rewrite was given. -/
  handed : List JsString := []
  /-- The chunks that were enqueued. -/
  delivered : List Bytes := []

namespace BlockRelay

variable {β σ δ : Type} (E : RelayEnv β σ δ)

/-- A call of the buffer. -/
def call {α : Type} (x : Act (SseBlockBuffer β) BufferRefusal α) :
    Act (BlockRelay β σ) BufferRefusal α :=
  fun s ↦ ((x s.buffer).1, { s with buffer := (x s.buffer).2 })

def enqueueText (text : JsString) : Act (BlockRelay β σ) BufferRefusal PUnit := do
  let s ← get
  let bytes := Utf8.byteLength text
  match E.budget.reserveTransient s.buffer.budget bytes with
  | none => throw .budget
  | some budget => set { s with
      delivered := s.delivered ++ [Utf8.bytesOf text]
      buffer.budget := E.budget.releaseRetained (E.budget.commitRetained budget bytes) bytes }

/-- `rewrite(block)` -/
def rewriteBlock (block : JsString) : Act (BlockRelay β σ) BufferRefusal (List JsString) := do
  let s ← get
  set { s with rewriting := (E.rewrite block s.rewriting).2, handed := s.handed ++ [block] }
  pure (E.rewrite block s.rewriting).1

/-- The blocks with a delimiter each; the last one may have another. -/
def enqueueBlocks (settled delimiter : JsString) :
    List JsString → Act (BlockRelay β σ) BufferRefusal PUnit
  | [] => pure ⟨⟩
  | [block] => enqueueText E (block ++ delimiter)
  | block :: blocks => do
    enqueueText E (block ++ settled)
    enqueueBlocks settled delimiter blocks

/-- A delimiter that nothing can be added to. -/
def settledDelimiter (delimiter : JsString) : JsString :=
  if delimiter.getLast? = some 13 then delimiter ++ [10] else delimiter

/-- A block of the buffer is rewritten, and what comes of it enqueued. -/
def emitBlock (block delimiter : JsString) : Act (BlockRelay β σ) BufferRefusal PUnit := do
  modify fun s ↦ { s with
    pendingLineFeed := delimiter.getLast? == some 13 && s.buffer.isEmpty }
  let outBlocks ← rewriteBlock E block
  modify fun s ↦ { s with pendingLineFeedVisible := !outBlocks.isEmpty }
  enqueueBlocks E (settledDelimiter delimiter) delimiter outBlocks

/-- The loop over the blocks of the buffer, for so many turns. -/
def emitBlocks : ℕ → Act (BlockRelay β σ) BufferRefusal PUnit
  | 0 => pure ⟨⟩
  | turns + 1 => do
    match ← call (SseBlockBuffer.next E.budget) with
    | none => pure ⟨⟩
    | some (block, delimiter) =>
      emitBlock E block delimiter
      emitBlocks turns

/-- What is left at the end is the last block, and has no delimiter. -/
def emitTail : Act (BlockRelay β σ) BufferRefusal PUnit := do
  let s ← get
  when (s.buffer.tail ≠ []) do
    let tailBlocks ← rewriteBlock E s.buffer.tail
    let tailDelimiter :=
      if Bridge.includes s.buffer.tail (js "\r\n") then js "\r\n\r\n" else js "\n\n"
    enqueueBlocks E tailDelimiter [] tailBlocks
    modify fun s ↦ { s with buffer := s.buffer.clear E.budget }

def emitProcessedBlocks (flushFinal : Bool) : Act (BlockRelay β σ) BufferRefusal PUnit := do
  let s ← get
  emitBlocks E (s.buffer.buffer.length + 1)
  modify fun s ↦ { s with buffer := s.buffer.compact }
  when (flushFinal = true) (emitTail E)

def appendFragment (fragment : JsString) : Act (BlockRelay β σ) BufferRefusal PUnit := do
  let s ← get
  let continuation := s.pendingLineFeed && fragment.head? == some 10
  when (s.pendingLineFeed = true ∧ fragment ≠ []) do
    modify fun s ↦ { s with pendingLineFeed := false }
  let fragment := if continuation then fragment.drop 1 else fragment
  call (SseBlockBuffer.append E.budget (fun _ ↦ true) fragment)
  when (continuation = true ∧ s.pendingLineFeedVisible = true) do
    enqueueText E [10]

/-- The pulls, from a state of the decoder on. -/
def pullAll : δ → List Bytes → Act (BlockRelay β σ) BufferRefusal PUnit
  | d, [] => do
    appendFragment E (E.decoder.flush d)
    emitProcessedBlocks E true
    modify fun s ↦ { s with buffer := s.buffer.clear E.budget }
  | d, value :: chunks => do
    appendFragment E (E.decoder.decode d value).2
    emitProcessedBlocks E false
    pullAll (E.decoder.decode d value).1 chunks

end BlockRelay

open BlockRelay in
/-- A body that is read to its end. -/
def relaySseWithBlockRewrite {β σ δ : Type} (E : RelayEnv β σ δ) (budget : β) (rewriting : σ)
    (chunks : List Bytes) : Except BufferRefusal PUnit × BlockRelay β σ :=
  tryCatch (pullAll E E.decoder.fresh chunks)
    (fun error ↦ do
      modify fun s ↦ { s with buffer := s.buffer.clear E.budget }
      throw error)
    { buffer := { budget }, rewriting }

/-! ## The blocks of a text -/

/-- The blocks of a text that a pair of line endings closes, each ending taken as long as it can be,
and what follows the last. -/
def textBlocks (text : JsString) : List JsString × JsString :=
  Cutting.blocks delimiterLength [] text

/-- What a rewrite is to be given of a text. -/
def handedBlocks (text : JsString) : List JsString :=
  (textBlocks text).1 ++ if (textBlocks text).2 = [] then [] else [(textBlocks text).2]

open Cutting (Frontier)
open SseDecoder (isLineFeed)

namespace BlockRelay

/-! ## What a relay has done -/

section

variable {β σ δ : Type} {E : RelayEnv β σ δ} {whole final : JsString} {s : BlockRelay β σ}

/-- The rewrite returns its block unchanged. -/
def Returns (E : RelayEnv β σ δ) : Prop := ∀ block rewriting, (E.rewrite block rewriting).1 = [block]

/-- Text that ends in a line ending, or is empty. -/
def Ended (text : JsString) : Prop := ∀ c ∈ text.getLast?, c = 13 ∨ c = 10

/-- Where a relay stands that has read a text. -/
structure Standing (whole : JsString) (s : BlockRelay β σ) : Prop where
  sound : s.buffer.Sound
  front : Frontier delimiterLength isLineFeed whole s.handed s.buffer.scanned s.pendingLineFeed
    s.buffer.unscanned

/-- What was delivered of the text, with a rewrite that changes nothing. -/
structure Passing (whole : JsString) (s : BlockRelay β σ) : Prop where
  passed : ∃ passed, whole = passed ++ s.buffer.tail ∧ Ended passed ∧
    s.delivered.flatten = Utf8.bytesOf passed
  visible : s.pendingLineFeed = true → s.pendingLineFeedVisible = true

/-- Where a relay stands between two chunks. -/
def Reached (E : RelayEnv β σ δ) (whole : JsString) (s : BlockRelay β σ) : Prop :=
  Standing whole s ∧ (Returns E → Passing whole s)

/-- Why a relay may end with an error, and what it has handed on by then. -/
def Refused (E : RelayEnv β σ δ) (final : JsString) (_ : BufferRefusal) (s : BlockRelay β σ) :
    Prop :=
  s.handed <+: handedBlocks final ∧ ∃ budget bytes, E.budget.reserveTransient budget bytes = none

theorem Standing.handed (h : Standing whole s) (ext : JsString) :
    s.handed <+: handedBlocks (whole ++ ext) :=
  (h.front.closed_kept ext).trans (prefix_append _ _)

variable {text : JsString}

theorem bytesOf_append (h : Ended text) (rest : JsString) :
    Utf8.bytesOf (text ++ rest) = Utf8.bytesOf text ++ Utf8.bytesOf rest := by
  rcases eq_nil_or_concat text with rfl | ⟨init, c, hinit⟩
  · rfl
  · obtain rfl := hinit.trans concat_eq_append
    have hc : c = 13 ∨ c = 10 := h c (by rw [getLast?_concat]; rfl)
    have hlow : c.toNat < 0xd800 := by rcases hc with rfl | rfl <;> decide
    have hcons : Utf8.pointsOf (c :: rest) = Utf8.pointsOf [c] ++ Utf8.pointsOf rest := by
      cases rest with
      | nil => rfl
      | cons d rest =>
        conv_lhs => rw [Utf8.pointsOf, if_neg (by omega)]
        rfl
    rw [Utf8.bytesOf, Utf8.bytesOf, Utf8.bytesOf, append_assoc, singleton_append,
      EventSource.pointsOf_append hlow, @EventSource.pointsOf_append _ _ [] hlow, hcons,
      ← append_assoc, flatMap_append]

/-! ### Emitting -/

theorem enqueueText_cases (E : RelayEnv β σ δ) (text : JsString) (s : BlockRelay β σ) :
    (enqueueText E text s = (.error .budget, s) ∧
        ∃ bytes, E.budget.reserveTransient s.buffer.budget bytes = none) ∨
      ∃ budget, enqueueText E text s = (.ok ⟨⟩, { s with
        delivered := s.delivered ++ [Utf8.bytesOf text]
        buffer.budget := budget }) := by
  rw [enqueueText, bind_of_ok (get_run s)]
  cases hgrant : E.budget.reserveTransient s.buffer.budget (Utf8.byteLength text) with
  | none => exact Or.inl ⟨rfl, _, hgrant⟩
  | some budget => exact Or.inr ⟨_, rfl⟩

/-- What is delivered and what the budget holds does not matter. -/
def Stable (P : BlockRelay β σ → Prop) : Prop :=
  ∀ s delivered budget, P s → P { s with delivered, buffer.budget := budget }

variable {P : BlockRelay β σ → Prop}

theorem enqueueText_keeps (hP : Stable P) (hhanded : ∀ s, P s → s.handed <+: handedBlocks final)
    (text : JsString) : Keeps P (Refused E final) (enqueueText E text) := by
  intro s hs
  rcases enqueueText_cases E text s with ⟨hrun, bytes, hnone⟩ | ⟨budget, hrun⟩
  · rw [hrun]
    exact ⟨hhanded s hs, _, bytes, hnone⟩
  · rw [hrun]
    exact hP s _ budget hs

theorem enqueueBlocks_keeps (hP : Stable P) (hhanded : ∀ s, P s → s.handed <+: handedBlocks final)
    (settled delimiter : JsString) (blocks : List JsString) :
    Keeps P (Refused E final) (enqueueBlocks E settled delimiter blocks) := by
  induction blocks with
  | nil => exact .pure _
  | cons block blocks ih =>
    cases blocks with
    | nil => exact enqueueText_keeps hP hhanded _
    | cons next blocks => exact (enqueueText_keeps hP hhanded _).bind fun _ ↦ ih

theorem stable_standing (whole : JsString) : Stable (σ := σ) (β := β) (Standing whole) :=
  fun _ _ _ h ↦ ⟨⟨h.sound.offset_le, h.sound.scanOffset_le, h.sound.inside, h.sound.scanned,
    h.sound.bytes, h.sound.ledger, h.sound.last⟩, h.front⟩

variable {start : ℕ}

theorem slice_append (text : JsString) {mid stop : ℕ} (hmid : start ≤ mid) (hstop : mid ≤ stop) :
    slice text start mid ++ (text.drop mid).take (stop - mid) = slice text start stop := by
  have hsum : stop - start = (mid - start) + (stop - mid) := by omega
  rw [slice, slice, hsum, take_add, drop_drop, Nat.add_sub_cancel' hmid]

theorem Standing.pass (h : Standing whole s) (hwaiting : s.pendingLineFeed = false) {n : ℕ}
    (hle : s.buffer.scanOffset ≤ n) (hn : n ≤ s.buffer.buffer.length)
    (hletters : ∀ j, s.buffer.scanOffset ≤ j → j < n →
      delimiterLength (s.buffer.buffer.drop j) = 0 ∧ 3 ≤ (s.buffer.buffer.drop j).length) :
    Frontier delimiterLength isLineFeed whole s.handed
      (slice s.buffer.buffer s.buffer.offset n) false (s.buffer.buffer.drop n) := by
  have hfront := h.front
  rw [hwaiting] at hfront
  have hpassed := hfront.letters (n := n - s.buffer.scanOffset)
    (by rw [unscanned, length_drop]; omega) fun j hj ext ↦ by
      obtain ⟨hzero, hlong⟩ := hletters (s.buffer.scanOffset + j) (by omega) (by omega)
      rw [unscanned, drop_drop]
      exact delimiterLength_long hlong hzero ext
  rwa [SseBlockBuffer.scanned, unscanned, slice_append _ h.sound.offset_le hle,
    drop_drop, Nat.add_sub_cancel' hle] at hpassed

theorem Standing.stopped (h : Standing whole s) (hfound : s.buffer.found = none) :
    Standing whole { s with buffer := { s.buffer with
      scanOffset := s.buffer.resume, needsScan := false } } := by
  have hle := h.sound.scanOffset_le
  have hoff := h.sound.offset_le
  have hin := h.sound.inside
  have hscan := h.sound.scan_le
  have hresume : s.buffer.resume = max s.buffer.offset (s.buffer.buffer.length - 3) := rfl
  refine ⟨h.sound.stopped hfound, ?_⟩
  cases hwaiting : s.pendingLineFeed with
  | true =>
    -- nothing is in the buffer, so that the scan stays where it is
    have hfront := h.front
    rw [hwaiting] at hfront
    have hnil := (hfront.between rfl).2
    rw [unscanned, drop_eq_nil_iff] at hnil
    have hsame : s.buffer.resume = s.buffer.scanOffset := by omega
    rw [hsame]
    exact hfront
  | false =>
    refine h.pass (n := s.buffer.resume) hwaiting hle (by omega) fun j hj hlt ↦ ⟨?_, ?_⟩
    · have hnone := firstDelimiter_eq_none.mp (h.sound.found_none hfound) (j - s.buffer.scanOffset)
      rwa [drop_drop, Nat.add_sub_cancel' hj] at hnone
    · rw [length_drop]
      omega

theorem two_le_delimiterLength (h : delimiterLength text ≠ 0) : 2 ≤ delimiterLength text := by
  obtain ⟨hfirst, hsecond, hlength⟩ := delimiterLength_eq h
  omega

/-- Behind the rewrite of a block that the buffer has found. -/
def handedOn (E : RelayEnv β σ δ) (s : BlockRelay β σ) (budget : β) (start length : ℕ) :
    BlockRelay β σ :=
  let block := slice s.buffer.buffer s.buffer.offset start
  let buffer := (recharged E.budget s.buffer budget
    (s.buffer.nextBytes start length)).consumed (start + length)
  { s with
    buffer
    pendingLineFeed :=
      (slice s.buffer.buffer start (start + length)).getLast? == some 13 && buffer.isEmpty
    pendingLineFeedVisible := !(E.rewrite block s.rewriting).1.isEmpty
    rewriting := (E.rewrite block s.rewriting).2
    handed := s.handed ++ [block] }

variable {length : ℕ}

/-- **A delimiter closes a block.**  It waits for a line feed if it ends in a carriage return at the
end of the buffer. -/
theorem Standing.closed (h : Standing whole s) (hfound : s.buffer.found = some (start, length))
    (E : RelayEnv β σ δ) (budget : β) : Standing whole (s.handedOn E budget start length) := by
  obtain ⟨-, hle, hlt, hlength, hpos, hfits, hbefore⟩ := h.sound.found_some hfound
  have htwo : 2 ≤ length := hlength ▸ two_le_delimiterLength (hlength ▸ hpos)
  have hne : s.buffer.unscanned ≠ [] := by
    rw [unscanned, Ne, drop_eq_nil_iff]
    omega
  have hat := h.pass (h.front.waiting_false hne) hle hlt.le fun j hj hjlt ↦
    ⟨hbefore j hj hjlt, by rw [length_drop]; omega⟩
  have hrest : s.buffer.buffer.drop start ≠ [] := by
    rw [Ne, drop_eq_nil_iff]
    omega
  have hall : delimiterLength (s.buffer.buffer.drop start) =
      (s.buffer.buffer.drop start).length ↔ start + length = s.buffer.buffer.length := by
    rw [hlength, length_drop]
    omega
  refine ⟨h.sound.consumed budget hfound, ?_⟩
  dsimp only [handedOn]
  rw [scanned_consumed, unscanned_consumed, isEmpty_consumed, h.sound.delimiter_eq hfound]
  change Frontier delimiterLength isLineFeed whole (s.handed ++ [_]) []
    (_ && decide (start + length = s.buffer.buffer.length)) (s.buffer.buffer.drop (start + length))
  by_cases hlast : start + length = s.buffer.buffer.length ∧
      (s.buffer.buffer.drop start).getLast? = some 13
  · have hends := hall.mpr hlast.1
    rw [hends, take_length, hlast.2, hlast.1, drop_length]
    simp only [BEq.rfl, decide_true, Bool.and_true]
    refine hat.closeLate hrest (fun a ext ↦ ?_) hends
    rw [delimiterLength_append (hlength ▸ hpos), hends]
    simp only [hlast.2, getElem?_cons_zero, Option.some.injEq, true_and, isLineFeed, beq_iff_eq]
  · have hopen : (((s.buffer.buffer.drop start).take
        (delimiterLength (s.buffer.buffer.drop start))).getLast? == some 13 &&
          decide (start + length = s.buffer.buffer.length)) = false := by
      rw [Bool.and_eq_false_iff]
      by_cases hstop : start + length = s.buffer.buffer.length
      · rw [hall.mpr hstop, take_length]
        exact Or.inl (beq_false_of_ne fun hcr ↦ hlast ⟨hstop, hcr⟩)
      · exact Or.inr (decide_eq_false hstop)
    rw [hopen, ← drop_drop]
    refine hat.close hpos (fun ext ↦ ?_) (by rw [length_drop]; omega)
    rw [delimiterLength_append (hlength ▸ hpos), if_neg fun hand ↦ hlast ⟨hall.mp hand.1, hand.2.1⟩,
      Nat.add_zero, hlength]

/-- What one block adds to what was delivered. -/
def Emitting (E : RelayEnv β σ δ) (whole block delimiter : JsString) (out : List JsString)
    (s : BlockRelay β σ) : Prop :=
  Returns E → out = [block] ∧ s.pendingLineFeedVisible = true ∧
    ∃ passed, whole = passed ++ (block ++ delimiter ++ s.buffer.tail) ∧ Ended passed ∧
      s.delivered.flatten = Utf8.bytesOf passed

variable {delimiter : JsString}

theorem ended_append (hne : delimiter ≠ []) (h : ∀ c ∈ delimiter, c = 13 ∨ c = 10) :
    Ended (text ++ delimiter) := by
  intro c hc
  rw [getLast?_append_of_ne_nil _ hne] at hc
  exact h c (mem_of_getLast? hc)

variable {ext : JsString}

theorem enqueueBlocks_ensures {block : JsString} {out : List JsString} (settled : JsString)
    (hfinal : whole ++ ext = final) (hne : delimiter ≠ [])
    (hdelimiter : ∀ c ∈ delimiter, c = 13 ∨ c = 10) (n : ℕ) : Ensures
      (fun s ↦ Standing whole s ∧ Emitting E whole block delimiter out s ∧ s.buffer.tail.length = n)
      (enqueueBlocks E settled delimiter out)
      (fun _ s ↦ Reached E whole s ∧ s.buffer.tail.length = n) (Refused E final) := by
  by_cases hE : Returns E
  · rintro s ⟨hs, hemit, hn⟩
    obtain ⟨rfl, hvisible, passed, htext, hended, hbytes⟩ := hemit hE
    rw [enqueueBlocks]
    rcases enqueueText_cases E (block ++ delimiter) s with ⟨hrun, bytes, hnone⟩ | ⟨budget, hrun⟩
    · rw [hrun]
      exact ⟨hfinal ▸ hs.handed ext, _, bytes, hnone⟩
    · rw [hrun]
      refine ⟨⟨stable_standing whole s _ budget hs, fun _ ↦
        ⟨⟨passed ++ (block ++ delimiter), ?_, ?_, ?_⟩, fun _ ↦ hvisible⟩⟩, hn⟩
      · rw [htext]
        simp only [append_assoc]
        rfl
      · rw [← append_assoc]
        exact ended_append hne hdelimiter
      · rw [bytesOf_append hended, ← hbytes, flatten_append, flatten_singleton]
  · have hstable : Stable (σ := σ) (β := β) fun s ↦ Standing whole s ∧ s.buffer.tail.length = n :=
      fun s delivered budget h ↦ ⟨stable_standing whole s delivered budget h.1, h.2⟩
    refine (enqueueBlocks_keeps (E := E) hstable (fun s hs ↦ hfinal ▸ hs.1.handed ext) settled
      delimiter out).mono (fun s hs ↦ ⟨hs.1, hs.2.2⟩) (fun _ s hs ↦ ?_) fun _ _ ↦ id
    exact ⟨⟨hs.1, fun h ↦ absurd h hE⟩, hs.2⟩

theorem emitBlock_ensures (hs : Standing whole s) (hpassing : Returns E → Passing whole s)
    (hfound : s.buffer.found = some (start, length)) (budget : β) (hfinal : whole ++ ext = final) :
    Meets (fun _ s' ↦ Reached E whole s' ∧ s'.buffer.tail.length < s.buffer.tail.length)
      (Refused E final) (emitBlock E (slice s.buffer.buffer s.buffer.offset start)
        (slice s.buffer.buffer start (start + length))
        { s with buffer := (recharged E.budget s.buffer budget
          (s.buffer.nextBytes start length)).consumed (start + length) }) := by
  obtain ⟨-, hle, hlt, hlength, hpos, hfits, -⟩ := hs.sound.found_some hfound
  have htail := hs.sound.tail_eq hfound
  have hrest : (s.handedOn E budget start length).buffer.tail =
      s.buffer.buffer.drop (start + length) := tail_consumed _ _ _ _
  have hdelimiter : ∀ c ∈ slice s.buffer.buffer start (start + length), c = 13 ∨ c = 10 := by
    rw [hs.sound.delimiter_eq hfound]
    exact fun c hc ↦ mem_delimiter hc
  have hlen : (slice s.buffer.buffer start (start + length)).length = length := by
    rw [slice, length_take, length_drop]
    omega
  have hne : slice s.buffer.buffer start (start + length) ≠ [] := ne_nil_of_length_pos (by omega)
  have hshort : (s.buffer.buffer.drop (start + length)).length < s.buffer.tail.length := by
    rw [htail, length_append, length_append, hlen]
    omega
  have hemit : Emitting E whole (slice s.buffer.buffer s.buffer.offset start)
      (slice s.buffer.buffer start (start + length))
      (E.rewrite (slice s.buffer.buffer s.buffer.offset start) s.rewriting).1
      (s.handedOn E budget start length) := by
    intro hE
    obtain ⟨⟨passed, htext, hended, hbytes⟩, -⟩ := hpassing hE
    have hout := hE (slice s.buffer.buffer s.buffer.offset start) s.rewriting
    refine ⟨hout, ?_, passed, ?_, hended, hbytes⟩
    · change (!(E.rewrite _ _).1.isEmpty) = true
      rw [hout]
      rfl
    · rw [htext, htail, hrest]
  have henqueue : Ensures (fun s' ↦ s' = s.handedOn E budget start length)
      (enqueueBlocks E (settledDelimiter (slice s.buffer.buffer start (start + length)))
        (slice s.buffer.buffer start (start + length))
        (E.rewrite (slice s.buffer.buffer s.buffer.offset start) s.rewriting).1)
      (fun _ s' ↦ Reached E whole s' ∧ s'.buffer.tail.length < s.buffer.tail.length)
      (Refused E final) :=
    (enqueueBlocks_ensures _ hfinal hne hdelimiter _).mono (by
        rintro s' rfl
        exact ⟨hs.closed hfound E budget, hemit, congrArg List.length hrest⟩)
      (fun _ s' hs' ↦ ⟨hs'.1, hs'.2 ▸ hshort⟩) fun _ _ ↦ id
  exact henqueue _ rfl

/-- **The loop hands on every block of the text** that is closed. -/
theorem emitBlocks_ensures (hfinal : whole ++ ext = final) (turns : ℕ) :
    Ensures (fun s ↦ Reached E whole s ∧ s.buffer.tail.length < turns) (emitBlocks E turns)
      (fun _ s ↦ Reached E whole s ∧ s.buffer.needsScan = false) (Refused E final) := by
  induction turns with
  | zero => exact fun s hs ↦ absurd hs.2 (Nat.not_lt_zero _)
  | succ turns ih =>
    rintro s ⟨⟨hs, hpassing⟩, hlt⟩
    rw [emitBlocks]
    cases hfound : s.buffer.found with
    | none =>
      have hcall : call (σ := σ) (SseBlockBuffer.next E.budget) s = (.ok none, { s with
          buffer := { s.buffer with scanOffset := s.buffer.resume, needsScan := false } }) := by
        rw [call, next_none hfound]
      rw [bind_of_ok hcall]
      exact ⟨⟨hs.stopped hfound, fun hE ↦ ⟨(hpassing hE).passed, (hpassing hE).visible⟩⟩, rfl⟩
    | some found =>
      obtain ⟨start, length⟩ := found
      rcases next_some (B := E.budget) hfound with ⟨hrun, hnone⟩ | ⟨budget, -, hrun⟩
      · have hcall : call (σ := σ) (SseBlockBuffer.next E.budget) s = (.error .budget, s) := by
          rw [call, hrun]
        rw [bind_run, hcall]
        exact ⟨hfinal ▸ hs.handed ext, _, _, hnone⟩
      · have hcall : call (σ := σ) (SseBlockBuffer.next E.budget) s =
            (.ok (some (slice s.buffer.buffer s.buffer.offset start,
              slice s.buffer.buffer start (start + length))),
              { s with buffer := (recharged E.budget s.buffer budget
                (s.buffer.nextBytes start length)).consumed (start + length) }) := by
          rw [call, hrun]
        rw [bind_of_ok hcall]
        have hone := emitBlock_ensures hs hpassing hfound budget hfinal
        exact Ensures.bind (P := fun s' ↦ s' = _) (fun s' hs' ↦ hs' ▸ hone)
          (fun _ ↦ ih.mono (fun s' hs' ↦ ⟨hs'.1, by omega⟩) (fun _ _ ↦ id) fun _ _ ↦ id) _ rfl

/-! ### Reading -/

variable {α : Type} {buffer : SseBlockBuffer β}

theorem call_ok {x : Act (SseBlockBuffer β) BufferRefusal α} {a : α}
    (h : x s.buffer = (.ok a, buffer)) : call x s = (.ok a, { s with buffer }) := by
  rw [call, h]

theorem call_error {x : Act (SseBlockBuffer β) BufferRefusal α} {e : BufferRefusal}
    (h : x s.buffer = (.error e, s.buffer)) : call x s = (.error e, s) := by
  rw [call, h]

/-- What is left of a fragment when a late line feed is taken out of it. -/
def remainder (s : BlockRelay β σ) (fragment : JsString) : JsString :=
  if s.pendingLineFeed && fragment.head? == some 10 then fragment.drop 1 else fragment

theorem remainder_eq (s : BlockRelay β σ) (fragment : JsString) :
    s.remainder fragment = Cutting.skip isLineFeed s.pendingLineFeed fragment := by
  cases fragment with
  | nil => simp [remainder]
  | cons c fragment => simp [remainder, Cutting.skip, isLineFeed]

variable {fragment : JsString}

theorem Standing.read (h : Standing whole s) (hne : fragment ≠ []) (hsound : buffer.Sound)
    (hscanned : buffer.scanned = s.buffer.scanned)
    (hunscanned : buffer.unscanned = s.buffer.unscanned ++ s.remainder fragment) :
    Standing (whole ++ fragment) { s with buffer, pendingLineFeed := false } := by
  have hfront : Frontier delimiterLength isLineFeed (whole ++ fragment) s.handed s.buffer.scanned
      false (Cutting.skip isLineFeed s.pendingLineFeed (s.buffer.unscanned ++ fragment)) :=
    h.front.read (append_ne_nil_of_right_ne_nil _ hne)
  have hskip : Cutting.skip isLineFeed s.pendingLineFeed (s.buffer.unscanned ++ fragment) =
      s.buffer.unscanned ++ s.remainder fragment := by
    rw [remainder_eq]
    cases hwaiting : s.pendingLineFeed with
    | false => rw [Cutting.skip_false, Cutting.skip_false]
    | true => rw [(h.front.between hwaiting).2, nil_append, nil_append]
  rw [hskip, ← hscanned, ← hunscanned] at hfront
  exact ⟨hsound, hfront⟩

theorem appendFragment_nil (E : RelayEnv β σ δ) (s : BlockRelay β σ) :
    appendFragment E [] s = (.ok ⟨⟩, s) := by
  have hcontinuation : (s.pendingLineFeed && ([] : JsString).head? == some 10) = false := by simp
  rw [appendFragment, bind_of_ok (get_run s), hcontinuation]
  rw [when_neg fun h ↦ h.2 rfl]
  rw [bind_of_ok (pure_run _ s)]
  rfl

theorem appendFragment_eq (hne : fragment ≠ []) (E : RelayEnv β σ δ) (s : BlockRelay β σ) :
    appendFragment E fragment s = (do
        call (SseBlockBuffer.append E.budget (fun _ ↦ true) (s.remainder fragment))
        when ((s.pendingLineFeed && fragment.head? == some 10) = true ∧
          s.pendingLineFeedVisible = true) (enqueueText E [10]) :
            Act (BlockRelay β σ) BufferRefusal PUnit) { s with pendingLineFeed := false } := by
  have hwhen : (when (s.pendingLineFeed = true ∧ fragment ≠ [])
      (modify fun s ↦ { s with pendingLineFeed := false }) : Act (BlockRelay β σ) BufferRefusal PUnit)
        s = (.ok ⟨⟩, { s with pendingLineFeed := false }) := by
    cases hpending : s.pendingLineFeed with
    | false =>
      rw [when_neg (by simp), ← hpending]
      rfl
    | true =>
      rw [when_pos ⟨rfl, hne⟩]
      rfl
  rw [appendFragment, bind_of_ok (get_run s), bind_of_ok hwhen]
  rfl

/-- **A fragment is read**, and a late line feed passed on. -/
theorem appendFragment_ensures (hfinal : whole ++ fragment ++ ext = final) :
    Ensures (Reached E whole) (appendFragment E fragment)
      (fun _ ↦ Reached E (whole ++ fragment)) (Refused E final) := by
  rintro s ⟨hs, hpassing⟩
  by_cases hnil : fragment = []
  · subst hnil
    rw [appendFragment_nil, List.append_nil]
    exact ⟨hs, hpassing⟩
  have hhanded : s.handed <+: handedBlocks final := by
    rw [← hfinal, append_assoc]
    exact hs.handed _
  rw [appendFragment_eq hnil]
  rcases hs.sound.append (B := E.budget) (s.remainder fragment) with
    ⟨hrun, hnone⟩ | ⟨buffer, hrun, hsound, hscanned, hunscanned⟩
  · have hcall : call (σ := σ) (SseBlockBuffer.append E.budget (fun _ ↦ true) (s.remainder fragment))
        { s with pendingLineFeed := false } = (.error .budget, { s with pendingLineFeed := false }) :=
      call_error hrun
    rw [bind_run, hcall]
    exact ⟨hhanded, _, hnone⟩
  have hcall : call (σ := σ) (SseBlockBuffer.append E.budget (fun _ ↦ true) (s.remainder fragment))
      { s with pendingLineFeed := false } = (.ok ⟨⟩, { s with buffer, pendingLineFeed := false }) :=
    call_ok hrun
  rw [bind_of_ok hcall]
  have hread := hs.read hnil hsound hscanned hunscanned
  have htail : buffer.tail = s.buffer.tail ++ s.remainder fragment := by
    rw [← hsound.scanned_append, hscanned, hunscanned, ← append_assoc, hs.sound.scanned_append]
  by_cases hcontinues : (s.pendingLineFeed && fragment.head? == some 10) = true
  · obtain ⟨hpending, hhead⟩ := Bool.and_eq_true_iff.mp hcontinues
    obtain ⟨later, rfl⟩ := head?_eq_some_iff.mp (eq_of_beq hhead)
    have hempty : s.buffer.tail = [] := by
      obtain ⟨hscanned, hunscanned⟩ := hs.front.between hpending
      rw [← hs.sound.scanned_append, hscanned, hunscanned, List.append_nil]
    have hremainder : s.remainder (10 :: later) = later := by
      rw [remainder, if_pos hcontinues]
      rfl
    rw [hempty, hremainder, nil_append] at htail
    by_cases hvisible : s.pendingLineFeedVisible = true
    · rw [when_pos ⟨hcontinues, hvisible⟩]
      rcases enqueueText_cases E [10] { s with buffer, pendingLineFeed := false } with
        ⟨hrun, hnone⟩ | ⟨budget, hrun⟩
      · rw [hrun]
        exact ⟨hhanded, _, hnone⟩
      · rw [hrun]
        refine ⟨stable_standing _ _ _ budget hread, fun hE ↦ ⟨?_, nofun⟩⟩
        obtain ⟨⟨passed, htext, hended, hbytes⟩, -⟩ := hpassing hE
        refine ⟨passed ++ [10], ?_, ended_append (by simp) (by simp), ?_⟩
        · rw [htext, hempty]
          change _ = passed ++ [10] ++ buffer.tail
          rw [htail]
          simp
        · rw [bytesOf_append hended, ← hbytes, flatten_append, flatten_singleton]
    · rw [when_neg fun h ↦ hvisible h.2]
      exact ⟨hread, fun hE ↦ absurd ((hpassing hE).visible hpending) hvisible⟩
  · rw [when_neg fun h ↦ hcontinues h.1]
    have hremainder : s.remainder fragment = fragment := by rw [remainder, if_neg hcontinues]
    refine ⟨hread, fun hE ↦ ⟨?_, nofun⟩⟩
    obtain ⟨⟨passed, htext, hended, hbytes⟩, -⟩ := hpassing hE
    refine ⟨passed, ?_, hended, hbytes⟩
    change _ = passed ++ buffer.tail
    rw [htext, htail, hremainder, append_assoc]

/-! ### The whole body -/

theorem blocks_of_none (h : firstDelimiter text = none) (acc : JsString) :
    Cutting.blocks delimiterLength acc text = ([], acc ++ text) := by
  induction text generalizing acc with
  | nil => rw [Cutting.blocks_nil, List.append_nil]
  | cons c text ih =>
    rw [firstDelimiter] at h
    split_ifs at h with hhere
    rw [Cutting.blocks_letter (not_not.mp hhere), ih (Option.map_eq_none_iff.mp h),
      append_assoc, singleton_append]

theorem Standing.finished (h : Standing whole s) (hneeds : s.buffer.needsScan = false) :
    textBlocks whole = (s.handed, s.buffer.tail) := by
  rw [← h.sound.scanned_append]
  refine Frontier.stop h.front ?_
  cases hwaiting : s.pendingLineFeed with
  | false =>
    rw [Cutting.skip_false]
    exact blocks_of_none (h.sound.scanned hneeds) _
  | true => rw [(h.front.between hwaiting).2, Cutting.skip_nil, Cutting.blocks_nil, List.append_nil]

theorem Reached.compact (h : Reached E whole s) :
    Reached E whole { s with buffer := s.buffer.compact } := by
  refine ⟨⟨h.1.sound.compact, ?_⟩, fun hE ↦ ⟨?_, (h.2 hE).visible⟩⟩
  · obtain ⟨hscanned, hunscanned⟩ := h.1.sound.compact_parts
    change Frontier delimiterLength isLineFeed whole s.handed s.buffer.compact.scanned
      s.pendingLineFeed s.buffer.compact.unscanned
    rw [hscanned, hunscanned]
    exact h.1.front
  · obtain ⟨passed, htext, hended, hbytes⟩ := (h.2 hE).passed
    refine ⟨passed, ?_, hended, hbytes⟩
    change _ = passed ++ s.buffer.compact.tail
    rw [tail_compact, htext]

/-- The loop, with turns for every block that may be in the buffer, and what comes after it. -/
theorem emitAll_ensures (hfinal : whole ++ ext = final) {flushFinal : Bool}
    {Q : PUnit → BlockRelay β σ → Prop}
    (hrest : Ensures (fun s ↦ Reached E whole s ∧ s.buffer.needsScan = false)
      (when (flushFinal = true) (emitTail E)) Q (Refused E final)) :
    Ensures (Reached E whole) (emitProcessedBlocks E flushFinal) Q (Refused E final) := by
  intro s hs
  have hturns : s.buffer.tail.length < s.buffer.buffer.length + 1 := by
    rw [SseBlockBuffer.tail, length_drop]
    omega
  refine (emitBlocks_ensures hfinal _).bind (fun _ ↦ ?_) s ⟨hs, hturns⟩
  refine .bind (.modify fun s' hs' ↦ ?_) fun _ ↦ hrest
  refine ⟨hs'.1.compact, ?_⟩
  rw [compact_eq]
  exact hs'.2

theorem emitProcessedBlocks_ensures (hfinal : whole ++ ext = final) :
    Ensures (Reached E whole) (emitProcessedBlocks E false) (fun _ ↦ Reached E whole)
      (Refused E final) :=
  emitAll_ensures hfinal fun _ hs ↦ hs.1

/-- What a relay has done that has read a whole text. -/
def Done (E : RelayEnv β σ δ) (whole : JsString) (s : BlockRelay β σ) : Prop :=
  s.handed = handedBlocks whole ∧ (Returns E → s.delivered.flatten = Utf8.bytesOf whole)

/-- **At the end** the last block is handed on. -/
theorem emitTail_ensures (whole : JsString) :
    Ensures (fun s ↦ Reached E whole s ∧ s.buffer.needsScan = false) (emitTail E)
      (fun _ ↦ Done E whole) (Refused E whole) := by
  rintro s ⟨⟨hs, hpassing⟩, hneeds⟩
  have hblocks := hs.finished hneeds
  rw [emitTail, bind_of_ok (get_run s)]
  by_cases htail : s.buffer.tail = []
  · rw [when_neg (not_not.mpr htail)]
    refine ⟨?_, fun hE ↦ ?_⟩
    · rw [handedBlocks, hblocks, if_pos htail, List.append_nil]
    · obtain ⟨passed, htext, -, hbytes⟩ := (hpassing hE).passed
      rw [hbytes, htext, htail, List.append_nil]
  · have hhanded : s.handed ++ [s.buffer.tail] = handedBlocks whole := by
      rw [handedBlocks, hblocks, if_neg htail]
    rw [when_pos htail]
    refine Ensures.bind (P := fun s' ↦ s' = s) (Q := fun out s' ↦
      s'.handed = handedBlocks whole ∧ (Returns E → out = [s.buffer.tail] ∧ Passing whole s ∧
        s'.delivered = s.delivered)) (fun s' hs' ↦ ?_) (fun out ↦ ?_) s rfl
    · obtain rfl := hs'
      exact ⟨hhanded, fun hE ↦ ⟨hE _ _, hpassing hE, rfl⟩⟩
    refine .bind (Q := fun _ ↦ Done E whole) ?_ fun _ ↦ .modify fun _ ↦ id
    by_cases hE : Returns E
    · rintro s' ⟨hhanded', hreturned⟩
      obtain ⟨rfl, ⟨⟨passed, htext, hended, hbytes⟩, -⟩, hsame⟩ := hreturned hE
      rw [enqueueBlocks, List.append_nil]
      rcases enqueueText_cases E s.buffer.tail s' with ⟨hrun, bytes, hnone⟩ | ⟨budget, hrun⟩
      · rw [hrun]
        exact ⟨hhanded' ▸ prefix_refl _, _, bytes, hnone⟩
      · rw [hrun]
        refine ⟨hhanded', fun _ ↦ ?_⟩
        change (s'.delivered ++ [_]).flatten = _
        rw [hsame, flatten_append, flatten_singleton, hbytes, htext, ← bytesOf_append hended]
    · have hstable : Stable (σ := σ) (β := β) fun s ↦ s.handed = handedBlocks whole :=
        fun _ _ _ ↦ id
      exact (enqueueBlocks_keeps (E := E) hstable (fun s hs ↦ hs ▸ prefix_refl _) _ _ out).mono
        (fun _ ↦ And.left) (fun _ _ hs ↦ ⟨hs, fun h ↦ absurd h hE⟩) fun _ _ ↦ id

/-- **The pulls hand on every block of the text.** -/
theorem pullAll_ensures (chunks : List Bytes) (d : δ)
    (hfinal : whole ++ E.decoder.textFrom d chunks = final) :
    Ensures (Reached E whole) (pullAll E d chunks) (fun _ ↦ Done E final) (Refused E final) := by
  induction chunks generalizing whole d with
  | nil =>
    subst hfinal
    refine (appendFragment_ensures (append_nil _)).bind fun _ ↦ ?_
    refine .bind (Q := fun _ ↦ Done E _)
      (emitAll_ensures (append_nil _) (emitTail_ensures _)) fun _ ↦ .modify fun _ ↦ id
  | cons value chunks ih =>
    rw [TextDecoder.textFrom, ← append_assoc] at hfinal
    rw [pullAll]
    refine (appendFragment_ensures hfinal).bind fun _ ↦ ?_
    exact (emitProcessedBlocks_ensures hfinal).bind fun _ ↦ ih _ hfinal

theorem reached_start (E : RelayEnv β σ δ) (budget : β) (rewriting : σ) :
    Reached E [] ({ buffer := { budget }, rewriting } : BlockRelay β σ) :=
  ⟨⟨sound_new budget, .start _ _⟩, fun _ ↦ ⟨⟨[], rfl, nofun, rfl⟩, nofun⟩⟩

end

end BlockRelay

open BlockRelay

section

variable {β σ δ : Type}

theorem relay_meets (E : RelayEnv β σ δ) (budget : β) (rewriting : σ) (chunks : List Bytes) :
    Meets (fun _ ↦ Done E (E.decoder.text chunks)) (Refused E (E.decoder.text chunks))
      (relaySseWithBlockRewrite E budget rewriting chunks) :=
  (pullAll_ensures chunks E.decoder.fresh (nil_append _)).tryCatch
    (fun _ ↦ .bind (.modify fun _ ↦ id) fun _ ↦ .throw fun _ ↦ id) _
    (reached_start E budget rewriting)

theorem text_of_encode {points : List ℕ} (hscalar : ∀ p ∈ points, Utf8.Scalar p)
    {chunks : List Bytes} (hchunks : chunks.flatten = points.flatMap Utf8.encode) :
    utf8Decoder.text chunks = (dropMark points).flatMap unitsOf := by
  rw [TextDecoder.text]
  change utf8Decoder.textFrom (ground, false) chunks = _
  rw [utf8Decoder_textFrom, hchunks, run_encodes hscalar]
  simp [Utf8.flush, ground]

/-- **The blocks do not depend on the chunks, and the buffer is charged exactly.**  Whatever the
rewrite and the budget, the blocks handed on are those of the text without its byte order mark, and
with a rewrite that changes nothing so are the bytes; where the budget refuses they are the first of
them.  Behind any calls of a buffer its bytes are those of the text that is not consumed, and so is
what the budget was charged and not given back; a call that is refused leaves that text. -/
theorem relay_blocks_and_buffer_bytes (B : TranslatorBudget β)
    (rewrite : JsString → σ → List JsString × σ) (budget : β) (rewriting : σ) (points : List ℕ)
    (hscalar : ∀ p ∈ points, Utf8.Scalar p) (chunks : List Bytes)
    (hchunks : chunks.flatten = points.flatMap Utf8.encode) :
    let E : RelayEnv β σ _ := ⟨B, utf8Decoder, rewrite⟩
    let r := relaySseWithBlockRewrite E budget rewriting chunks
    let text := (dropMark points).flatMap unitsOf
    (r.1 = .ok ⟨⟩ → r.2.handed = handedBlocks text ∧
      (Returns E → r.2.delivered.flatten = (dropMark points).flatMap Utf8.encode)) ∧
    (∀ e, r.1 = .error e → r.2.handed <+: handedBlocks text ∧
      ∃ budget bytes, B.reserveTransient budget bytes = none) ∧
    ∀ (assertAppendSize : ℕ → Bool) (calls : List SseBlockBuffer.Call),
      let b := runCalls B assertAppendSize calls { budget }
      b.bufferBytes = Utf8.byteLength b.tail ∧ b.charged = b.released + b.bufferBytes ∧
      ∀ call : SseBlockBuffer.Call,
        let result := call.run B assertAppendSize b
        SseBlockBuffer.Unconsumed b.tail call result.1 result.2.tail ∧
          (call = .clear → result.2.bufferBytes = 0 ∧ result.2.charged = result.2.released) := by
  intro E r text
  have hmeets : Meets (fun _ ↦ Done E text) (Refused E text) r := by
    have h := relay_meets E budget rewriting chunks
    rwa [show E.decoder.text chunks = text from text_of_encode hscalar hchunks] at h
  have hbytes : Utf8.bytesOf text = (dropMark points).flatMap Utf8.encode := by
    rw [Utf8.bytesOf, pointsOf_units fun p hp ↦ hscalar p (mem_dropMark hp)]
  refine ⟨fun hok ↦ ?_, fun e herror ↦ ?_, fun assertAppendSize calls ↦ ?_⟩
  · obtain ⟨result, s⟩ := r
    obtain rfl : result = .ok ⟨⟩ := hok
    exact ⟨hmeets.1, fun hE ↦ (hmeets.2 hE).trans hbytes⟩
  · obtain ⟨result, s⟩ := r
    obtain rfl : result = .error e := herror
    exact hmeets
  · intro b
    have hsound : b.Sound := sound_runCalls B assertAppendSize calls (sound_new budget)
    refine ⟨hsound.bytes, hsound.ledger, fun call ↦ ?_⟩
    obtain ⟨hsound', hconsumed⟩ := hsound.call (B := B) assertAppendSize call
    refine ⟨hconsumed, ?_⟩
    rintro rfl
    exact ⟨rfl, hsound.ledger⟩

end

/-- Two blocks and a tail, cut within CR LF pairs. -/
theorem relay_blocks_within_crlf :
    (relaySseWithBlockRewrite ⟨openBudget, utf8Decoder, fun block (_ : Unit) ↦ ([block], ())⟩ () ()
      [[97, 13], [10, 13], [10, 98, 13], [13, 10, 99]]).2.handed =
        handedBlocks ([97, 13, 10, 13, 10, 98, 13, 13, 10, 99].flatMap unitsOf) :=
  ((relay_blocks_and_buffer_bytes openBudget (fun block (_ : Unit) ↦ ([block], ())) () ()
    [97, 13, 10, 13, 10, 98, 13, 13, 10, 99] (by decide)
    [[97, 13], [10, 13], [10, 98, 13], [13, 10, 99]] (by decide)).1 (by decide +kernel)).1

/-- A byte order mark is not handed on and not delivered. -/
theorem relay_drops_mark :
    let r := relaySseWithBlockRewrite
      ⟨openBudget, utf8Decoder, fun block (_ : Unit) ↦ ([block], ())⟩ () ()
      [[0xfeff, 97, 10, 10].flatMap Utf8.encode]
    r.2.handed ≠ handedBlocks ([0xfeff, 97, 10, 10].flatMap unitsOf) ∧
      r.2.delivered.flatten ≠ [0xfeff, 97, 10, 10].flatMap Utf8.encode := by
  decide +kernel

end Sse
