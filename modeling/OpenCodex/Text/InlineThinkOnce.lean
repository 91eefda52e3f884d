import OpenCodex.Text.InlineThinkSplit

/-!
# A single leading block, and the whitespace behind it

Without the interleaved mode the parser takes out one leading block, leading whitespace with it, and
trims the answer behind the block at its start.  The thinking is that of the whole text.  The trimming
is not: it is done to what is left of the chunk in which the close tag ends, so whitespace that comes
in a later chunk stays.

`splitOnce` says what is given out for a list of chunks, and the chunks enter into it by one number,
`restOfChunk`.  From this it is read off when two ways to cut a text give the same
(`run_once_agree_iff`).
-/

set_option autoImplicit false

open List Option Delimiters

namespace Text

open Bridge (AdapterEvent isTrimmed trimStart)

/-! ## What is given out -/

/-- The thinking and the answer. -/
abbrev Outcome := JsString × JsString

/-- All the thinking in some events. -/
def reasoningText (events : List AdapterEvent) : JsString :=
  events.flatMap fun
    | .reasoningRawDelta text => text
    | _ => []

/-- All the answer in some events. -/
def answerText (events : List AdapterEvent) : JsString :=
  events.flatMap fun
    | .textDelta text _ _ => text
    | _ => []

/-- How many units of the chunk that a place is in, or at the end of, are behind that place. -/
def restOfChunk : List JsString → ℕ → ℕ
  | [], _ => 0
  | chunk :: chunks, place =>
    if place ≤ chunk.length then chunk.length - place
    else restOfChunk chunks (place - chunk.length)

/-- How many units the whitespace at the start of a text has. -/
def leadingWhitespace (text : JsString) : ℕ := (text.takeWhile isTrimmed).length

/-- What is given out for chunks that begin in a block. -/
def closeOnce (tag : ThinkingTag) (chunks : List JsString) : Outcome :=
  match (closeDelimiters tag).search chunks.flatten with
  | none => (chunks.flatten, [])
  | some (before, _, rest) =>
    (before, rest.drop (min (leadingWhitespace rest)
      (restOfChunk chunks (chunks.flatten.length - rest.length))))

/-- What is given out for the chunks of a content. -/
def splitOnce (chunks : List JsString) : Outcome :=
  match openDelimiters.read (trimStart chunks.flatten) with
  | none => ([], chunks.flatten)
  | some (tag, inner) =>
    match (closeDelimiters tag).search inner with
    | none => (inner, [])
    | some (before, _, rest) =>
      (before, rest.drop (min (leadingWhitespace rest)
        (restOfChunk chunks (chunks.flatten.length - rest.length))))

/-! ### Places in chunks -/

/-- What was carried, before the chunks that are still to come. -/
def glue (held : JsString) : List JsString → List JsString
  | [] => [held]
  | chunk :: chunks => (held ++ chunk) :: chunks

theorem flatten_glue (held : JsString) (chunks : List JsString) :
    (glue held chunks).flatten = held ++ chunks.flatten := by
  cases chunks with
  | nil => rfl
  | cons chunk chunks => rw [glue, flatten_cons, flatten_cons, append_assoc]

theorem restOfChunk_append (before l : JsString) (chunks : List JsString) (place : ℕ) :
    restOfChunk ((before ++ l) :: chunks) (before.length + place) =
      restOfChunk (l :: chunks) place := by
  simp only [restOfChunk, length_append, Nat.add_le_add_iff_left, Nat.add_sub_add_left]

variable {l : JsString}

variable {k : ℕ}

/-- A place in a later chunk is the same when the end of the first one is carried to it. -/
theorem restOfChunk_glue {place : ℕ} (hk : k ≤ l.length) (hplace : l.length < place)
    (chunks : List JsString) :
    restOfChunk (glue (l.drop k) chunks) (place - k) = restOfChunk (l :: chunks) place := by
  rw [restOfChunk, if_neg (Nat.not_le.mpr hplace)]
  cases chunks with
  | nil =>
    have hfar : ¬ place - k ≤ (l.drop k).length := by rw [length_drop]; omega
    exact if_neg hfar
  | cons chunk chunks =>
    rw [glue, show place - k = (l.drop k).length + (place - l.length) by
      rw [length_drop]; omega, restOfChunk_append]

theorem drop_leadingWhitespace (after later : JsString) :
    (after ++ later).drop (min (leadingWhitespace (after ++ later)) after.length) =
      trimStart after ++ later := by
  induction after with
  | nil => rw [length_nil, Nat.min_zero]; rfl
  | cons c after ih =>
    rw [leadingWhitespace, trimStart, cons_append, takeWhile_cons, dropWhile_cons]
    split_ifs with hc
    · rw [length_cons, length_cons, Nat.add_min_add_right, drop_succ_cons]
      exact ih
    · rw [length_nil, Nat.zero_min]
      rfl

/-! ### A close tag, or none -/

variable {tag : ThinkingTag} {before : JsString}

variable {found : ThinkingTag}

theorem closeOnce_found {after : JsString}
    (h : (closeDelimiters tag).search l = some (before, found, after)) (chunks : List JsString) :
    closeOnce tag (l :: chunks) = (before, trimStart after ++ chunks.flatten) := by
  have hlt := search_shorter h
  have hrest : restOfChunk (l :: chunks) ((l ++ chunks.flatten).length -
      (after ++ chunks.flatten).length) = after.length := by
    rw [length_append, length_append, Nat.add_sub_add_right, restOfChunk,
      if_pos (Nat.sub_le _ _), Nat.sub_sub_self hlt.le]
  rw [closeOnce, flatten_cons, search_append h]
  dsimp only
  rw [hrest, drop_leadingWhitespace]

theorem closeOnce_hold (h : (closeDelimiters tag).search l = none) (hle : k ≤ l.length)
    (hk : k = 0 ∨ k + wordLimit (some tag) ≤ l.length) (chunks : List JsString) :
    closeOnce tag (l :: chunks) = (l.take k ++ (closeOnce tag (glue (l.drop k) chunks)).1,
        (closeOnce tag (glue (l.drop k) chunks)).2) := by
  have hs : (closeDelimiters tag).search (l ++ chunks.flatten) =
      ((closeDelimiters tag).search (l.drop k ++ chunks.flatten)).map fun found ↦
        (l.take k ++ found.1, found.2) := by
    rcases hk with rfl | hk
    · simp
    · exact search_hold h (word_le (b := some tag)) hk _
  rw [closeOnce, closeOnce, flatten_cons, flatten_glue]
  cases hfound : (closeDelimiters tag).search (l.drop k ++ chunks.flatten) with
  | none =>
    rw [hfound] at hs
    rw [hs, map_none]
    dsimp only
    rw [← append_assoc, take_append_drop]
  | some found =>
    obtain ⟨before, found, rest⟩ := found
    rw [hfound] at hs
    have hlt := rest_lt h hs
    rw [hs, map_some]
    dsimp only
    rw [← restOfChunk_glue hle (by rw [length_append]; omega),
      show (l ++ chunks.flatten).length - rest.length - k =
        (l.drop k ++ chunks.flatten).length - rest.length by
      simp only [length_append, length_drop]; omega]

/-! ## What the parser owes, and pays -/

namespace InlineThinkTagParser

/-- The parser is in the leading block. -/
structure InBlock (p : InlineThinkTagParser) (tag : ThinkingTag) : Prop where
  interleaved : p.interleaved = false
  whitespace : p.preWhitespaceLength = 0
  preBuffer : p.preBuffer = []
  state : p.state = .thinking
  closeTag : p.closeTag = closeTagFor tag

/-- What the parser owes in each of its states, by the chunks that are still to come. -/
inductive StandingOnce (p : InlineThinkTagParser) : (List JsString → Outcome) → Prop
  | pre {ws : JsString} (interleaved : p.interleaved = false) (state : p.state = .pre)
      (chunks : p.preWhitespaceChunks.flatten = ws) (length : p.preWhitespaceLength = ws.length)
      (trimmed : ∀ c ∈ ws, isTrimmed c = true)
      (begun : p.preBuffer = [] ∨ isPossibleOpenTagPrefix p.preBuffer = true)
      (quiet : openDelimiters.read p.preBuffer = none) :
      StandingOnce p fun chunks ↦ splitOnce (glue (ws ++ p.preBuffer) chunks)
  | thinking {tag : ThinkingTag} (block : InBlock p tag)
      (quiet : (closeDelimiters tag).search p.thinkingBuffer = none) :
      StandingOnce p fun chunks ↦ closeOnce tag (glue p.thinkingBuffer chunks)
  | streaming (state : p.state = .streaming) (whitespace : p.preWhitespaceLength = 0)
      (preBuffer : p.preBuffer = []) : StandingOnce p fun chunks ↦ ([], chunks.flatten)

/-- What is given out, and what is owed then, are what was owed. -/
def PaysOnce (out : InlineThinkTagParser × List AdapterEvent) (R : List JsString → Outcome) : Prop :=
  ∃ R', StandingOnce out.1 R' ∧ ∀ chunks,
    R chunks = (reasoningText out.2 ++ (R' chunks).1, answerText out.2 ++ (R' chunks).2)

variable {p : InlineThinkTagParser} {R : List JsString → Outcome}

theorem PaysOnce.standing (h : StandingOnce p R) : PaysOnce (p, []) R := ⟨R, h, fun _ ↦ rfl⟩

theorem PaysOnce.of_eq {out : InlineThinkTagParser × List AdapterEvent}
    {R' : List JsString → Outcome} (h : PaysOnce out R') (hR : ∀ chunks, R chunks = R' chunks) :
    PaysOnce out R :=
  funext hR ▸ h

theorem reasoningText_append (l m : List AdapterEvent) :
    reasoningText (l ++ m) = reasoningText l ++ reasoningText m := flatMap_append

theorem answerText_append (l m : List AdapterEvent) :
    answerText (l ++ m) = answerText l ++ answerText m := flatMap_append

theorem texts_push (thinking answer : JsString) :
    reasoningText (pushText (pushReasoning [] thinking) answer) = thinking ∧
      answerText (pushText (pushReasoning [] thinking) answer) = answer := by
  have h : reasoningText (pushReasoning [] thinking) = thinking ∧
      answerText (pushReasoning [] thinking) = [] := by
    rw [pushReasoning]
    split_ifs with h
    · exact ⟨h.symm, rfl⟩
    · exact ⟨append_nil _, rfl⟩
  rw [pushText]
  split_ifs with h'
  · exact ⟨h.1, h.2.trans h'.symm⟩
  · rw [reasoningText_append, answerText_append, h.1, h.2]
    exact ⟨append_nil _, append_nil _⟩

variable {input : JsString}

/-- In the block, what is left of a chunk is the first of the chunks that are looked at. -/
theorem drain_paysOnce {turns offset : ℕ} (h : InBlock p tag) (hoffset : offset ≤ input.length) :
    PaysOnce (drainChunk input (turns + 1) offset [] p)
      fun chunks ↦ closeOnce tag (input.drop offset :: chunks) := by
  have hsearch := search_closeTag tag input offset
  rw [drainChunk, h.state]
  dsimp only
  rw [h.closeTag]
  cases hi : indexOfFrom (closeTagFor tag) input offset with
  | some idx =>
    rw [hi] at hsearch
    rw [h.interleaved]
    change PaysOnce (_, pushText (pushReasoning [] (input.slice offset (idx - offset)))
      (trimStart (input.drop (idx + (closeTagFor tag).length)))) _
    refine ⟨_, .streaming rfl h.whitespace h.preBuffer, fun chunks ↦ ?_⟩
    dsimp only
    rw [closeOnce_found hsearch, (texts_push _ _).1, (texts_push _ _).2, append_nil]
  | none =>
    rw [hi] at hsearch
    obtain ⟨hcut, hle, hfar⟩ := cut_bound maxCloseTag hoffset
    have hfar' := hfar.imp_right (Nat.le_trans (Nat.add_le_add_left (Nat.sub_le _ 1) _))
    dsimp only
    refine ⟨_, .thinking  ⟨h.interleaved, h.whitespace, h.preBuffer, rfl, rfl⟩
      (quiet_drop hcut hsearch), fun chunks ↦ ?_⟩
    have hpush := texts_push (input.slice offset (max offset
      (surrogateSafeCut input (input.length - maxCloseTag)) - offset)) []
    rw [pushText, if_pos rfl] at hpush
    dsimp only
    rw [hpush.1, hpush.2, closeOnce_hold hsearch (by rw [length_drop]; omega) hfar',
      drop_drop, Nat.add_sub_cancel' hcut]
    exact Prod.ext rfl (nil_append _)

/-! ### The beginning -/

theorem finishPreWhitespace_false (p : InlineThinkTagParser) :
    ∃ q, p.finishPreWhitespace false = (q, []) ∧ q.interleaved = p.interleaved ∧
      q.state = p.state ∧ q.preBuffer = p.preBuffer ∧ q.preWhitespaceLength = 0 := by
  rw [finishPreWhitespace]
  by_cases h0 : p.preWhitespaceLength = 0
  · rw [if_pos h0]
    exact ⟨p, rfl, rfl, rfl, rfl, h0⟩
  · rw [if_neg h0, if_neg Bool.false_ne_true]
    exact ⟨_, rfl, rfl, rfl, rfl, rfl⟩

variable {ws : JsString}

theorem trimStart_append {rest : JsString} (hws : ∀ c ∈ ws, isTrimmed c = true) :
    trimStart (ws ++ rest) = trimStart rest := by
  rw [trimStart, dropWhile_append_of_pos hws]
  rfl

variable {chunks : List JsString}

theorem splitOnce_opened (h : openDelimiters.read (trimStart (before ++ (l ++ chunks.flatten))) =
      some (tag, l ++ chunks.flatten)) :
    splitOnce ((before ++ l) :: chunks) = closeOnce tag (l :: chunks) := by
  rw [splitOnce, closeOnce, flatten_cons, flatten_cons, append_assoc, h]
  dsimp only
  cases hs : (closeDelimiters tag).search (l ++ chunks.flatten) with
  | none => rfl
  | some found =>
    obtain ⟨thinking, found, rest⟩ := found
    have hlt := search_shorter hs
    dsimp only
    rw [length_append, Nat.add_sub_assoc hlt.le, restOfChunk_append]

theorem splitOnce_unopened (h : openDelimiters.read (trimStart chunks.flatten) = none) :
    splitOnce chunks = ([], chunks.flatten) := by
  rw [splitOnce, h]

theorem splitOnce_glue
    (h : ∀ tag inner, openDelimiters.read (trimStart (l ++ chunks.flatten)) = some (tag, inner) →
      inner.length ≤ chunks.flatten.length) :
    splitOnce (l :: chunks) = splitOnce (glue l chunks) := by
  rw [splitOnce, splitOnce, flatten_cons, flatten_glue]
  cases hread : openDelimiters.read (trimStart (l ++ chunks.flatten)) with
  | none => rfl
  | some opened =>
    obtain ⟨tag, inner⟩ := opened
    have hinner := h tag inner hread
    dsimp only
    cases hs : (closeDelimiters tag).search inner with
    | none => rfl
    | some found =>
      obtain ⟨before, found, rest⟩ := found
      have hlt : rest.length < inner.length := search_shorter hs
      have hfar : l.length < (l ++ chunks.flatten).length - rest.length := by
        rw [length_append]
        omega
      have hplace := restOfChunk_glue (Nat.zero_le _) hfar chunks
      rw [drop_zero, Nat.sub_zero] at hplace
      dsimp only
      rw [hplace]

theorem decideStart_paysOnce (hin : p.interleaved = false) (hstate : p.state = .pre)
    (hchunks : p.preWhitespaceChunks.flatten = ws) (hlength : p.preWhitespaceLength = ws.length)
    (htrimmed : ∀ c ∈ ws, isTrimmed c = true) (hbuffer : p.preBuffer = [])
    (hhead : ∃ c ∈ input.head?, isTrimmed c = false) :
    PaysOnce (decideStart input p) fun chunks ↦ splitOnce ((ws ++ input) :: chunks) := by
  have hgoes : ∀ m, trimStart (ws ++ (input ++ m)) = input ++ m := fun m ↦ by
    rw [trimStart_append htrimmed]
    exact trimStart_of_head (Exists.imp (fun c ↦ And.imp_left fun hc ↦ head_append hc) hhead)
  have hread := read_openTagAt input 0
  rw [drop_zero] at hread
  rw [decideStart]
  cases ht : openTagAt input 0 with
  | some tag =>
    rw [ht, map_some, Nat.zero_add] at hread
    obtain ⟨q, hq, hqin, hqstate, hqbuffer, hqlength⟩ := finishPreWhitespace_false p
    have hbound := openTagAt_bound ht
    dsimp only
    rw [hin, hq]
    refine .of_eq (drain_paysOnce ⟨hqin.trans hin, hqlength, hqbuffer.trans hbuffer, rfl,
      rfl⟩ hbound) fun chunks ↦ ?_
    have hsplit : ws ++ input = (ws ++ input.take tag.text.length) ++ input.drop tag.text.length := by
      rw [append_assoc, take_append_drop]
    rw [hsplit, splitOnce_opened]
    rw [← append_assoc, ← hsplit, append_assoc, hgoes, Delimiters.read_append hread]
  | none =>
    rw [ht] at hread
    dsimp only
    split_ifs with hp
    · rw [Bool.and_eq_true] at hp
      refine .of_eq (.standing
        (.pre hin hstate hchunks hlength htrimmed (.inr hp.2) hread)) fun chunks ↦
          splitOnce_glue fun tag inner hopened ↦ ?_
      rw [append_assoc, hgoes] at hopened
      exact read_rest_le hread hopened
    · obtain ⟨q, hq, hqin, hqstate, hqbuffer, hqlength⟩ :=
        finishPreWhitespace_true (p := { p with state := .streaming }) hchunks hlength
      rw [hq]
      refine ⟨_, .streaming hqstate hqlength (hqbuffer.trans hbuffer), fun chunks ↦ ?_⟩
      dsimp only
      rw [splitOnce_unopened]
      · simp [reasoningText, answerText]
      · rw [flatten_cons, append_assoc, hgoes, read_append_none hread hp]

/-! ### Chunks -/

theorem splitOnce_glue_whitespace (hws : ∀ c ∈ ws, isTrimmed c = true) (chunks : List JsString) :
    splitOnce (ws :: chunks) = splitOnce (glue ws chunks) := by
  refine splitOnce_glue fun tag inner hopened ↦ ?_
  rw [trimStart_append hws] at hopened
  exact (read_shorter hopened).le.trans (dropWhile_suffix isTrimmed).length_le

theorem StandingOnce.owed_nil (h : StandingOnce p R) (chunks : List JsString) :
    R ([] :: chunks) = R chunks := by
  cases h with
  | @pre ws hin hstate hchunks hlength htrimmed hbegun hquiet =>
    dsimp only [glue]
    rw [append_nil]
    by_cases hbuffer : p.preBuffer = []
    · rw [hbuffer, append_nil]
      exact splitOnce_glue_whitespace htrimmed chunks
    · have hhead := head_of_possible (hbegun.resolve_left hbuffer) hbuffer
      refine splitOnce_glue fun tag inner hopened ↦ ?_
      rw [append_assoc, trimStart_append htrimmed,
        trimStart_of_head (Exists.imp (fun c ↦ And.imp_left head_append) hhead)] at hopened
      exact read_rest_le hquiet hopened
  | @thinking tag block hquiet =>
    dsimp only [glue]
    rw [append_nil, closeOnce_hold hquiet (Nat.zero_le _) (.inl rfl)]
    rfl
  | streaming hstate hwhitespace hbuffer => rfl

theorem feed_paysOnce (h : StandingOnce p R) (text : JsString) :
    PaysOnce (p.feed text) fun chunks ↦ R (text :: chunks) := by
  by_cases ht : text = []
  · subst ht
    exact .of_eq (.standing h) h.owed_nil
  cases h with
  | @pre ws hin hstate hchunks hlength htrimmed hbegun hquiet =>
    obtain ⟨q, w, hqin, hqstate, hqbuffer, hqchunks, hqlength, hw,
      ⟨hfeed, rfl, hbuffer⟩ | ⟨input, hfeed, hhead, hall⟩⟩ :=
      feed_pre_cases ht hstate hchunks hlength htrimmed hbegun
    · rw [hfeed]
      refine .of_eq (.standing (.pre (hqin.trans hin) hqstate hqchunks hqlength hw
        (.inl hqbuffer) (by rw [hqbuffer]; rfl))) fun chunks ↦ ?_
      rw [hqbuffer, hbuffer, append_nil, append_nil]
      exact splitOnce_glue_whitespace hw chunks
    · rw [hfeed]
      refine .of_eq (decideStart_paysOnce (hqin.trans hin) hqstate hqchunks hqlength hw
        hqbuffer hhead) fun chunks ↦ ?_
      rw [hall, ← append_assoc]
      rfl
  | @thinking tag block hquiet =>
    rw [feed_thinking ht block.state]
    exact drain_paysOnce (p := { p with thinkingBuffer := [] })
      ⟨block.interleaved, block.whitespace, block.preBuffer, block.state, block.closeTag⟩
      (Nat.zero_le _)
  | streaming hstate hwhitespace hbuffer =>
    rw [feed_streaming ht hstate]
    refine ⟨_, .streaming hstate hwhitespace hbuffer, fun chunks ↦ ?_⟩
    simp [reasoningText, answerText]

theorem flush_paysOnce (h : StandingOnce p R) :
    R [] = (reasoningText p.flush.2, answerText p.flush.2) := by
  rw [flush]
  cases h with
  | @pre ws hin hstate hchunks hlength htrimmed hbegun hquiet =>
    obtain ⟨q, hq, -⟩ := finishPreWhitespace_true hchunks hlength
    have hopen : openDelimiters.read (trimStart [ws ++ p.preBuffer].flatten) = none := by
      rw [flatten_singleton, trimStart_append htrimmed]
      by_cases hbuffer : p.preBuffer = []
      · rw [hbuffer]
        rfl
      · rw [trimStart_of_head (head_of_possible (hbegun.resolve_left hbuffer) hbuffer), hquiet]
    rw [if_neg (by rw [hstate]; decide), hq]
    dsimp only [glue]
    rw [splitOnce_unopened hopen, flatten_singleton]
    split_ifs with hsome
    · simp [reasoningText, answerText]
    · obtain ⟨h0, hbuffer⟩ := not_or.mp hsome
      rw [length_eq_zero_iff.mp (hlength.symm.trans (Nat.eq_zero_of_not_pos h0)),
        not_not.mp hbuffer]
      rfl
  | @thinking tag block hquiet =>
    rw [if_pos block.state]
    dsimp only [glue]
    rw [closeOnce, flatten_singleton, hquiet]
    have hpush := texts_push p.thinkingBuffer []
    rw [pushText, if_pos rfl] at hpush
    rw [hpush.1, hpush.2]
  | streaming hstate hwhitespace hbuffer =>
    rw [if_neg (by rw [hstate]; decide), if_neg (by simp [hwhitespace, hbuffer])]
    rfl

theorem run_paysOnce (h : StandingOnce p R) (chunks : List JsString) :
    R chunks = (reasoningText (run chunks p), answerText (run chunks p)) := by
  induction chunks generalizing p R with
  | nil => exact flush_paysOnce h
  | cons chunk chunks ih =>
    obtain ⟨R', hs, hR⟩ := feed_paysOnce h chunk
    rw [run, reasoningText_append, answerText_append]
    exact (hR chunks).trans (by rw [ih hs])

/-- **What the parser gives out without the interleaved mode.** -/
theorem run_once (chunks : List JsString) : (reasoningText (run chunks { interleaved := false }),
      answerText (run chunks { interleaved := false })) = splitOnce chunks := by
  have h : StandingOnce { interleaved := false } fun chunks ↦ splitOnce (glue [] chunks) :=
    .pre rfl rfl rfl rfl (by simp) (.inl rfl) rfl
  rw [← run_paysOnce h chunks]
  cases chunks <;> rfl

end InlineThinkTagParser

/-! ## When the chunks do not matter -/

/-- Where the close tag of the leading block ends, if there is a block and it is closed. -/
def leadingBlockEnd (text : JsString) : Option ℕ :=
  (openDelimiters.read (trimStart text)).bind fun opened ↦
    ((closeDelimiters opened.1).search opened.2).map fun found ↦
      text.length - found.2.2.length

/-- How much of the whitespace behind the leading block is in the chunk in which its close tag
ends. -/
def whitespaceInChunk (chunks : List JsString) (place : ℕ) : ℕ :=
  min (leadingWhitespace (chunks.flatten.drop place)) (restOfChunk chunks place)

theorem drop_leadingBlockEnd {text inner rest : JsString}
    (hread : openDelimiters.read (trimStart text) = some (tag, inner))
    (hs : (closeDelimiters tag).search inner = some (before, found, rest)) :
    text.drop (text.length - rest.length) = rest := by
  obtain ⟨w, -, hw⟩ := openDelimiters.read_eq_some.mp hread
  obtain ⟨v, -, hv⟩ := search_spec hs
  have hinner : inner <:+ text := by
    refine List.IsSuffix.trans ?_ (dropWhile_suffix isTrimmed)
    rw [show text.dropWhile isTrimmed = _ from hw, ← cons_append]
    exact suffix_append _ inner
  have hrest : rest <:+ inner := by
    rw [hv, ← cons_append, ← append_assoc]
    exact suffix_append _ rest
  exact (suffix_iff_eq_drop.mp (hrest.trans hinner)).symm

theorem splitOnce_eq_iff {chunks chunks' : List JsString} (h : chunks.flatten = chunks'.flatten) :
    splitOnce chunks = splitOnce chunks' ↔ ∀ place, leadingBlockEnd chunks.flatten = some place →
      whitespaceInChunk chunks place = whitespaceInChunk chunks' place := by
  rw [splitOnce, splitOnce, leadingBlockEnd, ← h]
  cases hread : openDelimiters.read (trimStart chunks.flatten) with
  | none => simp
  | some opened =>
    obtain ⟨tag, inner⟩ := opened
    dsimp only [bind_some]
    cases hs : (closeDelimiters tag).search inner with
    | none => simp
    | some found =>
      obtain ⟨before, found, rest⟩ := found
      have hrest := drop_leadingBlockEnd hread hs
      have hlead : leadingWhitespace rest ≤ rest.length := (List.takeWhile_prefix isTrimmed).length_le
      simp only [map_some, some_inj, forall_eq']
      rw [whitespaceInChunk, whitespaceInChunk, ← h, hrest]
      constructor
      · intro he
        have := congrArg (List.length ∘ Prod.snd) he
        simp only [Function.comp_apply, length_drop] at this
        omega
      · intro he
        rw [he]

namespace InlineThinkTagParser

/-- **Two ways to cut a text give the same exactly if** the leading block is not closed, or as much
of the whitespace behind it comes in the chunk that completes it. -/
theorem run_once_agree_iff {chunks chunks' : List JsString} (h : chunks.flatten = chunks'.flatten) :
    (reasoningText (run chunks { interleaved := false }) =
        reasoningText (run chunks' { interleaved := false }) ∧
      answerText (run chunks { interleaved := false }) =
        answerText (run chunks' { interleaved := false })) ↔
    ∀ place, leadingBlockEnd chunks.flatten = some place →
      whitespaceInChunk chunks place = whitespaceInChunk chunks' place := by
  rw [← splitOnce_eq_iff h, ← run_once, ← run_once, Prod.mk.injEq]

theorem split_inside_the_answer :
    answerText (run [js "<think>a</think>\n", js "b"] { interleaved := false }) =
      answerText (run [js "<think>a</think>\nb"] { interleaved := false }) :=
  ((run_once_agree_iff (show [js "<think>a</think>\n", js "b"].flatten =
    [js "<think>a</think>\nb"].flatten by decide)).mpr (by decide +kernel)).2

/-- Whitespace that comes in a chunk of its own is kept. -/
theorem split_before_whitespace : ¬ ∀ chunks chunks' : List JsString, [] ∉ chunks → [] ∉ chunks' →
      chunks.flatten = chunks'.flatten → reasoningText (run chunks { interleaved := false }) =
            reasoningText (run chunks' { interleaved := false }) ∧
          answerText (run chunks { interleaved := false }) =
            answerText (run chunks' { interleaved := false }) := by
  intro h
  have := h [js "<think>a</think>\nb"] [js "<think>a</think>", js "\nb"] (by decide) (by decide)
    (by decide)
  revert this
  decide +kernel

end InlineThinkTagParser

end Text
