import OpenCodex.Text.EchoLines

/-!
# A line, character by character

The filter decides about a line as soon as it can, and gives out what it has of it.  As long as the
hold has room that makes no difference: when the line has ended, the filter is where it would be if
it had kept the whole line back until then (`feedChars_line`, and `finish_line` for the last one).
So it is enough to know what a line does that is completed (`completeLine_outside`,
`completeLine_inside`).
-/

set_option autoImplicit false

open List

namespace Text

namespace ToolEnvelopeEchoFilter

/-- A filter in the middle of a line: the block that is open, the hold, and what is pending. -/
def inLine (block : Option (CodeUnit × ℕ)) (held : Option JsString) (pending : JsString)
    (safeLine : Bool) : ToolEnvelopeEchoFilter :=
  ⟨pending, safeLine, block.map fun b ↦ ⟨b.1, b.2, false, false⟩, held, false, false⟩

/-- A filter that has found an echo. -/
def echoed : ToolEnvelopeEchoFilter := ⟨[], false, none, none, true, false⟩

/-- The hold has room for so many units. -/
def Fits (held : Option JsString) (n : ℕ) : Prop := ∀ t ∈ held, t.length + n ≤ maxHeldChars

instance (held : Option JsString) (n : ℕ) : Decidable (Fits held n) :=
  match held with
  | none => .isTrue nofun
  | some t => decidable_of_iff (t.length + n ≤ maxHeldChars)
      ⟨fun h _ ht ↦ Option.some_inj.mp ht ▸ h, fun h ↦ h t rfl⟩

/-- What goes out of a text, if it is not held. -/
def shown (held : Option JsString) (text : JsString) : JsString :=
  if held.isNone then text else []

/-- The hold for a line inside of a block. -/
def holdOn (held : Option JsString) (line : JsString) : Option JsString :=
  if held.isNone ∧ isWholeLineEchoMarker line = true then some [] else held

variable {block : Option (CodeUnit × ℕ)} {held : Option JsString} {safeLine : Bool}

variable {pending : JsString}

variable {text : JsString}

theorem emit_inLine (h : Fits held text.length) : (inLine block held pending safeLine).emit text =
      (inLine block (held.map (· ++ text)) pending safeLine, shown held text) := by
  cases held with
  | none => rfl
  | some t =>
    have hle : (t ++ text).length ≤ maxHeldChars := by
      rw [length_append]
      exact h t rfl
    exact if_pos hle

theorem startHold_inLine (b : CodeUnit × ℕ) (pending : JsString) :
    (inLine (some b) held pending safeLine).startHold =
      inLine (some b) (some (held.getD [])) pending safeLine := by
  cases held <;> rfl

theorem flushLineStart_inLine (pending : JsString) :
    (inLine block held pending safeLine).flushLineStart = inLine block held pending true := rfl

theorem emitPending_inLine (h : Fits held pending.length) :
    (inLine block held pending safeLine).emitPending =
      (inLine block (held.map (· ++ pending)) [] safeLine, shown held pending) := emit_inLine h

variable {n : ℕ}

variable {m : ℕ}

theorem Fits.mono (h : Fits held m) (hle : n ≤ m) : Fits held n :=
  fun t ht ↦ (Nat.add_le_add_left hle _).trans (h t ht)

theorem Fits.rest (h : Fits held m) (hle : text.length + n ≤ m) :
    Fits (held.map (· ++ text)) n := by
  intro t ht
  obtain ⟨t', ht', rfl⟩ := Option.map_eq_some_iff.mp ht
  have hroom := h t' ht'
  rw [length_append]
  omega

theorem map_append_append (held : Option JsString) (a b : JsString) :
    (held.map (· ++ a)).map (· ++ b) = held.map (· ++ (a ++ b)) := by
  cases held with
  | none => rfl
  | some t => simp

theorem shown_append (held : Option JsString) (a b : JsString) :
    shown held a ++ shown (held.map (· ++ a)) b = shown held (a ++ b) := by
  cases held <;> rfl

theorem shown_getD (held : Option JsString) (text : JsString) :
    shown held text ++ (held.map (· ++ text)).getD [] = held.getD [] ++ text := by
  cases held with
  | none => exact append_nil _
  | some t => rfl

/-! ## A line that has ended -/

/-- A line within the limits: a marker is not indented too far, and a fence line is not too
long. -/
structure Bounded (line : JsString) : Prop where
  indent : isWholeLineEchoMarker line = true → indentOf line ≤ maxIndent
  length : (parseFenceLine line).isSome → line.length ≤ maxFenceLine

instance (line : JsString) : Decidable (Bounded line) :=
  decidable_of_iff ((isWholeLineEchoMarker line = true → indentOf line ≤ maxIndent) ∧
      ((parseFenceLine line).isSome → line.length ≤ maxFenceLine))
    ⟨fun h ↦ ⟨h.1, h.2⟩, fun h ↦ ⟨h.1, h.2⟩⟩

variable {line : JsString} {f : FenceLine}

theorem marker_of_fence (h : parseFenceLine line = some f) :
    isWholeLineEchoMarker line = false := by
  by_contra hmarker
  rw [parseFenceLine_of_marker (Bool.eq_true_of_not_eq_false hmarker)] at h
  exact absurd h nofun

variable {raw : JsString}

theorem completeLine_opens (h : parseFenceLine raw = some f) :
    (inLine none none raw false).completeLine = (inLine (openedBy raw) none [] false, raw) := by
  rw [completeLine]
  simp only [inLine, Option.map_none, h]
  rw [openedBy, h]
  by_cases hopens : opensFence f = true
  · simp only [hopens, if_true, Option.filter]
    rfl
  · simp only [hopens, Option.filter]
    rfl

variable {b : CodeUnit × ℕ}

theorem completeLine_closes (h : parseFenceLine raw = some f) (hfits : Fits held raw.length) :
    (inLine (some b) held raw false).completeLine =
      if closedBy b raw then (inLine none none [] false, held.getD [] ++ raw)
      else (inLine (some b) (held.map (· ++ raw)) [] false, shown held raw) := by
  have hemit : (inLine (some b) held [] false).emit raw = _ := emit_inLine hfits
  rw [completeLine, closedBy, h, Option.any_some]
  simp only [inLine, Option.map_some, h] at hemit ⊢
  by_cases hcloses : closesFence f b.1 b.2 = true
  · simp only [hcloses, if_true]
    simp only [hemit, shown_getD]
    rfl
  · simp only [hcloses, Bool.false_eq_true, if_false]
    exact hemit

theorem completeLine_outside (hline : newline ∉ line) (h : Bounded line) :
    (inLine none none (line ++ [newline]) false).completeLine =
      if isWholeLineEchoMarker line then (echoed, [])
      else (inLine (openedBy line) none [] false, line ++ [newline]) := by
  have hparse := parseFenceLine_newline hline
  cases hfence : parseFenceLine line with
  | some f =>
    rw [completeLine_opens (hparse.trans hfence), marker_of_fence hfence,
      if_neg Bool.false_ne_true, openedBy_newline hline]
  | none =>
    rw [completeLine, openedBy, hfence]
    simp only [inLine, hparse, hfence, indentOf_newline, marker_newline, Option.map_none]
    by_cases hmarker : isWholeLineEchoMarker line = true
    · simp only [hmarker, h.indent hmarker, and_self, if_true]
      rfl
    · simp only [hmarker, Bool.false_eq_true, and_false, if_false]
      rfl

theorem holdOn_of_marker (h : isWholeLineEchoMarker line = true) :
    holdOn held line = some (held.getD []) := by
  cases held with
  | none => exact if_pos ⟨rfl, h⟩
  | some t => exact if_neg fun h ↦ absurd h.1 Bool.false_ne_true

theorem holdOn_of_not_marker (h : isWholeLineEchoMarker line = false) :
    holdOn held line = held := if_neg fun hm ↦ absurd hm.2 (by rw [h]; exact Bool.false_ne_true)

theorem completeLine_inside (hline : newline ∉ line) (h : Bounded line)
    (hroom : Fits (holdOn held line) (line.length + 1)) :
    (inLine (some b) held (line ++ [newline]) false).completeLine =
      if closedBy b line then (inLine none none [] false, held.getD [] ++ (line ++ [newline]))
      else (inLine (some b) ((holdOn held line).map (· ++ (line ++ [newline]))) [] false,
        shown (holdOn held line) (line ++ [newline])) := by
  have hparse := parseFenceLine_newline hline
  have hlength : (line ++ [newline]).length = line.length + 1 := length_append
  rw [← hlength] at hroom
  cases hfence : parseFenceLine line with
  | some f =>
    rw [holdOn_of_not_marker (marker_of_fence hfence)] at hroom ⊢
    rw [completeLine_closes (hparse.trans hfence) hroom, closedBy_newline hline]
  | none =>
    rw [completeLine, closedBy, hfence, Option.any_none, if_neg Bool.false_ne_true]
    simp only [inLine, hparse, hfence, indentOf_newline, marker_newline, Option.map_some]
    have hemit : (inLine (some b) _ [] false).emit _ = _ := emit_inLine hroom
    by_cases hmarker : isWholeLineEchoMarker line = true
    · have hhold : (inLine (some b) held [] false).startHold = _ := startHold_inLine b []
      rw [holdOn_of_marker hmarker] at hemit ⊢
      rw [inLine, Option.map_some] at hhold
      simp only [hmarker, h.indent hmarker, and_self, if_true]
      rw [hhold, hemit]
      rfl
    · have hfalse := eq_false_of_ne_true hmarker
      rw [holdOn_of_not_marker hfalse] at hemit ⊢
      simp only [hfalse, Bool.false_eq_true, and_false, if_false]
      exact hemit

/-! ## A line under way -/

/-- Some beginning of the line has been decided about. -/
def Decided (line : JsString) : Prop :=
  ∃ p, p <+: line ∧ p ≠ [] ∧ (candidate p = false ∨ toolCallLine <+: dropIndent p)

/-- The line begins a call, and is not indented too far. -/
structure CallLine (p : JsString) : Prop where
  call : toolCallLine <+: dropIndent p
  indent : indentOf p ≤ maxIndent

variable {p : JsString}

theorem CallLine.extend (h : CallLine p) (hp : p <+: line) : CallLine line := by
  rcases dropIndent_prefix hp with ⟨hnil, -⟩ | ⟨-, hbegins, heq⟩
  · have hcall := h.call
    rw [hnil, prefix_nil] at hcall
    exact absurd hcall nofun
  · exact ⟨h.call.trans hbegins, heq ▸ h.indent⟩

theorem CallLine.marker (h : CallLine p) : isWholeLineEchoMarker p = true := by
  refine marker_iff.mpr (.inr ?_)
  obtain ⟨ws, hws, htrimmed⟩ := trimEnd_spec (dropIndent p)
  rcases prefix_or_prefix_of_prefix h.call (trimEnd_prefix_self (dropIndent p)) with
    hbegins | ⟨t, ht⟩
  · exact hbegins
  · -- the call line does not end with whitespace, so nothing of it is trimmed
    have hcall := h.call
    rw [hws, ← ht, prefix_append_right_inj] at hcall
    cases t using List.reverseRecOn with
    | nil => exact ⟨[], by rw [append_nil, ← ht, append_nil]⟩
    | append_singleton t c =>
      have hlast : toolCallLine.getLast? = some c := by rw [← ht, ← append_assoc, getLast?_concat]
      obtain rfl : (0x3a : CodeUnit) = c := Option.some_inj.mp hlast
      exact absurd (htrimmed _ (hcall.mem (mem_append_right _ mem_cons_self))) (by decide)

/-- The line is neither a marker nor a fence line, however it goes on. -/
def Plain (p : JsString) : Prop :=
  ∀ line, p <+: line → Bounded line →
    parseFenceLine line = none ∧ isWholeLineEchoMarker line = false

theorem plain_of_not_candidate (hcandidate : candidate p = false) (hcall : ¬CallLine p) :
    Plain p := by
  intro line hp hline
  constructor
  · by_contra hfence
    obtain ⟨f, hf⟩ := Option.ne_none_iff_exists'.mp hfence
    rw [candidate_of_fence hf (hline.length (by rw [hf]; rfl)) hp] at hcandidate
    exact absurd hcandidate nofun
  · by_contra hmarker
    have hindent := hline.indent (Bool.eq_true_of_not_eq_false hmarker)
    rcases candidate_of_marker (Bool.eq_true_of_not_eq_false hmarker) hindent hp with h | h
    · rw [h] at hcandidate
      exact absurd hcandidate nofun
    · rcases dropIndent_prefix hp with ⟨-, hle⟩ | ⟨-, -, heq⟩
      · exact hcall ⟨h, hle.trans hindent⟩
      · exact hcall ⟨h, heq ▸ hindent⟩

theorem Decided.extend (h : Decided p) (hp : p <+: line) : Decided line := by
  obtain ⟨q, hq, hne, hdecided⟩ := h
  exact ⟨q, hq.trans hp, hne, hdecided⟩

theorem CallLine.decided (h : CallLine p) : Decided p := by
  refine ⟨p, prefix_rfl, fun hnil ↦ ?_, .inr h.call⟩
  have hcall := h.call
  rw [hnil] at hcall
  nomatch hcall

/-- How far a filter is with a line, and what has gone out of it. -/
inductive Progress (block : Option (CodeUnit × ℕ)) (held : Option JsString) (p : JsString) :
    ToolEnvelopeEchoFilter × JsString → Prop
  /-- Nothing is decided. -/
  | waiting : ¬CallLine p → Progress block held p (inLine block held p false, [])
  /-- It is neither a marker nor a fence line. -/
  | plain : Decided p → Plain p →
      Progress block held p (inLine block (held.map (· ++ p)) [] true, shown held p)
  /-- It is a call line, outside of blocks. -/
  | echo : block = none → CallLine p → Progress block held p (echoed, [])
  /-- It is a call line inside of a block. -/
  | hold (b : CodeUnit × ℕ) : block = some b → CallLine p →
      Progress block held p (inLine block (some (held.getD [] ++ p)) [] true, [])

/-- The hold has room for the line, if anything of it is given out. -/
structure Room (block : Option (CodeUnit × ℕ)) (held : Option JsString) (line : JsString)
    (n : ℕ) : Prop where
  outside : block = none → held = none
  inside : block ≠ none → Decided line → Fits (holdOn held line) n

theorem Room.fits (h : Room block held line n) (hd : Decided line) : Fits held n := by
  cases held with
  | none => exact nofun
  | some t =>
    have hblock : block ≠ none := fun hb ↦ absurd (h.outside hb) nofun
    have hhold : holdOn (some t) line = some t := if_neg fun h ↦ absurd h.1 Bool.false_ne_true
    exact hhold ▸ h.inside hblock hd

theorem Room.call (h : Room (some b) held line n) (hcall : CallLine line) :
    Fits (some (held.getD [])) n :=
  holdOn_of_marker hcall.marker ▸ h.inside nofun hcall.decided

variable {char : JsString}

theorem feedChar_safe (h : Fits held char.length) (hnewline : char ≠ [newline]) :
    (inLine block held [] true).feedChar char =
      (inLine block (held.map (· ++ char)) [] true, shown held char) := by
  rw [feedChar, if_neg (by exact Bool.false_ne_true), if_pos (by exact rfl), emit_inLine h]
  dsimp only
  rw [if_neg hnewline]

theorem feedChar_safe_newline (h : Fits held 1) : (inLine block held [] true).feedChar [newline] =
      (inLine block (held.map (· ++ [newline])) [] false, shown held [newline]) := by
  rw [feedChar, if_neg (by exact Bool.false_ne_true), if_pos (by exact rfl), emit_inLine h]
  dsimp only
  rfl

theorem feedChar_pending (hnewline : char ≠ [newline]) : (inLine block held p false).feedChar char =
      if indentOf (p ++ char) ≤ maxIndent ∧ dropIndent (p ++ char) = toolCallLine then
        if block = none then (⟨[], false, none, held, true, false⟩, [])
        else (inLine block held (p ++ char) false).startHold.flushLineStart.emitPending
      else if candidate (p ++ char) then (inLine block held (p ++ char) false, [])
      else (inLine block held (p ++ char) true).emitPending := by
  rw [feedChar, if_neg (by exact Bool.false_ne_true), if_neg (by exact Bool.false_ne_true)]
  dsimp only
  rw [if_neg hnewline]
  cases block <;> rfl

theorem Character.append_ne_nil (h : Character char) (p : JsString) : p ++ char ≠ [] := by
  rcases h with ⟨c, rfl⟩ | ⟨high, low, rfl, -⟩ <;> simp

variable {r : ToolEnvelopeEchoFilter × JsString}

/-- **A character** of a line. -/
theorem Progress.step (h : Progress block held p r) (hchar : Character char)
    (hnewline : char ≠ [newline]) (hp : p ++ char <+: line) (hroom : Room block held line n)
    (hn : line.length ≤ n) :
    Progress block held (p ++ char) ((r.1.feedChar char).1, r.2 ++ (r.1.feedChar char).2) := by
  have hlength := hp.length_le.trans hn
  have hbegins : p <+: p ++ char := prefix_append _ _
  cases h with
  | waiting hcall =>
    rw [feedChar_pending hnewline]
    by_cases hhit : indentOf (p ++ char) ≤ maxIndent ∧ dropIndent (p ++ char) = toolCallLine
    · have hcall : CallLine (p ++ char) := ⟨hhit.2 ▸ prefix_rfl, hhit.1⟩
      rw [if_pos hhit]
      cases block with
      | none =>
        rw [if_pos rfl, hroom.outside rfl]
        exact .echo rfl hcall
      | some b =>
        have hfits := (hroom.call (hcall.extend hp)).mono hlength
        rw [if_neg nofun, startHold_inLine, flushLineStart_inLine, emitPending_inLine hfits]
        exact .hold b rfl hcall
    · have hnot : ¬CallLine (p ++ char) := fun h ↦ by
        rcases dropIndent_of_call hchar h.call with hbefore | hnow
        · rcases dropIndent_prefix hbegins with ⟨hnil, -⟩ | ⟨-, -, heq⟩
          · rw [hnil] at hbefore
            nomatch hbefore
          · exact hcall ⟨hbefore, heq ▸ h.indent⟩
        · exact hhit ⟨h.indent, hnow⟩
      rw [if_neg hhit]
      by_cases hcandidate : candidate (p ++ char) = true
      · rw [if_pos hcandidate]
        exact .waiting hnot
      · have hfalse := eq_false_of_ne_true hcandidate
        have hdecided : Decided (p ++ char) :=
          ⟨p ++ char, prefix_rfl, hchar.append_ne_nil p, .inl hfalse⟩
        rw [if_neg hcandidate, emitPending_inLine ((hroom.fits (hdecided.extend hp)).mono hlength)]
        exact .plain hdecided (plain_of_not_candidate hfalse hnot)
  | plain hdecided hplain =>
    rw [length_append] at hlength
    rw [feedChar_safe ((hroom.fits (hdecided.extend (hbegins.trans hp))).rest hlength) hnewline,
      map_append_append, shown_append]
    exact .plain (hdecided.extend hbegins) fun line hline ↦ hplain line (hbegins.trans hline)
  | echo hblock hcall => exact .echo hblock (hcall.extend hbegins)
  | hold b hblock hcall =>
    subst hblock
    rw [length_append] at hlength
    have hfits : Fits (some (held.getD [] ++ p)) char.length :=
      (hroom.call (hcall.extend (hbegins.trans hp))).rest hlength
    rw [feedChar_safe hfits hnewline, Option.map_some, append_assoc]
    exact .hold b rfl (hcall.extend hbegins)

/-- A line is made of characters, none of which ends it. -/
def Characters (chars : List JsString) : Prop :=
  ∀ char ∈ chars, Character char ∧ char ≠ [newline]

theorem Progress.chars {chars : List JsString} (h : Progress block held p r)
    (hchars : Characters chars) (hp : p ++ chars.flatten <+: line) (hroom : Room block held line n)
    (hn : line.length ≤ n) :
    Progress block held (p ++ chars.flatten) ((r.1.feedChars chars).1,
      r.2 ++ (r.1.feedChars chars).2) := by
  induction chars generalizing p r with
  | nil =>
    rw [flatten_nil, append_nil, feedChars, append_nil]
    exact h
  | cons char chars ih =>
    obtain ⟨⟨hchar, hnewline⟩, hchars⟩ := forall_mem_cons.mp hchars
    rw [flatten_cons, ← append_assoc] at hp ⊢
    have hstep := h.step hchar hnewline ((prefix_append _ _).trans hp) hroom hn
    have hrest := ih hstep hchars hp
    rw [append_assoc r.2] at hrest
    exact hrest

theorem not_callLine_nil : ¬CallLine [] := fun h ↦ absurd h.call (by decide)

theorem progress_line {chars : List JsString} (hchars : Characters chars)
    (hline : chars.flatten = line) (hroom : Room block held line n) (hn : line.length ≤ n) :
    Progress block held line ((inLine block held [] false).feedChars chars) := by
  have hnil : Progress block held [] (inLine block held [] false, []) := .waiting not_callLine_nil
  have h := hnil.chars hchars (by rw [hline]; exact prefix_rfl) hroom hn
  rw [hline] at h
  exact h

theorem openedBy_of_plain (h : parseFenceLine line = none) :
    openedBy line = none ∧ ∀ b, closedBy b line = false := by
  rw [openedBy, h]
  refine ⟨rfl, fun b ↦ ?_⟩
  rw [closedBy, h]
  rfl

theorem feedChars_append (s : ToolEnvelopeEchoFilter) (l m : List JsString) : s.feedChars (l ++ m) =
      (((s.feedChars l).1.feedChars m).1,
        (s.feedChars l).2 ++ ((s.feedChars l).1.feedChars m).2) := by
  induction l generalizing s with
  | nil => rfl
  | cons c l ih =>
    rw [cons_append, feedChars, feedChars, ih]
    simp only [append_assoc]

/-- **A line that has ended**: the filter is where it would be had it kept the line back. -/
theorem feedChars_line {chars : List JsString} (hchars : Characters chars)
    (hline : chars.flatten = line) (hnewline : newline ∉ line) (hbounded : Bounded line)
    (hroom : Room block held line (line.length + 1)) :
    (inLine block held [] false).feedChars (chars ++ [[newline]]) =
      (inLine block held (line ++ [newline]) false).completeLine := by
  have hprogress := progress_line hchars hline hroom (Nat.le_succ _)
  rw [feedChars_append]
  generalize (inLine block held [] false).feedChars chars = r at hprogress ⊢
  rw [feedChars, feedChars]
  simp only [append_nil]
  cases hprogress with
  | waiting hcall =>
    dsimp only
    rfl
  | plain hdecided hplain =>
    obtain ⟨hfence, hmarker⟩ := hplain line prefix_rfl hbounded
    rw [feedChar_safe_newline ((hroom.fits hdecided).rest le_rfl), map_append_append, shown_append]
    cases block with
    | none =>
      rw [hroom.outside rfl, completeLine_outside hnewline hbounded, hmarker,
        if_neg Bool.false_ne_true, (openedBy_of_plain hfence).1]
      rfl
    | some b =>
      rw [completeLine_inside hnewline hbounded (hroom.inside nofun hdecided),
        (openedBy_of_plain hfence).2, if_neg Bool.false_ne_true, holdOn_of_not_marker hmarker]
  | echo hblock hcall =>
    subst hblock
    rw [hroom.outside rfl, completeLine_outside hnewline hbounded, hcall.marker, if_pos rfl]
    rfl
  | hold b hblock hcall =>
    subst hblock
    have hfits : Fits (some (held.getD [] ++ line)) 1 := (hroom.call hcall).rest le_rfl
    rw [feedChar_safe_newline hfits,
      completeLine_inside hnewline hbounded (hroom.inside nofun hcall.decided),
      (openedBy_of_plain (parseFenceLine_of_marker hcall.marker)).2, if_neg Bool.false_ne_true,
      holdOn_of_marker hcall.marker, Option.map_some, Option.map_some, append_assoc]
    rfl

/-! ## The last line -/

/-- What the last line comes to: what of the hold and of the line goes out, and whether an echo was
found. -/
def ending (block : Option (CodeUnit × ℕ)) (held : Option JsString) (line : JsString) :
    JsString × Bool :=
  match block with
  | none => if isWholeLineEchoMarker line then ([], true) else (line, false)
  | some b =>
    if closedBy b line then (held.getD [] ++ line, false)
    else if (holdOn held line).isSome then ([], true) else (line, false)

theorem finish_pending (h : parseFenceLine pending = none) :
    ((inLine block held pending safeLine).finish.2,
      (inLine block held pending safeLine).finish.1.matched) =
      if held.isSome ∨ isWholeLineEchoMarker pending = true then ([], true)
      else (pending, false) := by
  have hnot : ¬((inLine block held pending safeLine).pending ≠ [] ∧
      (parseFenceLine (inLine block held pending safeLine).pending).isSome = true) := by
    rintro ⟨-, hsome⟩
    change (parseFenceLine pending).isSome = true at hsome
    rw [h] at hsome
    exact absurd hsome nofun
  rw [finish, if_neg (by exact Bool.false_ne_true)]
  dsimp only
  rw [if_neg hnot]
  cases held with
  | some t => rfl
  | none =>
    rw [if_neg fun h ↦ h rfl]
    simp only [inLine, marker_dropIndent]
    by_cases hmarker : isWholeLineEchoMarker pending = true
    · simp only [hmarker, if_true, or_true]
    · simp only [hmarker, Bool.false_eq_true, if_false, Option.isSome_none, or_self]
      rfl

theorem ending_of_not_fence (h : parseFenceLine line = none) (hblock : block = none → held = none) :
    ending block held line = if held.isSome ∨ isWholeLineEchoMarker line = true then ([], true)
      else (line, false) := by
  cases block with
  | none =>
    rw [ending, hblock rfl]
    simp only [Option.isSome_none, Bool.false_eq_true, false_or]
  | some b =>
    rw [ending, (openedBy_of_plain h).2, if_neg Bool.false_ne_true, holdOn]
    cases held with
    | none =>
      by_cases hmarker : isWholeLineEchoMarker line = true
      · simp [hmarker]
      · simp [hmarker]
    | some t => simp

theorem finish_fence (h : parseFenceLine pending = some f) (hblock : block = none → held = none)
    (hfits : block ≠ none → Fits held pending.length) :
    ((inLine block held pending false).finish.2,
      (inLine block held pending false).finish.1.matched) = ending block held pending := by
  have hpending : (inLine block held pending false).pending ≠ [] ∧
      (parseFenceLine (inLine block held pending false).pending).isSome = true := by
    constructor
    · intro (hnil : pending = [])
      rw [hnil] at h
      exact absurd h nofun
    · change (parseFenceLine pending).isSome = true
      rw [h]
      rfl
  rw [finish, if_neg (by exact Bool.false_ne_true)]
  dsimp only
  rw [if_pos hpending]
  cases block with
  | none =>
    rw [hblock rfl, completeLine_opens h, ending, marker_of_fence h, if_neg Bool.false_ne_true]
    change (pending ++ [], false) = _
    rw [append_nil]
  | some b =>
    rw [completeLine_closes h (hfits nofun), ending, holdOn_of_not_marker (marker_of_fence h)]
    by_cases hcloses : closedBy b pending = true
    · rw [if_pos hcloses, if_pos hcloses]
      change (held.getD [] ++ pending ++ [], false) = _
      rw [append_nil]
    · rw [if_neg hcloses, if_neg hcloses]
      cases held with
      | none =>
        change (pending ++ [], false) = _
        rw [append_nil]
        rfl
      | some t => rfl

/-- **The last line**: it comes to what it would, had it been kept back. -/
theorem finish_line {chars : List JsString} (hchars : Characters chars)
    (hline : chars.flatten = line) (hbounded : Bounded line)
    (hroom : Room block held line line.length)
    (hfence : (parseFenceLine line).isSome = true → block ≠ none → Fits held line.length) :
    (((inLine block held [] false).feedChars chars).2 ++
        ((inLine block held [] false).feedChars chars).1.finish.2,
      ((inLine block held [] false).feedChars chars).1.finish.1.matched) =
      ending block held line := by
  have hprogress := progress_line hchars hline hroom le_rfl
  generalize (inLine block held [] false).feedChars chars = r at hprogress ⊢
  cases hprogress with
  | waiting hcall =>
    cases hparse : parseFenceLine line with
    | none => exact (finish_pending hparse).trans (ending_of_not_fence hparse hroom.outside).symm
    | some f => exact finish_fence hparse hroom.outside (hfence (by rw [hparse]; rfl))
  | plain hdecided hplain =>
    obtain ⟨hparse, hmarker⟩ := hplain line prefix_rfl hbounded
    rw [ending_of_not_fence hparse hroom.outside, hmarker]
    cases held with
    | none => exact congrArg (·, false) (append_nil line)
    | some t => rfl
  | echo hblock hcall =>
    subst hblock
    rw [ending, hcall.marker]
    rfl
  | hold b hblock hcall =>
    subst hblock
    rw [ending_of_not_fence (parseFenceLine_of_marker hcall.marker) hroom.outside,
      if_pos (.inr hcall.marker)]
    rfl

end ToolEnvelopeEchoFilter

end Text
