import OpenCodex.Sse.Payload

/-!
# Replacing the payload of a block

A rewrite changes what an event says and nothing else about its block: the first `data` line gives
way to the new payload, the other `data` lines go, the remaining fields and the style of the line
endings stay.  What is read of the block afterwards is the new payload
(`sseDataPayload_replaceSseDataPayload`), if that is one line.
-/

set_option autoImplicit false

open List

namespace Sse

/-! ## Lines -/

/-- `block.split(/\r\n|\r|\n/)`, `line` being what was read of the first in reverse. -/
def splitLines (line : List CodeUnit) : JsString → List JsString
  | [] => [line.reverse]
  | 13 :: 10 :: rest => line.reverse :: splitLines [] rest
  | c :: rest =>
    if c = 13 ∨ c = 10 then line.reverse :: splitLines [] rest else splitLines (c :: line) rest

/-- `sseLineEnding`: the first line ending of a block. -/
def sseLineEnding : JsString → JsString
  | [] => [10]
  | 13 :: 10 :: _ => [13, 10]
  | c :: rest => if c = 13 ∨ c = 10 then [c] else sseLineEnding rest

/-- `lines.join(newline)` -/
def joinLines (newline : JsString) : List JsString → JsString
  | [] => []
  | [line] => line
  | line :: lines => line ++ (newline ++ joinLines newline lines)

def isDataLine (line : JsString) : Bool := line = js "data" || (js "data:").isPrefixOf line

/-- The lines with the first `data` line replaced and the others gone. -/
def replaceDataLines (payload : JsString) : Bool → List JsString → List JsString
  | _, [] => []
  | replaced, line :: lines =>
    if !isDataLine line then line :: replaceDataLines payload replaced lines
    else if replaced then replaceDataLines payload replaced lines
    else (splitLines [] payload).map (js "data: " ++ ·) ++ replaceDataLines payload true lines

def replaceSseDataPayload (block payload : JsString) : JsString :=
  if sseDataPayload block = some payload then block
  else
    let lines := splitLines [] block
    if lines.any isDataLine then
      joinLines (sseLineEnding block) (replaceDataLines payload false lines)
    else block

/-! ## Splitting and joining -/

/-- No line ending is in the text. -/
def OneLine (text : JsString) : Prop := ∀ c ∈ text, c ≠ 13 ∧ c ≠ 10

theorem OneLine.append {text text' : JsString} (h : OneLine text) (h' : OneLine text') :
    OneLine (text ++ text') :=
  forall_mem_append.mpr ⟨h, h'⟩

theorem oneLine_of_printable {text : JsString} (h : Json.Printable text) : OneLine text := by
  intro c hc
  have := h c hc
  constructor <;> rintro rfl <;> nomatch this

/-- A line ending, as one of the three there are. -/
def IsNewline (newline : JsString) : Prop := newline = [13, 10] ∨ newline = [13] ∨ newline = [10]

theorem isNewline_sseLineEnding (block : JsString) : IsNewline (sseLineEnding block) := by
  induction block using sseLineEnding.induct with
  | case1 => exact .inr (.inr rfl)
  | case2 rest => exact .inl rfl
  | case3 c rest hnot hc =>
    rw [sseLineEnding, if_pos hc]
    · rcases hc with rfl | rfl
      · exact .inr (.inl rfl)
      · exact .inr (.inr rfl)
    · exact hnot
  | case4 c rest hnot hc ih =>
    rw [sseLineEnding, if_neg hc]
    · exact ih
    · exact hnot

variable {block : JsString}

theorem splitLines_oneLine {line : List CodeUnit} (h : OneLine line) :
    ∀ l ∈ splitLines line block, OneLine l := by
  have hrev : ∀ {line : List CodeUnit}, OneLine line → OneLine line.reverse :=
    fun h c hc ↦ h c (mem_reverse.mp hc)
  have hnil : OneLine [] := nofun
  induction line, block using splitLines.induct with
  | case1 line => simpa [splitLines] using hrev h
  | case2 line rest ih => exact forall_mem_cons.mpr ⟨hrev h, ih hnil⟩
  | case3 line c rest hnot hc ih =>
    rw [splitLines, if_pos hc]
    · exact forall_mem_cons.mpr ⟨hrev h, ih hnil⟩
    · exact hnot
  | case4 line c rest hnot hc ih =>
    rw [splitLines, if_neg hc]
    · exact ih (forall_mem_cons.mpr ⟨not_or.mp hc, h⟩)
    · exact hnot

theorem splitLines_eq {line text : List CodeUnit} (h : OneLine text) :
    splitLines line text = [line.reverse ++ text] := by
  induction text generalizing line with
  | nil => simp [splitLines]
  | cons c text ih =>
    obtain ⟨hc, htext⟩ := forall_mem_cons.mp h
    rw [splitLines, if_neg (not_or.mpr hc), ih htext]
    · simp
    · rintro rest rfl
      exact absurd rfl hc.1

theorem splitLines_newline {line text newline rest : List CodeUnit} (h : OneLine text)
    (hnewline : IsNewline newline) (hrest : newline = [13] → rest.head? ≠ some 10) :
    splitLines line (text ++ (newline ++ rest)) = (line.reverse ++ text) :: splitLines [] rest := by
  induction text generalizing line with
  | nil =>
    rw [append_nil, nil_append]
    rcases hnewline with rfl | rfl | rfl
    · rw [cons_append, cons_append, nil_append, splitLines]
    · rw [cons_append, nil_append, splitLines, if_pos (.inl rfl)]
      rintro rest' - rfl
      exact hrest rfl rfl
    · rw [cons_append, nil_append, splitLines, if_pos (.inr rfl)]
      intro rest' heq
      nomatch heq
  | cons c text ih =>
    obtain ⟨hc, htext⟩ := forall_mem_cons.mp h
    rw [cons_append, splitLines, if_neg (not_or.mpr hc), ih htext]
    · simp
    · rintro rest' rfl
      exact absurd rfl hc.1

variable {lines : List JsString}

theorem head?_joinLines (h : ∀ l ∈ lines, OneLine l) : (joinLines [13] lines).head? ≠ some 10 := by
  rcases lines with _ | ⟨line, _ | ⟨next, lines⟩⟩
  · simp [joinLines]
  · intro hhead
    exact (h line mem_cons_self 10 (mem_of_mem_head? hhead)).2 rfl
  · rw [joinLines]
    · cases line with
      | nil => simp
      | cons c line =>
        intro hhead
        obtain rfl : c = 10 := by simpa using hhead
        exact (h _ mem_cons_self 10 mem_cons_self).2 rfl
    · simp

/-- **Joined lines split where they were joined.** -/
theorem splitLines_joinLines {newline : JsString} (hnewline : IsNewline newline)
    (h : ∀ l ∈ lines, OneLine l) (hlines : lines ≠ []) :
    splitLines [] (joinLines newline lines) = lines := by
  induction lines with
  | nil => exact absurd rfl hlines
  | cons line lines ih =>
    obtain ⟨hline, hrest⟩ := forall_mem_cons.mp h
    cases lines with
    | nil => exact splitLines_eq hline
    | cons next lines =>
      rw [joinLines, splitLines_newline hline hnewline, ih hrest (cons_ne_nil _ _)]
      · rfl
      · rintro rfl
        exact head?_joinLines hrest
      · simp

/-! ## Reading the data lines -/

/-- A last line that is empty adds nothing, so splitting tells the data lines as reading does. -/
theorem foldl_splitLines (line : List CodeUnit) (block : JsString) (result : Option JsString) :
    (splitLines line block).foldl addDataLine result =
      (sseLines line block).foldl addDataLine result := by
  induction line, block using splitLines.induct generalizing result with
  | case1 line =>
    rw [splitLines, sseLines]
    split_ifs with h
    · rw [h]
      rfl
    · rfl
  | case2 line rest ih => rw [splitLines, sseLines, foldl_cons, foldl_cons, ih]
  | case3 line c rest hnot hc ih =>
    rw [splitLines, sseLines, if_pos hc, if_pos hc, foldl_cons, foldl_cons, ih]
    all_goals exact hnot
  | case4 line c rest hnot hc ih =>
    rw [splitLines, sseLines, if_neg hc, if_neg hc, ih]
    all_goals exact hnot

theorem sseDataPayload_eq (block : JsString) :
    sseDataPayload block = (splitLines [] block).foldl addDataLine none :=
  (foldl_splitLines [] block none).symm

variable {line : JsString}

theorem addDataLine_of_not_isDataLine (h : isDataLine line = false) (result : Option JsString) :
    addDataLine result line = result := by
  rw [isDataLine, Bool.or_eq_false_iff, decide_eq_false_iff_not] at h
  rw [addDataLine, if_neg h.1, if_neg (by rw [h.2]; decide)]

theorem foldl_addDataLine_of_none (h : ∀ l ∈ lines, isDataLine l = false) (result : Option JsString) :
    lines.foldl addDataLine result = result := by
  induction lines generalizing result with
  | nil => rfl
  | cons line lines ih =>
    obtain ⟨hline, hrest⟩ := forall_mem_cons.mp h
    rw [foldl_cons, addDataLine_of_not_isDataLine hline, ih hrest]

variable {payload : JsString}

theorem any_isDataLine (h : sseDataPayload block = some payload) :
    (splitLines [] block).any isDataLine = true := by
  by_contra hnone
  rw [Bool.not_eq_true, List.any_eq_false] at hnone
  rw [sseDataPayload_eq,
    foldl_addDataLine_of_none fun l hl ↦ Bool.eq_false_iff.mpr (hnone l hl)] at h
  nomatch h

theorem addDataLine_data (payload : JsString) :
    addDataLine none (js "data: " ++ payload) = some payload := by
  have hne : js "data: " ++ payload ≠ js "data" := by
    intro heq
    have hlen := congrArg List.length heq
    have h6 : (js "data: ").length = 6 := rfl
    have h4 : (js "data").length = 4 := rfl
    rw [length_append, h6, h4] at hlen
    omega
  have hdrop : (js "data: " ++ payload).drop 5 = 32 :: payload := rfl
  rfl

theorem replaceDataLines_keep (payload : JsString) (replaced : Bool) (lines : List JsString)
    (h : isDataLine line = false) : replaceDataLines payload replaced (line :: lines) =
      line :: replaceDataLines payload replaced lines := by
  rw [replaceDataLines, h]
  rfl

theorem replaceDataLines_drop (payload : JsString) (lines : List JsString)
    (h : isDataLine line = true) :
    replaceDataLines payload true (line :: lines) = replaceDataLines payload true lines := by
  rw [replaceDataLines, h]
  rfl

theorem replaceDataLines_replace (hpayload : OneLine payload) (lines : List JsString)
    (h : isDataLine line = true) : replaceDataLines payload false (line :: lines) =
      (js "data: " ++ payload) :: replaceDataLines payload true lines := by
  rw [replaceDataLines, h, splitLines_eq hpayload]
  rfl

theorem foldl_replaceDataLines_true (payload : JsString) (lines : List JsString)
    (result : Option JsString) :
    (replaceDataLines payload true lines).foldl addDataLine result = result := by
  induction lines generalizing result with
  | nil => rfl
  | cons line lines ih =>
    cases h : isDataLine line with
    | false =>
      rw [replaceDataLines_keep payload true lines h, foldl_cons, ih,
        addDataLine_of_not_isDataLine h]
    | true => rw [replaceDataLines_drop payload lines h, ih]

theorem foldl_replaceDataLines (hpayload : OneLine payload) (h : lines.any isDataLine = true) :
    (replaceDataLines payload false lines).foldl addDataLine none = some payload := by
  induction lines with
  | nil => nomatch h
  | cons line lines ih =>
    cases hdata : isDataLine line with
    | false =>
      rw [replaceDataLines_keep payload false lines hdata, foldl_cons,
        addDataLine_of_not_isDataLine hdata]
      exact ih (by simpa [hdata] using h)
    | true =>
      rw [replaceDataLines_replace hpayload lines hdata, foldl_cons, addDataLine_data,
        foldl_replaceDataLines_true]

theorem replaceDataLines_oneLine (hpayload : OneLine payload) (h : ∀ l ∈ lines, OneLine l)
    (replaced : Bool) : ∀ l ∈ replaceDataLines payload replaced lines, OneLine l := by
  induction lines generalizing replaced with
  | nil => exact fun l hl ↦ nomatch hl
  | cons line lines ih =>
    obtain ⟨hline, hrest⟩ := forall_mem_cons.mp h
    cases hdata : isDataLine line with
    | false =>
      rw [replaceDataLines_keep payload replaced lines hdata]
      exact forall_mem_cons.mpr ⟨hline, ih hrest replaced⟩
    | true =>
      cases replaced with
      | true =>
        rw [replaceDataLines_drop payload lines hdata]
        exact ih hrest true
      | false =>
        rw [replaceDataLines_replace hpayload lines hdata]
        refine forall_mem_cons.mpr ⟨.append ?_ hpayload, ih hrest true⟩
        unfold OneLine
        decide

/-- **A block whose payload is replaced by one line has that payload.** -/
theorem sseDataPayload_replaceSseDataPayload {old : JsString}
    (hold : sseDataPayload block = some old) (hpayload : OneLine payload) :
    sseDataPayload (replaceSseDataPayload block payload) = some payload := by
  rw [replaceSseDataPayload]
  split_ifs with heq
  · exact heq
  · dsimp only
    have hany := any_isDataLine hold
    have hread := foldl_replaceDataLines hpayload hany
    rw [if_pos hany, sseDataPayload_eq, splitLines_joinLines (isNewline_sseLineEnding block), hread]
    · exact replaceDataLines_oneLine hpayload
        (splitLines_oneLine fun c hc ↦ absurd hc not_mem_nil) false
    · intro hnil
      rw [hnil] at hread
      nomatch hread

end Sse
