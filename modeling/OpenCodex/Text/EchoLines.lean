import Mathlib.Data.List.TakeWhile
import OpenCodex.Text.EchoFilter

/-!
# What a line is

A line is read by its indent and what follows it, and what follows is a fence line, a marker, or
neither; the end of the line has no say in it (`parseFenceLine_newline`, `marker_newline`).  Neither
has a carriage return before it (`openedBy_dropReturn`, `closedBy_dropReturn`, `marker_dropReturn`).

What a line is going to be shows early: every part that a marker or a fence line begins with may
still become one (`candidate_of_fence`, `candidate_of_marker`), unless it already is the beginning
of a call line.
-/

set_option autoImplicit false

open List Bool

namespace Text

open Bridge (trim trimStart isTrimmed)

/-! ## The indent -/

theorem dropIndent_append (l m : JsString) :
    dropIndent (l ++ m) = if dropIndent l = [] then dropIndent m else dropIndent l ++ m := by
  rw [dropIndent, dropWhile_append, ← dropIndent, ← dropIndent]
  simp only [List.isEmpty_iff]

variable {c : CodeUnit}

theorem dropIndent_concat (l : JsString) (h : isIndent c = false) :
    dropIndent (l ++ [c]) = dropIndent l ++ [c] := by
  rw [dropIndent_append]
  split_ifs with hl
  · rw [hl, dropIndent, dropWhile_cons_of_neg (by rw [h]; exact false_ne_true)]
    rfl
  · rfl

theorem dropIndent_newline (l : JsString) :
    dropIndent (l ++ [newline]) = dropIndent l ++ [newline] := dropIndent_concat l rfl

theorem indentOf_newline (l : JsString) : indentOf (l ++ [newline]) = indentOf l := by
  rw [indentOf, indentOf, dropIndent_newline, length_append, length_append, Nat.add_sub_add_right]

variable {l : JsString}

theorem isIndent_head (h : (dropIndent l).head? = some c) : isIndent c = false := by
  have hnot := head?_dropWhile_not isIndent l
  rw [← dropIndent, h] at hnot
  exact eq_false_iff.mpr (by simpa using hnot)

theorem dropIndent_of_head (h : ∀ c, l.head? = some c → isIndent c = false) : dropIndent l = l := by
  cases l with
  | nil => rfl
  | cons c l => exact dropWhile_cons_of_neg (by rw [h c rfl]; exact false_ne_true)

theorem dropIndent_dropIndent (l : JsString) : dropIndent (dropIndent l) = dropIndent l :=
  dropIndent_of_head fun _ h ↦ isIndent_head h

/-! ## The end -/

variable {ws : JsString}

theorem trimStart_trimmed_append (h : ∀ c ∈ ws, isTrimmed c = true) :
    trimStart (ws ++ l) = trimStart l := dropWhile_append_of_pos h

theorem trimEnd_append (l : JsString) (h : ∀ c ∈ ws, isTrimmed c = true) :
    trimEnd (l ++ ws) = trimEnd l := by
  rw [trimEnd, reverse_append, trimStart_trimmed_append fun c hc ↦ h c (mem_reverse.mp hc), trimEnd]

theorem trimEnd_spec (l : JsString) : ∃ ws, l = trimEnd l ++ ws ∧ ∀ c ∈ ws, isTrimmed c = true := by
  refine ⟨(l.reverse.takeWhile isTrimmed).reverse, ?_, fun c hc ↦ ?_⟩
  · rw [trimEnd, trimStart, ← reverse_append, takeWhile_append_dropWhile, reverse_reverse]
  · exact mem_takeWhile_imp (mem_reverse.mp hc)

theorem trimEnd_prefix_self (l : JsString) : trimEnd l <+: l := by
  obtain ⟨ws, h, -⟩ := trimEnd_spec l
  exact ⟨ws, h.symm⟩

theorem trimEnd_trimEnd (l : JsString) : trimEnd (trimEnd l) = trimEnd l := by
  obtain ⟨ws, h, hws⟩ := trimEnd_spec l
  calc trimEnd (trimEnd l) = trimEnd (trimEnd l ++ ws) := (trimEnd_append _ hws).symm
    _ = trimEnd l := by rw [← h]

theorem dropIndent_trimEnd (l : JsString) :
    dropIndent (trimEnd (dropIndent l)) = trimEnd (dropIndent l) := by
  refine dropIndent_of_head fun c hc ↦ isIndent_head (l := l) ?_
  obtain ⟨ws, hws⟩ := trimEnd_prefix_self (dropIndent l)
  rw [← hws, head?_append, hc]
  rfl

theorem dropReturn_concat (l : JsString) : dropReturn (l ++ [0x0d]) = l := by
  rw [dropReturn, getLast?_concat, if_pos rfl, dropLast_concat]

theorem dropReturn_of_ne (h : l.getLast? ≠ some 0x0d) : dropReturn l = l := if_neg h

theorem dropReturn_spec (l : JsString) :
    l = dropReturn l ++ [0x0d] ∨ l = dropReturn l ∧ l.getLast? ≠ some 0x0d := by
  rw [dropReturn]
  split_ifs with h
  · exact .inl (dropLast_append_getLast? _ h).symm
  · exact .inr ⟨rfl, h⟩

theorem dropReturn_prefix_self (l : JsString) : dropReturn l <+: l := by
  rcases dropReturn_spec l with h | ⟨h, -⟩
  · exact ⟨[0x0d], h.symm⟩
  · rw [← h]

theorem dropLineEnd_prefix_self (l : JsString) : dropLineEnd l <+: l := by
  rw [dropLineEnd]
  split_ifs
  · exact (dropReturn_prefix_self _).trans (List.dropLast_prefix l)
  · exact dropReturn_prefix_self l

theorem dropLineEnd_newline (l : JsString) : dropLineEnd (l ++ [newline]) = dropReturn l := by
  rw [dropLineEnd, getLast?_concat, if_pos rfl, dropLast_concat]

theorem dropNewline_newline (l : JsString) : dropNewline (l ++ [newline]) = dropReturn l := by
  rw [dropNewline, getLast?_concat, if_pos rfl, dropLast_concat]

theorem dropLineEnd_of_not_mem (h : newline ∉ l) : dropLineEnd l = dropReturn l := by
  rw [dropLineEnd, if_neg fun hl ↦ h (mem_of_getLast? hl)]

theorem trimEnd_dropReturn (l : JsString) : trimEnd (dropReturn l) = trimEnd l := by
  rcases dropReturn_spec l with h | ⟨h, -⟩
  · conv_rhs => rw [h]
    exact (trimEnd_append _ (by decide)).symm
  · rw [← h]

theorem dropIndent_dropReturn (l : JsString) :
    dropIndent (dropReturn l) = dropReturn (dropIndent l) := by
  rcases dropReturn_spec l with h | ⟨h, hlast⟩
  · conv_rhs => rw [h]
    rw [dropIndent_concat _ (by decide), dropReturn_concat]
  · rw [← h, dropReturn_of_ne fun hl ↦ hlast ?_]
    rw [← takeWhile_append_dropWhile (p := isIndent) (l := l), getLast?_append]
    rw [show l.dropWhile isIndent = dropIndent l from rfl, hl]
    rfl

theorem indentOf_dropReturn (l : JsString) : indentOf (dropReturn l) = indentOf l := by
  rcases dropReturn_spec l with h | ⟨h, -⟩
  · conv_rhs => rw [h]
    rw [indentOf, indentOf, dropIndent_concat _ (by decide), length_append, length_append,
      Nat.add_sub_add_right]
  · rw [← h]

/-! ## Fence lines -/

/-- The block that a line opens. -/
def openedBy (line : JsString) : Option (CodeUnit × ℕ) :=
  ((parseFenceLine line).filter opensFence).map fun f ↦ (f.char, f.length)

/-- A line closes a block. -/
def closedBy (block : CodeUnit × ℕ) (line : JsString) : Bool :=
  (parseFenceLine line).any (closesFence · block.1 block.2)

theorem not_mem_dropIndent (h : c ∉ l) : c ∉ dropIndent l :=
  fun hc ↦ h ((dropWhile_suffix _).mem hc)

theorem parseFenceLine_newline (h : newline ∉ l) :
    parseFenceLine (l ++ [newline]) = parseFenceLine l := by
  rw [parseFenceLine, parseFenceLine, indentOf_newline, dropIndent_newline, dropLineEnd_newline,
    dropLineEnd_of_not_mem (not_mem_dropIndent h)]

theorem trim_eq_nil : trim l = [] ↔ ∀ c ∈ l, isTrimmed c = true := by
  rw [trim, reverse_eq_nil_iff, trimStart, dropWhile_eq_nil_iff]
  constructor
  · intro h c hc
    by_contra hnot
    -- what is not trimmed at the start begins with a unit that is not
    have hmem : c ∈ l.dropWhile isTrimmed := by
      rw [← takeWhile_append_dropWhile (p := isTrimmed) (l := l)] at hc
      exact (mem_append.mp hc).resolve_left fun h ↦ hnot (mem_takeWhile_imp h)
    exact hnot (h c (mem_reverse.mpr hmem))
  · intro h c hc
    exact h c ((dropWhile_suffix _).mem (mem_reverse.mp hc))

theorem takeWhile_concat_of_neg {p : CodeUnit → Bool} (h : p c = false) (l : JsString) :
    (l ++ [c]).takeWhile p = l.takeWhile p := by
  rw [takeWhile_append, takeWhile_cons_of_neg (by rw [h]; exact false_ne_true)]
  split_ifs with hl
  · rw [append_nil]
    exact ((List.takeWhile_prefix p).eq_of_length hl).symm
  · rfl

theorem fenceLine_return (l : JsString) : fenceLine (l ++ [0x0d]) =
      (fenceLine l).map fun f ↦ { f with rest := f.rest ++ [0x0d] } := by
  cases l with
  | nil => rfl
  | cons char l =>
    by_cases hchar : char = 0x60 ∨ char = 0x7e
    · have hreturn : ((0x0d : CodeUnit) == char) = false := by rcases hchar with rfl | rfl <;> rfl
      have hrun : (char :: (l ++ [0x0d])).takeWhile (· == char) =
          (char :: l).takeWhile (· == char) :=
        takeWhile_concat_of_neg (p := (· == char)) hreturn (char :: l)
      have hdrop : (char :: (l ++ [0x0d])).drop ((char :: l).takeWhile (· == char)).length =
          (char :: l).drop ((char :: l).takeWhile (· == char)).length ++ [0x0d] :=
        drop_append_of_le_length (List.takeWhile_prefix _).length_le
      rw [cons_append, fenceLine, fenceLine, hrun, hdrop]
      split_ifs
      · rfl
      · rfl
    · rw [cons_append, fenceLine, fenceLine, if_neg fun h ↦ hchar h.1, if_neg fun h ↦ hchar h.1]
      rfl

theorem opensFence_return (f : FenceLine) :
    opensFence { f with rest := f.rest ++ [0x0d] } = opensFence f := by
  have h : (f.rest ++ [0x0d]).contains 0x60 = f.rest.contains 0x60 := by
    rw [contains_append]
    simp
  rw [opensFence, opensFence]
  dsimp only
  rw [h]

theorem closesFence_return (f : FenceLine) (char : CodeUnit) (length : ℕ) :
    closesFence { f with rest := f.rest ++ [0x0d] } char length = closesFence f char length := by
  have h : trim (f.rest ++ [0x0d]) = [] ↔ trim f.rest = [] := by
    rw [trim_eq_nil, trim_eq_nil, forall_mem_append]
    exact and_iff_left (by decide)
  rw [closesFence, closesFence]
  dsimp only
  simp only [h]

/-- Without its carriage return a line is the same fence line, but for what follows the run. -/
theorem parseFenceLine_dropReturn (h : newline ∉ l) :
    parseFenceLine l = parseFenceLine (dropReturn l) ∨ parseFenceLine l =
        (parseFenceLine (dropReturn l)).map fun f ↦ { f with rest := f.rest ++ [0x0d] } := by
  have hmem : newline ∉ dropReturn (dropIndent l) :=
    fun hn ↦ not_mem_dropIndent h ((dropReturn_prefix_self _).mem hn)
  rw [parseFenceLine, parseFenceLine, indentOf_dropReturn, dropIndent_dropReturn,
    dropLineEnd_of_not_mem (not_mem_dropIndent h), dropLineEnd_of_not_mem hmem]
  split_ifs
  · exact .inl rfl
  · rcases dropReturn_spec (dropReturn (dropIndent l)) with hreturn | ⟨hsame, -⟩
    · refine .inr ?_
      conv_lhs => rw [hreturn]
      exact fenceLine_return _
    · exact .inl (by rw [← hsame])

theorem openedBy_dropReturn (h : newline ∉ l) : openedBy (dropReturn l) = openedBy l := by
  rw [openedBy, openedBy]
  rcases parseFenceLine_dropReturn h with hp | hp
  · rw [hp]
  · rw [hp]
    cases parseFenceLine (dropReturn l) with
    | none => rfl
    | some f =>
      rw [Option.map_some, Option.filter, Option.filter, opensFence_return]
      split_ifs
      · rfl
      · rfl

theorem closedBy_dropReturn (h : newline ∉ l) (block : CodeUnit × ℕ) :
    closedBy block (dropReturn l) = closedBy block l := by
  rw [closedBy, closedBy]
  rcases parseFenceLine_dropReturn h with hp | hp
  · rw [hp]
  · rw [hp]
    cases parseFenceLine (dropReturn l) with
    | none => rfl
    | some f => exact (closesFence_return f _ _).symm

theorem openedBy_newline (h : newline ∉ l) : openedBy (l ++ [newline]) = openedBy l := by
  rw [openedBy, openedBy, parseFenceLine_newline h]

theorem closedBy_newline (h : newline ∉ l) (block : CodeUnit × ℕ) :
    closedBy block (l ++ [newline]) = closedBy block l := by
  rw [closedBy, closedBy, parseFenceLine_newline h]

/-! ## Markers -/

theorem marker_dropReturn (l : JsString) :
    isWholeLineEchoMarker (dropReturn l) = isWholeLineEchoMarker l := by
  rw [isWholeLineEchoMarker, isWholeLineEchoMarker, dropIndent_dropReturn, trimEnd_dropReturn]

/-- What of a line is left without its end and its indent is a marker, if the line is. -/
theorem marker_newline (l : JsString) :
    isWholeLineEchoMarker (trimEnd (dropNewline (dropIndent (l ++ [newline])))) =
      isWholeLineEchoMarker l := by
  rw [isWholeLineEchoMarker, isWholeLineEchoMarker, dropIndent_newline, dropNewline_newline,
    trimEnd_dropReturn, dropIndent_trimEnd, trimEnd_trimEnd]

theorem marker_dropIndent (l : JsString) :
    isWholeLineEchoMarker (dropIndent l) = isWholeLineEchoMarker l := by
  rw [isWholeLineEchoMarker, isWholeLineEchoMarker, dropIndent_dropIndent]

theorem marker_iff : isWholeLineEchoMarker l = true ↔
    trimEnd (dropIndent l) ∈ wholeLineMarkers ∨ toolCallLine <+: trimEnd (dropIndent l) := by
  rw [isWholeLineEchoMarker, or_eq_true, contains_iff_mem, isPrefixOf_iff_prefix]

theorem wholeLineMarkers_head : ∀ marker ∈ wholeLineMarkers, marker.head? = some 0x5b := by decide

theorem head_of_marker (h : isWholeLineEchoMarker l = true) : (dropIndent l).head? = some 0x5b := by
  obtain ⟨rest, hrest⟩ := trimEnd_prefix_self (dropIndent l)
  rcases marker_iff.mp h with hmem | ⟨rest', hcall⟩
  · rw [← hrest, head?_append, wholeLineMarkers_head _ hmem]
    rfl
  · rw [← hrest, ← hcall]
    rfl

variable {f : FenceLine}

theorem fenceLine_eq_some (h : fenceLine l = some f) :
    (f.char = 0x60 ∨ f.char = 0x7e) ∧ [f.char, f.char, f.char] <+: l := by
  cases l with
  | nil => exact absurd h nofun
  | cons char l =>
    rw [fenceLine] at h
    split_ifs at h with hrun
    obtain rfl := Option.some_inj.mp h
    refine ⟨hrun.1, ?_⟩
    have hall : (char :: l).takeWhile (· == char) =
        replicate ((char :: l).takeWhile (· == char)).length char :=
      eq_replicate_of_mem fun c hc ↦ eq_of_beq (mem_takeWhile_imp (p := (· == char)) hc)
    obtain ⟨n, hn⟩ := Nat.exists_eq_add_of_le hrun.2
    refine List.IsPrefix.trans ⟨replicate n char, ?_⟩
      (List.takeWhile_prefix (l := char :: l) (· == char))
    rw [hall, hn, replicate_add]
    rfl

theorem parseFenceLine_eq_some (h : parseFenceLine l = some f) :
    indentOf l ≤ maxFenceIndent ∧ (f.char = 0x60 ∨ f.char = 0x7e) ∧
      [f.char, f.char, f.char] <+: dropIndent l := by
  rw [parseFenceLine] at h
  split_ifs at h with hindent
  obtain ⟨hchar, hbegins⟩ := fenceLine_eq_some h
  exact ⟨Nat.le_of_not_lt hindent, hchar, hbegins.trans (dropLineEnd_prefix_self _)⟩

theorem parseFenceLine_of_marker (h : isWholeLineEchoMarker l = true) :
    parseFenceLine l = none := by
  by_contra hnone
  obtain ⟨f, hf⟩ := Option.ne_none_iff_exists'.mp hnone
  obtain ⟨-, hchar, rest, hrest⟩ := parseFenceLine_eq_some hf
  have hhead := head_of_marker h
  rw [← hrest] at hhead
  have hbracket : f.char = 0x5b := Option.some_inj.mp hhead
  rw [hbracket] at hchar
  nomatch hchar

/-! ## What a line begins with -/

variable {p : JsString}

theorem dropIndent_prefix (h : p <+: l) : (dropIndent p = [] ∧ indentOf p ≤ indentOf l) ∨
      (dropIndent p ≠ [] ∧ dropIndent p <+: dropIndent l ∧ indentOf p = indentOf l) := by
  obtain ⟨m, rfl⟩ := h
  by_cases hp : dropIndent p = []
  · refine .inl ⟨hp, ?_⟩
    rw [indentOf, indentOf, dropIndent_append, if_pos hp, hp, length_append, length_nil]
    have hle := (dropWhile_suffix isIndent (l := m)).length_le
    change p.length - 0 ≤ p.length + m.length - (m.dropWhile isIndent).length
    omega
  · refine .inr ⟨hp, ?_, ?_⟩
    · rw [dropIndent_append, if_neg hp]
      exact prefix_append _ _
    · rw [indentOf, indentOf, dropIndent_append, if_neg hp, length_append, length_append,
        Nat.add_sub_add_right]

namespace ToolEnvelopeEchoFilter

theorem candidate_of_indent (h : dropIndent p = []) (hindent : indentOf p ≤ maxIndent) :
    candidate p = true := by
  rw [candidate, h]
  simp [hindent]

theorem fenceStart_of_run (hc : c = 0x60 ∨ c = 0x7e) {probe : JsString} (hne : probe ≠ [])
    (h : probe <+: [c, c, c] ∨ [c, c, c] <+: probe) : fenceStart probe = true := by
  rcases h with hshort | ⟨rest, rfl⟩
  · match probe, hne with
    | [a], _ =>
      obtain ⟨rfl, -⟩ := cons_prefix_cons.mp hshort
      rcases hc with rfl | rfl <;> rfl
    | [a, b], _ =>
      obtain ⟨rfl, hshort⟩ := cons_prefix_cons.mp hshort
      obtain ⟨rfl, -⟩ := cons_prefix_cons.mp hshort
      rcases hc with rfl | rfl <;> rfl
    | a :: b :: d :: rest, _ =>
      have hlength := hshort.length_le
      simp only [length_cons, length_nil] at hlength
      have hsame : (a :: b :: d :: rest).length = [c, c, c].length := by
        simp only [length_cons, length_nil]
        omega
      rw [hshort.eq_of_length hsame]
      rcases hc with rfl | rfl <;> rfl
  · rcases hc with rfl | rfl <;> rfl

theorem candidate_of_fence (h : parseFenceLine l = some f) (hlength : l.length ≤ maxFenceLine)
    (hp : p <+: l) : candidate p = true := by
  obtain ⟨hindent, hchar, hrun⟩ := parseFenceLine_eq_some h
  rcases dropIndent_prefix hp with ⟨hnil, hle⟩ | ⟨hne, hbegins, heq⟩
  · exact candidate_of_indent hnil (hle.trans (hindent.trans (by decide)))
  · have hstart : fenceStart (dropIndent p) = true :=
      fenceStart_of_run hchar hne (List.prefix_or_prefix_of_prefix hbegins hrun)
    have hshort : p.length ≤ maxFenceLine := hp.length_le.trans hlength
    rw [candidate, heq, hstart, decide_eq_true hindent, decide_eq_true hshort]
    rfl

theorem unterminated_prefix : ∀ marker ∈ wholeLineMarkers, ∃ m ∈ markers, marker <+: m := by decide

/-- What a marker begins with may still become one, or it is the beginning of a call line. -/
theorem candidate_of_marker (h : isWholeLineEchoMarker l = true) (hindent : indentOf l ≤ maxIndent)
    (hp : p <+: l) : candidate p = true ∨ toolCallLine <+: dropIndent p := by
  rcases dropIndent_prefix hp with ⟨hnil, hle⟩ | ⟨hne, hbegins, heq⟩
  · exact .inl (candidate_of_indent hnil (hle.trans hindent))
  have hle : indentOf p ≤ maxIndent := heq ▸ hindent
  -- it is enough that it begins a marker, or is one with whitespace behind it
  have hmarker (hm : markers.any ((dropIndent p).isPrefixOf ·) = true ∨
      trimEnd (dropIndent p) ∈ wholeLineMarkers) : candidate p = true := by
    rw [candidate, decide_eq_true hle, Bool.true_and, Bool.or_eq_true, Bool.or_eq_true,
      or_eq_true, contains_iff_mem]
    exact .inr (hm.imp_left .inr)
  rcases marker_iff.mp h with hmem | hcall
  · left
    obtain ⟨ws, hws, htrimmed⟩ := trimEnd_spec (dropIndent l)
    rcases prefix_or_prefix_of_prefix hbegins (trimEnd_prefix_self (dropIndent l)) with
      hshort | ⟨ws', hws'⟩
    · obtain ⟨m, hm, hbegins⟩ := unterminated_prefix _ hmem
      exact hmarker (.inl (any_eq_true.mpr
        ⟨m, hm, isPrefixOf_iff_prefix.mpr (hshort.trans hbegins)⟩))
    · have hbehind : ws' <+: ws := by
        rw [hws, ← hws', prefix_append_right_inj] at hbegins
        exact hbegins
      have htrim : trimEnd (dropIndent p) = trimEnd (dropIndent l) := by
        rw [← hws', trimEnd_append _ fun c hc ↦ htrimmed c (hbehind.mem hc), trimEnd_trimEnd]
      exact hmarker (.inr (htrim ▸ hmem))
  · have hbegins' := hcall.trans (trimEnd_prefix_self (dropIndent l))
    rcases prefix_or_prefix_of_prefix hbegins hbegins' with hshort | hlong
    · exact .inl (hmarker (.inl (any_eq_true.mpr
        ⟨toolCallLine, by decide, isPrefixOf_iff_prefix.mpr hshort⟩)))
    · exact .inr hlong

/-- A character: one unit, or a pair of surrogates. -/
def Character (char : JsString) : Prop :=
  (∃ c, char = [c]) ∨
    ∃ high low : CodeUnit, char = [high, low] ∧ 0xd800 ≤ high ∧ 0xdc00 ≤ low

theorem toolCallLine_ascii : ∀ c ∈ toolCallLine, c < 0xd800 := by decide

theorem dropIndent_of_call {char : JsString} (hchar : Character char)
    (h : toolCallLine <+: dropIndent (p ++ char)) :
    toolCallLine <+: dropIndent p ∨ dropIndent (p ++ char) = toolCallLine := by
  rw [dropIndent_append] at h ⊢
  split_ifs at h ⊢ with hp
  · -- a character is too short
    have hle := h.length_le.trans (dropWhile_suffix isIndent (l := char)).length_le
    have hlength : toolCallLine.length = 11 := rfl
    rcases hchar with ⟨c, rfl⟩ | ⟨high, low, rfl, -⟩ <;>
      simp only [length_cons, length_nil] at hle <;> omega
  · have hnot {c : CodeUnit} {l : JsString} (hc : 0xd800 ≤ c) :
        toolCallLine ≠ l ++ [c] := fun he ↦ by
      have hlt := toolCallLine_ascii c (he ▸ mem_append_right _ mem_cons_self)
      exact UInt16.not_lt.mpr hc hlt
    rcases hchar with ⟨c, rfl⟩ | ⟨high, low, rfl, hhigh, hlow⟩
    · rcases prefix_concat_iff.mp h with heq | hshort
      · exact .inr heq.symm
      · exact .inl hshort
    · rw [show dropIndent p ++ [high, low] = dropIndent p ++ [high] ++ [low] by simp] at h
      have h := (prefix_concat_iff.mp h).resolve_left (hnot (UInt16.le_trans (by decide) hlow))
      exact .inl ((prefix_concat_iff.mp h).resolve_left (hnot hhigh))

end ToolEnvelopeEchoFilter

end Text
