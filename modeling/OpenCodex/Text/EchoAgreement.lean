import OpenCodex.Text.EchoCharacters

/-!
# The filter and the rule for complete text

For complete text a marker is an echo unless it is shielded, and the text before the first echo is
kept (`echoRule`).  The filter, which does not know what is coming, gives out the same, in whatever
pieces the text arrives (`run_eq_echoRule`): what is in an open block waits in the hold, from the
first marker on.

The rule has no limits and the filter has three.  A marker may be indented by so much, a fence line
may be so long, and the hold may grow to so much; within these limits they agree, and a marker that
is indented further is found by the rule alone (`marker_far_in`).
-/

set_option autoImplicit false

open List Option

namespace Text

/-! ## Complete text -/

/-- The lines of a text that end, without their ends, and the last one. -/
def cutLines : JsString → List JsString × JsString
  | [] => ([], [])
  | c :: text =>
    if c = newline then ([] :: (cutLines text).1, (cutLines text).2)
    else
      match cutLines text with
      | ([], last) => ([], c :: last)
      | (line :: lines, last) => ((c :: line) :: lines, last)

/-- `text.split(/\r?\n/)` -/
def linesOf (text : JsString) : List JsString :=
  (cutLines text).1.map dropReturn ++ [(cutLines text).2]

/-- Where a line starts. -/
def lineStart (text : JsString) (i : ℕ) : ℕ :=
  (((cutLines text).1.take i).map fun line ↦ line.length + 1).sum

/-- The first line that is a marker and is not shielded. -/
def firstEcho (lines : List JsString) : Option ℕ :=
  (lines.zip (closedFenceLines lines)).findIdx? fun l ↦ isWholeLineEchoMarker l.1 && !l.2

/-- What is kept of a text, and whether there is an echo in it. -/
def echoRule (text : JsString) : JsString × Bool :=
  match firstEcho (linesOf text) with
  | some i => (text.take (lineStart text i), true)
  | none => (text, false)

/-! ### Lines -/

/-- The lines of a text, put together. -/
def joinLines (lines : List JsString) (last : JsString) : JsString :=
  (lines.map (· ++ [newline])).flatten ++ last

@[simp] theorem joinLines_nil (last : JsString) : joinLines [] last = last := rfl

theorem joinLines_cons (line : JsString) (lines : List JsString) (last : JsString) :
    joinLines (line :: lines) last = line ++ newline :: joinLines lines last := by
  simp [joinLines]

variable (text : JsString)

theorem joinLines_cutLines : joinLines (cutLines text).1 (cutLines text).2 = text := by
  induction text with
  | nil => rfl
  | cons c text ih =>
    rw [cutLines]
    by_cases hc : c = newline
    · rw [if_pos hc, joinLines_cons, ih, hc]
      rfl
    · rw [if_neg hc]
      rcases h : cutLines text with ⟨_ | ⟨line, lines⟩, last⟩
      · rw [h] at ih
        exact congrArg (c :: ·) ih
      · rw [h, joinLines_cons] at ih
        dsimp only
        rw [joinLines_cons, cons_append, ih]

theorem newline_not_mem_cutLines :
    (∀ line ∈ (cutLines text).1, newline ∉ line) ∧ newline ∉ (cutLines text).2 := by
  induction text with
  | nil => exact ⟨nofun, not_mem_nil⟩
  | cons c text ih =>
    obtain ⟨hlines, hlast⟩ := ih
    rw [cutLines]
    by_cases hc : c = newline
    · rw [if_pos hc]
      exact ⟨forall_mem_cons.mpr ⟨not_mem_nil, hlines⟩, hlast⟩
    · rw [if_neg hc]
      have hne : newline ≠ c := fun h ↦ hc h.symm
      rcases h : cutLines text with ⟨_ | ⟨line, lines⟩, last⟩
      · rw [h] at hlast
        exact ⟨nofun, not_mem_cons_of_ne_of_not_mem hne hlast⟩
      · rw [h] at hlines hlast
        obtain ⟨hline, hlines⟩ := forall_mem_cons.mp hlines
        exact ⟨forall_mem_cons.mpr ⟨not_mem_cons_of_ne_of_not_mem hne hline, hlines⟩, hlast⟩

/-! ### What is shielded -/

/-- What is shielded, if a block is open: the lines of a block are, if it is closed later. -/
def shieldedFrom : Option (CodeUnit × ℕ) → List JsString → List Bool
  | _, [] => []
  | none, line :: lines =>
    ((openedBy line).any fun b ↦ lines.any (closedBy b)) :: shieldedFrom (openedBy line) lines
  | some b, line :: lines =>
    if closedBy b line then true :: shieldedFrom none lines
    else lines.any (closedBy b) :: shieldedFrom (some b) lines

theorem shielding_line_outside (shielded : List Bool) (index : ℕ) (line : JsString) :
    Shielding.line ⟨shielded, none⟩ index line =
      ⟨shielded, (openedBy line).map fun b ↦ (b.1, b.2, index)⟩ := by
  rw [Shielding.line, openedBy]
  cases parseFenceLine line with
  | none => rfl
  | some f =>
    dsimp only
    rw [Option.filter]
    split_ifs
    · rfl
    · rfl

theorem shielding_line_inside (shielded : List Bool) (b : CodeUnit × ℕ) (start index : ℕ)
    (line : JsString) : Shielding.line ⟨shielded, some (b.1, b.2, start)⟩ index line =
      if closedBy b line then
        ⟨shielded.mapIdx fun i s ↦ if start ≤ i ∧ i ≤ index then true else s, none⟩
      else ⟨shielded, some (b.1, b.2, start)⟩ := by
  rw [Shielding.line, closedBy]
  cases parseFenceLine line with
  | none => rfl
  | some f => rfl

theorem mapIdx_shield (done rest : List Bool) (k : ℕ) :
    (done ++ (List.replicate (k + 1) false ++ rest)).mapIdx
      (fun i s ↦ if done.length ≤ i ∧ i ≤ done.length + k then true else s) =
      done ++ (List.replicate (k + 1) true ++ rest) := by
  have hkept {f : ℕ → Bool → Bool} {l : List Bool} (h : ∀ i s, i < l.length → f i s = s) :
      l.mapIdx f = l := by
    refine ext_getElem (by rw [length_mapIdx]) fun i _ hi ↦ ?_
    rw [getElem_mapIdx, h i _ hi]
  have hset {f : ℕ → Bool → Bool} (h : ∀ i s, i < k + 1 → f i s = true) :
      (replicate (k + 1) false).mapIdx f = replicate (k + 1) true := by
    refine ext_getElem (by simp) fun i _ hi ↦ ?_
    rw [length_replicate] at hi
    rw [getElem_mapIdx, h i _ hi, getElem_replicate]
  rw [mapIdx_append, mapIdx_append, length_replicate,
    hkept fun i s hi ↦ if_neg (by omega), hset fun i s hi ↦ if_pos (by omega),
    hkept fun i s hi ↦ if_neg (by omega)]

theorem shielding_lines (lines : List JsString) : (∀ done : List Bool,
      ((lines.zipIdx done.length).foldl (fun (s : Shielding) l ↦ s.line l.2 l.1)
        ⟨done ++ lines.map fun _ ↦ false, none⟩).shielded = done ++ shieldedFrom none lines) ∧
    ∀ (done : List Bool) (k : ℕ) (b : CodeUnit × ℕ),
      ((lines.zipIdx (done.length + k)).foldl (fun (s : Shielding) l ↦ s.line l.2 l.1)
        ⟨done ++ (List.replicate k false ++ lines.map fun _ ↦ false),
          some (b.1, b.2, done.length)⟩).shielded =
        done ++ (List.replicate k (lines.any (closedBy b)) ++ shieldedFrom (some b) lines) := by
  induction lines with
  | nil => exact ⟨fun _ ↦ rfl, fun _ _ _ ↦ rfl⟩
  | cons line lines ih =>
    obtain ⟨houtside, hinside⟩ := ih
    constructor
    · intro done
      rw [zipIdx_cons, foldl_cons, shielding_line_outside, shieldedFrom, map_cons]
      cases hopened : openedBy line with
      | none =>
        have h := houtside (done ++ [false])
        rw [length_append, append_assoc, append_assoc] at h
        exact h
      | some b => exact hinside done 1 b
    · intro done k b
      rw [zipIdx_cons, foldl_cons, shielding_line_inside, shieldedFrom, map_cons]
      have hreplicate (x : Bool) (rest : List Bool) :
          replicate k x ++ x :: rest = replicate (k + 1) x ++ rest := by
        rw [replicate_succ', append_assoc, singleton_append]
      rw [hreplicate]
      by_cases hcloses : closedBy b line = true
      · rw [if_pos hcloses, if_pos hcloses, mapIdx_shield, any_cons, hcloses, Bool.true_or,
          hreplicate]
        have h := houtside (done ++ replicate (k + 1) true)
        rw [length_append, length_replicate, append_assoc, append_assoc] at h
        exact h
      · have hfalse := eq_false_of_ne_true hcloses
        rw [if_neg hcloses, if_neg hcloses, any_cons, hfalse, Bool.false_or, hreplicate]
        exact hinside done (k + 1) b

theorem closedFenceLines_eq (lines : List JsString) :
    closedFenceLines lines = shieldedFrom none lines := (shielding_lines lines).1 []

/-! ### What is kept -/

/-- What is kept if a line is the first echo, or none is. -/
def keptTo (lines : List JsString) (last : JsString) : Option ℕ → JsString × Bool
  | some i => (((lines.take i).map (· ++ [newline])).flatten, true)
  | none => (joinLines lines last, false)

theorem keptTo_cons (line : JsString) (lines : List JsString) (last : JsString) (echo : Option ℕ)
    (e : Bool) : keptTo (line :: lines) last (if e then some 0 else echo.map (· + 1)) =
      if e then ([], true)
      else (line ++ newline :: (keptTo lines last echo).1, (keptTo lines last echo).2) := by
  cases e with
  | true => rfl
  | false =>
    cases echo with
    | none => exact congrArg (·, false) (joinLines_cons line lines last)
    | some i => simp [keptTo]

/-- What is kept from a line on, if a block is open. -/
def keep : Option (CodeUnit × ℕ) → List JsString → JsString → JsString × Bool
  | _, [], last => if isWholeLineEchoMarker last then ([], true) else (last, false)
  | none, line :: lines, last =>
    if isWholeLineEchoMarker line then ([], true)
    else
      let rest := keep (openedBy line) lines last
      (line ++ newline :: rest.1, rest.2)
  | some b, line :: lines, last =>
    if isWholeLineEchoMarker line && !(lines ++ [last]).any (closedBy b) then ([], true)
    else
      let rest := keep (if closedBy b line then none else some b) lines last
      (line ++ newline :: rest.1, rest.2)

/-- A line and what shields it: whether it is an echo. -/
def isEcho (l : JsString × Bool) : Bool := isWholeLineEchoMarker l.1 && !l.2

variable {line : JsString}

theorem openedBy_of_marker (h : isWholeLineEchoMarker line = true) :
    openedBy line = none ∧ ∀ b, closedBy b line = false := by
  rw [openedBy, parseFenceLine_of_marker h]
  refine ⟨rfl, fun b ↦ ?_⟩
  rw [closedBy, parseFenceLine_of_marker h]
  rfl

/-- **The first echo** says what is kept. -/
theorem keep_eq (block : Option (CodeUnit × ℕ)) (lines : List JsString) (last : JsString) :
    keep block lines last = keptTo lines last
      (((lines ++ [last]).zip (shieldedFrom block (lines ++ [last]))).findIdx? isEcho) := by
  induction lines generalizing block with
  | nil =>
    have hflag : ∃ flag, shieldedFrom block [last] = [flag] ∧
        (isWholeLineEchoMarker last = true → flag = false) := by
      cases block with
      | none => exact ⟨_, rfl, fun h ↦ by rw [(openedBy_of_marker h).1]; rfl⟩
      | some b =>
        by_cases hcloses : closedBy b last = true
        · refine ⟨true, if_pos hcloses, fun h ↦ ?_⟩
          rw [(openedBy_of_marker h).2] at hcloses
          exact absurd hcloses nofun
        · exact ⟨false, if_neg hcloses, fun _ ↦ rfl⟩
    obtain ⟨flag, hflag, hmarker⟩ := hflag
    rw [nil_append, hflag, keep]
    by_cases hecho : isWholeLineEchoMarker last = true
    · rw [if_pos hecho, hmarker hecho]
      simp [isEcho, hecho, keptTo]
    · simp [isEcho, hecho, keptTo]
  | cons line lines ih =>
    cases block with
    | none =>
      rw [keep, cons_append, shieldedFrom, zip_cons_cons, findIdx?_cons, keptTo_cons, ← ih]
      by_cases hecho : isWholeLineEchoMarker line = true
      · rw [if_pos hecho, isEcho, hecho, (openedBy_of_marker hecho).1]
        rfl
      · have hnot : isEcho (line, (openedBy line).any fun b ↦ (lines ++ [last]).any (closedBy b)) =
            false := by
          rw [isEcho, eq_false_of_ne_true hecho, Bool.false_and]
        rw [if_neg hecho, hnot, if_neg Bool.false_ne_true]
    | some b =>
      rw [keep, cons_append, shieldedFrom]
      by_cases hcloses : closedBy b line = true
      · have hecho : isWholeLineEchoMarker line = false := by
          by_contra h
          rw [(openedBy_of_marker (Bool.eq_true_of_not_eq_false h)).2] at hcloses
          exact absurd hcloses nofun
        rw [if_pos hcloses, if_pos hcloses, zip_cons_cons, findIdx?_cons, keptTo_cons,
          ← ih, isEcho, hecho, Bool.false_and, Bool.false_and]
      · rw [if_neg hcloses, if_neg hcloses, zip_cons_cons, findIdx?_cons, keptTo_cons, ← ih, isEcho]

variable {lines : List JsString}

theorem any_dropReturn (h : ∀ line ∈ lines, newline ∉ line) (last : JsString) (b : CodeUnit × ℕ) :
    (lines.map dropReturn ++ [last]).any (closedBy b) = (lines ++ [last]).any (closedBy b) := by
  rw [any_append, any_append, List.any_map]
  refine congrArg (· || _) ?_
  induction lines with
  | nil => rfl
  | cons line lines ih =>
    obtain ⟨hline, hlines⟩ := forall_mem_cons.mp h
    rw [any_cons, any_cons, ih hlines, Function.comp_apply, closedBy_dropReturn hline]

theorem shieldedFrom_dropReturn (h : ∀ line ∈ lines, newline ∉ line) (block : Option (CodeUnit × ℕ))
    (last : JsString) :
    shieldedFrom block (lines.map dropReturn ++ [last]) = shieldedFrom block (lines ++ [last]) := by
  induction lines generalizing block with
  | nil => rfl
  | cons line lines ih =>
    obtain ⟨hline, hlines⟩ := forall_mem_cons.mp h
    rw [map_cons, cons_append, cons_append]
    cases block with
    | none =>
      rw [shieldedFrom, shieldedFrom, openedBy_dropReturn hline, ih hlines]
      simp only [any_dropReturn hlines]
    | some b =>
      rw [shieldedFrom, shieldedFrom, closedBy_dropReturn hline, ih hlines, ih hlines,
        any_dropReturn hlines]

theorem findIdx?_dropReturn (lines : List JsString) (last : JsString) (flags : List Bool) :
    ((lines.map dropReturn ++ [last]).zip flags).findIdx? isEcho =
      ((lines ++ [last]).zip flags).findIdx? isEcho := by
  induction lines generalizing flags with
  | nil => rfl
  | cons line lines ih =>
    cases flags with
    | nil => rfl
    | cons flag flags =>
      rw [map_cons, cons_append, cons_append, zip_cons_cons,
        zip_cons_cons, findIdx?_cons, findIdx?_cons, ih, isEcho, isEcho,
        marker_dropReturn]

theorem take_joinLines (lines : List JsString) (last : JsString) (i : ℕ) :
    (joinLines lines last).take (((lines.take i).map fun line ↦ line.length + 1).sum) =
      ((lines.take i).map (· ++ [newline])).flatten := by
  have hlength : ((lines.take i).map fun line ↦ line.length + 1).sum =
      ((lines.take i).map (· ++ [newline])).flatten.length := by
    rw [length_flatten, List.map_map]
    refine congrArg sum (map_congr_left fun line _ ↦ ?_)
    rw [Function.comp_apply, length_append, length_singleton]
  have hsplit : joinLines lines last = ((lines.take i).map (· ++ [newline])).flatten ++
      (((lines.drop i).map (· ++ [newline])).flatten ++ last) := by
    rw [← append_assoc, ← flatten_append, ← map_append, take_append_drop, joinLines]
  rw [hlength, hsplit, take_left]

/-- **The rule for complete text**, line by line. -/
theorem echoRule_eq : echoRule text = keep none (cutLines text).1 (cutLines text).2 := by
  have hlines := (newline_not_mem_cutLines text).1
  have hjoin := joinLines_cutLines text
  have hfirst : firstEcho (linesOf text) = (((cutLines text).1 ++ [(cutLines text).2]).zip
      (shieldedFrom none ((cutLines text).1 ++ [(cutLines text).2]))).findIdx? isEcho := by
    rw [firstEcho, closedFenceLines_eq, linesOf, shieldedFrom_dropReturn hlines]
    exact findIdx?_dropReturn _ _ _
  rw [keep_eq, echoRule, hfirst]
  generalize findIdx? isEcho _ = echo
  cases echo with
  | none => exact congrArg (·, false) hjoin.symm
  | some i =>
    have htake := take_joinLines (cutLines text).1 (cutLines text).2 i
    rw [hjoin] at htake
    exact congrArg (·, true) htake

namespace ToolEnvelopeEchoFilter

/-! ## The characters of the deltas -/

theorem codePoints_character : ∀ char ∈ codePoints text, Character char := by
  fun_induction codePoints text with
  | case1 => exact nofun
  | case2 c => exact forall_mem_singleton.mpr (.inl ⟨c, rfl⟩)
  | case3 c d text hpair ih =>
    exact forall_mem_cons.mpr ⟨.inr ⟨c, d, rfl, hpair.1, hpair.2.2.1⟩, ih⟩
  | case4 c d text hpair ih => exact forall_mem_cons.mpr ⟨.inl ⟨c, rfl⟩, ih⟩

theorem flatten_codePoints : (codePoints text).flatten = text := by
  fun_induction codePoints text with
  | case1 => rfl
  | case2 c => rfl
  | case3 c d text hpair ih =>
    rw [flatten_cons, ih]
    rfl
  | case4 c d text hpair ih =>
    rw [flatten_cons, ih]
    rfl

variable {chars : List JsString}

theorem split_characters {rest : JsString} (hchars : ∀ char ∈ chars, Character char)
    (h : chars.flatten = line ++ newline :: rest) (hline : newline ∉ line) :
    ∃ before after, chars = before ++ [newline] :: after ∧ before.flatten = line ∧
      after.flatten = rest ∧ Characters before := by
  induction chars generalizing line with
  | nil => exact absurd h.symm (append_ne_nil_of_right_ne_nil _ nofun)
  | cons char chars ih =>
    obtain ⟨hchar, hothers⟩ := forall_mem_cons.mp hchars
    cases line with
    | nil =>
      rcases hchar with ⟨c, rfl⟩ | ⟨high, low, rfl, hhigh, -⟩
      · obtain ⟨rfl, hrest⟩ := cons_eq_cons.mp h
        exact ⟨[], chars, rfl, rfl, hrest, nofun⟩
      · obtain ⟨rfl, -⟩ := cons_eq_cons.mp h
        nomatch hhigh
    | cons a line =>
      have ha : a ≠ newline := fun h ↦ hline (h ▸ mem_cons_self)
      have hline' : newline ∉ line := fun h ↦ hline (mem_cons_of_mem _ h)
      rcases hchar with ⟨c, rfl⟩ | ⟨high, low, rfl, hhigh, hlow⟩
      · obtain ⟨rfl, hrest⟩ := cons_eq_cons.mp h
        obtain ⟨before, after, rfl, rfl, hafter, hbefore⟩ := ih hothers hrest hline'
        refine ⟨[c] :: before, after, rfl, rfl, hafter, forall_mem_cons.mpr ⟨⟨.inl ⟨c, rfl⟩,
          fun h ↦ ha (singleton_inj.mp h)⟩, hbefore⟩⟩
      · obtain ⟨rfl, hrest⟩ := cons_eq_cons.mp h
        cases line with
        | nil =>
          obtain ⟨rfl, -⟩ := cons_eq_cons.mp hrest
          nomatch hlow
        | cons b line =>
          obtain ⟨rfl, htail⟩ := cons_eq_cons.mp hrest
          obtain ⟨before, after, rfl, rfl, hafter, hbefore⟩ := ih hothers htail
            fun h ↦ hline' (mem_cons_of_mem _ h)
          exact ⟨[high, low] :: before, after, rfl, rfl, hafter, forall_mem_cons.mpr
            ⟨⟨.inr ⟨high, low, rfl, hhigh, hlow⟩, nofun⟩, hbefore⟩⟩

/-- What goes out for some characters and at the end, and whether an echo was found. -/
def outcome (s : ToolEnvelopeEchoFilter) (chars : List JsString) : JsString × Bool :=
  ((s.feedChars chars).2 ++ (s.feedChars chars).1.finish.2,
    (s.feedChars chars).1.finish.1.matched)

theorem outcome_append (s : ToolEnvelopeEchoFilter) (l m : List JsString) : s.outcome (l ++ m) =
      ((s.feedChars l).2 ++ ((s.feedChars l).1.outcome m).1, ((s.feedChars l).1.outcome m).2) := by
  rw [outcome, outcome, feedChars_append, append_assoc]

theorem run_eq_outcome (s : ToolEnvelopeEchoFilter) (deltas : List JsString) :
    s.run deltas = s.outcome (deltas.flatMap codePoints) := by
  induction deltas generalizing s with
  | nil => rfl
  | cons delta deltas ih =>
    rw [run, flatMap_cons, outcome_append, feed]
    simp only [ih]

theorem feedChars_echoed (chars : List JsString) : echoed.feedChars chars = (echoed, []) := by
  induction chars with
  | nil => rfl
  | cons char chars ih =>
    have hchar : echoed.feedChar char = (echoed, []) := if_pos rfl
    rw [feedChars, hchar]
    simp only [ih, append_nil]

theorem outcome_echoed (chars : List JsString) : echoed.outcome chars = ([], true) := by
  rw [outcome, feedChars_echoed]
  rfl

/-! ## Agreement -/

/-- The hold has room for the blocks of a text: from the first marker of a block on it holds all
lines, as far as they are given out, to the end of the block. -/
def HoldsFit : Option (CodeUnit × ℕ) → Option JsString → List JsString → JsString → Prop
  | none, _, [], _ => True
  | none, _, line :: lines, last => HoldsFit (openedBy line) none lines last
  | some _, held, [], last =>
    Decided last ∨ (parseFenceLine last).isSome = true → Fits (holdOn held last) last.length
  | some b, held, line :: lines, last =>
    Fits (holdOn held line) (line.length + 1) ∧
      if closedBy b line then HoldsFit none none lines last
      else HoldsFit (some b) ((holdOn held line).map (· ++ (line ++ [newline]))) lines last

/-- What is to go out from a line on: what is in the hold goes out if the block is closed. -/
def expected (block : Option (CodeUnit × ℕ)) (held : Option JsString) (lines : List JsString)
    (last : JsString) : JsString × Bool :=
  match held with
  | none => keep block lines last
  | some t =>
    if block.any fun b ↦ (lines ++ [last]).any (closedBy b) then
      (t ++ (keep block lines last).1, (keep block lines last).2)
    else ([], true)

theorem marker_of_closes {b : CodeUnit × ℕ} (h : closedBy b line = true) :
    isWholeLineEchoMarker line = false := by
  by_contra hmarker
  rw [(openedBy_of_marker (Bool.eq_true_of_not_eq_false hmarker)).2] at h
  exact absurd h nofun

theorem holdOn_some (t line : JsString) : holdOn (some t) line = some t :=
  if_neg fun h ↦ absurd h.1 Bool.false_ne_true

variable {block : Option (CodeUnit × ℕ)} {held : Option JsString}

theorem ending_eq_expected (hblock : block = none → held = none) (last : JsString) :
    ending block held last = expected block held [] last := by
  cases block with
  | none =>
    rw [hblock rfl]
    rfl
  | some b =>
    have hany : (some b).any (fun b ↦ ([] ++ [last]).any (closedBy b)) = closedBy b last := by
      rw [any_some, nil_append, any_cons, any_nil, Bool.or_false]
    by_cases hcloses : closedBy b last = true
    · have hmarker := marker_of_closes hcloses
      rw [ending, if_pos hcloses]
      cases held with
      | none =>
        rw [expected, keep, hmarker]
        rfl
      | some t =>
        rw [expected, hany, if_pos hcloses, keep, hmarker]
        rfl
    · rw [ending, if_neg hcloses]
      cases held with
      | none =>
        rw [expected, keep]
        by_cases hmarker : isWholeLineEchoMarker last = true
        · rw [holdOn_of_marker hmarker, if_pos hmarker]
          rfl
        · rw [holdOn_of_not_marker (eq_false_of_ne_true hmarker), if_neg hmarker]
          rfl
      | some t =>
        rw [holdOn_some, expected, hany, if_neg hcloses]
        rfl

theorem expected_inside (b : CodeUnit × ℕ) (held : Option JsString) (line : JsString)
    (lines : List JsString) (last : JsString) : expected (some b) held (line :: lines) last =
      if closedBy b line then
        (held.getD [] ++ (line ++ [newline]) ++ (keep none lines last).1, (keep none lines last).2)
      else
        let rest := expected (some b) ((holdOn held line).map (· ++ (line ++ [newline]))) lines last
        (shown (holdOn held line) (line ++ [newline]) ++ rest.1, rest.2) := by
  have hany : (some b).any (fun b ↦ (line :: lines ++ [last]).any (closedBy b)) =
      (closedBy b line || (lines ++ [last]).any (closedBy b)) := rfl
  have hlater : (some b).any (fun b ↦ (lines ++ [last]).any (closedBy b)) =
      (lines ++ [last]).any (closedBy b) := rfl
  by_cases hcloses : closedBy b line = true
  · have hkeep : keep (some b) (line :: lines) last =
        (line ++ newline :: (keep none lines last).1, (keep none lines last).2) := by
      rw [keep, marker_of_closes hcloses, if_pos hcloses]
      rfl
    rw [if_pos hcloses]
    cases held with
    | none =>
      rw [expected, hkeep]
      simp
    | some t =>
      rw [expected, hkeep, hany, hcloses]
      simp
  · rw [if_neg hcloses]
    rw [eq_false_of_ne_true hcloses, Bool.false_or] at hany
    cases held with
    | some t =>
      -- the hold goes on
      rw [holdOn_some, map_some, expected, expected, hany, hlater, keep, if_neg hcloses]
      cases (lines ++ [last]).any (closedBy b) <;> simp [shown]
    | none =>
      by_cases hmarker : isWholeLineEchoMarker line = true
      · -- it begins here
        rw [holdOn_of_marker hmarker, map_some, expected, expected, hlater, keep,
          if_neg hcloses, hmarker]
        cases (lines ++ [last]).any (closedBy b) <;> simp [shown]
      · have hfalse := eq_false_of_ne_true hmarker
        rw [holdOn_of_not_marker hfalse, map_none, expected, expected, keep, if_neg hcloses, hfalse]
        simp [shown]

/-- **A filter within a text**: what it gives out of the rest, and whether it finds an echo, is what
the rule says. -/
theorem outcome_eq_expected {last : JsString} (hlines : ∀ line ∈ lines, newline ∉ line)
    (hlast : newline ∉ last) (hbounded : ∀ line ∈ lines ++ [last], Bounded line)
    (hblock : block = none → held = none) (hfit : HoldsFit block held lines last)
    (hchars : ∀ char ∈ chars, Character char) (hjoin : chars.flatten = joinLines lines last) :
    (inLine block held [] false).outcome chars = expected block held lines last := by
  induction lines generalizing block held chars with
  | nil =>
    rw [joinLines_nil] at hjoin
    have hline : Characters chars := fun char hchar ↦ by
      refine ⟨hchars char hchar, fun h ↦ hlast ?_⟩
      rw [← hjoin]
      exact mem_flatten.mpr ⟨char, hchar, h ▸ mem_cons_self⟩
    rw [← ending_eq_expected hblock]
    refine finish_line hline hjoin (hbounded last mem_cons_self) ⟨hblock, ?_⟩ ?_
    · intro hne hdecided
      obtain ⟨b, rfl⟩ := ne_none_iff_exists'.mp hne
      exact hfit (.inl hdecided)
    · intro hfence hne
      obtain ⟨b, rfl⟩ := ne_none_iff_exists'.mp hne
      obtain ⟨f, hf⟩ := isSome_iff_exists.mp hfence
      have hfits := hfit (.inr hfence)
      rwa [holdOn_of_not_marker (marker_of_fence hf)] at hfits
  | cons line lines ih =>
    obtain ⟨hline, hlines⟩ := forall_mem_cons.mp hlines
    obtain ⟨hbound, hbounded⟩ := forall_mem_cons.mp hbounded
    rw [joinLines_cons] at hjoin
    obtain ⟨before, after, rfl, hbefore, hafter, hcharacters⟩ := split_characters hchars hjoin hline
    have hafterChars : ∀ char ∈ after, Character char := fun char hchar ↦
      hchars char (mem_append_right _ (mem_cons_of_mem _ hchar))
    rw [show before ++ [newline] :: after = (before ++ [[newline]]) ++ after by simp,
      outcome_append]
    cases block with
    | none =>
      obtain rfl := hblock rfl
      rw [feedChars_line hcharacters hbefore hline hbound ⟨fun _ ↦ rfl, fun h ↦ absurd rfl h⟩,
        completeLine_outside hline hbound, expected, keep]
      by_cases hmarker : isWholeLineEchoMarker line = true
      · rw [if_pos hmarker, if_pos hmarker, outcome_echoed]
        rfl
      · rw [if_neg hmarker, if_neg hmarker,
          ih hlines hbounded (fun _ ↦ rfl) hfit hafterChars hafter, expected, append_assoc]
        rfl
    | some b =>
      obtain ⟨hroom, hfit⟩ := hfit
      rw [feedChars_line hcharacters hbefore hline hbound ⟨hblock, fun _ _ ↦ hroom⟩,
        completeLine_inside hline hbound hroom, expected_inside]
      by_cases hcloses : closedBy b line = true
      · rw [if_pos hcloses] at hfit ⊢
        rw [if_pos hcloses, ih hlines hbounded (fun _ ↦ rfl) hfit hafterChars hafter]
        rfl
      · rw [if_neg hcloses] at hfit ⊢
        have hblock (h : some b = none) : (holdOn held line).map (· ++ (line ++ [newline])) = none :=
          absurd h nofun
        rw [if_neg hcloses, ih hlines hbounded hblock hfit hafterChars hafter]

/-- **The filter agrees with the rule for complete text**, for every text within the limits and all
ways to cut it into deltas. -/
theorem run_eq_echoRule (deltas : List JsString)
    (hbounded : ∀ line ∈ (cutLines deltas.flatten).1 ++ [(cutLines deltas.flatten).2], Bounded line)
    (hfit : HoldsFit none none (cutLines deltas.flatten).1 (cutLines deltas.flatten).2) :
    new.run deltas = echoRule deltas.flatten := by
  obtain ⟨hlines, hlast⟩ := newline_not_mem_cutLines deltas.flatten
  have hchars : ∀ char ∈ deltas.flatMap codePoints, Character char := fun char hchar ↦ by
    obtain ⟨delta, -, hdelta⟩ := mem_flatMap.mp hchar
    exact codePoints_character delta char hdelta
  have hflatten : (deltas.flatMap codePoints).flatten = deltas.flatten := by
    clear hbounded hfit hlines hlast hchars
    induction deltas with
    | nil => rfl
    | cons delta deltas ih =>
      rw [flatMap_cons, flatten_append, flatten_codePoints, ih, flatten_cons]
  rw [run_eq_outcome, echoRule_eq]
  exact outcome_eq_expected hlines hlast hbounded (fun _ ↦ rfl) hfit hchars
    (hflatten.trans (joinLines_cutLines _).symm)

/-- A block with a marker in it that is closed, and an echo behind it. -/
theorem block_and_echo : new.run [js "```\n[Tool Re", js "sult]\n```\n[Tool Result]\nx"] =
      echoRule [js "```\n[Tool Re", js "sult]\n```\n[Tool Result]\nx"].flatten := by
  have hcut : cutLines [js "```\n[Tool Re", js "sult]\n```\n[Tool Result]\nx"].flatten =
      ([js "```", js "[Tool Result]", js "```", js "[Tool Result]"], js "x") := by decide +kernel
  have hopens : openedBy (js "```") = some (0x60, 3) := by decide +kernel
  have hmarker : openedBy (js "[Tool Result]") = none := by decide +kernel
  have hstays : ¬closedBy (0x60, 3) (js "[Tool Result]") = true := by decide +kernel
  have hcloses : closedBy (0x60, 3) (js "```") = true := by decide +kernel
  refine run_eq_echoRule _ ?_ ?_
  · rw [hcut]
    decide +kernel
  · rw [hcut]
    simp only [HoldsFit, hopens, hmarker, if_neg hstays, if_pos hcloses, and_true]
    decide +kernel

/-- A marker behind 129 spaces, in a text without blocks, is no echo to the filter and one to the
rule. -/
theorem marker_far_in :
    HoldsFit none none (cutLines (List.replicate 129 0x20 ++ js "[Tool Result]")).1
      (cutLines (List.replicate 129 0x20 ++ js "[Tool Result]")).2 ∧
    new.run [List.replicate 129 0x20 ++ js "[Tool Result]"] =
      (List.replicate 129 0x20 ++ js "[Tool Result]", false) ∧
    echoRule (List.replicate 129 0x20 ++ js "[Tool Result]") = ([], true) := by
  have hcut : (cutLines (replicate 129 0x20 ++ js "[Tool Result]")).1 = [] := by decide +kernel
  refine ⟨?_, by decide +kernel⟩
  rw [hcut]
  trivial

end ToolEnvelopeEchoFilter

end Text
