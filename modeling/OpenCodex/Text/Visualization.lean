import OpenCodex.Text.Search
import OpenCodex.Data.Replace

/-!
# Visualization references

A span `START visualize SEPARATOR payload END` stands for a chart, and `normalizeVisualizationText`
rewrites it to the plain directive that stands for the same.  The function looks for the prefix of a
span, then for the next end, and goes on behind it; it is meant to do what the application does with
a regular expression, in linear time.

The regular expression is a `Pattern` here (`visualization`), and global replacement is
`Pattern.replace`.  That the search finds the same matches is one fact about each way it can go on:
between two prefixes nothing matches, a prefix with an end directly behind it does not match but the
text from its second letter on may, and where no end follows a prefix nothing matches any more.
-/

set_option autoImplicit false

open List

namespace Text

/-! ## The directive of a payload -/

/-- The placeholder path in the template. -/
def templatePath : JsString := js "<absolute-path>/<title>.html"

def isBackslash (c : CodeUnit) : Bool := c == 0x5c

def isSlash (c : CodeUnit) : Bool := c == 0x2f

def isLetter (c : CodeUnit) : Bool := (0x41 ≤ c && c ≤ 0x5a) || (0x61 ≤ c && c ≤ 0x7a)

/-- `[a-z0-9]`. -/
def isBasenameUnit (c : CodeUnit) : Bool := (0x61 ≤ c && c ≤ 0x7a) || (0x30 ≤ c && c ≤ 0x39)

/-- `/^[a-z0-9]+(?:-[a-z0-9]+)*\.html$/` -/
def htmlBasename (name : JsString) : Bool :=
  (js ".html").isSuffixOf name &&
    ((name.take (name.length - 5)).splitOn 0x2d).all fun part ↦ part ≠ [] && part.all isBasenameUnit

/-- `/(?:^|[\\/])\.\.(?:[\\/]|$)/` -/
def parentSegment (path : JsString) : Bool :=
  (path.splitOnP fun c ↦ isBackslash c || isSlash c).contains (js "..")

/-- `/["\n\r]/` -/
def unsafeAttribute (text : JsString) : Bool := text.any fun c ↦ c == 0x22 || c == 0x0a || c == 0x0d

/-- `/^[A-Za-z]:[\\/]/` -/
def drivePath : JsString → Bool
  | c :: colon :: separator :: _ => isLetter c && colon == 0x3a &&
      (isBackslash separator || isSlash separator)
  | _ => false

/-- `/^\\\\[^\\]+\\[^\\]+/`, for the separator of either kind. -/
def uncPath (separator : CodeUnit) : JsString → Bool
  | a :: b :: path =>
    let server := path.takeWhile (· ≠ separator)
    a == separator && b == separator && server ≠ [] &&
      match path.drop server.length with
      | _ :: c :: _ => c ≠ separator
      | _ => false
  | _ => false

/-- An absolute path, as the application tells them. -/
def isAbsoluteAppPath (path : JsString) : Bool :=
  ((js "/").isPrefixOf path && !(js "//").isPrefixOf path) || drivePath path || uncPath 0x5c path ||
    uncPath 0x2f path

/-- `posix.basename`: the last component, slashes at the end apart. -/
def posixBasename (path : JsString) : JsString :=
  (((path.reverse.dropWhile isSlash).takeWhile fun c ↦ !isSlash c)).reverse

/-- The path with slashes for backslashes. -/
def withSlashes (path : JsString) : JsString := path.map fun c ↦ if isBackslash c then 0x2f else c

structure VisualizationReference where
  /-- The path, which may be null. -/
  path : Option JsString
  title : Option JsString
  live : Bool
  wide : Bool

/-- A member that is absent, or a string that is one of those allowed. -/
def optionalString (record : Json) (name : JsString) (allowed : JsString → Bool) :
    Option (Option JsString) :=
  match record.field? name with
  | none => some none
  | some (.str s) => if allowed s then some (some s) else none
  | some _ => none

/-- The payload's schema: `path` is required and may be null, the others are optional and typed. -/
def parseReference (value : Json) : Option VisualizationReference := do
  let _ ← value.members?
  let path ← match value.field? (js "path") with
    | some .null => some none
    | some (.str path) => some (some path)
    | _ => none
  let title ← optionalString value (js "title") fun _ ↦ true
  let type ← optionalString value (js "type") fun s ↦ s == js "inline" || s == js "live"
  let mode ← optionalString value (js "mode") fun s ↦ s == js "wide"
  match value.field? (js "wide") with
    | none | some (.bool _) => some ⟨path, title, type == some (js "live"), mode.isSome⟩
    | _ => none

/-- An attribute of a directive. -/
def attributeText (name value : JsString) : JsString := name ++ js "=\"" ++ value ++ js "\""

/-- The directive of a reference, where its path is one that the application shows. -/
def VisualizationReference.toDirective (r : VisualizationReference) (isJson : Bool) :
    Option JsString :=
  match r.path with
  | none => if r.live then some (js "::codex-live-vis\x7b\x7d") else none
  | some path =>
    let template := isJson && path == templatePath
    let basename := posixBasename (withSlashes path)
    if !template && (parentSegment path || unsafeAttribute path || !htmlBasename basename) then none
    else if !template && !isAbsoluteAppPath path && (isJson || path ≠ basename) then none
    else
      let name := if template || isAbsoluteAppPath path then js "path" else js "file"
      let title := match r.title with
        | some title =>
          if unsafeAttribute title then [] else js " " ++ attributeText (js "title") title
        | none => []
      let mode := if !r.live && r.wide then js " " ++ attributeText (js "mode") (js "wide") else []
      let directive := if r.live then js "codex-live-vis" else js "codex-inline-vis"
      some (js "::" ++ directive ++ js "\x7b" ++ attributeText name path ++ title ++ mode ++
        js "\x7d")

/-- The directive for a payload, where the application would not keep the span. -/
def toAsciiDirective (payload : JsString) : Option JsString :=
  let isJson := (js "\x7b").isPrefixOf payload
  let raw := if isJson then Json.parse payload else some (.obj [(js "path", .str payload)])
  raw.bind fun raw ↦ (parseReference raw).bind fun r ↦ r.toDirective isJson

/-! ## The scan -/

def visualizationEnd : CodeUnit := 0xe201

/-- What a span begins with. -/
def visualizationPrefix : JsString := 0xe200 :: (js "visualize" ++ [0xe202])

/-- The loop over the prefixes: what was written, and up to where the text was copied; a turn for
every letter is enough. -/
def scanVisualizations (text : JsString) : ℕ → Option ℕ → JsString → ℕ → JsString × ℕ
  | 0, _, out, copiedTo => (out, copiedTo)
  | _ + 1, none, out, copiedTo => (out, copiedTo)
  | turns + 1, some prefixAt, out, copiedTo =>
    let payloadStart := prefixAt + visualizationPrefix.length
    match indexOfFrom [visualizationEnd] text payloadStart with
    | none => (out, copiedTo)
    | some endAt =>
      if endAt = payloadStart then
        scanVisualizations text turns (indexOfFrom visualizationPrefix text (prefixAt + 1)) out
          copiedTo
      else
        let next := indexOfFrom visualizationPrefix text (endAt + 1)
        match toAsciiDirective (text.slice payloadStart (endAt - payloadStart)) with
        | some directive =>
          scanVisualizations text turns next
            (out ++ text.slice copiedTo (prefixAt - copiedTo) ++ directive) (endAt + 1)
        | none => scanVisualizations text turns next out copiedTo

/-- Rewrite every visualization span to its directive. -/
def normalizeVisualizationText (text : JsString) : JsString :=
  match indexOfFrom visualizationPrefix text 0 with
  | none => text
  | some prefixAt =>
    let r := scanVisualizations text (text.length + 1) (some prefixAt) [] 0
    if r.2 = 0 then text else r.1 ++ text.drop r.2

/-! ## The regular expression -/

/-- `/START visualize SEPARATOR ([^END]+) END/` at the head of a text: the payload, and what
follows. -/
def matchVisualization (l : JsString) : Option (JsString × JsString) :=
  if visualizationPrefix.isPrefixOf l then
    let body := l.drop visualizationPrefix.length
    let payload := body.takeWhile (· ≠ visualizationEnd)
    match body.dropWhile (· ≠ visualizationEnd) with
    | [] => none
    | _ :: rest => if payload = [] then none else some (payload, rest)
  else none

variable {l : JsString}

theorem matchVisualization_eq_some {payload rest : JsString} :
    matchVisualization l = some (payload, rest) ↔ payload ≠ [] ∧ visualizationEnd ∉ payload ∧
        l = visualizationPrefix ++ (payload ++ visualizationEnd :: rest) := by
  constructor
  · intro h
    rw [matchVisualization] at h
    split_ifs at h with hp
    obtain ⟨body, rfl⟩ := isPrefixOf_iff_prefix.mp hp
    rw [drop_left] at h
    dsimp only at h
    split at h
    · nomatch h
    · rename_i c rest' hd
      split_ifs at h with hne
      rw [Option.some_inj, Prod.mk.injEq] at h
      obtain ⟨rfl, rfl⟩ := h
      have hc : c = visualizationEnd := by
        have hhead : ∀ h, decide ((body.dropWhile (· ≠ visualizationEnd)).head h ≠
            visualizationEnd) = false := head_dropWhile_not _
        rw [hd] at hhead
        exact not_not.mp (of_decide_eq_false (hhead (cons_ne_nil _ _)))
      rw [hc] at hd
      refine ⟨hne, fun hm ↦ ?_, by rw [← hd, takeWhile_append_dropWhile]⟩
      exact absurd (all_eq_true.mp all_takeWhile _ hm) (by simp)
  · rintro ⟨hne, hm, rfl⟩
    have hp : ∀ c ∈ payload, decide (c ≠ visualizationEnd) = true :=
      fun c hc ↦ decide_eq_true fun he ↦ hm (he ▸ hc)
    rw [matchVisualization, if_pos (List.isPrefixOf_iff_prefix.mpr (prefix_append _ _)), drop_left]
    dsimp only
    rw [takeWhile_append_of_pos hp, dropWhile_append_of_pos hp,
      takeWhile_cons_of_neg (by simp), dropWhile_cons_of_neg (by simp), append_nil]
    exact if_neg hne

def visualization : Pattern CodeUnit JsString where
  test := matchVisualization
  shorter h := by
    obtain ⟨-, -, rfl⟩ := matchVisualization_eq_some.mp h
    simp only [length_append, length_cons]
    omega

theorem miss_of_no_prefix (h : ¬ visualizationPrefix <+: l) : visualization.test l = none :=
  if_neg fun hp ↦ h (List.isPrefixOf_iff_prefix.mp hp)

theorem miss_of_empty (h : visualizationPrefix ++ [visualizationEnd] <+: l) :
    visualization.test l = none := by
  cases hm : visualization.test l with
  | none => rfl
  | some m =>
    obtain ⟨hne, hend, rfl⟩ := matchVisualization_eq_some.mp hm
    obtain ⟨c, payload, hc⟩ := exists_cons_of_ne_nil hne
    rw [hc, cons_append, prefix_append_right_inj, cons_prefix_cons] at h
    exact absurd (by rw [hc, ← h.1]; exact mem_cons_self) hend

variable {text : JsString} {start : ℕ}

/-- Where no end follows from a place on, nothing matches that begins close before it or later. -/
theorem miss_of_no_end_behind {i : ℕ}
    (h : ∀ j, start + visualizationPrefix.length ≤ j → ¬ [visualizationEnd] <+: text.drop j)
    (hi : start ≤ i) : visualization.test (text.drop i) = none := by
  cases hm : visualization.test (text.drop i) with
  | none => rfl
  | some m =>
    obtain ⟨-, -, hl⟩ := matchVisualization_eq_some.mp hm
    refine absurd ?_ (h (i + (visualizationPrefix.length + m.1.length)) (by omega))
    rw [← drop_drop, hl, ← append_assoc, drop_left' (by rw [length_append])]
    exact ⟨m.2, rfl⟩

/-! ## The scan finds the matches -/

variable {endAt : ℕ}

theorem hit_of_end (hp : visualizationPrefix <+: text.drop start)
    (he : indexOfFrom [visualizationEnd] text (start + visualizationPrefix.length) = some endAt)
    (hne : endAt ≠ start + visualizationPrefix.length) : visualization.test (text.drop start) =
      some (text.slice (start + visualizationPrefix.length)
        (endAt - (start + visualizationPrefix.length)), text.drop (endAt + 1)) := by
  obtain ⟨hle, -, hfirst⟩ := indexOfFrom_some he
  obtain ⟨body, hbody⟩ := hp
  have hrest : text.drop (start + visualizationPrefix.length) = body := by
    rw [← drop_drop, ← hbody, drop_left]
  have hlen : endAt < text.length := indexOfFrom_lt (cons_ne_nil _ _) he
  refine matchVisualization_eq_some.mpr ⟨fun h0 ↦ ?_, not_mem_slice hfirst, ?_⟩
  · have := congrArg length h0
    rw [slice, length_take, length_drop, length_nil] at this
    omega
  · rw [← drop_of_indexOfFrom he, slice_append_drop text hle, hrest, hbody]

theorem empty_of_end (hp : visualizationPrefix <+: text.drop start)
    (he : indexOfFrom [visualizationEnd] text (start + visualizationPrefix.length) = some endAt)
    (h0 : endAt = start + visualizationPrefix.length) :
    visualizationPrefix ++ [visualizationEnd] <+: text.drop start := by
  obtain ⟨body, hbody⟩ := hp
  obtain ⟨rest, hat⟩ := (indexOfFrom_some he).2.1
  refine ⟨rest, ?_⟩
  rw [h0, ← drop_drop, ← hbody, drop_left] at hat
  rw [append_assoc, hat, hbody]

/-- **The scan replaces every match from a place on**, where it is to look for a prefix from there
next. -/
theorem scan_eq (text : JsString) (turns pos copiedTo : ℕ) (out : JsString)
    (hturns : text.length < turns + pos) (hpos : copiedTo ≤ pos) (hout : copiedTo = 0 → out = []) :
    ∃ r, scanVisualizations text turns (indexOfFrom visualizationPrefix text pos) out copiedTo = r ∧
      (r.2 = 0 → r.1 = []) ∧ r.1 ++ text.drop r.2 = out ++ text.slice copiedTo (pos - copiedTo) ++
        visualization.replace toAsciiDirective (text.drop pos) := by
  induction turns generalizing pos copiedTo out with
  | zero =>
    refine ⟨(out, copiedTo), rfl, hout, ?_⟩
    rw [append_assoc, ← slice_append_drop text hpos,
      drop_eq_nil_of_le (i := pos) (by omega), Pattern.replace_nil]
  | succ turns ih =>
    cases hp : indexOfFrom visualizationPrefix text pos with
    | none =>
      refine ⟨(out, copiedTo), rfl, hout, ?_⟩
      rw [Pattern.replace_rest fun i hi ↦ miss_of_no_prefix (indexOfFrom_none hp i hi),
        append_assoc, slice_append_drop text hpos]
    | some prefixAt =>
      obtain ⟨hle, hprefix, hfirst⟩ := indexOfFrom_some hp
      have hbefore : ∀ i, pos ≤ i → i < prefixAt → visualization.test (text.drop i) = none :=
        fun i hi hlt ↦ miss_of_no_prefix (hfirst i hi hlt)
      rw [scanVisualizations]
      dsimp only
      cases he : indexOfFrom [visualizationEnd] text (prefixAt + visualizationPrefix.length) with
      | none =>
        -- without an end behind the prefix, nothing matches there or later
        refine ⟨(out, copiedTo), rfl, hout, ?_⟩
        rw [Pattern.replace_rest fun i hi ↦ ?_, append_assoc, slice_append_drop text hpos]
        rcases Nat.lt_or_ge i prefixAt with hlt | hge
        · exact hbefore i hi hlt
        · exact miss_of_no_end_behind (indexOfFrom_none he) hge
      | some endAt =>
        dsimp only
        split_ifs with hempty
        · -- nothing matches at the prefix, and the text from its second letter on is searched
          obtain ⟨r, hr, hzero, h⟩ := ih (prefixAt + 1) copiedTo out (by omega) (by omega) hout
          refine ⟨r, hr, hzero, ?_⟩
          rw [h, Pattern.replace_pass (p := pos) (q := prefixAt + 1) (by omega) fun i hi hlt ↦ ?_,
            ← slice_append_slice text hpos (r := prefixAt + 1) (by omega)]
          · simp only [append_assoc]
          · rcases Nat.lt_or_ge i prefixAt with hlt' | hge
            · exact hbefore i hi hlt'
            · rw [Nat.le_antisymm (Nat.lt_succ_iff.mp hlt) hge]
              exact miss_of_empty (empty_of_end hprefix he hempty)
        · have hhit := hit_of_end hprefix he hempty
          have hend := (indexOfFrom_some he).1
          rw [Pattern.replace_pass hle hbefore, Pattern.replace_hit hhit]
          cases hd : toAsciiDirective (text.slice (prefixAt + visualizationPrefix.length)
              (endAt - (prefixAt + visualizationPrefix.length))) with
          | some directive =>
            obtain ⟨r, hr, hzero, h⟩ := ih (endAt + 1) (endAt + 1)
              (out ++ text.slice copiedTo (prefixAt - copiedTo) ++ directive) (by omega)
              le_rfl fun h0 ↦ absurd h0 (Nat.succ_ne_zero _)
            refine ⟨r, hr, hzero, ?_⟩
            rw [h, Nat.sub_self, slice_zero, append_nil, Option.getD_some,
              ← slice_append_slice text hpos hle]
            simp only [append_assoc]
          | none =>
            obtain ⟨r, hr, hzero, h⟩ := ih (endAt + 1) copiedTo out (by omega) (by omega) hout
            refine ⟨r, hr, hzero, ?_⟩
            have hwhole : (text.drop prefixAt).take
                ((text.drop prefixAt).length - (text.drop (endAt + 1)).length) =
                  text.slice prefixAt (endAt + 1 - prefixAt) := by
              have := indexOfFrom_lt (cons_ne_nil _ _) he
              rw [slice, length_drop, length_drop,
                show text.length - prefixAt - (text.length - (endAt + 1)) = endAt + 1 - prefixAt by
                  omega]
            rw [h, Option.getD_none, hwhole, ← slice_append_slice text hpos
              (r := endAt + 1) (by omega), ← slice_append_slice text hle
              (r := endAt + 1) (by omega)]
            simp only [append_assoc]

/-- **The scan is the global replacement of the regular expression.** -/
theorem normalizeVisualizationText_eq (text : JsString) :
    normalizeVisualizationText text = visualization.replace toAsciiDirective text := by
  obtain ⟨r, hr, hzero, h⟩ := scan_eq text (text.length + 1) 0 0 []
    (Nat.lt_succ_self _) le_rfl fun _ ↦ rfl
  rw [drop_zero, Nat.sub_zero, slice_zero, append_nil, nil_append] at h
  rw [normalizeVisualizationText]
  cases hp : indexOfFrom visualizationPrefix text 0 with
  | none =>
    rw [hp, scanVisualizations] at hr
    rw [← h, ← hr, nil_append, drop_zero]
  | some prefixAt =>
    rw [hp] at hr
    dsimp only
    rw [hr, ← h]
    split_ifs with hr2
    · rw [hzero hr2, hr2, nil_append, drop_zero]
    · rfl

end Text
