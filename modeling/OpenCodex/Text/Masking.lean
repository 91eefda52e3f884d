import OpenCodex.Text.FoldingMap
import OpenCodex.Text.Search

/-!
# Masking credentials

A credential is looked for in the folded view of a text and masked in the text.  There are three
maskers: for headers the value is masked to the end of its line, for the other framings what was
found is masked but for its head, and a tag with a credential as an attribute is masked to the end
of the text.

The patterns themselves are parameters.  Of a pattern (`Regex`) only that is known what holds of
every regular expression that matches no empty string: what it finds is within the text that it is
looked for in, and not before the place that the search starts from.
-/

set_option autoImplicit false

open List Nat

namespace Text

open Bridge (trim isTrimmed indexOf)

/-! ## Patterns -/

/-- What `pattern.exec` finds: `match.index`, `match[0].length` and `(match[1] ?? "").length`. -/
structure Match where
  index : ℕ
  size : ℕ
  captured : ℕ

/-- A match within a text, at a place or behind it. -/
structure Match.Within (m : Match) (folded : JsString) (lastIndex : ℕ) : Prop where
  after : lastIndex ≤ m.index
  nonempty : 0 < m.size
  inside : m.index + m.size ≤ folded.length
  captured : m.captured ≤ m.size

variable {m : Match} {lastIndex : ℕ}

theorem Match.Within.shorter {folded : JsString} (h : m.Within folded lastIndex) :
    folded.length - (m.index + m.size) < folded.length - lastIndex := by
  have hafter := h.after
  have hnonempty := h.nonempty
  have hinside := h.inside
  omega

/-- A regular expression with the flag `g`, whose `lastIndex` is given. -/
structure Regex where
  exec : JsString → ℕ → Option Match
  within : ∀ folded lastIndex m, exec folded lastIndex = some m → m.Within folded lastIndex

/-- `XML_TAG_NAME`, a regular expression with the flag `y`: the length of what is found at a
place. -/
structure Sticky where
  exec : JsString → ℕ → Option ℕ
  within : ∀ folded lastIndex size, exec folded lastIndex = some size →
    lastIndex + size ≤ folded.length

def redactedSecret : JsString := js "[REDACTED]"

/-! ## The other framings -/

/-- The second entry of a framing. -/
inductive FramingKind where
  /-- `"="` -/
  | equals
  | element
  | multipart
  deriving DecidableEq

/-- How much of a match is kept. -/
def FramingKind.headLength (kind : FramingKind) (folded : JsString) (m : Match) : ℕ :=
  match kind with
  | .equals =>
    match indexOf (js "=") (folded.slice m.index m.size) with
    | some eq => eq + 1
    | none => 0
  | .element | .multipart => m.captured

/-- The loop over the matches of one framing.  As no match is empty, the place that the next search
starts from is never the one that was found. -/
def framingLoop (pattern : Regex) (kind : FramingKind) (current folded : JsString) (map : List ℕ)
    (lastIndex cursor : ℕ) (out : JsString) : JsString :=
  match _hm : pattern.exec folded lastIndex with
  | none => out ++ current.drop cursor
  | some m =>
    let start := map.getD m.index current.length
    let stop := map.getD (m.index + m.size) current.length
    if start < cursor then
      framingLoop pattern kind current folded map (m.index + m.size) cursor out
    else
      let headEnd := map.getD (m.index + kind.headLength folded m) stop
      let head := current.slice start (headEnd - start)
      let body := current.slice (start + head.length) (stop - (start + head.length))
      if kind = .multipart ∧ trim body = [] then
        framingLoop pattern kind current folded map (m.index + m.size) cursor out
      else
        framingLoop pattern kind current folded map (m.index + m.size) stop
          (out ++ current.slice cursor (start - cursor) ++ head ++ redactedSecret)
  termination_by folded.length - lastIndex
  decreasing_by all_goals exact (pattern.within _ _ _ _hm).shorter

/-- A turn of `maskOtherFramingsOnce`, which is made for every framing in order. -/
def maskFraming (T : FoldTables) (pattern : Regex) (kind : FramingKind) (current : JsString)
    (decodeEscapes : Bool) : JsString :=
  let view := foldForMatching T current decodeEscapes
  framingLoop pattern kind current view.1 view.2 0 0 []

/-! ## Headers -/

def isLineBreak (c : CodeUnit) : Bool := c == 0x0a || c == 0x0d

/-- The loop over the labels; `bearer` says of a label and a value whether the prefix is written. -/
def headerLoop (pattern : Regex) (bearer : JsString → JsString → Bool) (value folded : JsString)
    (map : List ℕ) (lastIndex cursor : ℕ) (out : JsString) : JsString :=
  match _hm : pattern.exec folded lastIndex with
  | none => out ++ value.drop cursor
  | some m =>
    let start := map.getD m.index value.length
    let afterLabel := map.getD (m.index + m.size) value.length
    if start < cursor then
      headerLoop pattern bearer value folded map (m.index + m.size) cursor out
    else
      let lineEnd := afterLabel + ((value.drop afterLabel).takeWhile (!isLineBreak ·)).length
      let rawValue := value.slice afterLabel (lineEnd - afterLabel)
      if trim rawValue = [] then
        headerLoop pattern bearer value folded map (m.index + m.size) cursor out
      else
        let gap := rawValue.takeWhile fun c ↦ isTrimmed c && !isLineBreak c
        let label := folded.slice m.index m.size
        let scheme := if bearer label rawValue then js "Bearer " else []
        headerLoop pattern bearer value folded map (m.index + m.size) lineEnd
          (out ++ value.slice cursor (afterLabel - cursor) ++ gap ++ scheme ++ redactedSecret)
  termination_by folded.length - lastIndex
  decreasing_by all_goals exact (pattern.within _ _ _ _hm).shorter

def maskCredentialHeadersOnce (T : FoldTables) (pattern : Regex)
    (bearer : JsString → JsString → Bool) (value : JsString) (decodeEscapes : Bool) : JsString :=
  let view := foldForMatching T value decodeEscapes
  headerLoop pattern bearer value view.1 view.2 0 0 []

/-! ## Tags -/

/-- `findXmlTagClose`, from a place on: how far it is to the end of the tag. -/
def findXmlTagClose : Option CodeUnit → JsString → Option ℕ
  | _, [] => none
  | some quote, c :: l =>
    (findXmlTagClose (if c = quote then none else some quote) l).map (· + 1)
  | none, c :: l =>
    if c = 0x22 ∨ c = 0x27 then (findXmlTagClose (some c) l).map (· + 1)
    else if c = 0x3e then some 0
    else (findXmlTagClose none l).map (· + 1)

/-- The loop over the tags. -/
def tagLoop (tagName : Sticky) (credentialAttribute : JsString → Bool) (value folded : JsString)
    (map : List ℕ) (searchFrom : ℕ) : JsString :=
  if searchFrom < folded.length then
    match _hstart : indexOfFrom (js "<") folded searchFrom with
    | none => value
    | some tagStart =>
      match tagName.exec folded tagStart with
      | none => tagLoop tagName credentialAttribute value folded map (tagStart + 1)
      | some size =>
        let close := findXmlTagClose none (folded.drop (tagStart + size))
        let tagEnd := (close.map (tagStart + size + · + 1)).getD folded.length
        let attributes := folded.slice (tagStart + size) (tagEnd - (tagStart + size))
        if credentialAttribute attributes then
          let start := map.getD tagStart value.length
          let headEnd := map.getD (tagStart + size) value.length
          value.take start ++ value.slice start (headEnd - start) ++ redactedSecret
        else
          match close with
          | none => value
          | some n =>
            tagLoop tagName credentialAttribute value folded map (tagStart + size + n + 1)
  else value
  termination_by folded.length - searchFrom
  decreasing_by
    all_goals
      have hle := (indexOfFrom_some _hstart).1
      omega

def maskXmlIdentifyingAttribute (T : FoldTables) (tagName : Sticky)
    (credentialAttribute : JsString → Bool) (value : JsString) (decodeEscapes : Bool) : JsString :=
  let view := foldForMatching T value decodeEscapes
  tagLoop tagName credentialAttribute value view.1 view.2 0

/-! ## What a masker leaves -/

/-- A part of a text, and what is shown in its place. -/
structure Mask where
  first : ℕ
  stop : ℕ
  shown : JsString

/-- A text from a place on, with some parts masked: what is outside of them is as it was. -/
def masked (value : JsString) : ℕ → List Mask → JsString
  | cursor, [] => value.drop cursor
  | cursor, m :: ms => value.slice cursor (m.first - cursor) ++ m.shown ++ masked value m.stop ms

/-- The parts lie one behind the other. -/
def InOrder (value : JsString) : ℕ → List Mask → Prop
  | cursor, [] => cursor ≤ value.length
  | cursor, m :: ms => cursor ≤ m.first ∧ m.first ≤ m.stop ∧ InOrder value m.stop ms

/-- Nothing of a text is changed outside of masked parts of a certain kind. -/
def Leaves (value out : JsString) (kind : Mask → Prop) : Prop :=
  ∃ masks, InOrder value 0 masks ∧ out = masked value 0 masks ∧ ∀ m ∈ masks, kind m

namespace OffsetMap

variable {T : FoldTables} {decodeEscapes : Bool} {value folded : JsString} {map : List ℕ}

variable {i : ℕ}

theorem getElem? (h : OffsetMap T decodeEscapes value folded map) (hi : i ≤ folded.length) (d : ℕ) :
    map[i]? = some (map.getD i d) := by
  have hlength := h.length
  rw [getD_eq_getElem?_getD, getElem?_eq_getElem (by omega), Option.getD_some]

variable {d : ℕ}

theorem le_of_le (h : OffsetMap T decodeEscapes value folded map) {j d' : ℕ} (hij : i ≤ j)
    (hj : j ≤ folded.length) : map.getD i d ≤ map.getD j d' :=
  getElem?_le h.sorted hij (h.getElem? (hij.trans hj) d) (h.getElem? hj d')

theorem le_length (h : OffsetMap T decodeEscapes value folded map) (hi : i ≤ folded.length) :
    map.getD i d ≤ value.length :=
  getElem?_le h.sorted hi (h.getElem? hi d) h.last

end OffsetMap

theorem slice_length {l : JsString} {p n : ℕ} (h : p + n ≤ l.length) :
    (l.slice p n).length = n := by
  rw [List.slice, length_take, length_drop]
  omega

theorem headLength_le (kind : FramingKind) {folded : JsString} (h : m.Within folded lastIndex) :
    kind.headLength folded m ≤ m.size := by
  cases kind with
  | element | multipart => exact h.captured
  | equals =>
    rw [FramingKind.headLength]
    split
    · rename_i eq heq
      have hprefix := (Bridge.indexOf_spec heq).length_le
      rw [length_drop, slice_length h.inside] at hprefix
      have hone : (js "=").length = 1 := rfl
      omega
    · exact zero_le _

/-- What a framing masks: the end of what was found, as the map has it. -/
def OfMatch (pattern : Regex) (folded : JsString) (map : List ℕ) (m : Mask) : Prop :=
  m.shown = redactedSecret ∧ ∃ lastIndex found, pattern.exec folded lastIndex = some found ∧
    ∃ s, map[found.index]? = some s ∧ s ≤ m.first ∧ map[found.index + found.size]? = some m.stop

theorem framingLoop_masks {T : FoldTables} {decodeEscapes : Bool} {value folded : JsString}
    {map : List ℕ} (hmap : OffsetMap T decodeEscapes value folded map) (pattern : Regex)
    (kind : FramingKind) (lastIndex cursor : ℕ) (out : JsString) (hcursor : cursor ≤ value.length) :
    ∃ masks, InOrder value cursor masks ∧
      framingLoop pattern kind value folded map lastIndex cursor out =
        out ++ masked value cursor masks ∧ ∀ m ∈ masks, OfMatch pattern folded map m := by
  fun_induction framingLoop pattern kind value folded map lastIndex cursor out with
  | case1 lastIndex cursor out hm => exact ⟨[], hcursor, rfl, nofun⟩
  | case2 lastIndex cursor out m hm start hlt ih => exact ih hcursor
  | case3 lastIndex cursor out m hm start stop hle headEnd head body hblank ih => exact ih hcursor
  | case4 lastIndex cursor out m hm start stop hle headEnd head body hbody ih =>
    have hwithin := pattern.within _ _ _ hm
    have hinside := hwithin.inside
    have hhead := headLength_le kind hwithin
    have hstart : start ≤ headEnd := hmap.le_of_le (le_add_right _ _) (by omega)
    have hstop : headEnd ≤ stop := hmap.le_of_le (by omega) hinside
    have hend : stop ≤ value.length := hmap.le_length hinside
    obtain ⟨masks, horder, hout, hmasks⟩ := ih hend
    have hfirst : cursor ≤ start := Nat.le_of_not_lt hle
    refine ⟨⟨headEnd, stop, redactedSecret⟩ :: masks, ⟨hfirst.trans hstart, hstop, horder⟩, ?_, ?_⟩
    · rw [hout, masked, ← List.slice_append_slice value hfirst hstart]
      simp only [append_assoc]
      rfl
    · refine forall_mem_cons.mpr ⟨⟨rfl, lastIndex, m, hm, start, ?_, hstart, ?_⟩, hmasks⟩
      · exact hmap.getElem? (by omega) _
      · exact hmap.getElem? hinside _

/-! ### The value of a header -/

/-- What is masked of a header: what follows the label on its line, but for the space before it. -/
def OfLabel (pattern : Regex) (value folded : JsString) (map : List ℕ) (m : Mask) : Prop :=
  (m.shown = redactedSecret ∨ m.shown = js "Bearer " ++ redactedSecret) ∧
  ∃ lastIndex found, pattern.exec folded lastIndex = some found ∧
    ∃ afterLabel gap, map[found.index + found.size]? = some afterLabel ∧
      m.first = afterLabel + gap ∧
      m.stop = afterLabel + ((value.drop afterLabel).takeWhile (!isLineBreak ·)).length

theorem headerLoop_masks {T : FoldTables} {decodeEscapes : Bool} {value folded : JsString}
    {map : List ℕ} (hmap : OffsetMap T decodeEscapes value folded map) (pattern : Regex)
    (bearer : JsString → JsString → Bool) (lastIndex cursor : ℕ) (out : JsString)
    (hcursor : cursor ≤ value.length) : ∃ masks, InOrder value cursor masks ∧
      headerLoop pattern bearer value folded map lastIndex cursor out =
        out ++ masked value cursor masks ∧ ∀ m ∈ masks, OfLabel pattern value folded map m := by
  fun_induction headerLoop pattern bearer value folded map lastIndex cursor out with
  | case1 lastIndex cursor out hm => exact ⟨[], hcursor, rfl, nofun⟩
  | case2 lastIndex cursor out m hm start hlt ih => exact ih hcursor
  | case3 lastIndex cursor out m hm start afterLabel hle lineEnd rawValue hblank ih =>
    exact ih hcursor
  | case4 lastIndex cursor out m hm start afterLabel hle lineEnd rawValue hvalue gap label scheme
      ih =>
    have hinside := (pattern.within _ _ _ hm).inside
    have hstart : start ≤ afterLabel := hmap.le_of_le (le_add_right _ _) hinside
    have hfirst : cursor ≤ afterLabel := (Nat.le_of_not_lt hle).trans hstart
    have hlabel : afterLabel ≤ value.length := hmap.le_length hinside
    have hline : lineEnd ≤ value.length := by
      have htake := (List.takeWhile_prefix (!isLineBreak ·) (l := value.drop afterLabel)).length_le
      rw [length_drop] at htake
      change afterLabel + _ ≤ _
      omega
    have hafter : afterLabel ≤ lineEnd := le_add_right _ _
    have hraw : rawValue.length = lineEnd - afterLabel := slice_length (by omega)
    have hgap : gap <+: rawValue := takeWhile_prefix _
    have hlast : afterLabel + gap.length ≤ lineEnd := by
      have hlength := hgap.length_le
      omega
    obtain ⟨masks, horder, hout, hmasks⟩ := ih hline
    refine ⟨⟨afterLabel + gap.length, lineEnd, scheme ++ redactedSecret⟩ :: masks,
      ⟨hfirst.trans (le_add_right _ _), hlast, horder⟩, ?_, ?_⟩
    · have hslice : value.slice cursor (afterLabel + gap.length - cursor) =
          value.slice cursor (afterLabel - cursor) ++ gap := by
        rw [← List.slice_append_slice value hfirst (Nat.le_add_right _ _), Nat.add_sub_cancel_left]
        exact congrArg _ (prefix_iff_eq_take.mp (hgap.trans (List.take_prefix _ _))).symm
      rw [hout, masked, hslice]
      simp only [append_assoc]
    · refine forall_mem_cons.mpr ⟨⟨?_, lastIndex, m, hm, afterLabel, gap.length,
        hmap.getElem? hinside _, rfl, rfl⟩, hmasks⟩
      change scheme ++ _ = _ ∨ scheme ++ _ = _
      by_cases hbearer : bearer label rawValue = true
      · exact .inr (by rw [show scheme = js "Bearer " from if_pos hbearer])
      · exact .inl (by rw [show scheme = [] from if_neg hbearer, nil_append])

/-! ### A tag -/

/-- What is masked of a tag and all that follows: all but its name. -/
def OfTag (tagName : Sticky) (value folded : JsString) (map : List ℕ) (m : Mask) : Prop :=
  m.shown = redactedSecret ∧ m.stop = value.length ∧
    ∃ tagStart size, tagName.exec folded tagStart = some size ∧
      map[tagStart + size]? = some m.first

theorem leaves_self (value : JsString) (kind : Mask → Prop) : Leaves value value kind :=
  ⟨[], zero_le _, rfl, nofun⟩

theorem tagLoop_masks {T : FoldTables} {decodeEscapes : Bool} {value folded : JsString}
    {map : List ℕ} (hmap : OffsetMap T decodeEscapes value folded map) (tagName : Sticky)
    (credentialAttribute : JsString → Bool) (searchFrom : ℕ) :
    Leaves value (tagLoop tagName credentialAttribute value folded map searchFrom)
      (OfTag tagName value folded map) := by
  fun_induction tagLoop tagName credentialAttribute value folded map searchFrom with
  | case1 | case4 | case6 => exact leaves_self _ _
  | case2 searchFrom hlt tagStart hstart hname ih => exact ih
  | case5 searchFrom hlt tagStart hstart size hname close tagEnd attributes hnot n hclose ih =>
    exact ih
  | case3 searchFrom hlt tagStart hstart size hname close tagEnd attributes hcredential start
      headEnd =>
    have hinside := tagName.within _ _ _ hname
    have hle : start ≤ headEnd := hmap.le_of_le (le_add_right _ _) hinside
    have hend : headEnd ≤ value.length := hmap.le_length hinside
    refine ⟨[⟨headEnd, value.length, redactedSecret⟩], ⟨zero_le _, hend, le_rfl⟩, ?_, ?_⟩
    · have htake : value.slice 0 (start - 0) = value.take start := rfl
      rw [masked, masked, drop_length, append_nil,
        ← List.slice_append_slice value (zero_le start) hle, htake]
    · exact forall_mem_singleton.mpr ⟨rfl, rfl, tagStart, size, hname, hmap.getElem? hinside _⟩

/-! ## The map and the masks -/

/-- **The map of a view, and what is masked by it**: every unit of the copy has the place of what it
was emitted for, what is found up to the end of an element comes from between the places of its
ends, and a masker changes nothing outside of what it masks. -/
theorem foldForMatching_map (T : FoldTables) (value : JsString) (decodeEscapes : Bool)
    (pattern : Regex) (kind : FramingKind) (bearer : JsString → JsString → Bool) (tagName : Sticky)
    (credentialAttribute : JsString → Bool) :
    let view := foldForMatching T value decodeEscapes
    OffsetMap T decodeEscapes value view.1 view.2 ∧
    Leaves value (maskFraming T pattern kind value decodeEscapes) (OfMatch pattern view.1 view.2) ∧
    Leaves value (maskCredentialHeadersOnce T pattern bearer value decodeEscapes)
      (OfLabel pattern value view.1 view.2) ∧
    Leaves value (maskXmlIdentifyingAttribute T tagName credentialAttribute value decodeEscapes)
      (OfTag tagName value view.1 view.2) := by
  have hmap := offsetMap T value decodeEscapes
  exact ⟨hmap, framingLoop_masks hmap pattern kind 0 0 [] (zero_le _),
    headerLoop_masks hmap pattern bearer 0 0 [] (zero_le _),
    tagLoop_masks hmap tagName credentialAttribute 0⟩

end Text
