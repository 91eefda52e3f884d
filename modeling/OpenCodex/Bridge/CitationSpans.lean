import OpenCodex.Bridge.Citations
import Mathlib.Data.List.Infix

/-!
# What the citation filter takes out

`readCitations` reads a whole text from left to right: at a start it takes a complete citation span
if there is one, else a directive if there is one, and else the start is a unit like any other.  The
filter decides the same unit by unit: in each of its modes it owes what reading gives of what it
withholds with all that may follow, or, where it has released the beginning of a directive, of the
rest of it (`owed_step`).  So what the filter leaves of a text is what was read of it, without the
citations (`stripCitationMarkers_eq_read`).

Text that was released is not looked at again.  Where a span is taken out, what stands before and
behind it can make up a span that was not in the text, and this one stays
(`stripCitationMarkers_complete`).
-/

set_option autoImplicit false

open List Option Nat

namespace Bridge

/-! ## Spans -/

def isDelimiter (c : CodeUnit) : Bool :=
  c == citationMarkerStart || c == citationMarkerSeparator || c == citationMarkerEnd

/-- A complete citation span: the keyword, and then the end at once, or a separator and a body. -/
def IsCitation (span : JsString) : Prop :=
  span.length ≤ maxCitationSpanLength ∧ ∃ keyword ∈ citationKeywords,
    span = citationMarkerStart :: (keyword ++ [citationMarkerEnd]) ∨
    ∃ body, citationMarkerStart ∉ body ∧
      span = citationMarkerStart :: (keyword ++ citationMarkerSeparator :: (body ++
        [citationMarkerEnd]))

/-- No delimiter is in it. -/
def Plain (l : JsString) : Prop := ∀ c ∈ l, isDelimiter c = false

/-- A directive: another keyword, a separator and a body through its end, or cut off by the bound. -/
def IsDirective (text : JsString) : Prop :=
  text.length ≤ maxCitationSpanLength ∧ ∃ keyword body, Plain keyword ∧
    keyword ∉ citationKeywords ∧ citationMarkerEnd ∉ body.dropLast ∧
    text = citationMarkerStart :: (keyword ++ citationMarkerSeparator :: body)

/-- How many units there are through the first one that stops, if that is among so many and nothing
that may not be comes before it. -/
def through (stop bad : CodeUnit → Bool) : ℕ → JsString → Option ℕ
  | 0, _ | _ + 1, [] => none
  | n + 1, c :: l =>
    if stop c then some 1 else if bad c then none else (through stop bad n l).map (· + 1)

/-- The units behind a start that are a citation span with it. -/
def citationLength (l : JsString) : Option ℕ :=
  (through (fun c ↦ c == citationMarkerSeparator || c == citationMarkerEnd)
      (· == citationMarkerStart) (maxCitationSpanLength - 1) l).bind fun k ↦
    if citationKeywords.contains (l.take (k - 1)) then
      if l[k - 1]? = some citationMarkerEnd then some k
      else
        (through (· == citationMarkerEnd) (· == citationMarkerStart)
          (maxCitationSpanLength - 1 - k) (l.drop k)).map (k + ·)
    else none

/-- The units of a directive's body: through its end, or as many as are allowed. -/
def bodyLength : ℕ → JsString → ℕ
  | 0, _ | _ + 1, [] => 0
  | n + 1, c :: l => if c = citationMarkerEnd then 1 else bodyLength n l + 1

/-- The units of another keyword, through its separator. -/
def keywordLength (n : ℕ) (l : JsString) : Option ℕ :=
  through (· == citationMarkerSeparator)
    (fun c ↦ c == citationMarkerStart || c == citationMarkerEnd) n l

/-- The units behind a start that are a directive with it. -/
def directiveLength (l : JsString) : Option ℕ :=
  (keywordLength (maxCitationSpanLength - 1) l).bind fun k ↦
    if citationKeywords.contains (l.take (k - 1)) then none
    else some (k + bodyLength (maxCitationSpanLength - 1 - k) (l.drop k))

/-! ## Reading a whole text -/

inductive CitationToken where
  | citation (span : JsString)
  | directive (text : JsString)
  | unit (c : CodeUnit)

namespace CitationToken

/-- What it is in the text. -/
def source : CitationToken → JsString
  | citation span => span
  | directive text => text
  | unit c => [c]

/-- What is left of it. -/
def kept : CitationToken → JsString
  | citation _ => []
  | directive text => text
  | unit c => [c]

end CitationToken

def readCitations : JsString → List CitationToken
  | [] => []
  | c :: l =>
    if c = citationMarkerStart then
      match citationLength l with
      | some n => .citation (c :: l.take n) :: readCitations (l.drop n)
      | none =>
        match directiveLength l with
        | some n => .directive (c :: l.take n) :: readCitations (l.drop n)
        | none => .unit c :: readCitations l
    else .unit c :: readCitations l
termination_by l => l.length
decreasing_by all_goals simp only [length_drop, length_cons]; omega

/-- A text as it is read, without the citations. -/
def withoutCitations (l : JsString) : JsString := (readCitations l).flatMap CitationToken.kept

/-! ### Reading step by step -/

theorem readCitations_start (l : JsString) : readCitations (citationMarkerStart :: l) =
      match citationLength l with
      | some n => .citation (citationMarkerStart :: l.take n) :: readCitations (l.drop n)
      | none =>
        match directiveLength l with
        | some n => .directive (citationMarkerStart :: l.take n) :: readCitations (l.drop n)
        | none => .unit citationMarkerStart :: readCitations l := by
  rw [readCitations, if_pos rfl]

variable {c : CodeUnit}

theorem readCitations_unit (h : c ≠ citationMarkerStart) (l : JsString) :
    readCitations (c :: l) = .unit c :: readCitations l := by
  rw [readCitations, if_neg h]

theorem withoutCitations_nil : withoutCitations [] = [] := by
  rw [withoutCitations, readCitations]
  rfl

theorem withoutCitations_unit (h : c ≠ citationMarkerStart) (l : JsString) :
    withoutCitations (c :: l) = c :: withoutCitations l := by
  rw [withoutCitations, readCitations_unit h, flatMap_cons]
  rfl

theorem withoutCitations_plain {a : JsString} (h : citationMarkerStart ∉ a) (m : JsString) :
    withoutCitations (a ++ m) = a ++ withoutCitations m := by
  induction a with
  | nil => rfl
  | cons c a ih =>
    obtain ⟨hc, ha⟩ := not_or.mp (mt mem_cons.mpr h)
    rw [cons_append, withoutCitations_unit (Ne.symm hc), ih ha, cons_append]

variable {l : JsString}

theorem withoutCitations_citation {n : ℕ} (h : citationLength l = some n) :
    withoutCitations (citationMarkerStart :: l) = withoutCitations (l.drop n) := by
  rw [withoutCitations, readCitations_start, h, flatMap_cons]
  rfl

theorem withoutCitations_directive {n : ℕ} (h : citationLength l = none)
    (hd : directiveLength l = some n) : withoutCitations (citationMarkerStart :: l) =
      citationMarkerStart :: (l.take n ++ withoutCitations (l.drop n)) := by
  rw [withoutCitations, readCitations_start, h, hd, flatMap_cons]
  rfl

theorem withoutCitations_malformed (h : citationLength l = none) (hd : directiveLength l = none) :
    withoutCitations (citationMarkerStart :: l) = citationMarkerStart :: withoutCitations l := by
  rw [withoutCitations, readCitations_start, h, hd, flatMap_cons]
  rfl

/-! ### Going through to a delimiter -/

section Through

variable {stop bad : CodeUnit → Bool} {a : JsString} {n : ℕ}

theorem through_append (h : ∀ c ∈ a, stop c = false ∧ bad c = false) (m : JsString) :
    through stop bad n (a ++ m) = (through stop bad (n - a.length) m).map (a.length + ·) := by
  induction a generalizing n with
  | nil => simp
  | cons c a ih =>
    cases n with
    | zero => rw [Nat.zero_sub]; rfl
    | succ n =>
      obtain ⟨hc, ha⟩ := forall_mem_cons.mp h
      rw [cons_append, through, if_neg (by simp [hc.1]), if_neg (by simp [hc.2]), ih ha,
        Option.map_map, length_cons, Nat.add_sub_add_right]
      refine congrArg (Option.map · _) (funext fun k ↦ ?_)
      rw [Function.comp_apply, add_right_comm]

theorem through_stop (h : ∀ c ∈ a, stop c = false ∧ bad c = false) (hn : a.length < n)
    (hc : stop c = true) (m : JsString) :
    through stop bad n (a ++ c :: m) = some (a.length + 1) := by
  obtain ⟨k, hk⟩ := exists_eq_succ_of_ne_zero (sub_ne_zero_of_lt hn)
  rw [through_append h, hk, through, if_pos hc]
  rfl

theorem through_bad (h : ∀ c ∈ a, stop c = false ∧ bad c = false) (hs : stop c = false)
    (hc : bad c = true) (m : JsString) : through stop bad n (a ++ c :: m) = none := by
  rw [through_append h]
  cases n - a.length with
  | zero => rfl
  | succ k => rw [through, if_neg (by simp [hs]), if_pos hc]; rfl

theorem through_end (h : ∀ c ∈ a, stop c = false ∧ bad c = false) :
    through stop bad n a = none := by
  rw [← append_nil a, through_append h]
  cases n - a.length <;> rfl

theorem through_ne_none {d : CodeUnit} {body : JsString} (h : d ∉ body) (hn : body.length < n)
    (m : JsString) : through (· == c) (· == d) n (body ++ c :: m) ≠ none := by
  induction body generalizing n with
  | nil =>
    obtain ⟨n, rfl⟩ := exists_eq_succ_of_ne_zero (ne_of_gt hn)
    simp [through]
  | cons e body ih =>
    obtain ⟨n, rfl⟩ := exists_eq_succ_of_ne_zero (ne_of_gt (zero_lt_of_lt hn))
    obtain ⟨he, hbody⟩ := not_or.mp (mt mem_cons.mpr h)
    rw [cons_append, through]
    split_ifs with hc hd
    · exact some_ne_none _
    · exact absurd (beq_iff_eq.mp hd) (Ne.symm he)
    · exact fun h ↦ ih hbody (lt_of_succ_lt_succ hn) (map_eq_none_iff.mp h)

theorem through_eq_some {k : ℕ} (h : through stop bad n l = some k) :
    ∃ a c m, l = a ++ c :: m ∧ (∀ d ∈ a, stop d = false ∧ bad d = false) ∧ stop c = true ∧
      k = a.length + 1 ∧ k ≤ n := by
  induction n generalizing l k with
  | zero => nomatch h
  | succ n ih =>
    cases l with
    | nil => nomatch h
    | cons d l =>
      rw [through] at h
      split_ifs at h with hs hb
      · obtain rfl := some_inj.mp h
        exact ⟨[], d, l, rfl, by simp, hs, rfl, succ_le_succ (zero_le n)⟩
      · obtain ⟨k, hk, rfl⟩ := map_eq_some_iff.mp h
        obtain ⟨a, c, m, rfl, ha, hc, rfl, hle⟩ := ih hk
        refine ⟨d :: a, c, m, rfl, forall_mem_cons.mpr ⟨?_, ha⟩, hc, rfl, succ_le_succ hle⟩
        exact ⟨Bool.eq_false_iff.mpr hs, Bool.eq_false_iff.mpr hb⟩

end Through

/-! ### Behind a keyword -/

theorem Plain.opens (h : Plain l) : ∀ c ∈ l,
    (c == citationMarkerSeparator || c == citationMarkerEnd) = false ∧
      (c == citationMarkerStart) = false := by
  intro c hc
  have := h c hc
  rw [isDelimiter, Bool.or_eq_false_iff, Bool.or_eq_false_iff] at this
  exact ⟨Bool.or_eq_false_iff.mpr ⟨this.1.2, this.2⟩, this.1.1⟩

theorem Plain.other (h : Plain l) : ∀ c ∈ l, (c == citationMarkerSeparator) = false ∧
      (c == citationMarkerStart || c == citationMarkerEnd) = false := by
  intro c hc
  have := h c hc
  rw [isDelimiter, Bool.or_eq_false_iff, Bool.or_eq_false_iff] at this
  exact ⟨this.1.2, Bool.or_eq_false_iff.mpr ⟨this.1.1, this.2⟩⟩

theorem Plain.no_start (h : Plain l) : citationMarkerStart ∉ l :=
  fun hm ↦ absurd (h _ hm) (by decide)

theorem take_keyword (keyword : JsString) (c : CodeUnit) (m : JsString) :
    (keyword ++ c :: m).take (keyword.length + 1 - 1) = keyword := by
  rw [Nat.add_sub_cancel, take_left]

section Keyword

variable {keyword : JsString}

theorem citationLength_end (h : Plain keyword) (hn : keyword.length < maxCitationSpanLength - 1)
    (m : JsString) : citationLength (keyword ++ citationMarkerEnd :: m) =
      if citationKeywords.contains keyword then some (keyword.length + 1) else none := by
  rw [citationLength, through_stop h.opens hn (by decide), bind_some, take_keyword,
    Nat.add_sub_cancel, getElem?_append_right le_rfl, Nat.sub_self, getElem?_cons_zero,
    if_pos rfl]

theorem citationLength_separator (h : Plain keyword)
    (hn : keyword.length < maxCitationSpanLength - 1) (m : JsString) :
    citationLength (keyword ++ citationMarkerSeparator :: m) =
      if citationKeywords.contains keyword then
        (through (· == citationMarkerEnd) (· == citationMarkerStart)
          (maxCitationSpanLength - 1 - (keyword.length + 1)) m).map (keyword.length + 1 + ·)
      else none := by
  rw [citationLength, through_stop h.opens hn (by decide), bind_some, take_keyword,
    Nat.add_sub_cancel, getElem?_append_right le_rfl, Nat.sub_self, getElem?_cons_zero,
    if_neg (show ¬ some citationMarkerSeparator = some citationMarkerEnd by decide),
    ← drop_drop, drop_left]
  rfl

theorem citationLength_start (h : Plain keyword) (m : JsString) :
    citationLength (keyword ++ citationMarkerStart :: m) = none := by
  rw [citationLength, through_bad h.opens (by decide) (by decide)]
  rfl

theorem directiveLength_separator (h : Plain keyword)
    (hn : keyword.length < maxCitationSpanLength - 1) (m : JsString) :
    directiveLength (keyword ++ citationMarkerSeparator :: m) =
      if citationKeywords.contains keyword then none else some (keyword.length + 1 +
        bodyLength (maxCitationSpanLength - 1 - (keyword.length + 1)) m) := by
  rw [directiveLength, keywordLength, through_stop h.other hn (by decide), bind_some,
    take_keyword, ← drop_drop, drop_left]
  rfl

theorem directiveLength_closed (h : Plain keyword)
    (hc : c = citationMarkerStart ∨ c = citationMarkerEnd) (m : JsString) :
    directiveLength (keyword ++ c :: m) = none := by
  rw [directiveLength, keywordLength, through_bad h.other]
  · rfl
  · rcases hc with rfl | rfl <;> decide
  · rcases hc with rfl | rfl <;> decide

theorem not_keyword_of_prefix (hk : CitationMarkerFilter.isKeywordPrefix keyword = false)
    (m : JsString) : citationKeywords.contains (keyword ++ m) = false := by
  refine Bool.eq_false_iff.mpr fun h ↦ ?_
  have hp : CitationMarkerFilter.isKeywordPrefix keyword = true :=
    List.any_eq_true.mpr ⟨keyword ++ m, contains_iff_mem.mp h,
      isPrefixOf_iff_prefix.mpr (prefix_append keyword m)⟩
  rw [hk] at hp
  exact Bool.false_ne_true hp

theorem citationLength_other (h : Plain keyword)
    (hk : CitationMarkerFilter.isKeywordPrefix keyword = false) (m : JsString) :
    citationLength (keyword ++ m) = none := by
  rw [citationLength, through_append h.opens]
  cases ht : through (fun c ↦ c == citationMarkerSeparator || c == citationMarkerEnd)
      (· == citationMarkerStart) (maxCitationSpanLength - 1 - keyword.length) m with
  | none => rfl
  | some k =>
    obtain ⟨a, c, l, -, -, -, rfl, -⟩ := through_eq_some ht
    rw [map_some, bind_some, ← Nat.add_assoc, Nat.add_sub_cancel,
      take_length_add_append, not_keyword_of_prefix hk]
    rfl

theorem directiveLength_other (h : Plain keyword)
    (hk : CitationMarkerFilter.isKeywordPrefix keyword = false) (m : JsString) :
    directiveLength (keyword ++ m) =
      (keywordLength (maxCitationSpanLength - 1 - keyword.length) m).map fun k ↦
        keyword.length + k +
          bodyLength (maxCitationSpanLength - 1 - (keyword.length + k)) (m.drop k) := by
  rw [directiveLength, keywordLength, through_append h.other, ← keywordLength]
  cases ht : keywordLength (maxCitationSpanLength - 1 - keyword.length) m with
  | none => rfl
  | some k =>
    obtain ⟨a, c, l, -, -, -, rfl, -⟩ := through_eq_some ht
    rw [map_some, bind_some, show keyword.length + (a.length + 1) - 1 =
      keyword.length + a.length from rfl, take_length_add_append, not_keyword_of_prefix hk,
      drop_length_add_append]
    rfl

end Keyword

/-! ## What the filter owes -/

/-- What is left of a directive, so many units of which may still come, and of what follows. -/
def restOfDirective (n : ℕ) (m : JsString) : JsString :=
  m.take (bodyLength n m) ++ withoutCitations (m.drop (bodyLength n m))

/-- What is left of a text behind the beginning of another keyword. -/
def restOfKeyword (n : ℕ) (m : JsString) : JsString :=
  match keywordLength n m with
  | some k => m.take k ++ restOfDirective (n - k) (m.drop k)
  | none => withoutCitations m

theorem restOfDirective_zero (m : JsString) : restOfDirective 0 m = withoutCitations m := rfl

theorem restOfDirective_nil (n : ℕ) : restOfDirective n [] = [] := by
  rw [restOfDirective, take_nil, drop_nil, withoutCitations_nil, append_nil]

theorem restOfKeyword_nil (n : ℕ) : restOfKeyword n [] = [] := by
  cases n <;> exact withoutCitations_nil

theorem restOfDirective_cons (n : ℕ) (c : CodeUnit) (m : JsString) :
    restOfDirective (n + 1) (c :: m) =
      c :: if c = citationMarkerEnd then withoutCitations m else restOfDirective n m := by
  rw [restOfDirective, bodyLength]
  split_ifs with hc
  · rfl
  · rfl

theorem restOfKeyword_zero (m : JsString) : restOfKeyword 0 m = withoutCitations m := rfl

theorem restOfKeyword_cons (n : ℕ) (c : CodeUnit) (m : JsString) : restOfKeyword (n + 1) (c :: m) =
      if c = citationMarkerSeparator then c :: restOfDirective n m
      else if c = citationMarkerStart ∨ c = citationMarkerEnd then withoutCitations (c :: m)
      else c :: restOfKeyword n m := by
  rw [restOfKeyword, keywordLength, through]
  by_cases hs : c = citationMarkerSeparator
  · rw [if_pos (beq_iff_eq.mpr hs), if_pos hs]
    rfl
  · rw [if_neg fun h ↦ hs (beq_iff_eq.mp h), if_neg hs]
    by_cases hc : c = citationMarkerStart ∨ c = citationMarkerEnd
    · rw [if_pos (by simpa using hc), if_pos hc]
    · rw [if_neg (by simpa using hc), if_neg hc, restOfKeyword, ← keywordLength]
      cases keywordLength n m with
      | none => exact withoutCitations_unit (fun h ↦ hc (.inl h)) m
      | some k =>
        rw [map_some]
        dsimp only
        rw [take_succ_cons, drop_succ_cons, Nat.add_sub_add_right, cons_append]

namespace CitationMarkerFilter

/-- What the filter owes for what may still come. -/
def owed (f : CitationMarkerFilter) (m : JsString) : JsString :=
  match f.mode with
  | .text => withoutCitations m
  | .keyword | .citation => withoutCitations (f.held ++ m)
  | .other => restOfKeyword (maxCitationSpanLength - f.spanLength) m
  | .directive => restOfDirective (maxCitationSpanLength - f.spanLength) m

/-- What is withheld in each mode. -/
def Sound (f : CitationMarkerFilter) : Prop :=
  match f.mode with
  | .text | .other | .directive => f.held = []
  | .keyword => ∃ keyword, f.held = citationMarkerStart :: keyword ∧ isKeywordPrefix keyword = true
  | .citation => ∃ keyword body, citationKeywords.contains keyword = true ∧
      f.held = citationMarkerStart :: (keyword ++ citationMarkerSeparator :: body) ∧
      citationMarkerStart ∉ body ∧ citationMarkerEnd ∉ body ∧
      f.held.length < maxCitationSpanLength

variable {keyword : JsString}

theorem plain_of_prefix (h : isKeywordPrefix keyword = true) :
    Plain keyword ∧ keyword.length ≤ 8 := by
  obtain ⟨whole, hw, hp⟩ := List.any_eq_true.mp h
  have hp := isPrefixOf_iff_prefix.mp hp
  have hwhole : ∀ whole ∈ citationKeywords,
      (∀ c ∈ whole, isDelimiter c = false) ∧ whole.length ≤ 8 := by decide
  exact ⟨fun c hc ↦ (hwhole whole hw).1 c (hp.subset hc), hp.length_le.trans (hwhole whole hw).2⟩

theorem plain_of_keyword (h : citationKeywords.contains keyword = true) :
    Plain keyword ∧ keyword.length ≤ 8 :=
  plain_of_prefix (List.any_eq_true.mpr ⟨keyword, contains_iff_mem.mp h,
    isPrefixOf_iff_prefix.mpr (prefix_refl _)⟩)

theorem owed_stepText (f : CitationMarkerFilter) (hheld : f.held = []) (ch : CodeUnit)
    (m : JsString) : (f.stepText ch).1.Sound ∧
      withoutCitations (ch :: m) = (f.stepText ch).2 ++ (f.stepText ch).1.owed m := by
  rw [stepText]
  split_ifs with hc
  · subst hc
    exact ⟨⟨[], rfl, rfl⟩, rfl⟩
  · exact ⟨hheld, withoutCitations_unit hc m⟩

/-- A citation that is closed by nothing yet, or by a start, is no citation and no directive. -/
theorem withoutCitations_keyword (h : Plain keyword) (hc : c = citationMarkerStart ∨
      c = citationMarkerEnd ∧ citationKeywords.contains keyword = false)
    (hn : keyword.length < maxCitationSpanLength - 1) (m : JsString) :
    withoutCitations (citationMarkerStart :: (keyword ++ c :: m)) =
      citationMarkerStart :: (keyword ++ withoutCitations (c :: m)) := by
  rw [withoutCitations_malformed, withoutCitations_plain h.no_start]
  · rcases hc with rfl | ⟨rfl, hk⟩
    · exact citationLength_start h m
    · rw [citationLength_end h hn, hk]
      rfl
  · exact directiveLength_closed h (hc.imp_right And.left) m

theorem withoutCitations_other (h : Plain keyword) (hk : isKeywordPrefix keyword = false)
    (m : JsString) :
    withoutCitations (citationMarkerStart :: (keyword ++ m)) = citationMarkerStart :: (keyword ++
        restOfKeyword (maxCitationSpanLength - (keyword.length + 1)) m) := by
  have hcite := citationLength_other h hk m
  have hdir := directiveLength_other h hk m
  rw [restOfKeyword, Nat.add_comm keyword.length, ← Nat.sub_sub]
  cases ht : keywordLength (maxCitationSpanLength - 1 - keyword.length) m with
  | none =>
    rw [ht] at hdir
    rw [withoutCitations_malformed hcite hdir, withoutCitations_plain h.no_start]
  | some k =>
    rw [ht, map_some] at hdir
    dsimp only
    rw [withoutCitations_directive hcite hdir, restOfDirective, Nat.sub_sub _ keyword.length,
      add_assoc, take_length_add_append, drop_length_add_append, take_add,
      ← drop_drop]
    simp only [append_assoc]

theorem withoutCitations_separator (h : Plain keyword)
    (hk : citationKeywords.contains keyword = false)
    (hn : keyword.length < maxCitationSpanLength - 1) (m : JsString) :
    withoutCitations (citationMarkerStart :: (keyword ++ citationMarkerSeparator :: m)) =
      citationMarkerStart :: (keyword ++ citationMarkerSeparator ::
        restOfDirective (maxCitationSpanLength - (keyword.length + 2)) m) := by
  have hcite := citationLength_separator h hn m
  have hdir := directiveLength_separator h hn m
  rw [hk] at hcite hdir
  rw [withoutCitations_directive hcite hdir, restOfDirective, add_assoc,
    take_length_add_append, drop_length_add_append, add_comm 1,
    take_succ_cons, drop_succ_cons, Nat.sub_sub, append_assoc, cons_append,
    show 1 + (keyword.length + 1) = keyword.length + 2 by omega]

variable {f : CitationMarkerFilter}

theorem owed_step_keyword (h : f.Sound) (hmode : f.mode = .keyword) (ch : CodeUnit) (m : JsString) :
    (f.step ch).1.Sound ∧ f.owed (ch :: m) = (f.step ch).2 ++ (f.step ch).1.owed m := by
  obtain ⟨mode, held, spanLength⟩ := f
  cases hmode
  obtain ⟨keyword, rfl, hk⟩ := h
  obtain ⟨hplain, hlen⟩ := plain_of_prefix hk
  have hn : keyword.length < maxCitationSpanLength - 1 := lt_of_le_of_lt hlen (by decide)
  dsimp only [step, owed]
  rw [drop_succ_cons, drop_zero]
  by_cases hstart : ch = citationMarkerStart
  · rw [if_pos hstart, hstart]
    exact ⟨⟨[], rfl, rfl⟩, withoutCitations_keyword hplain (.inl rfl) hn m⟩
  rw [if_neg hstart]
  by_cases hdelim : ch = citationMarkerSeparator ∨ ch = citationMarkerEnd
  · rw [if_pos hdelim]
    cases hcite : citationKeywords.contains keyword with
    | true =>
      rw [if_pos rfl]
      by_cases hend : ch = citationMarkerEnd
      · -- the span is complete, and is gone
        rw [if_pos hend, hend]
        have hlength := citationLength_end hplain hn m
        rw [hcite, if_pos rfl] at hlength
        refine ⟨rfl, ?_⟩
        rw [cons_append, withoutCitations_citation hlength, drop_length_add_append]
        rfl
      · rw [if_neg hend, hdelim.resolve_right hend]
        refine ⟨⟨keyword, [], hcite, rfl, not_mem_nil, not_mem_nil, ?_⟩, ?_⟩
        · have hmax : maxCitationSpanLength = 4096 := rfl
          simp only [length_append, length_cons, length_nil]
          omega
        · dsimp only
          rw [append_assoc]
          rfl
    | false =>
      rw [if_neg Bool.false_ne_true]
      by_cases hend : ch = citationMarkerEnd
      · rw [if_pos hend, hend]
        refine ⟨rfl, ?_⟩
        rw [cons_append, withoutCitations_keyword hplain (.inr ⟨rfl, hcite⟩) hn,
          withoutCitations_unit (by decide)]
        simp only [cons_append, append_assoc, nil_append]
      · rw [if_neg hend, hdelim.resolve_right hend]
        refine ⟨rfl, ?_⟩
        rw [cons_append, withoutCitations_separator hplain hcite hn]
        simp only [cons_append, append_assoc, nil_append, length_cons]
  · rw [if_neg hdelim, cons_append, drop_succ_cons, drop_zero]
    have hwhole : citationMarkerStart :: (keyword ++ ch :: m) =
        citationMarkerStart :: ((keyword ++ [ch]) ++ m) := by
      rw [append_assoc, singleton_append]
    cases hprefix : isKeywordPrefix (keyword ++ [ch]) with
    | true =>
      rw [if_pos rfl]
      refine ⟨⟨_, rfl, hprefix⟩, ?_⟩
      rw [cons_append, hwhole]
      rfl
    | false =>
      rw [if_neg Bool.false_ne_true]
      refine ⟨rfl, ?_⟩
      have hplain' : Plain (keyword ++ [ch]) := by
        intro c hc
        rcases mem_append.mp hc with hc | hc
        · exact hplain c hc
        · rw [mem_singleton.mp hc, isDelimiter, Bool.or_eq_false_iff, Bool.or_eq_false_iff]
          obtain ⟨hsep, hend⟩ := not_or.mp hdelim
          exact ⟨⟨beq_eq_false_iff_ne.mpr hstart, beq_eq_false_iff_ne.mpr hsep⟩,
            beq_eq_false_iff_ne.mpr hend⟩
      rw [cons_append, hwhole, withoutCitations_other hplain' hprefix]
      rfl

variable {body : JsString}

theorem body_free (hstart : citationMarkerStart ∉ body) (hend : citationMarkerEnd ∉ body) :
    ∀ c ∈ body, (c == citationMarkerEnd) = false ∧ (c == citationMarkerStart) = false :=
  fun _ hc ↦ ⟨beq_eq_false_iff_ne.mpr fun h ↦ hend (h ▸ hc),
    beq_eq_false_iff_ne.mpr fun h ↦ hstart (h ▸ hc)⟩

theorem withoutCitations_body (hk : citationKeywords.contains keyword = true)
    (hstart : citationMarkerStart ∉ body) (hend : citationMarkerEnd ∉ body) {m : JsString}
    (hm : m.head? = some citationMarkerStart ∨ m = [] ∨
      maxCitationSpanLength ≤ keyword.length + body.length + 2) :
    withoutCitations (citationMarkerStart :: (keyword ++ citationMarkerSeparator :: (body ++ m))) =
      citationMarkerStart :: (keyword ++ citationMarkerSeparator :: (body ++
        withoutCitations m)) := by
  obtain ⟨hplain, hlen⟩ := plain_of_keyword hk
  have hn : keyword.length < maxCitationSpanLength - 1 := lt_of_le_of_lt hlen (by decide)
  have hbody := body_free hstart hend
  have hcite := citationLength_separator hplain hn (body ++ m)
  have hdir := directiveLength_separator hplain hn (body ++ m)
  rw [if_pos hk] at hcite hdir
  have hopen : through (· == citationMarkerEnd) (· == citationMarkerStart)
      (maxCitationSpanLength - 1 - (keyword.length + 1)) (body ++ m) = none := by
    rcases hm with hm | rfl | hm
    · obtain ⟨c, m, rfl⟩ := exists_cons_of_ne_nil (l := m) fun h ↦ by simp [h] at hm
      obtain rfl := some_inj.mp hm
      exact through_bad hbody (by decide) (by decide) m
    · rw [append_nil, through_end hbody]
    · rw [through_append hbody, show maxCitationSpanLength - 1 - (keyword.length + 1) - body.length
        = 0 by omega]
      rfl
  rw [hopen, map_none] at hcite
  have hplainBody : citationMarkerStart ∉ keyword ++ citationMarkerSeparator :: body := by
    rw [mem_append, mem_cons, not_or, not_or]
    exact ⟨hplain.no_start, by decide, hstart⟩
  rw [withoutCitations_malformed hcite hdir, ← cons_append, ← append_assoc,
    withoutCitations_plain hplainBody]
  simp only [append_assoc, cons_append]

theorem owed_step_citation (h : f.Sound) (hmode : f.mode = .citation) (ch : CodeUnit) (m : JsString) :
    (f.step ch).1.Sound ∧ f.owed (ch :: m) = (f.step ch).2 ++ (f.step ch).1.owed m := by
  obtain ⟨mode, held, spanLength⟩ := f
  cases hmode
  obtain ⟨keyword, body, hk, rfl, hstart, hend, hlen⟩ := h
  obtain ⟨hplain, hkeyword⟩ := plain_of_keyword hk
  have hn : keyword.length < maxCitationSpanLength - 1 := lt_of_le_of_lt hkeyword (by decide)
  simp only [length_append, length_cons] at hlen
  dsimp only [step, owed]
  by_cases hs : ch = citationMarkerStart
  · rw [if_pos hs, hs]
    refine ⟨⟨[], rfl, rfl⟩, ?_⟩
    simp only [cons_append, append_assoc]
    exact withoutCitations_body hk hstart hend (.inl rfl)
  rw [if_neg hs]
  by_cases he : ch = citationMarkerEnd
  · -- the span is complete, and is gone
    rw [if_pos he, he]
    refine ⟨rfl, ?_⟩
    have hlength := citationLength_separator hplain hn (body ++ citationMarkerEnd :: m)
    rw [if_pos hk, through_stop (body_free hstart hend) (by omega) (by decide), map_some] at hlength
    simp only [cons_append, append_assoc]
    rw [withoutCitations_citation hlength, add_assoc, drop_length_add_append,
      add_comm 1, drop_succ_cons, drop_length_add_append]
    rfl
  rw [if_neg he]
  have hs' : citationMarkerStart ∉ body ++ [ch] := by
    rw [mem_append, mem_singleton, not_or]
    exact ⟨hstart, Ne.symm hs⟩
  have he' : citationMarkerEnd ∉ body ++ [ch] := by
    rw [mem_append, mem_singleton, not_or]
    exact ⟨hend, Ne.symm he⟩
  by_cases hfull : (citationMarkerStart :: (keyword ++ citationMarkerSeparator :: body) ++
      [ch]).length ≥ maxCitationSpanLength
  · rw [if_pos hfull]
    refine ⟨rfl, ?_⟩
    have := withoutCitations_body hk hs' he' (m := m) (.inr (.inr (by
      simp only [length_append, length_cons, length_nil] at hfull ⊢
      omega)))
    simp only [cons_append, append_assoc, nil_append] at this ⊢
    exact this
  · rw [if_neg hfull]
    refine ⟨⟨keyword, body ++ [ch], hk, ?_, hs', he', not_le.mp hfull⟩, ?_⟩
    · simp only [cons_append, append_assoc]
    · simp only [cons_append, append_assoc, nil_append]

/-- **One unit**: what is owed is what is released and what is owed then. -/
theorem owed_step (h : f.Sound) (ch : CodeUnit) (m : JsString) :
    (f.step ch).1.Sound ∧ f.owed (ch :: m) = (f.step ch).2 ++ (f.step ch).1.owed m := by
  cases hmode : f.mode with
  | keyword => exact owed_step_keyword h hmode ch m
  | citation => exact owed_step_citation h hmode ch m
  | text =>
    rw [Sound, hmode] at h
    rw [step, owed, hmode]
    exact owed_stepText f h ch m
  | other =>
    rw [Sound, hmode] at h
    rw [step, owed, hmode]
    dsimp only
    by_cases hfull : f.spanLength + 1 > maxCitationSpanLength
    · rw [if_pos hfull, Nat.sub_eq_zero_of_le (Nat.lt_succ_iff.mp hfull), restOfKeyword_zero]
      exact owed_stepText f h ch m
    · rw [if_neg hfull, show maxCitationSpanLength - f.spanLength =
        maxCitationSpanLength - (f.spanLength + 1) + 1 by omega, restOfKeyword_cons]
      by_cases hstart : ch = citationMarkerStart
      · rw [if_neg (show ¬ ch = citationMarkerSeparator by rw [hstart]; decide),
          if_pos (show ch = citationMarkerStart ∨ ch = citationMarkerEnd from .inl hstart),
          if_pos hstart, hstart]
        exact ⟨⟨[], rfl, rfl⟩, rfl⟩
      rw [if_neg hstart]
      by_cases hend : ch = citationMarkerEnd
      · rw [if_pos (show ch = citationMarkerStart ∨ ch = citationMarkerEnd from .inr hend),
          if_pos hend]
        refine ⟨h, ?_⟩
        rw [if_neg (show ¬ ch = citationMarkerSeparator by rw [hend]; decide)]
        exact withoutCitations_unit hstart m
      rw [if_neg hend, if_neg (show ¬ (ch = citationMarkerStart ∨ ch = citationMarkerEnd) from
        not_or.mpr ⟨hstart, hend⟩)]
      split_ifs with hsep
      · exact ⟨h, rfl⟩
      · exact ⟨h, rfl⟩
  | directive =>
    rw [Sound, hmode] at h
    rw [step, owed, hmode]
    dsimp only
    by_cases hfull : f.spanLength + 1 > maxCitationSpanLength
    · rw [if_pos hfull, Nat.sub_eq_zero_of_le (Nat.lt_succ_iff.mp hfull), restOfDirective_zero]
      exact owed_stepText f h ch m
    · rw [if_neg hfull, show maxCitationSpanLength - f.spanLength =
        maxCitationSpanLength - (f.spanLength + 1) + 1 by omega, restOfDirective_cons]
      split_ifs with hend
      · exact ⟨h, rfl⟩
      · exact ⟨h, rfl⟩

theorem owed_push (h : f.Sound) (delta m : JsString) :
    (f.push delta).1.Sound ∧ f.owed (delta ++ m) = (f.push delta).2 ++ (f.push delta).1.owed m := by
  induction delta generalizing f with
  | nil => exact ⟨h, rfl⟩
  | cons ch delta ih =>
    obtain ⟨hs, hr⟩ := owed_step h ch (delta ++ m)
    obtain ⟨hs', hr'⟩ := ih hs
    refine ⟨hs', ?_⟩
    rw [cons_append, hr, hr', push, append_assoc]

theorem owed_nil (h : f.Sound) : f.owed [] = f.flush := by
  obtain ⟨mode, held, spanLength⟩ := f
  cases mode with
  | text => exact withoutCitations_nil.trans (show held = [] from h).symm
  | keyword =>
    obtain ⟨keyword, rfl, hk⟩ := h
    obtain ⟨hplain, -⟩ := plain_of_prefix hk
    dsimp only [owed, flush]
    rw [append_nil, withoutCitations_malformed, ← append_nil keyword,
      withoutCitations_plain hplain.no_start, withoutCitations_nil]
    · rw [citationLength, through_end hplain.opens]
      rfl
    · rw [directiveLength, keywordLength, through_end hplain.other]
      rfl
  | citation =>
    obtain ⟨keyword, body, hk, rfl, hstart, hend, -⟩ := h
    have := withoutCitations_body hk hstart hend (m := []) (.inr (.inl rfl))
    rw [append_nil, withoutCitations_nil, append_nil] at this
    dsimp only [owed, flush]
    rw [append_nil, this]
  | other => exact (restOfKeyword_nil _).trans (show held = [] from h).symm
  | directive => exact (restOfDirective_nil _).trans (show held = [] from h).symm

end CitationMarkerFilter

/-- **The filter takes out the citations that are read in a text, and nothing else.** -/
theorem stripCitationMarkers_eq_read (text : JsString) :
    stripCitationMarkers text = withoutCitations text := by
  obtain ⟨hs, hr⟩ := CitationMarkerFilter.owed_push (f := createCitationMarkerFilter) rfl text []
  rw [stripCitationMarkers_eq, ← CitationMarkerFilter.owed_nil hs, ← hr, append_nil]
  rfl

/-! ## What is taken out, and what is left -/

theorem isCitation_of_length {n : ℕ} (h : citationLength l = some n) :
    IsCitation (citationMarkerStart :: l.take n) := by
  obtain ⟨k, hk, h⟩ := bind_eq_some_iff.mp h
  obtain ⟨keyword, c, m, rfl, -, hc, rfl, -⟩ := through_eq_some hk
  rw [take_keyword, Nat.add_sub_cancel, getElem?_append_right le_rfl, Nat.sub_self,
    getElem?_cons_zero] at h
  split_ifs at h with hkeyword hend
  · obtain rfl := some_inj.mp h
    obtain rfl := some_inj.mp hend
    have hlen := (CitationMarkerFilter.plain_of_keyword hkeyword).2
    rw [take_length_add_append, take_succ_cons, take_zero]
    refine ⟨?_, keyword, contains_iff_mem.mp hkeyword, .inl rfl⟩
    have hmax : maxCitationSpanLength = 4096 := rfl
    simp only [length_cons, length_append, length_nil]
    omega
  · obtain ⟨j, hj, rfl⟩ := map_eq_some_iff.mp h
    rw [← drop_drop, drop_left, drop_succ_cons, drop_zero] at hj
    obtain ⟨body, e, rest, rfl, hbody, he, rfl, hle⟩ := through_eq_some hj
    obtain rfl : c = citationMarkerSeparator := by
      rw [Bool.or_eq_true, beq_iff_eq, beq_iff_eq] at hc
      exact hc.resolve_right fun h ↦ hend (congrArg some h)
    obtain rfl := beq_iff_eq.mp he
    rw [add_assoc, take_length_add_append, add_comm 1, take_succ_cons,
      take_length_add_append, take_succ_cons, take_zero]
    refine ⟨?_, keyword, contains_iff_mem.mp hkeyword, .inr ⟨body, fun hm ↦ ?_, rfl⟩⟩
    · simp only [length_cons, length_append, length_nil]
      omega
    · exact absurd (hbody _ hm).2 (by decide)

theorem end_not_mem_body (n : ℕ) (m : JsString) :
    citationMarkerEnd ∉ (m.take (bodyLength n m)).dropLast := by
  induction n generalizing m with
  | zero => exact not_mem_nil
  | succ n ih =>
    cases m with
    | nil => exact not_mem_nil
    | cons c m =>
      rw [bodyLength]
      split_ifs with hc
      · exact not_mem_nil
      · rw [take_succ_cons]
        cases hl : m.take (bodyLength n m) with
        | nil => exact not_mem_nil
        | cons d l =>
          rw [dropLast_cons_cons, mem_cons, not_or, ← hl]
          exact ⟨Ne.symm hc, ih m⟩

theorem bodyLength_le (n : ℕ) (m : JsString) : bodyLength n m ≤ n := by
  induction n generalizing m with
  | zero => exact le_rfl
  | succ n ih =>
    cases m with
    | nil => exact zero_le _
    | cons c m =>
      rw [bodyLength]
      split_ifs
      · exact succ_le_succ (zero_le n)
      · exact succ_le_succ (ih m)

theorem isDirective_of_length {n : ℕ} (h : directiveLength l = some n) :
    IsDirective (citationMarkerStart :: l.take n) := by
  obtain ⟨k, hk, h⟩ := bind_eq_some_iff.mp h
  obtain ⟨keyword, c, m, rfl, hplain, hc, rfl, hle⟩ := through_eq_some hk
  obtain rfl := beq_iff_eq.mp hc
  rw [take_keyword, ← drop_drop, drop_left, drop_succ_cons, drop_zero] at h
  split_ifs at h with hkeyword
  obtain rfl := some_inj.mp h
  have hbody := bodyLength_le (maxCitationSpanLength - 1 - (keyword.length + 1)) m
  rw [add_assoc, take_length_add_append, add_comm 1, take_succ_cons]
  refine ⟨?_, keyword, _, fun d hd ↦ ?_, fun hm ↦ hkeyword (contains_iff_mem.mpr hm),
    end_not_mem_body _ m, rfl⟩
  · simp only [length_cons, length_append, length_take]
    omega
  · obtain ⟨hsep, hother⟩ := hplain d hd
    rw [Bool.or_eq_false_iff] at hother
    rw [isDelimiter, hsep, hother.1, hother.2]
    rfl

theorem citationLength_of_isCitation {span m : JsString}
    (h : IsCitation (citationMarkerStart :: span)) (hp : span <+: m) : citationLength m ≠ none := by
  obtain ⟨hlen, keyword, hk, hspan⟩ := h
  obtain ⟨rest, rfl⟩ := hp
  have hk := contains_iff_mem.mpr hk
  obtain ⟨hplain, hkeyword⟩ := CitationMarkerFilter.plain_of_keyword hk
  have hn : keyword.length < maxCitationSpanLength - 1 := lt_of_le_of_lt hkeyword (by decide)
  rcases hspan with hspan | ⟨body, hbody, hspan⟩
  · rw [(List.cons.inj hspan).2, append_assoc, singleton_append,
      citationLength_end hplain hn, if_pos hk]
    exact some_ne_none _
  · rw [hspan] at hlen
    simp only [length_cons, length_append, length_nil] at hlen
    rw [(List.cons.inj hspan).2, append_assoc, cons_append, append_assoc,
      singleton_append, citationLength_separator hplain hn, if_pos hk, ne_eq,
      map_eq_none_iff]
    exact through_ne_none hbody (by omega) rest

/-- What a text is read as. -/
structure Cleaned (text result : JsString) (tokens : List CitationToken) : Prop where
  source : tokens.flatMap CitationToken.source = text
  /-- The citations are taken out, and nothing else. -/
  kept : tokens.flatMap CitationToken.kept = result
  citations : ∀ span, .citation span ∈ tokens → IsCitation span
  directives : ∀ text, .directive text ∈ tokens → IsDirective text
  /-- A complete span that is left, outside of a directive, has been put together by taking a
  citation out of it. -/
  complete : ∀ before after, tokens = before ++ .unit citationMarkerStart :: after →
    ∀ span, IsCitation span → span <+: citationMarkerStart :: after.flatMap CitationToken.kept →
      ∃ first removed second, after = first ++ .citation removed :: second ∧
        (first.flatMap CitationToken.kept).length + 1 < span.length

/-- What a token is in front of the rest of the text. -/
def CitationToken.Fits : CitationToken → JsString → Prop
  | .citation span, _ => IsCitation span
  | .directive text, _ => IsDirective text
  | .unit c, rest => c = citationMarkerStart → citationLength rest = none

theorem readCitations_cons (c : CodeUnit) (l : JsString) :
    ∃ token rest, readCitations (c :: l) = token :: readCitations rest ∧
      c :: l = token.source ++ rest ∧ token.Fits rest := by
  by_cases hc : c = citationMarkerStart
  · subst hc
    rw [readCitations_start]
    cases hn : citationLength l with
    | some n =>
      refine ⟨_, _, rfl, ?_, isCitation_of_length hn⟩
      rw [CitationToken.source, cons_append, take_append_drop]
    | none =>
      cases hd : directiveLength l with
      | some n =>
        refine ⟨_, _, rfl, ?_, isDirective_of_length hd⟩
        rw [CitationToken.source, cons_append, take_append_drop]
      | none => exact ⟨_, _, rfl, rfl, fun _ ↦ hn⟩
  · exact ⟨_, _, readCitations_unit hc l, rfl, fun h ↦ absurd h hc⟩

variable {before after : List CitationToken}

theorem readCitations_suffix (h : readCitations l = before ++ after) :
    ∃ rest, readCitations rest = after ∧ l = before.flatMap CitationToken.source ++ rest := by
  induction before generalizing l with
  | nil => exact ⟨l, h, rfl⟩
  | cons token before ih =>
    cases l with
    | nil => exact absurd h (by rw [readCitations]; simp)
    | cons c l =>
      obtain ⟨first, rest, hread, hl, -⟩ := readCitations_cons c l
      rw [hread, cons_append] at h
      obtain ⟨rfl, hrest⟩ := List.cons.inj h
      obtain ⟨rest', hread', hl'⟩ := ih hrest
      exact ⟨rest', hread', by rw [hl, hl', flatMap_cons, append_assoc]⟩

theorem readCitations_fits {token : CitationToken} (h : readCitations l = before ++ token :: after) :
    ∃ rest, readCitations rest = after ∧ token.Fits rest := by
  obtain ⟨rest, hread, -⟩ := readCitations_suffix h
  cases rest with
  | nil => exact absurd hread (by rw [readCitations]; simp)
  | cons c rest =>
    obtain ⟨token', rest', hcons, -, hfits⟩ := readCitations_cons c rest
    rw [hcons] at hread
    obtain ⟨rfl, hafter⟩ := List.cons.inj hread
    exact ⟨rest', hafter, hfits⟩

theorem source_readCitations (l : JsString) :
    (readCitations l).flatMap CitationToken.source = l := by
  obtain ⟨rest, hread, hl⟩ := readCitations_suffix (append_nil (readCitations l)).symm
  cases rest with
  | nil => exact (append_nil _).symm.trans hl.symm
  | cons c rest =>
    obtain ⟨token, rest', hcons, -⟩ := readCitations_cons c rest
    rw [hcons] at hread
    nomatch hread

/-- What is left of a text begins like the text, up to the first citation taken out of it. -/
theorem take_kept (tokens : List CitationToken) (n : ℕ) :
    (tokens.flatMap CitationToken.kept).take n <+: tokens.flatMap CitationToken.source ∨
      ∃ first removed second, tokens = first ++ .citation removed :: second ∧
        (first.flatMap CitationToken.kept).length < n := by
  induction tokens generalizing n with
  | nil => exact .inl (by rw [flatMap_nil, take_nil]; exact nil_prefix)
  | cons token tokens ih =>
    have other (hsame : token.kept = token.source) :
        ((token :: tokens).flatMap CitationToken.kept).take n <+:
          (token :: tokens).flatMap CitationToken.source ∨
        ∃ first removed second, token :: tokens = first ++ .citation removed :: second ∧
          (first.flatMap CitationToken.kept).length < n := by
      rcases ih (n - token.source.length) with hp | ⟨first, removed, second, rfl, hlt⟩
      · refine .inl ?_
        rw [flatMap_cons, flatMap_cons, hsame, take_append]
        rcases le_total n token.source.length with hle | hle
        · rw [Nat.sub_eq_zero_of_le hle, take_zero, append_nil]
          exact (List.take_prefix n _).trans (prefix_append _ _)
        · rw [take_of_length_le hle]
          exact (prefix_append_right_inj _).mpr hp
      · refine .inr ⟨token :: first, removed, second, rfl, ?_⟩
        rw [flatMap_cons, length_append, hsame]
        omega
    cases token with
    | citation span =>
      cases n with
      | zero => exact .inl (by rw [take_zero]; exact nil_prefix)
      | succ n => exact .inr ⟨[], span, tokens, rfl, succ_pos n⟩
    | directive text => exact other rfl
    | unit c => exact other rfl

theorem cleaned_readCitations (text : JsString) :
    Cleaned text (withoutCitations text) (readCitations text) where
  source := source_readCitations text
  kept := rfl
  citations span h := by
    obtain ⟨before, after, hsplit⟩ := append_of_mem h
    obtain ⟨_, -, hspan⟩ := readCitations_fits hsplit
    exact hspan
  directives text' h := by
    obtain ⟨before, after, hsplit⟩ := append_of_mem h
    obtain ⟨_, -, htext⟩ := readCitations_fits hsplit
    exact htext
  complete before after hsplit span hspan hp := by
    obtain ⟨rest, rfl, hnone⟩ := readCitations_fits hsplit
    obtain ⟨body, rfl⟩ : ∃ body, span = citationMarkerStart :: body := by
      obtain ⟨-, keyword, -, h | ⟨_, -, h⟩⟩ := hspan
      · exact ⟨_, h⟩
      · exact ⟨_, h⟩
    have hbody := (cons_prefix_cons.mp hp).2
    rcases take_kept (readCitations rest) body.length with hsource | ⟨first, removed, second, hd,
      hlt⟩
    · rw [← prefix_iff_eq_take.mp hbody, source_readCitations] at hsource
      exact absurd (hnone rfl) (citationLength_of_isCitation hspan hsource)
    · exact ⟨first, removed, second, hd, succ_lt_succ hlt⟩

/-- **Only citations are taken out, and in one pass**: the deltas add up to the stripped text, this
is the text without the citations that are read in it, and a complete span that is left, outside of
a directive, was none in the text. -/
theorem stripCitationMarkers_complete (deltas : List JsString) :
    (createCitationMarkerFilter.pushAll deltas).2.flatten ++
        (createCitationMarkerFilter.pushAll deltas).1.flush = stripCitationMarkers deltas.flatten ∧
    Cleaned deltas.flatten (stripCitationMarkers deltas.flatten)
      (readCitations deltas.flatten) := by
  refine ⟨stripCitationMarkers_flatten deltas, ?_⟩
  rw [stripCitationMarkers_eq_read]
  exact cleaned_readCitations _

/-- The pieces of a span around another one are put together. -/
theorem nested_span_is_left : ¬ ∀ text : JsString, ¬ IsCitation (stripCitationMarkers text) := by
  intro h
  refine h ([citationMarkerStart] ++ js "ci" ++ [citationMarkerStart] ++ js "cite" ++
    [citationMarkerEnd] ++ js "te" ++ [citationMarkerEnd]) ⟨by decide +kernel, js "cite", by decide,
      .inl (by decide +kernel)⟩

end Bridge
