import OpenCodex.Text.Folding

/-!
# The elements of a text

Folding reads a text one element after another, an element being a character or an escape, and it
neither skips a unit nor reads past the end: an element is at least one unit wide and at most as wide
as what is left (`nextCharacter_fits`).  Which elements there are is a matter of the text alone; the
Unicode tables only say what is emitted for each.  So the copy and its map are both read off the list
of the elements (`foldForMatching_eq`).
-/

set_option autoImplicit false

open List Option Nat

namespace Text

/-- The elements from a place on. -/
def elements (decodeEscapes : Bool) : ℕ → JsString → List Escaped
  | 0, _ => []
  | turns + 1, l =>
    if l = [] then []
    else
      let next := nextCharacter decodeEscapes l
      next :: elements decodeEscapes turns (l.drop next.width)

/-- Tables by which every character is visible and stands for itself. -/
def bareTables : FoldTables := ⟨fun _ ↦ false, id, id⟩

/-- What the copy has for a character: nothing, if it is invisible. -/
def FoldTables.emitted (T : FoldTables) (ch : JsString) : JsString :=
  if T.invisibleFormat ch then [] else T.emittedText ch

/-- What the map has for the elements from a place on. -/
def places (T : FoldTables) : ℕ → List Escaped → List ℕ
  | _, [] => []
  | i, e :: es => List.replicate (T.emitted e.ch).length i ++ places T (i + e.width) es

/-- The copy of some elements. -/
def copyOf (T : FoldTables) (es : List Escaped) : JsString := es.flatMap fun e ↦ T.emitted e.ch

variable (T : FoldTables)

@[simp] theorem copyOf_nil : copyOf T [] = [] := rfl

@[simp] theorem copyOf_cons (e : Escaped) (es : List Escaped) :
    copyOf T (e :: es) = T.emitted e.ch ++ copyOf T es := flatMap_cons

theorem copyOf_append (l m : List Escaped) :
    copyOf T (l ++ m) = copyOf T l ++ copyOf T m := flatMap_append

variable (decodeEscapes : Bool)

theorem elements_nil (turns : ℕ) : elements decodeEscapes turns [] = [] := by
  cases turns with
  | zero => rfl
  | succ turns => exact if_pos rfl

variable {l : JsString}

theorem elements_succ (turns : ℕ) (h : l ≠ []) :
    elements decodeEscapes (turns + 1) l = nextCharacter decodeEscapes l ::
      elements decodeEscapes turns (l.drop (nextCharacter decodeEscapes l).width) := if_neg h

theorem foldLoop_eq (decodeEscapes : Bool) (value : JsString) (turns i : ℕ) :
    foldLoop T decodeEscapes value turns i =
      (copyOf T (elements decodeEscapes turns (value.drop i)),
        places T i (elements decodeEscapes turns (value.drop i))) := by
  induction turns generalizing i with
  | zero => rfl
  | succ turns ih =>
    rw [foldLoop]
    by_cases hi : i < value.length
    · have hne : value.drop i ≠ [] := by rwa [Ne, drop_eq_nil_iff, not_le]
      rw [if_pos hi, elements_succ _ _ hne, copyOf_cons, places]
      dsimp only
      rw [ih, drop_drop]
      by_cases hv : T.invisibleFormat (nextCharacter decodeEscapes (value.drop i)).ch = true
      · rw [if_pos hv, FoldTables.emitted, if_pos hv]
        rfl
      · rw [if_neg hv, FoldTables.emitted, if_neg hv]
    · rw [if_neg hi, drop_eq_nil_of_le (Nat.le_of_not_lt hi), elements_nil]
      rfl

/-! ## The width of an element -/

theorem codePoint_length (h : l ≠ []) :
    0 < (codePoint l).length ∧ (codePoint l).length ≤ l.length ∧ (codePoint l).length ≤ 2 := by
  match l, h with
  | [_], _ => exact ⟨one_pos, le_rfl, one_le_ofNat⟩
  | high :: low :: rest, _ =>
    rw [codePoint]
    split_ifs
    · simp
    · simp

theorem jsonUnit_length {n : ℕ} (h : jsonUnit l = some n) : 6 ≤ l.length := by
  match l with
  | _ :: _ :: _ :: _ :: _ :: _ :: rest => simp
  | [] | [_] | [_, _] | [_, _, _] | [_, _, _, _] | [_, _, _, _, _] => simp [jsonUnit] at h

/-- An element of a text that begins with it is within the text. -/
structure Escaped.Fits (e : Escaped) (l : JsString) : Prop where
  pos : 0 < e.width
  le : e.width ≤ l.length
  small : e.width ≤ 34

variable {e : Escaped}

theorem jsonEscape_fits (h : jsonEscape l = some e) : e.Fits l := by
  obtain ⟨high, hhigh, rfl⟩ := map_eq_some_iff.mp h
  have hlength := jsonUnit_length hhigh
  have hone : Escaped.Fits ⟨[UInt16.ofNat high], 6⟩ l := ⟨succ_pos 5, hlength, le_add_left 6 28⟩
  cases hlow : jsonUnit (l.drop 6) with
  | none => exact hone
  | some low =>
    have hlength' := jsonUnit_length hlow
    rw [length_drop] at hlength'
    dsimp only
    split_ifs
    · exact ⟨succ_pos 11, show 12 ≤ _ by omega, le_add_left 12 22⟩
    · exact hone

theorem percentBytes_length (n : ℕ) (l : JsString) :
    (percentBytes n l).length ≤ n ∧ 3 * (percentBytes n l).length ≤ l.length := by
  fun_induction percentBytes n l with
  | case1 n a b l x y ha hb ih =>
    simp only [length_cons]
    omega
  | case2 | case3 | case4 => exact ⟨zero_le _, zero_le _⟩

theorem percentEscape_fits (h : percentEscape l = some e) : e.Fits l := by
  obtain ⟨hwindow, hlength⟩ := percentBytes_length percentWindow l
  rw [percentEscape] at h
  split at h
  · exact absurd h nofun
  · rename_i byte bytes hbytes
    rw [hbytes] at hlength hwindow
    rw [percentWindow] at hwindow
    split at h
    · rename_i point points hpoints
      obtain rfl := some_inj.mp h
      have hsize := congrArg List.length (Utf8.decodeStrict_eq_some hpoints)
      rw [flatMap_cons, length_append] at hsize
      have hpos := length_pos_iff.mpr (Utf8.encode_ne_nil point)
      exact ⟨show 0 < _ * 3 by omega, show _ * 3 ≤ _ by omega, show _ * 3 ≤ _ by omega⟩
    · exact absurd h nofun
    · obtain rfl := some_inj.mp h
      rw [length_cons] at hlength
      exact ⟨succ_pos 2, show 3 ≤ _ by omega, le_add_left 3 31⟩

theorem xmlEscape_fits (h : xmlEscape l = some e) : e.Fits l := by
  match l with
  | [] | [_] => exact absurd h nofun
  | amp :: hash :: l =>
    rw [xmlEscape] at h
    by_cases hstart : amp = 0x26 ∧ hash = 0x23
    swap
    · rw [if_neg hstart] at h
      exact absurd h nofun
    rw [if_pos hstart] at h
    dsimp only at h
    by_cases hhex : l.head? = some 0x78
    · simp only [hhex, if_true] at h
      split_ifs at h with hcode
      obtain rfl := some_inj.mp h
      obtain ⟨-, hsmall, hend, -⟩ := hcode
      have hlt := (List.getElem?_eq_some_iff.mp hend).1
      rw [length_drop] at hlt
      exact ⟨succ_pos _, show _ + 4 ≤ l.length + 2 by omega, show _ + 4 ≤ 34 by omega⟩
    · simp only [hhex, if_false] at h
      split_ifs at h with hcode
      obtain rfl := some_inj.mp h
      obtain ⟨-, hsmall, hend, -⟩ := hcode
      have hlt := (List.getElem?_eq_some_iff.mp hend).1
      exact ⟨succ_pos _, show _ + 3 ≤ l.length + 2 by omega, show _ + 3 ≤ 34 by omega⟩

theorem namedEscape_fits (h : namedEscape l = some e) : e.Fits l := by
  match l with
  | [] => exact absurd h nofun
  | amp :: l =>
    rw [namedEscape] at h
    split_ifs at h with hname
    obtain rfl := some_inj.mp h
    obtain ⟨-, -, -, hsmall, hend⟩ := hname
    have hlt := (List.getElem?_eq_some_iff.mp hend).1
    exact ⟨succ_pos _, show _ + 2 ≤ l.length + 1 by omega, show _ + 2 ≤ 34 by omega⟩

theorem decodeEscape_fits (h : decodeEscape l = some e) : e.Fits l := by
  rcases or_eq_some_iff.mp h with hjson | ⟨-, h⟩
  · exact jsonEscape_fits hjson
  rcases or_eq_some_iff.mp h with hpercent | ⟨-, h⟩
  · exact percentEscape_fits hpercent
  rcases or_eq_some_iff.mp h with hxml | ⟨-, hnamed⟩
  · exact xmlEscape_fits hxml
  · exact namedEscape_fits hnamed

theorem nextCharacter_eq (l : JsString) :
    decodeEscapes = true ∧ decodeEscape l = some (nextCharacter decodeEscapes l) ∨
      nextCharacter decodeEscapes l = ⟨codePoint l, (codePoint l).length⟩ := by
  rw [nextCharacter]
  split_ifs with h
  · cases hd : decodeEscape l with
    | none => exact .inr rfl
    | some e => exact .inl ⟨h, rfl⟩
  · exact .inr rfl

/-- **An element is within the text**: it is no less than one unit and no more than what is left. -/
theorem nextCharacter_fits (h : l ≠ []) : (nextCharacter decodeEscapes l).Fits l := by
  rcases nextCharacter_eq decodeEscapes l with ⟨-, hescape⟩ | hplain
  · exact decodeEscape_fits hescape
  · obtain ⟨hpos, hle, hsmall⟩ := codePoint_length h
    rw [hplain]
    exact ⟨hpos, hle, hsmall.trans (by decide)⟩

/-! ## All elements -/

theorem elements_enough {turns : ℕ} (h : l.length ≤ turns) :
    elements decodeEscapes turns l = elements decodeEscapes l.length l := by
  induction turns using Nat.strong_induction_on generalizing l with
  | _ turns ih =>
    by_cases hl : l = []
    · rw [hl, elements_nil, elements_nil]
    have hfits := nextCharacter_fits decodeEscapes hl
    have hpos := hfits.pos
    obtain ⟨n, hn⟩ := exists_eq_succ_of_ne_zero (fun h ↦ hl (length_eq_zero_iff.mp h))
    obtain ⟨k, rfl⟩ := exists_eq_succ_of_ne_zero (show turns ≠ 0 by omega)
    have hdrop : (l.drop (nextCharacter decodeEscapes l).width).length ≤ n := by
      rw [length_drop]
      omega
    rw [hn, succ_eq_add_one, succ_eq_add_one, elements_succ _ _ hl, elements_succ _ _ hl,
      ih k (lt_succ_self k) (hdrop.trans (by omega)), ih n (by omega) hdrop]

/-- The elements of a text. -/
def elementsOf (decodeEscapes : Bool) (l : JsString) : List Escaped :=
  elements decodeEscapes l.length l

@[simp] theorem elementsOf_nil : elementsOf decodeEscapes [] = [] := rfl

theorem elementsOf_of_ne_nil (h : l ≠ []) :
    elementsOf decodeEscapes l = nextCharacter decodeEscapes l ::
      elementsOf decodeEscapes (l.drop (nextCharacter decodeEscapes l).width) := by
  have hpos := (nextCharacter_fits decodeEscapes h).pos
  obtain ⟨n, hn⟩ := exists_eq_succ_of_ne_zero (fun h' ↦ h (length_eq_zero_iff.mp h'))
  rw [elementsOf, hn, succ_eq_add_one, elements_succ _ _ h, elements_enough, elementsOf]
  rw [length_drop]
  omega

/-- **The copy and its map**, from the elements. -/
theorem foldForMatching_eq (value : JsString) (decodeEscapes : Bool) :
    foldForMatching T value decodeEscapes = (copyOf T (elementsOf decodeEscapes value),
        places T 0 (elementsOf decodeEscapes value) ++ [value.length]) := by
  rw [foldForMatching, foldLoop_eq]
  rfl

end Text
