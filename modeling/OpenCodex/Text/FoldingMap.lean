import OpenCodex.Text.FoldingElements

/-!
# The map back to the text

The elements of a text lie one behind the other and leave nothing out (`Tiles`).  The map gives for
each unit of the copy the start of the element it was emitted for, and last the end of the text
(`offsetMap`); so it never goes down, and no entry is inside of an element.

What is found in the copy between two places is therefore found in the text between what the map has
for them, provided that the second place is not between the two units of one element
(`OffsetMap.covers`).  There the map has the start of that element, and the element is left out
(`half_of_a_pair`).
-/

set_option autoImplicit false

open List

namespace Text

/-- How much of a text some elements are. -/
def widthOf (es : List Escaped) : ℕ := (es.map Escaped.width).sum

@[simp] theorem widthOf_nil : widthOf [] = 0 := rfl

@[simp] theorem widthOf_cons (e : Escaped) (es : List Escaped) :
    widthOf (e :: es) = e.width + widthOf es := sum_cons

theorem widthOf_append (l m : List Escaped) : widthOf (l ++ m) = widthOf l + widthOf m := by
  rw [widthOf, map_append, sum_append]
  rfl

/-- The elements are what is read of a text, one behind the other, to its end. -/
def Tiles (decodeEscapes : Bool) : List Escaped → JsString → Prop
  | [], l => l = []
  | e :: es, l =>
    (e = nextCharacter decodeEscapes l ∧ e.Fits l) ∧ Tiles decodeEscapes es (l.drop e.width)

variable {decodeEscapes : Bool} {T : FoldTables}

theorem tiles_elementsOf (decodeEscapes : Bool) (l : JsString) :
    Tiles decodeEscapes (elementsOf decodeEscapes l) l := by
  induction hn : l.length using Nat.strong_induction_on generalizing l with
  | _ n ih =>
    by_cases hl : l = []
    · rw [hl, elementsOf_nil]
      exact rfl
    · have hfits := nextCharacter_fits decodeEscapes hl
      have hpos := hfits.pos
      have hlength := length_pos_iff.mpr hl
      rw [elementsOf_of_ne_nil decodeEscapes hl]
      refine ⟨⟨rfl, hfits⟩, ih (l.length - (nextCharacter decodeEscapes l).width) (by omega) _ ?_⟩
      rw [length_drop]

variable {es : List Escaped}

variable {l : JsString}

theorem Tiles.width (h : Tiles decodeEscapes es l) : widthOf es = l.length := by
  induction es generalizing l with
  | nil => rw [show l = [] from h, widthOf_nil, length_nil]
  | cons e es ih =>
    have hle := h.1.2.le
    have hrest := ih h.2
    rw [length_drop] at hrest
    rw [widthOf_cons]
    omega

variable {pre post : List Escaped}

theorem Tiles.suffix (h : Tiles decodeEscapes (pre ++ post) l) :
    Tiles decodeEscapes post (l.drop (widthOf pre)) := by
  induction pre generalizing l with
  | nil => exact h
  | cons e pre ih =>
    rw [widthOf_cons, ← drop_drop]
    exact ih h.2

/-! ## Places -/

variable (i : ℕ)

@[simp] theorem places_nil : places T i [] = [] := rfl

theorem places_append (l m : List Escaped) :
    places T i (l ++ m) = places T i l ++ places T (i + widthOf l) m := by
  induction l generalizing i with
  | nil => rfl
  | cons e l ih => rw [cons_append, places, ih, places, append_assoc, widthOf_cons, Nat.add_assoc]

theorem places_length (es : List Escaped) : (places T i es).length = (copyOf T es).length := by
  induction es generalizing i with
  | nil => rfl
  | cons e es ih => rw [places, length_append, length_replicate, ih, copyOf_cons, length_append]

theorem places_bounds {i p : ℕ} (h : p ∈ places T i es) : i ≤ p ∧ p ≤ i + widthOf es := by
  induction es generalizing i with
  | nil => exact absurd h not_mem_nil
  | cons e es ih =>
    rw [widthOf_cons]
    rcases mem_append.mp h with hhead | hrest
    · rw [eq_of_mem_replicate hhead]
      omega
    · have hbounds := ih hrest
      omega

theorem places_sorted (es : List Escaped) : (places T i es).Pairwise (· ≤ ·) := by
  induction es generalizing i with
  | nil => exact List.Pairwise.nil
  | cons e es ih =>
    refine pairwise_append.mpr ⟨?_, ih _, fun p hp q hq ↦ ?_⟩
    · exact pairwise_replicate.mpr (.inr le_rfl)
    · rw [eq_of_mem_replicate hp]
      exact (Nat.le_add_right _ _).trans (places_bounds hq).1

/-! ## The map -/

/-- The unit of the copy comes from the element that starts at a place of the text. -/
def Emitted (T : FoldTables) (decodeEscapes : Bool) (value : JsString) (k start : ℕ)
    (e : Escaped) : Prop :=
  ∃ pre post, elementsOf decodeEscapes value = pre ++ e :: post ∧ start = widthOf pre ∧
    (copyOf T pre).length ≤ k ∧ k < (copyOf T pre).length + (T.emitted e.ch).length

/-- A place of the copy that is not between two units of one element. -/
def Between (T : FoldTables) (decodeEscapes : Bool) (value : JsString) (b : ℕ) : Prop :=
  ∃ pre post, elementsOf decodeEscapes value = pre ++ post ∧ (copyOf T pre).length = b

/-- What a map says of a text and its copy. -/
structure OffsetMap (T : FoldTables) (decodeEscapes : Bool) (value folded : JsString)
    (map : List ℕ) : Prop where
  /-- An entry for every unit, and one more. -/
  length : map.length = folded.length + 1
  last : map[folded.length]? = some value.length
  sorted : map.Pairwise (· ≤ ·)
  /-- Every unit was emitted for an element, which is what stands in the text at the place that the
  map has for the unit. -/
  starts : ∀ k < folded.length, ∃ start e, map[k]? = some start ∧
    Emitted T decodeEscapes value k start e ∧ e = nextCharacter decodeEscapes (value.drop start) ∧
    1 ≤ e.width ∧ e.width ≤ 34 ∧ start + e.width ≤ value.length
  /-- What lies between two places of the copy comes from between what the map has for them. -/
  covers : ∀ a b k start e, a ≤ k → k < b → Between T decodeEscapes value b →
    Emitted T decodeEscapes value k start e →
    ∃ s t, map[a]? = some s ∧ map[b]? = some t ∧ s ≤ start ∧ start + e.width ≤ t

variable {k : ℕ}

theorem exists_emitted (h : k < (copyOf T es).length) :
    ∃ pre e post, es = pre ++ e :: post ∧ (copyOf T pre).length ≤ k ∧
      k < (copyOf T pre).length + (T.emitted e.ch).length := by
  induction es generalizing k with
  | nil => exact absurd h (Nat.not_lt_zero k)
  | cons e es ih =>
    by_cases hk : k < (T.emitted e.ch).length
    · exact ⟨[], e, es, rfl, Nat.zero_le k, by simpa using hk⟩
    · rw [copyOf_cons, length_append] at h
      obtain ⟨pre, e', post, rfl, hle, hlt⟩ := ih (k := k - (T.emitted e.ch).length) (by omega)
      refine ⟨e :: pre, e', post, rfl, ?_, ?_⟩ <;> rw [copyOf_cons, length_append] <;> omega

variable {e : Escaped}

theorem places_getElem? (hle : (copyOf T pre).length ≤ k)
    (hlt : k < (copyOf T pre).length + (T.emitted e.ch).length) :
    (places T 0 (pre ++ e :: post))[k]? = some (widthOf pre) := by
  rw [places_append, getElem?_append_right (by rwa [places_length]), places_length, places,
    getElem?_append_left (by rw [length_replicate]; omega), Nat.zero_add,
    getElem?_replicate_of_lt (by omega)]

theorem boundary_le (value : JsString) (h : elementsOf decodeEscapes value = pre ++ post) :
    ∃ t, (places T 0 (elementsOf decodeEscapes value) ++ [value.length])[
      (copyOf T pre).length]? = some t ∧ widthOf pre ≤ t := by
  have hwidth := (tiles_elementsOf decodeEscapes value).width
  rw [h, widthOf_append] at hwidth
  rw [h, places_append, append_assoc,
    getElem?_append_right (by rw [places_length]), places_length, Nat.sub_self, Nat.zero_add]
  cases hp : places T (widthOf pre) post with
  | nil => exact ⟨value.length, rfl, by omega⟩
  | cons t rest => exact ⟨t, rfl, (places_bounds (hp ▸ mem_cons_self)).1⟩

theorem getElem?_le {l : List ℕ} (h : l.Pairwise (· ≤ ·)) {a s t : ℕ} (hle : a ≤ k)
    (hs : l[a]? = some s) (ht : l[k]? = some t) : s ≤ t := by
  rcases hle.eq_or_lt with rfl | hlt
  · exact (Option.some_inj.mp (hs.symm.trans ht)).le
  · obtain ⟨ha, rfl⟩ := List.getElem?_eq_some_iff.mp hs
    obtain ⟨hk, rfl⟩ := List.getElem?_eq_some_iff.mp ht
    exact pairwise_iff_getElem.mp h a k ha hk hlt

/-- An element that has emitted something before a place between elements lies before it. -/
theorem prefix_of_emitted {before after : List Escaped} (h : pre ++ e :: post = before ++ after)
    (hle : (copyOf T pre).length ≤ k) (hlt : k < (copyOf T before).length) :
    ∃ mid, before = pre ++ e :: mid := by
  rcases append_eq_append_iff.mp h with ⟨mid, rfl, hmid⟩ | ⟨mid, rfl, -⟩
  · cases mid with
    | nil =>
      rw [append_nil] at hlt
      omega
    | cons e' mid =>
      obtain ⟨rfl, -⟩ := cons_eq_cons.mp hmid
      exact ⟨mid, rfl⟩
  · rw [copyOf_append, length_append] at hle
    omega

/-- **The map of a text.** -/
theorem offsetMap (T : FoldTables) (value : JsString) (decodeEscapes : Bool) :
    OffsetMap T decodeEscapes value (foldForMatching T value decodeEscapes).1
      (foldForMatching T value decodeEscapes).2 := by
  rw [foldForMatching_eq]
  have htiles := tiles_elementsOf decodeEscapes value
  have hwidth := htiles.width
  have hsorted : (places T 0 (elementsOf decodeEscapes value) ++ [value.length]).Pairwise
      (· ≤ ·) := by
    refine pairwise_append.mpr ⟨places_sorted _ _, pairwise_singleton _ _, ?_⟩
    intro p hp q hq
    rw [mem_singleton.mp hq]
    have hbounds := (places_bounds hp).2
    omega
  refine ⟨?_, ?_, hsorted, ?_, ?_⟩
  · rw [length_append, places_length, length_singleton]
  · rw [getElem?_append_right (by rw [places_length]), places_length, Nat.sub_self]
    rfl
  · intro k hk
    obtain ⟨pre, e, post, hes, hle, hlt⟩ := exists_emitted hk
    have hget : (places T 0 (elementsOf decodeEscapes value))[k]? = some (widthOf pre) := by
      rw [hes]
      exact places_getElem? hle hlt
    rw [hes] at htiles
    obtain ⟨⟨hnext, hfits⟩, -⟩ := htiles.suffix
    have hfit := hfits.le
    rw [hes, widthOf_append, widthOf_cons] at hwidth
    refine ⟨widthOf pre, e, ?_, ⟨pre, post, hes, rfl, hle, hlt⟩, hnext, hfits.pos, hfits.small,
      by omega⟩
    rw [getElem?_append_left (by rwa [places_length]), hget]
  · rintro a b k start e hak hkb ⟨before, after, hboth, rfl⟩ ⟨pre, post, hes, rfl, hle, hlt⟩
    obtain ⟨mid, rfl⟩ := prefix_of_emitted (hes.symm.trans hboth) hle hkb
    obtain ⟨t, ht, hbound⟩ := boundary_le value hboth
    rw [widthOf_append, widthOf_cons] at hbound
    have hk : (places T 0 (elementsOf decodeEscapes value) ++ [value.length])[k]? =
        some (widthOf pre) := by
      rw [getElem?_append_left, hes, places_getElem? hle hlt]
      rw [places_length, hes, copyOf_append, copyOf_cons, length_append, length_append]
      omega
    have ha : a < (places T 0 (elementsOf decodeEscapes value) ++ [value.length]).length :=
      hak.trans_lt (List.getElem?_eq_some_iff.mp hk).1
    exact ⟨_, t, getElem?_eq_getElem ha, ht,
      getElem?_le hsorted hak (getElem?_eq_getElem ha) hk, by omega⟩

/-- A character of two units, of which only the first is found: the map has the same place for both
ends of what was found. -/
theorem half_of_a_pair :
    foldForMatching bareTables [0xd83d, 0xde00] true = ([0xd83d, 0xde00], [0, 0, 2]) ∧
    Emitted bareTables true [0xd83d, 0xde00] 0 0 ⟨[0xd83d, 0xde00], 2⟩ ∧
    ¬ ∃ s t, (foldForMatching bareTables [0xd83d, 0xde00] true).2[0]? = some s ∧
      (foldForMatching bareTables [0xd83d, 0xde00] true).2[1]? = some t ∧ s ≤ 0 ∧ 0 + 2 ≤ t := by
  have hfold : foldForMatching bareTables [0xd83d, 0xde00] true =
      ([0xd83d, 0xde00], [0, 0, 2]) := by decide +kernel
  refine ⟨hfold, ⟨[], [], by decide +kernel, rfl, Nat.zero_le 0, by decide +kernel⟩, ?_⟩
  rintro ⟨s, t, -, ht, -, hle⟩
  obtain rfl := Option.some_inj.mp ht
  omega

end Text
