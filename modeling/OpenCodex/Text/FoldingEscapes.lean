import OpenCodex.Text.FoldingElements

/-!
# Escapes and the view

A character of a text may be written as itself, as percent escapes of its UTF-8 bytes, or as a JSON
escape, and the view of the text should be the same: an escape is an alias, not decoration.

For JSON escapes it is.  For percent escapes the decoder looks at no more than eight bytes at a
time, and where these end inside of a character, no character is decoded but one byte.  So what is
seen depends on where the characters lie among the bytes: `Aligned` says where they may lie, and the
view is the same exactly then (`foldForMatching_written_iff`).  Three wide letters in a row are
enough to hide the first of them (`three_wide_letters`).
-/

set_option autoImplicit false

open List Option Nat

namespace Text

open Json (hexDigit?)
open Utf8 (Scalar encode unitsOf decodeStrict)

/-! ## Ways of writing a character -/

/-- How a character is written; an escape has hexadecimal digits of either case. -/
inductive Spelling where
  | plain
  | percent (upper : ℕ → Bool)
  | json (upper : ℕ → Bool)

/-- A character that begins no escape, and how it is written. -/
structure Written where
  point : ℕ
  spelling : Spelling
  scalar : Scalar point
  /-- It is no `%`, no `&` and no backslash. -/
  starts : point ≠ 0x25 ∧ point ≠ 0x26 ∧ point ≠ 0x5c

def hexUnit (upper : Bool) (d : ℕ) : CodeUnit :=
  UInt16.ofNat (d + if d < 10 then 0x30 else if upper then 0x37 else 0x57)

/-- `%XX` for every byte. -/
def percentUnits (upper : ℕ → Bool) : List UInt8 → JsString
  | [] => []
  | b :: bytes =>
    0x25 :: hexUnit (upper 0) (b.toNat / 16) :: hexUnit (upper 1) (b.toNat % 16) ::
      percentUnits (fun n ↦ upper (n + 2)) bytes

/-- `\uXXXX` for every unit. -/
def jsonUnits (upper : ℕ → Bool) : JsString → JsString
  | [] => []
  | c :: text =>
    0x5c :: 0x75 :: hexUnit (upper 0) (c.toNat / 4096) :: hexUnit (upper 1) (c.toNat / 256 % 16) ::
      hexUnit (upper 2) (c.toNat / 16 % 16) :: hexUnit (upper 3) (c.toNat % 16) ::
        jsonUnits (fun n ↦ upper (n + 4)) text

def Written.units (w : Written) : JsString :=
  match w.spelling with
  | .plain => unitsOf w.point
  | .percent upper => percentUnits upper (encode w.point)
  | .json upper => jsonUnits upper (unitsOf w.point)

/-- A text as it is written. -/
def written (ws : List Written) : JsString := ws.flatMap Written.units

/-- The text itself. -/
def plainText (ws : List Written) : JsString := ws.flatMap fun w ↦ unitsOf w.point

@[simp] theorem written_nil : written [] = [] := rfl

@[simp] theorem written_cons (w : Written) (ws : List Written) :
    written (w :: ws) = w.units ++ written ws := flatMap_cons

@[simp] theorem plainText_cons (w : Written) (ws : List Written) :
    plainText (w :: ws) = unitsOf w.point ++ plainText ws := flatMap_cons

/-- The same character, as itself. -/
def Written.plainly (w : Written) : Written := { w with spelling := .plain }

theorem written_plainly (ws : List Written) : written (ws.map Written.plainly) = plainText ws := by
  rw [written, flatMap_map]
  rfl

/-! ## Where characters may lie -/

/-- The characters at the head that are written in percent escapes. -/
def percentRun : List Written → List ℕ
  | [] => []
  | w :: ws =>
    match w.spelling with
    | .percent _ => w.point :: percentRun ws
    | _ => []

/-- So many bytes hold only whole characters of these, in order; or all of them. -/
def fills : ℕ → List ℕ → Bool
  | _, [] => true
  | room, p :: points =>
    room = 0 || ((encode p).length ≤ room && fills (room - (encode p).length) points)

/-- From every character of several bytes on, what the decoder looks at are whole characters. -/
def Aligned : List Written → Prop
  | [] => True
  | w :: ws =>
    (percentRun (w :: ws) ≠ [] → (encode w.point).length ≠ 1 →
      fills percentWindow (percentRun (w :: ws)) = true) ∧ Aligned ws

/-! ## Hexadecimal digits -/

theorem hexDigit?_hexUnit (upper : Bool) {d : ℕ} (h : d < 16) :
    hexDigit? (hexUnit upper d) = some d := by
  revert d
  cases upper <;> decide

variable (upper : ℕ → Bool)

theorem jsonUnit_jsonUnits (c : CodeUnit) (text l : JsString) :
    jsonUnit (jsonUnits upper (c :: text) ++ l) = some c.toNat := by
  have hlt := c.toNat_lt
  simp only [jsonUnits, cons_append, jsonUnit, and_self, if_true]
  rw [hexDigit?_hexUnit _ (by omega), hexDigit?_hexUnit _ (by omega),
    hexDigit?_hexUnit _ (by omega), hexDigit?_hexUnit _ (by omega)]
  simp only [Option.some.injEq]
  omega

theorem percentBytes_units (bytes : List UInt8) (n : ℕ) (l : JsString) :
    percentBytes n (percentUnits upper bytes ++ l) =
      bytes.take n ++ percentBytes (n - bytes.length) l := by
  induction bytes generalizing n upper with
  | nil => simp [percentUnits]
  | cons b bytes ih =>
    cases n with
    | zero => simp [percentBytes]
    | succ n =>
      have hlt := b.toNat_lt
      simp only [percentUnits, cons_append, percentBytes, if_true]
      rw [hexDigit?_hexUnit _ (by omega), hexDigit?_hexUnit _ (by omega)]
      simp only [take_succ_cons, cons_append, length_cons, Nat.add_sub_add_right]
      rw [ih, div_add_mod', UInt8.ofNat_toNat]

variable {l : JsString}

theorem percentBytes_of_ne {n : ℕ} (h : l.head? ≠ some 0x25) : percentBytes n l = [] := by
  fun_cases percentBytes n l with
  | case1 => exact absurd rfl h
  | case2 | case3 | case4 => rfl

/-! ## The units of a character -/

variable {p : ℕ}

theorem unitsOf_pair (h : Scalar p) (hp : ¬p < 0x10000) :
    ∃ high low : CodeUnit, unitsOf p = [high, low] ∧ 0xd800 ≤ high.toNat ∧ high.toNat ≤ 0xdbff ∧
      0xdc00 ≤ low.toNat ∧ low.toNat ≤ 0xdfff := by
  have hlt := h.1
  refine ⟨_, _, if_neg hp, ?_⟩
  have hsize : UInt16.size = 65536 := rfl
  rw [UInt16.toNat_ofNat_of_lt' (by omega), UInt16.toNat_ofNat_of_lt' (by omega)]
  omega

theorem unitsOf_one (h : Scalar p) (hp : p < 0x10000) :
    ∃ c : CodeUnit, unitsOf p = [c] ∧ c.toNat = p ∧ ¬(0xd800 ≤ c.toNat ∧ c.toNat ≤ 0xdbff) := by
  have hnot := h.2
  refine ⟨_, if_pos hp, UInt16.toNat_ofNat_of_lt' (by omega), ?_⟩
  rw [UInt16.toNat_ofNat_of_lt' (by omega)]
  omega

theorem codePoint_unitsOf (h : Scalar p) (l : JsString) :
    codePoint (unitsOf p ++ l) = unitsOf p := by
  by_cases hp : p < 0x10000
  · obtain ⟨c, hc, -, hnot⟩ := unitsOf_one h hp
    rw [hc]
    match l with
    | [] => rfl
    | d :: l => exact if_neg fun h ↦ hnot ⟨h.1, h.2.1⟩
  · obtain ⟨high, low, hpair, hrange⟩ := unitsOf_pair h hp
    rw [hpair]
    exact if_pos hrange

theorem jsonEscape_jsonUnits (h : Scalar p) (upper : ℕ → Bool) (l : JsString) :
    jsonEscape (jsonUnits upper (unitsOf p) ++ l) =
      some ⟨unitsOf p, (jsonUnits upper (unitsOf p)).length⟩ := by
  by_cases hp : p < 0x10000
  · obtain ⟨c, hc, -, hnot⟩ := unitsOf_one h hp
    rw [hc, jsonEscape, jsonUnit_jsonUnits, map_some]
    rw [UInt16.ofNat_toNat]
    split
    · rw [if_neg fun h ↦ hnot ⟨h.1, h.2.1⟩]
      rfl
    · rfl
  · obtain ⟨high, low, hpair, hrange⟩ := unitsOf_pair h hp
    rw [hpair, jsonEscape, jsonUnit_jsonUnits, map_some]
    have hdrop : (jsonUnits upper [high, low] ++ l).drop 6 =
        jsonUnits (fun n ↦ upper (n + 4)) [low] ++ l := rfl
    rw [hdrop, jsonUnit_jsonUnits]
    dsimp only
    rw [if_pos hrange, UInt16.ofNat_toNat, UInt16.ofNat_toNat]
    rfl

/-! ## What stands at the head of what is written -/

theorem decodeEscape_of_ne {c : CodeUnit} (hpercent : c ≠ 0x25) (hamp : c ≠ 0x26) (hback : c ≠ 0x5c)
    (l : JsString) : decodeEscape (c :: l) = none := by
  have hjson : jsonUnit (c :: l) = none := by
    match l with
    | _ :: _ :: _ :: _ :: _ :: _ => exact if_neg fun h ↦ hback h.1
    | [] | [_] | [_, _] | [_, _, _] | [_, _, _, _] => rfl
  have hxml : xmlEscape (c :: l) = none := by
    match l with
    | [] => rfl
    | _ :: _ => exact if_neg fun h ↦ hamp h.1
  have hnamed : namedEscape (c :: l) = none := if_neg fun h ↦ hamp h.1
  have hbytes : percentBytes percentWindow (c :: l) = [] :=
    percentBytes_of_ne fun h ↦ hpercent (some_inj.mp h)
  rw [decodeEscape, jsonEscape, hjson, percentEscape, hbytes, hxml, hnamed]
  rfl

theorem unitsOf_head (h : Scalar p) (hp : p ≠ 0x25 ∧ p ≠ 0x26 ∧ p ≠ 0x5c) :
    ∃ (c : CodeUnit) (rest : JsString), unitsOf p = c :: rest ∧ c ≠ 0x25 ∧ c ≠ 0x26 ∧ c ≠ 0x5c := by
  have hne {c : CodeUnit} (n : CodeUnit) (h : c.toNat ≠ n.toNat) : c ≠ n := fun he ↦ h (by rw [he])
  by_cases hlt : p < 0x10000
  · obtain ⟨c, hc, hnat, -⟩ := unitsOf_one h hlt
    refine ⟨c, [], hc, hne _ ?_, hne _ ?_, hne _ ?_⟩ <;> rw [hnat]
    exacts [hp.1, hp.2.1, hp.2.2]
  · obtain ⟨high, low, hpair, hhigh, -⟩ := unitsOf_pair h hlt
    refine ⟨high, [low], hpair, hne _ ?_, hne _ ?_, hne _ ?_⟩
    · change _ ≠ 0x25
      omega
    · change _ ≠ 0x26
      omega
    · change _ ≠ 0x5c
      omega

theorem percentBytes_written (n : ℕ) (ws : List Written) :
    percentBytes n (written ws) = ((percentRun ws).flatMap encode).take n := by
  induction ws generalizing n with
  | nil => exact (percentBytes_of_ne (by simp)).trans take_nil.symm
  | cons w ws ih =>
    obtain ⟨point, spelling, hscalar, hstarts⟩ := w
    rw [written_cons]
    cases spelling with
    | plain =>
      obtain ⟨c, rest, hc, hpercent, -⟩ := unitsOf_head hscalar hstarts
      simp only [Written.units, percentRun, hc, flatMap_nil, take_nil]
      exact percentBytes_of_ne fun h ↦ hpercent (some_inj.mp h)
    | percent upper =>
      simp only [Written.units, percentRun, flatMap_cons]
      rw [percentBytes_units, ih, take_append]
    | json upper =>
      simp only [Written.units, percentRun, flatMap_nil, take_nil]
      obtain ⟨c, rest, hc, -⟩ := unitsOf_head hscalar hstarts
      rw [hc]
      exact percentBytes_of_ne fun h ↦ absurd (some_inj.mp h) (by decide)

theorem scalar_percentRun (ws : List Written) : ∀ p ∈ percentRun ws, Scalar p := by
  induction ws with
  | nil => exact nofun
  | cons w ws ih =>
    obtain ⟨point, spelling, hscalar, hstarts⟩ := w
    cases spelling with
    | plain | json => exact nofun
    | percent => exact forall_mem_cons.mpr ⟨hscalar, ih⟩

/-! ## Filling a window -/

variable {points : List ℕ}

theorem take_fills {room : ℕ} (h : fills room points = true) :
    ∃ k, (points.flatMap encode).take room = (points.take k).flatMap encode ∧
      (0 < room → points ≠ [] → 0 < k) := by
  induction points generalizing room with
  | nil => exact ⟨0, by simp, fun _ h ↦ absurd rfl h⟩
  | cons p points ih =>
    by_cases hroom : room = 0
    · exact ⟨0, by simp [hroom], fun h ↦ absurd hroom (ne_of_gt h)⟩
    rw [fills, Bool.or_eq_true, decide_eq_true_eq, Bool.and_eq_true, decide_eq_true_eq] at h
    obtain ⟨hle, hfills⟩ := h.resolve_left hroom
    obtain ⟨k, hk, -⟩ := ih hfills
    refine ⟨k + 1, ?_, fun _ _ ↦ succ_pos k⟩
    rw [flatMap_cons, take_append, take_of_length_le hle, hk, take_succ_cons, flatMap_cons]

theorem take_not_fills {room : ℕ} (h : ¬fills room points = true) :
    ∃ k p l m, (points.flatMap encode).take room = (points.take k).flatMap encode ++ l ∧
      p ∈ points ∧ encode p = l ++ m ∧ l ≠ [] ∧ m ≠ [] := by
  induction points generalizing room with
  | nil => exact absurd rfl h
  | cons p points ih =>
    rw [fills, Bool.or_eq_true, decide_eq_true_eq, Bool.and_eq_true, decide_eq_true_eq, not_or,
      not_and] at h
    obtain ⟨hroom, h⟩ := h
    rw [flatMap_cons, take_append]
    by_cases hle : (encode p).length ≤ room
    · obtain ⟨k, q, l, m, htake, hq, hencode, hl, hm⟩ := ih (h hle)
      refine ⟨k + 1, q, l, m, ?_, mem_cons_of_mem _ hq, hencode, hl, hm⟩
      rw [take_of_length_le hle, htake, take_succ_cons, flatMap_cons, append_assoc]
    · refine ⟨0, p, (encode p).take room, (encode p).drop room, ?_, mem_cons_self,
        (take_append_drop room _).symm, ?_, ?_⟩
      · rw [Nat.sub_eq_zero_of_le (Nat.le_of_not_le hle)]
        simp
      · rw [Ne, take_eq_nil_iff, not_or]
        exact ⟨hroom, Utf8.encode_ne_nil p⟩
      · rwa [Ne, drop_eq_nil_iff]

theorem decodeStrict_fills (hscalar : ∀ q ∈ p :: points, Scalar q)
    (h : fills percentWindow (p :: points) = true) :
    ∃ rest, decodeStrict (((p :: points).flatMap encode).take percentWindow) =
      some (p :: rest) := by
  obtain ⟨k, htake, hk⟩ := take_fills h
  obtain ⟨k, rfl⟩ := exists_eq_succ_of_ne_zero (ne_of_gt (hk (by decide) nofun))
  refine ⟨points.take k, ?_⟩
  rw [htake, Utf8.decodeStrict_encodes fun q hq ↦ hscalar q (mem_of_mem_take hq)]
  rfl

theorem decodeStrict_not_fills (hscalar : ∀ q ∈ points, Scalar q)
    (h : ¬fills percentWindow points = true) :
    decodeStrict ((points.flatMap encode).take percentWindow) = none := by
  obtain ⟨k, p, l, m, htake, hp, hencode, hl, hm⟩ := take_not_fills h
  rw [htake]
  exact Utf8.decodeStrict_cut (fun q hq ↦ hscalar q (mem_of_mem_take hq)) (hscalar p hp) hl hm
    hencode

/-! ## An aligned character -/

theorem percentUnits_length (bytes : List UInt8) :
    (percentUnits upper bytes).length = 3 * bytes.length := by
  induction bytes generalizing upper with
  | nil => rfl
  | cons b bytes ih =>
    simp only [percentUnits, length_cons, ih]
    omega

variable {bytes : List UInt8}

theorem decodeEscape_percent {upper : ℕ → Bool} (h : bytes ≠ []) (l : JsString) {e : Escaped}
    (he : percentEscape (percentUnits upper bytes ++ l) = some e) :
    decodeEscape (percentUnits upper bytes ++ l) = some e := by
  obtain ⟨b, bytes, rfl⟩ := exists_cons_of_ne_nil h
  have hjson : jsonUnit (percentUnits upper (b :: bytes) ++ l) = none := by
    simp only [percentUnits, cons_append]
    match percentUnits (fun n ↦ upper (n + 2)) bytes ++ l with
    | _ :: _ :: _ :: _ =>
      rw [jsonUnit]
      exact if_neg fun h ↦ absurd h.1 (by decide)
    | [] | [_] | [_, _] => rfl
  rw [decodeEscape, jsonEscape, hjson, he]
  rfl

theorem percentEscape_of_decoded {rest : List ℕ}
    (h : decodeStrict (percentBytes percentWindow l) = some (p :: rest)) :
    percentEscape l = some ⟨unitsOf p, (encode p).length * 3⟩ := by
  rw [percentEscape]
  cases hb : percentBytes percentWindow l with
  | nil =>
    rw [hb] at h
    cases some_inj.mp h
  | cons b bytes =>
    rw [hb] at h
    dsimp only
    rw [h]

theorem percentEscape_of_refused {b : UInt8} (hb : percentBytes percentWindow l = b :: bytes)
    (h : decodeStrict (b :: bytes) = none) :
    percentEscape l = some ⟨[UInt16.ofNat b.toNat], 3⟩ := by
  rw [percentEscape, hb]
  dsimp only
  rw [h]

theorem encode_one (h : (encode p).length = 1) :
    ∃ b : UInt8, encode p = [b] ∧ [UInt16.ofNat b.toNat] = unitsOf p := by
  rw [encode] at h ⊢
  split_ifs at h with hlt
  · rw [if_pos hlt]
    refine ⟨_, rfl, ?_⟩
    rw [UInt8.toNat_ofNat_of_lt' (show p < 256 by omega), unitsOf, if_pos (by omega)]
  all_goals cases h

variable {ws : List Written} {w : Written}

/-- **An aligned character is one element**: it is read as it stands. -/
theorem nextCharacter_aligned (h : percentRun (w :: ws) ≠ [] → (encode w.point).length ≠ 1 →
      fills percentWindow (percentRun (w :: ws)) = true) :
    nextCharacter true (written (w :: ws)) = ⟨unitsOf w.point, w.units.length⟩ := by
  have hbytes := percentBytes_written percentWindow (w :: ws)
  have hrun := scalar_percentRun (w :: ws)
  obtain ⟨point, spelling, hscalar, hstarts⟩ := w
  rw [nextCharacter, if_pos rfl]
  cases spelling with
  | plain =>
    obtain ⟨c, rest, hc, hpercent, hamp, hback⟩ := unitsOf_head hscalar hstarts
    have hnone : decodeEscape (unitsOf point ++ written ws) = none := by
      rw [hc]
      exact decodeEscape_of_ne hpercent hamp hback _
    rw [written_cons, Written.units, hnone, codePoint_unitsOf hscalar]
    rfl
  | json upper =>
    rw [written_cons, Written.units, decodeEscape, jsonEscape_jsonUnits hscalar]
    rfl
  | percent upper =>
    have hlength : (Written.units ⟨point, .percent upper, hscalar, hstarts⟩).length =
        (encode point).length * 3 := by
      rw [Written.units, percentUnits_length, mul_comm]
    have hescape : percentEscape (percentUnits upper (encode point) ++ written ws) =
        some ⟨unitsOf point, (encode point).length * 3⟩ := by
      change percentEscape (written (⟨point, .percent upper, hscalar, hstarts⟩ :: ws)) = _
      rw [percentRun] at hbytes hrun h
      by_cases hfills : fills percentWindow (point :: percentRun ws) = true
      · obtain ⟨rest, hrest⟩ := decodeStrict_fills hrun hfills
        rw [← hbytes] at hrest
        exact percentEscape_of_decoded hrest
      · -- so it is a single byte, and that is read as what it is
        have hsize : (encode point).length = 1 := by
          by_contra hsize
          exact hfills (h (cons_ne_nil _ _) hsize)
        obtain ⟨b, hb, hunits⟩ := encode_one hsize
        have hnone := decodeStrict_not_fills hrun hfills
        rw [flatMap_cons, hb, percentWindow, singleton_append, take_succ_cons]
          at hbytes hnone
        rw [hsize, ← hunits]
        exact percentEscape_of_refused hbytes hnone
    rw [hlength, written_cons, Written.units,
      decodeEscape_percent (Utf8.encode_ne_nil point) _ hescape]
    rfl

theorem Written.units_ne_nil (w : Written) : w.units ≠ [] := by
  obtain ⟨point, spelling, hscalar, hstarts⟩ := w
  obtain ⟨c, rest, hc, -⟩ := unitsOf_head hscalar hstarts
  cases spelling with
  | plain | json =>
    rw [Written.units, hc]
    nofun
  | percent upper =>
    intro (h : percentUnits upper (encode point) = [])
    have hlength := congrArg List.length h
    rw [percentUnits_length, length_nil] at hlength
    have hpos := length_pos_iff.mpr (Utf8.encode_ne_nil point)
    omega

theorem elementsOf_head
    (h : nextCharacter true (written (w :: ws)) = ⟨unitsOf w.point, w.units.length⟩) :
    elementsOf true (written (w :: ws)) =
      ⟨unitsOf w.point, w.units.length⟩ :: elementsOf true (written ws) := by
  have hne : written (w :: ws) ≠ [] := by
    rw [written_cons, Ne, append_eq_nil_iff, not_and_or]
    exact .inl w.units_ne_nil
  rw [elementsOf_of_ne_nil true hne, h, written_cons, drop_left]

/-- **Where all characters are aligned, the elements are the characters.** -/
theorem elementsOf_written (h : Aligned ws) :
    elementsOf true (written ws) = ws.map fun w ↦ ⟨unitsOf w.point, w.units.length⟩ := by
  induction ws with
  | nil => rfl
  | cons w ws ih => rw [elementsOf_head (nextCharacter_aligned h.1), ih h.2, map_cons]

theorem aligned_plainly (ws : List Written) : Aligned (ws.map Written.plainly) := by
  induction ws with
  | nil => trivial
  | cons w ws ih => exact ⟨fun h ↦ absurd rfl h, ih⟩

theorem copyOf_characters (T : FoldTables) (ws : List Written) (width : Written → ℕ) :
    copyOf T (ws.map fun w ↦ ⟨unitsOf w.point, width w⟩) =
      ws.flatMap fun w ↦ T.emitted (unitsOf w.point) := flatMap_map ..

theorem copyOf_plainText (T : FoldTables) (ws : List Written) :
    copyOf T (elementsOf true (plainText ws)) = ws.flatMap fun w ↦ T.emitted (unitsOf w.point) := by
  rw [← written_plainly, elementsOf_written (aligned_plainly ws), List.map_map]
  exact flatMap_map ..

/-! ## A character that is not -/

theorem encode_continuations (hsize : (encode p).length ≠ 1) :
    ∃ (b : UInt8) (bytes : List UInt8), encode p = b :: bytes ∧
      (∀ c ∈ bytes, 0x80 ≤ c.toNat ∧ c.toNat < 0xc2) ∧ (unitsOf p).length < bytes.length + 1 := by
  have hbyte (n : ℕ) : 0x80 ≤ (UInt8.ofNat (0x80 + n % 64)).toNat ∧
      (UInt8.ofNat (0x80 + n % 64)).toNat < 0xc2 := by
    rw [UInt8.toNat_ofNat_of_lt' (show 0x80 + n % 64 < 256 by omega)]
    omega
  have hunits : (unitsOf p).length ≤ 2 ∧ (p < 0x10000 → (unitsOf p).length = 1) := by
    rw [unitsOf]
    split_ifs with hlt
    · exact ⟨one_le_ofNat, fun _ ↦ rfl⟩
    · exact ⟨le_rfl, fun h ↦ absurd h hlt⟩
  have hnil : ∀ c ∈ ([] : List UInt8), 0x80 ≤ c.toNat ∧ c.toNat < 0xc2 := forall_mem_nil _
  rw [encode] at hsize ⊢
  split_ifs at hsize ⊢ with hone htwo hthree
  · exact absurd rfl hsize
  · refine ⟨_, _, rfl, forall_mem_cons.mpr ⟨hbyte _, hnil⟩, ?_⟩
    rw [hunits.2 (by omega)]
    exact one_lt_two
  · refine ⟨_, _, rfl, forall_mem_cons.mpr ⟨hbyte _, forall_mem_cons.mpr ⟨hbyte _, hnil⟩⟩, ?_⟩
    exact lt_succ_of_le hunits.1
  · refine ⟨_, _, rfl, forall_mem_cons.mpr ⟨hbyte _, forall_mem_cons.mpr ⟨hbyte _,
      forall_mem_cons.mpr ⟨hbyte _, hnil⟩⟩⟩, ?_⟩
    exact lt_succ_of_le (hunits.1.trans (le_succ 2))

theorem percentUnits_ne_nil (b : UInt8) (bytes : List UInt8) (l : JsString) :
    percentUnits upper (b :: bytes) ++ l ≠ [] := by
  exact cons_ne_nil _ _

theorem elementsOf_refused (b : UInt8) (bytes : List UInt8) (l : JsString)
    (h : decodeStrict (percentBytes percentWindow (percentUnits upper (b :: bytes) ++ l)) = none) :
    elementsOf true (percentUnits upper (b :: bytes) ++ l) = ⟨[UInt16.ofNat b.toNat], 3⟩ ::
      elementsOf true (percentUnits (fun n ↦ upper (n + 2)) bytes ++ l) := by
  have hread : percentBytes percentWindow (percentUnits upper (b :: bytes) ++ l) =
      b :: ((bytes.take 7) ++ percentBytes (7 - bytes.length) l) := by
    rw [percentBytes_units, percentWindow, take_succ_cons, length_cons,
      show 8 - (bytes.length + 1) = 7 - bytes.length by omega, cons_append]
  have hescape := decodeEscape_percent (cons_ne_nil b bytes) l
    (percentEscape_of_refused hread (hread ▸ h))
  have hnext : nextCharacter true (percentUnits upper (b :: bytes) ++ l) =
      ⟨[UInt16.ofNat b.toNat], 3⟩ := by
    rw [nextCharacter, if_pos rfl, hescape]
    rfl
  rw [elementsOf_of_ne_nil true (percentUnits_ne_nil upper b bytes l), hnext]
  rfl

theorem elementsOf_continuations (h : ∀ c ∈ bytes, 0x80 ≤ c.toNat ∧ c.toNat < 0xc2) (l : JsString) :
    elementsOf true (percentUnits upper bytes ++ l) =
      (bytes.map fun c ↦ ⟨[UInt16.ofNat c.toNat], 3⟩) ++ elementsOf true l := by
  induction bytes generalizing upper with
  | nil => rfl
  | cons c bytes ih =>
    obtain ⟨hc, hbytes⟩ := forall_mem_cons.mp h
    have hnone : decodeStrict
        (percentBytes percentWindow (percentUnits upper (c :: bytes) ++ l)) = none := by
      rw [percentBytes_units, percentWindow, take_succ_cons, cons_append]
      exact Utf8.decodeStrict_continuation hc _
    rw [elementsOf_refused upper c bytes l hnone, ih _ hbytes, map_cons, cons_append]

/-- How many units are read, escapes counting as what they stand for. -/
def unitsRead (es : List Escaped) : ℕ := (es.map fun e ↦ e.ch.length).sum

@[simp] theorem unitsRead_cons (e : Escaped) (es : List Escaped) :
    unitsRead (e :: es) = e.ch.length + unitsRead es := sum_cons

theorem unitsRead_single (bytes : List UInt8) (es : List Escaped) :
    unitsRead ((bytes.map fun c ↦ ⟨[UInt16.ofNat c.toNat], 3⟩) ++ es) =
      bytes.length + unitsRead es := by
  induction bytes with
  | nil => simp
  | cons b bytes ih =>
    rw [map_cons, cons_append, unitsRead_cons, ih, length_singleton, length_cons]
    omega

/-- **A character that is not aligned is read as its bytes**, and these are more than its units. -/
theorem unitsRead_misaligned (hrun : percentRun (w :: ws) ≠ [])
    (hsize : (encode w.point).length ≠ 1) (h : ¬fills percentWindow (percentRun (w :: ws)) = true) :
    (unitsOf w.point).length + unitsRead (elementsOf true (written ws)) <
      unitsRead (elementsOf true (written (w :: ws))) := by
  have hnone := decodeStrict_not_fills (scalar_percentRun _) h
  rw [← percentBytes_written] at hnone
  obtain ⟨point, spelling, hscalar, hstarts⟩ := w
  cases spelling with
  | plain | json => exact absurd rfl hrun
  | percent upper =>
    obtain ⟨b, bytes, hencode, hbytes, hunits⟩ := encode_continuations (p := point) hsize
    have hwritten : written (⟨point, .percent upper, hscalar, hstarts⟩ :: ws) =
        percentUnits upper (b :: bytes) ++ written ws := by
      rw [written_cons, Written.units, hencode]
    rw [hwritten] at hnone ⊢
    rw [elementsOf_refused upper b bytes _ hnone, elementsOf_continuations _ hbytes, unitsRead_cons,
      unitsRead_single, length_singleton]
    dsimp only
    omega

/-- What is read is no less than the text, and it is more unless all characters are aligned. -/
theorem unitsRead_written (ws : List Written) :
    (plainText ws).length ≤ unitsRead (elementsOf true (written ws)) ∧
      (unitsRead (elementsOf true (written ws)) ≤ (plainText ws).length → Aligned ws) := by
  induction ws with
  | nil => exact ⟨zero_le _, fun _ ↦ trivial⟩
  | cons w ws ih =>
    rw [plainText_cons, length_append]
    by_cases haligned : percentRun (w :: ws) ≠ [] → (encode w.point).length ≠ 1 →
        fills percentWindow (percentRun (w :: ws)) = true
    · have hhead := elementsOf_head (nextCharacter_aligned haligned)
      rw [hhead, unitsRead_cons]
      dsimp only
      exact ⟨by omega, fun h ↦ ⟨haligned, ih.2 (by omega)⟩⟩
    · simp only [Classical.not_imp] at haligned
      obtain ⟨hrun, hsize, hfills⟩ := haligned
      have hmore := unitsRead_misaligned hrun hsize hfills
      exact ⟨by omega, fun h ↦ absurd h (by omega)⟩

/-! ## The view of what is written -/

theorem ne_singleton {ch : JsString} (h : ch.length ≠ 1) (c : CodeUnit) : (ch == [c]) = false :=
  beq_eq_false_iff_ne.mpr fun he ↦ h (by rw [he, length_singleton])

theorem one_unit {mapped ch : JsString} (h : ch.length = 1) :
    (if mapped.length = 1 then mapped else ch).length = 1 := by
  split_ifs with hmapped
  · exact hmapped
  · exact h

theorem emitted_bareTables (ch : JsString) : (bareTables.emitted ch).length = ch.length := by
  rw [FoldTables.emitted, if_neg (show ¬bareTables.invisibleFormat ch = true from Bool.false_ne_true),
    FoldTables.emittedText]
  by_cases hch : ch.length = 1
  · rw [hch]
    exact one_unit hch
  · have hcolon : (colonConfusables.any fun c ↦ ch == [c]) = false := by
      rw [List.any_eq_false]
      exact fun c _ ↦ by rw [ne_singleton hch c]; exact Bool.false_ne_true
    have hletter : letterConfusable (bareTables.toLowerCase ch) = none := by
      refine map_eq_none_iff.mpr (List.find?_eq_none.mpr fun entry _ ↦ ?_)
      rw [show bareTables.toLowerCase ch = ch from rfl, ne_singleton hch entry.1]
      exact Bool.false_ne_true
    rw [hcolon, hletter, if_neg Bool.false_ne_true, getD_none,
      show bareTables.normalize ch = ch from rfl, ite_self, ite_self]

theorem copyOf_bareTables (es : List Escaped) : (copyOf bareTables es).length = unitsRead es := by
  induction es with
  | nil => rfl
  | cons e es ih => rw [copyOf_cons, length_append, emitted_bareTables, ih, unitsRead_cons]

theorem unitsRead_plainText (ws : List Written) :
    unitsRead (elementsOf true (plainText ws)) = (plainText ws).length := by
  rw [← written_plainly, elementsOf_written (aligned_plainly ws), written_plainly]
  induction ws with
  | nil => rfl
  | cons w ws ih =>
    rw [map_cons, map_cons, unitsRead_cons, ih, plainText_cons, length_append]
    rfl

/-- **An escaped text is seen as the text is, whatever the tables, exactly if its characters are
aligned.** -/
theorem foldForMatching_written_iff (ws : List Written) :
    (∀ T : FoldTables, (foldForMatching T (written ws) true).1 =
      (foldForMatching T (plainText ws) true).1) ↔ Aligned ws := by
  simp only [foldForMatching_eq]
  constructor
  · intro h
    have hlength := congrArg List.length (h bareTables)
    rw [copyOf_bareTables, copyOf_bareTables, unitsRead_plainText] at hlength
    exact (unitsRead_written ws).2 hlength.le
  · intro h T
    rw [elementsOf_written h, copyOf_plainText, copyOf_characters]

/-- Tables that know the wide forms of the ASCII characters. -/
def wideTables : FoldTables :=
  ⟨fun _ ↦ false, List.map fun c ↦ if 0xff01 ≤ c ∧ c ≤ 0xff5e then c - 0xfee0 else c, id⟩

/-- Three wide letters in percent escapes: nine bytes, of which the first is read alone. -/
theorem three_wide_letters : ∃ ws : List Written, plainText ws = [0xff4b, 0xff45, 0xff59] ∧
      written ws = js "%EF%BD%8B%EF%BD%85%EF%BD%99" ∧
      (foldForMatching wideTables (plainText ws) true).1 = js "key" ∧
      (foldForMatching wideTables (written ws) true).1 = [0xef, 0xbd, 0x8b] ++ js "ey" ∧
      (foldForMatching wideTables (written ws) true).1 ≠
        (foldForMatching wideTables (plainText ws) true).1 :=
  ⟨[⟨0xff4b, .percent fun _ ↦ true, by decide, by decide⟩,
    ⟨0xff45, .percent fun _ ↦ true, by decide, by decide⟩,
    ⟨0xff59, .percent fun _ ↦ true, by decide, by decide⟩], by decide +kernel⟩

end Text
