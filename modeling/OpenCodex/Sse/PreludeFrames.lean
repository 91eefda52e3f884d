import OpenCodex.Data.Segments
import OpenCodex.Data.Utf8Ascii
import OpenCodex.Data.Utf8Strict
import OpenCodex.Sse.PreludeRetry

/-!
# Frames of a body, in bytes

The retry cuts frames from the text of its buffer, and the text from bytes that may end within a
character.  Here the same cut is found in the bytes: the frame is the first segment of the buffer that
ends with a separator, and the text is its text (`cutFrame_eq`).  So a body has its frames, however it
arrives: `frames body`, and what is left behind the last separator.

What is delivered is the text of a frame, written again.  It need not be the frame: a byte order mark
at its head is lost, and bytes that are no UTF-8 become replacement characters.  If it is not, it
cannot even be taken for a part of the frame or the frame for a part of it (`rewritten_comparable`).
-/

set_option autoImplicit false

open List Option Segments Utf8

namespace Sse

open Bridge (indexOf indexOf_spec indexOf_le suffix_take occurs_of_suffix)
open Utf8 (Reads textOf tailText bytesOf)

/-! ## Separators -/

/-- The blank line behind a frame, in bytes. -/
def endsFrame (l : Bytes) : Bool := [10, 10].isSuffixOf l || [13, 10, 13, 10].isSuffixOf l

/-- The blank line behind a frame, in text. -/
def endsText (t : JsString) : Bool := (js "\n\n").isSuffixOf t || (js "\r\n\r\n").isSuffixOf t

variable {l : Bytes}

theorem endsFrame_iff : endsFrame l = true ↔
    ∃ S : List ℕ, (S = [10, 10] ∨ S = [13, 10, 13, 10]) ∧ S.map UInt8.ofNat <:+ l := by
  rw [endsFrame, Bool.or_eq_true, isSuffixOf_iff_suffix, isSuffixOf_iff_suffix]
  constructor
  · rintro (h | h)
    · exact ⟨_, .inl rfl, h⟩
    · exact ⟨_, .inr rfl, h⟩
  · rintro ⟨S, rfl | rfl, h⟩
    · exact .inl h
    · exact .inr h

theorem endsText_iff {t : JsString} : endsText t = true ↔
    ∃ S : List ℕ, (S = [10, 10] ∨ S = [13, 10, 13, 10]) ∧ S.map UInt16.ofNat <:+ t := by
  rw [endsText, Bool.or_eq_true, isSuffixOf_iff_suffix, isSuffixOf_iff_suffix]
  constructor
  · rintro (h | h)
    · exact ⟨_, .inl rfl, h⟩
    · exact ⟨_, .inr rfl, h⟩
  · rintro ⟨S, rfl | rfl, h⟩
    · exact .inl h
    · exact .inr h

variable {S : List ℕ}

theorem separator_ascii (h : S = [10, 10] ∨ S = [13, 10, 13, 10]) : ∀ c ∈ S, c < 128 := by
  rcases h with rfl | rfl <;> decide

theorem separator_ne_nil (h : S = [10, 10] ∨ S = [13, 10, 13, 10]) : S ≠ [] := by
  rcases h with rfl | rfl <;> decide

variable {f : Bytes}

theorem endsFrame_concat (h : endsFrame f = true) : ∃ g, f = g ++ [UInt8.ofNat 10] := by
  obtain ⟨S, hS, g, rfl⟩ := endsFrame_iff.mp h
  rcases hS with rfl | rfl
  · exact ⟨g ++ [10], by simp⟩
  · exact ⟨g ++ [13, 10, 13], by simp⟩

/-! ## Bytes and text -/

section Reading

variable {h : Bytes → JsString}

theorem split_word (hS : ∀ c ∈ S, c < 128) {V : JsString}
    (hl : tailText l = S.map UInt16.ofNat ++ V) :
    ∃ rest, l = S.map UInt8.ofNat ++ rest ∧ tailText rest = V := by
  induction S generalizing l with
  | nil => exact ⟨l, rfl, hl⟩
  | cons c S ih =>
    obtain ⟨m, rest, rfl, hm, hrest⟩ := reads_tailText.split (U := []) (hS c (mem_cons_self ..)) hl
    have hnil : m = [] := by
      by_contra hne
      exact tailText_ne_nil hne hm
    obtain ⟨rest, rfl, hV⟩ := ih (fun d hd ↦ hS d (mem_cons_of_mem _ hd)) hrest
    exact ⟨rest, by rw [hnil]; rfl, hV⟩

theorem split_text (R : Reads h tailText) (hS : ∀ c ∈ S, c < 128) (hne : S ≠ []) {U V : JsString}
    (hl : h l = U ++ S.map UInt16.ofNat ++ V) :
    ∃ m rest, l = m ++ S.map UInt8.ofNat ++ rest ∧ h m = U ∧ tailText rest = V := by
  obtain ⟨c, S, rfl⟩ := exists_cons_of_ne_nil hne
  rw [append_assoc] at hl
  obtain ⟨m, rest, rfl, hm, hrest⟩ := R.split (hS c (mem_cons_self ..)) hl
  obtain ⟨rest, rfl, hV⟩ := split_word (fun d hd ↦ hS d (mem_cons_of_mem _ hd)) hrest
  exact ⟨m, rest, by simp, hm, hV⟩

theorem read_append (R : Reads h tailText) (hf : endsFrame f = true) (rest : Bytes) :
    h (f ++ rest) = h f ++ tailText rest := by
  obtain ⟨g, rfl⟩ := endsFrame_concat hf
  have hshort := R.join g [] (c := 10) (by decide)
  rw [append_assoc, singleton_append, R.join g rest (by decide), hshort, append_assoc]
  rfl

theorem endsText_read (R : Reads h tailText) (hf : endsFrame f = true) : endsText (h f) = true := by
  obtain ⟨S, hS, g, rfl⟩ := endsFrame_iff.mp hf
  refine endsText_iff.mpr ⟨S, hS, h g, ?_⟩
  rcases hS with rfl | rfl
  · exact (R.join g [10] (c := 10) (by decide)).symm
  · exact (R.join g [10, 13, 10] (c := 13) (by decide)).symm

/-- **The first frame of the text is the text of the first frame.** -/
theorem head_read (R : Reads h tailText) (l : Bytes) :
    Segments.head endsText (h l) = (Segments.head endsFrame l).map h := by
  -- a separator in the text ends a frame in the bytes
  have hback : ∀ (l : Bytes) (U : JsString), U <+: h l → endsText U = true →
      ∃ f rest, l = f ++ rest ∧ endsFrame f = true ∧ h l = U ++ tailText rest := by
    intro l U hU hends
    obtain ⟨V, hV⟩ := hU
    obtain ⟨S, hS, U, rfl⟩ := endsText_iff.mp hends
    obtain ⟨m, rest, rfl, -, rfl⟩ := split_text R (separator_ascii hS) (separator_ne_nil hS) hV.symm
    exact ⟨_, rest, rfl, endsFrame_iff.mpr ⟨S, hS, m, rfl⟩, hV.symm⟩
  cases hhead : Segments.head endsFrame l with
  | none =>
    refine head_eq_none.mpr fun U hU ↦ ?_
    by_contra hends
    obtain ⟨f, rest, rfl, hf, -⟩ := hback l U hU (by simpa using hends)
    have := head_eq_none.mp hhead f (prefix_append f rest)
    exact absurd (this.symm.trans hf) Bool.false_ne_true
  | some f =>
    obtain ⟨⟨rest, rfl⟩, hf, hmin⟩ := head_eq_some.mp hhead
    refine head_eq_some.mpr ⟨?_, endsText_read R hf, fun U hU hends ↦ ?_⟩
    · rw [read_append R hf]
      exact prefix_append _ _
    · obtain ⟨g, rest, hg, hgends, htext⟩ := hback f U hU hends
      have hgf := hmin g (hg ▸ prefix_append g rest) hgends
      have hnil : rest = [] := by
        rw [hgf] at hg
        exact append_right_eq_self.mp hg.symm
      rw [htext, hnil]
      exact (append_nil U).symm

end Reading

/-! ## Where the code cuts -/

/-- Where a frame ends in the text. -/
def boundaryOf (text : JsString) : Option ℕ :=
  match indexOf (js "\r\n\r\n") text, indexOf (js "\n\n") text with
  | none, none => none
  | none, some lf => some (lf + 2)
  | some cr, none => some (cr + 4)
  | some cr, some lf => if cr ≤ lf then some (cr + 4) else some (lf + 2)

variable {text : JsString}

theorem lf_behind_crlf {cr lf : ℕ} (hcr : js "\r\n\r\n" <+: text.drop cr)
    (hlf : js "\n\n" <+: text.drop lf) (hle : cr ≤ lf) : cr + 3 ≤ lf := by
  obtain ⟨V, hV⟩ := hcr
  obtain ⟨W, hW⟩ := hlf
  obtain ⟨k, rfl⟩ := Nat.exists_eq_add_of_le hle
  rw [← drop_drop, ← hV] at hW
  match k with
  | 0 => exact absurd (List.cons.inj hW).1 (by decide)
  | 1 => exact absurd (List.cons.inj (List.cons.inj hW).2).1 (by decide)
  | 2 => exact absurd (List.cons.inj hW).1 (by decide)
  | k + 3 => omega

theorem boundaryOf_le {U : JsString} (hU : U <+: text) (hends : endsText U = true) :
    ∃ stop, boundaryOf text = some stop ∧ stop ≤ U.length := by
  rw [endsText, Bool.or_eq_true, isSuffixOf_iff_suffix, isSuffixOf_iff_suffix] at hends
  rw [boundaryOf]
  rcases hends with hlf | hcr
  · obtain ⟨j, hj, hlength⟩ := occurs_of_suffix hlf hU
    obtain ⟨lf, hlf, hle⟩ := indexOf_le hj
    have htwo : (js "\n\n").length = 2 := rfl
    rw [hlf]
    cases hcr : indexOf (js "\r\n\r\n") text with
    | none => exact ⟨lf + 2, rfl, by omega⟩
    | some cr =>
      dsimp only
      split_ifs with hfirst
      · have := lf_behind_crlf (indexOf_spec hcr) (indexOf_spec hlf) hfirst
        exact ⟨cr + 4, rfl, by omega⟩
      · exact ⟨lf + 2, rfl, by omega⟩
  · obtain ⟨j, hj, hlength⟩ := occurs_of_suffix hcr hU
    obtain ⟨cr, hcr, hle⟩ := indexOf_le hj
    have hfour : (js "\r\n\r\n").length = 4 := rfl
    rw [hcr]
    cases hlf : indexOf (js "\n\n") text with
    | none => exact ⟨cr + 4, rfl, by omega⟩
    | some lf =>
      dsimp only
      split_ifs with hfirst
      · exact ⟨cr + 4, rfl, by omega⟩
      · exact ⟨lf + 2, rfl, by omega⟩

theorem boundaryOf_ends {stop : ℕ} (h : boundaryOf text = some stop) :
    endsText (text.take stop) = true ∧ (text.take stop).length = stop := by
  have hlf : ∀ lf, indexOf (js "\n\n") text = some lf →
      endsText (text.take (lf + 2)) = true ∧ (text.take (lf + 2)).length = lf + 2 := by
    intro lf hlf
    have hsuffix := suffix_take (indexOf_spec hlf)
    have hlength := (indexOf_spec hlf).length_le
    rw [length_drop] at hlength
    refine ⟨by rw [endsText, Bool.or_eq_true]; exact .inl (isSuffixOf_iff_suffix.mpr hsuffix), ?_⟩
    rw [length_take]
    change 2 ≤ _ at hlength
    omega
  have hcr : ∀ cr, indexOf (js "\r\n\r\n") text = some cr →
      endsText (text.take (cr + 4)) = true ∧ (text.take (cr + 4)).length = cr + 4 := by
    intro cr hcr
    have hsuffix := suffix_take (indexOf_spec hcr)
    have hlength := (indexOf_spec hcr).length_le
    rw [length_drop] at hlength
    refine ⟨by rw [endsText, Bool.or_eq_true]; exact .inr (isSuffixOf_iff_suffix.mpr hsuffix), ?_⟩
    rw [length_take]
    change 4 ≤ _ at hlength
    omega
  rw [boundaryOf] at h
  split at h
  · nomatch h
  · obtain rfl := some_inj.mp h
    exact hlf _ ‹_›
  · obtain rfl := some_inj.mp h
    exact hcr _ ‹_›
  · split_ifs at h
    · obtain rfl := some_inj.mp h
      exact hcr _ ‹_›
    · obtain rfl := some_inj.mp h
      exact hlf _ ‹_›

theorem head_text (text : JsString) :
    Segments.head endsText text = (boundaryOf text).map text.take := by
  cases hboundary : boundaryOf text with
  | none =>
    refine head_eq_none.mpr fun U hU ↦ ?_
    by_contra hends
    obtain ⟨stop, hstop, -⟩ := boundaryOf_le hU (by simpa using hends)
    exact absurd (hboundary.symm.trans hstop) (by simp)
  | some stop =>
    obtain ⟨hends, hlength⟩ := boundaryOf_ends hboundary
    refine head_eq_some.mpr ⟨List.take_prefix stop text, hends, fun U hU hUends ↦ ?_⟩
    obtain ⟨stop', hstop', hle⟩ := boundaryOf_le (hU.trans (List.take_prefix stop text)) hUends
    obtain rfl := some_inj.mp (hboundary.symm.trans hstop')
    exact hU.eq_of_length_le (hlength.trans_le hle)

/-- What is delivered for a frame: its text, written again. -/
def rewritten (f : Bytes) : Bytes := bytesOf (textOf f)

/-- **What the code cuts off** is the first frame of the buffer. -/
theorem cutFrame_eq (buffer : Bytes) : cutFrame buffer = (Segments.head endsFrame buffer).map
    fun f ↦ (textOf f, rewritten f, buffer.drop (rewritten f).length) := by
  have hcut : cutFrame buffer = (boundaryOf (decodeFrame buffer)).map fun stop ↦
      ((decodeFrame buffer).take stop, bytesOf ((decodeFrame buffer).take stop),
        buffer.drop (bytesOf ((decodeFrame buffer).take stop)).length) := rfl
  have hhead := (head_text (decodeFrame buffer)).symm.trans (head_read reads_textOf buffer)
  rw [hcut]
  cases hf : Segments.head endsFrame buffer with
  | none =>
    rw [hf, map_none, map_eq_none_iff] at hhead
    rw [hhead]
    rfl
  | some f =>
    rw [hf, map_some, map_eq_some_iff] at hhead
    obtain ⟨stop, hstop, htake⟩ := hhead
    rw [hstop, map_some, htake]
    rfl

/-! ## What is written again -/

theorem tailText_bytesOf (f : Bytes) : tailText (rewritten f) = textOf f := by
  have hscalar : ∀ p ∈ dropMark (Utf8.decode f), Utf8.Scalar p :=
    fun p hp ↦ decode_scalar f p (mem_dropMark hp)
  rw [tailText, rewritten, textOf, bytesOf, pointsOf_units hscalar, Utf8.decode,
    run_encodes hscalar]
  exact congrArg (List.flatMap unitsOf) (append_nil _)

theorem head_rewritten (h : Segments.head endsFrame l = some f) :
    Segments.head endsFrame (rewritten f) = some (rewritten f) := by
  obtain ⟨-, hends, hmin⟩ := head_eq_some.mp h
  have hself : Segments.head endsFrame f = some f := head_eq_some.mpr ⟨prefix_refl f, hends, hmin⟩
  have htext : Segments.head endsText (tailText (rewritten f)) = some (tailText (rewritten f)) := by
    rw [tailText_bytesOf, head_read reads_textOf, hself]
    rfl
  rw [head_read reads_tailText, map_eq_some_iff] at htext
  obtain ⟨g, hg, htext⟩ := htext
  obtain ⟨⟨rest, hrest⟩, hgends, -⟩ := head_eq_some.mp hg
  have hnil : rest = [] := by
    by_contra hne
    rw [← hrest, read_append reads_tailText hgends] at htext
    exact tailText_ne_nil hne (append_right_eq_self.mp htext.symm)
  rw [hnil, append_nil] at hrest
  rwa [hrest] at hg

/-- **A frame that is changed is changed visibly**: neither of the two begins with the other. -/
theorem rewritten_comparable (h : Segments.head endsFrame l = some f)
    (hcomparable : rewritten f <+: f ∨ f <+: rewritten f) : rewritten f = f := by
  obtain ⟨-, hends, hmin⟩ := head_eq_some.mp h
  obtain ⟨-, hends', hmin'⟩ := head_eq_some.mp (head_rewritten h)
  rcases hcomparable with hle | hle
  · exact hmin _ hle hends'
  · exact (hmin' _ hle hends).symm

end Sse
