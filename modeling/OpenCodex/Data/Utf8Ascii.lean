import OpenCodex.Data.Utf8

/-!
# ASCII in bytes and in text

An ASCII byte stands for the same unit of the text, wherever it stands: decoding what is before it and
what is behind it separately gives the same text (`join`), and every ASCII unit of a text comes from
such a byte (`split`).  So what is found in a text by its ASCII units, a line ending say, is found in
the bytes at the corresponding place.

Only the head of an array is special, where a byte order mark is taken off; so a decoder has two
readings, one for the head and one for the rest (`Reads`).
-/

set_option autoImplicit false

open List

namespace Utf8

theorem past {α : Type} {A B U V : List α} {c : α} (hc : c ∉ A) (h : A ++ B = U ++ c :: V) :
    ∃ U', U = A ++ U' ∧ B = U' ++ c :: V := by
  rcases append_eq_append_iff.mp h with ⟨U', hU, hB⟩ | ⟨A', hA, hB⟩
  · exact ⟨U', hU, hB⟩
  · cases A' with
    | nil =>
      refine ⟨[], ?_, ?_⟩
      · rw [hA, append_nil, append_nil]
      · exact hB.symm
    | cons a A' =>
      obtain ⟨rfl, -⟩ := List.cons.inj hB
      exact absurd (hA ▸ mem_append_right _ (mem_cons_self ..)) hc

/-! ## Code points -/

/-- All that comes out from a state on. -/
def out (s : State) (bytes : List UInt8) : List ℕ := (run s bytes).2 ++ flush (run s bytes).1

theorem decode_eq_out (bytes : List UInt8) : decode bytes = out ground bytes := rfl

theorem out_nil (s : State) : out s [] = flush s := rfl

theorem out_cons (s : State) (b : UInt8) (bytes : List UInt8) :
    out s (b :: bytes) = (step s b.toNat).2 ++ out (step s b.toNat).1 bytes := by
  rw [out, out, run, append_assoc]

variable {c : ℕ}

theorem toNat_ofNat (hc : c < 128) : (UInt8.ofNat c).toNat = c := by
  rw [UInt8.toNat_ofNat']
  omega

variable {s : State}

theorem out_join (hs : Sound s) (m rest : List UInt8) (hc : c < 128) :
    out s (m ++ UInt8.ofNat c :: rest) = out s m ++ c :: out ground rest := by
  have hsound := sound_run hs m
  rw [out, run_append, run, toNat_ofNat hc, step_ascii _ hc hsound.lower, out, out]
  simp only [append_assoc, cons_append, nil_append]

theorem not_mem_flush (hc : c < 128) : c ∉ flush s := by
  rw [flush]
  split_ifs
  · exact not_mem_nil
  · rw [mem_singleton, replacement]
    omega

variable {b : ℕ}

theorem not_mem_first (hb : 128 ≤ b) (hc : c < 128) : c ∉ (first b).2 := by
  rw [first_out, if_neg (by omega)]
  split_ifs
  · exact not_mem_nil
  · rw [mem_singleton, replacement]
    omega

theorem not_mem_step (hs : Sound s) (hb : 128 ≤ b) (hc : c < 128) : c ∉ (step s b).2 := by
  rw [step]
  split_ifs with hneeded hrange hone
  · exact not_mem_first hb hc
  · rw [mem_singleton]
    have := hs.one hone
    omega
  · exact not_mem_nil
  · rw [mem_cons, replacement]
    exact not_or.mpr ⟨by omega, not_mem_first hb hc⟩

variable {l : List UInt8}

theorem out_split (hs : Sound s) {U V : List ℕ} (hc : c < 128) (h : out s l = U ++ c :: V) :
    ∃ m rest, l = m ++ UInt8.ofNat c :: rest ∧ out s m = U ∧ out ground rest = V := by
  induction l generalizing s U with
  | nil =>
    rw [out_nil] at h
    exact absurd (h ▸ mem_append_right _ (mem_cons_self ..)) (not_mem_flush hc)
  | cons b l ih =>
    by_cases hb : b.toNat < 128
    · rw [out_cons, step_ascii s hb hs.lower, append_assoc] at h
      obtain ⟨U', rfl, hrest⟩ := past (not_mem_flush hc) h
      cases U' with
      | nil =>
        obtain ⟨rfl, hV⟩ := List.cons.inj hrest
        refine ⟨[], l, ?_, ?_, hV⟩
        · rw [UInt8.ofNat_toNat, nil_append]
        · rw [out_nil, append_nil]
      | cons d U' =>
        obtain ⟨rfl, htail⟩ := List.cons.inj hrest
        obtain ⟨m, rest, rfl, hm, hrest⟩ := ih sound_ground htail
        refine ⟨b :: m, rest, rfl, ?_, hrest⟩
        rw [out_cons, step_ascii s hb hs.lower, hm, append_assoc]
        rfl
    · rw [out_cons] at h
      obtain ⟨U', rfl, hrest⟩ := past (not_mem_step hs (by omega) hc) h
      obtain ⟨m, rest, rfl, hm, hrest⟩ := ih (sound_step hs b.toNat) hrest
      refine ⟨b :: m, rest, rfl, ?_, hrest⟩
      rw [out_cons, hm]

theorem out_ne_nil (l : List UInt8) (h : l ≠ [] ∨ s.needed ≠ 0) : out s l ≠ [] := by
  induction l generalizing s with
  | nil =>
    have hneeded := h.resolve_left (fun hne ↦ hne rfl)
    rw [out_nil, flush, if_neg hneeded]
    exact cons_ne_nil _ _
  | cons b l ih =>
    rw [out_cons]
    by_cases hshown : (step s b.toNat).2 = []
    · rw [hshown, nil_append]
      refine ih (.inr ?_)
      rw [step] at hshown ⊢
      split_ifs at hshown ⊢
      · rw [first_out] at hshown
        rw [first]
        split_ifs at hshown
        rw [if_neg (by omega)]
        split_ifs
        any_goals exact Nat.succ_ne_zero _
        omega
      · simp only
        omega
    · exact append_ne_nil_of_left_ne_nil hshown _

/-! ## Units -/

theorem unitsOf_ascii (hc : c < 128) : unitsOf c = [UInt16.ofNat c] := if_pos (by omega)

theorem unit_inj {d : ℕ} (hc : c < 128) (hd : d < 65536) (h : UInt16.ofNat c = UInt16.ofNat d) :
    c = d := by
  have := congrArg UInt16.toNat h
  rw [UInt16.toNat_ofNat', UInt16.toNat_ofNat'] at this
  omega

variable {p : ℕ}

theorem not_mem_unitsOf (hp : 128 ≤ p) (hlt : p < 0x110000) (hc : c < 128) :
    UInt16.ofNat c ∉ unitsOf p := by
  rw [unitsOf]
  split_ifs with hbasic
  · rw [mem_singleton]
    intro h
    have := unit_inj hc hbasic h
    omega
  · rw [mem_cons, mem_singleton]
    rintro (h | h)
    · have := unit_inj hc (by omega) h
      omega
    · have := unit_inj hc (by omega) h
      omega

variable {points : List ℕ}

theorem units_split (hscalar : ∀ p ∈ points, Scalar p) {U V : JsString} (hc : c < 128)
    (h : points.flatMap unitsOf = U ++ UInt16.ofNat c :: V) :
    ∃ P Q, points = P ++ c :: Q ∧ P.flatMap unitsOf = U ∧ Q.flatMap unitsOf = V := by
  induction points generalizing U with
  | nil => exact absurd h (by simp)
  | cons p points ih =>
    obtain ⟨hlt, -⟩ := hscalar p (mem_cons_self ..)
    have htail := fun q hq ↦ hscalar q (mem_cons_of_mem _ hq)
    rw [flatMap_cons] at h
    by_cases hp : p < 128
    · rw [unitsOf_ascii hp] at h
      cases U with
      | nil =>
        obtain ⟨hpc, hV⟩ := List.cons.inj h
        obtain rfl := unit_inj hp (by omega) hpc
        exact ⟨[], points, rfl, rfl, hV⟩
      | cons u U =>
        obtain ⟨hu, hrest⟩ := List.cons.inj h
        obtain ⟨P, Q, rfl, hP, hQ⟩ := ih htail hrest
        refine ⟨p :: P, Q, rfl, ?_, hQ⟩
        rw [flatMap_cons, unitsOf_ascii hp, hP, hu]
        rfl
    · obtain ⟨U', rfl, hrest⟩ := past (not_mem_unitsOf (by omega) hlt hc) h
      obtain ⟨P, Q, rfl, hP, hQ⟩ := ih htail hrest
      exact ⟨p :: P, Q, rfl, by rw [flatMap_cons, hP], hQ⟩

theorem unitsOf_ne_nil (p : ℕ) : unitsOf p ≠ [] := by
  rw [unitsOf]
  split_ifs <;> exact cons_ne_nil _ _

theorem units_eq_nil (h : points.flatMap unitsOf = []) : points = [] := by
  cases points with
  | nil => rfl
  | cons p points => exact absurd (append_eq_nil_iff.mp h).1 (unitsOf_ne_nil p)

/-! ## Texts -/

/-- The text of bytes that are not at the head. -/
def tailText (bytes : List UInt8) : JsString := (decode bytes).flatMap unitsOf

/-- `h` reads arrays and `h'` reads what is behind an ASCII byte, so that ASCII stands where it
stood. -/
structure Reads (h h' : List UInt8 → JsString) : Prop where
  join : ∀ (m rest : List UInt8) {c : ℕ}, c < 128 →
    h (m ++ UInt8.ofNat c :: rest) = h m ++ UInt16.ofNat c :: h' rest
  split : ∀ {l : List UInt8} {U V : JsString} {c : ℕ}, c < 128 → h l = U ++ UInt16.ofNat c :: V →
    ∃ m rest, l = m ++ UInt8.ofNat c :: rest ∧ h m = U ∧ h' rest = V

theorem decode_join (m rest : List UInt8) (hc : c < 128) :
    decode (m ++ UInt8.ofNat c :: rest) = decode m ++ c :: decode rest :=
  out_join sound_ground m rest hc

theorem reads_tailText : Reads tailText tailText where
  join m rest c hc := by
    rw [tailText, decode_join m rest hc, flatMap_append, flatMap_cons, unitsOf_ascii hc]
    rfl
  split {l U V c} hc h := by
    obtain ⟨P, Q, hPQ, hP, hQ⟩ := units_split (decode_scalar l) hc h
    obtain ⟨m, rest, rfl, hm, hrest⟩ := out_split sound_ground hc hPQ
    refine ⟨m, rest, rfl, ?_, ?_⟩
    · rw [tailText, decode_eq_out, hm, hP]
    · rw [tailText, decode_eq_out, hrest, hQ]

variable {P Q : List ℕ}

theorem dropMark_append (hc : c < 128) : dropMark (P ++ c :: Q) = dropMark P ++ c :: Q := by
  cases P with
  | nil => exact if_neg (by rw [byteOrderMark]; omega)
  | cons p P =>
    rw [cons_append, dropMark, dropMark]
    split_ifs <;> rfl

theorem mem_dropMark (h : p ∈ dropMark points) : p ∈ points := by
  cases points with
  | nil => exact h
  | cons q points =>
    rw [dropMark] at h
    split_ifs at h
    · exact mem_cons_of_mem _ h
    · exact h

theorem dropMark_split (h : dropMark points = P ++ c :: Q) :
    ∃ P', points = P' ++ c :: Q ∧ dropMark P' = P := by
  cases points with
  | nil => exact absurd h (by simp [dropMark])
  | cons q points =>
    rw [dropMark] at h
    split_ifs at h with hmark
    · exact ⟨q :: P, by rw [h]; rfl, if_pos hmark⟩
    · refine ⟨P, h, ?_⟩
      cases P with
      | nil => rfl
      | cons p P =>
        obtain ⟨rfl, -⟩ := List.cons.inj h
        exact if_neg hmark

theorem reads_textOf : Reads textOf tailText where
  join m rest c hc := by
    rw [textOf, decode_join m rest hc, dropMark_append hc, flatMap_append, flatMap_cons,
      unitsOf_ascii hc]
    rfl
  split {l U V c} hc h := by
    have hscalar : ∀ p ∈ dropMark (decode l), Scalar p :=
      fun p hp ↦ decode_scalar l p (mem_dropMark hp)
    obtain ⟨P, Q, hPQ, hP, hQ⟩ := units_split hscalar hc h
    obtain ⟨P', hPQ', hP'⟩ := dropMark_split hPQ
    obtain ⟨m, rest, rfl, hm, hrest⟩ := out_split sound_ground hc hPQ'
    refine ⟨m, rest, rfl, ?_, ?_⟩
    · rw [textOf, decode_eq_out, hm, hP', hP]
    · rw [tailText, decode_eq_out, hrest, hQ]

theorem tailText_ne_nil (h : l ≠ []) : tailText l ≠ [] :=
  fun hnil ↦ out_ne_nil l (.inl h) (units_eq_nil hnil)

end Utf8
