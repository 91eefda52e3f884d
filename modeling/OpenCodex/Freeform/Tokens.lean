import OpenCodex.Freeform.Scan
import OpenCodex.Data.JsonWrite

/-!
# The scanner and the reader of JSON, token by token

`Json.run` reads a text unit by unit, and keeps what it read.  `Agrees st l x T` says of a state
`st` of that reader, and of what a scanner makes of a text `l`, that the two go together: where the
scanner finds an end, the reader is there in a state of which `T` holds; where the scanner holds,
the reader has not read a whole value; and where the scanner says that no JSON goes on like this,
the reader has stopped.  Two scanners one after another agree with the reader if each does
(`Agrees.bind`), so what is shown here is one lemma for each token.

A number has no end of its own: it is delivered by the unit behind it.  So the reader need not be
in the very state that is claimed for it, only in one that the rest of the text cannot tell from it
(`Same`).
-/

set_option autoImplicit false

open List

namespace Freeform

open Json

/-! ## Going together -/

/-- The rest of the text does not tell two states apart. -/
def Same : JsString → State → State → Prop
  | [], st, st' => st = st'
  | c :: _, st, st' => finish st = finish st' ∧ step st c = step st' c

theorem Same.refl (l : JsString) (st : State) : Same l st st := by
  cases l with
  | nil => rfl
  | cons c l => exact ⟨rfl, rfl⟩

theorem Same.trans {l : JsString} {st₁ st₂ st₃ : State} (h : Same l st₁ st₂)
    (h' : Same l st₂ st₃) : Same l st₁ st₃ := by
  cases l with
  | nil => exact Eq.trans h h'
  | cons c l => exact ⟨h.1.trans h'.1, h.2.trans h'.2⟩

theorem Same.run {l : JsString} {st st' : State} (h : Same l st st') (ext : JsString) :
    run st (l ++ ext) = run st' (l ++ ext) := by
  cases l with
  | nil => rw [show st = st' from h]
  | cons c l => rw [cons_append, run_cons, run_cons, h.2]

theorem Same.finish {l : JsString} {st st' : State} (h : Same l st st') :
    finish st = finish st' := by
  cases l with
  | nil => rw [show st = st' from h]
  | cons c l => exact h.1

/-- The reader goes from one state over the part of a text before `r` to another. -/
def Reaches (st : State) (l r : JsString) (st' : State) : Prop :=
  ∃ p st₁, l = p ++ r ∧ run st p = some st₁ ∧ Same r st₁ st'

variable {p : JsString}

theorem Reaches.of_run {st st' : State} (h : run st p = some st') (r : JsString) :
    Reaches st (p ++ r) r st' := ⟨p, st', rfl, h, .refl r st'⟩

theorem Reaches.refl (st : State) (l : JsString) : Reaches st l l st := .of_run (p := []) rfl l

theorem Reaches.trans {st st' st'' : State} {l r r' : JsString} (h : Reaches st l r st')
    (h' : Reaches st' r r' st'') : Reaches st l r' st'' := by
  obtain ⟨p, st₁, rfl, hp, hsame⟩ := h
  obtain ⟨p', st₂, rfl, hp', hsame'⟩ := h'
  refine ⟨p ++ p', ?_⟩
  cases p' with
  | nil =>
    obtain rfl := Option.some_inj.mp hp'
    exact ⟨st₁, by rw [append_nil, nil_append], by rw [append_nil, hp], hsame.trans hsame'⟩
  | cons c p' =>
    refine ⟨st₂, (append_assoc _ _ _).symm, ?_, hsame'⟩
    rw [run_append, hp, Option.bind_some, run_cons, hsame.2, ← run_cons, hp']

theorem Reaches.run {st st' : State} {l r : JsString} (h : Reaches st l r st') (ext : JsString) :
    run st (l ++ ext) = run st' (r ++ ext) := by
  obtain ⟨p, st₁, rfl, hp, hsame⟩ := h
  rw [append_assoc, run_append, hp, Option.bind_some, hsame.run]

/-- What the scanner makes of a text, and what the reader does. -/
def Agrees (st : State) (l : JsString) (x : Scan JsString) (T : JsString → State → Prop) : Prop :=
  match x with
  | .at r => ∃ st', Reaches st l r st' ∧ T r st'
  | .hold => ∀ st', run st l = some st' → ∀ v, st'.mode ≠ .done v
  | .never => run st l = none

variable {st st' : State} {l r : JsString} {x : Scan JsString} {T U : JsString → State → Prop}

theorem Reaches.suffix (h : Reaches st l r st') : r <:+ l := by
  obtain ⟨p, st₁, rfl, -⟩ := h
  exact suffix_append p r

/-- **Scanners one after another.** -/
theorem Agrees.bind {f : JsString → Scan JsString} (h : Agrees st l x T)
    (hf : ∀ r st', r <:+ l → T r st' → Agrees st' r (f r) U) : Agrees st l (x.bind f) U := by
  cases x with
  | hold => exact h
  | never => exact h
  | «at» r =>
    obtain ⟨st', hr, hT⟩ := h
    have hrun := hr.run []
    rw [append_nil, append_nil] at hrun
    have hnext := hf r st' hr.suffix hT
    show Agrees st l (f r) U
    cases hx : f r with
    | «at» r' =>
      rw [hx] at hnext
      obtain ⟨st'', hr', hU⟩ := hnext
      exact ⟨st'', hr.trans hr', hU⟩
    | hold =>
      rw [hx] at hnext
      exact fun s hs ↦ hnext s (hrun ▸ hs)
    | never =>
      rw [hx] at hnext
      exact hrun.trans hnext

theorem Agrees.mono (h : Agrees st l x T) (hTU : ∀ r st', T r st' → U r st') : Agrees st l x U := by
  cases x with
  | hold => exact h
  | never => exact h
  | «at» r =>
    obtain ⟨st', hr, hT⟩ := h
    exact ⟨st', hr, hTU r st' hT⟩

theorem Agrees.found (h : Agrees st l x T) : Agrees st l x fun r st' ↦ x = .at r ∧ T r st' := by
  cases x with
  | hold => exact h
  | never => exact h
  | «at» r =>
    obtain ⟨st', hr, hT⟩ := h
    exact ⟨st', hr, rfl, hT⟩

theorem Agrees.after (h : Reaches st l r st') (hx : Agrees st' r x T) : Agrees st l x T :=
  Agrees.bind (x := .at r) ⟨st', h, rfl, rfl⟩ (T := fun r' s ↦ r' = r ∧ s = st')
    (f := fun _ ↦ x) fun _ _ _ hs ↦ hs.1 ▸ hs.2 ▸ hx

/-! ## Whitespace -/

/-- The reader is between two tokens, with no whole value read. -/
structure Between (st : State) : Prop where
  space : ∀ c, isSpace c = true → step st c = some st
  mode : ∀ v, st.mode ≠ .done v

variable {c : CodeUnit}

theorem isSpace_iff : isSpace c = true ↔ c ∈ jsonWhitespace := by
  simp only [isSpace, jsonWhitespace, Bool.or_eq_true, beq_iff_eq, mem_cons, not_mem_nil,
    or_false, or_assoc]

theorem skipWhitespace_agrees (h : Between st) (l : JsString) :
    Agrees st l (skipWhitespace l) fun r st' ↦
      st' = st ∧ ∃ c r', r = c :: r' ∧ isSpace c = false := by
  induction l with
  | nil => exact fun st' hst' ↦ Option.some_inj.mp hst' ▸ h.mode
  | cons c l ih =>
    rw [skipWhitespace]
    split_ifs with hc
    · have hstep := h.space c (isSpace_iff.mpr hc)
      exact .after (.of_run (p := [c]) (by rw [run_cons, hstep]; rfl) l) ih
    · exact ⟨st, .refl st _, rfl, c, l, rfl, Bool.eq_false_iff.mpr fun hs ↦ hc (isSpace_iff.mp hs)⟩

/-- What was read of a text ends in no whitespace. -/
def Ended (l r : JsString) : Prop := ∃ p c, l = p ++ c :: r ∧ isSpace c = false

theorem Ended.of_suffix {l l' r : JsString} (h : Ended l r) (hl : l <:+ l') : Ended l' r := by
  obtain ⟨p, c, rfl, hc⟩ := h
  obtain ⟨p', rfl⟩ := hl
  exact ⟨p' ++ p, c, (append_assoc _ _ _).symm, hc⟩

theorem Ended.of_append {r : JsString} (hne : p ≠ []) (hp : ∀ c ∈ p, isSpace c = false) :
    Ended (p ++ r) r := by
  obtain ⟨q, c, rfl⟩ := (eq_nil_or_concat' p).resolve_left hne
  exact ⟨q, c, by rw [append_assoc]; rfl, hp c (by simp)⟩

/-! ## Strings -/

theorem hexDigit?_isSome (c : CodeUnit) : (hexDigit? c).isSome = isHexDigit c := by
  have h : ∀ a b : CodeUnit, (a ≤ b) = (a.toNat ≤ b.toNat) := fun _ _ ↦ rfl
  rw [hexDigit?, isHexDigit]
  simp only [h, UInt16.reduceToNat]
  split_ifs with h₁ h₂ h₃
  · simp [h₁]
  · simp [h₂]
  · simp [h₃]
  · simp only [Option.isSome_none]
    symm
    simp only [Bool.or_eq_false_iff, Bool.and_eq_false_iff, decide_eq_false_iff_not]
    omega

theorem unescape?_isSome (c : CodeUnit) :
    (unescape? c).isSome = true ↔ c ∈ jsonEscapes.map (·.1) := by
  have hmem : c ∈ jsonEscapes.map (·.1) ↔ (c = 0x22 ∨ c = 0x5c ∨ c = 0x2f) ∨ c = 0x62 ∨ c = 0x66 ∨
      c = 0x6e ∨ c = 0x72 ∨ c = 0x74 := by
    simp only [jsonEscapes, map_cons, map_nil, mem_cons, not_mem_nil, or_false, or_assoc]
  rw [hmem, unescape?]
  split_ifs with h h₁ h₂ h₃ h₄ h₅
  all_goals simp [*]

/-- A text is what follows the opening quote of a string. -/
def Spells (p s : JsString) : Prop :=
  ∀ stack isName units, run ⟨stack, .str isName units⟩ p =
    endString stack isName (s.reverse ++ units)

theorem Spells.close : Spells [0x22] [] := fun stack isName units ↦ by
  rw [run_cons, step]
  dsimp only
  rw [if_pos rfl, reverse_nil, nil_append]
  cases endString stack isName units <;> rfl

variable {u : CodeUnit}

variable {s : JsString}

theorem Spells.append {q : JsString} (hp : ∀ stack isName units, run ⟨stack, .str isName units⟩ p =
      some ⟨stack, .str isName (u :: units)⟩) (h : Spells q s) : Spells (p ++ q) (u :: s) :=
  fun stack isName units ↦ by
    rw [run_append, hp, Option.bind_some, h, reverse_cons, append_assoc, singleton_append]

theorem parse_of_spells (h : Spells p s) : parse (0x22 :: p) = some (.str s) := by
  show (run ⟨[], .str false []⟩ p).bind finish = _
  rw [h, append_nil]
  show some (Json.str s.reverse.reverse) = _
  rw [reverse_reverse]

theorem run_plain (hquote : c ≠ 0x22) (hslash : c ≠ 0x5c) (hcontrol : ¬c ≤ 0x1f)
    (stack : List Frame) (isName : Bool) (units : JsString) :
    run ⟨stack, .str isName units⟩ [c] = some ⟨stack, .str isName (c :: units)⟩ := by
  have hlt : ¬c < 0x20 := fun h ↦ hcontrol (Nat.lt_succ_iff.mp h)
  rw [run_cons, step_plain stack isName units hquote hslash hlt]
  rfl

theorem run_escaped {n : CodeUnit} (hn : n ≠ 0x75) (hu : unescape? n = some u) (stack : List Frame)
    (isName : Bool) (units : JsString) :
    run ⟨stack, .str isName units⟩ [0x5c, n] = some ⟨stack, .str isName (u :: units)⟩ := by
  show (step ⟨stack, .esc isName units⟩ n).bind _ = _
  rw [step]
  dsimp only
  rw [if_neg hn, hu]
  rfl

theorem run_hex {d₁ d₂ d₃ d₄ : CodeUnit} (h : [d₁, d₂, d₃, d₄].all isHexDigit = true) :
    ∃ u, ∀ (stack : List Frame) (isName : Bool) (units : JsString),
      run ⟨stack, .str isName units⟩ [0x5c, 0x75, d₁, d₂, d₃, d₄] =
        some ⟨stack, .str isName (u :: units)⟩ := by
  simp only [all_cons, all_nil, Bool.and_true, Bool.and_eq_true, ← hexDigit?_isSome,
    Option.isSome_iff_exists] at h
  obtain ⟨⟨a, ha⟩, ⟨b, hb⟩, ⟨c, hc⟩, ⟨d, hd⟩⟩ := h
  refine ⟨UInt16.ofNat (16 * (16 * (16 * (16 * 0 + a) + b) + c) + d), fun stack isName units ↦ ?_⟩
  show run ⟨stack, .hex isName units 0 0⟩ [d₁, d₂, d₃, d₄] = _
  simp only [run_cons, step, ha, hb, hc, hd, Option.map_some, run_nil]
  rfl

variable {stack : List Frame} {isName : Bool}

variable {units : JsString} {count code : ℕ}

theorem run_hex_stuck {l : JsString} (hcount : count + l.length = 4) (hl : l.all isHexDigit = false) :
    run ⟨stack, .hex isName units count code⟩ l = none := by
  induction l generalizing count code with
  | nil => nomatch hl
  | cons d l ih =>
    rw [run_cons, step]
    dsimp only
    rw [length_cons] at hcount
    cases hd : hexDigit? d with
    | none => rfl
    | some k =>
      have hdigit : isHexDigit d = true := by rw [← hexDigit?_isSome, hd]; rfl
      rw [all_cons, hdigit, Bool.true_and] at hl
      have hne : ¬count = 3 := by
        rintro rfl
        rw [eq_nil_of_length_eq_zero (l := l) (by omega)] at hl
        nomatch hl
      rw [Option.map_some, if_neg hne, Option.bind_some]
      exact ih (by omega) hl

theorem run_hex_short {l : JsString} (hcount : count + l.length < 4) {st' : State}
    (h : run ⟨stack, .hex isName units count code⟩ l = some st') : ∀ v, st'.mode ≠ .done v := by
  induction l generalizing count code with
  | nil =>
    obtain rfl := Option.some_inj.mp h
    exact nofun
  | cons d l ih =>
    rw [length_cons] at hcount
    rw [run_cons, step] at h
    dsimp only at h
    obtain ⟨s, hs, h⟩ := Option.bind_eq_some_iff.mp h
    obtain ⟨k, -, rfl⟩ := Option.map_eq_some_iff.mp hs
    rw [if_neg (by omega : ¬count = 3)] at h
    exact ih (by omega) h

/-- What the scanner makes of what follows an opening quote, and what the reader does. -/
def StringAgrees (l : JsString) (x : Scan JsString) : Prop :=
  match x with
  | .at r => Ended l r ∧ ∃ p s, l = p ++ r ∧ Spells p s
  | .hold => ∀ stack isName units st', run ⟨stack, .str isName units⟩ l = some st' →
      ∀ v, st'.mode ≠ .done v
  | .never => ∀ stack isName units, run ⟨stack, .str isName units⟩ l = none

theorem StringAgrees.append (hp : ∀ stack isName units, run ⟨stack, .str isName units⟩ p =
      some ⟨stack, .str isName (u :: units)⟩) (h : StringAgrees l x) : StringAgrees (p ++ l) x := by
  cases x with
  | «at» r =>
    obtain ⟨hended, q, s, rfl, hs⟩ := h
    exact ⟨hended.of_suffix (suffix_append p _), p ++ q, u :: s,
      (append_assoc _ _ _).symm, .append hp hs⟩
  | hold =>
    intro stack isName units st' hst'
    rw [run_append, hp, Option.bind_some] at hst'
    exact h _ _ _ _ hst'
  | never =>
    intro stack isName units
    rw [run_append, hp, Option.bind_some]
    exact h _ _ _

theorem scanString_agrees (l : JsString) : StringAgrees l (scanString l) := by
  fun_induction scanString l with
  | case1 =>
    intro stack isName units st' hst' v hv
    obtain rfl := Option.some_inj.mp hst'
    exact Mode.noConfusion hv
  | case2 l => exact ⟨⟨[], 0x22, rfl, rfl⟩, [0x22], [], rfl, .close⟩
  | case3 =>
    intro stack isName units st' hst' v hv
    obtain rfl := Option.some_inj.mp hst'
    exact Mode.noConfusion hv
  | case4 d₁ d₂ d₃ d₄ l hdigits _ ih =>
    obtain ⟨u, hu⟩ := run_hex hdigits
    exact ih.append (p := [0x5c, 0x75, d₁, d₂, d₃, d₄]) hu
  | case5 d₁ d₂ d₃ d₄ l hdigits =>
    intro stack isName units
    show run ⟨stack, .hex isName units 0 0⟩ ([d₁, d₂, d₃, d₄] ++ l) = none
    rw [run_append, run_hex_stuck rfl (eq_false_of_ne_true hdigits)]
    rfl
  | case6 l hshort =>
    intro stack isName units st' hst'
    have hlength : 0 + l.length < 4 := by
      by_contra hge
      match l, hshort with
      | d₁ :: d₂ :: d₃ :: d₄ :: l, hshort => exact hshort d₁ d₂ d₃ d₄ l rfl
      | [], _ | [_], _ | [_, _], _ | [_, _, _], _ => exact hge (by simp)
    exact run_hex_short hlength hst'
  | case7 n l hn hescape _ ih =>
    obtain ⟨u, hu⟩ := Option.isSome_iff_exists.mp ((unescape?_isSome n).mpr hescape)
    exact ih.append (p := [0x5c, n]) (run_escaped hn hu)
  | case8 n l hn hescape =>
    intro stack isName units
    show (step ⟨stack, .esc isName units⟩ n).bind _ = none
    have hnone : unescape? n = none :=
      Option.not_isSome_iff_eq_none.mp fun h ↦ hescape ((unescape?_isSome n).mp h)
    rw [step]
    dsimp only
    rw [if_neg hn, hnone]
    rfl
  | case9 c l hquote hslash hcontrol =>
    intro stack isName units
    rw [run_cons, step]
    dsimp only
    rw [if_neg hquote, if_neg hslash, if_pos (show c < 0x20 from Nat.lt_succ_iff.mpr hcontrol)]
    rfl
  | case10 c l hquote hslash hcontrol ih =>
    exact ih.append (p := [c]) (run_plain hquote hslash hcontrol)

/-! ## Numbers

The expression for numbers and the reader are compared by what of a number has been read. -/

theorem digit?_isSome (c : CodeUnit) : (digit? c).isSome = isDigit c := by
  have h : ∀ a b : CodeUnit, (a ≤ b) = (a.toNat ≤ b.toNat) := fun _ _ ↦ rfl
  rw [digit?, isDigit]
  simp only [h, UInt16.reduceToNat]
  split_ifs with h₁
  · simp [h₁]
  · simp only [Option.isSome_none]
    symm
    simp only [Bool.and_eq_false_iff, decide_eq_false_iff_not]
    omega

/-- What of the expression is left. -/
def phasePart : NumPhase → JsString → Bool
  | .minus => wholePart
  | .zero => fractionPart
  | .whole => digitsThen fractionPart
  | .point => someDigitsThen exponentPart
  | .frac => digitsThen exponentPart
  | .expLetter => exponentDigits
  | .expSign => someDigitsThen List.isEmpty
  | .exp => digitsThen List.isEmpty

theorem digit_not_letter (h : isDigit c = true) :
    c ≠ 0x2e ∧ c ≠ 0x65 ∧ c ≠ 0x45 ∧ c ≠ 0x2b ∧ c ≠ 0x2d := by
  refine ⟨?_, ?_, ?_, ?_, ?_⟩
  all_goals
    rintro rfl
    nomatch h

theorem digit?_eq_zero {d : ℕ} (h : digit? c = some d) : d = 0 ↔ c = 0x30 := by
  rw [digit?] at h
  split_ifs at h with hc
  obtain rfl := Option.some_inj.mp h
  rw [← UInt16.toNat_inj]
  show _ ↔ c.toNat = 0x30
  omega

theorem phasePart_step (n : NumRead) (c : CodeUnit) (p : JsString) :
    (n.step c).any (fun n ↦ phasePart n.phase p) = phasePart n.phase (c :: p) := by
  obtain ⟨phase, negative, mantissa, scale, expNegative, exponent⟩ := n
  have hsome := digit?_isSome c
  cases hd : digit? c with
  | some d =>
    have hdigit : isDigit c = true := by rw [← hsome, hd]; rfl
    obtain ⟨hdot, he, hE, hplus, hminus⟩ := digit_not_letter hdigit
    cases phase with
    | minus =>
      rw [NumRead.step]
      dsimp only
      rw [hd, Option.map_some, Option.any_some, NumRead.wholeStart, NumRead.addDigit, phasePart,
        wholePart, hdigit, Bool.true_and]
      simp only [digit?_eq_zero hd]
      split_ifs <;> rfl
    | _ =>
      simp [NumRead.step, NumRead.addDigit, phasePart, fractionPart, exponentPart, exponentDigits,
        digitsThen, someDigitsThen, hd, hdigit, hdot, he, hE, hplus, hminus]
  | none =>
    have hdigit : isDigit c = false := by rw [← hsome, hd]; rfl
    have hne : c ≠ 0x30 := by
      rintro rfl
      cases hdigit
    by_cases hletter : c = 0x2e ∨ c = 0x65 ∨ c = 0x45 ∨ c = 0x2b ∨ c = 0x2d
    · rcases hletter with rfl | rfl | rfl | rfl | rfl <;> cases phase <;> rfl
    · obtain ⟨hdot, he, hE, hplus, hminus⟩ := by simpa only [not_or] using hletter
      cases phase <;>
        simp [NumRead.step, phasePart, wholePart, fractionPart, exponentPart, exponentDigits,
          digitsThen, someDigitsThen, hd, hdigit, hne, hdot, he, hE, hplus, hminus]

theorem phasePart_eq (p : JsString) (n : NumRead) :
    (p.foldlM NumRead.step n).any NumRead.complete = phasePart n.phase p := by
  induction p generalizing n with
  | nil =>
    obtain ⟨phase, -⟩ := n
    cases phase <;> rfl
  | cons c p ih =>
    rw [foldlM_cons, ← phasePart_step]
    show ((n.step c).bind _).any _ = _
    cases n.step c with
    | none => rfl
    | some n' => exact ih n'

/-- The number that a text without other units is. -/
def readNumber : JsString → Option NumRead
  | [] => none
  | c :: l =>
    if c = 0x2d then l.foldlM NumRead.step { numStart with negative := true }
    else (c :: l).foldlM NumRead.step numStart

theorem readNumber_complete (p : JsString) :
    (readNumber p).any NumRead.complete = jsonNumber p := by
  cases p with
  | nil => rfl
  | cons c l =>
    rw [readNumber, jsonNumber]
    split_ifs
    · exact phasePart_eq l _
    · exact phasePart_eq (c :: l) _

theorem numberChar_token (h : isNumberChar c = true) :
    isSpace c = false ∧ c ∉ ([0x2c, 0x5d, 0x7d, 0x22, 0x7b, 0x5b, 0x74, 0x66, 0x6e] :
      List CodeUnit) := by
  refine ⟨eq_false_of_ne_true fun hs ↦ ?_, fun hmem ↦ ?_⟩
  · have hall : ∀ d ∈ jsonWhitespace, isNumberChar d = false := by decide
    exact absurd h (by rw [hall c (isSpace_iff.mp hs)]; exact Bool.false_ne_true)
  · have hall : ∀ d ∈ ([0x2c, 0x5d, 0x7d, 0x22, 0x7b, 0x5b, 0x74, 0x66, 0x6e] : List CodeUnit),
        isNumberChar d = false := by decide
    exact absurd h (by rw [hall c hmem]; exact Bool.false_ne_true)

theorem step_of_not_numberChar (h : isNumberChar c = false) (n : NumRead) : n.step c = none := by
  simp only [isNumberChar, Bool.or_eq_false_iff, beq_eq_false_iff_ne] at h
  obtain ⟨⟨⟨⟨⟨hminus, hplus⟩, hdigit⟩, hdot⟩, he⟩, hE⟩ := h
  have hd : digit? c = none := by
    rw [← Option.not_isSome_iff_eq_none, digit?_isSome, hdigit]
    exact Bool.false_ne_true
  obtain ⟨phase, negative, mantissa, scale, expNegative, exponent⟩ := n
  cases phase <;> simp [NumRead.step, hd, hminus, hplus, hdot, he, hE]

theorem step_num (h : isNumberChar c = true) (stack : List Frame) (n : NumRead) :
    step ⟨stack, .num n⟩ c = (n.step c).map fun n ↦ ⟨stack, .num n⟩ := by
  obtain ⟨hspace, htoken⟩ := numberChar_token h
  simp only [mem_cons, not_or] at htoken
  obtain ⟨hcomma, hbracket, hbrace, -⟩ := htoken
  rw [step]
  dsimp only
  cases n.step c with
  | some n' => rfl
  | none =>
    dsimp only
    split_ifs
    · rw [stepDelivered, hspace]
      rcases stack with _ | ⟨_ | ⟨ms, _ | name⟩, rest⟩ <;>
        simp [deliver, punctuate, hcomma, hbracket, hbrace]
    · rfl

theorem run_num (h : ∀ c ∈ p, isNumberChar c = true) (stack : List Frame) (n : NumRead) :
    run ⟨stack, .num n⟩ p = (p.foldlM NumRead.step n).map fun n ↦ ⟨stack, .num n⟩ := by
  induction p generalizing n with
  | nil => rfl
  | cons c p ih =>
    obtain ⟨hc, hp⟩ := forall_mem_cons.mp h
    rw [run_cons, step_num hc, foldlM_cons]
    show _ = ((n.step c).bind _).map _
    cases n.step c with
    | none => rfl
    | some n' => exact ih hp n'

theorem run_readNumber (h : ∀ c ∈ p, isNumberChar c = true) (hne : p ≠ []) (stack : List Frame) :
    run ⟨stack, .value⟩ p = (readNumber p).map fun n ↦ ⟨stack, .num n⟩ := by
  cases p with
  | nil => exact absurd rfl hne
  | cons c p =>
    obtain ⟨hc, hp⟩ := forall_mem_cons.mp h
    obtain ⟨hspace, htoken⟩ := numberChar_token hc
    simp only [mem_cons, not_or] at htoken
    obtain ⟨-, -, -, hquote, hbrace, hbracket, ht, hf, hn, -⟩ := htoken
    rw [run_cons, step]
    dsimp only
    rw [hspace, if_neg Bool.false_ne_true, startValue, if_neg hquote, if_neg hbrace,
      if_neg hbracket, readNumber]
    by_cases hminus : c = 0x2d
    · rw [if_pos hminus, if_pos hminus, Option.bind_some, run_num hp]
    · rw [if_neg hminus, if_neg ht, if_neg hf, if_neg hn, if_neg hminus, foldlM_cons]
      show _ = (((digit? c).map numStart.wholeStart).bind _).map _
      cases digit? c with
      | none => rfl
      | some d => exact run_num hp stack _

theorem startValue_eq_none (hc : c ∉ ([0x22, 0x7b, 0x5b, 0x74, 0x66, 0x6e] : List CodeUnit))
    (hnumber : isNumberChar c = false) (stack : List Frame) : startValue stack c = none := by
  simp only [mem_cons, not_mem_nil, or_false, not_or] at hc
  simp only [isNumberChar, Bool.or_eq_false_iff, beq_eq_false_iff_ne] at hnumber
  obtain ⟨⟨⟨⟨⟨hminus, -⟩, hdigit⟩, -⟩, -⟩, -⟩ := hnumber
  obtain ⟨hquote, hbrace, hbracket, ht, hf, hn⟩ := hc
  have hd : digit? c = none := by
    rw [← Option.not_isSome_iff_eq_none, digit?_isSome, hdigit]
    exact Bool.false_ne_true
  rw [startValue, if_neg hquote, if_neg hbrace, if_neg hbracket, if_neg hminus, if_neg ht,
    if_neg hf, if_neg hn, hd]
  rfl

theorem scanNumber_agrees (hspace : isSpace c = false)
    (hc : c ∉ ([0x22, 0x7b, 0x5b, 0x74, 0x66, 0x6e] : List CodeUnit)) (stack : List Frame)
    (l : JsString) : Agrees ⟨stack, .value⟩ (c :: l) (scanNumber (c :: l)) fun _ st' ↦
      ∃ q, st' = deliver stack (.num q) := by
  have hparts := takeWhile_append_dropWhile (p := isNumberChar) (l := c :: l)
  have hall : ∀ d ∈ (c :: l).takeWhile isNumberChar, isNumberChar d = true :=
    List.all_eq_true.mp all_takeWhile
  have hhead := head?_dropWhile_not isNumberChar (c :: l)
  rw [scanNumber]
  split_ifs with hnone hrest hnumber
  · -- the first unit is in no number, and begins no other value
    have hfirst : isNumberChar c = false := by
      rw [takeWhile_cons] at hnone
      split_ifs at hnone with h
      exact eq_false_of_ne_true h
    show run _ _ = none
    rw [run_cons, step]
    dsimp only
    rw [hspace, if_neg Bool.false_ne_true, startValue_eq_none hc hfirst]
    rfl
  · rw [hrest, append_nil] at hparts
    rw [← hparts]
    intro st' hst'
    rw [run_readNumber hall hnone] at hst'
    obtain ⟨n, -, rfl⟩ := Option.map_eq_some_iff.mp hst'
    rintro _ ⟨⟩
  · cases hrest' : (c :: l).dropWhile isNumberChar with
    | nil => exact absurd hrest' hrest
    | cons d rest =>
      rw [hrest'] at hparts hhead
      have hcomplete := (readNumber_complete _).trans hnumber
      cases hn : readNumber ((c :: l).takeWhile isNumberChar) with
      | none =>
        rw [hn] at hcomplete
        cases hcomplete
      | some n =>
        rw [hn, Option.any_some] at hcomplete
        refine ⟨_, ⟨_, ⟨stack, .num n⟩, hparts.symm, ?_, finish_num stack hcomplete,
          step_num_ends stack hcomplete (step_of_not_numberChar hhead n)⟩, n.value, rfl⟩
        rw [run_readNumber hall hnone, hn]
        rfl
  · cases hrest' : (c :: l).dropWhile isNumberChar with
    | nil => exact absurd hrest' hrest
    | cons d rest =>
      rw [hrest'] at hparts hhead
      show run _ _ = none
      rw [← hparts, run_append, run_readNumber hall hnone]
      cases hn : readNumber ((c :: l).takeWhile isNumberChar) with
      | none => rfl
      | some n =>
        have hcomplete := readNumber_complete ((c :: l).takeWhile isNumberChar)
        rw [hn, eq_false_of_ne_true hnumber, Option.any_some] at hcomplete
        rw [Option.map_some, Option.bind_some, run_cons, step]
        dsimp only
        rw [step_of_not_numberChar hhead n]
        dsimp only
        rw [hcomplete, if_neg Bool.false_ne_true]
        rfl

theorem scanNumber_at {l r : JsString} :
    scanNumber l = .at r ↔ ∃ p d r', l = p ++ r ∧ r = d :: r' ∧ isNumberChar d = false ∧
      (∀ c ∈ p, isNumberChar c = true) ∧ jsonNumber p = true := by
  constructor
  · intro h
    have hparts := takeWhile_append_dropWhile (p := isNumberChar) (l := l)
    have hhead := head?_dropWhile_not isNumberChar l
    rw [scanNumber] at h
    split_ifs at h with hnone hrest hnumber
    obtain rfl := Scan.at.inj h
    cases hr : l.dropWhile isNumberChar with
    | nil => exact absurd hr hrest
    | cons d r' =>
      rw [hr] at hparts hhead
      exact ⟨_, d, r', hparts.symm, rfl, hhead, List.all_eq_true.mp all_takeWhile, hnumber⟩
  · rintro ⟨p, d, r', rfl, rfl, hd, hp, hnumber⟩
    have hne : p ≠ [] := by
      rintro rfl
      nomatch hnumber
    have hd' : ¬isNumberChar d = true := by rw [hd]; exact Bool.false_ne_true
    rw [scanNumber, takeWhile_append_of_pos hp, dropWhile_append_of_pos hp,
      takeWhile_cons_of_neg hd', dropWhile_cons_of_neg hd', append_nil,
      if_neg hne, if_neg (cons_ne_nil _ _), if_pos hnumber]

theorem ended_of_scanNumber {l r : JsString} (h : scanNumber l = .at r) : Ended l r := by
  obtain ⟨p, -, -, rfl, -, -, hp, hnumber⟩ := scanNumber_at.mp h
  refine .of_append ?_ fun c hc ↦ (numberChar_token (hp c hc)).1
  rintro rfl
  nomatch hnumber

/-! ## Scalars -/

variable {literal : JsString}

theorem ended_of_scanLiteral {l r : JsString} (h : scanLiteral literal l = .at r)
    (hne : literal ≠ []) (hspace : ∀ c ∈ literal, isSpace c = false) : Ended l r := by
  rw [scanLiteral] at h
  split_ifs at h with hbegins
  obtain ⟨rest, rfl⟩ := isPrefixOf_iff_prefix.mp hbegins
  obtain rfl := Scan.at.inj h
  rw [drop_left]
  exact .of_append hne hspace

variable {v : Json}

theorem lit_agrees (hne : literal ≠ []) (l : JsString) :
    Agrees ⟨stack, .lit literal v⟩ l (scanLiteral literal l) fun _ st' ↦ st' = deliver stack v := by
  induction literal generalizing l with
  | nil => exact absurd rfl hne
  | cons e literal ih =>
    cases l with
    | nil =>
      intro st' hst' _ hm
      obtain rfl := Option.some_inj.mp hst'
      exact Mode.noConfusion hm
    | cons c l =>
      have hstep : step ⟨stack, .lit (e :: literal) v⟩ c =
          if c = e then if literal = [] then some (deliver stack v) else some ⟨stack, .lit literal v⟩
          else none := rfl
      by_cases hc : c = e
      · subst hc
        have hscan : scanLiteral (c :: literal) (c :: l) = scanLiteral literal l := by
          simp [scanLiteral, List.isPrefixOf]
        rw [if_pos rfl] at hstep
        rw [hscan]
        by_cases hlast : literal = []
        · subst hlast
          rw [if_pos rfl] at hstep
          exact ⟨_, .of_run (p := [c]) (by rw [run_cons, hstep]; rfl) l, rfl⟩
        · rw [if_neg hlast] at hstep
          exact .after (.of_run (p := [c]) (by rw [run_cons, hstep]; rfl) l) (ih hlast l)
      · have hscan : scanLiteral (e :: literal) (c :: l) = .never := by
          have hc' : ¬e = c := fun h ↦ hc h.symm
          simp [scanLiteral, List.isPrefixOf, hc, hc']
        rw [hscan]
        show run _ _ = none
        rw [run_cons, hstep, if_neg hc]
        rfl

theorem scanLiteral_agrees (hne : literal ≠ [])
    (hstart : step ⟨stack, .value⟩ c = some ⟨stack, .lit literal v⟩) (l : JsString) :
    Agrees ⟨stack, .value⟩ (c :: l) (scanLiteral (c :: literal) (c :: l)) fun _ st' ↦
      st' = deliver stack v := by
  have hscan : scanLiteral (c :: literal) (c :: l) = scanLiteral literal l := by
    simp [scanLiteral, List.isPrefixOf]
  rw [hscan]
  exact .after (.of_run (p := [c]) (by rw [run_cons, hstart]; rfl) l) (lit_agrees hne l)

/-- What is known of a value that begins with a unit. -/
structure Begun (c : CodeUnit) (l r : JsString) (v : Json) : Prop where
  /-- Behind a quote, it is the string that is spelled there, -/
  string : c = 0x22 → ∃ p s, l = p ++ r ∧ Spells p s ∧ v = .str s
  /-- and elsewhere it is none. -/
  other : c ≠ 0x22 → ∀ s, v ≠ .str s
  number : ∀ q, v = .num q → scanNumber (c :: l) = .at r
  object : ∀ ms, v = .obj ms → c = 0x7b
  ended : Ended (c :: l) r

theorem scanString_from {st : State} (hstart : step st 0x22 = some ⟨stack, .str isName []⟩)
    {f : JsString → State} (hend : ∀ s, endString stack isName s.reverse = some (f s))
    (l : JsString) : Agrees st (0x22 :: l) (scanString l) fun r st' ↦
      Ended (0x22 :: l) r ∧ ∃ p s, l = p ++ r ∧ Spells p s ∧ st' = f s := by
  have h := scanString_agrees l
  refine .after (.of_run (p := [0x22]) (by rw [run_cons, hstart]; rfl) l) ?_
  cases hx : scanString l with
  | «at» r =>
    rw [hx] at h
    obtain ⟨hended, p, s, hl, hs⟩ := h
    refine ⟨f s, ?_, hended.of_suffix (suffix_cons _ l), p, s, hl, hs, rfl⟩
    rw [hl]
    exact .of_run (by rw [hs, append_nil, hend]) r
  | hold | never =>
    rw [hx] at h
    exact h _ _ _

/-- **A scalar**, and what stands behind it. -/
theorem scanScalar_agrees (hspace : isSpace c = false) (hbrace : c ≠ 0x7b) (hbracket : c ≠ 0x5b)
    (stack : List Frame) (l : JsString) :
    Agrees ⟨stack, .value⟩ (c :: l) (scanScalar (c :: l)) fun r st' ↦
      ∃ v, st' = deliver stack v ∧ Begun c l r v := by
  rw [scanScalar]
  split_ifs with hquote ht hf hn
  · subst hquote
    refine (scanString_from rfl (f := fun s ↦ deliver stack (.str s)) (fun s ↦ ?_) l).mono ?_
    · show some (deliver stack (.str s.reverse.reverse)) = _
      rw [reverse_reverse]
    · rintro r _ ⟨hended, p, s, hl, hs, rfl⟩
      exact ⟨.str s, rfl, fun _ ↦ ⟨p, s, hl, hs, rfl⟩, fun h ↦ absurd rfl h,
        by rintro _ ⟨⟩, by rintro _ ⟨⟩, hended⟩
  iterate 3
    · subst c
      refine (scanLiteral_agrees (cons_ne_nil _ _) rfl l).found.mono fun r st' h ↦ ?_
      exact ⟨_, h.2, fun h ↦ absurd h hquote, by rintro - _ ⟨⟩, by rintro _ ⟨⟩, by rintro _ ⟨⟩,
        ended_of_scanLiteral h.1 (by decide) (by decide)⟩
  · have hc : c ∉ ([0x22, 0x7b, 0x5b, 0x74, 0x66, 0x6e] : List CodeUnit) := by
      simp only [mem_cons, not_mem_nil, or_false, not_or]
      exact ⟨hquote, hbrace, hbracket, ht, hf, hn⟩
    refine (scanNumber_agrees hspace hc stack l).found.mono ?_
    rintro r _ ⟨hscan, q, rfl⟩
    exact ⟨.num q, rfl, fun h ↦ absurd h hquote, by rintro - _ ⟨⟩, fun _ _ ↦ hscan,
      by rintro _ ⟨⟩, ended_of_scanNumber hscan⟩

end Freeform
