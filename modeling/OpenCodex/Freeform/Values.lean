import OpenCodex.Freeform.Tokens

/-!
# Where a value ends

`scanValues` walks a value with a stack of the units that close what is open, where the reader of
JSON has a stack of what is in the containers so far.  `Closes` says that the two stacks belong
together, on top of whatever the reader had open before.  One induction on the turns of the loop
then shows that the scanner comes out where the reader delivers the value (`scanValues_agrees`).

From this follows what the scanner accepts: a text that is a JSON value without whitespace around
it, and nothing else (`scanValue_eq_at`).
-/

set_option autoImplicit false

open List Option Nat

namespace Freeform

open Json

/-! ## Between two tokens -/

theorem between_value (stack : List Frame) : Between ⟨stack, .value⟩ :=
  ⟨fun _ hc ↦ if_pos hc, nofun⟩

theorem between_elem (stack : List Frame) : Between ⟨stack, .elem⟩ := ⟨fun _ hc ↦ if_pos hc, nofun⟩

theorem between_member (stack : List Frame) : Between ⟨stack, .member⟩ :=
  ⟨fun _ hc ↦ if_pos hc, nofun⟩

theorem between_name (stack : List Frame) : Between ⟨stack, .name⟩ := ⟨fun _ hc ↦ if_pos hc, nofun⟩

theorem between_colon (stack : List Frame) : Between ⟨stack, .colon⟩ :=
  ⟨fun _ hc ↦ if_pos hc, nofun⟩

theorem between_after (stack : List Frame) : Between ⟨stack, .after⟩ :=
  ⟨fun _ hc ↦ if_pos hc, nofun⟩

variable {l : JsString} {c : CodeUnit} {st : State}

variable {T : JsString → State → Prop}

theorem agrees_never (h : step st c = none) : Agrees st (c :: l) .never T := by
  show run st (c :: l) = none
  rw [run_cons, h]
  rfl

variable {x : Scan JsString}

theorem agrees_cons (st' : State) (h : step st c = some st') (hx : Agrees st' l x T) :
    Agrees st (c :: l) x T :=
  .after (.of_run (p := [c]) (by rw [run_cons, h]; rfl) l) hx

/-- A first unit is there, and it is no whitespace. -/
def Starts (l : JsString) : Prop := ∃ c r, l = c :: r ∧ isSpace c = false

/-! ## The name of a member -/

theorem colon_agrees (ms : List (JsString × Json)) (name : JsString) (stack : List Frame)
    (l : JsString) : Agrees ⟨.obj ms (some name) :: stack, .colon⟩ l
      ((skipWhitespace l).bind fun colon ↦
        if colon.head? ≠ some 0x3a then .never else skipWhitespace colon.tail)
      fun r st' ↦ st' = ⟨.obj ms (some name) :: stack, .value⟩ ∧ Starts r := by
  refine (skipWhitespace_agrees (between_colon _) l).bind ?_
  rintro _ _ - ⟨rfl, c, r, rfl, hspace⟩
  rw [head?_cons, tail_cons]
  split_ifs with hc
  · refine agrees_never ?_
    rw [step]
    dsimp only
    rw [hspace, if_neg Bool.false_ne_true, if_neg fun h ↦ hc (congrArg some h)]
  · obtain rfl := some_inj.mp (not_not.mp hc)
    exact agrees_cons _ rfl (skipWhitespace_agrees (between_value _) r)

theorem scanMemberKey_agrees {ms : List (JsString × Json)} {stack : List Frame}
    (hquote : step st 0x22 = some ⟨.obj ms none :: stack, .str true []⟩)
    (hother : c ≠ 0x22 → step st c = none) (l : JsString) :
    Agrees st (c :: l) (scanMemberKey (c :: l)) fun r st' ↦
      ∃ name, st' = ⟨.obj ms (some name) :: stack, .value⟩ ∧ Starts r := by
  rw [scanMemberKey]
  split_ifs with hc
  · exact agrees_never (hother hc)
  · obtain rfl := not_not.mp hc
    refine (scanString_from hquote (f := fun s ↦ ⟨.obj ms (some s) :: stack, .colon⟩)
      (fun s ↦ ?_) l).bind ?_
    · show some (State.mk (.obj ms (some s.reverse.reverse) :: stack) .colon) = _
      rw [reverse_reverse]
    · rintro r _ - ⟨-, p, name, -, -, rfl⟩
      exact (colon_agrees ms name stack r).mono fun _ _ h ↦ ⟨name, h⟩

/-! ## What is open -/

/-- The units that close what is open, over the containers that were open before. -/
inductive Closes (base : List Frame) : List CodeUnit → List Frame → Prop where
  | base : Closes base [] base
  | arr {closers : List CodeUnit} {stack : List Frame} {items : List Json} :
      Closes base closers stack → Closes base (0x5d :: closers) (.arr items :: stack)
  | obj {closers : List CodeUnit} {stack : List Frame} {ms : List (JsString × Json)}
      {name : JsString} :
      Closes base closers stack → Closes base (0x7d :: closers) (.obj ms (some name) :: stack)

/-- A container that ends in a unit. -/
def EndsIn (closer : CodeUnit) : Json → Prop
  | .arr _ => closer = 0x5d
  | .obj _ => closer = 0x7d
  | _ => False

/-- The container that is closed last. -/
def Outermost (closers : List CodeUnit) (v : Json) : Prop :=
  ∃ closer, closers.getLast? = some closer ∧ EndsIn closer v

theorem outermost_cons {closers : List CodeUnit} (hne : closers ≠ []) (c : CodeUnit) (v : Json) :
    Outermost (c :: closers) v ↔ Outermost closers v := by
  cases closers with
  | nil => exact absurd rfl hne
  | cons d closers => rw [Outermost, Outermost, getLast?_cons_cons]

/-- The scanner of further values, from wherever one is to be read. -/
def Continues (base : List Frame) (turns : ℕ)
    (next : List CodeUnit → JsString → Scan JsString) : Prop :=
  ∀ closers stack l, Closes base closers stack → closers ≠ [] → Starts l → l.length < turns →
    Agrees ⟨stack, .value⟩ l (next closers l) fun r st' ↦
      ∃ v, st' = deliver base v ∧ Outermost closers v ∧ Ended l r

/-- What is delivered when a value is complete: the value where nothing is open, else what it
closes. -/
def Delivered (base : List Frame) (closers : List CodeUnit) (v : Json) (l r : JsString)
    (st' : State) : Prop :=
  ∃ w, st' = deliver base w ∧
    (closers = [] ∧ w = v ∧ r = l ∨ closers ≠ [] ∧ Outermost closers w ∧ Ended l r)

variable {r : JsString} {v : Json}

theorem Delivered.container {base : List Frame} {closers : List CodeUnit} {st' : State}
    (h : Delivered base closers v l r st') (hv : EndsIn c v) (hc : isSpace c = false) :
    ∃ w, st' = deliver base w ∧ Outermost (c :: closers) w ∧ Ended (c :: l) r := by
  obtain ⟨w, hw, ⟨rfl, rfl, rfl⟩ | ⟨hne, houter, hended⟩⟩ := h
  · exact ⟨w, hw, ⟨c, rfl, hv⟩, [], c, rfl, hc⟩
  · exact ⟨w, hw, (outermost_cons hne c w).mpr houter, hended.of_suffix (suffix_cons _ _)⟩

theorem step_after (stack : List Frame) (hspace : isSpace c = false) :
    step ⟨stack, .after⟩ c = punctuate stack c := by
  rw [step]
  dsimp only
  rw [stepDelivered, hspace]
  rfl

variable {next : List CodeUnit → JsString → Scan JsString}

/-- **Closing** what a value finished. -/
theorem closeLoop_agrees {base : List Frame} {turns : ℕ} (hnext : Continues base turns next)
    {closers : List CodeUnit} {stack : List Frame} (h : Closes base closers stack) (v : Json)
    (hl : l.length ≤ turns) :
    Agrees (deliver stack v) l (closeLoop next closers l) (Delivered base closers v l) := by
  induction h generalizing v l with
  | base => exact ⟨_, .refl _ l, v, rfl, .inl ⟨rfl, rfl, rfl⟩⟩
  | @arr closers stack items hcloses ih =>
    refine (skipWhitespace_agrees (between_after _) l).bind ?_
    rintro _ _ hsuffix ⟨rfl, c, r, rfl, hspace⟩
    have hr : r.length < turns := lt_of_lt_of_le hsuffix.length_le hl
    have hstep := step_after (.arr (v :: items) :: stack) hspace
    rw [head?_cons, tail_cons]
    by_cases hclose : c = 0x5d
    · subst hclose
      rw [if_pos rfl]
      refine agrees_cons _ hstep ((ih (.arr (v :: items).reverse) hr.le).mono fun r' st' h ↦ ?_)
      obtain ⟨w, hw, houter, hended⟩ := h.container rfl hspace
      exact ⟨w, hw, .inr ⟨cons_ne_nil _ _, houter, hended.of_suffix hsuffix⟩⟩
    rw [if_neg fun h ↦ hclose (some_inj.mp h)]
    by_cases hcomma : c = 0x2c
    · subst hcomma
      rw [if_neg (not_not.mpr rfl)]
      refine agrees_cons _ hstep ((skipWhitespace_agrees (between_value _) r).bind ?_)
      rintro _ _ hsuffix' ⟨rfl, c, r', rfl, hspace'⟩
      rw [if_neg (by decide)]
      refine (hnext _ _ _ (.arr hcloses) (cons_ne_nil _ _) ⟨c, r', rfl, hspace'⟩
        (lt_of_le_of_lt hsuffix'.length_le hr)).mono fun r st' h ↦ ?_
      obtain ⟨w, hw, houter, hended⟩ := h
      exact ⟨w, hw, .inr ⟨cons_ne_nil _ _, houter,
        (hended.of_suffix hsuffix').of_suffix ((suffix_cons _ _).trans hsuffix)⟩⟩
    · rw [if_pos fun h ↦ hcomma (some_inj.mp h)]
      exact agrees_never (hstep.trans (by rw [punctuate, if_neg hcomma, if_neg hclose]))
  | @obj closers stack ms name hcloses ih =>
    refine (skipWhitespace_agrees (between_after _) l).bind ?_
    rintro _ _ hsuffix ⟨rfl, c, r, rfl, hspace⟩
    have hr : r.length < turns := lt_of_lt_of_le hsuffix.length_le hl
    have hstep := step_after (.obj ((name, v) :: ms) none :: stack) hspace
    rw [head?_cons, tail_cons]
    by_cases hclose : c = 0x7d
    · subst hclose
      rw [if_pos rfl]
      refine agrees_cons _ hstep ((ih (.obj ((name, v) :: ms).reverse) hr.le).mono fun r' st' h ↦ ?_)
      obtain ⟨w, hw, houter, hended⟩ := h.container rfl hspace
      exact ⟨w, hw, .inr ⟨cons_ne_nil _ _, houter, hended.of_suffix hsuffix⟩⟩
    rw [if_neg fun h ↦ hclose (some_inj.mp h)]
    by_cases hcomma : c = 0x2c
    · subst hcomma
      rw [if_neg (not_not.mpr rfl)]
      refine agrees_cons _ hstep ((skipWhitespace_agrees (between_name _) r).bind ?_)
      rintro _ _ hsuffix' ⟨rfl, c, r', rfl, hspace'⟩
      rw [if_pos rfl]
      refine (scanMemberKey_agrees rfl (fun hc ↦ ?_) r').bind ?_
      · rw [step]
        dsimp only
        rw [hspace', if_neg Bool.false_ne_true, if_neg hc]
      · rintro r _ hsuffix'' ⟨name', rfl, hstarts⟩
        refine (hnext _ _ _ (.obj hcloses) (cons_ne_nil _ _) hstarts
          (lt_of_le_of_lt (hsuffix''.trans hsuffix').length_le hr)).mono fun r st' h ↦ ?_
        obtain ⟨w, hw, houter, hended⟩ := h
        exact ⟨w, hw, .inr ⟨cons_ne_nil _ _, houter,
          (hended.of_suffix (hsuffix''.trans hsuffix')).of_suffix
            ((suffix_cons _ _).trans hsuffix)⟩⟩
    · rw [if_pos fun h ↦ hcomma (some_inj.mp h)]
      exact agrees_never (hstep.trans (by rw [punctuate, if_neg hcomma, if_neg hclose]))

/-! ## Values -/

/-- What is delivered behind a value: itself where nothing is open, else what it closes. -/
def Completed (base : List Frame) (closers : List CodeUnit) (c : CodeUnit) (l r : JsString)
    (st' : State) : Prop :=
  ∃ v, st' = deliver base v ∧
    (closers = [] ∧ Begun c l r v ∨ closers ≠ [] ∧ Outermost closers v ∧ Ended (c :: l) r)

theorem Completed.of_container {base : List Frame} {closers : List CodeUnit} {closer : CodeUnit}
    (h : Outermost (closer :: closers) v) (hc : c ≠ 0x22) (hbrace : closer = 0x7d → c = 0x7b)
    (hended : Ended (c :: l) r) : Completed base closers c l r (deliver base v) := by
  by_cases hnil : closers = []
  · subst hnil
    obtain ⟨_, hcloser, hv⟩ := h
    obtain rfl := some_inj.mp hcloser
    refine ⟨v, rfl, .inl ⟨rfl, fun heq ↦ absurd heq hc, fun _ s heq ↦ ?_, fun q heq ↦ ?_,
      fun ms heq ↦ ?_, hended⟩⟩
    all_goals rw [heq] at hv
    · exact hv
    · exact hv.elim
    · exact hbrace hv
  · exact ⟨v, rfl, .inr ⟨hnil, (outermost_cons hnil closer v).mp h, hended⟩⟩

variable {base : List Frame} {turns : ℕ} {closers : List CodeUnit} {stack : List Frame}

theorem scanValues_brace (l : JsString) :
    scanValues (turns + 1) closers (0x7b :: l) = (skipWhitespace l).bind fun first ↦
      if first.head? = some 0x7d then closeLoop (scanValues turns) closers first.tail
      else (scanMemberKey first).bind (scanValues turns (0x7d :: closers)) := rfl

theorem scanValues_bracket (l : JsString) :
    scanValues (turns + 1) closers (0x5b :: l) = (skipWhitespace l).bind fun first ↦
      if first.head? = some 0x5d then closeLoop (scanValues turns) closers first.tail
      else scanValues turns (0x5d :: closers) first := rfl

theorem scanValues_scalar (hbrace : c ≠ 0x7b) (hbracket : c ≠ 0x5b) (l : JsString) :
    scanValues (turns + 1) closers (c :: l) =
      (scanScalar (c :: l)).bind (closeLoop (scanValues turns) closers) := by
  have hhead : ¬((c :: l).head? = some 0x7b ∨ (c :: l).head? = some 0x5b) := by
    simp only [head?_cons, some_inj]
    exact not_or.mpr ⟨hbrace, hbracket⟩
  rw [scanValues, if_neg hhead]

theorem scanValues_object (hnext : Continues base turns (scanValues turns))
    (h : Closes base closers stack) (hl : l.length < turns) :
    Agrees ⟨stack, .value⟩ (0x7b :: l) (scanValues (turns + 1) closers (0x7b :: l))
      (Completed base closers 0x7b l) := by
  rw [scanValues_brace]
  refine agrees_cons ⟨.obj [] none :: stack, .member⟩ rfl
    ((skipWhitespace_agrees (between_member _) l).bind ?_)
  rintro _ _ hsuffix ⟨rfl, c, r, rfl, hspace⟩
  have hr : (c :: r).length < turns := lt_of_le_of_lt hsuffix.length_le hl
  have hopened := hsuffix.trans (suffix_cons 0x7b l)
  rw [head?_cons, tail_cons]
  by_cases hclose : c = 0x7d
  · subst hclose
    rw [if_pos rfl]
    refine agrees_cons _ rfl ((closeLoop_agrees hnext h (.obj []) (lt_of_succ_lt hr).le).mono ?_)
    intro r' st' h
    obtain ⟨w, rfl, houter, hended⟩ := h.container rfl hspace
    exact .of_container houter (by decide) (by decide) (hended.of_suffix hopened)
  · rw [if_neg fun h ↦ hclose (some_inj.mp h)]
    refine (scanMemberKey_agrees rfl (fun hc ↦ ?_) r).bind ?_
    · rw [step]
      dsimp only
      rw [hspace, if_neg Bool.false_ne_true, if_neg hclose, if_neg hc]
    · rintro r' _ hsuffix' ⟨name, rfl, hstarts⟩
      refine (hnext _ _ _ (.obj h) (cons_ne_nil _ _) hstarts
        (lt_of_le_of_lt hsuffix'.length_le hr)).mono ?_
      rintro r st' ⟨w, rfl, houter, hended⟩
      exact .of_container houter (by decide) (by decide)
        ((hended.of_suffix hsuffix').of_suffix hopened)

theorem scanValues_array (hnext : Continues base turns (scanValues turns))
    (h : Closes base closers stack) (hl : l.length < turns) :
    Agrees ⟨stack, .value⟩ (0x5b :: l) (scanValues (turns + 1) closers (0x5b :: l))
      (Completed base closers 0x5b l) := by
  rw [scanValues_bracket]
  refine agrees_cons ⟨.arr [] :: stack, .elem⟩ rfl
    ((skipWhitespace_agrees (between_elem _) l).bind ?_)
  rintro _ _ hsuffix ⟨rfl, c, r, rfl, hspace⟩
  have hr : (c :: r).length < turns := lt_of_le_of_lt hsuffix.length_le hl
  have hopened := hsuffix.trans (suffix_cons 0x5b l)
  rw [head?_cons, tail_cons]
  by_cases hclose : c = 0x5d
  · subst hclose
    rw [if_pos rfl]
    refine agrees_cons _ rfl ((closeLoop_agrees hnext h (.arr []) (lt_of_succ_lt hr).le).mono ?_)
    intro r' st' h
    obtain ⟨w, rfl, houter, hended⟩ := h.container rfl hspace
    exact .of_container houter (by decide) (by decide) (hended.of_suffix hopened)
  · rw [if_neg fun h ↦ hclose (some_inj.mp h)]
    -- the first element is read like any value
    have hsame : Same (c :: r) ⟨.arr [] :: stack, .elem⟩ ⟨.arr [] :: stack, .value⟩ := by
      refine ⟨rfl, ?_⟩
      rw [step, step]
      dsimp only
      rw [hspace, if_neg Bool.false_ne_true, if_neg hclose, if_neg Bool.false_ne_true]
    refine .after ⟨[], _, rfl, rfl, hsame⟩ ((hnext _ _ _ (.arr h) (cons_ne_nil _ _)
      ⟨c, r, rfl, hspace⟩ hr).mono ?_)
    rintro r st' ⟨w, rfl, houter, hended⟩
    exact .of_container houter (by decide) (by decide) (hended.of_suffix hopened)

/-- **A value is scanned to where the reader delivers it**, or what it is the last of. -/
theorem scanValues_agrees (h : Closes base closers stack) (hspace : isSpace c = false)
    (hl : (c :: l).length < turns) :
    Agrees ⟨stack, .value⟩ (c :: l) (scanValues turns closers (c :: l))
      (Completed base closers c l) := by
  induction turns generalizing closers stack c l with
  | zero => exact absurd hl (not_lt_zero _)
  | succ turns ih =>
    have hnext : Continues base turns (scanValues turns) := by
      rintro closers stack _ h hne ⟨c, l, rfl, hspace⟩ hl
      refine (ih h hspace hl).mono ?_
      rintro r st' ⟨v, hv, ⟨hnil, -⟩ | ⟨-, houter, hended⟩⟩
      · exact absurd hnil hne
      · exact ⟨v, hv, houter, hended⟩
    have hl' := le_of_lt_succ hl
    by_cases hc : c = 0x7b ∨ c = 0x5b
    · rcases hc with rfl | rfl
      · exact scanValues_object hnext h hl'
      · exact scanValues_array hnext h hl'
    · obtain ⟨hbrace, hbracket⟩ := not_or.mp hc
      rw [scanValues_scalar hbrace hbracket]
      refine (scanScalar_agrees hspace hbrace hbracket stack l).bind ?_
      rintro r _ hsuffix ⟨v, rfl, hbegun⟩
      refine (closeLoop_agrees hnext h v (hsuffix.length_le.trans hl')).mono ?_
      rintro r' st' ⟨w, hw, ⟨hnil, rfl, rfl⟩ | ⟨hne, houter, hended⟩⟩
      · exact ⟨w, hw, .inl ⟨hnil, hbegun⟩⟩
      · exact ⟨w, hw, .inr ⟨hne, houter, hended.of_suffix hsuffix⟩⟩

/-! ## What was found stays

More text does not change where a scanner that found an end found it. -/

theorem skipWhitespace_at (h : skipWhitespace l = .at r) (ext : JsString) :
    skipWhitespace (l ++ ext) = .at (r ++ ext) ∧ ∃ c r', r = c :: r' := by
  induction l with
  | nil => nomatch h
  | cons c l ih =>
    rw [skipWhitespace] at h
    rw [cons_append, skipWhitespace]
    split_ifs at h ⊢ with hc
    · exact ih h
    · obtain rfl := Scan.at.inj h
      exact ⟨rfl, c, l, rfl⟩

theorem scanString_hex {d₁ d₂ d₃ d₄ : CodeUnit} (h : [d₁, d₂, d₃, d₄].all isHexDigit = true)
    (l : JsString) : scanString (0x5c :: 0x75 :: d₁ :: d₂ :: d₃ :: d₄ :: l) = scanString l :=
  if_pos h

theorem scanString_escape {n : CodeUnit} (hn : n ≠ 0x75) (h : n ∈ jsonEscapes.map (·.1))
    (l : JsString) : scanString (0x5c :: n :: l) = scanString l := by
  rw [scanString.eq_def]
  exact (if_neg hn).trans (if_pos h)

theorem scanString_plain (hquote : c ≠ 0x22) (hslash : c ≠ 0x5c) (hcontrol : ¬c ≤ 0x1f)
    (l : JsString) : scanString (c :: l) = scanString l := by
  rw [scanString.eq_def]
  exact (if_neg hquote).trans ((if_neg hslash).trans (if_neg hcontrol))

theorem scanString_at (h : scanString l = .at r) (ext : JsString) :
    scanString (l ++ ext) = .at (r ++ ext) := by
  fun_induction scanString l with
  | case2 l =>
    obtain rfl := Scan.at.inj h
    rw [cons_append, scanString.eq_def]
    rfl
  | case4 d₁ d₂ d₃ d₄ l hdigits _ ih => exact (scanString_hex hdigits (l ++ ext)).trans (ih h)
  | case7 n l hn hescape _ ih => exact (scanString_escape hn hescape (l ++ ext)).trans (ih h)
  | case10 c l hquote hslash hcontrol ih =>
    exact (scanString_plain hquote hslash hcontrol (l ++ ext)).trans (ih h)
  | _ => cases h

theorem scanLiteral_at {literal : JsString} (h : scanLiteral literal l = .at r) (ext : JsString) :
    scanLiteral literal (l ++ ext) = .at (r ++ ext) := by
  rw [scanLiteral] at h
  split_ifs at h with hbegins
  obtain ⟨rest, rfl⟩ := isPrefixOf_iff_prefix.mp hbegins
  obtain rfl := Scan.at.inj h
  have hmore : literal.isPrefixOf (literal ++ rest ++ ext) = true :=
    isPrefixOf_iff_prefix.mpr ⟨rest ++ ext, (append_assoc _ _ _).symm⟩
  rw [scanLiteral, if_pos hmore, drop_left, append_assoc, drop_left]

theorem scanScalar_at (h : scanScalar l = .at r) (ext : JsString) :
    scanScalar (l ++ ext) = .at (r ++ ext) := by
  cases l with
  | nil => nomatch h
  | cons c l =>
    rw [scanScalar] at h
    rw [cons_append, scanScalar]
    split_ifs at h ⊢
    · exact scanString_at h ext
    · exact scanLiteral_at h ext
    · exact scanLiteral_at h ext
    · exact scanLiteral_at h ext
    · obtain ⟨p, d, r', hl, hr, hd, hp, hnumber⟩ := scanNumber_at.mp h
      rw [← cons_append]
      refine scanNumber_at.mpr ⟨p, d, r' ++ ext, ?_, ?_, hd, hp, hnumber⟩
      · rw [hl, append_assoc]
      · rw [hr, cons_append]

theorem bind_at {f : JsString → Scan JsString} (h : x.bind f = .at r) :
    ∃ r', x = .at r' ∧ f r' = .at r := by
  cases x with
  | «at» r' => exact ⟨r', rfl, h⟩
  | hold => nomatch h
  | never => nomatch h

theorem scanMemberKey_at (h : scanMemberKey l = .at r) (ext : JsString) :
    scanMemberKey (l ++ ext) = .at (r ++ ext) := by
  cases l with
  | nil => nomatch h
  | cons c l =>
    rw [scanMemberKey] at h
    rw [cons_append, scanMemberKey]
    split_ifs at h ⊢
    obtain ⟨nameEnd, hname, h⟩ := bind_at h
    obtain ⟨colon, hcolon, h⟩ := bind_at h
    obtain ⟨hcolon', d, r', rfl⟩ := skipWhitespace_at hcolon ext
    rw [scanString_at hname ext]
    show (skipWhitespace (nameEnd ++ ext)).bind _ = _
    rw [hcolon']
    split_ifs at h with hd
    exact (if_neg hd).trans (skipWhitespace_at h ext).1

/-- The loop finds with more text what it found, if the scanner of further values does. -/
theorem closeLoop_at {next' : List CodeUnit → JsString → Scan JsString} {ext : JsString}
    (hnext : ∀ closers l r, next closers l = .at r → next' closers (l ++ ext) = .at (r ++ ext))
    {closers : List CodeUnit} (h : closeLoop next closers l = .at r) :
    closeLoop next' closers (l ++ ext) = .at (r ++ ext) := by
  induction closers generalizing l with
  | nil =>
    obtain rfl := Scan.at.inj h
    rfl
  | cons closer closers ih =>
    rw [closeLoop] at h ⊢
    obtain ⟨at', hat, h⟩ := bind_at h
    obtain ⟨hat', c, r', rfl⟩ := skipWhitespace_at hat ext
    rw [hat']
    by_cases hclose : (c :: r').head? = some closer
    · rw [if_pos hclose] at h
      exact (if_pos hclose).trans (ih h)
    · rw [if_neg hclose] at h
      refine (if_neg hclose).trans ?_
      by_cases hcomma : (c :: r').head? ≠ some 0x2c
      · rw [if_pos hcomma] at h
        nomatch h
      · rw [if_neg hcomma] at h
        obtain ⟨l', hl', h⟩ := bind_at h
        refine (if_neg hcomma).trans ?_
        have hskip := (skipWhitespace_at hl' ext).1
        show (skipWhitespace (r' ++ ext)).bind _ = _
        rw [show skipWhitespace (r' ++ ext) = .at (l' ++ ext) from hskip]
        split_ifs at h with hobject
        · obtain ⟨key, hkey, h⟩ := bind_at h
          refine (if_pos hobject).trans ?_
          rw [scanMemberKey_at hkey ext]
          exact hnext _ _ _ h
        · exact (if_neg hobject).trans (hnext _ _ _ h)

theorem scanValues_at {turns' : ℕ} (hturns : turns ≤ turns')
    (h : scanValues turns closers l = .at r) (ext : JsString) :
    scanValues turns' closers (l ++ ext) = .at (r ++ ext) := by
  induction turns generalizing turns' closers l r with
  | zero => nomatch h
  | succ turns ih =>
    obtain ⟨turns', rfl⟩ := Nat.exists_eq_add_of_le' hturns
    have hnext : ∀ closers l r, scanValues turns closers l = .at r →
        scanValues (turns' + turns) closers (l ++ ext) = .at (r ++ ext) :=
      fun closers l r ↦ ih (le_add_left _ _)
    cases l with
    | nil => exact absurd (show Scan.never = .at r from h) (by simp)
    | cons c l =>
      show scanValues (turns' + turns + 1) closers (c :: (l ++ ext)) = _
      by_cases hbrace : c = 0x7b
      · subst hbrace
        rw [scanValues_brace] at h ⊢
        obtain ⟨first, hfirst, h⟩ := bind_at h
        obtain ⟨hfirst', d, r', rfl⟩ := skipWhitespace_at hfirst ext
        rw [hfirst']
        split_ifs at h with hclose
        · exact (if_pos hclose).trans (closeLoop_at hnext h)
        · obtain ⟨key, hkey, h⟩ := bind_at h
          refine (if_neg hclose).trans ?_
          rw [scanMemberKey_at hkey ext]
          exact hnext _ _ _ h
      by_cases hbracket : c = 0x5b
      · subst hbracket
        rw [scanValues_bracket] at h ⊢
        obtain ⟨first, hfirst, h⟩ := bind_at h
        obtain ⟨hfirst', d, r', rfl⟩ := skipWhitespace_at hfirst ext
        rw [hfirst']
        split_ifs at h with hclose
        · exact (if_pos hclose).trans (closeLoop_at hnext h)
        · exact (if_neg hclose).trans (hnext _ _ _ h)
      · rw [scanValues_scalar hbrace hbracket] at h ⊢
        obtain ⟨r', hr', h⟩ := bind_at h
        rw [← cons_append, scanScalar_at hr' ext]
        exact closeLoop_at hnext h

/-- **What was found of a value stays.** -/
theorem scanValue_at (h : scanValue l = .at r) (ext : JsString) :
    scanValue (l ++ ext) = .at (r ++ ext) :=
  scanValues_at (succ_le_succ (length_append ▸ le_add_right _ _)) h ext

/-! ## What is accepted -/

/-- **One value**, from any state in which one is to be read. -/
theorem scanValue_agrees (stack : List Frame) (hspace : isSpace c = false) (l : JsString) :
    Agrees ⟨stack, .value⟩ (c :: l) (scanValue (c :: l)) fun r st' ↦
      ∃ v, st' = deliver stack v ∧ Begun c l r v := by
  refine (scanValues_agrees .base hspace (lt_succ_self _)).mono ?_
  rintro r st' ⟨v, hv, ⟨-, hbegun⟩ | ⟨hne, -⟩⟩
  · exact ⟨v, hv, hbegun⟩
  · exact absurd rfl hne

/-- No whitespace stands around a text. -/
structure Tight (p : JsString) : Prop where
  head : ∀ c ∈ p.head?, isSpace c = false
  last : ∀ c ∈ p.getLast?, isSpace c = false

/-- A value may end in front of a text: a number does only where nothing is left to add. -/
def EndsAt (v : Json) (r : JsString) : Prop :=
  ∀ q, v = .num q → ∃ d r', r = d :: r' ∧ isNumberChar d = false

variable {text : JsString}

theorem head_of_scanValue (h : scanValue text = .at r) :
    ∃ c l, text = c :: l ∧ isSpace c = false := by
  cases text with
  | nil => exact absurd (show Scan.never = .at r from h) (by simp)
  | cons c l =>
    refine ⟨c, l, rfl, eq_false_of_ne_true fun hspace ↦ ?_⟩
    have hmem := isSpace_iff.mp hspace
    simp only [jsonWhitespace, mem_cons, not_mem_nil, or_false] at hmem
    rcases hmem with rfl | rfl | rfl | rfl
    all_goals exact absurd (show Scan.never = .at r from h) (by simp)

theorem reaches_of_scanValue (h : scanValue text = .at r) :
    ∃ c l v, text = c :: l ∧ isSpace c = false ∧ Reaches start text r ⟨[], .done v⟩ ∧
      Begun c l r v := by
  obtain ⟨c, l, rfl, hspace⟩ := head_of_scanValue h
  have hagrees := scanValue_agrees [] hspace l
  rw [h] at hagrees
  obtain ⟨_, hreaches, v, rfl, hbegun⟩ := hagrees
  exact ⟨c, l, v, rfl, hspace, hreaches, hbegun⟩

theorem parse_of_scanValue (h : scanValue text = .at r) :
    ∃ p v, text = p ++ r ∧ parse p = some v ∧ Tight p ∧ EndsAt v r := by
  obtain ⟨c, l, v, rfl, hspace, ⟨p, st, hl, hp, hsame⟩, hbegun⟩ := reaches_of_scanValue h
  have hparse : parse p = some v := by
    rw [parse, hp]
    exact hsame.finish
  refine ⟨p, v, hl, hparse, ⟨?_, ?_⟩, fun q hq ↦ ?_⟩
  · cases p with
    | nil => cases hparse
    | cons d p =>
      obtain ⟨rfl, -⟩ := List.cons.inj hl
      intro e he
      obtain rfl := some_inj.mp he
      exact hspace
  · obtain ⟨p', d, hended, hd⟩ := hbegun.ended
    have heq : p = p' ++ [d] := by
      refine append_cancel_right (?_ : _ ++ r = _ ++ r)
      rw [← hl, hended, append_assoc]
      rfl
    intro e he
    rw [heq, getLast?_concat] at he
    obtain rfl := some_inj.mp he
    exact hd
  · obtain ⟨-, d, r', -, hr, hd, -⟩ := scanNumber_at.mp (hbegun.number q hq)
    exact ⟨d, r', hr, hd⟩

theorem rest_of_scanValue (h : scanValue text = .at r) (hrun : run start text = some st) :
    ∀ c ∈ r, isSpace c = true := by
  obtain ⟨-, -, v, -, -, hreaches, -⟩ := reaches_of_scanValue h
  have := hreaches.run []
  rw [append_nil, append_nil, hrun] at this
  exact run_done this.symm

variable {p : JsString}

theorem Tight.suffix_eq_nil {q : JsString} (h : Tight p) (hp : p = q ++ r)
    (hr : ∀ c ∈ r, isSpace c = true) : r = [] := by
  by_contra hne
  obtain ⟨r', c, rfl⟩ := (eq_nil_or_concat' r).resolve_left hne
  have hlast := h.last c (by rw [hp, ← append_assoc, getLast?_concat]; rfl)
  rw [hr c (by simp)] at hlast
  nomatch hlast

theorem scanValue_of_jsonNumber (hp : ∀ c ∈ p, isNumberChar c = true)
    (hnumber : jsonNumber p = true) (hr : ∃ d r', r = d :: r' ∧ isNumberChar d = false) :
    scanValue (p ++ r) = .at r := by
  obtain ⟨d, r', hr, hd⟩ := hr
  have hscan : scanNumber (p ++ r) = .at r := scanNumber_at.mpr ⟨p, d, r', rfl, hr, hd, hp, hnumber⟩
  cases p with
  | nil => nomatch hnumber
  | cons c p =>
    obtain ⟨-, htoken⟩ := numberChar_token (hp c mem_cons_self)
    simp only [mem_cons, not_or] at htoken
    obtain ⟨-, -, -, hquote, hbrace, hbracket, ht, hf, hn, -⟩ := htoken
    rw [cons_append] at hscan ⊢
    rw [scanValue, scanValues_scalar hbrace hbracket, scanScalar, if_neg hquote, if_neg ht,
      if_neg hf, if_neg hn, hscan]
    rfl

/-- A number that the text ends in is taken for one, if only something stands behind it. -/
theorem scanValue_of_number {n : NumRead} (hrun : run start p = some ⟨[], .num n⟩)
    (hcomplete : n.complete = true) (hp : Tight p)
    (hr : ∃ d r', r = d :: r' ∧ isNumberChar d = false) : scanValue (p ++ r) = .at r := by
  -- a space ends it, and makes no difference
  have hspaced : run start (p ++ [0x20]) = some ⟨[], .done (.num n.value)⟩ := by
    rw [run_append, hrun, bind_some, run_cons,
      step_num_ends [] hcomplete (step_of_not_numberChar (by decide) n)]
    rfl
  have hspace : ∃ c l, p = c :: l ∧ isSpace c = false := by
    cases p with
    | nil => nomatch hrun
    | cons c l => exact ⟨c, l, rfl, hp.head c rfl⟩
  obtain ⟨c, l, rfl, hspace⟩ := hspace
  have hagrees := scanValue_agrees [] hspace (l ++ [0x20])
  cases hx : scanValue (c :: l ++ [0x20]) with
  | never =>
    rw [← cons_append, hx] at hagrees
    exact absurd (hagrees.symm.trans hspaced) (by simp)
  | hold =>
    rw [← cons_append, hx] at hagrees
    exact absurd rfl (hagrees _ hspaced _)
  | «at» r₁ =>
    obtain ⟨p₁, -, hl, -, hp₁, -⟩ := parse_of_scanValue hx
    have hspaces := rest_of_scanValue hx hspaced
    obtain ⟨m, e, rfl⟩ := (eq_nil_or_concat' r₁).resolve_left fun hnil ↦ by
      have := hp₁.last 0x20 (by rw [← append_nil p₁, ← hnil, ← hl, getLast?_concat]; rfl)
      nomatch this
    rw [← append_assoc] at hl
    obtain ⟨hpm, he⟩ := append_inj' hl rfl
    obtain rfl := hp.suffix_eq_nil hpm fun d hd ↦ hspaces d (mem_append_left _ hd)
    obtain rfl := (List.cons.inj he).1
    obtain ⟨c', l', w, htext, -, hreaches, hbegun⟩ := reaches_of_scanValue hx
    have hw : w = .num n.value := by
      have := hreaches.run []
      rw [append_nil, append_nil, hspaced] at this
      exact (Mode.done.inj (State.mk.inj (some_inj.mp this)).2).symm
    obtain ⟨p₂, -, -, hparts, -, -, hall, hnumber⟩ := scanNumber_at.mp (hbegun.number _ hw)
    rw [← htext] at hparts
    obtain ⟨rfl, -⟩ := append_inj' hparts rfl
    exact scanValue_of_jsonNumber hall hnumber hr

theorem scanValue_of_parse (h : parse p = some v) (hp : Tight p) (hr : EndsAt v r) :
    scanValue (p ++ r) = .at r := by
  obtain ⟨_, hrun, hfinish⟩ := bind_eq_some_iff.mp h
  have hspace : ∃ c l, p = c :: l ∧ isSpace c = false := by
    cases p with
    | nil => nomatch h
    | cons c l => exact ⟨c, l, rfl, hp.head c rfl⟩
  obtain ⟨c, l, rfl, hspace⟩ := hspace
  have hagrees := scanValue_agrees [] hspace l
  cases hx : scanValue (c :: l) with
  | «at» r₀ =>
    obtain ⟨p₀, -, hl, -⟩ := parse_of_scanValue hx
    obtain rfl := hp.suffix_eq_nil hl (rest_of_scanValue hx hrun)
    exact scanValue_at hx r
  | never =>
    rw [hx] at hagrees
    exact absurd (hagrees.symm.trans hrun) (by simp)
  | hold =>
    rw [hx] at hagrees
    rcases finish_eq_some hfinish with rfl | ⟨n, rfl, hcomplete, hn⟩
    · exact absurd rfl (hagrees _ hrun _)
    · exact scanValue_of_number hrun hcomplete hp (hr _ hn)

/-- **What is accepted is exactly the JSON values.** -/
theorem scanValue_eq_at : scanValue text = .at r ↔
      ∃ p v, text = p ++ r ∧ parse p = some v ∧ Tight p ∧ EndsAt v r := by
  refine ⟨parse_of_scanValue, ?_⟩
  rintro ⟨p, v, rfl, h, hp, hr⟩
  exact scanValue_of_parse h hp hr

end Freeform
