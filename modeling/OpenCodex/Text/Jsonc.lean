import OpenCodex.Bridge.Events
import OpenCodex.Data.JsonText
import Mathlib.Data.List.TakeWhile

/-!
# JSON with comments

`parseJsonc` reads the configuration files of other programs: `stripJsonComments` takes out the
comments, `stripTrailingCommas` the commas in front of a closing bracket, and what is left goes to
`JSON.parse`.  Both passes know of the text only whether they are in a string.

A text is a JSON text that is *dressed* (`Dressed`) if comments stand between its tokens and commas
where a container may end.  Exactly these are read (`parseJsonc_eq_some`), and a strict JSON text is
left as it is (`strict_unchanged`).  The proofs follow both passes and the reader of JSON along a
text: what a unit can do outside of strings is said once (`step_moves`).
-/

set_option autoImplicit false

open List
open Option (some_inj map_eq_some_iff bind_eq_some_iff)
open Json hiding escape
open Bridge (isTrimmed)

namespace Jsonc

/-! ## The passes -/

/-- Where in a text a unit stands: outside of strings, in one, or behind a backslash. -/
inductive Place where
  | text
  | string
  | escape
  deriving DecidableEq

def Place.next (p : Place) (c : CodeUnit) : Place :=
  match p with
  | .text => if c = 0x22 then .string else .text
  | .string => if c = 0x5c then .escape else if c = 0x22 then .text else .string
  | .escape => .string

/-- Where the first pass is, comments included. -/
inductive Inside where
  | at (p : Place)
  | line
  | block

/-- The loop over the units; `none` where a block comment is not closed. -/
def stripFrom : Inside → JsString → Option JsString
  | .block, [] | .block, [_] => none
  | .at _, [] | .line, [] => some []
  | .at _, [c] => some [c]
  | .line, c :: rest =>
    if c = 0x0a then (stripFrom (.at .text) rest).map (c :: ·) else stripFrom .line rest
  | .block, c :: next :: rest =>
    if c = 0x0a then (stripFrom .block (next :: rest)).map (c :: ·)
    else if c = 0x2a ∧ next = 0x2f then (stripFrom (.at .text) rest).map (0x20 :: ·)
    else stripFrom .block (next :: rest)
  | .at p, c :: next :: rest =>
    if p = .text ∧ c = 0x2f ∧ next = 0x2f then stripFrom .line rest
    else if p = .text ∧ c = 0x2f ∧ next = 0x2a then stripFrom .block rest
    else (stripFrom (.at (p.next c)) (next :: rest)).map (c :: ·)

/-- The first pass, from a place that is in no comment. -/
abbrev strip (p : Place) : JsString → Option JsString := stripFrom (.at p)

def stripJsonComments (text : JsString) : Option JsString := strip .text text

/-- A closing bracket, behind whitespace. -/
def closes (text : JsString) : Bool :=
  (text.dropWhile isTrimmed).head?.any fun c ↦ c == 0x7d || c == 0x5d

/-- The loop of the second pass. -/
def drop (p : Place) : JsString → JsString
  | [] => []
  | c :: rest =>
    if p = .text ∧ c = 0x2c ∧ closes rest = true then drop p rest else c :: drop (p.next c) rest

def stripTrailingCommas (text : JsString) : JsString := drop .text text

/-- `none` where it throws. -/
def canonicalizeJsonc (text : JsString) : Option JsString :=
  (stripJsonComments text).map stripTrailingCommas

def parseJsonc (text : JsString) : Option Json := (canonicalizeJsonc text).bind Json.parse

def hasJsoncComments (text : JsString) : Bool :=
  match stripJsonComments text with
  | some stripped => stripped ≠ text
  | none => true

variable {p : Place} {c : CodeUnit} {text : JsString}

/-- The first pass keeps what begins no comment. -/
theorem strip_cons (h : p = .text → c = 0x2f → ∀ d ∈ text.head?, d ≠ 0x2f ∧ d ≠ 0x2a) :
    strip p (c :: text) = (strip (p.next c) text).map (c :: ·) := by
  cases text with
  | nil => rfl
  | cons d rest =>
    rw [strip, stripFrom, if_neg fun hc ↦ (h hc.1 hc.2.1 d rfl).1 hc.2.2,
      if_neg fun hc ↦ (h hc.1 hc.2.1 d rfl).2 hc.2.2]

/-- The second pass keeps what is no comma in front of a closing bracket. -/
theorem drop_cons (h : p = .text → c = 0x2c → closes text = false) :
    drop p (c :: text) = c :: drop (p.next c) text :=
  if_neg fun hc ↦ absurd (hc.2.2.symm.trans (h hc.1 hc.2.1)) (by decide)

theorem drop_comma (h : closes text = true) : drop .text (0x2c :: text) = drop .text text :=
  if_pos ⟨rfl, rfl, h⟩

/-! ## Where the reader of JSON is -/

def placeOf : Mode → Place
  | .str _ _ | .hex _ _ _ _ => .string
  | .esc _ _ => .escape
  | _ => .text

/-- No string, number or literal is under way. -/
def between : Mode → Bool
  | .str _ _ | .esc _ _ | .hex _ _ _ _ | .num _ | .lit _ _ => false
  | _ => true

/-- The modes in which a container may end. -/
def mayClose : Mode → Bool
  | .elem | .member | .after => true
  | _ => false

/-- A number that can end here does. -/
def ended (st : State) : State :=
  match st.mode with
  | .num n => if n.complete then deliver st.stack (.num n.value) else st
  | _ => st

/-- The reader waits for a value or for a name. -/
def Awaits (st : State) : Prop := st.mode = .value ∨ st.mode = .name

/-- A unit of numbers, literals, opening brackets or colons. -/
def Plain (c : CodeUnit) : Prop :=
  isTrimmed c = false ∧ c ∉ [0x22, 0x2c, 0x2f, 0x5d, 0x7d]

instance : Decidable (Plain c) := inferInstanceAs (Decidable (_ ∧ _))

/-- What a unit can do outside of strings, where a number that can end has ended. -/
inductive Moves : State → CodeUnit → State → Prop where
  | space {st : State} {c : CodeUnit} : isSpace c = true → between st.mode = true → Moves st c st
  | comma {st st' : State} : Awaits st' → Moves st 0x2c st'
  | close {st st' : State} {c : CodeUnit} : c = 0x7d ∨ c = 0x5d → mayClose st.mode = true →
      placeOf st'.mode = .text → Moves st c st'
  | quote {st st' : State} : placeOf st'.mode = .string → Moves st 0x22 st'
  | plain {st st' : State} {c : CodeUnit} : Plain c → placeOf st'.mode = .text → Moves st c st'

/-- A literal under way has letters only. -/
def Lettered (st : State) : Prop :=
  ∀ rest v, st.mode = .lit rest v → ∀ c ∈ rest, 0x61 ≤ c.toNat ∧ c.toNat ≤ 0x7a

variable {st st' : State} {stack : List Json.Frame}

theorem deliver_mode (stack : List Json.Frame) (v : Json) : placeOf (deliver stack v).mode = .text ∧
    between (deliver stack v).mode = true ∧ Lettered (deliver stack v) := by
  rcases stack with _ | ⟨_ | ⟨ms, _ | name⟩, rest⟩ <;> exact ⟨rfl, rfl, by rintro _ _ ⟨⟩⟩

theorem kept_lettered : Kept Lettered := by
  intro st st' _ hgoes h
  cases hgoes with
  | on mode' hplain => exact fun rest v hm ↦ absurd hm (Mode.plain.ne_lit hplain rest v)
  | openArr | openObj | named => rintro _ _ ⟨⟩
  | literal hmem =>
    have hall : ∀ p ∈ literals, ∀ c ∈ p.1, 0x61 ≤ c.toNat ∧ c.toNat ≤ 0x7a := by decide
    exact fun rest v hm ↦ (Mode.lit.inj hm).1 ▸ hall _ hmem
  | letter => exact fun rest v hm c hc ↦ h _ _ rfl c (mem_cons_of_mem _ ((Mode.lit.inj hm).1 ▸ hc))
  | lastLetter | string | number | closeArr | closeObj => exact (deliver_mode _ _).2.2

theorem plain_of_range {n : ℕ} (h : 0x30 ≤ n ∧ n ≤ 0x39 ∨ 0x61 ≤ n ∧ n ≤ 0x7a) :
    Plain (UInt16.ofNat n) := by
  obtain ⟨hlow, hhigh⟩ | ⟨hlow, hhigh⟩ := h <;> interval_cases n <;> decide

theorem plain_of_digit {d : ℕ} (h : digit? c = some d) : Plain c := by
  rw [digit?] at h
  split_ifs at h with hrange
  exact UInt16.ofNat_toNat (x := c) ▸ plain_of_range (.inl hrange)

theorem numStep_plain {n n' : NumRead} (h : n.step c = some n') : Plain c := by
  cases hd : digit? c with
  | some d => exact plain_of_digit hd
  | none =>
    have hc : c = 0x2e ∨ c = 0x65 ∨ c = 0x45 ∨ c = 0x2b ∨ c = 0x2d := by
      obtain ⟨phase, _, _, _, _, _⟩ := n
      cases phase <;> grind [NumRead.step]
    obtain rfl | rfl | rfl | rfl | rfl := hc <;> decide

theorem startValue_moves (h : startValue stack c = some st') : Moves st c st' := by
  rw [startValue] at h
  split_ifs at h with h₀
  · subst h₀; exact some_inj.mp h ▸ .quote rfl
  iterate 6
    · subst c; exact some_inj.mp h ▸ .plain (by decide) rfl
  · obtain ⟨d, hd, rfl⟩ := map_eq_some_iff.mp h
    exact .plain (plain_of_digit hd) rfl

theorem punctuate_moves {mode : Mode} (hm : mayClose mode = true)
    (h : punctuate stack c = some st') : Moves ⟨stack, mode⟩ c st' := by
  rcases stack with _ | ⟨_ | ⟨ms, _ | name⟩, rest⟩
  · cases h
  · rw [punctuate] at h
    split_ifs at h with hc hc
    · subst hc; exact some_inj.mp h ▸ .comma (.inl rfl)
    · exact some_inj.mp h ▸ .close (.inr hc) hm (deliver_mode _ _).1
  · rw [punctuate] at h
    split_ifs at h with hc hc
    · subst hc; exact some_inj.mp h ▸ .comma (.inr rfl)
    · exact some_inj.mp h ▸ .close (.inl hc) hm (deliver_mode _ _).1
  · cases h

theorem stepDelivered_moves (hb : between st.mode = true) (h : stepDelivered st c = some st') :
    Moves st c st' := by
  obtain ⟨stack, mode⟩ := st
  rw [stepDelivered] at h
  split_ifs at h with hc
  · exact some_inj.mp h ▸ .space hc hb
  · cases mode with
    | after => exact punctuate_moves rfl h
    | _ => cases h

/-- **What a unit does outside of strings.** -/
theorem step_moves (hl : Lettered st) (hplace : placeOf st.mode = .text)
    (h : step st c = some st') : Moves (ended st) c st' := by
  obtain ⟨stack, mode⟩ := st
  have hstay (hc : isSpace c = true) (hb : between mode = true)
      (heq : some (State.mk stack mode) = some st') : Moves ⟨stack, mode⟩ c st' :=
    some_inj.mp heq ▸ .space hc hb
  rw [step] at h
  cases mode with
  | value =>
    dsimp only at h
    split_ifs at h with hc
    · exact hstay hc rfl h
    · exact startValue_moves h
  | elem =>
    dsimp only at h
    split_ifs at h with hc
    · exact hstay hc rfl h
    · exact punctuate_moves rfl h
    · exact startValue_moves h
  | member =>
    dsimp only at h
    split_ifs at h with hc hclose hquote
    · exact hstay hc rfl h
    · exact punctuate_moves rfl h
    · subst hquote; exact some_inj.mp h ▸ .quote rfl
  | name =>
    dsimp only at h
    split_ifs at h with hc hquote
    · exact hstay hc rfl h
    · subst hquote; exact some_inj.mp h ▸ .quote rfl
  | colon =>
    dsimp only at h
    split_ifs at h with hc hcolon
    · exact hstay hc rfl h
    · subst hcolon; exact some_inj.mp h ▸ .plain (by decide) rfl
  | after | done => exact stepDelivered_moves rfl h
  | str | esc | hex => cases hplace
  | num n =>
    dsimp only at h
    cases hn : n.step c with
    | some n' =>
      rw [hn] at h
      exact .plain (numStep_plain hn) (some_inj.mp h ▸ rfl)
    | none =>
      rw [hn] at h
      dsimp only at h
      split_ifs at h with hcomplete
      rw [ended]
      dsimp only
      rw [if_pos hcomplete]
      exact stepDelivered_moves (deliver_mode _ _).2.1 h
  | lit rest v =>
    cases rest with
    | nil => cases h
    | cons e rest =>
      dsimp only at h
      have hletter := plain_of_range (.inr (hl _ _ rfl e mem_cons_self))
      rw [UInt16.ofNat_toNat] at hletter
      split_ifs at h with hc hlast
      · exact .plain (hc ▸ hletter) (some_inj.mp h ▸ (deliver_mode _ _).1)
      · exact .plain (hc ▸ hletter) (some_inj.mp h ▸ rfl)

theorem ended_kept (st : State) : placeOf (ended st).mode = placeOf st.mode ∧
    (Lettered st → Lettered (ended st)) := by
  obtain ⟨stack, mode⟩ := st
  cases mode with
  | num n =>
    rw [ended]
    dsimp only
    split_ifs
    · exact ⟨(deliver_mode _ _).1, fun _ ↦ (deliver_mode _ _).2.2⟩
    · exact ⟨rfl, id⟩
  | _ => exact ⟨rfl, id⟩

theorem trimmed_of_space (hc : isSpace c = true) :
    isTrimmed c = true ∧ c ≠ 0x22 ∧ c ≠ 0x2c ∧ c ≠ 0x2f := by
  simp only [isSpace, Bool.or_eq_true, beq_iff_eq] at hc
  obtain ((rfl | rfl) | rfl) | rfl := hc <;> decide

theorem not_plain_of_space (hc : isSpace c = true) : ¬Plain c :=
  fun h ↦ absurd ((trimmed_of_space hc).1.symm.trans h.1) (by decide)

theorem not_plain_of_bracket (hc : c = 0x7d ∨ c = 0x5d) : ¬Plain c := by
  obtain rfl | rfl := hc <;> decide

theorem Moves.of_space (h : Moves st c st') (hc : isSpace c = true) :
    between st.mode = true ∧ st' = st := by
  cases h with
  | space _ hb => exact ⟨hb, rfl⟩
  | comma | quote => cases hc
  | close hbracket => obtain rfl | rfl := hbracket <;> cases hc
  | plain hplain => exact absurd hplain (not_plain_of_space hc)

theorem Moves.of_comma (h : Moves st 0x2c st') : Awaits st' := by
  cases h with
  | space hc => cases hc
  | comma hawaits => exact hawaits
  | close hbracket => exact absurd hbracket (by decide)
  | plain hplain => exact absurd hplain (by decide)

theorem Moves.of_bracket (h : Moves st c st') (hc : c = 0x7d ∨ c = 0x5d) :
    mayClose st.mode = true := by
  cases h with
  | close _ hm => exact hm
  | space hspace => obtain rfl | rfl := hc <;> cases hspace
  | comma | quote => exact absurd hc (by decide)
  | plain hplain => exact absurd hplain (not_plain_of_bracket hc)

theorem Moves.place (h : Moves st c st') (hplace : placeOf st.mode = .text) :
    placeOf st'.mode = Place.text.next c ∧ c ≠ 0x2f ∧
      (isTrimmed c = true → isSpace c = true) := by
  cases h with
  | space hc =>
    have hne := (trimmed_of_space hc).2
    exact ⟨hplace.trans (if_neg hne.1).symm, hne.2.2, fun _ ↦ hc⟩
  | comma hawaits =>
    obtain ⟨stack, mode⟩ := st'
    obtain rfl | rfl := hawaits <;> exact ⟨rfl, by decide⟩
  | close hc _ hp => obtain rfl | rfl := hc <;> exact ⟨hp, by decide⟩
  | quote hp => exact ⟨hp, by decide⟩
  | plain hc hp =>
    refine ⟨hp.trans (if_neg ?_).symm, ?_, fun h ↦ absurd (h.symm.trans hc.1) (by decide)⟩ <;>
      rintro rfl <;> exact absurd hc (by decide)

theorem endString_place {isName : Bool} {units : JsString}
    (h : endString stack isName units = some st) : placeOf st.mode = .text := by
  cases isName with
  | false => exact some_inj.mp h ▸ (deliver_mode _ _).1
  | true =>
    rcases stack with _ | ⟨_ | ⟨ms, _ | name⟩, rest⟩ <;> cases h
    rfl

/-- A unit of a JSON text leads from its place to the next. -/
theorem step_place (hl : Lettered st) (h : step st c = some st') :
    placeOf st'.mode = (placeOf st.mode).next c ∧
      (placeOf st.mode = .text → c ≠ 0x2f ∧ (isTrimmed c = true → isSpace c = true)) := by
  by_cases hplace : placeOf st.mode = .text
  · have hp := (step_moves hl hplace h).place ((ended_kept st).1.trans hplace)
    rw [hplace]
    exact ⟨hp.1, fun _ ↦ hp.2⟩
  refine ⟨?_, fun ht ↦ absurd ht hplace⟩
  obtain ⟨stack, mode⟩ := st
  rw [step] at h
  cases mode with
  | str isName units =>
    dsimp only at h
    rw [placeOf, Place.next]
    split_ifs at h with hquote hback
    · subst hquote
      exact endString_place h
    · rw [if_pos hback, ← some_inj.mp h, placeOf]
    · rw [if_neg hback, if_neg hquote, ← some_inj.mp h, placeOf]
  | esc isName units =>
    dsimp only at h
    split_ifs at h
    · exact some_inj.mp h ▸ rfl
    · obtain ⟨u, -, rfl⟩ := map_eq_some_iff.mp h
      rfl
  | hex isName units count code =>
    obtain ⟨d, hd, hst⟩ := map_eq_some_iff.mp h
    have hquote : c ≠ 0x22 ∧ c ≠ 0x5c := by constructor <;> rintro rfl <;> cases hd
    rw [placeOf, Place.next, if_neg hquote.2, if_neg hquote.1, ← hst]
    split_ifs <;> rfl
  | _ => exact absurd rfl hplace

/-! ## Where a number ends -/

/-- The value of a text that is read from a state. -/
def value (st : State) (text : JsString) : Option Json := (run st text).bind finish

theorem value_cons (st : State) (c : CodeUnit) (text : JsString) :
    value st (c :: text) = (step st c).bind (value · text) :=
  Option.bind_assoc _ _ _

theorem run_of_value {v : Json} (h : value st text = some v) : ∃ st', run st text = some st' :=
  have ⟨st', hrun, _⟩ := bind_eq_some_iff.mp h
  ⟨st', hrun⟩

/-- A number that can end does, where what comes next is not plain. -/
theorem reads_end (h : ∀ c ∈ text.head?, ¬Plain c) (st : State) :
    value st text = value (ended st) text ∧ (text = [] ∨ run st text = run (ended st) text) := by
  obtain ⟨stack, mode⟩ := st
  cases mode with
  | num n =>
    rw [ended]
    dsimp only
    split_ifs with hn
    · cases text with
      | nil => exact ⟨finish_num stack hn, .inl rfl⟩
      | cons c text =>
        have hnone : n.step c = none := by
          cases hc : n.step c with
          | none => rfl
          | some n' => exact absurd (numStep_plain hc) (h c rfl)
        have hstep := step_num_ends stack hn hnone
        exact ⟨by rw [value_cons, hstep, ← value_cons], .inr (by rw [run_cons, hstep, ← run_cons])⟩
    · exact ⟨rfl, .inr rfl⟩
  | _ => exact ⟨rfl, .inr rfl⟩

theorem stepDelivered_plain (hc : Plain c) (st : State) : stepDelivered st c = none := by
  have hne : c ≠ 0x2c ∧ c ≠ 0x5d ∧ c ≠ 0x7d := by
    refine ⟨?_, ?_, ?_⟩ <;> rintro rfl <;> exact absurd hc (by decide)
  rw [stepDelivered, if_neg fun h ↦ not_plain_of_space h hc]
  split
  · rcases st.stack with _ | ⟨_ | ⟨ms, _ | name⟩, rest⟩
    · rfl
    · rw [punctuate, if_neg hne.1, if_neg hne.2.1]
    · rw [punctuate, if_neg hne.1, if_neg hne.2.2]
    · rfl
  · rfl

/-- What is read after a number that ended is read with it. -/
theorem reads_ended (h : run (ended st) text = some st') :
    (∃ st₁, run st text = some st₁) ∧ value st text = value (ended st) text := by
  have hcase : ended st = st ∨ ∀ c ∈ text.head?, ¬Plain c := by
    obtain ⟨stack, mode⟩ := st
    cases mode with
    | num n =>
      rw [ended] at h ⊢
      dsimp only at h ⊢
      split_ifs at h ⊢
      · refine .inr ?_
        cases text with
        | nil => rintro _ ⟨⟩
        | cons c text =>
          rintro _ ⟨⟩ hc
          rw [run_cons, step_deliver, stepDelivered_plain hc] at h
          cases h
      · exact .inl rfl
    | _ => exact .inl rfl
  obtain hsame | hhead := hcase
  · exact ⟨⟨st', hsame ▸ h⟩, by rw [hsame]⟩
  · obtain ⟨hvalue, rfl | hrun⟩ := reads_end hhead st
    · exact ⟨⟨st, rfl⟩, hvalue⟩
    · exact ⟨⟨st', hrun.trans h⟩, hvalue⟩

theorem ended_of_between (h : between st.mode = true) : ended st = st := by
  obtain ⟨stack, mode⟩ := st
  cases mode with
  | num n => cases h
  | _ => rfl

theorem between_reads (hb : between st.mode = true) :
    placeOf st.mode = .text ∧ ∀ c, isSpace c = true → step st c = some st := by
  obtain ⟨stack, mode⟩ := st
  cases mode with
  | value | elem | member | name | colon | after | done => exact ⟨rfl, fun _ hc ↦ if_pos hc⟩
  | str | esc | hex | num | lit => cases hb

/-! ## Strict texts -/

theorem closes_cons_trimmed (hc : isTrimmed c = true) (text : JsString) :
    closes (c :: text) = closes text := by
  rw [closes, dropWhile_cons_of_pos hc, closes]

theorem bracket_of_closes (hc : ¬isTrimmed c = true) (h : closes (c :: text) = true) :
    c = 0x7d ∨ c = 0x5d := by
  rw [closes, dropWhile_cons_of_neg hc, head?_cons, Option.any_some, Bool.or_eq_true] at h
  exact h.imp eq_of_beq eq_of_beq

/-- A text that closes, as the second pass leaves it, is read where a container may end. -/
theorem mayClose_of_closes (hl : Lettered st) (hplace : placeOf st.mode = .text)
    (hcloses : closes text = true) (h : run st (drop .text text) = some st') :
    mayClose (ended st).mode = true ∧ ∀ c ∈ (drop .text text).head?, ¬Plain c := by
  induction text generalizing st with
  | nil => cases hcloses
  | cons c text ih =>
    have hcomma : c ≠ 0x2c := by
      rintro rfl
      exact absurd (bracket_of_closes (by decide) hcloses) (by decide)
    rw [drop_cons fun _ hc ↦ absurd hc hcomma] at h ⊢
    obtain ⟨st₁, hstep, hrun⟩ := bind_eq_some_iff.mp h
    have hmoves := step_moves hl hplace hstep
    by_cases htrimmed : isTrimmed c = true
    · have hspace := ((step_place hl hstep).2 hplace).2 htrimmed
      obtain ⟨hb, rfl⟩ := hmoves.of_space hspace
      rw [closes_cons_trimmed htrimmed] at hcloses
      rw [Place.next, if_neg (trimmed_of_space hspace).2.1] at hrun
      have ih := ih ((ended_kept st).2 hl) ((ended_kept st).1.trans hplace) hcloses hrun
      rw [ended_of_between hb] at ih
      exact ⟨ih.1, by rintro _ ⟨⟩; exact not_plain_of_space hspace⟩
    · have hbracket := bracket_of_closes htrimmed hcloses
      exact ⟨hmoves.of_bracket hbracket, by rintro _ ⟨⟩; exact not_plain_of_bracket hbracket⟩

/-- Behind a comma that was read, no bracket closes. -/
theorem not_closes (hl : Lettered st) (hplace : placeOf st.mode = .text) {st₁ : State}
    (hstep : step st 0x2c = some st₁) (h : run st₁ (drop .text text) = some st') :
    closes text = false := by
  refine Bool.eq_false_iff.mpr fun hcloses ↦ ?_
  have hnext := (step_place hl hstep).1
  rw [hplace] at hnext
  have hm := (mayClose_of_closes (kept_lettered.step hl hstep) hnext hcloses h).1
  obtain ⟨stack, mode⟩ := st₁
  obtain rfl | rfl := (step_moves hl hplace hstep).of_comma <;> cases hm

theorem strict_run (hl : Lettered st) (h : run st text = some st') :
    strip (placeOf st.mode) text = some text ∧ drop (placeOf st.mode) text = text := by
  induction text generalizing st with
  | nil => exact ⟨rfl, rfl⟩
  | cons c text ih =>
    obtain ⟨st₁, hstep, hrun⟩ := bind_eq_some_iff.mp h
    obtain ⟨hplace, htoken⟩ := step_place hl hstep
    have ih := ih (kept_lettered.step hl hstep) hrun
    rw [hplace] at ih
    rw [strip_cons fun ht hc ↦ absurd hc (htoken ht).1, ih.1, drop_cons, ih.2]
    · exact ⟨rfl, rfl⟩
    · rintro htext rfl
      rw [htext] at ih
      exact not_closes hl htext hstep (ih.2.symm ▸ hrun : run st₁ (drop .text text) = some st')

theorem start_lettered : Lettered start := by rintro _ _ ⟨⟩

/-- **A strict JSON text** is left as it is, and read as `JSON.parse` reads it. -/
theorem strict_unchanged {v : Json} (h : parse text = some v) :
    canonicalizeJsonc text = some text ∧ parseJsonc text = some v ∧
      hasJsoncComments text = false := by
  obtain ⟨st, hrun, -⟩ := bind_eq_some_iff.mp h
  have hsame := strict_run start_lettered hrun
  have hstrip : stripJsonComments text = some text := hsame.1
  have hcanonical : canonicalizeJsonc text = some text := by
    rw [canonicalizeJsonc, hstrip]
    exact congrArg some hsame.2
  refine ⟨hcanonical, ?_, ?_⟩
  · rw [parseJsonc, hcanonical]
    exact h
  · rw [hasJsoncComments, hstrip]
    exact decide_eq_false fun hne ↦ hne rfl

theorem strict_unchanged_slashes :
    canonicalizeJsonc (js "[\"//,]\",[]]") = some (js "[\"//,]\",[]]") ∧
      parseJsonc (js "[\"//,]\",[]]") = some (.arr [.str (js "//,]"), .arr []]) ∧
      hasJsoncComments (js "[\"//,]\",[]]") = false :=
  strict_unchanged rfl

/-! ## Dressed texts -/

/-- A text that begins with a comment, and what follows the comment. -/
inductive Comment : JsString → JsString → Prop where
  | line (body : JsString) {rest : JsString} : 0x0a ∉ body → (∀ c ∈ rest.head?, c = 0x0a) →
      Comment (0x2f :: 0x2f :: (body ++ rest)) rest
  | block (body : JsString) {rest : JsString} : ¬[0x2a, 0x2f] <:+: body →
      Comment (0x2f :: 0x2a :: (body ++ 0x2a :: 0x2f :: rest)) rest

/-- Behind whitespace and comments stands a closing bracket. -/
inductive Closing : JsString → Prop where
  | bracket {c : CodeUnit} (text : JsString) : c = 0x7d ∨ c = 0x5d → Closing (c :: text)
  | space {c : CodeUnit} {text : JsString} : isTrimmed c = true → Closing text → Closing (c :: text)
  | comment {text rest : JsString} : Comment text rest → Closing rest → Closing text

/-- `Dressed st q t`: read from a state, `t` is `q` with comments between its tokens and commas
where a container may end. -/
inductive Dressed : State → JsString → JsString → Prop where
  | nil (st : State) : Dressed st [] []
  | unit {st st' : State} {c : CodeUnit} {q t : JsString} : step st c = some st' →
      Dressed st' q t → Dressed st (c :: q) (c :: t)
  | comment {st : State} {q text rest : JsString} : between st.mode = true → Comment text rest →
      Dressed st q rest → Dressed st q text
  | comma {st : State} {q t : JsString} : mayClose st.mode = true → Closing t → Dressed st q t →
      Dressed st q (0x2c :: t)
  | ends {st : State} {q t : JsString} : Dressed (ended st) q t → Dressed st q t

/-! ## Comments -/

variable {rest body s : JsString}

theorem stripFrom_line (h : 0x0a ∉ body) (hrest : ∀ c ∈ rest.head?, c = 0x0a) :
    stripFrom .line (body ++ rest) = strip .text rest := by
  induction body with
  | nil =>
    cases rest with
    | nil => rfl
    | cons c rest =>
      obtain rfl := hrest c rfl
      rw [strip_cons fun _ hc ↦ absurd hc (by decide)]
      rfl
  | cons c body ih =>
    rw [mem_cons, not_or] at h
    rw [cons_append, stripFrom, if_neg (Ne.symm h.1), ih h.2]

theorem stripFrom_block (h : ¬[0x2a, 0x2f] <:+: body) (rest : JsString) :
    ∃ ws, ws ≠ [] ∧ (∀ c ∈ ws, isSpace c = true) ∧
      stripFrom .block (body ++ 0x2a :: 0x2f :: rest) = (strip .text rest).map (ws ++ ·) := by
  induction body with
  | nil => exact ⟨[0x20], cons_ne_nil _ _, by decide, rfl⟩
  | cons c body ih =>
    obtain ⟨ws, hne, hws, hstrip⟩ := ih fun hin ↦ h (hin.trans (suffix_cons c body).isInfix)
    obtain ⟨d, more, hmore, hd⟩ : ∃ d more, body ++ 0x2a :: 0x2f :: rest = d :: more ∧
        ¬(c = 0x2a ∧ d = 0x2f) := by
      cases body with
      | nil => exact ⟨_, _, rfl, fun hc ↦ absurd hc.2 (by decide)⟩
      | cons d more =>
        refine ⟨d, _, rfl, ?_⟩
        rintro ⟨rfl, rfl⟩
        exact h (prefix_append [0x2a, 0x2f] more).isInfix
    rw [cons_append, hmore, stripFrom, ← hmore, hstrip]
    by_cases hc : c = 0x0a
    · subst hc
      exact ⟨0x0a :: ws, cons_ne_nil _ _, forall_mem_cons.mpr ⟨rfl, hws⟩,
        by rw [if_pos rfl, Option.map_map]; rfl⟩
    · exact ⟨ws, hne, hws, by rw [if_neg hc, if_neg hd]⟩

/-- A comment leaves spaces, and what it is followed by is empty or begins with one. -/
theorem Comment.strip (h : Comment text rest) : ∃ ws : JsString,
    (∀ c ∈ ws, isSpace c = true) ∧ strip .text text = (strip .text rest).map (ws ++ ·) ∧
      (ws = [] → ∀ c ∈ rest.head?, c = 0x0a) := by
  cases h with
  | line body hbody hrest =>
    refine ⟨[], forall_mem_nil _, ?_, fun _ ↦ hrest⟩
    exact (stripFrom_line hbody hrest).trans Option.map_id'.symm
  | block body hbody =>
    obtain ⟨ws, hne, hws, hstrip⟩ := stripFrom_block hbody rest
    exact ⟨ws, hws, hstrip, fun hnil ↦ absurd hnil hne⟩

theorem Comment.length (h : Comment text rest) : rest.length < text.length := by
  cases h <;> simp only [length_cons, length_append] <;> omega

theorem exists_line (text : JsString) : ∃ body rest : JsString, text = body ++ rest ∧ 0x0a ∉ body ∧
    ∀ c ∈ rest.head?, c = 0x0a := by
  refine ⟨text.takeWhile (· != 0x0a), text.dropWhile (· != 0x0a), takeWhile_append_dropWhile.symm,
    fun h ↦ ?_, fun c hc ↦ ?_⟩
  · exact absurd (mem_takeWhile_imp h) (by decide)
  · have hall := head?_dropWhile_not (· != 0x0a) text
    rw [hc] at hall
    simpa using hall

theorem exists_block (h : stripFrom .block text = some s) : ∃ body rest : JsString,
    text = body ++ 0x2a :: 0x2f :: rest ∧ ¬[0x2a, 0x2f] <:+: body := by
  induction text generalizing s with
  | nil => cases h
  | cons c text ih =>
    cases text with
    | nil => cases h
    | cons d rest =>
      by_cases hend : c = 0x2a ∧ d = 0x2f
      · exact ⟨[], rest, by rw [hend.1, hend.2]; rfl, by decide⟩
      · obtain ⟨s, hs⟩ : ∃ s, stripFrom .block (d :: rest) = some s := by
          rw [stripFrom, if_neg hend] at h
          split_ifs at h
          · obtain ⟨s, hs, -⟩ := map_eq_some_iff.mp h
            exact ⟨s, hs⟩
          · exact ⟨_, h⟩
        obtain ⟨body, rest', heq, hbody⟩ := ih hs
        refine ⟨c :: body, rest', by rw [heq]; rfl, fun hin ↦ ?_⟩
        obtain ⟨more, hpre⟩ | hin := infix_cons_iff.mp hin
        · obtain ⟨rfl, rfl⟩ := cons.inj hpre
          exact hend ⟨rfl, (cons.inj heq).1⟩
        · exact hbody hin

/-- Where the first pass does not keep a unit outside of strings, there is a comment. -/
theorem exists_comment (h : strip .text (c :: text) = some s) :
    (∃ rest, Comment (c :: text) rest) ∨
      (c = 0x2f → ∀ d ∈ text.head?, d ≠ 0x2f ∧ d ≠ 0x2a) := by
  by_cases hkept : c = 0x2f → ∀ d ∈ text.head?, d ≠ 0x2f ∧ d ≠ 0x2a
  · exact .inr hkept
  push Not at hkept
  obtain ⟨rfl, d, hd, hcomment⟩ := hkept
  obtain ⟨text, rfl⟩ := head?_eq_some_iff.mp hd
  by_cases hline : d = 0x2f
  · subst hline
    obtain ⟨body, rest, rfl, hbody, hrest⟩ := exists_line text
    exact .inl ⟨rest, .line body hbody hrest⟩
  · obtain rfl := hcomment hline
    obtain ⟨body, rest, rfl, hbody⟩ := exists_block (h : stripFrom .block text = some s)
    exact .inl ⟨rest, .block body hbody⟩

/-! ## Undressing -/

variable {q t : JsString} {v : Json}

theorem Dressed.reads (h : Dressed st q t) : ∃ st', run st q = some st' := by
  induction h with
  | nil st => exact ⟨st, rfl⟩
  | unit hstep _ ih =>
    obtain ⟨st', h⟩ := ih
    exact ⟨st', by rw [run_cons, hstep]; exact h⟩
  | comment _ _ _ ih | comma _ _ _ ih => exact ih
  | ends _ ih =>
    obtain ⟨st', h⟩ := ih
    exact (reads_ended h).1

theorem value_spaces (hb : between st.mode = true) (hs : ∀ c ∈ s, isSpace c = true)
    (text : JsString) : value st (s ++ text) = value st text := by
  induction s with
  | nil => rfl
  | cons c s ih =>
    obtain ⟨hc, hs⟩ := forall_mem_cons.mp hs
    rw [cons_append, value_cons, (between_reads hb).2 c hc]
    exact ih hs

theorem pass_spaces (hs : ∀ c ∈ s, isSpace c = true) (text : JsString) :
    drop .text (s ++ text) = s ++ drop .text text ∧ closes (s ++ text) = closes text := by
  induction s with
  | nil => exact ⟨rfl, rfl⟩
  | cons c s ih =>
    obtain ⟨hc, hs⟩ := forall_mem_cons.mp hs
    obtain ⟨htrimmed, hquote, hcomma, -⟩ := trimmed_of_space hc
    rw [cons_append, drop_cons fun _ heq ↦ absurd heq hcomma, Place.next, if_neg hquote,
      closes_cons_trimmed htrimmed, (ih hs).1]
    exact ⟨rfl, (ih hs).2⟩

/-- Outside of strings the first pass keeps a unit that is no slash. -/
theorem strip_text (hslash : c ≠ 0x2f) (hquote : c ≠ 0x22) :
    strip .text (c :: text) = (strip .text text).map (c :: ·) := by
  rw [strip_cons fun _ hc ↦ absurd hc hslash, Place.next, if_neg hquote]

theorem Closing.closes (h : Closing t) (hs : strip .text t = some s) : closes s = true := by
  induction h generalizing s with
  | bracket text hc =>
    rw [strip_text (by rintro rfl; simp at hc) (by rintro rfl; simp at hc)] at hs
    obtain ⟨s, -, rfl⟩ := map_eq_some_iff.mp hs
    obtain rfl | rfl := hc <;> rfl
  | space hc _ ih =>
    rw [strip_text (by rintro rfl; cases hc) (by rintro rfl; cases hc)] at hs
    obtain ⟨s', hrest, rfl⟩ := map_eq_some_iff.mp hs
    rw [closes_cons_trimmed hc, ih hrest]
  | comment hc _ ih =>
    obtain ⟨ws, hws, hstrip, -⟩ := hc.strip
    obtain ⟨s', hrest, rfl⟩ := map_eq_some_iff.mp (hstrip.symm.trans hs)
    exact (pass_spaces hws s').2.trans (ih hrest)

theorem Dressed.undressed (h : Dressed st q t) (hl : Lettered st) (hv : value st q = some v) :
    ∃ s, strip (placeOf st.mode) t = some s ∧ value st (drop (placeOf st.mode) s) = some v := by
  induction h with
  | nil st => exact ⟨[], rfl, hv⟩
  | @unit st st' c q t hstep _ ih =>
    rw [value_cons, hstep] at hv
    obtain ⟨s, hs, hvalue⟩ := ih (kept_lettered.step hl hstep) hv
    obtain ⟨hplace, htoken⟩ := step_place hl hstep
    rw [hplace] at hs hvalue
    refine ⟨c :: s, by rw [strip_cons fun ht hc ↦ absurd hc (htoken ht).1, hs]; rfl, ?_⟩
    rw [drop_cons, value_cons, hstep]
    · exact hvalue
    · rintro htext rfl
      rw [htext] at hvalue
      obtain ⟨st₁, hrun⟩ := run_of_value hvalue
      exact not_closes hl htext hstep hrun
  | comment hb hc _ ih =>
    obtain ⟨s, hs, hvalue⟩ := ih hl hv
    obtain ⟨ws, hws, hstrip, -⟩ := hc.strip
    rw [(between_reads hb).1] at hs hvalue ⊢
    refine ⟨ws ++ s, hstrip.trans (by rw [show strip .text _ = some s from hs]; rfl), ?_⟩
    rw [(pass_spaces hws s).1, value_spaces hb hws, hvalue]
  | @comma st q t hm hclosing _ ih =>
    obtain ⟨s, hs, hvalue⟩ := ih hl hv
    have hplace : placeOf st.mode = .text := by
      obtain ⟨stack, mode⟩ := st
      cases mode <;> first | rfl | cases hm
    rw [hplace] at hs hvalue ⊢
    refine ⟨0x2c :: s, by rw [strip_text (by decide) (by decide), hs]; rfl, ?_⟩
    rw [drop_comma (hclosing.closes hs), hvalue]
  | @ends st q t hd ih =>
    obtain ⟨st', hrun⟩ := hd.reads
    obtain ⟨s, hs, hvalue⟩ := ih ((ended_kept st).2 hl) ((reads_ended hrun).2 ▸ hv)
    rw [(ended_kept st).1] at hs hvalue
    obtain ⟨st₁, hrun⟩ := run_of_value hvalue
    exact ⟨s, hs, (reads_ended hrun).2.trans hvalue⟩

/-! ## Dressing -/

theorem closing_of_closes (hs : strip .text t = some s) (h : closes s = true) : Closing t := by
  induction hn : t.length using Nat.strong_induction_on generalizing t s with
  | _ n ih =>
    subst hn
    cases t with
    | nil =>
      obtain rfl := some_inj.mp hs
      cases h
    | cons c t =>
      obtain ⟨rest, hcomment⟩ | hkept := exists_comment hs
      · obtain ⟨ws, hws, hstrip, -⟩ := hcomment.strip
        obtain ⟨s', hrest, rfl⟩ := map_eq_some_iff.mp (hstrip.symm.trans hs)
        exact .comment hcomment (ih _ hcomment.length hrest ((pass_spaces hws s').2 ▸ h) rfl)
      · rw [strip_cons fun _ ↦ hkept] at hs
        obtain ⟨s', hrest, rfl⟩ := map_eq_some_iff.mp hs
        by_cases htrimmed : isTrimmed c = true
        · have hquote : c ≠ 0x22 := by rintro rfl; cases htrimmed
          rw [Place.next, if_neg hquote] at hrest
          exact .space htrimmed
            (ih _ (Nat.lt_succ_self _) hrest (closes_cons_trimmed htrimmed s' ▸ h) rfl)
        · exact .bracket t (bracket_of_closes htrimmed h)

/-- What is empty or begins with a space is read between tokens. -/
theorem between_of_value (hl : Lettered st) (hplace : placeOf st.mode = .text)
    (hhead : ∀ c ∈ text.head?, isSpace c = true) (h : value st text = some v) :
    between (ended st).mode = true := by
  cases text with
  | nil =>
    obtain rfl | ⟨n, rfl, hn, -⟩ := finish_eq_some h
    · rfl
    · rw [ended]
      dsimp only
      rw [if_pos hn]
      exact (deliver_mode _ _).2.1
  | cons c text =>
    obtain ⟨st', hstep, -⟩ := bind_eq_some_iff.mp (value_cons _ _ _ ▸ h)
    exact ((step_moves hl hplace hstep).of_space (hhead c rfl)).1

theorem space_of_newline (hs : strip .text t = some s) (ht : ∀ c ∈ t.head?, c = 0x0a) :
    ∀ d ∈ (drop .text s).head?, isSpace d = true := by
  cases t with
  | nil =>
    obtain rfl := some_inj.mp hs
    rintro _ ⟨⟩
  | cons c t =>
    obtain rfl := ht c rfl
    rw [strip_text (by decide) (by decide)] at hs
    obtain ⟨s', -, rfl⟩ := map_eq_some_iff.mp hs
    rw [drop_cons fun _ hc ↦ absurd hc (by decide)]
    rintro _ ⟨⟩
    rfl

theorem exists_dressed (hl : Lettered st) (hs : strip (placeOf st.mode) t = some s)
    (hv : value st (drop (placeOf st.mode) s) = some v) :
    ∃ q, Dressed st q t ∧ value st q = some v := by
  induction hn : t.length using Nat.strong_induction_on generalizing st t s with
  | _ n ih =>
    subst hn
    -- what goes on from the state in which a number has ended
    have hended {q : JsString} {t' : JsString} (hd : Dressed (ended st) q t')
        (hq : value (ended st) q = some v) : value st q = some v :=
      have ⟨_, hrun⟩ := hd.reads
      (reads_ended hrun).2.trans hq
    have hplace₁ {p : Place} (hp : placeOf st.mode = p) : p = placeOf (ended st).mode :=
      hp.symm.trans (ended_kept st).1.symm
    cases t with
    | nil =>
      obtain rfl := some_inj.mp hs
      exact ⟨[], .nil st, hv⟩
    | cons c t =>
      by_cases hcomment : placeOf st.mode = .text ∧ ∃ rest, Comment (c :: t) rest
      · obtain ⟨hplace, rest, hcomment⟩ := hcomment
        rw [hplace] at hs hv
        obtain ⟨ws, hws, hstrip, hnil⟩ := hcomment.strip
        obtain ⟨s', hrest, rfl⟩ := map_eq_some_iff.mp (hstrip.symm.trans hs)
        rw [(pass_spaces hws _).1] at hv
        have hhead : ∀ d ∈ (ws ++ drop .text s').head?, isSpace d = true := by
          cases ws with
          | nil => exact space_of_newline hrest (hnil rfl)
          | cons w ws =>
            rintro _ ⟨⟩
            exact hws w mem_cons_self
        have hb := between_of_value hl hplace hhead hv
        rw [(reads_end (fun d hd ↦ not_plain_of_space (hhead d hd)) st).1] at hv
        rw [value_spaces hb hws] at hv
        obtain ⟨q, hd, hq⟩ := ih _ hcomment.length ((ended_kept st).2 hl)
          (hplace₁ hplace ▸ hrest) (hplace₁ hplace ▸ hv) rfl
        exact ⟨q, .ends (.comment hb hcomment hd), hended hd hq⟩
      · have hkept : placeOf st.mode = .text → c = 0x2f → ∀ d ∈ t.head?, d ≠ 0x2f ∧ d ≠ 0x2a := by
          intro hplace
          rw [hplace] at hs
          exact (exists_comment hs).resolve_left fun hc ↦ hcomment ⟨hplace, hc⟩
        rw [strip_cons hkept] at hs
        obtain ⟨s', hrest, rfl⟩ := map_eq_some_iff.mp hs
        by_cases hcomma : placeOf st.mode = .text ∧ c = 0x2c ∧ closes s' = true
        · obtain ⟨hplace, rfl, hcloses⟩ := hcomma
          rw [hplace] at hv hrest
          rw [drop_comma hcloses] at hv
          obtain ⟨st', hrun⟩ := run_of_value hv
          obtain ⟨hm, hhead⟩ := mayClose_of_closes hl hplace hcloses hrun
          rw [(reads_end hhead st).1] at hv
          obtain ⟨q, hd, hq⟩ := ih _ (Nat.lt_succ_self _) ((ended_kept st).2 hl)
            (hplace₁ hplace ▸ hrest) (hplace₁ hplace ▸ hv) rfl
          exact ⟨q, .ends (.comma hm (closing_of_closes hrest hcloses) hd), hended hd hq⟩
        · rw [drop_cons fun hp hc ↦ Bool.eq_false_iff.mpr fun h ↦ hcomma ⟨hp, hc, h⟩,
            value_cons] at hv
          obtain ⟨st', hstep, hv⟩ := bind_eq_some_iff.mp hv
          rw [← (step_place hl hstep).1] at hrest hv
          obtain ⟨q, hd, hq⟩ := ih _ (Nat.lt_succ_self _) (kept_lettered.step hl hstep) hrest hv rfl
          exact ⟨c :: q, .unit hstep hd, by rw [value_cons, hstep]; exact hq⟩

/-- **What is read**: a text is read exactly if it is a JSON text with comments between its tokens,
and commas where a container may end; and it has that text's value. -/
theorem parseJsonc_eq_some : parseJsonc t = some v ↔
    ∃ q, Dressed start q t ∧ parse q = some v := by
  constructor
  · intro h
    obtain ⟨text, htext, hparse⟩ := bind_eq_some_iff.mp h
    obtain ⟨s, hs, rfl⟩ := map_eq_some_iff.mp htext
    exact exists_dressed start_lettered hs hparse
  · rintro ⟨q, hd, hq⟩
    obtain ⟨s, hs, hvalue⟩ := hd.undressed start_lettered hq
    have hstrip : stripJsonComments t = some s := hs
    rw [parseJsonc, canonicalizeJsonc, hstrip]
    exact hvalue

example : parseJsonc (js "[,/**/]//") = some (.arr []) := rfl

end Jsonc
