import OpenCodex.Data.Json
import Mathlib.Data.List.Basic
import Mathlib.Tactic.IntervalCases

/-!
# The texts of JSON, and what the reader can do

What the proxy writes as JSON is made of objects, arrays, strings and natural numbers (`Doc`), and
`Doc.render` is `JSON.stringify` on these.  Strings and digits are read back wherever they stand
(`run_literal`), and have no control characters (`literal_printable`).

`Goes` says once what a unit can do to the reader, and `Kept.run` that what each of these keeps is
kept by reading any text.
-/

set_option autoImplicit false

open List Option

namespace Json

/-! ## Rendering -/

/-- A JSON value as the proxy writes it. -/
inductive Doc where
  | nat (n : ℕ)
  | str (s : JsString)
  | arr (items : List Doc)
  | obj (members : List (JsString × Doc))

/-- A decimal digit. -/
def digitUnit (d : ℕ) : CodeUnit := UInt16.ofNat (0x30 + d)

/-- A lower-case hexadecimal digit. -/
def hexUnit (d : ℕ) : CodeUnit := if d < 10 then digitUnit d else UInt16.ofNat (0x57 + d)

def decimalUpTo : ℕ → ℕ → JsString
  | 0, _ => []
  | fuel + 1, n =>
    if n < 10 then [digitUnit n] else decimalUpTo fuel (n / 10) ++ [digitUnit (n % 10)]

/-- The decimal digits of a number. -/
def decimal (n : ℕ) : JsString := decimalUpTo (n + 1) n

/-- `\u` and four digits. -/
def escapeCode (c : CodeUnit) : JsString :=
  [0x5c, 0x75, hexUnit (c.toNat / 4096), hexUnit (c.toNat / 256 % 16), hexUnit (c.toNat / 16 % 16),
    hexUnit (c.toNat % 16)]

/-- A unit as it stands in a string literal, if it is not half of a pair. -/
def escape (c : CodeUnit) : JsString :=
  if c = 0x22 then js "\\\""
  else if c = 0x5c then js "\\\\"
  else if c = 0x08 then js "\\b"
  else if c = 0x0c then js "\\f"
  else if c = 0x0a then js "\\n"
  else if c = 0x0d then js "\\r"
  else if c = 0x09 then js "\\t"
  else if c < 0x20 then escapeCode c
  else [c]

def isHighSurrogate (c : CodeUnit) : Bool := 0xd800 ≤ c && c ≤ 0xdbff

def isLowSurrogate (c : CodeUnit) : Bool := 0xdc00 ≤ c && c ≤ 0xdfff

/-- A unit that no partner follows: a lone half of a pair is written as a code. -/
def escapeAlone (c : CodeUnit) : JsString :=
  if isHighSurrogate c || isLowSurrogate c then escapeCode c else escape c

/-- The inside of a string literal. -/
def quoted : JsString → JsString
  | [] => []
  | [c] => escapeAlone c
  | c :: d :: rest =>
    if isHighSurrogate c && isLowSurrogate d then c :: d :: quoted rest
    else escapeAlone c ++ quoted (d :: rest)

/-- A string literal. -/
def literal (s : JsString) : JsString := 0x22 :: (quoted s ++ [0x22])

mutual

/-- `JSON.stringify`. -/
def Doc.render : Doc → JsString
  | .nat n => decimal n
  | .str s => literal s
  | .arr [] => [0x5b, 0x5d]
  | .arr (item :: items) => 0x5b :: (item.render ++ renderItems items)
  | .obj [] => [0x7b, 0x7d]
  | .obj ((name, v) :: members) =>
    0x7b :: (literal name ++ 0x3a :: (v.render ++ renderMembers members))

/-- The further elements of an array, and its end. -/
def renderItems : List Doc → JsString
  | [] => [0x5d]
  | item :: items => 0x2c :: (item.render ++ renderItems items)

/-- The further members of an object, and its end. -/
def renderMembers : List (JsString × Doc) → JsString
  | [] => [0x7d]
  | (name, v) :: members =>
    0x2c :: (literal name ++ 0x3a :: (v.render ++ renderMembers members))

end

mutual

/-- The value a rendering stands for. -/
def Doc.toJson : Doc → Json
  | .nat n => .num n
  | .str s => .str s
  | .arr items => .arr (itemsToJson items)
  | .obj members => .obj (membersToJson members)

def itemsToJson : List Doc → List Json
  | [] => []
  | item :: items => item.toJson :: itemsToJson items

def membersToJson : List (JsString × Doc) → List (JsString × Json)
  | [] => []
  | (name, v) :: members => (name, v.toJson) :: membersToJson members

end

/-! ## Reading numbers and strings back -/

variable {d : ℕ}

theorem digit?_digitUnit (h : d < 10) : digit? (digitUnit d) = some d := by interval_cases d <;> rfl

theorem hexDigit?_hexUnit (h : d < 16) : hexDigit? (hexUnit d) = some d := by
  interval_cases d <;> rfl

variable {n : ℕ}

theorem decimalUpTo_eq {f g : ℕ} (hf : n < f) (hg : n < g) : decimalUpTo f n = decimalUpTo g n := by
  induction f generalizing g n with
  | zero => omega
  | succ f ih =>
    obtain ⟨g, rfl⟩ : ∃ g', g = g' + 1 := ⟨g - 1, by omega⟩
    rw [decimalUpTo, decimalUpTo]
    split
    · rfl
    · rw [ih (by omega : n / 10 < f) (by omega : n / 10 < g)]

theorem decimal_of_lt (h : n < 10) : decimal n = [digitUnit n] := by
  rw [decimal, decimalUpTo, if_pos h]

theorem decimal_of_ge (h : 10 ≤ n) : decimal n = decimal (n / 10) ++ [digitUnit (n % 10)] := by
  rw [decimal, decimalUpTo, if_neg (by omega), decimal,
    decimalUpTo_eq (by omega : n / 10 < n) (by omega : n / 10 < n / 10 + 1)]

theorem hexDigits_toNat (h : n < 65536) :
    16 * (16 * (16 * (16 * 0 + n / 4096) + n / 256 % 16) + n / 16 % 16) + n % 16 = n := by
  omega

theorem run_escapeCode (stack : List Frame) (isName : Bool) (units : JsString) (c : CodeUnit) :
    run ⟨stack, .str isName units⟩ (escapeCode c) = some ⟨stack, .str isName (c :: units)⟩ := by
  have hc : c.toNat < 65536 := c.toNat_lt
  have hread : run ⟨stack, .str isName units⟩ (escapeCode c) =
      some ⟨stack, .str isName (UInt16.ofNat
        (16 * (16 * (16 * (16 * 0 + c.toNat / 4096) + c.toNat / 256 % 16) + c.toNat / 16 % 16) +
          c.toNat % 16) :: units)⟩ := by
    simp only [escapeCode, run_cons, step, run_nil,
      hexDigit?_hexUnit (by omega : c.toNat / 4096 < 16),
      hexDigit?_hexUnit (by omega : c.toNat / 256 % 16 < 16),
      hexDigit?_hexUnit (by omega : c.toNat / 16 % 16 < 16),
      hexDigit?_hexUnit (by omega : c.toNat % 16 < 16), map_some]
    rfl
  rw [hread, hexDigits_toNat hc, UInt16.ofNat_toNat]

theorem step_plain (stack : List Frame) (isName : Bool) (units : JsString) {c : CodeUnit}
    (hquote : c ≠ 0x22) (hslash : c ≠ 0x5c) (hcontrol : ¬c < 0x20) :
    step ⟨stack, .str isName units⟩ c = some ⟨stack, .str isName (c :: units)⟩ := by
  rw [step]
  dsimp only
  rw [if_neg hquote, if_neg hslash, if_neg hcontrol]

theorem run_escape (stack : List Frame) (isName : Bool) (units : JsString) (c : CodeUnit) :
    run ⟨stack, .str isName units⟩ (escape c) = some ⟨stack, .str isName (c :: units)⟩ := by
  rw [escape]
  split_ifs with hquote hslash h8 hc ha hd h9 hcontrol
  · rw [hquote]; rfl
  · rw [hslash]; rfl
  · rw [h8]; rfl
  · rw [hc]; rfl
  · rw [ha]; rfl
  · rw [hd]; rfl
  · rw [h9]; rfl
  · exact run_escapeCode stack isName units c
  · rw [run_cons, step_plain stack isName units hquote hslash hcontrol]
    rfl

theorem run_escapeAlone (stack : List Frame) (isName : Bool) (units : JsString) (c : CodeUnit) :
    run ⟨stack, .str isName units⟩ (escapeAlone c) = some ⟨stack, .str isName (c :: units)⟩ := by
  rw [escapeAlone]
  split
  · exact run_escapeCode stack isName units c
  · exact run_escape stack isName units c

theorem step_surrogate (stack : List Frame) (isName : Bool) (units : JsString) {c : CodeUnit}
    (h : 0xd800 ≤ c) :
    step ⟨stack, .str isName units⟩ c = some ⟨stack, .str isName (c :: units)⟩ := by
  have hc : 0xd800 ≤ c.toNat := h
  refine step_plain stack isName units ?_ ?_ ?_
  · rintro rfl; nomatch hc
  · rintro rfl; nomatch hc
  · intro hlt
    have : c.toNat < 0x20 := hlt
    omega

theorem run_quoted (stack : List Frame) (isName : Bool) (s units : JsString) :
    run ⟨stack, .str isName units⟩ (quoted s) = some ⟨stack, .str isName (s.reverse ++ units)⟩ := by
  induction s using quoted.induct generalizing units with
  | case1 => rfl
  | case2 c => exact run_escapeAlone stack isName units c
  | case3 c d rest hpair ih =>
    rw [quoted, if_pos hpair]
    simp only [isHighSurrogate, isLowSurrogate, Bool.and_eq_true, decide_eq_true_eq] at hpair
    have hd : 0xd800 ≤ d := by
      have hd : 0xdc00 ≤ d.toNat := hpair.2.1
      show 0xd800 ≤ d.toNat
      omega
    rw [run_cons, step_surrogate stack isName units hpair.1.1, bind_some, run_cons,
      step_surrogate stack isName (c :: units) hd, bind_some, ih]
    simp
  | case4 c d rest hpair ih =>
    rw [quoted, if_neg hpair, run_append, run_escapeAlone, bind_some, ih]
    simp

theorem run_literal (stack : List Frame) (s : JsString) :
    run ⟨stack, .value⟩ (literal s) = some (deliver stack (.str s)) := by
  have hread := run_quoted stack false s []
  rw [append_nil] at hread
  show run ⟨stack, .str false []⟩ (quoted s ++ [0x22]) = _
  rw [run_append, hread, bind_some]
  show some (deliver stack (.str s.reverse.reverse)) = _
  rw [reverse_reverse]

theorem run_name (ms : List (JsString × Json)) (stack : List Frame) (s text : JsString) :
    run ⟨.obj ms none :: stack, .name⟩ (literal s ++ 0x3a :: text) =
      run ⟨.obj ms (some s) :: stack, .value⟩ text := by
  have hread := run_quoted (.obj ms none :: stack) true s []
  rw [append_nil] at hread
  rw [run_append]
  have hname : run ⟨.obj ms none :: stack, .name⟩ (literal s) =
      some ⟨.obj ms (some s) :: stack, .colon⟩ := by
    show run ⟨.obj ms none :: stack, .str true []⟩ (quoted s ++ [0x22]) = _
    rw [run_append, hread, bind_some]
    show some (State.mk (.obj ms (some s.reverse.reverse) :: stack) .colon) = _
    rw [reverse_reverse]
  rw [hname]
  rfl

/-! ## Delivering values -/

/-- Two states that no closing unit, comma or end of text tells apart. -/
def Agree (st st' : State) : Prop :=
  finish st = finish st' ∧ ∀ c, c = 0x2c ∨ c = 0x5d ∨ c = 0x7d → step st c = step st' c

variable {st' : State}

theorem Agree.run {st : State} (h : Agree st st') {c : CodeUnit} (text : JsString)
    (hc : c = 0x2c ∨ c = 0x5d ∨ c = 0x7d) : run st (c :: text) = run st' (c :: text) := by
  rw [run_cons, run_cons, h.2 c hc]

theorem step_deliver (stack : List Frame) (v : Json) (c : CodeUnit) :
    step (deliver stack v) c = stepDelivered (deliver stack v) c := by
  rcases stack with _ | ⟨_ | ⟨ms, _ | name⟩, rest⟩ <;> rfl

theorem step_num_ends (stack : List Frame) {n : NumRead} {c : CodeUnit} (h : n.complete = true)
    (hstep : n.step c = none) : step ⟨stack, .num n⟩ c = step (deliver stack (.num n.value)) c := by
  rw [step_deliver, step]
  dsimp only
  rw [hstep]
  dsimp only
  rw [if_pos h]

theorem finish_num (stack : List Frame) {n : NumRead} (h : n.complete = true) :
    finish ⟨stack, .num n⟩ = finish (deliver stack (.num n.value)) := by
  rcases stack with _ | ⟨_ | ⟨ms, _ | name⟩, rest⟩
  · show (if _ then _ else _) = _
    rw [h, if_pos rfl]
    rfl
  all_goals rfl

variable {v : Json}

theorem finish_eq_some {st : State} (h : finish st = some v) : st = ⟨[], .done v⟩ ∨
      ∃ n : NumRead, st = ⟨[], .num n⟩ ∧ n.complete = true ∧ v = .num n.value := by
  obtain ⟨_ | ⟨f, stack⟩, mode⟩ := st
  · cases mode with
    | done w => exact .inl (by rw [some_inj.mp h])
    | num n =>
      change (if n.complete = true then some (num n.value) else none) = some v at h
      split_ifs at h with hcomplete
      exact .inr ⟨n, rfl, hcomplete, (some_inj.mp h).symm⟩
    | _ => nomatch h
  · nomatch h

/-! ## What is written is one line -/

/-- No unit is a control character. -/
def Printable (text : JsString) : Prop := ∀ c ∈ text, 0x20 ≤ c.toNat

variable {text : JsString}

theorem Printable.cons {c : CodeUnit} (hc : 0x20 ≤ c.toNat) (h : Printable text) :
    Printable (c :: text) :=
  forall_mem_cons.mpr ⟨hc, h⟩

theorem Printable.append {text' : JsString} (h : Printable text) (h' : Printable text') :
    Printable (text ++ text') :=
  forall_mem_append.mpr ⟨h, h'⟩

theorem printable_nil : Printable [] := nofun

theorem digitUnit_toNat (h : d < 16) : 0x20 ≤ (digitUnit d).toNat := by interval_cases d <;> decide

theorem hexUnit_toNat (h : d < 16) : 0x20 ≤ (hexUnit d).toNat := by interval_cases d <;> decide

theorem decimal_printable (n : ℕ) : Printable (decimal n) := by
  induction n using Nat.strong_induction_on with
  | _ n ih =>
    by_cases h : n < 10
    · rw [decimal_of_lt h]
      exact printable_nil.cons (digitUnit_toNat (by omega))
    · rw [decimal_of_ge (by omega)]
      exact (ih (n / 10) (by omega)).append (printable_nil.cons (digitUnit_toNat (by omega)))

theorem escapeCode_printable (c : CodeUnit) : Printable (escapeCode c) := by
  have hc : c.toNat < 65536 := c.toNat_lt
  refine .cons (by decide) <| .cons (by decide) <| .cons (hexUnit_toNat ?_) <|
    .cons (hexUnit_toNat ?_) <| .cons (hexUnit_toNat ?_) <| .cons (hexUnit_toNat ?_) printable_nil
  all_goals omega

theorem escape_printable (c : CodeUnit) : Printable (escape c) := by
  rw [escape]
  split_ifs with _ _ _ _ _ _ _ hcontrol
  iterate 7
    · exact .cons (by decide) (.cons (by decide) printable_nil)
  · exact escapeCode_printable c
  · exact printable_nil.cons (not_lt.mp hcontrol)

theorem escapeAlone_printable (c : CodeUnit) : Printable (escapeAlone c) := by
  rw [escapeAlone]
  split
  · exact escapeCode_printable c
  · exact escape_printable c

theorem quoted_printable (s : JsString) : Printable (quoted s) := by
  induction s using quoted.induct with
  | case1 => exact printable_nil
  | case2 c => exact escapeAlone_printable c
  | case3 c d rest hpair ih =>
    rw [quoted, if_pos hpair]
    simp only [isHighSurrogate, isLowSurrogate, Bool.and_eq_true, decide_eq_true_eq] at hpair
    have hc : 0xd800 ≤ c.toNat := hpair.1.1
    have hd : 0xdc00 ≤ d.toNat := hpair.2.1
    exact .cons (by omega) (.cons (by omega) ih)
  | case4 c d rest hpair ih =>
    rw [quoted, if_neg hpair]
    exact (escapeAlone_printable c).append ih

theorem literal_printable (s : JsString) : Printable (literal s) :=
  .cons (by decide) ((quoted_printable s).append (.cons (by decide) printable_nil))

theorem Printable.no_newline (h : Printable text) : (0x0a : CodeUnit) ∉ text :=
  fun hmem ↦ absurd (h 0x0a hmem) (by decide)

/-! ## What the reader can do -/

namespace Mode

/-- A mode that holds no value. -/
def plain : Mode → Bool
  | .done _ | .lit _ _ => false
  | _ => true

/-- The text's value is not complete. -/
def live : Mode → Bool
  | .done _ => false
  | _ => true

variable {mode : Mode}

theorem plain.ne_done (h : mode.plain = true) (v : Json) : mode ≠ .done v := by
  rintro rfl
  exact Bool.noConfusion h

theorem plain.ne_lit (h : mode.plain = true) (rest : JsString) (v : Json) : mode ≠ .lit rest v := by
  rintro rfl
  exact Bool.noConfusion h

end Mode

/-- The literals, without their first unit. -/
def literals : List (JsString × Json) :=
  [(js "rue", .bool true), (js "alse", .bool false), (js "ull", .null)]

/-- One thing the reader does: it goes on in the same container, opens one or closes one, or is done
with a name or a value. -/
inductive Goes : State → State → Prop where
  | on {stack : List Frame} {mode : Mode} (mode' : Mode) : mode'.plain = true →
      Goes ⟨stack, mode⟩ ⟨stack, mode'⟩
  | openArr (st : State) : Goes st ⟨.arr [] :: st.stack, .elem⟩
  | openObj (st : State) : Goes st ⟨.obj [] none :: st.stack, .member⟩
  | named {ms : List (JsString × Json)} {rest : List Frame} {mode : Mode} (name : JsString) :
      Goes ⟨.obj ms none :: rest, mode⟩ ⟨.obj ms (some name) :: rest, .colon⟩
  | literal {st : State} {rest : JsString} {v : Json} : (rest, v) ∈ literals →
      Goes st ⟨st.stack, .lit rest v⟩
  | letter {stack : List Frame} {c : CodeUnit} {rest : JsString} {v : Json} :
      Goes ⟨stack, .lit (c :: rest) v⟩ ⟨stack, .lit rest v⟩
  | lastLetter {stack : List Frame} {rest : JsString} {v : Json} :
      Goes ⟨stack, .lit rest v⟩ (deliver stack v)
  | string (st : State) (s : JsString) : Goes st (deliver st.stack (.str s))
  | number (st : State) (n : NumRead) : Goes st (deliver st.stack (.num n.value))
  | closeArr {items : List Json} {rest : List Frame} {mode : Mode} :
      Goes ⟨.arr items :: rest, mode⟩ (deliver rest (.arr items.reverse))
  | closeObj {ms : List (JsString × Json)} {rest : List Frame} {mode : Mode} :
      Goes ⟨.obj ms none :: rest, mode⟩ (deliver rest (.obj ms.reverse))

/-- A property that is kept until the text's value is complete, and then too. -/
def Kept (P : State → Prop) : Prop := ∀ st st', st.mode.live = true → Goes st st' → P st → P st'

section Kept

variable {P : State → Prop} {stack : List Frame} {mode : Mode} {c : CodeUnit} {st : State}

theorem startValue_goes (hst : startValue stack c = some st) : Goes ⟨stack, mode⟩ st := by
  rw [startValue] at hst
  split_ifs at hst
  · exact some_inj.mp hst ▸ .on _ rfl
  · exact some_inj.mp hst ▸ .openObj ⟨stack, mode⟩
  · exact some_inj.mp hst ▸ .openArr ⟨stack, mode⟩
  · exact some_inj.mp hst ▸ .on _ rfl
  · exact some_inj.mp hst ▸ .literal (by simp [literals])
  · exact some_inj.mp hst ▸ .literal (by simp [literals])
  · exact some_inj.mp hst ▸ .literal (by simp [literals])
  · obtain ⟨d, -, rfl⟩ := map_eq_some_iff.mp hst
    exact .on _ rfl

theorem punctuate_goes (hst : punctuate stack c = some st) : Goes ⟨stack, mode⟩ st := by
  rcases stack with _ | ⟨_ | ⟨ms, _ | name⟩, rest⟩
  · nomatch hst
  · rw [punctuate] at hst
    split_ifs at hst
    · exact some_inj.mp hst ▸ .on _ rfl
    · exact some_inj.mp hst ▸ .closeArr
  · rw [punctuate] at hst
    split_ifs at hst
    · exact some_inj.mp hst ▸ .on _ rfl
    · exact some_inj.mp hst ▸ .closeObj
  · nomatch hst

theorem endString_goes {isName : Bool} {units : JsString}
    (hst : endString stack isName units = some st) : Goes ⟨stack, mode⟩ st := by
  cases isName with
  | false => exact some_inj.mp hst ▸ .string ⟨stack, mode⟩ _
  | true =>
    rcases stack with _ | ⟨_ | ⟨ms, _ | name⟩, rest⟩
    · nomatch hst
    · nomatch hst
    · exact some_inj.mp hst ▸ .named _
    · nomatch hst

theorem Kept.stepDelivered (hP : Kept P) (h : P st) (hst : stepDelivered st c = some st') :
    P st' := by
  obtain ⟨stack, mode⟩ := st
  rw [Json.stepDelivered] at hst
  split_ifs at hst
  · exact some_inj.mp hst ▸ h
  · cases mode with
    | after => exact hP _ _ rfl (punctuate_goes hst) h
    | _ => nomatch hst

/-- **One unit** makes the reader do one thing, or two where it ends a number. -/
theorem Kept.step (hP : Kept P) (h : P st) (hst : step st c = some st') : P st' := by
  obtain ⟨stack, mode⟩ := st
  have hgoes (hlive : mode.live = true) {st' : State} (hgoes : Goes ⟨stack, mode⟩ st') : P st' :=
    hP _ _ hlive hgoes h
  have hon (hlive : mode.live = true) {mode' : Mode} (hplain : mode'.plain = true)
      (heq : some (State.mk stack mode') = some st') : P st' :=
    some_inj.mp heq ▸ hgoes hlive (.on mode' hplain)
  cases mode with
  | value =>
    rw [Json.step] at hst
    dsimp only at hst
    split_ifs at hst
    · exact hon rfl rfl hst
    · exact hgoes rfl (startValue_goes hst)
  | elem =>
    rw [Json.step] at hst
    dsimp only at hst
    split_ifs at hst
    · exact hon rfl rfl hst
    · exact hgoes rfl (punctuate_goes hst)
    · exact hgoes rfl (startValue_goes hst)
  | member =>
    rw [Json.step] at hst
    dsimp only at hst
    split_ifs at hst
    · exact hon rfl rfl hst
    · exact hgoes rfl (punctuate_goes hst)
    · exact hon rfl rfl hst
  | name | colon =>
    rw [Json.step] at hst
    dsimp only at hst
    split_ifs at hst
    · exact hon rfl rfl hst
    · exact hon rfl rfl hst
  | after => exact hP.stepDelivered h hst
  | done v => exact hP.stepDelivered h hst
  | str isName units =>
    rw [Json.step] at hst
    dsimp only at hst
    split_ifs at hst
    · exact hgoes rfl (endString_goes hst)
    · exact hon rfl rfl hst
    · exact hon rfl rfl hst
  | esc isName units =>
    rw [Json.step] at hst
    dsimp only at hst
    split_ifs at hst
    · exact hon rfl rfl hst
    · obtain ⟨u, -, hu⟩ := map_eq_some_iff.mp hst
      exact hon rfl rfl (congrArg some hu)
  | hex isName units count code =>
    obtain ⟨d, -, hd⟩ := map_eq_some_iff.mp hst
    split_ifs at hd
    · exact hon rfl rfl (congrArg some hd)
    · exact hon rfl rfl (congrArg some hd)
  | num n =>
    rw [Json.step] at hst
    dsimp only at hst
    cases hn : n.step c with
    | some n' =>
      rw [hn] at hst
      exact hon rfl rfl hst
    | none =>
      rw [hn] at hst
      dsimp only at hst
      split_ifs at hst
      exact hP.stepDelivered (hgoes rfl (.number ⟨stack, .num n⟩ n)) hst
  | lit rest v =>
    cases rest with
    | nil => nomatch hst
    | cons e rest =>
      rw [Json.step] at hst
      dsimp only at hst
      split_ifs at hst
      · exact some_inj.mp hst ▸ hgoes rfl .lastLetter
      · exact some_inj.mp hst ▸ hgoes rfl .letter

theorem Kept.run (hP : Kept P) (h : P st) (hst : run st text = some st') : P st' := by
  induction text generalizing st with
  | nil => exact some_inj.mp hst ▸ h
  | cons c text ih =>
    obtain ⟨st₁, hstep, hst⟩ := bind_eq_some_iff.mp hst
    exact ih (hP.step h hstep) hst

end Kept

/-! ## Inside a container -/

/-- A state inside a container, or after a complete value; a literal under way has no braces. -/
structure Opened (st : State) : Prop where
  inside : st.stack ≠ [] ∨ ∃ v, st.mode = .done v
  literal : ∀ rest v, st.mode = .lit rest v → 0x7b ∉ rest

theorem Opened.of_stack {stack : List Frame} {mode : Mode} (h : stack ≠ [])
    (hlit : ∀ rest v, mode ≠ .lit rest v) : Opened ⟨stack, mode⟩ :=
  ⟨.inl h, fun rest v hm ↦ absurd hm (hlit rest v)⟩

theorem deliver_opened (stack : List Frame) (v : Json) : Opened (deliver stack v) := by
  rcases stack with _ | ⟨_ | ⟨ms, _ | name⟩, rest⟩
  · exact ⟨.inr ⟨v, rfl⟩, nofun⟩
  · exact .of_stack (cons_ne_nil _ _) nofun
  · exact .of_stack (cons_ne_nil _ _) nofun
  · exact .of_stack (cons_ne_nil _ _) nofun

/-- Once a container is open, the reader stays inside until the text's value is complete. -/
theorem kept_opened : Kept Opened := by
  intro st st' hlive hgoes h
  have hne : st.stack ≠ [] := h.inside.resolve_right fun ⟨v, hv⟩ ↦ by
    rw [hv] at hlive
    exact Bool.noConfusion hlive
  cases hgoes with
  | on mode' hplain => exact .of_stack hne (Mode.plain.ne_lit hplain)
  | openArr | openObj | named => exact .of_stack (cons_ne_nil _ _) nofun
  | @literal _ rest v hmem =>
    have hbrace : ∀ p ∈ literals, (0x7b : CodeUnit) ∉ p.1 := by decide
    exact ⟨.inl hne, fun rest' v' hm ↦ (Mode.lit.inj hm).1 ▸ hbrace _ hmem⟩
  | letter =>
    refine ⟨.inl hne, fun rest' v' hm ↦ ?_⟩
    rw [← (Mode.lit.inj hm).1]
    exact fun hmem ↦ h.literal _ _ rfl (mem_cons_of_mem _ hmem)
  | lastLetter | string | number | closeArr | closeObj => exact deliver_opened _ _

theorem start_brace : ∃ st, step start 0x7b = some st ∧ Opened st :=
  ⟨⟨[.obj [] none], .member⟩, rfl, .of_stack (cons_ne_nil _ _) nofun⟩

theorem run_done {st : State} (h : run ⟨[], .done v⟩ text = some st) :
    ∀ c ∈ text, isSpace c = true := by
  induction text with
  | nil => exact nofun
  | cons c text ih =>
    change ((if isSpace c then some ⟨[], .done v⟩ else none).bind fun st ↦ run st text) = _ at h
    cases hc : isSpace c with
    | false =>
      rw [hc] at h
      nomatch h
    | true =>
      rw [hc, if_pos rfl, bind_some] at h
      exact forall_mem_cons.mpr ⟨hc, ih h⟩

theorem finish_opened {st : State} (h : Opened st) (hv : finish st = some v) :
    st = ⟨[], .done v⟩ := by
  rcases finish_eq_some hv with hst | ⟨n, rfl, -⟩
  · exact hst
  · obtain ⟨w, hw⟩ := h.inside.resolve_left (fun hne ↦ hne rfl)
    exact Mode.noConfusion hw

theorem stepDelivered_brace (st : State) : stepDelivered st 0x7b = none := by
  obtain ⟨stack, mode⟩ := st
  cases mode with
  | after => rcases stack with _ | ⟨_ | ⟨ms, _ | name⟩, rest⟩ <;> rfl
  | _ => rfl

theorem numRead_brace (n : NumRead) : n.step 0x7b = none := by
  obtain ⟨phase, _⟩ := n
  cases phase <;> rfl

end Json
