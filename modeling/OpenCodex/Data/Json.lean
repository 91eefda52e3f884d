import Mathlib.Algebra.Order.Field.Rat

/-!
# JSON texts, read one unit at a time

A JavaScript string is a list of UTF-16 code units, and `JSON.parse` is a function on such lists.
It is given here as a machine that reads one unit at a time and keeps, besides what it is in the
middle of (`Mode`), the containers that are still open (`Frame`).  The grammar is that of RFC 8259:
whitespace between tokens, no leading zeros, no control characters inside strings.

Reading unit by unit is what makes texts that were cut off tractable: the state after a text that
continues is the state the continuation starts from (`run_append`), so what a truncated write, or
two writes run together, can still become is read off that state.

A number is its exact decimal value, an object the list of its members as they stand in the text;
where a name is repeated, `Json.field?` takes the last one, as property access does.
-/

set_option autoImplicit false

/-- A UTF-16 code unit. -/
abbrev CodeUnit := UInt16

/-- A JavaScript string. -/
abbrev JsString := List CodeUnit

/-- The units of a literal in the basic plane. -/
def js (s : String) : JsString := s.toList.map fun c ↦ c.toNat.toUInt16

instance : LawfulBEq JsString := inferInstance

/-- A property of every unit of a text is decided along the text, not over all units there are. -/
instance (p : CodeUnit → Prop) [DecidablePred p] (text : JsString) : Decidable (∀ c ∈ text, p c) :=
  List.decidableBAll p text

/-- A JSON value. -/
inductive Json where
  | null
  | bool (b : Bool)
  | num (q : ℚ)
  | str (s : JsString)
  | arr (items : List Json)
  | obj (members : List (JsString × Json))

namespace Json

/-- The members of an object; `none` for every other value. -/
def members? : Json → Option (List (JsString × Json))
  | obj ms => some ms
  | _ => none

/-- The value of a name: the last member that has it. -/
def lookup (ms : List (JsString × Json)) (name : JsString) : Option Json :=
  (ms.reverse.find? fun m ↦ m.1 == name).map (·.2)

/-- A property of an object; `none` where it is undefined. -/
def field? (v : Json) (name : JsString) : Option Json :=
  v.members?.bind fun ms ↦ lookup ms name

theorem lookup_append (l m : List (JsString × Json)) (name : JsString) :
    lookup (l ++ m) name = (lookup m name).or (lookup l name) := by
  simp only [lookup, List.reverse_append, List.find?_append]
  cases List.find? (fun p ↦ p.1 == name) m.reverse <;> simp

theorem lookup_cons (m : JsString × Json) (l : List (JsString × Json)) (name : JsString) :
    lookup (m :: l) name = (lookup l name).or (if m.1 = name then some m.2 else none) := by
  by_cases h : m.1 = name <;> simp [lookup, h]

@[simp] theorem lookup_nil (name : JsString) : lookup [] name = none := rfl

/-! ## Units -/

/-- Space, tab, line feed or carriage return. -/
def isSpace (c : CodeUnit) : Bool := c == 0x20 || c == 0x09 || c == 0x0a || c == 0x0d

/-- The value of a decimal digit. -/
def digit? (c : CodeUnit) : Option ℕ :=
  if 0x30 ≤ c.toNat ∧ c.toNat ≤ 0x39 then some (c.toNat - 0x30) else none

/-- The value of a hexadecimal digit, of either case. -/
def hexDigit? (c : CodeUnit) : Option ℕ :=
  if 0x30 ≤ c.toNat ∧ c.toNat ≤ 0x39 then some (c.toNat - 0x30)
  else if 0x61 ≤ c.toNat ∧ c.toNat ≤ 0x66 then some (c.toNat - 0x57)
  else if 0x41 ≤ c.toNat ∧ c.toNat ≤ 0x46 then some (c.toNat - 0x37)
  else none

/-- What a backslash and one more unit stand for; `\u` is not among them. -/
def unescape? (c : CodeUnit) : Option CodeUnit :=
  if c = 0x22 ∨ c = 0x5c ∨ c = 0x2f then some c
  else if c = 0x62 then some 0x08
  else if c = 0x66 then some 0x0c
  else if c = 0x6e then some 0x0a
  else if c = 0x72 then some 0x0d
  else if c = 0x74 then some 0x09
  else none

/-! ## Numbers -/

/-- What of a number has been read. -/
inductive NumPhase where
  /-- The sign. -/
  | minus
  /-- A zero as the whole part. -/
  | zero
  /-- A whole part without leading zeros. -/
  | whole
  /-- The decimal point. -/
  | point
  /-- A digit after it. -/
  | frac
  /-- The exponent letter. -/
  | expLetter
  /-- The sign of the exponent. -/
  | expSign
  /-- A digit of the exponent. -/
  | exp
  deriving DecidableEq

/-- A number under way. -/
structure NumRead where
  phase : NumPhase
  negative : Bool
  /-- The digits before and after the point. -/
  mantissa : ℕ
  /-- How many of them are after the point. -/
  scale : ℕ
  expNegative : Bool
  exponent : ℕ
  deriving DecidableEq

namespace NumRead

variable (n : NumRead)

/-- The number may end here. -/
def complete : Bool :=
  match n.phase with
  | .zero | .whole | .frac | .exp => true
  | .minus | .point | .expLetter | .expSign => false

/-- Its value, should it end here. -/
def value : ℚ :=
  let size : ℚ := if n.expNegative then n.mantissa / 10 ^ (n.scale + n.exponent)
    else n.mantissa * 10 ^ n.exponent / 10 ^ n.scale
  if n.negative then -size else size

/-- The number goes on with a digit. -/
def addDigit (phase : NumPhase) (d : ℕ) : NumRead :=
  { n with phase, mantissa := 10 * n.mantissa + d }

/-- The first digit of the whole part. -/
def wholeStart (d : ℕ) : NumRead := n.addDigit (if d = 0 then .zero else .whole) d

/-- The number goes on with a unit; `none` where it cannot. -/
def step (c : CodeUnit) : Option NumRead :=
  match n.phase with
  | .minus => (digit? c).map n.wholeStart
  | .zero =>
    if c = 0x2e then some { n with phase := .point }
    else if c = 0x65 ∨ c = 0x45 then some { n with phase := .expLetter }
    else none
  | .whole =>
    if c = 0x2e then some { n with phase := .point }
    else if c = 0x65 ∨ c = 0x45 then some { n with phase := .expLetter }
    else (digit? c).map (n.addDigit .whole)
  | .point => (digit? c).map fun d ↦ { n.addDigit .frac d with scale := n.scale + 1 }
  | .frac =>
    if c = 0x65 ∨ c = 0x45 then some { n with phase := .expLetter }
    else (digit? c).map fun d ↦ { n.addDigit .frac d with scale := n.scale + 1 }
  | .expLetter =>
    if c = 0x2b then some { n with phase := .expSign }
    else if c = 0x2d then some { n with phase := .expSign, expNegative := true }
    else (digit? c).map fun d ↦ { n with phase := .exp, exponent := 10 * n.exponent + d }
  | .expSign | .exp =>
    (digit? c).map fun d ↦ { n with phase := .exp, exponent := 10 * n.exponent + d }

end NumRead

/-- A number before its first unit. -/
def numStart : NumRead := ⟨.minus, false, 0, 0, false, 0⟩

/-! ## The reader -/

/-- A container that is still open, with what it holds so far, last one first. -/
inductive Frame where
  | arr (items : List Json)
  /-- `name` is the member whose value is being read, if one is. -/
  | obj (members : List (JsString × Json)) (name : Option JsString)

/-- What the reader is in the middle of. -/
inductive Mode where
  /-- A value must follow. -/
  | value
  /-- The first element of an array, or its end. -/
  | elem
  /-- The first member of an object, or its end. -/
  | member
  /-- The name of a further member. -/
  | name
  | colon
  /-- After an element or a member: a comma, or the end of the container. -/
  | after
  /-- The text's value is complete. -/
  | done (v : Json)
  /-- Inside a string, the units so far last one first; `isName` for the name of a member. -/
  | str (isName : Bool) (units : JsString)
  /-- After a backslash. -/
  | esc (isName : Bool) (units : JsString)
  /-- After `\u` and `count` digits that spell `code`. -/
  | hex (isName : Bool) (units : JsString) (count code : ℕ)
  | num (n : NumRead)
  /-- Inside `true`, `false` or `null`, with what is missing of it (never nothing). -/
  | lit (rest : JsString) (v : Json)

structure State where
  stack : List Frame
  mode : Mode

/-- The state before a text. -/
def start : State := ⟨[], .value⟩

/-- A value is complete: it goes to the innermost open container, an object only after a name. -/
def deliver (stack : List Frame) (v : Json) : State :=
  match stack with
  | [] => ⟨[], .done v⟩
  | .arr items :: rest => ⟨.arr (v :: items) :: rest, .after⟩
  | .obj ms none :: rest => ⟨.obj ms none :: rest, .done v⟩
  | .obj ms (some name) :: rest => ⟨.obj ((name, v) :: ms) none :: rest, .after⟩

/-- A string is complete: it is a value, or the name of a member. -/
def endString (stack : List Frame) (isName : Bool) (units : JsString) : Option State :=
  if isName then
    match stack with
    | .obj ms none :: rest => some ⟨.obj ms (some units.reverse) :: rest, .colon⟩
    | _ => none
  else some (deliver stack (.str units.reverse))

/-- The first unit of a value. -/
def startValue (stack : List Frame) (c : CodeUnit) : Option State :=
  if c = 0x22 then some ⟨stack, .str false []⟩
  else if c = 0x7b then some ⟨.obj [] none :: stack, .member⟩
  else if c = 0x5b then some ⟨.arr [] :: stack, .elem⟩
  else if c = 0x2d then some ⟨stack, .num { numStart with negative := true }⟩
  else if c = 0x74 then some ⟨stack, .lit (js "rue") (.bool true)⟩
  else if c = 0x66 then some ⟨stack, .lit (js "alse") (.bool false)⟩
  else if c = 0x6e then some ⟨stack, .lit (js "ull") .null⟩
  else (digit? c).map fun d ↦ ⟨stack, .num (numStart.wholeStart d)⟩

/-- What may follow a value that was delivered: a comma, or the end of its container. -/
def punctuate (stack : List Frame) (c : CodeUnit) : Option State :=
  match stack with
  | .arr items :: rest =>
    if c = 0x2c then some ⟨stack, .value⟩
    else if c = 0x5d then some (deliver rest (.arr items.reverse))
    else none
  | .obj ms none :: rest =>
    if c = 0x2c then some ⟨stack, .name⟩
    else if c = 0x7d then some (deliver rest (.obj ms.reverse))
    else none
  | _ => none

/-- One unit after a complete value. -/
def stepDelivered (st : State) (c : CodeUnit) : Option State :=
  if isSpace c then some st
  else match st.mode with
    | .after => punctuate st.stack c
    | _ => none

/-- One unit. -/
def step (st : State) (c : CodeUnit) : Option State :=
  match st.mode with
  | .value => if isSpace c then some st else startValue st.stack c
  | .elem =>
    if isSpace c then some st
    else if c = 0x5d then punctuate st.stack c
    else startValue st.stack c
  | .member =>
    if isSpace c then some st
    else if c = 0x7d then punctuate st.stack c
    else if c = 0x22 then some ⟨st.stack, .str true []⟩
    else none
  | .name =>
    if isSpace c then some st
    else if c = 0x22 then some ⟨st.stack, .str true []⟩
    else none
  | .colon =>
    if isSpace c then some st else if c = 0x3a then some ⟨st.stack, .value⟩ else none
  | .after | .done _ => stepDelivered st c
  | .str isName units =>
    if c = 0x22 then endString st.stack isName units
    else if c = 0x5c then some ⟨st.stack, .esc isName units⟩
    else if c < 0x20 then none
    else some ⟨st.stack, .str isName (c :: units)⟩
  | .esc isName units =>
    if c = 0x75 then some ⟨st.stack, .hex isName units 0 0⟩
    else (unescape? c).map fun u ↦ ⟨st.stack, .str isName (u :: units)⟩
  | .hex isName units count code =>
    (hexDigit? c).map fun d ↦
      if count = 3 then ⟨st.stack, .str isName (UInt16.ofNat (16 * code + d) :: units)⟩
      else ⟨st.stack, .hex isName units (count + 1) (16 * code + d)⟩
  | .num n =>
    match n.step c with
    | some n => some ⟨st.stack, .num n⟩
    | none => if n.complete then stepDelivered (deliver st.stack (.num n.value)) c else none
  | .lit [] _ => none
  | .lit (e :: rest) v =>
    if c = e then
      if rest = [] then some (deliver st.stack v) else some ⟨st.stack, .lit rest v⟩
    else none

/-- All units of a text. -/
def run (st : State) : JsString → Option State
  | [] => some st
  | c :: text => (step st c).bind fun st ↦ run st text

/-- The value of a text that ends in a state. -/
def finish (st : State) : Option Json :=
  match st.stack, st.mode with
  | [], .done v => some v
  | [], .num n => if n.complete then some (.num n.value) else none
  | _, _ => none

/-- `JSON.parse`; `none` where it throws. -/
def parse (text : JsString) : Option Json := (run start text).bind finish

variable (st : State)

@[simp] theorem run_nil : run st [] = some st := rfl

theorem run_cons (c : CodeUnit) (text : JsString) :
    run st (c :: text) = (step st c).bind fun st ↦ run st text := rfl

/-- **A text that goes on** is read from the state its first part ends in. -/
theorem run_append (text text' : JsString) :
    run st (text ++ text') = (run st text).bind fun st ↦ run st text' := by
  induction text generalizing st with
  | nil => rfl
  | cons c text ih =>
    rw [List.cons_append, run_cons, run_cons, Option.bind_assoc]
    exact congrArg _ (funext fun st ↦ ih st)

end Json
