import OpenCodex.Data.ByteLength
import OpenCodex.Data.JsonText
import OpenCodex.Translator.Budget

/-!
# The size of a JSON text that is not written

`jsonUtf8Bytes` walks a value and adds up what its tokens take in bytes, until the limit is passed;
`jsonStringPartsUtf8Bytes` does so for a string that comes in parts, with half of a pair carried
from one part to the next.  Either refuses a string at once that is longer than what is left.

A piece of a JSON text takes the same bytes whatever follows it (`Takes`), so what is counted adds
up to the bytes of the whole text (`json_sizes`).
-/

set_option autoImplicit false

open List

namespace Translator

open Json (isHighSurrogate isLowSurrogate literal quoted escapeAlone escape escapeCode)
open Utf8 (byteLength)

/-! ## The values, and their texts -/

/-- The decimal form of a finite number. -/
structure DecimalForm where
  text : JsString
  ascii : ∀ c ∈ text, c.toNat < 0x80

/-- Plain JSON data.  What is undefined may stand in an array or an object, and a number that has no
decimal form is not finite. -/
inductive PlainJson where
  | null
  | bool (b : Bool)
  | number (form : Option DecimalForm)
  | string (text : JsString)
  | array (items : List (Option PlainJson))
  | object (fields : List (JsString × Option PlainJson))

def comma (first : Bool) : JsString := if first then [] else [0x2c]

mutual

/-- `JSON.stringify` -/
def PlainJson.stringify : PlainJson → JsString
  | .null => js "null"
  | .bool b => if b then js "true" else js "false"
  | .number form => (form.map DecimalForm.text).getD (js "null")
  | .string text => literal text
  | .array items => 0x5b :: (stringifyItems true items ++ [0x5d])
  | .object fields => 0x7b :: (stringifyFields true fields ++ [0x7d])

/-- What is undefined is `null` in an array. -/
def stringifyItems : Bool → List (Option PlainJson) → JsString
  | _, [] => []
  | first, none :: items => comma first ++ (js "null" ++ stringifyItems false items)
  | first, some item :: items => comma first ++ (item.stringify ++ stringifyItems false items)

/-- What is undefined is left out of an object. -/
def stringifyFields : Bool → List (JsString × Option PlainJson) → JsString
  | _, [] => []
  | first, (_, none) :: fields => stringifyFields first fields
  | first, (key, some field) :: fields =>
    comma first ++ (literal key ++ ([0x3a] ++ (field.stringify ++ stringifyFields false fields)))

end

/-! ## Counting -/

/-- What is thrown is a `TranslatorBudgetExceededError`, of a kind and a limit. -/
abbrev Counted := Except (TranslatorBufferKind × ℚ)

/-- What is counted goes on from the bytes so far. -/
abbrev Count := ℕ → Counted ℕ

variable (limit : ℚ)

def exceeded {α : Type} : Counted α := .error (.requestCopies, limit)

def add (count : ℕ) : Count := fun bytes ↦
  if count > limit - bytes then exceeded limit else .ok (bytes + count)

/-- What a unit takes in a string literal if it is not half of a pair. -/
def unitBytes (code : CodeUnit) : ℕ :=
  if code = 0x22 ∨ code = 0x5c ∨ code = 8 ∨ code = 9 ∨ code = 10 ∨ code = 12 ∨ code = 13 then 2
  else if code < 0x20 then 6
  else if code < 0x80 then 1
  else if code < 0x800 then 2
  else if isHighSurrogate code || isLowSurrogate code then 6
  else 3

/-- The loop over the units of a string. -/
def stringUnits : JsString → Count
  | [], bytes => .ok bytes
  | [code], bytes => add limit (unitBytes code) bytes
  | code :: next :: rest, bytes =>
    if isHighSurrogate code && isLowSurrogate next then
      (add limit 4 bytes).bind (stringUnits rest)
    else (add limit (unitBytes code) bytes).bind (stringUnits (next :: rest))

def string (text : JsString) : Count := fun bytes ↦
  if (text.length + 2 : ℕ) > limit - bytes then exceeded limit
  else (add limit 2 bytes).bind (stringUnits limit text)

/-- A comma, but in front of the first. -/
def separate (first : Bool) : Count := fun bytes ↦ if first then .ok bytes else add limit 1 bytes

mutual

def visit : PlainJson → Count
  | .null, bytes => add limit 4 bytes
  | .bool b, bytes => add limit (if b then 4 else 5) bytes
  | .number form, bytes => add limit ((form.map fun form ↦ form.text.length).getD 4) bytes
  | .string text, bytes => string limit text bytes
  | .array items, bytes => (add limit 2 bytes).bind (visitItems true items)
  | .object fields, bytes => (add limit 2 bytes).bind (visitFields true fields)

def visitItems : Bool → List (Option PlainJson) → Count
  | _, [], bytes => .ok bytes
  | first, none :: items, bytes =>
    (separate limit first bytes).bind fun bytes ↦ (add limit 4 bytes).bind (visitItems false items)
  | first, some item :: items, bytes =>
    (separate limit first bytes).bind fun bytes ↦ (visit item bytes).bind (visitItems false items)

def visitFields : Bool → List (JsString × Option PlainJson) → Count
  | _, [], bytes => .ok bytes
  | first, (_, none) :: fields, bytes => visitFields first fields bytes
  | first, (key, some field) :: fields, bytes =>
    (separate limit first bytes).bind fun bytes ↦ (string limit key bytes).bind fun bytes ↦
      (add limit 1 bytes).bind fun bytes ↦ (visit field bytes).bind (visitFields false fields)

end

def jsonUtf8Bytes (value : PlainJson) (limit : ℚ := translatorMaxTurnBytes) :
    Counted ℕ := visit limit value 0

/-- A unit of a part, from the bytes so far and whether the first half of a pair is pending. -/
def partUnit (s : ℕ × Bool) (code : CodeUnit) : Counted (ℕ × Bool) :=
  if s.2 && isLowSurrogate code then (add limit 4 s.1).bind fun bytes ↦ .ok (bytes, false)
  else (if s.2 then add limit 6 s.1 else .ok s.1).bind fun bytes ↦
    if isHighSurrogate code then .ok (bytes, true)
    else (add limit (unitBytes code) bytes).bind fun bytes ↦ .ok (bytes, false)

def stringPart (s : ℕ × Bool) (text : JsString) : Counted (ℕ × Bool) :=
  if text.length > limit - s.1 then exceeded limit
  else text.foldlM (partUnit limit) s

/-- A half that is pending in the end stays alone. -/
def settle : ℕ × Bool → Counted ℕ
  | (bytes, highSurrogate) => if highSurrogate then add limit 6 bytes else .ok bytes

def jsonStringPartsUtf8Bytes (parts : List JsString) (limit : ℚ := translatorMaxTurnBytes) :
    Counted ℕ :=
  ((add limit 2 0).bind fun bytes ↦ parts.foldlM (stringPart limit) (bytes, false)).bind
    (settle limit)

/-! ## Pieces of a text -/

/-- A piece takes so many bytes, whatever follows it. -/
def Takes (text : JsString) (n : ℕ) : Prop :=
  ∀ rest, byteLength (text ++ rest) = n + byteLength rest

variable {text text' : JsString} {m n : ℕ} {c : CodeUnit}

theorem Takes.append (h : Takes text m) (h' : Takes text' n) : Takes (text ++ text') (m + n) := by
  intro rest
  rw [append_assoc, h, h', Nat.add_assoc]

theorem Takes.byteLength (h : Takes text n) : Utf8.byteLength text = n := by
  have hnil := h []
  rwa [append_nil] at hnil

theorem takes_nil : Takes [] 0 := fun _ ↦ (Nat.zero_add _).symm

theorem joins_eq (c d : CodeUnit) :
    Utf8.joins (some c) (some d) = (isHighSurrogate c && isLowSurrogate d) := rfl

theorem takes_unit (h : isHighSurrogate c = false) : Takes [c] (byteLength [c]) := by
  refine fun rest ↦ Utf8.byteLength_cons ?_
  cases rest with
  | nil => exact Utf8.joins_none _
  | cons d rest =>
    show Utf8.joins (some c) (some d) = false
    rw [joins_eq, h, Bool.false_and]

theorem takes_ascii (h : ∀ c ∈ text, c.toNat < 0x80) : Takes text text.length := by
  induction text with
  | nil => exact takes_nil
  | cons c text ih =>
    obtain ⟨hc, htext⟩ := forall_mem_cons.mp h
    have hhigh : isHighSurrogate c = false := by
      rw [isHighSurrogate, decide_eq_false fun hle ↦ ?_, Bool.false_and]
      have hle : 0xd800 ≤ c.toNat := hle
      omega
    have hone := takes_unit hhigh
    rw [Utf8.byteLength_singleton, if_pos hc] at hone
    rw [length_cons, Nat.add_comm]
    exact hone.append (ih htext)

/-! ## Strings -/

theorem takes_escapeCode (c : CodeUnit) : Takes (escapeCode c) 6 := by
  have hhex : ∀ d < 16, (Json.hexUnit d).toNat < 0x80 := by decide
  have hc := c.toNat_lt
  refine @takes_ascii (escapeCode c) fun d hd ↦ ?_
  simp only [escapeCode, mem_cons, not_mem_nil, or_false] at hd
  rcases hd with rfl | rfl | rfl | rfl | rfl | rfl
  · decide
  · decide
  all_goals exact hhex _ (by omega)

theorem unitBytes_of_surrogate (h : (isHighSurrogate c || isLowSurrogate c) = true) :
    unitBytes c = 6 := by
  grind [unitBytes, isHighSurrogate, isLowSurrogate]

/-- **A unit** that is not half of a pair is counted as it is written. -/
theorem takes_escapeAlone (c : CodeUnit) : Takes (escapeAlone c) (unitBytes c) := by
  rw [escapeAlone]
  by_cases hsurrogate : (isHighSurrogate c || isLowSurrogate c) = true
  · rw [if_pos hsurrogate, unitBytes_of_surrogate hsurrogate]
    exact takes_escapeCode c
  rw [if_neg hsurrogate, unitBytes]
  by_cases hnamed : c = 0x22 ∨ c = 0x5c ∨ c = 8 ∨ c = 9 ∨ c = 10 ∨ c = 12 ∨ c = 13
  · rw [if_pos hnamed]
    rcases hnamed with rfl | rfl | rfl | rfl | rfl | rfl | rfl
    all_goals exact @takes_ascii (escape _) (by decide)
  · rw [if_neg hnamed]
    simp only [not_or] at hnamed
    obtain ⟨h22, h5c, h8, h9, h10, h12, h13⟩ := hnamed
    rw [escape, if_neg h22, if_neg h5c, if_neg h8, if_neg h12, if_neg h10, if_neg h13, if_neg h9]
    by_cases hcontrol : c < 0x20
    · rw [if_pos hcontrol, if_pos hcontrol]
      exact takes_escapeCode c
    · have hhigh : isHighSurrogate c = false :=
        (Bool.or_eq_false_iff.mp (eq_false_of_ne_true hsurrogate)).1
      have hone := takes_unit hhigh
      rw [Utf8.byteLength_singleton] at hone
      rw [if_neg hcontrol, if_neg hcontrol, if_neg hsurrogate]
      exact hone

/-! ## What is counted -/

/-- What a function returns that counts so many bytes: their number, or it throws. -/
def total (bytes : ℕ) : Counted ℕ :=
  if bytes ≤ limit then .ok bytes else exceeded limit

variable {limit}

theorem total_of_not_le (h : ¬(m : ℚ) ≤ limit) (hmn : m ≤ n) : total limit n = exceeded limit :=
  if_neg fun hn ↦ h ((Nat.cast_le.mpr hmn).trans hn)

theorem exceeds_iff {count bytes : ℕ} :
    (count : ℚ) > limit - bytes ↔ ¬((bytes + count : ℕ) : ℚ) ≤ limit := by
  rw [not_le, Nat.cast_add, gt_iff_lt, sub_lt_iff_lt_add']

theorem add_eq (count bytes : ℕ) : add limit count bytes = total limit (bytes + count) := by
  rw [add, total]
  simp only [exceeds_iff, ite_not]

/-- From bytes that are within the limit, so many more are counted. -/
def Counts (limit : ℚ) (x : Count) (n : ℕ) : Prop :=
  ∀ bytes : ℕ, bytes ≤ limit → x bytes = total limit (bytes + n)

variable {x y : Count}

theorem total_bind (hx : Counts limit x n) (m : ℕ) :
    (total limit m).bind x = total limit (m + n) := by
  rw [total]
  split_ifs with h
  · exact hx m h
  · exact (total_of_not_le h (Nat.le_add_right m n)).symm

theorem counts_add (count : ℕ) : Counts limit (add limit count) count :=
  fun bytes _ ↦ add_eq count bytes

/-- What is counted is what the text takes. -/
def Sized (limit : ℚ) (text : JsString) (x : Count) : Prop := ∃ n, Takes text n ∧ Counts limit x n

theorem Sized.append (hx : Sized limit text x) (hy : Sized limit text' y) :
    Sized limit (text ++ text') fun bytes ↦ (x bytes).bind y := by
  obtain ⟨m, hm, hx⟩ := hx
  obtain ⟨n, hn, hy⟩ := hy
  refine ⟨m + n, hm.append hn, fun bytes h ↦ ?_⟩
  show (x bytes).bind y = _
  rw [hx bytes h, total_bind hy, Nat.add_assoc]

theorem sized_nil : Sized limit [] .ok := ⟨0, takes_nil, fun _ h ↦ (if_pos h).symm⟩

theorem sized_ascii (h : ∀ c ∈ text, c.toNat < 0x80) :
    Sized limit text (add limit text.length) := ⟨_, takes_ascii h, counts_add _⟩

/-- What is counted from any state on. -/
def Measured (limit : ℚ) (text : JsString) (x : Count) : Prop :=
  ∃ n, Takes text n ∧ ∀ bytes, x bytes = total limit (bytes + n)

theorem Measured.sized (h : Measured limit text x) : Sized limit text x :=
  h.imp fun _ ↦ And.imp_right fun hx bytes _ ↦ hx bytes

theorem measured_ascii (h : ∀ c ∈ text, c.toNat < 0x80) :
    Measured limit text (add limit text.length) := ⟨_, takes_ascii h, add_eq _⟩

theorem enclosed {a b : CodeUnit} (ha : a.toNat < 0x80) (hb : b.toNat < 0x80) (h : Takes text n)
    (hx : Counts limit x n) : Takes (a :: (text ++ [b])) (1 + (n + 1)) ∧
      ∀ bytes, (add limit 2 bytes).bind x = total limit (bytes + (1 + (n + 1))) := by
  have hone : ∀ c : CodeUnit, c.toNat < 0x80 → Takes [c] 1 := fun c hc ↦
    @takes_ascii [c] fun d hd ↦ mem_singleton.mp hd ▸ hc
  refine ⟨(hone a ha).append (h.append (hone b hb)), fun bytes ↦ ?_⟩
  rw [add_eq, total_bind hx]
  congr 1
  omega

theorem quoted_sized (limit : ℚ) (s : JsString) : ∃ n, s.length ≤ n ∧ Takes (quoted s) n ∧
    Counts limit (stringUnits limit s) n := by
  have hone : ∀ c, 1 ≤ unitBytes c := by grind [unitBytes]
  match s with
  | [] => exact ⟨0, le_rfl, takes_nil, fun _ h ↦ (if_pos h).symm⟩
  | [c] => exact ⟨unitBytes c, hone c, takes_escapeAlone c, counts_add _⟩
  | c :: d :: rest =>
    by_cases hpair : (isHighSurrogate c && isLowSurrogate d) = true
    · obtain ⟨n, hlen, htakes, hcounts⟩ := quoted_sized limit rest
      refine ⟨4 + n, by simp only [length_cons]; omega, fun more ↦ ?_, fun bytes _ ↦ ?_⟩
      · rw [quoted, if_pos hpair, cons_append, cons_append,
          (Utf8.byteLength_pair _ ((joins_eq c d).trans hpair)).1, htakes, Nat.add_assoc]
      · rw [stringUnits, if_pos hpair, add_eq, total_bind hcounts, Nat.add_assoc]
    · obtain ⟨n, hlen, htakes, hcounts⟩ := quoted_sized limit (d :: rest)
      have hc := hone c
      refine ⟨unitBytes c + n, by rw [length_cons]; omega, ?_, fun bytes _ ↦ ?_⟩
      · rw [quoted, if_neg hpair]
        exact (takes_escapeAlone c).append htakes
      · rw [stringUnits, if_neg hpair, add_eq, total_bind hcounts, Nat.add_assoc]

/-- **A string** is counted as its literal. -/
theorem string_measured (s : JsString) : Measured limit (literal s) (string limit s) := by
  obtain ⟨n, hlen, htakes, hcounts⟩ := quoted_sized limit s
  obtain ⟨hliteral, hx⟩ := enclosed (a := 0x22) (b := 0x22) (by decide) (by decide) htakes hcounts
  refine ⟨_, hliteral, fun bytes ↦ ?_⟩
  rw [string]
  split_ifs with h
  · exact (total_of_not_le (exceeds_iff.mp h) (by omega)).symm
  · exact hx bytes

/-! ## Values -/

theorem comma_sized (first : Bool) : Sized limit (comma first) (separate limit first) := by
  cases first with
  | true => exact sized_nil
  | false => exact @sized_ascii _ [0x2c] (by decide)

mutual

/-- **A value** is counted as its text. -/
theorem visit_measured (v : PlainJson) : Measured limit v.stringify (visit limit v) := by
  match v with
  | .null => exact @measured_ascii _ (js "null") (by decide)
  | .bool true => exact @measured_ascii _ (js "true") (by decide)
  | .bool false => exact @measured_ascii _ (js "false") (by decide)
  | .number none => exact @measured_ascii _ (js "null") (by decide)
  | .number (some form) => exact measured_ascii form.ascii
  | .string text => exact string_measured text
  | .array items =>
    obtain ⟨n, htakes, hcounts⟩ := visitItems_sized true items
    exact ⟨_, enclosed (by decide) (by decide) htakes hcounts⟩
  | .object fields =>
    obtain ⟨n, htakes, hcounts⟩ := visitFields_sized true fields
    exact ⟨_, enclosed (by decide) (by decide) htakes hcounts⟩

theorem visitItems_sized (first : Bool) (items : List (Option PlainJson)) :
    Sized limit (stringifyItems first items) (visitItems limit first items) := by
  match items with
  | [] => exact sized_nil
  | none :: items =>
    exact (comma_sized first).append ((@sized_ascii _ (js "null") (by decide)).append
      (visitItems_sized false items))
  | some item :: items =>
    exact (comma_sized first).append
      ((visit_measured item).sized.append (visitItems_sized false items))

theorem visitFields_sized (first : Bool) (fields : List (JsString × Option PlainJson)) :
    Sized limit (stringifyFields first fields) (visitFields limit first fields) := by
  match fields with
  | [] => exact sized_nil
  | (_, none) :: fields => exact visitFields_sized first fields
  | (key, some field) :: fields =>
    exact (comma_sized first).append ((string_measured key).sized.append
      ((@sized_ascii _ [0x3a] (by decide)).append
        ((visit_measured field).sized.append (visitFields_sized false fields))))

end

/-! ## Strings that come in parts -/

theorem bind_bind {ε α β γ : Type} (x : Except ε α) (f : α → Except ε β) (g : β → Except ε γ) :
    (x.bind f).bind g = x.bind fun a ↦ (f a).bind g := by
  cases x <;> rfl

theorem stringUnits_cons {rest : JsString} (h : isHighSurrogate c = false) (bytes : ℕ) :
    stringUnits limit (c :: rest) bytes =
      (add limit (unitBytes c) bytes).bind (stringUnits limit rest) := by
  cases rest with
  | nil =>
    show add limit (unitBytes c) bytes = _
    cases add limit (unitBytes c) bytes <;> rfl
  | cons d rest => rw [stringUnits, h, Bool.false_and, if_neg Bool.false_ne_true]

variable {K : ℕ × Bool → Counted ℕ} {rest : JsString}

/-- What comes from a state on is what the loop over one string does with the rest of it, where a
pending half is its first unit. -/
def Resumes (limit : ℚ) (K : ℕ × Bool → Counted ℕ) (rest : JsString) : Prop :=
  ∀ bytes : ℕ, bytes ≤ limit → K (bytes, false) = stringUnits limit rest bytes ∧
    ∀ c, isHighSurrogate c = true → K (bytes, true) = stringUnits limit (c :: rest) bytes

theorem settle_resumes : Resumes limit (settle limit) [] := by
  refine fun bytes _ ↦ ⟨rfl, fun c hc ↦ ?_⟩
  rw [stringUnits, unitBytes_of_surrogate (by rw [hc, Bool.true_or])]
  rfl

theorem add_bind {f g : Count} (h : ∀ bytes : ℕ, bytes ≤ limit → f bytes = g bytes)
    (count bytes : ℕ) : (add limit count bytes).bind f = (add limit count bytes).bind g := by
  rw [add_eq, total]
  split_ifs with hle
  · exact h _ hle
  · rfl

theorem Resumes.unit (h : Resumes limit K rest) (c : CodeUnit) :
    Resumes limit (fun s ↦ (partUnit limit s c).bind K) (c :: rest) := by
  have hclear : ∀ bytes : ℕ, bytes ≤ limit →
      (partUnit limit (bytes, false) c).bind K = stringUnits limit (c :: rest) bytes := by
    intro bytes hle
    show Except.bind (if isHighSurrogate c = true then _ else _) K = _
    by_cases hc : isHighSurrogate c = true
    · rw [if_pos hc]
      exact (h bytes hle).2 c hc
    · rw [if_neg hc, stringUnits_cons (eq_false_of_ne_true hc), bind_bind]
      exact add_bind (fun bytes hle ↦ (h bytes hle).1) _ _
  refine fun bytes hle ↦ ⟨hclear bytes hle, fun d hd ↦ ?_⟩
  show (partUnit limit (bytes, true) c).bind K = _
  rw [partUnit, Bool.true_and, stringUnits, hd, Bool.true_and]
  by_cases hc : isLowSurrogate c = true
  · rw [if_pos hc, if_pos hc, bind_bind]
    exact add_bind (fun bytes hle ↦ (h bytes hle).1) _ _
  · rw [if_neg hc, if_neg hc, if_pos rfl, bind_bind,
      unitBytes_of_surrogate (c := d) (by rw [hd, Bool.true_or])]
    exact add_bind hclear _ _

theorem Resumes.units (h : Resumes limit K rest) (text : JsString) :
    Resumes limit (fun s ↦ (text.foldlM (partUnit limit) s).bind K) (text ++ rest) := by
  induction text with
  | nil => exact h
  | cons c text ih =>
    have hunit := ih.unit c
    simp only [← bind_bind] at hunit
    exact hunit

/-- A part that is longer than what is left is refused, as it would be in the loop. -/
theorem Resumes.part (h : Resumes limit K rest) (text : JsString) :
    Resumes limit (fun s ↦ (stringPart limit s text).bind K) (text ++ rest) := by
  have hlong : ∀ all : JsString, text.length ≤ all.length → ∀ bytes : ℕ, bytes ≤ limit →
      text.length > limit - bytes → exceeded limit = stringUnits limit all bytes := by
    intro all hall bytes hle hover
    obtain ⟨m, hlen, -, hcounts⟩ := quoted_sized limit all
    rw [hcounts bytes hle, total_of_not_le (exceeds_iff.mp hover) (by omega)]
  intro bytes hle
  simp only [stringPart]
  split_ifs with hover
  · exact ⟨hlong _ (by simp) bytes hle hover, fun c _ ↦ hlong _ (by simp; omega) bytes hle hover⟩
  · exact h.units text bytes hle

theorem parts_resume (parts : List JsString) :
    Resumes limit (fun s ↦ (parts.foldlM (stringPart limit) s).bind (settle limit))
      parts.flatten := by
  induction parts with
  | nil => exact settle_resumes
  | cons text parts ih =>
    have hpart := ih.part text
    simp only [← bind_bind] at hpart
    exact hpart

/-- **The counters are exact.**  Within the limit either returns the bytes of what `JSON.stringify`
would write; past the limit it throws. -/
theorem json_sizes (limit : ℚ) :
    (∀ value, jsonUtf8Bytes value limit = total limit (byteLength value.stringify)) ∧
      ∀ parts, jsonStringPartsUtf8Bytes parts limit =
        total limit (byteLength (literal parts.flatten)) := by
  refine ⟨fun value ↦ ?_, fun parts ↦ ?_⟩
  · obtain ⟨n, htakes, hvisit⟩ := @visit_measured limit value
    rw [jsonUtf8Bytes, hvisit, htakes.byteLength, Nat.zero_add]
  · obtain ⟨n, -, htakes, hcounts⟩ := quoted_sized limit parts.flatten
    obtain ⟨hliteral, hx⟩ := enclosed (a := 0x22) (b := 0x22) (by decide) (by decide) htakes hcounts
    have htext : byteLength (literal parts.flatten) = _ := hliteral.byteLength
    rw [htext, ← Nat.zero_add (1 + (n + 1)), ← hx 0, jsonStringPartsUtf8Bytes, bind_bind]
    exact add_bind (fun bytes hle ↦ (parts_resume parts bytes hle).1) 2 0

end Translator
