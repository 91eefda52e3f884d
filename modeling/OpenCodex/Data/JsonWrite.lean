import OpenCodex.Data.JsonText
import Mathlib.Algebra.Order.Field.Basic
import Mathlib.Data.Nat.Cast.Field
import Mathlib.Data.Nat.Log
import Mathlib.Data.Nat.Prime.Basic
import Mathlib.Tactic.FieldSimp
import Mathlib.Tactic.Ring

/-!
# Writing any JSON value, and reading it back

`JSON.stringify` on what `JSON.parse` can return.  A number read from a text is a decimal fraction,
and every decimal fraction has a text that reads back as it: `parse_stringify` is the round trip,
for values whose numbers are decimal, and `parse_decimal` says that what was parsed is such a value.
The text of a fraction is not the engine's shortest one; what it reads back as is the same.

An object is written as its list of members; where a text repeats a name, so does what is written
of it, and reading takes the last one both times.
-/

set_option autoImplicit false

open List Option Nat

namespace Json

/-! ## Decimal fractions -/

/-- A decimal fraction. -/
def IsDecimal (q : ℚ) : Prop := ∃ k, q.den ∣ 10 ^ k

/-- How many places after the point suffice. -/
def placesOf (d : ℕ) : ℕ := ((List.range (Nat.log 2 d + 1)).find? fun k ↦ d ∣ 10 ^ k).getD 0

variable {k d : ℕ}

theorem dvd_pow_log (h : d ∣ 10 ^ k) : d ∣ 10 ^ Nat.log 2 d := by
  induction d using Nat.strong_induction_on with
  | _ d ih =>
    have hpos : 0 < d := pos_of_dvd_of_pos h (by positivity)
    by_cases h1 : d = 1
    · exact h1 ▸ one_dvd _
    · obtain ⟨p, hp, d', rfl⟩ := exists_prime_and_dvd h1
      have hp10 : p ∣ 10 := hp.dvd_of_dvd_pow ((Dvd.intro d' rfl).trans h)
      have hd' : 0 < d' := Nat.pos_of_mul_pos_left hpos
      have hlt : d' < p * d' := (lt_mul_iff_one_lt_left hd').mpr hp.one_lt
      have hlog : log 2 d' + 1 ≤ log 2 (p * d') := by
        rw [← log_mul_base one_lt_two hd'.ne']
        exact log_mono_right (by rw [mul_comm]; exact mul_le_mul_right d' hp.two_le)
      have hmul : p * d' ∣ 10 * 10 ^ log 2 d' :=
        mul_dvd_mul hp10 (ih d' hlt ((Dvd.intro_left p rfl).trans h))
      refine hmul.trans ?_
      rw [mul_comm, ← pow_succ]
      exact pow_dvd_pow 10 hlog

theorem dvd_pow_placesOf (h : d ∣ 10 ^ k) : d ∣ 10 ^ placesOf d := by
  rw [placesOf]
  cases hf : (List.range (log 2 d + 1)).find? fun k ↦ d ∣ 10 ^ k with
  | none =>
    have hnone := List.find?_eq_none.mp hf (log 2 d) (mem_range.mpr (lt_succ_self _))
    exact absurd (dvd_pow_log h) (by simpa using hnone)
  | some j => simpa using find?_some hf

variable {q : ℚ}

theorem isDecimal_of_den {n : ℤ} (h : q = n / (10 : ℚ) ^ k) : IsDecimal q := by
  refine ⟨k, ?_⟩
  have hden : (q.den : ℤ) ∣ (10 ^ k : ℕ) := by
    rw [h]
    have := Rat.den_dvd n (10 ^ k : ℕ)
    simpa [Rat.divInt_eq_div] using this
  exact_mod_cast hden

theorem IsDecimal.neg (h : IsDecimal q) : IsDecimal (-q) := by
  obtain ⟨k, hk⟩ := h
  exact ⟨k, by rwa [Rat.den_neg_eq_den]⟩

theorem value_isDecimal (n : NumRead) : IsDecimal n.value := by
  have hsize : IsDecimal (if n.expNegative then (n.mantissa : ℚ) / 10 ^ (n.scale + n.exponent)
      else n.mantissa * 10 ^ n.exponent / 10 ^ n.scale) := by
    split
    · exact isDecimal_of_den (n := n.mantissa) (k := n.scale + n.exponent) (by push_cast; rfl)
    · exact isDecimal_of_den (n := n.mantissa * 10 ^ n.exponent) (k := n.scale) (by push_cast; rfl)
  rw [NumRead.value]
  split
  · exact hsize.neg
  · exact hsize

/-! ## Writing -/

/-- The text of a number. -/
def stringifyNumber (q : ℚ) : JsString :=
  let places := placesOf q.den
  (if q.num < 0 then [0x2d] else []) ++ (decimal (q.num.natAbs * (10 ^ places / q.den)) ++
    if places = 0 then [] else 0x65 :: 0x2d :: decimal places)

mutual

/-- `JSON.stringify`. -/
def stringify : Json → JsString
  | .null => js "null"
  | .bool b => if b then js "true" else js "false"
  | .num q => stringifyNumber q
  | .str s => literal s
  | .arr [] => [0x5b, 0x5d]
  | .arr (item :: items) => 0x5b :: (item.stringify ++ stringifyItems items)
  | .obj [] => [0x7b, 0x7d]
  | .obj ((name, v) :: members) =>
    0x7b :: (literal name ++ 0x3a :: (v.stringify ++ stringifyMembers members))

/-- The further elements of an array, and its end. -/
def stringifyItems : List Json → JsString
  | [] => [0x5d]
  | item :: items => 0x2c :: (item.stringify ++ stringifyItems items)

/-- The further members of an object, and its end. -/
def stringifyMembers : List (JsString × Json) → JsString
  | [] => [0x7d]
  | (name, v) :: members =>
    0x2c :: (literal name ++ 0x3a :: (v.stringify ++ stringifyMembers members))

end

/-- Every number in the value is a decimal fraction. -/
inductive Decimal : Json → Prop where
  | null : Decimal .null
  | bool (b : Bool) : Decimal (.bool b)
  | num {q : ℚ} (h : IsDecimal q) : Decimal (.num q)
  | str (s : JsString) : Decimal (.str s)
  | arr {items : List Json} (h : ∀ v ∈ items, Decimal v) : Decimal (.arr items)
  | obj {members : List (JsString × Json)} (h : ∀ m ∈ members, Decimal m.2) :
    Decimal (.obj members)

/-! ## Reading numbers back -/

variable {stack : List Frame}

/-- Reading the digits of a number, where each digit leads from one stage to the next. -/
theorem run_digits {st : State} {f : ℕ → NumRead}
    (hstart : ∀ d < 10, step st (digitUnit d) = some ⟨stack, .num (f d)⟩)
    (hnext : ∀ m d, 0 < m → d < 10 → (f m).step (digitUnit d) = some (f (10 * m + d))) (m : ℕ) :
    run st (decimal m) = some ⟨stack, .num (f m)⟩ := by
  induction m using Nat.strong_induction_on with
  | _ m ih =>
    by_cases h : m < 10
    · rw [decimal_of_lt h, run_cons, hstart m h]
      rfl
    · rw [decimal_of_ge (by omega), run_append, ih (m / 10) (by omega), bind_some, run_cons, step]
      dsimp only
      rw [hnext (m / 10) (m % 10) (by omega) (by omega), div_add_mod]
      rfl

/-- A whole number under way. -/
def wholeRead (negative : Bool) (m : ℕ) : NumRead :=
  ⟨if m = 0 then .zero else .whole, negative, m, 0, false, 0⟩

/-- The exponent of a number under way. -/
def expRead (negative : Bool) (m e : ℕ) : NumRead := ⟨.exp, negative, m, 0, true, e⟩

theorem wholeRead_step (negative : Bool) {m : ℕ} (hm : 0 < m) (hd : d < 10) :
    (wholeRead negative m).step (digitUnit d) = some (wholeRead negative (10 * m + d)) := by
  have hdot : digitUnit d ≠ 0x2e ∧ ¬(digitUnit d = 0x65 ∨ digitUnit d = 0x45) := by
    interval_cases d <;> decide
  rw [wholeRead, NumRead.step, if_neg (by omega : ¬m = 0)]
  dsimp only
  rw [if_neg hdot.1, if_neg hdot.2, digit?_digitUnit hd, map_some, NumRead.addDigit,
    wholeRead, if_neg (by omega : ¬10 * m + d = 0)]

theorem run_whole (stack : List Frame) (m : ℕ) :
    run ⟨stack, .value⟩ (decimal m) = some ⟨stack, .num (wholeRead false m)⟩ := by
  refine run_digits (fun d hd ↦ ?_) (fun k d hk hd ↦ wholeRead_step false hk hd) m
  interval_cases d <;> rfl

theorem run_minus (stack : List Frame) (m : ℕ) :
    run ⟨stack, .value⟩ (0x2d :: decimal m) = some ⟨stack, .num (wholeRead true m)⟩ := by
  show run ⟨stack, .num { numStart with negative := true }⟩ (decimal m) = _
  refine run_digits (fun d hd ↦ ?_) (fun k d hk hd ↦ wholeRead_step true hk hd) m
  interval_cases d <;> rfl

theorem run_exponent (stack : List Frame) (negative : Bool) (m e : ℕ) :
    run ⟨stack, .num (wholeRead negative m)⟩ (0x65 :: 0x2d :: decimal e) =
      some ⟨stack, .num (expRead negative m e)⟩ := by
  have hsign : run ⟨stack, .num (wholeRead negative m)⟩ (0x65 :: 0x2d :: decimal e) =
      run ⟨stack, .num ⟨.expSign, negative, m, 0, true, 0⟩⟩ (decimal e) := by
    cases m <;> rfl
  rw [hsign]
  refine run_digits (f := expRead negative m) (fun d hd ↦ ?_) (fun k d hk hd ↦ ?_) e
  · rw [step]
    dsimp only
    rw [NumRead.step]
    dsimp only
    rw [digit?_digitUnit hd, map_some, expRead, mul_zero, zero_add]
  · rw [expRead, NumRead.step]
    dsimp only
    rw [digit?_digitUnit hd, map_some, expRead]

theorem natAbs_div_eq (h : q.den ∣ 10 ^ k) :
    ((q.num.natAbs * (10 ^ k / q.den) : ℕ) : ℚ) / 10 ^ k = |q| := by
  have hden : (q.den : ℚ) ≠ 0 := by exact_mod_cast q.den_ne_zero
  rw [cast_mul, cast_div h hden, cast_pow, cast_ofNat]
  have habs : |q| = (q.num.natAbs : ℚ) / q.den := by
    rw [cast_natAbs, Int.cast_abs, ← abs_cast q.den, ← abs_div, Rat.num_div_den]
  rw [habs]
  field_simp

/-- **The text of a decimal fraction reads back as it.** -/
theorem run_stringifyNumber (stack : List Frame) (h : IsDecimal q) :
    ∃ n : NumRead, run ⟨stack, .value⟩ (stringifyNumber q) = some ⟨stack, .num n⟩ ∧
      n.complete = true ∧ n.value = q := by
  obtain ⟨k, hk⟩ := h
  have hplaces := dvd_pow_placesOf hk
  have habs := natAbs_div_eq hplaces
  rw [stringifyNumber]
  generalize placesOf q.den = places at *
  generalize q.num.natAbs * (10 ^ places / q.den) = m at *
  have hwhole : ∀ b, (wholeRead b m).complete = true := by
    intro b
    rw [wholeRead, NumRead.complete]
    split_ifs <;> rfl
  have hsign : ∃ b, (b = true ↔ q < 0) ∧ run ⟨stack, .value⟩
      ((if q.num < 0 then [0x2d] else []) ++ decimal m) = some ⟨stack, .num (wholeRead b m)⟩ := by
    split_ifs with hneg
    · exact ⟨true, by simpa using Rat.num_neg.mp hneg, run_minus stack m⟩
    · exact ⟨false, by simpa using Rat.num_nonneg.mp (not_lt.mp hneg), run_whole stack m⟩
  obtain ⟨b, hb, hrun⟩ := hsign
  have hq : (if b then -|q| else |q|) = q := by
    cases b with
    | false => exact abs_of_nonneg (by simpa using hb)
    | true =>
      have hneg : q < 0 := by simpa using hb
      rw [if_pos rfl, abs_of_neg hneg, neg_neg]
  rw [← append_assoc, run_append, hrun, bind_some]
  split_ifs with hzero
  · refine ⟨wholeRead b m, rfl, hwhole b, ?_⟩
    rw [hzero, pow_zero, div_one] at habs
    rw [← hq, ← habs]
    simp [wholeRead, NumRead.value]
  · refine ⟨expRead b m places, run_exponent stack b m places, rfl, ?_⟩
    rw [← hq, ← habs]
    simp [expRead, NumRead.value]

theorem num_agree (stack : List Frame) {n : NumRead} (h : n.complete = true) :
    Agree ⟨stack, .num n⟩ (deliver stack (.num n.value)) := by
  have hstep : ∀ c, c = 0x2c ∨ c = 0x5d ∨ c = 0x7d → n.step c = none := by
    intro c hc
    obtain ⟨phase, negative, mantissa, scale, expNegative, exponent⟩ := n
    cases phase <;> first | exact absurd h (by decide) | rcases hc with rfl | rfl | rfl <;> rfl
  exact ⟨finish_num stack h, fun c hc ↦ step_num_ends stack h (hstep c hc)⟩

/-! ## Reading any value back -/

theorem decimal_head (n : ℕ) : ∃ k < 10, ∃ text, decimal n = digitUnit k :: text := by
  induction n using Nat.strong_induction_on with
  | _ n ih =>
    by_cases h : n < 10
    · exact ⟨n, h, [], decimal_of_lt h⟩
    · obtain ⟨k, hk, text, hn⟩ := ih (n / 10) (by omega)
      exact ⟨k, hk, text ++ [digitUnit (n % 10)], by rw [decimal_of_ge (by omega), hn]; rfl⟩

theorem stringify_head (v : Json) :
    ∃ c text, v.stringify = c :: text ∧ isSpace c = false ∧ c ≠ 0x5d := by
  cases v with
  | null => exact ⟨_, _, by rw [stringify]; rfl, rfl, by decide⟩
  | bool b => cases b <;> exact ⟨_, _, by rw [stringify]; rfl, rfl, by decide⟩
  | num q =>
    rw [stringify, stringifyNumber]
    split_ifs
    · exact ⟨0x2d, _, rfl, rfl, by decide⟩
    · exact ⟨0x2d, _, rfl, rfl, by decide⟩
    · obtain ⟨k, hk, text, hn⟩ := decimal_head (q.num.natAbs * (10 ^ placesOf q.den / q.den))
      rw [hn]
      refine ⟨digitUnit k, _, rfl, ?_, ?_⟩
      · interval_cases k <;> rfl
      · interval_cases k <;> decide
    · obtain ⟨k, hk, text, hn⟩ := decimal_head (q.num.natAbs * (10 ^ placesOf q.den / q.den))
      rw [hn]
      refine ⟨digitUnit k, _, rfl, ?_, ?_⟩
      · interval_cases k <;> rfl
      · interval_cases k <;> decide
  | str s => exact ⟨0x22, quoted s ++ [0x22], by rw [stringify, literal], rfl, by decide⟩
  | arr items =>
    cases items with
    | nil => exact ⟨0x5b, [0x5d], by rw [stringify], rfl, by decide⟩
    | cons item items => exact ⟨0x5b, _, by rw [stringify], rfl, by decide⟩
  | obj members =>
    cases members with
    | nil => exact ⟨0x7b, [0x7d], by rw [stringify], rfl, by decide⟩
    | cons m members => exact ⟨0x7b, _, by rw [stringify], rfl, by decide⟩

theorem run_elem_stringify (stack : List Frame) (v : Json) (text : JsString) :
    run ⟨stack, .elem⟩ (v.stringify ++ text) = run ⟨stack, .value⟩ (v.stringify ++ text) := by
  obtain ⟨c, rest, hv, hspace, hclose⟩ := stringify_head v
  rw [hv, cons_append, run_cons, run_cons, step, step]
  dsimp only
  rw [hspace, if_neg (by decide), if_neg hclose, if_neg (by decide)]

mutual

/-- **What is written is read to where its value is delivered.** -/
theorem stringify_reads (v : Json) (h : v.Decimal) (stack : List Frame) :
    ∃ st, run ⟨stack, .value⟩ v.stringify = some st ∧ Agree st (deliver stack v) := by
  match v, h with
  | .null, _ => exact ⟨deliver stack .null, rfl, rfl, fun _ _ ↦ rfl⟩
  | .bool b, _ => cases b <;> exact ⟨_, rfl, rfl, fun _ _ ↦ rfl⟩
  | .num q, h =>
    cases h with
    | num hq =>
      obtain ⟨n, hn, hcomplete, hvalue⟩ := run_stringifyNumber stack hq
      exact ⟨_, hn, hvalue ▸ num_agree stack hcomplete⟩
  | .str s, _ => exact ⟨_, run_literal stack s, rfl, fun _ _ ↦ rfl⟩
  | .arr [], _ => exact ⟨deliver stack (.arr []), rfl, rfl, fun _ _ ↦ rfl⟩
  | .arr (item :: items), h =>
    cases h with
    | arr h =>
      obtain ⟨st, hst, hagree⟩ := stringify_reads item (h item mem_cons_self) (.arr [] :: stack)
      refine ⟨deliver stack (.arr (item :: items)), ?_, rfl, fun _ _ ↦ rfl⟩
      show run ⟨.arr [] :: stack, .elem⟩ (item.stringify ++ stringifyItems items) = _
      rw [run_elem_stringify, run_append, hst, bind_some]
      exact stringifyItems_reads items (fun v hv ↦ h v (mem_cons_of_mem item hv)) [item] stack
        hagree
  | .obj [], _ => exact ⟨deliver stack (.obj []), rfl, rfl, fun _ _ ↦ rfl⟩
  | .obj ((name, v) :: members), h =>
    cases h with
    | obj h =>
      obtain ⟨st, hst, hagree⟩ :=
        stringify_reads v (h (name, v) mem_cons_self) (.obj [] (some name) :: stack)
      refine ⟨deliver stack (.obj ((name, v) :: members)), ?_, rfl, fun _ _ ↦ rfl⟩
      show run ⟨.obj [] none :: stack, .name⟩
        (literal name ++ 0x3a :: (v.stringify ++ stringifyMembers members)) = _
      rw [run_name, run_append, hst, bind_some]
      exact stringifyMembers_reads members (fun m hm ↦ h m (mem_cons_of_mem _ hm)) [(name, v)]
        stack hagree

theorem stringifyItems_reads (items : List Json) (h : ∀ v ∈ items, v.Decimal) (seen : List Json)
    (stack : List Frame) {st : State} (hst : Agree st ⟨.arr seen :: stack, .after⟩) :
    run st (stringifyItems items) = some (deliver stack (.arr (seen.reverse ++ items))) := by
  match items with
  | [] =>
    rw [stringifyItems, hst.run _ (.inr (.inl rfl)), append_nil]
    rfl
  | item :: items =>
    rw [stringifyItems, hst.run _ (.inl rfl)]
    obtain ⟨st', hst', hagree⟩ := stringify_reads item (h item mem_cons_self) (.arr seen :: stack)
    show run ⟨.arr seen :: stack, .value⟩ (item.stringify ++ stringifyItems items) = _
    rw [run_append, hst', bind_some, stringifyItems_reads items
      (fun v hv ↦ h v (mem_cons_of_mem item hv)) (item :: seen) stack hagree]
    simp

theorem stringifyMembers_reads (members : List (JsString × Json))
    (h : ∀ m ∈ members, m.2.Decimal) (seen : List (JsString × Json)) (stack : List Frame)
    {st : State} (hst : Agree st ⟨.obj seen none :: stack, .after⟩) :
    run st (stringifyMembers members) = some (deliver stack (.obj (seen.reverse ++ members))) := by
  match members with
  | [] =>
    rw [stringifyMembers, hst.run _ (.inr (.inr rfl)), append_nil]
    rfl
  | (name, v) :: members =>
    rw [stringifyMembers, hst.run _ (.inl rfl)]
    obtain ⟨st', hst', hagree⟩ :=
      stringify_reads v (h (name, v) mem_cons_self) (.obj seen (some name) :: stack)
    show run ⟨.obj seen none :: stack, .name⟩
      (literal name ++ 0x3a :: (v.stringify ++ stringifyMembers members)) = _
    rw [run_name, run_append, hst', bind_some, stringifyMembers_reads members
      (fun m hm ↦ h m (mem_cons_of_mem _ hm)) ((name, v) :: seen) stack hagree]
    simp

end

variable {v : Json}

/-- **Parsing what was written** gives the value back. -/
theorem parse_stringify (h : v.Decimal) : parse v.stringify = some v := by
  obtain ⟨st, hst, hagree⟩ := stringify_reads v h []
  rw [parse, start, hst, bind_some, hagree.1]
  rfl

/-! ## What is written is one line -/

theorem stringifyNumber_printable (q : ℚ) : Printable (stringifyNumber q) := by
  refine .append ?_ (.append (decimal_printable _) ?_)
  · split_ifs
    · exact printable_nil.cons (by decide)
    · exact printable_nil
  · split_ifs
    · exact printable_nil
    · exact .cons (by decide) (.cons (by decide) (decimal_printable _))

mutual

theorem stringify_printable (v : Json) : Printable v.stringify := by
  match v with
  | .null =>
    unfold Printable
    decide
  | .bool b => cases b <;> unfold Printable <;> decide
  | .num q => exact stringifyNumber_printable q
  | .str s => exact literal_printable s
  | .arr [] => exact .cons (by decide) (.cons (by decide) printable_nil)
  | .arr (item :: items) =>
    exact .cons (by decide) ((stringify_printable item).append (stringifyItems_printable items))
  | .obj [] => exact .cons (by decide) (.cons (by decide) printable_nil)
  | .obj ((name, v) :: members) =>
    exact .cons (by decide) ((literal_printable name).append
      (.cons (by decide) ((stringify_printable v).append (stringifyMembers_printable members))))

theorem stringifyItems_printable (items : List Json) : Printable (stringifyItems items) := by
  match items with
  | [] => exact .cons (by decide) printable_nil
  | item :: items =>
    exact .cons (by decide) ((stringify_printable item).append (stringifyItems_printable items))

theorem stringifyMembers_printable (members : List (JsString × Json)) :
    Printable (stringifyMembers members) := by
  match members with
  | [] => exact .cons (by decide) printable_nil
  | (name, v) :: members =>
    exact .cons (by decide) ((literal_printable name).append
      (.cons (by decide) ((stringify_printable v).append (stringifyMembers_printable members))))

end

/-! ## What is parsed is decimal -/

/-- What is held in a container is decimal. -/
def Frame.Decimal : Frame → Prop
  | .arr items => ∀ v ∈ items, v.Decimal
  | .obj members _ => ∀ m ∈ members, m.2.Decimal

/-- Everything the reader holds is decimal. -/
structure State.Decimal (st : State) : Prop where
  stack : ∀ f ∈ st.stack, f.Decimal
  done : ∀ v, st.mode = .done v → v.Decimal
  lit : ∀ rest v, st.mode = .lit rest v → v.Decimal

theorem State.Decimal.of_stack {mode : Mode} (h : ∀ f ∈ stack, Frame.Decimal f)
    (hplain : mode.plain = true) : State.Decimal ⟨stack, mode⟩ :=
  ⟨h, fun v hv ↦ absurd hv (Mode.plain.ne_done hplain v),
    fun rest v hv ↦ absurd hv (Mode.plain.ne_lit hplain rest v)⟩

theorem deliver_decimal (h : ∀ f ∈ stack, Frame.Decimal f) (hv : v.Decimal) :
    (deliver stack v).Decimal := by
  rcases stack with _ | ⟨items | ⟨ms, _ | name⟩, rest⟩
  · refine ⟨nofun, fun w hw ↦ ?_, nofun⟩
    obtain rfl := Mode.done.inj hw
    exact hv
  · obtain ⟨hitems, hrest⟩ := forall_mem_cons.mp h
    exact .of_stack (forall_mem_cons.mpr ⟨forall_mem_cons.mpr ⟨hv, hitems⟩, hrest⟩) rfl
  · refine ⟨h, fun w hw ↦ ?_, nofun⟩
    obtain rfl := Mode.done.inj hw
    exact hv
  · obtain ⟨hms, hrest⟩ := forall_mem_cons.mp h
    exact .of_stack (forall_mem_cons.mpr ⟨forall_mem_cons.mpr ⟨hv, hms⟩, hrest⟩) rfl

theorem kept_decimal : Kept State.Decimal := by
  intro st st' _ hgoes h
  have hstack := h.stack
  cases hgoes with
  | on mode' hplain => exact .of_stack hstack hplain
  | openArr | openObj => exact .of_stack (forall_mem_cons.mpr ⟨forall_mem_nil _, hstack⟩) rfl
  | named name =>
    obtain ⟨hms, hrest⟩ := forall_mem_cons.mp hstack
    exact .of_stack (forall_mem_cons.mpr ⟨hms, hrest⟩) rfl
  | literal hmem =>
    refine ⟨hstack, by rintro _ ⟨⟩, fun rest v hw ↦ ?_⟩
    rw [← (Mode.lit.inj hw).2]
    simp only [literals, mem_cons, Prod.mk.injEq, not_mem_nil, or_false] at hmem
    obtain ⟨-, rfl⟩ | ⟨-, rfl⟩ | ⟨-, rfl⟩ := hmem
    · exact .bool true
    · exact .bool false
    · exact .null
  | letter => exact ⟨hstack, by rintro _ ⟨⟩, fun _ _ hw ↦ (Mode.lit.inj hw).2 ▸ h.lit _ _ rfl⟩
  | lastLetter => exact deliver_decimal hstack (h.lit _ _ rfl)
  | string => exact deliver_decimal hstack (.str _)
  | number _ n => exact deliver_decimal hstack (.num (value_isDecimal n))
  | closeArr =>
    obtain ⟨hitems, hrest⟩ := forall_mem_cons.mp hstack
    exact deliver_decimal hrest (.arr fun v hv ↦ hitems v (mem_reverse.mp hv))
  | closeObj =>
    obtain ⟨hms, hrest⟩ := forall_mem_cons.mp hstack
    exact deliver_decimal hrest (.obj fun m hm ↦ hms m (mem_reverse.mp hm))

/-- **What was parsed has decimal numbers only**, so it can be written and read back. -/
theorem parse_decimal {text : JsString} (h : parse text = some v) : v.Decimal := by
  rw [parse, bind_eq_some_iff] at h
  obtain ⟨st, hrun, hfinish⟩ := h
  have hstart : start.Decimal := .of_stack (forall_mem_nil _) rfl
  have hst := kept_decimal.run hstart hrun
  rcases finish_eq_some hfinish with rfl | ⟨n, -, -, rfl⟩
  · exact hst.done v rfl
  · exact .num (value_isDecimal n)

/-! ## Changing an object

`{ ...v, name: w }` and `delete v.name`.  -/

/-- The members with one set: where it stood first, else at the end. -/
def setMember (name : JsString) (w : Json) : List (JsString × Json) → List (JsString × Json)
  | [] => [(name, w)]
  | m :: ms =>
    if m.1 = name then (name, w) :: ms.filter fun m ↦ m.1 ≠ name else m :: setMember name w ms

def setField (v : Json) (name : JsString) (w : Json) : Json :=
  match v with
  | .obj ms => .obj (setMember name w ms)
  | v => v

def eraseField (v : Json) (name : JsString) : Json :=
  match v with
  | .obj ms => .obj (ms.filter fun m ↦ m.1 ≠ name)
  | v => v

theorem lookup_filter_self (ms : List (JsString × Json)) (name : JsString) :
    lookup (ms.filter fun m ↦ m.1 ≠ name) name = none := by
  induction ms with
  | nil => rfl
  | cons m ms ih =>
    by_cases h : m.1 = name
    · rw [filter_cons_of_neg (by simpa using h), ih]
    · rw [filter_cons_of_pos (by simpa using h), lookup_cons, ih, if_neg h]
      rfl

variable {name other : JsString}

theorem lookup_filter_of_ne (ms : List (JsString × Json)) (h : other ≠ name) :
    lookup (ms.filter fun m ↦ m.1 ≠ name) other = lookup ms other := by
  induction ms with
  | nil => rfl
  | cons m ms ih =>
    by_cases hm : m.1 = name
    · rw [filter_cons_of_neg (by simpa using hm), ih, lookup_cons,
        if_neg (fun heq ↦ h (heq.symm.trans hm)), or_none]
    · rw [filter_cons_of_pos (by simpa using hm), lookup_cons, lookup_cons, ih]

theorem lookup_setMember_self (ms : List (JsString × Json)) (name : JsString) (w : Json) :
    lookup (setMember name w ms) name = some w := by
  induction ms with
  | nil => simp [setMember, lookup_cons]
  | cons m ms ih =>
    rw [setMember]
    split_ifs with h
    · rw [lookup_cons, lookup_filter_self, if_pos rfl, none_or]
    · rw [lookup_cons, ih, some_or]

theorem lookup_setMember_of_ne (ms : List (JsString × Json)) (w : Json) (h : other ≠ name) :
    lookup (setMember name w ms) other = lookup ms other := by
  induction ms with
  | nil => simp [setMember, lookup_cons, h.symm]
  | cons m ms ih =>
    rw [setMember]
    split_ifs with hm
    · rw [lookup_cons, lookup_filter_of_ne ms h, lookup_cons, if_neg h.symm,
        if_neg (fun heq ↦ h (heq.symm.trans hm))]
    · rw [lookup_cons, ih, lookup_cons]

/-- The value is an object. -/
def isObject (v : Json) : Bool := v.members?.isSome

theorem isObject_iff : v.isObject = true ↔ ∃ ms, v = .obj ms := by
  cases v <;> simp [isObject, members?]

@[simp] theorem isObject_obj (ms : List (JsString × Json)) : (obj ms).isObject = true := rfl

@[simp] theorem isObject_setField (v : Json) (name : JsString) (w : Json) :
    (v.setField name w).isObject = v.isObject := by
  cases v <;> rfl

@[simp] theorem isObject_eraseField (v : Json) (name : JsString) :
    (v.eraseField name).isObject = v.isObject := by
  cases v <;> rfl

theorem field?_setField_self (h : v.isObject = true) (name : JsString) (w : Json) :
    (v.setField name w).field? name = some w := by
  obtain ⟨ms, rfl⟩ := isObject_iff.mp h
  exact lookup_setMember_self ms name w

theorem field?_setField_of_ne (v : Json) (w : Json) (h : other ≠ name) :
    (v.setField name w).field? other = v.field? other := by
  cases v with
  | obj ms => exact lookup_setMember_of_ne ms w h
  | _ => rfl

theorem field?_eraseField_self (v : Json) (name : JsString) :
    (v.eraseField name).field? name = none := by
  cases v with
  | obj ms => exact lookup_filter_self ms name
  | _ => rfl

theorem field?_eraseField_of_ne (v : Json) (h : other ≠ name) :
    (v.eraseField name).field? other = v.field? other := by
  cases v with
  | obj ms => exact lookup_filter_of_ne ms h
  | _ => rfl

variable {ms : List (JsString × Json)}

theorem mem_of_lookup (h : lookup ms name = some v) : (name, v) ∈ ms := by
  rw [lookup, map_eq_some_iff] at h
  obtain ⟨m, hm, rfl⟩ := h
  have hname : m.1 = name := by simpa using find?_some hm
  exact hname ▸ mem_reverse.mp (mem_of_find?_eq_some hm)

variable {w : Json}

theorem Decimal.field? (h : v.Decimal) (hw : v.field? name = some w) : w.Decimal := by
  cases h with
  | obj h => exact h _ (mem_of_lookup hw)
  | _ => nomatch hw

theorem mem_setMember {m : JsString × Json} (h : m ∈ setMember name w ms) :
    m = (name, w) ∨ m ∈ ms := by
  induction ms with
  | nil => exact .inl (mem_singleton.mp h)
  | cons m' ms ih =>
    rw [setMember] at h
    split_ifs at h
    · rcases mem_cons.mp h with rfl | h
      · exact .inl rfl
      · exact .inr (mem_cons_of_mem _ (mem_of_mem_filter h))
    · rcases mem_cons.mp h with rfl | h
      · exact .inr mem_cons_self
      · exact (ih h).imp_right (mem_cons_of_mem _)

theorem Decimal.setField (h : v.Decimal) (hw : w.Decimal) (name : JsString) :
    (v.setField name w).Decimal := by
  cases h with
  | obj h =>
    refine .obj fun m hm ↦ ?_
    rcases mem_setMember hm with rfl | hm
    · exact hw
    · exact h m hm
  | null => exact .null
  | bool b => exact .bool b
  | num h => exact .num h
  | str s => exact .str s
  | arr h => exact .arr h

theorem Decimal.eraseField (h : v.Decimal) (name : JsString) : (v.eraseField name).Decimal := by
  cases h with
  | obj h => exact .obj fun m hm ↦ h m (mem_of_mem_filter hm)
  | null => exact .null
  | bool b => exact .bool b
  | num h => exact .num h
  | str s => exact .str s
  | arr h => exact .arr h

end Json
