import OpenCodex.Data.Utf8

/-!
# The bytes of a text

How many bytes a text has as UTF-8.  A surrogate that is alone counts as a replacement character, of
three bytes, and a pair has four; so where two fragments meet in the middle of a pair the count is two
less than the sum (`byteLength_append`).
-/

set_option autoImplicit false

open List

namespace Utf8

/-- `Buffer.byteLength(text, "utf8")` -/
def byteLength (text : JsString) : ℕ := (Utf8.bytesOf text).length

/-- Two units that are one character. -/
def joins (last first : Option CodeUnit) : Bool :=
  last.any (fun c ↦ 0xd800 ≤ c.toNat && c.toNat ≤ 0xdbff) &&
    first.any (fun c ↦ 0xdc00 ≤ c.toNat && c.toNat ≤ 0xdfff)

variable {c d : CodeUnit}

theorem joins_iff : joins (some c) (some d) = true ↔
    0xd800 ≤ c.toNat ∧ c.toNat ≤ 0xdbff ∧ 0xdc00 ≤ d.toNat ∧ d.toNat ≤ 0xdfff := by
  simp only [joins, Option.any_some, Bool.and_eq_true, decide_eq_true_eq, and_assoc]

theorem joins_none (last : Option CodeUnit) : joins last none = false := by
  rw [joins, Option.any_none, Bool.and_false]

variable {last : Option CodeUnit}

theorem joins_of_joins (h : joins last (some d) = true) (next : Option CodeUnit) :
    joins (some d) next = false := by
  cases last with
  | none => nomatch h
  | some c =>
    have hlow := joins_iff.mp h
    cases next with
    | none => exact joins_none _
    | some e =>
      rw [← Bool.not_eq_true, joins_iff]
      omega

variable {text : JsString}

theorem byteLength_of_points {text' : JsString} {p : ℕ}
    (h : Utf8.pointsOf text = p :: Utf8.pointsOf text') :
    byteLength text = (Utf8.encode p).length + byteLength text' := by
  rw [byteLength, byteLength, Utf8.bytesOf, Utf8.bytesOf, h, flatMap_cons, length_append]

theorem byteLength_nil : byteLength [] = 0 := rfl

theorem length_encode (p : ℕ) : (encode p).length =
    if p < 0x80 then 1 else if p < 0x800 then 2 else if p < 0x10000 then 3 else 4 := by
  rw [encode]
  split_ifs <;> rfl

theorem byteLength_singleton (c : CodeUnit) : byteLength [c] =
    if c.toNat < 0x80 then 1 else if c.toNat < 0x800 then 2 else 3 := by
  have hc := c.toNat_lt
  have hpoint : byteLength [c] = (encode _).length + byteLength [] := byteLength_of_points rfl
  rw [hpoint, byteLength_nil, length_encode, replacement]
  split_ifs <;> omega

theorem byteLength_cons (h : joins (some c) text.head? = false) :
    byteLength (c :: text) = byteLength [c] + byteLength text := by
  cases text with
  | nil => rfl
  | cons d text =>
    have hpair : ¬(0xd800 ≤ c.toNat ∧ c.toNat ≤ 0xdbff ∧ 0xdc00 ≤ d.toNat ∧ d.toNat ≤ 0xdfff) := by
      rw [← joins_iff]
      exact ne_true_of_eq_false h
    have hone : Utf8.pointsOf [c] =
        (if 0xd800 ≤ c.toNat ∧ c.toNat ≤ 0xdfff then Utf8.replacement else c.toNat) ::
          Utf8.pointsOf [] := rfl
    rw [byteLength_of_points hone, byteLength_nil, Nat.add_zero]
    refine byteLength_of_points ?_
    rw [Utf8.pointsOf, if_neg hpair]

theorem byteLength_pair (text : JsString) (h : joins (some c) (some d) = true) :
    byteLength (c :: d :: text) = 4 + byteLength text ∧ byteLength [c] = 3 ∧
      byteLength [d] = 3 := by
  have hpair := joins_iff.mp h
  have hfour : (Utf8.encode (0x10000 + (c.toNat - 0xd800) * 1024 + (d.toNat - 0xdc00))).length =
      4 := by
    rw [Utf8.encode, if_neg (by omega), if_neg (by omega), if_neg (by omega)]
    rfl
  have hthree : ∀ e : CodeUnit, 0xd800 ≤ e.toNat → e.toNat ≤ 0xdfff → byteLength [e] = 3 := by
    intro e hlow hhigh
    have hone : Utf8.pointsOf [e] = Utf8.replacement :: Utf8.pointsOf [] :=
      congrArg (· :: []) (if_pos ⟨hlow, hhigh⟩)
    rw [byteLength_of_points hone]
    rfl
  refine ⟨?_, hthree c (by omega) (by omega), hthree d (by omega) (by omega)⟩
  rw [← hfour]
  refine byteLength_of_points ?_
  rw [Utf8.pointsOf, if_pos hpair]

/-- **The bytes of two fragments**, two of which are saved where they meet within a character. -/
theorem byteLength_append (text rest : JsString) :
    byteLength (text ++ rest) + (if joins text.getLast? rest.head? then 2 else 0) =
      byteLength text + byteLength rest := by
  induction text using Utf8.pointsOf.induct with
  | case1 => simp [joins, byteLength_nil]
  | case2 c =>
    cases rest with
    | nil => simp [joins_none, byteLength_nil]
    | cons d rest =>
      rw [singleton_append, getLast?_singleton, head?_cons]
      split_ifs with h
      · obtain ⟨hpair, hc, hd⟩ := byteLength_pair rest h
        rw [hpair, hc, byteLength_cons (joins_of_joins h rest.head?), hd]
        omega
      · exact byteLength_cons (eq_false_of_ne_true h)
  | case3 c d text hpair ih =>
    have hjoin := joins_iff.mpr hpair
    have hlast : joins (c :: d :: text).getLast? rest.head? = joins text.getLast? rest.head? := by
      cases text with
      | nil => exact joins_of_joins hjoin rest.head?
      | cons e text => rw [getLast?_cons_cons, getLast?_cons_cons]
    rw [cons_append, cons_append, (byteLength_pair _ hjoin).1,
      (byteLength_pair text hjoin).1, hlast]
    omega
  | case4 c d text hpair ih =>
    have hjoin : joins (some c) (some d) = false := by
      rw [← Bool.not_eq_true, joins_iff]
      exact hpair
    rw [cons_append, @byteLength_cons c (d :: text ++ rest) hjoin,
      @byteLength_cons c (d :: text) hjoin, getLast?_cons_cons]
    omega

theorem byteLength_append_of_not_joins {rest : JsString}
    (h : joins text.getLast? rest.head? = false) :
    byteLength (text ++ rest) = byteLength text + byteLength rest := by
  rw [← byteLength_append, h]
  rfl

variable {first : Option CodeUnit}

theorem not_joins_left (h : ∀ c ∈ last, c.toNat < 0xd800) : joins last first = false := by
  cases last with
  | none => rfl
  | some c =>
    have := h c rfl
    simp only [joins, Option.any_some]
    rw [decide_eq_false (by omega)]
    rfl

theorem not_joins_right (h : ∀ c ∈ first, c.toNat < 0xd800) : joins last first = false := by
  cases first with
  | none => exact joins_none last
  | some c =>
    have := h c rfl
    simp only [joins, Option.any_some]
    rw [decide_eq_false (p := 0xdc00 ≤ c.toNat) (by omega)]
    exact Bool.and_false _

theorem byteLength_endings (h : ∀ c ∈ text, c = 13 ∨ c = 10) : byteLength text = text.length := by
  induction text with
  | nil => rfl
  | cons c text ih =>
    have hc := h c mem_cons_self
    have hone : byteLength [c] = 1 := by rcases hc with rfl | rfl <;> rfl
    have hnot : joins (some c) text.head? = false := by
      refine not_joins_left fun d hd ↦ ?_
      obtain rfl := Option.some.inj hd
      rcases hc with rfl | rfl <;> decide
    rw [byteLength_cons hnot, hone, ih fun d hd ↦ h d (mem_cons_of_mem c hd),
      length_cons, Nat.add_comm]

theorem three_le_of_joins {fragment : JsString} (h : joins last fragment.head? = true) :
    3 ≤ byteLength fragment := by
  rcases last with _ | c
  · nomatch h
  · rcases fragment with _ | ⟨d, rest⟩
    · exact absurd h (by simp [joins_none])
    · rw [byteLength_cons (joins_of_joins h rest.head?), (byteLength_pair rest h).2.2]
      omega

end Utf8
