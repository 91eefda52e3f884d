import OpenCodex.Data.Json

/-!
# UTF-8 as browsers decode it

The decoder of the Encoding Standard is a machine that reads one byte at a time.  In its ground state
it waits for a first byte; otherwise it needs so many continuation bytes, of which the next one lies
in a range that excludes overlong forms, surrogates and what is beyond the last code point.  A byte
that does not fit yields a replacement character and is looked at again in the ground state, so no
input is refused, and after an ASCII byte the machine is always in the ground state (`step_ascii`).

A JavaScript string is a list of UTF-16 units.  `unitsOf` spells a code point in units, `pointsOf`
reads the code points of a string.  What the decoder yields are scalar values only (`run_scalar`), so
spelling its output and reading it again changes nothing (`pointsOf_units`).
-/

set_option autoImplicit false

open List

namespace Utf8

/-! ## The decoder -/

/-- Between two bytes. -/
structure State where
  /-- How many continuation bytes are still needed. -/
  needed : ℕ
  /-- The bits read so far. -/
  point : ℕ
  /-- The range of the next continuation byte. -/
  lower : ℕ
  upper : ℕ
  deriving DecidableEq, Repr

def ground : State := ⟨0, 0, 0x80, 0xbf⟩

def replacement : ℕ := 0xfffd

/-- A byte in the ground state. -/
def first (b : ℕ) : State × List ℕ :=
  if b < 0x80 then (ground, [b])
  else if 0xc2 ≤ b ∧ b ≤ 0xdf then (⟨1, b - 0xc0, 0x80, 0xbf⟩, [])
  else if 0xe0 ≤ b ∧ b ≤ 0xef then
    (⟨2, b - 0xe0, if b = 0xe0 then 0xa0 else 0x80, if b = 0xed then 0x9f else 0xbf⟩, [])
  else if 0xf0 ≤ b ∧ b ≤ 0xf4 then
    (⟨3, b - 0xf0, if b = 0xf0 then 0x90 else 0x80, if b = 0xf4 then 0x8f else 0xbf⟩, [])
  else (ground, [replacement])

def step (s : State) (b : ℕ) : State × List ℕ :=
  if s.needed = 0 then first b
  else if s.lower ≤ b ∧ b ≤ s.upper then
    let point := s.point * 64 + (b - 0x80)
    if s.needed = 1 then (ground, [point]) else (⟨s.needed - 1, point, 0x80, 0xbf⟩, [])
  else ((first b).1, replacement :: (first b).2)

/-- The code points of some bytes, and the state after them. -/
def run (s : State) : List UInt8 → State × List ℕ
  | [] => (s, [])
  | b :: bytes =>
    let r := step s b.toNat
    let r' := run r.1 bytes
    (r'.1, r.2 ++ r'.2)

/-- At the end an unfinished sequence is one replacement character. -/
def flush (s : State) : List ℕ := if s.needed = 0 then [] else [replacement]

/-- The code points of a whole array. -/
def decode (bytes : List UInt8) : List ℕ := (run ground bytes).2 ++ flush (run ground bytes).1

/-! ## The encoder -/

/-- The bytes of a code point. -/
def encode (p : ℕ) : List UInt8 :=
  if p < 0x80 then [UInt8.ofNat p]
  else if p < 0x800 then [UInt8.ofNat (0xc0 + p / 64), UInt8.ofNat (0x80 + p % 64)]
  else if p < 0x10000 then
    [UInt8.ofNat (0xe0 + p / 4096), UInt8.ofNat (0x80 + p / 64 % 64), UInt8.ofNat (0x80 + p % 64)]
  else
    [UInt8.ofNat (0xf0 + p / 262144), UInt8.ofNat (0x80 + p / 4096 % 64),
      UInt8.ofNat (0x80 + p / 64 % 64), UInt8.ofNat (0x80 + p % 64)]

/-- The units of a code point. -/
def unitsOf (p : ℕ) : JsString :=
  if p < 0x10000 then [UInt16.ofNat p]
  else
    [UInt16.ofNat (0xd800 + (p - 0x10000) / 1024), UInt16.ofNat (0xdc00 + (p - 0x10000) % 1024)]

/-- The code points of a string; a surrogate that is alone is replaced. -/
def pointsOf : JsString → List ℕ
  | [] => []
  | [c] => [if 0xd800 ≤ c.toNat ∧ c.toNat ≤ 0xdfff then replacement else c.toNat]
  | c :: d :: text =>
    if 0xd800 ≤ c.toNat ∧ c.toNat ≤ 0xdbff ∧ 0xdc00 ≤ d.toNat ∧ d.toNat ≤ 0xdfff then
      (0x10000 + (c.toNat - 0xd800) * 1024 + (d.toNat - 0xdc00)) :: pointsOf text
    else
      (if 0xd800 ≤ c.toNat ∧ c.toNat ≤ 0xdfff then replacement else c.toNat) :: pointsOf (d :: text)

/-! ## Strings and bytes -/

/-- The mark that may stand at the head of a text. -/
def byteOrderMark : ℕ := 0xfeff

def dropMark : List ℕ → List ℕ
  | [] => []
  | p :: points => if p = byteOrderMark then points else p :: points

/-- `new TextDecoder().decode(bytes)`. -/
def textOf (bytes : List UInt8) : JsString := (dropMark (decode bytes)).flatMap unitsOf

/-- `new TextEncoder().encode(text)`. -/
def bytesOf (text : JsString) : List UInt8 := (pointsOf text).flatMap encode

/-! ## The decoder's states -/

theorem run_append (s : State) (l m : List UInt8) :
    run s (l ++ m) = ((run (run s l).1 m).1, (run s l).2 ++ (run (run s l).1 m).2) := by
  induction l generalizing s with
  | nil => rfl
  | cons b l ih =>
    rw [cons_append, run, ih, run]
    simp only [append_assoc]

variable {b : ℕ}

/-- **An ASCII byte ends whatever was open**, and stands for itself. -/
theorem step_ascii (s : State) (h : b < 0x80) (hlower : 0x80 ≤ s.lower) :
    step s b = (ground, flush s ++ [b]) := by
  have hfirst : first b = (ground, [b]) := if_pos h
  rw [step, flush]
  split_ifs with hneeded hrange
  · rw [hfirst]
    rfl
  · omega
  · omega
  · rw [hfirst]
    rfl

/-- A code point that is no surrogate. -/
def Scalar (p : ℕ) : Prop := p < 0x110000 ∧ ¬(0xd800 ≤ p ∧ p ≤ 0xdfff)

instance (p : ℕ) : Decidable (Scalar p) := inferInstanceAs (Decidable (_ ∧ ¬_))

/-- The states the decoder reaches: whatever continuation bytes follow, a scalar value comes out. -/
structure Sound (s : State) : Prop where
  lower : 0x80 ≤ s.lower
  upper : s.upper ≤ 0xbf
  needed : s.needed ≤ 3
  /-- One byte is missing. -/
  one : s.needed = 1 → s.lower = 0x80 ∧ 2 ≤ s.point ∧ s.point < 0x4400 ∧
    ¬(0x360 ≤ s.point ∧ s.point ≤ 0x37f)
  /-- Two bytes are missing. -/
  two : s.needed = 2 → ∀ b, s.lower ≤ b → b ≤ s.upper → 2 ≤ s.point * 64 + (b - 0x80) ∧
    s.point * 64 + (b - 0x80) < 0x4400 ∧
      ¬(0x360 ≤ s.point * 64 + (b - 0x80) ∧ s.point * 64 + (b - 0x80) ≤ 0x37f)
  /-- Three bytes are missing. -/
  three : s.needed = 3 → ∀ b, s.lower ≤ b → b ≤ s.upper → 0x10 ≤ s.point * 64 + (b - 0x80) ∧
    s.point * 64 + (b - 0x80) < 0x110

theorem sound_ground : Sound ground :=
  ⟨by decide, by decide, by decide, fun h ↦ absurd h (by decide), fun h ↦ absurd h (by decide),
    fun h ↦ absurd h (by decide)⟩

variable {point : ℕ}

theorem Sound.ofOne (h : 2 ≤ point ∧ point < 0x4400 ∧ ¬(0x360 ≤ point ∧ point ≤ 0x37f)) :
    Sound ⟨1, point, 0x80, 0xbf⟩ :=
  ⟨le_refl _, le_refl _, Nat.le_of_ble_eq_true rfl, fun _ ↦ ⟨rfl, h⟩,
    fun h ↦ absurd h (Nat.ne_of_beq_eq_false rfl), fun h ↦ absurd h (Nat.ne_of_beq_eq_false rfl)⟩

variable {lower upper : ℕ}

theorem Sound.ofTwo (hlower : 0x80 ≤ lower) (hupper : upper ≤ 0xbf)
    (h : ∀ b, lower ≤ b → b ≤ upper → 2 ≤ point * 64 + (b - 0x80) ∧
      point * 64 + (b - 0x80) < 0x4400 ∧
        ¬(0x360 ≤ point * 64 + (b - 0x80) ∧ point * 64 + (b - 0x80) ≤ 0x37f)) :
    Sound ⟨2, point, lower, upper⟩ :=
  ⟨hlower, hupper, Nat.le_of_ble_eq_true rfl, fun h ↦ absurd h (Nat.ne_of_beq_eq_false rfl),
    fun _ ↦ h, fun h ↦ absurd h (Nat.ne_of_beq_eq_false rfl)⟩

theorem Sound.ofThree (hlower : 0x80 ≤ lower) (hupper : upper ≤ 0xbf)
    (h : ∀ b, lower ≤ b → b ≤ upper → 0x10 ≤ point * 64 + (b - 0x80) ∧
      point * 64 + (b - 0x80) < 0x110) : Sound ⟨3, point, lower, upper⟩ :=
  ⟨hlower, hupper, le_refl _, fun h ↦ absurd h (Nat.ne_of_beq_eq_false rfl),
    fun h ↦ absurd h (Nat.ne_of_beq_eq_false rfl), fun _ ↦ h⟩

theorem sound_first (b : ℕ) : Sound (first b).1 := by
  rw [first]
  by_cases hascii : b < 0x80
  · rw [if_pos hascii]
    exact sound_ground
  by_cases hone : 0xc2 ≤ b ∧ b ≤ 0xdf
  · rw [if_neg hascii, if_pos hone]
    exact .ofOne (by omega)
  by_cases htwo : 0xe0 ≤ b ∧ b ≤ 0xef
  · rw [if_neg hascii, if_neg hone, if_pos htwo]
    refine .ofTwo (by split <;> omega) (by split <;> omega) fun c hlower hupper ↦ ?_
    split at hlower <;> split at hupper <;> omega
  by_cases hthree : 0xf0 ≤ b ∧ b ≤ 0xf4
  · rw [if_neg hascii, if_neg hone, if_neg htwo, if_pos hthree]
    refine .ofThree (by split <;> omega) (by split <;> omega) fun c hlower hupper ↦ ?_
    split at hlower <;> split at hupper <;> omega
  rw [if_neg hascii, if_neg hone, if_neg htwo, if_neg hthree]
  exact sound_ground

theorem first_out (b : ℕ) : (first b).2 =
    if b < 0x80 then [b] else if 0xc2 ≤ b ∧ b ≤ 0xf4 then [] else [replacement] := by
  rw [first]
  by_cases hascii : b < 0x80
  · rw [if_pos hascii, if_pos hascii]
  rw [if_neg hascii, if_neg hascii]
  by_cases hone : 0xc2 ≤ b ∧ b ≤ 0xdf
  · rw [if_pos hone, if_pos (by omega)]
  by_cases htwo : 0xe0 ≤ b ∧ b ≤ 0xef
  · rw [if_neg hone, if_pos htwo]
    exact (if_pos (by omega)).symm
  by_cases hthree : 0xf0 ≤ b ∧ b ≤ 0xf4
  · rw [if_neg hone, if_neg htwo, if_pos hthree]
    exact (if_pos (by omega)).symm
  rw [if_neg hone, if_neg htwo, if_neg hthree, if_neg (by omega)]

theorem scalar_replacement : Scalar replacement := by decide

theorem scalar_first : ∀ p ∈ (first b).2, Scalar p := by
  intro p hp
  rw [first_out] at hp
  split_ifs at hp
  · rw [mem_singleton] at hp
    rw [Scalar]
    omega
  · exact absurd hp not_mem_nil
  · exact mem_singleton.mp hp ▸ scalar_replacement

variable {s : State}

theorem sound_step (h : Sound s) (b : ℕ) : Sound (step s b).1 := by
  rw [step]
  split_ifs with hneeded hrange hone
  · exact sound_first b
  · exact sound_ground
  · have hle := h.needed
    by_cases htwo : s.needed = 2
    · rw [htwo]
      exact .ofOne (h.two htwo b hrange.1 hrange.2)
    · have hthree : s.needed = 3 := by omega
      have hpoint := h.three hthree b hrange.1 hrange.2
      rw [hthree]
      exact .ofTwo (le_refl _) (le_refl _) fun c hlower hupper ↦ by omega
  · exact sound_first b

theorem scalar_step (h : Sound s) (b : ℕ) : ∀ p ∈ (step s b).2, Scalar p := by
  intro p hp
  rw [step] at hp
  split_ifs at hp with hneeded hrange hone
  · exact scalar_first p hp
  · rw [mem_singleton] at hp
    have := h.one hone
    have := h.upper
    rw [Scalar]
    omega
  · exact absurd hp not_mem_nil
  · rcases mem_cons.mp hp with rfl | hp
    · decide
    · exact scalar_first p hp

theorem sound_run (h : Sound s) (bytes : List UInt8) : Sound (run s bytes).1 := by
  induction bytes generalizing s with
  | nil => exact h
  | cons b bytes ih => exact ih (sound_step h b.toNat)

/-- **The decoder yields scalar values only.** -/
theorem run_scalar (h : Sound s) (bytes : List UInt8) : ∀ p ∈ (run s bytes).2, Scalar p := by
  induction bytes generalizing s with
  | nil => exact nofun
  | cons b bytes ih =>
    intro p hp
    rcases mem_append.mp hp with hp | hp
    · exact scalar_step h b.toNat p hp
    · exact ih (sound_step h b.toNat) p hp

theorem decode_scalar (bytes : List UInt8) : ∀ p ∈ decode bytes, Scalar p := by
  intro p hp
  rcases mem_append.mp hp with hp | hp
  · exact run_scalar sound_ground bytes p hp
  · rw [flush] at hp
    split_ifs at hp
    · exact absurd hp not_mem_nil
    · exact mem_singleton.mp hp ▸ scalar_replacement

/-! ## Encoding and decoding -/

theorem step_last (h : lower ≤ b ∧ b ≤ upper) :
    step ⟨1, point, lower, upper⟩ b = (ground, [point * 64 + (b - 0x80)]) := by
  rw [step, if_neg (Nat.one_ne_zero), if_pos h]
  rfl

theorem step_next {n : ℕ} (h : lower ≤ b ∧ b ≤ upper) : step ⟨n + 2, point, lower, upper⟩ b =
      (⟨n + 1, point * 64 + (b - 0x80), 0x80, 0xbf⟩, []) := by
  rw [step, if_neg (Nat.succ_ne_zero _), if_pos h]
  exact if_neg (by simp)

/-- **The units of scalar values spell them.** -/
theorem pointsOf_units {points : List ℕ} (h : ∀ p ∈ points, Scalar p) :
    pointsOf (points.flatMap unitsOf) = points := by
  have hnat : ∀ n, n < 65536 → (UInt16.ofNat n).toNat = n := by
    intro n hn
    rw [UInt16.toNat_ofNat']
    omega
  induction points with
  | nil => rfl
  | cons p points ih =>
    obtain ⟨hlt, hsurrogate⟩ := h p (mem_cons_self ..)
    have htail := ih fun q hq ↦ h q (mem_cons_of_mem _ hq)
    rw [flatMap_cons, unitsOf]
    split_ifs with hbasic
    · rw [singleton_append]
      cases hrest : points.flatMap unitsOf with
      | nil =>
        rw [hrest] at htail
        rw [← htail]
        simp only [pointsOf, hnat p hbasic, if_neg hsurrogate]
      | cons d text =>
        rw [hrest] at htail
        have hp := hnat p hbasic
        rw [pointsOf, hp, if_neg (by omega), if_neg hsurrogate, htail]
    · have hhigh := hnat (0xd800 + (p - 0x10000) / 1024) (by omega)
      have hlow := hnat (0xdc00 + (p - 0x10000) % 1024) (by omega)
      rw [cons_append, singleton_append, pointsOf, hhigh, hlow, if_pos (by omega), htail,
        List.cons.injEq]
      exact ⟨by omega, rfl⟩

theorem encode_ne_nil (p : ℕ) : encode p ≠ [] := by
  rw [encode]
  split_ifs <;> exact cons_ne_nil _ _

theorem bytesOf_ne_nil {text : JsString} (h : text ≠ []) : bytesOf text ≠ [] := by
  have hpoints : pointsOf text ≠ [] := by
    rcases text with - | ⟨c, - | ⟨d, text⟩⟩
    · exact absurd rfl h
    · exact cons_ne_nil _ _
    · rw [pointsOf]
      split_ifs <;> exact cons_ne_nil _ _
  obtain ⟨p, points, heq⟩ := exists_cons_of_ne_nil hpoints
  rw [bytesOf, heq, flatMap_cons]
  exact append_ne_nil_of_left_ne_nil (encode_ne_nil p) _

end Utf8
