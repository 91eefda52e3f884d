import OpenCodex.Data.Utf8

/-!
# UTF-8 without replacement

`decodeURIComponent` refuses bytes that are no UTF-8, where a `TextDecoder` would put replacement
characters.  `decodeStrict` is the same machine, stopped where it would replace; what it decodes is
what it was given, encoded (`decodeStrict_eq_some`).  So bytes that end inside of a code point are
refused (`decodeStrict_cut`).
-/

set_option autoImplicit false

open List Option Prod

namespace Utf8

/-- A byte, unless it would be replaced. -/
def stepStrict (s : State) (b : ℕ) : Option (State × List ℕ) :=
  if s.needed = 0 then
    if b < 0x80 ∨ 0xc2 ≤ b ∧ b ≤ 0xf4 then some (first b) else none
  else if s.lower ≤ b ∧ b ≤ s.upper then some (step s b) else none

def runStrict (s : State) : List UInt8 → Option (State × List ℕ)
  | [] => some (s, [])
  | b :: bytes =>
    (stepStrict s b.toNat).bind fun r ↦ (runStrict r.1 bytes).map fun r' ↦ (r'.1, r.2 ++ r'.2)

/-- The code points of a whole array, if it is UTF-8. -/
def decodeStrict (bytes : List UInt8) : Option (List ℕ) :=
  (runStrict ground bytes).bind fun r ↦ if r.1.needed = 0 then some r.2 else none

theorem runStrict_append (s : State) (l m : List UInt8) : runStrict s (l ++ m) =
      (runStrict s l).bind fun r ↦ (runStrict r.1 m).map fun r' ↦ (r'.1, r.2 ++ r'.2) := by
  induction l generalizing s with
  | nil => simp [runStrict]
  | cons b l ih =>
    rw [cons_append, runStrict, runStrict]
    cases stepStrict s b.toNat with
    | none => rfl
    | some r =>
      rw [bind_some, bind_some, ih]
      cases runStrict r.1 l with
      | none => rfl
      | some r' =>
        simp only [bind_some, Option.map_map, map_some, append_assoc]
        rfl

/-! ## What was decoded is what was given -/

/-- However the sequence goes on, what it is in the end is encoded as the bytes that were read. -/
def Begun (held : List UInt8) : ℕ → ℕ → ℕ → ℕ → Prop
  | 0, _, _, _ => held = []
  | 1, point, lower, upper => ∀ b : UInt8, lower ≤ b.toNat → b.toNat ≤ upper →
      encode (point * 64 + (b.toNat - 0x80)) = held ++ [b]
  | n + 2, point, lower, upper => ∀ b : UInt8, lower ≤ b.toNat → b.toNat ≤ upper →
      Begun (held ++ [b]) (n + 1) (point * 64 + (b.toNat - 0x80)) 0x80 0xbf

variable {n : ℕ}

theorem ofNat_eq {b : UInt8} (h : n = b.toNat) : UInt8.ofNat n = b := by rw [h, UInt8.ofNat_toNat]

theorem begun_first {b : UInt8} (h : b.toNat < 0x80 ∨ 0xc2 ≤ b.toNat ∧ b.toNat ≤ 0xf4) :
    (first b.toNat = (ground, [b.toNat]) ∧ encode b.toNat = [b]) ∨
      (first b.toNat).2 = [] ∧ (first b.toNat).1.needed ≠ 0 ∧
        Begun [b] (first b.toNat).1.needed (first b.toNat).1.point (first b.toNat).1.lower
          (first b.toNat).1.upper := by
  rw [first]
  by_cases hone : b.toNat < 0x80
  · rw [if_pos hone]
    refine .inl ⟨rfl, ?_⟩
    rw [encode, if_pos hone, ofNat_eq rfl]
  refine .inr ?_
  rw [if_neg hone]
  by_cases htwo : 0xc2 ≤ b.toNat ∧ b.toNat ≤ 0xdf
  · rw [if_pos htwo]
    refine ⟨rfl, Nat.one_ne_zero, ?_⟩
    dsimp only [Begun]
    intro c hc hc'
    rw [encode, if_neg (by omega), if_pos (by omega), ofNat_eq (b := b) (by omega),
      ofNat_eq (b := c) (by omega)]
    rfl
  rw [if_neg htwo]
  by_cases hthree : 0xe0 ≤ b.toNat ∧ b.toNat ≤ 0xef
  · rw [if_pos hthree]
    refine ⟨rfl, Nat.succ_ne_zero _, ?_⟩
    dsimp only [Begun]
    intro c hc hc' d hd hd'
    have hlow : 0x80 ≤ c.toNat ∧ (b.toNat = 0xe0 → 0xa0 ≤ c.toNat) := by
      split_ifs at hc with he
      · exact ⟨by omega, fun _ ↦ hc⟩
      · exact ⟨hc, fun h ↦ absurd h he⟩
    have hhigh : c.toNat ≤ 0xbf := by split_ifs at hc' <;> omega
    rw [encode, if_neg (by omega), if_neg (by omega), if_pos (by omega),
      ofNat_eq (b := b) (by omega), ofNat_eq (b := c) (by omega), ofNat_eq (b := d) (by omega)]
    rfl
  · rw [if_neg hthree, if_pos (by omega)]
    refine ⟨rfl, Nat.succ_ne_zero _, ?_⟩
    dsimp only [Begun]
    intro c hc hc' d hd hd' e he he'
    have hlow : 0x80 ≤ c.toNat ∧ (b.toNat = 0xf0 → 0x90 ≤ c.toNat) := by
      split_ifs at hc with hb
      · exact ⟨by omega, fun _ ↦ hc⟩
      · exact ⟨hc, fun h ↦ absurd h hb⟩
    have hhigh : c.toNat ≤ 0xbf := by split_ifs at hc' <;> omega
    rw [encode, if_neg (by omega), if_neg (by omega), if_neg (by omega),
      ofNat_eq (b := b) (by omega), ofNat_eq (b := c) (by omega), ofNat_eq (b := d) (by omega),
      ofNat_eq (b := e) (by omega)]
    rfl

variable {s s' : State} {out : List ℕ}

variable {held : List UInt8}

/-- **A byte**: what has come out is encoded as the bytes that were read. -/
theorem begun_step {b : UInt8} (h : Begun held s.needed s.point s.lower s.upper)
    (hs : stepStrict s b.toNat = some (s', out)) :
    ∃ held', held ++ [b] = out.flatMap encode ++ held' ∧
      Begun held' s'.needed s'.point s'.lower s'.upper := by
  obtain ⟨needed, point, lower, upper⟩ := s
  rw [stepStrict] at hs
  split_ifs at hs with hn hb hrange
  · obtain rfl := hn
    obtain rfl : held = [] := h
    rcases begun_first hb with ⟨hfirst, hencode⟩ | ⟨hout, -, hbegun⟩
    · rw [hfirst, some_inj] at hs
      obtain ⟨rfl, rfl⟩ := mk.inj hs
      exact ⟨[], by simp [hencode], rfl⟩
    · rw [some_inj] at hs
      rw [hs] at hout hbegun
      exact ⟨[b], by rw [show out = [] from hout]; rfl, hbegun⟩
  · rw [some_inj] at hs
    match needed, hn with
    | 1, _ =>
      rw [step_last hrange] at hs
      obtain ⟨rfl, rfl⟩ := mk.inj hs
      exact ⟨[], by simp [h b hrange.1 hrange.2], rfl⟩
    | n + 2, _ =>
      rw [step_next hrange] at hs
      obtain ⟨rfl, rfl⟩ := mk.inj hs
      exact ⟨held ++ [b], rfl, h b hrange.1 hrange.2⟩

variable {bytes : List UInt8}

theorem begun_run (h : Begun held s.needed s.point s.lower s.upper)
    (hr : runStrict s bytes = some (s', out)) :
    ∃ held', held ++ bytes = out.flatMap encode ++ held' ∧
      Begun held' s'.needed s'.point s'.lower s'.upper := by
  induction bytes generalizing s held out with
  | nil =>
    obtain ⟨rfl, rfl⟩ := mk.inj (some_inj.mp hr)
    exact ⟨held, by simp, h⟩
  | cons b bytes ih =>
    obtain ⟨r, hs, hr⟩ := bind_eq_some_iff.mp hr
    obtain ⟨r', hr', he⟩ := map_eq_some_iff.mp hr
    obtain ⟨rfl, rfl⟩ := mk.inj he
    obtain ⟨held', hheld, hbegun⟩ := begun_step h hs
    obtain ⟨held'', hheld', hbegun'⟩ := ih hbegun hr'
    refine ⟨held'', ?_, hbegun'⟩
    rw [flatMap_append, append_assoc, ← hheld', ← append_assoc, ← hheld,
      append_assoc, singleton_append]

variable {points : List ℕ}

/-- **What is decoded is what was given, encoded.** -/
theorem decodeStrict_eq_some (h : decodeStrict bytes = some points) :
    bytes = points.flatMap encode := by
  obtain ⟨r, hr, h⟩ := bind_eq_some_iff.mp h
  split_ifs at h with hneeded
  obtain rfl := some_inj.mp h
  obtain ⟨held, hheld, hbegun⟩ := begun_run (show Begun [] ground.needed _ _ _ from rfl) hr
  rw [hneeded] at hbegun
  rw [show held = [] from hbegun, append_nil] at hheld
  exact hheld

/-! ## What is encoded is decoded -/

variable {b : ℕ}

theorem stepStrict_first (h : b < 0x80 ∨ 0xc2 ≤ b ∧ b ≤ 0xf4) :
    stepStrict ground b = some (first b) := if_pos h

variable {point lower upper : ℕ}

theorem stepStrict_in_range (h : lower ≤ b ∧ b ≤ upper) :
    stepStrict ⟨n + 1, point, lower, upper⟩ b = some (step ⟨n + 1, point, lower, upper⟩ b) := by
  rw [stepStrict, if_neg (Nat.succ_ne_zero n), if_pos h]

theorem runStrict_byte (hb : b < 256) (h : stepStrict s b = some (s', out)) (bytes : List UInt8) :
    runStrict s (UInt8.ofNat b :: bytes) = (runStrict s' bytes).map fun r ↦ (r.1, out ++ r.2) := by
  have hnat : (UInt8.ofNat b).toNat = b := by
    rw [UInt8.toNat_ofNat']
    omega
  rw [runStrict, hnat, h]
  rfl

theorem stepStrict_last (h : lower ≤ b ∧ b ≤ upper) :
    stepStrict ⟨1, point, lower, upper⟩ b = some (ground, [point * 64 + (b - 0x80)]) := by
  rw [stepStrict_in_range h, step_last h]

theorem stepStrict_next (h : lower ≤ b ∧ b ≤ upper) : stepStrict ⟨n + 2, point, lower, upper⟩ b =
      some (⟨n + 1, point * 64 + (b - 0x80), 0x80, 0xbf⟩, []) := by
  rw [stepStrict_in_range h, step_next h]

variable {p : ℕ}

theorem runStrict_encode (h : Scalar p) : runStrict ground (encode p) = some (ground, [p]) := by
  obtain ⟨hlt, hsurrogate⟩ := h
  rw [encode]
  split_ifs with hone htwo hthree
  · have hfirst : stepStrict ground p = some (ground, [p]) := by
      rw [stepStrict_first (.inl hone), first, if_pos hone]
    rw [runStrict_byte (by omega) hfirst]
    rfl
  · have hfirst : stepStrict ground (0xc0 + p / 64) = some (⟨1, p / 64, 0x80, 0xbf⟩, []) := by
      rw [stepStrict_first (by omega), first, if_neg (by omega), if_pos (by omega),
        Nat.add_sub_cancel_left]
    rw [runStrict_byte (by omega) hfirst, runStrict_byte (by omega) (stepStrict_last (by omega))]
    simp only [runStrict, map_some, append_nil, nil_append, Option.some.injEq,
      mk.injEq, true_and, List.cons.injEq, and_true]
    omega
  · have hfirst : stepStrict ground (0xe0 + p / 4096) = some (⟨2, p / 4096,
        if 0xe0 + p / 4096 = 0xe0 then 0xa0 else 0x80,
        if 0xe0 + p / 4096 = 0xed then 0x9f else 0xbf⟩, []) := by
      rw [stepStrict_first (by omega), first, if_neg (by omega), if_neg (by omega),
        if_pos (by omega), Nat.add_sub_cancel_left]
    have hrange : (if 0xe0 + p / 4096 = 0xe0 then 0xa0 else 0x80) ≤ 0x80 + p / 64 % 64 ∧
        0x80 + p / 64 % 64 ≤ if 0xe0 + p / 4096 = 0xed then 0x9f else 0xbf := by
      constructor
      · split <;> omega
      · split <;> omega
    rw [runStrict_byte (by omega) hfirst, runStrict_byte (by omega) (stepStrict_next hrange),
      runStrict_byte (by omega) (stepStrict_last (by omega))]
    simp only [runStrict, map_some, append_nil, nil_append, Option.some.injEq,
      mk.injEq, true_and, List.cons.injEq, and_true]
    omega
  · have hfirst : stepStrict ground (0xf0 + p / 262144) = some (⟨3, p / 262144,
        if 0xf0 + p / 262144 = 0xf0 then 0x90 else 0x80,
        if 0xf0 + p / 262144 = 0xf4 then 0x8f else 0xbf⟩, []) := by
      rw [stepStrict_first (by omega), first, if_neg (by omega), if_neg (by omega),
        if_neg (by omega), if_pos (by omega), Nat.add_sub_cancel_left]
    have hrange : (if 0xf0 + p / 262144 = 0xf0 then 0x90 else 0x80) ≤ 0x80 + p / 4096 % 64 ∧
        0x80 + p / 4096 % 64 ≤ if 0xf0 + p / 262144 = 0xf4 then 0x8f else 0xbf := by
      constructor
      · split <;> omega
      · split <;> omega
    rw [runStrict_byte (by omega) hfirst, runStrict_byte (by omega) (stepStrict_next hrange),
      runStrict_byte (by omega) (stepStrict_next (by omega)),
      runStrict_byte (by omega) (stepStrict_last (by omega))]
    simp only [runStrict, map_some, append_nil, nil_append, Option.some.injEq,
      mk.injEq, true_and, List.cons.injEq, and_true]
    omega

theorem runStrict_encodes (h : ∀ p ∈ points, Scalar p) :
    runStrict ground (points.flatMap encode) = some (ground, points) := by
  induction points with
  | nil => rfl
  | cons p points ih =>
    obtain ⟨hp, hpoints⟩ := forall_mem_cons.mp h
    rw [flatMap_cons, runStrict_append, runStrict_encode hp, bind_some, ih hpoints]
    rfl

theorem run_of_runStrict {r : State × List ℕ} (h : runStrict s bytes = some r) :
    run s bytes = r := by
  induction bytes generalizing s r with
  | nil => exact some_inj.mp h
  | cons b bytes ih =>
    obtain ⟨r', hr', hrest⟩ := bind_eq_some_iff.mp h
    obtain ⟨r'', hr'', rfl⟩ := map_eq_some_iff.mp hrest
    have hstep : step s b.toNat = r' := by
      rw [stepStrict] at hr'
      split_ifs at hr' with hground
      · exact (if_pos hground).trans (some_inj.mp hr')
      · exact some_inj.mp hr'
    rw [run, hstep, ih hr'']

theorem run_encodes (h : ∀ p ∈ points, Scalar p) :
    run ground (points.flatMap encode) = (ground, points) :=
  run_of_runStrict (runStrict_encodes h)

theorem decodeStrict_encodes (h : ∀ p ∈ points, Scalar p) :
    decodeStrict (points.flatMap encode) = some points := by
  rw [decodeStrict, runStrict_encodes h]
  rfl

theorem decodeStrict_cut {l m : List UInt8} (h : ∀ q ∈ points, Scalar q) (hp : Scalar p)
    (hl : l ≠ []) (hm : m ≠ []) (he : encode p = l ++ m) :
    decodeStrict (points.flatMap encode ++ l) = none := by
  rw [decodeStrict, runStrict_append, runStrict_encodes h, bind_some]
  cases hr : runStrict ground l with
  | none => rfl
  | some r =>
    refine if_neg fun hneeded ↦ ?_
    have hd : decodeStrict l = some r.2 := by rw [decodeStrict, hr]; exact if_pos hneeded
    have hp := runStrict_encode hp
    rw [he, runStrict_append, hr, bind_some] at hp
    obtain ⟨r', -, hpoint⟩ := map_eq_some_iff.mp hp
    have hout := (mk.inj hpoint).2
    -- so the letters are the whole encoding of the point
    rcases append_eq_singleton_iff.mp hout with ⟨hnil, -⟩ | ⟨hall, -⟩
    · rw [hnil] at hd
      exact hl (decodeStrict_eq_some hd)
    · rw [hall] at hd
      have hlm := decodeStrict_eq_some hd
      rw [flatMap_singleton, he] at hlm
      exact hm (self_eq_append_right.mp hlm)

theorem decodeStrict_continuation {b : UInt8} (h : 0x80 ≤ b.toNat ∧ b.toNat < 0xc2)
    (bytes : List UInt8) : decodeStrict (b :: bytes) = none := by
  have hs : stepStrict ground b.toNat = none := (if_pos rfl).trans (if_neg (by omega))
  rw [decodeStrict, runStrict, hs]
  rfl

end Utf8
