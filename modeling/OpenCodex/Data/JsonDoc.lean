import OpenCodex.Data.JsonWrite

/-!
# What the proxy writes as JSON

The renderings of `Doc` are those of JSON values (`render_eq`), so reading one back gives the value
it was made of (`parse_render`), and it is one line of a file.

The last section is about lines that did not get written whole.  An object's rendering that is cut
off short is not JSON (`parse_cut`), and neither is one that another object's rendering was written
directly after, wherever the first was cut (`parse_run_together`): inside a string, the other one
closes the string with its first quote and a letter follows; inside a container it can at most
become an element of it; and everywhere else a brace must not follow.
-/

set_option autoImplicit false

open List Option Json.Doc

namespace Json

/-! ## Renderings are those of values -/

theorem isDecimal_natCast (n : ℕ) : IsDecimal n := ⟨0, by simp⟩

theorem stringifyNumber_natCast (n : ℕ) : stringifyNumber n = decimal n := by
  have hplaces : placesOf 1 = 0 := by decide
  rw [stringifyNumber, Rat.num_natCast, Rat.den_natCast, hplaces]
  simp

mutual

/-- **A rendering is the text of the value it stands for.** -/
theorem render_eq (d : Doc) : d.render = d.toJson.stringify := by
  match d with
  | .nat n => rw [render, toJson, stringify, stringifyNumber_natCast]
  | .str s => rw [render, toJson, stringify]
  | .arr [] => rw [render, toJson, itemsToJson, stringify]
  | .arr (item :: items) =>
    rw [render, toJson, itemsToJson, stringify, render_eq item, renderItems_eq items]
  | .obj [] => rw [render, toJson, membersToJson, stringify]
  | .obj ((name, v) :: members) =>
    rw [render, toJson, membersToJson, stringify, render_eq v, renderMembers_eq members]

theorem renderItems_eq (items : List Doc) :
    renderItems items = stringifyItems (itemsToJson items) := by
  match items with
  | [] => rw [renderItems, itemsToJson, stringifyItems]
  | item :: items =>
    rw [renderItems, itemsToJson, stringifyItems, render_eq item, renderItems_eq items]

theorem renderMembers_eq (members : List (JsString × Doc)) :
    renderMembers members = stringifyMembers (membersToJson members) := by
  match members with
  | [] => rw [renderMembers, membersToJson, stringifyMembers]
  | (name, v) :: members =>
    rw [renderMembers, membersToJson, stringifyMembers, render_eq v, renderMembers_eq members]

end

mutual

theorem decimal_toJson (d : Doc) : d.toJson.Decimal := by
  match d with
  | .nat n => rw [toJson]; exact .num (isDecimal_natCast n)
  | .str s => rw [toJson]; exact .str s
  | .arr items => rw [toJson]; exact .arr (decimal_itemsToJson items)
  | .obj members => rw [toJson]; exact .obj (decimal_membersToJson members)

theorem decimal_itemsToJson (items : List Doc) : ∀ v ∈ itemsToJson items, v.Decimal := by
  match items with
  | [] => exact nofun
  | item :: items => exact forall_mem_cons.mpr ⟨decimal_toJson item, decimal_itemsToJson items⟩

theorem decimal_membersToJson (members : List (JsString × Doc)) :
    ∀ m ∈ membersToJson members, m.2.Decimal := by
  match members with
  | [] => exact nofun
  | (name, v) :: members =>
    exact forall_mem_cons.mpr ⟨decimal_toJson v, decimal_membersToJson members⟩

end

variable (d : Doc)

/-- **A rendering is read to where its value is delivered.** -/
theorem render_reads (stack : List Frame) :
    ∃ st, run ⟨stack, .value⟩ d.render = some st ∧ Agree st (deliver stack d.toJson) :=
  render_eq d ▸ stringify_reads d.toJson (decimal_toJson d) stack

/-- **Parsing a rendering** gives the value it was made of. -/
theorem parse_render : parse d.render = some d.toJson :=
  render_eq d ▸ parse_stringify (decimal_toJson d)

theorem decimal_injective : Function.Injective decimal := by
  intro m n h
  have hm : parse (decimal m) = some (.num m) := parse_render (.nat m)
  have hn : parse (decimal n) = some (.num n) := parse_render (.nat n)
  rw [h, hn, Option.some.injEq, num.injEq, Nat.cast_inj] at hm
  exact hm.symm

/-- **A rendering has no control characters**, so it is one line. -/
theorem render_printable : Printable d.render := render_eq d ▸ stringify_printable d.toJson

/-! ## Renderings that were cut off or run together -/

theorem render_obj (members : List (JsString × Doc)) :
    ∃ text, (Doc.obj members).render = 0x7b :: (text ++ [0x7d]) := by
  have hrest : ∀ members, ∃ text, renderMembers members = text ++ [0x7d] := by
    intro members
    induction members with
    | nil => exact ⟨[], by rw [renderMembers]; rfl⟩
    | cons m members ih =>
      obtain ⟨name, v⟩ := m
      obtain ⟨text, ht⟩ := ih
      exact ⟨0x2c :: (literal name ++ 0x3a :: (v.render ++ text)), by rw [renderMembers, ht]; simp⟩
  cases members with
  | nil => exact ⟨[], by rw [render]; rfl⟩
  | cons m members =>
    obtain ⟨name, v⟩ := m
    obtain ⟨text, ht⟩ := hrest members
    exact ⟨literal name ++ 0x3a :: (v.render ++ text), by rw [render, ht]; simp⟩

variable {members : List (JsString × Doc)} {p q : JsString}

theorem run_cut (h : (Doc.obj members).render = p ++ q) (hp : p ≠ []) :
    ∃ st, run start p = some st ∧ Opened st ∧ (run st q).isSome = true := by
  obtain ⟨text, ht⟩ := render_obj members
  obtain ⟨st₀, hbrace, hopen⟩ := start_brace
  obtain ⟨st₁, hwhole, -⟩ := render_reads (.obj members) []
  obtain ⟨c, p, rfl⟩ := exists_cons_of_ne_nil hp
  have hc : c = 0x7b := by
    rw [ht, cons_append, List.cons.injEq] at h
    exact h.1.symm
  subst hc
  rw [h, cons_append, run_cons, show step ⟨[], .value⟩ 0x7b = some st₀ from hbrace,
    bind_some, run_append, bind_eq_some_iff] at hwhole
  obtain ⟨st, hst, hrest⟩ := hwhole
  refine ⟨st, ?_, kept_opened.run hopen hst, by rw [hrest]; rfl⟩
  rw [run_cons, hbrace]
  exact hst

/-- **An object's rendering that was cut off** is not JSON. -/
theorem parse_cut (h : (Doc.obj members).render = p ++ q) (hp : p ≠ []) (hq : q ≠ []) :
    parse p = none := by
  obtain ⟨st, hst, hopen, hrest⟩ := run_cut h hp
  rw [parse, hst, bind_some]
  by_contra hsome
  obtain ⟨v, hv⟩ := ne_none_iff_exists'.mp hsome
  obtain ⟨st', hst'⟩ := isSome_iff_exists.mp hrest
  rw [finish_opened hopen hv] at hst'
  -- the last brace would have to be whitespace
  have hbrace : (0x7d : CodeUnit) ∈ q := by
    obtain ⟨text, ht⟩ := render_obj members
    obtain ⟨q, c, rfl⟩ := (eq_nil_or_concat q).resolve_left hq
    rw [concat_eq_append] at h ⊢
    rw [ht, ← cons_append, ← append_assoc] at h
    rw [← append_inj_right' h rfl]
    simp
  exact absurd (run_done hst' 0x7d hbrace) (by decide)

/-- A unit that begins the name of a record's first member: a lower-case letter. -/
def IsLetter (c : CodeUnit) : Prop := 0x61 ≤ c.toNat ∧ c.toNat ≤ 0x7a

variable {c : CodeUnit}

theorem quoted_letter (h : IsLetter c) (rest : JsString) :
    ∃ text, quoted (c :: rest) = c :: text := by
  have hne : ∀ d : CodeUnit, d.toNat < 0x61 → c ≠ d := by
    rintro d hd rfl
    exact absurd h.1 (by omega)
  have hhigh : isHighSurrogate c = false := by
    rw [isHighSurrogate, decide_eq_false, Bool.false_and]
    intro hc
    have hc : 0xd800 ≤ c.toNat := hc
    have := h.2
    omega
  have hlow : isLowSurrogate c = false := by
    rw [isLowSurrogate, decide_eq_false, Bool.false_and]
    intro hc
    have hc : 0xdc00 ≤ c.toNat := hc
    have := h.2
    omega
  have halone : escapeAlone c = [c] := by
    have hcontrol : ¬c < 0x20 := by
      intro hc
      have hc : c.toNat < 0x20 := hc
      have := h.1
      omega
    rw [escapeAlone, hhigh, hlow, Bool.or_self, if_neg Bool.false_ne_true, escape,
      if_neg (hne 0x22 (by decide)), if_neg (hne 0x5c (by decide)), if_neg (hne 0x08 (by decide)),
      if_neg (hne 0x0c (by decide)), if_neg (hne 0x0a (by decide)), if_neg (hne 0x0d (by decide)),
      if_neg (hne 0x09 (by decide)), if_neg hcontrol]
  cases rest with
  | nil => exact ⟨[], halone⟩
  | cons d rest => exact ⟨quoted (d :: rest), by rw [quoted, hhigh, halone]; rfl⟩

theorem endString_letter {stack : List Frame} {isName : Bool} {units : JsString} (h : IsLetter c)
    (st : State) (hst : endString stack isName units = some st) : step st c = none := by
  have hne : ∀ d : CodeUnit, d.toNat < 0x61 ∨ 0x7a < d.toNat → c ≠ d := by
    rintro d hd rfl
    have := h.1
    have := h.2
    omega
  have hspace : isSpace c = false := by
    simp only [isSpace, Bool.or_eq_false_iff, beq_eq_false_iff_ne]
    exact ⟨⟨⟨hne _ (by decide), hne _ (by decide)⟩, hne _ (by decide)⟩, hne _ (by decide)⟩
  have hdelivered : ∀ st, stepDelivered st c = none := by
    intro st
    obtain ⟨stack, mode⟩ := st
    rw [stepDelivered, hspace, if_neg (by decide)]
    cases mode with
    | after =>
      rcases stack with _ | ⟨_ | ⟨ms, _ | name⟩, rest⟩
      · rfl
      · exact (if_neg (hne _ (by decide))).trans (if_neg (hne _ (by decide)))
      · exact (if_neg (hne _ (by decide))).trans (if_neg (hne _ (by decide)))
      · rfl
    | _ => rfl
  cases isName with
  | false =>
    obtain rfl := some_inj.mp hst
    rw [step_deliver, hdelivered]
  | true =>
    rcases stack with _ | ⟨_ | ⟨ms, _ | name⟩, rest⟩
    · cases hst
    · cases hst
    · obtain rfl := some_inj.mp hst
      rw [step]
      dsimp only
      rw [hspace, if_neg (by decide), if_neg (hne _ (by decide))]
    · cases hst

/-- **An object's rendering that another one follows directly** is not JSON, wherever the first was
cut off and also if it was not; the second one's first name begins with a letter. -/
theorem parse_run_together {rest : List (JsString × Doc)} {name : JsString} {v : Doc}
    (h : (Doc.obj members).render = p ++ q) (hp : p ≠ []) (hc : IsLetter c) :
    parse (p ++ (Doc.obj ((c :: name, v) :: rest)).render) = none := by
  obtain ⟨⟨stack, mode⟩, hst, hopen, -⟩ := run_cut h hp
  have hstack : (∀ v, mode ≠ .done v) → stack ≠ [] := fun hm ↦
    hopen.inside.resolve_right fun ⟨v, hv⟩ ↦ hm v hv
  rw [parse, run_append, hst, bind_some]
  -- a value that is delivered inside a container leaves the text unfinished
  have hvalue : stack ≠ [] → (run ⟨stack, .value⟩ (Doc.obj ((c :: name, v) :: rest)).render).bind
      finish = none := by
    intro hne
    obtain ⟨st, hrun, hagree⟩ := render_reads (.obj ((c :: name, v) :: rest)) stack
    rw [hrun, bind_some, hagree.1]
    rcases stack with _ | ⟨_ | ⟨ms, _ | name⟩, rest⟩
    · exact absurd rfl hne
    · rfl
    · rfl
    · rfl
  obtain ⟨text, htext⟩ := quoted_letter hc name
  have hrender : (Doc.obj ((c :: name, v) :: rest)).render =
      0x7b :: 0x22 :: c :: (text ++ 0x22 :: 0x3a :: (v.render ++ renderMembers rest)) := by
    rw [render, literal, htext]
    simp
  have hbrace : step ⟨stack, mode⟩ 0x7b = none →
      (run ⟨stack, mode⟩ (Doc.obj ((c :: name, v) :: rest)).render).bind finish = none := by
    intro hnone
    rw [hrender, run_cons, hnone]
    rfl
  cases mode with
  | value => exact hvalue (hstack (Mode.plain.ne_done rfl))
  | elem =>
    have helem := run_elem_stringify stack (Doc.obj ((c :: name, v) :: rest)).toJson []
    rw [append_nil, ← render_eq] at helem
    rw [helem]
    exact hvalue (hstack (Mode.plain.ne_done rfl))
  | member | name | colon => exact hbrace rfl
  | after | done v => exact hbrace (stepDelivered_brace _)
  | str isName units =>
    -- the quote that opens the second one's first name closes this string
    rw [hrender, run_cons]
    show ((run ⟨stack, .str isName (0x7b :: units)⟩ (0x22 :: c :: _))).bind finish = none
    rw [run_cons]
    show ((endString stack isName (0x7b :: units)).bind fun st ↦ run st (c :: _)).bind finish = none
    cases hend : endString stack isName (0x7b :: units) with
    | none => rfl
    | some st =>
      rw [bind_some, run_cons, endString_letter hc st hend]
      rfl
  | esc isName units => exact hbrace rfl
  | hex isName units count code => exact hbrace rfl
  | num n =>
    refine hbrace ?_
    rw [step]
    dsimp only
    rw [numRead_brace]
    dsimp only
    rw [stepDelivered_brace, ite_self]
  | lit missing w =>
    refine hbrace ?_
    cases missing with
    | nil => rfl
    | cons e missing =>
      have he : (0x7b : CodeUnit) ≠ e := fun he ↦
        hopen.literal (e :: missing) w rfl (he ▸ mem_cons_self)
      rw [step]
      dsimp only
      rw [if_neg he]

end Json
