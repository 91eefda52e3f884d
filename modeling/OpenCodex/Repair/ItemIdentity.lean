import OpenCodex.Repair.ItemIds

/-!
# One id for every item

Which id an item gets is decided by the first of its occurrences that has an id which is mapped
(`announced`): one that needs repair, or any where missing ids are repaired.  The tables of the
repair are just this, for every index (`Tables`); so from that occurrence on the item has one id,
and until then it is left as it is.
-/

set_option autoImplicit false

open List Option

namespace ItemIdRepair

open Bridge (truthy)

section

variable (config : ResponsesItemIdRepairConfig) (scope : JsString)

/-- An id that is a placeholder, or not in the form of its type. -/
def Repairs (type : RepairableItemType) (rawId : JsString) : Prop :=
  rawId ∈ config.placeholders type ∨
    config.repairInvalidIds = true ∧ ¬repairablePrefix type <+: rawId

instance (type : RepairableItemType) (rawId : JsString) : Decidable (Repairs config type rawId) :=
  inferInstanceAs (Decidable (_ ∨ _))

/-- The id of an occurrence, and what it is mapped to. -/
def announced (type : RepairableItemType) (index : ℕ) : Mention → Option (JsString × JsString)
  | .item i item =>
    if i = index ∧ repairableItemType item = some type then
      (truthy (idOf item)).bind fun rawId ↦
        (mappedId config scope type index rawId).map (rawId, ·)
    else none
  | .ref _ _ _ => none

/-- The first of them. -/
def firstAnnounced (type : RepairableItemType) (index : ℕ) (said : List Mention) :
    Option (JsString × JsString) := said.findSome? (announced config scope type index)

/-- Every index belongs to items of one type. -/
def OfKind (kind : ℕ → Option RepairableItemType) (said : List Mention) : Prop :=
  ∀ index item, .item index item ∈ said → repairableItemType item = kind index

/-- What the tables hold after some mentions. -/
structure Tables (kind : ℕ → Option RepairableItemType) (said : List Mention)
    (state : ResponsesItemIdRepairState) : Prop where
  ids : ∀ type index,
    state.outputIds.get? (type, index) = (firstAnnounced config scope type index said).map Prod.snd
  raws : ∀ index rawId, state.rawIds.get? (index, rawId) =
    ((kind index).bind fun type ↦ firstAnnounced config scope type index said).bind fun first ↦
      if rawId = first.1 ∧ first.1 ≠ first.2 then some first.2 else none

variable {config scope} {kind : ℕ → Option RepairableItemType} {said : List Mention}
  {state : ResponsesItemIdRepairState} {type : RepairableItemType} {index : ℕ} {item : Json}
  {rawId mapped : JsString}

theorem mappedId_eq : mappedId config scope type index rawId =
    if Repairs config type rawId then some (mintCanonicalId type scope index)
    else if config.repairMissingTerminalIds = true then some rawId else none := by
  have hprefix : (config.repairInvalidIds && !(repairablePrefix type).isPrefixOf rawId) = true ↔
      config.repairInvalidIds = true ∧ ¬repairablePrefix type <+: rawId := by
    rw [Bool.and_eq_true, Bool.not_eq_true', ← isPrefixOf_iff_prefix, Bool.not_eq_true]
  simp only [mappedId, Repairs, hprefix, contains_iff_mem]
  by_cases hplaceholder : rawId ∈ config.placeholders type <;> simp [hplaceholder]

theorem firstAnnounced_concat (said : List Mention) (mention : Mention) :
    firstAnnounced config scope type index (said ++ [mention]) =
      (firstAnnounced config scope type index said).or
        (announced config scope type index mention) := by
  rw [firstAnnounced, firstAnnounced, findSome?_append, findSome?_singleton]

theorem announced_other_index {i : ℕ} (h : i ≠ index) (item : Json) :
    announced config scope type index (.item i item) = none := if_neg fun h' ↦ h h'.1

theorem announced_other_type (h : repairableItemType item ≠ some type) (i : ℕ) :
    announced config scope type index (.item i item) = none := if_neg fun h' ↦ h h'.2

theorem announced_self (h : repairableItemType item = some type) :
    announced config scope type index (.item index item) = (truthy (idOf item)).bind fun rawId ↦
        (mappedId config scope type index rawId).map (rawId, ·) := if_pos ⟨rfl, h⟩

theorem tables_start : Tables config scope kind [] createRepairState where
  ids _ _ := rfl
  raws index _ := by cases kind index <;> rfl

theorem Tables.still (h : Tables config scope kind said state) {mention : Mention}
    (hnone : ∀ type index, firstAnnounced config scope type index said = none →
      announced config scope type index mention = none) :
    Tables config scope kind (said ++ [mention]) state := by
  have hsame : ∀ type index, firstAnnounced config scope type index (said ++ [mention]) =
      firstAnnounced config scope type index said := by
    intro type index
    rw [firstAnnounced_concat]
    cases hfirst : firstAnnounced config scope type index said with
    | none => rw [hnone type index hfirst, or_none]
    | some first => rw [some_or]
  refine ⟨fun type index ↦ by rw [hsame, h.ids], fun index rawId ↦ ?_⟩
  simp only [hsame, h.raws]

/-- **One mention**: the tables hold the first announcement of every item. -/
theorem Tables.remember (h : Tables config scope kind said state)
    (hkind : repairableItemType item = kind index) :
    Tables config scope kind (said ++ [.item index item])
      (rememberMappedId config scope state index item).2 := by
  rw [rememberMappedId]
  cases htype : repairableItemType item with
  | none => exact h.still fun type i _ ↦ announced_other_type (by simp [htype]) index
  | some type =>
    have hother : ∀ type' i, (type', i) ≠ (type, index) →
        announced config scope type' i (.item index item) = none := by
      intro type' i hne
      by_cases hi : index = i
      · refine announced_other_type (fun htype' ↦ hne ?_) index
        rw [htype, Option.some.injEq] at htype'
        rw [htype', hi]
      · exact announced_other_index hi item
    have hstill : (firstAnnounced config scope type index said = none →
        announced config scope type index (.item index item) = none) →
          Tables config scope kind (said ++ [.item index item]) state := by
      intro hnone
      refine h.still fun type' i hfirst ↦ ?_
      by_cases hsame : (type', i) = (type, index)
      · obtain ⟨rfl, rfl⟩ := Prod.mk.inj hsame
        exact hnone hfirst
      · exact hother type' i hsame
    have hself := @announced_self config scope type index item htype
    dsimp only
    rw [h.ids]
    cases hfirst : firstAnnounced config scope type index said with
    | some first => exact hstill fun hnone ↦ absurd (hfirst.symm.trans hnone) (by simp)
    | none =>
      rw [map_none]
      dsimp only
      cases hid : truthy (idOf item) with
      | none => exact hstill fun _ ↦ by rw [hself, hid, bind_none]
      | some rawId =>
        dsimp only
        cases hmapped : mappedId config scope type index rawId with
        | none =>
          refine hstill fun _ ↦ ?_
          rw [hself, hid, bind_some, hmapped, map_none]
        | some mapped =>
          dsimp only
          have hnow : firstAnnounced config scope type index (said ++ [.item index item]) =
              some (rawId, mapped) := by
            rw [firstAnnounced_concat, hfirst, none_or, hself, hid, bind_some, hmapped]
            rfl
          have helse : ∀ type' i, (type', i) ≠ (type, index) →
              firstAnnounced config scope type' i (said ++ [.item index item]) =
                firstAnnounced config scope type' i said := by
            intro type' i hne
            rw [firstAnnounced_concat, hother type' i hne, or_none]
          refine ⟨fun type' i ↦ ?_, fun i rawId' ↦ ?_⟩
          · by_cases hsame : (type', i) = (type, index)
            · obtain ⟨rfl, rfl⟩ := Prod.mk.inj hsame
              rw [OMap.get?_set_self, hnow]
              rfl
            · rw [OMap.get?_set_of_ne _ hsame, helse type' i hsame, h.ids]
          · by_cases hi : i = index
            · subst hi
              have hold : state.rawIds.get? (i, rawId') = none := by
                rw [h.raws, ← hkind, htype, bind_some, hfirst, bind_none]
              rw [← hkind, htype, bind_some, hnow, bind_some]
              by_cases hne : rawId ≠ mapped
              · rw [if_pos hne, OMap.get?_set]
                by_cases hraw : rawId' = rawId <;> simp [hraw, hne, hold, Ne.symm]
              · rw [if_neg hne, hold, if_neg fun hand ↦ hne hand.2]
            · have hkeep : (if rawId ≠ mapped then state.rawIds.set (index, rawId) mapped
                  else state.rawIds).get? (i, rawId') = state.rawIds.get? (i, rawId') := by
                split_ifs
                · exact OMap.get?_set_of_ne _ (fun heq ↦ hi (Prod.mk.inj heq).1) _
                · rfl
              rw [hkeep, h.raws]
              cases kind i with
              | none => rfl
              | some type' =>
                rw [bind_some, bind_some, helse type' i fun heq ↦ hi (Prod.mk.inj heq).2]

theorem rewriteOutputItem_state (state : ResponsesItemIdRepairState) (index : ℕ) (item : Json) :
    (rewriteOutputItem config scope state index item).2 =
      (rememberMappedId config scope state index item).2 := by
  rw [rewriteOutputItem]
  dsimp only
  split
  · rfl
  · split_ifs <;> rfl

theorem Tables.mention (h : Tables config scope kind said state) {mention : Mention}
    (hkind : ∀ i item, mention = .item i item → repairableItemType item = kind i) :
    Tables config scope kind (said ++ [mention]) (repairMention config scope state mention).2 := by
  cases mention with
  | item index item =>
    rw [repairMention, rewriteOutputItem_state]
    exact h.remember (hkind index item rfl)
  | ref index eventType itemId =>
    have hstate : (repairMention config scope state (.ref index eventType itemId)).2 = state := by
      cases itemId <;> rfl
    rw [hstate]
    exact h.still fun _ _ _ ↦ rfl

theorem Tables.mentions (h : Tables config scope kind said state) {later : List Mention}
    (hkind : OfKind kind later) :
    Tables config scope kind (said ++ later) (repairMentions config scope state later).2 := by
  induction later generalizing said state with
  | nil => rwa [append_nil]
  | cons mention later ih =>
    rw [append_cons, repairMentions]
    refine ih (h.mention fun i item heq ↦ ?_) fun i item hmem ↦ hkind i item (.tail _ hmem)
    exact hkind i item (heq ▸ mem_cons_self)

/-! ## What becomes of one mention -/

theorem rememberMappedId_fst (htype : repairableItemType item = some type) :
    (rememberMappedId config scope state index item).1 =
      (rememberMappedId config scope state index item).2.outputIds.get? (type, index) := by
  rw [rememberMappedId, htype]
  dsimp only
  cases hget : state.outputIds.get? (type, index) with
  | some existing => exact hget.symm
  | none =>
    dsimp only
    cases truthy (idOf item) with
    | none => exact hget.symm
    | some rawId =>
      dsimp only
      cases mappedId config scope type index rawId with
      | none => exact hget.symm
      | some mapped => exact (OMap.get?_set_self _ _ _).symm

variable (config) in
/-- An item that is to be called by an id. -/
def renamed (item : Json) (mapped : JsString) : Json :=
  if idOf item = some mapped then item
  else if idOf item = none ∧ config.repairMissingTerminalIds = false then item
  else item.setField (js "id") (.str mapped)

theorem rewriteOutputItem_item (h : Tables config scope kind said state)
    (hkind : repairableItemType item = kind index) :
    (rewriteOutputItem config scope state index item).1.1 =
      (((repairableItemType item).bind fun type ↦
        firstAnnounced config scope type index (said ++ [.item index item])).map
          fun first ↦ renamed config item first.2).getD item := by
  have hmapped : (rememberMappedId config scope state index item).1 =
      ((repairableItemType item).bind fun type ↦
        firstAnnounced config scope type index (said ++ [.item index item])).map Prod.snd := by
    cases htype : repairableItemType item with
    | none => rw [rememberMappedId, htype]; rfl
    | some type => rw [rememberMappedId_fst htype, (h.remember hkind).ids, bind_some]
  rw [rewriteOutputItem]
  dsimp only
  rw [hmapped]
  cases (repairableItemType item).bind fun type ↦
      firstAnnounced config scope type index (said ++ [.item index item]) with
  | none => rfl
  | some first =>
    simp only [map_some, getD_some, renamed]
    split_ifs <;> rfl

end

/-! ## Positions -/

section

variable {config : ResponsesItemIdRepairConfig} {scope : JsString}
  {kind : ℕ → Option RepairableItemType} {type : RepairableItemType} {index : ℕ}
  {before after : List Mention} {k l : ℕ} {rawId mapped : JsString} {item : Json}

theorem repairMentions_getElem? (state : ResponsesItemIdRepairState) (said : List Mention) (l : ℕ) :
    (repairMentions config scope state said).1[l]? = said[l]?.map fun mention ↦
      (repairMention config scope
        (repairMentions config scope state (said.take l)).2 mention).1 := by
  induction said generalizing state l with
  | nil => rfl
  | cons mention said ih =>
    cases l with
    | zero => rfl
    | succ l =>
      rw [repairMentions, take_succ_cons, repairMentions, getElem?_cons_succ,
        getElem?_cons_succ, ih]

theorem length_repairMentions (state : ResponsesItemIdRepairState) (said : List Mention) :
    (repairMentions config scope state said).1.length = said.length := by
  induction said generalizing state with
  | nil => rfl
  | cons mention said ih => rw [repairMentions, length_cons, length_cons, ih]

theorem OfKind.take (h : OfKind kind before) (l : ℕ) : OfKind kind (before.take l) :=
  fun index item hmem ↦ h index item (mem_of_mem_take hmem)

theorem OfKind.at (h : OfKind kind before) (hl : before[l]? = some (.item index item)) :
    repairableItemType item = kind index := h index item (mem_of_getElem? hl)

theorem tables_at (h : OfKind kind before) (l : ℕ) : Tables config scope kind (before.take l)
    (repairMentions config scope createRepairState (before.take l)).2 := by
  have := (@tables_start config scope kind).mentions (h.take l)
  rwa [nil_append] at this

theorem take_succ_of_getElem? {mention : Mention} (hl : before[l]? = some mention) :
    before.take (l + 1) = before.take l ++ [mention] := by
  rw [take_add_one, hl, toList_some]

theorem item_at (h : OfKind kind before) (hl : before[l]? = some (.item index item)) :
    (repairMentions config scope createRepairState before).1[l]? =
      some (.item index ((((repairableItemType item).bind fun type ↦
        firstAnnounced config scope type index (before.take (l + 1))).map
          fun first ↦ renamed config item first.2).getD item)) := by
  rw [repairMentions_getElem?, hl, map_some, repairMention, take_succ_of_getElem? hl,
    rewriteOutputItem_item (tables_at h l) (h.at hl)]

variable {eventType : RepairableItemType}

theorem ref_at (h : OfKind kind before) (hl : before[l]? = some (.ref index eventType (some rawId))) :
    (repairMentions config scope createRepairState before).1[l]? =
      some (.ref index eventType (some ((((kind index).bind fun type ↦
        firstAnnounced config scope type index (before.take l)).bind fun first ↦
          if rawId = first.1 ∧ first.1 ≠ first.2 then some first.2 else none).getD rawId))) := by
  rw [repairMentions_getElem?, hl, map_some, repairMention, (tables_at h l).raws]

theorem missing_ref_at (h : OfKind kind before) (hl : before[l]? = some (.ref index eventType none)) :
    (repairMentions config scope createRepairState before).1[l]? =
      some (.ref index eventType (if config.repairMissingTerminalIds then
        (firstAnnounced config scope eventType index (before.take l)).map Prod.snd else none)) := by
  rw [repairMentions_getElem?, hl, map_some, repairMention, (tables_at h l).ids]

end

end ItemIdRepair
