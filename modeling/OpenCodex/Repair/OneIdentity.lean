import OpenCodex.Repair.ItemIdentity

/-!
# An item keeps its id

From the first occurrence with an id that is mapped, every occurrence of an item that has an id, and
every event that names it by the id it was announced with, carries one id; two items never get the
same minted id.  The items of a completed response are repaired at the same positions when the
response comes alone.
-/

set_option autoImplicit false

open List Option

namespace ItemIdRepair

open Bridge (truthy)

section

variable (config : ResponsesItemIdRepairConfig) (scope : JsString)

/-- The first occurrence of an item with an id that is mapped. -/
structure FirstOccurrence (before : List Mention) (k : ℕ) (type : RepairableItemType) (index : ℕ)
    (rawId mapped : JsString) : Prop where
  occurs : ∃ item, before[k]? = some (.item index item) ∧ repairableItemType item = some type ∧
    truthy (idOf item) = some rawId
  maps : mappedId config scope type index rawId = some mapped
  first : firstAnnounced config scope type index (before.take k) = none

def Mention.index : Mention → ℕ
  | .item index _ => index
  | .ref index _ _ => index

/-- What a repair makes of the mentions of a stream. -/
structure OneIdentity (before after : List Mention) : Prop where
  length : after.length = before.length
  /-- From its first occurrence with an id that is mapped an item has one id. -/
  carried : ∀ {k type index rawId mapped},
    FirstOccurrence config scope before k type index rawId mapped →
      mapped = (if Repairs config type rawId then mintCanonicalId type scope index else rawId) ∧
      (∀ l item, k ≤ l → before[l]? = some (.item index item) →
        ∃ item', after[l]? = some (.item index item') ∧
          (idOf item' = some mapped ∨
            idOf item = none ∧ config.repairMissingTerminalIds = false ∧ item' = item)) ∧
      (∀ l eventType, k ≤ l → before[l]? = some (.ref index eventType (some rawId)) →
        after[l]? = some (.ref index eventType (some mapped))) ∧
      (∀ l, k ≤ l → config.repairMissingTerminalIds = true →
        before[l]? = some (.ref index type none) → after[l]? = some (.ref index type (some mapped)))
  /-- Until then, or without one, nothing changes. -/
  unnamed : ∀ {l mention}, before[l]? = some mention →
    (∀ type, firstAnnounced config scope type mention.index (before.take (l + 1)) = none) →
      after[l]? = some mention
  /-- An event with another id than that of the announcement stays. -/
  elsewhere : ∀ {l index eventType itemId},
    before[l]? = some (.ref index eventType (some itemId)) →
      (∀ type mapped, firstAnnounced config scope type index (before.take l) ≠
        some (itemId, mapped)) → after[l]? = some (.ref index eventType (some itemId))
  /-- An item of another type stays, whatever ids it has. -/
  other : ∀ {l index : ℕ} {item : Json}, before[l]? = some (.item index item) →
    repairableItemType item = none → after[l]? = some (.item index item)
  /-- Nothing but the id of an item changes. -/
  fields : ∀ {l index : ℕ} {item : Json}, before[l]? = some (.item index item) →
    ∃ item' : Json, after[l]? = some (.item index item') ∧
      ∀ name ≠ js "id", item'.field? name = item.field? name

variable {config scope} {kind : ℕ → Option RepairableItemType} {type : RepairableItemType}
  {index k l : ℕ} {before : List Mention} {rawId mapped : JsString} {item : Json}

/-! ## The first occurrence -/

theorem firstAnnounced_append (said later : List Mention) :
    firstAnnounced config scope type index (said ++ later) =
      (firstAnnounced config scope type index said).or
        (firstAnnounced config scope type index later) := findSome?_append

theorem FirstOccurrence.at (h : FirstOccurrence config scope before k type index rawId mapped)
    (hl : k < l) : firstAnnounced config scope type index (before.take l) =
      some (rawId, mapped) := by
  obtain ⟨item, hk, htype, hid⟩ := h.occurs
  have hnow : firstAnnounced config scope type index (before.take (k + 1)) =
      some (rawId, mapped) := by
    rw [take_succ_of_getElem? hk, firstAnnounced_concat, h.first, none_or,
      announced_self htype, hid, bind_some, h.maps]
    rfl
  obtain ⟨d, rfl⟩ : ∃ d, l = k + 1 + d := ⟨l - (k + 1), by omega⟩
  rw [take_add, firstAnnounced_append, hnow, some_or]

theorem FirstOccurrence.kind_eq (h : FirstOccurrence config scope before k type index rawId mapped)
    (hkind : OfKind kind before) : kind index = some type := by
  obtain ⟨item, hk, htype, -⟩ := h.occurs
  rw [← hkind.at hk, htype]

theorem FirstOccurrence.mapped_eq
    (h : FirstOccurrence config scope before k type index rawId mapped) :
    mapped = if Repairs config type rawId then mintCanonicalId type scope index else rawId := by
  have hmaps := h.maps
  rw [mappedId_eq] at hmaps
  split_ifs at hmaps ⊢
  · exact (some.inj hmaps).symm
  · exact (some.inj hmaps).symm

variable {first : JsString × JsString}

theorem exists_firstOccurrence (h : firstAnnounced config scope type index before = some first) :
    ∃ k, FirstOccurrence config scope before k type index first.1 first.2 := by
  obtain ⟨said, mention, later, hbefore, hmention, hsaid⟩ := findSome?_eq_some_iff.mp h
  have hat : before[said.length]? = some mention := by
    rw [hbefore, getElem?_append_right (le_refl _), Nat.sub_self]
    rfl
  have htake : before.take said.length = said := by rw [hbefore, take_left]
  refine ⟨said.length, ?_⟩
  cases mention with
  | ref _ _ _ => nomatch hmention
  | item i item =>
    rw [announced] at hmention
    split_ifs at hmention with hand
    obtain ⟨rfl, htype⟩ := hand
    obtain ⟨rawId, hid, hmapped⟩ := bind_eq_some_iff.mp hmention
    obtain ⟨mapped, hmaps, rfl⟩ := map_eq_some_iff.mp hmapped
    refine ⟨⟨item, hat, htype, hid⟩, hmaps, ?_⟩
    rw [htake]
    exact findSome?_eq_none_iff.mpr hsaid

/-! ## Renaming an item -/

theorem isObject_of_repairable (h : repairableItemType item = some type) :
    item.isObject = true := by
  cases item with
  | obj ms => rfl
  | _ => nomatch h

theorem idOf_renamed (h : repairableItemType item = some type) (mapped : JsString) :
    idOf (renamed config item mapped) = some mapped ∨
      idOf item = none ∧ config.repairMissingTerminalIds = false ∧
        renamed config item mapped = item := by
  rw [renamed]
  split_ifs with hsame hmissing
  · exact .inl hsame
  · exact .inr ⟨hmissing.1, hmissing.2, rfl⟩
  · left
    rw [idOf, Json.field?_setField_self (isObject_of_repairable h)]
    rfl

theorem field?_renamed (item : Json) (mapped : JsString) {name : JsString} (h : name ≠ js "id") :
    (renamed config item mapped).field? name = item.field? name := by
  rw [renamed]
  split_ifs
  · rfl
  · rfl
  · exact Json.field?_setField_of_ne _ _ h

/-! ## The mentions of a stream -/

/-- **Every item has one id** in the repaired mentions, where every index belongs to items of one
type. -/
theorem oneIdentity_repairMentions (hkind : OfKind kind before) : OneIdentity config scope before
      (repairMentions config scope createRepairState before).1 where
  length := length_repairMentions _ _
  carried := by
    intro k type index rawId mapped h
    have htype : ∀ (l : ℕ) (item : Json), before[l]? = some (.item index item) →
        repairableItemType item = some type := fun l item hl ↦ by rw [hkind.at hl, h.kind_eq hkind]
    have hlt : ∀ (l : ℕ) eventType itemId, k ≤ l →
        before[l]? = some (.ref index eventType itemId) → k < l := by
      intro l eventType itemId hkl hl
      obtain ⟨item, hk, -, -⟩ := h.occurs
      refine lt_of_le_of_ne hkl fun heq ↦ ?_
      rw [heq, hl] at hk
      nomatch hk
    refine ⟨h.mapped_eq, ?_, ?_, ?_⟩
    · intro l item hkl hl
      refine ⟨renamed config item mapped, ?_, idOf_renamed (htype l item hl) mapped⟩
      rw [item_at hkind hl, htype l item hl, bind_some, h.at (by omega)]
      rfl
    · intro l eventType hkl hl
      rw [ref_at hkind hl, h.kind_eq hkind, bind_some, h.at (hlt l _ _ hkl hl)]
      by_cases hsame : rawId = mapped
      · simp [hsame]
      · simp [hsame]
    · intro l hkl hmissing hl
      rw [missing_ref_at hkind hl, if_pos hmissing, h.at (hlt l _ _ hkl hl)]
      rfl
  unnamed := by
    intro l mention hl hnone
    cases mention with
    | item index item =>
      simp only [Mention.index] at hnone
      rw [item_at hkind hl]
      cases repairableItemType item with
      | none => rfl
      | some type => rw [bind_some, hnone type]; rfl
    | ref index eventType itemId =>
      have hnone' : ∀ type, firstAnnounced config scope type index (before.take l) = none := by
        intro type
        have := hnone type
        rw [take_succ_of_getElem? hl, firstAnnounced_concat] at this
        exact (or_eq_none_iff.mp this).1
      cases itemId with
      | some itemId =>
        rw [ref_at hkind hl]
        cases kind index with
        | none => rfl
        | some type => rw [bind_some, hnone' type]; rfl
      | none => rw [missing_ref_at hkind hl, hnone' eventType, map_none, ite_self]
  elsewhere := by
    intro l index eventType itemId hl hne
    rw [ref_at hkind hl]
    cases kind index with
    | none => rfl
    | some type =>
      rw [bind_some]
      cases hfirst : firstAnnounced config scope type index (before.take l) with
      | none => rfl
      | some first =>
        have hraw : itemId ≠ first.1 := by
          rintro rfl
          exact hne type first.2 hfirst
        rw [bind_some, if_neg fun hand ↦ hraw hand.1]
        rfl
  other := by
    intro l index item hl hnone
    rw [item_at hkind hl, hnone]
    rfl
  fields := by
    intro l index item hl
    refine ⟨_, item_at hkind hl, fun name hname ↦ ?_⟩
    cases (repairableItemType item).bind fun type ↦
        firstAnnounced config scope type index (before.take (l + 1)) with
    | none => rfl
    | some first => exact field?_renamed item first.2 hname

/-! ## Minted ids -/

theorem mintCanonicalId_inj (scope : JsString) {type type' : RepairableItemType} {index index' : ℕ}
    (h : mintCanonicalId type scope index = mintCanonicalId type' scope index') :
    type = type' ∧ index = index' := by
  have htype : type = type' := by
    have hhead := congrArg List.head? h
    cases type <;> cases type' <;> first | rfl | exact absurd hhead (by simp [mintCanonicalId,
      repairablePrefix, js])
  subst htype
  rw [mintCanonicalId, mintCanonicalId, append_right_inj] at h
  exact ⟨rfl, Json.decimal_injective h⟩

/-! ## A response that comes alone -/

theorem responseMentions_of_not_isObject {response : Json} (h : response.isObject = false) :
    responseMentions response = [] := by
  cases response with
  | obj ms => nomatch h
  | _ => rfl

theorem responseMentions_repairResponsesJsonItemIds (config : ResponsesItemIdRepairConfig)
    (scope : JsString) (response : Json) :
    responseMentions (repairResponsesJsonItemIds config scope response) =
      (repairMentions config scope createRepairState (responseMentions response)).1 := by
  rw [repairResponsesJsonItemIds]
  cases hobject : response.isObject with
  | false =>
    have hfield : response.field? (js "output") = none := by
      cases response with
      | obj ms => nomatch hobject
      | _ => rfl
    rw [responseMentions_of_not_isObject hobject]
    simp only [rewriteResponseSnapshot, hfield, Bool.false_eq_true, if_false,
      responseMentions_of_not_isObject hobject]
    rfl
  | true =>
    obtain ⟨hmentions, -, hsame⟩ := @rewriteResponseSnapshot_mentions config scope
      createRepairState response hobject
    rw [hmentions]
    dsimp only
    split_ifs with hchanged
    · rfl
    · rw [hsame (eq_false_of_ne_true hchanged)]

theorem mem_outputMentions {n : ℕ} {output : List Json} {mention : Mention}
    (h : mention ∈ outputMentions n output) :
    n ≤ mention.index ∧ ∃ item, mention = .item mention.index item ∧
      output[mention.index - n]? = some item := by
  induction output generalizing n with
  | nil => nomatch h
  | cons head output ih =>
    have hlater : mention ∈ outputMentions (n + 1) output →
        n ≤ mention.index ∧ ∃ item, mention = .item mention.index item ∧
          (head :: output)[mention.index - n]? = some item := by
      intro hmem
      obtain ⟨hle, item, hitem, hat⟩ := ih hmem
      refine ⟨by omega, item, hitem, ?_⟩
      rwa [show mention.index - n = (mention.index - (n + 1)) + 1 by omega, getElem?_cons_succ]
    rw [outputMentions] at h
    split_ifs at h
    · rcases mem_cons.mp h with rfl | hmem
      · exact ⟨le_refl _, head, rfl, by rw [Mention.index, Nat.sub_self]; rfl⟩
      · exact hlater hmem
    · exact hlater h

theorem outputMentions_pairwise (n : ℕ) (output : List Json) :
    (outputMentions n output).Pairwise fun said later ↦ said.index < later.index := by
  induction output generalizing n with
  | nil => exact .nil
  | cons head output ih =>
    rw [outputMentions]
    split_ifs
    · exact .cons (fun later hmem ↦ (mem_outputMentions hmem).1) (ih (n + 1))
    · exact ih (n + 1)

theorem exists_ofKind_responseMentions (response : Json) :
    ∃ kind, OfKind kind (responseMentions response) := by
  rw [responseMentions]
  split
  · rename_i output _
    refine ⟨fun i ↦ output[i]?.bind repairableItemType, fun index item hmem ↦ ?_⟩
    obtain ⟨-, item', heq, hat⟩ := mem_outputMentions hmem
    obtain ⟨-, rfl⟩ := Mention.item.inj heq
    rw [Mention.index, Nat.sub_zero] at hat
    dsimp only
    rw [hat, bind_some]
  · exact ⟨fun _ ↦ none, fun _ _ h ↦ by cases h⟩

theorem responseMentions_pairwise (response : Json) :
    (responseMentions response).Pairwise fun said later ↦ said.index < later.index := by
  rw [responseMentions]
  split
  · exact outputMentions_pairwise 0 _
  · exact .nil

theorem item_of_announced (hkind : OfKind kind before)
    (hl : before[l]? = some (.item index item)) (htype : repairableItemType item = some type)
    (hid : truthy (idOf item) = some rawId)
    (hsame : ∀ first, firstAnnounced config scope type index (before.take (l + 1)) = some first →
      first.1 = rawId) : (repairMentions config scope createRepairState before).1[l]? =
      some (.item index (if Repairs config type rawId
        then renamed config item (mintCanonicalId type scope index) else item)) := by
  have hidOf : idOf item = some rawId := (filter_eq_some_iff.mp hid).1
  rw [item_at hkind hl, htype, bind_some]
  cases hfirst : firstAnnounced config scope type index (before.take (l + 1)) with
  | some first =>
    obtain ⟨k, hoccurs⟩ := exists_firstOccurrence hfirst
    have hmapped := hoccurs.mapped_eq
    rw [hsame first hfirst] at hmapped
    rw [map_some, getD_some, hmapped]
    split_ifs with hrepairs
    · rfl
    · rw [renamed, if_pos hidOf]
  | none =>
    rw [take_succ_of_getElem? hl, firstAnnounced_concat, or_eq_none_iff,
      announced_self htype, hid, bind_some, map_eq_none_iff, mappedId_eq] at hfirst
    have hrepairs : ¬Repairs config type rawId := by
      intro hrepairs
      rw [if_pos hrepairs] at hfirst
      exact absurd hfirst.2 (by simp)
    rw [if_neg hrepairs]
    rfl

theorem firstAnnounced_of_pairwise
    (hpairwise : before.Pairwise fun said later ↦ said.index < later.index)
    (hl : before[l]? = some (.item index item))
    (h : firstAnnounced config scope type index (before.take (l + 1)) = some first) :
    truthy (idOf item) = some first.1 := by
  have hnone : firstAnnounced config scope type index (before.take l) = none := by
    have htake := hpairwise.sublist (take_sublist (l + 1) before)
    rw [take_succ_of_getElem? hl, pairwise_append] at htake
    refine findSome?_eq_none_iff.mpr fun mention hmem ↦ ?_
    have hlt := htake.2.2 mention hmem _ (mem_singleton_self _)
    cases mention with
    | item i item' => exact announced_other_index (Nat.ne_of_lt hlt) item'
    | ref i eventType itemId => rfl
  rw [take_succ_of_getElem? hl, firstAnnounced_concat, hnone, none_or, announced] at h
  split_ifs at h
  obtain ⟨rawId, hid, hmapped⟩ := bind_eq_some_iff.mp h
  obtain ⟨mapped, -, rfl⟩ := map_eq_some_iff.mp hmapped
  exact hid

/-! ## The streams and the responses -/

/-- **Every item has one identity.**  From the first occurrence of an item with an id that is mapped
(one that needs repair, or any where missing ids are repaired), all its occurrences in the repaired
stream carry one id; the minted ids of different items are different; and a response that is
repaired alone has the items minted that a stream mints under the ids they have in the response. -/
theorem one_identity (config : ResponsesItemIdRepairConfig) (scope scope' : JsString)
    (payloads : List JsString) (response : Json) (kind : ℕ → Option RepairableItemType)
    (hkind : OfKind kind (payloads.flatMap payloadMentions)) :
    let before := payloads.flatMap payloadMentions
    let after := (createResponsesItemIdPayloadRewrite config scope payloads).flatMap payloadMentions
    let json := responseMentions (repairResponsesJsonItemIds config scope' response)
    OneIdentity config scope before after ∧
      OneIdentity config scope' (responseMentions response) json ∧
      (∀ type type' index index', mintCanonicalId type scope index =
        mintCanonicalId type' scope index' → type = type' ∧ index = index') ∧
      ∀ (l j index : ℕ) (item : Json) (type : RepairableItemType) (rawId : JsString),
        before[l]? = some (.item index item) →
        (responseMentions response)[j]? = some (.item index item) →
        repairableItemType item = some type → truthy (idOf item) = some rawId →
        (∀ first, firstAnnounced config scope type index (before.take (l + 1)) = some first →
          first.1 = rawId) →
        after[l]? = some (.item index (if Repairs config type rawId
            then renamed config item (mintCanonicalId type scope index) else item)) ∧
          json[j]? = some (.item index (if Repairs config type rawId
            then renamed config item (mintCanonicalId type scope' index) else item)) := by
  dsimp only
  obtain ⟨kind', hkind'⟩ := exists_ofKind_responseMentions response
  rw [createResponsesItemIdPayloadRewrite, mentions_rewriteAll,
    responseMentions_repairResponsesJsonItemIds]
  refine ⟨oneIdentity_repairMentions hkind, oneIdentity_repairMentions hkind',
    fun type type' index index' ↦ mintCanonicalId_inj scope,
    fun l j index item type rawId hl hj htype hid hsame ↦
      ⟨item_of_announced hkind hl htype hid hsame, item_of_announced hkind' hj htype hid ?_⟩⟩
  intro first hfirst
  have hraw := firstAnnounced_of_pairwise (responseMentions_pairwise response) hj hfirst
  exact some.inj (hraw.symm.trans hid)

def Mention.fits (kind : ℕ → Option RepairableItemType) : Mention → Bool
  | .item index item => repairableItemType item = kind index
  | .ref _ _ _ => true

instance (kind : ℕ → Option RepairableItemType) (said : List Mention) :
    Decidable (OfKind kind said) :=
  decidable_of_iff (∀ mention ∈ said, mention.fits kind = true)
    ⟨fun h index item hmem ↦ of_decide_eq_true (h _ hmem), fun h mention hmem ↦ by
      cases mention with
      | item index item => exact decide_eq_true (h index item hmem)
      | ref index eventType itemId => rfl⟩

/-- The id that a mention has or names. -/
def Mention.itemId : Mention → Option JsString
  | .item _ item => idOf item
  | .ref _ _ itemId => itemId

/-- An event about a message, with its id. -/
def messageEvent (type : JsString) (index : ℕ) (id : JsString) : JsString :=
  (Json.Doc.obj [(js "type", .str type), (js "output_index", .nat index),
    (js "item", .obj [(js "type", .str (js "message")), (js "id", .str id)])]).render

def deltaEvent (index : ℕ) (id : JsString) : JsString :=
  (Json.Doc.obj [(js "type", .str (js "response.output_text.delta")),
    (js "output_index", .nat index), (js "item_id", .str id)]).render

/-- A gateway that calls every message by one placeholder. -/
def placeholderConfig : ResponsesItemIdRepairConfig := ⟨[js "msg_0"], [], false, false⟩

/-- Two messages with one placeholder. -/
def sharedPlaceholder : List JsString :=
  [messageEvent (js "response.output_item.added") 0 (js "msg_0"), deltaEvent 0 (js "msg_0"),
    messageEvent (js "response.output_item.added") 1 (js "msg_0"), deltaEvent 1 (js "msg_0")]

/-- Each of them has an id of its own. -/
theorem shared_placeholder_repaired :
    OneIdentity placeholderConfig (js "s") (sharedPlaceholder.flatMap payloadMentions)
        ((createResponsesItemIdPayloadRewrite placeholderConfig (js "s")
          sharedPlaceholder).flatMap payloadMentions) ∧
      ((createResponsesItemIdPayloadRewrite placeholderConfig (js "s")
        sharedPlaceholder).flatMap payloadMentions).map Mention.itemId =
          [some (js "msg_ocx_s_0"), some (js "msg_ocx_s_0"), some (js "msg_ocx_s_1"),
            some (js "msg_ocx_s_1")] :=
  ⟨(one_identity placeholderConfig (js "s") (js "t") sharedPlaceholder (.obj [])
    (fun _ ↦ some .message) (by decide +kernel)).1, by decide +kernel⟩

/-- A message that has the placeholder only at its end keeps its first id at its start. -/
theorem late_placeholder_repaired : OfKind (fun _ ↦ some .message)
        ([messageEvent (js "response.output_item.added") 0 (js "msg_a"),
          messageEvent (js "response.output_item.done") 0 (js "msg_0")].flatMap payloadMentions) ∧
      ((createResponsesItemIdPayloadRewrite placeholderConfig (js "s")
        [messageEvent (js "response.output_item.added") 0 (js "msg_a"),
          messageEvent (js "response.output_item.done") 0 (js "msg_0")]).flatMap
            payloadMentions).map Mention.itemId = [some (js "msg_a"), some (js "msg_ocx_s_0")] := by
  decide +kernel

end

end ItemIdRepair
