import OpenCodex.Data.JsonDoc
import OpenCodex.Data.OMap
import OpenCodex.Sse.Payload

/-!
# Item ids that a gateway reuses, leaves out or misspells

Some gateways give every message of a stream the same placeholder id, ids in a form of their own, or
none at the end.  The repair gives such an item an id that is minted from the type and the output
index of the item, and remembers it in two tables: by type and index, and by index and the id that
the item was announced with, for the events that name an item by its id.

What an event says about items is a list of `Mention`s, in the order in which the repair looks at
them.  Repairing an event is repairing its mentions one by one (`mentions_repairEvent`), and so is
repairing a stream of payloads (`mentions_rewriteAll`).
-/

set_option autoImplicit false

open Option Json

namespace ItemIdRepair

open Bridge (truthy)
open Sse (stringOf)

/-! ## The repair -/

inductive RepairableItemType where
  | message
  | reasoning
  deriving DecidableEq

structure ResponsesItemIdRepairConfig where
  message : List JsString
  reasoning : List JsString
  repairMissingTerminalIds : Bool
  repairInvalidIds : Bool

def ResponsesItemIdRepairConfig.placeholders (config : ResponsesItemIdRepairConfig) :
    RepairableItemType → List JsString
  | .message => config.message
  | .reasoning => config.reasoning

/-- What changes of the state; the configuration and the scope are passed along. -/
structure ResponsesItemIdRepairState where
  /-- `outputIds[type]`, by type and index. -/
  outputIds : OMap (RepairableItemType × ℕ) JsString
  /-- By index and raw id, whose JSON is the key in the source. -/
  rawIds : OMap (ℕ × JsString) JsString

def repairablePrefix : RepairableItemType → JsString
  | .message => js "msg_"
  | .reasoning => js "rs_"

def messageEventTypes : List JsString :=
  [js "response.content_part.added", js "response.content_part.done",
    js "response.output_text.annotation.added", js "response.output_text.delta",
    js "response.output_text.done", js "response.refusal.delta", js "response.refusal.done"]

def reasoningEventTypes : List JsString :=
  [js "response.reasoning_summary_part.added", js "response.reasoning_summary_part.done",
    js "response.reasoning_summary_text.delta", js "response.reasoning_summary_text.done",
    js "response.reasoning_text.delta", js "response.reasoning_text.done"]

/-- `ITEM_ID_EVENT_TYPES[type]` -/
def itemIdEventType (type : JsString) : Option RepairableItemType :=
  if messageEventTypes.contains type then some .message
  else if reasoningEventTypes.contains type then some .reasoning
  else none

def asOutputIndex : Option Json → Option ℕ
  | some (.num q) => if q.den = 1 ∧ 0 ≤ q then some q.num.toNat else none
  | _ => none

def repairableItemType (item : Json) : Option RepairableItemType :=
  let type := stringOf (item.field? (js "type"))
  if type = some (js "message") then some .message
  else if type = some (js "reasoning") then some .reasoning
  else none

def mintCanonicalId (type : RepairableItemType) (scope : JsString) (outputIndex : ℕ) : JsString :=
  repairablePrefix type ++ js "ocx_" ++ scope ++ js "_" ++ Json.decimal outputIndex

def createRepairState : ResponsesItemIdRepairState := ⟨.empty, .empty⟩

/-- The `id` of an item, if it is a string. -/
def idOf (item : Json) : Option JsString := stringOf (item.field? (js "id"))

section

variable (config : ResponsesItemIdRepairConfig) (scope : JsString)

/-- What an item with this id is to be called, if it is called anything else or is remembered. -/
def mappedId (type : RepairableItemType) (outputIndex : ℕ) (rawId : JsString) : Option JsString :=
  if (config.placeholders type).contains rawId then some (mintCanonicalId type scope outputIndex)
  else if config.repairInvalidIds && !(repairablePrefix type).isPrefixOf rawId then
    some (mintCanonicalId type scope outputIndex)
  else if config.repairMissingTerminalIds then some rawId
  else none

/-- The first id of an item that is mapped stays; no stored id is empty. -/
def rememberMappedId (state : ResponsesItemIdRepairState) (outputIndex : ℕ) (item : Json) :
    Option JsString × ResponsesItemIdRepairState :=
  match repairableItemType item with
  | none => (none, state)
  | some type =>
    match state.outputIds.get? (type, outputIndex) with
    | some existing => (some existing, state)
    | none =>
      match truthy (idOf item) with
      | none => (none, state)
      | some rawId =>
        match mappedId config scope type outputIndex rawId with
        | none => (none, state)
        | some mapped => (some mapped,
          { outputIds := state.outputIds.set (type, outputIndex) mapped
            rawIds := if rawId ≠ mapped then state.rawIds.set (outputIndex, rawId) mapped
              else state.rawIds })

/-- The item, and whether it was changed. -/
def rewriteOutputItem (state : ResponsesItemIdRepairState) (outputIndex : ℕ) (item : Json) :
    (Json × Bool) × ResponsesItemIdRepairState :=
  let (mapped?, state) := rememberMappedId config scope state outputIndex item
  match mapped? with
  | none => ((item, false), state)
  | some mapped =>
    if idOf item = some mapped then ((item, false), state)
    else if idOf item = none ∧ config.repairMissingTerminalIds = false then ((item, false), state)
    else ((item.setField (js "id") (.str mapped), true), state)

/-- The `item_id` of an event that is about an item. -/
def rewriteItemIdField (state : ResponsesItemIdRepairState) (event : Json) (outputIndex : ℕ) :
    Json × Bool :=
  match (stringOf (event.field? (js "type"))).bind itemIdEventType with
  | none => (event, false)
  | some eventType =>
    match stringOf (event.field? (js "item_id")) with
    | some currentId =>
      match state.rawIds.get? (outputIndex, currentId) with
      | none => (event, false)
      | some mapped =>
        if currentId = mapped then (event, false)
        else (event.setField (js "item_id") (.str mapped), true)
    | none =>
      if config.repairMissingTerminalIds = false then (event, false)
      else
        match state.outputIds.get? (eventType, outputIndex) with
        | none => (event, false)
        | some mapped => (event.setField (js "item_id") (.str mapped), true)

/-- `response.output.map(…)`, from an index on. -/
def rewriteOutput : ResponsesItemIdRepairState → ℕ → List Json →
    (List Json × Bool) × ResponsesItemIdRepairState
  | state, _, [] => (([], false), state)
  | state, outputIndex, item :: output =>
    let r :=
      if item.isObject then rewriteOutputItem config scope state outputIndex item
      else ((item, false), state)
    let later := rewriteOutput r.2 (outputIndex + 1) output
    ((r.1.1 :: later.1.1, r.1.2 || later.1.2), later.2)

def rewriteResponseSnapshot (state : ResponsesItemIdRepairState) (response : Json) :
    (Json × Bool) × ResponsesItemIdRepairState :=
  match response.field? (js "output") with
  | some (.arr output) =>
    let r := rewriteOutput config scope state 0 output
    if r.1.2 then ((response.setField (js "output") (.arr r.1.1), true), r.2)
    else ((response, false), r.2)
  | _ => ((response, false), state)

/-- The first part of `repairEventPayload`: the item of an event. -/
def repairItem (state : ResponsesItemIdRepairState) (outputIndex : Option ℕ) (event : Json) :
    (Json × Bool) × ResponsesItemIdRepairState :=
  match outputIndex with
  | none => ((event, false), state)
  | some index =>
    match (event.field? (js "item")).filter isObject with
    | none => ((event, false), state)
    | some item =>
      let r := rewriteOutputItem config scope state index item
      if r.1.2 then ((event.setField (js "item") r.1.1, true), r.2) else ((event, false), r.2)

/-- The second part: its `item_id`. -/
def repairItemId (state : ResponsesItemIdRepairState) (outputIndex : Option ℕ) (event : Json) :
    Json × Bool :=
  match outputIndex with
  | none => (event, false)
  | some index => rewriteItemIdField config state event index

/-- The third part: its response. -/
def repairResponse (state : ResponsesItemIdRepairState) (event : Json) :
    (Json × Bool) × ResponsesItemIdRepairState :=
  match (event.field? (js "response")).filter isObject with
  | none => ((event, false), state)
  | some response =>
    let r := rewriteResponseSnapshot config scope state response
    if r.1.2 then ((event.setField (js "response") r.1.1, true), r.2) else ((event, false), r.2)

def repairEvent (state : ResponsesItemIdRepairState) (event : Json) :
    (Json × Bool) × ResponsesItemIdRepairState :=
  let outputIndex := asOutputIndex (event.field? (js "output_index"))
  let first := repairItem config scope state outputIndex event
  let second := repairItemId config first.2 outputIndex first.1.1
  let third := repairResponse config scope first.2 second.1
  ((third.1.1, first.1.2 || second.2 || third.1.2), third.2)

def repairEventPayload (payload : JsString) (state : ResponsesItemIdRepairState) :
    JsString × ResponsesItemIdRepairState :=
  match (Json.parse payload).filter isObject with
  | none => (payload, state)
  | some event =>
    let r := repairEvent config scope state event
    (if r.1.2 then r.1.1.stringify else payload, r.2)

/-- `createResponsesItemIdPayloadRewrite`, applied to the payloads of a stream. -/
def rewriteAll : ResponsesItemIdRepairState → List JsString → List JsString
  | _, [] => []
  | state, payload :: payloads =>
    (repairEventPayload config scope payload state).1 ::
      rewriteAll (repairEventPayload config scope payload state).2 payloads

def createResponsesItemIdPayloadRewrite (payloads : List JsString) : List JsString :=
  rewriteAll config scope createRepairState payloads

def repairResponsesJsonItemIds (response : Json) : Json :=
  let r := rewriteResponseSnapshot config scope createRepairState response
  if r.1.2 then r.1.1 else response

end

/-! ## Mentions -/

/-- What an event says about the item at an index. -/
inductive Mention where
  /-- The item itself. -/
  | item (index : ℕ) (item : Json)
  /-- A part of it, or a piece of one, that names it or does not. -/
  | ref (index : ℕ) (eventType : RepairableItemType) (itemId : Option JsString)

def itemMention (event : Json) : List Mention :=
  match asOutputIndex (event.field? (js "output_index")),
    (event.field? (js "item")).filter isObject with
  | some index, some item => [.item index item]
  | _, _ => []

def refMention (event : Json) : List Mention :=
  match asOutputIndex (event.field? (js "output_index")),
    (stringOf (event.field? (js "type"))).bind itemIdEventType with
  | some index, some eventType => [.ref index eventType (stringOf (event.field? (js "item_id")))]
  | _, _ => []

/-- The items of a list, from an index on. -/
def outputMentions : ℕ → List Json → List Mention
  | _, [] => []
  | index, item :: output =>
    if item.isObject then .item index item :: outputMentions (index + 1) output
    else outputMentions (index + 1) output

/-- The items of a response. -/
def responseMentions (response : Json) : List Mention :=
  match response.field? (js "output") with
  | some (.arr output) => outputMentions 0 output
  | _ => []

def snapshotMentions (event : Json) : List Mention :=
  match (event.field? (js "response")).filter isObject with
  | none => []
  | some response => responseMentions response

def mentions (event : Json) : List Mention :=
  itemMention event ++ (refMention event ++ snapshotMentions event)

/-- The mentions of a payload. -/
def payloadMentions (payload : JsString) : List Mention :=
  ((Json.parse payload).map mentions).getD []

section

variable (config : ResponsesItemIdRepairConfig) (scope : JsString)

def repairMention (state : ResponsesItemIdRepairState) : Mention →
    Mention × ResponsesItemIdRepairState
  | .item index item =>
    let r := rewriteOutputItem config scope state index item
    (.item index r.1.1, r.2)
  | .ref index eventType (some itemId) =>
    (.ref index eventType (some ((state.rawIds.get? (index, itemId)).getD itemId)), state)
  | .ref index eventType none =>
    (.ref index eventType (if config.repairMissingTerminalIds
      then state.outputIds.get? (eventType, index) else none), state)

def repairMentions : ResponsesItemIdRepairState → List Mention →
    List Mention × ResponsesItemIdRepairState
  | state, [] => ([], state)
  | state, mention :: later =>
    let r := repairMention config scope state mention
    let rest := repairMentions r.2 later
    (r.1 :: rest.1, rest.2)

variable {config scope}

theorem repairMentions_append (state : ResponsesItemIdRepairState) (l m : List Mention) :
    repairMentions config scope state (l ++ m) = ((repairMentions config scope state l).1 ++
        (repairMentions config scope (repairMentions config scope state l).2 m).1,
        (repairMentions config scope (repairMentions config scope state l).2 m).2) := by
  induction l generalizing state with
  | nil => rfl
  | cons mention l ih => rw [List.cons_append, repairMentions, ih]; rfl

/-! ### The parts of an event -/

variable {name : JsString}

theorem itemMention_setField (event : Json) (value : Json) (hindex : js "output_index" ≠ name)
    (hitem : js "item" ≠ name) : itemMention (event.setField name value) = itemMention event := by
  rw [itemMention, field?_setField_of_ne _ _ hindex, field?_setField_of_ne _ _ hitem]
  rfl

theorem refMention_setField (event : Json) (value : Json) (hindex : js "output_index" ≠ name)
    (htype : js "type" ≠ name) (hid : js "item_id" ≠ name) :
    refMention (event.setField name value) = refMention event := by
  rw [refMention, field?_setField_of_ne _ _ hindex, field?_setField_of_ne _ _ htype,
    field?_setField_of_ne _ _ hid]
  rfl

theorem snapshotMentions_setField (event : Json) (value : Json) (hresponse : js "response" ≠ name) :
    snapshotMentions (event.setField name value) = snapshotMentions event := by
  rw [snapshotMentions, field?_setField_of_ne _ _ hresponse]
  rfl

theorem stringOf_str (s : JsString) : stringOf (some (.str s)) = some s := rfl

variable {state : ResponsesItemIdRepairState} {index : ℕ}

variable {item : Json}

theorem rewriteOutputItem_same (h : (rewriteOutputItem config scope state index item).1.2 = false) :
    (rewriteOutputItem config scope state index item).1.1 = item := by
  rw [rewriteOutputItem] at h ⊢
  dsimp only at h ⊢
  split at h
  · rfl
  · split_ifs at h ⊢ <;> rfl

theorem isObject_rewriteOutputItem (state : ResponsesItemIdRepairState) (index : ℕ) (item : Json) :
    (rewriteOutputItem config scope state index item).1.1.isObject = item.isObject := by
  rw [rewriteOutputItem]
  dsimp only
  split
  · rfl
  · split_ifs
    · rfl
    · rfl
    · exact isObject_setField _ _ _

theorem repairItem_mentions (state : ResponsesItemIdRepairState) (event : Json) :
    let r := repairItem config scope state (asOutputIndex (event.field? (js "output_index"))) event
    repairMentions config scope state (itemMention event) = (itemMention r.1.1, r.2) ∧
      refMention r.1.1 = refMention event ∧ snapshotMentions r.1.1 = snapshotMentions event ∧
        r.1.1.field? (js "output_index") = event.field? (js "output_index") := by
  dsimp only
  cases hindex : asOutputIndex (event.field? (js "output_index")) with
  | none => exact ⟨by simp [repairItem, itemMention, hindex, repairMentions], rfl, rfl, rfl⟩
  | some index =>
    cases hitem : (event.field? (js "item")).filter isObject with
    | none => exact ⟨by simp [repairItem, itemMention, hindex, hitem, repairMentions],
        by simp [repairItem, hitem], by simp [repairItem, hitem], by simp [repairItem, hitem]⟩
    | some item =>
      obtain ⟨hfield, hobject⟩ := filter_eq_some_iff.mp hitem
      have hevent : event.isObject = true := by
        cases event with
        | obj ms => rfl
        | _ => nomatch hfield
      have hmentions : repairMentions config scope state (itemMention event) =
          ([.item index (rewriteOutputItem config scope state index item).1.1],
            (rewriteOutputItem config scope state index item).2) := by
        simp only [itemMention, hindex, hitem, repairMentions, repairMention]
      rw [hmentions]
      simp only [repairItem, hitem]
      split_ifs with hchanged
      · refine ⟨?_, refMention_setField _ _ (by decide) (by decide) (by decide),
          snapshotMentions_setField _ _ (by decide), field?_setField_of_ne _ _ (by decide)⟩
        rw [itemMention, field?_setField_of_ne _ _ (by decide), hindex,
          field?_setField_self hevent, filter_some,
          isObject_rewriteOutputItem, hobject]
        rfl
      · rw [rewriteOutputItem_same (eq_false_of_ne_true hchanged)]
        refine ⟨?_, rfl, rfl, rfl⟩
        rw [itemMention, hindex, hitem]

variable {event : Json}

theorem repairItemId_mentions (state : ResponsesItemIdRepairState) (hevent : event.isObject = true) :
    let r := repairItemId config state (asOutputIndex (event.field? (js "output_index"))) event
    repairMentions config scope state (refMention event) = (refMention r.1, state) ∧
      itemMention r.1 = itemMention event ∧ snapshotMentions r.1 = snapshotMentions event := by
  dsimp only
  cases hindex : asOutputIndex (event.field? (js "output_index")) with
  | none =>
    refine ⟨?_, rfl, rfl⟩
    simp [repairItemId, refMention, hindex, repairMentions]
  | some index =>
    have hset : ∀ mapped, refMention (event.setField (js "item_id") (.str mapped)) =
        match (stringOf (event.field? (js "type"))).bind itemIdEventType with
        | none => []
        | some eventType => [.ref index eventType (some mapped)] := by
      intro mapped
      rw [refMention, field?_setField_of_ne _ _ (by decide), hindex,
        field?_setField_of_ne _ _ (by decide), field?_setField_self hevent,
        stringOf_str]
      cases (stringOf (event.field? (js "type"))).bind itemIdEventType <;> rfl
    have hother : ∀ mapped, itemMention (event.setField (js "item_id") (.str mapped)) =
        itemMention event ∧ snapshotMentions (event.setField (js "item_id") (.str mapped)) =
          snapshotMentions event := fun mapped ↦
      ⟨itemMention_setField _ _ (by decide) (by decide), snapshotMentions_setField _ _ (by decide)⟩
    rw [repairItemId, rewriteItemIdField]
    cases htype : (stringOf (event.field? (js "type"))).bind itemIdEventType with
    | none =>
      refine ⟨?_, rfl, rfl⟩
      simp [refMention, hindex, htype, repairMentions]
    | some eventType =>
      simp only [htype] at hset ⊢
      cases hid : stringOf (event.field? (js "item_id")) with
      | some itemId =>
        have hmentions : refMention event = [.ref index eventType (some itemId)] := by
          simp only [refMention, hindex, htype, hid]
        rw [hmentions]
        simp only [repairMentions, repairMention]
        cases hraw : state.rawIds.get? (index, itemId) with
        | none => exact ⟨by rw [hmentions]; rfl, rfl, rfl⟩
        | some mapped =>
          dsimp only [getD_some]
          split_ifs with hsame
          · exact ⟨by rw [hmentions, hsame], rfl, rfl⟩
          · exact ⟨by rw [hset], hother mapped⟩
      | none =>
        have hmentions : refMention event = [.ref index eventType none] := by
          simp only [refMention, hindex, htype, hid]
        rw [hmentions]
        simp only [repairMentions, repairMention]
        cases hmissing : config.repairMissingTerminalIds with
        | false => exact ⟨by simp [hmentions], rfl, rfl⟩
        | true =>
          cases hmapped : state.outputIds.get? (eventType, index) with
          | none => exact ⟨by simp [hmentions], by simp, by simp⟩
          | some mapped => exact ⟨by simp [hset], by simpa using hother mapped⟩

variable {output : List Json}

theorem rewriteOutput_same (h : (rewriteOutput config scope state index output).1.2 = false) :
    (rewriteOutput config scope state index output).1.1 = output := by
  induction output generalizing state index with
  | nil => rfl
  | cons item output ih =>
    simp only [rewriteOutput] at h ⊢
    obtain ⟨hitem, houtput⟩ := Bool.or_eq_false_iff.mp h
    rw [ih houtput]
    split_ifs at hitem ⊢
    · rw [rewriteOutputItem_same hitem]
    · rfl

theorem rewriteOutput_mentions (state : ResponsesItemIdRepairState) (index : ℕ)
    (output : List Json) : repairMentions config scope state (outputMentions index output) =
      (outputMentions index (rewriteOutput config scope state index output).1.1,
        (rewriteOutput config scope state index output).2) := by
  induction output generalizing state index with
  | nil => rfl
  | cons item output ih =>
    simp only [rewriteOutput, outputMentions]
    cases hobject : item.isObject with
    | false =>
      simp only [Bool.false_eq_true, if_false, hobject]
      exact ih state (index + 1)
    | true =>
      simp only [if_true, isObject_rewriteOutputItem, hobject, repairMentions, repairMention]
      rw [ih]

theorem rewriteResponseSnapshot_mentions (state : ResponsesItemIdRepairState) {response : Json}
    (hresponse : response.isObject = true) :
    let r := rewriteResponseSnapshot config scope state response
    repairMentions config scope state (responseMentions response) =
      (responseMentions r.1.1, r.2) ∧ r.1.1.isObject = true ∧
        (r.1.2 = false → r.1.1 = response) := by
  dsimp only
  rw [responseMentions, rewriteResponseSnapshot]
  split
  · rename_i output houtput
    rw [rewriteOutput_mentions]
    dsimp only
    split_ifs with hchanged
    · refine ⟨?_, (isObject_setField _ _ _).trans hresponse, nofun⟩
      rw [responseMentions, field?_setField_self hresponse]
    · rw [rewriteOutput_same (eq_false_of_ne_true hchanged)]
      refine ⟨?_, hresponse, fun _ ↦ rfl⟩
      rw [responseMentions, houtput]
  · rename_i hnone
    refine ⟨?_, hresponse, fun _ ↦ rfl⟩
    rw [responseMentions]
    split
    · rename_i output houtput
      exact absurd houtput (hnone output)
    · rfl

theorem repairResponse_mentions (state : ResponsesItemIdRepairState)
    (hevent : event.isObject = true) :
    let r := repairResponse config scope state event
    repairMentions config scope state (snapshotMentions event) = (snapshotMentions r.1.1, r.2) ∧
      itemMention r.1.1 = itemMention event ∧ refMention r.1.1 = refMention event := by
  dsimp only
  rw [repairResponse, snapshotMentions]
  cases hresponse : (event.field? (js "response")).filter isObject with
  | none =>
    refine ⟨?_, rfl, rfl⟩
    rw [snapshotMentions, hresponse]
    rfl
  | some response =>
    obtain ⟨-, hobject⟩ := filter_eq_some_iff.mp hresponse
    obtain ⟨hmentions, hobject', hsame⟩ :=
      @rewriteResponseSnapshot_mentions config scope state response hobject
    dsimp only
    rw [hmentions]
    split_ifs with hchanged
    · refine ⟨?_, itemMention_setField _ _ (by decide) (by decide),
        refMention_setField _ _ (by decide) (by decide) (by decide)⟩
      rw [snapshotMentions, field?_setField_self hevent, filter_some, if_pos hobject']
    · rw [hsame (eq_false_of_ne_true hchanged)]
      refine ⟨?_, rfl, rfl⟩
      rw [snapshotMentions, hresponse]

theorem isObject_repairItem (state : ResponsesItemIdRepairState) (index : Option ℕ)
    (event : Json) : (repairItem config scope state index event).1.1.isObject = event.isObject := by
  cases index with
  | none => rfl
  | some index =>
    rw [repairItem]
    split
    · rfl
    · dsimp only
      split_ifs
      · exact isObject_setField _ _ _
      · rfl

theorem isObject_repairItemId (state : ResponsesItemIdRepairState) (index : Option ℕ)
    (event : Json) : (repairItemId config state index event).1.isObject = event.isObject := by
  cases index with
  | none => rfl
  | some index =>
    rw [repairItemId, rewriteItemIdField]
    split
    · rfl
    · split
      · split
        · rfl
        · split_ifs
          · rfl
          · exact isObject_setField _ _ _
      · split_ifs
        · rfl
        · split
          · rfl
          · exact isObject_setField _ _ _

/-- **Repairing an event repairs its mentions**, one after the other. -/
theorem mentions_repairEvent (state : ResponsesItemIdRepairState) (hevent : event.isObject = true) :
    repairMentions config scope state (mentions event) =
      (mentions (repairEvent config scope state event).1.1,
        (repairEvent config scope state event).2) := by
  obtain ⟨hitem, href, hsnapshot, hindex⟩ := @repairItem_mentions config scope state event
  have hfirst := (@isObject_repairItem config scope state
    (asOutputIndex (event.field? (js "output_index"))) event).trans hevent
  rw [repairEvent]
  dsimp only
  generalize repairItem config scope state (asOutputIndex (event.field? (js "output_index")))
    event = first at hitem href hsnapshot hindex hfirst ⊢
  obtain ⟨href', hitem', hsnapshot'⟩ := @repairItemId_mentions config scope first.1.1 first.2 hfirst
  have hsecond := (@isObject_repairItemId config first.2
    (asOutputIndex (first.1.1.field? (js "output_index"))) first.1.1).trans hfirst
  rw [hindex] at href' hitem' hsnapshot' hsecond
  generalize repairItemId config first.2 (asOutputIndex (event.field? (js "output_index")))
    first.1.1 = second at href' hitem' hsnapshot' hsecond ⊢
  obtain ⟨hsnapshot'', hitem'', href''⟩ :=
    @repairResponse_mentions config scope second.1 first.2 hsecond
  rw [mentions, mentions, repairMentions_append, hitem, repairMentions_append, ← href, href',
    ← hsnapshot, ← hsnapshot', hsnapshot'', hitem'', hitem', href'']

/-! ### The payloads of a stream -/

theorem mentions_of_not_isObject (h : event.isObject = false) : mentions event = [] := by
  have hfield : ∀ name, event.field? name = none := by
    intro name
    cases event with
    | obj ms => nomatch h
    | _ => rfl
  simp [mentions, itemMention, refMention, snapshotMentions, hfield, asOutputIndex]

theorem Decimal_rewriteOutputItem (h : item.Decimal) :
    (rewriteOutputItem config scope state index item).1.1.Decimal := by
  rw [rewriteOutputItem]
  dsimp only
  split
  · exact h
  · split_ifs
    · exact h
    · exact h
    · exact h.setField (.str _) _

theorem Decimal_rewriteOutput (h : ∀ v ∈ output, v.Decimal) :
    ∀ v ∈ (rewriteOutput config scope state index output).1.1, v.Decimal := by
  induction output generalizing state index with
  | nil => exact h
  | cons item output ih =>
    obtain ⟨hitem, houtput⟩ := List.forall_mem_cons.mp h
    refine List.forall_mem_cons.mpr ⟨?_, ih houtput⟩
    split_ifs
    · exact Decimal_rewriteOutputItem hitem
    · exact hitem

theorem Decimal_repairEvent (h : event.Decimal) :
    (repairEvent config scope state event).1.1.Decimal := by
  have hitem : ∀ index, (repairItem config scope state index event).1.1.Decimal := by
    intro index
    cases index with
    | none => exact h
    | some index =>
      rw [repairItem]
      split
      · exact h
      · rename_i item hfield
        dsimp only
        split_ifs
        · exact h.setField (Decimal_rewriteOutputItem (h.field? (filter_eq_some_iff.mp hfield).1)) _
        · exact h
  have hid : ∀ (state : ResponsesItemIdRepairState) (index : Option ℕ) (event : Json),
      event.Decimal → (repairItemId config state index event).1.Decimal := by
    intro state index event h
    cases index with
    | none => exact h
    | some index =>
      rw [repairItemId, rewriteItemIdField]
      split
      · exact h
      · split
        · split
          · exact h
          · split_ifs
            · exact h
            · exact h.setField (.str _) _
        · split_ifs
          · exact h
          · split
            · exact h
            · exact h.setField (.str _) _
  have hresponse : ∀ (state : ResponsesItemIdRepairState) (event : Json),
      event.Decimal → (repairResponse config scope state event).1.1.Decimal := by
    intro state event h
    rw [repairResponse]
    split
    · exact h
    · rename_i response hfield
      have hdecimal := h.field? (filter_eq_some_iff.mp hfield).1
      dsimp only
      split_ifs
      · refine h.setField ?_ _
        rw [rewriteResponseSnapshot]
        split
        · rename_i output houtput
          dsimp only
          split_ifs
          · refine hdecimal.setField (.arr (Decimal_rewriteOutput ?_)) _
            cases hdecimal.field? houtput with
            | arr h => exact h
          · exact hdecimal
        · exact hdecimal
      · exact h
  exact hresponse _ _ (hid _ _ _ (hitem _))

theorem repairEvent_same (h : (repairEvent config scope state event).1.2 = false) :
    (repairEvent config scope state event).1.1 = event := by
  rw [repairEvent] at h ⊢
  dsimp only at h ⊢
  simp only [Bool.or_eq_false_iff] at h
  obtain ⟨⟨hitem, hid⟩, hresponse⟩ := h
  have hfirst : ∀ (index : Option ℕ), (repairItem config scope state index event).1.2 = false →
      (repairItem config scope state index event).1.1 = event := by
    intro index h
    cases index with
    | none => rfl
    | some index =>
      rw [repairItem] at h ⊢
      split at h
      · rfl
      · dsimp only at h ⊢
        split_ifs at h ⊢
        rfl
  have hsecond : ∀ (state : ResponsesItemIdRepairState) (index : Option ℕ) (event : Json),
      (repairItemId config state index event).2 = false →
        (repairItemId config state index event).1 = event := by
    intro state index event h
    cases index with
    | none => rfl
    | some index =>
      rw [repairItemId, rewriteItemIdField] at h ⊢
      split at h
      · rfl
      · split at h
        · split at h
          · rfl
          · split_ifs at h ⊢
            rfl
        · split_ifs at h ⊢
          · rfl
          · split at h
            · rfl
            · cases h
  have hthird : ∀ (state : ResponsesItemIdRepairState) (event : Json),
      (repairResponse config scope state event).1.2 = false →
        (repairResponse config scope state event).1.1 = event := by
    intro state event h
    rw [repairResponse] at h ⊢
    split at h
    · rfl
    · dsimp only at h ⊢
      split_ifs at h ⊢
      rfl
  rw [hthird _ _ hresponse, hsecond _ _ _ hid, hfirst _ hitem]

/-- **What a client reads of a repaired payload** are the repaired mentions. -/
theorem mentions_repairEventPayload (state : ResponsesItemIdRepairState) (payload : JsString) :
    repairMentions config scope state (payloadMentions payload) =
      (payloadMentions (repairEventPayload config scope payload state).1,
        (repairEventPayload config scope payload state).2) := by
  rw [repairEventPayload]
  cases hparse : Json.parse payload with
  | none =>
    have hnone : payloadMentions payload = [] := by
      rw [payloadMentions, hparse]
      rfl
    simp only [filter_none, hnone]
    rfl
  | some event =>
    cases hobject : event.isObject with
    | false =>
      have hnone : payloadMentions payload = [] := by
        rw [payloadMentions, hparse]
        exact mentions_of_not_isObject hobject
      simp only [filter_some, hobject, Bool.false_eq_true, if_false, hnone]
      rfl
    | true =>
      rw [filter_some, hobject, if_pos rfl]
      have hmentions : payloadMentions payload = mentions event := by
        rw [payloadMentions, hparse, map_some, getD_some]
      rw [hmentions, mentions_repairEvent state hobject]
      dsimp only
      split_ifs with hchanged
      · rw [payloadMentions, parse_stringify (Decimal_repairEvent (parse_decimal hparse)),
          map_some, getD_some]
      · rw [hmentions, repairEvent_same (eq_false_of_ne_true hchanged)]

/-- **What a client reads of a repaired stream.** -/
theorem mentions_rewriteAll (state : ResponsesItemIdRepairState) (payloads : List JsString) :
    (rewriteAll config scope state payloads).flatMap payloadMentions =
      (repairMentions config scope state (payloads.flatMap payloadMentions)).1 := by
  induction payloads generalizing state with
  | nil => rfl
  | cons payload payloads ih =>
    rw [rewriteAll, List.flatMap_cons, List.flatMap_cons, ih, repairMentions_append,
      mentions_repairEventPayload]

end

end ItemIdRepair
