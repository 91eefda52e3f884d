import OpenCodex.Tools.GuardCalls

/-!
# A stream through the guard

A block *carries* the calls that the guard looks at: the item of an `added` or `done` event, the
call that a named `arguments.done` event stands for, the output of a completed or incomplete
snapshot.  What a block is sent on as carries the same calls, each as `relayed` leaves it, or it is a
failure and carries none; after a failure nothing is sent.  So what is true of a stream comes down to
what is true of its calls: the guard keeps its word exactly on the streams whose calls, up to the
first refusal, are sound (`guard_keeps_word_iff`).
-/

set_option autoImplicit false

open List Option Json

namespace Tools

open Sse

namespace Catalog

/-! ## The calls of a block -/

/-- The calls in a payload. -/
def callsIn (payload : Json) : List Json :=
  if !payload.isObject then []
  else match eventKind payload with
    | .item => (payload.field? (js "item")).toList
    | .argumentsDone name => [argumentsItem payload name]
    | .snapshot => (outputOf (payload.field? (js "response"))).getD []
    | .other => []

/-- The calls that a block carries. -/
def carried (block : JsString) : List Json :=
  (((sseDataPayload block).bind parseSsePayload).map callsIn).getD []

variable {C : Catalog}

variable {α β : Type}

theorem findSome?_toList (f : α → Option β) (o : Option α) : o.toList.findSome? f = o.bind f := by
  cases o with
  | none => rfl
  | some a => cases h : f a <;> simp [h]

theorem undeclaredToolCallName_eq (payload : Json) :
    C.undeclaredToolCallName payload = (callsIn payload).findSome? C.undeclaredNameInItem := by
  rw [undeclaredToolCallName, callsIn]
  split
  · rfl
  · cases eventKind payload with
    | item => exact (findSome?_toList _ _).symm
    | argumentsDone name =>
      dsimp only
      cases h : C.undeclaredNameInItem (argumentsItem payload name) <;> simp [h]
    | snapshot =>
      dsimp only
      rw [undeclaredToolCallNameInResponse]
      cases outputOf (payload.field? (js "response")) <;> rfl
    | other => rfl

/-! ## A payload that is sent on -/

theorem stringAt_setField (payload w : Json) {name key : String} (h : js key ≠ js name) :
    stringAt (payload.setField (js name) w) key = stringAt payload key :=
  stringAt_setField_of_ne payload w h

variable {v w : Json}

theorem eventKind_congr (htype : stringAt w "type" = stringAt v "type")
    (hname : stringAt w "name" = stringAt v "name") : eventKind w = eventKind v := by
  rw [eventKind, eventKind, htype, hname]

variable {payload : Json} {name : JsString}

theorem eventKind_argumentsDone (h : eventKind payload = .argumentsDone name) :
    stringAt payload "name" = some name ∧
      stringAt payload "type" = some (js "response.function_call_arguments.done") := by
  rw [eventKind] at h
  split at h
  · nomatch h
  · by_cases htype : stringAt payload "type" = some (js "response.function_call_arguments.done")
    · rw [if_pos htype] at h
      cases hname : stringAt payload "name" with
      | none =>
        rw [hname] at h
        dsimp only at h
        split at h <;> nomatch h
      | some n =>
        rw [hname] at h
        exact ⟨congrArg some (EventKind.argumentsDone.inj h), htype⟩
    · rw [if_neg htype] at h
      dsimp only at h
      split at h <;> nomatch h

theorem eventKind_of_argumentsDone (hname : stringAt payload "name" = some name)
    (htype : stringAt payload "type" = some (js "response.function_call_arguments.done")) :
    eventKind payload = .argumentsDone name := by
  rw [eventKind, htype, hname, if_neg (by decide), if_pos rfl]

variable {item : Json}

theorem normalize_eq_some (h : C.normalizeDefaultNamespaceInItem item = some w) :
    item.isObject = true ∧ ∃ m, w = item.setField (js "name") (.str m) ∨
      w = (item.setField (js "name") (.str m)).eraseField (js "namespace") := by
  cases hname : callName item with
  | none =>
    rw [normalize_of_not_call hname] at h
    nomatch h
  | some name =>
    rw [normalize_of_call hname] at h
    refine ⟨(callName_eq_some hname).1, ?_⟩
    split at h
    · rw [ite_none_right_eq_some] at h
      exact ⟨_, .inr (some_inj.mp h.2).symm⟩
    · rw [ite_none_right_eq_some] at h
      obtain ⟨m, -, hm⟩ := map_eq_some_iff.mp h.2
      exact ⟨m, .inl hm.symm⟩

theorem decimal_relayed (h : item.Decimal) : (C.relayed item).Decimal := by
  rw [relayed]
  cases hw : C.normalizeDefaultNamespaceInItem item with
  | none => exact h
  | some w =>
    obtain ⟨-, m, rfl | rfl⟩ := normalize_eq_some hw
    · exact h.setField (.str m) _
    · exact (h.setField (.str m) _).eraseField _

/-- A payload that is sent on, its calls being sent on as they should be. -/
structure SentOn (C : Catalog) (payload sent : Json) : Prop where
  object : sent.isObject = true
  decimal : payload.Decimal → sent.Decimal
  calls : callsIn sent = (callsIn payload).map C.relayed

theorem argumentsItem_setField (payload : Json) (name m : JsString) :
    (argumentsItem payload name).setField (js "name") (.str m) = argumentsItem payload m := by
  have hne : js "type" ≠ js "name" := by decide
  have hns : js "namespace" ≠ js "name" := by decide
  rw [argumentsItem, argumentsItem, Json.setField]
  cases payload.field? (js "namespace") <;> simp [Json.setMember, hne, hns]

theorem argumentsItem_eraseField (payload : Json) (name : JsString) :
    (argumentsItem payload name).eraseField (js "namespace") =
      argumentsItem (payload.eraseField (js "namespace")) name := by
  have htype : js "type" ≠ js "namespace" := by decide
  have hname : js "name" ≠ js "namespace" := by decide
  rw [argumentsItem, argumentsItem, field?_eraseField_self, Json.eraseField]
  cases payload.field? (js "namespace") <;> simp [htype, hname]

theorem argumentsItem_congr (h : v.field? (js "namespace") = w.field? (js "namespace"))
    (name : JsString) : argumentsItem v name = argumentsItem w name := by
  rw [argumentsItem, argumentsItem, h]

theorem field?_argumentsItem_name (payload : Json) (name : JsString) :
    (argumentsItem payload name).field? (js "name") = some (.str name) := by
  have htype : js "type" ≠ js "name" := by decide
  have hns : js "namespace" ≠ js "name" := by decide
  rw [argumentsItem]
  cases payload.field? (js "namespace") <;>
    simp [Json.field?, members?, Json.lookup_cons, htype, hns]

theorem field?_argumentsItem_namespace (payload : Json) (name : JsString) :
    (argumentsItem payload name).field? (js "namespace") = payload.field? (js "namespace") := by
  have htype : js "type" ≠ js "namespace" := by decide
  have hname : js "name" ≠ js "namespace" := by decide
  rw [argumentsItem]
  cases payload.field? (js "namespace") <;>
    simp [Json.field?, members?, Json.lookup_cons, htype, hname]

theorem callsIn_argumentsDone (hobject : payload.isObject = true)
    (hkind : eventKind payload = .argumentsDone name) :
    callsIn payload = [argumentsItem payload name] := by
  rw [callsIn, hobject, hkind]
  rfl

theorem sentOn_argumentsDone {normalized : Json} (hobject : payload.isObject = true)
    (hkind : eventKind payload = .argumentsDone name)
    (h : C.normalizeDefaultNamespaceInItem (argumentsItem payload name) = some normalized) :
    let next := payload.setField (js "name") ((normalized.field? (js "name")).getD .null)
    C.SentOn payload (if (normalized.field? (js "namespace")).isNone
      then next.eraseField (js "namespace") else next) := by
  intro next
  obtain ⟨hname, htype⟩ := eventKind_argumentsDone hkind
  have hrelayed : C.relayed (argumentsItem payload name) = normalized := by
    rw [relayed, h]
    rfl
  obtain ⟨-, m, hm⟩ := normalize_eq_some h
  -- both ways of renaming leave the new name in the call
  have hmname : normalized.field? (js "name") = some (.str m) := by
    rcases hm with rfl | rfl
    · rw [argumentsItem_setField, field?_argumentsItem_name]
    · rw [field?_eraseField_of_ne _ (by decide), argumentsItem_setField, field?_argumentsItem_name]
  have hnext : next = payload.setField (js "name") (.str m) := by
    simp only [next, hmname, getD_some]
  have hnextObject : next.isObject = true := by rw [hnext, isObject_setField, hobject]
  have hnextName : stringAt next "name" = some m := by
    rw [hnext]
    exact stringAt_setField_self hobject "name" m
  have hnextType : stringAt next "type" = some (js "response.function_call_arguments.done") := by
    rw [hnext, stringAt_setField _ _ (by decide), htype]
  have hdecimal : payload.Decimal → next.Decimal := fun hd ↦ hnext ▸ hd.setField (.str m) _
  have hns : next.field? (js "namespace") = payload.field? (js "namespace") := by
    rw [hnext, field?_setField_of_ne _ _ (by decide)]
  have hsent : ∀ sent : Json, sent.isObject = true → stringAt sent "name" = some m →
      stringAt sent "type" = some (js "response.function_call_arguments.done") →
        (payload.Decimal → sent.Decimal) → argumentsItem sent m = normalized →
          C.SentOn payload sent := fun sent hobj hn ht hd hcall ↦
    ⟨hobj, hd, by rw [callsIn_argumentsDone hobj (eventKind_of_argumentsDone hn ht),
      callsIn_argumentsDone hobject hkind, map_cons, map_nil, hrelayed, hcall]⟩
  have herased : C.normalizeDefaultNamespaceInItem (argumentsItem payload name) = some normalized →
      argumentsItem (next.eraseField (js "namespace")) m = normalized →
        C.SentOn payload (next.eraseField (js "namespace")) := fun _ ↦
    hsent _ (by rw [isObject_eraseField, hnextObject])
      (by rw [stringAt_eraseField_of_ne _ (by decide), hnextName])
      (by rw [stringAt_eraseField_of_ne _ (by decide), hnextType])
      fun hd ↦ (hdecimal hd).eraseField _
  rcases hm with hm | hm
  · rw [argumentsItem_setField] at hm
    have hnormalizedNs : normalized.field? (js "namespace") = payload.field? (js "namespace") := by
      rw [hm, field?_argumentsItem_namespace]
    rw [hnormalizedNs]
    split
    · rename_i hnone
      refine herased h (hm ▸ argumentsItem_congr ?_ m)
      rw [field?_eraseField_self, isNone_iff_eq_none.mp hnone]
    · exact hsent next hnextObject hnextName hnextType hdecimal (hm ▸ argumentsItem_congr hns m)
  · rw [argumentsItem_setField] at hm
    have hnone : normalized.field? (js "namespace") = none := by rw [hm, field?_eraseField_self]
    rw [hnone]
    refine herased h ?_
    rw [hm, argumentsItem_eraseField]
    refine argumentsItem_congr ?_ m
    rw [field?_eraseField_self, field?_eraseField_self]

variable {sent : Json}

/-- **A payload that is changed carries its calls as they are sent on.** -/
theorem sentOn_of_normalize (h : C.normalizeDefaultNamespaceInPayload payload = some sent) :
    C.SentOn payload sent := by
  rw [normalizeDefaultNamespaceInPayload, ite_none_left_eq_some] at h
  obtain ⟨hobject, h⟩ := h
  rw [Bool.not_eq_true', Bool.not_eq_false] at hobject
  cases hkind : eventKind payload with
  | item =>
    rw [hkind] at h
    obtain ⟨w, hw, rfl⟩ := map_eq_some_iff.mp h
    obtain ⟨item, hitem, hw⟩ := bind_eq_some_iff.mp hw
    have hrelayed : C.relayed item = w := by
      rw [relayed, hw]
      rfl
    have hkind' : eventKind (payload.setField (js "item") w) = .item := by
      rw [eventKind_congr (stringAt_setField payload w (by decide))
        (stringAt_setField payload w (by decide)), hkind]
    refine ⟨by rw [isObject_setField, hobject], fun hd ↦
      hd.setField (hrelayed ▸ decimal_relayed (hd.field? hitem)) _, ?_⟩
    rw [callsIn, callsIn, isObject_setField, hobject, hkind, hkind']
    simp only [Bool.not_true, Bool.false_eq_true, if_false]
    rw [field?_setField_self hobject, hitem]
    simp [hrelayed]
  | argumentsDone name =>
    rw [hkind] at h
    obtain ⟨normalized, hn, rfl⟩ := map_eq_some_iff.mp h
    exact sentOn_argumentsDone hobject hkind hn
  | snapshot =>
    rw [hkind] at h
    obtain ⟨w, hw, rfl⟩ := map_eq_some_iff.mp h
    have hkind' : eventKind (payload.setField (js "response") w) = .snapshot := by
      rw [eventKind_congr (stringAt_setField payload w (by decide))
        (stringAt_setField payload w (by decide)), hkind]
    rw [normalizeDefaultNamespaceInResponse] at hw
    cases hr : plainObject (payload.field? (js "response")) with
    | none =>
      rw [hr] at hw
      cases hw
    | some r =>
      cases hout : outputOf (payload.field? (js "response")) with
      | none =>
        rw [hr, hout] at hw
        cases hw
      | some output =>
        rw [hr, hout, ite_none_right_eq_some] at hw
        obtain ⟨-, hw⟩ := hw
        obtain rfl := some_inj.mp hw
        obtain ⟨hresponse, hrobject⟩ := filter_eq_some_iff.mp hr
        have harr : arrayOf (r.field? (js "output")) = some output := by
          rw [outputOf, hr] at hout
          exact hout
        have hfield : r.field? (js "output") = some (.arr output) := by
          cases hf : r.field? (js "output") with
          | none =>
            rw [hf] at harr
            cases harr
          | some v =>
            rw [hf] at harr
            cases v <;> simp only [arrayOf, reduceCtorEq, Option.some.injEq] at harr
            rw [harr]
        refine ⟨by rw [isObject_setField, hobject], fun hd ↦ ?_, ?_⟩
        · have hrd := hd.field? hresponse
          refine hd.setField (hrd.setField (.arr fun v hv ↦ ?_) _) _
          obtain ⟨item, hitem, rfl⟩ := mem_map.mp hv
          cases hrd.field? hfield with
          | arr hitems => exact decimal_relayed (hitems item hitem)
        · rw [callsIn, callsIn, isObject_setField, hobject, hkind, hkind']
          simp only [Bool.not_true, Bool.false_eq_true, if_false]
          rw [field?_setField_self hobject, hout, outputOf, plainObject, filter_some,
            isObject_setField, hrobject, if_pos rfl, bind_some,
            field?_setField_self hrobject]
          rfl
  | other =>
    rw [hkind] at h
    cases h

theorem map_relayed_of_none (h : C.normalizeDefaultNamespaceInPayload payload = none) :
    (callsIn payload).map C.relayed = callsIn payload := by
  have hself : ∀ item, C.normalizeDefaultNamespaceInItem item = none → C.relayed item = item :=
    fun item hitem ↦ by
      rw [relayed, hitem]
      rfl
  rw [callsIn]
  split
  · rfl
  · rename_i hobject
    rw [normalizeDefaultNamespaceInPayload, if_neg hobject] at h
    cases hkind : eventKind payload with
    | item =>
      rw [hkind] at h
      dsimp only at h ⊢
      cases hitem : payload.field? (js "item") with
      | none => rfl
      | some item =>
        rw [hitem, map_eq_none_iff, bind_some] at h
        simp [hself item h]
    | argumentsDone name =>
      rw [hkind] at h
      simp [hself _ (map_eq_none_iff.mp h)]
    | snapshot =>
      rw [hkind] at h
      dsimp only at h ⊢
      cases hout : outputOf (payload.field? (js "response")) with
      | none => rfl
      | some output =>
        rw [map_eq_none_iff, normalizeDefaultNamespaceInResponse, hout] at h
        cases hr : plainObject (payload.field? (js "response")) with
        | none =>
          rw [outputOf, hr] at hout
          cases hout
        | some r =>
          rw [hr, ite_eq_right_iff] at h
          have hany : output.any (fun item ↦ (C.normalizeDefaultNamespaceInItem item).isSome) ≠ true :=
            fun hany ↦ absurd (h hany) (by simp)
          refine map_congr_left (g := id) (fun item hitem ↦ hself item ?_) |>.trans (map_id _)
          by_contra hsome
          exact hany (any_eq_true.mpr ⟨item, hitem, isSome_iff_ne_none.mpr hsome⟩)
    | other => rfl

/-! ## A block that is sent on -/

/-- A block is refused for one of its calls. -/
def Refuses (C : Catalog) (block : JsString) : Prop :=
  ∃ item ∈ carried block, C.undeclaredNameInItem item ≠ none

theorem undeclaredToolCallName_eq_none : C.undeclaredToolCallName payload = none ↔
      ∀ item ∈ callsIn payload, C.undeclaredNameInItem item = none := by
  rw [undeclaredToolCallName_eq, findSome?_eq_none_iff]

variable {block : JsString}

theorem carried_eq (h : (sseDataPayload block).bind parseSsePayload = some payload) :
    carried block = callsIn payload := by
  rw [carried, h]
  rfl

theorem carried_eq_nil (h : (sseDataPayload block).bind parseSsePayload = none) :
    carried block = [] := by
  rw [carried, h]
  rfl

theorem parseSsePayload_stringify (hobject : v.isObject = true) (h : v.Decimal) :
    parseSsePayload v.stringify = some v := by
  have hne : v.stringify ≠ doneSentinel := by
    obtain ⟨ms, rfl⟩ := isObject_iff.mp hobject
    rcases ms with _ | ⟨⟨name, w⟩, ms⟩ <;> rw [Json.stringify] <;> intro heq
    · exact absurd (cons.inj heq).1 (by decide)
    · exact absurd (cons.inj heq).1 (by decide)
  rw [parseSsePayload, if_neg hne, parse_stringify h]

theorem decimal_of_parseSsePayload (h : (sseDataPayload block).bind parseSsePayload = some payload) :
    payload.Decimal := by
  obtain ⟨text, -, hparse⟩ := bind_eq_some_iff.mp h
  rw [parseSsePayload, ite_none_left_eq_some] at hparse
  exact parse_decimal hparse.2

theorem carried_replace (h : (sseDataPayload block).bind parseSsePayload = some payload)
    (hobject : sent.isObject = true) (hd : sent.Decimal) :
    carried (replaceSseDataPayload block sent.stringify) = callsIn sent := by
  obtain ⟨text, htext, -⟩ := bind_eq_some_iff.mp h
  refine carried_eq ?_
  rw [sseDataPayload_replaceSseDataPayload htext
    (oneLine_of_printable (stringify_printable sent)), bind_some,
    parseSsePayload_stringify hobject hd]

theorem failure_decimal (name : JsString) : (failure name).Decimal := by
  refine .obj fun m hm ↦ ?_
  simp only [mem_cons, not_mem_nil, or_false] at hm
  rcases hm with rfl | rfl | rfl <;> exact .str _

theorem failedPayload_decimal (name : JsString) : (failedPayload name).Decimal := by
  refine .obj fun m hm ↦ ?_
  simp only [mem_cons, not_mem_nil, or_false] at hm
  rcases hm with rfl | rfl
  · exact .str _
  · refine .obj fun m hm ↦ ?_
    simp only [mem_cons, not_mem_nil, or_false] at hm
    rcases hm with rfl | rfl | rfl
    · exact .str _
    · exact failure_decimal name
    · exact failure_decimal name

theorem carried_failedBlocks (name : JsString) {newline : JsString} (h : IsNewline newline) :
    ∀ b ∈ failedBlocks name newline, carried b = [] := by
  have hline : ∀ {text : JsString}, OneLine text → OneLine (js "data: " ++ text) := fun h ↦
    OneLine.append (by unfold OneLine; decide) h
  have htext := oneLine_of_printable (stringify_printable (failedPayload name))
  intro b hb
  rw [failedBlocks, mem_cons, mem_singleton] at hb
  rcases hb with rfl | rfl
  · have hpayload : sseDataPayload (js "event: response.failed" ++ newline ++ js "data: " ++
        (failedPayload name).stringify) = some (failedPayload name).stringify := by
      have hjoin : js "event: response.failed" ++ newline ++ js "data: " ++
          (failedPayload name).stringify = joinLines newline
            [js "event: response.failed", js "data: " ++ (failedPayload name).stringify] := by
        simp [joinLines]
      have hone : ∀ l ∈ [js "event: response.failed",
          js "data: " ++ (failedPayload name).stringify], OneLine l := by
        intro l hl
        rw [mem_cons, mem_singleton] at hl
        rcases hl with rfl | rfl
        · unfold OneLine
          decide
        · exact hline htext
      rw [hjoin, sseDataPayload_eq, splitLines_joinLines h hone (cons_ne_nil _ _)]
      exact addDataLine_data _
    have hparsed : (sseDataPayload (js "event: response.failed" ++ newline ++ js "data: " ++
        (failedPayload name).stringify)).bind parseSsePayload = some (failedPayload name) := by
      rw [hpayload, bind_some, parseSsePayload_stringify rfl (failedPayload_decimal name)]
    rw [carried_eq hparsed]
    rfl
  · exact carried_eq_nil (by decide)

theorem guardBlock_refused (h : C.Refuses block) : (C.guardBlock true false block).1 = true ∧
      ∀ b ∈ (C.guardBlock true false block).2, carried b = [] := by
  obtain ⟨item, hitem, hname⟩ := h
  rw [guardBlock, if_neg Bool.false_ne_true]
  cases hparsed : (sseDataPayload block).bind parseSsePayload with
  | none =>
    rw [carried_eq_nil hparsed] at hitem
    exact absurd hitem not_mem_nil
  | some payload =>
    rw [carried_eq hparsed] at hitem
    cases hundeclared : C.undeclaredToolCallName payload with
    | none => exact absurd (undeclaredToolCallName_eq_none.mp hundeclared item hitem) hname
    | some name =>
      simp only [if_true, hundeclared]
      refine ⟨trivial, carried_failedBlocks name ?_⟩
      split
      · exact .inl rfl
      · exact .inr (.inr rfl)

/-- **A block that is not refused is sent on with its calls as they should be.** -/
theorem guardBlock_passed (h : ¬ C.Refuses block) :
    ∃ sent, C.guardBlock true false block = (false, [sent]) ∧
      carried sent = (carried block).map C.relayed := by
  have hadmitted : ∀ item ∈ carried block, C.undeclaredNameInItem item = none := fun item hitem ↦ by
    by_contra hne
    exact h ⟨item, hitem, hne⟩
  rw [guardBlock, if_neg Bool.false_ne_true]
  cases hparsed : (sseDataPayload block).bind parseSsePayload with
  | none =>
    refine ⟨block, rfl, ?_⟩
    rw [carried_eq_nil hparsed]
    rfl
  | some payload =>
    rw [carried_eq hparsed] at hadmitted ⊢
    simp only [if_true, undeclaredToolCallName_eq_none.mpr hadmitted]
    cases hsent : C.normalizeDefaultNamespaceInPayload payload with
    | none => exact ⟨block, rfl, by rw [carried_eq hparsed, map_relayed_of_none hsent]⟩
    | some sent =>
      have hs := sentOn_of_normalize hsent
      refine ⟨_, rfl, ?_⟩
      rw [carried_replace hparsed hs.object (hs.decimal (decimal_of_parseSsePayload hparsed)),
        hs.calls]

/-! ## Runs -/

theorem guardBlocks_tripped (refuse : Bool) (blocks : List JsString) :
    C.guardBlocks refuse true blocks = blocks.map fun _ ↦ [] := by
  induction blocks with
  | nil => rfl
  | cons block blocks ih => simp [guardBlocks, guardBlock, ih]

theorem length_guardBlocks (refuse tripped : Bool) (blocks : List JsString) :
    (C.guardBlocks refuse tripped blocks).length = blocks.length := by
  induction blocks generalizing tripped with
  | nil => rfl
  | cons block blocks ih => rw [guardBlocks, length_cons, ih, length_cons]

/-- Whether the rewrite has tripped after a list of blocks. -/
def trippedAfter (C : Catalog) (refuse : Bool) : Bool → List JsString → Bool
  | tripped, [] => tripped
  | tripped, block :: blocks => trippedAfter C refuse (C.guardBlock refuse tripped block).1 blocks

theorem guardBlocks_append (refuse tripped : Bool) (l₁ l₂ : List JsString) :
    C.guardBlocks refuse tripped (l₁ ++ l₂) = C.guardBlocks refuse tripped l₁ ++
      C.guardBlocks refuse (C.trippedAfter refuse tripped l₁) l₂ := by
  induction l₁ generalizing tripped with
  | nil => rfl
  | cons block l₁ ih => rw [cons_append, guardBlocks, ih, guardBlocks, trippedAfter, cons_append]

theorem trippedAfter_true (refuse : Bool) (blocks : List JsString) :
    C.trippedAfter refuse true blocks = true := by
  induction blocks with
  | nil => rfl
  | cons block blocks ih => exact ih

theorem trippedAfter_eq (blocks : List JsString) :
    C.trippedAfter true false blocks = true ↔ ∃ b ∈ blocks, C.Refuses b := by
  induction blocks with
  | nil => simp [trippedAfter]
  | cons block blocks ih =>
    rw [trippedAfter]
    by_cases h : C.Refuses block
    · rw [(guardBlock_refused h).1, trippedAfter_true]
      simp [h]
    · obtain ⟨sent, hsent, -⟩ := guardBlock_passed h
      rw [hsent, ih]
      simp [h]

/-! ## The guard's word -/

/-- What is promised of a stream that goes through the guard. -/
structure KeepsWord (C : Catalog) (blocks : List JsString) : Prop where
  /-- No call is sent on that the catalog does not admit. -/
  admitted : ∀ sent ∈ C.guardBlocks true false blocks, ∀ b ∈ sent, ∀ item ∈ carried b,
    C.undeclaredNameInItem item = none
  /-- After a refusal nothing is sent. -/
  quiet : ∀ l₁ b l₂, blocks = l₁ ++ b :: l₂ → C.Refuses b →
    (C.guardBlocks true false blocks).drop (l₁.length + 1) = l₂.map fun _ ↦ []
  /-- Up to then a block is sent on as one block, every call under the name it is admitted as. -/
  resolved : ∀ l₁ b l₂, blocks = l₁ ++ b :: l₂ → (∀ b' ∈ l₁ ++ [b], ¬ C.Refuses b') →
    ∃ sent, (C.guardBlocks true false blocks)[l₁.length]? = some [sent] ∧
      List.Forall₂ C.Resolved (carried b) (carried sent)

/-- Every call of a block that is sent on is sound. -/
def SoundStream (C : Catalog) (blocks : List JsString) : Prop :=
  ∀ l₁ b l₂, blocks = l₁ ++ b :: l₂ → (∀ b' ∈ l₁ ++ [b], ¬ C.Refuses b') →
    ∀ item ∈ carried b, C.Sound item

variable {l₁ l₂ : List JsString} {b : JsString}

theorem getElem?_guardBlocks (h : ∀ b' ∈ l₁, ¬ C.Refuses b') :
    (C.guardBlocks true false (l₁ ++ b :: l₂))[l₁.length]? =
      some (C.guardBlock true false b).2 := by
  have htripped : C.trippedAfter true false l₁ = false := by
    rw [← Bool.not_eq_true, trippedAfter_eq]
    rintro ⟨b', hb', href⟩
    exact h b' hb' href
  rw [guardBlocks_append, htripped, getElem?_append_right (by rw [length_guardBlocks]),
    length_guardBlocks, Nat.sub_self]
  rfl

theorem sent_cases {blocks : List JsString} {sent : List JsString}
    (h : sent ∈ C.guardBlocks true false blocks) :
    (∀ b ∈ sent, carried b = []) ∨ ∃ l₁ b l₂, blocks = l₁ ++ b :: l₂ ∧
      (∀ b' ∈ l₁ ++ [b], ¬ C.Refuses b') ∧ sent = (C.guardBlock true false b).2 := by
  induction blocks with
  | nil => nomatch h
  | cons block blocks ih =>
    by_cases href : C.Refuses block
    · obtain ⟨htrip, hcarried⟩ := guardBlock_refused href
      rw [guardBlocks, htrip, guardBlocks_tripped] at h
      rcases mem_cons.mp h with rfl | h
      · exact .inl hcarried
      · obtain ⟨-, -, rfl⟩ := mem_map.mp h
        exact .inl nofun
    · obtain ⟨out, hout, -⟩ := guardBlock_passed href
      rw [guardBlocks, hout] at h
      rcases mem_cons.mp h with rfl | h
      · refine .inr ⟨[], block, blocks, rfl, fun b' hb' ↦ ?_, by rw [hout]⟩
        rw [nil_append, mem_singleton] at hb'
        exact hb' ▸ href
      · rcases ih h with hnil | ⟨l₁, b, l₂, rfl, hpassed, hsent⟩
        · exact .inl hnil
        · refine .inr ⟨block :: l₁, b, l₂, rfl, fun b' hb' ↦ ?_, hsent⟩
          rcases mem_cons.mp hb' with rfl | hb'
          · exact href
          · exact hpassed b' hb'

theorem guardBlocks_quiet (h : C.Refuses b) :
    (C.guardBlocks true false (l₁ ++ b :: l₂)).drop (l₁.length + 1) = l₂.map fun _ ↦ [] := by
  have htripped : C.trippedAfter true false (l₁ ++ [b]) = true :=
    (trippedAfter_eq _).mpr ⟨b, by simp, h⟩
  have happend : l₁ ++ b :: l₂ = (l₁ ++ [b]) ++ l₂ := by simp
  have hlen : l₁.length + 1 = (C.guardBlocks true false (l₁ ++ [b])).length := by
    rw [length_guardBlocks, length_append]
    rfl
  rw [happend, guardBlocks_append, htripped, hlen, drop_left, guardBlocks_tripped]

theorem forall₂_self {R : α → β → Prop} {f : α → β} {l : List α} :
    List.Forall₂ R l (l.map f) ↔ ∀ a ∈ l, R a (f a) := by
  induction l with
  | nil => simp
  | cons a l ih => simp [ih]

/-- **The guard keeps its word on a stream exactly when the calls of the stream are sound.** -/
theorem guard_keeps_word_iff (body : Json) (destinationExecutes : Bool) (blocks : List JsString) :
    KeepsWord (ofBody body destinationExecutes) blocks ↔
      SoundStream (ofBody body destinationExecutes) blocks := by
  have hC := coherent_ofBody body destinationExecutes
  generalize ofBody body destinationExecutes = C at hC ⊢
  have hadmitted : ∀ {b}, ¬ C.Refuses b → ∀ item ∈ carried b, C.undeclaredNameInItem item = none :=
    fun hb item hitem ↦ by
      by_contra hne
      exact hb ⟨item, hitem, hne⟩
  constructor
  · intro h l₁ b l₂ hblocks hpassed item hitem
    have hb := hpassed b (by simp)
    obtain ⟨sent, hsent, hcarried⟩ := guardBlock_passed hb
    obtain ⟨sent', hget, hresolved⟩ := h.resolved l₁ b l₂ hblocks hpassed
    have hplace : (C.guardBlocks true false (l₁ ++ b :: l₂))[l₁.length]? =
        some (C.guardBlock true false b).2 :=
      getElem?_guardBlocks fun b' hb' ↦ hpassed b' (mem_append_left _ hb')
    rw [← hblocks, hget, hsent, some_inj] at hplace
    obtain rfl := (cons.inj hplace).1
    rw [hcarried] at hresolved
    refine (relayed_sound hC (hadmitted hb item hitem)).mp
      ⟨h.admitted [sent'] (mem_of_getElem? hget) sent' (mem_singleton_self _) _ ?_,
        forall₂_self.mp hresolved item hitem⟩
    rw [hcarried]
    exact mem_map_of_mem hitem
  · intro h
    refine ⟨fun sent hsent b hb item hitem ↦ ?_, fun l₁ b l₂ hblocks href ↦ ?_,
      fun l₁ b l₂ hblocks hpassed ↦ ?_⟩
    · rcases sent_cases hsent with hnil | ⟨l₁, block, l₂, hblocks, hpassed, rfl⟩
      · rw [hnil b hb] at hitem
        exact absurd hitem not_mem_nil
      · have hblock := hpassed block (by simp)
        obtain ⟨out, hout, hcarried⟩ := guardBlock_passed hblock
        rw [hout, mem_singleton] at hb
        subst hb
        rw [hcarried] at hitem
        obtain ⟨call, hcall, rfl⟩ := mem_map.mp hitem
        exact ((relayed_sound hC (hadmitted hblock call hcall)).mpr
          (h l₁ block l₂ hblocks hpassed call hcall)).1
    · rw [hblocks]
      exact guardBlocks_quiet href
    · have hb := hpassed b (by simp)
      obtain ⟨sent, hsent, hcarried⟩ := guardBlock_passed hb
      refine ⟨sent, ?_, ?_⟩
      · rw [hblocks, getElem?_guardBlocks fun b' hb' ↦ hpassed b' (mem_append_left _ hb'), hsent]
      · rw [hcarried, forall₂_self]
        exact fun call hcall ↦ ((relayed_sound hC (hadmitted hb call hcall)).mpr
          (h l₁ b l₂ hblocks hpassed call hcall)).2

/-! ## A stream on which it does not -/

/-- A request that declares the code-mode shell, as a custom tool. -/
def execBody : Json :=
  .obj [(js "tools", .arr [.obj [(js "type", .str (js "custom")), (js "name", .str (js "exec"))]])]

/-- A direct call of a nested tool, behind an invented prefix. -/
def nestedCall : Json :=
  .obj [(js "type", .str (js "function_call")), (js "name", .str (js "default.mcp__srv__tool"))]

def nestedEvent : Json :=
  .obj [(js "type", .str (js "response.output_item.done")), (js "item", nestedCall)]

def nestedBlock : JsString := js "data: " ++ nestedEvent.stringify

theorem nestedEvent_decimal : nestedEvent.Decimal := by
  refine .obj fun m hm ↦ ?_
  simp only [mem_cons, not_mem_nil, or_false] at hm
  rcases hm with rfl | rfl
  · exact .str _
  · refine .obj fun m hm ↦ ?_
    simp only [mem_cons, not_mem_nil, or_false] at hm
    rcases hm with rfl | rfl <;> exact .str _

theorem carried_nestedBlock : carried nestedBlock = [nestedCall] := by
  have htext := oneLine_of_printable (stringify_printable nestedEvent)
  have hone : OneLine nestedBlock := .append (by unfold OneLine; decide) htext
  have hpayload : sseDataPayload nestedBlock = some nestedEvent.stringify := by
    rw [sseDataPayload_eq, splitLines_eq hone]
    exact addDataLine_data _
  have hparsed : (sseDataPayload nestedBlock).bind parseSsePayload = some nestedEvent := by
    rw [hpayload, bind_some, parseSsePayload_stringify rfl nestedEvent_decimal]
  rfl

/-- The call is admitted as `exec`, and sent on under the name it came with. -/
theorem nested_call_keeps_its_name : ¬ ∀ (body : Json) (destinationExecutes : Bool)
    (blocks : List JsString), KeepsWord (ofBody body destinationExecutes) blocks := by
  intro hall
  have h := hall execBody false [nestedBlock]
  have hadmitted : (ofBody execBody false).undeclaredNameInItem nestedCall = none := by
    decide +kernel
  have hpassed : ¬ (ofBody execBody false).Refuses nestedBlock := by
    rintro ⟨item, hitem, hne⟩
    rw [carried_nestedBlock, mem_singleton] at hitem
    exact hne (hitem ▸ hadmitted)
  obtain ⟨sent, hget, hresolved⟩ := h.resolved [] nestedBlock [] rfl (by simpa using hpassed)
  obtain ⟨out, hout, hcarried⟩ := guardBlock_passed hpassed
  have hsent : sent = out := by
    have hplace : ((ofBody execBody false).guardBlocks true false ([] ++ [nestedBlock]))[0]? =
        some ((ofBody execBody false).guardBlock true false nestedBlock).2 :=
      getElem?_guardBlocks nofun
    rw [hout] at hplace
    exact (cons.inj (some_inj.mp (hget.symm.trans hplace))).1
  rw [hsent, hcarried, carried_nestedBlock, forall₂_self] at hresolved
  have hrepairable : (ofBody execBody false).Repairable (js "default.mcp__srv__tool") (js "exec") :=
    ⟨by decide +kernel, by decide +kernel, by decide +kernel, by decide +kernel, by decide +kernel⟩
  have hname := hresolved nestedCall (mem_singleton_self _) _ _ (by decide +kernel)
    (.inl (by decide +kernel)) hrepairable
  have hkept : stringAt ((ofBody execBody false).relayed nestedCall) "name" ≠ some (js "exec") := by
    decide +kernel
  exact hkept hname

end Catalog

end Tools
