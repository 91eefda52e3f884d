import OpenCodex.Tools.Guard

/-!
# One call through the guard

What a call may be refused for and what it is sent on as are compared here, for one item of an
event.  Both resolve the emitted name against the catalog, but emission does not ask for the custom
tools, and it renames a call in the namespace `functions` without looking at what is declared under
that namespace.  `Sound` is the condition, on the item and the catalog, under which neither matters;
`relayed_sound` says that it is exact: an admitted call is sent on as one that is admitted, under
the name it was admitted as, if and only if it is sound.
-/

set_option autoImplicit false

open List Option

namespace Tools

open Sse (stringOf)

/-! ## Catalogs -/

variable {name : JsString} {tool : Json}

theorem wireToolInnerName_ne_nil (h : wireToolInnerName tool = some name) : name ≠ [] := by
  have hne : ∀ {v : Json} {key : String} {s : JsString}, nonEmptyAt v key = some s → s ≠ [] := by
    intro v key s hs
    simpa using (filter_eq_some_iff.mp hs).2
  rw [wireToolInnerName] at h
  split at h
  · nomatch h
  · rcases or_eq_some_iff.mp h with h | ⟨-, h⟩
    · exact hne h
    · obtain ⟨f, -, hf⟩ := bind_eq_some_iff.mp h
      exact hne hf

theorem mem_bareName (h : name ∈ bareName tool) : wireToolInnerName tool = some name := by
  rw [bareName, mem_toList, filter_eq_some_iff] at h
  exact h.1

theorem addWireToolName_of_bare {namespace? : Option JsString} (ambiguous : List JsString)
    (h : wireToolInnerName tool = some name)
    (hns : namespace? = none ∨ namespace? = some builtinFunctionsNamespace) :
    name ∈ addWireToolName tool namespace? ambiguous := by
  rw [addWireToolName, h]
  rcases hns with rfl | rfl
  · exact mem_singleton_self name
  · exact mem_singleton_self name

theorem mem_declared_of_bare {body : Json} (h : name ∈ collectDeclaredBareWireToolNames body) :
    name ∈ collectDeclaredWireToolNames body ∧ name ≠ [] := by
  rw [collectDeclaredBareWireToolNames] at h
  rw [collectDeclaredWireToolNames]
  split at h
  · nomatch h
  · rename_i hbody
    rw [if_neg hbody]
    obtain ⟨spec, hspec, hname⟩ := mem_flatMap.mp h
    rw [addBareSpec] at hname
    split at hname
    · nomatch hname
    · rename_i hobject
      suffices hsuff : ∃ tool ns, wireToolInnerName tool = some name ∧
          name ∈ addWireToolSpec (collectAmbiguousDottedAliases (specGroupsOf body)) spec ∧
            ns = tool by
        obtain ⟨tool, -, htool, hmem, -⟩ := hsuff
        exact ⟨mem_flatMap.mpr ⟨spec, hspec, hmem⟩, wireToolInnerName_ne_nil htool⟩
      cases hchildren : namespaceChildren spec with
      | some tools =>
        rw [hchildren] at hname
        dsimp only at hname
        split at hname
        · rename_i hns
          obtain ⟨inner, hinner, hname⟩ := mem_flatMap.mp hname
          have htool := mem_bareName hname
          refine ⟨inner, inner, htool, ?_, rfl⟩
          rw [addWireToolSpec, if_neg hobject, hchildren]
          exact mem_flatMap.mpr ⟨inner, hinner, addWireToolName_of_bare _ htool (.inr hns)⟩
        · nomatch hname
      | none =>
        rw [hchildren] at hname
        have htool := mem_bareName hname
        refine ⟨spec, spec, htool, ?_, rfl⟩
        rw [addWireToolSpec, if_neg hobject, hchildren]
        exact addWireToolName_of_bare _ htool (.inl rfl)

namespace Catalog

/-- The names declared bare are declared. -/
def Coherent (C : Catalog) : Prop := ∀ name ∈ C.bareDeclared, name ∈ C.declared

theorem coherent_ofBody (body : Json) (destinationExecutes : Bool) :
    (ofBody body destinationExecutes).Coherent :=
  fun _ h ↦ (mem_declared_of_bare h).1

variable {C : Catalog}

/-! ## Names -/

/-- What the guard authorizes a name as. -/
def authorizedAs (C : Catalog) (name : JsString) : JsString :=
  normalizeDeclaredToolName name (some C.declared) C.declaredBare C.declaredCustom

/-- What a name means if the set of custom tools is not asked. -/
def emittedAs (C : Catalog) (name : JsString) : JsString :=
  normalizeDeclaredToolName name (some C.declared) C.declaredBare none

/-- The name `default.` and a tool declared bare, which no spelling of the namespace `default`
declares. -/
def PrefixedBare (C : Catalog) (name bare : JsString) : Prop :=
  name = js "default." ++ bare ∧ bare ≠ [] ∧ bare ∈ C.bareDeclared ∧
    undeclaredDefault C.declared bare = true

/-- A name that is sent on as another one. -/
structure Renamed (C : Catalog) (name m : JsString) : Prop where
  means : C.emittedAs name = m
  ne : m ≠ name
  declared : m ∈ C.declared
  why : isSchemaValidResponsesToolName name = false ∧ isSchemaValidResponsesToolName m = true ∨
    C.PrefixedBare name m

/-- A name that the schema rejects, meaning a declared one that it accepts. -/
structure Repairable (C : Catalog) (name r : JsString) : Prop where
  invalid : isSchemaValidResponsesToolName name = false
  means : C.authorizedAs name = r
  ne : r ≠ name
  declared : r ∈ C.declared
  valid : isSchemaValidResponsesToolName r = true

theorem drop_default (bare : JsString) : (js "default." ++ bare).drop 8 = bare := rfl

theorem isPrefixOf_default (h : (js "default.").isPrefixOf name = true) :
    name = js "default." ++ name.drop 8 := by
  obtain ⟨rest, rfl⟩ := isPrefixOf_iff_prefix.mp h
  rfl

theorem isPrefixOf_default_append (bare : JsString) :
    (js "default.").isPrefixOf (js "default." ++ bare) = true :=
  isPrefixOf_iff_prefix.mpr ⟨bare, rfl⟩

theorem ne_nil_of_valid (h : isSchemaValidResponsesToolName name = true) : name ≠ [] := by
  rw [isSchemaValidResponsesToolName, Bool.and_eq_true, decide_eq_true_eq] at h
  exact h.1

variable {bare : JsString}

variable {declared : List JsString}

theorem prefixed_notMem (h : undeclaredDefault declared bare = true) :
    declared.contains (js "default." ++ bare) = false := by
  rw [undeclaredDefault, Bool.and_eq_true, Bool.not_eq_true'] at h
  exact h.1

theorem normalize_of_mem (h : name ∈ declared) (bare custom : Option (List JsString)) :
    normalizeDeclaredToolName name (some declared) bare custom = name := by
  exact if_pos (contains_iff_mem.mpr h)

/-- A bare tool behind an invented prefix means that tool, whatever the custom tools are. -/
theorem PrefixedBare.normalize (h : C.PrefixedBare name bare) (hC : C.Coherent)
    (custom : Option (List JsString)) :
    normalizeDeclaredToolName name (some C.declared) C.declaredBare custom = bare := by
  obtain ⟨rfl, hne, hbare, hundeclared⟩ := h
  have hdeclared : C.declared.contains bare = true := contains_iff_mem.mpr (hC bare hbare)
  have hcontains : (C.declaredBare.getD C.declared).contains bare = true :=
    contains_iff_mem.mpr hbare
  have hcandidate : ∀ customExec, withoutDefault (js "default." ++ bare) C.declared C.declaredBare
      customExec = bare := by
    intro customExec
    rw [withoutDefault, if_pos (isPrefixOf_default_append bare)]
    exact if_pos ⟨length_pos_iff.mpr hne, by rw [drop_default, hcontains]; rfl, hundeclared⟩
  rw [normalizeDeclaredToolName, prefixed_notMem hundeclared, if_neg Bool.false_ne_true]
  dsimp only
  rw [hcandidate, hdeclared, if_pos rfl, ite_self]

theorem PrefixedBare.renamed (h : C.PrefixedBare name bare) (hC : C.Coherent) :
    C.Renamed name bare where
  means := h.normalize hC none
  ne heq := by
    obtain ⟨rfl, -, -, -⟩ := h
    have hlen := congrArg List.length heq
    have h8 : (js "default.").length = 8 := rfl
    rw [length_append, h8] at hlen
    omega
  declared := hC bare h.2.2.1
  why := .inr h

theorem bareOfPrefixed_eq_some : C.bareOfPrefixed name = some bare ↔ C.PrefixedBare name bare := by
  rw [bareOfPrefixed]
  constructor
  · intro h
    rw [ite_none_right_eq_some] at h
    obtain ⟨hstarts, h⟩ := h
    dsimp only at h
    rw [ite_none_right_eq_some] at h
    obtain ⟨⟨hne, hcontains, hundeclared⟩, h⟩ := h
    obtain rfl := some_inj.mp h
    exact ⟨isPrefixOf_default hstarts, hne, contains_iff_mem.mp hcontains, hundeclared⟩
  · rintro ⟨rfl, hne, hbare, hundeclared⟩
    rw [if_pos (isPrefixOf_default_append bare)]
    exact if_pos ⟨hne, contains_iff_mem.mpr hbare, hundeclared⟩

variable {m : JsString}

theorem authorizedName_eq_some :
    C.authorizedName name = some m ↔ isSchemaValidResponsesToolName name = false ∧
      C.emittedAs name = m ∧ m ≠ name ∧ m ∈ C.declared ∧ isSchemaValidResponsesToolName m = true := by
  rw [authorizedName]
  constructor
  · intro h
    rw [ite_none_left_eq_some] at h
    obtain ⟨hinvalid, h⟩ := h
    rw [ite_none_right_eq_some] at h
    obtain ⟨⟨hne, hdeclared, hvalid⟩, h⟩ := h
    obtain rfl := some_inj.mp h
    exact ⟨Bool.eq_false_iff.mpr hinvalid, rfl, hne, contains_iff_mem.mp hdeclared, hvalid⟩
  · rintro ⟨hinvalid, rfl, hne, hdeclared, hvalid⟩
    rw [hinvalid, if_neg Bool.false_ne_true]
    exact if_pos ⟨hne, contains_iff_mem.mpr hdeclared, hvalid⟩

theorem renamed_iff (hC : C.Coherent) :
    (C.bareOfPrefixed name).or (C.authorizedName name) = some m ↔ C.Renamed name m := by
  constructor
  · intro h
    rcases or_eq_some_iff.mp h with h | ⟨-, h⟩
    · exact (bareOfPrefixed_eq_some.mp h).renamed hC
    · obtain ⟨hinvalid, hmeans, hne, hdeclared, hvalid⟩ := authorizedName_eq_some.mp h
      exact ⟨hmeans, hne, hdeclared, .inl ⟨hinvalid, hvalid⟩⟩
  · intro h
    cases hbare : C.bareOfPrefixed name with
    | some bare =>
      have := ((bareOfPrefixed_eq_some.mp hbare).renamed hC).means
      rw [some_or, ← this, h.means]
    | none =>
      rcases h.why with ⟨hinvalid, hvalid⟩ | hprefixed
      · exact authorizedName_eq_some.mpr ⟨hinvalid, h.means, h.ne, h.declared, hvalid⟩
      · rw [bareOfPrefixed_eq_some.mpr hprefixed] at hbare
        nomatch hbare

theorem Renamed.ne_nil (h : C.Renamed name m) : m ≠ [] := by
  rcases h.why with ⟨-, hvalid⟩ | hprefixed
  · exact ne_nil_of_valid hvalid
  · exact hprefixed.2.1

/-! ## Calls -/

/-- The name of a call that the client executes. -/
def callName (item : Json) : Option JsString :=
  if item.isObject ∧ ∃ type ∈ clientExecutedCallTypes, stringAt item "type" = some type then
    nonEmptyAt item "name"
  else none

/-- A call without a namespace, or in the namespace `functions`. -/
def Unqualified (item : Json) : Prop :=
  stringAt item "namespace" = none ∨ stringAt item "namespace" = some builtinFunctionsNamespace

/-- A call that is sent on carries the name it means. -/
def Resolved (C : Catalog) (item sent : Json) : Prop :=
  ∀ name r, callName item = some name → Unqualified item → C.Repairable name r →
    stringAt sent "name" = some r

/-- A call that the guard treats as the catalog says. -/
structure Sound (C : Catalog) (item : Json) : Prop where
  /-- What a call in `functions` is renamed to is declared in `functions` too, unless the provider
  executes the call. -/
  functions : ∀ name m, callName item = some name →
    stringAt item "namespace" = some builtinFunctionsNamespace →
      C.isAuthorizedProviderExecutedCall item = false → C.Renamed name m →
        C.declaredUnder builtinFunctionsNamespace m = true
  /-- A name that has to be repaired has no namespace of another kind than a string, and means the
  same without the custom tools. -/
  resolved : ∀ name r, callName item = some name → Unqualified item → C.Repairable name r →
    (item.field? (js "namespace") = none ∨
      stringAt item "namespace" = some builtinFunctionsNamespace) ∧ C.emittedAs name = r

variable {item : Json}

theorem callName_eq_some (h : callName item = some name) :
    item.isObject = true ∧ (∃ type ∈ clientExecutedCallTypes, stringAt item "type" = some type) ∧
      nonEmptyAt item "name" = some name := by
  rw [callName, ite_none_right_eq_some] at h
  exact ⟨h.1.1, h.1.2, h.2⟩

variable {key : String}

theorem nonEmptyAt_eq_some {v : Json} {s : JsString} :
    nonEmptyAt v key = some s ↔ stringAt v key = some s ∧ s ≠ [] := by
  rw [nonEmptyAt, filter_eq_some_iff, decide_eq_true_eq]

theorem undeclared_of_call (h : callName item = some name) : C.undeclaredNameInItem item =
      if C.isAuthorizedProviderExecutedCall item then none else match stringAt item "namespace" with
        | some ns =>
          if C.declaredUnder ns name then none
          else if ns = js "default" ∧ C.bareOfDefault name then none
          else some name
        | none => if C.declared.contains (C.authorizedAs name) then none else some name := by
  obtain ⟨hobject, ⟨type, htype, hitem⟩, hname⟩ := callName_eq_some h
  rw [undeclaredNameInItem, hobject, hitem, hname]
  simp only [Bool.not_true, Bool.false_eq_true, if_false]
  by_cases hprovider : C.isAuthorizedProviderExecutedCall item = true
  · rw [if_pos hprovider, if_pos hprovider]
  · rw [if_neg hprovider, if_neg hprovider]
    have hlookup : namelessClientCallDisplayNames.lookup type = none := by
      rcases mem_cons.mp htype with rfl | htype
      · decide
      · obtain rfl := mem_singleton.mp htype
        decide
    rw [hlookup]
    simp only [htype, not_true_eq_false, if_false]
    rfl

theorem normalize_of_call (h : callName item = some name) : C.normalizeDefaultNamespaceInItem item =
      if stringAt item "namespace" = some (js "default") then if C.bareOfDefault name then
          some ((item.setField (js "name") (.str (stripDefault name))).eraseField (js "namespace"))
        else none else if (item.field? (js "namespace")).isNone ∨
          stringAt item "namespace" = some builtinFunctionsNamespace then
        ((C.bareOfPrefixed name).or (C.authorizedName name)).map fun m ↦
          item.setField (js "name") (.str m) else none := by
  obtain ⟨hobject, ⟨type, htype, hitem⟩, hname⟩ := callName_eq_some h
  rw [normalizeDefaultNamespaceInItem, hobject, hitem, hname]
  simp only [Bool.not_true, Bool.false_eq_true, if_false, all_some, decide_eq_true_eq,
    htype, not_true_eq_false]

theorem normalize_of_not_call (h : callName item = none) :
    C.normalizeDefaultNamespaceInItem item = none := by
  rw [normalizeDefaultNamespaceInItem]
  by_cases hobject : (!item.isObject) = true
  · rw [if_pos hobject]
  · rw [if_neg hobject]
    by_cases htype : (stringAt item "type").all (· ∉ clientExecutedCallTypes) = true
    · rw [if_pos htype]
    · have hcall : item.isObject = true ∧
          ∃ type ∈ clientExecutedCallTypes, stringAt item "type" = some type := by
        refine ⟨by simpa using hobject, ?_⟩
        cases ht : stringAt item "type" with
        | none => exact absurd (by rw [ht]; rfl) htype
        | some type =>
          rw [ht, all_some, decide_eq_true_eq, not_not] at htype
          exact ⟨type, htype, rfl⟩
      rw [callName, if_pos hcall] at h
      rw [if_neg htype, h]

theorem relayed_of_not_call (h : callName item = none) : C.relayed item = item := by
  rw [relayed, normalize_of_not_call h]
  rfl

/-! ## Renamed items -/

theorem stringAt_setField_of_ne (item w : Json) (h : js key ≠ name) :
    stringAt (item.setField name w) key = stringAt item key := by
  rw [stringAt, stringAt, Json.field?_setField_of_ne item w h]

theorem stringAt_setField_self (h : item.isObject = true) (key : String) (s : JsString) :
    stringAt (item.setField (js key) (.str s)) key = some s := by
  rw [stringAt, Json.field?_setField_self h]
  rfl

theorem stringAt_eraseField_of_ne (item : Json) (h : js key ≠ name) :
    stringAt (item.eraseField name) key = stringAt item key := by
  rw [stringAt, stringAt, Json.field?_eraseField_of_ne item h]

theorem stringAt_eraseField_self (item : Json) (key : String) :
    stringAt (item.eraseField (js key)) key = none := by
  rw [stringAt, Json.field?_eraseField_self]
  rfl

theorem callName_setField (h : callName item = some name) (hm : m ≠ []) :
    callName (item.setField (js "name") (.str m)) = some m := by
  obtain ⟨hobject, ⟨type, htype, hitem⟩, -⟩ := callName_eq_some h
  rw [callName, if_pos ⟨by rw [Json.isObject_setField, hobject], type, htype, by
    rw [stringAt_setField_of_ne item _ (by decide), hitem]⟩]
  exact nonEmptyAt_eq_some.mpr ⟨stringAt_setField_self hobject "name" m, hm⟩

theorem isAuthorizedProviderExecutedCall_setField (item : Json) (w : Json) :
    C.isAuthorizedProviderExecutedCall (item.setField (js "name") w) =
      C.isAuthorizedProviderExecutedCall item := by
  rw [isAuthorizedProviderExecutedCall, isAuthorizedProviderExecutedCall,
    stringAt_setField_of_ne item w (by decide), stringAt_setField_of_ne item w (by decide)]

theorem undeclared_setField (h : callName item = some name) (hm : m ≠ []) :
    C.undeclaredNameInItem (item.setField (js "name") (.str m)) =
      if C.isAuthorizedProviderExecutedCall item then none else match stringAt item "namespace" with
        | some ns =>
          if C.declaredUnder ns m then none
          else if ns = js "default" ∧ C.bareOfDefault m then none
          else some m
        | none => if C.declared.contains (C.authorizedAs m) then none else some m := by
  rw [undeclared_of_call (callName_setField h hm), isAuthorizedProviderExecutedCall_setField,
    stringAt_setField_of_ne item _ (by decide)]

/-! ## The condition is exact -/

theorem stripDefault_of_bareOfDefault (h : C.bareOfDefault name = true) :
    stripDefault name ≠ [] ∧ stripDefault name ∈ C.bareDeclared := by
  rw [bareOfDefault] at h
  simp only [Bool.and_eq_true, decide_eq_true_eq] at h
  exact ⟨h.1.1.1, contains_iff_mem.mp h.1.1.2⟩

theorem admitted_of_default (hC : C.Coherent) (hname : callName item = some name)
    (hns : stringAt item "namespace" = some (js "default"))
    (hadm : C.undeclaredNameInItem item = none) :
    C.undeclaredNameInItem (C.relayed item) = none := by
  rw [relayed, normalize_of_call hname, if_pos hns]
  by_cases hbare : C.bareOfDefault name = true
  · obtain ⟨hne, hmem⟩ := stripDefault_of_bareOfDefault hbare
    rw [if_pos hbare, getD_some]
    have hcall := callName_setField hname hne
    obtain ⟨hobject, ⟨type, htype, hitem⟩, hcallName⟩ := callName_eq_some hcall
    have hcall' : callName ((item.setField (js "name") (.str (stripDefault name))).eraseField
        (js "namespace")) = some (stripDefault name) := by
      rw [callName, if_pos ⟨by rw [Json.isObject_eraseField, hobject], type, htype, by
        rw [stringAt_eraseField_of_ne _ (by decide), hitem]⟩, nonEmptyAt_eq_some,
        stringAt_eraseField_of_ne _ (by decide)]
      exact nonEmptyAt_eq_some.mp hcallName
    rw [undeclared_of_call hcall', stringAt_eraseField_self]
    dsimp only
    rw [authorizedAs, normalize_of_mem (hC _ hmem), contains_iff_mem.mpr (hC _ hmem), if_pos rfl,
      ite_self]
  · rw [if_neg hbare]
    exact hadm

theorem resolved_self (hname : callName item = some name) :
    C.Resolved item item ↔ ∀ r, Unqualified item → ¬ C.Repairable name r := by
  have hitem := (nonEmptyAt_eq_some.mp (callName_eq_some hname).2.2).1
  constructor
  · intro h r hun hr
    have := h name r hname hun hr
    rw [hitem, some_inj] at this
    exact hr.ne this.symm
  · intro h name' r hname' hun hr
    rw [hname, some_inj] at hname'
    exact absurd hr (hname' ▸ h r hun)

theorem sound_iff (hname : callName item = some name) : C.Sound item ↔
      (stringAt item "namespace" = some builtinFunctionsNamespace →
        C.isAuthorizedProviderExecutedCall item = false → ∀ m, C.Renamed name m →
          C.declaredUnder builtinFunctionsNamespace m = true) ∧
      ∀ r, Unqualified item → C.Repairable name r → (item.field? (js "namespace") = none ∨
          stringAt item "namespace" = some builtinFunctionsNamespace) ∧ C.emittedAs name = r := by
  constructor
  · intro h
    exact ⟨fun hns hprovider m hm ↦ h.functions name m hname hns hprovider hm,
      fun r hun hr ↦ h.resolved name r hname hun hr⟩
  · rintro ⟨hfunctions, hresolved⟩
    refine ⟨fun name' m hname' hns hprovider hm ↦ ?_, fun name' r hname' hun hr ↦ ?_⟩
    · rw [hname, some_inj] at hname'
      exact hfunctions hns hprovider m (hname' ▸ hm)
    · rw [hname, some_inj] at hname'
      exact hname' ▸ hresolved r hun (hname' ▸ hr)

theorem Repairable.renamed {r : JsString} (h : C.Repairable name r) (hmeans : C.emittedAs name = r) :
    C.Renamed name r :=
  ⟨hmeans, h.ne, h.declared, .inl ⟨h.invalid, h.valid⟩⟩

theorem unqualified_of_plain (h : item.field? (js "namespace") = none ∨
    stringAt item "namespace" = some builtinFunctionsNamespace) : Unqualified item := by
  rcases h with h | h
  · exact .inl (by rw [stringAt, h]; rfl)
  · exact .inr h

/-- A call that emission may rename: it is sent on as the condition says, or not renamed at all. -/
theorem relayed_sound_of_plain (hC : C.Coherent) (hname : callName item = some name)
    (hadm : C.undeclaredNameInItem item = none)
    (hdefault : stringAt item "namespace" ≠ some (js "default"))
    (hplain : item.field? (js "namespace") = none ∨
      stringAt item "namespace" = some builtinFunctionsNamespace) :
    (C.undeclaredNameInItem (C.relayed item) = none ∧ C.Resolved item (C.relayed item)) ↔
      C.Sound item := by
  have hun := unqualified_of_plain hplain
  rw [sound_iff hname]
  rw [relayed, normalize_of_call hname, if_neg hdefault,
    if_pos (hplain.imp_left fun h ↦ by rw [h]; rfl)]
  cases ho : (C.bareOfPrefixed name).or (C.authorizedName name) with
  | none =>
    rw [map_none, getD_none, resolved_self hname]
    have hnot : ∀ m, ¬ C.Renamed name m := fun m hm ↦ by
      rw [(renamed_iff hC).mpr hm] at ho
      nomatch ho
    constructor
    · rintro ⟨-, h⟩
      exact ⟨fun _ _ m hm ↦ absurd hm (hnot m), fun r hun hr ↦ absurd hr (h r hun)⟩
    · rintro ⟨-, h⟩
      exact ⟨hadm, fun r hun hr ↦ hnot r (hr.renamed (h r hun hr).2)⟩
  | some m =>
    have hm := (renamed_iff hC).mp ho
    have hobject := (callName_eq_some hname).1
    rw [map_some, getD_some, undeclared_setField hname hm.ne_nil]
    have hresolved : C.Resolved item (item.setField (js "name") (.str m)) ↔
        ∀ r, Unqualified item → C.Repairable name r → (item.field? (js "namespace") = none ∨
            stringAt item "namespace" = some builtinFunctionsNamespace) ∧ C.emittedAs name = r := by
      constructor
      · intro h r hun hr
        have := h name r hname hun hr
        rw [stringAt_setField_self hobject, some_inj] at this
        exact ⟨hplain, hm.means.trans this⟩
      · intro h name' r hname' hun hr
        rw [hname, some_inj] at hname'
        subst hname'
        rw [stringAt_setField_self hobject, ← hm.means, (h r hun hr).2]
    rw [hresolved]
    refine and_congr_left fun _ ↦ ?_
    have hself : ∀ m', C.Renamed name m' → m' = m := fun m' hm' ↦ hm'.means.symm.trans hm.means
    rcases hplain with hnone | hfunctions
    · have hns : stringAt item "namespace" = none := by
        rw [stringAt, hnone]
        rfl
      rw [hns, authorizedAs, normalize_of_mem hm.declared]
      dsimp only
      rw [contains_iff_mem.mpr hm.declared, if_pos rfl, ite_self]
      simp
    · rw [hfunctions]
      dsimp only
      have hne : ¬(builtinFunctionsNamespace = js "default" ∧ C.bareOfDefault m = true) :=
        fun h ↦ absurd h.1 (by decide)
      rw [if_neg hne]
      cases hprovider : C.isAuthorizedProviderExecutedCall item with
      | true => simp
      | false =>
        rw [if_neg Bool.false_ne_true]
        constructor
        · intro h _ _ m' hm'
          rw [hself m' hm']
          by_contra hunder
          rw [if_neg hunder] at h
          nomatch h
        · intro h
          rw [if_pos (h rfl rfl m hm)]

/-- **An admitted call is sent on as the catalog admits it, under the name it was admitted as,
exactly when it is sound.** -/
theorem relayed_sound (hC : C.Coherent) (hadm : C.undeclaredNameInItem item = none) :
    (C.undeclaredNameInItem (C.relayed item) = none ∧ C.Resolved item (C.relayed item)) ↔
      C.Sound item := by
  cases hname : callName item with
  | none =>
    rw [relayed_of_not_call hname]
    refine iff_of_true ⟨hadm, fun name r h ↦ ?_⟩ ⟨fun name m h ↦ ?_, fun name r h ↦ ?_⟩
    all_goals
      rw [hname] at h
      nomatch h
  | some name =>
    by_cases hdefault : stringAt item "namespace" = some (js "default")
    · have hfunctions : stringAt item "namespace" ≠ some builtinFunctionsNamespace := by
        rw [hdefault]
        decide
      have hnot : ¬ Unqualified item := by
        rintro (h | h)
        · rw [hdefault] at h
          nomatch h
        · exact hfunctions h
      exact iff_of_true ⟨admitted_of_default hC hname hdefault hadm,
        fun _ _ _ hun ↦ absurd hun hnot⟩
        ⟨fun _ _ _ hns ↦ absurd hns hfunctions, fun _ _ _ hun ↦ absurd hun hnot⟩
    · by_cases hplain : item.field? (js "namespace") = none ∨
          stringAt item "namespace" = some builtinFunctionsNamespace
      · exact relayed_sound_of_plain hC hname hadm hdefault hplain
      · -- a namespace of its own, or one that is no string: the call is left as it is
        have hself : C.relayed item = item := by
          rw [relayed, normalize_of_call hname, if_neg hdefault, if_neg, getD_none]
          rwa [isNone_iff_eq_none]
        rw [hself, resolved_self hname, sound_iff hname]
        rw [not_or] at hplain
        constructor
        · rintro ⟨-, h⟩
          exact ⟨fun hns ↦ absurd hns hplain.2, fun r hun hr ↦ absurd hr (h r hun)⟩
        · rintro ⟨-, h⟩
          exact ⟨hadm, fun r hun hr ↦ (h r hun hr).1.elim hplain.1 hplain.2⟩

end Catalog

end Tools
