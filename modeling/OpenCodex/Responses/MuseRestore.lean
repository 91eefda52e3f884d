import OpenCodex.Responses.MuseReversible

/-!
# The way back

A value in which nothing carries an alias is left as it is by the way back (`restoreValue_plain`), at
any depth.  What the rewrite has made of such a value is restored from the inside out: a tool, a call,
an input item, the request.
-/

set_option autoImplicit false

open List Option Json

namespace MuseToolNames

open Bridge (truthy)
open Sse (stringOf)

section

variable (aliases : OMap JsString JsString)

/-- The value is of a kind that the way back renames, and has a name that it renames. -/
def namesAlias (v : Json) : Bool :=
  (isMuseToolIdentityType v && (nameOf v).any aliases.has) ||
    (nestedFunction v).any fun fn ↦ (nameOf fn).any aliases.has

/-- An object of the language, whose name, if it stands for a tool, is no alias. -/
structure Plain (v : Json) : Prop where
  distinct : v.Distinct
  proto : v.field? (js "__proto__") = none
  silent : namesAlias aliases v = false

instance (v : Json) : Decidable (Plain aliases v) :=
  have : Decidable (v.field? (js "__proto__") = none) := decidable_of_iff _ isNone_iff_eq_none
  decidable_of_iff (v.Distinct ∧ v.field? (js "__proto__") = none ∧ namesAlias aliases v = false)
    ⟨fun h ↦ ⟨h.1, h.2.1, h.2.2⟩, fun h ↦ ⟨h.1, h.2, h.3⟩⟩

variable {aliases} {v w : Json}

/-! ## One value -/

theorem aliasOf_eq_none (h : (nameOf v).any aliases.has = false) : aliasOf aliases v = none := by
  rw [aliasOf]
  cases hname : nameOf v with
  | none => rfl
  | some name =>
    rw [hname, any_some, OMap.has_eq_false_iff] at h
    rw [bind_some, h]
    rfl

variable {original : JsString}

theorem aliasOf_eq_some {name : JsString} (hname : nameOf v = some name)
    (halias : aliases.get? name = some original) (hne : original ≠ name) (hnonempty : original ≠ []) :
    aliasOf aliases v = some original := by
  rw [aliasOf, hname, bind_some, halias, truthy]
  simp [hne, hnonempty]

theorem restoreName_of_none (h : aliasOf aliases v = none) : restoreName aliases v = (v, false) := by
  rw [restoreName, h]

theorem restoreName_of_some (h : aliasOf aliases v = some original) :
    restoreName aliases v = (v.setField (js "name") (.str original), true) := by
  rw [restoreName, h]

theorem restoreName_same (h : (restoreName aliases v).2 = false) :
    (restoreName aliases v).1 = v := by
  rw [restoreName] at h ⊢
  split at h
  · rfl
  · nomatch h

/-- The second part: the function inside. -/
def restoreNested (aliases : OMap JsString JsString) (v : Json) : Json :=
  match nestedFunction v with
  | none => v
  | some fn =>
    if (restoreName aliases fn).2 then v.setField (js "function") (restoreName aliases fn).1 else v

theorem restoreNamedIdentity_fst (v : Json) : (restoreNamedIdentity aliases v).1 =
    restoreNested aliases (if isMuseToolIdentityType v then (restoreName aliases v).1 else v) := by
  rw [restoreNamedIdentity]
  have hfirst : (if isMuseToolIdentityType v then restoreName aliases v else (v, false)).1 =
      if isMuseToolIdentityType v then (restoreName aliases v).1 else v := by
    split_ifs <;> rfl
  dsimp only
  rw [← hfirst]
  generalize (if isMuseToolIdentityType v then restoreName aliases v else (v, false)) = first
  cases hfn : nestedFunction first.1 with
  | none => simp only [restoreNested, hfn]
  | some fn =>
    simp only [restoreNested, hfn]
    split_ifs <;> rfl

theorem restoreNamedIdentity_same (h : (restoreNamedIdentity aliases v).2 = false) :
    (restoreNamedIdentity aliases v).1 = v := by
  rw [restoreNamedIdentity] at h ⊢
  have hfirst : (if isMuseToolIdentityType v then restoreName aliases v else (v, false)).2 = false →
      (if isMuseToolIdentityType v then restoreName aliases v else (v, false)).1 = v := by
    split_ifs
    · exact restoreName_same
    · exact fun _ ↦ rfl
  dsimp only at h ⊢
  generalize (if isMuseToolIdentityType v then restoreName aliases v else (v, false)) = first
    at h hfirst ⊢
  cases hfn : nestedFunction first.1 with
  | none =>
    simp only [hfn] at h ⊢
    exact hfirst h
  | some fn =>
    simp only [hfn] at h ⊢
    split_ifs at h ⊢
    exact hfirst h

theorem restoreNamedIdentity_silent (h : namesAlias aliases v = false) :
    restoreNamedIdentity aliases v = (v, false) := by
  rw [namesAlias, Bool.or_eq_false_iff] at h
  obtain ⟨hown, hnested⟩ := h
  have hfirst : (if isMuseToolIdentityType v then restoreName aliases v else (v, false)) =
      (v, false) := by
    split_ifs with htype
    · rw [htype, Bool.true_and] at hown
      exact restoreName_of_none (aliasOf_eq_none hown)
    · rfl
  rw [restoreNamedIdentity]
  dsimp only
  rw [hfirst]
  dsimp only
  cases hfn : nestedFunction v with
  | none => rfl
  | some fn =>
    rw [hfn, any_some] at hnested
    dsimp only
    rw [restoreName_of_none (aliasOf_eq_none hnested)]
    rfl

/-! ## The walk -/

/-- What a value is restored to. -/
def restored (aliases : OMap JsString JsString) (v : Json) : Json := (restoreValue aliases v).1

theorem restoreValue_same (h : (restoreValue aliases v).2 = false) : restored aliases v = v := by
  rw [restored]
  cases v with
  | arr items =>
    rw [restoreValue] at h ⊢
    split_ifs at h ⊢
    rfl
  | obj members =>
    rw [restoreValue] at h ⊢
    split_ifs at h ⊢
    all_goals rfl
  | _ => rfl

theorem restoreItems_eq (items : List Json) : restoreItems aliases items =
    (items.map (restored aliases), items.any fun v ↦ (restoreValue aliases v).2) := by
  induction items with
  | nil => rfl
  | cons item items ih => rw [restoreItems, ih]; rfl

theorem restoreMembers_eq {members : List (JsString × Json)}
    (h : js "__proto__" ∉ members.map Prod.fst) : restoreMembers aliases members =
      (members.map fun m ↦ (m.1, restored aliases m.2),
        members.any fun m ↦ (restoreValue aliases m.2).2) := by
  induction members with
  | nil => rfl
  | cons member members ih =>
    rw [map_cons, mem_cons, not_or] at h
    rw [restoreMembers, ih h.2, if_neg (Ne.symm h.1)]
    rfl

theorem restored_arr (items : List Json) :
    restored aliases (.arr items) = .arr (items.map (restored aliases)) := by
  rw [restored, restoreValue, restoreItems_eq]
  dsimp only
  split_ifs with hany
  · rfl
  · refine congrArg Json.arr ?_
    conv_lhs => rw [← List.map_id items]
    refine map_congr_left fun v hv ↦ (restoreValue_same ?_).symm
    exact eq_false_of_ne_true fun htrue ↦ hany (List.any_eq_true.mpr ⟨v, hv, htrue⟩)

theorem restored_obj (hobject : v.isObject = true) (hproto : v.field? (js "__proto__") = none) :
    restored aliases v = (restoreNamedIdentity aliases (v.mapFields (restored aliases))).1 := by
  obtain ⟨members, rfl⟩ := isObject_iff.mp hobject
  have hkeys := lookup_eq_none.mp (show Json.lookup members (js "__proto__") = none from hproto)
  rw [restored, restoreValue, restoreMembers_eq hkeys]
  dsimp only
  have hnode : (if (members.any fun m ↦ (restoreValue aliases m.2).2) = true then
      Json.obj (members.map fun m ↦ (m.1, restored aliases m.2)) else .obj members) =
        (Json.obj members).mapFields (restored aliases) := by
    split_ifs with hany
    · rfl
    · refine (mapFields_same fun ms hms m hm ↦ restoreValue_same ?_).symm
      obtain rfl := Json.obj.inj hms
      exact eq_false_of_ne_true fun htrue ↦ hany (List.any_eq_true.mpr ⟨m, hm, htrue⟩)
  rw [hnode]
  split_ifs with hidentity hany
  · rfl
  · rw [restoreNamedIdentity_same (eq_false_of_ne_true hidentity)]
    rfl
  · rw [restoreNamedIdentity_same (eq_false_of_ne_true hidentity), ← hnode, if_neg hany]

mutual

/-- **Nothing to restore**: a value in which nothing carries an alias stays as it is. -/
theorem restored_plain (v : Json) (h : ∀ p ∈ v.parts, Plain aliases p) : restored aliases v = v := by
  match v with
  | .arr items => rw [restored_arr, map_restored_plain items fun p hp ↦ h p (.tail _ hp)]
  | .obj members =>
    have hself := h _ (mem_parts_self _)
    rw [restored_obj rfl hself.proto, mapFields,
      map_restored_members members fun p hp ↦ h p (.tail _ hp),
      restoreNamedIdentity_silent hself.silent]
  | .null | .bool _ | .num _ | .str _ => rfl

theorem map_restored_plain (items : List Json) (h : ∀ p ∈ partsOfItems items, Plain aliases p) :
    items.map (restored aliases) = items := by
  match items with
  | [] => rfl
  | item :: items =>
    rw [map_cons, restored_plain item fun p hp ↦ h p (mem_append_left _ hp),
      map_restored_plain items fun p hp ↦ h p (mem_append_right _ hp)]

theorem map_restored_members (members : List (JsString × Json))
    (h : ∀ p ∈ partsOfMembers members, Plain aliases p) :
    members.map (fun m ↦ (m.1, restored aliases m.2)) = members := by
  match members with
  | [] => rfl
  | (key, v) :: members =>
    rw [map_cons, restored_plain v fun p hp ↦ h p (mem_append_left _ hp),
      map_restored_members members fun p hp ↦ h p (mem_append_right _ hp)]

end

end

/-! ## What was renamed -/

section

variable {aliases wireByOriginal : OMap JsString JsString} {names : List JsString}
  {v : Json} {original wire : JsString}

/-- A name and what it was renamed to. -/
structure Renames (aliases : OMap JsString JsString) (original wire : JsString) : Prop where
  back : aliases.get? wire = some original
  ne : original ≠ wire
  nonempty : original ≠ []
  stays : aliases.has original = false

theorem PlanFor.renames (h : PlanFor names wireByOriginal aliases)
    (hnonempty : ∀ name ∈ names, name ≠ []) (hwire : wireByOriginal.get? original = some wire)
    (hne : wire ≠ original) : Renames aliases original wire where
  back := h.alias_iff.mpr ⟨hwire, hne⟩
  ne := hne.symm
  nonempty := hnonempty _ (h.known hwire)
  stays := by
    rw [OMap.has_eq_false_iff]
    cases halias : aliases.get? original with
    | none => rfl
    | some other =>
      have hpass := h.passes (h.alias_iff.mp halias).1
      exact absurd (h.fixed hwire hpass) hne

theorem nameOf_setField (hobject : v.isObject = true) (name : JsString) :
    nameOf (v.setField (js "name") (.str name)) = some name := by
  rw [nameOf, field?_setField_self hobject]
  rfl

variable {other : JsString}

theorem nameOf_setField_of_ne (h : js "name" ≠ other) (w : Json) :
    nameOf (v.setField other w) = nameOf v := by
  rw [nameOf, nameOf, field?_setField_of_ne _ _ h]

theorem isMuseToolIdentityType_setField (h : js "type" ≠ other) (w : Json) :
    isMuseToolIdentityType (v.setField other w) = isMuseToolIdentityType v := by
  rw [isMuseToolIdentityType, isMuseToolIdentityType, field?_setField_of_ne _ _ h]

theorem nestedFunction_setField (h : js "type" ≠ other) (h' : js "function" ≠ other) (w : Json) :
    nestedFunction (v.setField other w) = nestedFunction v := by
  rw [nestedFunction, nestedFunction, hasType, hasType, field?_setField_of_ne _ _ h,
    field?_setField_of_ne _ _ h']

theorem restoreName_renamed (h : Renames aliases original wire) (hdistinct : v.Distinct)
    (hname : nameOf v = some original) :
    restoreName aliases (v.setField (js "name") (.str wire)) = (v, true) := by
  have hfield := nameOf_eq_some.mp hname
  rw [restoreName_of_some (aliasOf_eq_some (nameOf_setField (isObject_of_field? hfield) wire)
    h.back h.ne h.nonempty), setField_back hdistinct hfield]

theorem restoreName_stays (h : Renames aliases original wire) (hname : nameOf v = some original) :
    restoreName aliases v = (v, false) := by
  refine restoreName_of_none (aliasOf_eq_none ?_)
  rw [hname, any_some]
  exact h.stays

theorem isMuseToolIdentityType_of_hasType {type : JsString} (htype : type ∈ identityTypes)
    (h : hasType v type = true) : isMuseToolIdentityType v = true := by
  rw [hasType, beq_iff_eq] at h
  rw [isMuseToolIdentityType, h, any_some]
  exact contains_iff_mem.mpr htype

theorem mapFields_restored (h : ∀ p ∈ v.parts, Plain aliases p) :
    v.mapFields (restored aliases) = v := by
  refine mapFields_same fun members hmembers m hm ↦ restored_plain _ fun p hp ↦ h p ?_
  rw [hmembers]
  exact parts_subset_members hm hp

theorem restoreNested_silent (h : namesAlias aliases v = false) : restoreNested aliases v = v := by
  rw [namesAlias, Bool.or_eq_false_iff] at h
  cases hfn : nestedFunction v with
  | none => simp only [restoreNested, hfn]
  | some fn =>
    have hnested := h.2
    rw [hfn, any_some] at hnested
    simp only [restoreNested, hfn, restoreName_of_none (aliasOf_eq_none hnested)]
    rfl

variable {name : JsString}

theorem restored_setField (hobject : v.isObject = true) (hname : js "__proto__" ≠ name)
    (h : ∀ p ∈ v.parts, Plain aliases p) (w : Json) : restored aliases (v.setField name w) =
      (restoreNamedIdentity aliases (v.setField name (restored aliases w))).1 := by
  rw [restored_obj ((isObject_setField _ _ _).trans hobject), mapFields_setField,
    mapFields_restored h]
  rw [field?_setField_of_ne _ _ hname, (h v (mem_parts_self v)).proto]

/-- **A call**, or whatever else stands for a tool, gets its name back. -/
theorem restored_renamed (h : Renames aliases original wire) (hplain : ∀ p ∈ v.parts, Plain aliases p)
    (htype : isMuseToolIdentityType v = true) (hname : nameOf v = some original) :
    restored aliases (v.setField (js "name") (.str wire)) = v := by
  have hself := hplain v (mem_parts_self v)
  rw [restored_setField (isObject_of_field? (nameOf_eq_some.mp hname)) (by decide) hplain,
    restoreNamedIdentity_fst, isMuseToolIdentityType_setField (by decide), htype, if_pos rfl]
  have hstr : restored aliases (.str wire) = .str wire := rfl
  rw [hstr, restoreName_renamed h hself.distinct hname, restoreNested_silent hself.silent]

/-! ### Declared tools -/

variable {fn : Json}

/-- The function inside a tool, as the walk leaves it: restored where it stands for a tool itself. -/
theorem restored_fn (h : Renames aliases original wire) (hplain : ∀ p ∈ fn.parts, Plain aliases p)
    (hname : nameOf fn = some original) :
    restored aliases (fn.setField (js "name") (.str wire)) = fn ∨
      restored aliases (fn.setField (js "name") (.str wire)) =
        fn.setField (js "name") (.str wire) := by
  by_cases htype : isMuseToolIdentityType fn = true
  · exact .inl (restored_renamed h hplain htype hname)
  · right
    have hnone : nestedFunction (fn.setField (js "name") (.str wire)) = none := by
      rw [nestedFunction_setField (by decide) (by decide), nestedFunction, if_neg]
      exact fun hfunction ↦ htype (isMuseToolIdentityType_of_hasType (by decide) hfunction)
    rw [restored_setField (isObject_of_field? (nameOf_eq_some.mp hname)) (by decide) hplain,
      restoreNamedIdentity_fst, isMuseToolIdentityType_setField (by decide), if_neg htype]
    have hstr : restored aliases (.str wire) = .str wire := rfl
    simp only [hstr, restoreNested, hnone]

variable {tool : Json}

variable {F : Json}

theorem restoreNested_fn (h : Renames aliases original wire) (htool : tool.Distinct)
    (hfnDistinct : fn.Distinct) (hfn : nestedFunction tool = some fn)
    (hname : nameOf fn = some original) (hF : F = fn ∨ F = fn.setField (js "name") (.str wire)) :
    restoreNested aliases (tool.setField (js "function") F) = tool := by
  obtain ⟨htype, hfield, hobject⟩ := nestedFunction_eq_some hfn
  have hnested : nestedFunction (tool.setField (js "function") F) = some F := by
    have hFobject : F.isObject = true := by
      rcases hF with rfl | rfl
      · exact hobject
      · rw [isObject_setField, hobject]
    rw [hasType] at htype
    rw [nestedFunction, hasType, field?_setField_of_ne _ _ (by decide), htype, if_pos rfl,
      field?_setField_self (isObject_of_field? hfield), filter_some, hFobject]
    rfl
  simp only [restoreNested, hnested]
  rcases hF with rfl | rfl
  · rw [restoreName_stays h hname]
    exact setField_of_field? htool hfield
  · rw [restoreName_renamed h hfnDistinct hname]
    exact setField_back htool hfield _

theorem restoreName_renameOwn (h : Renames aliases original wire) (hself : Plain aliases tool)
    (htype : isMuseToolIdentityType tool = true) :
    (restoreName aliases ((renameOwn original wire tool).setField (js "function") F)).1 =
      tool.setField (js "function") F := by
  rw [renameOwn]
  split_ifs with hown
  · have hfield := nameOf_eq_some.mp hown
    have hobject := isObject_of_field? hfield
    have hname : nameOf ((tool.setField (js "name") (.str wire)).setField (js "function") F) =
        some wire := by
      rw [nameOf_setField_of_ne (by decide), nameOf_setField hobject]
    have hthere : (tool.setField (js "name") (.str wire)).field? (js "name") = some (.str wire) :=
      field?_setField_self hobject _ _
    rw [restoreName_of_some (aliasOf_eq_some hname h.back h.ne h.nonempty),
      ← setField_comm (by decide) hthere, setField_back hself.distinct hfield]
  · have hsilent := hself.silent
    rw [namesAlias, Bool.or_eq_false_iff, htype, Bool.true_and] at hsilent
    rw [restoreName_of_none]
    refine aliasOf_eq_none ?_
    rw [nameOf_setField_of_ne (by decide)]
    exact hsilent.1

theorem renameOwn_of_not_nested (hinner : wireToolInnerName tool = some original)
    (hfn : (nestedFunction tool).filter (fun fn ↦ nameOf fn = some original) = none) :
    nameOf tool = some original := by
  rw [wireToolInnerName, or_eq_some_iff] at hinner
  rcases hinner with h | ⟨-, h⟩
  · exact (filter_eq_some_iff.mp h).1
  · obtain ⟨fn, hnested, hname⟩ := bind_eq_some_iff.mp h
    rw [hnested, filter_eq_none_iff] at hfn
    exact absurd (decide_eq_true (filter_eq_some_iff.mp hname).1) (hfn fn rfl)

/-- **A declared tool** gets its name back. -/
theorem restored_rewriteDeclaredTool (hplan : PlanFor names wireByOriginal aliases)
    (hnonempty : ∀ name ∈ names, name ≠ []) (hplain : ∀ p ∈ tool.parts, Plain aliases p)
    (htype : ∀ name, wireToolInnerName tool = some name →
      isPassThroughMuseToolName name = false → isMuseToolIdentityType tool = true) :
    restored aliases (rewriteDeclaredTool wireByOriginal tool).1 = tool := by
  rw [rewriteDeclaredTool]
  cases hinner : wireToolInnerName tool with
  | none => exact restored_plain tool hplain
  | some original =>
    dsimp only
    cases hwire : wireByOriginal.get? original with
    | none => exact restored_plain tool hplain
    | some wire =>
      dsimp only
      by_cases heq : wire = original
      · rw [if_pos heq]
        exact restored_plain tool hplain
      rw [if_neg heq]
      have h := hplan.renames hnonempty hwire heq
      have hself := hplain tool (mem_parts_self tool)
      have hidentity := htype original hinner
        (eq_false_of_ne_true fun hpass ↦ heq (hplan.fixed hwire hpass))
      cases hfn : (nestedFunction tool).filter fun fn ↦ nameOf fn = some original with
      | none =>
        have hown := renameOwn_of_not_nested hinner hfn
        change restored aliases (renameOwn original wire tool) = tool
        rw [renameOwn, if_pos hown]
        exact restored_renamed h hplain hidentity hown
      | some fn =>
        obtain ⟨hnested, hfnName⟩ := filter_eq_some_iff.mp hfn
        replace hfnName := of_decide_eq_true hfnName
        obtain ⟨-, hfield, -⟩ := nestedFunction_eq_some hnested
        have hfnPlain : ∀ p ∈ fn.parts, Plain aliases p :=
          fun p hp ↦ hplain p (parts_subset_field hfield hp)
        have hF := restored_fn h hfnPlain hfnName
        set F := restored aliases (fn.setField (js "name") (.str wire)) with hFdef
        change restored aliases ((renameOwn original wire tool).setField (js "function")
          (fn.setField (js "name") (.str wire))) = tool
        have hobject := isObject_of_wireToolInnerName hinner
        have hownObject : (renameOwn original wire tool).isObject = true :=
          (renameOwn_agree original wire tool).1.trans hobject
        have hproto : (renameOwn original wire tool).field? (js "__proto__") = none :=
          ((renameOwn_agree original wire tool).2 _ (by decide)).trans hself.proto
        have hfields : (renameOwn original wire tool).mapFields (restored aliases) =
            renameOwn original wire tool := by
          rw [renameOwn]
          split_ifs
          · rw [mapFields_setField, mapFields_restored hplain]
            rfl
          · exact mapFields_restored hplain
        have hownType : isMuseToolIdentityType ((renameOwn original wire tool).setField
            (js "function") F) = true := by
          rw [isMuseToolIdentityType_setField (by decide), isMuseToolIdentityType,
            (renameOwn_agree original wire tool).2 _ (by decide)]
          exact hidentity
        rw [restored_obj ((isObject_setField _ _ _).trans hownObject),
          mapFields_setField, hfields, ← hFdef, restoreNamedIdentity_fst, hownType, if_pos rfl,
          restoreName_renameOwn h hself hidentity]
        · exact restoreNested_fn h hself.distinct (hfnPlain fn (mem_parts_self fn)).distinct
            hnested hfnName hF
        · rw [field?_setField_of_ne _ _ (by decide), hproto]

/-! ### Arrays, items, the request -/

variable {rewrite : Json → Json × Bool}

variable {value : Option Json}

theorem restored_rewriteElements {w : Json} (h : rewriteElements rewrite value = some w)
    (hback : ∀ x ∈ itemsOf value, restored aliases (rewrite x).1 = x) :
    value = some (restored aliases w) := by
  rw [rewriteElements] at h
  split_ifs at h with hany
  obtain rfl := some.inj h
  have harray : value = some (.arr (itemsOf value)) := by
    obtain ⟨x, hx, -⟩ := List.any_eq_true.mp hany
    unfold itemsOf at hx ⊢
    split at hx
    · rfl
    · exact absurd hx not_mem_nil
  have hitems : (itemsOf value).map (fun x ↦ restored aliases (rewrite x).1) = itemsOf value := by
    conv_rhs => rw [← List.map_id (itemsOf value)]
    exact map_congr_left fun x hx ↦ hback x hx
  rw [restored_arr, List.map_map]
  exact harray.trans (congrArg (some <| Json.arr ·) hitems.symm)

theorem mapFields_withField (f : Json → Json) (v : Json) (name : JsString) (value : Option Json) :
    (withField v name value).mapFields f = withField (v.mapFields f) name (value.map f) := by
  cases value with
  | none => rfl
  | some value => exact mapFields_setField f v value name

theorem withField_restored (hdistinct : v.Distinct)
    (hback : ∀ x ∈ itemsOf (v.field? name), restored aliases (rewrite x).1 = x) :
    withField v name ((rewriteElements rewrite (v.field? name)).map (restored aliases)) = v := by
  cases h : rewriteElements rewrite (v.field? name) with
  | none => rfl
  | some w => exact setField_of_field? hdistinct (restored_rewriteElements h hback)

theorem withField_proto (hname : js "__proto__" ≠ name) (h : v.field? (js "__proto__") = none)
    (value : Option Json) : (withField v name value).field? (js "__proto__") = none := by
  cases value with
  | none => exact h
  | some value => rw [withField, field?_setField_of_ne _ _ hname, h]

theorem restored_rewriteToolsOf (hobject : v.isObject = true)
    (hplain : ∀ p ∈ v.parts, Plain aliases p)
    (hback : ∀ x ∈ itemsOf (v.field? (js "tools")), restored aliases (rewrite x).1 = x) :
    restored aliases (rewriteToolsOf rewrite v).1 = v := by
  have hself := hplain v (mem_parts_self v)
  rw [rewriteToolsOf, restored_obj ((withField_agree _ _ _).1.trans hobject)
    (withField_proto (by decide) hself.proto _), mapFields_withField, mapFields_restored hplain,
    withField_restored hself.distinct hback, restoreNamedIdentity_silent hself.silent]

/-- The tools that are declared in an input item. -/
def itemTools (item : Json) : List Json :=
  if hasType item (js "additional_tools") then itemsOf (item.field? (js "tools")) else []

/-- The tools that are declared in a request. -/
def declaredTools (body : Json) : List Json :=
  itemsOf (body.field? (js "tools")) ++ (itemsOf (body.field? (js "input"))).flatMap itemTools

/-- A tool with a name that is renamed is of a kind that the way back renames. -/
def Restorable (tool : Json) : Prop :=
  ∀ name, wireToolInnerName tool = some name → isPassThroughMuseToolName name = false →
    isMuseToolIdentityType tool = true

instance (tool : Json) : Decidable (Restorable tool) :=
  decidable_of_iff ((wireToolInnerName tool).all fun name ↦
      isPassThroughMuseToolName name || isMuseToolIdentityType tool) <| by
    rw [Restorable]
    cases wireToolInnerName tool with
    | none => simp
    | some name => cases hpass : isPassThroughMuseToolName name <;> simp [hpass]

variable {x : Json}

theorem parts_of_itemsOf (hx : x ∈ itemsOf value)
    (hplain : ∀ w, value = some w → ∀ p ∈ w.parts, Plain aliases p) :
    ∀ p ∈ x.parts, Plain aliases p := by
  unfold itemsOf at hx
  split at hx
  · rename_i items
    exact fun p hp ↦ hplain _ rfl p (parts_subset_items hx hp)
  · exact absurd hx not_mem_nil

theorem plain_items (hplain : ∀ p ∈ v.parts, Plain aliases p) (hx : x ∈ itemsOf (v.field? name)) :
    ∀ p ∈ x.parts, Plain aliases p :=
  parts_of_itemsOf hx fun _ hw p hp ↦ hplain p (parts_subset_field hw hp)

theorem restored_rewriteName (hplan : PlanFor names wireByOriginal aliases)
    (hnonempty : ∀ name ∈ names, name ≠ []) (hplain : ∀ p ∈ v.parts, Plain aliases p)
    (htype : isMuseToolIdentityType v = true) :
    restored aliases (rewriteName wireByOriginal v).1 = v := by
  rw [rewriteName]
  cases hname : nameOf v with
  | none => exact restored_plain v hplain
  | some name =>
    dsimp only
    cases hwire : wireByOriginal.get? name with
    | none => exact restored_plain v hplain
    | some wire =>
      dsimp only
      split_ifs with heq
      · exact restored_plain v hplain
      · exact restored_renamed (hplan.renames hnonempty hwire heq) hplain htype hname

/-- **An input item** gets its names back. -/
theorem restored_rewriteInputItem {item : Json} (hplan : PlanFor names wireByOriginal aliases)
    (hnonempty : ∀ name ∈ names, name ≠ []) (hplain : ∀ p ∈ item.parts, Plain aliases p)
    (htools : ∀ tool ∈ itemTools item, Restorable tool) :
    restored aliases (rewriteInputItem wireByOriginal item).1 = item := by
  rw [rewriteInputItem]
  split_ifs with hadditional hcall
  · have htype := (Bool.and_eq_true_iff.mp hadditional).1
    refine restored_rewriteToolsOf (isObject_of_hasType htype) hplain fun tool htool ↦ ?_
    refine restored_rewriteDeclaredTool hplan hnonempty (plain_items hplain htool) (htools tool ?_)
    rw [itemTools, if_pos htype]
    exact htool
  · refine restored_rewriteName hplan hnonempty hplain ?_
    rw [isCall, Bool.or_eq_true] at hcall
    exact hcall.elim (isMuseToolIdentityType_of_hasType (by decide))
      (isMuseToolIdentityType_of_hasType (by decide))
  · exact restored_plain item hplain

theorem rewriteToolChoice_unrestricted {choice : Json} (h : unrestricted (some choice) = true) :
    rewriteToolChoice wireByOriginal choice = (choice, false) := by
  cases choice with
  | str s => rfl
  | _ => nomatch h

variable {body : Json}

theorem rewriteBody_unrestricted (h : unrestricted (body.field? (js "tool_choice")) = true) :
    rewriteBody wireByOriginal body = withField (withField body (js "tools")
        (rewriteElements (rewriteDeclaredTool wireByOriginal) (body.field? (js "tools"))))
      (js "input")
      (rewriteElements (rewriteInputItem wireByOriginal) (body.field? (js "input"))) := by
  have hnone : ((body.field? (js "tool_choice")).bind fun choice ↦
      let r := rewriteToolChoice wireByOriginal choice
      if r.2 then some r.1 else none) = none := by
    cases hfield : body.field? (js "tool_choice") with
    | none => rfl
    | some choice =>
      rw [hfield] at h
      rw [bind_some, rewriteToolChoice_unrestricted h]
      rfl
  rw [rewriteBody]
  dsimp only
  rw [hnone, withField]

/-- **The request** gets its names back. -/
theorem restored_rewriteBody (hplan : PlanFor names wireByOriginal aliases)
    (hnonempty : ∀ name ∈ names, name ≠ []) (hobject : body.isObject = true)
    (hplain : ∀ p ∈ body.parts, Plain aliases p)
    (htools : ∀ tool ∈ declaredTools body, Restorable tool)
    (hchoice : unrestricted (body.field? (js "tool_choice")) = true) :
    restored aliases (rewriteBody wireByOriginal body) = body := by
  have hself := hplain body (mem_parts_self body)
  have hdeclared : ∀ tool ∈ itemsOf (body.field? (js "tools")),
      restored aliases (rewriteDeclaredTool wireByOriginal tool).1 = tool := fun tool htool ↦
    restored_rewriteDeclaredTool hplan hnonempty (plain_items hplain htool)
      (htools tool (mem_append_left _ htool))
  have hitems : ∀ item ∈ itemsOf (body.field? (js "input")),
      restored aliases (rewriteInputItem wireByOriginal item).1 = item := fun item hitem ↦
    restored_rewriteInputItem hplan hnonempty (plain_items hplain hitem) fun tool htool ↦
      htools tool (mem_append_right _ (mem_flatMap.mpr ⟨item, hitem, htool⟩))
  rw [rewriteBody_unrestricted hchoice, restored_obj
      ((withField_agree _ _ _).1.trans ((withField_agree _ _ _).1.trans hobject))
      (withField_proto (by decide) (withField_proto (by decide) hself.proto _) _),
    mapFields_withField, mapFields_withField, mapFields_restored hplain,
    withField_restored hself.distinct hdeclared, withField_restored hself.distinct hitems,
    restoreNamedIdentity_silent hself.silent]

end

end MuseToolNames
