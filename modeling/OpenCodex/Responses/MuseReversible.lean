import OpenCodex.Responses.MuseRewrite

/-!
# The renaming of tool names is reversible

What a request has besides its tool names is not touched, and the names are renamed one to one; so
the way back gives the request again, as long as nothing in it looked like a renamed tool before.
-/

set_option autoImplicit false

open Option

namespace MuseToolNames

open Bridge (truthy)
open Sse (stringOf)

/-! ## Nothing but names is changed -/

/-- The same but for the members of some names. -/
def AgreeBut (names : List JsString) (v w : Json) : Prop :=
  w.isObject = v.isObject ∧ ∀ k, k ∉ names → w.field? k = v.field? k

section

variable (wire : JsString → JsString)

def renameString : Json → Json
  | .str s => .str (wire s)
  | v => v

/-- One name, wherever it is. -/
def renameFrom (original : JsString) : Json → Json
  | .str s => .str (if s = original then wire original else s)
  | v => v

/-- A call or a selector: its name is renamed. -/
def NameRenamed (v w : Json) : Prop :=
  AgreeBut [js "name"] v w ∧
    w.field? (js "name") = (v.field? (js "name")).map (renameString wire)

/-- A declared tool: its name is renamed wherever it is in the tool. -/
def ToolRenamed (tool tool' : Json) : Prop :=
  match wireToolInnerName tool with
  | none => tool' = tool
  | some original =>
    AgreeBut [js "name", js "function"] tool tool' ∧
      tool'.field? (js "name") = (tool.field? (js "name")).map (renameFrom wire original) ∧
      match nestedFunction tool with
      | none => tool'.field? (js "function") = tool.field? (js "function")
      | some fn => ∃ fn', tool'.field? (js "function") = some fn' ∧ AgreeBut [js "name"] fn fn' ∧
          fn'.field? (js "name") = (fn.field? (js "name")).map (renameFrom wire original)

/-- An array element by element; anything else as it is. -/
def Elementwise (R : Json → Json → Prop) (v w : Option Json) : Prop :=
  match v with
  | some (.arr xs) => ∃ ys, w = some (.arr ys) ∧ List.Forall₂ R xs ys
  | v => w = v

def ItemRenamed (item item' : Json) : Prop :=
  if hasType item (js "additional_tools") && isArray (item.field? (js "tools")) then
    AgreeBut [js "tools"] item item' ∧
      Elementwise (ToolRenamed wire) (item.field? (js "tools")) (item'.field? (js "tools"))
  else if isCall item then NameRenamed wire item item'
  else item' = item

def SelectorRenamed (tool tool' : Json) : Prop :=
  if isFunctionOrCustom tool then NameRenamed wire tool tool' else tool' = tool

def ChoiceRenamed (choice choice' : Json) : Prop :=
  if isFunctionOrCustom choice && (nameOf choice).isSome then NameRenamed wire choice choice'
  else if hasType choice (js "allowed_tools") then
    AgreeBut [js "tools"] choice choice' ∧
      Elementwise (SelectorRenamed wire) (choice.field? (js "tools")) (choice'.field? (js "tools"))
  else choice' = choice

/-- The tool names of a request are renamed, and nothing else is changed. -/
structure NamesRenamed (body body' : Json) : Prop where
  others : AgreeBut [js "tools", js "input", js "tool_choice"] body body'
  tools : Elementwise (ToolRenamed wire) (body.field? (js "tools")) (body'.field? (js "tools"))
  input : Elementwise (ItemRenamed wire) (body.field? (js "input")) (body'.field? (js "input"))
  toolChoice : Option.Rel (ChoiceRenamed wire) (body.field? (js "tool_choice"))
    (body'.field? (js "tool_choice"))

end

section

variable {wire : JsString → JsString} {wireByOriginal : OMap JsString JsString} {v w : Json}

theorem agreeBut_refl (names : List JsString) (v : Json) : AgreeBut names v v :=
  ⟨rfl, fun _ _ ↦ rfl⟩

theorem agreeBut_setField (v : Json) (name : JsString) (w : Json) :
    AgreeBut [name] v (v.setField name w) :=
  ⟨Json.isObject_setField _ _ _, fun _ hk ↦
    Json.field?_setField_of_ne _ _ fun heq ↦ hk (heq ▸ List.mem_singleton_self _)⟩

variable {names : List JsString}

theorem AgreeBut.mono {names' : List JsString} (h : AgreeBut names v w) (hsub : names ⊆ names') :
    AgreeBut names' v w :=
  ⟨h.1, fun _ hk ↦ h.2 _ fun hmem ↦ hk (hsub hmem)⟩

theorem AgreeBut.trans {x : Json} (h : AgreeBut names v w) (h' : AgreeBut names w x) :
    AgreeBut names v x :=
  ⟨h'.1.trans h.1, fun k hk ↦ (h'.2 k hk).trans (h.2 k hk)⟩

variable {name : JsString}

theorem isObject_of_field? (h : v.field? name = some w) : v.isObject = true := by
  cases v with
  | obj members => rfl
  | _ => nomatch h

theorem nameOf_eq_some : nameOf v = some name ↔ v.field? (js "name") = some (.str name) := by
  rw [nameOf]
  constructor
  · intro h
    cases hfield : v.field? (js "name") with
    | none => exact absurd h (by simp [hfield, stringOf])
    | some x =>
      rw [hfield] at h
      cases x with
      | str s => exact congrArg (some <| Json.str ·) (some.inj h)
      | _ => nomatch h
  · intro h
    rw [h]
    rfl

theorem map_name_self {f : Json → Json} (hother : ∀ x, stringOf (some x) = none → f x = x)
    (hname : ∀ name, nameOf v = some name → f (.str name) = .str name) :
    (v.field? (js "name")).map f = v.field? (js "name") := by
  cases hfield : v.field? (js "name") with
  | none => rfl
  | some x =>
    cases x with
    | str s => rw [map_some, hname s (nameOf_eq_some.mpr hfield)]
    | _ => rw [map_some, hother _ rfl]

theorem nameRenamed_self (h : ∀ name, nameOf v = some name → wire name = name) :
    NameRenamed wire v v := by
  refine ⟨agreeBut_refl _ v, (map_name_self (fun x hx ↦ ?_) fun name hname ↦ ?_).symm⟩
  · cases x with
    | str s => nomatch hx
    | _ => rfl
  · rw [renameString, h name hname]

/-- The wire name of a name; itself where it has none. -/
def wireOf (wireByOriginal : OMap JsString JsString) (name : JsString) : JsString :=
  (wireByOriginal.get? name).getD name

theorem nameRenamed_rewriteName (v : Json) :
    NameRenamed (wireOf wireByOriginal) v (rewriteName wireByOriginal v).1 := by
  rw [rewriteName]
  cases hname : nameOf v with
  | none => exact nameRenamed_self fun name h ↦ absurd (hname.symm.trans h) (by simp)
  | some name =>
    have hself : wireOf wireByOriginal name = name → NameRenamed (wireOf wireByOriginal) v v := by
      intro heq
      refine nameRenamed_self fun other hother ↦ ?_
      obtain rfl := some.inj (hname.symm.trans hother)
      exact heq
    dsimp only
    cases hwire : wireByOriginal.get? name with
    | none => exact hself (by rw [wireOf, hwire]; rfl)
    | some wire =>
      dsimp only
      split_ifs with heq
      · exact hself (by rw [wireOf, hwire, heq]; rfl)
      · have hfield := nameOf_eq_some.mp hname
        refine ⟨agreeBut_setField _ _ _, ?_⟩
        rw [Json.field?_setField_self (isObject_of_field? hfield), hfield, map_some,
          renameString, wireOf, hwire]
        rfl

theorem rewriteName_same (h : (rewriteName wireByOriginal v).2 = false) :
    (rewriteName wireByOriginal v).1 = v := by
  rw [rewriteName] at h ⊢
  split at h
  · rfl
  · split at h
    · rfl
    · split_ifs at h ⊢
      rfl

/-! ### Declared tools -/

variable {original : JsString}

theorem map_renameFrom_self (h : nameOf v = some original → wire original = original) :
    (v.field? (js "name")).map (renameFrom wire original) = v.field? (js "name") := by
  refine map_name_self (fun x hx ↦ ?_) fun name hname ↦ ?_
  · cases x with
    | str s => nomatch hx
    | _ => rfl
  · rw [renameFrom]
    split_ifs with heq
    · subst heq
      rw [h hname]
    · rfl

variable {tool : Json}

theorem nestedFunction_eq_some {fn : Json} (h : nestedFunction tool = some fn) :
    hasType tool (js "function") = true ∧ tool.field? (js "function") = some fn ∧
      fn.isObject = true := by
  rw [nestedFunction] at h
  split_ifs at h with htype
  exact ⟨htype, filter_eq_some_iff.mp h⟩

theorem isObject_of_wireToolInnerName (h : wireToolInnerName tool = some original) :
    tool.isObject = true := by
  rw [wireToolInnerName, or_eq_some_iff] at h
  rcases h with h | ⟨-, h⟩
  · exact isObject_of_field? (nameOf_eq_some.mp (filter_eq_some_iff.mp h).1)
  · obtain ⟨fn, hfn, -⟩ := bind_eq_some_iff.mp h
    exact isObject_of_field? (nestedFunction_eq_some hfn).2.1

theorem toolRenamed_self (h : ∀ name, wireToolInnerName tool = some name → wire name = name) :
    ToolRenamed wire tool tool := by
  rw [ToolRenamed]
  split
  · rfl
  · rename_i original horiginal
    have hwire := h original horiginal
    refine ⟨agreeBut_refl _ _, (map_renameFrom_self fun _ ↦ hwire).symm, ?_⟩
    split
    · rfl
    · rename_i fn hfn
      exact ⟨fn, (nestedFunction_eq_some hfn).2.1, agreeBut_refl _ _,
        (map_renameFrom_self fun _ ↦ hwire).symm⟩

/-- The tool with the name that stands at the tool itself renamed. -/
def renameOwn (original wire : JsString) (tool : Json) : Json :=
  if nameOf tool = some original then tool.setField (js "name") (.str wire) else tool

theorem renameOwn_agree (original wire : JsString) (tool : Json) :
    AgreeBut [js "name"] tool (renameOwn original wire tool) := by
  rw [renameOwn]
  split_ifs
  · exact agreeBut_setField _ _ _
  · exact agreeBut_refl _ _

theorem field?_name_setField (h : nameOf v = some original) :
    (v.setField (js "name") (.str (wire original))).field? (js "name") =
      (v.field? (js "name")).map (renameFrom wire original) := by
  have hfield := nameOf_eq_some.mp h
  rw [Json.field?_setField_self (isObject_of_field? hfield), hfield, map_some, renameFrom,
    if_pos rfl]

theorem field?_name_renameOwn (original : JsString) (tool : Json) :
    (renameOwn original (wire original) tool).field? (js "name") =
      (tool.field? (js "name")).map (renameFrom wire original) := by
  rw [renameOwn]
  split_ifs with hname
  · exact field?_name_setField hname
  · exact (map_renameFrom_self fun h ↦ absurd h hname).symm

theorem toolRenamed_rewriteDeclaredTool (tool : Json) :
    ToolRenamed (wireOf wireByOriginal) tool (rewriteDeclaredTool wireByOriginal tool).1 := by
  rw [rewriteDeclaredTool]
  cases horiginal : wireToolInnerName tool with
  | none => exact toolRenamed_self fun name h ↦ absurd (horiginal.symm.trans h) (by simp)
  | some original =>
    have hself : wireOf wireByOriginal original = original →
        ToolRenamed (wireOf wireByOriginal) tool tool := by
      intro heq
      refine toolRenamed_self fun name hname ↦ ?_
      obtain rfl := some.inj (horiginal.symm.trans hname)
      exact heq
    dsimp only
    cases hwire : wireByOriginal.get? original with
    | none => exact hself (by rw [wireOf, hwire]; rfl)
    | some wire =>
      have hwireOf : wireOf wireByOriginal original = wire := by
        rw [wireOf, hwire]
        rfl
      dsimp only
      by_cases heq : wire = original
      · rw [if_pos heq]
        exact hself (by rw [hwireOf, heq])
      rw [if_neg heq]
      have hown : AgreeBut [js "name", js "function"] tool (renameOwn original wire tool) :=
        (renameOwn_agree original wire tool).mono (by simp)
      have hname := @field?_name_renameOwn (wireOf wireByOriginal) original tool
      rw [hwireOf] at hname
      cases hfn : (nestedFunction tool).filter fun fn ↦ nameOf fn = some original with
      | none =>
        change ToolRenamed _ tool (renameOwn original wire tool)
        rw [ToolRenamed, horiginal]
        refine ⟨hown, hname, ?_⟩
        have hfunction : (renameOwn original wire tool).field? (js "function") =
            tool.field? (js "function") := (renameOwn_agree original wire tool).2 _ (by decide)
        split
        · exact hfunction
        · rename_i fn hnested
          rw [hnested, filter_eq_none_iff] at hfn
          refine ⟨fn, hfunction.trans (nestedFunction_eq_some hnested).2.1, agreeBut_refl _ _,
            (map_renameFrom_self fun h ↦ ?_).symm⟩
          exact absurd (decide_eq_true h) (hfn fn rfl)
      | some fn =>
        change ToolRenamed _ tool ((renameOwn original wire tool).setField (js "function")
          (fn.setField (js "name") (.str wire)))
        obtain ⟨hnested, hfnName⟩ := filter_eq_some_iff.mp hfn
        rw [ToolRenamed, horiginal]
        refine ⟨hown.trans ((agreeBut_setField _ _ _).mono (by simp)), ?_, ?_⟩
        · rw [Json.field?_setField_of_ne _ _ (by decide), hname]
        · rw [hnested]
          refine ⟨fn.setField (js "name") (.str wire), ?_, agreeBut_setField _ _ _, ?_⟩
          · refine Json.field?_setField_self ?_ _ _
            rw [hown.1, isObject_of_wireToolInnerName horiginal]
          · rw [← hwireOf]
            exact field?_name_setField (of_decide_eq_true hfnName)

theorem rewriteDeclaredTool_same (h : (rewriteDeclaredTool wireByOriginal tool).2 = false) :
    (rewriteDeclaredTool wireByOriginal tool).1 = tool := by
  rw [rewriteDeclaredTool] at h ⊢
  split at h
  · rfl
  · split at h
    · rfl
    · split_ifs at h ⊢
      · rfl
      all_goals split at h <;> nomatch h

/-! ### Arrays -/

theorem itemsOf_arr (items : List Json) : itemsOf (some (.arr items)) = items := rfl

variable {rewrite : Json → Json × Bool}

theorem map_same (hsame : ∀ x, (rewrite x).2 = false →
    (rewrite x).1 = x) {items : List Json} (h : (items.any fun x ↦ (rewrite x).2) = false) :
    items.map (fun x ↦ (rewrite x).1) = items := by
  conv_rhs => rw [← List.map_id items]
  refine List.map_congr_left fun x hx ↦ hsame x ?_
  exact eq_false_of_ne_true fun htrue ↦
    absurd (List.any_eq_true.mpr ⟨x, hx, htrue⟩) (by rw [h]; simp)

variable {R : Json → Json → Prop}

theorem elementwise_rewriteElements (hR : ∀ x, R x (rewrite x).1)
    (hsame : ∀ x, (rewrite x).2 = false → (rewrite x).1 = x) (value : Option Json) :
    Elementwise R value ((rewriteElements rewrite value).or value) := by
  have hforall : ∀ items : List Json, List.Forall₂ R items (items.map fun x ↦ (rewrite x).1) :=
    fun items ↦ List.forall₂_map_right_iff.mpr (List.forall₂_same.mpr fun x _ ↦ hR x)
  unfold Elementwise
  split
  · rename_i items
    refine ⟨items.map fun x ↦ (rewrite x).1, ?_, hforall items⟩
    rw [rewriteElements, itemsOf_arr]
    split_ifs with hany
    · rfl
    · rw [none_or, map_same hsame (eq_false_of_ne_true hany)]
  · rename_i hother
    have hnone : itemsOf value = [] := by
      unfold itemsOf
      split
      · rename_i items
        exact absurd rfl (hother items)
      · rfl
    rw [rewriteElements, hnone]
    rfl

theorem withField_field? (hobject : v.isObject = true) (name : JsString) (value : Option Json) :
    (withField v name value).field? name = value.or (v.field? name) := by
  cases value with
  | none => rfl
  | some value => exact Json.field?_setField_self hobject _ _

theorem withField_agree (v : Json) (name : JsString) (value : Option Json) :
    AgreeBut [name] v (withField v name value) := by
  cases value with
  | none => exact agreeBut_refl _ _
  | some value => exact agreeBut_setField _ _ _

theorem rewriteToolsOf_renamed (hR : ∀ x, R x (rewrite x).1)
    (hsame : ∀ x, (rewrite x).2 = false → (rewrite x).1 = x) (hobject : v.isObject = true) :
    AgreeBut [js "tools"] v (rewriteToolsOf rewrite v).1 ∧
      Elementwise R (v.field? (js "tools")) ((rewriteToolsOf rewrite v).1.field? (js "tools")) := by
  refine ⟨withField_agree _ _ _, ?_⟩
  rw [rewriteToolsOf, withField_field? hobject]
  exact elementwise_rewriteElements hR hsame _

theorem rewriteToolsOf_same (h : (rewriteToolsOf rewrite v).2 = false) :
    (rewriteToolsOf rewrite v).1 = v := by
  rw [rewriteToolsOf] at h ⊢
  dsimp only at h ⊢
  rw [isSome_eq_false_iff, isNone_iff_eq_none] at h
  rw [h]
  rfl

/-! ### Inputs and selectors -/

theorem isObject_of_hasType {type : JsString} (h : hasType v type = true) : v.isObject = true := by
  cases v with
  | obj members => rfl
  | _ => nomatch h

theorem itemRenamed_rewriteInputItem (item : Json) :
    ItemRenamed (wireOf wireByOriginal) item (rewriteInputItem wireByOriginal item).1 := by
  rw [ItemRenamed, rewriteInputItem]
  split_ifs with htools hcall
  · exact rewriteToolsOf_renamed toolRenamed_rewriteDeclaredTool (fun _ ↦ rewriteDeclaredTool_same)
      (isObject_of_hasType (Bool.and_eq_true_iff.mp htools).1)
  · exact nameRenamed_rewriteName item
  · rfl

theorem rewriteInputItem_same {item : Json} (h : (rewriteInputItem wireByOriginal item).2 = false) :
    (rewriteInputItem wireByOriginal item).1 = item := by
  rw [rewriteInputItem] at h ⊢
  split_ifs at h ⊢
  · exact rewriteToolsOf_same h
  · exact rewriteName_same h
  · rfl

theorem selectorRenamed_rewriteSelector (tool : Json) :
    SelectorRenamed (wireOf wireByOriginal) tool (rewriteSelector wireByOriginal tool).1 := by
  rw [SelectorRenamed, rewriteSelector]
  split_ifs
  · exact nameRenamed_rewriteName tool
  · rfl

theorem rewriteSelector_same (h : (rewriteSelector wireByOriginal tool).2 = false) :
    (rewriteSelector wireByOriginal tool).1 = tool := by
  rw [rewriteSelector] at h ⊢
  split_ifs at h ⊢
  · exact rewriteName_same h
  · rfl

theorem choiceRenamed_rewriteToolChoice (choice : Json) :
    ChoiceRenamed (wireOf wireByOriginal) choice (rewriteToolChoice wireByOriginal choice).1 := by
  rw [ChoiceRenamed, rewriteToolChoice]
  split_ifs with hname hallowed
  · exact nameRenamed_rewriteName choice
  · exact rewriteToolsOf_renamed selectorRenamed_rewriteSelector (fun _ ↦ rewriteSelector_same)
      (isObject_of_hasType hallowed)
  · rfl

theorem rewriteToolChoice_same {choice : Json}
    (h : (rewriteToolChoice wireByOriginal choice).2 = false) :
    (rewriteToolChoice wireByOriginal choice).1 = choice := by
  rw [rewriteToolChoice] at h ⊢
  split_ifs at h ⊢
  · exact rewriteName_same h
  · exact rewriteToolsOf_same h
  · rfl

/-- **The rewrite renames the tool names**, each to its wire name, and nothing else. -/
theorem namesRenamed_rewriteBody {body : Json} (hobject : body.isObject = true) :
    NamesRenamed (wireOf wireByOriginal) body (rewriteBody wireByOriginal body) := by
  rw [rewriteBody]
  set tools := rewriteElements (rewriteDeclaredTool wireByOriginal) (body.field? (js "tools"))
    with htools
  set input := rewriteElements (rewriteInputItem wireByOriginal) (body.field? (js "input"))
    with hinput
  set toolChoice := (body.field? (js "tool_choice")).bind fun choice ↦
    let r := rewriteToolChoice wireByOriginal choice
    if r.2 then some r.1 else none with htoolChoice
  have h₁ := withField_agree body (js "tools") tools
  have h₂ := withField_agree (withField body (js "tools") tools) (js "input") input
  have h₃ := withField_agree (withField (withField body (js "tools") tools) (js "input") input)
    (js "tool_choice") toolChoice
  have hobject₁ := h₁.1.trans hobject
  have hobject₂ := h₂.1.trans hobject₁
  refine ⟨((h₁.mono (by simp)).trans (h₂.mono (by simp))).trans (h₃.mono (by simp)), ?_, ?_, ?_⟩
  · rw [h₃.2 _ (by decide), h₂.2 _ (by decide), withField_field? hobject, htools]
    exact elementwise_rewriteElements toolRenamed_rewriteDeclaredTool
      (fun _ ↦ rewriteDeclaredTool_same) _
  · rw [h₃.2 _ (by decide), withField_field? hobject₁, h₁.2 _ (by decide), hinput]
    exact elementwise_rewriteElements itemRenamed_rewriteInputItem (fun _ ↦ rewriteInputItem_same) _
  · rw [withField_field? hobject₂, h₂.2 _ (by decide), h₁.2 _ (by decide), htoolChoice]
    cases body.field? (js "tool_choice") with
    | none => exact .none
    | some choice =>
      rw [bind_some]
      have hrenamed := @choiceRenamed_rewriteToolChoice wireByOriginal choice
      dsimp only
      split_ifs with hchanged
      · exact .some hrenamed
      · rw [rewriteToolChoice_same (eq_false_of_ne_true hchanged)] at hrenamed
        exact .some hrenamed

end

end MuseToolNames
