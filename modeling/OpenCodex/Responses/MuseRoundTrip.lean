import OpenCodex.Responses.MuseRestore

/-!
# A request and its tool names, there and back

The names of a request are collected without repetition, so the plan has a wire name for each; where
no name needs one the request goes out as it is.  `renamed_reversibly` puts the parts together.
-/

set_option autoImplicit false

open List

namespace MuseToolNames

open Sse (stringOf)

/-! ## The names of a request -/

/-- Collected names are neither empty nor repeated. -/
def Collected (names : List JsString) : Prop := names.Nodup ∧ ∀ name ∈ names, name ≠ []

variable {names : List JsString}

theorem collected_add (h : Collected names) (name : Option JsString) :
    Collected (addCollectedName names name) := by
  cases name with
  | none => exact h
  | some name =>
    rw [addCollectedName]
    split_ifs with hold
    · exact h
    · obtain ⟨hne, hnew⟩ := not_or.mp hold
      refine ⟨nodup_append.mpr ⟨h.1, nodup_singleton _, ?_⟩, fun other hother ↦ ?_⟩
      · rintro a ha b hb rfl
        exact hnew (mem_singleton.mp hb ▸ ha)
      · rcases mem_append.mp hother with hother | hother
        · exact h.2 other hother
        · rwa [mem_singleton.mp hother]

theorem collected_foldl {collect : List JsString → Json → List JsString}
    (hcollect : ∀ names v, Collected names → Collected (collect names v)) (values : List Json) :
    ∀ {names}, Collected names → Collected (values.foldl collect names) := by
  induction values with
  | nil => exact id
  | cons v values ih => exact fun h ↦ ih (hcollect _ v h)

theorem collected_collectMuseToolNames (body : Json) : Collected (collectMuseToolNames body) := by
  have hdeclared : ∀ names v, Collected names → Collected (collectDeclaredToolName names v) :=
    fun names v h ↦ collected_add h _
  have hinput : ∀ names v, Collected names → Collected (collectInputNames names v) := by
    intro names v h
    rw [collectInputNames]
    split_ifs
    · exact collected_foldl hdeclared _ h
    · exact collected_add h _
    · exact h
  have hselected : ∀ names v, Collected names → Collected (collectSelectedName names v) := by
    intro names v h
    rw [collectSelectedName]
    split_ifs
    · exact collected_add h _
    · exact h
  have hall := collected_foldl hinput (itemsOf (body.field? (js "input")))
    (collected_foldl hdeclared (itemsOf (body.field? (js "tools")))
      (show Collected [] from ⟨nodup_nil, by simp⟩))
  rw [collectMuseToolNames]
  split
  · exact hall
  · rw [collectToolChoiceNames]
    split_ifs
    · exact collected_add hall _
    · exact collected_foldl hselected _ hall
    · exact hall

/-! ## Nothing to rename -/

section

variable {wireByOriginal : OMap JsString JsString}

theorem rewriteElements_of_same {rewrite : Json → Json × Bool}
    (h : ∀ x, (rewrite x).2 = false) (value : Option Json) : rewriteElements rewrite value = none := by
  rw [rewriteElements, if_neg]
  simp [h]

theorem rewriteBody_of_same
    (h : ∀ name wire, wireByOriginal.get? name = some wire → wire = name) (body : Json) :
    rewriteBody wireByOriginal body = body := by
  have hname : ∀ v, (rewriteName wireByOriginal v).2 = false := by
    intro v
    rw [rewriteName]
    split
    · rfl
    · split
      · rfl
      · rename_i hwire
        rw [if_pos (h _ _ hwire)]
  have htool : ∀ v, (rewriteDeclaredTool wireByOriginal v).2 = false := by
    intro v
    rw [rewriteDeclaredTool]
    split
    · rfl
    · split
      · rfl
      · rename_i hwire
        rw [if_pos (h _ _ hwire)]
  have hitem : ∀ v, (rewriteInputItem wireByOriginal v).2 = false := by
    intro v
    rw [rewriteInputItem]
    split_ifs
    · simp only [rewriteToolsOf, rewriteElements_of_same htool]
      rfl
    · exact hname v
    · rfl
  have hselector : ∀ v, (rewriteSelector wireByOriginal v).2 = false := by
    intro v
    rw [rewriteSelector]
    split_ifs
    · exact hname v
    · rfl
  have hchoice : ∀ v, (rewriteToolChoice wireByOriginal v).2 = false := by
    intro v
    rw [rewriteToolChoice]
    split_ifs
    · exact hname v
    · simp only [rewriteToolsOf, rewriteElements_of_same hselector]
      rfl
    · rfl
  simp only [rewriteBody, rewriteElements_of_same htool, rewriteElements_of_same hitem, hchoice,
    Bool.false_eq_true, if_false, withField]
  cases body.field? (js "tool_choice") <;> rfl

theorem namesRenamed_of_not_isObject {body : Json} (h : body.isObject = false) :
    NamesRenamed (wireOf wireByOriginal) body body := by
  have hnone : ∀ name, body.field? name = none := by
    intro name
    cases body with
    | obj members => nomatch h
    | _ => rfl
  refine ⟨agreeBut_refl _ _, ?_, ?_, ?_⟩
  · rw [hnone]; rfl
  · rw [hnone]; rfl
  · rw [hnone]; exact .none

end

/-! ## The rewrite is reversible -/

/-- With enough fuel there is a result, in which every tool name has been renamed: one to one, to a
name that can be sent, and to itself where it could be sent; nothing else is changed.  Without a
restriction of the tools the way back gives the request again, if the tools that are renamed are of a
kind that the way back renames, and nothing in the request carries an alias before. -/
def RenamedReversibly (sha256 : JsString → JsString) (body : Json) : Prop :=
  ∃ fuel₀ body' aliases wire,
    (∀ fuel > fuel₀, rewriteMuseToolNamesForUpstream sha256 fuel body = some (body', aliases)) ∧
    (∀ name ∈ collectMuseToolNames body, isPassThroughMuseToolName (wire name) = true) ∧
    Set.InjOn wire {name | name ∈ collectMuseToolNames body} ∧
    (∀ name, isPassThroughMuseToolName name = true → wire name = name) ∧
    NamesRenamed wire body body' ∧
    (unrestricted (body.field? (js "tool_choice")) = true →
      (∀ tool ∈ declaredTools body, Restorable tool) → (∀ v ∈ body.parts, Plain aliases v) →
        (restoreMuseToolNames aliases body').1 = body)

/-- **The renaming of tool names is reversible**, for a hash with enough values for the names of the
request. -/
theorem renamed_reversibly {sha256 : JsString → JsString} {body : Json}
    (hhex : Hexadecimal sha256) (hsalt : Salted sha256 (collectMuseToolNames body)) :
    RenamedReversibly sha256 body := by
  have hcollected := collected_collectMuseToolNames body
  obtain ⟨fuel₀, wireByOriginal, aliases, hplan, hrun⟩ :=
    exists_plan hhex hsalt hcollected.1 hcollected.2
  have hwire : ∀ name ∈ collectMuseToolNames body,
      wireByOriginal.get? name = some (wireOf wireByOriginal name) := by
    intro name hname
    obtain ⟨wire, hwire⟩ := hplan.total hname
    rw [wireOf, hwire]
    rfl
  have hpasses : ∀ name ∈ collectMuseToolNames body,
      isPassThroughMuseToolName (wireOf wireByOriginal name) = true :=
    fun name hname ↦ hplan.passes (hwire name hname)
  have hinj : Set.InjOn (wireOf wireByOriginal) {name | name ∈ collectMuseToolNames body} := by
    intro a ha b hb heq
    refine hplan.inj (hwire a ha) ?_
    rw [heq]
    exact hwire b hb
  have hfixed : ∀ name, isPassThroughMuseToolName name = true →
      wireOf wireByOriginal name = name := by
    intro name hname
    rw [wireOf]
    cases hget : wireByOriginal.get? name with
    | none => rfl
    | some wire => exact hplan.fixed hget hname
  cases hobject : body.isObject with
  | false =>
    refine ⟨fuel₀, body, .empty, wireOf wireByOriginal, fun fuel _ ↦ ?_, hpasses, hinj, hfixed,
      namesRenamed_of_not_isObject hobject, fun _ _ _ ↦ rfl⟩
    rw [rewriteMuseToolNamesForUpstream, if_neg (by simp [hobject])]
  | true =>
    by_cases hsize : aliases.size = 0
    · have hsame : ∀ name wire, wireByOriginal.get? name = some wire → wire = name := by
        intro name wire hget
        by_contra hne
        have halias := hplan.alias_iff.mpr ⟨hget, hne⟩
        have hmem := OMap.mem_entries.mpr halias
        rw [length_eq_zero_iff.mp hsize] at hmem
        exact absurd hmem not_mem_nil
      refine ⟨fuel₀, body, aliases, wireOf wireByOriginal, fun fuel hfuel ↦ ?_, hpasses, hinj,
        hfixed, ?_, fun _ _ _ ↦ ?_⟩
      · rw [rewriteMuseToolNamesForUpstream, if_pos hobject, hrun fuel hfuel, Option.map_some,
          if_pos hsize]
      · have hrenamed := @namesRenamed_rewriteBody wireByOriginal body hobject
        rwa [rewriteBody_of_same hsame] at hrenamed
      · rw [restoreMuseToolNames, if_pos hsize]
    · have hrenamed := @namesRenamed_rewriteBody wireByOriginal body hobject
      refine ⟨fuel₀, rewriteBody wireByOriginal body, authorizedMuseAliases aliases
        ((rewriteBody wireByOriginal body).field? (js "tool_choice")), wireOf wireByOriginal,
        fun fuel hfuel ↦ ?_, hpasses, hinj, hfixed, hrenamed, fun hchoice htools hplain ↦ ?_⟩
      · rw [rewriteMuseToolNamesForUpstream, if_pos hobject, hrun fuel hfuel, Option.map_some,
          if_neg hsize]
      · have hkept : (rewriteBody wireByOriginal body).field? (js "tool_choice") =
            body.field? (js "tool_choice") := by
          rw [rewriteBody_unrestricted hchoice, (withField_agree _ _ _).2 _ (by decide),
            (withField_agree _ _ _).2 _ (by decide)]
        rw [hkept, authorizedMuseAliases, if_pos hchoice] at hplain ⊢
        rw [restoreMuseToolNames, if_neg hsize]
        exact restored_rewriteBody hplan hcollected.2 hobject hplain htools hchoice

/-! ## Two requests -/

theorem salted_of_nodup {sha256 : JsString → JsString} (h : ∀ name ∈ names,
      ((List.range (names.length + 1)).map (hashSuffix sha256 name)).Nodup) :
    Salted sha256 names := by
  intro name hname used hused
  by_contra hnone
  have hall : (List.range (names.length + 1)).map (hashSuffix sha256 name) ⊆ used := by
    intro suffix hsuffix
    obtain ⟨salt, -, rfl⟩ := List.mem_map.mp hsuffix
    by_contra hnot
    exact hnone ⟨salt, hnot⟩
  have hle := ((h name hname).subperm hall).length_le
  rw [length_map, length_range] at hle
  omega

/-- The hashes that are asked for below. -/
def knownHash (text : JsString) : JsString :=
  if text = js "a.b" then js "2e7336dc8eba87ef472df568c35482abf2575dc3e5eac0c5c62b8ffaeac2c934"
  else if text = js "a.b#1" then
    js "b2c9276d3f9f87f0ff86d616b92d13c36f55fd1a4fa9abb1f29acf2078c59302"
  else List.replicate 64 0x30

theorem hexadecimal_knownHash : Hexadecimal knownHash := by
  intro text
  rw [knownHash]
  split_ifs <;> decide +kernel

/-- A function tool, with some other member of the request. -/
def dottedRequest (name : JsString) (value : Json) : Json :=
  .obj [(js "tools", .arr [.obj [(js "type", .str (js "function")), (js "name", .str (js "a.b"))]]),
    (name, value)]

/-- A call that is replayed. -/
def replayedInput : Json :=
  .arr [.obj [(js "type", .str (js "function_call")), (js "name", .str (js "a.b")),
    (js "arguments", .str (js "\x7b\x7d"))]]

/-- A tool and a call of it are renamed and restored. -/
theorem replayed_call_reversible :
    RenamedReversibly knownHash (dottedRequest (js "input") replayedInput) ∧
      ∃ fuel₀ body' aliases, (∀ fuel > fuel₀, rewriteMuseToolNamesForUpstream knownHash fuel
          (dottedRequest (js "input") replayedInput) = some (body', aliases)) ∧
        aliases.entries = [(js "a_b_2e7336dc", js "a.b")] ∧
        (restoreMuseToolNames aliases body').1 = dottedRequest (js "input") replayedInput := by
  have hall := @renamed_reversibly knownHash (dottedRequest (js "input") replayedInput)
    hexadecimal_knownHash (salted_of_nodup (by decide +kernel))
  refine ⟨hall, ?_⟩
  obtain ⟨fuel₀, body', aliases, wire, hrun, -, -, -, -, hback⟩ := hall
  have hentries : aliases.entries = [(js "a_b_2e7336dc", js "a.b")] := by
    have h := congrArg (Option.map fun r ↦ r.2.entries) (hrun (fuel₀ + 1) (Nat.lt_succ_self _))
    exact (Option.some.inj h).symm
  obtain rfl : aliases = OMap.empty.set (js "a_b_2e7336dc") (js "a.b") := OMap.ext hentries
  exact ⟨fuel₀, body', _, hrun, hentries, hback (by decide +kernel) (by decide +kernel)
    (by decide +kernel)⟩

/-- Metadata of the form of a tool, with the name that a tool of the request is renamed to: the way
back renames it too. -/
theorem metadata_renamed : Hexadecimal knownHash ∧
      Salted knownHash (collectMuseToolNames (dottedRequest (js "metadata")
        (.obj [(js "type", .str (js "function")), (js "name", .str (js "a_b_2e7336dc"))]))) ∧
      ∀ fuel > 0, ((rewriteMuseToolNamesForUpstream knownHash fuel (dottedRequest (js "metadata")
        (.obj [(js "type", .str (js "function")), (js "name", .str (js "a_b_2e7336dc"))]))).map
          fun r ↦ ((restoreMuseToolNames r.2 r.1).1.field? (js "metadata")).bind nameOf) =
            some (some (js "a.b")) := by
  refine ⟨hexadecimal_knownHash, salted_of_nodup (by decide +kernel), fun fuel hfuel ↦ ?_⟩
  obtain ⟨fuel, rfl⟩ := Nat.exists_eq_succ_of_ne_zero (Nat.ne_zero_of_lt hfuel)
  rfl

end MuseToolNames
