import OpenCodex.Data.JsonWrite

/-!
# The values inside a value

`parts` are a value and all the values in it, at any depth: what a walk over a whole value comes by.
Objects whose names are all different (`Distinct`), as those of the language are, can be changed and
changed back.
-/

set_option autoImplicit false

open List

namespace Json

mutual

/-- The value, and every value in it. -/
def parts : Json → List Json
  | .arr items => .arr items :: partsOfItems items
  | .obj members => .obj members :: partsOfMembers members
  | v => [v]

def partsOfItems : List Json → List Json
  | [] => []
  | item :: items => parts item ++ partsOfItems items

def partsOfMembers : List (JsString × Json) → List Json
  | [] => []
  | (_, v) :: members => parts v ++ partsOfMembers members

end

/-- No name is repeated. -/
def Distinct : Json → Prop
  | .obj members => (members.map Prod.fst).Nodup
  | _ => True

instance (v : Json) : Decidable v.Distinct :=
  match v with
  | .obj members => inferInstanceAs (Decidable (members.map Prod.fst).Nodup)
  | .null | .bool _ | .num _ | .str _ | .arr _ => .isTrue trivial

/-! ## Parts of parts -/

theorem mem_parts_self (v : Json) : v ∈ v.parts := by cases v <;> exact mem_cons_self

theorem parts_subset_items {items : List Json} {item : Json} (h : item ∈ items) :
    item.parts ⊆ (Json.arr items).parts := by
  have hitems : item.parts ⊆ partsOfItems items := by
    induction items with
    | nil => exact absurd h not_mem_nil
    | cons first items ih =>
      rcases mem_cons.mp h with rfl | h
      · exact subset_append_left _ _
      · exact List.Subset.trans (ih h) (subset_append_right _ _)
  exact List.Subset.trans hitems (subset_cons_self _ _)

variable {members : List (JsString × Json)}

theorem parts_subset_members {member : JsString × Json} (h : member ∈ members) :
    member.2.parts ⊆ (Json.obj members).parts := by
  have hmembers : member.2.parts ⊆ partsOfMembers members := by
    induction members with
    | nil => exact absurd h not_mem_nil
    | cons first members ih =>
      rcases mem_cons.mp h with rfl | h
      · exact subset_append_left _ _
      · exact List.Subset.trans (ih h) (subset_append_right _ _)
  exact List.Subset.trans hmembers (subset_cons_self _ _)

variable {name : JsString} {v w : Json}

theorem parts_subset_field (h : v.field? name = some w) : w.parts ⊆ v.parts := by
  cases v with
  | obj members => exact parts_subset_members (mem_of_lookup h)
  | _ => nomatch h

/-! ## Setting a member -/

theorem lookup_eq_none : lookup members name = none ↔ name ∉ members.map Prod.fst := by
  induction members with
  | nil => simp
  | cons member members ih =>
    rw [lookup_cons, Option.or_eq_none_iff, ih, map_cons, mem_cons, not_or, and_comm]
    refine and_congr_left fun _ ↦ ?_
    by_cases h : member.1 = name
    · simp [h]
    · simp [h, Ne.symm h]

theorem filter_of_notMem (h : name ∉ members.map Prod.fst) :
    members.filter (fun m ↦ m.1 ≠ name) = members := by
  refine filter_eq_self.mpr fun member hmember ↦ decide_eq_true fun heq ↦ h ?_
  exact heq ▸ List.mem_map_of_mem hmember

theorem setMember_of_lookup (hdistinct : (members.map Prod.fst).Nodup)
    (h : lookup members name = some v) : setMember name v members = members := by
  induction members with
  | nil => nomatch h
  | cons member members ih =>
    obtain ⟨hfirst, hdistinct⟩ := nodup_cons.mp hdistinct
    rw [lookup_cons] at h
    rw [setMember]
    split_ifs at h ⊢ with hname
    · rw [hname] at hfirst
      rw [lookup_eq_none.mpr hfirst, Option.none_or, Option.some.injEq] at h
      rw [filter_of_notMem hfirst, ← h, ← hname]
    · rw [Option.or_none] at h
      rw [ih hdistinct h]

theorem setMember_setMember (members : List (JsString × Json)) (name : JsString) (v w : Json) :
    setMember name v (setMember name w members) = setMember name v members := by
  induction members with
  | nil => simp [setMember]
  | cons member members ih =>
    rw [setMember]
    split_ifs with hname
    · rw [setMember, if_pos rfl, setMember, if_pos hname, List.filter_filter]
      simp
    · rw [setMember, if_neg hname, ih, setMember, if_neg hname]

theorem map_setMember (f : Json → Json) (members : List (JsString × Json)) (name : JsString)
    (v : Json) : (setMember name v members).map (fun m ↦ (m.1, f m.2)) =
      setMember name (f v) (members.map fun m ↦ (m.1, f m.2)) := by
  induction members with
  | nil => rfl
  | cons member members ih =>
    rw [setMember, map_cons, setMember]
    split_ifs with hname
    · rw [map_cons, List.filter_map]
      rfl
    · rw [map_cons, ih]

variable {other : JsString}

theorem setMember_comm (v w : Json) (hne : name ≠ other) (h : name ∈ members.map Prod.fst) :
    setMember other w (setMember name v members) =
      setMember name v (setMember other w members) := by
  have hfilter : ∀ (a b : JsString) (x : Json) (ms : List (JsString × Json)), a ≠ b →
      (setMember b x ms).filter (fun m ↦ m.1 ≠ a) = setMember b x (ms.filter fun m ↦ m.1 ≠ a) := by
    intro a b x ms hab
    induction ms with
    | nil => simp [setMember, hab.symm]
    | cons m ms ih =>
      rw [setMember]
      by_cases hb : m.1 = b
      · rw [if_pos hb, filter_cons_of_pos (by simpa using hab.symm),
          filter_cons_of_pos (by simpa [hb] using hab.symm), setMember, if_pos hb,
          List.filter_filter, List.filter_filter]
        simp only [Bool.and_comm]
      · rw [if_neg hb]
        by_cases ha : m.1 = a
        · rw [filter_cons_of_neg (by simpa using ha), filter_cons_of_neg (by simpa using ha), ih]
        · rw [filter_cons_of_pos (by simpa using ha), filter_cons_of_pos (by simpa using ha),
            ih, setMember, if_neg hb]
  induction members with
  | nil => cases h
  | cons m ms ih =>
    rw [setMember, setMember]
    by_cases hname : m.1 = name
    · rw [if_pos hname, if_neg (fun heq ↦ hne (hname.symm.trans heq)), setMember, if_neg hne,
        setMember, if_pos hname, hfilter name other w ms hne]
    · rw [if_neg hname]
      by_cases hother : m.1 = other
      · rw [setMember, if_pos hother, if_pos hother, setMember, if_neg hne.symm,
          hfilter other name v ms hne.symm]
      · rw [setMember, if_neg hother, if_neg hother, setMember, if_neg hname,
          ih ((mem_cons.mp h).resolve_left (Ne.symm hname))]

theorem setField_of_field? (hdistinct : v.Distinct) (h : v.field? name = some w) :
    v.setField name w = v := by
  cases v with
  | obj members => exact congrArg Json.obj (setMember_of_lookup hdistinct h)
  | _ => rfl

theorem setField_setField (v : Json) (name : JsString) (w x : Json) :
    (v.setField name w).setField name x = v.setField name x := by
  cases v with
  | obj members => exact congrArg Json.obj (setMember_setMember members name x w)
  | _ => rfl

theorem setField_back (hdistinct : v.Distinct) (h : v.field? name = some w) (x : Json) :
    (v.setField name x).setField name w = v := by
  rw [setField_setField, setField_of_field? hdistinct h]

theorem setField_comm (hne : name ≠ other) (h : v.field? name = some w) (x y : Json) :
    (v.setField name x).setField other y = (v.setField other y).setField name x := by
  cases v with
  | obj members =>
    refine congrArg Json.obj (setMember_comm x y hne (List.mem_map_of_mem (mem_of_lookup h)))
  | _ => rfl

/-! ## Changing every member -/

def mapFields (f : Json → Json) : Json → Json
  | .obj members => .obj (members.map fun m ↦ (m.1, f m.2))
  | v => v

theorem mapFields_setField (f : Json → Json) (v w : Json) (name : JsString) :
    (v.setField name w).mapFields f = (v.mapFields f).setField name (f w) := by
  cases v with
  | obj members => exact congrArg Json.obj (map_setMember f members name w)
  | _ => rfl

theorem mapFields_same {f : Json → Json}
    (h : ∀ members, v = .obj members → ∀ m ∈ members, f m.2 = m.2) : v.mapFields f = v := by
  cases v with
  | obj members =>
    refine congrArg Json.obj ?_
    conv_rhs => rw [← List.map_id members]
    exact map_congr_left fun m hm ↦ by rw [h members rfl m hm]; rfl
  | _ => rfl

end Json
