import OpenCodex.Data.JsonWrite
import Mathlib.Data.List.Sort

/-!
# Values whose members stand in order

The members of an object have no order as far as its meaning goes, though a program sees them in the
order they came to be.  `Json.inOrder` puts the members of every object inside a value in the order
of their names, so two values mean the same where it gives one value.

A writer that goes through the members in the order of their names writes the text of that value.
-/

set_option autoImplicit false

open List

theorem List.Perm.insertionSort_eq {α κ : Type*} {r : α → α → Prop} [DecidableRel r] [Std.Total r]
    [IsTrans α r] {key : α → κ} {l l' : List α} (hperm : l.Perm l') (hkeys : (l.map key).Nodup)
    (hanti : ∀ a b, r a b → r b a → key a = key b) : l.insertionSort r = l'.insertionSort r := by
  have hsorted : (l.insertionSort r).Perm (l'.insertionSort r) :=
    (perm_insertionSort _ l).trans (hperm.trans (perm_insertionSort _ l').symm)
  refine List.Perm.eq_of_pairwise ?_ (pairwise_insertionSort r l)
    (pairwise_insertionSort r l') hsorted
  intro a b ha hb hab hba
  rw [mem_insertionSort] at ha hb
  exact inj_on_of_nodup_map hkeys ha (hperm.mem_iff.mpr hb) (hanti a b hab hba)

namespace Json

/-- The member's name does not come after the other's. -/
def nameLe {α : Type*} (m m' : JsString × α) : Prop := m.1 ≤ m'.1

instance {α : Type*} : DecidableRel (nameLe (α := α)) := fun m m' ↦
  inferInstanceAs (Decidable (m.1 ≤ m'.1))

mutual

/-- The value with the members of every object in it in the order of their names. -/
def inOrder : Json → Json
  | .arr items => .arr (inOrderItems items)
  | .obj members => .obj ((inOrderMembers members).insertionSort nameLe)
  | v => v

def inOrderItems : List Json → List Json
  | [] => []
  | item :: items => item.inOrder :: inOrderItems items

def inOrderMembers : List (JsString × Json) → List (JsString × Json)
  | [] => []
  | (name, v) :: members => (name, v.inOrder) :: inOrderMembers members

end

mutual

theorem decimal_inOrder (v : Json) (h : v.Decimal) : v.inOrder.Decimal := by
  cases v with
  | arr items =>
    cases h with
    | arr h => exact .arr (decimal_inOrderItems items h)
  | obj members =>
    cases h with
    | obj h =>
      refine .obj fun m hm ↦ decimal_inOrderMembers members h m ?_
      rwa [mem_insertionSort] at hm
  | _ => exact h

theorem decimal_inOrderItems (items : List Json) (h : ∀ v ∈ items, v.Decimal) :
    ∀ v ∈ inOrderItems items, v.Decimal := by
  cases items with
  | nil => exact h
  | cons item items =>
    intro v hv
    rcases mem_cons.mp hv with rfl | hv
    · exact decimal_inOrder item (h item mem_cons_self)
    · exact decimal_inOrderItems items (fun w hw ↦ h w (mem_cons_of_mem _ hw)) v hv

theorem decimal_inOrderMembers (members : List (JsString × Json))
    (h : ∀ m ∈ members, m.2.Decimal) : ∀ m ∈ inOrderMembers members, m.2.Decimal := by
  cases members with
  | nil => exact h
  | cons member members =>
    intro m hm
    rcases mem_cons.mp hm with rfl | hm
    · exact decimal_inOrder member.2 (h member mem_cons_self)
    · exact decimal_inOrderMembers members (fun w hw ↦ h w (mem_cons_of_mem _ hw)) m hm

end

/-! ## Texts joined by commas -/

variable (items : List Json) (members : List (JsString × Json))

theorem intercalate_cons (sep text : JsString) (texts : List JsString) :
    sep.intercalate (text :: texts) = text ++ texts.flatMap (sep ++ ·) := by
  induction texts generalizing text with
  | nil => simp [List.intercalate]
  | cons next texts ih =>
    have hjoin : sep.intercalate (text :: next :: texts) =
        text ++ (sep ++ sep.intercalate (next :: texts)) := by
      rw [List.intercalate, intersperse_cons_cons, flatten_cons, flatten_cons]
      rfl
    rw [hjoin, ih, flatMap_cons, append_assoc]

theorem stringifyItems_eq :
    stringifyItems items = (items.map stringify).flatMap ([0x2c] ++ ·) ++ [0x5d] := by
  induction items with
  | nil => rfl
  | cons item items ih => rw [stringifyItems, ih]; simp

theorem stringifyMembers_eq : stringifyMembers members =
      (members.map fun m ↦ literal m.1 ++ 0x3a :: m.2.stringify).flatMap ([0x2c] ++ ·) ++
        [0x7d] := by
  induction members with
  | nil => rfl
  | cons m members ih => rw [stringifyMembers, ih]; simp

theorem stringify_arr :
    (arr items).stringify = 0x5b :: ([0x2c].intercalate (items.map stringify) ++ [0x5d]) := by
  cases items with
  | nil => rfl
  | cons item items => rw [stringify, stringifyItems_eq, map_cons, intercalate_cons, append_assoc]

theorem stringify_obj : (obj members).stringify = 0x7b ::
      ([0x2c].intercalate (members.map fun m ↦ literal m.1 ++ 0x3a :: m.2.stringify) ++
        [0x7d]) := by
  cases members with
  | nil => rfl
  | cons m members =>
    rw [stringify, stringifyMembers_eq, map_cons, intercalate_cons]
    simp

end Json
