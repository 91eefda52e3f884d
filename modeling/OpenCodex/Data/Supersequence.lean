import Mathlib.Data.List.Nodup
import Mathlib.Data.List.Perm.Basic

/-!
# Two lists into one

Two lists may report the same things, each in its own order and neither completely.  `Merged` says
that a third list holds everything of both: the second as it is, the first up to a given sameness,
every identity once and nothing else.  `Consistent` says when the two lists do not contradict one
another: no identity is repeated within either, what has one identity is the same in both, and what
they share stands in one order.

`Woven` is how such a list comes about, element by element; the lemmas about it carry the invariant
of any procedure that walks along both lists.
-/

set_option autoImplicit false

open List

universe u v

namespace Supersequence

variable {α : Type u} {κ : Type v} (key : α → κ) (Same : α → α → Prop)

/-! ## What is meant -/

/-- The identities of the list. -/
def keys (l : List α) : List κ := l.map key

/-- `r` holds everything of both lists. -/
structure Merged (l m r : List α) : Prop where
  /-- Everything of the first list is there in its order, as it is or as the second has it. -/
  first : ∃ l', List.Forall₂ (fun a b ↦ key a = key b ∧ (a = b ∨ Same a b ∧ b ∈ m)) l l' ∧ l'.Sublist r
  /-- The second list is there in its order. -/
  second : m.Sublist r
  /-- No identity is there twice. -/
  once : (keys key r).Nodup
  /-- Nothing else is there. -/
  only : ∀ x ∈ r, x ∈ l ∨ x ∈ m

/-- The list got by taking from the fronts of the two lists, one element at a time where the other
list does not have it, and both fronts at once where they are the same; then the element of the
second list stands for both. -/
inductive Woven : List α → List α → List α → Prop where
  | nil : Woven [] [] []
  | first {a : α} {l m r : List α} : key a ∉ keys key m → Woven l m r → Woven (a :: l) m (a :: r)
  | second {b : α} {l m r : List α} : key b ∉ keys key l → Woven l m r → Woven l (b :: m) (b :: r)
  | both {a b : α} {l m r : List α} : key a = key b → Same a b → Woven l m r →
    Woven (a :: l) (b :: m) (b :: r)

variable {key Same}

@[simp] theorem keys_nil : keys key [] = [] := rfl

@[simp] theorem keys_cons (a : α) (l : List α) : keys key (a :: l) = key a :: keys key l := rfl

@[simp] theorem keys_append (l m : List α) : keys key (l ++ m) = keys key l ++ keys key m :=
  map_append

variable {l : List α}

theorem mem_keys {k : κ} : k ∈ keys key l ↔ ∃ a ∈ l, key a = k := List.mem_map

/-! ## Weaving -/

variable {m r front : List α}

theorem Woven.append_first (hfront : ∀ k ∈ keys key front, k ∉ keys key m)
    (h : Woven key Same l m r) : Woven key Same (front ++ l) m (front ++ r) := by
  induction front with
  | nil => exact h
  | cons a front ih =>
    exact .first (hfront _ mem_cons_self) (ih fun k hk ↦ hfront k (mem_cons_of_mem _ hk))

theorem Woven.rest (l : List α) : Woven key Same l [] l := by
  induction l with
  | nil => exact .nil
  | cons a l ih => exact .first not_mem_nil ih

theorem Woven.second_sublist (h : Woven key Same l m r) : m.Sublist r := by
  induction h with
  | nil => exact List.Sublist.slnil
  | first _ _ ih => exact ih.cons _
  | second _ _ ih => exact ih.cons_cons _
  | both _ _ _ ih => exact ih.cons_cons _

theorem Woven.first_sublist (h : Woven key Same l m r) :
    ∃ l', List.Forall₂ (fun a b ↦ key a = key b ∧ (a = b ∨ Same a b ∧ b ∈ m)) l l' ∧
      l'.Sublist r := by
  induction h with
  | nil => exact ⟨[], .nil, List.Sublist.slnil⟩
  | first _ _ ih =>
    obtain ⟨l', hl', hsub⟩ := ih
    exact ⟨_ :: l', .cons ⟨rfl, .inl rfl⟩ hl', hsub.cons_cons _⟩
  | second _ _ ih =>
    obtain ⟨l', hl', hsub⟩ := ih
    refine ⟨l', hl'.imp fun x y hxy ↦ ⟨hxy.1, hxy.2.imp_right fun h ↦ ⟨h.1, ?_⟩⟩, hsub.cons _⟩
    exact mem_cons_of_mem _ h.2
  | both hkey hsame _ ih =>
    obtain ⟨l', hl', hsub⟩ := ih
    refine ⟨_ :: l', .cons ⟨hkey, .inr ⟨hsame, mem_cons_self⟩⟩ ?_, hsub.cons_cons _⟩
    refine hl'.imp fun x y hxy ↦ ⟨hxy.1, hxy.2.imp_right fun h ↦ ⟨h.1, ?_⟩⟩
    exact mem_cons_of_mem _ h.2

theorem Woven.only (h : Woven key Same l m r) : ∀ x ∈ r, x ∈ l ∨ x ∈ m := by
  induction h with
  | nil => intro x hx; exact absurd hx not_mem_nil
  | first _ _ ih =>
    intro x hx
    rcases mem_cons.mp hx with rfl | hx
    · exact .inl mem_cons_self
    · exact (ih x hx).imp_left (mem_cons_of_mem _)
  | second _ _ ih =>
    intro x hx
    rcases mem_cons.mp hx with rfl | hx
    · exact .inr mem_cons_self
    · exact (ih x hx).imp_right (mem_cons_of_mem _)
  | both _ _ _ ih =>
    intro x hx
    rcases mem_cons.mp hx with rfl | hx
    · exact .inr mem_cons_self
    · exact (ih x hx).imp (mem_cons_of_mem _) (mem_cons_of_mem _)

theorem Woven.mem_keys (h : Woven key Same l m r) {k : κ} (hk : k ∈ keys key r) :
    k ∈ keys key l ∨ k ∈ keys key m := by
  obtain ⟨x, hx, rfl⟩ := Supersequence.mem_keys.mp hk
  exact (h.only x hx).imp (mem_map_of_mem) (mem_map_of_mem)

theorem Woven.once (h : Woven key Same l m r) (hl : (keys key l).Nodup) (hm : (keys key m).Nodup) :
    (keys key r).Nodup := by
  induction h with
  | nil => exact nodup_nil
  | first hkey h ih =>
    rw [keys_cons, nodup_cons] at hl ⊢
    exact ⟨fun hr ↦ (h.mem_keys hr).elim hl.1 hkey, ih hl.2 hm⟩
  | second hkey h ih =>
    rw [keys_cons, nodup_cons] at hm ⊢
    exact ⟨fun hr ↦ (h.mem_keys hr).elim hkey hm.1, ih hl hm.2⟩
  | both hkey _ h ih =>
    rw [keys_cons, nodup_cons] at hl hm ⊢
    exact ⟨fun hr ↦ (h.mem_keys hr).elim (hkey ▸ hl.1) hm.1, ih hl.2 hm.2⟩

/-- **What is woven holds everything of both lists.** -/
theorem Woven.merged (h : Woven key Same l m r) (hl : (keys key l).Nodup) (hm : (keys key m).Nodup) :
    Merged key Same l m r :=
  ⟨h.first_sublist, h.second_sublist, h.once hl hm, h.only⟩

/-! ## Lists that do not contradict one another -/

section Consistency

variable [DecidableEq κ] (key Same)

/-- The identities of `l` that `m` has too, in the order of `l`. -/
def shared (l m : List α) : List κ := (keys key l).filter (· ∈ keys key m)

/-- The two lists do not contradict one another. -/
structure Consistent (l m : List α) : Prop where
  /-- No identity is there twice in the first list. -/
  first : (keys key l).Nodup
  /-- No identity is there twice in the second list. -/
  second : (keys key m).Nodup
  /-- What has one identity is the same. -/
  same : ∀ a ∈ l, ∀ b ∈ m, key a = key b → Same a b
  /-- What both lists have stands in one order. -/
  order : shared key l m = shared key m l

/-- What remains of the two lists is consistent, once `passed` of the first has gone by. -/
structure Ahead (passed rest m : List α) : Prop where
  second : (keys key m).Nodup
  same : ∀ a ∈ rest, ∀ b ∈ m, key a = key b → Same a b
  order : shared key rest m = shared key m rest
  /-- Nothing of the second list belongs to what has gone by. -/
  ahead : ∀ k ∈ keys key m, k ∉ keys key passed

variable {key Same}

theorem consistent_iff : Consistent key Same l m ↔ (keys key l).Nodup ∧ Ahead key Same [] l m :=
  ⟨fun h ↦ ⟨h.first, h.second, h.same, h.order, fun _ _ ↦ not_mem_nil⟩,
    fun h ↦ ⟨h.1, h.2.second, h.2.same, h.2.order⟩⟩

variable {b : α}

theorem shared_cons_of_mem (h : key b ∈ keys key l) :
    shared key (b :: m) l = key b :: shared key m l := by
  simp [shared, h]

theorem shared_cons_of_notMem (h : key b ∉ keys key l) :
    shared key (b :: m) l = shared key m l := by
  simp [shared, h]

theorem shared_append (l l' m : List α) :
    shared key (l ++ l') m = shared key l m ++ shared key l' m := by
  simp [shared]

theorem shared_eq_nil : shared key l m = [] ↔ ∀ k ∈ keys key l, k ∉ keys key m := by simp [shared]

theorem shared_of_notMem (h : key b ∉ keys key l) : shared key l (b :: m) = shared key l m := by
  refine filter_congr fun k hk ↦ decide_eq_decide.mpr ?_
  rw [keys_cons, mem_cons]
  exact ⟨fun hm ↦ hm.resolve_left fun heq ↦ h (heq ▸ hk), .inr⟩

theorem shared_append_right (h : ∀ k ∈ keys key m, k ∉ keys key front) :
    shared key m (front ++ l) = shared key m l := by
  refine filter_congr fun k hk ↦ decide_eq_decide.mpr ?_
  rw [keys_append, mem_append]
  exact ⟨fun hm ↦ hm.resolve_left (h k hk), .inr⟩

theorem ahead_nil (passed rest : List α) : Ahead key Same passed rest [] := by
  refine ⟨nodup_nil, nofun, ?_, fun _ hk ↦ ?_⟩
  · exact shared_eq_nil.mpr fun _ _ ↦ not_mem_nil
  · exact absurd hk not_mem_nil

theorem ahead_second {passed rest : List α} (hpassed : key b ∉ keys key passed)
    (hrest : key b ∉ keys key rest) :
    Ahead key Same passed rest (b :: m) ↔ key b ∉ keys key m ∧ Ahead key Same passed rest m := by
  constructor
  · intro h
    have hsecond := h.second
    rw [keys_cons, nodup_cons] at hsecond
    refine ⟨hsecond.1, hsecond.2, fun a ha c hc ↦ h.same a ha c (mem_cons_of_mem _ hc), ?_,
      fun k hk ↦ h.ahead k (mem_cons_of_mem _ hk)⟩
    have horder := h.order
    rwa [shared_of_notMem hrest, shared_cons_of_notMem hrest] at horder
  · rintro ⟨hb, h⟩
    refine ⟨nodup_cons.mpr ⟨hb, h.second⟩, ?_, ?_, ?_⟩
    · intro a ha c hc hac
      rcases mem_cons.mp hc with rfl | hc
      · exact absurd (hac ▸ mem_map_of_mem ha) hrest
      · exact h.same a ha c hc hac
    · rw [shared_of_notMem hrest, shared_cons_of_notMem hrest]
      exact h.order
    · intro k hk
      rcases mem_cons.mp hk with rfl | hk
      · exact hpassed
      · exact h.ahead k hk

theorem ahead_both {passed post : List α} {a : α} (hnodup : (keys key (front ++ a :: post)).Nodup)
    (hpassed : key b ∉ keys key passed) (hkey : key a = key b) :
    Ahead key Same passed (front ++ a :: post) (b :: m) ↔
      key b ∉ keys key m ∧ Same a b ∧ Ahead key Same (passed ++ (front ++ [a])) post m := by
  rw [keys_append, keys_cons, nodup_append] at hnodup
  obtain ⟨-, hpost, hfront⟩ := hnodup
  rw [nodup_cons] at hpost
  have hbfront : key b ∉ keys key front := fun hb ↦ hfront _ hb _ (hkey ▸ mem_cons_self) rfl
  have hbpost : key b ∉ keys key post := hkey ▸ hpost.1
  have hbrest : key b ∈ keys key (front ++ a :: post) := by
    rw [keys_append, keys_cons, hkey]
    exact mem_append_right _ mem_cons_self
  -- The order of what is shared, split at the element.
  have hleft : shared key (front ++ a :: post) (b :: m) =
      shared key front m ++ key b :: shared key post m := by
    rw [shared_append, shared_cons_of_mem (by rw [hkey]; exact mem_cons_self), hkey,
      shared_of_notMem hbfront, shared_of_notMem hbpost]
  have hright : shared key (b :: m) (front ++ a :: post) =
      key b :: shared key m (front ++ a :: post) := shared_cons_of_mem hbrest
  constructor
  · intro h
    have hsecond := h.second
    rw [keys_cons, nodup_cons] at hsecond
    have horder := h.order
    rw [hleft, hright] at horder
    have hnone : shared key front m = [] := by
      cases hshared : shared key front m with
      | nil => rfl
      | cons k ks =>
        rw [hshared, cons_append] at horder
        have hk : k ∈ shared key front m := by rw [hshared]; exact mem_cons_self
        rw [(cons.inj horder).1] at hk
        exact absurd (mem_of_mem_filter hk) hbfront
    rw [hnone, nil_append] at horder
    have hahead : ∀ k ∈ keys key m, k ∉ keys key (front ++ [a]) := by
      intro k hk hf
      rw [keys_append, mem_append] at hf
      rcases hf with hf | hf
      · exact shared_eq_nil.mp hnone k hf hk
      · rw [keys_cons, keys_nil, mem_singleton, hkey] at hf
        exact hsecond.1 (hf ▸ hk)
    refine ⟨hsecond.1, h.same a (mem_append_right _ mem_cons_self) b mem_cons_self
      hkey, hsecond.2, ?_, ?_, ?_⟩
    · intro x hx y hy
      exact h.same x (mem_append_right _ (mem_cons_of_mem _ hx)) y (mem_cons_of_mem _ hy)
    · rw [(cons.inj horder).2, append_cons, shared_append_right hahead]
    · intro k hk hp
      rw [keys_append, mem_append] at hp
      exact hp.elim (h.ahead k (mem_cons_of_mem _ hk)) (hahead k hk)
  · rintro ⟨hb, hsame, h⟩
    have hahead : ∀ k ∈ keys key m, k ∉ keys key (front ++ [a]) := fun k hk hf ↦
      h.ahead k hk (by rw [keys_append]; exact mem_append_right _ hf)
    have hnone : shared key front m = [] := shared_eq_nil.mpr fun k hk hm ↦
      hahead k hm (by rw [keys_append]; exact mem_append_left _ hk)
    refine ⟨nodup_cons.mpr ⟨hb, h.second⟩, ?_, ?_, ?_⟩
    · intro x hx y hy hxy
      have hy' := mem_cons.mp hy
      rcases mem_append.mp hx with hx | hx
      · have hxfront : key x ∈ keys key front := mem_map_of_mem hx
        rcases hy' with rfl | hy'
        · exact absurd (hxy ▸ hxfront) hbfront
        · exact absurd (hxy ▸ mem_map_of_mem hy') (shared_eq_nil.mp hnone _ hxfront)
      rcases mem_cons.mp hx with rfl | hx
      · rcases hy' with rfl | hy'
        · exact hsame
        · exact absurd (hkey.symm.trans hxy ▸ mem_map_of_mem hy') hb
      · rcases hy' with rfl | hy'
        · exact absurd (hxy ▸ mem_map_of_mem hx) hbpost
        · exact h.same x hx y hy' hxy
    · rw [hleft, hright, hnone, h.order, nil_append, append_cons, shared_append_right hahead]
    · intro k hk hp
      rcases mem_cons.mp hk with rfl | hk
      · exact hpassed hp
      · exact h.ahead k hk (by rw [keys_append]; exact mem_append_left _ hp)

end Consistency

/-! ## Other names for the identities -/

/-- Two ways to tell the elements apart, and two notions of sameness, agree on these elements. -/
structure Agree {κ' : Type*} (key : α → κ) (key' : α → κ') (Same Same' : α → α → Prop)
    (on : List α) : Prop where
  identities : ∀ a ∈ on, ∀ b ∈ on, key a = key b ↔ key' a = key' b
  same : ∀ a ∈ on, ∀ b ∈ on, Same a b ↔ Same' a b

section Renaming

variable {κ' : Type*} {key' : α → κ'} {Same' : α → α → Prop}

variable {on : List α}

theorem Agree.subset {on' : List α} (h : Agree key key' Same Same' on') (hsub : on ⊆ on') :
    Agree key key' Same Same' on :=
  ⟨fun a ha b hb ↦ h.identities a (hsub ha) b (hsub hb), fun a ha b hb ↦ h.same a (hsub ha) b (hsub hb)⟩

theorem Agree.symm (h : Agree key key' Same Same' on) : Agree key' key Same' Same on :=
  ⟨fun a ha b hb ↦ (h.identities a ha b hb).symm, fun a ha b hb ↦ (h.same a ha b hb).symm⟩

theorem Agree.mem_keys (h : Agree key key' Same Same' on) (hl : l ⊆ on) {a : α} (ha : a ∈ on) :
    key a ∈ keys key l ↔ key' a ∈ keys key' l := by
  rw [Supersequence.mem_keys, Supersequence.mem_keys]
  exact exists_congr fun b ↦ and_congr_right fun hb ↦ h.identities b (hl hb) a ha

theorem Agree.nodup (h : Agree key key' Same Same' on) (hl : l ⊆ on) (hnodup : (keys key l).Nodup) :
    (keys key' l).Nodup := by
  rw [keys, List.Nodup, pairwise_map] at hnodup ⊢
  exact hnodup.imp_of_mem fun ha hb hne heq ↦ hne ((h.identities _ (hl ha) _ (hl hb)).mpr heq)

theorem Woven.congr (hwoven : Woven key Same l m r) (h : Agree key key' Same Same' (l ++ m)) :
    Woven key' Same' l m r := by
  induction hwoven with
  | nil => exact .nil
  | first hkey _ ih =>
    refine .first (fun hk ↦ hkey ?_) (ih (h.subset fun x hx ↦ mem_cons_of_mem _ hx))
    exact (h.mem_keys (subset_append_right _ _) mem_cons_self).mpr hk
  | second hkey _ ih =>
    refine .second (fun hk ↦ hkey ?_) (ih (h.subset ?_))
    · refine (h.mem_keys (subset_append_left _ _) ?_).mpr hk
      exact mem_append_right _ mem_cons_self
    · exact append_subset.mpr ⟨subset_append_left _ _,
        fun x hx ↦ mem_append_right _ (mem_cons_of_mem _ hx)⟩
  | both hkey hsame _ ih =>
    have hb : ∀ {a b : α} {l m : List α}, b ∈ (a :: l) ++ (b :: m) := fun {a b l m} ↦
      mem_append_right _ mem_cons_self
    refine .both ((h.identities _ mem_cons_self _ hb).mp hkey)
      ((h.same _ mem_cons_self _ hb).mp hsame) (ih (h.subset ?_))
    exact append_subset.mpr ⟨fun x hx ↦ mem_append_left _ (mem_cons_of_mem _ hx),
        fun x hx ↦ mem_append_right _ (mem_cons_of_mem _ hx)⟩

variable [DecidableEq κ] [DecidableEq κ']

theorem shared_eq (l m : List α) :
    shared key l m = (l.filter fun a ↦ key a ∈ keys key m).map key := by
  exact filter_map

theorem Agree.order (h : Agree key key' Same Same' on) (hl : l ⊆ on) (hm : m ⊆ on)
    (horder : shared key l m = shared key m l) : shared key' l m = shared key' m l := by
  have hfilter : ∀ {l m : List α}, l ⊆ on → m ⊆ on →
      (l.filter fun a ↦ key a ∈ keys key m) = l.filter fun a ↦ key' a ∈ keys key' m :=
    fun hl hm ↦ filter_congr fun a ha ↦ decide_eq_decide.mpr (h.mem_keys hm (hl ha))
  have hmap : ∀ l m : List α, l ⊆ on → m ⊆ on → l.map key = m.map key → l.map key' = m.map key' := by
    intro l
    induction l with
    | nil =>
      intro m _ _ heq
      rw [map_nil, eq_comm, map_eq_nil_iff] at heq
      rw [heq]
    | cons a l ih =>
      intro m hl hm heq
      cases m with
      | nil => simp at heq
      | cons b m =>
        rw [map_cons, map_cons, cons.injEq] at heq
        rw [cons_subset] at hl hm
        rw [map_cons, map_cons, (h.identities a hl.1 b hm.1).mp heq.1, ih m hl.2 hm.2 heq.2]
  rw [shared_eq, shared_eq] at horder ⊢
  rw [← hfilter hl hm, ← hfilter hm hl]
  exact hmap _ _ (fun x hx ↦ hl (mem_of_mem_filter hx))
    (fun x hx ↦ hm (mem_of_mem_filter hx)) horder

theorem Consistent.congr (hcon : Consistent key Same l m) (h : Agree key key' Same Same' (l ++ m)) :
    Consistent key' Same' l m := by
  have hl : l ⊆ l ++ m := subset_append_left l m
  have hm : m ⊆ l ++ m := subset_append_right l m
  refine ⟨h.nodup hl hcon.first, h.nodup hm hcon.second, fun a ha b hb hkey ↦ ?_,
    h.order hl hm hcon.order⟩
  exact (h.same a (hl ha) b (hm hb)).mp
    (hcon.same a ha b hb ((h.identities a (hl ha) b (hm hb)).mpr hkey))

end Renaming

end Supersequence
