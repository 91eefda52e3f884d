import OpenCodex.Data.JsonOrder
import OpenCodex.Data.SingleHead
import OpenCodex.Lab.Claims

/-!
# What a claim's state says

`Trustworthy` is what is asked of the states of the claims: they do not depend on the order of the
events; where a key has a current claim, that claim supersedes all others of the key, directly or
through others, without cycles and without links that lead elsewhere; and where a key has none, a
corruption says so.

The links of a key are followed one by one, and nothing looks for cycles among them.  A cycle of
claims is superseded by itself: it hides behind another claim that is current, or leaves a key
without a current claim and without a corruption.  `trustworthy_iff` says that this is all that can
go wrong.
-/

set_option autoImplicit false

open List

open Json

namespace Lab

/-! ## What is asked -/

/-- The first claim names the second among those it supersedes. -/
def Supersedes (a b : ClaimSnapshotEvent) : Prop := b.eventId ∈ a.supersedes

/-- The claims of a key. -/
def keySet (claims : List ClaimSnapshotEvent) (key : JsString) : Set ClaimSnapshotEvent :=
  { c | c ∈ claims ∧ c.key = key }

/-- Every link of the key's claims stays within the key, or leads to an event that is purged. -/
def Clean (purged : List JsString) (claims : List ClaimSnapshotEvent) (key : JsString) : Prop :=
  ∀ a ∈ keySet claims key, ∀ pred ∈ a.supersedes,
    (∃ b ∈ keySet claims key, b.eventId = pred) ∨
      (∀ b ∈ claims, b.eventId ≠ pred) ∧ pred ∈ purged

/-- The claim may be taken for the current one of its key. -/
structure Leads (purged : List JsString) (claims : List ClaimSnapshotEvent) (key : JsString)
    (c : ClaimSnapshotEvent) : Prop where
  mem : c ∈ keySet claims key
  acyclic : SingleHead.Acyclic (keySet claims key) Supersedes
  within : Clean purged claims key
  reaches : ∀ b ∈ keySet claims key, b ≠ c → Relation.TransGen
    (fun x y ↦ x ∈ keySet claims key ∧ y ∈ keySet claims key ∧ Supersedes x y) c b

/-- The corruption is about the key. -/
def Names (claims : List ClaimSnapshotEvent) (key : JsString) (r : LedgerCorruption) : Prop :=
  (∃ c ∈ keySet claims key, r.eventId = some c.eventId) ∨
    r.detail = js "multiple unsuperseded claims for " ++ key

/-- What is asked of the states of the claims. -/
structure Trustworthy (unusable purged : List JsString) (claims : List ClaimSnapshotEvent) :
    Prop where
  /-- The order of the events does not matter. -/
  order : ∀ claims', claims.Perm claims' →
    (∀ key, (resolveClaimStates unusable purged claims).states.get? key =
      (resolveClaimStates unusable purged claims').states.get? key) ∧
    (resolveClaimStates unusable purged claims).corruptions.Perm
      (resolveClaimStates unusable purged claims').corruptions
  /-- A current claim stands for all claims of its key. -/
  current : ∀ key state c, (resolveClaimStates unusable purged claims).states.get? key =
    some state → state.current = some c → Leads purged claims key c
  /-- A key without a current claim is reported. -/
  reported : ∀ key, (keySet claims key).Nonempty →
    ∃ state, (resolveClaimStates unusable purged claims).states.get? key = some state ∧
      (state.current = none → state.corruption.isSome = true ∧
        ∃ r ∈ (resolveClaimStates unusable purged claims).corruptions, Names claims key r)

/-! ## Keys -/

theorem claimKeyString_inj {subjectId capability subjectId' capability' : JsString} :
    claimKeyString subjectId capability = claimKeyString subjectId' capability' ↔
      subjectId = subjectId' ∧ capability = capability' := by
  have hdecimal : ∀ a b : JsString, (Json.arr [.str a, .str b]).Decimal := by
    intro a b
    refine .arr fun v hv ↦ ?_
    rcases mem_cons.mp hv with rfl | hv
    · exact .str a
    · rw [mem_singleton.mp hv]
      exact .str b
  constructor
  · intro h
    have hparse := parse_stringify (hdecimal subjectId capability)
    rw [show (Json.arr [.str subjectId, .str capability]).stringify = _ from h, claimKeyString,
      parse_stringify (hdecimal _ _)] at hparse
    simpa [eq_comm] using hparse
  · rintro ⟨rfl, rfl⟩
    rfl

theorem key_eq_iff {a b : ClaimSnapshotEvent} :
    a.key = b.key ↔ a.subjectId = b.subjectId ∧ a.capability = b.capability := claimKeyString_inj

/-- The claims of a key, as they come. -/
def keyList (claims : List ClaimSnapshotEvent) (key : JsString) : List ClaimSnapshotEvent :=
  claims.filter fun c ↦ c.key = key

variable {c : ClaimSnapshotEvent}

theorem mem_keyList {claims : List ClaimSnapshotEvent} {key : JsString} :
    c ∈ keyList claims key ↔ c ∈ keySet claims key := by
  rw [keyList, mem_filter, decide_eq_true_iff]
  rfl

theorem claimsByKey_get? (claims : List ClaimSnapshotEvent) (key : JsString) :
    (claimsByKey claims).get? key =
      if keyList claims key = [] then none else some (keyList claims key) := by
  induction claims using reverseRecOn with
  | nil => rfl
  | append_singleton claims claim ih =>
    have hfold : claimsByKey (claims ++ [claim]) = (claimsByKey claims).set claim.key
        (((claimsByKey claims).get? claim.key).getD [] ++ [claim]) := by
      rw [claimsByKey, foldl_append]
      rfl
    have hlist : keyList (claims ++ [claim]) key =
        keyList claims key ++ if claim.key = key then [claim] else [] := by
      rw [keyList, filter_append, keyList, filter_singleton]
      by_cases hkey : claim.key = key <;> simp [hkey]
    rw [hfold, OMap.get?_set, hlist]
    by_cases hkey : claim.key = key
    · have hne : keyList claims key ++ [claim] ≠ [] := by simp
      rw [if_pos hkey.symm, if_pos hkey, if_neg hne, hkey, ih]
      split
      · rename_i hnil
        rw [hnil]
        rfl
      · rfl
    · rw [if_neg fun h ↦ hkey h.symm, if_neg hkey, append_nil, ih]

/-- The events by their ids. -/
def byId (claims : List ClaimSnapshotEvent) : OMap JsString ClaimSnapshotEvent :=
  OMap.empty.setAll (claims.map fun claim ↦ (claim.eventId, claim))

theorem byId_get? {claims : List ClaimSnapshotEvent} (hids : (claims.map (·.eventId)).Nodup)
    {id : JsString} : (byId claims).get? id = some c ↔ c ∈ claims ∧ c.eventId = id := by
  have hentries : (byId claims).entries = claims.map fun claim ↦ (claim.eventId, claim) := by
    rw [byId, OMap.entries_setAll]
    · rfl
    · change (map Prod.fst (map _ claims)).Nodup
      rwa [map_map]
  rw [← OMap.mem_entries, hentries, mem_map]
  constructor
  · rintro ⟨claim, hclaim, heq⟩
    rw [Prod.mk.injEq] at heq
    exact ⟨heq.2 ▸ hclaim, heq.2 ▸ heq.1⟩
  · rintro ⟨hc, rfl⟩
    exact ⟨c, hc, rfl⟩

/-- What a key comes to. -/
def keyResult (unusable purged : List JsString) (claims : List ClaimSnapshotEvent)
    (key : JsString) : ClaimState × List LedgerCorruption :=
  resolveKey (byId claims) unusable purged key (keyList claims key)

theorem resolve_fold (f : JsString × List ClaimSnapshotEvent → ClaimState × List LedgerCorruption)
    (entries : List (JsString × List ClaimSnapshotEvent)) (result : ClaimStates) :
    entries.foldl (fun result entry ↦
        (⟨result.states.set entry.1 (f entry).1, result.corruptions ++ (f entry).2⟩ : ClaimStates))
      result = ⟨result.states.setAll (entries.map fun entry ↦ (entry.1, (f entry).1)),
        result.corruptions ++ entries.flatMap fun entry ↦ (f entry).2⟩ := by
  induction entries generalizing result with
  | nil => simp
  | cons entry entries ih => rw [foldl_cons, ih]; simp

theorem mem_entries_claimsByKey {claims : List ClaimSnapshotEvent} {key : JsString}
    {list : List ClaimSnapshotEvent} (h : (key, list) ∈ (claimsByKey claims).entries) :
    list = keyList claims key ∧ list ≠ [] := by
  rw [OMap.mem_entries, claimsByKey_get?] at h
  split at h
  · exact absurd h nofun
  · obtain rfl := Option.some.inj h
    exact ⟨rfl, ‹_›⟩

/-- **The states, key by key.** -/
theorem states_get? (unusable purged : List JsString) (claims : List ClaimSnapshotEvent)
    (key : JsString) : (resolveClaimStates unusable purged claims).states.get? key =
      if keyList claims key = [] then none else some (keyResult unusable purged claims key).1 := by
  unfold resolveClaimStates
  dsimp only
  rw [resolve_fold fun entry ↦ resolveKey _ unusable purged entry.1 entry.2]
  have hnodup : (((.empty : OMap JsString ClaimState).entries ++
      (claimsByKey claims).entries.map fun entry : JsString × List ClaimSnapshotEvent ↦
        (entry.1, (resolveKey (byId claims) unusable purged entry.1 entry.2).1)).map
          Prod.fst).Nodup := by
    change (map Prod.fst (map _ _)).Nodup
    rw [map_map]
    exact (claimsByKey claims).nodup
  refine Option.ext fun state ↦ ?_
  rw [← OMap.mem_entries, ← byId, OMap.entries_setAll hnodup]
  change (key, state) ∈ map _ _ ↔ _
  rw [mem_map]
  constructor
  · rintro ⟨⟨key', list⟩, hentry, heq⟩
    obtain ⟨rfl, rfl⟩ := heq
    obtain ⟨rfl, hne⟩ := mem_entries_claimsByKey hentry
    rw [if_neg hne]
    rfl
  · intro h
    split at h
    · exact absurd h nofun
    · rename_i hne
      refine ⟨(key, keyList claims key), ?_, ?_⟩
      · rw [OMap.mem_entries, claimsByKey_get?, if_neg hne]
      · rw [← Option.some.inj h]
        rfl

theorem corruptions_eq (unusable purged : List JsString) (claims : List ClaimSnapshotEvent) :
    (resolveClaimStates unusable purged claims).corruptions =
      (claimsByKey claims).keys.flatMap fun key ↦ (keyResult unusable purged claims key).2 := by
  unfold resolveClaimStates
  dsimp only
  rw [resolve_fold fun entry ↦ resolveKey _ unusable purged entry.1 entry.2, nil_append,
    OMap.keys, flatMap_map]
  refine flatMap_congr fun entry hentry ↦ ?_
  rw [keyResult, ← (mem_entries_claimsByKey hentry).1]
  rfl

theorem mem_keys_claimsByKey {claims : List ClaimSnapshotEvent} {key : JsString} :
    key ∈ (claimsByKey claims).keys ↔ (keySet claims key).Nonempty := by
  rw [OMap.mem_keys, claimsByKey_get?]
  constructor
  · rintro ⟨list, hlist⟩
    split at hlist
    · exact absurd hlist nofun
    · rename_i hne
      obtain ⟨c, hc⟩ := exists_mem_of_ne_nil _ hne
      exact ⟨c, mem_keyList.mp hc⟩
  · rintro ⟨c, hc⟩
    rw [if_neg (ne_nil_of_mem (mem_keyList.mpr hc))]
    exact ⟨_, rfl⟩

/-! ## The order of the events -/

theorem claimLe_total (a b : ClaimSnapshotEvent) : claimLe a b ∨ claimLe b a := by
  unfold claimLe
  by_cases heff : a.effectiveAt = b.effectiveAt
  · by_cases hrec : a.recordedAt = b.recordedAt
    · simpa [heff, hrec] using List.le_total a.eventId b.eventId
    · simp [heff, hrec, Ne.symm hrec, lt_or_gt_of_ne hrec]
  · simp [heff, Ne.symm heff, lt_or_gt_of_ne heff]

theorem claimLe_trans (a b c : ClaimSnapshotEvent) (hab : claimLe a b) (hbc : claimLe b c) :
    claimLe a c := by
  unfold claimLe at *
  have htrans : a.eventId ≤ b.eventId → b.eventId ≤ c.eventId → a.eventId ≤ c.eventId :=
    List.le_trans
  grind

theorem claimLe_antisymm {a b : ClaimSnapshotEvent} (hab : claimLe a b) (hba : claimLe b a) :
    a.eventId = b.eventId := by
  unfold claimLe at *
  have hanti : a.eventId ≤ b.eventId → b.eventId ≤ a.eventId → a.eventId = b.eventId :=
    List.le_antisymm
  grind

instance : Std.Total claimLe := ⟨claimLe_total⟩

instance : IsTrans ClaimSnapshotEvent claimLe := ⟨claimLe_trans⟩

theorem followLinks_congr {m m' : OMap JsString ClaimSnapshotEvent}
    (h : ∀ id, m.get? id = m'.get? id) (purged : List JsString)
    (sorted : List ClaimSnapshotEvent) : followLinks m purged sorted = followLinks m' purged sorted := by
  have hlink : followLink m purged = followLink m' purged := by
    funext claim links pred
    rw [followLink, followLink, h]
  rw [followLinks, followLinks, hlink]

theorem keyResult_of_perm {claims claims' : List ClaimSnapshotEvent} (hperm : claims.Perm claims')
    (hids : (claims.map (·.eventId)).Nodup) (unusable purged : List JsString) (key : JsString) :
    keyResult unusable purged claims key = keyResult unusable purged claims' key := by
  have hids' : (claims'.map (·.eventId)).Nodup := (hperm.map _).nodup_iff.mp hids
  have hsort := (hperm.filter fun c ↦ decide (c.key = key)).insertionSort_eq
    (hids.sublist (filter_sublist.map _)) fun _ _ ↦ claimLe_antisymm
  have hget : ∀ id, (byId claims).get? id = (byId claims').get? id := by
    intro id
    refine Option.ext fun c ↦ ?_
    rw [byId_get? hids, byId_get? hids', hperm.mem_iff]
  unfold keyResult resolveKey
  dsimp only
  rw [followLinks_congr hget, keyList, keyList, hsort]

/-- **The states do not depend on the order of the events.** -/
theorem resolve_of_perm {claims claims' : List ClaimSnapshotEvent} (hperm : claims.Perm claims')
    (hids : (claims.map (·.eventId)).Nodup) (unusable purged : List JsString) :
    (∀ key, (resolveClaimStates unusable purged claims).states.get? key =
      (resolveClaimStates unusable purged claims').states.get? key) ∧
    (resolveClaimStates unusable purged claims).corruptions.Perm
      (resolveClaimStates unusable purged claims').corruptions := by
  have hresult := keyResult_of_perm hperm hids unusable purged
  constructor
  · intro key
    have hlist : keyList claims key = [] ↔ keyList claims' key = [] :=
      ⟨fun h ↦ List.Perm.eq_nil (h ▸ (hperm.filter _).symm),
        fun h ↦ List.Perm.eq_nil (h ▸ hperm.filter _)⟩
    rw [states_get?, states_get?, hresult]
    simp only [hlist]
  · rw [corruptions_eq, corruptions_eq, funext hresult]
    refine List.Perm.flatMap_right _ ?_
    rw [perm_ext_iff_of_nodup (OMap.keys_nodup _) (OMap.keys_nodup _)]
    intro key
    rw [mem_keys_claimsByKey, mem_keys_claimsByKey, keySet, keySet]
    simp only [hperm.mem_iff]

/-! ## The links of a key -/

/-- The link leads to an event that is missing, or to one of another key. -/
def Defective (byId : OMap JsString ClaimSnapshotEvent) (purged : List JsString)
    (link : ClaimSnapshotEvent × JsString) : Prop :=
  (byId.get? link.2 = none ∧ link.2 ∉ purged) ∨
    ∃ prev, byId.get? link.2 = some prev ∧ prev.key ≠ link.1.key

/-- The link leads to an event of the same key. -/
def Resolved (byId : OMap JsString ClaimSnapshotEvent) (link : ClaimSnapshotEvent × JsString) :
    Prop :=
  ∃ prev, byId.get? link.2 = some prev ∧ prev.key = link.1.key

/-- **One link.**  It is followed, or reported, or leads to an event that is purged. -/
theorem followLink_cases (m : OMap JsString ClaimSnapshotEvent) (purged : List JsString)
    (claim : ClaimSnapshotEvent) (links : Links) (pred : JsString) :
    (Resolved m (claim, pred) ∧ ¬ Defective m purged (claim, pred) ∧
      followLink m purged claim links pred =
        { links with superseded := links.superseded ++ [pred] }) ∨
    (¬ Resolved m (claim, pred) ∧ Defective m purged (claim, pred) ∧ ∃ text detail,
      followLink m purged claim links pred = { links with
        corruption := some text
        corruptions := links.corruptions ++ [⟨some claim.eventId, detail⟩] }) ∨
    (¬ Resolved m (claim, pred) ∧ ¬ Defective m purged (claim, pred) ∧
      followLink m purged claim links pred = links) := by
  unfold followLink Resolved Defective
  cases hget : m.get? pred with
  | none =>
    by_cases hpurged : pred ∈ purged
    · simp [hpurged]
    · simp [hpurged]
  | some prev =>
    have hkey : (prev.subjectId ≠ claim.subjectId ∨ prev.capability ≠ claim.capability) ↔
        prev.key ≠ claim.key := by
      rw [Ne, Ne, Ne, key_eq_iff, not_and_or]
    by_cases hcross : prev.key ≠ claim.key
    · simp [hkey, hcross]
    · have hsame : prev.key = claim.key := not_not.mp hcross
      simp [hkey, hsame]

theorem foldl_followLink (m : OMap JsString ClaimSnapshotEvent) (purged : List JsString)
    (pairs : List (ClaimSnapshotEvent × JsString)) (links : Links) :
    let result := pairs.foldl (fun links p ↦ followLink m purged p.1 links p.2) links
    (∀ id, id ∈ result.superseded ↔ id ∈ links.superseded ∨ ∃ p ∈ pairs, p.2 = id ∧ Resolved m p) ∧
    (result.corruption.isSome = true ↔
      links.corruption.isSome = true ∨ ∃ p ∈ pairs, Defective m purged p) ∧
    (∀ r ∈ links.corruptions, r ∈ result.corruptions) ∧
    ((∃ p ∈ pairs, Defective m purged p) →
      ∃ r ∈ result.corruptions, ∃ p ∈ pairs, r.eventId = some p.1.eventId) := by
  induction pairs generalizing links with
  | nil =>
    refine ⟨fun id ↦ ?_, ?_, fun r hr ↦ hr, ?_⟩
    · simp
    · simp
    · rintro ⟨p, hp, -⟩
      exact absurd hp not_mem_nil
  | cons p pairs ih =>
    rw [foldl_cons]
    obtain ⟨hsup, hcor, hkeep, hrep⟩ := ih (followLink m purged p.1 links p.2)
    dsimp only at hsup hcor hkeep hrep ⊢
    simp only [mem_cons, exists_eq_or_imp]
    have hlater : (∃ p ∈ pairs, Defective m purged p) → ∃ r ∈ (pairs.foldl
        (fun links p ↦ followLink m purged p.1 links p.2)
          (followLink m purged p.1 links p.2)).corruptions,
        r.eventId = some p.1.eventId ∨ ∃ p ∈ pairs, r.eventId = some p.1.eventId := by
      intro h
      obtain ⟨r, hr, hp⟩ := hrep h
      exact ⟨r, hr, .inr hp⟩
    rcases followLink_cases m purged p.1 links p.2 with
      ⟨hres, hdef, heq⟩ | ⟨hres, hdef, text, detail, heq⟩ | ⟨hres, hdef, heq⟩
    · rw [heq] at hsup hcor hkeep hlater ⊢
      refine ⟨fun id ↦ ?_, ?_, hkeep, fun h ↦ hlater (h.resolve_left hdef)⟩
      · rw [hsup, mem_append, mem_singleton, or_assoc, eq_comm, and_iff_left hres]
      · rw [hcor]
        exact or_congr_right ⟨.inr, fun h ↦ h.resolve_left hdef⟩
    · rw [heq] at hsup hcor hkeep ⊢
      refine ⟨fun id ↦ ?_, ?_, fun r hr ↦ hkeep r (mem_append_left _ hr), fun _ ↦ ?_⟩
      · rw [hsup]
        exact or_congr_right ⟨.inr, fun h ↦ h.resolve_left fun h ↦ hres h.2⟩
      · rw [hcor]
        exact iff_of_true (.inl rfl) (.inr (.inl hdef))
      · exact ⟨_, hkeep _ (mem_append_right _ (mem_singleton_self _)), .inl rfl⟩
    · rw [heq] at hsup hcor hkeep hlater ⊢
      refine ⟨fun id ↦ ?_, ?_, hkeep, fun h ↦ hlater (h.resolve_left hdef)⟩
      · rw [hsup]
        exact or_congr_right ⟨.inr, fun h ↦ h.resolve_left fun h ↦ hres h.2⟩
      · rw [hcor]
        exact or_congr_right ⟨.inr, fun h ↦ h.resolve_left hdef⟩

/-- The links of the claims, one by one. -/
def linksOf (claims : List ClaimSnapshotEvent) : List (ClaimSnapshotEvent × JsString) :=
  claims.flatMap fun claim ↦ claim.supersedes.map fun pred ↦ (claim, pred)

theorem mem_linksOf {claims : List ClaimSnapshotEvent} {p : ClaimSnapshotEvent × JsString} :
    p ∈ linksOf claims ↔ p.1 ∈ claims ∧ p.2 ∈ p.1.supersedes := by
  rw [linksOf, mem_flatMap]
  constructor
  · rintro ⟨claim, hclaim, hp⟩
    obtain ⟨pred, hpred, rfl⟩ := mem_map.mp hp
    exact ⟨hclaim, hpred⟩
  · rintro ⟨hclaim, hpred⟩
    exact ⟨p.1, hclaim, mem_map.mpr ⟨p.2, hpred, rfl⟩⟩

theorem followLinks_eq (m : OMap JsString ClaimSnapshotEvent) (purged : List JsString)
    (sorted : List ClaimSnapshotEvent) : followLinks m purged sorted = (linksOf sorted).foldl
      (fun links p ↦ followLink m purged p.1 links p.2) ⟨[], none, []⟩ := by
  rw [followLinks, linksOf, foldl_flatMap]
  simp only [foldl_map]

section Key

variable {unusable purged : List JsString} {claims : List ClaimSnapshotEvent}
  (hids : (claims.map (·.eventId)).Nodup) {key : JsString}

include hids

theorem clean_iff : Clean purged claims key ↔
    ¬ ∃ p ∈ linksOf ((keyList claims key).insertionSort claimLe),
      Defective (byId claims) purged p := by
  unfold Clean
  push Not
  constructor
  · rintro hclean ⟨a, pred⟩ hp hdef
    rw [mem_linksOf, mem_insertionSort, mem_keyList] at hp
    rcases hclean a hp.1 pred hp.2 with ⟨b, hb, rfl⟩ | ⟨hnone, hpurged⟩
    · have hget := (byId_get? hids).mpr ⟨hb.1, rfl⟩
      rcases hdef with ⟨hnone, -⟩ | ⟨prev, hprev, hne⟩
      · exact absurd (hnone.symm.trans hget) nofun
      · obtain rfl := Option.some.inj (hprev.symm.trans hget)
        exact hne (hb.2.trans hp.1.2.symm)
    · rcases hdef with ⟨-, hnot⟩ | ⟨prev, hprev, -⟩
      · exact hnot hpurged
      · obtain ⟨hmem, hid⟩ := (byId_get? hids).mp hprev
        exact hnone prev hmem hid
  · intro hnone a ha pred hpred
    have hp : (a, pred) ∈ linksOf ((keyList claims key).insertionSort claimLe) := by
      rw [mem_linksOf, mem_insertionSort, mem_keyList]
      exact ⟨ha, hpred⟩
    have hnot := hnone _ hp
    unfold Defective at hnot
    push Not at hnot
    cases hget : (byId claims).get? pred with
    | none =>
      refine .inr ⟨fun b hb hid ↦ ?_, hnot.1 hget⟩
      exact absurd (hget.symm.trans ((byId_get? hids).mpr ⟨hb, hid⟩)) nofun
    | some prev =>
      obtain ⟨hmem, hid⟩ := (byId_get? hids).mp hget
      exact .inl ⟨prev, ⟨hmem, (hnot.2 prev hget).trans ha.2⟩, hid⟩

theorem head_iff (hc : c ∈ keySet claims key) : c.eventId ∉ (followLinks (byId claims) purged
      ((keyList claims key).insertionSort claimLe)).superseded ↔
      SingleHead.IsHead (keySet claims key) Supersedes c := by
  rw [followLinks_eq, ((foldl_followLink _ _ _ _).1 _)]
  simp only [not_mem_nil, false_or]
  unfold SingleHead.IsHead
  rw [and_iff_right hc, not_exists]
  constructor
  · intro h b hb hsup
    refine h (b, c.eventId) ⟨?_, rfl, c, (byId_get? hids).mpr ⟨hc.1, rfl⟩, hc.2.trans hb.2.symm⟩
    rw [mem_linksOf, mem_insertionSort, mem_keyList]
    exact ⟨hb, hsup⟩
  · rintro h ⟨b, pred⟩ ⟨hp, hid, -⟩
    rw [mem_linksOf, mem_insertionSort, mem_keyList] at hp
    obtain rfl : pred = c.eventId := hid
    exact h b hp.1 hp.2

/-- **What a key comes to**, by its links and its heads. -/
theorem keyResult_cases :
    (¬ Clean purged claims key ∧ (keyResult unusable purged claims key).1.current = none ∧
      (keyResult unusable purged claims key).1.corruption.isSome = true ∧
      ∃ r ∈ (keyResult unusable purged claims key).2, Names claims key r) ∨
    (Clean purged claims key ∧ (¬ ∀ a b, SingleHead.IsHead (keySet claims key) Supersedes a →
        SingleHead.IsHead (keySet claims key) Supersedes b → a = b) ∧
      (keyResult unusable purged claims key).1.current = none ∧
      (keyResult unusable purged claims key).1.corruption.isSome = true ∧
      ∃ r ∈ (keyResult unusable purged claims key).2, Names claims key r) ∨
    (Clean purged claims key ∧ (∀ a b, SingleHead.IsHead (keySet claims key) Supersedes a →
        SingleHead.IsHead (keySet claims key) Supersedes b → a = b) ∧
      (∀ c, (keyResult unusable purged claims key).1.current = some c ↔
        SingleHead.IsHead (keySet claims key) Supersedes c) ∧
      (keyResult unusable purged claims key).1.corruption = none) := by
  have hspec := foldl_followLink (byId claims) purged
    (linksOf ((keyList claims key).insertionSort claimLe)) ⟨[], none, []⟩
  rw [← followLinks_eq] at hspec
  obtain ⟨-, hcor, -, hrep⟩ := hspec
  simp only [Option.isSome_none, Bool.false_eq_true, false_or] at hcor
  by_cases hclean : Clean purged claims key
  · have hnone : ¬ (followLinks (byId claims) purged
        ((keyList claims key).insertionSort claimLe)).corruption.isSome = true := by
      rw [hcor]
      exact (clean_iff hids).mp hclean
    -- The claims that nothing supersedes.
    have hmem : ∀ c, (c ∈ ((keyList claims key).insertionSort claimLe).filter fun claim ↦
        claim.eventId ∉ (followLinks (byId claims) purged
          ((keyList claims key).insertionSort claimLe)).superseded) ↔
        SingleHead.IsHead (keySet claims key) Supersedes c := by
      intro c
      rw [mem_filter, mem_insertionSort, mem_keyList, decide_eq_true_iff]
      constructor
      · rintro ⟨hc, hsup⟩
        exact (head_iff hids hc).mp hsup
      · intro hhead
        exact ⟨hhead.1, (head_iff hids hhead.1).mpr hhead⟩
    have hnodup : (((keyList claims key).insertionSort claimLe).filter fun claim ↦
        claim.eventId ∉ (followLinks (byId claims) purged
          ((keyList claims key).insertionSort claimLe)).superseded).Nodup := by
      refine List.Nodup.filter _ ((perm_insertionSort _ _).nodup_iff.mpr ?_)
      exact (List.Nodup.of_map _ hids).filter _
    unfold keyResult resolveKey
    dsimp only
    rw [if_neg hnone]
    generalize ((keyList claims key).insertionSort claimLe).filter (fun claim ↦
      decide (claim.eventId ∉ (followLinks (byId claims) purged
        ((keyList claims key).insertionSort claimLe)).superseded)) = current at hmem hnodup ⊢
    rcases current with _ | ⟨c, _ | ⟨d, rest⟩⟩
    · refine .inr (.inr ⟨hclean, fun a b ha _ ↦ ?_, fun c ↦ ?_, rfl⟩)
      · exact absurd ((hmem a).mpr ha) not_mem_nil
      · exact iff_of_false (by simp) fun hc ↦ absurd ((hmem c).mpr hc) not_mem_nil
    · refine .inr (.inr ⟨hclean, fun a b ha hb ↦ ?_, fun x ↦ ?_, rfl⟩)
      · rw [mem_singleton.mp ((hmem a).mpr ha), mem_singleton.mp ((hmem b).mpr hb)]
      · rw [← hmem, mem_singleton]
        simp [eq_comm]
    · refine .inr (.inl ⟨hclean, fun honly ↦ ?_, rfl, rfl,
        ⟨none, js "multiple unsuperseded claims for " ++ key⟩, ?_, .inr rfl⟩)
      · have heq := honly c d ((hmem c).mp mem_cons_self)
          ((hmem d).mp (mem_cons_of_mem _ mem_cons_self))
        rw [heq, nodup_cons] at hnodup
        exact hnodup.1 mem_cons_self
      · exact mem_append_right _ (mem_singleton_self _)
  · have hdefect := not_not.mp fun hnot ↦ hclean ((clean_iff hids).mpr hnot)
    have hsome := hcor.mpr hdefect
    obtain ⟨r, hr, p, hp, hid⟩ := hrep hdefect
    rw [mem_linksOf, mem_insertionSort, mem_keyList] at hp
    unfold keyResult resolveKey
    dsimp only
    rw [if_pos hsome]
    exact .inl ⟨hclean, rfl, hsome, r, hr, .inl ⟨p.1, hp.1, hid⟩⟩

end Key

/-! ## The result -/

theorem keySet_finite (claims : List ClaimSnapshotEvent) (key : JsString) :
    (keySet claims key).Finite := (finite_toSet claims).subset fun _ h ↦ h.1

/-- **The states of the claims can be trusted exactly where no cycle hides.**  Where the links of a
key are clean and at most one of its claims is superseded by none, they must not form a cycle. -/
theorem trustworthy_iff (unusable purged : List JsString) (claims : List ClaimSnapshotEvent)
    (hids : (claims.map (·.eventId)).Nodup) : Trustworthy unusable purged claims ↔
      ∀ key, Clean purged claims key → (∀ a b, SingleHead.IsHead (keySet claims key) Supersedes a →
          SingleHead.IsHead (keySet claims key) Supersedes b → a = b) →
        SingleHead.Acyclic (keySet claims key) Supersedes := by
  have hstate : ∀ key, (keySet claims key).Nonempty →
      (resolveClaimStates unusable purged claims).states.get? key =
        some (keyResult unusable purged claims key).1 := by
    rintro key ⟨c, hc⟩
    rw [states_get?, if_neg (ne_nil_of_mem (mem_keyList.mpr hc))]
  have hcorruption : ∀ key, (keySet claims key).Nonempty →
      ∀ r ∈ (keyResult unusable purged claims key).2,
        r ∈ (resolveClaimStates unusable purged claims).corruptions := by
    intro key hne r hr
    rw [corruptions_eq, mem_flatMap]
    exact ⟨key, mem_keys_claimsByKey.mpr hne, hr⟩
  constructor
  · intro htrust key hclean honly
    rcases (keySet claims key).eq_empty_or_nonempty with hempty | hne
    · intro a ha
      rw [hempty] at ha
      exact absurd ha (Set.notMem_empty a)
    rcases @keyResult_cases unusable purged claims hids key with
      ⟨hnot, -⟩ | ⟨-, hnot, -⟩ | ⟨-, -, hcurrent, hnone⟩
    · exact absurd hclean hnot
    · exact absurd honly hnot
    · obtain ⟨state, hget, hreported⟩ := htrust.reported key hne
      obtain rfl := Option.some.inj ((hstate key hne).symm.trans hget)
      cases hc : (keyResult unusable purged claims key).1.current with
      | none =>
        have hsome := (hreported hc).1
        rw [hnone] at hsome
        nomatch hsome
      | some c => exact (htrust.current key _ c (hstate key hne) hc).acyclic
  · intro hcond
    refine ⟨fun claims' hperm ↦ resolve_of_perm hperm hids unusable purged, ?_, ?_⟩
    · intro key state c hget hc
      have hne : (keySet claims key).Nonempty := by
        rw [states_get?] at hget
        split at hget
        · exact absurd hget nofun
        · rename_i hlist
          obtain ⟨c, hc⟩ := exists_mem_of_ne_nil _ hlist
          exact ⟨c, mem_keyList.mp hc⟩
      obtain rfl := Option.some.inj ((hstate key hne).symm.trans hget)
      rcases @keyResult_cases unusable purged claims hids key with
        ⟨-, hnone, -⟩ | ⟨-, -, hnone, -⟩ | ⟨hclean, honly, hcurrent, -⟩
      · exact absurd (hnone.symm.trans hc) nofun
      · exact absurd (hnone.symm.trans hc) nofun
      · have hhead := (hcurrent c).mp hc
        have hacyclic := hcond key hclean honly
        exact ⟨hhead.1, hacyclic, hclean,
          hacyclic.reaches (keySet_finite claims key) fun a ha ↦ honly a c ha hhead⟩
    · intro key hne
      refine ⟨_, hstate key hne, fun hnone ↦ ?_⟩
      rcases @keyResult_cases unusable purged claims hids key with
        ⟨-, -, hcor, r, hr, hnames⟩ | ⟨-, -, -, hcor, r, hr, hnames⟩ | ⟨hclean, honly, hcurrent, -⟩
      · exact ⟨hcor, r, hcorruption key hne r hr, hnames⟩
      · exact ⟨hcor, r, hcorruption key hne r hr, hnames⟩
      · obtain ⟨c, hc⟩ := (hcond key hclean honly).exists_head (keySet_finite claims key) hne
        exact absurd (hnone.symm.trans ((hcurrent c).mpr hc)) nofun

/-- A claim of one capability of one subject. -/
def someClaim (id : String) (supersedes : List String) (at' : ℚ) : ClaimSnapshotEvent :=
  ⟨js id, js "s", js "c", supersedes.map js, at', at'⟩

/-- A claim and one that supersedes it. -/
def replacedClaim : List ClaimSnapshotEvent := [someClaim "b" ["a"] 2, someClaim "a" [] 1]

theorem replaced_trustworthy : Trustworthy [] [] replacedClaim ↔ ∀ key, Clean [] replacedClaim key →
        (∀ a b, SingleHead.IsHead (keySet replacedClaim key) Supersedes a →
          SingleHead.IsHead (keySet replacedClaim key) Supersedes b → a = b) →
        SingleHead.Acyclic (keySet replacedClaim key) Supersedes :=
  trustworthy_iff [] [] replacedClaim (by decide)

/-- Two claims that supersede each other leave their key without a current claim and without a
corruption. -/
theorem cycle_unreported : ¬ Trustworthy [] [] [someClaim "a" ["b"] 1, someClaim "b" ["a"] 2] := by
  intro h
  obtain ⟨state, hget, hreported⟩ := h.reported (claimKeyString (js "s") (js "c"))
    ⟨someClaim "a" ["b"] 1, mem_cons_self, rfl⟩
  have hstate : (resolveClaimStates [] [] [someClaim "a" ["b"] 1, someClaim "b" ["a"] 2]).states.get?
      (claimKeyString (js "s") (js "c")) =
        some ⟨claimKeyString (js "s") (js "c"), none, none, none⟩ := by decide +kernel
  obtain rfl := Option.some.inj (hstate.symm.trans hget)
  exact absurd (hreported rfl).1 (by decide)

end Lab
