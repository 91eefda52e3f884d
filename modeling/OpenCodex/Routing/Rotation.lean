import OpenCodex.Data.FairTurns
import OpenCodex.Data.OMap
import Mathlib.Data.Rat.Floor

/-!
# Accounts of a pool in turn

A pool of accounts is used in turn: each eligible account gains one, and the first of those with
most is picked and pays for all of them.  An account that is not eligible keeps what it has in the
table, however long it stays away.

With sticky limit one a pick holds nothing: the success that is noted for it makes it the active
account and lets it go at once.  So the picks of a pool are turns of `Data.FairTurns`, whatever
lists are eligible and whatever is picked in other pools meanwhile, and the stored weights stay
within what that allows (`rotations_balanced`).

The lists must name an account once.  One that is named twice gains twice, and the bounds are gone
(`weights_unbounded_by_repeats`).
-/

set_option autoImplicit false

open List Option

namespace Rotation

abbrev AccountId := String

def defaultStickyLimit : ℕ := 1
def minStickyLimit : ℕ := 1
def maxStickyLimit : ℕ := 100

/-- A whole number within the limits, or nothing. -/
def parseAccountPoolStickyLimit (raw : ℚ) : Option ℕ :=
  if raw.den = 1 ∧ (minStickyLimit : ℚ) ≤ raw ∧ raw ≤ maxStickyLimit then some raw.num.toNat
  else none

def normalizeAccountPoolStickyLimit (raw : ℚ) : ℕ :=
  (parseAccountPoolStickyLimit raw).getD defaultStickyLimit

structure SelectionState where
  activeKey : Option AccountId
  successes : ℕ
  currentWeights : OMap AccountId ℤ
  deriving DecidableEq

/-- The rotation of each pool. -/
abbrev SelectionTable := OMap String SelectionState

def SelectionState.fresh : SelectionState := ⟨none, 0, .empty⟩

/-- What the loop over the eligible accounts holds. -/
structure SmoothScan where
  /-- The index of the best account so far, and its score. -/
  best : Option (ℕ × ℤ)
  total : ℕ
  currentWeights : OMap AccountId ℤ

def smoothTurn (acc : SmoothScan) (e : AccountId × ℕ) : SmoothScan :=
  let score := (acc.currentWeights.get? e.1).getD 0 + 1
  { best := match acc.best with
      | none => some (e.2, score)
      | some b => if b.2 < score then some (e.2, score) else some b
    total := acc.total + 1
    currentWeights := acc.currentWeights.set e.1 score }

def smoothWeightedIndex (ids : List AccountId) (state : SelectionState) :
    Option ℕ × SelectionState :=
  let acc := ids.zipIdx.foldl smoothTurn ⟨none, 0, state.currentWeights⟩
  match acc.best.bind fun b ↦ ids[b.1]? with
  | none => (none, { state with currentWeights := acc.currentWeights })
  | some key =>
    (acc.best.map (·.1), { state with
      currentWeights := acc.currentWeights.set key
        ((acc.currentWeights.get? key).getD 0 - acc.total) })

/-- The active account while it is eligible, else the next in turn. -/
def pickRoundRobinFromState (eligibleIds : List AccountId) (stickyLimit : ℚ)
    (state : SelectionState) (commitSticky : Bool) : SelectionState × Option AccountId :=
  if eligibleIds.length = 0 then (state, none)
  else
    let limit := normalizeAccountPoolStickyLimit stickyLimit
    -- the empty string is no account
    match state.activeKey.filter fun key ↦ key ≠ "" ∧ key ∈ eligibleIds with
    | some key => (state, some key)
    | none =>
      let state := if state.activeKey.any (· ≠ "") then
          { state with activeKey := none, successes := 0 } else state
      match smoothWeightedIndex eligibleIds state with
      | (none, state) => (state, none)
      | (some index, state) =>
        let picked := eligibleIds[index]?
        if commitSticky ∧ 1 < limit then
          ({ state with activeKey := picked, successes := 0 }, picked)
        else (state, picked)

def pickRoundRobinAccount (table : SelectionTable) (poolKey : String)
    (eligibleIds : List AccountId) (stickyLimit : ℚ) : SelectionTable × Option AccountId :=
  let r := pickRoundRobinFromState eligibleIds stickyLimit ((table.get? poolKey).getD .fresh) true
  (table.set poolKey r.1, r.2)

/-- The pick on a copy. -/
def peekRoundRobinAccount (table : SelectionTable) (poolKey : String)
    (eligibleIds : List AccountId) (stickyLimit : ℚ) : SelectionTable × Option AccountId :=
  (table,
    (pickRoundRobinFromState eligibleIds stickyLimit ((table.get? poolKey).getD .fresh) false).2)

/-- Count a success of the account, which becomes the active one until it has had enough. -/
def SelectionState.succeeded (state : SelectionState) (accountId : AccountId) (limit : ℕ) :
    SelectionState :=
  let state := if state.activeKey ≠ some accountId then
      { state with activeKey := some accountId, successes := 0 } else state
  let state := { state with successes := state.successes + 1 }
  if limit ≤ state.successes then { state with activeKey := none, successes := 0 } else state

def notePoolRotationSuccess (table : SelectionTable) (poolKey : String) (accountId : AccountId)
    (stickyLimit : ℚ) : SelectionTable :=
  match table.get? poolKey with
  | none => table
  | some state =>
    table.set poolKey (state.succeeded accountId (normalizeAccountPoolStickyLimit stickyLimit))

/-! ## Runs -/

/-- A pick in some pool. -/
structure Turn where
  poolKey : String
  eligibleIds : List AccountId

/-- Pick an account, and note its success. -/
def rotate (table : SelectionTable) (turn : Turn) : SelectionTable × Option AccountId :=
  match pickRoundRobinAccount table turn.poolKey turn.eligibleIds 1 with
  | (table, none) => (table, none)
  | (table, some picked) => (notePoolRotationSuccess table turn.poolKey picked 1, some picked)

/-- Turn after turn: the table in the end, and the picks. -/
def rotations : SelectionTable → List Turn → SelectionTable × List (Option AccountId)
  | table, [] => (table, [])
  | table, turn :: turns =>
    let r := rotate table turn
    let rest := rotations r.1 turns
    (rest.1, r.2 :: rest.2)

/-! ## The loop -/

def weightOf (weights : OMap AccountId ℤ) (id : AccountId) : ℤ := (weights.get? id).getD 0

/-- What the loop holds after walking the entries `l` from the stored weights `old`. -/
structure Scanned (old : OMap AccountId ℤ) (l : List (AccountId × ℕ)) (acc : SmoothScan) :
    Prop where
  total : acc.total = l.length
  weight : ∀ id, weightOf acc.currentWeights id =
    weightOf old id + if id ∈ l.map Prod.fst then 1 else 0
  has : ∀ id, acc.currentWeights.has id = true ↔ old.has id = true ∨ id ∈ l.map Prod.fst
  best : match acc.best with
    | none => l = []
    | some (i, score) => (∃ id, (id, i) ∈ l ∧ score = weightOf old id + 1) ∧
        ∀ e ∈ l, weightOf old e.1 + 1 ≤ score

theorem Scanned.start (old : OMap AccountId ℤ) : Scanned old [] ⟨none, 0, old⟩ where
  total := rfl
  weight id := by simp
  has id := by simp
  best := rfl

variable (weights : OMap AccountId ℤ)

theorem weightOf_set (id id' : AccountId) (w : ℤ) :
    weightOf (weights.set id w) id' = if id' = id then w else weightOf weights id' := by
  rw [weightOf, OMap.get?_set]
  split
  · rfl
  · rfl

variable {l : List (AccountId × ℕ)}

variable {old : OMap AccountId ℤ} {acc : SmoothScan}

theorem Scanned.turn (h : Scanned old l acc) (e : AccountId × ℕ) (hnew : e.1 ∉ l.map Prod.fst) :
    Scanned old (l ++ [e]) (smoothTurn acc e) := by
  have hscore : weightOf acc.currentWeights e.1 + 1 = weightOf old e.1 + 1 := by
    rw [h.weight, if_neg hnew, add_zero]
  refine ⟨?_, fun id ↦ ?_, fun id ↦ ?_, ?_⟩
  · rw [length_append, length_singleton, ← h.total]
    rfl
  · rw [smoothTurn]
    dsimp only
    rw [← weightOf, hscore, weightOf_set]
    simp only [map_append, mem_append, map_singleton, mem_singleton]
    by_cases hid : id = e.1
    · rw [if_pos hid, if_pos (.inr hid), hid]
    · simp only [hid, if_false, h.weight, or_false]
  · rw [smoothTurn]
    dsimp only
    rw [OMap.has_set, Bool.or_eq_true, h.has, map_append, mem_append, map_singleton,
      mem_singleton, decide_eq_true_eq]
    tauto
  · have hlast : (e.1, e.2) ∈ l ++ [e] := mem_append_right _ (mem_singleton.mpr rfl)
    have hbest := h.best
    rw [smoothTurn]
    dsimp only
    rw [← weightOf, hscore]
    cases hacc : acc.best with
    | none =>
      rw [hacc] at hbest
      subst hbest
      refine ⟨⟨e.1, hlast, rfl⟩, fun e' he' ↦ ?_⟩
      rw [nil_append, mem_singleton] at he'
      rw [he']
    | some b =>
      obtain ⟨i, score⟩ := b
      rw [hacc] at hbest
      obtain ⟨⟨id, hid, rfl⟩, hmost⟩ := hbest
      dsimp only
      by_cases hlt : weightOf old id + 1 < weightOf old e.1 + 1
      · rw [if_pos hlt]
        refine ⟨⟨e.1, hlast, rfl⟩, fun e' he' ↦ ?_⟩
        rcases mem_append.mp he' with he' | he'
        · exact (hmost e' he').trans hlt.le
        · rw [mem_singleton.mp he']
      · rw [if_neg hlt]
        refine ⟨⟨id, mem_append_left _ hid, rfl⟩, fun e' he' ↦ ?_⟩
        rcases mem_append.mp he' with he' | he'
        · exact hmost e' he'
        · rw [mem_singleton.mp he']
          exact not_lt.mp hlt

theorem scanned_foldl (old : OMap AccountId ℤ) (hnd : (l.map Prod.fst).Nodup) :
    Scanned old l (l.foldl smoothTurn ⟨none, 0, old⟩) := by
  induction l using reverseRecOn with
  | nil => exact .start old
  | append_singleton l e ih =>
    rw [map_append, map_singleton, nodup_append] at hnd
    obtain ⟨hl, -, hdisjoint⟩ := hnd
    rw [foldl_append]
    refine (ih hl).turn e fun hmem ↦ ?_
    exact hdisjoint _ hmem _ (mem_singleton.mpr rfl) rfl

/-- **The pick is a fair turn among the eligible accounts.** -/
theorem smoothWeightedIndex_spec {ids : List AccountId} (hnd : ids.Nodup) (hne : ids ≠ [])
    (state : SelectionState) : ∃ index picked weights, smoothWeightedIndex ids state =
        (some index, { state with currentWeights := weights }) ∧ ids[index]? = some picked ∧
      FairTurn ids.toFinset (weightOf state.currentWeights) (weightOf weights) picked ∧
      ∀ id, weights.has id = true ↔ state.currentWeights.has id = true ∨ id ∈ ids := by
  have hfst : (ids.zipIdx).map Prod.fst = ids := zipIdx_map_fst 0 ids
  have h := scanned_foldl state.currentWeights (l := ids.zipIdx) (by rwa [hfst])
  have hbest := h.best
  rw [smoothWeightedIndex]
  cases hacc : (ids.zipIdx.foldl smoothTurn ⟨none, 0, state.currentWeights⟩).best with
  | none =>
    rw [hacc] at hbest
    rw [← hfst, hbest] at hne
    exact absurd rfl hne
  | some b =>
    obtain ⟨index, score⟩ := b
    rw [hacc] at hbest
    obtain ⟨⟨picked, hpicked, hscore⟩, hmost⟩ := hbest
    have hindex : ids[index]? = some picked := mem_zipIdx_iff_getElem?.mp hpicked
    have hmem : picked ∈ ids := mem_of_getElem? hindex
    simp only [bind_some, hindex, map_some]
    refine ⟨index, picked, _, rfl, hindex, ⟨mem_toFinset.mpr hmem, fun id hid ↦ ?_,
      fun id ↦ ?_⟩, fun id ↦ ?_⟩
    · have hid' : id ∈ ids.zipIdx.map Prod.fst := by rw [hfst]; exact mem_toFinset.mp hid
      obtain ⟨e, he, rfl⟩ := mem_map.mp hid'
      have := hmost e he
      omega
    · rw [weightOf_set, ← weightOf, h.total, h.weight, h.weight, hfst, length_zipIdx,
        toFinset_card_of_nodup hnd]
      simp only [List.mem_toFinset]
      by_cases hid : id = picked
      · rw [if_pos hid, if_pos hid, hid]
      · rw [if_neg hid, if_neg hid, sub_zero]
    · rw [OMap.has_set, Bool.or_eq_true, h.has, hfst, decide_eq_true_eq]
      constructor
      · rintro (rfl | h)
        · exact .inr hmem
        · exact h
      · exact .inr

/-! ## The sum of the weights -/

/-- What the stored weights add up to. -/
def sumOf (weights : OMap AccountId ℤ) : ℤ := (weights.entries.map Prod.snd).sum

theorem sumOf_set (id : AccountId) (w : ℤ) :
    sumOf (weights.set id w) = sumOf weights - weightOf weights id + w := by
  cases hget : weights.get? id with
  | none =>
    rw [sumOf, OMap.entries_set_of_notMem (OMap.notMem_keys.mpr hget), weightOf, hget, sumOf]
    simp
  | some old =>
    obtain ⟨l₁, l₂, hl, h₁, h₂⟩ := OMap.split_of_get? hget
    rw [sumOf, OMap.entries_set_split hl h₁ h₂, weightOf, hget, sumOf, hl]
    simp only [map_append, map_cons, sum_append, sum_cons, getD_some]
    ring

/-- What the loop holds after walking the entries `l`, whether or not they repeat an account. -/
structure Walked (old : OMap AccountId ℤ) (l : List (AccountId × ℕ)) (acc : SmoothScan) : Prop where
  total : acc.total = l.length
  sum : sumOf acc.currentWeights = sumOf old + l.length
  best : match acc.best with
    | none => l = []
    | some (i, _) => ∃ id, (id, i) ∈ l

theorem Walked.turn (h : Walked old l acc) (e : AccountId × ℕ) :
    Walked old (l ++ [e]) (smoothTurn acc e) := by
  refine ⟨?_, ?_, ?_⟩
  · rw [length_append, length_singleton, ← h.total]
    rfl
  · rw [smoothTurn]
    dsimp only
    rw [← weightOf, sumOf_set, h.sum, length_append, length_singleton]
    push_cast
    ring
  · have hlast : (e.1, e.2) ∈ l ++ [e] := mem_append_right _ (mem_singleton.mpr rfl)
    have hbest := h.best
    rw [smoothTurn]
    dsimp only
    cases hacc : acc.best with
    | none => exact ⟨e.1, hlast⟩
    | some b =>
      rw [hacc] at hbest
      obtain ⟨id, hid⟩ := hbest
      by_cases hlt : b.2 < (acc.currentWeights.get? e.1).getD 0 + 1
      · simp only [hlt, if_true]
        exact ⟨e.1, hlast⟩
      · simp only [hlt, if_false]
        exact ⟨id, mem_append_left _ hid⟩

theorem walked_foldl (old : OMap AccountId ℤ) (l : List (AccountId × ℕ)) :
    Walked old l (l.foldl smoothTurn ⟨none, 0, old⟩) := by
  induction l using reverseRecOn with
  | nil => exact ⟨rfl, by simp, rfl⟩
  | append_singleton l e ih =>
    rw [foldl_append]
    exact ih.turn e

/-- **What the accounts gain, the pick pays**, whatever the list. -/
theorem smoothWeightedIndex_sum (ids : List AccountId) (state : SelectionState) :
    ∃ weights, (smoothWeightedIndex ids state).2 = { state with currentWeights := weights } ∧
      sumOf weights = sumOf state.currentWeights := by
  have h := walked_foldl state.currentWeights ids.zipIdx
  have hbest := h.best
  rw [smoothWeightedIndex]
  cases hacc : (ids.zipIdx.foldl smoothTurn ⟨none, 0, state.currentWeights⟩).best with
  | none =>
    rw [hacc] at hbest
    refine ⟨_, rfl, ?_⟩
    rw [h.sum, hbest]
    simp
  | some b =>
    rw [hacc] at hbest
    obtain ⟨id, hid⟩ := hbest
    simp only [bind_some, mem_zipIdx_iff_getElem?.mp hid]
    refine ⟨_, rfl, ?_⟩
    rw [← weightOf, sumOf_set, h.sum, h.total]
    ring

/-! ## One pick and its success -/

theorem normalizeAccountPoolStickyLimit_one : normalizeAccountPoolStickyLimit 1 = 1 := by
  rw [normalizeAccountPoolStickyLimit, parseAccountPoolStickyLimit, minStickyLimit, maxStickyLimit]
  norm_num

/-- Nothing is held, and the weights are fair among the accounts of `s`. -/
structure Balanced (s : Finset AccountId) (state : SelectionState) : Prop where
  free : state.activeKey = none
  keys : ∀ id, state.currentWeights.has id = true → id ∈ s
  fair : Fair s (weightOf state.currentWeights)

variable {s : Finset AccountId} {state : SelectionState} {ids : List AccountId}

theorem Balanced.fresh (s : Finset AccountId) : Balanced s .fresh where
  free := rfl
  keys id h := nomatch h
  fair := .start s

theorem stored_weights : weights.entries.map Prod.snd = weights.keys.map (weightOf weights) := by
  rw [OMap.keys, List.map_map]
  refine map_congr_left fun e he ↦ ?_
  rw [Function.comp_apply, weightOf, OMap.mem_entries.mp he, getD_some]

theorem Balanced.bounded (h : Balanced s state) {w : ℤ}
    (hw : w ∈ state.currentWeights.entries.map Prod.snd) :
    -(s.card - 1 : ℤ) ≤ w ∧ w ≤ s.card - 1 := by
  rw [stored_weights] at hw
  obtain ⟨id, hid, rfl⟩ := mem_map.mp hw
  have hmem := h.keys id (OMap.has_iff_mem_keys.mpr hid)
  exact ⟨h.fair.ge hmem, h.fair.le hmem⟩

theorem pickRoundRobinFromState_nil (limit : ℚ) (state : SelectionState) (commit : Bool) :
    pickRoundRobinFromState [] limit state commit = (state, none) := rfl

theorem Balanced.pick (h : Balanced s state) (hnd : ids.Nodup) (hne : ids ≠ [])
    (hids : ∀ id ∈ ids, id ∈ s) :
    ∃ next picked, pickRoundRobinFromState ids 1 state true = (next, some picked) ∧
      picked ∈ ids ∧ Balanced s next ∧
      FairTurn ids.toFinset (weightOf state.currentWeights) (weightOf next.currentWeights)
        picked := by
  obtain ⟨index, picked, weights, heq, hindex, hturn, hhas⟩ :=
    smoothWeightedIndex_spec hnd hne state
  have hlength : ids.length ≠ 0 := fun h ↦ hne (length_eq_zero_iff.mp h)
  refine ⟨{ state with currentWeights := weights }, picked, ?_, mem_of_getElem? hindex,
    ⟨h.free, fun id hid ↦ ?_, ?_⟩, hturn⟩
  · rw [pickRoundRobinFromState, if_neg hlength]
    simp only [h.free, filter_none, any_none, Bool.false_eq_true, if_false, heq,
      normalizeAccountPoolStickyLimit_one, lt_irrefl, and_false, hindex]
  · rcases (hhas id).mp hid with hid | hid
    · exact h.keys id hid
    · exact hids id hid
  · exact hturn.fair (fun id hid ↦ hids id (mem_toFinset.mp hid)) h.fair

theorem SelectionState.succeeded_one (hfree : state.activeKey = none) (id : AccountId) :
    state.succeeded id 1 = { state with successes := 0 } := by
  obtain ⟨activeKey, successes, currentWeights⟩ := state
  obtain rfl : activeKey = none := hfree
  simp [SelectionState.succeeded]

/-! ## Whole runs -/

/-- What the rotation of a pool starts a turn with. -/
def ownState (table : SelectionTable) (poolKey : String) : SelectionState :=
  (table.get? poolKey).getD .fresh

theorem ownState_set (table : SelectionTable) (poolKey poolKey' : String) (state : SelectionState) :
    ownState (table.set poolKey state) poolKey' =
      if poolKey' = poolKey then state else ownState table poolKey' := by
  rw [ownState, OMap.get?_set]
  split
  · rfl
  · rfl

variable {table : SelectionTable} {poolKey : String}

variable {turn : Turn}

theorem rotate_other (h : turn.poolKey ≠ poolKey) :
    ownState (rotate table turn).1 poolKey = ownState table poolKey := by
  have hpick : ownState (pickRoundRobinAccount table turn.poolKey turn.eligibleIds 1).1 poolKey =
      ownState table poolKey := by
    rw [pickRoundRobinAccount, ownState_set, if_neg h.symm]
  rw [rotate]
  split
  · rename_i heq
    rw [heq] at hpick
    exact hpick
  · rename_i table' picked heq
    rw [heq] at hpick
    dsimp only
    rw [notePoolRotationSuccess]
    split
    · exact hpick
    · rw [ownState_set, if_neg h.symm]
      exact hpick

theorem rotate_nil (h : turn.eligibleIds = []) : (rotate table turn).2 = none ∧
      ownState (rotate table turn).1 turn.poolKey = ownState table turn.poolKey := by
  have hpick : pickRoundRobinAccount table turn.poolKey turn.eligibleIds 1 =
      (table.set turn.poolKey (ownState table turn.poolKey), none) := by
    rw [pickRoundRobinAccount, h, pickRoundRobinFromState_nil]
    rfl
  rw [rotate, hpick]
  exact ⟨rfl, by rw [ownState_set, if_pos rfl]⟩

/-- **A pick and its success are one fair turn.** -/
theorem rotate_own (h : Balanced s (ownState table turn.poolKey)) (hnd : turn.eligibleIds.Nodup)
    (hne : turn.eligibleIds ≠ []) (hids : ∀ id ∈ turn.eligibleIds, id ∈ s) :
    ∃ picked, (rotate table turn).2 = some picked ∧ picked ∈ turn.eligibleIds ∧
      Balanced s (ownState (rotate table turn).1 turn.poolKey) ∧ FairTurn turn.eligibleIds.toFinset
        (weightOf (ownState table turn.poolKey).currentWeights)
        (weightOf (ownState (rotate table turn).1 turn.poolKey).currentWeights) picked := by
  obtain ⟨next, picked, heq, hmem, hnext, hturn⟩ := h.pick hnd hne hids
  have hpick : pickRoundRobinAccount table turn.poolKey turn.eligibleIds 1 =
      (table.set turn.poolKey next, some picked) := by
    rw [pickRoundRobinAccount, ← ownState, heq]
  have hown : ownState (rotate table turn).1 turn.poolKey = { next with successes := 0 } := by
    rw [rotate, hpick]
    simp only [notePoolRotationSuccess, OMap.get?_set_self, normalizeAccountPoolStickyLimit_one,
      SelectionState.succeeded_one hnext.free, ownState_set, if_true]
  refine ⟨picked, ?_, hmem, ?_, ?_⟩
  · rw [rotate, hpick]
  · rw [hown]
    exact ⟨hnext.free, hnext.keys, hnext.fair⟩
  · rw [hown]
    exact hturn

/-- The accounts that a pool was asked to pick from. -/
def accountsOf (poolKey : String) (turns : List Turn) : Finset AccountId :=
  ((turns.filter fun turn ↦ turn.poolKey = poolKey).flatMap Turn.eligibleIds).toFinset

variable {turns : List Turn}

variable {id : AccountId}

theorem mem_accountsOf : id ∈ accountsOf poolKey turns ↔
    ∃ turn ∈ turns, turn.poolKey = poolKey ∧ id ∈ turn.eligibleIds := by
  simp only [accountsOf, List.mem_toFinset, mem_flatMap, mem_filter, decide_eq_true_eq, and_assoc]

/-- **A turn of any pool keeps the pool balanced.** -/
theorem rotate_balanced (h : Balanced s (ownState table poolKey)) (hnd : turn.eligibleIds.Nodup)
    (hids : turn.poolKey = poolKey → ∀ id ∈ turn.eligibleIds, id ∈ s) :
    Balanced s (ownState (rotate table turn).1 poolKey) := by
  by_cases hown : turn.poolKey = poolKey
  · subst hown
    by_cases hne : turn.eligibleIds = []
    · rw [(rotate_nil hne).2]
      exact h
    · obtain ⟨_, _, _, hbalanced, _⟩ := rotate_own h hnd hne (hids rfl)
      exact hbalanced
  · rw [rotate_other hown]
    exact h

/-- **The pool stays balanced over a run.** -/
theorem rotations_balanced (h : Balanced s (ownState table poolKey))
    (hnd : ∀ turn ∈ turns, turn.eligibleIds.Nodup)
    (hids : ∀ turn ∈ turns, turn.poolKey = poolKey → ∀ id ∈ turn.eligibleIds, id ∈ s) :
    Balanced s (ownState (rotations table turns).1 poolKey) := by
  induction turns generalizing table with
  | nil => exact h
  | cons turn turns ih =>
    rw [forall_mem_cons] at hnd hids
    exact ih (rotate_balanced h hnd.1 hids.1) hnd.2 hids.2

/-- The picks of the pool in a run. -/
def picksOf (poolKey : String) (table : SelectionTable) (turns : List Turn) : List AccountId :=
  ((turns.zip (rotations table turns).2).filter fun e ↦ e.1.poolKey = poolKey).filterMap Prod.snd

theorem picksOf_cons (table : SelectionTable) (turn : Turn) (turns : List Turn) :
    picksOf poolKey table (turn :: turns) =
      (if turn.poolKey = poolKey then (rotate table turn).2.toList else []) ++
        picksOf poolKey (rotate table turn).1 turns := by
  rw [picksOf, rotations]
  simp only [zip_cons_cons, filter_cons, decide_eq_true_eq]
  split
  · rw [filterMap_cons]
    cases (rotate table turn).2 <;> rfl
  · rfl

theorem gains_while_passed_over (h : Balanced s (ownState table poolKey))
    (hnd : ∀ turn ∈ turns, turn.eligibleIds.Nodup)
    (hids : ∀ turn ∈ turns, turn.poolKey = poolKey → ∀ id ∈ turn.eligibleIds, id ∈ s)
    (hid : ∀ turn ∈ turns, turn.poolKey = poolKey → id ∈ turn.eligibleIds)
    (hnot : id ∉ picksOf poolKey table turns) :
    weightOf (ownState (rotations table turns).1 poolKey).currentWeights id =
      weightOf (ownState table poolKey).currentWeights id +
        (turns.filter fun turn ↦ turn.poolKey = poolKey).length := by
  induction turns generalizing table with
  | nil => simp [rotations]
  | cons turn turns ih =>
    rw [forall_mem_cons] at hnd hids hid
    rw [picksOf_cons, mem_append, not_or] at hnot
    have hrest := ih (rotate_balanced h hnd.1 hids.1) hnd.2 hids.2 hid.2 hnot.2
    rw [rotations]
    dsimp only
    rw [hrest, filter_cons]
    by_cases hown : turn.poolKey = poolKey
    · subst hown
      have hmem := hid.1 rfl
      obtain ⟨picked, hpicked, -, -, hturn⟩ := rotate_own h hnd.1 (ne_nil_of_mem hmem) (hids.1 rfl)
      have hne : id ≠ picked := by
        rintro rfl
        rw [if_pos rfl, hpicked] at hnot
        exact hnot.1 (mem_singleton.mpr rfl)
      rw [hturn.turn, if_pos (mem_toFinset.mpr hmem), if_neg hne, decide_eq_true rfl,
        if_pos rfl, length_cons]
      push_cast
      ring
    · rw [rotate_other hown, if_neg (by simpa using hown)]

/-! ## Lists that repeat an account -/

/-- Nothing is held, and the weights add up to zero. -/
structure Settled (state : SelectionState) : Prop where
  free : state.activeKey = none
  sum : sumOf state.currentWeights = 0

theorem Settled.pick (h : Settled state) (ids : List AccountId) :
    Settled (pickRoundRobinFromState ids 1 state true).1 := by
  obtain ⟨weights, hstate, hsum⟩ := smoothWeightedIndex_sum ids state
  rw [pickRoundRobinFromState]
  split
  · exact h
  simp only [h.free, filter_none, any_none, Bool.false_eq_true, if_false,
    normalizeAccountPoolStickyLimit_one, lt_irrefl, and_false]
  split
  all_goals
    rename_i heq
    rw [heq] at hstate
    obtain rfl := hstate
    exact ⟨h.free, hsum.trans h.sum⟩

theorem Settled.succeeded (h : Settled state) (id : AccountId) :
    Settled (state.succeeded id 1) := by
  rw [SelectionState.succeeded_one h.free]
  exact ⟨h.free, h.sum⟩

theorem rotate_settled (h : Settled (ownState table poolKey)) :
    Settled (ownState (rotate table turn).1 poolKey) := by
  by_cases hown : turn.poolKey = poolKey
  · subst hown
    have hpick : Settled (ownState (pickRoundRobinAccount table turn.poolKey turn.eligibleIds 1).1
        turn.poolKey) := by
      rw [pickRoundRobinAccount, ownState_set, if_pos rfl]
      exact h.pick turn.eligibleIds
    rw [rotate]
    split
    · rename_i heq
      rw [heq] at hpick
      exact hpick
    · rename_i table' picked heq
      rw [heq] at hpick
      dsimp only
      rw [notePoolRotationSuccess]
      split
      · exact hpick
      · rename_i state hstate
        rw [ownState, hstate, getD_some] at hpick
        rw [ownState_set, if_pos rfl, normalizeAccountPoolStickyLimit_one]
        exact hpick.succeeded picked
  · rw [rotate_other hown]
    exact h

theorem rotations_settled (h : Settled (ownState table poolKey)) :
    Settled (ownState (rotations table turns).1 poolKey) := by
  induction turns generalizing table with
  | nil => exact h
  | cons turn turns ih => exact ih (rotate_settled h)

/-! ## A look at the next pick -/

theorem pickRoundRobinFromState_commit (ids : List AccountId) (limit : ℚ) (state : SelectionState) :
    (pickRoundRobinFromState ids limit state false).2 =
      (pickRoundRobinFromState ids limit state true).2 := by
  rw [pickRoundRobinFromState, pickRoundRobinFromState]
  split
  · rfl
  dsimp only
  split
  · rfl
  · split
    · rfl
    · simp only [Bool.false_eq_true, false_and, if_false, true_and]
      split
      · rfl
      · rfl

/-! ## The result -/

/-- The weights that are stored for a pool. -/
def storedWeights (table : SelectionTable) (poolKey : String) : List ℤ :=
  (ownState table poolKey).currentWeights.entries.map Prod.snd

/-- **Rotation starves nobody.**  However the lists change, and whatever other pools pick meanwhile:
the stored weights add up to zero, and a look at the next pick is that pick and changes nothing.
Where no list repeats an account, the weights are bounded by the number of accounts there are in
all, and who is eligible often enough in a row is picked. -/
theorem rotation_starves_nobody (poolKey : String) (N : ℕ) {table : SelectionTable}
    (hempty : table.get? poolKey = none) {turns : List Turn}
    (hN : (accountsOf poolKey turns).card ≤ N) :
    (storedWeights (rotations table turns).1 poolKey).sum = 0 ∧
    (∀ ids limit, (peekRoundRobinAccount (rotations table turns).1 poolKey ids limit).2 =
        (pickRoundRobinAccount (rotations table turns).1 poolKey ids limit).2 ∧
      (peekRoundRobinAccount (rotations table turns).1 poolKey ids limit).1 =
        (rotations table turns).1) ∧ ((∀ turn ∈ turns, turn.eligibleIds.Nodup) →
      (∀ w ∈ storedWeights (rotations table turns).1 poolKey,
        -((N - 1) * (2 * N - 1) / 3 : ℚ) ≤ w ∧ (w : ℚ) ≤ (N * N - 1) / 3) ∧
      ∀ before mid after id, turns = before ++ mid ++ after →
        (∀ turn ∈ mid, turn.poolKey = poolKey → id ∈ turn.eligibleIds) →
        N * (N - 1) + 1 ≤ (mid.filter fun turn ↦ turn.poolKey = poolKey).length →
        id ∈ picksOf poolKey (rotations table before).1 mid) := by
  have hown : ownState table poolKey = .fresh := by rw [ownState, hempty]; rfl
  refine ⟨?_, fun ids limit ↦ ⟨pickRoundRobinFromState_commit ids limit _, rfl⟩, fun hnd ↦ ⟨?_, ?_⟩⟩
  · have h : Settled (ownState (rotations table turns).1 poolKey) :=
      rotations_settled (by rw [hown]; exact ⟨rfl, rfl⟩)
    exact h.sum
  · intro w hw
    have hbalanced : Balanced (accountsOf poolKey turns)
        (ownState (rotations table turns).1 poolKey) :=
      rotations_balanced (by rw [hown]; exact .fresh _) hnd fun turn hturn hkey id hid ↦
        mem_accountsOf.mpr ⟨turn, hturn, hkey, hid⟩
    obtain ⟨hlow, hhigh⟩ := hbalanced.bounded hw
    have hcard : 1 ≤ (accountsOf poolKey turns).card := by omega
    have hN' : (1 : ℚ) ≤ N := by exact_mod_cast hcard.trans hN
    have hle : ((accountsOf poolKey turns).card : ℚ) ≤ N := by exact_mod_cast hN
    have hlow' : -((accountsOf poolKey turns).card - 1 : ℚ) ≤ w := by exact_mod_cast hlow
    have hhigh' : (w : ℚ) ≤ (accountsOf poolKey turns).card - 1 := by exact_mod_cast hhigh
    -- `N - 1` is within both bounds, whether `N` is one or more
    rcases Nat.lt_or_ge N 2 with hsmall | hlarge
    · obtain rfl : N = 1 := by omega
      constructor <;> norm_num <;> linarith
    · have hN2 : (2 : ℚ) ≤ N := by exact_mod_cast hlarge
      constructor <;> nlinarith
  · rintro before mid after id rfl hid hlong
    by_contra hnot
    set s := accountsOf poolKey (before ++ mid ++ after)
    have hids : ∀ turn ∈ before ++ mid ++ after, turn.poolKey = poolKey →
        ∀ id ∈ turn.eligibleIds, id ∈ s := fun turn hturn hkey id hid ↦
      mem_accountsOf.mpr ⟨turn, hturn, hkey, hid⟩
    have hbefore : Balanced s (ownState (rotations table before).1 poolKey) :=
      rotations_balanced (by rw [hown]; exact .fresh _)
        (fun turn h ↦ hnd turn (by simp [h])) fun turn h ↦ hids turn (by simp [h])
    have hmid : Balanced s (ownState (rotations (rotations table before).1 mid).1 poolKey) :=
      rotations_balanced hbefore (fun turn h ↦ hnd turn (by simp [h]))
        fun turn h ↦ hids turn (by simp [h])
    have hgain := gains_while_passed_over hbefore (fun turn h ↦ hnd turn (by simp [h]))
      (fun turn h ↦ hids turn (by simp [h])) hid hnot
    obtain ⟨turn, hturn⟩ : ∃ turn, turn ∈ mid.filter fun turn ↦ turn.poolKey = poolKey :=
      exists_mem_of_length_pos (by omega)
    rw [mem_filter, decide_eq_true_eq] at hturn
    have hmem : id ∈ s := hids turn (by simp [hturn.1]) hturn.2 id (hid turn hturn.1 hturn.2)
    have hlow := hbefore.fair.ge hmem
    have hhigh := hmid.fair.le hmem
    have hcard : 1 ≤ s.card := Finset.card_pos.mpr ⟨id, hmem⟩
    have hroom : 2 * (N - 1) ≤ N * (N - 1) := by
      rcases Nat.lt_or_ge N 2 with hsmall | hlarge
      · obtain rfl : N = 1 := by omega
        rfl
      · exact Nat.mul_le_mul_right _ hlarge
    omega

/-- Three picks between `a` and `b` that move the list each time. -/
theorem rotation_starves_nobody_between : "b" ∈ picksOf "codex" (rotations .empty []).1
      [⟨"codex", ["a", "b"]⟩, ⟨"codex", ["b"]⟩, ⟨"codex", ["b", "a"]⟩] := by
  have h := @rotation_starves_nobody "codex" 2 .empty rfl
    [⟨"codex", ["a", "b"]⟩, ⟨"codex", ["b"]⟩, ⟨"codex", ["b", "a"]⟩] (by decide)
  exact (h.2.2 (by decide)).2 [] _ [] "b" rfl (by decide) (by decide)

/-- **Lists that repeat an account break the bounds.**  Two accounts, one of which is named five
times: after three picks its weight is three away from zero, and the other was passed over. -/
theorem weights_unbounded_by_repeats :
    let turns := List.replicate 3 (⟨"codex", ["a", "a", "a", "a", "a", "b"]⟩ : Turn)
    (accountsOf "codex" turns).card ≤ 2 ∧
    (¬ ∀ w ∈ storedWeights (rotations .empty turns).1 "codex", (w : ℚ) ≤ (2 * 2 - 1) / 3) ∧
    (∀ turn ∈ turns, turn.poolKey = "codex" → "b" ∈ turn.eligibleIds) ∧
    2 * (2 - 1) + 1 ≤ (turns.filter fun turn ↦ turn.poolKey = "codex").length ∧
    "b" ∉ picksOf "codex" .empty turns := by
  decide +kernel

end Rotation
