import OpenCodex.Combo.Health
import OpenCodex.Data.FirstLeast
import Mathlib.Algebra.Order.Field.Basic
import Mathlib.Data.Int.ConditionallyCompleteOrder
import Mathlib.Tactic.Linarith

/-!
# Picking a target

`pickComboTarget` chooses one target of a combo.  Every strategy has its own loop: `failover` and
`jev` take the first target of the best tier, `round-robin` stays on one target and then moves by
smooth weights, `random` walks the weights with a draw in `[0, 1)`, `least-used` counts successes,
`reset-window` looks for the nearest quota reset.

All of them pick a target whenever one may be picked (`chosenIndex_eq_none`).  That the *tier* of the
pick is the best on offer is another matter: only the price-order loop compares ranks, and the other
four ask only whether a target may be picked at all.  `tiers_honoured_iff` says for each strategy
when the tiers are honoured all the same, whatever the selection state and the draw.
-/

set_option autoImplicit false

open List Option

namespace Combo

/-! ## The selection state -/

structure SelectionState where
  /-- The target round-robin stays on. -/
  activeKey : Option String
  successes : ℕ
  currentWeights : OMap String ℤ
  successfulUses : OMap String ℕ
  deriving DecidableEq

def SelectionState.fresh : SelectionState := ⟨none, 0, .empty, .empty⟩

/-- The selection state of every combo that has one. -/
abbrev SelectionTable := OMap String SelectionState

/-! ## The loops -/

section Loops

variable (targets : List NormalizedComboTarget) (eligible : NormalizedComboTarget → Bool)

/-- Where the smooth-weight loop stands: the best entry with its score, the weight walked, and the
weights moved so far. -/
structure SmoothScan where
  best : Option ((NormalizedComboTarget × ℕ) × ℤ)
  total : ℤ
  currentWeights : OMap String ℤ

def smoothTurn (acc : SmoothScan) (entry : NormalizedComboTarget × ℕ) : SmoothScan :=
  if !eligible entry.1 then acc
  else
    let key := targetKey entry.1
    let score := (acc.currentWeights.get? key).getD 0 + entry.1.weight
    { best := match acc.best with
        | none => some (entry, score)
        | some b => if b.2 < score then some (entry, score) else some b
      total := acc.total + entry.1.weight
      currentWeights := acc.currentWeights.set key score }

/-- Every eligible target gains its weight; the first with the highest score is taken and pays the
total back. -/
def smoothWeightedIndex (state : SelectionState) : Option ℕ × SelectionState :=
  let acc := targets.zipIdx.foldl (smoothTurn eligible) ⟨none, 0, state.currentWeights⟩
  match acc.best with
  | none => (none, { state with currentWeights := acc.currentWeights })
  | some (entry, _) =>
    let key := targetKey entry.1
    (some entry.2,
      { state with
        currentWeights :=
          acc.currentWeights.set key ((acc.currentWeights.get? key).getD 0 - acc.total) })

/-- Stay on the active target while it is eligible; then move by smooth weights. -/
def roundRobinIndex (state : SelectionState) : Option ℕ × SelectionState :=
  match state.activeKey.bind fun key ↦
      targets.findIdx? fun target ↦ targetKey target == key && eligible target with
  | some i => (some i, state)
  | none =>
    let state :=
      if state.activeKey.isSome then { state with activeKey := none, successes := 0 } else state
    match smoothWeightedIndex targets eligible state with
    | (none, state) => (none, state)
    | (some i, state) =>
      (some i, { state with activeKey := targets[i]?.map targetKey, successes := 0 })

/-- Take the weights off the draw one by one, until nothing of it is left. -/
def randomWalk : ℚ → List (NormalizedComboTarget × ℕ) → Option ℕ
  | _, [] => none
  | random, entry :: entries =>
    let random := random - entry.1.weight
    if random ≤ 0 then some entry.2 else randomWalk random entries

/-- Weighted random selection; the last eligible target takes what rounding leaves over. -/
def randomIndex (draw : ℚ) : Option ℕ :=
  let entries := targets.zipIdx.filter fun entry ↦ eligible entry.1
  let totalWeight := (entries.map fun entry ↦ (entry.1.weight : ℚ)).sum
  (randomWalk (draw * totalWeight) entries).or (entries.getLast?.map (·.2))

/-- The first eligible target with the fewest successful uses. -/
def leastUsedIndex (state : SelectionState) : Option ℕ :=
  firstLeast (fun target ↦
    if eligible target then some ((state.successfulUses.get? (targetKey target)).getD 0) else none)
    targets

/-- How long until the provider's quota window turns over, for this target's model. -/
def targetResetRemainingMs (config : OcxConfig) (health : Health) (now : ℤ)
    (target : NormalizedComboTarget) : WithTop ℤ :=
  quotaResetRemainingMs
    ((config.providers.get? target.provider).bind fun provider ↦
      health.getCachedProviderRoutingQuota target.provider provider now)
    now fun window ↦ customWindowAppliesToModel window (some target.model)

/-- The first eligible target whose quota reset is nearest. -/
def resetWindowIndex (config : OcxConfig) (health : Health) (now : ℤ) : Option ℕ :=
  firstLeast (fun target ↦
    if eligible target then some (targetResetRemainingMs config health now target) else none)
    targets

/-- Price order inside the best tier; a healthy target ends the walk. -/
def priceOrderScan (rank : NormalizedComboTarget → Option ℕ) :
    ℕ → Option (ℕ × ℕ) → List NormalizedComboTarget → Option (ℕ × ℕ)
  | _, best, [] => best
  | i, best, target :: rest =>
    match rank target with
    | none => priceOrderScan rank (i + 1) best rest
    | some r =>
      if best.any fun b ↦ decide (b.2 ≤ r) then priceOrderScan rank (i + 1) best rest
      else if r = 0 then some (i, r)
      else priceOrderScan rank (i + 1) (some (i, r)) rest

end Loops

/-! ## The picker -/

structure ComboPick where
  comboId : String
  target : NormalizedComboTarget
  targetIndex : ℕ
  attempted : List String
  writerGeneration : ℕ
  /-- The tier this pick came from. -/
  rank : Option ℕ

structure UnknownComboError where
  comboId : String

def UnknownComboError.message (e : UnknownComboError) : String := "Unknown combo: " ++ e.comboId

section Picker

variable (config : OcxConfig) (health : Health) (comboId : String) (options : PickOptions)

/-- The index the combo's strategy comes to, and the selection table it leaves. -/
def chosenIndex (combo : NormalizedComboConfig) (table : SelectionTable) (draw : ℚ) :
    Option ℕ × SelectionTable :=
  let eligible := selectable config health comboId options
  let state := (table.get? comboId).getD .fresh
  match combo.strategy with
  | .roundRobin =>
    let r := roundRobinIndex combo.targets eligible state
    (r.1, if options.preview then table else table.set comboId r.2)
  | .random => (randomIndex combo.targets eligible draw, table)
  | .leastUsed => (leastUsedIndex combo.targets eligible state, table.set comboId state)
  | .resetWindow => (resetWindowIndex combo.targets eligible config health options.now, table)
  | .failover | .jev =>
    ((priceOrderScan (rankOf config health comboId options) 0 none combo.targets).map Prod.fst,
      table)

/-- Pick a target of the combo; `none` when none may be picked. -/
def pickComboTarget (table : SelectionTable) (writerGeneration : ℕ) (draw : ℚ) :
    Except UnknownComboError (Option ComboPick × SelectionTable) :=
  match getCombo config comboId with
  | none => .error ⟨comboId⟩
  | some combo =>
    let r := chosenIndex config health comboId options combo table draw
    .ok (r.1.bind fun i ↦ combo.targets[i]?.map fun target ↦
      { comboId
        target
        targetIndex := i
        attempted := options.exclude.eraseDups ++ [targetKey target]
        writerGeneration
        rank := rankOf config health comboId options target }, r.2)

end Picker

/-! ## What the loops find

For each loop: it finds nothing just when nothing is eligible, and what it finds is eligible. -/

/-- A loop over the targets finds an eligible one, or there is none. -/
def Finds (targets : List NormalizedComboTarget) (eligible : NormalizedComboTarget → Bool)
    (found : Option ℕ) : Prop :=
  match found with
  | none => ∀ t ∈ targets, eligible t = false
  | some i => ∃ t, targets[i]? = some t ∧ eligible t = true

section Loops

variable {targets : List NormalizedComboTarget} {eligible : NormalizedComboTarget → Bool}

/-- What the smooth-weight loop holds after walking some entries. -/
def SmoothFinds (eligible : NormalizedComboTarget → Bool)
    (entries : List (NormalizedComboTarget × ℕ)) (acc : SmoothScan) : Prop :=
  match acc.best with
  | none => ∀ e ∈ entries, eligible e.1 = false
  | some b => b.1 ∈ entries ∧ eligible b.1.1 = true

variable {entries : List (NormalizedComboTarget × ℕ)} {acc : SmoothScan}

theorem smoothFinds_turn (h : SmoothFinds eligible entries acc) (e : NormalizedComboTarget × ℕ) :
    SmoothFinds eligible (entries ++ [e]) (smoothTurn eligible acc e) := by
  rw [smoothTurn]
  cases he : eligible e.1 with
  | false =>
    simp only [Bool.not_false, if_true]
    unfold SmoothFinds at h ⊢
    split at h
    · intro e' he'
      rcases mem_append.mp he' with he' | he'
      · exact h e' he'
      · rw [mem_singleton.mp he']
        exact he
    · exact ⟨mem_append_left _ h.1, h.2⟩
  | true =>
    simp only [Bool.not_true, Bool.false_eq_true, if_false]
    unfold SmoothFinds at h ⊢
    cases hb : acc.best with
    | none => exact ⟨by simp, he⟩
    | some b =>
      rw [hb] at h
      simp only
      split
      · rename_i b' hb'
        split at hb'
        · cases hb'
        · cases hb'
      · rename_i b' hb'
        split at hb'
        · rw [← some_inj.mp hb']
          exact ⟨by simp, he⟩
        · rw [← some_inj.mp hb']
          exact ⟨mem_append_left _ h.1, h.2⟩

theorem smoothFinds_foldl (h : SmoothFinds eligible entries acc)
    (l : List (NormalizedComboTarget × ℕ)) :
    SmoothFinds eligible (entries ++ l) (l.foldl (smoothTurn eligible) acc) := by
  induction l generalizing entries acc with
  | nil => rw [append_nil]; exact h
  | cons e l ih =>
    have hrec := ih (smoothFinds_turn h e)
    rw [append_assoc] at hrec
    exact hrec

theorem mem_of_mem_zipIdx {e : NormalizedComboTarget × ℕ} (h : e ∈ targets.zipIdx) :
    targets[e.2]? = some e.1 := by
  obtain ⟨t, i⟩ := e
  exact mem_zipIdx_iff_getElem?.mp h

theorem smoothWeightedIndex_finds (state : SelectionState) :
    Finds targets eligible (smoothWeightedIndex targets eligible state).1 := by
  have hnil : SmoothFinds eligible [] ⟨none, 0, state.currentWeights⟩ := by
    intro e he
    nomatch he
  have h := smoothFinds_foldl hnil targets.zipIdx
  rw [nil_append, SmoothFinds] at h
  rw [smoothWeightedIndex]
  simp only
  split
  · rename_i hb
    rw [hb] at h
    intro t ht
    obtain ⟨i, hi⟩ := mem_iff_getElem?.mp ht
    exact h (t, i) (mem_zipIdx_iff_getElem?.mpr hi)
  · rename_i e _ hb
    rw [hb] at h
    exact ⟨e.1, mem_of_mem_zipIdx h.1, h.2⟩

theorem roundRobinIndex_finds (state : SelectionState) :
    Finds targets eligible (roundRobinIndex targets eligible state).1 := by
  rw [roundRobinIndex]
  split
  · rename_i i hi
    obtain ⟨key, -, hfind⟩ := bind_eq_some_iff.mp hi
    obtain ⟨hlt, hp, -⟩ := findIdx?_eq_some_iff_getElem.mp hfind
    rw [Bool.and_eq_true] at hp
    exact ⟨targets[i], getElem?_eq_getElem hlt, hp.2⟩
  · have h : ∀ st, Finds targets eligible (smoothWeightedIndex targets eligible st).1 :=
      fun st ↦ smoothWeightedIndex_finds st
    simp only
    split
    · rename_i hs
      exact (congrArg Prod.fst hs) ▸ h _
    · rename_i hs
      exact (congrArg Prod.fst hs) ▸ h _

theorem firstLeast_finds {β : Type} [LinearOrder β] (cost : NormalizedComboTarget → β) :
    Finds targets eligible (firstLeast (fun t ↦ if eligible t then some (cost t) else none)
      targets) := by
  cases h : firstLeast (fun t ↦ if eligible t then some (cost t) else none) targets with
  | none =>
    intro t ht
    have hn := firstLeast_eq_none.mp h t ht
    simpa using hn
  | some i =>
    obtain ⟨t, c, hi, hc, -⟩ := firstLeast_spec h
    refine ⟨t, hi, ?_⟩
    by_contra he
    rw [if_neg he] at hc
    nomatch hc

theorem randomWalk_mem {l : List (NormalizedComboTarget × ℕ)} {random : ℚ} {i : ℕ}
    (h : randomWalk random l = some i) : ∃ e ∈ l, e.2 = i := by
  induction l generalizing random with
  | nil => nomatch h
  | cons e l ih =>
    rw [randomWalk] at h
    split at h
    · exact ⟨e, mem_cons_self, some_inj.mp h⟩
    · obtain ⟨e', he', hi⟩ := ih h
      exact ⟨e', mem_cons_of_mem _ he', hi⟩

theorem randomIndex_finds (draw : ℚ) : Finds targets eligible (randomIndex targets eligible draw) := by
  have hmem : ∀ e ∈ targets.zipIdx.filter (fun e ↦ eligible e.1),
      Finds targets eligible (some e.2) := by
    intro e he
    obtain ⟨hz, hel⟩ := mem_filter.mp he
    exact ⟨e.1, mem_of_mem_zipIdx hz, hel⟩
  rw [randomIndex]
  cases hw : randomWalk _ (targets.zipIdx.filter fun e ↦ eligible e.1) with
  | some i =>
    obtain ⟨e, he, rfl⟩ := randomWalk_mem hw
    exact hmem e he
  | none =>
    rw [none_or]
    cases hl : (targets.zipIdx.filter fun e ↦ eligible e.1).getLast? with
    | some e => exact hmem e (mem_of_getLast? hl)
    | none =>
      intro t ht
      obtain ⟨i, hi⟩ := mem_iff_getElem?.mp ht
      have hnil := getLast?_eq_none_iff.mp hl
      have hnot := filter_eq_nil_iff.mp hnil (t, i) (mem_zipIdx_iff_getElem?.mpr hi)
      simpa using hnot

variable (rank : NormalizedComboTarget → Option ℕ)

theorem scan_zero (i j : ℕ) (l : List NormalizedComboTarget) :
    FirstLeast.scan rank i (some (j, 0)) l = some (j, 0) := by
  induction l generalizing i with
  | nil => rfl
  | cons t l ih =>
    rw [FirstLeast.scan, FirstLeast.step]
    cases rank t with
    | none => exact ih _
    | some r => simpa using ih (i + 1)

theorem priceOrderScan_eq (i : ℕ) (best : Option (ℕ × ℕ)) (l : List NormalizedComboTarget) :
    priceOrderScan rank i best l = FirstLeast.scan rank i best l := by
  induction l generalizing i best with
  | nil => rfl
  | cons t l ih =>
    rw [priceOrderScan, FirstLeast.scan, FirstLeast.step]
    cases rank t with
    | none => exact ih _ _
    | some r =>
      have taken : (if r = 0 then some (i, r) else priceOrderScan rank (i + 1) (some (i, r)) l) =
          FirstLeast.scan rank (i + 1) (some (i, r)) l := by
        split
        · rename_i hz
          rw [hz, scan_zero]
        · exact ih _ _
      cases best with
      | none => exact taken
      | some b =>
        simp only [any_some, decide_eq_true_eq]
        by_cases hle : b.2 ≤ r
        · rw [if_pos hle, if_neg (not_lt.mpr hle)]
          exact ih _ _
        · rw [if_neg hle, if_pos (not_le.mp hle)]
          exact taken

theorem priceOrder_eq_firstLeast :
    (priceOrderScan rank 0 none targets).map Prod.fst = firstLeast rank targets := by
  rw [priceOrderScan_eq, firstLeast]

end Loops

/-! ## Every eligible target can be the pick

Four loops never compare ranks.  Each of them comes to any eligible target it is given, from some
selection state or draw: round-robin by staying on it, `random` by a draw that falls in its part,
`least-used` when all the others have been used. -/

section Reach

variable {targets : List NormalizedComboTarget} {eligible : NormalizedComboTarget → Bool}

/-- The weight of some entries. -/
def entriesWeight (entries : List (NormalizedComboTarget × ℕ)) : ℚ :=
  (entries.map fun entry ↦ (entry.1.weight : ℚ)).sum

theorem entriesWeight_nonneg (entries : List (NormalizedComboTarget × ℕ)) :
    0 ≤ entriesWeight entries := by
  refine sum_nonneg fun w hw ↦ ?_
  obtain ⟨e, -, rfl⟩ := List.mem_map.mp hw
  exact Nat.cast_nonneg _

theorem entriesWeight_cons (e : NormalizedComboTarget × ℕ)
    (entries : List (NormalizedComboTarget × ℕ)) :
    entriesWeight (e :: entries) = e.1.weight + entriesWeight entries := by
  rw [entriesWeight, map_cons, sum_cons, entriesWeight]

theorem entriesWeight_append (l l' : List (NormalizedComboTarget × ℕ)) :
    entriesWeight (l ++ l') = entriesWeight l + entriesWeight l' := by
  rw [entriesWeight, map_append, sum_append, entriesWeight, entriesWeight]

theorem randomWalk_append {l : List (NormalizedComboTarget × ℕ)} {random : ℚ}
    (h : entriesWeight l < random) (l' : List (NormalizedComboTarget × ℕ)) :
    randomWalk random (l ++ l') = randomWalk (random - entriesWeight l) l' := by
  induction l generalizing random with
  | nil => rw [entriesWeight, map_nil, sum_nil, sub_zero, nil_append]
  | cons e l ih =>
    rw [entriesWeight_cons] at h ⊢
    have hl := entriesWeight_nonneg l
    rw [cons_append, randomWalk, if_neg (by linarith), ih (by linarith), sub_sub]

theorem exists_draw {entries : List (NormalizedComboTarget × ℕ)} {e : NormalizedComboTarget × ℕ}
    (he : e ∈ entries) : ∃ draw : ℚ, 0 ≤ draw ∧ draw < 1 ∧
      randomWalk (draw * entriesWeight entries) entries = some e.2 := by
  obtain ⟨l, l', rfl⟩ := append_of_mem he
  have hw : (0 : ℚ) < e.1.weight := Nat.cast_pos.mpr e.1.weight_pos
  have hl := entriesWeight_nonneg l
  have hl' := entriesWeight_nonneg l'
  have htotal : entriesWeight (l ++ e :: l') =
      entriesWeight l + (e.1.weight + entriesWeight l') := by
    rw [entriesWeight_append, entriesWeight_cons]
  have hpos : 0 < entriesWeight (l ++ e :: l') := by rw [htotal]; linarith
  -- half way through the part of the total that belongs to `e`
  have hmid : (entriesWeight l + e.1.weight / 2) / entriesWeight (l ++ e :: l') *
      entriesWeight (l ++ e :: l') = entriesWeight l + e.1.weight / 2 :=
    div_mul_cancel₀ _ hpos.ne'
  refine ⟨(entriesWeight l + e.1.weight / 2) / entriesWeight (l ++ e :: l'),
    div_nonneg (by linarith) hpos.le, ?_, ?_⟩
  · rw [div_lt_one hpos, htotal]
    linarith
  · rw [hmid, randomWalk_append (by linarith), randomWalk, if_pos (by linarith)]

variable {t : NormalizedComboTarget} {i : ℕ}

theorem mem_zipIdx_of_getElem? (h : targets[i]? = some t) :
    (t, i) ∈ targets.zipIdx := mem_zipIdx_iff_getElem?.mpr h

theorem randomIndex_reaches (hi : targets[i]? = some t) (he : eligible t = true) :
    ∃ draw : ℚ, 0 ≤ draw ∧ draw < 1 ∧ randomIndex targets eligible draw = some i := by
  have hmem : (t, i) ∈ targets.zipIdx.filter fun e ↦ eligible e.1 :=
    mem_filter.mpr ⟨mem_zipIdx_of_getElem? hi, he⟩
  obtain ⟨draw, h0, h1, hw⟩ := exists_draw hmem
  refine ⟨draw, h0, h1, ?_⟩
  rw [randomIndex]
  simp only [entriesWeight] at hw
  rw [hw, some_or]

variable {u : NormalizedComboTarget}

theorem eq_of_targetKey (hnd : (targets.map targetKey).Nodup) {j : ℕ} (hi : targets[i]? = some t)
    (hj : targets[j]? = some u) (hk : targetKey t = targetKey u) : i = j := by
  have hi' : (targets.map targetKey)[i]? = some (targetKey t) := by rw [getElem?_map, hi]; rfl
  have hj' : (targets.map targetKey)[j]? = some (targetKey t) := by rw [getElem?_map, hj, hk]; rfl
  obtain ⟨hlt, -⟩ := List.getElem?_eq_some_iff.mp hi'
  exact (getElem?_inj hlt hnd).mp (hi'.trans hj'.symm)

theorem roundRobinIndex_reaches (hnd : (targets.map targetKey).Nodup) (hi : targets[i]? = some t)
    (he : eligible t = true) : (roundRobinIndex targets eligible { SelectionState.fresh with
      activeKey := some (targetKey t) }).1 = some i := by
  have hfind : targets.findIdx? (fun u ↦ targetKey u == targetKey t && eligible u) = some i := by
    obtain ⟨hlt, hget⟩ := List.getElem?_eq_some_iff.mp hi
    refine findIdx?_eq_some_iff_getElem.mpr ⟨hlt, by simp [hget, he], fun j hj hp ↦ ?_⟩
    rw [Bool.and_eq_true, beq_iff_eq] at hp
    have hij : i = j := eq_of_targetKey hnd hi (getElem?_eq_getElem (hj.trans hlt)) hp.1.symm
    omega
  rw [roundRobinIndex]
  simp only [bind_some, hfind]

/-- Everything has been used once, but for one target. -/
def usedBut (targets : List NormalizedComboTarget) (t : NormalizedComboTarget) : SelectionState :=
  { SelectionState.fresh with
    successfulUses := OMap.empty.setAll <|
      targets.map fun u ↦ (targetKey u, if targetKey u = targetKey t then 0 else 1) }

theorem usedBut_uses (hnd : (targets.map targetKey).Nodup) (t : NormalizedComboTarget)
    (hu : u ∈ targets) :
    ((usedBut targets t).successfulUses.get? (targetKey u)).getD 0 =
      if targetKey u = targetKey t then 0 else 1 := by
  have hentries : (usedBut targets t).successfulUses.entries =
      targets.map fun u ↦ (targetKey u, if targetKey u = targetKey t then 0 else 1) := by
    refine OMap.entries_setAll ?_
    simpa [Function.comp_def] using hnd
  have hget : (usedBut targets t).successfulUses.get? (targetKey u) =
      some (if targetKey u = targetKey t then 0 else 1) := by
    rw [← OMap.mem_entries, hentries]
    exact List.mem_map.mpr ⟨u, hu, rfl⟩
  rw [hget, getD_some]

theorem leastUsedIndex_reaches (hnd : (targets.map targetKey).Nodup) (hi : targets[i]? = some t)
    (he : eligible t = true) : leastUsedIndex targets eligible (usedBut targets t) = some i := by
  have ht : t ∈ targets := mem_of_getElem? hi
  have hfinds : Finds targets eligible (leastUsedIndex targets eligible (usedBut targets t)) :=
    firstLeast_finds _
  cases hl : leastUsedIndex targets eligible (usedBut targets t) with
  | none =>
    rw [hl] at hfinds
    exact absurd (hfinds t ht) (by rw [he]; decide)
  | some j =>
    rw [leastUsedIndex] at hl
    obtain ⟨u, c, hj, hc, hmin⟩ := firstLeast_spec hl
    have hcost := (hmin i t 0 hi (by rw [if_pos he, usedBut_uses hnd t ht, if_pos rfl])).1
    have hu : eligible u = true := by
      by_contra hu
      rw [if_neg hu] at hc
      nomatch hc
    rw [if_pos hu, usedBut_uses hnd t (mem_of_getElem? hj), some_inj] at hc
    have hk : targetKey u = targetKey t := by
      by_contra hk
      rw [if_neg hk] at hc
      omega
    rw [eq_of_targetKey hnd hj hi hk]

end Reach

/-! ## Tiers -/

section Tiers

variable (config : OcxConfig) (health : Health) (comboId : String) (options : PickOptions)

/-- What the tiers ask of a pick: no target that may be picked has a better rank, and there is no
pick only where no target may be picked. -/
def TiersHonoured (rank : NormalizedComboTarget → Option ℕ) (targets : List NormalizedComboTarget) :
    Option ComboPick → Prop
  | none => ∀ t ∈ targets, rank t = none
  | some pick => pick.target ∈ targets ∧ pick.rank = rank pick.target ∧
      ∃ r, rank pick.target = some r ∧ ∀ t ∈ targets, ∀ r', rank t = some r' → r ≤ r'

/-- The picker honours the tiers, whatever selection state and draw it finds. -/
def PicksHonourTiers (combo : NormalizedComboConfig) : Prop :=
  ∀ (table : SelectionTable) (writerGeneration : ℕ) (draw : ℚ), 0 ≤ draw → draw < 1 →
    ∃ pick table',
      pickComboTarget config health comboId options table writerGeneration draw =
        .ok (pick, table') ∧
      TiersHonoured (rankOf config health comboId options) combo.targets pick

/-- All the targets that may be picked are in one tier. -/
def OneTier (rank : NormalizedComboTarget → Option ℕ) (targets : List NormalizedComboTarget) :
    Prop :=
  ∀ t ∈ targets, ∀ u ∈ targets, ∀ r r', rank t = some r → rank u = some r' → r ≤ r'

/-- Some best-ranked target has its quota reset before every worse-ranked target listed earlier, and
no later than every worse-ranked target. -/
def BestTierResetsFirst (rank : NormalizedComboTarget → Option ℕ)
    (remaining : NormalizedComboTarget → WithTop ℤ) (targets : List NormalizedComboTarget) : Prop :=
  ∃ (i : ℕ) (v : NormalizedComboTarget) (r : ℕ), targets[i]? = some v ∧ rank v = some r ∧
    ∀ (j : ℕ) (u : NormalizedComboTarget) (r' : ℕ), targets[j]? = some u → rank u = some r' →
      r ≤ r' ∧ (r < r' → remaining v ≤ remaining u ∧ (j < i → remaining v < remaining u))

/-- When the picks of a combo honour the tiers: always, for the price-order strategies; when there
is only one tier on offer, for those that never compare ranks; and when the nearest reset is in the
best tier anyway, for `reset-window`. -/
def TiersKept (combo : NormalizedComboConfig) : Prop :=
  match combo.strategy with
  | .failover | .jev => True
  | .roundRobin | .random | .leastUsed =>
    OneTier (rankOf config health comboId options) combo.targets
  | .resetWindow =>
    (∀ t ∈ combo.targets, rankOf config health comboId options t = none) ∨
      BestTierResetsFirst (rankOf config health comboId options)
        (targetResetRemainingMs config health options.now) combo.targets

/-- What the tiers ask of the index a strategy comes to. -/
def IndexHonours (rank : NormalizedComboTarget → Option ℕ) (targets : List NormalizedComboTarget) :
    Option ℕ → Prop
  | none => ∀ t ∈ targets, rank t = none
  | some i => ∃ t r, targets[i]? = some t ∧ rank t = some r ∧
      ∀ u ∈ targets, ∀ r', rank u = some r' → r ≤ r'

variable {config health comboId options}

variable {t : NormalizedComboTarget}

theorem selectable_eq_true : selectable config health comboId options t = true ↔
      ∃ r, rankOf config health comboId options t = some r := isSome_iff_exists

theorem selectable_eq_false : selectable config health comboId options t = false ↔
      rankOf config health comboId options t = none :=
  isSome_eq_false_iff.trans isNone_iff_eq_none

variable (config health comboId options) (combo : NormalizedComboConfig)

theorem chosenIndex_finds (table : SelectionTable) (draw : ℚ) :
    Finds combo.targets (selectable config health comboId options)
      (chosenIndex config health comboId options combo table draw).1 := by
  rw [chosenIndex]
  cases combo.strategy with
  | roundRobin => exact roundRobinIndex_finds _
  | random => exact randomIndex_finds _
  | leastUsed => exact firstLeast_finds _
  | resetWindow => exact firstLeast_finds _
  | failover | jev =>
    simp only [priceOrder_eq_firstLeast]
    cases h : firstLeast (rankOf config health comboId options) combo.targets with
    | none => exact fun t ht ↦ selectable_eq_false.mpr (firstLeast_eq_none.mp h t ht)
    | some i =>
      obtain ⟨t, r, hi, hr, -⟩ := firstLeast_spec h
      exact ⟨t, hi, selectable_eq_true.mpr ⟨r, hr⟩⟩

theorem pickComboTarget_spec {config : OcxConfig} {health : Health} {comboId : String}
    {options : PickOptions} {table table' : SelectionTable} {writerGeneration : ℕ} {draw : ℚ}
    {pick : ComboPick} (h : pickComboTarget config health comboId options table writerGeneration draw =
      .ok (some pick, table')) :
    ∃ combo, getCombo config comboId = some combo ∧ pick.target ∈ combo.targets ∧
      selectable config health comboId options pick.target = true ∧ pick.comboId = comboId ∧
      pick.attempted = options.exclude.eraseDups ++ [targetKey pick.target] := by
  rw [pickComboTarget] at h
  cases hcombo : getCombo config comboId with
  | none => rw [hcombo] at h; cases h
  | some combo =>
    rw [hcombo] at h
    have hf := chosenIndex_finds config health comboId options combo table draw
    obtain ⟨i, hi, hmap⟩ := bind_eq_some_iff.mp (congrArg Prod.fst (Except.ok.inj h))
    obtain ⟨t, ht, rfl⟩ := map_eq_some_iff.mp hmap
    rw [hi] at hf
    obtain ⟨t', ht', hs⟩ := hf
    obtain rfl := some_inj.mp (ht.symm.trans ht')
    exact ⟨combo, rfl, mem_of_getElem? ht, hs, rfl, rfl⟩

/-- **A pick is refused only where no target may be picked**, whatever the strategy. -/
theorem chosenIndex_eq_none {table : SelectionTable} {draw : ℚ} :
    (chosenIndex config health comboId options combo table draw).1 = none ↔
      ∀ t ∈ combo.targets, rankOf config health comboId options t = none := by
  have hf := chosenIndex_finds config health comboId options combo table draw
  constructor
  · intro hn t ht
    rw [hn] at hf
    exact selectable_eq_false.mp (hf t ht)
  · intro hn
    cases hc : (chosenIndex config health comboId options combo table draw).1 with
    | none => rfl
    | some i =>
      rw [hc] at hf
      obtain ⟨t, hi, hs⟩ := hf
      obtain ⟨r, hr⟩ := selectable_eq_true.mp hs
      exact absurd (hn t (mem_of_getElem? hi)) (by rw [hr]; simp)

theorem honoured_iff (hcombo : getCombo config comboId = some combo) (table : SelectionTable)
    (writerGeneration : ℕ) (draw : ℚ) : (∃ pick table',
      pickComboTarget config health comboId options table writerGeneration draw =
        .ok (pick, table') ∧
      TiersHonoured (rankOf config health comboId options) combo.targets pick) ↔
    IndexHonours (rankOf config health comboId options) combo.targets
      (chosenIndex config health comboId options combo table draw).1 := by
  have hf := chosenIndex_finds config health comboId options combo table draw
  simp only [pickComboTarget, hcombo]
  cases hc : (chosenIndex config health comboId options combo table draw).1 with
  | none =>
    constructor
    · rintro ⟨pick, table', he, hh⟩
      obtain ⟨rfl, -⟩ := Prod.mk.inj (Except.ok.inj he)
      exact hh
    · exact fun hh ↦ ⟨none, _, rfl, hh⟩
  | some i =>
    rw [hc] at hf
    obtain ⟨t, hi, -⟩ := hf
    rw [bind_some, hi, map_some]
    constructor
    · rintro ⟨pick, table', he, hh⟩
      obtain ⟨rfl, -⟩ := Prod.mk.inj (Except.ok.inj he)
      obtain ⟨-, -, r, hr, hmin⟩ := hh
      exact ⟨t, r, hi, hr, hmin⟩
    · rintro ⟨t', r, hi', hr, hmin⟩
      obtain rfl : t = t' := some_inj.mp (hi.symm.trans hi')
      exact ⟨_, _, rfl, mem_of_getElem? hi, rfl, r, hr, hmin⟩

theorem indexHonours_of_oneTier (hone : OneTier (rankOf config health comboId options) combo.targets)
    (table : SelectionTable) (draw : ℚ) :
    IndexHonours (rankOf config health comboId options) combo.targets
      (chosenIndex config health comboId options combo table draw).1 := by
  have hf := chosenIndex_finds config health comboId options combo table draw
  cases hc : (chosenIndex config health comboId options combo table draw).1 with
  | none => exact (chosenIndex_eq_none config health comboId options combo).mp hc
  | some i =>
    rw [hc] at hf
    obtain ⟨t, hi, hs⟩ := hf
    obtain ⟨r, hr⟩ := selectable_eq_true.mp hs
    exact ⟨t, r, hi, hr, fun u hu r' hr' ↦ hone t (mem_of_getElem? hi) u hu r r' hr hr'⟩

/-- If the loop can come to every target that may be picked, and always honours the tiers, then
there is only one. -/
theorem oneTier_of_reaches
    (hreach : ∀ (i : ℕ) (t : NormalizedComboTarget), combo.targets[i]? = some t →
      selectable config health comboId options t = true → ∃ table draw, 0 ≤ draw ∧ draw < 1 ∧
        (chosenIndex config health comboId options combo table draw).1 = some i)
    (hall : ∀ table draw, 0 ≤ draw → draw < 1 →
      IndexHonours (rankOf config health comboId options) combo.targets
        (chosenIndex config health comboId options combo table draw).1) :
    OneTier (rankOf config health comboId options) combo.targets := by
  intro t ht u hu r r' hr hr'
  obtain ⟨i, hi⟩ := mem_iff_getElem?.mp ht
  obtain ⟨table, draw, h0, h1, hc⟩ := hreach i t hi (selectable_eq_true.mpr ⟨r, hr⟩)
  have hh := hall table draw h0 h1
  rw [hc] at hh
  obtain ⟨t', r₀, hi', hr₀, hmin⟩ := hh
  obtain rfl : t = t' := some_inj.mp (hi.symm.trans hi')
  obtain rfl : r = r₀ := some_inj.mp (hr.symm.trans hr₀)
  exact hmin u hu r' hr'

theorem resetWindow_honours_iff : IndexHonours (rankOf config health comboId options) combo.targets
      (resetWindowIndex combo.targets (selectable config health comboId options) config health
        options.now) ↔ (∀ t ∈ combo.targets, rankOf config health comboId options t = none) ∨
      BestTierResetsFirst (rankOf config health comboId options)
        (targetResetRemainingMs config health options.now) combo.targets := by
  have hf : Finds combo.targets (selectable config health comboId options)
      (resetWindowIndex combo.targets (selectable config health comboId options) config health
        options.now) := firstLeast_finds _
  have hcost : ∀ u r, rankOf config health comboId options u = some r →
      (if selectable config health comboId options u = true then
        some (targetResetRemainingMs config health options.now u) else none) =
      some (targetResetRemainingMs config health options.now u) :=
    fun u r hr ↦ if_pos (selectable_eq_true.mpr ⟨r, hr⟩)
  cases hc : resetWindowIndex combo.targets (selectable config health comboId options) config health
      options.now with
  | none =>
    rw [hc] at hf
    have hn : ∀ t ∈ combo.targets, rankOf config health comboId options t = none :=
      fun t ht ↦ selectable_eq_false.mp (hf t ht)
    exact ⟨fun _ ↦ .inl hn, fun _ ↦ hn⟩
  | some i =>
    rw [hc] at hf
    obtain ⟨t, hi, hs⟩ := hf
    obtain ⟨r, hr⟩ := selectable_eq_true.mp hs
    obtain ⟨t', c, hi', hct, hmin⟩ := firstLeast_spec hc
    obtain rfl : t = t' := some_inj.mp (hi.symm.trans hi')
    rw [hcost t r hr, some_inj] at hct
    subst hct
    constructor
    · rintro ⟨t', r₀, hi', hr₀, hbest⟩
      obtain rfl : t = t' := some_inj.mp (hi.symm.trans hi')
      obtain rfl : r = r₀ := some_inj.mp (hr.symm.trans hr₀)
      refine .inr ⟨i, t, r, hi, hr, fun j u r' hj hr' ↦ ?_⟩
      exact ⟨hbest u (mem_of_getElem? hj) r' hr', fun _ ↦ hmin j u _ hj (hcost u r' hr')⟩
    · rintro (hn | ⟨k, v, r₀, hk, hr₀, hv⟩)
      · exact absurd (hn t (mem_of_getElem? hi)) (by rw [hr]; simp)
      · refine ⟨t, r, hi, hr, fun u hu r' hr' ↦ ?_⟩
        obtain ⟨j, hj⟩ := mem_iff_getElem?.mp hu
        -- the pick cannot be worse than `v`: it would have lost to it
        have hle : r ≤ r₀ := by
          by_contra hlt
          obtain ⟨hnear, hearlier⟩ := (hv i t r hi hr).2 (not_le.mp hlt)
          have hpick := hmin k v _ hk (hcost v r₀ hr₀)
          rcases Nat.lt_trichotomy i k with hik | rfl | hki
          · exact absurd hpick.1 (not_le.mpr (hearlier hik))
          · obtain rfl : t = v := some_inj.mp (hi.symm.trans hk)
            exact hlt (some_inj.mp (hr.symm.trans hr₀)).le
          · exact absurd hnear (not_le.mpr (hpick.2 hki))
        exact hle.trans (hv j u r' hj hr').1

/-- **When the health tiers are honoured.**  The picks of a combo honour the tiers, whatever
selection state and draw they find, exactly when `TiersKept` says so. -/
theorem tiers_honoured_iff (hcombo : getCombo config comboId = some combo) :
    PicksHonourTiers config health comboId options combo ↔
      TiersKept config health comboId options combo := by
  have hpicks : PicksHonourTiers config health comboId options combo ↔
      ∀ table draw, 0 ≤ draw → draw < 1 →
        IndexHonours (rankOf config health comboId options) combo.targets
          (chosenIndex config health comboId options combo table draw).1 :=
    ⟨fun h table draw h0 h1 ↦ (honoured_iff config health comboId options combo hcombo table 0
        draw).mp (h table 0 draw h0 h1),
      fun h table g draw h0 h1 ↦ (honoured_iff config health comboId options combo hcombo table g
        draw).mpr (h table draw h0 h1)⟩
  rw [hpicks, TiersKept]
  cases hs : combo.strategy with
  | failover | jev =>
    refine ⟨fun _ ↦ trivial, fun _ table draw _ _ ↦ ?_⟩
    rw [chosenIndex, hs]
    simp only [priceOrder_eq_firstLeast]
    cases hl : firstLeast (rankOf config health comboId options) combo.targets with
    | none => exact firstLeast_eq_none.mp hl
    | some i =>
      obtain ⟨t, r, hi, hr, hmin⟩ := firstLeast_spec hl
      refine ⟨t, r, hi, hr, fun u hu r' hr' ↦ ?_⟩
      obtain ⟨j, hj⟩ := mem_iff_getElem?.mp hu
      exact (hmin j u r' hj hr').1
  | roundRobin =>
    refine ⟨oneTier_of_reaches config health comboId options combo fun i t hi he ↦ ?_,
      fun h table draw _ _ ↦ indexHonours_of_oneTier config health comboId options combo h table
        draw⟩
    refine ⟨OMap.empty.set comboId { SelectionState.fresh with activeKey := some (targetKey t) }, 0,
      le_rfl, zero_lt_one, ?_⟩
    rw [chosenIndex, hs]
    simp only [OMap.get?_set_self, getD_some]
    exact roundRobinIndex_reaches combo.keys_nodup hi he
  | random =>
    refine ⟨oneTier_of_reaches config health comboId options combo fun i t hi he ↦ ?_,
      fun h table draw _ _ ↦ indexHonours_of_oneTier config health comboId options combo h table
        draw⟩
    obtain ⟨draw, h0, h1, hd⟩ := randomIndex_reaches hi he
    refine ⟨.empty, draw, h0, h1, ?_⟩
    rw [chosenIndex, hs]
    exact hd
  | leastUsed =>
    refine ⟨oneTier_of_reaches config health comboId options combo fun i t hi he ↦ ?_,
      fun h table draw _ _ ↦ indexHonours_of_oneTier config health comboId options combo h table
        draw⟩
    refine ⟨OMap.empty.set comboId (usedBut combo.targets t), 0, le_rfl, zero_lt_one, ?_⟩
    rw [chosenIndex, hs]
    simp only [OMap.get?_set_self, getD_some]
    exact leastUsedIndex_reaches combo.keys_nodup hi he
  | resetWindow =>
    rw [← resetWindow_honours_iff]
    have hindex : ∀ table draw, (chosenIndex config health comboId options combo table draw).1 =
        resetWindowIndex combo.targets (selectable config health comboId options) config health
          options.now := by
      intro table draw
      rw [chosenIndex, hs]
    refine ⟨fun h ↦ ?_, fun h table draw _ _ ↦ ?_⟩
    · have h0 := h OMap.empty 0 le_rfl zero_lt_one
      rw [hindex] at h0
      exact h0
    · rw [hindex]
      exact h

/-- A target of weight one. -/
def plainTarget (provider : String) : NormalizedComboTarget :=
  ⟨provider, "gpt", 1, false, false, Nat.one_pos⟩

/-- Two targets, taken in turn. -/
def twoTargets : NormalizedComboConfig where
  strategy := .roundRobin
  targets := [plainTarget "a", plainTarget "b"]
  keys_nodup := by decide

def twoTargetsConfig : OcxConfig :=
  ⟨(OMap.empty.set "a" ⟨false⟩).set "b" ⟨false⟩, OMap.empty.set "main" twoTargets⟩

/-- Nothing is known against any target. -/
def quietHealth : Health :=
  ⟨.empty, .empty, .empty, fun _ _ ↦ false, fun _ _ ↦ false, fun _ _ ↦ false, fun _ _ _ ↦ none⟩

/-- Target `a` is cooling down for a minute. -/
def coolingHealth : Health :=
  { quietHealth with
    targetCooldowns := OMap.empty.set (cooldownMapKey "main" (plainTarget "a")) ⟨60000, false⟩ }

def plainOptions : PickOptions := ⟨[], fun _ ↦ true, 0, false, false⟩

/-- Two healthy targets: taking them in turn honours the tiers. -/
theorem tiers_honoured_of_quiet :
    PicksHonourTiers twoTargetsConfig quietHealth "main" plainOptions twoTargets := by
  refine (tiers_honoured_iff _ _ _ _ twoTargets rfl).mpr ?_
  have hrank : ∀ t ∈ [plainTarget "a", plainTarget "b"],
      rankOf twoTargetsConfig quietHealth "main" plainOptions t = some 0 := by decide +kernel
  intro t ht u hu r r' hr hr'
  rw [hrank t ht, some_inj] at hr
  rw [hrank u hu, some_inj] at hr'
  omega

/-- With `a` cooling down and `b` healthy, round-robin starts with `a`. -/
theorem round_robin_picks_cooling_target : ∃ pick table',
      pickComboTarget twoTargetsConfig coolingHealth "main" plainOptions .empty 0 0 =
        .ok (some pick, table') ∧ pick.target = plainTarget "a" ∧ pick.rank = some 1 ∧
      rankOf twoTargetsConfig coolingHealth "main" plainOptions (plainTarget "b") = some 0 :=
  ⟨_, _, rfl, rfl, by decide +kernel, by decide +kernel⟩

end Tiers

end Combo
