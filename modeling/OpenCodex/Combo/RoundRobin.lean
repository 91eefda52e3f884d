import OpenCodex.Combo.Pick
import OpenCodex.Data.SmoothWeights

/-!
# Taking the targets in turn

With `stickyLimit` one, round-robin holds a target only until its success is noted: the pick makes it
the active one, `noteComboSuccess` lets it go, and the next pick moves by smooth weights again.

So as long as the same targets may be picked, a run of picks and successes is a run of smooth weighted
round-robin over them, whatever else changes meanwhile (`takeTurns_eq`).  What is known of that, in
`Data.SmoothWeights`, is known of the stored weights: in every block of as many picks as the eligible
targets weigh together, each is picked as often as it weighs (`round_robin_proportional`).

A stored weight stays above minus the total.  It does not stay below the total: with weights
`1, 1, 1, 6, 6` a target of weight six is let wait until it has saved up all fifteen
(`stored_weight_reaches_total`).
-/

set_option autoImplicit false

open List Option

namespace Combo

/-! ## What a success does -/

structure ComboBreakerPolicy where
  /-- Consecutive failures that open the circuit. -/
  failureThreshold : ℕ
  /-- Consecutive successes after a trial that close it again. -/
  successThreshold : ℕ
  /-- How long an opened circuit stays open before a trial is allowed. -/
  openMs : ℕ
  deriving DecidableEq

def defaultComboBreaker : ComboBreakerPolicy := ⟨3, 2, 180000⟩

def comboBreakerPolicy (combo : NormalizedComboConfig) : ComboBreakerPolicy where
  failureThreshold := combo.breakerFailureThreshold.getD defaultComboBreaker.failureThreshold
  successThreshold := combo.breakerSuccessThreshold.getD defaultComboBreaker.successThreshold
  openMs := combo.breakerOpenMs.getD defaultComboBreaker.openMs

/-- Consecutive outcomes of a target. -/
structure TargetCircuit where
  failures : ℕ
  successes : ℕ
  deriving DecidableEq

/-- An open circuit closes after enough successes, any other at once. -/
def TargetCircuit.succeeded (c : TargetCircuit) (breaker : ComboBreakerPolicy) : TargetCircuit :=
  if breaker.failureThreshold ≤ c.failures then
    if breaker.successThreshold ≤ c.successes + 1 then ⟨0, 0⟩
    else { c with successes := c.successes + 1 }
  else ⟨0, 0⟩

/-- The tables behind the combos. -/
structure ComboTables where
  selectionState : SelectionTable
  health : Health
  targetCircuits : OMap String TargetCircuit
  configGeneration : ℕ
  lastReconciledGeneration : ℕ
  /-- Reconciliation notes a generation the configuration has reached. -/
  reconciled_le : lastReconciledGeneration ≤ configGeneration
  liveComboTargets : List String

def comboTargetOwnerKey (comboId key : String) : String := comboId ++ "::" ++ key

/-- A writer of an older generation may only write about targets that still exist. -/
def mayCommitComboState (s : ComboTables) (comboId key : String) (writerGeneration : ℕ) : Bool :=
  decide (s.lastReconciledGeneration ≤ writerGeneration) ||
    s.liveComboTargets.contains (comboTargetOwnerKey comboId key)

def noteComboTargetSuccess (s : ComboTables) (comboId : String) (target : NormalizedComboTarget)
    (breaker : ComboBreakerPolicy) : ComboTables :=
  let key := cooldownMapKey comboId target
  { s with
    health := { s.health with
      targetStuckAt := s.health.targetStuckAt.delete key
      targetCooldowns := s.health.targetCooldowns.delete key }
    targetCircuits :=
      match s.targetCircuits.get? key with
      | none => s.targetCircuits
      | some circuit => s.targetCircuits.set key (circuit.succeeded breaker) }

/-- What a success does to the combo's selection state. -/
def SelectionState.succeeded (state : SelectionState) (stickyLimit : ℕ) (key : String) :
    SelectionState :=
  if state.activeKey = some key then
    if stickyLimit ≤ state.successes + 1 then { state with activeKey := none, successes := 0 }
    else { state with successes := state.successes + 1 }
  else state

def noteComboSuccess (s : ComboTables) (comboId : String) (combo : NormalizedComboConfig)
    (target : NormalizedComboTarget) (writerGeneration : ℕ) : ComboTables :=
  let key := targetKey target
  if !mayCommitComboState s comboId key writerGeneration then s
  else
    let s := noteComboTargetSuccess s comboId target (comboBreakerPolicy combo)
    let s := { s with
      health := { s.health with holds := noteProviderSuccess s.health.holds target.provider } }
    match combo.strategy with
    | .leastUsed =>
      let state := (s.selectionState.get? comboId).getD .fresh
      let uses := (state.successfulUses.get? key).getD 0
      let state := { state with successfulUses := state.successfulUses.set key (uses + 1) }
      { s with selectionState := s.selectionState.set comboId state }
    | .roundRobin =>
      match s.selectionState.get? comboId with
      | none => s
      | some state =>
        { s with
          selectionState := s.selectionState.set comboId (state.succeeded combo.stickyLimit key) }
    | _ => s

/-! ## Runs -/

/-- What a turn finds: what became of the tables meanwhile, and what the caller asks. -/
structure Turn where
  meanwhile : ComboTables → ComboTables
  options : PickOptions
  draw : ℚ

section Turns

variable (config : OcxConfig) (comboId : String)

/-- Pick a target, and note the success of what was picked. -/
def takeTurn (s : ComboTables) (turn : Turn) : Option ComboPick × ComboTables :=
  let s := turn.meanwhile s
  match getCombo config comboId,
    pickComboTarget config s.health comboId turn.options s.selectionState s.configGeneration
      turn.draw with
  | some combo, .ok (some pick, table) =>
    (some pick, noteComboSuccess { s with selectionState := table } comboId combo pick.target
      pick.writerGeneration)
  | some _, .ok (none, table) => (none, { s with selectionState := table })
  | _, _ => (none, s)

/-- Turn after turn: the picks, and the tables in the end. -/
def takeTurns : ComboTables → List Turn → List (Option ComboPick) × ComboTables
  | s, [] => ([], s)
  | s, turn :: turns =>
    let r := takeTurn config comboId s turn
    let rest := takeTurns r.2 turns
    (r.1 :: rest.1, rest.2)

/-- A real pick that finds the combo's selection state as it was left, and just the targets of `E`
eligible. -/
structure Turn.Steady (combo : NormalizedComboConfig) (E : NormalizedComboTarget → Bool)
    (s : ComboTables) (turn : Turn) : Prop where
  real : turn.options.preview = false
  kept : (turn.meanwhile s).selectionState.get? comboId = s.selectionState.get? comboId
  eligible : ∀ t ∈ combo.targets,
    selectable config (turn.meanwhile s).health comboId turn.options t = E t

/-- Every turn is steady. -/
def Steady (combo : NormalizedComboConfig) (E : NormalizedComboTarget → Bool) :
    ComboTables → List Turn → Prop
  | _, [] => True
  | s, turn :: turns =>
    turn.Steady config comboId combo E s ∧ Steady combo E (takeTurn config comboId s turn).2 turns

/-- The stored weight of a target. -/
def storedWeight (s : ComboTables) (target : NormalizedComboTarget) : ℤ :=
  ((s.selectionState.get? comboId).bind (·.currentWeights.get? (targetKey target))).getD 0

end Turns

/-! ## The smooth-weight loop -/

section Loop

variable {targets : List NormalizedComboTarget} {E : NormalizedComboTarget → Bool}

/-- The weight stored in a table of weights. -/
def weightOf (weights : OMap String ℤ) (target : NormalizedComboTarget) : ℤ :=
  (weights.get? (targetKey target)).getD 0

/-- What the loop holds after walking the entries `l` from the stored weights `old`. -/
structure Scanned (E : NormalizedComboTarget → Bool) (old : OMap String ℤ)
    (l : List (NormalizedComboTarget × ℕ)) (acc : SmoothScan) : Prop where
  total : acc.total = ((l.filter fun e ↦ E e.1).map fun e ↦ (e.1.weight : ℤ)).sum
  moved : ∀ e ∈ l, E e.1 = true →
    weightOf acc.currentWeights e.1 = weightOf old e.1 + e.1.weight
  still : ∀ key, key ∉ l.map (fun e ↦ targetKey e.1) → acc.currentWeights.get? key = old.get? key
  idle : acc.best = none → acc.currentWeights = old
  score : ∀ b, acc.best = some b → b.2 = weightOf old b.1.1 + b.1.1.weight
  most : ∀ b, acc.best = some b → ∀ e ∈ l, E e.1 = true → weightOf old e.1 + e.1.weight ≤ b.2

theorem Scanned.start (E : NormalizedComboTarget → Bool) (old : OMap String ℤ) :
    Scanned E old [] ⟨none, 0, old⟩ where
  total := rfl
  moved := by intro e he; nomatch he
  still _ _ := rfl
  idle _ := rfl
  score := by intro b hb; nomatch hb
  most := by intro b hb; nomatch hb

variable {old : OMap String ℤ} {acc : SmoothScan}

theorem Scanned.turn {l : List (NormalizedComboTarget × ℕ)} (h : Scanned E old l acc)
    (hfinds : SmoothFinds E l acc) (e : NormalizedComboTarget × ℕ)
    (hnew : targetKey e.1 ∉ l.map fun e ↦ targetKey e.1) :
    Scanned E old (l ++ [e]) (smoothTurn E acc e) := by
  have hkept : acc.currentWeights.get? (targetKey e.1) = old.get? (targetKey e.1) := h.still _ hnew
  cases he : E e.1 with
  | false =>
    have hturn : smoothTurn E acc e = acc := by simp [smoothTurn, he]
    rw [hturn]
    refine ⟨?_, ?_, ?_, h.idle, h.score, ?_⟩
    · rw [h.total]
      simp [he]
    · intro e' he' hE
      rcases mem_append.mp he' with he' | he'
      · exact h.moved e' he' hE
      · rw [mem_singleton.mp he', he] at hE
        cases hE
    · intro key hkey
      refine h.still key fun hmem ↦ hkey ?_
      rw [map_append]
      exact mem_append_left _ hmem
    · intro b hb e' he' hE
      rcases mem_append.mp he' with he' | he'
      · exact h.most b hb e' he' hE
      · rw [mem_singleton.mp he', he] at hE
        cases hE
  | true =>
    have hscore : (acc.currentWeights.get? (targetKey e.1)).getD 0 + (e.1.weight : ℤ) =
        weightOf old e.1 + e.1.weight := by rw [hkept, weightOf]
    have htotal : (smoothTurn E acc e).total = acc.total + e.1.weight := by
      rw [smoothTurn, he]
      rfl
    have hweights : (smoothTurn E acc e).currentWeights =
        acc.currentWeights.set (targetKey e.1) (weightOf old e.1 + e.1.weight) := by
      rw [smoothTurn, he, ← hscore]
      rfl
    -- Either this entry is the best so far, or an earlier one is at least as good.
    have hbest : ∀ b, (smoothTurn E acc e).best = some b →
        b = (e, weightOf old e.1 + (e.1.weight : ℤ)) ∧
          (∀ b', acc.best = some b' → b'.2 ≤ weightOf old e.1 + e.1.weight) ∨
        acc.best = some b ∧ weightOf old e.1 + e.1.weight ≤ b.2 := by
      intro b hb
      rw [smoothTurn, he, Bool.not_true, if_neg Bool.false_ne_true] at hb
      simp only [hscore] at hb
      cases hacc : acc.best with
      | none =>
        simp only [hacc, some_inj] at hb
        exact .inl ⟨hb.symm, by simp⟩
      | some b' =>
        simp only [hacc] at hb
        split at hb
        · rename_i hlt
          refine .inl ⟨(some_inj.mp hb).symm, fun b'' hb'' ↦ ?_⟩
          rw [← some_inj.mp hb'']
          exact hlt.le
        · rename_i hle
          rw [← some_inj.mp hb]
          exact .inr ⟨rfl, not_lt.mp hle⟩
    refine ⟨?_, ?_, ?_, ?_, ?_, ?_⟩
    · rw [htotal]
      simp [h.total, he]
    · intro e' he' hE
      rw [hweights, weightOf, OMap.get?_set]
      rcases mem_append.mp he' with he' | he'
      · have hne : targetKey e'.1 ≠ targetKey e.1 := by
          intro heq
          exact hnew (mem_map.mpr ⟨e', he', heq⟩)
        rw [if_neg hne]
        exact h.moved e' he' hE
      · rw [mem_singleton.mp he', if_pos rfl, getD_some]
    · intro key hkey
      rw [map_append, mem_append, not_or] at hkey
      have hne : key ≠ targetKey e.1 := by
        intro heq
        exact hkey.2 (by simp [heq])
      rw [hweights, OMap.get?_set_of_ne _ hne]
      exact h.still key hkey.1
    · intro hnone
      rw [smoothTurn, he, Bool.not_true, if_neg Bool.false_ne_true] at hnone
      dsimp only at hnone
      split at hnone
      · cases hnone
      · split at hnone
        · cases hnone
        · cases hnone
    · intro b hb
      rcases hbest b hb with ⟨rfl, -⟩ | ⟨hold, -⟩
      · rfl
      · exact h.score b hold
    · intro b hb e' he' hE
      rcases mem_append.mp he' with he' | he'
      · rcases hbest b hb with ⟨rfl, hmost⟩ | ⟨hold, -⟩
        · cases hacc : acc.best with
          | none =>
            rw [SmoothFinds, hacc] at hfinds
            exact absurd (hfinds e' he') (by simp [hE])
          | some b' => exact (h.most b' hacc e' he' hE).trans (hmost b' hacc)
        · exact h.most b hold e' he' hE
      · rw [mem_singleton.mp he']
        rcases hbest b hb with ⟨rfl, -⟩ | ⟨-, hle⟩
        · exact le_rfl
        · exact hle

theorem Scanned.foldl {walked : List (NormalizedComboTarget × ℕ)} (h : Scanned E old walked acc)
    (hfinds : SmoothFinds E walked acc) (l : List (NormalizedComboTarget × ℕ))
    (hnodup : ((walked ++ l).map fun e ↦ targetKey e.1).Nodup) :
    Scanned E old (walked ++ l) (l.foldl (smoothTurn E) acc) := by
  induction l generalizing walked acc with
  | nil => rw [append_nil]; exact h
  | cons e l ih =>
    have heq : walked ++ e :: l = walked ++ [e] ++ l := by simp
    rw [heq] at hnodup ⊢
    have hnew : targetKey e.1 ∉ walked.map fun e ↦ targetKey e.1 := by
      rw [map_append, map_append] at hnodup
      have hleft := (nodup_append.mp hnodup).1
      intro hmem
      exact (nodup_append.mp hleft).2.2 _ hmem _ (by simp) rfl
    exact ih (h.turn hfinds e hnew) (smoothFinds_turn hfinds e) hnodup

/-- The weight of the eligible targets together. -/
def eligibleWeight (targets : List NormalizedComboTarget) (E : NormalizedComboTarget → Bool) : ℕ :=
  ((targets.filter E).map fun t ↦ t.weight).sum

theorem zipIdx_keys (targets : List NormalizedComboTarget) :
    (targets.zipIdx.map fun e ↦ targetKey e.1) = targets.map targetKey := by
  rw [← Function.comp_def targetKey Prod.fst, ← List.map_map, zipIdx_map_fst]

theorem zipIdx_weight (targets : List NormalizedComboTarget) (E : NormalizedComboTarget → Bool) :
    ((targets.zipIdx.filter fun e ↦ E e.1).map fun e ↦ (e.1.weight : ℤ)).sum =
      eligibleWeight targets E := by
  have hfst : (targets.zipIdx.filter fun e ↦ E e.1).map Prod.fst = targets.filter E := by
    rw [← Function.comp_def E Prod.fst, ← List.filter_map, zipIdx_map_fst]
  rw [eligibleWeight, ← hfst, List.map_map]
  induction targets.zipIdx.filter fun e ↦ E e.1 with
  | nil => rfl
  | cons e l ih =>
    rw [map_cons, sum_cons, ih, map_cons, sum_cons, Nat.cast_add]
    rfl

theorem smoothWeightedIndex_spec (hkeys : (targets.map targetKey).Nodup) (state : SelectionState) :
    match smoothWeightedIndex targets E state with
    | (none, next) => (∀ t ∈ targets, E t = false) ∧ next = state
    | (some i, next) => ∃ p, targets[i]? = some p ∧ E p = true ∧
        (∀ t ∈ targets, E t = true → weightOf state.currentWeights t + t.weight ≤
          weightOf state.currentWeights p + p.weight) ∧
        (∀ t ∈ targets, E t = true → weightOf next.currentWeights t =
          weightOf state.currentWeights t + t.weight -
            if p = t then (eligibleWeight targets E : ℤ) else 0) ∧
        next = { state with currentWeights := next.currentWeights } := by
  have hstart : SmoothFinds E [] ⟨none, 0, state.currentWeights⟩ := by
    intro e he
    nomatch he
  have hfinds := smoothFinds_foldl hstart targets.zipIdx
  have hscan := (Scanned.start E state.currentWeights).foldl hstart targets.zipIdx
    (by rw [nil_append, zipIdx_keys]; exact hkeys)
  rw [nil_append] at hfinds hscan
  have hentry {t : NormalizedComboTarget} (ht : t ∈ targets) : ∃ i, (t, i) ∈ targets.zipIdx := by
    obtain ⟨i, hi⟩ := mem_iff_getElem?.mp ht
    exact ⟨i, mem_zipIdx_iff_getElem?.mpr hi⟩
  rw [smoothWeightedIndex]
  cases hbest : (targets.zipIdx.foldl (smoothTurn E) ⟨none, 0, state.currentWeights⟩).best with
  | none =>
    rw [SmoothFinds, hbest] at hfinds
    simp only [hscan.idle hbest, and_true]
    intro t ht
    obtain ⟨i, hi⟩ := hentry ht
    exact hfinds (t, i) hi
  | some b =>
    obtain ⟨⟨p, i⟩, score⟩ := b
    rw [SmoothFinds, hbest] at hfinds
    have hp : targets[i]? = some p := mem_of_mem_zipIdx hfinds.1
    simp only [and_true]
    refine ⟨p, hp, hfinds.2, ?_, ?_⟩
    · intro t ht hE
      obtain ⟨j, hj⟩ := hentry ht
      have hmost := hscan.most _ hbest (t, j) hj hE
      rwa [hscan.score _ hbest] at hmost
    · intro t ht hE
      obtain ⟨j, hj⟩ := hentry ht
      have hpaid : (targets.zipIdx.foldl (smoothTurn E) ⟨none, 0, state.currentWeights⟩).total =
          eligibleWeight targets E := by rw [hscan.total, zipIdx_weight]
      have hown : ∀ u ∈ targets, targetKey u = targetKey p → u = p := by
        intro u hu heq
        exact inj_on_of_nodup_map hkeys hu (mem_of_getElem? hp) heq
      rw [weightOf, OMap.get?_set]
      by_cases heq : targetKey t = targetKey p
      · rw [if_pos heq, getD_some, if_pos (hown t ht heq).symm, hpaid, ← heq]
        rw [← hscan.moved (t, j) hj hE]
        rfl
      · rw [if_neg heq, if_neg fun h ↦ heq (by rw [h]), sub_zero]
        exact hscan.moved (t, j) hj hE

/-! ## Undisturbed turns -/

/-- The selection state after some turns in which just `E` is eligible and nothing is held. -/
def stateAfter (targets : List NormalizedComboTarget) (E : NormalizedComboTarget → Bool) :
    ℕ → SelectionState
  | 0 => .fresh
  | n + 1 => (smoothWeightedIndex targets E (stateAfter targets E n)).2

/-- The pick of the turn that follows them. -/
def pickAfter (targets : List NormalizedComboTarget) (E : NormalizedComboTarget → Bool) (n : ℕ) :
    Option NormalizedComboTarget :=
  (smoothWeightedIndex targets E (stateAfter targets E n)).1.bind fun i ↦ targets[i]?

/-- Undisturbed turns are turns of smooth weighted round-robin over the eligible targets. -/
theorem smoothWeights_stateAfter (hkeys : (targets.map targetKey).Nodup)
    {d : NormalizedComboTarget} (hd : d ∈ targets) (hdE : E d = true) :
    SmoothWeights (targets.filter E).toFinset (fun t ↦ t.weight)
      (fun n ↦ weightOf (stateAfter targets E n).currentWeights)
      (fun n ↦ (pickAfter targets E n).getD d) ∧
    ∀ n, pickAfter targets E n = some ((pickAfter targets E n).getD d) := by
  have hmem (t : NormalizedComboTarget) :
      t ∈ (targets.filter E).toFinset ↔ t ∈ targets ∧ E t = true := by
    rw [List.mem_toFinset, mem_filter]
  have htotal : eligibleWeight targets E = ∑ t ∈ (targets.filter E).toFinset, t.weight := by
    rw [sum_toFinset _ ((List.Nodup.of_map _ hkeys).filter _), eligibleWeight]
  have hturn (n : ℕ) : ∃ p, pickAfter targets E n = some p ∧ p ∈ targets ∧ E p = true ∧
      (∀ t ∈ targets, E t = true → weightOf (stateAfter targets E n).currentWeights t + t.weight ≤
          weightOf (stateAfter targets E n).currentWeights p + p.weight) ∧
      ∀ t ∈ targets, E t = true → weightOf (stateAfter targets E (n + 1)).currentWeights t =
        weightOf (stateAfter targets E n).currentWeights t + t.weight -
          if p = t then (eligibleWeight targets E : ℤ) else 0 := by
    have hspec := smoothWeightedIndex_spec (E := E) hkeys (stateAfter targets E n)
    rw [pickAfter, stateAfter]
    split at hspec
    · rw [hspec.1 d hd] at hdE
      nomatch hdE
    · rename_i heq
      obtain ⟨p, hp, hE, hmost, hmoved, -⟩ := hspec
      rw [heq]
      exact ⟨p, hp, mem_of_getElem? hp, hE, hmost, hmoved⟩
  refine ⟨⟨?_, ?_, ?_, ?_⟩, ?_⟩
  · intro t _
    rfl
  · intro n
    obtain ⟨p, hp, hpt, hpE, -⟩ := hturn n
    simp only [hp, getD_some]
    exact (hmem p).mpr ⟨hpt, hpE⟩
  · intro n t ht
    obtain ⟨p, hp, -, -, hmost, -⟩ := hturn n
    simp only [hp, getD_some]
    exact hmost t ((hmem t).mp ht).1 ((hmem t).mp ht).2
  · intro n t ht
    obtain ⟨p, hp, -, -, -, hmoved⟩ := hturn n
    simp only [hp, getD_some]
    rw [← htotal]
    exact hmoved t ((hmem t).mp ht).1 ((hmem t).mp ht).2
  · intro n
    obtain ⟨p, hp, -⟩ := hturn n
    rw [hp, getD_some]

theorem stateAfter_free (hkeys : (targets.map targetKey).Nodup) (n : ℕ) :
    (stateAfter targets E n).activeKey = none ∧ (stateAfter targets E n).successes = 0 := by
  induction n with
  | zero => exact ⟨rfl, rfl⟩
  | succ n ih =>
    have hspec := smoothWeightedIndex_spec (E := E) hkeys (stateAfter targets E n)
    rw [stateAfter]
    split at hspec
    · rename_i heq
      rw [heq]
      simp only
      rw [hspec.2]
      exact ih
    · rename_i heq
      obtain ⟨p, -, -, -, -, hnext⟩ := hspec
      rw [heq]
      simp only
      rw [hnext]
      exact ih

theorem smoothWeightedIndex_congr {E E' : NormalizedComboTarget → Bool}
    (h : ∀ t ∈ targets, E t = E' t) (state : SelectionState) :
    smoothWeightedIndex targets E state = smoothWeightedIndex targets E' state := by
  have hfold : targets.zipIdx.foldl (smoothTurn E) ⟨none, 0, state.currentWeights⟩ =
      targets.zipIdx.foldl (smoothTurn E') ⟨none, 0, state.currentWeights⟩ := by
    refine foldl_ext _ _ _ fun acc e he ↦ ?_
    rw [smoothTurn, smoothTurn, h e.1 (mem_of_getElem? (mem_of_mem_zipIdx he))]
  rw [smoothWeightedIndex, smoothWeightedIndex, hfold]

theorem roundRobinIndex_free {state : SelectionState} (hfree : state.activeKey = none) :
    roundRobinIndex targets E state =
      match smoothWeightedIndex targets E state with
      | (none, state) => (none, state)
      | (some i, state) =>
        (some i, { state with activeKey := targets[i]?.map targetKey, successes := 0 }) := by
  rw [roundRobinIndex]
  simp only [hfree, bind_none, isSome_none, Bool.false_eq_true, if_false]
  all_goals rfl

end Loop

/-! ## Steady runs -/

section Run

variable {config : OcxConfig} {comboId : String} {combo : NormalizedComboConfig}
  {E : NormalizedComboTarget → Bool}

variable {s : ComboTables}

/-- A success noted for the target that round-robin has just moved to lets it go again. -/
theorem noteComboSuccess_selectionState (hstrategy : combo.strategy = .roundRobin)
    (hsticky : combo.stickyLimit = 1) (state : SelectionState) {target : NormalizedComboTarget}
    (hstate : s.selectionState.get? comboId = some state)
    (hactive : state.activeKey = some (targetKey target)) :
    (noteComboSuccess s comboId combo target s.configGeneration).selectionState.get? comboId =
      some { state with activeKey := none, successes := 0 } := by
  have hmay : mayCommitComboState s comboId (targetKey target) s.configGeneration = true := by
    rw [mayCommitComboState, decide_eq_true s.reconciled_le, Bool.true_or]
  have hsucceeded : state.succeeded combo.stickyLimit (targetKey target) =
      { state with activeKey := none, successes := 0 } := by
    rw [SelectionState.succeeded, if_pos hactive, hsticky, if_pos (Nat.le_add_left 1 _)]
  rw [noteComboSuccess]
  simp only [hmay, hstrategy, noteComboTargetSuccess, hstate, hsucceeded, Bool.not_true,
    Bool.false_eq_true, if_false, OMap.get?_set, if_true]

/-- The selection state of the combo, fresh where it has none. -/
def ownState (s : ComboTables) (comboId : String) : SelectionState :=
  (s.selectionState.get? comboId).getD .fresh

variable {n : ℕ}

theorem takeTurn_steady (hget : getCombo config comboId = some combo)
    (hstrategy : combo.strategy = .roundRobin) (hsticky : combo.stickyLimit = 1)
    (hs : ownState s comboId = stateAfter combo.targets E n) {turn : Turn}
    (h : turn.Steady config comboId combo E s) :
    (takeTurn config comboId s turn).1.map (·.target) = pickAfter combo.targets E n ∧
      ownState (takeTurn config comboId s turn).2 comboId = stateAfter combo.targets E (n + 1) := by
  have hfree := stateAfter_free (E := E) combo.keys_nodup n
  have hfree' := stateAfter_free (E := E) combo.keys_nodup (n + 1)
  have hown : ((turn.meanwhile s).selectionState.get? comboId).getD .fresh =
      stateAfter combo.targets E n := by rw [h.kept]; exact hs
  have hchosen : chosenIndex config (turn.meanwhile s).health comboId turn.options combo
      (turn.meanwhile s).selectionState turn.draw =
      ((roundRobinIndex combo.targets E (stateAfter combo.targets E n)).1,
        (turn.meanwhile s).selectionState.set comboId
          (roundRobinIndex combo.targets E (stateAfter combo.targets E n)).2) := by
    have hcongr : smoothWeightedIndex combo.targets
        (selectable config (turn.meanwhile s).health comboId turn.options)
        (stateAfter combo.targets E n) =
        smoothWeightedIndex combo.targets E (stateAfter combo.targets E n) :=
      smoothWeightedIndex_congr h.eligible _
    simp only [chosenIndex, hstrategy, hown, h.real, Bool.false_eq_true, if_false,
      roundRobinIndex_free hfree.1, hcongr]
  rw [takeTurn, pickAfter]
  simp only [hget, pickComboTarget, hchosen]
  rw [roundRobinIndex_free hfree.1]
  have hspec := smoothWeightedIndex_spec (E := E) combo.keys_nodup (stateAfter combo.targets E n)
  rw [stateAfter] at hfree' ⊢
  cases hidx : smoothWeightedIndex combo.targets E (stateAfter combo.targets E n) with
  | mk i next =>
    rw [hidx] at hspec hfree'
    cases i with
    | none =>
      refine ⟨rfl, ?_⟩
      simp [ownState]
    | some i =>
      obtain ⟨p, hp, -⟩ := hspec
      simp only [hp, bind_some, map_some, true_and]
      rw [ownState, noteComboSuccess_selectionState hstrategy hsticky
        { next with activeKey := some (targetKey p), successes := 0 }]
      · rw [getD_some]
        obtain ⟨activeKey, successes, currentWeights, successfulUses⟩ := next
        obtain ⟨h₁, h₂⟩ := hfree'
        simp only at h₁ h₂
        rw [h₁, h₂]
      · simp
      · rfl

/-- **Steady turns are the undisturbed ones, in order.** -/
theorem takeTurns_eq (hget : getCombo config comboId = some combo)
    (hstrategy : combo.strategy = .roundRobin) (hsticky : combo.stickyLimit = 1) (turns : List Turn)
    (hs : ownState s comboId = stateAfter combo.targets E n)
    (h : Steady config comboId combo E s turns) :
    (takeTurns config comboId s turns).1.map (Option.map (·.target)) =
        (List.range turns.length).map (fun t ↦ pickAfter combo.targets E (n + t)) ∧
      ownState (takeTurns config comboId s turns).2 comboId =
        stateAfter combo.targets E (n + turns.length) := by
  induction turns generalizing s n with
  | nil => exact ⟨rfl, hs⟩
  | cons turn turns ih =>
    obtain ⟨hturn, hrest⟩ := h
    obtain ⟨hpick, hnext⟩ := takeTurn_steady hget hstrategy hsticky hs hturn
    obtain ⟨hpicks, hlast⟩ := ih hnext hrest
    have hshift (t : ℕ) : n + 1 + t = n + (t + 1) := by omega
    refine ⟨?_, ?_⟩
    · rw [takeTurns, length_cons, range_succ_eq_map]
      simp only [map_cons, hpick, hpicks, List.map_map, Nat.add_zero, List.cons.injEq, true_and]
      refine map_congr_left fun t _ ↦ ?_
      rw [hshift]
      rfl
    · rw [takeTurns, length_cons, ← hshift]
      exact hlast

theorem storedWeight_eq (s : ComboTables) (target : NormalizedComboTarget) :
    storedWeight comboId s target = weightOf (ownState s comboId).currentWeights target := by
  rw [storedWeight, weightOf, ownState]
  cases s.selectionState.get? comboId with
  | none => rfl
  | some state => rfl

/-- **Round-robin is exactly proportional.**  While nothing is disturbed and the same targets stay
eligible, every block of picks gives each of them its weight and leaves all stored weights at zero;
and after every pick the stored weights add up to zero, each above minus the total, and none above
the total times `1/2 + … + 1/n`. -/
theorem round_robin_proportional (hget : getCombo config comboId = some combo)
    (hstrategy : combo.strategy = .roundRobin) (hsticky : combo.stickyLimit = 1) {s : ComboTables}
    (hempty : s.selectionState.get? comboId = none) {turns : List Turn}
    (h : Steady config comboId combo E s turns) :
    let W := eligibleWeight combo.targets E
    let r := takeTurns config comboId s turns
    (∀ k, (k + 1) * W ≤ turns.length → ∀ t ∈ combo.targets.filter E,
      (((r.1.map (Option.map (·.target))).drop (k * W)).take W).count (some t) = t.weight) ∧
    (W ∣ turns.length → ∀ t ∈ combo.targets.filter E, storedWeight comboId r.2 t = 0) ∧
    ((combo.targets.filter E).map (storedWeight comboId r.2)).sum = 0 ∧
    ∀ t ∈ combo.targets.filter E, -(W : ℤ) < storedWeight comboId r.2 t ∧
      (storedWeight comboId r.2 t : ℚ) ≤ W * (harmonic (combo.targets.filter E).length - 1) := by
  have hfresh : ownState s comboId = stateAfter combo.targets E 0 := by rw [ownState, hempty]; rfl
  obtain ⟨hpicks, hlast⟩ := takeTurns_eq hget hstrategy hsticky turns hfresh h
  simp only [Nat.zero_add] at hpicks hlast
  intro W r
  have hr : ∀ t, storedWeight comboId r.2 t =
      weightOf (stateAfter combo.targets E turns.length).currentWeights t := by
    intro t
    rw [storedWeight_eq, hlast]
  have hpicks' : r.1.map (Option.map (·.target)) =
      (range turns.length).map (pickAfter combo.targets E) := hpicks
  rcases hnil : combo.targets.filter E with _ | ⟨d, rest⟩
  · simp
  rw [← hnil]
  have hd : d ∈ combo.targets ∧ E d = true := by
    rw [← mem_filter, hnil]
    exact mem_cons_self
  obtain ⟨hsmooth, hpick⟩ := smoothWeights_stateAfter combo.keys_nodup hd.1 hd.2
  have hnodup : (combo.targets.filter E).Nodup := (List.Nodup.of_map _ combo.keys_nodup).filter _
  have htotal : ∑ t ∈ (combo.targets.filter E).toFinset, t.weight = W := sum_toFinset _ hnodup
  have hpos : ∀ t ∈ (combo.targets.filter E).toFinset, 0 < t.weight := fun t _ ↦ t.weight_pos
  have hblock := hsmooth.block_count hpos
  have hzero := hsmooth.balance_blocks hpos
  have hlow := hsmooth.neg_total_lt hpos turns.length
  have hhigh := hsmooth.le_harmonic turns.length
  have hsum := hsmooth.sum_balance turns.length
  rw [htotal] at hblock hzero hlow hhigh
  rw [toFinset_card_of_nodup hnodup] at hhigh
  refine ⟨?_, ?_, ?_, ?_⟩
  · intro k hk t ht
    have hrange : ((range turns.length).drop (k * W)).take W = (range W).map (k * W + ·) := by
      have hle : W ≤ turns.length - k * W := by
        rw [Nat.add_mul, Nat.one_mul] at hk
        omega
      rw [range_eq_range', drop_range', take_range'_of_length_ge hle,
        ← range'_eq_map_range, Nat.zero_add, Nat.mul_one]
    rw [hpicks', ← map_drop, ← map_take, hrange, List.map_map, ← hblock k t (mem_toFinset.mpr ht)]
    have hsome : (range W).map (pickAfter combo.targets E ∘ (k * W + ·)) =
        ((range W).map fun n ↦ (pickAfter combo.targets E (k * W + n)).getD d).map some := by
      rw [List.map_map]
      exact map_congr_left fun n _ ↦ hpick (k * W + n)
    rw [hsome]
    exact count_map_of_injective _ _ (some_injective _) _
  · rintro ⟨k, hk⟩ t ht
    rw [hr, hk, Nat.mul_comm]
    exact hzero k t (mem_toFinset.mpr ht)
  · rw [← hsum, sum_toFinset _ hnodup]
    exact congrArg sum (map_congr_left fun t _ ↦ hr t)
  · intro t ht
    rw [hr]
    exact ⟨hlow t (mem_toFinset.mpr ht), hhigh t (mem_toFinset.mpr ht)⟩

instance (s : ComboTables) (turn : Turn) : Decidable (turn.Steady config comboId combo E s) :=
  decidable_of_iff (turn.options.preview = false ∧
      (turn.meanwhile s).selectionState.get? comboId = s.selectionState.get? comboId ∧
      ∀ t ∈ combo.targets, selectable config (turn.meanwhile s).health comboId turn.options t = E t)
    ⟨fun ⟨h₁, h₂, h₃⟩ ↦ ⟨h₁, h₂, h₃⟩, fun ⟨h₁, h₂, h₃⟩ ↦ ⟨h₁, h₂, h₃⟩⟩

instance decidableSteady : (s : ComboTables) → (turns : List Turn) →
    Decidable (Steady config comboId combo E s turns)
  | _, [] => isTrue trivial
  | s, turn :: turns =>
    have := decidableSteady (takeTurn config comboId s turn).2 turns
    inferInstanceAs (Decidable (turn.Steady config comboId combo E s ∧
      Steady config comboId combo E (takeTurn config comboId s turn).2 turns))

end Run

/-- A target of some weight. -/
def weighedTarget (provider : String) (weight : ℕ) (h : 0 < weight) : NormalizedComboTarget :=
  ⟨provider, "gpt", weight, false, false, h⟩

/-- Three light targets and two heavy ones. -/
def unevenTargets : NormalizedComboConfig where
  strategy := .roundRobin
  targets := [weighedTarget "a" 1 (by omega), weighedTarget "b" 1 (by omega),
    weighedTarget "c" 1 (by omega), weighedTarget "d" 6 (by omega), weighedTarget "e" 6 (by omega)]
  keys_nodup := by decide

def unevenConfig : OcxConfig where
  providers := ((((OMap.empty.set "a" ⟨false⟩).set "b" ⟨false⟩).set "c" ⟨false⟩).set "d" ⟨false⟩).set
    "e" ⟨false⟩
  combos := OMap.empty.set "main" unevenTargets

/-- No combo was used yet. -/
def quietTables : ComboTables where
  selectionState := .empty
  health := quietHealth
  targetCircuits := .empty
  configGeneration := 0
  lastReconciledGeneration := 0
  reconciled_le := le_rfl
  liveComboTargets := []

def plainTurn : Turn := ⟨id, plainOptions, 0⟩

/-- A target may save up the whole total. -/
theorem stored_weight_reaches_total :
    getCombo unevenConfig "main" = some unevenTargets ∧ unevenTargets.stickyLimit = 1 ∧
    unevenTargets.strategy = .roundRobin ∧ quietTables.selectionState.get? "main" = none ∧
    Steady unevenConfig "main" unevenTargets (fun _ ↦ true) quietTables
      (List.replicate 10 plainTurn) ∧ ¬ ∀ t ∈ unevenTargets.targets.filter fun _ ↦ true,
      storedWeight "main" (takeTurns unevenConfig "main" quietTables (List.replicate 10 plainTurn)).2
        t < eligibleWeight unevenTargets.targets fun _ ↦ true := by
  exact ⟨rfl, rfl, rfl, rfl, by decide +kernel, by decide +kernel⟩

/-- The first fifteen picks of the uneven combo. -/
theorem round_robin_proportional_uneven :
    Steady unevenConfig "main" unevenTargets (fun _ ↦ true) quietTables
      (List.replicate 15 plainTurn) ∧
    ∀ t ∈ unevenTargets.targets.filter fun _ ↦ true, storedWeight "main"
      (takeTurns unevenConfig "main" quietTables (List.replicate 15 plainTurn)).2 t = 0 := by
  have hsteady : Steady unevenConfig "main" unevenTargets (fun _ ↦ true) quietTables
      (replicate 15 plainTurn) := by decide +kernel
  have hget : getCombo unevenConfig "main" = some unevenTargets := rfl
  exact ⟨hsteady, (round_robin_proportional hget rfl rfl rfl hsteady).2.1 (by decide +kernel)⟩

end Combo
