import OpenCodex.Data.SlotRing
import OpenCodex.Workflow.Budget

/-!
# The send ring of a root

The twelve buckets of a root are a `SlotRing`: `recordWindowedSends` adds to it, `windowedSends` reads
it, and the slots are those of the window that the root was given when it appeared.  So a root counts
the sends of the last twelve slots as if it kept a list of them all, and whoever reads the count, with
whatever policy, is told the same number.
-/

set_option autoImplicit false

open List

namespace Workflow

/-! ## Slots -/

theorem slotIndex_eq (slot : ℤ) : WorkflowState.slotIndex slot = SlotRing.index slot := by
  have hpos : (0 : ℤ) < windowSlots := by decide
  have hnonneg : 0 ≤ slot.tmod windowSlots + windowSlots := by
    have := Int.lt_tmod_of_pos slot hpos
    omega
  have hmod : (slot.tmod windowSlots + windowSlots).tmod windowSlots = slot % windowSlots := by
    rw [Int.tmod_eq_emod_of_nonneg hnonneg, Int.add_emod_right,
      Int.tmod_def, Int.sub_mul_emod_self_left]
  rw [WorkflowState.slotIndex, SlotRing.index, Fin.mk.injEq, hmod]

theorem windowSlotMs_eq (windowMs : ℕ) : windowSlotMs windowMs = max 1 ⌈(windowMs : ℚ) / 12⌉₊ := by
  have hceil : ⌈(windowMs : ℚ) / 12⌉₊ = (windowMs + 11) / 12 := by
    refine eq_of_forall_ge_iff fun n ↦ ?_
    rw [Nat.ceil_le, div_le_iff₀ (by norm_num)]
    constructor
    · intro h
      have h : windowMs ≤ n * 12 := by exact_mod_cast h
      omega
    · intro h
      have h : windowMs ≤ n * 12 := by omega
      exact_mod_cast h
  rw [hceil]
  rfl

theorem windowSlotMs_pos (windowMs : ℕ) : 0 < windowSlotMs windowMs :=
  Nat.lt_of_lt_of_le Nat.one_pos (Nat.le_max_left _ _)

variable {slotMs t s : ℤ}

theorem slot_of_young (hpos : 0 < slotMs) (h : t - s < 11 * slotMs) :
    t / slotMs - 11 ≤ s / slotMs := by
  have ht := Int.ediv_mul_le t hpos.ne'
  have hs := Int.lt_ediv_add_one_mul_self s hpos
  by_contra hlt
  have hle : (s / slotMs + 1) * slotMs ≤ (t / slotMs - 11) * slotMs :=
    mul_le_mul_of_nonneg_right (by omega) hpos.le
  rw [sub_mul] at hle
  omega

theorem slot_of_old (hpos : 0 < slotMs) (h : 12 * slotMs ≤ t - s) :
    s / slotMs < t / slotMs - 11 := by
  have ht := Int.lt_ediv_add_one_mul_self t hpos
  have hs := Int.ediv_mul_le s hpos.ne'
  by_contra hge
  have hle : (t / slotMs - 11) * slotMs ≤ s / slotMs * slotMs :=
    mul_le_mul_of_nonneg_right (by omega) hpos.le
  rw [sub_mul] at hle
  rw [add_mul] at ht
  omega

/-! ## The ring -/

namespace WorkflowState

variable (state : WorkflowState)

/-- The buckets of a root. -/
def ring : SlotRing windowSlots := ⟨state.sendSlotAt, state.sendSlotCount⟩

/-- The slot of a time, by the window of the root. -/
def slot (now : ℤ) : ℤ := now / windowSlotMs state.windowMs

variable (now : ℤ)

theorem windowedSends_eq : state.windowedSends now = state.ring.total (state.slot now) := rfl

theorem recordWindowedSends_ring (sends : ℕ) :
    (state.recordWindowedSends now sends).ring = state.ring.add (state.slot now) sends := by
  show state.ring.put (slotIndex (state.slot now)) (state.slot now) sends = _
  rw [slotIndex_eq]
  rfl

theorem recordWindowedSends_windowMs (sends : ℕ) :
    (state.recordWindowedSends now sends).windowMs = state.windowMs := rfl

/-- A root after some charges. -/
def charged (charges : List (ℤ × ℕ)) : WorkflowState :=
  charges.foldl (fun s c ↦ s.recordWindowedSends c.1 c.2) state

theorem charged_concat (charges : List (ℤ × ℕ)) (c : ℤ × ℕ) :
    state.charged (charges ++ [c]) = (state.charged charges).recordWindowedSends c.1 c.2 := by
  rw [charged, foldl_concat]
  rfl

theorem charged_windowMs (charges : List (ℤ × ℕ)) :
    (state.charged charges).windowMs = state.windowMs := by
  induction charges generalizing state with
  | nil => rfl
  | cons c l ih => exact (ih _).trans (state.recordWindowedSends_windowMs c.1 c.2)

theorem charged_ring {state : WorkflowState} (h : state.ring = .empty) (charges : List (ℤ × ℕ)) :
    (state.charged charges).ring = .ofList (charges.map fun c ↦ (state.slot c.1, c.2)) := by
  induction charges using List.reverseRecOn with
  | nil => exact h
  | append_singleton l c ih =>
    rw [charged_concat, recordWindowedSends_ring, map_append, SlotRing.ofList,
      map_singleton, foldl_concat]
    have hslot : (state.charged l).slot c.1 = state.slot c.1 := by rw [slot, slot, charged_windowMs]
    exact congrArg₂ (fun r s ↦ SlotRing.add r s c.2) ih hslot

/-- The sends of the last twelve slots. -/
def sendsWithin (windowMs : ℕ) (charges : List (ℤ × ℕ)) (now : ℤ) : ℕ :=
  ((charges.filter fun c ↦
    now / windowSlotMs windowMs - 11 ≤ c.1 / windowSlotMs windowMs).map (·.2)).sum

theorem windowedSends_charged {state : WorkflowState} (h : state.ring = .empty)
    {charges : List (ℤ × ℕ)} (hsorted : charges.Pairwise fun c d ↦ c.1 ≤ d.1) {now : ℤ}
    (hnow : ∀ c ∈ charges, c.1 ≤ now) :
    (state.charged charges).windowedSends now = sendsWithin state.windowMs charges now := by
  have hpos : (0 : ℤ) < windowSlotMs state.windowMs := by exact_mod_cast windowSlotMs_pos _
  have hmono {s t : ℤ} (hst : s ≤ t) : state.slot s ≤ state.slot t := Int.ediv_le_ediv hpos hst
  rw [windowedSends_eq, charged_ring h, slot, charged_windowMs, SlotRing.total_ofList]
  · rw [SlotRing.sumWhere, List.filter_map, List.map_map]
    rfl
  · rw [pairwise_map]
    exact hsorted.imp fun hcd ↦ hmono hcd
  · intro c hc
    obtain ⟨d, hd, rfl⟩ := List.mem_map.mp hc
    exact hmono (hnow d hd)

end WorkflowState

/-! ## Charging a root -/

namespace WorkflowBudgets

variable (b : WorkflowBudgets)

/-- The charges of one root, in their order. -/
def chargedAll (rootId : JsString) (charges : List (ℕ × ℕ)) : WorkflowBudgets :=
  charges.foldl (fun b c ↦ b.chargeWorkflowSends (some rootId) c.2 c.1) b

variable {state : WorkflowState} {rootId : JsString}

theorem chargeWorkflowSends_get (hid : rootId ≠ []) (h : b.roots.get? rootId = some state)
    {sends : ℕ} (hsends : 0 < sends) (now : ℕ) :
    ∃ state', (b.chargeWorkflowSends (some rootId) sends now).roots.get? rootId = some state' ∧
      state'.ring = state.ring.add (state.slot now) sends ∧ state'.windowMs = state.windowMs := by
  have hroot : (some rootId).filter (fun r ↦ decide (r ≠ [])) = some rootId := by simp [hid]
  rw [chargeWorkflowSends, hroot]
  simp only [hsends.ne', if_false, update, h]
  refine ⟨_, OMap.get?_set_self _ _ _, ?_, rfl⟩
  exact ({ state with sends := state.sends + sends }).recordWindowedSends_ring now sends

theorem chargedAll_get (hid : rootId ≠ []) (h : b.roots.get? rootId = some state)
    {charges : List (ℕ × ℕ)} (hpos : ∀ c ∈ charges, 0 < c.2) :
    ∃ state', (b.chargedAll rootId charges).roots.get? rootId = some state' ∧
      state'.ring = (state.charged (charges.map fun c ↦ ((c.1 : ℤ), c.2))).ring ∧
      state'.windowMs = state.windowMs := by
  induction charges using List.reverseRecOn with
  | nil => exact ⟨state, h, rfl, rfl⟩
  | append_singleton l c ih =>
    obtain ⟨s, hs, hring, hwindow⟩ := ih fun d hd ↦ hpos d (mem_append_left _ hd)
    obtain ⟨s', hs', hring', hwindow'⟩ := (b.chargedAll rootId l).chargeWorkflowSends_get hid hs
      (hpos c (mem_append_right _ mem_cons_self)) c.1
    have hslot : s.slot c.1 = (state.charged (l.map fun c ↦ ((c.1 : ℤ), c.2))).slot c.1 := by
      rw [WorkflowState.slot, WorkflowState.slot, hwindow, WorkflowState.charged_windowMs]
    refine ⟨s', ?_, ?_, hwindow'.trans hwindow⟩
    · rw [chargedAll, foldl_concat]
      exact hs'
    · rw [hring', hring, hslot, ← WorkflowState.recordWindowedSends_ring, map_append,
        map_singleton, WorkflowState.charged_concat]

end WorkflowBudgets

/-- **The twelve-slot ring is the list it replaces.**  Of the sends charged to a new root in the order
of time, those of the last twelve slots are counted and no others: all that are younger than eleven
slots, and none that is twelve slots old.  The counts are the same however the sends were charged,
and every policy's ceiling is judged by them. -/
theorem send_ring_exact (windowMs : ℕ) (hwindow : 0 < windowMs) (policy : WorkflowBudgetPolicy)
    (hpolicy : policy.windowMs = some (windowMs : ℤ)) (start : ℕ) (charges : List (ℤ × ℕ))
    (hpos : ∀ c ∈ charges, 0 < c.2) (hsorted : charges.Pairwise fun c d ↦ c.1 ≤ d.1) (t : ℤ)
    (ht : ∀ c ∈ charges, c.1 ≤ t) :
    let slotMs : ℤ := max 1 ⌈(windowMs : ℚ) / 12⌉
    let counted := ((charges.filter fun c ↦ t / slotMs - 11 ≤ c.1 / slotMs).map (·.2)).sum
    let state := (newWorkflowState start policy).charged charges
    state.windowedSends t = counted ∧
    (∀ c ∈ charges, t - c.1 < 11 * slotMs → t / slotMs - 11 ≤ c.1 / slotMs) ∧
    (∀ c ∈ charges, 12 * slotMs ≤ t - c.1 → c.1 / slotMs < t / slotMs - 11) ∧
    (∀ (b : WorkflowBudgets) (rootId : JsString) (l : List (ℕ × ℕ)) (now : ℕ), rootId ≠ [] →
      b.roots.get? rootId = some (newWorkflowState start policy) →
      charges = l.map (fun c ↦ ((c.1 : ℤ), c.2)) → t = now →
      ∃ s, (b.chargedAll rootId l).roots.get? rootId = some s ∧ s.windowedSends t = counted ∧
        ∀ (reader : WorkflowBudgetPolicy) (lane : WorkflowLane) (childId : Option JsString),
          WorkflowBudgets.countDenial reader s lane childId now = some .sendsExhausted ↔
            reader.maxPhysicalSends ≤ counted) := by
  have hslot : (max 1 ⌈(windowMs : ℚ) / 12⌉ : ℤ) = windowSlotMs windowMs := by
    rw [windowSlotMs_eq, Nat.cast_max, Nat.cast_one, Int.natCast_ceil_eq_ceil (by positivity)]
  have hms : (newWorkflowState start policy).windowMs = windowMs := by
    show workflowWindowMs policy = windowMs
    simp [workflowWindowMs, hpolicy, hwindow]
  intro slotMs counted state
  have hslotMs : slotMs = windowSlotMs windowMs := hslot
  have hslotPos : 0 < slotMs := by
    rw [hslotMs]
    exact_mod_cast windowSlotMs_pos windowMs
  have hcounted : WorkflowState.sendsWithin windowMs charges t = counted := by
    rw [WorkflowState.sendsWithin, ← hslotMs]
  have hread {s : WorkflowState} (hring : s.ring = state.ring) (hwin : s.windowMs = windowMs) :
      s.windowedSends t = counted := by
    rw [← hcounted, ← hms, ← WorkflowState.windowedSends_charged rfl hsorted ht,
      WorkflowState.windowedSends_eq, WorkflowState.windowedSends_eq, hring, WorkflowState.slot,
      WorkflowState.slot, WorkflowState.charged_windowMs, hms, hwin]
  refine ⟨hread rfl ?_, fun c _ h ↦ slot_of_young hslotPos h, fun c _ h ↦ slot_of_old hslotPos h,
    ?_⟩
  · exact (WorkflowState.charged_windowMs _ _).trans hms
  · rintro b rootId l now hid hroot rfl rfl
    have hl : ∀ c ∈ l, 0 < c.2 := by
      intro c hc
      exact hpos _ (List.mem_map_of_mem hc)
    obtain ⟨s, hs, hring, hwin⟩ := b.chargedAll_get hid hroot hl
    have hsends := hread hring (hwin.trans hms)
    refine ⟨s, hs, hsends, fun reader lane childId ↦ ?_⟩
    rw [WorkflowBudgets.countDenial, hsends]
    split
    · simp [*]
    · rename_i h
      simp only [h, iff_false]
      split
      · simp
      · split <;> simp

/-- Thirteen slots after the first sends the bucket they were in has been reused. -/
theorem send_ring_exact_reused :
    ((newWorkflowState 0 { defaultWorkflowBudgetPolicy with windowMs := some 120 }).charged
      [(0, 2), (5, 1), (125, 3)]).windowedSends 125 = 3 :=
  (send_ring_exact 120 (by decide) { defaultWorkflowBudgetPolicy with windowMs := some 120 } rfl 0
    [(0, 2), (5, 1), (125, 3)] (by decide) (by decide) 125 (by decide)).1.trans (by decide +kernel)

end Workflow
