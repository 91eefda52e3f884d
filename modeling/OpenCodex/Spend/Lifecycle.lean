import OpenCodex.Spend.Books

/-!
# The life of a send

Between two checkpoints the books change by guarded steps.  Seen from one send these are its life:
it is booked when it is unknown, resolved when it is live, and forgotten when it is resolved.  Hence
along any list of records the bookings of a send are exactly its resolutions, plus one if it is live
at the end and was not before (`bookings_eq_resolutions`), and what a scope has settled or left
unresolved is the sum of what the resolutions brought it (`settled_applyAll`,
`unresolved_applyAll`).

The ledger takes care to drop only scopes that no live send names.  Then every scope of a live send
stays tracked (`Tracked`), and a checkpoint says everything there is to say: applied to any books it
gives back the ones it was taken of (`apply_checkpointRecord`).
-/

set_option autoImplicit false

open List Option OMap

namespace Spend

/-- Everything but a checkpoint. -/
def JournalRecord.IsStep : JournalRecord → Prop
  | .checkpoint _ _ _ => False
  | _ => True

namespace Books

variable {b : Books}

/-! ## Effects of one record -/

/-- Does the record book this send? -/
def booksNow (b : Books) (send : SpendAlias) : JournalRecord → Bool
  | .reserve s _ _ _ => s == send && !b.reservations.has send
  | _ => false

/-- Does the record resolve this send? -/
def resolvesNow (b : Books) (send : SpendAlias) : JournalRecord → Bool
  | .settle s _ _ | .lost s _ | .abandon s _ => s == send && b.isLive send
  | _ => false

/-- The usage a record settles in a scope. -/
def settledNow (b : Books) (ref : ScopeRef) : JournalRecord → ℕ
  | .settle s tokens _ =>
    if (b.reservations.get? s).any fun r ↦ r.status.isLive && r.targets.contains ref then tokens
    else 0
  | _ => 0

/-- The tokens a record leaves unresolved in a scope. -/
def lostNow (b : Books) (ref : ScopeRef) : JournalRecord → ℕ
  | .lost s _ => ((b.reservations.get? s).map (·.weight ref)).getD 0
  | _ => 0

/-- The sum of an effect along a list of records. -/
def sumAlong (effect : Books → JournalRecord → ℕ) : Books → List JournalRecord → ℕ
  | _, [] => 0
  | b, record :: records => effect b record + sumAlong effect (b.apply record) records

/-- How often a send is booked along a list of records. -/
def bookings (b : Books) (send : SpendAlias) (records : List JournalRecord) : ℕ :=
  b.sumAlong (fun b record ↦ (b.booksNow send record).toNat) records

/-- How often a send is resolved along a list of records. -/
def resolutions (b : Books) (send : SpendAlias) (records : List JournalRecord) : ℕ :=
  b.sumAlong (fun b record ↦ (b.resolvesNow send record).toNat) records

/-! ## What each record does to one send -/

variable {send : SpendAlias}

variable {r : Reservation}

theorem isLive_of_get? (h : b.reservations.get? send = some r) :
    b.isLive send = r.status.isLive := by
  rw [isLive, h]
  rfl

theorem isLive_of_none (h : b.reservations.get? send = none) : b.isLive send = false := by
  rw [isLive, h]
  rfl

variable {b' : Books}

theorem isLive_congr (h : b'.reservations.get? send = b.reservations.get? send) :
    b'.isLive send = b.isLive send := by
  rw [isLive, isLive, h]

theorem isLive_applyReserve (send send' : SpendAlias) (targets : List ScopeRef) (tokens time : ℕ) :
    (b.applyReserve send targets tokens time).isLive send' =
      (b.isLive send' || (send == send' && !b.reservations.has send')) := by
  rw [Books.applyReserve]
  split
  · rename_i hknown
    cases hs : send == send' with
    | false => rw [Bool.false_and, Bool.or_false]
    | true => rw [← eq_of_beq hs, hknown, Bool.not_true, Bool.and_false, Bool.or_false]
  · rename_i hnew
    have hnew := eq_false_of_ne_true hnew
    by_cases hs : send = send'
    · subst hs
      rw [isLive_of_get? (get?_set_self ..), hnew, beq_self_eq_true, Bool.not_false,
        Bool.and_true, Bool.or_true]
      rfl
    · rw [beq_eq_false_iff_ne.mpr hs, Bool.false_and, Bool.or_false]
      exact isLive_congr (get?_set_of_ne _ (Ne.symm hs) _)

theorem isLive_applyResolve (send send' : SpendAlias) (outcome : Outcome) (time : ℕ) :
    (b.applyResolve send outcome time).isLive send' = (b.isLive send' && !(send == send')) := by
  have hother : ∀ b' : Books, (send ≠ send' → b'.isLive send' = b.isLive send') →
      (send = send' → b'.isLive send' = false) →
      b'.isLive send' = (b.isLive send' && !(send == send')) := by
    intro b' hne heq
    by_cases hs : send = send'
    · rw [heq hs, beq_iff_eq.mpr hs, Bool.not_true, Bool.and_false]
    · rw [hne hs, beq_eq_false_iff_ne.mpr hs, Bool.not_false, Bool.and_true]
  rw [Books.applyResolve]
  split
  · rename_i hnone
    exact hother _ (fun _ ↦ rfl) fun hs ↦ isLive_of_none (hs ▸ hnone)
  rename_i r hr
  split
  · rename_i hdead
    have hdead : r.status.isLive = false := by simpa using hdead
    exact hother _ (fun _ ↦ rfl) fun hs ↦ (isLive_of_get? (hs ▸ hr)).trans hdead
  · refine hother _ (fun hs ↦ isLive_congr (get?_set_of_ne _ (Ne.symm hs) _)) fun hs ↦ ?_
    subst hs
    rw [isLive_of_get? (get?_set_self ..)]
    exact outcome.status_isLive

theorem isLive_applyDispatch (send send' : SpendAlias) (time : ℕ) :
    (b.applyDispatch send time).isLive send' = b.isLive send' := by
  rw [Books.applyDispatch]
  split
  · rfl
  rename_i r hr
  split
  · rfl
  rename_i hopen
  by_cases hs : send = send'
  · subst hs
    rw [isLive_of_get? (get?_set_self ..), isLive_of_get? hr, not_not.mp hopen]
    rfl
  · exact isLive_congr (get?_set_of_ne _ (Ne.symm hs) _)

theorem isLive_applyForget (send send' : SpendAlias) :
    (b.applyForget send).isLive send' = b.isLive send' := by
  rw [Books.applyForget]
  split
  · rfl
  rename_i r hr
  split
  · rfl
  rename_i hdead
  by_cases hs : send = send'
  · subst hs
    rw [isLive_of_none (get?_delete_self ..), isLive_of_get? hr]
    exact (eq_false_of_ne_true hdead).symm
  · exact isLive_congr (get?_delete_of_ne _ (Ne.symm hs))

theorem isLive_applyDrop (ref : ScopeRef) (send : SpendAlias) :
    (b.applyDrop ref).isLive send = b.isLive send := by
  rw [Books.applyDrop]
  split
  · rfl
  · split
    · rfl
    · rfl

variable {record : JournalRecord}

/-- **Along one record**, a send is booked, resolved, or as live as before. -/
theorem isLive_apply (send : SpendAlias) (h : record.IsStep) :
    (b.booksNow send record).toNat + (b.isLive send).toNat =
      (b.resolvesNow send record).toNat + ((b.apply record).isLive send).toNat := by
  have hresolve : ∀ (s : SpendAlias) (outcome : Outcome) (time : ℕ),
      (b.isLive send).toNat = (s == send && b.isLive send).toNat +
        ((b.applyResolve s outcome time).isLive send).toNat := by
    intro s outcome time
    rw [isLive_applyResolve]
    cases s == send <;> cases b.isLive send <;> rfl
  cases record with
  | reserve s targets tokens time =>
    have hlive : b.reservations.has send = false → b.isLive send = false := fun hnew ↦
      isLive_of_none (has_eq_false_iff.mp hnew)
    show (s == send && !b.reservations.has send).toNat + _ =
      0 + ((b.applyReserve s targets tokens time).isLive send).toNat
    rw [isLive_applyReserve]
    cases hs : s == send with
    | false => cases b.isLive send <;> rfl
    | true =>
      cases hnew : b.reservations.has send with
      | false => rw [hlive hnew]; rfl
      | true => cases b.isLive send <;> rfl
  | dispatch s time =>
    show 0 + _ = 0 + ((b.applyDispatch s time).isLive send).toNat
    rw [isLive_applyDispatch]
  | settle s tokens time => exact (Nat.zero_add _).trans (hresolve s (.settled tokens) time)
  | lost s time => exact (Nat.zero_add _).trans (hresolve s .lost time)
  | abandon s time => exact (Nat.zero_add _).trans (hresolve s .abandoned time)
  | forget s time =>
    show 0 + _ = 0 + ((b.applyForget s).isLive send).toNat
    rw [isLive_applyForget]
  | drop ref time =>
    show 0 + _ = 0 + ((b.applyDrop ref).isLive send).toNat
    rw [isLive_applyDrop]
  | checkpoint time scopes sends => exact h.elim

variable {records : List JournalRecord}

/-- **A send is resolved once for each time it is booked**, and not before: what it was booked more
often is what it is live now. -/
theorem bookings_eq_resolutions (b : Books) (send : SpendAlias)
    (h : ∀ record ∈ records, record.IsStep) : b.bookings send records + (b.isLive send).toNat =
      b.resolutions send records + ((b.applyAll records).isLive send).toNat := by
  induction records generalizing b with
  | nil => rfl
  | cons record records ih =>
    rw [forall_mem_cons] at h
    have hone := isLive_apply (b := b) send h.1
    have hrest := ih (b.apply record) h.2
    simp only [bookings, resolutions, sumAlong, applyAll_cons] at hrest ⊢
    omega

/-! ## What each record does to one scope -/

/-- Does a live send name this scope? -/
def liveIn (b : Books) (ref : ScopeRef) (send : SpendAlias) : Bool :=
  (b.reservations.get? send).any fun r ↦ r.status.isLive && r.targets.contains ref

variable {targets : List ScopeRef}

theorem figures_applyReserve (send : SpendAlias) (hnd : targets.Nodup) (tokens time : ℕ)
    (ref : ScopeRef) :
    ((b.applyReserve send targets tokens time).figures ref).settled = (b.figures ref).settled ∧
    ((b.applyReserve send targets tokens time).figures ref).unresolved =
      (b.figures ref).unresolved := by
  rw [Books.applyReserve]
  split
  · exact ⟨rfl, rfl⟩
  · rw [figures_touchAll hnd]
    split
    · exact ⟨rfl, rfl⟩
    · exact ⟨rfl, rfl⟩

theorem figures_applyResolve (h : Sums b) (send : SpendAlias) (outcome : Outcome) (time : ℕ)
    (ref : ScopeRef) : ((b.applyResolve send outcome time).figures ref).settled =
        (b.figures ref).settled + (if b.liveIn ref send then outcome.usage else 0) ∧
    ((b.applyResolve send outcome time).figures ref).unresolved = (b.figures ref).unresolved +
        outcome.residue (((b.reservations.get? send).map (·.weight ref)).getD 0) := by
  have hzero : outcome.residue 0 = 0 := by cases outcome <;> rfl
  rw [Books.applyResolve]
  split
  · rename_i hnone
    rw [liveIn, hnone]
    exact ⟨rfl, hzero.symm ▸ rfl⟩
  rename_i r hr
  split
  · rename_i hdead
    have hdead : r.status.isLive = false := by simpa using hdead
    rw [liveIn, hr, any_some, hdead, map_some, Reservation.weight_resolved hdead]
    exact ⟨rfl, hzero.symm ▸ rfl⟩
  rename_i hlive
  have hlive : r.status.isLive = true := by simpa using hlive
  rw [figures_touchAll (h.targets send r hr).1, liveIn, hr, any_some, hlive, Bool.true_and,
    map_some, getD_some, Reservation.weight_live hlive]
  by_cases href : ref ∈ r.targets
  · rw [if_pos href, if_pos href, if_pos (contains_iff_mem.mpr href)]
    exact ⟨rfl, rfl⟩
  · rw [if_neg href, if_neg href, if_neg (fun hc ↦ href (contains_iff_mem.mp hc)), hzero]
    exact ⟨rfl, rfl⟩

theorem scopes_applyDispatch (send : SpendAlias) (time : ℕ) :
    (b.applyDispatch send time).scopes = b.scopes := by
  rw [Books.applyDispatch]
  split
  · rfl
  · split
    · rfl
    · rfl

theorem scopes_applyForget (send : SpendAlias) : (b.applyForget send).scopes = b.scopes := by
  rw [Books.applyForget]
  split
  · rfl
  · split
    · rfl
    · rfl

theorem reservations_applyDrop (ref : ScopeRef) :
    (b.applyDrop ref).reservations = b.reservations := by
  rw [Books.applyDrop]
  split
  · rfl
  · split
    · rfl
    · rfl

theorem figures_congr (h : b'.scopes = b.scopes) (ref : ScopeRef) :
    b'.figures ref = b.figures ref := by
  rw [figures, figures, h]

variable {ref : ScopeRef}

theorem figures_applyDrop {ref' : ScopeRef} (h : ref ≠ ref') :
    (b.applyDrop ref').figures ref = b.figures ref := by
  rw [Books.applyDrop]
  split
  · rfl
  · split
    · rfl
    · rw [figures, get?_delete_of_ne _ h, figures]

/-- **Along one record** that does not drop the scope, what it has settled and left unresolved grows
by what the record brings it. -/
theorem figures_apply (h : Sums b) (hstep : record.IsStep) (hw : record.WellFormed)
    (hkeep : ∀ time, record ≠ .drop ref time) :
    ((b.apply record).figures ref).settled = (b.figures ref).settled + b.settledNow ref record ∧
    ((b.apply record).figures ref).unresolved =
      (b.figures ref).unresolved + b.lostNow ref record := by
  cases record with
  | reserve send targets tokens time => exact figures_applyReserve send hw.1 tokens time ref
  | dispatch send time =>
    show ((b.applyDispatch send time).figures ref).settled = _ ∧
      ((b.applyDispatch send time).figures ref).unresolved = _
    rw [figures_congr (scopes_applyDispatch send time)]
    exact ⟨rfl, rfl⟩
  | settle send tokens time => exact figures_applyResolve h send (.settled tokens) time ref
  | lost send time =>
    obtain ⟨hsettled, hlost⟩ := figures_applyResolve h send .lost time ref
    refine ⟨hsettled.trans ?_, hlost⟩
    split
    · rfl
    · rfl
  | abandon send time =>
    obtain ⟨hsettled, hlost⟩ := figures_applyResolve h send .abandoned time ref
    refine ⟨hsettled.trans ?_, hlost⟩
    split
    · rfl
    · rfl
  | forget send time =>
    show ((b.applyForget send).figures ref).settled = _ ∧
      ((b.applyForget send).figures ref).unresolved = _
    rw [figures_congr (scopes_applyForget send)]
    exact ⟨rfl, rfl⟩
  | drop ref' time =>
    have hne : ref ≠ ref' := fun heq ↦ hkeep time (heq ▸ rfl)
    show ((b.applyDrop ref').figures ref).settled = _ ∧
      ((b.applyDrop ref').figures ref).unresolved = _
    rw [figures_applyDrop hne]
    exact ⟨rfl, rfl⟩
  | checkpoint time scopes sends => exact hstep.elim

/-- **What a scope has settled and left unresolved** is what the resolutions of its sends brought it,
as long as it is not dropped. -/
theorem figures_applyAll (h : Sums b) (hstep : ∀ record ∈ records, record.IsStep)
    (hw : ∀ record ∈ records, record.WellFormed) (hkeep : ∀ time, .drop ref time ∉ records) :
    ((b.applyAll records).figures ref).settled =
        (b.figures ref).settled + b.sumAlong (·.settledNow ref ·) records ∧
    ((b.applyAll records).figures ref).unresolved =
      (b.figures ref).unresolved + b.sumAlong (·.lostNow ref ·) records := by
  induction records generalizing b with
  | nil => exact ⟨rfl, rfl⟩
  | cons record records ih =>
    rw [forall_mem_cons] at hstep hw
    obtain ⟨hs, hl⟩ := figures_apply h hstep.1 hw.1 fun time heq ↦ hkeep time (heq ▸ mem_cons_self)
    obtain ⟨hs', hl'⟩ := ih (h.apply hw.1) hstep.2 hw.2 fun time hmem ↦
      hkeep time (mem_cons_of_mem _ hmem)
    rw [applyAll_cons, hs', hl', hs, hl, sumAlong, sumAlong]
    omega

/-! ## Live sends keep their scopes -/

/-- **The scopes of live sends are tracked**, and were seen when the send was booked. -/
structure Tracked (b : Books) : Prop where
  scopes : ∀ send r, b.reservations.get? send = some r → r.status.isLive = true →
    ∀ ref ∈ r.targets, ∃ state, b.scopes.get? ref = some state ∧ r.bookedAt ≤ state.lastSeenAt
  opened : ∀ send r, b.reservations.get? send = some r → r.status = .opened →
    r.resolvedAt = r.bookedAt

/-- A record as the ledger books it: a scope is dropped when no live send names it. -/
def Legal (b : Books) : JournalRecord → Prop
  | .reserve _ targets _ _ => GoodTargets targets
  | .drop ref _ => ∀ send r, b.reservations.get? send = some r → r.status.isLive = true →
      ref ∉ r.targets
  | .checkpoint _ _ _ => False
  | _ => True

/-- Every record of a list is legal in its turn. -/
def LegalAll : Books → List JournalRecord → Prop
  | _, [] => True
  | b, record :: records => b.Legal record ∧ LegalAll (b.apply record) records

theorem Legal.wellFormed (h : b.Legal record) : record.WellFormed := by
  cases record with
  | reserve send targets tokens time => exact h
  | checkpoint time scopes sends => exact h.elim
  | _ => trivial

theorem Legal.isStep (h : b.Legal record) : record.IsStep := by
  cases record with
  | checkpoint time scopes sends => exact h.elim
  | _ => trivial

theorem LegalAll.wellFormed (h : b.LegalAll records) : ∀ record ∈ records, record.WellFormed := by
  induction records generalizing b with
  | nil => exact nofun
  | cons record records ih => exact forall_mem_cons.mpr ⟨h.1.wellFormed, ih h.2⟩

theorem LegalAll.isStep (h : b.LegalAll records) : ∀ record ∈ records, record.IsStep := by
  induction records generalizing b with
  | nil => exact nofun
  | cons record records ih => exact forall_mem_cons.mpr ⟨h.1.isStep, ih h.2⟩

theorem LegalAll.append {records' : List JournalRecord} (h : b.LegalAll records)
    (h' : (b.applyAll records).LegalAll records') : b.LegalAll (records ++ records') := by
  induction records generalizing b with
  | nil => exact h'
  | cons record records ih => exact ⟨h.1, ih h.2 h'⟩

variable {time : ℕ}

theorem touchAll_seen {f : ScopeState → ScopeState}
    (hf : ∀ state, state.lastSeenAt ≤ (f state).lastSeenAt) (hnd : targets.Nodup)
    {scopes : OMap ScopeRef ScopeState}
    (h : ∃ state, scopes.get? ref = some state ∧ time ≤ state.lastSeenAt) :
    ∃ state, (touchAll f targets scopes).get? ref = some state ∧ time ≤ state.lastSeenAt := by
  obtain ⟨state, hstate, htime⟩ := h
  rw [get?_touchAll f hnd]
  split
  · exact ⟨_, rfl, by rw [hstate]; exact htime.trans (hf state)⟩
  · exact ⟨state, hstate, htime⟩

theorem Tracked.applyReserve (h : Tracked b) (hnd : targets.Nodup) (send : SpendAlias)
    (tokens time : ℕ) : Tracked (b.applyReserve send targets tokens time) := by
  rw [Books.applyReserve]
  split
  · exact h
  refine ⟨fun send' r hr hlive ref href ↦ ?_, fun send' r hr hopen ↦ ?_⟩
  · rw [get?_set] at hr
    split at hr
    · rw [← some_inj.mp hr] at href ⊢
      show ∃ state, (touchAll _ targets b.scopes).get? ref = some state ∧ time ≤ _
      rw [get?_touchAll _ hnd, if_pos href]
      exact ⟨_, rfl, Nat.le_max_right _ _⟩
    · exact touchAll_seen (fun state ↦ Nat.le_max_left _ _) hnd (h.scopes send' r hr hlive ref href)
  · rw [get?_set] at hr
    split at hr
    · rw [← some_inj.mp hr]
    · exact h.opened send' r hr hopen

theorem Tracked.applyResolve (h : Tracked b) (hs : Sums b) (send : SpendAlias) (outcome : Outcome)
    (time : ℕ) : Tracked (b.applyResolve send outcome time) := by
  rw [Books.applyResolve]
  split
  · exact h
  rename_i r hr
  split
  · exact h
  refine ⟨fun send' r' hr' hlive ref href ↦ ?_, fun send' r' hr' hopen ↦ ?_⟩
  · rw [get?_set] at hr'
    split at hr'
    · rw [← some_inj.mp hr'] at hlive
      exact absurd (outcome.status_isLive.symm.trans hlive) (by decide)
    · exact touchAll_seen (fun state ↦ Nat.le_max_left _ _) (hs.targets send r hr).1
        (h.scopes send' r' hr' hlive ref href)
  · rw [get?_set] at hr'
    split at hr'
    · rw [← some_inj.mp hr'] at hopen
      have hlive := outcome.status_isLive
      rw [show outcome.status = .opened from hopen] at hlive
      cases hlive
    · exact h.opened send' r' hr' hopen

theorem Tracked.applyDispatch (h : Tracked b) (send : SpendAlias) (time : ℕ) :
    Tracked (b.applyDispatch send time) := by
  rw [Books.applyDispatch]
  split
  · exact h
  rename_i r hr
  split
  · exact h
  rename_i hopen
  refine ⟨fun send' r' hr' hlive ref href ↦ ?_, fun send' r' hr' hopen' ↦ ?_⟩
  · rw [get?_set] at hr'
    split at hr'
    · rw [← some_inj.mp hr'] at href ⊢
      exact h.scopes send r hr (by rw [not_not.mp hopen]; rfl) ref href
    · exact h.scopes send' r' hr' hlive ref href
  · rw [get?_set] at hr'
    split at hr'
    · rw [← some_inj.mp hr'] at hopen'
      exact ReservationStatus.noConfusion hopen'
    · exact h.opened send' r' hr' hopen'

theorem Tracked.applyForget (h : Tracked b) (send : SpendAlias) : Tracked (b.applyForget send) := by
  have hkeep : ∀ send' r, (b.applyForget send).reservations.get? send' = some r →
      b.reservations.get? send' = some r := by
    intro send' r hr
    rw [Books.applyForget] at hr
    split at hr
    · exact hr
    split at hr
    · exact hr
    · rw [get?_delete] at hr
      split at hr
      · cases hr
      · exact hr
  refine ⟨fun send' r hr hlive ref href ↦ ?_, fun send' r hr ↦ h.opened send' r (hkeep send' r hr)⟩
  rw [scopes_applyForget]
  exact h.scopes send' r (hkeep send' r hr) hlive ref href

theorem Tracked.applyDrop (h : Tracked b) (hlegal : b.Legal (.drop ref time)) :
    Tracked (b.applyDrop ref) := by
  refine ⟨fun send r hr hlive ref' href ↦ ?_, fun send r hr ↦ ?_⟩
  · rw [reservations_applyDrop] at hr
    have hne : ref' ≠ ref := fun heq ↦ hlegal send r hr hlive (heq ▸ href)
    rw [Books.applyDrop]
    split
    · exact h.scopes send r hr hlive ref' href
    split
    · exact h.scopes send r hr hlive ref' href
    · rw [get?_delete_of_ne _ hne]
      exact h.scopes send r hr hlive ref' href
  · rw [reservations_applyDrop] at hr
    exact h.opened send r hr

theorem Tracked.apply (h : Tracked b) (hs : Sums b) (hl : b.Legal record) :
    Tracked (b.apply record) := by
  cases record with
  | reserve send targets tokens time => exact h.applyReserve hl.1 ..
  | dispatch send time => exact h.applyDispatch ..
  | settle send tokens time | lost send time | abandon send time => exact h.applyResolve hs ..
  | forget send time => exact h.applyForget ..
  | drop ref time => exact h.applyDrop hl
  | checkpoint time scopes sends => exact hl.elim

theorem Tracked.applyAll (h : Tracked b) (hs : Sums b) (hl : b.LegalAll records) :
    Tracked (b.applyAll records) := by
  induction records generalizing b with
  | nil => exact h
  | cons record records ih => exact ih (h.apply hs hl.1) (hs.apply hl.1.wellFormed) hl.2

/-! ## A checkpoint says everything -/

/-- The figures of a scope as a checkpoint gives them back, before its sends. -/
def unreserved (state : ScopeState) : ScopeState :=
  ⟨state.settled, 0, state.unresolved, state.lastSeenAt⟩

theorem restoreScopes_eq (b : Books) (entries : List (ScopeRef × ScopeState)) :
    (entries.map fun p ↦ ScopeEntry.mk p.1 p.2.settled p.2.unresolved p.2.lastSeenAt).foldl
        restoreScope b =
      ⟨b.scopes.setAll (entries.map fun p ↦ (p.1, unreserved p.2)), b.reservations⟩ := by
  induction entries generalizing b with
  | nil => rfl
  | cons p entries ih => rw [map_cons, foldl_cons, ih]; rfl

theorem restoreSend_eq (hnew : b.reservations.has send = false)
    (hopen : r.status = .opened → r.resolvedAt = r.bookedAt) :
    b.restoreSend ⟨send, r.status, r.targets, r.tokens, r.bookedAt, r.resolvedAt⟩ =
      { scopes := if r.status.isLive then touchAll (·.book r.tokens r.bookedAt) r.targets b.scopes
          else b.scopes
        reservations := b.reservations.set send r } := by
  obtain ⟨targets, tokens, status, bookedAt, resolvedAt⟩ := r
  have hset : ∀ v w : Reservation,
      (b.reservations.set send v).set send w = b.reservations.set send w := by
    intro v w
    refine ext_get? ?_ fun s ↦ ?_
    · rw [keys_set_of_has (by rw [has_set, decide_eq_true rfl, Bool.true_or])]
      exact keys_set_of_not_has hnew v w
    · rw [get?_set, get?_set, get?_set]
      split
      · rfl
      · rfl
  rw [restoreSend]
  dsimp only
  cases status with
  | opened =>
    have hlive : ReservationStatus.opened.isLive = true := rfl
    rw [hlive, if_pos rfl, if_neg (by decide), if_pos rfl, Books.applyReserve, hnew,
      if_neg Bool.false_ne_true, show resolvedAt = bookedAt from hopen rfl]
  | dispatched =>
    have hlive : ReservationStatus.dispatched.isLive = true := rfl
    rw [hlive, if_pos rfl, if_pos rfl, if_pos rfl, Books.applyReserve, hnew,
      if_neg Bool.false_ne_true, Books.applyDispatch, get?_set_self]
    dsimp only
    rw [if_neg (by decide), hset]
  | settled => rfl
  | lost => rfl
  | abandoned => rfl

/-- The sends of a checkpoint give every tracked scope its reserved tokens back, and nothing else. -/
theorem restoreSends_eq {entries : List (SpendAlias × Reservation)} {b : Books}
    (hnd : (entries.map Prod.fst).Nodup) (hnew : ∀ p ∈ entries, b.reservations.has p.1 = false)
    (hgood : ∀ p ∈ entries, p.2.targets.Nodup)
    (hopen : ∀ p ∈ entries, p.2.status = .opened → p.2.resolvedAt = p.2.bookedAt)
    (hscopes : ∀ p ∈ entries, p.2.status.isLive = true → ∀ ref ∈ p.2.targets,
      ∃ state, b.scopes.get? ref = some state ∧ p.2.bookedAt ≤ state.lastSeenAt) :
    let b' := (entries.map fun p ↦ SendEntry.mk p.1 p.2.status p.2.targets p.2.tokens p.2.bookedAt
      p.2.resolvedAt).foldl Books.restoreSend b
    b'.reservations = b.reservations.setAll entries ∧ b'.scopes.keys = b.scopes.keys ∧
      ∀ ref, b'.scopes.get? ref = (b.scopes.get? ref).map fun state ↦
        { state with reserved := state.reserved + (entries.map fun p ↦ p.2.weight ref).sum } := by
  induction entries generalizing b with
  | nil =>
    refine ⟨rfl, rfl, fun ref ↦ ?_⟩
    exact (Option.map_id' ..).symm
  | cons p entries ih =>
    obtain ⟨send, r⟩ := p
    rw [map_cons, nodup_cons] at hnd
    rw [forall_mem_cons] at hnew hgood hopen hscopes
    rw [map_cons, foldl_cons, restoreSend_eq hnew.1 hopen.1]
    -- the scopes after this send
    obtain ⟨scopes, hs⟩ : ∃ scopes, scopes = if r.status.isLive then
        touchAll (·.book r.tokens r.bookedAt) r.targets b.scopes else b.scopes := ⟨_, rfl⟩
    rw [← hs]
    have hget : ∀ ref, scopes.get? ref = (b.scopes.get? ref).map fun state ↦
        { state with reserved := state.reserved + r.weight ref } := by
      intro ref
      cases hlive : r.status.isLive with
      | false =>
        rw [hs, hlive, if_neg Bool.false_ne_true, Reservation.weight_resolved hlive]
        exact (Option.map_id' ..).symm
      | true =>
        rw [hs, hlive, if_pos rfl, get?_touchAll _ hgood.1, Reservation.weight_live hlive]
        split
        · rename_i href
          obtain ⟨state, hstate, hseen⟩ := hscopes.1 hlive ref href
          rw [hstate, getD_some, map_some, ScopeState.book, Nat.max_eq_left hseen]
        · exact (Option.map_id' ..).symm
    have hkeys : scopes.keys = b.scopes.keys := by
      cases hlive : r.status.isLive with
      | false => rw [hs, hlive, if_neg Bool.false_ne_true]
      | true =>
        rw [hs, hlive, if_pos rfl]
        refine keys_touchAll _ fun ref href ↦ ?_
        obtain ⟨state, hstate, -⟩ := hscopes.1 hlive ref href
        exact has_of_get? hstate
    obtain ⟨hr', hk', hg'⟩ := ih (b := ⟨scopes, b.reservations.set send r⟩) hnd.2 (fun p hp ↦ by
        have hne : p.1 ≠ send := fun heq ↦ hnd.1 (List.mem_map.mpr ⟨p, hp, heq⟩)
        rw [has_set, decide_eq_false hne, Bool.false_or]
        exact hnew.2 p hp) hgood.2 hopen.2 fun p hp hlive ref href ↦ by
        obtain ⟨state, hstate, hseen⟩ := hscopes.2 p hp hlive ref href
        refine ⟨{ state with reserved := state.reserved + r.weight ref }, ?_, hseen⟩
        rw [hget, hstate]
        rfl
    refine ⟨hr', hk'.trans hkeys, fun ref ↦ (hg' ref).trans ?_⟩
    rw [hget, Option.map_map, map_cons, sum_cons]
    refine Option.map_congr fun state _ ↦ ?_
    simp only [Function.comp_apply, Nat.add_assoc]

/-- **A checkpoint gives the books back** that it was taken of. -/
theorem apply_checkpointRecord (hs : Sums b) (ht : Tracked b) (time : ℕ) (b' : Books) :
    b'.apply (b.checkpointRecord time) = b := by
  have hzero : (b.scopes.entries.map fun p ↦ .mk p.1 p.2.settled p.2.unresolved
      p.2.lastSeenAt).foldl restoreScope empty = ⟨b.scopes.mapValues unreserved, .empty⟩ := by
    rw [restoreScopes_eq]
    exact congrArg (Books.mk · .empty) (rebuild (b.scopes.mapValues unreserved))
  have hget : ∀ p ∈ b.reservations.entries, b.reservations.get? p.1 = some p.2 :=
    fun p hp ↦ mem_entries.mp hp
  have hseen : ∀ p ∈ b.reservations.entries, p.2.status.isLive = true → ∀ ref ∈ p.2.targets,
      ∃ state, (b.scopes.mapValues unreserved).get? ref = some state ∧
        p.2.bookedAt ≤ state.lastSeenAt := by
    intro p hp hlive ref href
    obtain ⟨state, hstate, hseen⟩ := ht.scopes p.1 p.2 (hget p hp) hlive ref href
    refine ⟨unreserved state, ?_, hseen⟩
    rw [get?_mapValues, hstate]
    rfl
  obtain ⟨hres, hkeys, hfigures⟩ := restoreSends_eq (b := ⟨b.scopes.mapValues unreserved, .empty⟩)
    b.reservations.nodup (fun _ _ ↦ rfl) (fun p hp ↦ (hs.targets p.1 p.2 (hget p hp)).1)
    (fun p hp ↦ ht.opened p.1 p.2 (hget p hp)) hseen
  show applyCheckpoint _ _ = b
  rw [applyCheckpoint, hzero]
  refine Books.ext (ext_get? (hkeys.trans (keys_mapValues ..)) fun ref ↦ ?_)
    (hres.trans (rebuild _))
  rw [hfigures, get?_mapValues, Option.map_map]
  cases hstate : b.scopes.get? ref with
  | none => rfl
  | some state =>
    have hsum := hs.reserved ref
    rw [figures, hstate, getD_some] at hsum
    show some (.mk _ (0 + (b.reservations.entries.map fun p ↦ p.2.weight ref).sum) _ _) = some state
    rw [Nat.zero_add, show (b.reservations.entries.map fun p ↦ p.2.weight ref).sum = _ from
      hsum.symm]
    rfl

end Books

end Spend
