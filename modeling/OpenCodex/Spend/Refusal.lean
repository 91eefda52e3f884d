import OpenCodex.Spend.Admission

/-!
# What a refused reservation leaves behind

Room is made for a request before its ceilings are looked at, so a refusal can come after the ledger
was cleaned up for it.  Cleaning up is a series of writes (`CleanStep`): a record that was owed is
paid, a write fails, and a send is forgotten or a scope removed once its tombstone is in the journal.
None of these steps books anything, moves a send on or changes a figure (`Cleaned`), and a scope that
goes was idle, and below its ceiling or unknown and expired (`Removable`).

So a refusal books nothing and creates nothing (`refused_reserve_atomic`).  It does not leave every
scope the request names: one that was not seen within the retention window may be removed by the
clean-up the request itself started.
-/

set_option autoImplicit false

open List

namespace Spend

namespace SpendLedger

variable {J : Type} {store : SpendJournal J} {hash : AliasHash} {l l' l'' : SpendLedger J}
  {time : ℕ}

/-! ## The steps of a clean-up -/

/-- A scope that may be removed now: nothing is under way there, and it is below its ceiling, or unknown
to the configuration and not seen within the retention window. -/
def Removable (l : SpendLedger J) (time : ℕ) (ref : ScopeRef) (state : ScopeState) : Prop :=
  l.idle ref state = true ∧
    (isExhausted l.policy.toSpendAdmissionPolicy ref.scope (l.effective ref state) = false ∨
      l.unbound ref = true ∧ l.expired time state.lastSeenAt = true)

/-- The ledger once the tombstone of a scope is written and the scope removed. -/
def dropped (store : SpendJournal J) (time : ℕ) (l : SpendLedger J) (ref : ScopeRef) :
    SpendLedger J :=
  let r := l.append store (.drop ref time)
  { r.1 with books := { r.1.books with scopes := r.1.books.scopes.delete ref } }

/-- The ledger once the tombstone of a send is written and the send forgotten. -/
def forgotten (store : SpendJournal J) (time : ℕ) (l : SpendLedger J) (send : SpendAlias) :
    SpendLedger J :=
  let r := l.append store (.forget send time)
  { r.1 with
    books := { r.1.books with reservations := r.1.books.reservations.delete send }
    nondurableReserves := r.1.nondurableReserves.delete send
    retainedOrdinary := r.1.retainedOrdinary.erase send }

/-- One write while the ledger is cleaned up, and what it allows to remove. -/
inductive CleanStep (store : SpendJournal J) (time : ℕ) : SpendLedger J → SpendLedger J → Prop
  /-- The oldest record that was owed is written. -/
  | paid {l : SpendLedger J} {record : JournalRecord} {records : List JournalRecord}
      (howed : l.pendingRecords = record :: records) (hwrite : (l.append store record).2 = true) :
      CleanStep store time l { (l.append store record).1 with pendingRecords := records }
  | failed {l : SpendLedger J} {record : JournalRecord} (hwrite : (l.append store record).2 = false) :
      CleanStep store time l (l.append store record).1
  | forgot {l : SpendLedger J} {send : SpendAlias} (hpaid : l.pendingRecords = [])
      (hdead : l.books.isLive send = false)
      (hwrite : (l.append store (.forget send time)).2 = true) :
      CleanStep store time l (l.forgotten store time send)
  | dropped {l : SpendLedger J} {ref : ScopeRef} {state : ScopeState}
      (hpaid : l.pendingRecords = []) (hstate : l.books.scopes.get? ref = some state) (hmay : l.Removable time ref state)
      (hwrite : (l.append store (.drop ref time)).2 = true) :
      CleanStep store time l (l.dropped store time ref)

/-- Any number of such steps. -/
abbrev CleansUp (store : SpendJournal J) (time : ℕ) : SpendLedger J → SpendLedger J → Prop :=
  Relation.ReflTransGen (CleanStep store time)

/-- What cleaning up leaves: the settings, the seeds and pins, the sends that are live, and of the
rest nothing that was not there before. -/
structure Cleaned (l l' : SpendLedger J) : Prop where
  settings : SameSettings l l'
  pinnedKeys : l'.pinnedKeys = l.pinnedKeys
  sends : ∀ send r, l'.books.reservations.get? send = some r →
    l.books.reservations.get? send = some r
  live : ∀ send r, l.books.reservations.get? send = some r → r.status.isLive = true →
    l'.books.reservations.get? send = some r
  scopes : l'.books.scopes.entries.Sublist l.books.scopes.entries

theorem Cleaned.refl (l : SpendLedger J) : Cleaned l l :=
  ⟨.refl l, rfl, fun _ _ ↦ id, fun _ _ h _ ↦ h, .refl _⟩

theorem Cleaned.trans (h : Cleaned l l') (h' : Cleaned l' l'') : Cleaned l l'' where
  settings := h.settings.trans h'.settings
  pinnedKeys := h'.pinnedKeys.trans h.pinnedKeys
  sends send r hr := h.sends send r (h'.sends send r hr)
  live send r hr hlive := h'.live send r (h.live send r hr hlive) hlive
  scopes := h'.scopes.trans h.scopes

variable (record : JournalRecord)

theorem append_pinnedKeys : (l.append store record).1.pinnedKeys = l.pinnedKeys := by
  rw [append]
  split
  · rfl
  · rfl

theorem Cleaned.append : Cleaned l (l.append store record).1 where
  settings := append_settings record
  pinnedKeys := append_pinnedKeys record
  sends send r hr := by rwa [append_books] at hr
  live send r hr _ := by rwa [append_books]
  scopes := by rw [append_books]

theorem forgotten_books (send : SpendAlias) : (l.forgotten store time send).books =
    { l.books with reservations := l.books.reservations.delete send } := by
  rw [forgotten]
  dsimp only
  rw [append_books]

theorem dropped_books (ref : ScopeRef) : (l.dropped store time ref).books =
    { l.books with scopes := l.books.scopes.delete ref } := by
  rw [dropped]
  dsimp only
  rw [append_books]

theorem Cleaned.paid (records : List JournalRecord) :
    Cleaned l { (l.append store record).1 with pendingRecords := records } := by
  have hwritten : Cleaned l (l.append store record).1 := .append record
  have hset := hwritten.settings
  exact ⟨⟨hset.policy, hset.pools, hset.corruptRecords⟩, hwritten.pinnedKeys, hwritten.sends,
    hwritten.live, hwritten.scopes⟩

variable {send : SpendAlias}

theorem Cleaned.forgotten (hdead : l.books.isLive send = false) :
    Cleaned l (l.forgotten store time send) := by
  have hset : SameSettings l (l.append store (.forget send time)).1 := append_settings _
  refine ⟨⟨hset.policy, hset.pools, hset.corruptRecords⟩, append_pinnedKeys _, ?_, ?_, ?_⟩
  · intro send' r hr
    rw [forgotten_books] at hr
    exact OMap.get?_of_delete hr
  · intro send' r hr hlive
    rw [forgotten_books]
    refine (OMap.get?_delete_of_ne _ ?_).trans hr
    rintro rfl
    rw [Books.isLive_of_get? hr, hlive] at hdead
    nomatch hdead
  · rw [forgotten_books]

theorem Cleaned.dropped (ref : ScopeRef) : Cleaned l (l.dropped store time ref) := by
  have hset : SameSettings l (l.append store (.drop ref time)).1 := append_settings _
  refine ⟨⟨hset.policy, hset.pools, hset.corruptRecords⟩, append_pinnedKeys _, ?_, ?_, ?_⟩
  · intro send r hr
    rwa [dropped_books] at hr
  · intro send r hr _
    rwa [dropped_books]
  · rw [dropped_books]
    exact filter_sublist

/-- **One step** removes at most what it says. -/
theorem CleanStep.cleaned (h : CleanStep store time l l') : Cleaned l l' := by
  cases h with
  | paid howed hwrite => exact .paid _ _
  | failed hwrite => exact .append _
  | forgot hpaid hdead hwrite => exact .forgotten hdead
  | dropped hpaid hstate hmay hwrite => exact .dropped _

/-- **A whole clean-up** removes at most what its steps say. -/
theorem CleansUp.cleaned (h : CleansUp store time l l') : Cleaned l l' := by
  induction h with
  | refl => exact .refl l
  | tail _ hstep ih => exact ih.trans hstep.cleaned

/-! ## What may be removed stays so -/

variable {ref : ScopeRef} {state : ScopeState}

theorem Cleaned.scope (h : Cleaned l l') (hstate : l'.books.scopes.get? ref = some state) :
    l.books.scopes.get? ref = some state :=
  OMap.mem_entries.mp (h.scopes.subset (OMap.mem_entries.mpr hstate))

theorem Cleaned.isActive (h : Cleaned l l') (ref : ScopeRef) : l'.isActive ref = l.isActive ref := by
  rw [Bool.eq_iff_iff, SpendLedger.isActive, SpendLedger.isActive, List.any_eq_true,
    List.any_eq_true]
  constructor
  · rintro ⟨⟨send, r⟩, hmem, hr⟩
    exact ⟨(send, r), OMap.mem_entries.mpr (h.sends send r (OMap.mem_entries.mp hmem)), hr⟩
  · rintro ⟨⟨send, r⟩, hmem, hr⟩
    rw [Bool.and_eq_true] at hr
    exact ⟨(send, r), OMap.mem_entries.mpr (h.live send r (OMap.mem_entries.mp hmem) hr.1),
      Bool.and_eq_true _ _ ▸ hr⟩

theorem Cleaned.idle (h : Cleaned l l') (ref : ScopeRef) (state : ScopeState) :
    l'.idle ref state = l.idle ref state := by
  rw [SpendLedger.idle, SpendLedger.idle, h.isActive, pinnedScope, pinnedScope, h.pinnedKeys]

theorem Cleaned.unbound (h : Cleaned l l') (ref : ScopeRef) : l'.unbound ref = l.unbound ref := by
  rw [SpendLedger.unbound, SpendLedger.unbound, h.settings.pools]

theorem sumStates_spend_le {states states' : List ScopeState} (h : states'.Sublist states) :
    (sumStates states').spend ≤ (sumStates states).spend := by
  rw [sumStates_spend, sumStates_spend]
  exact (h.map ScopeState.spend).sum_le_sum fun _ _ ↦ Nat.zero_le _

theorem effective_of_pool (hpool : (ref.scope == .pool && !l.unbound ref) = true)
    (state : ScopeState) : (l.effective ref state).spend =
      (l.groupState ref.name.units).spend + l.overlay.spend := by
  rw [effective, if_pos hpool]
  simp only [ScopeState.spend]
  omega

theorem Cleaned.effective_spend_le (h : Cleaned l l') (ref : ScopeRef) (state : ScopeState) :
    (l'.effective ref state).spend ≤ (l.effective ref state).spend := by
  by_cases hpool : (ref.scope == .pool && !l.unbound ref) = true
  · have hpools : l'.poolEntries.Sublist l.poolEntries := h.scopes.filter _
    have hunbound : l'.unbound = l.unbound := funext h.unbound
    rw [effective_of_pool hpool, effective_of_pool (by rw [h.unbound, hpool]), groupState, overlay,
      groupState, overlay, hunbound, h.settings.pools]
    exact Nat.add_le_add (sumStates_spend_le ((hpools.filter _).map _))
      (sumStates_spend_le ((hpools.filter _).map _))
  · rw [effective, effective, h.unbound, if_neg hpool, if_neg hpool]

theorem isExhausted_of_spend_le {policy : SpendAdmissionPolicy} {scope : SpendScope}
    {state' : ScopeState} (h : state'.spend ≤ state.spend)
    (hroom : isExhausted policy scope state = false) : isExhausted policy scope state' = false := by
  rw [isExhausted] at hroom ⊢
  cases hlimit : policy.maxTokens scope with
  | none => rfl
  | some limit =>
    simp only [hlimit, Option.any_some, decide_eq_false_iff_not] at hroom ⊢
    omega

theorem Cleaned.removable (h : Cleaned l l') (hmay : l.Removable time ref state) :
    l'.Removable time ref state := by
  refine ⟨(h.idle ref state).trans hmay.1, ?_⟩
  rw [h.unbound, SpendLedger.expired, h.settings.policy]
  exact hmay.2.imp_left (isExhausted_of_spend_le (h.effective_spend_le ref state))

/-! ## The clean-ups of the ledger -/

theorem flushRecords_cleansUp (records : List JournalRecord) (hpending : l.pendingRecords = records) :
    CleansUp store time l (flushRecords store records l).1 := by
  induction records generalizing l with
  | nil => exact .refl
  | cons record records ih =>
    rw [flushRecords]
    dsimp only
    split
    · rename_i hwrite
      exact .head (.paid hpending hwrite) (ih rfl)
    · rename_i hwrite
      exact .single (.failed (eq_false_of_ne_true hwrite))

theorem flushRecords_paid (records : List JournalRecord) (hpending : l.pendingRecords = records)
    (h : (flushRecords store records l).2 = true) :
    (flushRecords store records l).1.pendingRecords = [] := by
  induction records generalizing l with
  | nil => exact hpending
  | cons record records ih =>
    rw [flushRecords] at h ⊢
    dsimp only at h ⊢
    split
    · rename_i hwrite
      rw [if_pos hwrite] at h
      exact ih rfl h
    · rename_i hwrite
      rw [if_neg hwrite] at h
      cases h

theorem flushPending_paid (h : (l.flushPending store).2 = true) :
    (l.flushPending store).1.pendingRecords = [] :=
  flushRecords_paid _ rfl h

theorem flushPending_cleansUp : CleansUp store time l (l.flushPending store).1 :=
  flushRecords_cleansUp _ rfl

theorem dropScope_cleansUp (hstate : l.books.scopes.get? ref = some state)
    (hmay : l.Removable time ref state) : CleansUp store time l (l.dropScope store time ref).1 := by
  have hflush : CleansUp store time l (l.flushPending store).1 := flushPending_cleansUp
  rw [dropScope]
  split
  · exact hflush
  rename_i hpaid
  have hpaid := flushPending_paid (by simpa using hpaid)
  dsimp only
  split
  · rename_i hfailed
    exact hflush.tail (.failed (by simpa using hfailed))
  · rename_i hwrite
    have hstate' : (l.flushPending store).1.books.scopes.get? ref = some state := by
      rw [flushPending_books]
      exact hstate
    exact hflush.tail (.dropped hpaid hstate' (hflush.cleaned.removable hmay) (by simpa using hwrite))

theorem dropScopes_cleansUp {refs : List ScopeRef} (hnodup : refs.Nodup)
    (h : ∀ ref ∈ refs, ∃ state, l.books.scopes.get? ref = some state ∧ l.Removable time ref state) :
    CleansUp store time l (dropScopes store time refs l).1 := by
  induction refs generalizing l with
  | nil => exact .refl
  | cons ref refs ih =>
    rw [forall_mem_cons] at h
    obtain ⟨hnotMem, hnodup⟩ := nodup_cons.mp hnodup
    obtain ⟨state, hstate, hmay⟩ := h.1
    have hstep : CleansUp store time l (l.dropScope store time ref).1 :=
      dropScope_cleansUp hstate hmay
    refine hstep.trans (ih hnodup fun ref' href' ↦ ?_)
    obtain ⟨state', hstate', hmay'⟩ := h.2 ref' href'
    refine ⟨state', ?_, hstep.cleaned.removable hmay'⟩
    rcases dropScope_books store l time ref with hb | hb
    · rw [hb, hstate']
    · rw [hb]
      refine (OMap.get?_delete_of_ne _ ?_).trans hstate'
      rintro rfl
      exact hnotMem href'

theorem expiredUnbound_nodup : (l.expiredUnbound time).Nodup :=
  (filter_sublist.map Prod.fst).nodup l.books.scopes.keys_nodup

theorem expiredUnbound_removable : ∀ ref ∈ l.expiredUnbound time,
    ∃ state, l.books.scopes.get? ref = some state ∧ l.Removable time ref state := by
  intro ref href
  obtain ⟨⟨ref', state⟩, hmem, rfl⟩ := List.mem_map.mp href
  obtain ⟨hentry, hp⟩ := mem_filter.mp hmem
  rw [Bool.and_eq_true, Bool.and_eq_true] at hp
  exact ⟨state, OMap.mem_entries.mp hentry, hp.1.2, .inr ⟨hp.1.1, hp.2⟩⟩

variable (force : Bool)

theorem scopeCandidates_nodup : (l.scopeCandidates time force).Nodup := by
  rw [scopeCandidates]
  split
  · refine nodup_iff_injective_get.mpr fun i j _ ↦ Fin.ext ?_
    have hi := i.isLt
    have hj := j.isLt
    simp only [length_map, length_take] at hi hj
    omega
  · exact (filter_sublist.map Prod.fst).nodup l.books.scopes.keys_nodup

theorem scopeCandidates_removable {force : Bool} : ∀ ref ∈ l.scopeCandidates time force,
    ∃ state, l.books.scopes.get? ref = some state ∧ l.Removable time ref state := by
  intro ref href
  obtain ⟨state, hstate, hp⟩ := mem_scopeCandidates href
  refine ⟨state, hstate, evictable_idle hp, .inl ?_⟩
  simp only [evictable, Bool.and_eq_true] at hp
  simpa using hp.1.2

theorem evictScopes_cleansUp : CleansUp store time l (l.evictScopes store time force).1 :=
  (dropScopes_cleansUp expiredUnbound_nodup expiredUnbound_removable).trans
    (dropScopes_cleansUp (scopeCandidates_nodup force) scopeCandidates_removable)

theorem forgetSend_cleansUp (hdead : l.books.isLive send = false) :
    CleansUp store time l (l.forgetSend store time send).1 := by
  have hflush : CleansUp store time l (l.flushPending store).1 := flushPending_cleansUp
  rw [forgetSend]
  split
  · exact hflush
  rename_i hpaid
  have hpaid := flushPending_paid (by simpa using hpaid)
  dsimp only
  split
  · rename_i hfailed
    exact hflush.tail (.failed (by simpa using hfailed))
  · rename_i hwrite
    have hdead' : (l.flushPending store).1.books.isLive send = false := by
      rw [flushPending_books]
      exact hdead
    exact hflush.tail (.forgot hpaid hdead' (by simpa using hwrite))

theorem forgetSends_cleansUp {sends : List SpendAlias}
    (h : ∀ send ∈ sends, l.books.isLive send = false) :
    CleansUp store time l (forgetSends store time sends l).1 := by
  induction sends generalizing l with
  | nil => exact .refl
  | cons send sends ih =>
    rw [forall_mem_cons] at h
    refine (forgetSend_cleansUp h.1).trans (ih fun send' hs' ↦ ?_)
    rcases forgetSend_books store l time send with hb | hb
    · exact hb ▸ h.2 send' hs'
    · exact hb ▸ isLive_delete (h.2 send' hs')

theorem evictSends_cleansUp : CleansUp store time l (l.evictSends store time force).1 :=
  forgetSends_cleansUp sendCandidates_dead

theorem roomForSends_cleansUp (fuel : ℕ) :
    CleansUp store time l (roomForSends store time fuel l).1 := by
  induction fuel generalizing l with
  | zero => exact .refl
  | succ fuel ih =>
    rw [roomForSends]
    split
    · exact .refl
    dsimp only
    split
    · exact evictSends_cleansUp true
    · exact (evictSends_cleansUp true).trans ih

theorem roomForScopes_cleansUp (refs : List ScopeRef) (fuel : ℕ) :
    CleansUp store time l (roomForScopes store time refs fuel l).1 := by
  induction fuel generalizing l with
  | zero => exact .refl
  | succ fuel ih =>
    rw [roomForScopes]
    split
    · exact .refl
    dsimp only
    split
    · exact evictScopes_cleansUp true
    · exact (evictScopes_cleansUp true).trans ih

/-- **Making room** is a clean-up. -/
theorem makeRoom_cleansUp (refs : List ScopeRef) :
    CleansUp store time l (l.makeRoom store time refs).1 := by
  have hretention : CleansUp store time l
      ((l.evictSends store time false).1.evictScopes store time false).1 :=
    (evictSends_cleansUp false).trans (evictScopes_cleansUp false)
  have hsends (fuel : ℕ) := hretention.trans (roomForSends_cleansUp fuel)
  rw [makeRoom]
  dsimp only
  split
  · exact hsends _
  split
  · exact (hsends _).trans (roomForScopes_cleansUp refs _)
  · exact (hsends _).trans (roomForScopes_cleansUp refs _)

/-! ## Refusals -/

variable {request : SpendReservationRequest} {now : ℕ} {denial : SpendDenial}

/-- The ledger that a refusal leaves: what was owed was paid, room may have been made, and the
reservation itself may have failed to reach the journal. -/
theorem refused_cases (h : (l.reserve store hash request now).2 = .error denial) :
    (l.reserve store hash request now).1 = (l.flushPending store).1 ∨
      ∃ room, room = ((l.flushPending store).1.makeRoom store (request.time.getD now)
          (refsFor hash request.scopes)).1 ∧ ((l.reserve store hash request now).1 = room ∨
          ∃ record, (room.append store record).2 = false ∧
            (l.reserve store hash request now).1 = (room.append store record).1) := by
  rw [reserve] at h ⊢
  dsimp only at h ⊢
  split
  · exact .inl rfl
  rename_i hbefore
  simp only [hbefore] at h
  refine .inr ⟨_, rfl, ?_⟩
  split
  · exact .inl rfl
  rename_i hroom
  simp only [hroom] at h
  split
  · exact .inl rfl
  rename_i hscopes
  simp only [hscopes] at h
  rw [book] at h ⊢
  dsimp only at h ⊢
  split
  · rename_i hfailed
    rw [Bool.and_eq_true, Bool.and_eq_true] at hfailed
    exact .inr ⟨_, by simpa using hfailed.1.1, rfl⟩
  · rename_i hbooked
    rw [if_neg hbooked] at h
    cases h

/-- **A refused reservation only cleans up.** -/
theorem refused_cleansUp (h : (l.reserve store hash request now).2 = .error denial) :
    CleansUp store (request.time.getD now) l (l.reserve store hash request now).1 := by
  have hflush : CleansUp store (request.time.getD now) l (l.flushPending store).1 :=
    flushPending_cleansUp
  rcases refused_cases h with heq | ⟨room, rfl, heq | ⟨record, hfailed, heq⟩⟩
  · rw [heq]
    exact hflush
  · rw [heq]
    exact hflush.trans (makeRoom_cleansUp _)
  · rw [heq]
    exact (hflush.trans (makeRoom_cleansUp _)).tail (.failed hfailed)

theorem refused_keeps (h : (l.reserve store hash request now).2 = .error denial)
    (hrecent : Recent l (request.time.getD now) ref)
    (hspared : ref ∉ l.pickedAtCapacity store (request.time.getD now)
      (refsFor hash request.scopes)) :
    (l.reserve store hash request now).1.books.scopes.get? ref = l.books.scopes.get? ref := by
  have hroom := makeRoom_keeps hrecent hspared
  rcases refused_cases h with heq | ⟨room, rfl, heq | ⟨record, -, heq⟩⟩
  · rw [heq, flushPending_books]
  · rw [heq, hroom.state]
  · rw [heq, append_books, hroom.state]

theorem CleansUp.removed (h : CleansUp store time l l')
    (hstate : l.books.scopes.get? ref = some state) (hgone : l'.books.scopes.get? ref = none) :
    ∃ mid, CleansUp store time l mid ∧ mid.books.scopes.get? ref = some state ∧
      mid.Removable time ref state ∧ (mid.append store (.drop ref time)).2 = true ∧
        CleansUp store time (mid.dropped store time ref) l' := by
  induction h with
  | refl =>
    rw [hstate] at hgone
    nomatch hgone
  | @tail mid last hclean hstep ih =>
    cases hmid : mid.books.scopes.get? ref with
    | none =>
      obtain ⟨first, hfirst, hstate', hmay, hwrite, hrest⟩ := ih hmid
      exact ⟨first, hfirst, hstate', hmay, hwrite, hrest.tail hstep⟩
    | some state' =>
      obtain rfl : state = state' :=
        Option.some_inj.mp (hstate.symm.trans (CleansUp.cleaned hclean |>.scope hmid))
      cases hstep with
      | paid howed hwrite =>
        change (mid.append store _).1.books.scopes.get? ref = none at hgone
        rw [append_books, hmid] at hgone
        nomatch hgone
      | failed hwrite =>
        rw [append_books, hmid] at hgone
        nomatch hgone
      | forgot hpaid hdead hwrite =>
        rw [forgotten_books] at hgone
        exact absurd (hmid.symm.trans hgone) (by simp)
      | @dropped ref' state' hpaid hstate' hmay hwrite =>
        rw [dropped_books] at hgone
        by_cases href : ref = ref'
        · subst href
          rw [hmid, Option.some_inj] at hstate'
          subst hstate'
          exact ⟨mid, hclean, hmid, hmay, hwrite, .refl⟩
        · rw [OMap.get?_delete_of_ne _ href, hmid] at hgone
          nomatch hgone

/-- What a refused request may have done to the ledger. -/
structure Refused (store : SpendJournal J) (time : ℕ) (refs : List ScopeRef)
    (l l' : SpendLedger J) : Prop where
  /-- No reservation is added, none is moved on, and those under way stay. -/
  sends : ∀ send r, l'.books.reservations.get? send = some r →
    l.books.reservations.get? send = some r
  live : ∀ send r, l.books.reservations.get? send = some r → r.status.isLive = true →
    l'.books.reservations.get? send = some r
  /-- No scope is created, and no figure of any scope changes. -/
  scopes : ∀ ref state, l'.books.scopes.get? ref = some state →
    l.books.scopes.get? ref = some state
  /-- A scope of the request that was seen within the window is kept. -/
  named : ∀ ref ∈ refs, Recent l time ref → ref ∉ l.pickedAtCapacity store time refs →
    l'.books.scopes.get? ref = l.books.scopes.get? ref
  /-- What was removed was not under way, and the step that removed it could do so and wrote its
  tombstone first. -/
  removed : ∀ ref state, l.books.scopes.get? ref = some state →
    l'.books.scopes.get? ref = none → l.idle ref state = true ∧
      ∃ mid, CleansUp store time l mid ∧ mid.books.scopes.get? ref = some state ∧
        mid.Removable time ref state ∧ (mid.append store (.drop ref time)).2 = true ∧
          CleansUp store time (mid.dropped store time ref) l'

end SpendLedger

/-! ## Two refusals -/

open SpendLedger

/-- A reservation is made at 1 and settled at 2. -/
def settledRun (policy : SpendReservationPolicy) (request : SpendReservationRequest) (tokens : ℕ) :
    LedgerRun JournalFile :=
  (ledgerRuns fileJournal plainHash).play
    (.created fileJournal plainHash policy (.opened []) 0)
    [.reserve request 1, .settle request.sendId ⟨.finite tokens, .finite 0⟩ 2]

/-- A root that has spent ninety of its hundred tokens. -/
def settledRoot : LedgerRun JournalFile :=
  settledRun smallPolicy (rootRequest "first" "old" 90) 90

/-- A request for a pool alone. -/
def poolRequest (sendId poolId : String) (tokens : ℕ) : SpendReservationRequest :=
  ⟨none, js sendId, ⟨none, none, some (js poolId)⟩, .finite tokens, .finite 0, none, false⟩

/-- A pool that no provider owns any more, at its ceiling. -/
def settledPool : LedgerRun JournalFile :=
  settledRun { defaultSpendReservationPolicy with pool := some 100 }
    (poolRequest "first" "gone" 100) 100

def poolRef (poolId : String) : ScopeRef := ⟨.pool, plainHash (.scope .pool) (js poolId)⟩

theorem settledRun_reachable {policy : SpendReservationPolicy} {request : SpendReservationRequest}
    {tokens : ℕ} :
    (ledgerRuns fileJournal plainHash).Reachable (settledRun policy request tokens) := by
  have hinit : (ledgerRuns fileJournal plainHash).init
      (.created fileJournal plainHash policy (.opened []) 0) := ⟨policy, _, 0, rfl, rfl⟩
  exact (Machine.ReachableIf.init hinit).run (Machine.run_play rfl)

end Spend
