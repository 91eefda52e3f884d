import OpenCodex.Spend.Runs
import OpenCodex.Spend.JournalFile

/-!
# What an admission is judged by

A request is admitted when each of its scopes has room under its ceiling, and the scopes are looked
at after room was made for the request.  The retention passes remove nothing that was seen within
the window (`retention_keeps`), and no pass changes the figures of a scope it leaves.  But the pass
that runs when the table is full takes the oldest scope that is idle and below its ceiling, and
nothing keeps it from taking one the request itself names: then the request is judged by what is
left, which is nothing.  Where no such pass picks a scope of the request, an admitted request fits
under its ceilings together with all that was recorded there before (`admitted_within_ceiling`).
-/

set_option autoImplicit false

open List Option

namespace Spend

namespace SpendLedger

variable {J : Type} {store : SpendJournal J} {hash : AliasHash} {l l' l'' : SpendLedger J}

/-! ## What cleaning up leaves alone -/

theorem dropScope_settings (time : ℕ) (ref : ScopeRef) :
    SameSettings l (l.dropScope store time ref).1 := by
  have hflush : SameSettings l (l.flushPending store).1 := flushPending_settings
  rw [dropScope]
  split
  · exact hflush
  have hwrite : SameSettings l ((l.flushPending store).1.append store (.drop ref time)).1 :=
    hflush.trans (append_settings _)
  dsimp only
  split
  · exact hwrite
  · exact ⟨hwrite.policy, hwrite.pools, hwrite.corruptRecords⟩

theorem dropScopes_settings (time : ℕ) (refs : List ScopeRef) :
    SameSettings l (dropScopes store time refs l).1 := by
  induction refs generalizing l with
  | nil => exact .refl l
  | cons ref refs ih => exact (dropScope_settings time ref).trans ih

theorem forgetSend_settings (time : ℕ) (send : SpendAlias) :
    SameSettings l (l.forgetSend store time send).1 := by
  have hflush : SameSettings l (l.flushPending store).1 := flushPending_settings
  rw [forgetSend]
  split
  · exact hflush
  have hwrite : SameSettings l ((l.flushPending store).1.append store (.forget send time)).1 :=
    hflush.trans (append_settings _)
  dsimp only
  split
  · exact hwrite
  · exact ⟨hwrite.policy, hwrite.pools, hwrite.corruptRecords⟩

theorem forgetSends_settings (time : ℕ) (sends : List SpendAlias) :
    SameSettings l (forgetSends store time sends l).1 := by
  induction sends generalizing l with
  | nil => exact .refl l
  | cons send sends ih => exact (forgetSend_settings time send).trans ih

/-- The settings stay, and so does what is recorded of this scope. -/
structure KeepsScope (ref : ScopeRef) (l l' : SpendLedger J) : Prop where
  settings : SameSettings l l'
  state : l'.books.scopes.get? ref = l.books.scopes.get? ref

theorem KeepsScope.refl (ref : ScopeRef) (l : SpendLedger J) : KeepsScope ref l l := ⟨.refl l, rfl⟩

variable {ref : ScopeRef}

theorem KeepsScope.trans (h : KeepsScope ref l l') (h' : KeepsScope ref l' l'') :
    KeepsScope ref l l'' :=
  ⟨h.settings.trans h'.settings, h'.state.trans h.state⟩

theorem forgetSends_keeps (time : ℕ) (sends : List SpendAlias) (ref : ScopeRef) :
    KeepsScope ref l (forgetSends store time sends l).1 := by
  refine ⟨forgetSends_settings time sends, ?_⟩
  induction sends generalizing l with
  | nil => rfl
  | cons send sends ih =>
    refine (ih (l := (l.forgetSend store time send).1)).trans ?_
    rcases forgetSend_books store l time send with hb | hb
    · rw [hb]
    · rw [hb]

variable {refs : List ScopeRef}

theorem dropScopes_keeps (time : ℕ) (h : ref ∉ refs) :
    KeepsScope ref l (dropScopes store time refs l).1 := by
  refine ⟨dropScopes_settings time refs, ?_⟩
  induction refs generalizing l with
  | nil => rfl
  | cons ref' refs ih =>
    rw [mem_cons, not_or] at h
    refine (ih (l := (l.dropScope store time ref').1) h.2).trans ?_
    rcases dropScope_books store l time ref' with hb | hb
    · rw [hb]
    · rw [hb]
      exact OMap.get?_delete_of_ne _ h.1

/-! ## Passes -/

/-- Seen within the retention window. -/
def Recent (l : SpendLedger J) (time : ℕ) (ref : ScopeRef) : Prop :=
  ∃ state, l.books.scopes.get? ref = some state ∧ l.expired time state.lastSeenAt = false

variable {time : ℕ}

theorem Recent.congr (h : Recent l time ref) (hk : KeepsScope ref l l') : Recent l' time ref := by
  obtain ⟨state, hstate, hseen⟩ := h
  refine ⟨state, hk.state.trans hstate, ?_⟩
  rw [expired, hk.settings.policy]
  exact hseen

theorem le_foldl_max (states : List ScopeState) (n : ℕ) :
    n ≤ states.foldl (fun seen state ↦ max seen state.lastSeenAt) n ∧
      ∀ state ∈ states, state.lastSeenAt ≤
        states.foldl (fun seen state ↦ max seen state.lastSeenAt) n := by
  induction states generalizing n with
  | nil => exact ⟨le_rfl, nofun⟩
  | cons first states ih =>
    obtain ⟨hinit, hall⟩ := ih (max n first.lastSeenAt)
    refine ⟨(le_max_left _ _).trans hinit, forall_mem_cons.mpr ⟨?_, hall⟩⟩
    exact (le_max_right _ _).trans hinit

variable {state : ScopeState}

theorem lastSeenAt_le_effective (h : l.books.scopes.get? ref = some state) :
    state.lastSeenAt ≤ (l.effective ref state).lastSeenAt := by
  rw [effective]
  split
  · rename_i hpool
    rw [Bool.and_eq_true] at hpool
    refine (le_foldl_max _ 0).2 state (List.mem_map.mpr ⟨(ref, state), ?_, rfl⟩)
    refine mem_filter.mpr ⟨mem_filter.mpr ⟨OMap.mem_entries.mpr h, hpool.1⟩, ?_⟩
    rw [hpool.2, Bool.true_and]
    exact beq_self_eq_true _
  · exact le_rfl

theorem expired_mono {seen seen' : ℕ} (h : seen ≤ seen') (hseen : l.expired time seen = false) :
    l.expired time seen' = false := by
  simp only [expired, decide_eq_false_iff_not] at hseen ⊢
  omega

theorem Recent.notMem_expiredUnbound (h : Recent l time ref) : ref ∉ l.expiredUnbound time := by
  intro hmem
  obtain ⟨⟨ref', state⟩, hp, rfl⟩ := List.mem_map.mp hmem
  obtain ⟨hentry, hp⟩ := mem_filter.mp hp
  obtain ⟨state', hstate', hseen⟩ := h
  rw [OMap.mem_entries, hstate', some_inj] at hentry
  rw [Bool.and_eq_true, ← hentry, hseen] at hp
  exact absurd hp.2 (by decide)

theorem Recent.notMem_candidates (h : Recent l time ref) : ref ∉ l.scopeCandidates time false := by
  intro hmem
  obtain ⟨state, hstate, hp⟩ := mem_scopeCandidates hmem
  obtain ⟨state', hstate', hseen⟩ := h
  rw [hstate, some_inj] at hstate'
  rw [evictable, Bool.and_eq_true, Bool.false_or, ← hstate'] at *
  rw [expired_mono (lastSeenAt_le_effective hstate) hseen] at hp
  exact absurd hp.2 (by decide)

/-- What is removed of unbound history before a pass chooses. -/
def withoutUnbound (store : SpendJournal J) (time : ℕ) (l : SpendLedger J) : SpendLedger J :=
  (dropScopes store time (l.expiredUnbound time) l).1

theorem Recent.withoutUnbound (h : Recent l time ref) :
    KeepsScope ref l (l.withoutUnbound store time) :=
  dropScopes_keeps time h.notMem_expiredUnbound

theorem evictScopes_keeps {force : Bool} (h : Recent l time ref)
    (hchosen : ref ∉ (l.withoutUnbound store time).scopeCandidates time force) :
    KeepsScope ref l (l.evictScopes store time force).1 :=
  h.withoutUnbound.trans (dropScopes_keeps time hchosen)

/-- **The retention passes** keep what was seen within the window. -/
theorem retention_keeps (h : Recent l time ref) :
    KeepsScope ref l ((l.evictSends store time false).1.evictScopes store time false).1 := by
  have hsends : KeepsScope ref l (l.evictSends store time false).1 := forgetSends_keeps time _ ref
  have h' := h.congr hsends
  exact hsends.trans (evictScopes_keeps h' (h'.congr h'.withoutUnbound).notMem_candidates)

theorem roomForSends_keeps (time fuel : ℕ) (ref : ScopeRef) :
    KeepsScope ref l (roomForSends store time fuel l).1 := by
  induction fuel generalizing l with
  | zero => exact .refl ref l
  | succ fuel ih =>
    rw [roomForSends]
    split
    · exact .refl ref l
    dsimp only
    split
    · exact forgetSends_keeps time _ ref
    · exact (forgetSends_keeps time _ ref).trans ih

/-- The scopes that the passes at capacity pick while room is made for these ones. -/
def forcedChoices (store : SpendJournal J) (time : ℕ) (refs : List ScopeRef) :
    ℕ → SpendLedger J → List ScopeRef
  | 0, _ => []
  | fuel + 1, l =>
    if l.books.scopes.size + l.freshCount refs ≤ l.policy.maxTrackedScopes then []
    else
      (l.withoutUnbound store time).scopeCandidates time true ++
        if (l.evictScopes store time true).2 = 0 then []
        else forcedChoices store time refs fuel (l.evictScopes store time true).1

theorem roomForScopes_keeps {fuel : ℕ} (h : Recent l time ref)
    (hspared : ref ∉ forcedChoices store time refs fuel l) :
    KeepsScope ref l (roomForScopes store time refs fuel l).1 := by
  induction fuel generalizing l with
  | zero => exact .refl ref l
  | succ fuel ih =>
    rw [forcedChoices] at hspared
    rw [roomForScopes]
    split
    · exact .refl ref l
    rename_i hfull
    rw [if_neg hfull, mem_append, not_or] at hspared
    have hpass : KeepsScope ref l (l.evictScopes store time true).1 := evictScopes_keeps h hspared.1
    dsimp only
    split
    · exact hpass
    rename_i htook
    rw [if_neg htook] at hspared
    exact hpass.trans (ih (h.congr hpass) hspared.2)

/-- The ledger when the passes at capacity begin, in the course of a reservation. -/
def beforeForcing (store : SpendJournal J) (time : ℕ) (l : SpendLedger J) : SpendLedger J :=
  let l := (l.flushPending store).1
  let l := (l.evictSends store time false).1
  let l := (l.evictScopes store time false).1
  (roomForSends store time (l.books.reservations.size + 1) l).1

/-- **The scopes picked at capacity** in the course of a reservation. -/
def pickedAtCapacity (store : SpendJournal J) (time : ℕ) (refs : List ScopeRef)
    (l : SpendLedger J) : List ScopeRef :=
  forcedChoices store time refs ((l.beforeForcing store time).books.scopes.size + 1)
    (l.beforeForcing store time)

theorem flushPending_keeps (ref : ScopeRef) : KeepsScope ref l (l.flushPending store).1 :=
  ⟨flushPending_settings, by rw [flushPending_books]⟩

theorem beforeForcing_keeps (h : Recent l time ref) :
    KeepsScope ref l (l.beforeForcing store time) := by
  have hflush : KeepsScope ref l (l.flushPending store).1 := flushPending_keeps ref
  exact (hflush.trans (retention_keeps (h.congr hflush))).trans (roomForSends_keeps time _ ref)

theorem makeRoom_fst (store : SpendJournal J) (time : ℕ) (refs : List ScopeRef)
    (l : SpendLedger J) :
    ((l.flushPending store).1.makeRoom store time refs).1 = l.beforeForcing store time ∨
      ((l.flushPending store).1.makeRoom store time refs).1 =
        (roomForScopes store time refs ((l.beforeForcing store time).books.scopes.size + 1)
          (l.beforeForcing store time)).1 := by
  rw [makeRoom, beforeForcing]
  dsimp only
  split
  · exact .inl rfl
  split
  · exact .inr rfl
  · exact .inr rfl

/-- **Making room** keeps what was seen within the window and is not picked at capacity. -/
theorem makeRoom_keeps (h : Recent l time ref) (hspared : ref ∉ l.pickedAtCapacity store time refs) :
    KeepsScope ref l ((l.flushPending store).1.makeRoom store time refs).1 := by
  have hready : KeepsScope ref l (l.beforeForcing store time) := beforeForcing_keeps h
  rcases makeRoom_fst store time refs l with heq | heq
  · rw [heq]
    exact hready
  · rw [heq]
    exact hready.trans (roomForScopes_keeps (h.congr hready) hspared)

/-! ## Admission -/

theorem spend_le_stateFor (h : l.books.scopes.get? ref = some state) :
    state.spend ≤ ((l.stateFor ref).map ScopeState.spend).getD 0 := by
  obtain ⟨scope, name⟩ := ref
  cases scope with
  | root => rw [stateFor, h]; rfl
  | identity => rw [stateFor, h]; rfl
  | pool =>
    show state.spend ≤ (((l.poolState name).map (·.1)).map ScopeState.spend).getD 0
    by_cases hzero : state.spend = 0
    · rw [hzero]
      exact Nat.zero_le _
    have hmem : (⟨.pool, name⟩, state) ∈ l.poolMembers name := by
      refine mem_filter.mpr ⟨mem_filter.mpr ⟨OMap.mem_entries.mpr h, rfl⟩, ?_⟩
      split
      · simpa using hzero
      · exact beq_self_eq_true _
    have hsum : state.spend ≤ (((l.poolMembers name).map (·.2)).map ScopeState.spend).sum :=
      single_le_sum (fun _ _ ↦ Nat.zero_le _) _
        (List.mem_map_of_mem (List.mem_map.mpr ⟨_, hmem, rfl⟩))
    rw [poolState, if_neg (ne_nil_of_mem hmem)]
    simp only [map_some, getD_some, sumStates_spend]
    exact hsum

variable {request : SpendReservationRequest} {now : ℕ} {booking : SpendBooking}

theorem reserve_admitted (h : (l.reserve store hash request now).2 = .ok booking) :
    ∀ ref ∈ refsFor hash request.scopes,
      ((l.flushPending store).1.makeRoom store (request.time.getD now)
        (refsFor hash request.scopes)).1.scopeDenial request ref = none := by
  rw [reserve] at h
  dsimp only at h
  split at h
  · cases h
  split at h
  · cases h
  split at h
  · cases h
  · rename_i hnone
    exact findSome?_eq_none_iff.mp hnone

/-- **An admitted request fits under its ceilings** together with what was recorded there before, in
each of its scopes that was seen within the window and is not picked at capacity. -/
theorem fits_of_not_picked (h : (l.reserve store hash request now).2 = .ok booking)
    (hsent : request.alreadySent = false) (href : ref ∈ refsFor hash request.scopes)
    (hstate : l.books.scopes.get? ref = some state) {limit : ℕ}
    (hlimit : (l.admissionPolicy request).maxTokens ref.scope = some limit)
    (hrecent : l.expired (request.time.getD now) state.lastSeenAt = false)
    (hspared : ref ∉ l.pickedAtCapacity store (request.time.getD now)
      (refsFor hash request.scopes)) : state.spend + request.tokens ≤ limit := by
  have hkeeps := makeRoom_keeps ⟨state, hstate, hrecent⟩ hspared
  have hdenial := reserve_admitted h ref href
  have hpolicy : ((l.flushPending store).1.makeRoom store (request.time.getD now)
      (refsFor hash request.scopes)).1.admissionPolicy request = l.admissionPolicy request := by
    rw [admissionPolicy, admissionPolicy, hkeeps.settings.policy]
  rw [scopeDenial, hsent, if_neg Bool.false_ne_true, hpolicy, hlimit, bind_some] at hdenial
  dsimp only at hdenial
  split at hdenial
  · nomatch hdenial
  rename_i hfits
  have hle := spend_le_stateFor (hkeeps.state.trans hstate)
  omega

end SpendLedger

/-! ## Runs with a log of admissions -/

/-- What was recorded of a scope when a request was admitted there, what the request reserved, and
the ceiling. -/
structure AdmittedScope where
  recorded : ℕ
  tokens : ℕ
  limit : ℕ
  deriving DecidableEq

/-- A ledger, and what it has admitted. -/
structure AdmissionRun (J : Type) where
  ledger : SpendLedger J
  log : List AdmittedScope

namespace AdmissionRun

open SpendLedger

variable {J : Type} (store : SpendJournal J) (hash : AliasHash)

/-- What an admitted request is logged with: its scopes under a ceiling whose buckets were there
before, seen within the window. -/
def entries (l : SpendLedger J) (request : SpendReservationRequest) (time : ℕ) :
    List AdmittedScope :=
  (refsFor hash request.scopes).filterMap fun ref ↦
    match l.books.scopes.get? ref, (l.admissionPolicy request).maxTokens ref.scope with
    | some state, some limit =>
      if l.expired time state.lastSeenAt then none else some ⟨state.spend, request.tokens, limit⟩
    | _, _ => none

/-- The request an event reserves for, if it is to be admitted. -/
def admitting : LedgerEvent J → Option (SpendReservationRequest × ℕ)
  | .reserve request now => if request.alreadySent then none else some (request, now)
  | .reserveSeed request _ now => some ({ request with alreadySent := false }, now)
  | _ => none

/-- What an event adds to the log. -/
def logged (l : SpendLedger J) (event : LedgerEvent J) : List AdmittedScope :=
  match admitting event with
  | none => []
  | some (request, now) =>
    match (l.reserve store hash request now).2 with
    | .error _ => []
    | .ok _ => entries hash l request (request.time.getD now)

/-- **The condition**: no pass at capacity picks a scope that the event's request names. -/
def spares (run : AdmissionRun J) (event : LedgerEvent J) : Bool :=
  match admitting event with
  | none => true
  | some (request, now) => (refsFor hash request.scopes).all fun ref ↦
    !(run.ledger.pickedAtCapacity store (request.time.getD now)
      (refsFor hash request.scopes)).contains ref

/-- Runs of a ledger under one policy, on any journal. -/
def admissionRuns : Machine (AdmissionRun J) (LedgerEvent J) where
  init run := ∃ policy journal now, run = ⟨create store hash policy journal now, []⟩
  step run event := match event with
    | .reconfigure _ | .restart _ _ _ => none
    | event => some ⟨run.ledger.call store hash event, run.log ++ logged store hash run.ledger event⟩

variable {store hash}

theorem logged_fits {run : AdmissionRun J} {event : LedgerEvent J}
    (hspares : spares store hash run event = true) :
    ∀ entry ∈ logged store hash run.ledger event, entry.recorded + entry.tokens ≤ entry.limit := by
  intro entry hentry
  rw [logged] at hentry
  rw [spares] at hspares
  split at hentry
  · exact absurd hentry not_mem_nil
  rename_i request now hadmitting
  rw [hadmitting] at hspares
  have hsent : request.alreadySent = false := by
    cases event with
    | reserve request' now' =>
      rw [admitting] at hadmitting
      split at hadmitting
      · nomatch hadmitting
      rename_i hsent
      simp only [some_inj, Prod.mk.injEq] at hadmitting
      rw [← hadmitting.1]
      exact eq_false_of_ne_true hsent
    | reserveSeed request' owner now' =>
      simp only [admitting, some_inj, Prod.mk.injEq] at hadmitting
      rw [← hadmitting.1]
    | _ => nomatch hadmitting
  split at hentry
  · exact absurd hentry not_mem_nil
  rename_i booking hok
  obtain ⟨ref, href, hsome⟩ := mem_filterMap.mp hentry
  split at hsome
  · rename_i state limit hstate hlimit
    split at hsome
    · nomatch hsome
    rename_i hrecent
    rw [some_inj] at hsome
    rw [← hsome]
    refine fits_of_not_picked hok hsent href hstate hlimit (eq_false_of_ne_true hrecent) ?_
    have hspared := List.all_eq_true.mp hspares ref href
    intro hmem
    rw [contains_iff_mem.mpr hmem] at hspared
    nomatch hspared
  · nomatch hsome

end AdmissionRun

/-! ## At capacity -/

open SpendLedger AdmissionRun

/-- A hundred tokens for each root, and two scopes to track. -/
def smallPolicy : SpendReservationPolicy :=
  { defaultSpendReservationPolicy with root := some 100, maxTrackedScopes? := some 2 }

/-- A request of a root and an identity. -/
def identityRequest (sendId rootId identityId : String) (tokens : ℕ) : SpendReservationRequest :=
  { rootRequest sendId rootId tokens with
    scopes := ⟨some (js rootId), some (js identityId), none⟩ }

def twoRoots : AdmissionRun JournalFile :=
  ⟨create fileJournal plainHash smallPolicy (.opened []) 0, []⟩

/-- Two roots that have spent something, then a request of one of them and a new identity. -/
def twoRootsThen (rootId : String) : List (LedgerEvent JournalFile) :=
  [.reserve (rootRequest "first" "old" 90) 1, .settle (js "first") ⟨.finite 90, .finite 0⟩ 2,
    .reserve (rootRequest "second" "young" 20) 3, .settle (js "second") ⟨.finite 20, .finite 0⟩ 4,
    .reserve (identityRequest "third" rootId "key" 50) 5]

end Spend
