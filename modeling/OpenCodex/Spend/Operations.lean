import OpenCodex.Spend.Moves

/-!
# Every operation moves the books

Each operation of the ledger is gone through once, to see that it performs: its records are legal,
fresh and, while the journal is quiet, written in the order they are applied.  Nothing after this
file looks into an operation to know what it does to the books.

Several operations answer false and do nothing, or book in memory what they then fail to write; for
the books it makes no difference.  Only a reservation under a ceiling is given up when it cannot be
written (`reserve_cases`).
-/

set_option autoImplicit false

open List Option OMap

namespace Spend

theorem refsFor_good (hash : AliasHash) (scopes : SpendScopes) :
    GoodTargets (refsFor hash scopes) := by
  obtain ⟨root, identity, pool⟩ := scopes
  cases root <;> cases identity <;> cases pool <;> simp [refsFor, GoodTargets]

namespace SpendLedger

variable {J : Type} {store : SpendJournal J} {T : Trust J} {l l' l'' : SpendLedger J}

theorem sumStates_spend (states : List ScopeState) :
    (sumStates states).spend = (states.map ScopeState.spend).sum := by
  have hsum : (states.map ScopeState.spend).sum = (states.map ScopeState.settled).sum +
      (states.map ScopeState.reserved).sum + (states.map ScopeState.unresolved).sum := by
    induction states with
    | nil => rfl
    | cons state states ih =>
      simp only [map_cons, sum_cons, ih, ScopeState.spend]
      omega
  rw [hsum]
  rfl

/-! ## Composing -/

/-- Nothing of the books or the journal differs. -/
structure SameBooks (T : Trust J) (l l' : SpendLedger J) : Prop where
  books : l'.books = l.books
  journal : l'.journal = l.journal
  owes : OwesNothing l → OwesNothing l'
  kept : Kept T l → Kept T l'

theorem SameBooks.quiet (h : SameBooks T l l') (hq : Quiet T l) : Quiet T l' :=
  ⟨h.owes hq.toOwesNothing, h.journal ▸ hq.sound⟩

theorem SameBooks.of_eq (hbooks : l'.books = l.books) (hjournal : l'.journal = l.journal)
    (hpending : l'.pendingRecords = l.pendingRecords)
    (hnondurable : l'.nondurableReserves = l.nondurableReserves)
    (hretained : l'.retainedOrdinary = l.retainedOrdinary) : SameBooks T l l' where
  books := hbooks
  journal := hjournal
  owes ho := ⟨hpending.trans ho.pending, hnondurable.trans ho.nondurable,
    hretained.trans ho.retained⟩
  kept hk := ⟨hjournal ▸ hk.journal, hpending ▸ hk.pending, hnondurable ▸ hk.nondurable⟩

theorem Moves.of_same (h : SameBooks T l l') (hseeds : GoodSeeds l → GoodSeeds l') :
    Moves T l l' [] :=
  ⟨h.books, trivial, hseeds, h.kept,
    fun hq ↦ ⟨h.quiet hq, by rw [h.journal]; exact (append_nil _).symm⟩⟩

theorem Compacted.same (h : Compacted T l l') (hs : SameBooks T l' l'')
    (hseeds : GoodSeeds l → GoodSeeds l'') : Compacted T l l'' where
  books := hs.books.trans h.books
  seeds := hseeds
  kept hsums hk := hs.kept (h.kept hsums hk)
  quiet hq := by
    obtain ⟨hq', hread⟩ := h.quiet hq
    rw [hs.journal]
    exact ⟨hs.quiet hq', hread⟩

theorem Performs.of_same (h : SameBooks T l l') (hseeds : GoodSeeds l → GoodSeeds l') :
    Performs T l l' :=
  (Moves.of_same h hseeds).performs tombstones_nil.fresh

theorem Cleans.performs (h : Cleans T l l') : Performs T l l' := by
  obtain ⟨records, hm, ht⟩ := h
  exact hm.performs ht.fresh

variable {mid : SpendLedger J}

theorem Performs.of_cleans {mid' : SpendLedger J} {records : List JournalRecord}
    (hc : Cleans T l mid) (hm : Moves T mid mid' records) (hf : Fresh l records)
    (hcomp : Compacted T mid' l') : Performs T l l' := by
  obtain ⟨cleaning, hm', ht⟩ := hc
  refine ⟨cleaning ++ records, mid', hm'.trans hm, ?_, hcomp⟩
  intro send targets tokens time hmem
  rcases mem_append.mp hmem with h | h
  · exact ht.fresh (l := l) _ _ _ _ h
  · exact hf _ _ _ _ h

variable {record : JournalRecord}

theorem Performs.of_append (hc : Cleans T l mid) (hm : Moves T mid l' [record])
    (hf : ∀ send targets tokens time, record ≠ .reserve send targets tokens time) :
    Performs T l l' :=
  .of_cleans hc hm (fun send targets tokens time hmem ↦
    absurd (mem_singleton.mp hmem).symm (hf send targets tokens time)) (.refl _)

/-! ## Parts of operations -/

theorem compact_books (time : ℕ) : (l.compact store time).books = l.books := by
  rw [compact]
  split
  · rfl
  split
  · rfl
  dsimp only
  split
  · rfl
  · rfl

theorem compact_seeds (time : ℕ) : (l.compact store time).seeds = l.seeds := by
  rw [compact]
  split
  · rfl
  split
  · rfl
  dsimp only
  split
  · rfl
  · rfl

theorem compact_compacted (hstore : Reliable store T) (time : ℕ) :
    Compacted T l (l.compact store time) where
  books := compact_books time
  seeds hs := hs.congr (compact_seeds time)
  kept hsums hk := by
    rw [compact]
    split
    · exact hk
    rename_i rewrite hrewrite
    split
    · exact hk
    have hj := hstore.rewriteHonest rewrite hrewrite l.journal (l.books.checkpointRecord time)
      hk.journal (hsums.checkpointRecord time)
    dsimp only
    split
    · exact ⟨hj, hk.pending, hk.nondurable⟩
    · exact ⟨hj, hk.pending, hk.nondurable⟩
  quiet hq := by
    rw [compact]
    split
    · exact ⟨hq, .inl rfl⟩
    rename_i rewrite hrewrite
    split
    · exact ⟨hq, .inl rfl⟩
    obtain ⟨j, hj, hsound, hread⟩ := hstore.rewrite rewrite hrewrite l.journal
      (l.books.checkpointRecord time) hq.sound
    dsimp only
    rw [hj, if_pos rfl]
    exact ⟨⟨⟨hq.pending, hq.nondurable, hq.retained⟩, hsound⟩, .inr ⟨time, hread⟩⟩

theorem applyResolve_books (send : SpendAlias) (outcome : Outcome) (time : ℕ) :
    (l.applyResolve send outcome time).books = l.books.applyResolve send outcome time := by
  rw [applyResolve]
  split
  · rfl
  rename_i hdead
  rw [Books.applyResolve]
  split
  · rfl
  rename_i r hr
  rw [Books.isLive_of_get? hr] at hdead
  rw [eq_false_of_ne_true hdead]
  rfl

theorem applyForget_books (send : SpendAlias) :
    (l.applyForget send).books = l.books.applyForget send := by
  rw [applyForget]
  split
  · rfl
  rename_i hstay
  rw [Books.applyForget]
  split
  · rfl
  rename_i r hr
  rw [has_of_get? hr, Books.isLive_of_get? hr, Bool.true_and] at hstay
  rw [if_pos (by simpa using hstay)]

/-- Resolving and forgetting leave nothing owed, and the journal and the seeds alone. -/
theorem applyResolve_same (send : SpendAlias) (outcome : Outcome) (time : ℕ) :
    (l.applyResolve send outcome time).journal = l.journal ∧
      (l.applyResolve send outcome time).seeds = l.seeds ∧
      (OwesNothing l → OwesNothing (l.applyResolve send outcome time)) ∧
      (Kept T l → Kept T (l.applyResolve send outcome time)) := by
  rw [applyResolve]
  split
  · refine ⟨rfl, rfl, fun ho ↦ ⟨ho.pending, ?_, ?_⟩, fun hk ↦ ⟨hk.journal, hk.pending,
      fun s record h ↦ hk.nondurable s record (get?_of_delete h)⟩⟩
    · show l.nondurableReserves.delete send = _
      rw [ho.nondurable]
      rfl
    · show l.retainedOrdinary.erase send = _
      rw [ho.retained]
      rfl
  · exact ⟨rfl, rfl, id, id⟩

theorem applyForget_same (send : SpendAlias) :
    (l.applyForget send).journal = l.journal ∧ (l.applyForget send).seeds = l.seeds ∧
      (OwesNothing l → OwesNothing (l.applyForget send)) ∧
      (Kept T l → Kept T (l.applyForget send)) := by
  rw [applyForget]
  split
  · refine ⟨rfl, rfl, fun ho ↦ ⟨ho.pending, ?_, ?_⟩, fun hk ↦ ⟨hk.journal, hk.pending,
      fun s record h ↦ hk.nondurable s record (get?_of_delete h)⟩⟩
    · show l.nondurableReserves.delete send = _
      rw [ho.nondurable]
      rfl
    · show l.retainedOrdinary.erase send = _
      rw [ho.retained]
      rfl
  · exact ⟨rfl, rfl, id, id⟩

theorem repairReservePrefix_books (send : SpendAlias) (r : Reservation) :
    (l.repairReservePrefix send r).books = l.books := by
  rw [repairReservePrefix]
  split
  · rfl
  · rfl

theorem repairReservePrefix_seeds (send : SpendAlias) (r : Reservation) :
    (l.repairReservePrefix send r).seeds = l.seeds := by
  rw [repairReservePrefix]
  split
  · rfl
  · rfl

theorem repairReservePrefix_journal (send : SpendAlias) (r : Reservation) :
    (l.repairReservePrefix send r).journal = l.journal := by
  rw [repairReservePrefix]
  split
  · rfl
  · rfl

theorem repairReservePrefix_quiet (ho : OwesNothing l) (send : SpendAlias) (r : Reservation) :
    l.repairReservePrefix send r = l := by
  rw [repairReservePrefix, ho.nondurable, get?_empty]

theorem appendReported_books (record : JournalRecord) :
    (l.appendReported store record).books = l.books := by
  rw [appendReported]
  dsimp only
  split
  · split
    · exact append_books (l := { l with pendingRecords := l.pendingRecords ++ [record] }) record
    · exact append_books (l := { l with pendingRecords := l.pendingRecords ++ [record] }) record
  · rfl

theorem appendReported_seeds (record : JournalRecord) :
    (l.appendReported store record).seeds = l.seeds := by
  rw [appendReported]
  dsimp only
  split
  · split
    · exact append_seeds (l := { l with pendingRecords := l.pendingRecords ++ [record] }) record
    · exact append_seeds (l := { l with pendingRecords := l.pendingRecords ++ [record] }) record
  · rfl

variable {j : J}

theorem appendReported_write (h : store.append l.journal record.line = (j, true))
    (ho : OwesNothing l) :
    OwesNothing (l.appendReported store record) ∧ (l.appendReported store record).journal = j := by
  rw [appendReported]
  dsimp only
  rw [if_pos ho.pending, append_eq (l := { l with pendingRecords := l.pendingRecords ++ [record] }) h,
    if_pos rfl]
  exact ⟨⟨rfl, ho.nondurable, ho.retained⟩, rfl⟩

theorem appendReported_kept (hstore : Reliable store T) (hk : Kept T l) (hw : record.WellFormed) :
    Kept T (l.appendReported store record) := by
  have hpending : ∀ r ∈ l.pendingRecords ++ [record], r.WellFormed :=
    forall_mem_append.mpr ⟨hk.pending, forall_mem_singleton.mpr hw⟩
  have howed : Kept T { l with pendingRecords := l.pendingRecords ++ [record] } :=
    ⟨hk.journal, hpending, hk.nondurable⟩
  have hk' := howed.append (hstore.appendHonest _ record hk.journal hw)
  rw [appendReported]
  dsimp only
  split
  · split
    · exact ⟨hk'.journal, nofun, hk'.nondurable⟩
    · exact hk'
  · exact howed

theorem appendTerminal_books (record : JournalRecord) :
    (l.appendTerminal store record).books = l.books := by
  rw [appendTerminal]
  split
  · rfl
  dsimp only
  split
  · exact append_books record
  · exact append_books record

theorem appendTerminal_seeds (record : JournalRecord) :
    (l.appendTerminal store record).seeds = l.seeds := by
  rw [appendTerminal]
  split
  · rfl
  dsimp only
  split
  · exact append_seeds record
  · exact append_seeds record

theorem appendTerminal_write (h : store.append l.journal record.line = (j, true))
    (ho : OwesNothing l) :
    OwesNothing (l.appendTerminal store record) ∧ (l.appendTerminal store record).journal = j := by
  rw [appendTerminal, if_neg (not_not.mpr ho.pending)]
  dsimp only
  rw [append_eq h, if_pos rfl]
  exact ⟨⟨ho.pending, ho.nondurable, ho.retained⟩, rfl⟩

theorem appendTerminal_kept (hstore : Reliable store T) (hk : Kept T l) (hw : record.WellFormed) :
    Kept T (l.appendTerminal store record) := by
  have hk' := hk.append (hstore.appendHonest _ record hk.journal hw)
  have hone : ∀ r ∈ [record], r.WellFormed := forall_mem_singleton.mpr hw
  rw [appendTerminal]
  split
  · exact ⟨hk.journal, forall_mem_append.mpr ⟨hk.pending, hone⟩, hk.nondurable⟩
  dsimp only
  split
  · exact hk'
  · exact ⟨hk'.journal, forall_mem_append.mpr ⟨hk'.pending, hone⟩, hk'.nondurable⟩

theorem repairReservePrefix_kept (hk : Kept T l) (send : SpendAlias) (r : Reservation) :
    Kept T (l.repairReservePrefix send r) := by
  rw [repairReservePrefix]
  split
  · exact hk
  rename_i reserve hreserve
  refine ⟨hk.journal, forall_mem_append.mpr ⟨hk.pending, forall_mem_cons.mpr
    ⟨hk.nondurable send reserve hreserve, ?_⟩⟩,
    fun s record h ↦ hk.nondurable s record (get?_of_delete h)⟩
  split
  · exact forall_mem_singleton.mpr trivial
  · exact nofun

/-! ## Reserving -/

/-- What stands in these books stood in those. -/
structure Within (b' b : Books) : Prop where
  reservations : ∀ send r, b'.reservations.get? send = some r →
    b.reservations.get? send = some r
  scopes : ∀ ref state, b'.scopes.get? ref = some state → b.scopes.get? ref = some state

variable (b : Books)

theorem Within.refl : Within b b := ⟨fun _ _ ↦ id, fun _ _ ↦ id⟩

theorem Within.trans {b b' b'' : Books} (h : Within b'' b') (h' : Within b' b) : Within b'' b :=
  ⟨fun send r hr ↦ h'.reservations send r (h.reservations send r hr),
    fun ref state hs ↦ h'.scopes ref state (h.scopes ref state hs)⟩

theorem applyDrop_within (ref : ScopeRef) : Within (b.applyDrop ref) b := by
  refine ⟨fun send r hr ↦ ?_, fun ref' state hs ↦ ?_⟩
  · rwa [Books.reservations_applyDrop] at hr
  · rw [Books.applyDrop] at hs
    split at hs
    · exact hs
    split at hs
    · exact hs
    · exact get?_of_delete hs

theorem applyForget_within (send : SpendAlias) : Within (b.applyForget send) b := by
  refine ⟨fun send' r hr ↦ ?_, fun ref state hs ↦ ?_⟩
  · rw [Books.applyForget] at hr
    split at hr
    · exact hr
    split at hr
    · exact hr
    · exact get?_of_delete hr
  · rwa [Books.scopes_applyForget] at hs

theorem Cleans.within (h : Cleans T l l') : Within l'.books l.books := by
  obtain ⟨records, hm, ht⟩ := h
  rw [hm.books]
  clear hm
  generalize l.books = b
  induction records generalizing b with
  | nil => exact .refl b
  | cons record records ih =>
    rw [Tombstones, forall_mem_cons] at ht
    rw [Books.applyAll_cons]
    refine (ih ht.2 _).trans ?_
    rcases ht.1 with ⟨ref, time, rfl⟩ | ⟨send, time, rfl⟩
    · exact applyDrop_within b ref
    · exact applyForget_within b send

variable {send : SpendAlias}

theorem Cleans.has_eq_false (h : Cleans T l l') (hnew : l.books.reservations.has send = false) :
    l'.books.reservations.has send = false := by
  rw [has_eq_false_iff] at hnew ⊢
  refine eq_none_iff_forall_ne_some.mpr fun r hr ↦ ?_
  rw [h.within.reservations send r hr] at hnew
  nomatch hnew

/-- **A request is denied, or booked** once its send is unknown and there is room. -/
theorem reserve_cases (hstore : Reliable store T) (hash : AliasHash) (l : SpendLedger J)
    (request : SpendReservationRequest) (now : ℕ) : ∃ mid, Cleans T l mid ∧
      ((∃ denial, l.reserve store hash request now = (mid, .error denial)) ∨
        l.books.reservations.has (hash .send request.sendId) = false ∧
          l.reserve store hash request now =
            mid.book store hash request (request.time.getD now)) := by
  have hflush : Cleans T l (l.flushPending store).1 := flushPending_cleans hstore
  rw [reserve]
  dsimp only
  split
  · exact ⟨_, hflush, .inl ⟨_, rfl⟩⟩
  rename_i hnone
  have hroom := hflush.trans (makeRoom_cleans hstore (request.time.getD now)
    (refsFor hash request.scopes))
  split
  · exact ⟨_, hroom, .inl ⟨_, rfl⟩⟩
  split
  · exact ⟨_, hroom, .inl ⟨_, rfl⟩⟩
  · refine ⟨_, hroom, .inr ⟨?_, rfl⟩⟩
    rw [denialBeforeRoom] at hnone
    split at hnone
    · cases hnone
    rename_i hnew
    rw [Bool.or_eq_true, not_or, flushPending_books] at hnew
    exact eq_false_of_ne_true hnew.1

/-- **Booking** adds one reservation, or fails to write it under a ceiling. -/
theorem book_cases (hstore : Reliable store T) (hash : AliasHash) (l : SpendLedger J)
    (request : SpendReservationRequest) (time : ℕ) : (∃ mid, Moves T l mid [] ∧
      l.book store hash request time = (mid, .error (.reserveNotDurable request.sendId))) ∨
    ∃ mid booking, Moves T l mid [.reserve (hash .send request.sendId)
        (refsFor hash request.scopes) request.tokens time] ∧
      l.book store hash request time = (mid.compact store time, .ok booking) := by
  have hgood : GoodTargets (refsFor hash request.scopes) := refsFor_good hash _
  have hlegal : l.books.Legal (.reserve (hash .send request.sendId) (refsFor hash request.scopes)
    request.tokens time) := hgood
  rw [book]
  dsimp only
  split
  · rename_i hfailed
    rw [Bool.and_eq_true, Bool.and_eq_true, Bool.not_eq_true'] at hfailed
    exact .inl ⟨_, append_failed hstore hlegal.wellFormed hfailed.1.1, rfl⟩
  · refine .inr ⟨_, _, .of_append hstore ?_ hlegal (fun hs ↦ ?_) (fun hj hk ↦ ?_)
      fun j hj ho ↦ ?_, rfl⟩
    · split
      · exact congrArg (Books.applyReserve · _ _ _ _) (append_books _)
      · exact congrArg (Books.applyReserve · _ _ _ _) (append_books _)
    · refine hs.congr ?_
      split
      · exact append_seeds _
      · exact append_seeds _
    · have hk' := hk.append hj
      split
      · exact ⟨hk'.journal, hk'.pending, hk'.nondurable⟩
      · refine ⟨hk'.journal, hk'.pending, fun s record h ↦ ?_⟩
        rw [get?_set] at h
        split at h
        · exact some_inj.mp h ▸ hgood
        · exact hk'.nondurable s record h
    · rw [append_eq hj, if_pos rfl]
      exact ⟨⟨ho.pending, ho.nondurable, ho.retained⟩, rfl⟩

theorem reserve_performs (hstore : Reliable store T) (hash : AliasHash)
    (request : SpendReservationRequest) (now : ℕ) :
    Performs T l (l.reserve store hash request now).1 := by
  obtain ⟨mid, hc, ⟨denial, heq⟩ | ⟨hnew, heq⟩⟩ := reserve_cases hstore hash l request now
  · rw [heq]
    exact hc.performs
  rw [heq]
  rcases book_cases hstore hash mid request (request.time.getD now) with
    ⟨mid', hm, heq'⟩ | ⟨mid', booking, hm, heq'⟩
  · rw [heq']
    exact .of_cleans hc hm tombstones_nil.fresh (.refl _)
  · rw [heq']
    refine .of_cleans hc hm (fun send targets tokens time hmem ↦ ?_) (compact_compacted hstore _)
    rw [mem_singleton, JournalRecord.reserve.injEq] at hmem
    rw [hmem.1]
    exact hnew

variable {now : ℕ}

variable {hash : AliasHash} {request : SpendReservationRequest}

/-- **A refused request books nothing.** -/
theorem reserve_refused {denial : SpendDenial}
    (h : (l.reserve store hash request now).2 = .error denial) :
    Within (l.reserve store hash request now).1.books l.books := by
  have hstore := Reliable.nothing store
  obtain ⟨mid, hc, ⟨denial', heq⟩ | ⟨hnew, heq⟩⟩ := reserve_cases hstore hash l request now
  · rw [heq]
    exact hc.within
  rw [heq] at h ⊢
  rcases book_cases hstore hash mid request (request.time.getD now) with
    ⟨mid', hm, heq'⟩ | ⟨mid', booking, hm, heq'⟩
  · rw [heq']
    have hbooks : mid'.books = mid.books := hm.books
    rw [hbooks]
    exact hc.within
  · rw [heq'] at h
    nomatch h

/-- **An admitted request is booked** as it was asked for. -/
theorem reserve_ok {booking : SpendBooking} (h : (l.reserve store hash request now).2 = .ok booking) :
    (l.reserve store hash request now).1.books.reservations.get? (hash .send request.sendId) =
      some ⟨refsFor hash request.scopes, request.tokens, .opened, request.time.getD now,
        request.time.getD now⟩ := by
  -- what becomes of the journal does not matter here
  have hstore := Reliable.nothing store
  obtain ⟨mid, hc, ⟨denial, heq⟩ | ⟨hnew, heq⟩⟩ := reserve_cases hstore hash l request now
  · rw [heq] at h
    nomatch h
  rw [heq] at h ⊢
  rcases book_cases hstore hash mid request (request.time.getD now) with
    ⟨mid', hm, heq'⟩ | ⟨mid', booking, hm, heq'⟩
  · rw [heq'] at h
    nomatch h
  · rw [heq', compact_books, hm.books]
    show (mid.books.applyReserve _ _ _ _).reservations.get? _ = _
    rw [Books.applyReserve, hc.has_eq_false hnew, if_neg Bool.false_ne_true]
    exact get?_set_self ..

/-! ## Seeds -/

theorem reserveSeed_performs (hstore : Reliable store T) (hash : AliasHash)
    (request : SpendReservationRequest) (owner : Option ℕ) (now : ℕ) :
    Performs T l (l.reserveSeed store hash request owner now).1 := by
  have hreserve : Performs T l (l.reserve store hash _ now).1 :=
    reserve_performs hstore hash { request with alreadySent := false } now
  rw [reserveSeed]
  dsimp only
  split
  · exact hreserve
  rename_i booking hok
  obtain ⟨records, mid, hm, hf, hcomp⟩ := hreserve
  refine ⟨records, mid, hm, hf, hcomp.same (.of_eq rfl rfl rfl rfl rfl) fun hs seed owned howned ↦ ?_⟩
  rw [get?_set] at howned
  split at howned
  · rw [← some_inj.mp howned, reserve_ok hok]
    exact refsFor_good hash _
  · exact hcomp.seeds hs seed owned howned

theorem appendReported_performs (hstore : Reliable store T)
    (hbooks : l'.books = l.books.apply record) (hlegal : l.books.Legal record)
    (hseeds : GoodSeeds l → GoodSeeds l') (hjournal : l'.journal = l.journal)
    (howes : OwesNothing l → OwesNothing l') (hkept : Kept T l → Kept T l') (hf : Fresh l [record])
    (now : ℕ) : Performs T l ((l'.appendReported store record).compact store now) :=
  ⟨_, _, .of_append hstore ((appendReported_books _).trans hbooks) hlegal
    (fun hs ↦ (hseeds hs).congr (appendReported_seeds _))
    (fun _ hk ↦ appendReported_kept hstore (hkept hk) hlegal.wellFormed)
    (fun _ hj ho ↦ appendReported_write (hjournal ▸ hj) (howes ho)), hf,
    compact_compacted hstore now⟩

theorem reserveReportedFromSeed_performs (hstore : Reliable store T) (hgood : GoodSeeds l)
    (hash : AliasHash) (seed : ℕ) (sendId : JsString) (inputTokens outputCeilingTokens : JsNumber)
    (now : ℕ) : Performs T l (l.reserveReportedFromSeed store hash seed sendId inputTokens
      outputCeilingTokens now).1 := by
  rw [reserveReportedFromSeed]
  split
  · exact .refl l
  rename_i owned howned
  dsimp only
  split
  · exact .refl l
  split
  · exact .refl l
  rename_i hnew
  rw [Bool.or_eq_true, not_or] at hnew
  have hlegal : l.books.Legal (.reserve (hash .send sendId) owned.targets
      (sanitizeTokens inputTokens + sanitizeTokens outputCeilingTokens) now) :=
    hgood seed owned howned
  refine appendReported_performs hstore ?_ hlegal (fun hs seed' owned' howned' ↦ ?_) ?_
    (fun ho ↦ ?_) (fun hk ↦ ?_) ?_ now
  · rfl
  · rw [get?_set] at howned'
    split at howned'
    · rw [← some_inj.mp howned']
      exact hgood seed owned howned
    · exact hs seed' owned' howned'
  · rfl
  · exact ⟨ho.pending, ho.nondurable, ho.retained⟩
  · exact ⟨hk.journal, hk.pending, hk.nondurable⟩
  · intro send targets tokens time hmem
    rw [mem_singleton, JournalRecord.reserve.injEq] at hmem
    rw [hmem.1]
    exact eq_false_of_ne_true hnew.1

theorem forget_moves (hstore : Reliable store T) (send : SpendAlias) (now : ℕ) :
    Moves T l ((l.append store (.forget send now)).1.applyForget send) [.forget send now] := by
  obtain ⟨hjournal, hseeds, howes, hkept⟩ :=
    applyForget_same (T := T) (l := (l.append store (.forget send now)).1) send
  have hlegal : l.books.Legal (.forget send now) := trivial
  refine .of_append hstore ?_ hlegal (fun hs ↦ hs.congr (hseeds.trans (append_seeds _)))
    (fun hj hk ↦ hkept (hk.append hj)) fun j hj ho ↦ ?_
  · rw [applyForget_books, append_books]
    rfl
  · rw [append_eq hj] at hjournal howes ⊢
    exact ⟨howes ⟨ho.pending, ho.nondurable, ho.retained⟩, hjournal⟩

theorem forgetEach_cleans (hstore : Reliable store T) (now : ℕ) (sends : List SpendAlias) :
    Cleans T l (forgetEach store now sends l).1 := by
  induction sends generalizing l with
  | nil => exact .refl l
  | cons send sends ih =>
    rw [forgetEach]
    split
    · exact ih
    dsimp only
    split
    · rename_i hfailed
      exact ⟨[], append_failed hstore trivial (by simpa using hfailed), tombstones_nil⟩
    · refine .trans ⟨_, forget_moves hstore send now, ?_⟩ ih
      exact forall_mem_singleton.mpr (.inr ⟨send, now, rfl⟩)

theorem forgetResolved_performs (hstore : Reliable store T) (hash : AliasHash)
    (sendIds : List JsString) (owner : Option ℕ) (now : ℕ) :
    Performs T l (l.forgetResolved store hash sendIds owner now).1 := by
  have hflush : Cleans T l (l.flushPending store).1 := flushPending_cleans hstore
  rw [forgetResolved]
  split
  · exact .refl l
  dsimp only
  split
  · exact .refl l
  split
  · exact hflush.performs
  split
  · exact hflush.performs
  · exact (hflush.trans (forgetEach_cleans hstore now _)).performs

theorem forgetAnchor_cleans (hstore : Reliable store T) (hash : AliasHash) (owned : SeedState)
    (now : ℕ) : Cleans T l (l.forgetAnchor store hash owned now).1 := by
  rw [forgetAnchor]
  dsimp only
  split
  · split
    · rename_i hfailed
      exact ⟨[], append_failed hstore trivial (by simpa using hfailed), tombstones_nil⟩
    · exact ⟨_, forget_moves hstore _ now, forall_mem_singleton.mpr (.inr ⟨_, now, rfl⟩)⟩
  · exact .refl l

theorem finishSeed_performs (hstore : Reliable store T) (hash : AliasHash) (seed : ℕ)
    (owner : Option ℕ) (now : ℕ) : Performs T l (l.finishSeed store hash seed owner now).1 := by
  have hflush : Cleans T l (l.flushPending store).1 := flushPending_cleans hstore
  rw [finishSeed]
  split
  · exact .refl l
  rename_i owned howned
  split
  · exact .refl l
  dsimp only
  split
  · exact hflush.performs
  obtain ⟨r, hr⟩ : ∃ r, r = if owned.abandoned then
      (l.flushPending store).1.forgetAnchor store hash owned now
      else ((l.flushPending store).1, (l.flushPending store).1.activeReporters owner == 0) :=
    ⟨_, rfl⟩
  have hanchor : Cleans T l r.1 := by
    rw [hr]
    split
    · exact hflush.trans (forgetAnchor_cleans hstore hash owned now)
    · exact hflush
  rw [← hr]
  split
  · exact hanchor.performs
  split
  · exact hanchor.performs
  · refine Cleans.performs (Cleans.trans hanchor ?_)
    refine ⟨[], .of_same (.of_eq rfl rfl rfl rfl rfl)
      fun hs seed' owned' howned' ↦ ?_, tombstones_nil⟩
    rw [get?_delete] at howned'
    split at howned'
    · cases howned'
    · exact hs seed' owned' howned'

/-! ## Moving a send on -/

theorem markDispatched_performs (hstore : Reliable store T) (hash : AliasHash)
    (sendId : JsString) (now : ℕ) : Performs T l (l.markDispatched store hash sendId now).1 := by
  rw [markDispatched]
  dsimp only
  split
  · exact .refl l
  rename_i r hr
  split
  · exact .refl l
  split
  · exact .refl l
  obtain ⟨moved, hmoved⟩ : ∃ moved, moved =
    (l.repairReservePrefix (hash .send sendId) r).applyDispatch (hash .send sendId) now := ⟨_, rfl⟩
  rw [← hmoved]
  have hbooks : moved.books = l.books.applyDispatch (hash .send sendId) now := by
    rw [hmoved, applyDispatch, repairReservePrefix_books]
  have hseeds : moved.seeds = l.seeds := by rw [hmoved, applyDispatch, repairReservePrefix_seeds]
  have hjournal : moved.journal = l.journal := by
    rw [hmoved, applyDispatch, repairReservePrefix_journal]
  have howes (ho : OwesNothing l) : OwesNothing moved := by
    rw [hmoved, applyDispatch, repairReservePrefix_quiet ho]
    exact ⟨ho.pending, ho.nondurable, ho.retained⟩
  have hkept (hk : Kept T l) : Kept T moved := by
    have hk' := repairReservePrefix_kept hk (hash .send sendId) r
    rw [hmoved]
    exact ⟨hk'.journal, hk'.pending, hk'.nondurable⟩
  have hlegal : l.books.Legal (.dispatch (hash .send sendId) now) := trivial
  refine .of_append (.refl l) (.of_append hstore ?_ hlegal (fun hs ↦ hs.congr ?_)
    (fun hj hk ↦ ?_) fun j hj ho ↦ ?_) (by rintro _ _ _ _ ⟨⟩)
  · split
    · exact (appendReported_books _).trans hbooks
    · exact (append_books _).trans hbooks
  · split
    · exact (appendReported_seeds _).trans hseeds
    · exact (append_seeds _).trans hseeds
  · rw [← hjournal] at hj
    split
    · exact appendReported_kept hstore (hkept hk) trivial
    · exact (hkept hk).append hj
  · rw [← hjournal] at hj
    have ho := howes ho
    split
    · exact appendReported_write hj ho
    · rw [append_eq hj]
      exact ⟨⟨ho.pending, ho.nondurable, ho.retained⟩, rfl⟩

theorem abandonSeed_good (seed : ℕ) (hs : GoodSeeds l) : GoodSeeds (l.abandonSeed seed) := by
  rw [abandonSeed]
  split
  · exact hs
  rename_i owned howned
  intro seed' owned' howned'
  rw [get?_set] at howned'
  split at howned'
  · rw [← some_inj.mp howned']
    exact hs seed owned howned
  · exact hs seed' owned' howned'

theorem abandonSeed_same (seed : ℕ) : SameBooks T l (l.abandonSeed seed) := by
  rw [abandonSeed]
  split
  · exact .of_eq rfl rfl rfl rfl rfl
  · exact .of_eq rfl rfl rfl rfl rfl

variable {outcome : Outcome}

theorem resolve_moves (hstore : Reliable store T) (happly : ∀ b : Books, b.apply record =
      b.applyResolve send outcome now) (hlegal : ∀ b : Books, b.Legal record) :
    Moves T l ((l.applyResolve send outcome now).append store record).1 [record] ∧
      Moves T l ((l.append store record).1.applyResolve send outcome now) [record] ∧
      Moves T l ((l.appendTerminal store record).applyResolve send outcome now) [record] := by
  obtain ⟨hjournal, hseeds, howes, hkept⟩ := applyResolve_same (T := T) (l := l) send outcome now
  refine ⟨.of_append hstore ?_ (hlegal _) (fun hs ↦ ?_) (fun hj hk ↦ ?_) fun j hj ho ↦ ?_,
    .of_append hstore ?_ (hlegal _) (fun hs ↦ ?_) (fun hj hk ↦ ?_) fun j hj ho ↦ ?_,
    .of_append hstore ?_ (hlegal _) (fun hs ↦ ?_) (fun hj hk ↦ ?_) fun j hj ho ↦ ?_⟩
  · rw [append_books, applyResolve_books, happly]
  · exact hs.congr ((append_seeds _).trans hseeds)
  · rw [← hjournal] at hj
    exact (hkept hk).append hj
  · rw [← hjournal] at hj
    have ho := howes ho
    rw [append_eq hj]
    exact ⟨⟨ho.pending, ho.nondurable, ho.retained⟩, rfl⟩
  · rw [applyResolve_books, append_books, happly]
  · exact hs.congr ((applyResolve_same (T := T) send outcome now).2.1.trans (append_seeds _))
  · exact (applyResolve_same send outcome now).2.2.2 (hk.append hj)
  · obtain ⟨hjournal, -, howes, -⟩ :=
      applyResolve_same (T := T) (l := (l.append store record).1) send outcome now
    rw [append_eq hj] at hjournal howes ⊢
    exact ⟨howes ⟨ho.pending, ho.nondurable, ho.retained⟩, hjournal⟩
  · rw [applyResolve_books, appendTerminal_books, happly]
  · exact hs.congr ((applyResolve_same (T := T) send outcome now).2.1.trans (appendTerminal_seeds _))
  · exact (applyResolve_same send outcome now).2.2.2
      (appendTerminal_kept hstore hk (hlegal l.books).wellFormed)
  · obtain ⟨ho', hj'⟩ := appendTerminal_write hj ho
    obtain ⟨hjournal, -, howes, -⟩ :=
      applyResolve_same (T := T) (l := l.appendTerminal store record) send outcome now
    exact ⟨howes ho', hjournal.trans hj'⟩

theorem abandon_performs (hstore : Reliable store T) (hash : AliasHash) (sendId : JsString)
    (now : ℕ) : Performs T l (l.abandon store hash sendId now).1 := by
  have hflush : Cleans T l (l.flushPending store).1 := flushPending_cleans hstore
  have happly (b : Books) : b.apply (.abandon (hash .send sendId) now) =
      b.applyResolve (hash .send sendId) .abandoned now := rfl
  have hbooks : ∀ send targets tokens time, JournalRecord.abandon (hash .send sendId) now ≠
      .reserve send targets tokens time := nofun
  rw [abandon]
  dsimp only
  split
  · exact .refl l
  split
  · exact .refl l
  split
  · rename_i seed hseed
    split
    · exact hflush.performs
    split
    · rename_i hfailed
      exact Cleans.performs (hflush.trans ⟨[], append_failed hstore trivial (by simpa using
        hfailed), tombstones_nil⟩)
    · have hm := (resolve_moves (l := (l.flushPending store).1) hstore happly fun _ ↦ trivial).2.1
      refine .of_append hflush ?_ hbooks
      exact hm.trans (.of_same (abandonSeed_same seed) (abandonSeed_good seed))
  · exact .of_append (.refl l) (resolve_moves hstore happly fun _ ↦ trivial).1 hbooks

theorem resolveSend_performs (hstore : Reliable store T) (hash : AliasHash) (sendId : JsString)
    {record : SpendAlias → JournalRecord}
    (happly : ∀ (b : Books) send, b.apply (record send) = b.applyResolve send outcome now)
    (hlegal : ∀ (b : Books) send, b.Legal (record send))
    (hbooks : ∀ s send targets tokens time, record s ≠ .reserve send targets tokens time) :
    Performs T l (l.resolveSend store hash sendId outcome record now).1 := by
  rw [resolveSend]
  dsimp only
  split
  · exact .refl l
  rename_i r hr
  split
  · exact .refl l
  have hrepair : Cleans T l (l.repairReservePrefix (hash .send sendId) r) := by
    refine ⟨[], .of_same ⟨repairReservePrefix_books _ _, repairReservePrefix_journal _ _,
      fun ho ↦ ?_, fun hk ↦ repairReservePrefix_kept hk _ _⟩
      fun hs ↦ hs.congr (repairReservePrefix_seeds _ _), tombstones_nil⟩
    rw [repairReservePrefix_quiet ho]
    exact ho
  obtain ⟨hafter, -, hbefore⟩ := resolve_moves (l := l.repairReservePrefix (hash .send sendId) r)
    hstore (fun b ↦ happly b (hash .send sendId)) fun b ↦ hlegal b _
  split
  · exact .of_append hrepair hbefore (hbooks _)
  · exact .of_append hrepair hafter (hbooks _)

theorem settle_performs (hstore : Reliable store T) (hash : AliasHash) (sendId : JsString)
    (usage : SpendUsage) (now : ℕ) : Performs T l (l.settle store hash sendId usage now).1 :=
  resolveSend_performs hstore hash sendId (fun _ _ ↦ rfl) (fun _ _ ↦ trivial)
    nofun

theorem markLost_performs (hstore : Reliable store T) (hash : AliasHash) (sendId : JsString)
    (now : ℕ) : Performs T l (l.markLost store hash sendId now).1 :=
  resolveSend_performs hstore hash sendId (fun _ _ ↦ rfl) (fun _ _ ↦ trivial)
    nofun

/-! ## Maintenance -/

theorem prune_performs (hstore : Reliable store T) (time : ℕ) :
    Performs T l (l.prune store time) := by
  exact ((flushPending_cleans hstore).trans ((evictSends_cleans hstore time false).trans
    (evictScopes_cleans hstore time false))).performs

theorem registerReporter_performs (owner : Option ℕ) : Performs T l (l.registerReporter owner) :=
  .of_same (.of_eq rfl rfl rfl rfl rfl) id

theorem closeReporter_performs (owner : Option ℕ) : Performs T l (l.closeReporter owner) :=
  .of_same (.of_eq rfl rfl rfl rfl rfl) id

theorem reconfigure_performs (hash : AliasHash) (next : SpendReservationPolicy) :
    Performs T l (l.reconfigure hash next) :=
  .of_same (.of_eq rfl rfl rfl rfl rfl) id

end SpendLedger

end Spend
