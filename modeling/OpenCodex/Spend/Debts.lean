import OpenCodex.Spend.Telling
import OpenCodex.Spend.Conservation

/-!
# Debt that is retried

A record that must reach the journal is written, or owed until it is: those of a send on a seed, and
those of a send whose reservation could not be written.  Whatever writes fail, the debt keeps its order
and is paid once: when nothing is owed, the journal tells of such a send what the ledger holds
(`retried_debt_replayed`).

There are two limits.  An admitted reservation whose record could not be written is owed no sooner
than the send moves on.  And the journal must know nothing of a send when it is booked: under an
identifier that it still knows, because what became of an earlier send was lost, a reservation is
written and is not replayed (`retried_debt_not_replayed`).
-/

set_option autoImplicit false

open List Option

namespace Spend

variable {J : Type}

namespace Account

variable {a a' : Account}

/-- No reservation is unwritten, and no send is kept or on a seed. -/
structure Bare (a : Account) : Prop where
  unwritten : a.unwritten = .empty
  retained : a.retained = ∅
  seeded : ∀ s, a.seeded s = false

theorem Bare.sane (h : Bare a) (hpaid : a.owed = []) : Sane a := by
  refine ⟨fun s record hrecord ↦ ?_, fun record hrecord ↦ ?_⟩
  · rw [h.unwritten] at hrecord
    nomatch hrecord
  · rw [hpaid] at hrecord
    exact absurd hrecord not_mem_nil

theorem Bare.move (h : Bare a) (send : SpendAlias) (r' : Reservation) : Bare (a.move send r') := by
  refine ⟨?_, ?_, h.seeded⟩
  · rw [Account.move, h.unwritten]
    exact ite_self _
  · rw [Account.move, h.retained]
    exact ite_self _

theorem Step.bare (h : Step a a') (hb : Bare a) : Bare a' := by
  cases h with
  | forgot send time hpaid hdead =>
    refine ⟨?_, ?_, hb.seeded⟩
    · show a.unwritten.delete send = .empty
      rw [hb.unwritten]
      rfl
    · show a.retained.erase send = ∅
      rw [hb.retained]
      rfl
  | unseeded seeded hsub hkeep =>
    refine ⟨hb.unwritten, hb.retained, fun s ↦ eq_false_of_ne_true fun hs ↦ ?_⟩
    exact absurd ((hsub s hs).symm.trans (hb.seeded s)) (by decide)
  | @moved send r r' record hr hmove hwritten =>
    have hmoved := hb.move send r'
    exact ⟨hmoved.unwritten, hmoved.retained, hmoved.seeded⟩
  | @tried send r r' record written hr hmove hordinary =>
    have hmoved := hb.move send r'
    cases written with
    | true => exact ⟨hmoved.unwritten, hmoved.retained, hmoved.seeded⟩
    | false => exact hmoved
  | recovered hunwritten hr hmove =>
    rw [hb.unwritten] at hunwritten
    nomatch hunwritten
  | _ => exact ⟨hb.unwritten, hb.retained, hb.seeded⟩

theorem Steps.bare (h : Steps a a') (hb : Bare a) : Bare a' := by
  induction h with
  | refl => exact hb
  | tail _ hstep ih => exact hstep.bare ih

end Account

namespace SpendLedger

variable {store : SpendJournal J} {Sound : J → Prop} {hash : AliasHash} {l l' : SpendLedger J}

/-! ## Creation -/

theorem reconcileLive_tells (hstore : store.Faithful Sound) (hw : Writable Sound l)
    (hb : (l.account store).Bare) (now : ℕ) (enforced : Bool) (send : SpendAlias) :
    Tells store Sound l (l.reconcileLive store now enforced send) := by
  have hfits : (JournalRecord.lost send now).Fits := trivial
  have hw' := hw.append hstore (.lost send now)
  rw [reconcileLive]
  split
  · rename_i hlive
    obtain ⟨r, hr⟩ : ∃ r, l.books.reservations.get? send = some r := by
      cases hr : l.books.reservations.get? send with
      | none => rw [Books.isLive_of_none hr] at hlive; cases hlive
      | some r => exact ⟨r, rfl⟩
    rw [Books.isLive_of_get? hr] at hlive
    have hr' : (l.append store (.lost send now)).1.books.reservations.get? send = some r := by
      rw [append_books, hr]
    have hmoved := applyResolve_account hr' store now hlive .lost
    have hordinary : (l.account store).unwritten.has send = false ∧
        (l.account store).seeded send = false ∧ send ∉ (l.account store).retained := by
      rw [hb.unwritten, hb.retained]
      exact ⟨rfl, hb.seeded send, Finset.notMem_empty send⟩
    have hrw := applyResolve_writable hw' send .lost now
    dsimp only
    split
    · rename_i hfailed
      rw [Bool.and_eq_true, Bool.not_eq_true'] at hfailed
      have hstep : Account.Step (l.account store) _ :=
        .moved hr (.lost now hlive) fun _ ↦ hordinary.1
      refine ⟨single_of_eq hstep ?_, hrw.owe hfits⟩
      rw [append_unwritten hstore hw hfailed.1] at hmoved
      exact congrArg (Account.owe · [.lost send now]) hmoved
    · cases hwritten : (l.append store (.lost send now)).2 with
      | true =>
        have hstep : Account.Step (l.account store) _ :=
          .tried true hr (.lost now hlive) fun _ ↦ hordinary
        refine ⟨single_of_eq hstep ?_, hrw⟩
        rw [hmoved, append_written hstore hw hfits hwritten]
        rfl
      | false =>
        have hstep : Account.Step (l.account store) _ :=
          .tried false hr (.lost now hlive) fun _ ↦ hordinary
        refine ⟨single_of_eq hstep ?_, hrw⟩
        rw [hmoved, append_unwritten hstore hw hwritten]
        rfl
  · exact .refl hw

/-- Where no send is kept, a tombstone may also be written for one that is not known. -/
theorem forget_unknown_tells (hstore : store.Faithful Sound) (hw : Writable Sound l)
    (hb : (l.account store).Bare) (hpaid : l.pendingRecords = []) {send : SpendAlias} {now : ℕ}
    (hunknown : l.books.reservations.has send = false)
    (hwrite : (l.append store (.forget send now)).2 = true) :
    Tells store Sound l ((l.append store (.forget send now)).1.applyForget send) := by
  have hfits : (JournalRecord.forget send now).Fits := trivial
  have hstep : Account.Step (l.account store) _ :=
    .forgot send now hpaid fun r hr ↦ absurd ((OMap.has_of_get? hr).symm.trans hunknown) (by decide)
  refine ⟨single_of_eq hstep ?_, applyForget_writable (hw.append hstore _) send⟩
  rw [applyForget, append_books, hunknown, Bool.false_and, if_neg Bool.false_ne_true,
    append_written hstore hw hfits hwrite]
  have hsends : (l.account store).sends.delete send = (l.account store).sends :=
    OMap.delete_of_not_has hunknown
  have hunwritten : (l.account store).unwritten.delete send = (l.account store).unwritten := by
    rw [hb.unwritten]
    rfl
  have hretained : (l.account store).retained.erase send = (l.account store).retained := by
    rw [hb.retained]
    rfl
  rw [hsends, hunwritten, hretained]
  rfl

theorem reconcile_tells (hstore : store.Faithful Sound) (hw : Writable Sound l)
    (hb : (l.account store).Bare) (now : ℕ) (enforced : Bool) (send : SpendAlias) :
    Tells store Sound l (reconcile store now enforced l send) := by
  have hlive : Tells store Sound l (l.reconcileLive store now enforced send) :=
    reconcileLive_tells hstore hw hb now enforced send
  have hflush := hlive.trans (flushPending_tells hstore hlive.writable)
  rw [reconcile]
  dsimp only
  split
  · exact hlive
  split
  · exact hflush
  rename_i hpaid
  have hpaid := flushPending_paid (by simpa using hpaid)
  split
  · rename_i hwrite
    refine hflush.trans ?_
    cases hknown : ((l.reconcileLive store now enforced send).flushPending
        store).1.books.reservations.has send with
    | true => exact forget_tells hstore hflush.writable hpaid hknown hwrite
    | false =>
      exact forget_unknown_tells hstore hflush.writable (Account.Steps.bare hflush.steps hb) hpaid
        hknown hwrite
  · rename_i hfailed
    have hsame := append_unwritten hstore hflush.writable (eq_false_of_ne_true hfailed)
    exact ⟨hsame.symm ▸ hflush.steps, hflush.writable.append hstore _⟩

theorem reconcileAll_tells (hstore : store.Faithful Sound) (hw : Writable Sound l)
    (hb : (l.account store).Bare) (now : ℕ) (enforced : Bool) (sends : List SpendAlias) :
    Tells store Sound l (sends.foldl (reconcile store now enforced) l) := by
  induction sends generalizing l with
  | nil => exact .refl hw
  | cons send sends ih =>
    have hone : Tells store Sound l (reconcile store now enforced l send) :=
      reconcile_tells hstore hw hb now enforced send
    exact hone.trans (ih hone.writable (Account.Steps.bare hone.steps hb))

/-! ## Calls -/

/-- A ledger on a sound journal: its books are good, and its account is sane. -/
structure Underway (store : SpendJournal J) (Sound : J → Prop) (l : SpendLedger J) : Prop where
  writable : Writable Sound l
  good : Good .nothing l
  sane : (l.account store).Sane

theorem create_underway (hstore : store.Faithful Sound) (policy : SpendReservationPolicy)
    {journal : J} (hsound : Sound journal) (hlines : HonestLines (store.read journal)) (now : ℕ) :
    Underway store Sound (create store hash policy journal now) := by
  have hbare : ((replayed store hash policy journal).account store).Bare := ⟨rfl, rfl, fun _ ↦ rfl⟩
  have hw : Writable Sound (replayed store hash policy journal) :=
    ⟨hsound, nofun, fun _ _ h ↦ nomatch h⟩
  have htells : Tells store Sound (replayed store hash policy journal)
      (create store hash policy journal now) := reconcileAll_tells hstore hw hbare now _ _
  exact ⟨htells.writable, create_good (.nothing store) hash policy trivial hlines now,
    Account.Steps.sane htells.steps (hbare.sane rfl)⟩

theorem Underway.call (h : Underway store Sound l) (hstore : store.Faithful Sound)
    (event : LedgerEvent J) : Underway store Sound (l.call store hash event) := by
  have hanswers := call_answers hash hstore h.writable h.good h.sane event
  exact ⟨hanswers.writable, (call_performs (.nothing store) h.good.seeds event).good h.good,
    hanswers.called.sane h.sane⟩

end SpendLedger

open SpendLedger

/-- The calls on a ledger that was created from a sound journal of honest lines. -/
def ledgerCalls (store : SpendJournal J) (hash : AliasHash) (Sound : J → Prop) :
    Machine (SpendLedger J) (LedgerEvent J) where
  init l := ∃ policy journal now, Sound journal ∧ HonestLines (store.read journal) ∧
    l = create store hash policy journal now
  step l event := some (l.call store hash event)

namespace SpendLedger

variable {store : SpendJournal J} {Sound : J → Prop} {hash : AliasHash} {l : SpendLedger J}

/-! ## Recovery -/

theorem resolved_resolved (r : Reservation) (time : ℕ) :
    (r.resolved .lost time).resolved .lost time = r.resolved .lost time := by
  cases hlive : r.status.isLive with
  | true => simp [Reservation.resolved, hlive, Outcome.status_isLive]
  | false => simp [Reservation.resolved, hlive]

theorem get?_reconcileAll (l : SpendLedger J) (now : ℕ) (sends : List SpendAlias) (s : SpendAlias) :
    (sends.foldl (reconcile store now false) l).books.reservations.get? s =
      if s ∈ sends then (l.books.reservations.get? s).map (·.resolved .lost now)
      else l.books.reservations.get? s := by
  induction sends generalizing l with
  | nil => rw [if_neg not_mem_nil]; rfl
  | cons send sends ih =>
    have hone : (reconcile store now false l send).books.reservations.get? s =
        if send = s then (l.books.reservations.get? s).map (·.resolved .lost now)
        else l.books.reservations.get? s := by
      show (l.reconcileLive store now false send).books.reservations.get? s = _
      rw [reconcileLive_books, Books.get?_applyResolve]
    rw [foldl_cons, ih, hone]
    by_cases heq : send = s
    · subst heq
      rw [if_pos rfl, if_pos mem_cons_self, Option.map_map]
      have htwice : ((·.resolved .lost now) ∘ (·.resolved .lost now) :
          Reservation → Reservation) = (·.resolved .lost now) :=
        funext fun r ↦ resolved_resolved r now
      rw [htwice, ite_self]
    · rw [if_neg heq]
      exact if_congr (by rw [mem_cons, or_iff_right (Ne.symm heq)]) rfl rfl

theorem get?_replay (lines : List JsString) (s : SpendAlias) :
    (replay lines (.empty, 0)).1.reservations.get? s =
      told s (lines.filterMap parseSpendJournalRecord) := by
  rw [replay_books, Books.get?_applyAll]
  rfl

theorem get?_create {policy : SpendReservationPolicy} (hpolicy : policy.spendCeilingsConfigured = false)
    (journal : J) (now : ℕ) (s : SpendAlias) :
    (create store hash policy journal now).books.reservations.get? s =
      ((replay (store.read journal) (.empty, 0)).1.reservations.get? s).map
        (·.resolved .lost now) := by
  rw [create, hpolicy, get?_reconcileAll]
  change (if s ∈ (replay (store.read journal) (.empty, 0)).1.reservations.keys then _ else
    (replay (store.read journal) (.empty, 0)).1.reservations.get? s) = _
  split
  · rfl
  · rename_i hunknown
    rw [OMap.notMem_keys.mp hunknown]
    rfl

end SpendLedger

/-! ## What the journal tells -/

section Runs

variable {store : SpendJournal J} {hash : AliasHash} {Sound : J → Prop}

theorem underway_inductive (hstore : store.Faithful Sound) :
    (ledgerCalls store hash Sound).Inductive Machine.Always (Underway store Sound) where
  init l hinit := by
    obtain ⟨policy, journal, now, hsound, hlines, rfl⟩ := hinit
    exact create_underway hstore policy hsound hlines now
  step l event l' hl _ hstep := by
    obtain rfl := some_inj.mp hstep
    exact hl.call hstore event

/-- The ledger holds the send, and has not abandoned it. -/
def SpendLedger.HoldsSend (l : SpendLedger J) (s : SpendAlias) : Prop :=
  ∃ r, l.books.reservations.get? s = some r ∧ r.status ≠ .abandoned

/-- The send is on a seed, or its reservation could not be written. -/
def SpendLedger.Retries (l : SpendLedger J) (s : SpendAlias) : Prop :=
  l.seedBySend.has s = true ∨ l.nondurableReserves.has s = true

/-- A call that leaves the send with the ledger. -/
def Keeping (store : SpendJournal J) (hash : AliasHash) (s : SpendAlias) (l l' : SpendLedger J) :
    Prop :=
  ∃ event, l' = l.call store hash event ∧ l'.HoldsSend s

/-- The journal tells of the send what the ledger holds. -/
structure Replays (store : SpendJournal J) (hash : AliasHash) (l : SpendLedger J) (s : SpendAlias)
    (r : Reservation) : Prop where
  replayed : (replay (store.read l.journal) (.empty, 0)).1.reservations.get? s = some r
  /-- Where no ceilings are configured, a new ledger holds it the same, a live one as lost. -/
  recovered : ∀ policy now, policy.spendCeilingsConfigured = false →
    (create store hash policy l.journal now).books.reservations.get? s = some (r.resolved .lost now)
  /-- Since nothing was known of it, or since a checkpoint of all that was known, it was reserved,
  dispatched and resolved in this order, each at most once. -/
  ordered : ∃ before life,
    (store.read l.journal).filterMap parseSpendJournalRecord = before ++ life ∧
      (told s before = none ∨ ∃ time scopes sends, before = [.checkpoint time scopes sends]) ∧
        (stagesOf s life).Sublist r.status.stages

variable {l : SpendLedger J} {s : SpendAlias}

theorem replays_of_standing (hs : (l.account store).Standing s) :
    ∃ r, l.books.reservations.get? s = some r ∧
      (l.nondurableReserves.has s = true → r.status = .opened) ∧
      (l.pendingRecords = [] → l.nondurableReserves.has s = false → Replays store hash l s r) := by
  obtain ⟨r, hr, hf | hu⟩ := hs
  · refine ⟨r, hr, fun hwaiting ↦ absurd (hwaiting.symm.trans hf.written) (by decide),
      fun hpaid _ ↦ ?_⟩
    have hreplay : (replay (store.read l.journal) (.empty, 0)).1.reservations.get? s = some r := by
      rw [get?_replay]
      exact hf.told_paid hpaid
    refine ⟨hreplay, fun policy now hpolicy ↦ ?_, ?_⟩
    · rw [get?_create hpolicy, hreplay, map_some]
    · obtain ⟨before, life, hheard, hbase, hstages⟩ := hf.inOrder
      change (stagesOf s (life ++ l.pendingRecords)).Sublist _ at hstages
      rw [hpaid, append_nil] at hstages
      exact ⟨before, life, hheard, hbase, hstages⟩
  · exact ⟨r, hr, fun _ ↦ hu.opened, fun _ hwritten ↦
      absurd (hu.unwritten.symm.trans hwritten) (by decide)⟩

theorem Keeping.standing (hstore : store.Faithful Sound) {l' : SpendLedger J}
    (hl : Underway store Sound l) (hs : (l.account store).Standing s)
    (h : Relation.ReflTransGen (Keeping store hash s) l l') :
    Underway store Sound l' ∧ (l'.account store).Standing s := by
  induction h with
  | refl => exact ⟨hl, hs⟩
  | tail _ hcall ih =>
    obtain ⟨event, rfl, hheld⟩ := hcall
    have hanswers := call_answers hash hstore ih.1.writable ih.1.good ih.1.sane event
    exact ⟨ih.1.call hstore event, hanswers.called.standing ih.1.sane ih.2 hheld⟩

/-- **Retried debt loses nothing and keeps its order.**  Take a send that neither the ledger nor its
journal knows, and a call that books it on a seed, or books it although its reservation could not be
written.  After any further calls that leave the send with the ledger, whatever writes failed: as soon
as nothing is owed and the reservation is not waiting for the send to move on, the journal tells of the
send what the ledger holds, and tells its records in order. -/
theorem retried_debt_replayed (hstore : store.Faithful Sound) (hash : AliasHash)
    {l₀ l : SpendLedger J} {s : SpendAlias} {event : LedgerEvent J}
    (hreach : (ledgerCalls store hash Sound).Reachable l₀)
    (hnew : l₀.books.reservations.has s = false)
    (huntold : (replay (store.read l₀.journal) (.empty, 0)).1.reservations.has s = false)
    (hheld : (l₀.call store hash event).HoldsSend s) (hretries : (l₀.call store hash event).Retries s)
    (hlater : Relation.ReflTransGen (Keeping store hash s) (l₀.call store hash event) l) :
    ∃ r, l.books.reservations.get? s = some r ∧
      (l.nondurableReserves.has s = true → r.status = .opened) ∧
      (l.pendingRecords = [] → l.nondurableReserves.has s = false → Replays store hash l s r) := by
  have hl := (underway_inductive hstore).reachable hreach
  have hu : (l₀.account store).Untold s := by
    refine ⟨hnew, ?_⟩
    show told s ((store.read l₀.journal).filterMap parseSpendJournalRecord) = none
    rw [← get?_replay]
    exact OMap.has_eq_false_iff.mp huntold
  have hanswers := call_answers hash hstore hl.writable hl.good hl.sane event
  have hs := hanswers.called.booked hl.sane hu hheld hretries
  exact replays_of_standing (Keeping.standing hstore (hl.call hstore event) hs hlater).2

end Runs

/-! ## On a journal that fails as it is told -/

/-- Lines in memory, and whether the next writes succeed; those after them do. -/
def scriptedJournal : SpendJournal (List JsString × List Bool) where
  read j := j.1
  append j line :=
    if j.2.headD true then ((j.1 ++ [line], j.2.tail), true) else ((j.1, j.2.tail), false)
  rewrite := some fun j lines ↦ ((lines, j.2), true)

theorem scriptedJournal_faithful : scriptedJournal.Faithful fun _ ↦ True where
  append j record _ := by
    refine ⟨trivial, ?_⟩
    cases hok : j.2.headD true with
    | true => simp only [scriptedJournal, hok, if_true]
    | false => simp only [scriptedJournal, hok, Bool.false_eq_true, if_false]
  rewrite rewrite hrewrite j record _ := by
    rw [← some_inj.mp hrewrite]
    exact ⟨trivial, rfl⟩

/-- Calls on a ledger that starts on an empty journal. -/
def scripted (answers : List Bool) (events : List (LedgerEvent (List JsString × List Bool))) :
    SpendLedger (List JsString × List Bool) :=
  (ledgerCalls scriptedJournal plainHash fun _ ↦ True).play
    (create scriptedJournal plainHash defaultSpendReservationPolicy ([], answers) 0) events

theorem scripted_reachable (answers : List Bool)
    (events : List (LedgerEvent (List JsString × List Bool)))
    (h : (ledgerCalls scriptedJournal plainHash fun _ ↦ True).admits Machine.Always
      (create scriptedJournal plainHash defaultSpendReservationPolicy ([], answers) 0) events =
        true) :
    (ledgerCalls scriptedJournal plainHash fun _ ↦ True).Reachable (scripted answers events) := by
  have hinit : (ledgerCalls scriptedJournal plainHash fun _ ↦ True).init
      (create scriptedJournal plainHash defaultSpendReservationPolicy ([], answers) 0) :=
    ⟨_, ([], answers), 0, trivial, nofun, rfl⟩
  exact (Machine.ReachableIf.init hinit).run (Machine.run_play h)

def sendOf (sendId : String) : SpendAlias := plainHash .send (js sendId)

theorem holds_of_any {l : SpendLedger J} {s : SpendAlias}
    (h : (l.books.reservations.get? s).any (·.status != .abandoned) = true) : l.HoldsSend s := by
  rw [Option.any_eq_true] at h
  obtain ⟨r, hr, hstatus⟩ := h
  exact ⟨r, hr, bne_iff_ne.mp hstatus⟩

/-- A seed whose anchor is written. -/
def seededLedger : SpendLedger (List JsString × List Bool) :=
  scripted [true, false] [.reserveSeed (rootRequest "anchor" "root" 50) none 1]

/-- A send is reported on it while the journal fails. -/
def reportedLedger : SpendLedger (List JsString × List Bool) :=
  seededLedger.call scriptedJournal plainHash
    (.reserveReportedFromSeed 0 (js "reported") (.finite 7) (.finite 0) 2)

/-- It is dispatched and settled, and the next pass pays. -/
def paidLedger : SpendLedger (List JsString × List Bool) :=
  ((reportedLedger.call scriptedJournal plainHash (.markDispatched (js "reported") 3)).call
    scriptedJournal plainHash (.settle (js "reported") ⟨.finite 3, .finite 4⟩ 4)).call
      scriptedJournal plainHash (.prune 5)

theorem retried_debt_replayed_late :
    reportedLedger.pendingRecords.length = 1 ∧ paidLedger.pendingRecords = [] ∧
      ∃ r, paidLedger.books.reservations.get? (sendOf "reported") = some r ∧
        r.status = .settled ∧ Replays scriptedJournal plainHash paidLedger (sendOf "reported") r := by
  have hpaid : paidLedger.pendingRecords = [] := by decide +kernel
  have hstatus : (paidLedger.books.reservations.get? (sendOf "reported")).map (·.status) =
      some .settled := by decide +kernel
  have hlater : Relation.ReflTransGen (Keeping scriptedJournal plainHash (sendOf "reported"))
      reportedLedger paidLedger :=
    ((Relation.ReflTransGen.refl.tail ⟨_, rfl, holds_of_any (by decide +kernel)⟩).tail
      ⟨_, rfl, holds_of_any (by decide +kernel)⟩).tail ⟨_, rfl, holds_of_any (by decide +kernel)⟩
  obtain ⟨r, hr, -, hreplays⟩ := retried_debt_replayed scriptedJournal_faithful plainHash
    (scripted_reachable [true, false] [.reserveSeed (rootRequest "anchor" "root" 50) none 1]
      (by decide +kernel))
    (by decide +kernel) (by decide +kernel) (holds_of_any (by decide +kernel))
    (.inl (by decide +kernel)) hlater
  rw [hr, map_some, some_inj] at hstatus
  exact ⟨by decide +kernel, hpaid, r, hr, hstatus, hreplays hpaid (by decide +kernel)⟩

/-- The reservation of a seed's anchor could not be written. -/
def unwrittenAnchor : SpendLedger (List JsString × List Bool) :=
  scripted [false] [.reserveSeed (rootRequest "anchor" "root" 50) none 1]

/-- That an ordinary send was settled could not be written; it was forgotten, and its identifier is
used again on a seed. -/
def reusedSend : SpendLedger (List JsString × List Bool) :=
  scripted [true, false]
    [.reserve (rootRequest "reused" "root" 50) 1, .settle (js "reused") ⟨.finite 30, .finite 0⟩ 2,
      .forgetResolved [js "reused"] none 3, .reserveSeed (rootRequest "anchor" "root" 10) none 4,
      .reserveReportedFromSeed 0 (js "reused") (.finite 70) (.finite 0) 5]

/-- **Nothing is owed, and the journal does not tell** of an anchor whose reservation it missed, and
tells of a reused identifier what it stood for before. -/
theorem retried_debt_not_replayed :
    (ledgerCalls scriptedJournal plainHash fun _ ↦ True).Reachable unwrittenAnchor ∧
      unwrittenAnchor.seedBySend.has (sendOf "anchor") = true ∧
      unwrittenAnchor.pendingRecords = [] ∧
      (unwrittenAnchor.books.reservations.get? (sendOf "anchor")).map (·.tokens) = some 50 ∧
      (replay (scriptedJournal.read unwrittenAnchor.journal) (.empty, 0)).1.reservations.get?
        (sendOf "anchor") = none ∧
      (ledgerCalls scriptedJournal plainHash fun _ ↦ True).Reachable reusedSend ∧
      reusedSend.seedBySend.has (sendOf "reused") = true ∧ reusedSend.pendingRecords = [] ∧
      (reusedSend.books.reservations.get? (sendOf "reused")).map (·.tokens) = some 70 ∧
      ((replay (scriptedJournal.read reusedSend.journal) (.empty, 0)).1.reservations.get?
        (sendOf "reused")).map (·.tokens) = some 50 := by
  refine ⟨scripted_reachable _ _ (by decide +kernel), ?_, ?_, ?_, ?_,
    scripted_reachable _ _ (by decide +kernel), ?_, ?_, ?_, ?_⟩
  all_goals decide +kernel

end Spend
