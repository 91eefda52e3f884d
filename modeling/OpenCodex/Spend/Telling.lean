import OpenCodex.Spend.Bookings
import OpenCodex.Spend.Refusal

/-!
# What a call tells the journal

On a journal where a write takes effect or fails (`Faithful`), every write of the ledger is a step of
its account: what is written is heard, and what could not be written is owed or lost.  This file goes
through the calls of the ledger and finds the steps of each (`call_called`).
-/

set_option autoImplicit false

open List

namespace Spend

variable {J : Type}

/-- A journal on which a write takes effect or fails, as long as it is in a sound state. -/
structure SpendJournal.Faithful (store : SpendJournal J) (Sound : J → Prop) : Prop where
  append : ∀ j (record : JournalRecord), Sound j →
    Sound (store.append j record.line).1 ∧
      store.read (store.append j record.line).1 =
        if (store.append j record.line).2 then store.read j ++ [record.line] else store.read j
  rewrite : ∀ rewrite, store.rewrite = some rewrite → ∀ j (record : JournalRecord), Sound j →
    Sound (rewrite j [record.line]).1 ∧
      store.read (rewrite j [record.line]).1 =
        if (rewrite j [record.line]).2 then [record.line] else store.read j

namespace SpendLedger

/-- The account of a ledger. -/
def account (store : SpendJournal J) (l : SpendLedger J) : Account where
  sends := l.books.reservations
  heard := (store.read l.journal).filterMap parseSpendJournalRecord
  owed := l.pendingRecords
  unwritten := l.nondurableReserves
  retained := l.retainedOrdinary
  seeded := l.seedBySend.has

/-- The journal is sound, and what may still be written to it can be read back. -/
structure Writable (Sound : J → Prop) (l : SpendLedger J) : Prop where
  sound : Sound l.journal
  pending : ∀ record ∈ l.pendingRecords, record.Fits
  nondurable : ∀ send record, l.nondurableReserves.get? send = some record → record.Fits

/-- Steps of the account lead from the one ledger to the other, and it can go on. -/
structure Tells (store : SpendJournal J) (Sound : J → Prop) (l l' : SpendLedger J) : Prop where
  steps : Account.Steps (l.account store) (l'.account store)
  writable : Writable Sound l'

variable {store : SpendJournal J} {Sound : J → Prop} {hash : AliasHash} {l l' l'' : SpendLedger J}
  {record : JournalRecord} {time : ℕ}

theorem Tells.refl (hw : Writable Sound l) : Tells store Sound l l := ⟨.refl, hw⟩

theorem Tells.trans (h : Tells store Sound l l') (h' : Tells store Sound l' l'') :
    Tells store Sound l l'' :=
  ⟨h.steps.trans h'.steps, h'.writable⟩

/-! ## Writing -/

theorem append_same (store : SpendJournal J) (l : SpendLedger J) (record : JournalRecord) :
    ∃ j onDisk failures, (l.append store record).1 =
      { l with journal := j, recordsOnDisk := onDisk, persistFailures := failures } := by
  rw [append]
  split
  · exact ⟨_, _, _, rfl⟩
  · exact ⟨_, _, _, rfl⟩

theorem append_journal (record : JournalRecord) :
    (l.append store record).1.journal = (store.append l.journal record.line).1 ∧
      (l.append store record).2 = (store.append l.journal record.line).2 := by
  rw [append]
  split
  · exact ⟨rfl, ‹_ = true›.symm⟩
  · exact ⟨rfl, (eq_false_of_ne_true ‹_›).symm⟩

theorem Writable.append (hw : Writable Sound l) (hstore : store.Faithful Sound)
    (record : JournalRecord) : Writable Sound (l.append store record).1 := by
  have hsound : Sound (l.append store record).1.journal := by
    rw [(append_journal record).1]
    exact (hstore.append _ record hw.sound).1
  obtain ⟨j, onDisk, failures, heq⟩ := append_same store l record
  rw [heq] at hsound ⊢
  exact ⟨hsound, hw.pending, hw.nondurable⟩

theorem append_read (hstore : store.Faithful Sound) (hw : Writable Sound l)
    (record : JournalRecord) : store.read (l.append store record).1.journal =
      if (l.append store record).2 then store.read l.journal ++ [record.line]
      else store.read l.journal := by
  rw [(append_journal record).1, (append_journal record).2]
  exact (hstore.append _ record hw.sound).2

theorem append_written (hstore : store.Faithful Sound) (hw : Writable Sound l)
    (hfits : record.Fits) (h : (l.append store record).2 = true) :
    (l.append store record).1.account store = (l.account store).hear record := by
  have hread := append_read hstore hw record
  rw [h, if_pos rfl] at hread
  obtain ⟨j, onDisk, failures, heq⟩ := append_same store l record
  rw [heq] at hread ⊢
  rw [account]
  dsimp only at hread ⊢
  rw [hread, filterMap_append, filterMap_cons_some (parse_line hfits)]
  rfl

theorem append_unwritten (hstore : store.Faithful Sound) (hw : Writable Sound l)
    (h : (l.append store record).2 = false) :
    (l.append store record).1.account store = l.account store := by
  have hread := append_read hstore hw record
  rw [h, if_neg Bool.false_ne_true] at hread
  obtain ⟨j, onDisk, failures, heq⟩ := append_same store l record
  rw [heq] at hread ⊢
  rw [account]
  dsimp only at hread ⊢
  rw [hread]
  rfl

theorem Writable.owe (hw : Writable Sound l) (hfits : record.Fits) :
    Writable Sound { l with pendingRecords := l.pendingRecords ++ [record] } :=
  ⟨hw.sound, forall_mem_append.mpr ⟨hw.pending, forall_mem_singleton.mpr hfits⟩, hw.nondurable⟩

variable {a : Account}

theorem single_of_eq {a' b : Account} (h : Account.Step a a') (heq : b = a') : Account.Steps a b :=
  .single (heq ▸ h)

theorem paid_alone (hpaid : a.owed = []) (record : JournalRecord) :
    Account.Step (a.owe [record]) { a.hear record with owed := [] } := by
  have howed : (a.owe [record]).owed = record :: [] := by rw [Account.owe, hpaid, nil_append]
  exact .paid howed

/-- A record that alone is owed is paid, in an account that stays as it was otherwise. -/
theorem paid_at_once (hpaid : a.owed = []) (record : JournalRecord) :
    Account.Step (a.owe [record]) (a.hear record) := by
  have hsame : { a.hear record with owed := [] } = a.hear record := by
    rw [← show (a.hear record).owed = [] from hpaid]
  exact hsame ▸ paid_alone hpaid record

/-- **A record that is owed until it is there** is owed, and perhaps paid at once. -/
theorem appendReported_tells (hstore : store.Faithful Sound) (hw : Writable Sound l)
    (hfits : record.Fits) : Account.Steps ((l.account store).owe [record])
        ((l.appendReported store record).account store) ∧
      Writable Sound (l.appendReported store record) := by
  have howe := hw.owe hfits
  rw [appendReported]
  dsimp only
  split
  · rename_i hpaid
    have hwrite := howe.append hstore record
    split
    · rename_i hok
      have hstep := paid_alone (a := l.account store) hpaid record
      have hheard := congrArg (fun a : Account ↦ { a with owed := [] })
        (append_written hstore howe hfits hok)
      exact ⟨single_of_eq hstep hheard, hwrite.sound, forall_mem_nil _, hwrite.nondurable⟩
    · rename_i hfailed
      rw [append_unwritten hstore howe (eq_false_of_ne_true hfailed)]
      exact ⟨.refl, hwrite⟩
  · exact ⟨.refl, howe⟩

/-- **A record that must not be lost** is owed, and perhaps paid at once. -/
theorem appendTerminal_tells (hstore : store.Faithful Sound) (hw : Writable Sound l)
    (hfits : record.Fits) : Account.Steps ((l.account store).owe [record])
        ((l.appendTerminal store record).account store) ∧
      Writable Sound (l.appendTerminal store record) := by
  rw [appendTerminal]
  split
  · exact ⟨.refl, hw.owe hfits⟩
  rename_i hpaid
  have hpaid := not_not.mp hpaid
  have hwrite := hw.append hstore record
  dsimp only
  split
  · rename_i hok
    rw [append_written hstore hw hfits hok]
    exact ⟨.single (paid_at_once hpaid record), hwrite⟩
  · rename_i hfailed
    have hsame : ({ (l.append store record).1 with
        pendingRecords := (l.append store record).1.pendingRecords ++ [record] } :
          SpendLedger J).account store = (l.account store).owe [record] :=
      congrArg (Account.owe · [record]) (append_unwritten hstore hw (eq_false_of_ne_true hfailed))
    rw [hsame]
    exact ⟨.refl, hwrite.owe hfits⟩

/-! ## Cleaning up -/

theorem isLive_eq_false {b : Books} {send : SpendAlias} (h : b.isLive send = false) :
    ∀ r, b.reservations.get? send = some r → r.status.isLive = false := by
  intro r hr
  rw [← Books.isLive_of_get? hr]
  exact h

theorem CleanStep.tells (h : CleanStep store time l l') (hstore : store.Faithful Sound)
    (hw : Writable Sound l) : Tells store Sound l l' := by
  cases h with
  | @paid record records howed hwrite =>
    have hall := howed ▸ hw.pending
    rw [forall_mem_cons] at hall
    have hw' := hw.append hstore record
    refine ⟨single_of_eq (.paid howed) ?_, hw'.sound, hall.2, hw'.nondurable⟩
    exact congrArg (fun a : Account ↦ { a with owed := records })
      (append_written hstore hw hall.1 hwrite)
  | @failed record hwrite =>
    exact ⟨append_unwritten hstore hw hwrite ▸ .refl, hw.append hstore record⟩
  | @forgot send hpaid hdead hwrite =>
    have hw' := hw.append hstore (.forget send time)
    have hfits : (JournalRecord.forget send time).Fits := trivial
    refine ⟨single_of_eq (.forgot send time hpaid (isLive_eq_false hdead)) ?_, hw'.sound,
      hw'.pending, fun s record h ↦ hw'.nondurable s record (OMap.get?_of_delete h)⟩
    exact congrArg (fun a : Account ↦ { a with
      sends := a.sends.delete send
      unwritten := a.unwritten.delete send
      retained := a.retained.erase send }) (append_written hstore hw hfits hwrite)
  | @dropped ref state hpaid hstate hmay hwrite =>
    have hw' := hw.append hstore (.drop ref time)
    have hfits : (JournalRecord.drop ref time).Fits := trivial
    exact ⟨single_of_eq (.noted ref time) (append_written hstore hw hfits hwrite),
      hw'.sound, hw'.pending, hw'.nondurable⟩

theorem CleansUp.tells (h : CleansUp store time l l') (hstore : store.Faithful Sound)
    (hw : Writable Sound l) : Tells store Sound l l' := by
  induction h with
  | refl => exact .refl hw
  | tail _ hstep ih => exact ih.trans (hstep.tells hstore ih.writable)

theorem flushPending_tells (hstore : store.Faithful Sound) (hw : Writable Sound l) :
    Tells store Sound l (l.flushPending store).1 := by
  have hclean : CleansUp store 0 l (l.flushPending store).1 := flushPending_cleansUp
  exact CleansUp.tells hclean hstore hw

/-! ## Compaction -/

/-- **Compaction** leaves the journal, or replaces it by a checkpoint of what the ledger holds. -/
theorem compact_steps (hstore : store.Faithful Sound) (hw : Writable Sound l) (hs : l.books.Sums)
    (ht : l.books.Tracked) (seeded : SpendAlias → Bool) (time : ℕ) :
    Account.Steps { l.account store with seeded := seeded }
        { (l.compact store time).account store with seeded := seeded } ∧
      Writable Sound (l.compact store time) := by
  rw [compact]
  split
  · exact ⟨.refl, hw⟩
  rename_i rewrite hrewrite
  split
  · exact ⟨.refl, hw⟩
  rename_i hfull
  rw [not_or, not_not] at hfull
  obtain ⟨hsound, hread⟩ := hstore.rewrite rewrite hrewrite l.journal (l.books.checkpointRecord time)
    hw.sound
  dsimp only
  split
  · rename_i hok
    rw [hok, if_pos rfl] at hread
    have hstep : Account.Step { l.account store with seeded := seeded }
        { l.account store with seeded := seeded, heard := [l.books.checkpointRecord time] } :=
      .compacted hfull.1 fun s ↦ congrArg (fun b : Books ↦ b.reservations.get? s)
        (Books.apply_checkpointRecord hs ht time .empty)
    refine ⟨single_of_eq hstep ?_, hsound, hw.pending, hw.nondurable⟩
    rw [account]
    dsimp only
    rw [hread, filterMap_cons_some (parse_line (hs.checkpointRecord time).fits)]
    rfl
  · rename_i hfailed
    rw [eq_false_of_ne_true hfailed, if_neg Bool.false_ne_true] at hread
    refine ⟨?_, hsound, hw.pending, hw.nondurable⟩
    rw [account, account]
    dsimp only
    rw [hread]

theorem compact_seedBySend (time : ℕ) : (l.compact store time).seedBySend = l.seedBySend := by
  rw [compact]
  split
  · rfl
  split
  · rfl
  dsimp only
  split
  · rfl
  · rfl

theorem compact_tells (hstore : store.Faithful Sound) (hw : Writable Sound l) (hs : l.books.Sums)
    (ht : l.books.Tracked) (time : ℕ) : Tells store Sound l (l.compact store time) := by
  obtain ⟨hsteps, hw'⟩ := compact_steps hstore hw hs ht l.seedBySend.has time
  have hseeded : (l.compact store time).account store =
      { (l.compact store time).account store with seeded := l.seedBySend.has } := by
    have hsame : (l.compact store time).seedBySend = l.seedBySend := compact_seedBySend time
    rw [← hsame]
    rfl
  exact ⟨hseeded ▸ hsteps, hw'⟩

/-! ## Moving on -/

section Moving

variable {send : SpendAlias} {r : Reservation} (hr : l.books.reservations.get? send = some r)
include hr

theorem applyResolve_account (store : SpendJournal J) (time : ℕ) (hlive : r.status.isLive = true)
    (outcome : Outcome) : (l.applyResolve send outcome time).account store =
      (l.account store).move send { r with status := outcome.status, resolvedAt := time } := by
  rw [applyResolve, Books.isLive_of_get? hr, if_pos hlive, account, Account.move,
    outcome.status_isLive]
  dsimp only
  rw [Books.applyResolve, hr]
  dsimp only
  rw [hlive]
  rfl

theorem applyDispatch_account (store : SpendJournal J) (time : ℕ) (hopen : r.status = .opened) :
    (l.applyDispatch send time).account store =
      (l.account store).move send { r with status := .dispatched, resolvedAt := time } := by
  rw [applyDispatch, account, Books.applyDispatch, hr]
  dsimp only
  rw [if_neg (not_not.mpr hopen)]
  rfl

/-- **A send moves on**, once what the journal misses of it is owed; and the record of this is owed. -/
theorem repaired_step (hsane : (l.account store).Sane) {r' : Reservation}
    (hmove : Move send r record r') : Account.Step (l.account store)
      ((((l.repairReservePrefix send r).account store).move send r').owe [record]) := by
  rw [repairReservePrefix]
  split
  · rename_i hnone
    exact .moved hr hmove fun _ ↦ OMap.has_eq_false_iff.mpr hnone
  · rename_i reserve hreserve
    obtain ⟨targets, tokens, time, rfl, hr'⟩ := hsane.unwritten send reserve hreserve
    obtain rfl := Option.some_inj.mp (hr.symm.trans hr')
    exact .recovered hreserve hr hmove

theorem repaired_writable (hsane : (l.account store).Sane) (hw : Writable Sound l) :
    Writable Sound (l.repairReservePrefix send r) := by
  rw [repairReservePrefix]
  split
  · exact hw
  · rename_i reserve hreserve
    obtain ⟨targets, tokens, time, rfl, hr'⟩ := hsane.unwritten send reserve hreserve
    obtain rfl := Option.some_inj.mp (hr.symm.trans hr')
    refine ⟨hw.sound, forall_mem_append.mpr ⟨hw.pending, forall_mem_singleton.mpr ?_⟩,
      fun s record h ↦ hw.nondurable s record (OMap.get?_of_delete h)⟩
    exact hw.nondurable send _ hreserve

end Moving

theorem repaired_of_not_retained (store : SpendJournal J) {send : SpendAlias} {r : Reservation}
    (h : (l.repairReservePrefix send r).retained send = false) :
    l.repairReservePrefix send r = l ∧ (l.account store).unwritten.has send = false ∧
      (l.account store).seeded send = false ∧ send ∉ (l.account store).retained := by
  have hsame : l.repairReservePrefix send r = l ∧ l.nondurableReserves.get? send = none := by
    rw [repairReservePrefix] at h ⊢
    split
    · exact ⟨rfl, ‹_›⟩
    · rename_i reserve hreserve
      rw [hreserve, retained, Bool.or_eq_false_iff] at h
      exact absurd (Finset.mem_insert_self send l.retainedOrdinary) (of_decide_eq_false h.2)
  rw [hsame.1, retained, Bool.or_eq_false_iff] at h
  exact ⟨hsame.1, OMap.has_eq_false_iff.mpr hsame.2, h.1, of_decide_eq_false h.2⟩

theorem tried_tells {m : SpendLedger J} {send : SpendAlias} {r r' : Reservation}
    (hstore : store.Faithful Sound) (hw : Writable Sound m)
    (hmoved : m.account store = (l.account store).move send r')
    (hr : l.books.reservations.get? send = some r) (hmove : Move send r record r')
    (hfits : record.Fits) (hordinary : r'.status ≠ .abandoned →
      (l.account store).unwritten.has send = false ∧ (l.account store).seeded send = false ∧
        send ∉ (l.account store).retained) : Tells store Sound l (m.append store record).1 := by
  refine ⟨?_, hw.append hstore record⟩
  cases hwritten : (m.append store record).2 with
  | true =>
    have hstep : Account.Step (l.account store) (((l.account store).move send r').hear record) :=
      .tried true hr hmove hordinary
    exact single_of_eq hstep (by rw [append_written hstore hw hfits hwritten, hmoved])
  | false =>
    have hstep : Account.Step (l.account store) ((l.account store).move send r') :=
      .tried false hr hmove hordinary
    exact single_of_eq hstep (by rw [append_unwritten hstore hw hwritten, hmoved])

theorem markDispatched_tells (hstore : store.Faithful Sound) (hw : Writable Sound l)
    (hsane : (l.account store).Sane) (sendId : JsString) (now : ℕ) :
    Tells store Sound l (l.markDispatched store hash sendId now).1 := by
  rw [markDispatched]
  dsimp only
  split
  · exact .refl hw
  rename_i r hr
  split_ifs with hsent hopen
  · exact .refl hw
  · exact .refl hw
  · -- the send is kept
    rename_i hkept
    have hopen := not_not.mp hopen
    have hr' : (l.repairReservePrefix (hash .send sendId) r).books.reservations.get?
        (hash .send sendId) = some r := by rw [repairReservePrefix_books, hr]
    have hmoved := applyDispatch_account hr' store now hopen
    have hrw := repaired_writable hr hsane hw
    have hmw : Writable Sound ((l.repairReservePrefix (hash .send sendId) r).applyDispatch
      (hash .send sendId) now) := ⟨hrw.sound, hrw.pending, hrw.nondurable⟩
    have hfits : (JournalRecord.dispatch (hash .send sendId) now).Fits := trivial
    obtain ⟨hsteps, hw'⟩ := appendReported_tells hstore hmw hfits
    rw [hmoved] at hsteps
    exact ⟨.head (repaired_step hr hsane (.dispatch now hopen)) hsteps, hw'⟩
  · rename_i hkept
    have hopen := not_not.mp hopen
    obtain ⟨heq, hordinary⟩ := repaired_of_not_retained store (eq_false_of_ne_true hkept)
    rw [heq]
    have hmw : Writable Sound (l.applyDispatch (hash .send sendId) now) :=
      ⟨hw.sound, hw.pending, hw.nondurable⟩
    have hfits : (JournalRecord.dispatch (hash .send sendId) now).Fits := trivial
    exact tried_tells hstore hmw (applyDispatch_account hr store now hopen) hr (.dispatch now hopen) hfits
      fun _ ↦ hordinary

theorem applyResolve_writable (hw : Writable Sound l) (send : SpendAlias) (outcome : Outcome)
    (time : ℕ) : Writable Sound (l.applyResolve send outcome time) := by
  rw [applyResolve]
  split
  · exact ⟨hw.sound, hw.pending, fun s record h ↦ hw.nondurable s record (OMap.get?_of_delete h)⟩
  · exact hw

theorem applyResolve_appendTerminal {send : SpendAlias} (hlive : l.books.isLive send = true)
    (outcome : Outcome) (record : JournalRecord) :
    (l.appendTerminal store record).applyResolve send outcome time =
      (l.applyResolve send outcome time).appendTerminal store record := by
  rw [applyResolve, applyResolve, appendTerminal_books, if_pos hlive, if_pos hlive]
  by_cases hpaid : l.pendingRecords = []
  · rw [appendTerminal, appendTerminal, if_neg (not_not.mpr hpaid), if_neg (not_not.mpr hpaid)]
    dsimp only
    rw [append, append]
    dsimp only
    split
    · rfl
    · rfl
  · rw [appendTerminal, appendTerminal, if_pos hpaid, if_pos hpaid]

variable {now : ℕ}

theorem resolveSend_tells (hstore : store.Faithful Sound) (hw : Writable Sound l)
    (hsane : (l.account store).Sane) (sendId : JsString) {outcome : Outcome}
    {record : SpendAlias → JournalRecord}
    (hmove : ∀ send r, r.status.isLive = true → Move send r (record send)
      { r with status := outcome.status, resolvedAt := now }) (hfits : ∀ send, (record send).Fits) :
    Tells store Sound l (l.resolveSend store hash sendId outcome record now).1 := by
  rw [resolveSend]
  dsimp only
  split
  · exact .refl hw
  rename_i r hr
  split
  · exact .refl hw
  rename_i hlive
  have hlive : r.status.isLive = true := by simpa using hlive
  split
  · have hr' : (l.repairReservePrefix (hash .send sendId) r).books.reservations.get?
        (hash .send sendId) = some r := by rw [repairReservePrefix_books, hr]
    have hmoved := applyResolve_account hr' store now hlive outcome
    have hmw := applyResolve_writable (repaired_writable hr hsane hw) (hash .send sendId) outcome now
    obtain ⟨hsteps, hw'⟩ := appendTerminal_tells hstore hmw (hfits (hash .send sendId))
    rw [hmoved] at hsteps
    rw [applyResolve_appendTerminal ((Books.isLive_of_get? hr').trans hlive)]
    exact ⟨.head (repaired_step hr hsane (hmove _ r hlive)) hsteps, hw'⟩
  · rename_i hkept
    obtain ⟨heq, hordinary⟩ := repaired_of_not_retained store (eq_false_of_ne_true hkept)
    rw [heq]
    exact tried_tells hstore (applyResolve_writable hw _ _ _) (applyResolve_account hr store now hlive outcome)
      hr (hmove _ r hlive) (hfits _) fun _ ↦ hordinary

theorem abandon_tells (hstore : store.Faithful Sound) (hw : Writable Sound l) (sendId : JsString)
    (now : ℕ) : Tells store Sound l (l.abandon store hash sendId now).1 := by
  have hfits : (JournalRecord.abandon (hash .send sendId) now).Fits := trivial
  rw [abandon]
  dsimp only
  split
  · exact .refl hw
  rename_i r hr
  split
  · exact .refl hw
  rename_i hopen
  have hlive : r.status.isLive = true := by rw [not_not.mp hopen]; rfl
  split
  · rename_i seed hseed
    have hflush := flushPending_tells hstore hw
    split
    · exact hflush
    rename_i hpaid
    have hpaid := flushPending_paid (by simpa using hpaid)
    have hr' : (l.flushPending store).1.books.reservations.get? (hash .send sendId) = some r := by
      rw [flushPending_books, hr]
    have hw' := hflush.writable.append hstore (.abandon (hash .send sendId) now)
    split
    · rename_i hfailed
      have hsame := append_unwritten hstore hflush.writable (by simpa using hfailed)
      exact ⟨hsame.symm ▸ hflush.steps, hw'⟩
    · rename_i hwritten
      have hr'' : ((l.flushPending store).1.append store
          (.abandon (hash .send sendId) now)).1.books.reservations.get? (hash .send sendId) =
            some r := by rw [append_books, hr']
      have hmoved := applyResolve_account hr'' store now hlive .abandoned
      have hheard := append_written hstore hflush.writable hfits (by simpa using hwritten)
      have hsame : ∀ m : SpendLedger J, (m.abandonSeed seed).account store = m.account store := by
        intro m
        rw [abandonSeed]
        split
        · rfl
        · rfl
      have habandoned (m : SpendLedger J) (hm : Writable Sound m) :
          Writable Sound (m.abandonSeed seed) := by
        rw [abandonSeed]
        split
        · exact hm
        · exact ⟨hm.sound, hm.pending, hm.nondurable⟩
      have hstep : Account.Step ((l.flushPending store).1.account store) _ :=
        .moved hr' (.abandon now hlive) fun hkept ↦ absurd rfl hkept
      refine ⟨(hflush.steps.tail hstep).trans (single_of_eq (paid_at_once hpaid _) ?_),
        habandoned _ (applyResolve_writable hw' _ _ _)⟩
      rw [hsame, hmoved, hheard]
      rfl
  · refine tried_tells hstore (applyResolve_writable hw _ _ _) (applyResolve_account hr store now hlive _)
      hr (.abandon now hlive) hfits fun hkept ↦ absurd rfl hkept

/-! ## Forgetting -/

theorem append_pendingRecords (record : JournalRecord) :
    (l.append store record).1.pendingRecords = l.pendingRecords := by
  obtain ⟨j, onDisk, failures, heq⟩ := append_same store l record
  rw [heq]

theorem applyForget_writable (hw : Writable Sound l) (send : SpendAlias) :
    Writable Sound (l.applyForget send) := by
  rw [applyForget]
  split
  · exact ⟨hw.sound, hw.pending, fun s record h ↦ hw.nondurable s record (OMap.get?_of_delete h)⟩
  · exact hw

/-- A tombstone that is written forgets the send if it is resolved, and does nothing otherwise. -/
theorem forget_tells (hstore : store.Faithful Sound) (hw : Writable Sound l)
    (hpaid : l.pendingRecords = []) {send : SpendAlias}
    (hknown : l.books.reservations.has send = true)
    (hwrite : (l.append store (.forget send time)).2 = true) :
    Tells store Sound l ((l.append store (.forget send time)).1.applyForget send) := by
  have hfits : (JournalRecord.forget send time).Fits := trivial
  have hheard := append_written hstore hw hfits hwrite
  have hw' := applyForget_writable (hw.append hstore (.forget send time)) send
  obtain ⟨r, hr⟩ := OMap.has_iff.mp hknown
  cases hlive : r.status.isLive with
  | true =>
    refine ⟨single_of_eq (.reminded time hpaid hr hlive) ?_, hw'⟩
    rw [applyForget, append_books, Books.isLive_of_get? hr, hlive, Bool.not_true, Bool.and_false,
      if_neg Bool.false_ne_true, hheard]
  | false =>
    have hdead : ∀ r', (l.account store).sends.get? send = some r' → r'.status.isLive = false := by
      intro r' hr'
      obtain rfl := Option.some_inj.mp (hr.symm.trans hr')
      exact hlive
    have hbooks : l.books.applyForget send =
        { l.books with reservations := l.books.reservations.delete send } := by
      rw [Books.applyForget, hr]
      dsimp only
      rw [hlive, if_neg Bool.false_ne_true]
    refine ⟨single_of_eq (.forgot send time hpaid hdead) ?_, hw'⟩
    rw [applyForget, append_books, Books.isLive_of_get? hr, hlive, hknown, Bool.not_false,
      Bool.and_true, if_pos rfl, hbooks]
    have hsends : l.books.reservations = (l.append store (.forget send time)).1.books.reservations := by
      rw [append_books]
    rw [hsends]
    exact congrArg (fun a : Account ↦ { a with
      sends := a.sends.delete send
      unwritten := a.unwritten.delete send
      retained := a.retained.erase send }) hheard

theorem applyForget_pendingRecords (send : SpendAlias) :
    (l.applyForget send).pendingRecords = l.pendingRecords := by
  rw [applyForget]
  split
  · rfl
  · rfl

theorem forgetEach_tells (hstore : store.Faithful Sound) (hw : Writable Sound l)
    (hpaid : l.pendingRecords = []) (now : ℕ) (sends : List SpendAlias) :
    Tells store Sound l (forgetEach store now sends l).1 := by
  induction sends generalizing l with
  | nil => exact .refl hw
  | cons send sends ih =>
    rw [forgetEach]
    split
    · exact ih hw hpaid
    rename_i hknown
    dsimp only
    split
    · rename_i hfailed
      have hsame := append_unwritten hstore hw (by simpa using hfailed)
      exact ⟨hsame.symm ▸ .refl, hw.append hstore _⟩
    · rename_i hwrite
      have hforget : Tells store Sound l ((l.append store (.forget send now)).1.applyForget send) :=
        forget_tells hstore hw hpaid (by simpa using hknown) (by simpa using hwrite)
      refine hforget.trans (ih hforget.writable ?_)
      rw [applyForget_pendingRecords, append_pendingRecords, hpaid]

theorem forgetResolved_tells (hstore : store.Faithful Sound) (hw : Writable Sound l)
    (sendIds : List JsString) (owner : Option ℕ) (now : ℕ) :
    Tells store Sound l (l.forgetResolved store hash sendIds owner now).1 := by
  have hflush := flushPending_tells hstore hw
  rw [forgetResolved]
  split
  · exact .refl hw
  dsimp only
  split
  · exact .refl hw
  split
  · exact hflush
  rename_i hpaid
  split
  · exact hflush
  · exact hflush.trans (forgetEach_tells hstore hflush.writable
      (flushPending_paid (by simpa using hpaid)) now _)

theorem forgetAnchor_tells (hstore : store.Faithful Sound) (hw : Writable Sound l)
    (hpaid : l.pendingRecords = []) (owned : SeedState) (now : ℕ) :
    Tells store Sound l (l.forgetAnchor store hash owned now).1 := by
  rw [forgetAnchor]
  dsimp only
  split
  · rename_i hknown
    split
    · rename_i hfailed
      have hsame := append_unwritten hstore hw (by simpa using hfailed)
      exact ⟨hsame.symm ▸ .refl, hw.append hstore _⟩
    · rename_i hwrite
      exact forget_tells hstore hw hpaid hknown (by simpa using hwrite)
  · exact .refl hw

theorem has_foldl_delete (sends : List SpendAlias) (m : OMap SpendAlias ℕ) (s : SpendAlias) :
    (sends.foldl OMap.delete m).has s = (decide (s ∉ sends) && m.has s) := by
  induction sends generalizing m with
  | nil => simp
  | cons send sends ih =>
    rw [foldl_cons, ih, OMap.has_delete, ← Bool.and_assoc, ← Bool.decide_and]
    refine congrArg (· && m.has s) (decide_eq_decide.mpr ?_)
    rw [mem_cons, not_or, and_comm]

theorem finishSeed_tells (hstore : store.Faithful Sound) (hw : Writable Sound l) (seed : ℕ)
    (owner : Option ℕ) (now : ℕ) :
    Tells store Sound l (l.finishSeed store hash seed owner now).1 := by
  have hflush := flushPending_tells hstore hw
  rw [finishSeed]
  split
  · exact .refl hw
  rename_i owned howned
  split
  · exact .refl hw
  dsimp only
  split
  · exact hflush
  rename_i hpaid
  have hpaid := flushPending_paid (by simpa using hpaid)
  obtain ⟨r, hr⟩ : ∃ r, r = if owned.abandoned then
      (l.flushPending store).1.forgetAnchor store hash owned now
      else ((l.flushPending store).1, (l.flushPending store).1.activeReporters owner == 0) :=
    ⟨_, rfl⟩
  have hanchor : Tells store Sound l r.1 := by
    rw [hr]
    split
    · exact hflush.trans (forgetAnchor_tells hstore hflush.writable hpaid owned now)
    · exact hflush
  rw [← hr]
  split
  · exact hanchor
  split
  · exact hanchor
  · rename_i hgone
    have hw' := hanchor.writable
    refine ⟨hanchor.steps.trans (.single (.unseeded _ (fun s hs ↦ ?_) fun s hs ↦ ?_)), hw'.sound,
      hw'.pending, hw'.nondurable⟩
    · change (owned.sends.foldl OMap.delete r.1.seedBySend).has s = true at hs
      rw [has_foldl_delete, Bool.and_eq_true] at hs
      exact hs.2
    · have hnot : s ∉ owned.sends := fun hmem ↦ hgone (List.any_eq_true.mpr ⟨s, hmem, hs⟩)
      show (owned.sends.foldl OMap.delete r.1.seedBySend).has s = r.1.seedBySend.has s
      rw [has_foldl_delete, decide_eq_true hnot, Bool.true_and]

theorem prune_tells (hstore : store.Faithful Sound) (hw : Writable Sound l) (time : ℕ) :
    Tells store Sound l (l.prune store time) := by
  have hclean : CleansUp store time l (l.prune store time) :=
    (flushPending_cleansUp.trans (evictSends_cleansUp false)).trans (evictScopes_cleansUp false)
  exact CleansUp.tells hclean hstore hw

/-! ## Booking -/

theorem append_seedBySend (record : JournalRecord) :
    (l.append store record).1.seedBySend = l.seedBySend := by
  obtain ⟨j, onDisk, failures, heq⟩ := append_same store l record
  rw [heq]

theorem CleansUp.seedBySend_eq (h : CleansUp store time l l') : l'.seedBySend = l.seedBySend := by
  induction h with
  | refl => rfl
  | tail _ hstep ih =>
    refine Eq.trans ?_ ih
    cases hstep with
    | _ => exact append_seedBySend _

variable {booking : SpendBooking}

theorem reserve_booked {request : SpendReservationRequest}
    (h : (l.reserve store hash request now).2 = .ok booking) :
    ∃ room, CleansUp store (request.time.getD now) l room ∧
      l.books.reservations.has (hash .send request.sendId) = false ∧
      l.seedBySend.has (hash .send request.sendId) = false ∧
      l.reserve store hash request now = room.book store hash request (request.time.getD now) := by
  have hflush : CleansUp store (request.time.getD now) l (l.flushPending store).1 :=
    flushPending_cleansUp
  rw [reserve] at h ⊢
  dsimp only at h ⊢
  split at h
  · cases h
  rename_i hnone
  split at h
  · cases h
  rename_i hroom
  split at h
  · cases h
  rename_i hscopes
  refine ⟨_, hflush.trans (makeRoom_cleansUp (refsFor hash request.scopes)), ?_, ?_, ?_⟩
  · rw [denialBeforeRoom] at hnone
    split at hnone
    · cases hnone
    rename_i hnew
    rw [Bool.or_eq_true, not_or, flushPending_books] at hnew
    exact eq_false_of_ne_true hnew.1
  · rw [denialBeforeRoom] at hnone
    split at hnone
    · cases hnone
    rename_i hnew
    rw [Bool.or_eq_true, not_or, CleansUp.seedBySend_eq hflush] at hnew
    exact eq_false_of_ne_true hnew.2
  · rfl

/-- The record a request is booked with. -/
def bookingRecord (hash : AliasHash) (request : SpendReservationRequest) (time : ℕ) :
    JournalRecord :=
  .reserve (hash .send request.sendId) (refsFor hash request.scopes) request.tokens time

/-- The ledger in which a request is booked, before it is compacted. -/
def booked (store : SpendJournal J) (hash : AliasHash) (l : SpendLedger J)
    (request : SpendReservationRequest) (time : ℕ) : SpendLedger J :=
  let record := bookingRecord hash request time
  let r := l.append store record
  let booked := r.1.applyReserve (hash .send request.sendId) (refsFor hash request.scopes)
    request.tokens time
  if r.2 then booked else
    { booked with
      nondurableReserves := booked.nondurableReserves.set (hash .send request.sendId) record }

variable {request : SpendReservationRequest}

theorem book_ok (h : (l.book store hash request time).2 = .ok booking) :
    (l.book store hash request time).1 = (l.booked store hash request time).compact store time := by
  rw [book] at h ⊢
  split at h
  · cases h
  · rename_i hbooked
    rw [if_neg hbooked]
    rfl

theorem bookingRecord_fits : (bookingRecord hash request time).Fits :=
  (refsFor_good hash request.scopes).2

theorem booked_writable (hstore : store.Faithful Sound) (hw : Writable Sound l) :
    Writable Sound (l.booked store hash request time) := by
  have hw' := hw.append hstore (bookingRecord hash request time)
  rw [booked]
  split
  · exact ⟨hw'.sound, hw'.pending, hw'.nondurable⟩
  · refine ⟨hw'.sound, hw'.pending, fun s record h ↦ ?_⟩
    rw [OMap.get?_set] at h
    split at h
    · exact Option.some_inj.mp h ▸ bookingRecord_fits
    · exact hw'.nondurable s record h

theorem booked_account (hstore : store.Faithful Sound) (hw : Writable Sound l)
    (hnew : l.books.reservations.has (hash .send request.sendId) = false) :
    (l.booked store hash request time).account store =
      { (if (l.append store (bookingRecord hash request time)).2 then
            (l.account store).hear (bookingRecord hash request time) else { l.account store with
            unwritten := l.nondurableReserves.set (hash .send request.sendId)
              (bookingRecord hash request time) }) with
        sends := l.books.reservations.set (hash .send request.sendId)
          ⟨refsFor hash request.scopes, request.tokens, .opened, time, time⟩
        seeded := l.seedBySend.has } := by
  have hsends : ((l.append store (bookingRecord hash request time)).1.applyReserve
      (hash .send request.sendId) (refsFor hash request.scopes) request.tokens
        time).books.reservations = l.books.reservations.set (hash .send request.sendId)
          ⟨refsFor hash request.scopes, request.tokens, .opened, time, time⟩ := by
    show ((l.append store _).1.books.applyReserve _ _ _ _).reservations = _
    rw [append_books, Books.applyReserve, hnew, if_neg Bool.false_ne_true]
  have hseed : (l.append store (bookingRecord hash request time)).1.seedBySend = l.seedBySend :=
    append_seedBySend _
  rw [booked]
  dsimp only
  split
  · rename_i hwritten
    refine Eq.trans ?_ (congrArg (fun a : Account ↦ { a with
      sends := l.books.reservations.set (hash .send request.sendId)
        ⟨refsFor hash request.scopes, request.tokens, .opened, time, time⟩
      seeded := l.seedBySend.has }) (append_written hstore hw bookingRecord_fits hwritten))
    rw [← hsends, ← hseed]
    rfl
  · rename_i hfailed
    refine Eq.trans ?_ (congrArg (fun a : Account ↦ { a with
      sends := l.books.reservations.set (hash .send request.sendId)
        ⟨refsFor hash request.scopes, request.tokens, .opened, time, time⟩
      unwritten := a.unwritten.set (hash .send request.sendId) (bookingRecord hash request time)
      seeded := l.seedBySend.has }) (append_unwritten hstore hw (eq_false_of_ne_true hfailed)))
    rw [← hsends, ← hseed]
    rfl

/-- **Booking a request**, perhaps as the first send of a seed. -/
theorem book_called (hstore : store.Faithful Sound) (hw : Writable Sound l)
    (hnew : l.books.reservations.has (hash .send request.sendId) = false)
    (hseeded : l.seedBySend.has (hash .send request.sendId) = false)
    (hok : (l.book store hash request time).2 = .ok booking)
    (hs : (l.book store hash request time).1.books.Sums)
    (ht : (l.book store hash request time).1.books.Tracked) (seed : Bool) :
    ∃ after, Account.Booking (hash .send request.sendId) (l.account store) after ∧
      Account.Steps after { (l.book store hash request time).1.account store with
          seeded := fun s ↦ (seed && s == hash .send request.sendId) || l.seedBySend.has s } ∧
        Writable Sound (l.book store hash request time).1 := by
  rw [book_ok hok, compact_books] at hs ht
  obtain ⟨hsteps, hw'⟩ := compact_steps hstore (booked_writable hstore hw) hs ht
    (fun s ↦ (seed && s == hash .send request.sendId) || l.seedBySend.has s) time
  rw [book_ok hok]
  refine ⟨_, .reserved (refsFor hash request.scopes) request.tokens time
    (l.append store (bookingRecord hash request time)).2 seed hnew hseeded, ?_, hw'⟩
  rw [booked_account hstore hw hnew] at hsteps
  exact hsteps

theorem booked_seedBySend : (l.booked store hash request time).seedBySend = l.seedBySend := by
  have hseed : (l.append store (bookingRecord hash request time)).1.seedBySend = l.seedBySend :=
    append_seedBySend _
  rw [booked]
  split
  · exact hseed
  · exact hseed

theorem reserve_account (hstore : store.Faithful Sound) (hw : Writable Sound l)
    (hok : (l.reserve store hash request now).2 = .ok booking)
    (hs : (l.reserve store hash request now).1.books.Sums)
    (ht : (l.reserve store hash request now).1.books.Tracked) (seed : Bool) :
    Account.Called (l.account store) { (l.reserve store hash request now).1.account store with
        seeded := fun s ↦ (seed && s == hash .send request.sendId) || l.seedBySend.has s } ∧
      Writable Sound (l.reserve store hash request now).1 ∧
      (l.reserve store hash request now).1.seedBySend = l.seedBySend := by
  obtain ⟨room, hclean, hnew, hseeded, heq⟩ := reserve_booked hok
  have hroom : Tells store Sound l room := CleansUp.tells hclean hstore hw
  have hsame : room.seedBySend = l.seedBySend := CleansUp.seedBySend_eq hclean
  rw [heq] at hok hs ht ⊢
  obtain ⟨after, hbooking, hsteps, hw'⟩ := book_called hstore hroom.writable
    (Account.Steps.has_eq_false hroom.steps hnew) (hsame ▸ hseeded) hok hs ht seed
  rw [hsame] at hsteps
  refine ⟨⟨_, after, hroom.steps, .inr ⟨_, hnew, hbooking⟩, hsteps⟩, hw', ?_⟩
  rw [book_ok hok, compact_seedBySend, booked_seedBySend, hsame]

/-- What a call does to the account, and that the ledger can go on. -/
structure Answers (store : SpendJournal J) (Sound : J → Prop) (l l' : SpendLedger J) : Prop where
  called : Account.Called (l.account store) (l'.account store)
  writable : Writable Sound l'

theorem Tells.answers (h : Tells store Sound l l') : Answers store Sound l l' :=
  ⟨.of_steps h.steps, h.writable⟩

theorem reserve_answers (hstore : store.Faithful Sound) (hw : Writable Sound l)
    (hg : Good .nothing l) (request : SpendReservationRequest) (now : ℕ) :
    Answers store Sound l (l.reserve store hash request now).1 := by
  have hgood := (reserve_performs (.nothing store) hash request now).good hg
  cases hdecision : (l.reserve store hash request now).2 with
  | error denial => exact (CleansUp.tells (refused_cleansUp hdecision) hstore hw).answers
  | ok booking =>
    obtain ⟨hcalled, hw', hseed⟩ := reserve_account hstore hw hdecision hgood.sums hgood.tracked false
    rw [← hseed] at hcalled
    exact ⟨hcalled, hw'⟩

theorem reserveSeed_answers (hstore : store.Faithful Sound) (hw : Writable Sound l)
    (hg : Good .nothing l) (request : SpendReservationRequest) (owner : Option ℕ) (now : ℕ) :
    Answers store Sound l (l.reserveSeed store hash request owner now).1 := by
  have hgood := (reserve_performs (.nothing store) hash { request with alreadySent := false }
    now).good hg
  rw [reserveSeed]
  dsimp only
  split
  · rename_i hdenied
    exact (CleansUp.tells (refused_cleansUp hdenied) hstore hw).answers
  · rename_i hok
    obtain ⟨hcalled, hw', hseed⟩ := reserve_account hstore hw hok hgood.sums hgood.tracked true
    refine ⟨?_, hw'.sound, hw'.pending, hw'.nondurable⟩
    have hseeded : (((l.reserve store hash { request with alreadySent := false } now).1.seedBySend.set
        (hash .send request.sendId) (l.reserve store hash { request with alreadySent := false }
          now).1.seedCount).has) =
        fun s ↦ (true && s == hash .send request.sendId) || l.seedBySend.has s := by
      funext s
      rw [OMap.has_set, hseed, Bool.true_and]
      rfl
    rw [← hseeded] at hcalled
    exact hcalled

/-- The ledger in which a send is enrolled on a seed, before its record is written. -/
def enrolled (l : SpendLedger J) (seed : ℕ) (owned : SeedState) (send : SpendAlias)
    (tokens time : ℕ) : SpendLedger J :=
  { l.applyReserve send owned.targets tokens time with
    seeds := l.seeds.set seed { owned with sends := owned.sends ++ [send] }
    seedBySend := l.seedBySend.set send seed }

/-- **Enrolling a send** on a seed books it, and its record is owed. -/
theorem enrolled_booking {owned : SeedState} {send : SpendAlias}
    (hnew : l.books.reservations.has send = false) (hseeded : l.seedBySend.has send = false)
    (seed tokens time : ℕ) : Account.Booking send (l.account store)
      (((l.enrolled seed owned send tokens time).account store).owe
        [.reserve send owned.targets tokens time]) := by
  have hsends : (l.enrolled seed owned send tokens time).books.reservations =
      l.books.reservations.set send ⟨owned.targets, tokens, .opened, time, time⟩ := by
    show (l.books.applyReserve _ _ _ _).reservations = _
    rw [Books.applyReserve, hnew, if_neg Bool.false_ne_true]
  have hmarked : (l.enrolled seed owned send tokens time).seedBySend.has =
      fun s ↦ s == send || l.seedBySend.has s := by
    funext s
    exact OMap.has_set ..
  have heq : ((l.enrolled seed owned send tokens time).account store).owe
      [.reserve send owned.targets tokens time] =
        { (l.account store).owe [.reserve send owned.targets tokens time] with
          sends := l.books.reservations.set send ⟨owned.targets, tokens, .opened, time, time⟩
          seeded := fun s ↦ s == send || l.seedBySend.has s } := by
    rw [← hsends, ← hmarked]
    rfl
  rw [heq]
  exact .enrolled owned.targets tokens time hnew hseeded

theorem reserveReportedFromSeed_answers (hstore : store.Faithful Sound) (hw : Writable Sound l)
    (hg : Good .nothing l) (seed : ℕ) (sendId : JsString)
    (inputTokens outputCeilingTokens : JsNumber) (now : ℕ) : Answers store Sound l
      (l.reserveReportedFromSeed store hash seed sendId inputTokens outputCeilingTokens now).1 := by
  have hgood := (reserveReportedFromSeed_performs (.nothing store) hg.seeds hash seed sendId
    inputTokens outputCeilingTokens now).good hg
  have hs := hgood.sums
  have ht := hgood.tracked
  rw [reserveReportedFromSeed] at hs ht ⊢
  split
  · exact (Tells.refl hw).answers
  rename_i owned howned
  simp only [howned] at hs ht
  dsimp only at hs ht ⊢
  split
  · exact (Tells.refl hw).answers
  rename_i husable
  rw [if_neg husable] at hs ht
  split
  · exact (Tells.refl hw).answers
  rename_i hnew
  rw [if_neg hnew] at hs ht
  rw [Bool.or_eq_true, not_or] at hnew
  have hsends := eq_false_of_ne_true hnew.1
  have hfits (tokens : ℕ) :
      (JournalRecord.reserve (hash .send sendId) owned.targets tokens now).Fits :=
    (hg.seeds seed owned howned).2
  dsimp only at hs ht ⊢
  rw [compact_books] at hs ht
  have hew (tokens : ℕ) : Writable Sound (l.enrolled seed owned (hash .send sendId) tokens now) :=
    ⟨hw.sound, hw.pending, hw.nondurable⟩
  obtain ⟨hsteps, hw'⟩ := appendReported_tells hstore (hew _) (hfits _)
  have hcompact := compact_tells hstore hw' hs ht now
  exact ⟨⟨_, _, .refl, .inr ⟨_, hsends, enrolled_booking hsends (eq_false_of_ne_true hnew.2) ..⟩,
    hsteps.trans hcompact.steps⟩, hcompact.writable⟩

/-- **Every call** does steps, with at most one booking among them. -/
theorem call_answers (hash : AliasHash) (hstore : store.Faithful Sound) (hw : Writable Sound l)
    (hg : Good .nothing l) (hsane : (l.account store).Sane) (event : LedgerEvent J) :
    Answers store Sound l (l.call store hash event) := by
  cases event with
  | reserve request now => exact reserve_answers hstore hw hg request now
  | reserveSeed request owner now => exact reserveSeed_answers hstore hw hg request owner now
  | reserveReportedFromSeed seed sendId inputTokens outputCeilingTokens now =>
    exact reserveReportedFromSeed_answers hstore hw hg seed sendId inputTokens
      outputCeilingTokens now
  | markDispatched sendId now => exact (markDispatched_tells hstore hw hsane sendId now).answers
  | abandon sendId now => exact (abandon_tells hstore hw sendId now).answers
  | settle sendId usage now =>
    have hfits (send : SpendAlias) : (JournalRecord.settle send usage.tokens now).Fits := trivial
    exact (resolveSend_tells hstore hw hsane sendId
      (fun send r hlive ↦ .settle usage.tokens now hlive) hfits).answers
  | markLost sendId now =>
    have hfits (send : SpendAlias) : (JournalRecord.lost send now).Fits := trivial
    exact (resolveSend_tells hstore hw hsane sendId
      (fun send r hlive ↦ .lost now hlive) hfits).answers
  | forgetResolved sendIds owner now =>
    exact (forgetResolved_tells hstore hw sendIds owner now).answers
  | finishSeed seed owner now => exact (finishSeed_tells hstore hw seed owner now).answers
  | prune time => exact (prune_tells hstore hw time).answers
  | registerReporter owner | closeReporter owner | reconfigure next =>
    exact ⟨.of_steps .refl, hw.sound, hw.pending, hw.nondurable⟩
  | restart policy journal now => exact (Tells.refl hw).answers

end SpendLedger

end Spend
