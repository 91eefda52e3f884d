import OpenCodex.Spend.Runs

/-!
# Reserved tokens are conserved

What the ledger says of a scope agrees with what it says of its sends, in every state of every run:
on any journal that makes nothing up, whether its writes succeed or not, through compaction,
reconfiguration and restarts.  A scope's reserved tokens are those of its live sends, so the
subtraction that resolves one never meets its floor; and along the history of the books each booking
of a send is resolved once, by its usage, as unresolved spend, or without a trace.
-/

set_option autoImplicit false

open List Option

namespace Spend

variable {J : Type} {store : SpendJournal J}

namespace Books

variable {b b₀ : Books}

/-- Resolving a live send takes no scope below zero. -/
def ClampInert (b : Books) : Prop :=
  ∀ send r, b.reservations.get? send = some r → r.status.isLive = true →
    ∀ ref ∈ r.targets, r.tokens ≤ (b.figures ref).reserved

theorem Sums.clampInert (h : Sums b) : ClampInert b := fun _ _ hr hlive _ href ↦
  h.tokens_le hr hlive href

/-- **A history of the books**: these records lead from one state to the other, each booking in it
is resolved once or still live, and the figures of a scope add up. -/
structure Accounted (b₀ b : Books) (records : List JournalRecord) : Prop where
  books : b = b₀.applyAll records
  once : ∀ send, b₀.bookings send records + (b₀.isLive send).toNat =
    b₀.resolutions send records + (b.isLive send).toNat
  settled : ∀ ref, (∀ time, .drop ref time ∉ records) →
    (b.figures ref).settled = (b₀.figures ref).settled + b₀.sumAlong (·.settledNow ref ·) records
  unresolved : ∀ ref, (∀ time, .drop ref time ∉ records) →
    (b.figures ref).unresolved =
      (b₀.figures ref).unresolved + b₀.sumAlong (·.lostNow ref ·) records
  clamp : ∀ part, part <+: records → (b₀.applyAll part).ClampInert

variable {records : List JournalRecord}

theorem Sums.accounted (h : Sums b₀) (hstep : ∀ record ∈ records, record.IsStep)
    (hw : ∀ record ∈ records, record.WellFormed) : Accounted b₀ (b₀.applyAll records) records where
  books := rfl
  once send := bookings_eq_resolutions b₀ send hstep
  settled ref hkeep := (figures_applyAll h hstep hw hkeep).1
  unresolved ref hkeep := (figures_applyAll h hstep hw hkeep).2
  clamp part hpart := (h.applyAll fun record hr ↦ hw record (hpart.subset hr)).clampInert

theorem exists_applyAll_origin (b : Books) (records : List JournalRecord) :
    ∃ steps, steps <:+ records ∧ (∀ record ∈ steps, record.IsStep) ∧
      b.applyAll records = (b.origin records).applyAll steps := by
  induction records generalizing b with
  | nil => exact ⟨[], suffix_refl _, nofun, rfl⟩
  | cons record records ih =>
    rw [Books.origin]
    split
    · obtain ⟨steps, hsuffix, hsteps, heq⟩ := ih (b.apply record)
      exact ⟨steps, hsuffix.trans (suffix_cons ..), hsteps, heq⟩
    · rename_i hnone
      refine ⟨record :: records, suffix_refl _, fun record' hr ↦ ?_, rfl⟩
      have hno := List.any_eq_false.mp (eq_false_of_ne_true hnone) record' hr
      cases record' with
      | checkpoint time scopes sends => exact absurd rfl hno
      | _ => trivial

theorem Sums.origin (h : Sums b) (hw : ∀ record ∈ records, record.WellFormed) :
    Sums (b.origin records) := by
  induction records generalizing b with
  | nil => exact h
  | cons record records ih =>
    rw [forall_mem_cons] at hw
    rw [Books.origin]
    split
    · exact ih (h.apply hw.1) hw.2
    · exact h

theorem sumAlong_eq_zero {effect : Books → JournalRecord → ℕ}
    (h : ∀ record ∈ records, ∀ b, effect b record = 0) : b.sumAlong effect records = 0 := by
  induction records generalizing b with
  | nil => rfl
  | cons record records ih =>
    rw [forall_mem_cons] at h
    rw [sumAlong, h.1, ih h.2]

end Books

namespace SpendLedger

variable {hash : AliasHash} {l l' : SpendLedger J}

theorem replay_books (lines : List JsString) (state : Books × ℕ) :
    (replay lines state).1 = state.1.applyAll (lines.filterMap parseSpendJournalRecord) := by
  induction lines generalizing state with
  | nil => rfl
  | cons line lines ih =>
    rw [replay, ih, replayLine]
    split
    · rename_i record hrecord
      rw [filterMap_cons_some hrecord]
      rfl
    · rename_i hnone
      rw [filterMap_cons_none hnone]
      split
      · rfl
      · rfl

theorem Performs.resolved {T : Trust J} (h : Performs T l l') {send : SpendAlias}
    (hknown : l.books.reservations.has send = true) (hdead : l.books.isLive send = false) :
    l'.books.isLive send = false := by
  obtain ⟨records, mid, hm, hf, hcomp⟩ := h
  rw [hcomp.books, hm.books]
  have hsteps := hm.legal.isStep
  have hnever : l.books.bookings send records = 0 := by
    refine Books.sumAlong_eq_zero fun record hr b ↦ ?_
    cases record with
    | reserve send' targets tokens time =>
      have hne : send' ≠ send := by
        rintro rfl
        rw [hf _ _ _ _ hr] at hknown
        nomatch hknown
      rw [Books.booksNow, beq_eq_false_iff_ne.mpr hne, Bool.false_and]
      rfl
    | _ => rfl
  have honce := Books.bookings_eq_resolutions l.books send hsteps
  rw [hnever, hdead] at honce
  cases hlive : (l.books.applyAll records).isLive send with
  | false => rfl
  | true =>
    rw [hlive] at honce
    nomatch honce

end SpendLedger

namespace LedgerRun

open SpendLedger

variable {hash : AliasHash} {run run' : LedgerRun J}

/-- A journal is trusted to be honest, and not to be sound. -/
def honestTrust (store : SpendJournal J) : Trust J :=
  ⟨fun _ ↦ False, fun j ↦ HonestLines (store.read j), store.read⟩

/-- **A truthful journal stays honest** under every write of a ledger. -/
theorem Truthful.reliable (h : store.Truthful) : Reliable store (honestTrust store) where
  append _ _ hs := hs.elim
  rewrite _ _ _ _ hs := hs.elim
  appendHonest j record hj hw := by
    intro line hline record' hrecord
    rcases h.append j record.line line hline with hold | rfl | hnone
    · exact hj line hold record' hrecord
    · rw [parse_line hw.fits, some_inj] at hrecord
      exact hrecord ▸ hw
    · rw [hnone] at hrecord
      nomatch hrecord
  rewriteHonest rewrite hrewrite j record hj hw := by
    intro line hline record' hrecord
    rcases h.rewrite rewrite hrewrite j _ line hline with hold | hnew | hnone
    · exact hj line hold record' hrecord
    · rw [mem_singleton.mp hnew, parse_line hw.fits, some_inj] at hrecord
      exact hrecord ▸ hw
    · rw [hnone] at hrecord
      nomatch hrecord

/-- The ledger is good, and its books have a history of steps. -/
structure Recorded (store : SpendJournal J) (run : LedgerRun J) : Prop where
  good : Good (honestTrust store) run.ledger
  origin : run.origin.Sums
  history : ∃ records, run.ledger.books = run.origin.applyAll records ∧
    (∀ record ∈ records, record.IsStep) ∧ ∀ record ∈ records, record.WellFormed

theorem created_recorded (hstore : store.Truthful) (policy : SpendReservationPolicy) {journal : J}
    (hlines : HonestLines (store.read journal)) (now : ℕ) :
    Recorded store (created store hash policy journal now) := by
  have hreliable := Truthful.reliable hstore
  have hw : ∀ record ∈ (store.read journal).filterMap parseSpendJournalRecord,
      record.WellFormed := by
    intro record hr
    obtain ⟨line, hline, hrecord⟩ := mem_filterMap.mp hr
    exact hlines line hline record hrecord
  obtain ⟨recovery, hm, -⟩ := create_moves hreliable hash policy journal now
  obtain ⟨steps, hsuffix, hsteps, heq⟩ := Books.exists_applyAll_origin .empty
    ((store.read journal).filterMap parseSpendJournalRecord)
  refine ⟨create_good hreliable hash policy hlines hlines now, Books.empty_sums.origin hw,
    steps ++ recovery, ?_, forall_mem_append.mpr ⟨hsteps, hm.legal.isStep⟩,
    forall_mem_append.mpr ⟨fun record hr ↦ hw record (hsuffix.subset hr), hm.legal.wellFormed⟩⟩
  show (SpendLedger.create store hash policy journal now).books = _
  rw [hm.books, Books.applyAll_append]
  exact congrArg (Books.applyAll · recovery) ((replay_books ..).trans heq)

theorem honestLines_of_leaves {lines left : List JsString} (h : HonestLines lines)
    (hleft : leavesOf lines left = true) : HonestLines left := by
  intro line hline record hrecord
  have hline := List.all_eq_true.mp hleft line hline
  rw [Bool.or_eq_true, contains_iff_mem, hrecord] at hline
  exact h line (hline.resolve_right Bool.false_ne_true) record hrecord

variable {event : LedgerEvent J}

theorem after_call (hcall : ∀ policy journal now, event ≠ .restart policy journal now) :
    run.after store hash event = some { run with ledger := run.ledger.call store hash event } := by
  rw [after]
  exact hcall

theorem after_cases (h : run.after store hash event = some run') :
    (run'.origin = run.origin ∧ run'.ledger = run.ledger.call store hash event) ∨
      ∃ policy journal now, leavesOf (store.read run.ledger.journal) (store.read journal) = true ∧
        run' = created store hash policy journal now := by
  by_cases hcall : ∀ policy journal now, event ≠ .restart policy journal now
  · rw [after_call hcall, some_inj] at h
    rw [← h]
    exact .inl ⟨rfl, rfl⟩
  · push Not at hcall
    obtain ⟨policy, journal, now, rfl⟩ := hcall
    rw [after] at h
    split at h
    · rename_i hleft
      exact .inr ⟨policy, journal, now, hleft, (some_inj.mp h).symm⟩
    · nomatch h

theorem recorded_inductive (hstore : store.Truthful) :
    (ledgerRuns store hash).Inductive Machine.Always (Recorded store) where
  init run hinit := by
    obtain ⟨policy, journal, now, hempty, rfl⟩ := hinit
    refine created_recorded hstore policy (fun line hline ↦ ?_) now
    rw [hempty] at hline
    exact absurd hline not_mem_nil
  step run event run' hrun _ hstep := by
    rcases after_cases hstep with ⟨horigin, hledger⟩ | ⟨policy, journal, now, hleft, rfl⟩
    · obtain ⟨records, hbooks, hsteps, hw⟩ := hrun.history
      have hperforms : Performs (honestTrust store) run.ledger (run.ledger.call store hash event) :=
        call_performs (Truthful.reliable hstore) hrun.good.seeds event
      rw [← hledger] at hperforms
      have hgood := hperforms.good hrun.good
      obtain ⟨more, mid, hm, -, hcomp⟩ := hperforms
      refine ⟨hgood, horigin ▸ hrun.origin, records ++ more, ?_,
        forall_mem_append.mpr ⟨hsteps, hm.legal.isStep⟩,
        forall_mem_append.mpr ⟨hw, hm.legal.wellFormed⟩⟩
      rw [hcomp.books, hm.books, hbooks, horigin, Books.applyAll_append]
    · exact created_recorded hstore policy (honestLines_of_leaves hrun.good.kept.journal hleft) now

end LedgerRun

/-- Lines in memory, and whether the next write succeeds. -/
def flakyJournal : SpendJournal (List JsString × Bool) where
  read j := j.1
  append j line := if j.2 then ((j.1 ++ [line], false), true) else ((j.1, true), false)
  rewrite := some fun j lines ↦ ((lines, j.2), true)

theorem flakyJournal_truthful : flakyJournal.Truthful where
  append j line line' h := by
    cases hok : j.2 with
    | true =>
      simp only [flakyJournal, hok, if_true, mem_append, mem_singleton] at h
      exact h.imp_right .inl
    | false =>
      simp only [flakyJournal, hok, Bool.false_eq_true, if_false] at h
      exact .inl h
  rewrite rewrite hrewrite j lines line' h := by
    rw [← some_inj.mp hrewrite] at h
    exact .inr (.inl h)

/-- Two sends of one root, the second not written; the first settles. -/
def flakyRun : LedgerRun (List JsString × Bool) :=
  (ledgerRuns flakyJournal plainHash).play
    (.created flakyJournal plainHash defaultSpendReservationPolicy ([], true) 0)
    [.reserve (rootRequest "first" "root" 50) 1, .reserve (rootRequest "second" "root" 7) 2,
      .markDispatched (js "first") 3, .settle (js "first") ⟨.finite 10, .finite 20⟩ 4]

end Spend
