import OpenCodex.Spend.Replay
import OpenCodex.Data.Machine

/-!
# Runs of the ledger

Any sequence of calls, reconfigurations and restarts, on any journal.  A journal may fail to write,
and a crash may cost it lines or leave a torn one behind; what it does not do is to make up records
(`Truthful`).  A ledger that starts on an empty journal then reads only records of ledgers before it.

Beside the ledger a state keeps the books its history starts from: those of the last checkpoint that
was replayed, or empty ones.
-/

set_option autoImplicit false

namespace Spend

variable {J : Type}

/-- What happens to a ledger. -/
inductive LedgerEvent (J : Type) where
  | reserve (request : SpendReservationRequest) (now : ℕ)
  | reserveSeed (request : SpendReservationRequest) (owner : Option ℕ) (now : ℕ)
  | reserveReportedFromSeed (seed : ℕ) (sendId : JsString)
      (inputTokens outputCeilingTokens : JsNumber) (now : ℕ)
  | markDispatched (sendId : JsString) (now : ℕ)
  | abandon (sendId : JsString) (now : ℕ)
  | settle (sendId : JsString) (usage : SpendUsage) (now : ℕ)
  | markLost (sendId : JsString) (now : ℕ)
  | forgetResolved (sendIds : List JsString) (owner : Option ℕ) (now : ℕ)
  | finishSeed (seed : ℕ) (owner : Option ℕ) (now : ℕ)
  | prune (time : ℕ)
  | registerReporter (owner : Option ℕ)
  | closeReporter (owner : Option ℕ)
  | reconfigure (next : SpendReservationPolicy)
  /-- A new ledger is created from what the crash has left of the journal. -/
  | restart (policy : SpendReservationPolicy) (journal : J) (now : ℕ)

/-- A journal makes nothing up: what is read was there before, was written, or is no record. -/
structure SpendJournal.Truthful (store : SpendJournal J) : Prop where
  append : ∀ j line, ∀ line' ∈ store.read (store.append j line).1,
    line' ∈ store.read j ∨ line' = line ∨ parseSpendJournalRecord line' = none
  rewrite : ∀ rewrite, store.rewrite = some rewrite → ∀ j lines,
    ∀ line' ∈ store.read (rewrite j lines).1,
      line' ∈ store.read j ∨ line' ∈ lines ∨ parseSpendJournalRecord line' = none

/-- A ledger and the books its history starts from. -/
structure LedgerRun (J : Type) where
  origin : Books
  ledger : SpendLedger J

def JournalRecord.isCheckpoint : JournalRecord → Bool
  | .checkpoint _ _ _ => true
  | _ => false

/-- The books of the last checkpoint among these records, else those before them. -/
def Books.origin (b : Books) : List JournalRecord → Books
  | [] => b
  | record :: records =>
    if (record :: records).any JournalRecord.isCheckpoint then (b.apply record).origin records
    else b

namespace SpendLedger

/-- What a call makes of the ledger; a restart is no call. -/
def call (store : SpendJournal J) (hash : AliasHash) (l : SpendLedger J) :
    LedgerEvent J → SpendLedger J
  | .reserve request now => (l.reserve store hash request now).1
  | .reserveSeed request owner now => (l.reserveSeed store hash request owner now).1
  | .reserveReportedFromSeed seed sendId inputTokens outputCeilingTokens now =>
    (l.reserveReportedFromSeed store hash seed sendId inputTokens outputCeilingTokens now).1
  | .markDispatched sendId now => (l.markDispatched store hash sendId now).1
  | .abandon sendId now => (l.abandon store hash sendId now).1
  | .settle sendId usage now => (l.settle store hash sendId usage now).1
  | .markLost sendId now => (l.markLost store hash sendId now).1
  | .forgetResolved sendIds owner now => (l.forgetResolved store hash sendIds owner now).1
  | .finishSeed seed owner now => (l.finishSeed store hash seed owner now).1
  | .prune time => l.prune store time
  | .registerReporter owner => l.registerReporter owner
  | .closeReporter owner => l.closeReporter owner
  | .reconfigure next => l.reconfigure hash next
  | .restart _ _ _ => l

end SpendLedger

/-- What a crash may leave of some lines: all that it leaves was there, or is no record. -/
def leavesOf (lines left : List JsString) : Bool :=
  left.all fun line ↦ lines.contains line || (parseSpendJournalRecord line).isNone

/-- A ledger that is created from a journal. -/
def LedgerRun.created (store : SpendJournal J) (hash : AliasHash) (policy : SpendReservationPolicy)
    (journal : J) (now : ℕ) : LedgerRun J :=
  ⟨Books.empty.origin ((store.read journal).filterMap parseSpendJournalRecord),
    .create store hash policy journal now⟩

/-- One event. -/
def LedgerRun.after (store : SpendJournal J) (hash : AliasHash) (run : LedgerRun J) :
    LedgerEvent J → Option (LedgerRun J)
  | .restart policy journal now =>
    if leavesOf (store.read run.ledger.journal) (store.read journal) then
      some (.created store hash policy journal now)
    else none
  | event => some { run with ledger := run.ledger.call store hash event }

/-- The runs of ledgers that start on an empty journal. -/
def ledgerRuns (store : SpendJournal J) (hash : AliasHash) :
    Machine (LedgerRun J) (LedgerEvent J) where
  init run := ∃ policy journal now, store.read journal = [] ∧
    run = .created store hash policy journal now
  step run event := run.after store hash event

/-- A send of so many tokens, on behalf of a root. -/
def rootRequest (sendId rootId : String) (tokens : ℕ) : SpendReservationRequest :=
  ⟨none, js sendId, ⟨some (js rootId), none, none⟩, .finite tokens, .finite 0, none, false⟩

def rootRef (rootId : String) : ScopeRef := ⟨.root, plainHash (.scope .root) (js rootId)⟩

namespace SpendLedger

variable {store : SpendJournal J} {T : Trust J} {hash : AliasHash} {l l' : SpendLedger J}

/-! ## What holds of every ledger -/

/-- The books agree with themselves, and what may be written is well formed. -/
structure Good (T : Trust J) (l : SpendLedger J) : Prop where
  sums : l.books.Sums
  tracked : l.books.Tracked
  seeds : GoodSeeds l
  kept : Kept T l

theorem Moves.good {records : List JournalRecord} (h : Moves T l l' records)
    (hg : Good T l) : Good T l' where
  sums := h.books ▸ hg.sums.applyAll h.legal.wellFormed
  tracked := h.books ▸ hg.tracked.applyAll hg.sums h.legal
  seeds := h.seeds hg.seeds
  kept := h.kept hg.kept

theorem Performs.good (h : Performs T l l') (hg : Good T l) : Good T l' := by
  obtain ⟨records, mid, hm, -, hcomp⟩ := h
  have hmid := hm.good hg
  exact ⟨hcomp.books ▸ hmid.sums, hcomp.books ▸ hmid.tracked, hcomp.seeds hmid.seeds,
    hcomp.kept hmid.sums hmid.kept⟩

/-- **Every call performs.** -/
theorem call_performs (hstore : Reliable store T) (hg : GoodSeeds l) (event : LedgerEvent J) :
    Performs T l (l.call store hash event) := by
  cases event with
  | reserve request now => exact reserve_performs hstore hash request now
  | reserveSeed request owner now => exact reserveSeed_performs hstore hash request owner now
  | reserveReportedFromSeed seed sendId inputTokens outputCeilingTokens now =>
    exact reserveReportedFromSeed_performs hstore hg hash seed sendId inputTokens
      outputCeilingTokens now
  | markDispatched sendId now => exact markDispatched_performs hstore hash sendId now
  | abandon sendId now => exact abandon_performs hstore hash sendId now
  | settle sendId usage now => exact settle_performs hstore hash sendId usage now
  | markLost sendId now => exact markLost_performs hstore hash sendId now
  | forgetResolved sendIds owner now => exact forgetResolved_performs hstore hash sendIds owner now
  | finishSeed seed owner now => exact finishSeed_performs hstore hash seed owner now
  | prune time => exact prune_performs hstore time
  | registerReporter owner => exact registerReporter_performs owner
  | closeReporter owner => exact closeReporter_performs owner
  | reconfigure next => exact reconfigure_performs hash next
  | restart policy journal now => exact .refl l

theorem tracked_of_not_live {b : Books} (h : ∀ send, b.isLive send = false) : b.Tracked := by
  refine ⟨fun send r hr hlive ↦ ?_, fun send r hr hopen ↦ ?_⟩
  · rw [← Books.isLive_of_get? hr, h send] at hlive
    nomatch hlive
  · have hlive := h send
    rw [Books.isLive_of_get? hr, hopen] at hlive
    nomatch hlive

/-- **A ledger created from an honest journal is good.** -/
theorem create_good (hstore : Reliable store T) (hash : AliasHash)
    (policy : SpendReservationPolicy) {journal : J} (hj : T.Honest journal)
    (hlines : HonestLines (store.read journal)) (now : ℕ) :
    Good T (create store hash policy journal now) := by
  obtain ⟨records, hm, hrec⟩ := create_moves hstore hash policy journal now
  have hsums : (replayed store hash policy journal).books.Sums :=
    replay_sums hlines Books.empty_sums
  have hw : ∀ record ∈ records, record.WellFormed := hm.legal.wellFormed
  refine ⟨hm.books ▸ hsums.applyAll hw,
    tracked_of_not_live (create_not_live hash policy journal now), hm.seeds ?_, hm.kept ?_⟩
  · rintro _ _ ⟨⟩
  · exact ⟨hj, List.forall_mem_nil _, by rintro _ _ ⟨⟩⟩

end SpendLedger

end Spend
