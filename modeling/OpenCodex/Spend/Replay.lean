import OpenCodex.Spend.Operations

/-!
# Replay and recovery

A ledger is created from its journal.  Replay applies what it can read, line by line; of an honest
journal the result has good books, whatever is missing in between (`replay_sums`), and where nothing
is missing it is the books that were written (`replay_lines`).  Then no send that survived has an
owner left, and recovery gives up what the live ones have reserved: by records like any others, so
recovery performs as operations do (`create_moves`), and it leaves no send live (`create_not_live`).
-/

set_option autoImplicit false

open List

namespace Spend

namespace SpendLedger

variable {J : Type} {store : SpendJournal J} {T : Trust J} {l l' : SpendLedger J}

/-! ## Replay -/

/-- Every record that can be read was written by a ledger. -/
def HonestLines (lines : List JsString) : Prop :=
  ∀ line ∈ lines, ∀ record, parseSpendJournalRecord line = some record → record.WellFormed

/-- **Replaying an honest journal** keeps the sums. -/
theorem replay_sums {lines : List JsString} (h : HonestLines lines) {state : Books × ℕ}
    (hs : state.1.Sums) : (replay lines state).1.Sums := by
  induction lines generalizing state with
  | nil => exact hs
  | cons line lines ih =>
    rw [HonestLines, forall_mem_cons] at h
    rw [replay]
    refine ih h.2 ?_
    rw [replayLine]
    split
    · rename_i record hrecord
      exact hs.apply (h.1 record hrecord)
    split
    · exact hs
    · exact hs

variable {records : List JournalRecord}

/-- **Replaying what was written** does what was done. -/
theorem replay_lines (h : ∀ record ∈ records, record.WellFormed) (b : Books) (n : ℕ) :
    replay (records.map JournalRecord.line) (b, n) = (b.applyAll records, n) := by
  induction records generalizing b with
  | nil => rfl
  | cons record records ih =>
    rw [forall_mem_cons] at h
    rw [map_cons, replay, replayLine, parse_line h.1.fits]
    exact ih h.2 (b.apply record)

/-! ## Recovery -/

/-- What recovery books: that sends are lost, and that they are forgotten. -/
def Recoveries (records : List JournalRecord) : Prop :=
  ∀ record ∈ records,
    (∃ send time, record = .lost send time) ∨ ∃ send time, record = .forget send time

theorem Recoveries.append {records' : List JournalRecord} (h : Recoveries records)
    (h' : Recoveries records') : Recoveries (records ++ records') :=
  forall_mem_append.mpr ⟨h, h'⟩

theorem recoveries_nil : Recoveries [] := nofun

/-- The books move by such records. -/
def Recovers (T : Trust J) (l l' : SpendLedger J) : Prop :=
  ∃ records, Moves T l l' records ∧ Recoveries records

theorem Recovers.refl (l : SpendLedger J) : Recovers T l l := ⟨[], .refl l, recoveries_nil⟩

theorem Recovers.trans {l'' : SpendLedger J} (h : Recovers T l l')
    (h' : Recovers T l' l'') : Recovers T l l'' := by
  obtain ⟨records, hm, hr⟩ := h
  obtain ⟨records', hm', hr'⟩ := h'
  exact ⟨records ++ records', hm.trans hm', hr.append hr'⟩

theorem reconcileLive_books (store : SpendJournal J) (l : SpendLedger J) (now : ℕ)
    (enforced : Bool) (send : SpendAlias) : (l.reconcileLive store now enforced send).books =
      l.books.applyResolve send .lost now := by
  rw [reconcileLive]
  split
  · dsimp only
    have hbooks := (applyResolve_books (l := (l.append store (.lost send now)).1) send .lost
      now).trans (congrArg (Books.applyResolve · send .lost now) (append_books _))
    split
    · exact hbooks
    · exact hbooks
  · rename_i hdead
    rw [Books.applyResolve]
    split
    · rfl
    rename_i r hr
    rw [Books.isLive_of_get? hr] at hdead
    rw [eq_false_of_ne_true hdead]
    rfl

theorem reconcileLive_recovers (hstore : Reliable store T) (now : ℕ) (enforced : Bool)
    (send : SpendAlias) : Recovers T l (l.reconcileLive store now enforced send) := by
  have hbooks := reconcileLive_books store l now enforced send
  rw [reconcileLive] at hbooks ⊢
  split
  · rename_i hlive
    rw [if_pos hlive] at hbooks
    refine ⟨[.lost send now], ?_, forall_mem_singleton.mpr (.inl ⟨send, now, rfl⟩)⟩
    obtain ⟨hjournal, hseeds, howes, hkept⟩ :=
      applyResolve_same (T := T) (l := (l.append store (.lost send now)).1) send .lost now
    have hlegal : l.books.Legal (.lost send now) := trivial
    refine .of_append hstore hbooks hlegal (fun hs ↦ ?_) (fun hj hk ↦ ?_) fun j hj ho ↦ ?_
    · have hs' := hs.congr (hseeds.trans (append_seeds _))
      dsimp only
      split
      · exact hs'.congr rfl
      · exact hs'
    · have hk' := hkept (hk.append hj)
      dsimp only
      split
      · exact ⟨hk'.journal, forall_mem_append.mpr ⟨hk'.pending,
          forall_mem_singleton.mpr trivial⟩, hk'.nondurable⟩
      · exact hk'
    · rw [append_eq hj] at hjournal howes ⊢
      exact ⟨howes ⟨ho.pending, ho.nondurable, ho.retained⟩, hjournal⟩
  · exact .refl l

theorem reconcile_recovers (hstore : Reliable store T) (now : ℕ) (enforced : Bool)
    (send : SpendAlias) : Recovers T l (reconcile store now enforced l send) := by
  have hlive : Recovers T l (l.reconcileLive store now enforced send) :=
    reconcileLive_recovers hstore now enforced send
  have hflush : Recovers T l ((l.reconcileLive store now enforced send).flushPending store).1 :=
    hlive.trans ⟨[], flushPending_moves hstore, recoveries_nil⟩
  rw [reconcile]
  dsimp only
  split
  · exact hlive
  split
  · exact hflush
  split
  · exact hflush.trans ⟨_, forget_moves hstore send now,
      forall_mem_singleton.mpr (.inr ⟨send, now, rfl⟩)⟩
  · rename_i hfailed
    exact hflush.trans ⟨[], append_failed hstore trivial (eq_false_of_ne_true hfailed),
      recoveries_nil⟩

variable (now : ℕ)

theorem reconcile_isLive (enforced : Bool) (send send' : SpendAlias) :
    (reconcile store now enforced l send).books.isLive send' =
      (l.books.isLive send' && !(send == send')) := by
  have hlive : (l.reconcileLive store now enforced send).books.isLive send' =
      (l.books.isLive send' && !(send == send')) := by
    rw [reconcileLive_books, Books.isLive_applyResolve]
  rw [reconcile]
  dsimp only
  split
  · exact hlive
  split
  · rw [flushPending_books]
    exact hlive
  split
  · rw [applyForget_books, append_books, flushPending_books, Books.isLive_applyForget]
    exact hlive
  · rw [append_books, flushPending_books]
    exact hlive

theorem reconcileAll_recovers (hstore : Reliable store T) (now : ℕ) (enforced : Bool)
    (sends : List SpendAlias) : Recovers T l (sends.foldl (reconcile store now enforced) l) := by
  induction sends generalizing l with
  | nil => exact .refl l
  | cons send sends ih => exact (reconcile_recovers hstore now enforced send).trans ih

theorem reconcileAll_isLive (enforced : Bool) (sends : List SpendAlias) (send' : SpendAlias) :
    (sends.foldl (reconcile store now enforced) l).books.isLive send' =
      (l.books.isLive send' && !sends.contains send') := by
  induction sends generalizing l with
  | nil => exact (Bool.and_true _).symm
  | cons send sends ih =>
    rw [foldl_cons, ih, reconcile_isLive, contains_cons, Bool.not_or, Bool.and_assoc, Bool.beq_comm]

/-- **Creation**: what replay built, moved on by recovery. -/
theorem create_moves (hstore : Reliable store T) (hash : AliasHash)
    (policy : SpendReservationPolicy) (journal : J) (now : ℕ) :
    Recovers T (replayed store hash policy journal) (create store hash policy journal now) :=
  reconcileAll_recovers hstore now _ _

/-- **No send is live in a ledger that was just created.** -/
theorem create_not_live (hash : AliasHash) (policy : SpendReservationPolicy) (journal : J)
    (now : ℕ) (send : SpendAlias) :
    (create store hash policy journal now).books.isLive send = false := by
  rw [create, reconcileAll_isLive]
  cases hlive : (replayed store hash policy journal).books.isLive send with
  | false => rfl
  | true =>
    have hmem : send ∈ (replayed store hash policy journal).books.reservations.keys := by
      rw [← OMap.has_iff_mem_keys]
      cases hr : (replayed store hash policy journal).books.reservations.get? send with
      | none =>
        rw [Books.isLive_of_none hr] at hlive
        nomatch hlive
      | some r => exact OMap.has_of_get? hr
    rw [contains_iff_mem.mpr hmem]
    rfl

/-! ## What recovery leaves alone -/

theorem applyResolve_settings (send : SpendAlias) (outcome : Outcome) (time : ℕ) :
    SameSettings l (l.applyResolve send outcome time) := by
  rw [applyResolve]
  split
  · exact ⟨rfl, rfl, rfl⟩
  · exact .refl l

theorem applyForget_settings (send : SpendAlias) : SameSettings l (l.applyForget send) := by
  rw [applyForget]
  split
  · exact ⟨rfl, rfl, rfl⟩
  · exact .refl l

theorem reconcileLive_settings (enforced : Bool) (send : SpendAlias) :
    SameSettings l (l.reconcileLive store now enforced send) := by
  have hwrite : SameSettings l (l.append store (.lost send now)).1 := append_settings _
  have hlost := hwrite.trans (applyResolve_settings send .lost now)
  rw [reconcileLive]
  split
  · dsimp only
    split
    · exact ⟨hlost.policy, hlost.pools, hlost.corruptRecords⟩
    · exact hlost
  · exact .refl l

theorem reconcile_settings (enforced : Bool) (send : SpendAlias) :
    SameSettings l (reconcile store now enforced l send) := by
  have hlive : SameSettings l (l.reconcileLive store now enforced send) :=
    reconcileLive_settings now enforced send
  have hflush : SameSettings l ((l.reconcileLive store now enforced send).flushPending store).1 :=
    hlive.trans flushPending_settings
  rw [reconcile]
  dsimp only
  split
  · exact hlive
  split
  · exact hflush
  split
  · exact (hflush.trans (append_settings _)).trans (applyForget_settings send)
  · exact hflush.trans (append_settings _)

/-- **A ledger has the policy it was created with**, and counts what replay rejected. -/
theorem create_settings (store : SpendJournal J) (hash : AliasHash)
    (policy : SpendReservationPolicy) (journal : J) (now : ℕ) :
    SameSettings (replayed store hash policy journal) (create store hash policy journal now) := by
  have hall (sends : List SpendAlias) (l : SpendLedger J) : SameSettings l
      (sends.foldl (reconcile store now policy.spendCeilingsConfigured) l) := by
    induction sends generalizing l with
    | nil => exact .refl l
    | cons send sends ih => exact (reconcile_settings now _ send).trans (ih _)
  exact hall _ _

end SpendLedger

end Spend
