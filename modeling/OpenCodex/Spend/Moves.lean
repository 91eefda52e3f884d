import OpenCodex.Spend.Ledger
import OpenCodex.Spend.Lifecycle

/-!
# What an operation does to the books

Whatever else an operation of the ledger does, its books afterwards are the books before with some
records applied (`Moves`), and each of these records is legal in its turn: no scope is dropped that
a live send names.  None of them books a send that was known when the operation began (`Fresh`).

The journal follows the books closely only while every write succeeds.  So the same relation says:
if the ledger owes nothing to a journal that is sound, it owes nothing afterwards, and the lines of
the applied records, in this order, are what was appended.  What makes a journal sound, and what is
seen of it, are parameters (`Trust`), so that nothing has to be sound where nothing is claimed about
the journal.  Compaction comes last in an operation, if at all (`Compacted`).
-/

set_option autoImplicit false

open List

namespace Spend

variable {J : Type}

/-- What is expected of a journal. -/
structure Trust (J : Type) where
  /-- Writes succeed, and are read back. -/
  Sound : J → Prop
  /-- Whether writes succeed or not, nothing is read that was not written. -/
  Honest : J → Prop
  /-- What is seen of a sound journal. -/
  lines : J → List JsString

/-- Writing keeps a journal sound, and keeps it honest. -/
structure Reliable (store : SpendJournal J) (T : Trust J) : Prop where
  append : ∀ j (record : JournalRecord), T.Sound j → ∃ j',
    store.append j record.line = (j', true) ∧ T.Sound j' ∧
      T.lines j' = T.lines j ++ [record.line]
  rewrite : ∀ rewrite, store.rewrite = some rewrite → ∀ j (record : JournalRecord), T.Sound j →
    ∃ j', rewrite j [record.line] = (j', true) ∧ T.Sound j' ∧ T.lines j' = [record.line]
  appendHonest : ∀ j (record : JournalRecord), T.Honest j → record.WellFormed →
    T.Honest (store.append j record.line).1
  rewriteHonest : ∀ rewrite, store.rewrite = some rewrite → ∀ j (record : JournalRecord),
    T.Honest j → record.WellFormed → T.Honest (rewrite j [record.line]).1

/-- A journal on which every write succeeds and is read back, as long as it is in a sound state. -/
structure SpendJournal.Succeeds (store : SpendJournal J) (Sound : J → Prop) : Prop where
  append : ∀ j (record : JournalRecord), Sound j → ∃ j',
    store.append j record.line = (j', true) ∧ Sound j' ∧
      store.read j' = store.read j ++ [record.line]
  rewrite : ∀ rewrite, store.rewrite = some rewrite → ∀ j (record : JournalRecord), Sound j →
    ∃ j', rewrite j [record.line] = (j', true) ∧ Sound j' ∧ store.read j' = [record.line]

/-- It is seen as it is read. -/
def SpendJournal.trust (store : SpendJournal J) (Sound : J → Prop) : Trust J :=
  ⟨Sound, fun _ ↦ True, store.read⟩

theorem SpendJournal.Succeeds.reliable {store : SpendJournal J} {Sound : J → Prop}
    (h : store.Succeeds Sound) : Reliable store (store.trust Sound) :=
  ⟨h.append, h.rewrite, fun _ _ _ _ ↦ trivial, fun _ _ _ _ _ _ ↦ trivial⟩

/-- Nothing is expected. -/
def Trust.nothing : Trust J := ⟨fun _ ↦ False, fun _ ↦ True, fun _ ↦ []⟩

theorem Reliable.nothing (store : SpendJournal J) : Reliable store .nothing :=
  ⟨fun _ _ h ↦ h.elim, fun _ _ _ _ h ↦ h.elim, fun _ _ _ _ ↦ trivial, fun _ _ _ _ _ _ ↦ trivial⟩

namespace SpendLedger

/-- Nothing is owed to the journal. -/
structure OwesNothing (l : SpendLedger J) : Prop where
  pending : l.pendingRecords = []
  nondurable : l.nondurableReserves = .empty
  retained : l.retainedOrdinary = ∅

/-- The journal is sound, and nothing is owed to it. -/
structure Quiet (T : Trust J) (l : SpendLedger J) : Prop extends OwesNothing l where
  sound : T.Sound l.journal

/-- The journal is honest, and so are the records that may still be written to it. -/
structure Kept (T : Trust J) (l : SpendLedger J) : Prop where
  journal : T.Honest l.journal
  pending : ∀ record ∈ l.pendingRecords, record.WellFormed
  nondurable : ∀ send record, l.nondurableReserves.get? send = some record → record.WellFormed

/-- The targets of every seed are good ones. -/
def GoodSeeds (l : SpendLedger J) : Prop :=
  ∀ seed owned, l.seeds.get? seed = some owned → GoodTargets owned.targets

variable (T : Trust J)

/-- The books move by these records, and so does the journal while it is quiet. -/
structure Moves (l l' : SpendLedger J) (records : List JournalRecord) : Prop where
  books : l'.books = l.books.applyAll records
  legal : l.books.LegalAll records
  seeds : GoodSeeds l → GoodSeeds l'
  kept : Kept T l → Kept T l'
  quiet : Quiet T l → Quiet T l' ∧
    T.lines l'.journal = T.lines l.journal ++ records.map JournalRecord.line

/-- No record books a send that is known. -/
def Fresh (l : SpendLedger J) (records : List JournalRecord) : Prop :=
  ∀ send targets tokens time, .reserve send targets tokens time ∈ records →
    l.books.reservations.has send = false

/-- The books stay; a quiet journal stays, or becomes a checkpoint of the books. -/
structure Compacted (l l' : SpendLedger J) : Prop where
  books : l'.books = l.books
  seeds : GoodSeeds l → GoodSeeds l'
  kept : l.books.Sums → Kept T l → Kept T l'
  quiet : Quiet T l → Quiet T l' ∧
    (T.lines l'.journal = T.lines l.journal ∨
      ∃ time, T.lines l'.journal = [(l.books.checkpointRecord time).line])

/-- What any operation does. -/
def Performs (l l' : SpendLedger J) : Prop :=
  ∃ records mid, Moves T l mid records ∧ Fresh l records ∧ Compacted T mid l'

variable {store : SpendJournal J} {T} {l l' l'' : SpendLedger J}

theorem Moves.refl (l : SpendLedger J) : Moves T l l [] :=
  ⟨rfl, trivial, id, id, fun h ↦ ⟨h, (append_nil _).symm⟩⟩

variable {records : List JournalRecord}

variable {records' : List JournalRecord}

theorem Moves.trans (h : Moves T l l' records) (h' : Moves T l' l'' records') :
    Moves T l l'' (records ++ records') where
  books := by rw [h'.books, h.books, Books.applyAll_append]
  legal := h.legal.append (h.books ▸ h'.legal)
  seeds hs := h'.seeds (h.seeds hs)
  kept hk := h'.kept (h.kept hk)
  quiet hq := by
    obtain ⟨hq', hread⟩ := h.quiet hq
    obtain ⟨hq'', hread'⟩ := h'.quiet hq'
    exact ⟨hq'', by rw [hread', hread, map_append, append_assoc]⟩

theorem Compacted.refl (l : SpendLedger J) : Compacted T l l :=
  ⟨rfl, id, fun _ ↦ id, fun h ↦ ⟨h, .inl rfl⟩⟩

theorem GoodSeeds.congr (h : GoodSeeds l) (hseeds : l'.seeds = l.seeds) : GoodSeeds l' := by
  intro seed owned howned
  rw [hseeds] at howned
  exact h seed owned howned

theorem Moves.performs (h : Moves T l l' records) (hf : Fresh l records) : Performs T l l' :=
  ⟨records, l', h, hf, .refl l'⟩

theorem Performs.refl (l : SpendLedger J) : Performs T l l := (Moves.refl l).performs nofun

/-! ## Writing -/

theorem append_books (record : JournalRecord) : (l.append store record).1.books = l.books := by
  rw [append]
  split
  · rfl
  · rfl

theorem append_seeds (record : JournalRecord) : (l.append store record).1.seeds = l.seeds := by
  rw [append]
  split
  · rfl
  · rfl

variable {record : JournalRecord}

theorem Kept.append (hk : Kept T l) (hj : T.Honest (store.append l.journal record.line).1) :
    Kept T (l.append store record).1 := by
  rw [SpendLedger.append]
  split
  · exact ⟨hj, hk.pending, hk.nondurable⟩
  · exact ⟨hj, hk.pending, hk.nondurable⟩

theorem append_eq {j : J} (h : store.append l.journal record.line = (j, true)) :
    l.append store record =
      ({ l with journal := j, recordsOnDisk := l.recordsOnDisk + 1 }, true) := by
  rw [append, h]
  rfl

theorem flushRecords_books (records : List JournalRecord) :
    (flushRecords store records l).1.books = l.books := by
  induction records generalizing l with
  | nil => rfl
  | cons record records ih =>
    rw [flushRecords]
    dsimp only
    split
    · exact ih.trans (append_books record)
    · exact append_books record

theorem flushPending_books : (l.flushPending store).1.books = l.books :=
  flushRecords_books l.pendingRecords

theorem flushRecords_seeds (records : List JournalRecord) :
    (flushRecords store records l).1.seeds = l.seeds := by
  induction records generalizing l with
  | nil => rfl
  | cons record records ih =>
    rw [flushRecords]
    dsimp only
    split
    · exact ih.trans (append_seeds record)
    · exact append_seeds record

theorem flushRecords_kept (hstore : Reliable store T) (hk : Kept T l)
    (hw : ∀ record ∈ records, record.WellFormed) : Kept T (flushRecords store records l).1 := by
  induction records generalizing l with
  | nil => exact hk
  | cons record records ih =>
    rw [forall_mem_cons] at hw
    have hk' : Kept T (l.append store record).1 :=
      hk.append (hstore.appendHonest _ record hk.journal hw.1)
    rw [flushRecords]
    dsimp only
    split
    · exact ih ⟨hk'.journal, hw.2, hk'.nondurable⟩ hw.2
    · exact hk'

theorem flushPending_seeds : (l.flushPending store).1.seeds = l.seeds :=
  flushRecords_seeds l.pendingRecords

theorem flushPending_quiet (hq : Quiet T l) : l.flushPending store = (l, true) := by
  rw [flushPending, hq.pending]
  rfl

theorem flushPending_moves (hstore : Reliable store T) : Moves T l (l.flushPending store).1 [] where
  books := flushPending_books
  legal := trivial
  seeds hs := hs.congr flushPending_seeds
  kept hk := flushRecords_kept hstore hk hk.pending
  quiet hq := by
    rw [flushPending_quiet hq]
    exact ⟨hq, (append_nil _).symm⟩

/-- What no write and no clean-up changes. -/
structure SameSettings (l l' : SpendLedger J) : Prop where
  policy : l'.policy = l.policy
  pools : l'.pools = l.pools
  corruptRecords : l'.corruptRecords = l.corruptRecords

theorem SameSettings.refl (l : SpendLedger J) : SameSettings l l := ⟨rfl, rfl, rfl⟩

theorem SameSettings.trans (h : SameSettings l l') (h' : SameSettings l' l'') :
    SameSettings l l'' :=
  ⟨h'.policy.trans h.policy, h'.pools.trans h.pools, h'.corruptRecords.trans h.corruptRecords⟩

theorem append_settings (record : JournalRecord) : SameSettings l (l.append store record).1 := by
  rw [append]
  split
  · exact ⟨rfl, rfl, rfl⟩
  · exact ⟨rfl, rfl, rfl⟩

theorem flushRecords_settings (records : List JournalRecord) :
    SameSettings l (flushRecords store records l).1 := by
  induction records generalizing l with
  | nil => exact .refl l
  | cons record records ih =>
    have hwrite : SameSettings l (l.append store record).1 := append_settings record
    rw [flushRecords]
    dsimp only
    split
    · refine .trans ?_ ih
      exact ⟨hwrite.policy, hwrite.pools, hwrite.corruptRecords⟩
    · exact hwrite

theorem flushPending_settings : SameSettings l (l.flushPending store).1 :=
  flushRecords_settings l.pendingRecords

theorem Moves.of_append (hstore : Reliable store T) (hbooks : l'.books = l.books.apply record)
    (hlegal : l.books.Legal record) (hseeds : GoodSeeds l → GoodSeeds l')
    (hkept : T.Honest (store.append l.journal record.line).1 → Kept T l → Kept T l')
    (hwrite : ∀ j, store.append l.journal record.line = (j, true) → OwesNothing l →
      OwesNothing l' ∧ l'.journal = j) : Moves T l l' [record] where
  books := hbooks
  legal := ⟨hlegal, trivial⟩
  seeds := hseeds
  kept hk := hkept (hstore.appendHonest _ record hk.journal hlegal.wellFormed) hk
  quiet hq := by
    obtain ⟨j, happend, hsound, hread⟩ := hstore.append l.journal record hq.sound
    obtain ⟨howes, hjournal⟩ := hwrite j happend hq.toOwesNothing
    rw [hjournal, hread]
    exact ⟨⟨howes, hjournal ▸ hsound⟩, rfl⟩

theorem append_failed (hstore : Reliable store T) (hw : record.WellFormed)
    (h : (l.append store record).2 = false) : Moves T l (l.append store record).1 [] where
  books := append_books record
  legal := trivial
  seeds hs := hs.congr (append_seeds record)
  kept hk := hk.append (hstore.appendHonest _ record hk.journal hw)
  quiet hq := by
    obtain ⟨j, happend, -, -⟩ := hstore.append l.journal record hq.sound
    rw [append_eq happend] at h
    nomatch h

/-! ## Cleaning up -/

/-- A scope that may go: nothing is reserved there, and no live send names it. -/
structure Droppable (b : Books) (ref : ScopeRef) : Prop where
  reserved : ∀ state, b.scopes.get? ref = some state → state.reserved = 0
  unnamed : ∀ send r, b.reservations.get? send = some r → r.status.isLive = true → ref ∉ r.targets

variable {ref : ScopeRef} {b : Books}

theorem Droppable.applyDrop (h : Droppable b ref) :
    b.applyDrop ref = { b with scopes := b.scopes.delete ref } := by
  rw [Books.applyDrop]
  split
  · rename_i hnone
    rw [OMap.delete_of_not_has (OMap.has_eq_false_iff.mpr hnone)]
  · rename_i state hstate
    rw [h.reserved state hstate, if_neg (lt_irrefl 0)]

theorem Droppable.delete {ref' : ScopeRef} (h : Droppable b ref) :
    Droppable { b with scopes := b.scopes.delete ref' } ref := by
  refine ⟨fun state hstate ↦ ?_, h.unnamed⟩
  rw [OMap.get?_delete] at hstate
  split at hstate
  · cases hstate
  · exact h.reserved state hstate

variable {send : SpendAlias}

theorem isActive_eq_false (h : l.isActive ref = false) {r : Reservation}
    (hr : l.books.reservations.get? send = some r) (hlive : r.status.isLive = true) :
    ref ∉ r.targets := by
  intro href
  have := List.any_eq_false.mp h (send, r) (OMap.mem_entries.mpr hr)
  rw [hlive, contains_iff_mem.mpr href] at this
  exact this rfl

variable {state : ScopeState}

theorem Droppable.of_idle (hstate : l.books.scopes.get? ref = some state)
    (h : l.idle ref state = true) : Droppable l.books ref := by
  rw [idle, Bool.and_eq_true, Bool.and_eq_true] at h
  refine ⟨fun state' hstate' ↦ ?_, fun send r hr hlive ↦ ?_⟩
  · rw [hstate, Option.some_inj] at hstate'
    exact hstate' ▸ eq_of_beq h.1.1
  · exact isActive_eq_false (by simpa using h.1.2) hr hlive

/-- What a clean-up books: tombstones. -/
def Tombstones (records : List JournalRecord) : Prop :=
  ∀ record ∈ records, (∃ ref time, record = .drop ref time) ∨ ∃ send time, record = .forget send time

theorem Tombstones.fresh (h : Tombstones records) : Fresh l records := by
  intro send targets tokens time hmem
  rcases h _ hmem with ⟨ref, t, heq⟩ | ⟨s, t, heq⟩
  · exact JournalRecord.noConfusion heq
  · exact JournalRecord.noConfusion heq

theorem Tombstones.append (h : Tombstones records) (h' : Tombstones records') :
    Tombstones (records ++ records') :=
  forall_mem_append.mpr ⟨h, h'⟩

theorem tombstones_nil : Tombstones [] := nofun

/-- A clean-up: the books move by tombstones. -/
def Cleans (T : Trust J) (l l' : SpendLedger J) : Prop :=
  ∃ records, Moves T l l' records ∧ Tombstones records

theorem Cleans.refl (l : SpendLedger J) : Cleans T l l := ⟨[], .refl l, tombstones_nil⟩

theorem Cleans.trans (h : Cleans T l l') (h' : Cleans T l' l'') : Cleans T l l'' := by
  obtain ⟨records, hm, ht⟩ := h
  obtain ⟨records', hm', ht'⟩ := h'
  exact ⟨records ++ records', hm.trans hm', ht.append ht'⟩

theorem flushPending_cleans (hstore : Reliable store T) : Cleans T l (l.flushPending store).1 :=
  ⟨[], flushPending_moves hstore, tombstones_nil⟩

theorem dropScope_cleans (hstore : Reliable store T) (h : Droppable l.books ref) (time : ℕ) :
    Cleans T l (l.dropScope store time ref).1 := by
  have hflush : Cleans T l (l.flushPending store).1 := flushPending_cleans hstore
  rw [dropScope]
  split
  · exact hflush
  dsimp only
  split
  · rename_i hfailed
    refine hflush.trans ⟨[], append_failed hstore trivial ?_, tombstones_nil⟩
    simpa using hfailed
  · have h' : Droppable (l.flushPending store).1.books ref := flushPending_books (l := l) ▸ h
    refine hflush.trans ⟨[.drop ref time], .of_append hstore ?_ h'.unnamed
      (fun hs ↦ hs.congr (append_seeds _)) (fun hj hk ↦ ?_) fun j hj ho ↦ ?_, ?_⟩
    · rw [append_books]
      exact h'.applyDrop.symm
    · have hk' := hk.append hj
      exact ⟨hk'.journal, hk'.pending, hk'.nondurable⟩
    · rw [append_eq hj]
      exact ⟨⟨ho.pending, ho.nondurable, ho.retained⟩, rfl⟩
    · exact forall_mem_singleton.mpr (.inl ⟨ref, time, rfl⟩)

theorem dropScope_books (store : SpendJournal J) (l : SpendLedger J) (time : ℕ) (ref : ScopeRef) :
    (l.dropScope store time ref).1.books = l.books ∨ (l.dropScope store time ref).1.books =
        { l.books with scopes := l.books.scopes.delete ref } := by
  rw [dropScope]
  split
  · exact .inl flushPending_books
  dsimp only
  split
  · exact .inl ((append_books _).trans flushPending_books)
  · refine .inr ?_
    rw [append_books, flushPending_books]

theorem dropScopes_cleans (hstore : Reliable store T) {refs : List ScopeRef}
    (h : ∀ ref ∈ refs, Droppable l.books ref) (time : ℕ) :
    Cleans T l (dropScopes store time refs l).1 := by
  induction refs generalizing l with
  | nil => exact .refl l
  | cons ref refs ih =>
    rw [forall_mem_cons] at h
    refine (dropScope_cleans hstore h.1 time).trans (ih fun ref' href' ↦ ?_)
    rcases dropScope_books store l time ref with hb | hb
    · exact hb ▸ h.2 ref' href'
    · exact hb ▸ (h.2 ref' href').delete

theorem expiredUnbound_droppable (time : ℕ) :
    ∀ ref ∈ l.expiredUnbound time, Droppable l.books ref := by
  intro ref href
  obtain ⟨⟨ref', state⟩, hmem, rfl⟩ := List.mem_map.mp href
  obtain ⟨hmem, hp⟩ := mem_filter.mp hmem
  rw [Bool.and_eq_true, Bool.and_eq_true] at hp
  exact .of_idle (OMap.mem_entries.mp hmem) hp.1.2

variable {time : ℕ} {force : Bool}

theorem mem_scopeCandidates (h : ref ∈ l.scopeCandidates time force) :
    ∃ state, l.books.scopes.get? ref = some state ∧ l.evictable time force ref state = true := by
  obtain ⟨⟨ref', state⟩, hmem, rfl⟩ := List.mem_map.mp h
  have hfilter : (ref', state) ∈
      l.books.scopes.entries.filter fun p ↦ l.evictable time force p.1 p.2 := by
    split at hmem
    · exact (mem_insertionSort _).mp (mem_of_mem_take hmem)
    · exact hmem
  obtain ⟨hentry, hp⟩ := mem_filter.mp hfilter
  exact ⟨state, OMap.mem_entries.mp hentry, hp⟩

theorem evictable_idle (h : l.evictable time force ref state = true) : l.idle ref state = true := by
  simp only [evictable, Bool.and_eq_true] at h
  exact h.1.1.1.1.1

theorem evictScopes_cleans (hstore : Reliable store T) (time : ℕ) (force : Bool) :
    Cleans T l (l.evictScopes store time force).1 := by
  refine (dropScopes_cleans hstore (expiredUnbound_droppable time) time).trans
    (dropScopes_cleans hstore (fun ref href ↦ ?_) time)
  obtain ⟨state, hstate, hp⟩ := mem_scopeCandidates href
  exact .of_idle hstate (evictable_idle hp)

theorem forgetSend_cleans (hstore : Reliable store T) (h : l.books.isLive send = false) (time : ℕ) :
    Cleans T l (l.forgetSend store time send).1 := by
  have hflush : Cleans T l (l.flushPending store).1 := flushPending_cleans hstore
  rw [forgetSend]
  split
  · exact hflush
  dsimp only
  split
  · rename_i hfailed
    refine hflush.trans ⟨[], append_failed hstore trivial ?_, tombstones_nil⟩
    simpa using hfailed
  · refine hflush.trans ⟨[.forget send time], .of_append hstore ?_ ?_
      (fun hs ↦ hs.congr (append_seeds _)) (fun hj hk ↦ ?_) fun j hj ho ↦ ?_, ?_⟩
    · rw [append_books, flushPending_books]
      show { l.books with reservations := l.books.reservations.delete send } =
        l.books.applyForget send
      rw [Books.applyForget]
      split
      · rename_i hnone
        rw [OMap.delete_of_not_has (OMap.has_eq_false_iff.mpr hnone)]
      · rename_i r hr
        rw [if_neg]
        rw [← Books.isLive_of_get? hr, h]
        exact Bool.false_ne_true
    · exact trivial
    · have hk' := hk.append hj
      exact ⟨hk'.journal, hk'.pending, fun s record h ↦ hk'.nondurable s record (OMap.get?_of_delete h)⟩
    · rw [append_eq hj]
      refine ⟨⟨ho.pending, ?_, ?_⟩, rfl⟩
      · show (SpendLedger.nondurableReserves _).delete send = _
        rw [ho.nondurable]
        rfl
      · show (SpendLedger.retainedOrdinary _).erase send = _
        rw [ho.retained]
        rfl
    · exact forall_mem_singleton.mpr (.inr ⟨send, time, rfl⟩)

theorem forgetSend_books (store : SpendJournal J) (l : SpendLedger J) (time : ℕ)
    (send : SpendAlias) : (l.forgetSend store time send).1.books = l.books ∨
      (l.forgetSend store time send).1.books =
        { l.books with reservations := l.books.reservations.delete send } := by
  rw [forgetSend]
  split
  · exact .inl flushPending_books
  dsimp only
  split
  · exact .inl ((append_books _).trans flushPending_books)
  · refine .inr ?_
    rw [append_books, flushPending_books]

theorem isLive_delete {send' : SpendAlias} (h : b.isLive send' = false) :
    Books.isLive { b with reservations := b.reservations.delete send } send' = false := by
  by_cases hs : send' = send
  · exact Books.isLive_of_none (hs ▸ OMap.get?_delete_self ..)
  · exact (Books.isLive_congr (OMap.get?_delete_of_ne _ hs)).trans h

theorem forgetSends_cleans (hstore : Reliable store T) {sends : List SpendAlias}
    (h : ∀ send ∈ sends, l.books.isLive send = false) (time : ℕ) :
    Cleans T l (forgetSends store time sends l).1 := by
  induction sends generalizing l with
  | nil => exact .refl l
  | cons send sends ih =>
    rw [forall_mem_cons] at h
    refine (forgetSend_cleans hstore h.1 time).trans (ih fun send' hs' ↦ ?_)
    rcases forgetSend_books store l time send with hb | hb
    · exact hb ▸ h.2 send' hs'
    · exact hb ▸ isLive_delete (h.2 send' hs')

theorem sendCandidates_dead :
    ∀ send ∈ l.sendCandidates time force, l.books.isLive send = false := by
  intro send hsend
  obtain ⟨⟨send', r⟩, hmem, rfl⟩ := List.mem_map.mp hsend
  have hfilter : (send', r) ∈ l.books.reservations.entries.filter fun p ↦
      !p.2.status.isLive && !l.seedBySend.has p.1 && (force || l.expired time p.2.resolvedAt) := by
    split at hmem
    · exact (mem_insertionSort _).mp (mem_of_mem_take hmem)
    · exact hmem
  obtain ⟨hentry, hp⟩ := mem_filter.mp hfilter
  rw [Bool.and_eq_true, Bool.and_eq_true] at hp
  rw [Books.isLive_of_get? (OMap.mem_entries.mp hentry)]
  simpa using hp.1.1

theorem evictSends_cleans (hstore : Reliable store T) (time : ℕ) (force : Bool) :
    Cleans T l (l.evictSends store time force).1 :=
  forgetSends_cleans hstore sendCandidates_dead time

theorem roomForSends_cleans (hstore : Reliable store T) (time fuel : ℕ) :
    Cleans T l (roomForSends store time fuel l).1 := by
  induction fuel generalizing l with
  | zero => exact .refl l
  | succ fuel ih =>
    rw [roomForSends]
    split
    · exact .refl l
    dsimp only
    split
    · exact evictSends_cleans hstore time true
    · exact (evictSends_cleans hstore time true).trans ih

theorem roomForScopes_cleans (hstore : Reliable store T) (time : ℕ) (refs : List ScopeRef)
    (fuel : ℕ) : Cleans T l (roomForScopes store time refs fuel l).1 := by
  induction fuel generalizing l with
  | zero => exact .refl l
  | succ fuel ih =>
    rw [roomForScopes]
    split
    · exact .refl l
    dsimp only
    split
    · exact evictScopes_cleans hstore time true
    · exact (evictScopes_cleans hstore time true).trans ih

theorem makeRoom_cleans (hstore : Reliable store T) (time : ℕ) (refs : List ScopeRef) :
    Cleans T l (l.makeRoom store time refs).1 := by
  have hretention := (evictSends_cleans (l := l) hstore time false).trans
    (evictScopes_cleans hstore time false)
  have hsends (fuel : ℕ) := hretention.trans (roomForSends_cleans hstore time fuel)
  rw [makeRoom]
  dsimp only
  split
  · exact hsends _
  split
  · exact (hsends _).trans (roomForScopes_cleans hstore time refs _)
  · exact (hsends _).trans (roomForScopes_cleans hstore time refs _)

end SpendLedger

end Spend
