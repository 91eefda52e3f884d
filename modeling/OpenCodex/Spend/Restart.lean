import OpenCodex.Spend.Runs
import OpenCodex.Spend.JournalFile

/-!
# A restart preserves spend

While every write succeeds the journal says what the books say: replaying its lines from nothing
gives the books back (`Synced`).  Every call keeps it so, for the lines it writes are the records it
books, and a compaction writes the books themselves.

A crash loses the live sends.  Recovery turns what they have reserved into unresolved spend, record
by record, so that nothing of the sum of the two is lost, whichever part of the records is written
when the next crash comes (`SameTotals`).
-/

set_option autoImplicit false

open List

namespace Spend

variable {J : Type}

/-! ## What recovery keeps -/

/-- The same scopes, each with the same settled spend and the same spend that is not. -/
structure SameTotals (b b' : Books) : Prop where
  keys : b'.scopes.keys = b.scopes.keys
  settled : ∀ ref, (b'.figures ref).settled = (b.figures ref).settled
  unsettled : ∀ ref, (b'.figures ref).unresolved + (b'.figures ref).reserved =
    (b.figures ref).unresolved + (b.figures ref).reserved

theorem SameTotals.refl (b : Books) : SameTotals b b := ⟨rfl, fun _ ↦ rfl, fun _ ↦ rfl⟩

theorem SameTotals.trans {b b' b'' : Books} (h : SameTotals b b') (h' : SameTotals b' b'') :
    SameTotals b b'' where
  keys := h'.keys.trans h.keys
  settled ref := (h'.settled ref).trans (h.settled ref)
  unsettled ref := (h'.unsettled ref).trans (h.unsettled ref)

namespace Books

variable {b : Books}

theorem Sums.lost_sameTotals (hs : Sums b) (ht : Tracked b) (send : SpendAlias) (time : ℕ) :
    SameTotals b (b.applyResolve send .lost time) := by
  rw [Books.applyResolve]
  split
  · exact .refl b
  rename_i r hr
  split
  · exact .refl b
  rename_i hlive
  have hlive : r.status.isLive = true := by simpa using hlive
  have hnd := (hs.targets send r hr).1
  refine ⟨keys_touchAll _ fun ref href ↦ ?_, fun ref ↦ ?_, fun ref ↦ ?_⟩
  · obtain ⟨state, hstate, -⟩ := ht.scopes send r hr hlive ref href
    exact OMap.has_of_get? hstate
  · rw [figures_touchAll hnd]
    split
    · rfl
    · rfl
  · rw [figures_touchAll hnd]
    split
    · rename_i href
      have hle := hs.tokens_le hr hlive href
      show (b.figures ref).unresolved + r.tokens + ((b.figures ref).reserved - r.tokens) = _
      omega
    · rfl

/-- **Recovery keeps the totals**, as far as it gets. -/
theorem Sums.recovery_sameTotals (hs : Sums b) (ht : Tracked b) {records : List JournalRecord}
    (hrec : SpendLedger.Recoveries records) : SameTotals b (b.applyAll records) := by
  induction records generalizing b with
  | nil => exact .refl b
  | cons record records ih =>
    rw [SpendLedger.Recoveries, forall_mem_cons] at hrec
    have hfirst : SameTotals b (b.apply record) ∧ b.Legal record := by
      rcases hrec.1 with ⟨send, time, rfl⟩ | ⟨send, time, rfl⟩
      · exact ⟨hs.lost_sameTotals ht send time, trivial⟩
      · have hscopes : (b.apply (.forget send time)).scopes = b.scopes := scopes_applyForget send
        exact ⟨⟨by rw [hscopes], fun ref ↦ by rw [figures_congr hscopes],
          fun ref ↦ by rw [figures_congr hscopes]⟩, trivial⟩
    obtain ⟨hsame, hlegal⟩ := hfirst
    exact hsame.trans (ih (hs.apply hlegal.wellFormed) (ht.apply hs hlegal) hrec.2)

theorem Sums.reserved_eq_zero (hs : Sums b) (h : ∀ send, b.isLive send = false) (ref : ScopeRef) :
    (b.figures ref).reserved = 0 := by
  rw [hs.reserved]
  refine OMap.total_eq_zero fun send r hr ↦ ?_
  exact Reservation.weight_resolved ((isLive_of_get? hr).symm.trans (h send)) ref

end Books

/-! ## The journal says what the books say -/

namespace SpendLedger

variable {store : SpendJournal J} {Sound : J → Prop} {hash : AliasHash} {l l' : SpendLedger J}

/-- A journal that holds the lines of these records, and nothing else. -/
structure Holds (store : SpendJournal J) (Sound : J → Prop) (j : J)
    (records : List JournalRecord) : Prop where
  sound : Sound j
  read : store.read j = records.map JournalRecord.line
  wellFormed : ∀ record ∈ records, record.WellFormed

/-- **The books are what the journal says**, and nothing is owed to it. -/
structure Synced (store : SpendJournal J) (Sound : J → Prop) (l : SpendLedger J) : Prop where
  sums : l.books.Sums
  tracked : l.books.Tracked
  seeds : GoodSeeds l
  quiet : Quiet (store.trust Sound) l
  holds : ∃ records, Holds store Sound l.journal records ∧ Books.empty.applyAll records = l.books

variable {records : List JournalRecord}

theorem Moves.synced (h : Moves (store.trust Sound) l l' records) (hs : Synced store Sound l) :
    Synced store Sound l' := by
  obtain ⟨said, hholds, hbooks⟩ := hs.holds
  obtain ⟨hq, hread⟩ := h.quiet hs.quiet
  refine ⟨h.books ▸ hs.sums.applyAll h.legal.wellFormed,
    h.books ▸ hs.tracked.applyAll hs.sums h.legal, h.seeds hs.seeds, hq, said ++ records,
    ⟨hq.sound, ?_, forall_mem_append.mpr ⟨hholds.wellFormed, h.legal.wellFormed⟩⟩, ?_⟩
  · change store.read l'.journal = store.read l.journal ++ _ at hread
    rw [hread, hholds.read, map_append]
  · rw [Books.applyAll_append, hbooks, h.books]

theorem Compacted.synced (h : Compacted (store.trust Sound) l l') (hs : Synced store Sound l) :
    Synced store Sound l' := by
  obtain ⟨hq, hread⟩ := h.quiet hs.quiet
  refine ⟨h.books ▸ hs.sums, h.books ▸ hs.tracked, h.seeds hs.seeds, hq, ?_⟩
  rcases hread with hread | ⟨time, hread⟩
  · obtain ⟨said, hholds, hbooks⟩ := hs.holds
    exact ⟨said, ⟨hq.sound, hread.trans hholds.read, hholds.wellFormed⟩, hbooks.trans h.books.symm⟩
  · refine ⟨[l.books.checkpointRecord time], ⟨hq.sound, hread,
      forall_mem_singleton.mpr (hs.sums.checkpointRecord time)⟩, ?_⟩
    rw [Books.applyAll_cons, Books.applyAll_nil, h.books]
    exact Books.apply_checkpointRecord hs.sums hs.tracked time .empty

theorem Performs.synced (h : Performs (store.trust Sound) l l') (hs : Synced store Sound l) :
    Synced store Sound l' := by
  obtain ⟨records, mid, hm, -, hcomp⟩ := h
  exact hcomp.synced (hm.synced hs)

/-- **Every run of calls keeps the journal and the books together.** -/
theorem calls_synced (hstore : store.Succeeds Sound) (events : List (LedgerEvent J))
    (hs : Synced store Sound l) : Synced store Sound (events.foldl (call store hash) l) := by
  induction events generalizing l with
  | nil => exact hs
  | cons event events ih => exact ih ((call_performs hstore.reliable hs.seeds event).synced hs)

/-! ## Creating a ledger from such a journal -/

variable {j : J}

theorem Holds.replayed (h : Holds store Sound j records) (hash : AliasHash)
    (policy : SpendReservationPolicy) :
    (replayed store hash policy j).books = Books.empty.applyAll records ∧
      Quiet (store.trust Sound) (replayed store hash policy j) := by
  refine ⟨?_, ⟨⟨rfl, rfl, rfl⟩, h.sound⟩⟩
  rw [SpendLedger.replayed, h.read, replay_lines h.wellFormed]

/-- **Recovery from such a journal**: the books as the journal says, with the live sends given up,
and the journal with the records of it. -/
theorem Holds.recovers (hstore : store.Succeeds Sound) (h : Holds store Sound j records)
    (hash : AliasHash) (policy : SpendReservationPolicy) (now : ℕ) :
    ∃ recovery, Recoveries recovery ∧ (create store hash policy j now).books =
        (Books.empty.applyAll records).applyAll recovery ∧
      Holds store Sound (create store hash policy j now).journal (records ++ recovery) ∧
      Quiet (store.trust Sound) (create store hash policy j now) := by
  obtain ⟨recovery, hm, hrec⟩ := create_moves hstore.reliable hash policy j now
  obtain ⟨hbooks, hquiet⟩ := h.replayed hash policy
  obtain ⟨hq, hread⟩ := hm.quiet hquiet
  refine ⟨recovery, hrec, hbooks ▸ hm.books, ⟨hq.sound, ?_,
    forall_mem_append.mpr ⟨h.wellFormed, hm.legal.wellFormed⟩⟩, hq⟩
  rw [map_append, ← h.read]
  exact hread

theorem Holds.create_synced (hstore : store.Succeeds Sound) (h : Holds store Sound j records)
    (hash : AliasHash) (policy : SpendReservationPolicy) (now : ℕ) :
    Synced store Sound (create store hash policy j now) := by
  obtain ⟨recovery, -, hbooks, hholds, hq⟩ := h.recovers hstore hash policy now
  rw [← Books.applyAll_append] at hbooks
  refine ⟨hbooks ▸ Books.empty_sums.applyAll hholds.wellFormed,
    tracked_of_not_live (create_not_live hash policy j now), ?_, hq, _, hholds, hbooks.symm⟩
  obtain ⟨_, hm, -⟩ := create_moves hstore.reliable hash policy j now
  exact hm.seeds fun seed owned howned ↦ nomatch howned

/-! ## Ceilings -/

/-- What counts against the ceiling of each scope. -/
def spends (b : Books) : List (ScopeRef × ℕ) := b.scopes.entries.map fun p ↦ (p.1, p.2.spend)

theorem spends_eq (b : Books) :
    spends b = b.scopes.keys.map fun ref ↦ (ref, (b.figures ref).spend) := by
  rw [spends, OMap.keys, List.map_map]
  refine map_congr_left fun p hp ↦ ?_
  rw [Function.comp_apply, Books.figures, OMap.mem_entries.mp hp, Option.getD_some]

theorem poolMembers_spends (l : SpendLedger J) (name : SpendAlias) :
    (l.poolMembers name).map (fun p ↦ (p.1, p.2.spend)) =
      ((spends l.books).filter fun p ↦ p.1.scope == .pool).filter fun p ↦
        if l.unbound p.1 then p.2 != 0
        else l.pools.resolve p.1.name.units == l.pools.resolve name.units := by
  rw [spends, List.filter_map, List.filter_map]
  rfl

/-- What a scope is judged by depends on what counts in each, and on the table of pools. -/
theorem stateFor_spend (hspends : spends l'.books = spends l.books) (hpools : l'.pools = l.pools)
    (ref : ScopeRef) :
    (l'.stateFor ref).map ScopeState.spend = (l.stateFor ref).map ScopeState.spend := by
  have hpool (name : SpendAlias) : ((l'.poolState name).map (·.1)).map ScopeState.spend =
      ((l.poolState name).map (·.1)).map ScopeState.spend := by
    have hmembers : (l'.poolMembers name).map (fun p ↦ (p.1, p.2.spend)) =
        (l.poolMembers name).map fun p ↦ (p.1, p.2.spend) := by
      have hunbound : l'.unbound = l.unbound := by
        funext ref
        rw [unbound, unbound, hpools]
      rw [poolMembers_spends, poolMembers_spends, hspends, hunbound, hpools]
    have hempty : l'.poolMembers name = [] ↔ l.poolMembers name = [] := by
      rw [← map_eq_nil_iff (f := fun p ↦ (p.1, p.2.spend)), hmembers, map_eq_nil_iff]
    have hsum : ((l'.poolMembers name).map (·.2.spend)).sum =
        ((l.poolMembers name).map (·.2.spend)).sum := by
      have h := congrArg (fun members ↦ (members.map Prod.snd).sum) hmembers
      simpa [List.map_map, Function.comp_def] using h
    rw [poolState, poolState]
    by_cases hnone : l.poolMembers name = []
    · rw [if_pos (hempty.mpr hnone), if_pos hnone]
    · rw [if_neg (mt hempty.mp hnone), if_neg hnone]
      simp only [Option.map_some, sumStates_spend, List.map_map, Function.comp_def, hsum]
  have hscope : (l'.books.scopes.get? ref).map ScopeState.spend =
      (l.books.scopes.get? ref).map ScopeState.spend := by
    have hlookup (b : Books) : (b.scopes.get? ref).map ScopeState.spend = (spends b).lookup ref := by
      rw [OMap.get?, spends]
      generalize b.scopes.entries = entries
      induction entries with
      | nil => rfl
      | cons p entries ih =>
        rw [map_cons, List.lookup_cons, List.lookup_cons]
        split
        · rfl
        · exact ih
    rw [hlookup, hlookup, hspends]
  rw [stateFor, stateFor]
  split
  · exact hpool ref.name
  · exact hscope
  · exact hscope

/-- Has what a scope is judged by reached its ceiling? -/
def atCeiling (l : SpendLedger J) (policy : SpendAdmissionPolicy) (ref : ScopeRef) : Bool :=
  (l.stateFor ref).any (isExhausted policy ref.scope)

theorem atCeiling_congr {policy : SpendAdmissionPolicy} {ref : ScopeRef}
    (h : (l'.stateFor ref).map ScopeState.spend = (l.stateFor ref).map ScopeState.spend) :
    l'.atCeiling policy ref = l.atCeiling policy ref := by
  have hmap (state : Option ScopeState) : state.any (isExhausted policy ref.scope) =
      (state.map ScopeState.spend).any fun spend ↦
        (policy.maxTokens ref.scope).any fun limit ↦ limit ≤ spend := by
    cases state <;> rfl
  rw [atCeiling, atCeiling, hmap, hmap, h]

end SpendLedger

/-! ## Restarts -/

open SpendLedger

/-- Two sends of one root; the first settles, the second is under way when the process dies. -/
def twoSends : List (LedgerEvent JournalFile) :=
  [.reserve (rootRequest "first" "root" 50) 1, .reserve (rootRequest "second" "root" 7) 2,
    .markDispatched (js "first") 3, .settle (js "first") ⟨.finite 10, .finite 20⟩ 4]

end Spend
