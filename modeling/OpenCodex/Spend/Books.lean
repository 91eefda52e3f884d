import OpenCodex.Spend.Record

/-!
# The books

What the ledger accounts is two maps: the scopes with their figures, and the sends it remembers.
Every change of them is the application of a journal record, in memory as in replay, and this file
is what applying a record does.

A send is booked, perhaps dispatched, resolved in one of three ways, and at last forgotten; each
application checks that the send is where the record expects it and does nothing otherwise.  That is
why the figures cannot drift from the sends (`Sums`): tokens enter `reserved` when a send becomes
known and leave it when the send is resolved, and neither can happen twice.
-/

set_option autoImplicit false

open List OMap

namespace Spend

/-- The figures of a scope. -/
structure ScopeState where
  settled : ℕ
  reserved : ℕ
  unresolved : ℕ
  lastSeenAt : ℕ
  deriving DecidableEq

/-- A scope that was never seen. -/
def ScopeState.fresh : ScopeState := ⟨0, 0, 0, 0⟩

/-- What counts against a ceiling. -/
def ScopeState.spend (state : ScopeState) : ℕ := state.settled + state.reserved + state.unresolved

structure Reservation where
  targets : List ScopeRef
  tokens : ℕ
  status : ReservationStatus
  bookedAt : ℕ
  /-- When the status last changed. -/
  resolvedAt : ℕ
  deriving DecidableEq

/-- What a reservation reserves of a scope. -/
def Reservation.weight (r : Reservation) (ref : ScopeRef) : ℕ :=
  if r.status.isLive && r.targets.contains ref then r.tokens else 0

@[ext] structure Books where
  scopes : OMap ScopeRef ScopeState
  reservations : OMap SpendAlias Reservation
  deriving DecidableEq

/-- How a send is resolved: with its real usage, as lost, or because it never left. -/
inductive Outcome where
  | settled (tokens : ℕ)
  | lost
  | abandoned
  deriving DecidableEq

def Outcome.status : Outcome → ReservationStatus
  | settled _ => .settled
  | lost => .lost
  | abandoned => .abandoned

theorem Outcome.status_isLive (outcome : Outcome) : outcome.status.isLive = false := by
  cases outcome <;> rfl

/-- The real usage, where it is known. -/
def Outcome.usage : Outcome → ℕ
  | settled tokens => tokens
  | lost | abandoned => 0

/-- What of a reservation stays as unresolved spend. -/
def Outcome.residue (tokens : ℕ) : Outcome → ℕ
  | lost => tokens
  | settled _ | abandoned => 0

/-- Update the figures of a scope, which becomes known by it. -/
def touch (f : ScopeState → ScopeState) (scopes : OMap ScopeRef ScopeState) (ref : ScopeRef) :
    OMap ScopeRef ScopeState :=
  scopes.set ref (f ((scopes.get? ref).getD .fresh))

def touchAll (f : ScopeState → ScopeState) (targets : List ScopeRef)
    (scopes : OMap ScopeRef ScopeState) : OMap ScopeRef ScopeState :=
  targets.foldl (touch f) scopes

/-- Tokens are reserved. -/
def ScopeState.book (tokens time : ℕ) (state : ScopeState) : ScopeState :=
  { state with
    reserved := state.reserved + tokens
    lastSeenAt := max state.lastSeenAt time }

/-- A reservation is resolved; the subtraction stops at zero. -/
def ScopeState.resolve (tokens : ℕ) (outcome : Outcome) (time : ℕ) (state : ScopeState) :
    ScopeState :=
  { settled := state.settled + outcome.usage
    reserved := state.reserved - tokens
    unresolved := state.unresolved + outcome.residue tokens
    lastSeenAt := max state.lastSeenAt time }

namespace Books

def empty : Books := ⟨.empty, .empty⟩

variable (b : Books)

/-- Is the send known and not resolved? -/
def isLive (send : SpendAlias) : Bool := (b.reservations.get? send).any (·.status.isLive)

/-- The figures of a scope, zeros where it is not tracked. -/
def figures (ref : ScopeRef) : ScopeState := (b.scopes.get? ref).getD .fresh

def applyReserve (send : SpendAlias) (targets : List ScopeRef) (tokens time : ℕ) : Books :=
  if b.reservations.has send then b
  else
    { scopes := touchAll (·.book tokens time) targets b.scopes
      reservations := b.reservations.set send ⟨targets, tokens, .opened, time, time⟩ }

def applyResolve (send : SpendAlias) (outcome : Outcome) (time : ℕ) : Books :=
  match b.reservations.get? send with
  | none => b
  | some r =>
    if !r.status.isLive then b
    else
      { scopes := touchAll (·.resolve r.tokens outcome time) r.targets b.scopes
        reservations := b.reservations.set send
          { r with status := outcome.status, resolvedAt := time } }

def applyDispatch (send : SpendAlias) (time : ℕ) : Books :=
  match b.reservations.get? send with
  | none => b
  | some r =>
    if r.status ≠ .opened then b
    else
      { b with
        reservations := b.reservations.set send
          { r with status := .dispatched, resolvedAt := time } }

/-- The entry goes, so a later use of the same send is a new booking. -/
def applyForget (send : SpendAlias) : Books :=
  match b.reservations.get? send with
  | none => b
  | some r =>
    if r.status.isLive then b else { b with reservations := b.reservations.delete send }

def applyDrop (ref : ScopeRef) : Books :=
  match b.scopes.get? ref with
  | none => b
  | some state => if 0 < state.reserved then b else { b with scopes := b.scopes.delete ref }

/-- A scope of a checkpoint; what is reserved there is rebuilt from the sends. -/
def restoreScope (entry : ScopeEntry) : Books :=
  { b with scopes := b.scopes.set entry.ref ⟨entry.settled, 0, entry.unresolved, entry.seenAt⟩ }

/-- A send of a checkpoint. -/
def restoreSend (entry : SendEntry) : Books :=
  if entry.status.isLive then
    let booked := b.applyReserve entry.send entry.targets entry.tokens entry.bookedAt
    if entry.status = .dispatched then booked.applyDispatch entry.send entry.resolvedAt else booked
  else
    { b with
      reservations := b.reservations.set entry.send
        ⟨entry.targets, entry.tokens, entry.status, entry.bookedAt, entry.resolvedAt⟩ }

def applyCheckpoint (scopes : List ScopeEntry) (sends : List SendEntry) : Books :=
  sends.foldl restoreSend (scopes.foldl restoreScope empty)

/-- What a record does to the books. -/
def apply : JournalRecord → Books
  | .reserve send targets tokens time => b.applyReserve send targets tokens time
  | .dispatch send time => b.applyDispatch send time
  | .settle send tokens time => b.applyResolve send (.settled tokens) time
  | .lost send time => b.applyResolve send .lost time
  | .abandon send time => b.applyResolve send .abandoned time
  | .forget send _ => b.applyForget send
  | .drop ref _ => b.applyDrop ref
  | .checkpoint _ scopes sends => applyCheckpoint scopes sends

/-- What a list of records does, first one first. -/
def applyAll (records : List JournalRecord) : Books := records.foldl apply b

@[simp] theorem applyAll_nil : b.applyAll [] = b := rfl

@[simp] theorem applyAll_cons (record : JournalRecord) (records : List JournalRecord) :
    b.applyAll (record :: records) = (b.apply record).applyAll records := rfl

theorem applyAll_append (records records' : List JournalRecord) :
    b.applyAll (records ++ records') = (b.applyAll records).applyAll records' :=
  foldl_append ..

/-- A whole-state snapshot. -/
def checkpointRecord (time : ℕ) : JournalRecord :=
  .checkpoint time
    (b.scopes.entries.map fun p ↦ ⟨p.1, p.2.settled, p.2.unresolved, p.2.lastSeenAt⟩)
    (b.reservations.entries.map fun p ↦
      ⟨p.1, p.2.status, p.2.targets, p.2.tokens, p.2.bookedAt, p.2.resolvedAt⟩)

/-- The tokens that live sends have reserved of a scope. -/
def liveTokens (ref : ScopeRef) : ℕ := b.reservations.total fun _ r ↦ r.weight ref

end Books

/-! ## Touching several scopes -/

section Touch

variable (f : ScopeState → ScopeState)

theorem get?_touch (scopes : OMap ScopeRef ScopeState) (ref ref' : ScopeRef) :
    (touch f scopes ref).get? ref' =
      if ref' = ref then some (f ((scopes.get? ref).getD .fresh)) else scopes.get? ref' :=
  get?_set ..

variable {targets : List ScopeRef}

/-- **Each named scope is updated once**, and becomes known by it. -/
theorem get?_touchAll (hnd : targets.Nodup) (scopes : OMap ScopeRef ScopeState) (ref : ScopeRef) :
    (touchAll f targets scopes).get? ref =
      if ref ∈ targets then some (f ((scopes.get? ref).getD .fresh)) else scopes.get? ref := by
  induction targets generalizing scopes with
  | nil => rw [if_neg not_mem_nil]; rfl
  | cons ref' targets ih =>
    rw [nodup_cons] at hnd
    rw [touchAll, foldl_cons, ← touchAll, ih hnd.2, get?_touch]
    by_cases href : ref = ref'
    · subst href
      rw [if_neg hnd.1, if_pos rfl, if_pos mem_cons_self]
    · rw [if_neg href]
      refine if_congr ?_ rfl rfl
      rw [mem_cons]
      exact (or_iff_right href).symm

theorem keys_touchAll {scopes : OMap ScopeRef ScopeState}
    (h : ∀ ref ∈ targets, scopes.has ref = true) :
    (touchAll f targets scopes).keys = scopes.keys := by
  induction targets generalizing scopes with
  | nil => rfl
  | cons ref targets ih =>
    rw [forall_mem_cons] at h
    rw [touchAll, foldl_cons, ← touchAll, ih]
    · exact keys_set_of_has h.1 _
    · intro ref' href'
      rw [touch, has_set, h.2 ref' href', Bool.or_true]

end Touch

/-! ## Reserved tokens are the tokens of live sends -/

/-- The targets of a reservation: each scope once, and at most three. -/
def GoodTargets (targets : List ScopeRef) : Prop := targets.Nodup ∧ targets.length ≤ 3

/-- A record as the ledger writes it. -/
def JournalRecord.WellFormed : JournalRecord → Prop
  | .reserve _ targets _ _ => GoodTargets targets
  | .checkpoint _ _ sends =>
    (sends.map SendEntry.send).Nodup ∧ ∀ entry ∈ sends, GoodTargets entry.targets
  | _ => True

variable {record : JournalRecord}

theorem JournalRecord.WellFormed.fits (h : record.WellFormed) : record.Fits := by
  cases record with
  | reserve send targets tokens time => exact h.2
  | checkpoint time scopes sends => exact fun entry he ↦ (h.2 entry he).2
  | _ => trivial

namespace Books

/-- **What a scope has reserved is what its live sends have reserved.** -/
structure Sums (b : Books) : Prop where
  reserved : ∀ ref, (b.figures ref).reserved = b.liveTokens ref
  targets : ∀ send r, b.reservations.get? send = some r → GoodTargets r.targets

variable {b : Books}

variable {targets : List ScopeRef}

theorem figures_touchAll {f : ScopeState → ScopeState} (hnd : targets.Nodup)
    (reservations : OMap SpendAlias Reservation) (ref : ScopeRef) :
    figures ⟨touchAll f targets b.scopes, reservations⟩ ref =
      if ref ∈ targets then f (b.figures ref) else b.figures ref := by
  rw [figures, get?_touchAll f hnd]
  split
  · rfl
  · rfl

theorem Sums.checkpointRecord (h : Sums b) (time : ℕ) : (b.checkpointRecord time).WellFormed := by
  refine ⟨?_, fun entry he ↦ ?_⟩
  · rw [List.map_map]
    exact b.reservations.nodup
  · obtain ⟨p, hp, rfl⟩ := List.mem_map.mp he
    exact h.targets p.1 p.2 (mem_entries.mp hp)

theorem empty_sums : Sums empty := ⟨fun _ ↦ rfl, fun _ _ h ↦ nomatch h⟩

variable {r : Reservation}

theorem Reservation.weight_resolved (h : r.status.isLive = false) (ref : ScopeRef) :
    r.weight ref = 0 := by
  rw [Reservation.weight, h, Bool.false_and, if_neg Bool.false_ne_true]

theorem Reservation.weight_live (h : r.status.isLive = true) (ref : ScopeRef) :
    r.weight ref = if ref ∈ r.targets then r.tokens else 0 := by
  rw [Reservation.weight, h, Bool.true_and]
  exact if_congr contains_iff_mem rfl rfl

theorem Sums.tokens_le (h : Sums b) {send : SpendAlias} (hr : b.reservations.get? send = some r)
    (hlive : r.status.isLive = true) {ref : ScopeRef} (href : ref ∈ r.targets) :
    r.tokens ≤ (b.figures ref).reserved := by
  have hle := OMap.le_total hr fun _ r ↦ r.weight ref
  rw [Reservation.weight_live hlive, if_pos href] at hle
  rw [h.reserved]
  exact hle

theorem Sums.applyReserve (h : Sums b) (hgood : GoodTargets targets) (send : SpendAlias)
    (tokens time : ℕ) : Sums (b.applyReserve send targets tokens time) := by
  rw [Books.applyReserve]
  split
  · exact h
  rename_i hnew
  have hnew := eq_false_of_ne_true hnew
  refine ⟨fun ref ↦ ?_, fun send' r hr ↦ ?_⟩
  · have htotal := total_set_of_not_has hnew (⟨targets, tokens, .opened, time, time⟩ :
      Reservation) fun _ r ↦ r.weight ref
    rw [Reservation.weight_live rfl] at htotal
    rw [liveTokens, htotal, figures_touchAll hgood.1, ← liveTokens, ← h.reserved]
    split
    · rfl
    · rfl
  · rw [get?_set] at hr
    split at hr
    · rw [← Option.some_inj.mp hr]
      exact hgood
    · exact h.targets send' r hr

theorem Sums.applyResolve (h : Sums b) (send : SpendAlias) (outcome : Outcome) (time : ℕ) :
    Sums (b.applyResolve send outcome time) := by
  rw [Books.applyResolve]
  split
  · exact h
  rename_i r hr
  split
  · exact h
  rename_i hlive
  have hlive : r.status.isLive = true := by simpa using hlive
  have hdead := outcome.status_isLive
  refine ⟨fun ref ↦ ?_, fun send' r' hr' ↦ ?_⟩
  · have htotal := total_set_of_get? hr
      { r with status := outcome.status, resolvedAt := time } fun _ r ↦ r.weight ref
    rw [Reservation.weight_live hlive, Reservation.weight_resolved hdead, Nat.add_zero] at htotal
    rw [figures_touchAll (h.targets send r hr).1, liveTokens]
    split at htotal
    · rename_i href
      rw [if_pos href]
      show (b.figures ref).reserved - r.tokens = _
      rw [h.reserved, liveTokens]
      exact Nat.sub_eq_of_eq_add htotal.symm
    · rename_i href
      rw [if_neg href, h.reserved, liveTokens]
      exact htotal.symm
  · rw [get?_set] at hr'
    split at hr'
    · rw [← Option.some_inj.mp hr']
      exact h.targets send r hr
    · exact h.targets send' r' hr'

theorem Sums.applyDispatch (h : Sums b) (send : SpendAlias) (time : ℕ) :
    Sums (b.applyDispatch send time) := by
  rw [Books.applyDispatch]
  split
  · exact h
  rename_i r hr
  split
  · exact h
  rename_i hopen
  have hlive : r.status.isLive = true := by rw [not_not.mp hopen]; rfl
  refine ⟨fun ref ↦ ?_, fun send' r' hr' ↦ ?_⟩
  · have htotal := total_set_of_get? hr
      { r with status := .dispatched, resolvedAt := time } fun _ r ↦ r.weight ref
    rw [Reservation.weight_live hlive, Reservation.weight_live rfl] at htotal
    exact (h.reserved ref).trans (Nat.add_right_cancel htotal).symm
  · rw [get?_set] at hr'
    split at hr'
    · rw [← Option.some_inj.mp hr']
      exact h.targets send r hr
    · exact h.targets send' r' hr'

theorem Sums.applyForget (h : Sums b) (send : SpendAlias) : Sums (b.applyForget send) := by
  rw [Books.applyForget]
  split
  · exact h
  rename_i r hr
  split
  · exact h
  rename_i hlive
  refine ⟨fun ref ↦ ?_, fun send' r' hr' ↦ ?_⟩
  · have htotal := total_delete hr fun _ r ↦ r.weight ref
    rw [Reservation.weight_resolved (eq_false_of_ne_true hlive), Nat.add_zero] at htotal
    exact (h.reserved ref).trans htotal.symm
  · rw [get?_delete] at hr'
    split at hr'
    · cases hr'
    · exact h.targets send' r' hr'

theorem Sums.applyDrop (h : Sums b) (ref : ScopeRef) : Sums (b.applyDrop ref) := by
  rw [Books.applyDrop]
  split
  · exact h
  rename_i state hstate
  split
  · exact h
  rename_i hzero
  refine ⟨fun ref' ↦ ?_, h.targets⟩
  show _ = b.liveTokens ref'
  rw [← h.reserved, figures, figures, get?_delete]
  split
  · rename_i heq
    rw [heq, hstate]
    exact (Nat.eq_zero_of_not_pos hzero).symm
  · rfl

theorem restoreScopes_sums {b : Books} (hzero : ∀ ref, (b.figures ref).reserved = 0)
    (hnone : b.reservations = .empty) (scopes : List ScopeEntry) :
    Sums (scopes.foldl restoreScope b) ∧ (scopes.foldl restoreScope b).reservations = .empty := by
  induction scopes generalizing b with
  | nil =>
    refine ⟨⟨fun ref ↦ ?_, fun send r hr ↦ ?_⟩, hnone⟩
    · show (b.figures ref).reserved = b.liveTokens ref
      rw [hzero, liveTokens, hnone, total_empty]
    · change b.reservations.get? send = some r at hr
      rw [hnone, get?_empty] at hr
      nomatch hr
  | cons entry scopes ih =>
    refine ih (fun ref ↦ ?_) hnone
    rw [figures, restoreScope, get?_set]
    split
    · rfl
    · exact hzero ref

theorem has_applyReserve (send send' : SpendAlias) (targets : List ScopeRef) (tokens time : ℕ) :
    (b.applyReserve send targets tokens time).reservations.has send' =
      (decide (send' = send) || b.reservations.has send') := by
  rw [Books.applyReserve]
  split
  · rename_i hknown
    by_cases h : send' = send
    · rw [h, hknown, Bool.or_true]
    · rw [decide_eq_false h, Bool.false_or]
  · rw [has_set]

theorem has_applyDispatch (send send' : SpendAlias) (time : ℕ) :
    (b.applyDispatch send time).reservations.has send' = b.reservations.has send' := by
  rw [Books.applyDispatch]
  split
  · rfl
  rename_i r hr
  split
  · rfl
  · rw [has_set]
    by_cases h : send' = send
    · rw [h, has_of_get? hr, Bool.or_true]
    · rw [decide_eq_false h, Bool.false_or]

theorem has_restoreSend (entry : SendEntry) (send : SpendAlias) :
    (b.restoreSend entry).reservations.has send =
      (decide (send = entry.send) || b.reservations.has send) := by
  rw [restoreSend]
  split_ifs
  · rw [has_applyDispatch, has_applyReserve]
  · rw [has_applyReserve]
  · rw [has_set]

theorem Sums.restoreSend (h : Sums b) {entry : SendEntry} (hgood : GoodTargets entry.targets)
    (hnew : b.reservations.has entry.send = false) : Sums (b.restoreSend entry) := by
  rw [Books.restoreSend]
  split_ifs with hlive
  · exact (h.applyReserve hgood ..).applyDispatch ..
  · exact h.applyReserve hgood ..
  · refine ⟨fun ref ↦ ?_, fun send r hr ↦ ?_⟩
    · have htotal := total_set_of_not_has hnew (⟨entry.targets, entry.tokens, entry.status,
        entry.bookedAt, entry.resolvedAt⟩ : Reservation) fun _ r ↦ r.weight ref
      rw [Reservation.weight_resolved (eq_false_of_ne_true hlive), Nat.add_zero] at htotal
      exact (h.reserved ref).trans htotal.symm
    · rw [get?_set] at hr
      split at hr
      · rw [← Option.some_inj.mp hr]
        exact hgood
      · exact h.targets send r hr

theorem Sums.restoreSends {sends : List SendEntry} (h : Sums b)
    (hnd : (sends.map SendEntry.send).Nodup) (hgood : ∀ entry ∈ sends, GoodTargets entry.targets)
    (hnew : ∀ entry ∈ sends, b.reservations.has entry.send = false) :
    Sums (sends.foldl Books.restoreSend b) := by
  induction sends generalizing b with
  | nil => exact h
  | cons entry sends ih =>
    rw [map_cons, nodup_cons] at hnd
    rw [forall_mem_cons] at hgood hnew
    refine ih (h.restoreSend hgood.1 hnew.1) hnd.2 hgood.2 fun entry' he ↦ ?_
    have hne : entry'.send ≠ entry.send := fun heq ↦ hnd.1 (heq ▸ List.mem_map_of_mem he)
    rw [has_restoreSend, decide_eq_false hne, Bool.false_or]
    exact hnew.2 entry' he

/-- **Every well-formed record keeps the sums**, wherever it stands in a journal. -/
theorem Sums.apply (h : Sums b) (hw : record.WellFormed) : Sums (b.apply record) := by
  cases record with
  | reserve send targets tokens time => exact h.applyReserve hw ..
  | dispatch send time => exact h.applyDispatch ..
  | settle send tokens time | lost send time | abandon send time => exact h.applyResolve ..
  | forget send time => exact h.applyForget ..
  | drop ref time => exact h.applyDrop ..
  | checkpoint time scopes sends =>
    obtain ⟨hsums, hnone⟩ := restoreScopes_sums (b := .empty) (fun _ ↦ rfl) rfl scopes
    refine hsums.restoreSends hw.1 hw.2 fun entry _ ↦ ?_
    rw [hnone, has_empty]

theorem Sums.applyAll (h : Sums b) {records : List JournalRecord}
    (hw : ∀ record ∈ records, record.WellFormed) : Sums (b.applyAll records) := by
  induction records generalizing b with
  | nil => exact h
  | cons record records ih =>
    rw [forall_mem_cons] at hw
    exact ih (h.apply hw.1) hw.2

end Books

end Spend
