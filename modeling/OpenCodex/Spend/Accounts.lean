import OpenCodex.Spend.Lifecycle
import Mathlib.Data.Finset.Basic
import Mathlib.Data.List.Sublists

/-!
# What a journal tells of a send

Replaying a journal, what becomes of one send depends on nothing but what was known of it and on the
record (`JournalRecord.tells`).  So the ledger and its journal can be compared send by send.

An `Account` is what matters for this: the sends the ledger holds, the records the journal has heard
and the records owed to it, and the reservations whose record did not reach it.  Whatever an operation
of the ledger does is a series of `Step`s on the account, with at most one `Booking` among them.
A send is *followed* when the records heard and owed together tell of it what the ledger holds, in the
order reserve, dispatch, resolution, each at most once; every step keeps that (`Step.standing`).  A
reservation that is *unwritten* is not followed yet: it is when the send moves on, and its record is
owed first.
-/

set_option autoImplicit false

open List Option OMap

namespace Spend

/-! ## One send in a list of records -/

/-- A reservation that is resolved if it is live. -/
def Reservation.resolved (outcome : Outcome) (time : ℕ) (r : Reservation) : Reservation :=
  if r.status.isLive then { r with status := outcome.status, resolvedAt := time } else r

/-- A reservation that is dispatched if it is open. -/
def Reservation.sent (time : ℕ) (r : Reservation) : Reservation :=
  if r.status = .opened then { r with status := .dispatched, resolvedAt := time } else r

/-- How far a send has come. -/
inductive Stage where
  | reserved
  | dispatched
  | resolved
  deriving DecidableEq, Repr

/-- The stages of a send with this status. -/
def ReservationStatus.stages : ReservationStatus → List Stage
  | .opened => [.reserved]
  | .dispatched => [.reserved, .dispatched]
  | .settled | .lost | .abandoned => [.reserved, .dispatched, .resolved]

namespace JournalRecord

/-- The send a record is about. -/
def send? : JournalRecord → Option SpendAlias
  | .reserve send _ _ _ | .dispatch send _ | .settle send _ _ | .lost send _ | .abandon send _
  | .forget send _ => some send
  | .drop _ _ | .checkpoint _ _ _ => none

/-- What is known of one send after a record. -/
def tells (s : SpendAlias) (known : Option Reservation) : JournalRecord → Option Reservation
  | .reserve send targets tokens time =>
    if send = s then some (known.getD ⟨targets, tokens, .opened, time, time⟩) else known
  | .dispatch send time => if send = s then known.map (·.sent time) else known
  | .settle send tokens time =>
    if send = s then known.map (·.resolved (.settled tokens) time) else known
  | .lost send time => if send = s then known.map (·.resolved .lost time) else known
  | .abandon send time => if send = s then known.map (·.resolved .abandoned time) else known
  | .forget send _ => if send = s then known.filter (·.status.isLive) else known
  | .drop _ _ => known
  | .checkpoint _ scopes sends => (Books.applyCheckpoint scopes sends).reservations.get? s

/-- The stage a record brings a send to. -/
def stage? (s : SpendAlias) : JournalRecord → Option Stage
  | .reserve send _ _ _ => if send = s then some .reserved else none
  | .dispatch send _ => if send = s then some .dispatched else none
  | .settle send _ _ | .lost send _ | .abandon send _ => if send = s then some .resolved else none
  | .forget _ _ | .drop _ _ | .checkpoint _ _ _ => none

end JournalRecord

/-- What a list of records tells of a send. -/
def told (s : SpendAlias) (records : List JournalRecord) : Option Reservation :=
  records.foldl (JournalRecord.tells s) none

/-- The stages of a send in a list of records. -/
def stagesOf (s : SpendAlias) (records : List JournalRecord) : List Stage :=
  records.filterMap (JournalRecord.stage? s)

section Apply

variable (b : Books) (send s : SpendAlias) (time : ℕ)

theorem Books.get?_applyReserve (targets : List ScopeRef) (tokens : ℕ) :
    (b.applyReserve send targets tokens time).reservations.get? s =
      if send = s then some ((b.reservations.get? s).getD ⟨targets, tokens, .opened, time, time⟩)
      else b.reservations.get? s := by
  rw [applyReserve]
  split
  · rename_i hknown
    obtain ⟨r, hr⟩ := OMap.has_iff.mp hknown
    split
    · rename_i heq
      rw [← heq, hr, getD_some]
    · rfl
  · rename_i hnew
    rw [get?_set]
    by_cases heq : send = s
    · have hnone := has_eq_false_iff.mp (eq_false_of_ne_true hnew)
      rw [if_pos heq.symm, if_pos heq, ← heq, hnone, getD_none]
    · rw [if_neg (Ne.symm heq), if_neg heq]

theorem Books.get?_applyDispatch : (b.applyDispatch send time).reservations.get? s =
    if send = s then (b.reservations.get? s).map (·.sent time) else b.reservations.get? s := by
  rw [applyDispatch]
  by_cases heq : send = s
  · subst heq
    rw [if_pos rfl]
    cases hr : b.reservations.get? send with
    | none => exact hr
    | some r =>
      dsimp only
      rw [map_some, Reservation.sent]
      split
      · exact hr
      · rename_i hopen
        rw [if_pos (not_not.mp hopen), get?_set_self]
  · rw [if_neg heq]
    split
    · rfl
    split
    · rfl
    · exact get?_set_of_ne _ (Ne.symm heq) _

theorem Books.get?_applyResolve (outcome : Outcome) :
    (b.applyResolve send outcome time).reservations.get? s =
      if send = s then (b.reservations.get? s).map (·.resolved outcome time)
      else b.reservations.get? s := by
  rw [applyResolve]
  by_cases heq : send = s
  · subst heq
    rw [if_pos rfl]
    cases hr : b.reservations.get? send with
    | none => exact hr
    | some r =>
      dsimp only
      rw [map_some, Reservation.resolved]
      cases hlive : r.status.isLive with
      | true =>
        rw [Bool.not_true, if_neg Bool.false_ne_true, if_pos rfl]
        exact get?_set_self ..
      | false => rw [Bool.not_false, if_pos rfl, if_neg Bool.false_ne_true, hr]
  · rw [if_neg heq]
    split
    · rfl
    split
    · rfl
    · exact get?_set_of_ne _ (Ne.symm heq) _

theorem Books.get?_applyForget : (b.applyForget send).reservations.get? s =
    if send = s then (b.reservations.get? s).filter (·.status.isLive)
    else b.reservations.get? s := by
  rw [applyForget]
  by_cases heq : send = s
  · subst heq
    rw [if_pos rfl]
    cases hr : b.reservations.get? send with
    | none => exact hr
    | some r =>
      dsimp only
      rw [filter_some]
      split
      · exact hr
      · exact get?_delete_self ..
  · rw [if_neg heq]
    split
    · rfl
    split
    · rfl
    · exact get?_delete_of_ne _ (Ne.symm heq)

/-- **A record changes of each send what it tells.** -/
theorem Books.get?_apply (record : JournalRecord) :
    (b.apply record).reservations.get? s = record.tells s (b.reservations.get? s) := by
  cases record with
  | reserve send targets tokens time => exact get?_applyReserve b send s time targets tokens
  | dispatch send time => exact get?_applyDispatch b send s time
  | settle send tokens time => exact get?_applyResolve b send s time (.settled tokens)
  | lost send time => exact get?_applyResolve b send s time .lost
  | abandon send time => exact get?_applyResolve b send s time .abandoned
  | forget send time => exact get?_applyForget b send s
  | drop ref time =>
    rw [apply, reservations_applyDrop]
    rfl
  | checkpoint time scopes sends => rfl

end Apply

theorem Books.get?_applyAll (b : Books) (records : List JournalRecord) (s : SpendAlias) :
    (b.applyAll records).reservations.get? s =
      records.foldl (JournalRecord.tells s) (b.reservations.get? s) := by
  induction records generalizing b with
  | nil => rfl
  | cons record records ih => rw [applyAll_cons, ih, get?_apply, foldl_cons]

theorem told_concat (s : SpendAlias) (records : List JournalRecord) (record : JournalRecord) :
    told s (records ++ [record]) = record.tells s (told s records) := by
  rw [told, foldl_append]
  rfl

theorem told_append (s : SpendAlias) (records records' : List JournalRecord) :
    told s (records ++ records') = records'.foldl (JournalRecord.tells s) (told s records) :=
  foldl_append ..

theorem JournalRecord.tells_other {s send : SpendAlias} {record : JournalRecord}
    (h : record.send? = some send) (hne : send ≠ s) (known : Option Reservation) :
    record.tells s known = known := by
  cases record with
  | drop ref time => rfl
  | checkpoint time scopes sends => nomatch h
  | _ =>
    obtain rfl := some_inj.mp h
    rw [tells, if_neg hne]

theorem JournalRecord.stage?_other {s send : SpendAlias} {record : JournalRecord}
    (h : record.send? = some send) (hne : send ≠ s) : record.stage? s = none := by
  cases record with
  | drop ref time => rfl
  | checkpoint time scopes sends => rfl
  | forget send time => rfl
  | _ =>
    obtain rfl := some_inj.mp h
    rw [stage?, if_neg hne]

theorem stagesOf_reserve (s : SpendAlias) (targets : List ScopeRef) (tokens time : ℕ) :
    stagesOf s [.reserve s targets tokens time] = [.reserved] := by
  rw [stagesOf, filterMap_cons_some (by rw [JournalRecord.stage?, if_pos rfl])]
  rfl

/-! ## Accounts -/

/-- What the ledger and its journal hold of the sends. -/
structure Account where
  sends : OMap SpendAlias Reservation
  /-- What the journal has heard, in the order it is replayed. -/
  heard : List JournalRecord
  /-- What is owed to the journal, oldest first. -/
  owed : List JournalRecord
  /-- Reservations that were admitted although their record did not reach the journal. -/
  unwritten : OMap SpendAlias JournalRecord
  /-- Ordinary sends whose records are owed until they are there. -/
  retained : Finset SpendAlias
  seeded : SpendAlias → Bool

/-- A send moves on, with the record that says so. -/
inductive Move (send : SpendAlias) (r : Reservation) : JournalRecord → Reservation → Prop
  | dispatch (time : ℕ) (hopen : r.status = .opened) :
    Move send r (.dispatch send time) { r with status := .dispatched, resolvedAt := time }
  | settle (tokens time : ℕ) (hlive : r.status.isLive = true) :
    Move send r (.settle send tokens time) { r with status := .settled, resolvedAt := time }
  | lost (time : ℕ) (hlive : r.status.isLive = true) :
    Move send r (.lost send time) { r with status := .lost, resolvedAt := time }
  | abandon (time : ℕ) (hlive : r.status.isLive = true) :
    Move send r (.abandon send time) { r with status := .abandoned, resolvedAt := time }

/-! ### Moving on -/

section Moving

variable {send : SpendAlias} {r r' : Reservation} {record : JournalRecord}
  (h : Move send r record r')
include h

theorem Move.send?_eq : record.send? = some send := by cases h <;> rfl

theorem Move.live : r.status.isLive = true := by
  cases h with
  | dispatch time hopen => rw [hopen]; rfl
  | _ => assumption

theorem Move.tells : record.tells send (some r) = some r' := by
  cases h with
  | dispatch time hopen =>
    rw [JournalRecord.tells, if_pos rfl, map_some, Reservation.sent, if_pos hopen]
  | settle tokens time hlive | lost time hlive | abandon time hlive =>
    rw [JournalRecord.tells, if_pos rfl, map_some, Reservation.resolved, if_pos hlive]
    rfl

theorem Move.not_opened : r'.status ≠ .opened := by cases h <;> simp

theorem Move.opened (hsent : r'.status = .dispatched) : r.status = .opened := by
  cases h with
  | dispatch time hopen => exact hopen
  | _ => nomatch hsent

theorem Move.stages : (r.status.stages ++ stagesOf send [record]).Sublist r'.status.stages := by
  have hlive := h.live
  have hstage : stagesOf send [record] = (record.stage? send).toList := by
    cases hs : record.stage? send with
    | none => rw [stagesOf, filterMap_cons_none hs]; rfl
    | some stage => rw [stagesOf, filterMap_cons_some hs]; rfl
  rw [hstage]
  cases h with
  | dispatch time hopen =>
    rw [hopen, JournalRecord.stage?, if_pos rfl]
    dsimp only
    decide
  | _ =>
    rw [JournalRecord.stage?, if_pos rfl]
    dsimp only
    cases hs : r.status with
    | opened => decide
    | dispatched => decide
    | _ => rw [hs] at hlive; nomatch hlive

end Moving

namespace Account

variable {a a' : Account} {s send : SpendAlias} {r r' : Reservation} {record : JournalRecord}

/-- The send moves to `r'`; resolved, it is neither unwritten nor retained any more. -/
def move (a : Account) (send : SpendAlias) (r' : Reservation) : Account :=
  { a with
    sends := a.sends.set send r'
    unwritten := if r'.status.isLive then a.unwritten else a.unwritten.delete send
    retained := if r'.status.isLive then a.retained else a.retained.erase send }

/-- What the journal hears directly. -/
def hear (a : Account) (record : JournalRecord) : Account :=
  { a with heard := a.heard ++ [record] }

def owe (a : Account) (records : List JournalRecord) : Account :=
  { a with owed := a.owed ++ records }

/-- One thing that happens to the account, a booking apart. -/
inductive Step : Account → Account → Prop
  /-- The oldest record that was owed is written. -/
  | paid {a : Account} {record : JournalRecord} {records : List JournalRecord}
      (howed : a.owed = record :: records) :
      Step a { a.hear record with owed := records }
  /-- The tombstone of a scope is written. -/
  | noted {a : Account} (ref : ScopeRef) (time : ℕ) : Step a (a.hear (.drop ref time))
  /-- The tombstone of a send that is live is written, to no effect. -/
  | reminded {a : Account} {send : SpendAlias} {r : Reservation} (time : ℕ) (hpaid : a.owed = [])
      (hr : a.sends.get? send = some r) (hlive : r.status.isLive = true) :
      Step a (a.hear (.forget send time))
  /-- A send is forgotten once its tombstone is written. -/
  | forgot {a : Account} (send : SpendAlias) (time : ℕ) (hpaid : a.owed = [])
      (hdead : ∀ r, a.sends.get? send = some r → r.status.isLive = false) :
      Step a { a.hear (.forget send time) with
        sends := a.sends.delete send
        unwritten := a.unwritten.delete send
        retained := a.retained.erase send }
  /-- Seeds are finished whose sends are all forgotten. -/
  | unseeded {a : Account} (seeded : SpendAlias → Bool)
      (hsub : ∀ s, seeded s = true → a.seeded s = true)
      (hkeep : ∀ s, a.sends.has s = true → seeded s = a.seeded s) :
      Step a { a with seeded := seeded }
  /-- A send moves on, and the record of it is owed. -/
  | moved {a : Account} {send : SpendAlias} {r r' : Reservation} {record : JournalRecord}
      (hr : a.sends.get? send = some r) (hmove : Move send r record r')
      (hwritten : r'.status ≠ .abandoned → a.unwritten.has send = false) :
      Step a ((a.move send r').owe [record])
  /-- A send that is not kept moves on, and the record of it is written or not. -/
  | tried {a : Account} {send : SpendAlias} {r r' : Reservation} {record : JournalRecord}
      (written : Bool) (hr : a.sends.get? send = some r) (hmove : Move send r record r')
      (hordinary : r'.status ≠ .abandoned →
        a.unwritten.has send = false ∧ a.seeded send = false ∧ send ∉ a.retained) :
      Step a (if written then (a.move send r').hear record else a.move send r')
  /-- A send whose reservation is unwritten moves on, and both records are owed. -/
  | recovered {a : Account} {send : SpendAlias} {r r' : Reservation}
      {reserve record : JournalRecord} (hunwritten : a.unwritten.get? send = some reserve)
      (hr : a.sends.get? send = some r) (hmove : Move send r record r') :
      Step a ((({ a with
        unwritten := a.unwritten.delete send
        retained := insert send a.retained }.move send r').owe [reserve]).owe [record])
  /-- The journal is replaced by a checkpoint of all that the ledger holds. -/
  | compacted {a : Account} {time : ℕ} {scopes : List ScopeEntry} {sends : List SendEntry}
      (hpaid : a.owed = [])
      (hall : ∀ s, (Books.applyCheckpoint scopes sends).reservations.get? s = a.sends.get? s) :
      Step a { a with heard := [.checkpoint time scopes sends] }

/-- A send is booked. -/
inductive Booking (send : SpendAlias) : Account → Account → Prop
  /-- Its record is written, or the reservation is unwritten; perhaps it is the first of a seed. -/
  | reserved {a : Account} (targets : List ScopeRef) (tokens time : ℕ) (written seed : Bool)
      (hnew : a.sends.has send = false) (hseeded : a.seeded send = false) :
      Booking send a
        { (if written then a.hear (.reserve send targets tokens time)
            else { a with unwritten := a.unwritten.set send (.reserve send targets tokens time) })
          with
          sends := a.sends.set send ⟨targets, tokens, .opened, time, time⟩
          seeded := fun s ↦ (seed && s == send) || a.seeded s }
  /-- It is reported on a seed, and its record is owed. -/
  | enrolled {a : Account} (targets : List ScopeRef) (tokens time : ℕ)
      (hnew : a.sends.has send = false) (hseeded : a.seeded send = false) :
      Booking send a
        { a.owe [.reserve send targets tokens time] with
          sends := a.sends.set send ⟨targets, tokens, .opened, time, time⟩
          seeded := fun s ↦ s == send || a.seeded s }

/-- Any number of steps. -/
abbrev Steps : Account → Account → Prop := Relation.ReflTransGen Step

/-! ## What is followed -/

/-- The send is held, and was not abandoned. -/
def Held (s : SpendAlias) (a : Account) : Prop :=
  ∃ r, a.sends.get? s = some r ∧ r.status ≠ .abandoned

/-- Neither the ledger nor the journal knows of the send. -/
def Untold (s : SpendAlias) (a : Account) : Prop :=
  a.sends.has s = false ∧ told s a.heard = none

/-- Unwritten reservations are open, and nothing is owed for a send that is not held. -/
structure Sane (a : Account) : Prop where
  unwritten : ∀ s record, a.unwritten.get? s = some record → ∃ targets tokens time,
    record = .reserve s targets tokens time ∧
      a.sends.get? s = some ⟨targets, tokens, .opened, time, time⟩
  owed : ∀ record ∈ a.owed, ∃ s, record.send? = some s ∧ a.sends.has s = true

/-- Since the journal knew nothing of the send, or was a checkpoint, it heard of at most these stages
of it, in this order, counting what is owed. -/
def InOrder (s : SpendAlias) (a : Account) (stages : List Stage) : Prop :=
  ∃ before life, a.heard = before ++ life ∧
    (told s before = none ∨ ∃ time scopes sends, before = [.checkpoint time scopes sends]) ∧
    (stagesOf s (life ++ a.owed)).Sublist stages

/-- The records of the send are kept until they are written. -/
structure Kept (s : SpendAlias) (a : Account) (status : ReservationStatus) : Prop where
  opened : status = .opened → a.seeded s = true
  dispatched : status = .dispatched → a.seeded s = true ∨ s ∈ a.retained

/-- What was heard and is owed tells of the send what the ledger holds. -/
structure Followed (s : SpendAlias) (a : Account) (r : Reservation) : Prop where
  told : told s (a.heard ++ a.owed) = some r
  inOrder : InOrder s a r.status.stages
  written : a.unwritten.has s = false
  kept : Kept s a r.status

/-- The reservation is unwritten, and nothing else is told of the send. -/
structure Unwritten (s : SpendAlias) (a : Account) (r : Reservation) : Prop where
  opened : r.status = .opened
  told : told s (a.heard ++ a.owed) = none ∨ told s (a.heard ++ a.owed) = some r
  inOrder : InOrder s a []
  unwritten : a.unwritten.has s = true

/-- The send is followed, or will be when it moves on. -/
def Standing (s : SpendAlias) (a : Account) : Prop :=
  ∃ r, a.sends.get? s = some r ∧ (Followed s a r ∨ Unwritten s a r)

/-! ### Steps about other sends -/

/-- Nothing changes for the send. -/
structure Aside (s : SpendAlias) (a a' : Account) : Prop where
  sends : a'.sends.get? s = a.sends.get? s
  unwritten : a'.unwritten.has s = a.unwritten.has s
  retained : s ∈ a.retained → s ∈ a'.retained
  seeded : a'.seeded s = a.seeded s
  told : told s (a'.heard ++ a'.owed) = told s (a.heard ++ a.owed)
  inOrder : ∀ stages, InOrder s a stages → InOrder s a' stages

variable {status : ReservationStatus}

theorem Aside.kept (h : Aside s a a') (hk : Kept s a status) : Kept s a' status where
  opened hopen := h.seeded.trans (hk.opened hopen)
  dispatched hsent := (hk.dispatched hsent).imp (h.seeded.trans ·) h.retained

theorem Aside.standing (h : Aside s a a') (hs : Standing s a) : Standing s a' := by
  obtain ⟨r, hr, hf | hu⟩ := hs
  · exact ⟨r, h.sends.trans hr, .inl ⟨h.told.trans hf.told, h.inOrder _ hf.inOrder,
      h.unwritten.trans hf.written, h.kept hf.kept⟩⟩
  · exact ⟨r, h.sends.trans hr, .inr ⟨hu.opened, h.told ▸ hu.told, h.inOrder _ hu.inOrder,
      h.unwritten.trans hu.unwritten⟩⟩

variable {stages : List Stage}

theorem InOrder.hear (h : InOrder s a stages) (hstage : record.stage? s = none) :
    InOrder s (a.hear record) stages := by
  obtain ⟨before, life, hheard, hbase, hsub⟩ := h
  refine ⟨before, life ++ [record], ?_, hbase, ?_⟩
  · rw [Account.hear, hheard, append_assoc]
  · simp only [stagesOf, filterMap_append, Account.hear, filterMap_cons, hstage,
      filterMap_nil, append_nil] at hsub ⊢
    exact hsub

theorem InOrder.owe (h : InOrder s a stages) (records : List JournalRecord) :
    InOrder s (a.owe records) (stages ++ stagesOf s records) := by
  obtain ⟨before, life, hheard, hbase, hsub⟩ := h
  refine ⟨before, life, hheard, hbase, ?_⟩
  rw [Account.owe, ← append_assoc, stagesOf, filterMap_append]
  exact hsub.append (.refl _)

theorem told_hear (h : record.tells s (told s a.heard) = told s a.heard) :
    told s ((a.hear record).heard ++ (a.hear record).owed) = told s (a.heard ++ a.owed) := by
  rw [Account.hear, told_append, told_concat, h, ← told_append]

theorem aside_paid {records : List JournalRecord} (howed : a.owed = record :: records) :
    Aside s a { a.hear record with owed := records } := by
  have hlists (l : List JournalRecord) : l ++ [record] ++ records = l ++ a.owed := by
    rw [howed, append_assoc, singleton_append]
  refine ⟨rfl, rfl, id, rfl, congrArg (Spend.told s) (hlists _), fun stages h ↦ ?_⟩
  obtain ⟨before, life, hheard, hbase, hsub⟩ := h
  refine ⟨before, life ++ [record], ?_, hbase, (hlists life).symm ▸ hsub⟩
  rw [Account.hear, hheard, append_assoc]

theorem aside_hear (htells : record.tells s (Spend.told s a.heard) = Spend.told s a.heard)
    (hstage : record.stage? s = none) : Aside s a (a.hear record) :=
  ⟨rfl, rfl, id, rfl, told_hear htells, fun _ h ↦ h.hear hstage⟩

theorem aside_owe (hother : record.send? = some send) (hne : send ≠ s) :
    Aside s a (a.owe [record]) := by
  refine ⟨rfl, rfl, id, rfl, ?_, fun stages h ↦ ?_⟩
  · rw [Account.owe, ← append_assoc, told_concat, JournalRecord.tells_other hother hne]
  · have hnil : stagesOf s [record] = [] := by
      rw [stagesOf, filterMap_cons, JournalRecord.stage?_other hother hne, filterMap_nil]
    rw [← append_nil stages, ← hnil]
    exact h.owe [record]

theorem aside_move (hne : send ≠ s) (r' : Reservation) : Aside s a (a.move send r') := by
  refine ⟨get?_set_of_ne _ (Ne.symm hne) _, ?_, fun h ↦ ?_, rfl, rfl, fun _ ↦ id⟩
  · rw [move]
    split
    · rfl
    · rw [has_delete, decide_eq_true (Ne.symm hne), Bool.true_and]
  · rw [move]
    split
    · exact h
    · exact Finset.mem_erase.mpr ⟨Ne.symm hne, h⟩

theorem Aside.trans {a'' : Account} (h : Aside s a a') (h' : Aside s a' a'') : Aside s a a'' where
  sends := h'.sends.trans h.sends
  unwritten := h'.unwritten.trans h.unwritten
  retained := h'.retained ∘ h.retained
  seeded := h'.seeded.trans h.seeded
  told := h'.told.trans h.told
  inOrder stages hin := h'.inOrder stages (h.inOrder stages hin)

theorem aside_forgot (hne : send ≠ s) (time : ℕ) : Aside s a { a.hear (.forget send time) with
      sends := a.sends.delete send
      unwritten := a.unwritten.delete send
      retained := a.retained.erase send } := by
  have hhear : Aside s a (a.hear (.forget send time)) :=
    aside_hear (JournalRecord.tells_other rfl hne _) rfl
  refine ⟨get?_delete_of_ne _ (Ne.symm hne), ?_, fun h ↦ ?_, rfl, hhear.told, hhear.inOrder⟩
  · show (a.unwritten.delete send).has s = _
    rw [has_delete, decide_eq_true (Ne.symm hne), Bool.true_and]
  · exact Finset.mem_erase.mpr ⟨Ne.symm hne, h⟩

theorem aside_takenUp (hne : send ≠ s) : Aside s a { a with
      unwritten := a.unwritten.delete send
      retained := insert send a.retained } := by
  refine ⟨rfl, ?_, fun h ↦ Finset.mem_insert_of_mem h, rfl, rfl, fun _ ↦ id⟩
  show (a.unwritten.delete send).has s = _
  rw [has_delete, decide_eq_true (Ne.symm hne), Bool.true_and]

theorem InOrder.mono {stages' : List Stage} (h : InOrder s a stages) (hsub : stages.Sublist stages') :
    InOrder s a stages' := by
  obtain ⟨before, life, hheard, hbase, hlife⟩ := h
  exact ⟨before, life, hheard, hbase, hlife.trans hsub⟩

theorem Followed.owe (hf : Followed s a r) (hmove : Move s r record r') :
    Followed s ((a.move s r').owe [record]) r' where
  told := by
    show Spend.told s (a.heard ++ (a.owed ++ [record])) = some r'
    rw [← append_assoc, told_concat, hf.told, hmove.tells]
  inOrder := by
    have hmoved : InOrder s (a.move s r') r.status.stages := hf.inOrder
    exact (hmoved.owe [record]).mono hmove.stages
  written := by
    show (if r'.status.isLive then a.unwritten else a.unwritten.delete s).has s = false
    split
    · exact hf.written
    · rw [has_delete, decide_eq_false (not_not.mpr rfl), Bool.false_and]
  kept := ⟨fun hopen ↦ absurd hopen hmove.not_opened,
    fun hsent ↦ .inl (hf.kept.opened (hmove.opened hsent))⟩

theorem Unwritten.recovered (hu : Unwritten s a r) (hr : a.sends.get? s = some r)
    (hsane : Sane a) {reserve : JournalRecord} (hreserve : a.unwritten.get? s = some reserve)
    (hmove : Move s r record r') : Followed s ((({ a with
      unwritten := a.unwritten.delete s
      retained := insert s a.retained }.move s r').owe [reserve]).owe [record]) r' := by
  obtain ⟨targets, tokens, time, rfl, hr'⟩ := hsane.unwritten s reserve hreserve
  obtain rfl := some_inj.mp (hr.symm.trans hr')
  have hgone : (a.unwritten.delete s).has s = false := by
    rw [has_delete, decide_eq_false (not_not.mpr rfl), Bool.false_and]
  refine ⟨?_, ?_, ?_, fun hopen ↦ absurd hopen hmove.not_opened, fun hsent ↦ .inr ?_⟩
  · show Spend.told s (a.heard ++ (a.owed ++ [_] ++ [record])) = some r'
    rw [← append_assoc, ← append_assoc, told_concat, told_concat, ← hmove.tells,
      JournalRecord.tells, if_pos rfl]
    rcases hu.told with htold | htold
    · rw [htold, getD_none]
    · rw [htold, getD_some]
  · have htaken : InOrder s ({ a with
        unwritten := a.unwritten.delete s
        retained := insert s a.retained }.move s r') [] := hu.inOrder
    refine ((htaken.owe _).owe [record]).mono ?_
    rw [stagesOf_reserve]
    exact hmove.stages
  · show (if r'.status.isLive then a.unwritten.delete s
      else (a.unwritten.delete s).delete s).has s = false
    split
    · exact hgone
    · rw [has_delete, hgone, Bool.and_false]
  · show s ∈ if r'.status.isLive then insert s a.retained else (insert s a.retained).erase s
    rw [hsent]
    exact Finset.mem_insert_self s _

/-! ## Steps -/

theorem Followed.told_paid (hf : Followed s a r) (hpaid : a.owed = []) :
    Spend.told s a.heard = some r := by
  have htold := hf.told
  rwa [hpaid, append_nil] at htold

theorem Standing.reminded (hs : Standing s a) (hpaid : a.owed = [])
    (hr : a.sends.get? s = some r) (hlive : r.status.isLive = true) (time : ℕ) :
    (JournalRecord.forget s time).tells s (Spend.told s a.heard) = Spend.told s a.heard := by
  have hsome : (JournalRecord.forget s time).tells s (some r) = some r := by
    rw [JournalRecord.tells, if_pos rfl, filter_some, if_pos hlive]
  obtain ⟨r', hr', hf | hu⟩ := hs
  · obtain rfl := some_inj.mp (hr.symm.trans hr')
    rw [hf.told_paid hpaid, hsome]
  · obtain rfl := some_inj.mp (hr.symm.trans hr')
    have htold := hu.told
    rw [hpaid, append_nil] at htold
    rcases htold with htold | htold
    · rw [htold, JournalRecord.tells, if_pos rfl, filter_none]
    · rw [htold, hsome]

theorem Kept.live (hk : Kept s a status) (hlive : status.isLive = true)
    (hseeded : a.seeded s = false) : s ∈ a.retained := by
  have hno : a.seeded s ≠ true := by rw [hseeded]; exact Bool.false_ne_true
  cases hstatus : status with
  | opened => exact absurd (hk.opened hstatus) hno
  | dispatched => exact (hk.dispatched hstatus).resolve_left hno
  | _ => rw [hstatus] at hlive; nomatch hlive

/-- **A send stays followed**, or waiting to be, through every step. -/
theorem Step.standing (h : Step a a') (hsane : Sane a) (hs : Standing s a) (hheld : Held s a') :
    Standing s a' := by
  cases h with
  | paid howed => exact (aside_paid howed).standing hs
  | noted ref time => exact (aside_hear (s := s) (by rfl) rfl).standing hs
  | @reminded send r time hpaid hr hlive =>
    refine (aside_hear ?_ rfl).standing hs
    by_cases hne : send = s
    · subst hne
      exact hs.reminded hpaid hr hlive time
    · exact JournalRecord.tells_other rfl hne _
  | forgot send time hpaid hdead =>
    by_cases hne : send = s
    · subst hne
      obtain ⟨r, hr, -⟩ := hheld
      exact absurd ((get?_delete_self _ _).symm.trans hr) (by simp)
    · exact (aside_forgot hne time).standing hs
  | unseeded seeded hsub hkeep =>
    obtain ⟨r, hr, -⟩ := hheld
    have haside : Aside s a { a with seeded := seeded } :=
      ⟨rfl, rfl, id, hkeep s (has_of_get? hr), rfl, fun _ ↦ id⟩
    exact haside.standing hs
  | @moved send r r' record hr hmove hwritten =>
    by_cases hne : send = s
    · subst hne
      obtain ⟨r₁, hr₁, hkept⟩ := hheld
      obtain rfl := some_inj.mp ((get?_set_self ..).symm.trans hr₁)
      obtain ⟨r₂, hr₂, hf | hu⟩ := hs
      · obtain rfl := some_inj.mp (hr.symm.trans hr₂)
        exact ⟨r', hr₁, .inl (hf.owe hmove)⟩
      · exact absurd (hu.unwritten.symm.trans (hwritten hkept)) (by decide)
    · exact ((aside_move hne r').trans (aside_owe hmove.send?_eq hne)).standing hs
  | @tried send r r' record written hr hmove hordinary =>
    by_cases hne : send = s
    · subst hne
      have hkept : r'.status ≠ .abandoned := by
        obtain ⟨r₁, hr₁, hkept⟩ := hheld
        have hsends : (if written then (a.move send r').hear record else a.move send r').sends =
            a.sends.set send r' := by
          split
          · rfl
          · rfl
        rw [hsends, get?_set_self, some_inj] at hr₁
        exact hr₁ ▸ hkept
      obtain ⟨hwritten, hseeded, hretained⟩ := hordinary hkept
      obtain ⟨r₂, hr₂, hf | hu⟩ := hs
      · obtain rfl := some_inj.mp (hr.symm.trans hr₂)
        exact absurd (hf.kept.live hmove.live hseeded) hretained
      · exact absurd (hu.unwritten.symm.trans hwritten) (by decide)
    · have hmoved : Aside s a (a.move send r') := aside_move hne r'
      cases written with
      | true =>
        exact (hmoved.trans (aside_hear (JournalRecord.tells_other hmove.send?_eq hne _)
          (JournalRecord.stage?_other hmove.send?_eq hne))).standing hs
      | false => exact hmoved.standing hs
  | @recovered send r r' reserve record hunwritten hr hmove =>
    by_cases hne : send = s
    · subst hne
      obtain ⟨r₂, hr₂, hf | hu⟩ := hs
      · exact absurd ((has_of_get? hunwritten).symm.trans hf.written) (by decide)
      · obtain rfl := some_inj.mp (hr.symm.trans hr₂)
        exact ⟨r', get?_set_self .., .inl (hu.recovered hr hsane hunwritten hmove)⟩
    · obtain ⟨targets, tokens, time, rfl, -⟩ := hsane.unwritten send reserve hunwritten
      exact ((((aside_takenUp hne).trans (aside_move hne r')).trans (aside_owe rfl hne)).trans
        (aside_owe hmove.send?_eq hne)).standing hs
  | @compacted time scopes sends hpaid hall =>
    obtain ⟨r, hr, hstate⟩ := hs
    have htold : Spend.told s ([.checkpoint time scopes sends] ++ a.owed) = some r := by
      rw [hpaid]
      exact (hall s).trans hr
    have hin (stages : List Stage) :
        InOrder s { a with heard := [.checkpoint time scopes sends] } stages := by
      refine ⟨_, [], rfl, .inr ⟨time, scopes, sends, rfl⟩, ?_⟩
      show (stagesOf s ([] ++ a.owed)).Sublist stages
      rw [hpaid]
      exact nil_sublist _
    refine ⟨r, hr, hstate.imp (fun hf ↦ ?_) fun hu ↦ ?_⟩
    · exact ⟨htold, hin _, hf.written, ⟨hf.kept.opened, hf.kept.dispatched⟩⟩
    · exact ⟨hu.opened, .inr htold, hin _, hu.unwritten⟩

theorem Sane.hear (h : Sane a) (record : JournalRecord) : Sane (a.hear record) :=
  ⟨h.unwritten, h.owed⟩

theorem Sane.owe (h : Sane a) (hsend : record.send? = some send) (hhas : a.sends.has send = true) :
    Sane (a.owe [record]) :=
  ⟨h.unwritten, forall_mem_append.mpr ⟨h.owed, forall_mem_singleton.mpr ⟨send, hsend, hhas⟩⟩⟩

theorem Sane.move (h : Sane a) (hr : a.sends.get? send = some r)
    (hwritten : r'.status.isLive = true → a.unwritten.has send = false) :
    Sane (a.move send r') := by
  refine ⟨fun s record hrecord ↦ ?_, fun record hrecord ↦ ?_⟩
  · have hne : s ≠ send ∧ a.unwritten.get? s = some record := by
      change (if r'.status.isLive then a.unwritten else a.unwritten.delete send).get? s =
        some record at hrecord
      split at hrecord
      · rename_i hlive
        refine ⟨?_, hrecord⟩
        rintro rfl
        exact absurd ((has_of_get? hrecord).symm.trans (hwritten hlive)) (by decide)
      · rw [get?_delete] at hrecord
        split at hrecord
        · cases hrecord
        · exact ⟨‹_›, hrecord⟩
    obtain ⟨targets, tokens, time, heq, hs⟩ := h.unwritten s record hne.2
    exact ⟨targets, tokens, time, heq, (get?_set_of_ne _ hne.1 _).trans hs⟩
  · obtain ⟨s, hsend, hhas⟩ := h.owed record hrecord
    refine ⟨s, hsend, ?_⟩
    rw [Account.move, has_set, hhas, Bool.or_true]

theorem not_abandoned_of_live (h : status.isLive = true) : status ≠ .abandoned := by
  rintro rfl
  nomatch h

/-- **Steps keep the account sane.** -/
theorem Step.sane (h : Step a a') (hsane : Sane a) : Sane a' := by
  cases h with
  | paid howed =>
    exact ⟨hsane.unwritten, fun record hr ↦ hsane.owed record (howed ▸ mem_cons_of_mem _ hr)⟩
  | noted ref time => exact hsane.hear _
  | reminded time hpaid hr hlive => exact hsane.hear _
  | forgot send time hpaid hdead =>
    refine ⟨fun s record hrecord ↦ ?_, fun record hrecord ↦ ?_⟩
    · change (a.unwritten.delete send).get? s = some record at hrecord
      rw [get?_delete] at hrecord
      split at hrecord
      · cases hrecord
      · rename_i hne
        obtain ⟨targets, tokens, time, heq, hs⟩ := hsane.unwritten s record hrecord
        exact ⟨targets, tokens, time, heq, (get?_delete_of_ne _ hne).trans hs⟩
    · change record ∈ a.owed at hrecord
      rw [hpaid] at hrecord
      exact absurd hrecord not_mem_nil
  | unseeded seeded hsub hkeep => exact ⟨hsane.unwritten, hsane.owed⟩
  | @moved send r r' record hr hmove hwritten =>
    refine .owe (hsane.move hr fun hlive ↦ hwritten (not_abandoned_of_live hlive)) hmove.send?_eq ?_
    exact has_of_get? (get?_set_self ..)
  | @tried send r r' record written hr hmove hordinary =>
    have hmoved : Sane (a.move send r') :=
      hsane.move hr fun hlive ↦ (hordinary (not_abandoned_of_live hlive)).1
    cases written with
    | true => exact hmoved.hear record
    | false => exact hmoved
  | @recovered send r r' reserve record hunwritten hr hmove =>
    obtain ⟨targets, tokens, time, rfl, -⟩ := hsane.unwritten send reserve hunwritten
    have hgone : (a.unwritten.delete send).has send = false := by
      rw [has_delete, decide_eq_false (not_not.mpr rfl), Bool.false_and]
    have htaken : Sane { a with
        unwritten := a.unwritten.delete send
        retained := insert send a.retained } :=
      ⟨fun s record hrecord ↦ hsane.unwritten s record (get?_of_delete hrecord), hsane.owed⟩
    have hhas : (a.sends.set send r').has send = true := has_of_get? (get?_set_self ..)
    exact ((htaken.move hr fun _ ↦ hgone).owe rfl hhas).owe hmove.send?_eq hhas
  | compacted hpaid hall => exact ⟨hsane.unwritten, hsane.owed⟩

/-- What a step leaves of a send was there before, and was not abandoned if it is not now. -/
theorem Step.sends_back (h : Step a a') (hr' : a'.sends.get? s = some r') :
    ∃ r, a.sends.get? s = some r ∧ (r'.status ≠ .abandoned → r.status ≠ .abandoned) := by
  have hset (send : SpendAlias) (r₁ r₂ : Reservation) (hr : a.sends.get? send = some r₁)
      (hlive : r₁.status.isLive = true) (hr' : (a.sends.set send r₂).get? s = some r') :
      ∃ r, a.sends.get? s = some r ∧ (r'.status ≠ .abandoned → r.status ≠ .abandoned) := by
    by_cases hne : s = send
    · subst hne
      exact ⟨r₁, hr, fun _ ↦ not_abandoned_of_live hlive⟩
    · rw [get?_set_of_ne _ hne] at hr'
      exact ⟨r', hr', id⟩
  cases h with
  | forgot send time hpaid hdead => exact ⟨r', get?_of_delete hr', id⟩
  | moved hr hmove hwritten => exact hset _ _ _ hr hmove.live hr'
  | @tried send r r₂ record written hr hmove hordinary =>
    refine hset _ _ r₂ hr hmove.live ?_
    cases written with
    | true => exact hr'
    | false => exact hr'
  | recovered hunwritten hr hmove => exact hset _ _ _ hr hmove.live hr'
  | _ => exact ⟨r', hr', id⟩

theorem Step.held_back (h : Step a a') (hheld : Held s a') : Held s a := by
  obtain ⟨r', hr', hkept⟩ := hheld
  obtain ⟨r, hr, hback⟩ := h.sends_back hr'
  exact ⟨r, hr, hback hkept⟩

theorem Step.has_eq_false (h : Step a a') (hnew : a.sends.has s = false) :
    a'.sends.has s = false := by
  refine eq_false_of_ne_true fun hhas ↦ ?_
  obtain ⟨r', hr'⟩ := OMap.has_iff.mp hhas
  obtain ⟨r, hr, -⟩ := h.sends_back hr'
  exact absurd ((has_of_get? hr).symm.trans hnew) (by decide)

end Account

end Spend
