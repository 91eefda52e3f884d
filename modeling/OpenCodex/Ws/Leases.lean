import OpenCodex.Data.Chronicle
import OpenCodex.Ws.Pool

/-!
# A pooled socket serves one request at a time

What the pool promises is read off its record: `Lawful` says what must hold, at every entry of it,
of the entries before.  A session is lent only when it is not out, to a request of its own lane,
while its entry is neither retired nor its socket closed; a waiter is answered only while it waits,
and with a session only when it is the first of its key.  The two things that depend on how the
session is lent — its age, and the mark of a reuse by another turn — are a parameter of it.

`Books` ties the record to the pool: what is out is busy, the queue is who is waiting, an entry of
the map is one that was made, under its own key.  Every primitive move keeps the books; lending is
the only one that has to show something.
-/

set_option autoImplicit false

open List Nat Function

namespace Ws

open Chronicle CodexWsPool

/-! ## The record -/

namespace Note

def lends : Note → Option ℕ
  | lent h => some h.entry.session
  | _ => none

def returns : Note → Option ℕ
  | back sid => some sid
  | _ => none

def joins : Note → Option Waiter
  | waits w => some w
  | _ => none

def answers : Note → Option Waiter
  | resolved w _ => some w
  | _ => none

end Note

/-- The session was lent, and neither released nor closed since. -/
def OutIn (log : List Note) (sid : ℕ) : Prop := Out Note.lends Note.returns log sid

/-- The queue, by the record. -/
def queueOf (log : List Note) : List Waiter := waiting Note.joins Note.answers log

/-- Two stages of one entry: what is fixed when it is made is the same. -/
structure Entry.Same (e e₀ : Entry) : Prop where
  session : e.session = e₀.session
  identity : e.identity = e₀.identity
  createdAt : e.createdAt = e₀.createdAt
  crossTurn : e.crossTurn = e₀.crossTurn

theorem Entry.Same.refl (e : Entry) : e.Same e := ⟨rfl, rfl, rfl, rfl⟩

variable {e : Entry}

variable {e' : Entry}

theorem Entry.Same.trans {e'' : Entry} (h : e.Same e') (h' : e'.Same e'') : e.Same e'' :=
  ⟨h.session.trans h'.session, h.identity.trans h'.identity, h.createdAt.trans h'.createdAt,
    h.crossTurn.trans h'.crossTurn⟩

theorem Entry.Same.windows {e₀ : Entry} (h : e.Same e₀) (o : PoolOptions) :
    o.windows e = o.windows e₀ := by
  rw [PoolOptions.windows, PoolOptions.windows, h.crossTurn]

/-- The session is not older than its maximum age, and marked if the turn is another. -/
structure HandOver.InTime (o : PoolOptions) (h : HandOver) : Prop where
  age : h.time ≤ h.entry.createdAt + (o.windows h.entry).2
  turn : h.request.turn ≠ h.entry.identity.turn → h.lease.crossTurnReuse = true

/-- What holds of the record whenever a session is lent. -/
structure HandOver.Lawful (A : HandOver → Prop) (log : List Note) (h : HandOver) : Prop where
  notOut : ¬ OutIn log h.entry.session
  made : ∃ e₀, Note.made e₀ ∈ log ∧ h.entry.Same e₀
  lane : h.request.key = h.entry.identity.key
  notRetired : h.entry.retired = false
  notClosed : h.lease.closed = false
  meets : A h

/-- What holds of the record at each of its entries. -/
def Lawful (A : HandOver → Prop) (log : List Note) : Note → Prop
  | .made e => ∀ e₀, Note.made e₀ ∈ log → e₀.session ≠ e.session
  | .lent h => h.Lawful A log
  | .back _ => True
  | .waits w => w.key = w.request.key
  | .resolved w s => w ∈ queueOf log ∧ ∀ sid ∈ s,
      (queueOf log).find? (·.key = w.key) = some w ∧
      ∃ h, Note.lent h ∈ log ∧ h.request = w.request ∧ h.entry.session = sid

/-! ## The books -/

/-- An entry of the map belongs there. -/
structure Filed (p : CodexWsPool) (key : String) (e : Entry) : Prop where
  own : e.identity.key = key
  session : e.session < p.made
  entryKey : (p.sessions e.session).entryKey = key
  made : ∃ e₀, Note.made e₀ ∈ p.log ∧ e.Same e₀

/-- The record and the pool agree. -/
structure Books (A : HandOver → Prop) (o : PoolOptions) (p : CodexWsPool) : Prop where
  options : p.options = o
  lawful : AtEach (Lawful A) p.log
  filed : ∀ key e, p.entries.get? key = some e → Filed p key e
  made : ∀ e, Note.made e ∈ p.log → e.session < p.made
  busy : ∀ sid, OutIn p.log sid → sid < p.made ∧ (p.sessions sid).busy = true
  queue : p.waiters = queueOf p.log
  arrived : ∀ w, Note.waits w ∈ p.log → w.id < p.arrivals
  joined : (p.log.filterMap Note.joins).Nodup
  answered : ∀ w ∈ p.log.filterMap Note.answers, Note.waits w ∈ p.log
  size : p.entries.size ≤ o.maxSessions

variable {A : HandOver → Prop} {o : PoolOptions} {p : CodexWsPool}

variable {log : List Note} {w : Waiter}

theorem mem_joins : w ∈ log.filterMap Note.joins ↔ Note.waits w ∈ log := by
  rw [mem_filterMap]
  constructor
  · rintro ⟨n, hn, hj⟩
    cases n <;> simp only [Note.joins, reduceCtorEq, Option.some.injEq] at hj
    exact hj ▸ hn
  · intro h
    exact ⟨_, h, rfl⟩

theorem not_outIn_nil (sid : ℕ) : ¬ OutIn [] sid := not_out_nil

variable {sid : ℕ}

theorem OutIn.of_concat {n : Note} (h : OutIn (log ++ [n]) sid) :
    n.lends = some sid ∨ OutIn log sid ∧ n.returns ≠ some sid :=
  Out.of_concat h

theorem Books.new (A : HandOver → Prop) (o : PoolOptions) : Books A o (.new o) where
  options := rfl
  lawful := .nil
  filed key e h := by simp [CodexWsPool.new] at h
  made e h := nomatch h
  busy sid h := absurd h (not_outIn_nil sid)
  queue := rfl
  arrived w h := nomatch h
  joined := nodup_nil
  answered w h := nomatch h
  size := zero_le _

variable {s : Session}

theorem entryKey_update (hkey : s.entryKey = (p.sessions sid).entryKey) (i : ℕ) :
    (Function.update p.sessions sid s i).entryKey = (p.sessions i).entryKey := by
  rw [update_apply]
  split
  · rename_i heq
    rw [hkey, heq]
  · rfl

variable {key : String}

variable {p' : CodexWsPool}

theorem Filed.mono (h : Filed p key e) (hmade : p.made ≤ p'.made)
    (hkey : ∀ i < p.made, (p'.sessions i).entryKey = (p.sessions i).entryKey)
    (hlog : ∀ e₀, Note.made e₀ ∈ p.log → Note.made e₀ ∈ p'.log) : Filed p' key e where
  own := h.own
  session := h.session.trans_le hmade
  entryKey := (hkey _ h.session).trans h.entryKey
  made :=
    let ⟨e₀, h₀, hs⟩ := h.made
    ⟨e₀, hlog e₀ h₀, hs⟩

/-! ### Moves that write nothing down -/

theorem Books.dropEntry (h : Books A o p) (key : String) : Books A o (p.dropEntry key) :=
  ⟨h.options, h.lawful, fun k e hk ↦ (h.filed k e (p.entries.get?_of_delete hk)).mono le_rfl
      (fun _ _ ↦ rfl) fun _ ↦ id, h.made, h.busy, h.queue, h.arrived, h.joined, h.answered,
    (OMap.size_delete_le p.entries key).trans h.size⟩

theorem Books.putEntry (h : Books A o p) (he : p.entries.get? e.identity.key = some e)
    (hs : e'.Same e) : Books A o (p.putEntry e') := by
  have hkey : e'.identity.key = e.identity.key := by rw [hs.identity]
  refine ⟨h.options, h.lawful, fun k e'' hk ↦ ?_, h.made, h.busy, h.queue, h.arrived, h.joined,
    h.answered, ?_⟩
  · rw [CodexWsPool.putEntry, OMap.get?_set] at hk
    split at hk
    · rename_i heq
      obtain rfl : e' = e'' := by simpa using hk
      obtain ⟨-, h₂, h₃, e₀, h₄, h₅⟩ := h.filed _ e he
      exact ⟨heq.symm, by rw [hs.session]; exact h₂,
        by rw [hs.session, heq, hkey]; exact h₃, e₀, h₄, hs.trans h₅⟩
    · exact (h.filed k e'' hk).mono le_rfl (fun _ _ ↦ rfl) fun _ ↦ id
  · rw [CodexWsPool.putEntry, OMap.size_set, OMap.has_of_get? (hkey ▸ he), if_pos rfl]
    exact h.size

theorem Books.putSession (h : Books A o p) (hkey : s.entryKey = (p.sessions sid).entryKey)
    (hbusy : (p.sessions sid).busy = true → s.busy = true) : Books A o (p.putSession sid s) := by
  refine ⟨h.options, h.lawful, fun k e hk ↦ ?_, h.made, fun i hi ↦ ?_, h.queue, h.arrived,
    h.joined, h.answered, h.size⟩
  · exact (h.filed k e hk).mono le_rfl (fun i _ ↦ entryKey_update hkey i) fun _ ↦ id
  · obtain ⟨hlt, hb⟩ := h.busy i hi
    refine ⟨hlt, ?_⟩
    change (update p.sessions sid s i).busy = true
    rw [update_apply]
    split
    · rename_i heq
      exact hbusy (heq ▸ hb)
    · exact hb

theorem Books.tick (h : Books A o p) (ms : ℕ) : Books A o { p with now := p.now + ms } :=
  ⟨h.options, h.lawful, fun k e hk ↦ (h.filed k e hk).mono le_rfl (fun _ _ ↦ rfl) fun _ ↦ id,
    h.made, h.busy, h.queue, h.arrived, h.joined, h.answered, h.size⟩

/-! ### Moves that are written down -/

theorem Books.back (h : Books A o p) (hkey : s.entryKey = (p.sessions sid).entryKey) :
    Books A o ((p.putSession sid s).note (.back sid)) := by
  refine ⟨h.options, h.lawful.concat trivial, fun k e hk ↦ ?_, fun e he ↦ ?_, fun i hi ↦ ?_, ?_,
    fun w hw ↦ ?_, ?_, fun w hw ↦ ?_, h.size⟩
  · exact (h.filed k e hk).mono le_rfl (fun i _ ↦ entryKey_update hkey i) fun _ ↦ mem_append_left _
  · exact h.made e (by simpa [note, CodexWsPool.putSession] using he)
  · rcases OutIn.of_concat hi with hl | ⟨hout, hne⟩
    · nomatch hl
    · obtain ⟨hlt, hb⟩ := h.busy i hout
      have hi' : i ≠ sid := fun heq ↦ hne (by rw [heq]; rfl)
      refine ⟨hlt, ?_⟩
      change (update p.sessions sid s i).busy = true
      rw [update_of_ne hi']
      exact hb
  · exact h.queue.trans (waiting_concat_idle rfl rfl).symm
  · exact h.arrived w (by simpa [note, CodexWsPool.putSession] using hw)
  · simpa [note, CodexWsPool.putSession, List.filterMap, Note.joins] using h.joined
  · have := h.answered w (by simpa [note, CodexWsPool.putSession, Note.answers] using hw)
    exact mem_append_left _ this

theorem Books.lend {request : CodexWsReuseIdentity} {reserved : Session} (h : Books A o p)
    (hlt : e.session < p.made) (hkey : reserved.entryKey = (p.sessions e.session).entryKey)
    (hbusy : reserved.busy = true)
    (hlawful : HandOver.Lawful A p.log ⟨request, e, p.sessions e.session, p.now⟩) :
    Books A o (p.lend request e reserved) := by
  refine ⟨h.options, h.lawful.concat hlawful, fun k e' hk ↦ ?_, fun e' he ↦ ?_, fun i hi ↦ ?_, ?_,
    fun w hw ↦ ?_, ?_, fun w hw ↦ ?_, h.size⟩
  · exact (h.filed k e' hk).mono le_rfl (fun i _ ↦ entryKey_update hkey i) fun _ ↦ mem_append_left _
  · exact h.made e' (by simpa [CodexWsPool.lend, note, CodexWsPool.putSession] using he)
  · change i < p.made ∧ (update p.sessions e.session reserved i).busy = true
    rw [update_apply]
    rcases OutIn.of_concat hi with hl | ⟨hout, -⟩
    · obtain rfl : e.session = i := by simpa [Note.lends] using hl
      rw [if_pos rfl]
      exact ⟨hlt, hbusy⟩
    · obtain ⟨hlt', hb⟩ := h.busy i hout
      refine ⟨hlt', ?_⟩
      split
      · exact hbusy
      · exact hb
  · exact h.queue.trans (waiting_concat_idle rfl rfl).symm
  · exact h.arrived w (by simpa [CodexWsPool.lend, note, CodexWsPool.putSession] using hw)
  · simpa [CodexWsPool.lend, note, CodexWsPool.putSession, List.filterMap, Note.joins] using h.joined
  · have := h.answered w (by
      simpa [CodexWsPool.lend, note, CodexWsPool.putSession, Note.answers] using hw)
    exact mem_append_left _ this

theorem Books.enqueue (h : Books A o p) (identity : CodexWsReuseIdentity) :
    Books A o (p.enqueue identity) := by
  have hnew : Note.waits ⟨p.arrivals, identity.key, identity⟩ ∉ p.log :=
    fun hw ↦ absurd (h.arrived _ hw) (lt_irrefl _)
  have hjoins : (p.log ++ [Note.waits ⟨p.arrivals, identity.key, identity⟩]).filterMap Note.joins
      = p.log.filterMap Note.joins ++ [⟨p.arrivals, identity.key, identity⟩] := by
    simp [Note.joins]
  refine ⟨h.options, h.lawful.concat rfl, fun k e hk ↦ ?_, fun e he ↦ ?_, fun i hi ↦ ?_, ?_,
    fun w hw ↦ ?_, ?_, fun w hw ↦ ?_, h.size⟩
  · exact (h.filed k e hk).mono le_rfl (fun _ _ ↦ rfl) fun _ ↦ mem_append_left _
  · exact h.made e (by simpa [CodexWsPool.enqueue, note] using he)
  · rcases OutIn.of_concat hi with hl | ⟨hout, -⟩
    · nomatch hl
    · exact h.busy i hout
  · have hq : queueOf (p.log ++ [Note.waits ⟨p.arrivals, identity.key, identity⟩]) = queueOf p.log
        ++ [⟨p.arrivals, identity.key, identity⟩] :=
      waiting_concat_join rfl rfl fun hw ↦ hnew (h.answered _ hw)
    exact (congrArg (· ++ [_]) h.queue).trans hq.symm
  · have hw' : w = ⟨p.arrivals, identity.key, identity⟩ ∨ Note.waits w ∈ p.log := by
      simpa [CodexWsPool.enqueue, note, or_comm] using hw
    rcases hw' with rfl | hw'
    · exact lt_succ_self _
    · exact (h.arrived w hw').trans (lt_succ_self _)
  · refine hjoins ▸ h.joined.append (nodup_singleton _) ?_
    intro w hw heq
    obtain rfl := mem_singleton.mp heq
    exact hnew (mem_joins.mp hw)
  · have := h.answered w (by simpa [CodexWsPool.enqueue, note, Note.answers] using hw)
    exact mem_append_left _ this

theorem Books.finishWaiter {s : Option ℕ} (h : Books A o p)
    (hs : ∀ sid ∈ s, p.waiters.find? (·.key = w.key) = some w ∧
      ∃ l, Note.lent l ∈ p.log ∧ l.request = w.request ∧ l.entry.session = sid) :
    Books A o (p.finishWaiter w s) := by
  rw [CodexWsPool.finishWaiter]
  split
  · rename_i hmem
    have hlawful : Lawful A p.log (.resolved w s) :=
      ⟨h.queue ▸ hmem, fun sid hsid ↦ ⟨h.queue ▸ (hs sid hsid).1, (hs sid hsid).2⟩⟩
    refine ⟨h.options, h.lawful.concat hlawful, fun k e hk ↦ ?_, fun e he ↦ ?_, fun i hi ↦ ?_, ?_,
      fun v hv ↦ ?_, ?_, fun v hv ↦ ?_, h.size⟩
    · exact (h.filed k e hk).mono le_rfl (fun _ _ ↦ rfl) fun _ ↦ mem_append_left _
    · exact h.made e (by simpa [note] using he)
    · rcases OutIn.of_concat hi with hl | ⟨hout, -⟩
      · nomatch hl
      · exact h.busy i hout
    · have hq : queueOf (p.log ++ [Note.resolved w s]) = (queueOf p.log).erase w :=
        waiting_concat_answer rfl rfl (nodup_waiting h.joined)
      exact (congrArg (·.erase w) h.queue).trans hq.symm
    · exact h.arrived v (by simpa [note] using hv)
    · simpa [note, List.filterMap, Note.joins] using h.joined
    · have hv' : v ∈ p.log.filterMap Note.answers ∨ v = w := by simpa [note, Note.answers] using hv
      refine mem_append_left _ ?_
      rcases hv' with hv' | rfl
      · exact h.answered v hv'
      · exact mem_joins.mp (mem_joined_of_waiting (h.queue ▸ hmem : v ∈ queueOf p.log))
  · exact h

/-! ### Dialling -/

/-- The session of `dial`, made and not yet lent. -/
def makeSession (p : CodexWsPool) (e : Entry) : CodexWsPool :=
  ({ p with made := p.made + 1 }.putSession e.session (Session.new e.identity.key)).note (.made e)

theorem makeSession_sessions_of_lt (he : e.session = p.made) {i : ℕ} (hi : i < p.made) :
    (makeSession p e).sessions i = p.sessions i :=
  update_of_ne (by omega) ..

theorem makeSession_sessions (p : CodexWsPool) (e : Entry) :
    (makeSession p e).sessions e.session = Session.new e.identity.key :=
  update_self ..

theorem Books.makeSession (h : Books A o p) (he : e.session = p.made) :
    Books A o (makeSession p e) := by
  have hmade : ∀ e₀, .made e₀ ∈ p.log → Note.made e₀ ∈ (Ws.makeSession p e).log :=
    fun _ ↦ mem_append_left _
  refine ⟨h.options, h.lawful.concat fun e₀ he₀ ↦ he ▸ Nat.ne_of_lt (h.made e₀ he₀),
    fun k e' hk ↦ ?_, fun e' he' ↦ ?_, fun i hi ↦ ?_,
    h.queue.trans (waiting_concat_idle rfl rfl).symm, fun v hv ↦ ?_, ?_, fun v hv ↦ ?_, h.size⟩
  · exact (h.filed k e' hk).mono (le_succ _)
      (fun i hi ↦ by rw [makeSession_sessions_of_lt he hi]) hmade
  · have he'' : Note.made e' ∈ p.log ∨ e' = e := by
      simpa [Ws.makeSession, note, CodexWsPool.putSession] using he'
    rcases he'' with he'' | rfl
    · exact (h.made e' he'').trans (lt_succ_self _)
    · exact he ▸ lt_succ_self _
  · rcases OutIn.of_concat hi with hl | ⟨hout, -⟩
    · nomatch hl
    · obtain ⟨hlt, hb⟩ := h.busy i hout
      exact ⟨hlt.trans (lt_succ_self _), by rw [makeSession_sessions_of_lt he hlt]; exact hb⟩
  · exact h.arrived v (by simpa [Ws.makeSession, note, CodexWsPool.putSession] using hv)
  · simpa [Ws.makeSession, note, CodexWsPool.putSession, List.filterMap, Note.joins] using h.joined
  · have := h.answered v (by
      simpa [Ws.makeSession, note, CodexWsPool.putSession, Note.answers] using hv)
    exact mem_append_left _ this

theorem Books.fileEntry (h : Books A o p) (he : Filed p e.identity.key e)
    (hkey : p.entries.get? e.identity.key = none) (hroom : p.entries.size < o.maxSessions) :
    Books A o (p.putEntry e) := by
  refine ⟨h.options, h.lawful, fun k e' hk ↦ ?_, h.made, h.busy, h.queue, h.arrived, h.joined,
    h.answered, ?_⟩
  · rw [CodexWsPool.putEntry, OMap.get?_set] at hk
    split at hk
    · rename_i heq
      obtain rfl : e = e' := by simpa using hk
      exact heq ▸ he.mono le_rfl (fun _ _ ↦ rfl) fun _ ↦ id
    · exact (h.filed k e' hk).mono le_rfl (fun _ _ ↦ rfl) fun _ ↦ id
  · rw [CodexWsPool.putEntry, OMap.size_set, OMap.has_eq_false_iff.mpr hkey]
    exact hroom

/-- A fresh session is made for a request whose key has no entry, while there is room. -/
theorem Books.dial {w : Switches} {identity : CodexWsReuseIdentity} (h : Books A o p)
    (hA : ∀ h : HandOver, h.InTime o → A h) (hkey : p.entries.get? identity.key = none)
    (hroom : p.entries.size < o.maxSessions) : Books A o (p.dial w identity).pool := by
  let e : Entry := ⟨identity, p.made, p.now, p.now, false, w.codexWsCrossTurnReuseEnabled⟩
  have hmade := h.makeSession (e := e) rfl
  have hlog : Note.made e ∈ (Ws.makeSession p e).log := by simp [Ws.makeSession, note]
  have hnew := makeSession_sessions p e
  have hout : ¬ OutIn (Ws.makeSession p e).log e.session := fun hout ↦ by
    have hb := (hmade.busy _ hout).2
    rw [hnew] at hb
    nomatch hb
  have hlawful : HandOver.Lawful A (Ws.makeSession p e).log
      ⟨identity, e, (Ws.makeSession p e).sessions e.session, p.now⟩ :=
    ⟨hout, ⟨e, hlog, .refl e⟩, rfl, rfl, by rw [hnew]; rfl,
      hA _ ⟨le_add_right _ _, fun hne ↦ absurd rfl hne⟩⟩
  have hlent : Books A o ((Ws.makeSession p e).lend identity e
      { Session.new identity.key with busy := true }) :=
    hmade.lend (lt_succ_self _) (by rw [hnew]) rfl hlawful
  refine hlent.fileEntry ⟨rfl, lt_succ_self _, ?_, e, mem_append_left _ hlog, .refl e⟩ hkey hroom
  change (update (Ws.makeSession p e).sessions e.session
    { Session.new identity.key with busy := true } e.session).entryKey = identity.key
  rw [update_self]
  rfl

/-! ## Closing and removing -/

theorem entryOf_eq_some (h : p.entryOf sid = some e) :
    p.entries.get? (p.sessions sid).entryKey = some e ∧ e.session = sid := by
  rw [entryOf, Option.filter_eq_some_iff, decide_eq_true_eq] at h
  exact h

theorem Books.changedClosed (h : Books A o p) (sid : ℕ) : Books A o (p.changedClosed sid) := by
  rw [CodexWsPool.changedClosed]
  split
  · exact h
  · exact h.dropEntry _

theorem Books.closeSession (h : Books A o p) (sid : ℕ) : Books A o (p.closeSession sid) := by
  have hback : Books A o ((p.putSession sid (p.sessions sid).close).note (.back sid)) := h.back rfl
  exact hback.changedClosed sid

theorem Books.disposeSession (h : Books A o p) (sid : ℕ) : Books A o (p.disposeSession sid) := by
  rw [CodexWsPool.disposeSession]
  split
  · exact h
  · exact h.closeSession sid

theorem Books.remove (h : Books A o p) (e : Entry) : Books A o (p.remove e) := by
  rw [CodexWsPool.remove]
  split
  · exact (h.dropEntry _).disposeSession _
  · exact h.disposeSession _

/-- Entries went or were retired, and only idle sessions were closed. -/
structure Thins (p p' : CodexWsPool) : Prop where
  options : p'.options = p.options
  now : p'.now = p.now
  size : p'.entries.size ≤ p.entries.size
  entries : ∀ key e', p'.entries.get? key = some e' →
    ∃ e, p.entries.get? key = some e ∧ e'.Same e ∧ (e'.retired = false → e' = e)
  busy : ∀ sid, (p'.sessions sid).busy = (p.sessions sid).busy

theorem Thins.refl (p : CodexWsPool) : Thins p p :=
  ⟨rfl, rfl, le_rfl, fun _ e h ↦ ⟨e, h, .refl e, fun _ ↦ rfl⟩, fun _ ↦ rfl⟩

theorem Thins.trans {p p'' : CodexWsPool} (h : Thins p p') (h' : Thins p' p'') : Thins p p'' where
  options := h'.options.trans h.options
  now := h'.now.trans h.now
  size := h'.size.trans h.size
  entries key e'' he'' := by
    obtain ⟨e', he', hs', hr'⟩ := h'.entries key e'' he''
    obtain ⟨e, he, hs, hr⟩ := h.entries key e' he'
    refine ⟨e, he, hs'.trans hs, fun hf ↦ ?_⟩
    obtain rfl := hr' hf
    exact hr hf
  busy sid := (h'.busy sid).trans (h.busy sid)

theorem thins_dropEntry (p : CodexWsPool) (key : String) : Thins p (p.dropEntry key) :=
  ⟨rfl, rfl, OMap.size_delete_le p.entries key,
    fun _ e he ↦ ⟨e, p.entries.get?_of_delete he, .refl e, fun _ ↦ rfl⟩, fun _ ↦ rfl⟩

theorem thins_changedClosed (p : CodexWsPool) (sid : ℕ) : Thins p (p.changedClosed sid) := by
  rw [CodexWsPool.changedClosed]
  split
  · exact .refl p
  · exact thins_dropEntry p _

theorem thins_disposeSession (h : (p.sessions sid).busy = false) :
    Thins p (p.disposeSession sid) := by
  rw [CodexWsPool.disposeSession]
  split
  · exact .refl p
  · refine .trans ?_ (thins_changedClosed
      ((p.putSession sid (p.sessions sid).close).note (.back sid)) sid)
    refine ⟨rfl, rfl, le_rfl, fun _ e he ↦ ⟨e, he, .refl e, fun _ ↦ rfl⟩, fun i ↦ ?_⟩
    change (update p.sessions sid (p.sessions sid).close i).busy = (p.sessions i).busy
    rw [update_apply]
    split
    · rename_i heq
      rw [heq, h]
      rfl
    · rfl

theorem thins_remove (h : (p.sessions e.session).busy = false) : Thins p (p.remove e) := by
  rw [CodexWsPool.remove]
  split
  · exact (thins_dropEntry p _).trans (thins_disposeSession h)
  · exact thins_disposeSession h

theorem Filed.entries_remove (h : Filed p key e) (he : p.entries.get? key = some e) :
    (p.remove e).entries = p.entries.delete key := by
  obtain rfl := h.own
  have hany : (p.entries.get? e.identity.key).any (·.session = e.session) = true := by
    rw [he]
    simp
  rw [CodexWsPool.remove, if_pos hany, CodexWsPool.disposeSession]
  split
  · rfl
  · -- the session's own entry is gone by the time its callback runs
    have hgone : (((p.dropEntry e.identity.key).putSession e.session
        (p.sessions e.session).close).note (.back e.session)).entryOf e.session = none := by
      have hkey : (((p.dropEntry e.identity.key).putSession e.session
          (p.sessions e.session).close).note (.back e.session)).sessions e.session
          = (p.sessions e.session).close := update_self ..
      have hclose : (p.sessions e.session).close.entryKey = e.identity.key := h.entryKey
      rw [entryOf, hkey, hclose]
      change Option.filter _ ((p.entries.delete e.identity.key).get? e.identity.key) = none
      rw [OMap.get?_delete_self]
      rfl
    rw [CodexWsPool.closeSession, CodexWsPool.changedClosed]
    split
    · rfl
    · rename_i hentry
      cases hgone.symm.trans hentry

theorem Books.get?_remove (h : Books A o p) (he : p.entries.get? key = some e) :
    (p.remove e).entries.get? key = none ∧ (p.remove e).entries.size < p.entries.size := by
  rw [(h.filed key e he).entries_remove he]
  have hsize := p.entries.size_delete_of_has (OMap.has_of_get? he)
  exact ⟨OMap.get?_delete_self .., by omega⟩

end Ws
