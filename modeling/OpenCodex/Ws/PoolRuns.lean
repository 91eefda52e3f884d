import OpenCodex.Ws.Leases

/-!
# Runs of the pool

Every operation of the pool keeps the books.  Sweeping and retiring siblings only thin the map, and
a sweep leaves no idle entry in it that is past its age, so a claim lends nothing too old; and it
marks what it lends to another turn.

The session that comes back to a waiter is lent with neither check.  Its entry may have reached its
maximum age while the session was busy — `changed` looks at the age only when nobody waits — and the
waiter may belong to another turn than the one that opened it, though nothing marks the reuse.  So
the pool keeps its promise on the runs whose every release that finds a waiter is `Timely`
(`pool_keeps_faith`); everything but the age and the mark it keeps on all of them.
-/

set_option autoImplicit false

open List Option Function

namespace Ws

open Chronicle CodexWsPool

variable {A : HandOver → Prop} {o : PoolOptions} {p : CodexWsPool}

/-! ## Sweeping and retiring -/

/-- Not past its age, or busy. -/
def Young (p : CodexWsPool) (e : Entry) : Prop :=
  (p.sessions e.session).busy = true ∨ p.now < e.createdAt + (p.options.windows e).2

/-- No idle entry in use is past its age. -/
def Fresh (p : CodexWsPool) : Prop :=
  ∀ key e, p.entries.get? key = some e → e.retired = false → Young p e

variable {e : Entry} {p' : CodexWsPool}

theorem Young.thins {p : CodexWsPool} (h : Young p e) (ht : Thins p p') : Young p' e := by
  rw [Young, ht.busy, ht.now, ht.options]
  exact h

theorem Fresh.thins {p : CodexWsPool} (h : Fresh p) (ht : Thins p p') : Fresh p' := by
  intro key e' he' hr
  obtain ⟨e, he, -, heq⟩ := ht.entries key e' he'
  obtain rfl := heq hr
  exact (h key e' he hr).thins ht

theorem young_of_not_expired (h : p.expired e = false) : Young p e := by
  rw [Young]
  by_contra hno
  rw [not_or, Bool.not_eq_true, not_lt] at hno
  obtain ⟨hb, hage⟩ := hno
  have : (p.options.windows e).2 ≤ p.now - e.createdAt := by omega
  simp [expired, hb, this] at h

theorem busy_of_expired (h : p.expired e = true) : (p.sessions e.session).busy = false := by
  rw [expired, Bool.and_eq_true, Bool.not_eq_true'] at h
  exact h.1

variable {l : List (String × Entry)}

/-- A sweep removes whatever it finds expired; the induction is on what it has still to look at. -/
theorem sweep_loop (h : Books A o p)
    (hl : ∀ key e, p.entries.get? key = some e → e.retired = false → (key, e) ∈ l ∨ Young p e) :
    let p' := l.foldl (fun p e ↦ if p.expired e.2 then p.remove e.2 else p) p
    Books A o p' ∧ Fresh p' := by
  induction l generalizing p with
  | nil =>
    refine ⟨h, fun key e he hr ↦ ?_⟩
    rcases hl key e he hr with hmem | hy
    · nomatch hmem
    · exact hy
  | cons x l ih =>
    simp only [foldl_cons]
    by_cases hx : p.expired x.2 = true
    · rw [if_pos hx]
      have hidle := busy_of_expired hx
      have hthins := thins_remove hidle
      refine ih (h.remove x.2) fun key e he hr ↦ ?_
      obtain ⟨e', he', -, heq⟩ := hthins.entries key e he
      obtain rfl := heq hr
      rcases hl key e he' hr with hmem | hy
      · rcases mem_cons.mp hmem with rfl | hmem
        · rw [(h.get?_remove he').1] at he
          nomatch he
        · exact .inl hmem
      · exact .inr (hy.thins hthins)
    · rw [if_neg hx]
      refine ih h fun key e he hr ↦ ?_
      rcases hl key e he hr with hmem | hy
      · rcases mem_cons.mp hmem with rfl | hmem
        · exact .inr (young_of_not_expired (Bool.eq_false_iff.mpr hx))
        · exact .inl hmem
      · exact .inr hy

theorem Books.sweep (h : Books A o p) : Books A o p.sweep ∧ Fresh p.sweep :=
  sweep_loop h fun _ _ he _ ↦ .inl (OMap.mem_entries.mpr he)

variable {q : Entry}

theorem retire_one (h : Books A o p) (hq : p.entries.get? q.identity.key = some q) :
    let e := { q with retired := true }
    let p₁ := p.putEntry e
    let p' := if (p₁.sessions e.session).busy then p₁ else p₁.remove e
    Books A o p' ∧ Thins p p' := by
  intro e p₁ p'
  have hbooks : Books A o p₁ := h.putEntry hq ⟨rfl, rfl, rfl, rfl⟩
  have hthins : Thins p p₁ := by
    refine ⟨rfl, rfl, ?_, fun key e' he' ↦ ?_, fun _ ↦ rfl⟩
    · change (p.entries.set _ _).size ≤ _
      rw [OMap.size_set, OMap.has_of_get? (k := e.identity.key) hq, if_pos rfl]
    · change (p.entries.set _ _).get? key = some e' at he'
      rw [OMap.get?_set] at he'
      split at he'
      · rename_i heq
        obtain rfl : e = e' := by simpa using he'
        exact ⟨q, heq ▸ hq, ⟨rfl, rfl, rfl, rfl⟩, by rintro ⟨⟩⟩
      · exact ⟨e', he', .refl e', fun _ ↦ rfl⟩
  by_cases hb : (p₁.sessions e.session).busy = true
  · have hp' : p' = p₁ := if_pos hb
    exact hp' ▸ ⟨hbooks, hthins⟩
  · have hp' : p' = p₁.remove e := if_neg hb
    exact hp' ▸ ⟨hbooks.remove e, hthins.trans (thins_remove (Bool.eq_false_iff.mpr hb))⟩

variable {key : String}

theorem get?_retire_one_of_ne (h : Books A o p) (hq : p.entries.get? q.identity.key = some q)
    (hne : key ≠ q.identity.key) :
    let e := { q with retired := true }
    let p₁ := p.putEntry e
    (if (p₁.sessions e.session).busy then p₁ else p₁.remove e).entries.get? key
      = p.entries.get? key := by
  intro e p₁
  have hput : p₁.entries.get? key = p.entries.get? key := p.entries.get?_set_of_ne hne e
  split
  · exact hput
  · have hbooks : Books A o p₁ := h.putEntry hq ⟨rfl, rfl, rfl, rfl⟩
    have he : p₁.entries.get? e.identity.key = some e := p.entries.get?_set_self _ e
    rw [(hbooks.filed _ e he).entries_remove he, OMap.get?_delete_of_ne _ hne, hput]

/-- What `retireSiblings` does with one entry. -/
def retireSibling (w : Switches) (identity : CodexWsReuseIdentity) (p : CodexWsPool)
    (e : String × Entry) : CodexWsPool :=
  let entry := e.2
  if entry.identity.scope ≠ identity.scope ∨ entry.identity.key = identity.key then p
  else if w.codexWsReuseAcrossTurnsEnabled ∧ entry.identity.routeTag = identity.routeTag then p
  else
    let entry := { entry with retired := true }
    let p := p.putEntry entry
    if (p.sessions entry.session).busy then p else p.remove entry

theorem retireSiblings_eq (w : Switches) (identity : CodexWsReuseIdentity) :
    p.retireSiblings w identity = p.entries.entries.foldl (retireSibling w identity) p := rfl

variable {w : Switches} {identity : CodexWsReuseIdentity}

theorem retireSibling_spec {x : String × Entry} (h : Books A o p)
    (hx : p.entries.get? x.1 = some x.2) :
    Books A o (retireSibling w identity p x) ∧ Thins p (retireSibling w identity p x) ∧
      ∀ key ≠ x.1, (retireSibling w identity p x).entries.get? key = p.entries.get? key := by
  have hkey := (h.filed x.1 x.2 hx).own
  rw [← hkey] at hx ⊢
  rw [retireSibling]
  split
  · exact ⟨h, .refl p, fun _ _ ↦ rfl⟩
  · split
    · exact ⟨h, .refl p, fun _ _ ↦ rfl⟩
    · obtain ⟨hb, ht⟩ := retire_one h hx
      exact ⟨hb, ht, fun key hne ↦ get?_retire_one_of_ne h hx hne⟩

theorem retire_loop (h : Books A o p) (hl : ∀ x ∈ l, p.entries.get? x.1 = some x.2)
    (hnd : (l.map Prod.fst).Nodup) : Books A o (l.foldl (retireSibling w identity) p) ∧
      Thins p (l.foldl (retireSibling w identity) p) := by
  induction l generalizing p with
  | nil => exact ⟨h, .refl p⟩
  | cons x l ih =>
    rw [map_cons, nodup_cons] at hnd
    have hspec : Books A o (retireSibling w identity p x) ∧ Thins p (retireSibling w identity p x) ∧
        ∀ key ≠ x.1, (retireSibling w identity p x).entries.get? key = p.entries.get? key :=
      retireSibling_spec h (hl x mem_cons_self)
    obtain ⟨hb, ht, hget⟩ := hspec
    obtain ⟨hb', ht'⟩ := ih hb (fun y hy ↦ by
      rw [hget y.1 fun heq ↦ hnd.1 (heq ▸ List.mem_map_of_mem hy)]
      exact hl y (mem_cons_of_mem x hy)) hnd.2
    exact ⟨hb', ht.trans ht'⟩

theorem Books.retireSiblings (h : Books A o p) (w : Switches) (identity : CodexWsReuseIdentity) :
    Books A o (p.retireSiblings w identity) ∧ Thins p (p.retireSiblings w identity) := by
  exact retire_loop h (fun x hx ↦ OMap.mem_entries.mp hx) p.entries.keys_nodup

/-! ## Claiming -/

variable {s : Session}

theorem reserve_eq_some {r : Session} (h : s.reserve = some r) :
    s.closed = false ∧ s.busy = false ∧ r = { s with busy := true } := by
  rw [Session.reserve] at h
  split at h
  · nomatch h
  · rename_i hno
    rw [Bool.not_eq_true, Bool.or_eq_false_iff, Bool.or_eq_false_iff] at hno
    exact ⟨hno.1.1, hno.1.2, (some.inj h).symm⟩

theorem Books.lendEntry {request : CodexWsReuseIdentity} {reserved : Session} (h : Books A o p)
    (he : p.entries.get? key = some e) (hr : (p.sessions e.session).reserve = some reserved)
    (hkey : request.key = key) (hretired : e.retired = false)
    (hA : A ⟨request, e, p.sessions e.session, p.now⟩) : Books A o (p.lend request e reserved) := by
  have hf := h.filed key e he
  obtain ⟨hclosed, hidle, rfl⟩ := reserve_eq_some hr
  refine h.lend hf.session rfl rfl ⟨fun hout ↦ ?_, hf.made, hkey.trans hf.own.symm, hretired,
    hclosed, hA⟩
  have hb := (h.busy _ hout).2
  rw [hidle] at hb
  nomatch hb

theorem mem_of_oldestIdle {q : Entry → Bool} (h : p.oldestIdle q = some e) :
    ∃ key, p.entries.get? key = some e := by
  have hmem := mem_mergeSort.mp (mem_of_mem_head? h)
  obtain ⟨x, hx, rfl⟩ := List.mem_map.mp (mem_of_mem_filter hmem)
  exact ⟨x.1, OMap.mem_entries.mp hx⟩

theorem Books.claimFresh (h : Books A o p) (hA : ∀ h : HandOver, h.InTime o → A h)
    (hkey : p.entries.get? identity.key = none) : Books A o (p.claimFresh w identity).pool := by
  rw [CodexWsPool.claimFresh]
  split
  · cases hold : p.oldestIdle fun _ ↦ true with
    | none => exact h
    | some oldest =>
      obtain ⟨key, he⟩ := mem_of_oldestIdle hold
      obtain ⟨-, hsize⟩ := h.get?_remove he
      refine (h.remove oldest).dial hA ?_ (hsize.trans_le h.size)
      rw [(h.filed key oldest he).entries_remove he, OMap.get?_delete, hkey, ite_self]
  · rename_i hroom
    exact h.dial hA hkey (h.options ▸ Nat.lt_of_not_le hroom)

/-- **A claim lends a session only in time**: the sweep went before it, and it marks a reuse. -/
theorem Books.claimSwept (h : Books A o p) (hA : ∀ h : HandOver, h.InTime o → A h)
    (hfresh : Fresh p) : Books A o (p.claimSwept w identity).pool := by
  rw [CodexWsPool.claimSwept]
  cases hget : p.entries.get? identity.key with
  | none =>
    dsimp only
    split
    · cases hold : p.oldestIdle fun entry ↦ entry.identity.scope = identity.scope with
      | none => exact h
      | some oldest =>
        obtain ⟨key, he⟩ := mem_of_oldestIdle hold
        refine (h.remove oldest).claimFresh hA ?_
        rw [(h.filed key oldest he).entries_remove he, OMap.get?_delete, hget, ite_self]
    · exact h.claimFresh hA hget
  | some existing =>
    dsimp only
    split
    · exact h
    · rename_i hretired
      rw [Bool.not_eq_true] at hretired
      split
      · exact h
      · rename_i hidle
        have hyoung := hfresh _ existing hget hretired
        generalize hp₁ : (if existing.identity.turn ≠ identity.turn then
          p.putSession existing.session (p.sessions existing.session).markCrossTurnReuse
          else p) = p₁
        have h₁ : Books A o p₁ ∧ p₁.entries = p.entries ∧ p₁.now = p.now ∧
            (identity.turn ≠ existing.identity.turn →
              (p₁.sessions existing.session).crossTurnReuse = true) := by
          rw [← hp₁]
          split
          · refine ⟨h.putSession rfl id, rfl, rfl, fun _ ↦ ?_⟩
            change (update p.sessions existing.session
              (p.sessions existing.session).markCrossTurnReuse existing.session).crossTurnReuse
                = true
            rw [update_self]
            rfl
          · rename_i heq
            exact ⟨h, rfl, rfl, fun hne ↦ absurd (not_not.mp heq).symm hne⟩
        obtain ⟨hb₁, hentries, hnow, hmark⟩ := h₁
        have hget₁ : p₁.entries.get? identity.key = some existing := hentries ▸ hget
        cases hr : (p₁.sessions existing.session).reserve with
        | none => exact (hb₁.remove existing).claimFresh hA (hb₁.get?_remove hget₁).1
        | some reserved =>
          refine hb₁.lendEntry hget₁ hr rfl hretired (hA _ ⟨?_, hmark⟩)
          rcases hyoung with hbusy | hage
          · exact absurd hbusy hidle
          · rw [← h.options, hnow]
            exact hage.le

theorem Books.claim (h : Books A o p) (hA : ∀ h : HandOver, h.InTime o → A h) (w : Switches)
    (identity : CodexWsReuseIdentity) : Books A o (p.claim w identity).pool := by
  obtain ⟨hswept, hfresh⟩ := h.sweep
  obtain ⟨hretired, hthins⟩ := hswept.retireSiblings w identity
  exact hretired.claimSwept hA (hfresh.thins hthins)

theorem Books.acquireWaiting (h : Books A o p) (hA : ∀ h : HandOver, h.InTime o → A h)
    (w : Switches) (identity : CodexWsReuseIdentity) (aborted : Bool) :
    Books A o (p.acquireWaiting w identity aborted) := by
  rw [CodexWsPool.acquireWaiting]
  split
  · exact h.claim hA w identity
  · split
    · exact h.claim hA w identity
    · split
      · exact h.claim hA w identity
      · exact (h.claim hA w identity).enqueue identity

/-! ## Coming back -/

/-- Whom the release of a session would hand it to, and from which entry. -/
def heir (p : CodexWsPool) (sid : ℕ) (completedId : Option String) : Option (Entry × Waiter) :=
  if (p.sessions sid).closed || !(p.sessions sid).retains completedId then none
  else (p.entryOf sid).bind fun entry ↦
    if entry.retired then none
    else (p.waiters.find? (·.key = entry.identity.key)).map fun waiter ↦ (entry, waiter)

/-- A release that finds a waiter finds the session within its maximum age, and marked already if
the waiter is of another turn than the one that opened it. -/
def Timely (o : PoolOptions) (p : CodexWsPool) : Event → Prop
  | .release sid completedId => ∀ x ∈ heir p sid completedId,
      p.now ≤ x.1.createdAt + (o.windows x.1).2 ∧
        (x.2.request.turn ≠ x.1.identity.turn → (p.sessions sid).crossTurnReuse = true)
  | _ => True

instance (p : CodexWsPool) (e : Event) : Decidable (Timely o p e) := by
  cases e <;> unfold Timely <;> infer_instance

theorem Books.settle (h : Books A o p) (he : p.entries.get? key = some e) :
    Books A o (p.settle e) := by
  obtain rfl := (h.filed key e he).own
  have hput : Books A o (p.putEntry { e with idleAt := p.now }) := h.putEntry he ⟨rfl, rfl, rfl, rfl⟩
  rw [CodexWsPool.settle]
  split
  · exact hput.remove _
  · exact hput

theorem Books.key_of_waiting {w : Waiter} (h : Books A o p) (hw : w ∈ p.waiters) :
    w.key = w.request.key := by
  have hjoined := mem_joins.mp (mem_joined_of_waiting (h.queue ▸ hw : w ∈ queueOf p.log))
  obtain ⟨l₁, l₂, hlog⟩ := append_of_mem hjoined
  exact h.lawful l₁ _ l₂ hlog

variable {sid : ℕ}

theorem Books.changed (h : Books A o p) (hA : ∀ e w, p.entryOf sid = some e → e.retired = false →
      p.waiters.find? (·.key = e.identity.key) = some w →
      A ⟨w.request, e, p.sessions sid, p.now⟩) : Books A o (p.changed sid) := by
  rw [CodexWsPool.changed]
  cases hentry : p.entryOf sid with
  | none => exact h
  | some e =>
    obtain ⟨he, rfl⟩ := entryOf_eq_some hentry
    dsimp only
    split
    · exact h.dropEntry _
    · split
      · exact h
      · cases hfind : p.waiters.find? (·.key = e.identity.key) with
        | none => exact h.settle he
        | some w =>
          dsimp only
          split
          · exact h.settle he
          · rename_i hretired
            rw [Bool.not_eq_true] at hretired
            cases hr : (p.sessions e.session).reserve with
            | none => exact h.settle he
            | some reserved =>
              have hwkey : w.key = e.identity.key := by simpa using find?_some hfind
              have hkey : w.request.key = (p.sessions e.session).entryKey := by
                rw [← h.key_of_waiting (mem_of_find?_eq_some hfind), hwkey, (h.filed _ e he).own]
              have hlent := h.lendEntry he hr hkey hretired (hA e w hentry hretired hfind)
              refine hlent.finishWaiter fun i hi ↦ ?_
              obtain rfl := mem_some.mp hi
              refine ⟨?_, ⟨w.request, e, p.sessions e.session, p.now⟩,
                mem_append_right _ mem_cons_self, rfl, rfl⟩
              rw [hwkey]
              exact hfind

theorem entryOf_back (hkey : s.entryKey = (p.sessions sid).entryKey) :
    ((p.putSession sid s).note (.back sid)).entryOf sid = p.entryOf sid := by
  have hself : ((p.putSession sid s).note (.back sid)).sessions sid = s := update_self ..
  rw [entryOf, entryOf, hself, hkey]
  rfl

variable {completedId : Option String}

theorem heir_eq_some {w : Waiter} (hclosed : (p.sessions sid).closed = false)
    (hretains : (p.sessions sid).retains completedId = true) (hentry : p.entryOf sid = some e)
    (hretired : e.retired = false) (hw : p.waiters.find? (·.key = e.identity.key) = some w) :
    heir p sid completedId = some (e, w) := by
  simp [heir, hclosed, hretains, hentry, hretired, hw]

theorem Books.release (h : Books A o p) (hA : ∀ x ∈ heir p sid completedId, ∀ lease : Session,
      lease.crossTurnReuse = (p.sessions sid).crossTurnReuse →
      A ⟨x.2.request, x.1, lease, p.now⟩) : Books A o (p.release sid completedId) := by
  unfold CodexWsPool.release
  dsimp only
  split
  · exact h
  · rename_i hclosed
    rw [Bool.not_eq_true] at hclosed
    cases completedId with
    | none => exact h.disposeSession sid
    | some id =>
      dsimp only
      split
      · rename_i hretains
        generalize hs : ({ p.sessions sid with
          busy := false, completedIds := (p.sessions sid).completedWith id } : Session) = s
        have hkey : s.entryKey = (p.sessions sid).entryKey := hs ▸ rfl
        have hmark : s.crossTurnReuse = (p.sessions sid).crossTurnReuse := hs ▸ rfl
        refine (h.back hkey).changed fun e w hentry hretired hw ↦ ?_
        rw [entryOf_back hkey] at hentry
        refine hA (e, w) (heir_eq_some hclosed hretains hentry hretired hw) _ ?_
        change (update p.sessions sid s sid).crossTurnReuse = _
        rw [update_self, hmark]
      · exact h.disposeSession sid

/-! ## Every step -/

theorem finishAll_books {l : List Waiter} (h : Books A o p) :
    Books A o (l.foldl (fun p w ↦ p.finishWaiter w none) p) := by
  induction l generalizing p with
  | nil => exact h
  | cons w l ih => exact ih (h.finishWaiter nofun)

theorem disposeAll_books (h : Books A o p) :
    Books A o (l.foldl (fun p e ↦ p.disposeSession e.2.session) p) := by
  induction l generalizing p with
  | nil => exact h
  | cons e l ih => exact ih (h.disposeSession e.2.session)

theorem Books.dispose (h : Books A o p) : Books A o p.dispose := by
  have hempty : Books A o { p with entries := .empty } :=
    ⟨h.options, h.lawful, nofun, h.made, h.busy, h.queue, h.arrived,
      h.joined, h.answered, Nat.zero_le _⟩
  exact disposeAll_books (finishAll_books hempty)

/-- What a release may hand over is held to `A`. -/
def HandsOver (A : HandOver → Prop) (p : CodexWsPool) : Event → Prop
  | .release sid completedId => ∀ x ∈ heir p sid completedId, ∀ lease : Session,
      lease.crossTurnReuse = (p.sessions sid).crossTurnReuse → A ⟨x.2.request, x.1, lease, p.now⟩
  | _ => True

/-- **Every step keeps the books.** -/
theorem Books.step {e : Event} (h : Books A o p) (hA : ∀ h : HandOver, h.InTime o → A h)
    (he : HandsOver A p e) (hs : step p e = some p') : Books A o p' := by
  cases e with
  | acquire w identity =>
    obtain rfl := some.inj hs
    exact h.claim hA w identity
  | acquireWaiting w identity aborted =>
    obtain rfl := some.inj hs
    exact h.acquireWaiting hA w identity aborted
  | giveUp waiter =>
    obtain rfl := some.inj hs
    exact h.finishWaiter nofun
  | release sid completedId =>
    rw [Ws.step, ite_none_right_eq_some] at hs
    obtain ⟨-, hs⟩ := hs
    obtain rfl := some.inj hs
    exact h.release he
  | disposeSession sid =>
    rw [Ws.step, ite_none_right_eq_some] at hs
    obtain ⟨-, hs⟩ := hs
    obtain rfl := some.inj hs
    exact h.disposeSession sid
  | onOpen sid =>
    rw [Ws.step, ite_none_right_eq_some] at hs
    obtain ⟨-, hs⟩ := hs
    obtain rfl := some.inj hs
    exact h.putSession rfl id
  | onIdleMessage sid | onIdleError sid =>
    rw [Ws.step, ite_none_right_eq_some] at hs
    obtain ⟨-, hs⟩ := hs
    obtain rfl := some.inj hs
    split
    · exact h
    · exact h.disposeSession sid
  | onClose sid =>
    rw [Ws.step, ite_none_right_eq_some] at hs
    obtain ⟨-, hs⟩ := hs
    obtain rfl := some.inj hs
    exact h.closeSession sid
  | readyState sid state =>
    rw [Ws.step, ite_none_right_eq_some] at hs
    obtain ⟨-, hs⟩ := hs
    obtain rfl := some.inj hs
    exact h.putSession rfl id
  | sweep =>
    obtain rfl := some.inj hs
    exact h.sweep.1
  | dispose =>
    obtain rfl := some.inj hs
    exact h.dispose
  | tick ms =>
    obtain rfl := some.inj hs
    exact h.tick ms

theorem books_timely (o : PoolOptions) :
    (machine o).Inductive (Timely o) (Books (HandOver.InTime o) o) where
  init p hp := hp ▸ .new _ o
  step p e p' h he hs := by
    refine h.step (fun _ ↦ id) ?_ hs
    cases e with
    | release sid completedId =>
      intro x hx lease hlease
      exact ⟨(he x hx).1, fun hne ↦ hlease.trans ((he x hx).2 hne)⟩
    | _ => trivial

/-! ## What the pool promises -/

/-- What is promised of the pool and of everything it has recorded. -/
structure KeepsFaith (o : PoolOptions) (p : CodexWsPool) : Prop where
  /-- Between two hand-overs of one session it was released or closed. -/
  exclusive : ∀ l₁ a l₂ b l₃, p.log = l₁ ++ .lent a :: (l₂ ++ .lent b :: l₃) →
    a.entry.session = b.entry.session → .back b.entry.session ∈ l₂
  /-- A session that is lent was made, for one entry. -/
  made : ∀ h, .lent h ∈ p.log → ∃ e, .made e ∈ p.log ∧ e.session = h.entry.session ∧
    ∀ e', .made e' ∈ p.log → e'.session = h.entry.session → e' = e
  /-- It is lent under the key it was opened under. -/
  lane : ∀ h e, .lent h ∈ p.log → .made e ∈ p.log → e.session = h.entry.session →
    h.request.key = e.identity.key
  /-- It is neither retired nor closed. -/
  live : ∀ h, .lent h ∈ p.log → h.entry.retired = false ∧ h.lease.closed = false
  bounded : p.entries.size ≤ o.maxSessions
  /-- No waiter is resolved twice. -/
  once : (p.log.filterMap Note.answers).Nodup
  /-- A waiter that is given a session is, of those of its key, the first that is waiting. -/
  order : ∀ l₁ w sid l₂, p.log = l₁ ++ .resolved w (some sid) :: l₂ →
    (queueOf l₁).find? (·.key = w.key) = some w
  /-- The session it is given was lent to it. -/
  given : ∀ w sid, .resolved w (some sid) ∈ p.log →
    ∃ h, .lent h ∈ p.log ∧ h.request = w.request ∧ h.entry.session = sid

/-- No session is lent past its maximum age, and none to another turn than the one that opened it
unless the reuse is marked. -/
def LendsInTime (o : PoolOptions) (p : CodexWsPool) : Prop :=
  ∀ h e, .lent h ∈ p.log → .made e ∈ p.log → e.session = h.entry.session →
    h.time ≤ e.createdAt + (o.windows e).2 ∧
      (h.request.turn ≠ e.identity.turn → h.lease.crossTurnReuse = true)

theorem Books.made_unique {e' : Entry} (h : Books A o p) (he : .made e ∈ p.log)
    (he' : .made e' ∈ p.log) (hs : e.session = e'.session) : e = e' := by
  obtain ⟨l₁, l₂, hlog⟩ := append_of_mem he
  rw [hlog, mem_append, mem_cons] at he'
  rcases he' with hl | heq | hl
  · exact absurd hs.symm (h.lawful l₁ _ l₂ hlog e' hl)
  · exact (Note.made.inj heq).symm
  · obtain ⟨l₃, l₄, rfl⟩ := append_of_mem hl
    exact absurd hs (h.lawful (l₁ ++ .made e :: l₃) (.made e') l₄ (by simp [hlog]) e (by simp))

variable {h : HandOver}

theorem Books.lawful_lent (hb : Books A o p) (hl : .lent h ∈ p.log) :
    ∃ l₁ l₂, p.log = l₁ ++ .lent h :: l₂ ∧ h.Lawful A l₁ := by
  obtain ⟨l₁, l₂, hlog⟩ := append_of_mem hl
  exact ⟨l₁, l₂, hlog, hb.lawful l₁ _ l₂ hlog⟩

/-- The entry a session was made for is the one it is lent from, at an earlier stage. -/
theorem Books.same_of_lent (hb : Books A o p) (hl : .lent h ∈ p.log) (he : .made e ∈ p.log)
    (hs : e.session = h.entry.session) : h.entry.Same e := by
  obtain ⟨l₁, l₂, hlog, hlawful⟩ := hb.lawful_lent hl
  obtain ⟨e₀, he₀, hsame⟩ := hlawful.made
  have heq : e = e₀ := hb.made_unique he (by simp [hlog, he₀]) (hs.trans hsame.session)
  exact heq ▸ hsame

theorem Books.keepsFaith (hb : Books A o p) : KeepsFaith o p where
  exclusive l₁ a l₂ b l₃ hlog hs := by
    have hout : AtEach (fun l n ↦ ∀ s, n.lends = some s → ¬ OutIn l s) p.log :=
      hb.lawful.mono fun l n hn s hs ↦ by
        cases n <;> simp only [Note.lends, reduceCtorEq, Option.some.injEq] at hs
        exact hs ▸ hn.notOut
    obtain ⟨c, hc, hback⟩ := hout.returned hlog (congrArg some hs) rfl
    cases c <;> simp only [Note.returns, reduceCtorEq, Option.some.injEq] at hback
    exact hback ▸ hc
  made h hl := by
    obtain ⟨l₁, l₂, hlog, hlawful⟩ := hb.lawful_lent hl
    obtain ⟨e₀, he₀, hsame⟩ := hlawful.made
    have hmem : .made e₀ ∈ p.log := by simp [hlog, he₀]
    exact ⟨e₀, hmem, hsame.session.symm, fun e' he' hs ↦
      hb.made_unique he' hmem (hs.trans hsame.session)⟩
  lane h e hl he hs := by
    obtain ⟨l₁, l₂, hlog, hlawful⟩ := hb.lawful_lent hl
    rw [hlawful.lane, (hb.same_of_lent hl he hs).identity]
  live h hl := by
    obtain ⟨l₁, l₂, hlog, hlawful⟩ := hb.lawful_lent hl
    exact ⟨hlawful.notRetired, hlawful.notClosed⟩
  bounded := hb.size
  once := by
    have hwaiting : AtEach (fun l n ↦ ∀ w, n.answers = some w → w ∈ queueOf l) p.log :=
      hb.lawful.mono fun l n hn w hw ↦ by
        cases n <;> simp only [Note.answers, reduceCtorEq, Option.some.injEq] at hw
        exact hw ▸ hn.1
    exact hwaiting.nodup_answered
  order l₁ w sid l₂ hlog := ((hb.lawful l₁ _ l₂ hlog).2 sid rfl).1
  given w sid hmem := by
    obtain ⟨l₁, l₂, hlog⟩ := append_of_mem hmem
    obtain ⟨h, hl, hrequest, hsession⟩ := ((hb.lawful l₁ _ l₂ hlog).2 sid rfl).2
    exact ⟨h, by simp [hlog, hl], hrequest, hsession⟩

theorem Books.lendsInTime (hb : Books (HandOver.InTime o) o p) : LendsInTime o p := by
  intro h e hl he hs
  obtain ⟨l₁, l₂, hlog, hlawful⟩ := hb.lawful_lent hl
  have hsame := hb.same_of_lent hl he hs
  rw [← hsame.createdAt, ← hsame.windows o, ← hsame.identity]
  exact ⟨hlawful.meets.age, hlawful.meets.turn⟩

/-- **A pooled socket serves one request at a time, and only its own lane, in time**, on every run
whose releases find no waiter for a session past its age or of another turn. -/
theorem pool_keeps_faith (hp : (machine o).ReachableIf (Timely o) p) :
    KeepsFaith o p ∧ LendsInTime o p :=
  have hb := (books_timely o).reachable hp
  ⟨hb.keepsFaith, hb.lendsInTime⟩

/-- Two turns of one conversation, in one lane. -/
def turnOf (turn : String) : CodexWsReuseIdentity := ⟨"key", "scope", "route", turn⟩

/-- A request waits for the socket of the same turn, and is given it. -/
def waitsInTime : List Event :=
  [.acquire ⟨true, true⟩ (turnOf "a"), .onOpen 0, .acquireWaiting ⟨true, true⟩ (turnOf "a") false,
    .tick 500, .release 0 (some "resp")]

theorem pool_keeps_faith_waitsInTime :
    let p := (machine .default).play (.new .default) waitsInTime
    KeepsFaith .default p ∧ LendsInTime .default p :=
  pool_keeps_faith (.run (.init rfl) (Machine.run_play (by decide +kernel)))

/-- A request of the next turn waits while the socket of the last one outlives its maximum age. -/
def waitsTooLong : List Event :=
  [.acquire ⟨true, true⟩ (turnOf "a"), .onOpen 0, .tick codexWsCrossTurnMaxAgeMs,
    .acquireWaiting ⟨true, true⟩ (turnOf "b") false, .tick 500, .release 0 (some "resp")]

/-- The waiter is given a session past its age, and nothing marks the reuse. -/
theorem pool_lends_late : ¬ ∀ (o : PoolOptions) (p : CodexWsPool), (machine o).Reachable p →
    KeepsFaith o p ∧ LendsInTime o p := by
  intro hall
  have hp : (machine .default).Reachable ((machine .default).play (.new .default) waitsTooLong) :=
    .run (.init rfl) (Machine.run_play (by decide +kernel))
  have hentry : Note.made ⟨turnOf "a", 0, 0, 0, false, true⟩ ∈
      ((machine .default).play (.new .default) waitsTooLong).log := by decide +kernel
  have hlent : Note.lent ⟨turnOf "b", ⟨turnOf "a", 0, 0, 0, false, true⟩,
      ⟨true, false, false, false, ["resp"], true, none, "key"⟩, codexWsCrossTurnMaxAgeMs + 500⟩ ∈
      ((machine .default).play (.new .default) waitsTooLong).log := by decide +kernel
  have h := (hall _ _ hp).2 _ _ hlent hentry rfl
  exact absurd h.1 (by decide)

end Ws
