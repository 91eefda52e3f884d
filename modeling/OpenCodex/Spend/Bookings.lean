import OpenCodex.Spend.Accounts

/-!
# From its booking on

A send that neither the ledger nor the journal knows of stays so until it is booked (`Untold`).  A
booking on a seed, or one whose record could not be written, lets it be followed; then it is, as long
as the ledger holds it.  All that a call does to the account is steps, with at most one booking among
them (`Called`), so this carries over to calls (`Called.booked`, `Called.standing`).
-/

set_option autoImplicit false

open List OMap Spend.JournalRecord

namespace Spend

namespace Account

variable {a a' : Account} {s send : SpendAlias} {r r' : Reservation} {record : JournalRecord}

/-! ## Before the booking -/

/-- A send the journal knows nothing of, and the ledger neither, stays so until it is booked. -/
theorem Step.untold (h : Step a a') (hsane : Sane a) (hu : Untold s a) : Untold s a' := by
  refine ⟨h.has_eq_false hu.1, ?_⟩
  have hnone (send : SpendAlias) (hhas : a.sends.has send = true) : send ≠ s := by
    rintro rfl
    exact absurd (hhas.symm.trans hu.1) (by decide)
  have hear (record : JournalRecord) (htells : record.tells s none = none) :
      told s (a.heard ++ [record]) = none := by
    rw [told_concat, hu.2, htells]
  cases h with
  | @paid record records howed =>
    obtain ⟨send, hsend, hhas⟩ := hsane.owed record (howed ▸ mem_cons_self)
    exact hear record (tells_other hsend (hnone send hhas) none)
  | noted ref time => exact hear _ rfl
  | reminded time hpaid hr hlive => exact hear _ (tells_other rfl (hnone _ (has_of_get? hr)) none)
  | forgot send time hpaid hdead =>
    refine hear _ ?_
    rw [JournalRecord.tells, Option.filter_none, ite_self]
  | @tried send r r' record written hr hmove hordinary =>
    cases written with
    | true => exact hear record (tells_other hmove.send?_eq (hnone send (has_of_get? hr)) none)
    | false => exact hu.2
  | compacted hpaid hall => exact (hall s).trans (has_eq_false_iff.mp hu.1)
  | _ => exact hu.2

theorem Step.marked_back (h : Step a a')
    (hmarked : a'.seeded s = true ∨ a'.unwritten.has s = true) :
    a.seeded s = true ∨ a.unwritten.has s = true := by
  have hdelete (send : SpendAlias) (hhas : (a.unwritten.delete send).has s = true) :
      a.unwritten.has s = true := by
    rw [has_delete, Bool.and_eq_true] at hhas
    exact hhas.2
  have hmoved (live : Bool) (send : SpendAlias)
      (hhas : (if live then a.unwritten else a.unwritten.delete send).has s = true) :
      a.unwritten.has s = true := by
    split at hhas
    · exact hhas
    · exact hdelete send hhas
  cases h with
  | forgot send time hpaid hdead => exact hmarked.imp_right (hdelete send)
  | unseeded seeded hsub hkeep => exact hmarked.imp_left (hsub s)
  | moved hr hmove hwritten => exact hmarked.imp_right (hmoved _ _)
  | @tried send r r' record written hr hmove hordinary =>
    cases written with
    | true | false => exact hmarked.imp_right (hmoved _ _)
  | @recovered send r r' reserve record hunwritten hr hmove =>
    refine hmarked.imp_right fun hhas ↦ ?_
    change (if r'.status.isLive then a.unwritten.delete send
      else (a.unwritten.delete send).delete send).has s = true at hhas
    split at hhas
    · exact hdelete send hhas
    · rw [has_delete, Bool.and_eq_true] at hhas
      exact hdelete send hhas.2
  | _ => exact hmarked

/-! ## Bookings -/

theorem Sane.owed_other (hsane : Sane a) (hnew : a.sends.has s = false) :
    (∀ known, a.owed.foldl (JournalRecord.tells s) known = known) ∧ stagesOf s a.owed = [] := by
  have hother : ∀ record ∈ a.owed, ∃ send, record.send? = some send ∧ send ≠ s := by
    intro record hrecord
    obtain ⟨send, hsend, hhas⟩ := hsane.owed record hrecord
    refine ⟨send, hsend, ?_⟩
    rintro rfl
    exact absurd (hhas.symm.trans hnew) (by decide)
  refine ⟨fun known ↦ ?_, filterMap_eq_nil_iff.mpr fun record hrecord ↦ ?_⟩
  · generalize a.owed = records at hother
    induction records with
    | nil => rfl
    | cons record records ih =>
      rw [forall_mem_cons] at hother
      obtain ⟨⟨send, hsend, hne⟩, hrest⟩ := hother
      rw [foldl_cons, tells_other hsend hne]
      exact ih hrest
  · obtain ⟨send, hsend, hne⟩ := hother record hrecord
    exact stage?_other hsend hne

theorem Sane.unwritten_eq_false (hsane : Sane a) (hnew : a.sends.has s = false) :
    a.unwritten.has s = false := by
  refine eq_false_of_ne_true fun hhas ↦ ?_
  obtain ⟨record, hrecord⟩ := OMap.has_iff.mp hhas
  obtain ⟨targets, tokens, time, -, hr⟩ := hsane.unwritten s record hrecord
  exact absurd ((has_of_get? hr).symm.trans hnew) (by decide)

theorem Booking.sane (h : Booking send a a') (hsane : Sane a) : Sane a' := by
  have hset (targets : List ScopeRef) (tokens time : ℕ) (hnew : a.sends.has send = false)
      (s : SpendAlias) (record : JournalRecord) (hrecord : a.unwritten.get? s = some record) :
      ∃ targets' tokens' time', record = .reserve s targets' tokens' time' ∧
        (a.sends.set send ⟨targets, tokens, .opened, time, time⟩).get? s =
          some ⟨targets', tokens', .opened, time', time'⟩ := by
    obtain ⟨targets', tokens', time', heq, hr⟩ := hsane.unwritten s record hrecord
    refine ⟨targets', tokens', time', heq, (get?_set_of_ne _ ?_ _).trans hr⟩
    rintro rfl
    exact absurd ((has_of_get? hr).symm.trans hnew) (by decide)
  have howed (r : Reservation) (record : JournalRecord) (hrecord : record ∈ a.owed) :
      ∃ s, record.send? = some s ∧ (a.sends.set send r).has s = true := by
    obtain ⟨s, hsend, hhas⟩ := hsane.owed record hrecord
    refine ⟨s, hsend, ?_⟩
    rw [has_set, hhas, Bool.or_true]
  cases h with
  | reserved targets tokens time written seed hnew hseeded =>
    cases written with
    | true => exact ⟨hset targets tokens time hnew, howed _⟩
    | false =>
      refine ⟨fun s record hrecord ↦ ?_, howed _⟩
      change (a.unwritten.set send _).get? s = some record at hrecord
      rw [get?_set] at hrecord
      split at hrecord
      · rename_i heq
        subst heq
        exact ⟨targets, tokens, time, (Option.some_inj.mp hrecord).symm, get?_set_self ..⟩
      · exact hset targets tokens time hnew s record hrecord
  | enrolled targets tokens time hnew hseeded =>
    refine ⟨hset targets tokens time hnew, forall_mem_append.mpr ⟨howed _,
      forall_mem_singleton.mpr ⟨send, rfl, ?_⟩⟩⟩
    exact has_of_get? (get?_set_self ..)

/-- **A send that the journal knew nothing of** is followed from its booking on a seed, and waits to
be where its reservation was not written. -/
theorem Booking.standing (h : Booking s a a') (hsane : Sane a) (hu : Untold s a)
    (hmarked : a'.seeded s = true ∨ a'.unwritten.has s = true) : Standing s a' := by
  obtain ⟨howed, hstages⟩ := hsane.owed_other hu.1
  have htold : Spend.told s (a.heard ++ a.owed) = none := by rw [told_append, hu.2, howed]
  cases h with
  | reserved targets tokens time written seed hnew hseeded =>
    refine ⟨_, get?_set_self .., ?_⟩
    cases written with
    | true =>
      have hseed := hmarked.resolve_right (by
        show ¬a.unwritten.has s = true
        rw [hsane.unwritten_eq_false hu.1]
        exact Bool.false_ne_true)
      refine .inl ⟨?_, ⟨a.heard, [_], rfl, .inl hu.2, ?_⟩, hsane.unwritten_eq_false hu.1,
        fun _ ↦ hseed, nofun⟩
      · show Spend.told s (a.heard ++ [_] ++ a.owed) = _
        rw [told_append, told_concat, hu.2, JournalRecord.tells, if_pos rfl, howed]
        rfl
      · show (stagesOf s ([_] ++ a.owed)).Sublist _
        rw [stagesOf, filterMap_append, ← stagesOf, ← stagesOf, stagesOf_reserve, hstages]
        exact .refl _
    | false =>
      refine .inr ⟨rfl, .inl htold, ⟨a.heard, [], (append_nil _).symm, .inl hu.2, ?_⟩,
        has_of_get? (get?_set_self ..)⟩
      show (stagesOf s ([] ++ a.owed)).Sublist _
      rw [nil_append, hstages]
  | enrolled targets tokens time hnew hseeded =>
    refine ⟨_, get?_set_self .., .inl ⟨?_, ⟨a.heard, [], (append_nil _).symm, .inl hu.2,
      ?_⟩, hsane.unwritten_eq_false hu.1, fun _ ↦ ?_, nofun⟩⟩
    · show Spend.told s (a.heard ++ (a.owed ++ [_])) = _
      rw [← append_assoc, told_concat, htold, JournalRecord.tells, if_pos rfl]
      rfl
    · show (stagesOf s ([] ++ (a.owed ++ [_]))).Sublist _
      rw [nil_append, stagesOf, filterMap_append, ← stagesOf, ← stagesOf, stagesOf_reserve, hstages]
      exact .refl _
    · show (s == s || a.seeded s) = true
      rw [beq_self_eq_true, Bool.true_or]

theorem Booking.aside (h : Booking send a a') (hne : send ≠ s) : Aside s a a' := by
  have hbeq : (s == send) = false := beq_eq_false_iff_ne.mpr (Ne.symm hne)
  cases h with
  | reserved targets tokens time written seed hnew hseeded =>
    have hseed : (seed && s == send || a.seeded s) = a.seeded s := by
      rw [hbeq, Bool.and_false, Bool.false_or]
    cases written with
    | true =>
      have hhear : Aside s a (a.hear (.reserve send targets tokens time)) :=
        aside_hear (tells_other rfl hne _) (stage?_other rfl hne)
      exact ⟨get?_set_of_ne _ (Ne.symm hne) _, rfl, id, hseed, hhear.told, hhear.inOrder⟩
    | false =>
      refine ⟨get?_set_of_ne _ (Ne.symm hne) _, ?_, id, hseed, rfl, fun _ ↦ id⟩
      show (a.unwritten.set send _).has s = _
      rw [has_set, decide_eq_false (Ne.symm hne), Bool.false_or]
  | enrolled targets tokens time hnew hseeded =>
    have howe : Aside s a (a.owe [.reserve send targets tokens time]) := aside_owe rfl hne
    refine ⟨get?_set_of_ne _ (Ne.symm hne) _, rfl, id, ?_, howe.told, howe.inOrder⟩
    show (s == send || a.seeded s) = a.seeded s
    rw [hbeq, Bool.false_or]

/-! ## Calls -/

/-- What a call does: steps, and at most one booking of a send that was not held. -/
def Called (a a' : Account) : Prop :=
  ∃ before after, Steps a before ∧
    (after = before ∨ ∃ send, a.sends.has send = false ∧ Booking send before after) ∧
      Steps after a'

theorem Called.of_steps (h : Steps a a') : Called a a' := ⟨a', a', h, .inl rfl, .refl⟩

theorem Steps.sane (h : Steps a a') (hsane : Sane a) : Sane a' := by
  induction h with
  | refl => exact hsane
  | tail _ hstep ih => exact hstep.sane ih

theorem Steps.held_back (h : Steps a a') (hheld : Held s a') : Held s a := by
  induction h with
  | refl => exact hheld
  | tail _ hstep ih => exact ih (hstep.held_back hheld)

theorem Steps.has_eq_false (h : Steps a a') (hnew : a.sends.has s = false) :
    a'.sends.has s = false := by
  induction h with
  | refl => exact hnew
  | tail _ hstep ih => exact hstep.has_eq_false ih

theorem Steps.untold (h : Steps a a') (hsane : Sane a) (hu : Untold s a) : Untold s a' := by
  induction h with
  | refl => exact hu
  | tail hsteps hstep ih => exact hstep.untold (Steps.sane hsteps hsane) ih

theorem Steps.marked_back (h : Steps a a')
    (hmarked : a'.seeded s = true ∨ a'.unwritten.has s = true) :
    a.seeded s = true ∨ a.unwritten.has s = true := by
  induction h with
  | refl => exact hmarked
  | tail _ hstep ih => exact ih (hstep.marked_back hmarked)

theorem Steps.standing (h : Steps a a') (hsane : Sane a) (hs : Standing s a) (hheld : Held s a') :
    Standing s a' := by
  induction h with
  | refl => exact hs
  | tail hsteps hstep ih =>
    exact hstep.standing (Steps.sane hsteps hsane) (ih (hstep.held_back hheld)) hheld

theorem Standing.has (hs : Standing s a) : a.sends.has s = true := by
  obtain ⟨r, hr, -⟩ := hs
  exact has_of_get? hr

theorem Called.sane (h : Called a a') (hsane : Sane a) : Sane a' := by
  obtain ⟨before, after, hbefore, hbook, hafter⟩ := h
  have hsane' := Steps.sane hbefore hsane
  rcases hbook with rfl | ⟨send, -, hbooking⟩
  · exact Steps.sane hafter hsane'
  · exact Steps.sane hafter (hbooking.sane hsane')

/-- **Every call keeps a send followed** that it leaves with the ledger. -/
theorem Called.standing (h : Called a a') (hsane : Sane a) (hs : Standing s a)
    (hheld : Held s a') : Standing s a' := by
  obtain ⟨before, after, hbefore, hbook, hafter⟩ := h
  have hsane' := Steps.sane hbefore hsane
  have hheld' := Steps.held_back hafter hheld
  rcases hbook with rfl | ⟨send, hnew, hbooking⟩
  · exact Steps.standing hafter hsane' (Steps.standing hbefore hsane hs hheld') hheld
  · have hne : send ≠ s := by
      rintro rfl
      exact absurd (hs.has.symm.trans hnew) (by decide)
    have haside : Aside s before after := hbooking.aside hne
    obtain ⟨r, hr, hkept⟩ := hheld'
    have hs' := Steps.standing hbefore hsane hs ⟨r, haside.sends ▸ hr, hkept⟩
    exact Steps.standing hafter (hbooking.sane hsane') (haside.standing hs') hheld

/-- **A call that books a send** on a seed, or without its record, lets it be followed. -/
theorem Called.booked (h : Called a a') (hsane : Sane a) (hu : Untold s a) (hheld : Held s a')
    (hmarked : a'.seeded s = true ∨ a'.unwritten.has s = true) : Standing s a' := by
  obtain ⟨before, after, hbefore, hbook, hafter⟩ := h
  have hsane' := Steps.sane hbefore hsane
  have hu' := Steps.untold hbefore hsane hu
  have hheld' := Steps.held_back hafter hheld
  have hunheld : ¬Held s before := by
    rintro ⟨r, hr, -⟩
    exact absurd ((has_of_get? hr).symm.trans hu'.1) (by decide)
  rcases hbook with rfl | ⟨send, hnew, hbooking⟩
  · exact absurd hheld' hunheld
  · have hbooked : send = s := by
      by_contra hne
      have haside : Aside s before after := hbooking.aside hne
      obtain ⟨r, hr, hkept⟩ := hheld'
      exact hunheld ⟨r, haside.sends ▸ hr, hkept⟩
    subst hbooked
    exact Steps.standing hafter (hbooking.sane hsane')
      (hbooking.standing hsane' hu' (Steps.marked_back hafter hmarked)) hheld

end Account

end Spend
