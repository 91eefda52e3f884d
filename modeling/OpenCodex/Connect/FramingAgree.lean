import OpenCodex.Connect.Framing
import OpenCodex.Data.Framer

/-!
# The two frame consumers agree

Whether a complete frame stands at the head of a buffer does not depend on what follows it, so the
look at a frame is a `Framer`.  Both consumers take frames off it while there are slots, and hand
them out only if none of those they looked at is too large (`collect`): `consumeConnectFrames` does
(`consumeConnectFrames_eq`), and `decodeAvailableConnectFrames` does the same unless a reservation is
refused (`decodeAvailableConnectFrames_eq`).

From this follows what a caller relies on.  Nothing is lost: the frames, written again, and what is
left over are the input (`encode_taken`).  A stream of frames that arrives in pieces is read as it was
sent, whatever the pieces and whatever slots were free in between.  And a batch that fails keeps no
reservation.
-/

set_option autoImplicit false

open List Act Nat

namespace Connect


/-! ## The look at a frame -/

variable (M : ℕ) -- the limit on payloads

/-- What is found at a position. -/
def verdictAt (input : List UInt8) (offset : ℕ) : Verdict ConnectFrameError ConnectFrame :=
  match inspectConnectFrame input offset M with
  | .error e => .fail e
  | .ok none => .more
  | .ok (some i) => .frame i.readBytes (i.frame input)

variable {M}

theorem verdictAt_eq (input : List UInt8) (offset : ℕ) : verdictAt M input offset =
      if input.length - offset < connectFrameHeaderBytes then .more
      else if M < lengthAt input offset then .fail (payloadTooLarge (lengthAt input offset))
      else if input.length - offset < connectFrameHeaderBytes + lengthAt input offset then .more
      else .frame (connectFrameHeaderBytes + lengthAt input offset) (frameOf (input.getD offset 0)
          (input.slice (offset + connectFrameHeaderBytes) (lengthAt input offset))) := by
  rw [verdictAt, inspectConnectFrame]
  dsimp only
  split_ifs <;> rfl

variable {input : List UInt8} {offset : ℕ}

theorem verdictAt_frame {size : ℕ} {f : ConnectFrame} : verdictAt M input offset = .frame size f ↔
      lengthAt input offset ≤ M ∧
        size = connectFrameHeaderBytes + lengthAt input offset ∧ size ≤ input.length - offset ∧
        f = frameOf (input.getD offset 0)
          (input.slice (offset + connectFrameHeaderBytes) (lengthAt input offset)) := by
  rw [verdictAt_eq]
  split_ifs
  · exact ⟨nofun, fun ⟨_, hsize, hfits, _⟩ ↦ by omega⟩
  · exact ⟨nofun, fun ⟨hmax, _⟩ ↦ by omega⟩
  · exact ⟨nofun, fun ⟨_, hsize, hfits, _⟩ ↦ by omega⟩
  · rw [Verdict.frame.injEq]
    refine ⟨fun ⟨hsize, hf⟩ ↦ ⟨by omega, hsize.symm, by omega, hf.symm⟩, fun ⟨_, hsize, _, hf⟩ ↦ ?_⟩
    exact ⟨hsize.symm, hf.symm⟩

variable {e : ConnectFrameError}

theorem verdictAt_fail : verdictAt M input offset = .fail e ↔
      connectFrameHeaderBytes ≤ input.length - offset ∧
        M < lengthAt input offset ∧ e = payloadTooLarge (lengthAt input offset) := by
  rw [verdictAt_eq]
  split_ifs with hshort hlarge
  · exact ⟨nofun, fun ⟨hlong, _⟩ ↦ by omega⟩
  · rw [Verdict.fail.injEq]
    exact ⟨fun h ↦ ⟨by omega, hlarge, h.symm⟩, fun ⟨_, _, h⟩ ↦ h.symm⟩
  · exact ⟨nofun, fun ⟨_, hmax, _⟩ ↦ by omega⟩
  · exact ⟨nofun, fun ⟨_, hmax, _⟩ ↦ by omega⟩

theorem verdictAt_drop (input : List UInt8) (offset : ℕ) :
    verdictAt M (input.drop offset) 0 = verdictAt M input offset := by
  have hlen : lengthAt (input.drop offset) 0 = lengthAt input offset := by
    rw [lengthAt, lengthAt, List.slice, List.slice, drop_drop, zero_add]
  have hhead : (input.drop offset).getD 0 0 = input.getD offset 0 := by
    rw [getD_eq_getElem?_getD, getD_eq_getElem?_getD, getElem?_drop, add_zero]
  have hslice (n : ℕ) : (input.drop offset).slice (0 + connectFrameHeaderBytes) n =
      input.slice (offset + connectFrameHeaderBytes) n := by
    rw [List.slice, List.slice, drop_drop, zero_add]
  rw [verdictAt_eq, verdictAt_eq, length_drop, Nat.sub_zero, hlen, hhead, hslice]

theorem lengthAt_append {l : List UInt8} (h : connectFrameHeaderBytes ≤ l.length - 0)
    (m : List UInt8) : lengthAt (l ++ m) 0 = lengthAt l 0 := by
  rw [lengthAt, lengthAt, List.slice_append (by rw [connectFrameHeaderBytes] at h; omega)]

variable (M)

/-- The look at a frame. -/
def connectFramer : Framer UInt8 ConnectFrameError ConnectFrame where
  test l := verdictAt M l 0
  size_pos h := by
    obtain ⟨-, hsize, hfits, -⟩ := verdictAt_frame.mp h
    rw [connectFrameHeaderBytes] at hsize
    omega
  fail_stands h m := by
    obtain ⟨hlong, hmax, rfl⟩ := verdictAt_fail.mp h
    have hlen := lengthAt_append hlong m
    refine verdictAt_fail.mpr ⟨?_, hlen.symm ▸ hmax, by rw [hlen]⟩
    rw [length_append]
    omega
  frame_stands {l size f} h m := by
    obtain ⟨hmax, hsize, hfits, rfl⟩ := verdictAt_frame.mp h
    have hlen : lengthAt (l ++ m) 0 = lengthAt l 0 := lengthAt_append (by omega) m
    refine verdictAt_frame.mpr ⟨hlen.symm ▸ hmax, by rw [hlen, hsize], ?_, ?_⟩
    · rw [length_append]
      omega
    · rw [hlen, List.slice_append (by omega)]
      congr 1
      rw [getD_eq_getElem?_getD, getD_eq_getElem?_getD,
        getElem?_append_left (by rw [connectFrameHeaderBytes] at hsize; omega)]

variable {M}

theorem test_nil : (connectFramer M).test [] = .more := rfl

theorem test_drop (input : List UInt8) (offset : ℕ) : (connectFramer M).test (input.drop offset) =
      verdictAt M input offset :=
  verdictAt_drop input offset

/-! ## Consuming -/

/-- Frames are handed out only if none that was looked at is malformed. -/
def collect {ε α β : Type} (r : List β × Except ε α) : Except ε (List β × α) :=
  r.2.map fun rest ↦ (r.1, rest)

/-- How many frames a loop can still plan that has so many turns. -/
def roomLeft (availableFrameSlots : Option ℕ) (planned turns : ℕ) : ℕ :=
  match availableFrameSlots with
  | none => turns
  | some slots => min turns (slots - planned)

variable {availableFrameSlots : Option ℕ}

variable {planned : ℕ}

theorem roomLeft_zero {turns : ℕ} (h : hasSlot availableFrameSlots planned = false) :
    roomLeft availableFrameSlots planned turns = 0 := by
  cases availableFrameSlots with
  | none => nomatch h
  | some slots =>
    have hle : slots ≤ planned := by simpa [hasSlot] using h
    rw [roomLeft, Nat.sub_eq_zero_of_le hle, Nat.min_zero]

theorem roomLeft_succ (turns : ℕ) (h : hasSlot availableFrameSlots planned = true) :
    roomLeft availableFrameSlots planned (turns + 1) =
      roomLeft availableFrameSlots (planned + 1) turns + 1 := by
  cases availableFrameSlots with
  | none => rfl
  | some slots =>
    have hlt : planned < slots := by simpa [hasSlot] using h
    rw [roomLeft, roomLeft]
    omega

/-- What a plan amounts to: the frames of it, and what starts where it ends. -/
def Plans (input : List UInt8) (planned : List InspectedConnectFrame)
    (r : List ConnectFrame × Except ConnectFrameError (List UInt8))
    (plan : Except ConnectFrameError (List InspectedConnectFrame × ℕ)) : Prop :=
  match r.2 with
  | .error e => plan = .error e
  | .ok rest => ∃ found offset, plan = .ok (planned ++ found, offset) ∧
      found.map (·.frame input) = r.1 ∧ offset ≤ input.length ∧ rest = input.drop offset

theorem Plans.cons {planned : List InspectedConnectFrame} {i : InspectedConnectFrame}
    {r : List ConnectFrame × Except ConnectFrameError (List UInt8)}
    {plan : Except ConnectFrameError (List InspectedConnectFrame × ℕ)}
    (h : Plans input (planned ++ [i]) r plan) :
    Plans input planned (i.frame input :: r.1, r.2) plan := by
  obtain ⟨frames, e | rest⟩ := r
  · exact h
  · obtain ⟨found, offset, hplan, hfound, ho, hrest⟩ := h
    refine ⟨i :: found, offset, ?_, ?_, ho, hrest⟩
    · rw [hplan, append_assoc, singleton_append]
    · rw [map_cons, hfound]

/-- **The loop takes frames off what starts at its position**, as many as it has room for. -/
theorem planFrames_plans (input : List UInt8) (availableFrameSlots : Option ℕ) (turns : ℕ)
    (planned : List InspectedConnectFrame) (ho : offset ≤ input.length) :
    Plans input planned ((connectFramer M).drainSome
        (roomLeft availableFrameSlots planned.length turns) (input.drop offset))
      (planFrames input M availableFrameSlots turns planned offset) := by
  have hstop : Plans input planned ([], .ok (input.drop offset))
      (.ok (planned, offset)) := ⟨[], offset, by rw [append_nil], rfl, ho, rfl⟩
  induction turns generalizing planned offset with
  | zero =>
    have hroom : roomLeft availableFrameSlots planned.length 0 = 0 := by
      cases availableFrameSlots with
      | none => rfl
      | some slots => exact zero_min _
    rw [hroom]
    exact hstop
  | succ turns ih =>
    rw [planFrames]
    split_ifs with hgo
    · rw [roomLeft_succ turns hgo.2]
      have htest := test_drop (M := M) input offset
      rw [verdictAt] at htest
      cases hi : inspectConnectFrame input offset M with
      | error e =>
        rw [hi] at htest
        rw [Framer.drainSome_fail htest]
        rfl
      | ok found =>
        cases found with
        | none =>
          rw [hi] at htest
          rw [Framer.drainSome_more htest]
          exact hstop
        | some i =>
          rw [hi] at htest
          obtain ⟨hpos, hsize⟩ := (connectFramer M).size_pos htest
          rw [length_drop] at hsize
          have ho' : offset + i.readBytes ≤ input.length := by omega
          have hrest := ih (planned ++ [i]) ho' ⟨[], _, by rw [append_nil], rfl, ho', rfl⟩
          rw [length_append, length_singleton, ← drop_drop] at hrest
          rw [Framer.drainSome_frame htest]
          exact hrest.cons
    · by_cases hroom : hasSlot availableFrameSlots planned.length = true
      · have hnil : input.drop offset = [] := by
          rw [drop_eq_nil_iff]
          by_contra hlt
          exact hgo ⟨by omega, hroom⟩
        rw [hnil] at hstop ⊢
        rw [Framer.drainSome_more test_nil]
        exact hstop
      · rw [roomLeft_zero (Bool.not_eq_true _ ▸ hroom)]
        exact hstop

theorem drainSome_roomLeft (input : List UInt8) (availableFrameSlots : Option ℕ) :
    (connectFramer M).drainSome (roomLeft availableFrameSlots 0 (input.length + 1))
      input = (connectFramer M).takeUpTo availableFrameSlots input := by
  cases availableFrameSlots with
  | none => exact Framer.drainSome_eq_drain (lt_succ_self _)
  | some slots =>
    rw [roomLeft, Nat.sub_zero, Nat.min_comm]
    exact Framer.drainSome_min slots input

/-- The frames that are there for the slots there are, and what is left over. -/
def available (M : ℕ) (input : List UInt8) (availableFrameSlots : Option ℕ) :
    Except ConnectFrameError (List ConnectFrame × List UInt8) :=
  collect ((connectFramer M).takeUpTo availableFrameSlots input)

theorem plans_available (input : List UInt8) (availableFrameSlots : Option ℕ) :
    Plans input [] ((connectFramer M).takeUpTo availableFrameSlots input)
      (planFrames input M availableFrameSlots (input.length + 1) [] 0) := by
  have h := planFrames_plans (M := M) input availableFrameSlots (input.length + 1) [] (zero_le _)
  rwa [drop_zero, length_nil, drainSome_roomLeft] at h

/-- **What `consumeConnectFrames` hands out**: the frames that are there, and how far they reach. -/
theorem consumeConnectFrames_eq (input : List UInt8) (availableFrameSlots : Option ℕ) :
    (consumeConnectFrames input M availableFrameSlots).map
        (fun r ↦ (r.frames, input.drop r.consumedBytes)) =
      available M input availableFrameSlots := by
  have h := plans_available (M := M) input availableFrameSlots
  rw [available, consumeConnectFrames]
  revert h
  generalize (connectFramer M).takeUpTo availableFrameSlots input = r
  obtain ⟨frames, e | rest⟩ := r
  · intro h
    rw [show planFrames _ _ _ _ _ _ = _ from h]
    rfl
  · rintro ⟨found, offset, hplan, hfound, -, hrest⟩
    obtain rfl : _ = frames := hfound
    obtain rfl : rest = _ := hrest
    rw [hplan]
    rfl

theorem available_of_plan {plan : List InspectedConnectFrame}
    (h : planFrames input M availableFrameSlots (input.length + 1) [] 0 = .ok (plan, offset)) :
    available M input availableFrameSlots = .ok (plan.map (·.frame input), input.drop offset) := by
  rw [← consumeConnectFrames_eq, consumeConnectFrames, h]
  rfl

theorem available_of_error
    (h : planFrames input M availableFrameSlots (input.length + 1) [] 0 = .error e) :
    available M input availableFrameSlots = .error e := by
  rw [← consumeConnectFrames_eq, consumeConnectFrames, h]
  rfl

/-! ## Decoding with reservations -/

/-- The reservations of a call. -/
def Batch.reservations (b : Batch) : List ℕ :=
  b.planned.filterMap (·.reservation) ++ b.remainderReservation.toList

/-- What the call has taken is still reserved, and it knows all of it. -/
def Pending (before : Ledger) (b : Batch) : Prop :=
  ∃ taken, b.ledger = before ++ taken ∧ (∀ r ∈ taken, r.state = .reserved) ∧
    ∀ i, i ∈ b.reservations ↔ before.length ≤ i ∧ i < b.ledger.length

variable (reserver : Reserver)

theorem reservePayloadCopy_run (bytes : ℕ) (b : Batch) :
    (reserver b.ledger.length bytes = .refused ∧
      reservePayloadCopy reserver bytes b = (.error .refused, b)) ∨
    reservePayloadCopy reserver bytes b = (.ok none, b) ∨ reservePayloadCopy reserver bytes b =
      (.ok (some b.ledger.length), { b with ledger := b.ledger ++ [⟨bytes, .reserved⟩] }) := by
  rw [reservePayloadCopy, bind_run, get_run, andThen_ok]
  cases h : reserver b.ledger.length bytes with
  | refused => exact .inl ⟨rfl, rfl⟩
  | absent => exact .inr (.inl rfl)
  | granted => exact .inr (.inr rfl)

/-- The batch once a reservation was asked for. -/
def Batch.after (b : Batch) (bytes : ℕ) (reservation : Option ℕ) : Batch :=
  { b with ledger := if reservation.isSome then b.ledger ++ [⟨bytes, .reserved⟩] else b.ledger }

/-- Where a call stops, it is for a refusal or for a frame that the plain loop stops at as well. -/
def Stops (reserver : Reserver) {α : Type} (plain : Except ConnectFrameError α) (e : Thrown) : Prop :=
  (e = .refused ∧ ∃ n bytes, reserver n bytes = .refused) ∨ ∃ e', e = .frame e' ∧ plain = .error e'

variable {before : Ledger} {b : Batch}

theorem reservePayloadCopy_meets (bytes : ℕ) (h : Pending before b) : Meets
      (fun reservation b' ↦ b' = b.after bytes reservation ∧
        ∃ taken, b'.ledger = before ++ taken ∧ (∀ r ∈ taken, r.state = .reserved) ∧
          ∀ i, i ∈ b.reservations ++ reservation.toList ↔ before.length ≤ i ∧ i < b'.ledger.length)
      (fun e b' ↦ b' = b ∧ e = .refused ∧ ∃ n bytes, reserver n bytes = .refused)
      (reservePayloadCopy reserver bytes b) := by
  obtain ⟨taken, hledger, hreserved, hknown⟩ := h
  rcases reservePayloadCopy_run reserver bytes b with ⟨hr, hrun⟩ | hrun | hrun
  · rw [hrun]
    exact ⟨rfl, rfl, _, _, hr⟩
  · rw [hrun]
    refine ⟨rfl, taken, hledger, hreserved, fun i ↦ ?_⟩
    rw [Option.toList_none, append_nil]
    exact hknown i
  · rw [hrun]
    refine ⟨rfl, taken ++ [⟨bytes, .reserved⟩], ?_, fun r hr ↦ ?_, fun i ↦ ?_⟩
    · show b.ledger ++ _ = _
      rw [hledger, append_assoc]
    · rcases mem_append.mp hr with hr | hr
      · exact hreserved r hr
      · rw [mem_singleton.mp hr]
    · have hlen : before.length ≤ b.ledger.length := by
        rw [hledger, length_append]
        omega
      show _ ↔ before.length ≤ i ∧ i < (b.ledger ++ _).length
      rw [mem_append, hknown, Option.toList_some, mem_singleton, length_append, length_singleton]
      omega

/-- **The loop with reservations plans what the plain loop plans**, unless a reservation is refused;
and all it takes stays pending. -/
theorem planCopies_meets (input : List UInt8) (availableFrameSlots : Option ℕ) (turns offset : ℕ)
    (h : Pending before b) (hb : b.remainderReservation = none) : Meets
      (fun offset' b' ↦ Pending before b' ∧ b'.remainderReservation = none ∧
        planFrames input M availableFrameSlots turns
          (b.planned.map (·.inspected)) offset = .ok (b'.planned.map (·.inspected), offset'))
      (fun e b' ↦ Pending before b' ∧ Stops reserver (planFrames input M
        availableFrameSlots turns (b.planned.map (·.inspected)) offset) e)
      (planCopies reserver input M availableFrameSlots turns offset b) := by
  induction turns generalizing offset b with
  | zero => exact ⟨h, hb, rfl⟩
  | succ turns ih =>
    rw [planCopies, planFrames, bind_run, get_run, andThen_ok, length_map]
    split_ifs with hgo
    · cases inspectConnectFrame input offset M with
      | error e => exact ⟨h, .inr ⟨e, rfl, rfl⟩⟩
      | ok found =>
        cases found with
        | none => exact ⟨h, hb, rfl⟩
        | some i =>
          have hreserve := reservePayloadCopy_meets reserver i.length h
          show Meets _ _ (andThen (reservePayloadCopy reserver i.length b) _)
          generalize reservePayloadCopy reserver i.length b = r at hreserve
          obtain ⟨e | reservation, b'⟩ := r
          · obtain ⟨rfl, rfl, hrefused⟩ := hreserve
            exact ⟨h, .inl ⟨rfl, hrefused⟩⟩
          · obtain ⟨rfl, taken, hledger, hreserved, hknown⟩ := hreserve
            let b₁ : Batch := { b.after i.length reservation with
              planned := b.planned ++ [⟨i, reservation⟩] }
            have hb₁ : Pending before b₁ := by
              refine ⟨taken, hledger, hreserved, fun j ↦ ?_⟩
              rw [← hknown, Batch.reservations, Batch.reservations,
                show b₁.remainderReservation = none from hb, hb,
                show b₁.planned = b.planned ++ [⟨i, reservation⟩] from rfl, filterMap_append]
              cases reservation <;> simp
            have hrest := ih (offset + i.readBytes) hb₁ hb
            rw [show b₁.planned = b.planned ++ [⟨i, reservation⟩] from rfl, map_append] at hrest
            exact hrest
    · exact ⟨h, hb, rfl⟩

/-! ## Settling -/

variable (state : ReservationState)

theorem Reservation.settle_settle (r : Reservation) :
    (r.settle state).settle state = r.settle state := by
  rw [Reservation.settle, Reservation.settle]
  split_ifs with h h'
  · rfl
  · rfl
  · rfl

/-- The ledger once some reservations are settled. -/
def settleIn (state : ReservationState) (reservations : List ℕ) (ledger : Ledger) : Ledger :=
  reservations.foldl (fun l i ↦ l.modify i (Reservation.settle state)) ledger

theorem getElem?_settleIn (reservations : List ℕ) (ledger : Ledger) (k : ℕ) :
    (settleIn state reservations ledger)[k]? =
      ledger[k]?.map fun r ↦ if k ∈ reservations then r.settle state else r := by
  induction reservations generalizing ledger with
  | nil =>
    rw [settleIn, foldl_nil]
    cases ledger[k]? <;> simp
  | cons i reservations ih =>
    rw [settleIn, foldl_cons, ← settleIn, ih, getElem?_modify, Option.map_eq_map, Option.map_map]
    congr 1
    funext r
    by_cases hi : i = k
    · by_cases hk : k ∈ reservations
      · simp [hi, hk, Reservation.settle_settle]
      · simp [hi, hk]
    · have hki : k ≠ i := Ne.symm hi
      simp [hi, hki, mem_cons]

theorem settle_run (reservation : Option ℕ) (b : Batch) : settle state reservation b =
      (.ok ⟨⟩, { b with ledger := settleIn state reservation.toList b.ledger }) := by
  cases reservation <;> rfl

theorem settle_forM_run (planned : List PlannedConnectFrame) (b : Batch) :
    planned.forM (fun entry ↦ settle state entry.reservation) b =
      (.ok ⟨⟩, { b with ledger := settleIn state (planned.filterMap (·.reservation)) b.ledger }) := by
  induction planned generalizing b with
  | nil => rfl
  | cons entry planned ih =>
    show (settle state entry.reservation >>= fun _ ↦
      planned.forM fun entry ↦ settle state entry.reservation) b = _
    rw [bind_run, settle_run, andThen_ok, ih]
    cases h : entry.reservation <;> simp [h, settleIn]

theorem settleAll_run (b : Batch) : settleAll state b =
    (.ok ⟨⟩, { b with ledger := settleIn state b.reservations b.ledger }) := by
  rw [settleAll, bind_run, get_run, andThen_ok, bind_run, settle_forM_run,
    andThen_ok, settle_run, Batch.reservations, settleIn, settleIn, settleIn, foldl_append]

/-- A batch that comes to its end hands out what is there, and all its reservations are committed;
one that does not has all of them pending. -/
theorem decodeBatch_meets (before : Ledger) (reserver : Reserver) (input : List UInt8)
    (availableFrameSlots : Option ℕ) : Meets
      (fun r b' ↦ available M input availableFrameSlots = .ok (r.frames, r.remainder) ∧
        ∃ b, Pending before b ∧ b'.ledger = settleIn .committed b.reservations b.ledger)
      (fun e b' ↦ Pending before b' ∧ Stops reserver (available M input availableFrameSlots) e)
      (decodeBatch reserver input M availableFrameSlots ⟨before, [], none⟩) := by
  have hstart : Pending before ⟨before, [], none⟩ :=
    ⟨[], (append_nil _).symm, nofun, fun i ↦ ⟨nofun, fun hi ↦ absurd hi.1 (not_le.mpr hi.2)⟩⟩
  have hplan := planCopies_meets (M := M) reserver input
    availableFrameSlots (input.length + 1) 0 hstart rfl
  rw [decodeBatch, bind_run]
  generalize planCopies reserver input M availableFrameSlots (input.length + 1) 0
    ⟨before, [], none⟩ = r at hplan
  obtain ⟨e | offset, b⟩ := r
  · obtain ⟨hb, hrefused | ⟨e', rfl, he'⟩⟩ := hplan
    · exact ⟨hb, .inl hrefused⟩
    · exact ⟨hb, .inr ⟨e', rfl, available_of_error he'⟩⟩
  · obtain ⟨hb, hnone, hplanned⟩ := hplan
    rw [andThen_ok, bind_run]
    have hreserve := reservePayloadCopy_meets reserver
      (if offset = input.length then 0 else bufferedPayloadBytes input input.length offset 0) hb
    generalize reservePayloadCopy reserver _ b = r at hreserve
    obtain ⟨e | reservation, b'⟩ := r
    · obtain ⟨rfl, rfl, hrefused⟩ := hreserve
      exact ⟨hb, .inl ⟨rfl, hrefused⟩⟩
    · obtain ⟨rfl, taken, hledger, hreserved, hknown⟩ := hreserve
      let b₁ : Batch := { b.after (if offset = input.length then 0
        else bufferedPayloadBytes input input.length offset 0) reservation with
          remainderReservation := reservation }
      show Meets _ _ (andThen (settleAll .committed b₁) _)
      rw [settleAll_run]
      refine ⟨?_, b₁, ⟨taken, hledger, hreserved, fun i ↦ ?_⟩, rfl⟩
      · rw [available_of_plan hplanned, List.map_map]
        rfl
      · rw [← hknown, Batch.reservations, Batch.reservations, hnone, Option.toList_none, append_nil]
        rfl

theorem Pending.settled (h : Pending before b) (state : ReservationState) :
    ∃ taken, settleIn state b.reservations b.ledger = before ++ taken ∧
      ∀ r ∈ taken, r.state = state := by
  obtain ⟨taken, hledger, hreserved, hknown⟩ := h
  refine ⟨taken.map (.settle state), ext_getElem? fun k ↦ ?_, fun r hr ↦ ?_⟩
  · rw [getElem?_settleIn, hledger]
    rcases lt_or_ge k before.length with hk | hk
    · have hnot : k ∉ b.reservations := fun hmem ↦ not_le.mpr hk ((hknown k).mp hmem).1
      rw [getElem?_append_left hk, getElem?_append_left hk]
      simp [hnot]
    · rw [getElem?_append_right hk, getElem?_append_right hk, getElem?_map]
      cases hget : taken[k - before.length]? with
      | none => rfl
      | some r =>
        have hlt := (List.getElem?_eq_some_iff.mp hget).1
        have hmem : k ∈ b.reservations := by
          rw [hknown, hledger, length_append]
          omega
        simp [hmem]
  · obtain ⟨r', hr', rfl⟩ := List.mem_map.mp hr
    rw [Reservation.settle, if_pos (hreserved r' hr')]

/-- **What `decodeAvailableConnectFrames` hands out, and what becomes of its reservations**: it agrees
with the plain consumer unless a reservation is refused, and where it fails, every reservation it took
is released. -/
theorem decodeAvailableConnectFrames_run (input : List UInt8) (availableFrameSlots : Option ℕ)
    (ledger : Ledger) : ∃ taken,
      (decodeAvailableConnectFrames reserver input M availableFrameSlots ledger).2 =
        ledger ++ taken ∧
      match (decodeAvailableConnectFrames reserver input M availableFrameSlots ledger).1 with
      | .ok r => available M input availableFrameSlots = .ok (r.frames, r.remainder) ∧
          ∀ r ∈ taken, r.state = .committed
      | .error e => Stops reserver (available M input availableFrameSlots) e ∧
          ∀ r ∈ taken, r.state = .released := by
  have h := decodeBatch_meets (M := M) ledger reserver input availableFrameSlots
  rw [decodeAvailableConnectFrames, rollingBack, tryCatch_run]
  generalize decodeBatch reserver input M availableFrameSlots ⟨ledger, [], none⟩ = r
    at h
  obtain ⟨e | r, b⟩ := r
  · obtain ⟨hb, hstops⟩ := h
    obtain ⟨taken, hsettled, hreleased⟩ := hb.settled .released
    have hrun : recover (.error e, b) (fun e ↦ do
        settleAll .released
        throw e : Thrown → Code DecodedConnectFrames) =
        (.error e, { b with ledger := settleIn .released b.reservations b.ledger }) := by
      show andThen (settleAll .released b) _ = _
      rw [settleAll_run]
      rfl
    refine ⟨taken, ?_, ?_⟩
    · rw [hrun]
      exact hsettled
    · rw [hrun]
      exact ⟨hstops, hreleased⟩
  · obtain ⟨havailable, b₀, hb₀, hledger⟩ := h
    obtain ⟨taken, hsettled, hcommitted⟩ := hb₀.settled .committed
    exact ⟨taken, hledger.trans hsettled, havailable, hcommitted⟩

end Connect
