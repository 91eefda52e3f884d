import OpenCodex.Data.PullStream
import OpenCodex.Messages.StreamRuns
import OpenCodex.Translator.BudgetRuns

/-!
# Frames that are charged until they are pulled

Every frame that `responsesSseToAnthropicSse` writes is charged to the turn's budget as
`live_transient`, and its size is put at the end of `queuedLiveFrameBytes`.  `pull` takes the first of
these sizes off again, as if each call of it meant that one frame was delivered.

A `LiveTurn` is the translation beside the stream it writes to.  The client does not cancel here.

A frame that is read while others wait behind it, or while a call of `pull` is outstanding, is
delivered without a call for it.  Its charge stays, one more for every such frame, though nothing waits
for the client any more (`burst_stays_charged`).  As long as each frame comes with its call, what is
charged are the frames that wait and at most the one that was read last (`live_charge_tracks`).
-/

set_option autoImplicit false

open List Option

namespace Translator

variable {b : Budget} {agg : Aggregates} {kind : TranslatorBufferKind} {n : ℕ}

@[simp] theorem normalizeBytes_natCast (n : ℕ) : normalizeBytes (some (n : ℚ)) = n := by
  simp only [normalizeBytes, Nat.cast_pos]
  split_ifs with h
  · have hfloor := Rat.floor_intCast n
    rw [Int.cast_natCast] at hfloor
    rw [hfloor, Int.toNat_natCast]
  · omega

namespace Budget

/-- A budget with more or less under a kind. -/
def withCharge (b : Budget) (kind : TranslatorBufferKind) (charge hard : ℕ) : Budget :=
  { b with charged := b.charged.set kind charge, hardChargedBytes := hard }

@[simp] theorem changed_chargedFor (kind : TranslatorBufferKind) :
    (b.changed agg).1.chargedFor kind = b.chargedFor kind := rfl

theorem withCharge_chargedFor (kind' : TranslatorBufferKind) (charge hard : ℕ) :
    (b.withCharge kind charge hard).chargedFor kind' =
      if kind' = kind then charge else b.chargedFor kind' := by
  simp only [chargedFor, withCharge]
  split_ifs with h
  · rw [h, OMap.get?_set_self]
    rfl
  · rw [OMap.get?_set_of_ne _ h]

theorem reserveTransient_plain (hlive : b.disposed = false) :
    b.reserveTransient agg (some (n : ℚ)) ⟨kind, none⟩ =
      if b.overTurn n then (.error ⟨kind, b.maxTurnBytes⟩, b.reject agg)
      else (.ok ⟨⟨kind, none⟩, n, .reserved⟩,
        changed (b.withCharge kind (b.chargedFor kind + n) (b.hardChargedBytes + n)) agg) := by
  simp [reserveTransient, hlive, ChargeScope.call, withCharge]

theorem commitRetained_plain (hlive : b.disposed = false) :
    (b.commitRetained agg ⟨⟨kind, none⟩, n, .reserved⟩).2 = (b, agg) := by
  simp [commitRetained, hlive, ChargeScope.call]

theorem releaseRetained_plain : b.releaseRetained agg (some (n : ℚ)) ⟨kind, none⟩ =
      changed (b.withCharge kind (b.chargedFor kind - min n (b.chargedFor kind))
        (b.hardChargedBytes - min n (b.chargedFor kind))) agg := by
  simp [releaseRetained, ChargeScope.call, withCharge]

end Budget

end Translator

namespace Messages

open Translator

/-! ## What is charged for frames -/

def liveScope : ChargeScope := ⟨.liveTransient, none⟩

/-- The budget of the turn, and the sizes that are charged to it for frames. -/
structure LiveFrames where
  budget : Budget
  aggregates : Aggregates
  queuedLiveFrameBytes : List ℕ := []

namespace LiveFrames

def onBudget (x : LiveFrames) (books : Budget × Aggregates) : LiveFrames :=
  { x with budget := books.1, aggregates := books.2 }

@[simp] theorem onBudget_queuedLiveFrameBytes (x : LiveFrames) (books : Budget × Aggregates) :
    (x.onBudget books).queuedLiveFrameBytes = x.queuedLiveFrameBytes := rfl

@[simp] theorem onBudget_budget (x : LiveFrames) (books : Budget × Aggregates) :
    (x.onBudget books).budget = books.1 := rfl

/-- `pull`, and what `pull` is meant for. -/
def releaseDeliveredFrame (x : LiveFrames) : LiveFrames :=
  match x.queuedLiveFrameBytes with
  | [] => x
  | bytes :: rest => { x with queuedLiveFrameBytes := rest }.onBudget
      (x.budget.releaseRetained x.aggregates (some bytes) liveScope)

theorem releaseDeliveredFrame_queuedLiveFrameBytes (x : LiveFrames) :
    x.releaseDeliveredFrame.queuedLiveFrameBytes = x.queuedLiveFrameBytes.tail := by
  rw [releaseDeliveredFrame]
  split
  · rename_i h
    rw [h, tail_nil]
  · rename_i h
    rw [h, tail_cons]
    rfl

/-- `reservation.commitRetained(); queuedLiveFrameBytes.push(bytes)` -/
def commitFrame (reservation : Budget.Reservation) (bytes : ℕ) (x : LiveFrames) : LiveFrames :=
  { x with queuedLiveFrameBytes := x.queuedLiveFrameBytes ++ [bytes] }.onBudget
    (x.budget.commitRetained x.aggregates reservation).2

/-- The frames that are entered are charged, beside what others hold under `live_transient`. -/
structure Entered (others : ℕ) (x : LiveFrames) : Prop where
  live : x.budget.disposed = false
  charged : x.budget.chargedFor .liveTransient = others + x.queuedLiveFrameBytes.sum
  held : x.budget.hardChargedBytes = x.budget.heldBytes

variable {others : ℕ}

theorem Entered.releaseDeliveredFrame (x : LiveFrames) (h : x.Entered others) :
    x.releaseDeliveredFrame.Entered others := by
  rw [LiveFrames.releaseDeliveredFrame]
  split
  · exact h
  · rename_i bytes rest hqueued
    refine ⟨?_, ?_, ?_⟩
    · rw [onBudget_budget, liveScope, Budget.releaseRetained_plain]
      exact h.live
    · have hcharged := h.charged
      rw [hqueued, sum_cons] at hcharged
      rw [onBudget_budget, liveScope, Budget.releaseRetained_plain, Budget.changed_chargedFor,
        Budget.withCharge_chargedFor, if_pos rfl, onBudget_queuedLiveFrameBytes]
      simp only
      omega
    · refine (@Budget.releaseRetained_keeps _ x.aggregates h.held (some bytes) liveScope).1 ?_
      exact h.live

variable {x : LiveFrames}

variable {n : ℕ} {kind : TranslatorBufferKind}

theorem Entered.reserve {r : Budget.Reservation} {books : Budget × Aggregates}
    (h : x.Entered others)
    (hr : x.budget.reserveTransient x.aggregates (some n) ⟨kind, none⟩ = (.ok r, books)) :
    r = ⟨⟨kind, none⟩, n, .reserved⟩ ∧
      (x.onBudget books).Entered (others + if kind = .liveTransient then n else 0) := by
  have hkeeps := @Budget.reserveTransient_keeps _ x.aggregates h.held (some n) ⟨kind, none⟩
  rw [hr] at hkeeps
  rw [Budget.reserveTransient_plain h.live] at hr
  split_ifs at hr
  · nomatch hr
  obtain ⟨hreservation, hbooks⟩ := Prod.ext_iff.mp hr
  obtain rfl := Except.ok.inj hreservation
  obtain rfl : _ = books := hbooks
  refine ⟨rfl, h.live, ?_, hkeeps.1 h.live⟩
  rw [onBudget_budget, onBudget_queuedLiveFrameBytes, Budget.changed_chargedFor,
    Budget.withCharge_chargedFor, h.charged]
  split_ifs with h1 h2 h2
  · have hcharged := h.charged
    rw [h1] at hcharged
    omega
  · exact absurd h1.symm h2
  · exact absurd h2.symm h1
  · omega

theorem Entered.commitFrame (h : x.Entered (others + n)) :
    (x.commitFrame ⟨liveScope, n, .reserved⟩ n).Entered others := by
  rw [LiveFrames.commitFrame, liveScope, Budget.commitRetained_plain h.live]
  refine ⟨h.live, ?_, h.held⟩
  have hcharged := h.charged
  simp only [onBudget_budget, onBudget_queuedLiveFrameBytes, sum_append, sum_singleton]
  omega

theorem Entered.giveBack (h : x.Entered others) (hn : kind = .liveTransient → n ≤ others) :
    (x.onBudget (x.budget.releaseRetained x.aggregates (some n) ⟨kind, none⟩)).Entered
      (others - if kind = .liveTransient then n else 0) := by
  have hkeeps := @Budget.releaseRetained_keeps _ x.aggregates h.held (some n) ⟨kind, none⟩
  rw [Budget.releaseRetained_plain] at hkeeps ⊢
  refine ⟨h.live, ?_, hkeeps.1 h.live⟩
  have hcharged := h.charged
  rw [onBudget_budget, onBudget_queuedLiveFrameBytes, Budget.changed_chargedFor,
    Budget.withCharge_chargedFor]
  by_cases hkind : kind = .liveTransient
  · have hle := hn hkind
    rw [if_pos hkind.symm, if_pos hkind, hkind]
    omega
  · rw [if_neg (Ne.symm hkind), if_neg hkind]
    exact hcharged

end LiveFrames

/-! ## Emitting -/

abbrev FrameStream := PullStream (List UInt8) LiveFrames

/-- The emission of one frame; a refused reservation and a stream that is not open are exceptions. -/
def emitFrame (frame : List UInt8) (s : FrameStream) : Option FrameStream :=
  match s.source.budget.reserveTransient s.source.aggregates (some frame.length) liveScope with
  | (.error _, _) => none
  | (.ok reservation, books) =>
    (PullStream.enqueue LiveFrames.releaseDeliveredFrame frame
        { s with source := s.source.onBudget books }).map fun s ↦
      { s with source := s.source.commitFrame reservation frame.length }

def emitFrames : List (List UInt8) → FrameStream → Option FrameStream
  | [], s => some s
  | frame :: frames, s => (emitFrame frame s).bind (emitFrames frames)

/-- What has been enqueued into a request that waits comes with a call of `pull`: of this many frames
at most one goes into a request, and no call is outstanding then. -/
def EmitsPromptly (frames : ℕ) (s : FrameStream) : Prop :=
  min s.pendingReads frames = 0 ∨
    (min s.pendingReads frames = 1 ∧ s.started = true ∧ s.pulling = false)

instance (frames : ℕ) (s : FrameStream) : Decidable (EmitsPromptly frames s) := by
  unfold EmitsPromptly
  infer_instance

/-! ## The turn -/

/-- The translation, and the stream it writes to. -/
structure LiveTurn where
  translation : Translation := {}
  stream : FrameStream
  /-- What the rest of the code holds under `live_transient`. -/
  input : ℕ := 0

inductive LiveEvent where
  /-- The read loop goes on, or a ping is due. -/
  | translate (e : TranslationEvent)
  /-- The rest of the code charges bytes, or gives them back. -/
  | hold (kind : TranslatorBufferKind) (bytes : ℕ)
  | giveBack (kind : TranslatorBufferKind) (bytes : ℕ)
  /-- The client asks for a frame. -/
  | read
  | start
  | settle
  /-- `controller.close()` -/
  | close

/-- The budget refuses nothing, and the code sees the room there is in the queue. -/
def TranslationEvent.fits (room : Bool) : TranslationEvent → Bool
  | .chunk grants _ | .done grants | .readError grants _ => grants.isNone
  | .scan grants seen | .ping grants seen => grants.isNone && seen == room
  | .readOverflow | .cancelled => false

variable (E : MessagesEnv)

/-- The frames that a step of the translation writes. -/
def framesWritten (t t' : Translation) : List (List UInt8) :=
  (t'.stream.written.drop t.stream.written.length).map fun e ↦ Utf8.bytesOf e.frame

/-- How many frames an event writes. -/
def framesOfEvent (s : LiveTurn) : LiveEvent → ℕ
  | .translate e =>
    ((translationStep E s.translation e).map fun t ↦ (framesWritten s.translation t).length).getD 0
  | _ => 0

def liveStep (s : LiveTurn) : LiveEvent → Option LiveTurn
  | .translate e =>
    if e.fits s.stream.hasRoom = true then
      (translationStep E s.translation e).bind fun t ↦
        (emitFrames (framesWritten s.translation t) s.stream).map fun stream ↦
          { s with translation := t, stream := stream }
    else none
  | .hold kind bytes =>
    let source := s.stream.source
    match source.budget.reserveTransient source.aggregates (some bytes) ⟨kind, none⟩ with
    | (.error _, _) => none
    | (.ok reservation, books) =>
      some { s with
        stream := { s.stream with
          source := source.onBudget (books.1.commitRetained books.2 reservation).2 }
        input := s.input + if kind = .liveTransient then bytes else 0 }
  | .giveBack kind bytes =>
    let source := s.stream.source
    if kind = .liveTransient ∧ s.input < bytes then none
    else
      some { s with
        stream := { s.stream with
          source := source.onBudget
            (source.budget.releaseRetained source.aggregates (some bytes) ⟨kind, none⟩) }
        input := s.input - if kind = .liveTransient then bytes else 0 }
  | .read => some { s with stream := s.stream.read LiveFrames.releaseDeliveredFrame }
  | .start => (s.stream.start LiveFrames.releaseDeliveredFrame).map fun stream ↦ { s with stream := stream }
  | .settle => (s.stream.settle LiveFrames.releaseDeliveredFrame).map fun stream ↦ { s with stream := stream }
  | .close =>
    if s.translation.phase = .over then s.stream.close.map fun stream ↦ { s with stream := stream }
    else none

/-- A turn over a fresh budget. -/
def liveTurn : Machine LiveTurn LiveEvent where
  init s := ∃ options agg, s = ⟨{}, ⟨[], [], 0, false, false, false, .readable,
    ⟨Budget.create options, agg, []⟩⟩, 0⟩
  step := liveStep E

/-! ## One step -/

/-- What a run keeps. -/
structure Trailing (s : LiveTurn) : Prop where
  trails : s.stream.Trails LiveFrames.queuedLiveFrameBytes List.length
  entered : s.stream.source.Entered s.input

variable {s s' : FrameStream} {frame : List UInt8}

theorem emitFrame_cases {others : ℕ} (h : s.source.Entered others)
    (he : emitFrame frame s = some s') :
    ∃ books t, (s.source.onBudget books).Entered (others + frame.length) ∧
      PullStream.enqueue LiveFrames.releaseDeliveredFrame frame
        { s with source := s.source.onBudget books } = some t ∧
      s' = { t with
        source := t.source.commitFrame ⟨liveScope, frame.length, .reserved⟩ frame.length } := by
  rw [emitFrame] at he
  split at he
  · nomatch he
  · rename_i r books hr
    obtain ⟨t, ht, hs'⟩ := map_eq_some_iff.mp he
    obtain ⟨rfl, hentered⟩ := h.reserve hr
    exact ⟨books, t, hentered, ht, hs'.symm⟩

theorem emitFrame_entered {others : ℕ} (h : s.source.Entered others)
    (he : emitFrame frame s = some s') : s'.source.Entered others := by
  obtain ⟨books, t, hreserved, ht, rfl⟩ := emitFrame_cases h he
  exact (PullStream.enqueue_keeps LiveFrames.Entered.releaseDeliveredFrame hreserved ht).commitFrame

theorem emitFrame_trails {others : ℕ} (h : s.Trails LiveFrames.queuedLiveFrameBytes List.length)
    (hentered : s.source.Entered others)
    (hprompt : s.pendingReads = 0 ∨ (s.started = true ∧ s.pulling = false))
    (he : emitFrame frame s = some s') :
    s'.Trails LiveFrames.queuedLiveFrameBytes List.length ∧ s'.pendingReads = s.pendingReads - 1 := by
  obtain ⟨books, t, -, ht, rfl⟩ := emitFrame_cases hentered he
  have hreserved : PullStream.Trails LiveFrames.queuedLiveFrameBytes List.length
    { s with source := s.source.onBudget books } := ⟨h.served, h.behind⟩
  refine ⟨hreserved.enqueue LiveFrames.releaseDeliveredFrame_queuedLiveFrameBytes (fun _ ↦ rfl)
    hprompt ht, ?_⟩
  rw [PullStream.enqueue] at ht
  split_ifs at ht
  obtain rfl := some_inj.mp ht
  simp only [PullStream.callPullIfNeeded_pendingReads, PullStream.put]
  split_ifs
  · rfl
  · simp only
    omega

theorem emitFrames_trails {frames : List (List UInt8)} {others : ℕ}
    (h : s.Trails LiveFrames.queuedLiveFrameBytes List.length) (hentered : s.source.Entered others)
    (hprompt : EmitsPromptly frames.length s) (he : emitFrames frames s = some s') :
    s'.Trails LiveFrames.queuedLiveFrameBytes List.length ∧ s'.source.Entered others := by
  induction frames generalizing s with
  | nil => exact some_inj.mp he ▸ ⟨h, hentered⟩
  | cons frame frames ih =>
    obtain ⟨t, ht, he⟩ := bind_eq_some_iff.mp he
    rw [EmitsPromptly, length_cons] at hprompt
    obtain ⟨htrails, hreads⟩ := emitFrame_trails h hentered (hprompt.imp (by omega) And.right) ht
    -- after the first frame no request waits, or no frame is left
    refine ih htrails (emitFrame_entered hentered ht) (.inl ?_) he
    omega

/-- Each frame that reaches the client now comes with a call of `pull`. -/
def Prompt (s : LiveTurn) : LiveEvent → Prop
  | .read => s.stream.ReadsPromptly
  | e => EmitsPromptly (framesOfEvent E s e) s.stream

instance (s : LiveTurn) (e : LiveEvent) : Decidable (Prompt E s e) := by
  unfold Prompt
  split <;> infer_instance

theorem trailing_step {s s' : LiveTurn} {e : LiveEvent} (h : Trailing s) (hc : Prompt E s e)
    (hs : liveStep E s e = some s') : Trailing s' := by
  have hpull := LiveFrames.releaseDeliveredFrame_queuedLiveFrameBytes
  have hkeeps : ∀ x : LiveFrames, x.Entered s.input → x.releaseDeliveredFrame.Entered s.input :=
    LiveFrames.Entered.releaseDeliveredFrame
  cases e with
  | translate e =>
    rw [liveStep] at hs
    split_ifs at hs
    obtain ⟨t, ht, hs⟩ := bind_eq_some_iff.mp hs
    obtain ⟨stream, hstream, rfl⟩ := map_eq_some_iff.mp hs
    replace hc : EmitsPromptly (framesOfEvent E s (.translate e)) s.stream := hc
    rw [framesOfEvent, ht, map_some, getD_some] at hc
    obtain ⟨htrails, hentered⟩ := emitFrames_trails h.trails h.entered hc hstream
    exact ⟨htrails, hentered⟩
  | hold kind bytes =>
    rw [liveStep] at hs
    simp only at hs
    split at hs
    · nomatch hs
    · rename_i r books hr
      obtain rfl := some_inj.mp hs
      obtain ⟨rfl, hentered⟩ := h.entered.reserve hr
      refine ⟨⟨h.trails.served, h.trails.behind⟩, ?_⟩
      rw [@Budget.commitRetained_plain books.1 _ _ _ hentered.live]
      exact hentered
  | giveBack kind bytes =>
    rw [liveStep] at hs
    simp only at hs
    by_cases hmore : kind = .liveTransient ∧ s.input < bytes
    · rw [if_pos hmore] at hs
      nomatch hs
    rw [if_neg hmore] at hs
    obtain rfl := some_inj.mp hs
    exact ⟨⟨h.trails.served, h.trails.behind⟩,
      h.entered.giveBack fun hkind ↦ not_lt.mp fun hlt ↦ hmore ⟨hkind, hlt⟩⟩
  | read =>
    obtain rfl := some_inj.mp hs
    exact ⟨h.trails.read hpull hc, PullStream.read_keeps hkeeps h.entered⟩
  | start =>
    obtain ⟨stream, hstream, rfl⟩ := map_eq_some_iff.mp hs
    exact ⟨h.trails.start hpull hstream, PullStream.start_keeps hkeeps h.entered hstream⟩
  | settle =>
    obtain ⟨stream, hstream, rfl⟩ := map_eq_some_iff.mp hs
    exact ⟨h.trails.settle hpull hstream, PullStream.settle_keeps hkeeps h.entered hstream⟩
  | close =>
    rw [liveStep] at hs
    split_ifs at hs
    obtain ⟨stream, hstream, rfl⟩ := map_eq_some_iff.mp hs
    refine ⟨h.trails.close hstream, ?_⟩
    simp only [PullStream.close_source hstream]
    exact h.entered

theorem trailing_inductive : (liveTurn E).Inductive (Prompt E) Trailing where
  init s hs := by
    obtain ⟨options, agg, rfl⟩ := hs
    exact ⟨⟨fun _ ↦ rfl, [], by simp, nil_suffix, rfl⟩, rfl, rfl, rfl⟩
  step _ _ _ h hc hs := trailing_step E h hc hs

/-! ## Runs -/

def sizes (frames : List (List UInt8)) : ℕ := (frames.map List.length).sum

/-- What the turn is charged under other kinds, and to calls. -/
def otherBytes (b : Budget) : ℕ := b.hardChargedBytes - b.chargedFor .liveTransient

/-- What is charged is what the rest of the code holds, the frames that wait, and one more frame at
most; and no frame is refused before these, with all that is charged otherwise, fill the turn. -/
structure Tracks (s : LiveTurn) (last : List (List UInt8)) : Prop where
  one : last.length ≤ 1
  read : last <:+ s.stream.received
  charged : s.stream.source.budget.chargedFor .liveTransient =
    s.input + sizes last + sizes s.stream.queue
  admitted : ∀ frame, s.stream.phase = .readable → emitFrame frame s.stream = none →
    s.stream.source.budget.maxTurnBytes < otherBytes s.stream.source.budget + s.input + sizes last +
      sizes s.stream.queue + frame.length

theorem emitFrame_refused {others : ℕ} (h : s.source.Entered others) (hphase : s.phase = .readable)
    (he : emitFrame frame s = none) :
    s.source.budget.maxTurnBytes < s.source.budget.hardChargedBytes + frame.length := by
  by_contra hfits
  rw [emitFrame, liveScope, Budget.reserveTransient_plain h.live, if_neg (by
    simpa [Budget.overTurn] using hfits)] at he
  simp [PullStream.enqueue, hphase] at he

/-- **As long as every frame reaches the client with a call of `pull`, what is charged are the frames
that wait and at most the one that was read last.** -/
theorem live_charge_tracks {s : LiveTurn} (h : (liveTurn E).ReachableIf (Prompt E) s) :
    ∃ last, Tracks s last := by
  obtain ⟨htrails, hentered⟩ := (trailing_inductive E).reachable h
  obtain ⟨last, hone, hlast, howed⟩ := htrails.behind
  have hcharged : s.stream.source.budget.chargedFor .liveTransient =
      s.input + sizes last + sizes s.stream.queue := by
    rw [hentered.charged, howed, sum_append, sizes, sizes, Nat.add_assoc]
  refine ⟨last, hone, hlast, hcharged, fun frame hphase hrefused ↦ ?_⟩
  have hover := emitFrame_refused hentered hphase hrefused
  have hle := s.stream.source.budget.chargedFor_le .liveTransient
  have hheld := hentered.held
  rw [otherBytes]
  omega

def freshTurn : LiveTurn :=
  ⟨{}, ⟨[], [], 0, false, false, false, .readable,
    ⟨Budget.create ⟨none, none⟩, ⟨0, 0, 0, 0⟩, []⟩⟩, 0⟩

/-- A ping that is read at once, while the read loop holds a chunk. -/
theorem live_charge_tracks_ping : ∃ last, Tracks ((liveTurn plainEnv).play freshTurn
    [.start, .settle, .hold .liveTransient 90, .translate (.ping none true), .read, .settle,
      .giveBack .liveTransient 90]) last :=
  live_charge_tracks plainEnv
    ⟨freshTurn, ⟨⟨none, none⟩, ⟨0, 0, 0, 0⟩, rfl⟩, Machine.run_play (by decide +kernel)⟩

/-- One text delta at the start of a message, and four reads of the client. -/
def burst : List LiveEvent :=
  [.start, .settle, .translate (.chunk none shortBody), .translate (.scan none true), .read, .read,
    .read, .read]

theorem sizes_le {last : List (List UInt8)} {read : List ℕ} {n : ℕ} (hone : last.length ≤ 1)
    (hread : last.map List.length <:+ read) (hn : ∀ m ∈ read, m ≤ n) : sizes last ≤ n := by
  match last, hone with
  | [], _ => exact Nat.zero_le n
  | [frame], _ => exact hn _ (hread.subset (mem_singleton_self frame.length))

/-- The first text delta is four frames.  When the client has read them all, three are charged. -/
theorem burst_stays_charged :
    ¬ ∀ (E : MessagesEnv) (s : LiveTurn), (liveTurn E).Reachable s → ∃ last, Tracks s last := by
  intro h
  obtain ⟨last, hone, hread, hcharged, -⟩ := h plainEnv ((liveTurn plainEnv).play freshTurn burst)
    ⟨freshTurn, ⟨⟨none, none⟩, ⟨0, 0, 0, 0⟩, rfl⟩, Machine.run_play (by decide +kernel)⟩
  have hbytes : ((liveTurn plainEnv).play freshTurn burst).stream.source.budget.chargedFor
      .liveTransient = 268 := by decide +kernel
  have hrest : ((liveTurn plainEnv).play freshTurn burst).input = 0 ∧
      sizes ((liveTurn plainEnv).play freshTurn burst).stream.queue = 0 := by decide +kernel
  have hsizes : ((liveTurn plainEnv).play freshTurn burst).stream.received.map List.length =
      [224, 35, 117, 116] := by decide +kernel
  -- one frame is not that large
  have hlast := hread.map List.length
  rw [hsizes] at hlast
  have hle : sizes last ≤ 224 := sizes_le hone hlast (by decide)
  omega

end Messages
