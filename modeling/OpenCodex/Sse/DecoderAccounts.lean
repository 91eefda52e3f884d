import OpenCodex.Sse.DecoderRuns
import Mathlib.Tactic.Ring

/-!
# What the decoder owes its budget

The decoder charges its budget for every text it holds, and hands bytes on from one owner to the
next: from the chunk to the line, from the line to a field, from the fields to an event, from the
event to the record it yields.  At each hand-over the budget may refuse, and at each record the
consumer may return.

`audited` is any budget together with a log of the decoder's calls.  While the decoder runs, what it
has retained and not given back is what its line, its data and its event hold, and what the code
around the present call will give back (`Settles`).  However it is left, that comes to nothing
(`decode_settles`): all bytes are given back, never more than were retained, and no reservation is
left open.
-/

set_option autoImplicit false

open List Act

namespace Sse

/-! ## The log of a budget -/

/-- A call on the budget that did not throw. -/
inductive Dealing where
  | reserved (bytes : ℕ)
  | committed (bytes : ℕ)
  | charged (bytes : ℕ)
  | released (bytes : ℕ)
  deriving DecidableEq, Repr

namespace Dealing

/-- Bytes that the call makes retained. -/
def gain : Dealing → ℕ
  | committed n | charged n => n
  | reserved _ | released _ => 0

def loss : Dealing → ℕ
  | released n => n
  | reserved _ | committed _ | charged _ => 0

def reservation : Dealing → Option ℕ
  | reserved n => some n
  | committed _ | charged _ | released _ => none

def commitment : Dealing → Option ℕ
  | committed n => some n
  | reserved _ | charged _ | released _ => none

end Dealing

/-- The bytes retained, in a log of calls. -/
def retainedIn (log : List Dealing) : ℕ := (log.map Dealing.gain).sum

/-- The bytes given back. -/
def releasedIn (log : List Dealing) : ℕ := (log.map Dealing.loss).sum

/-- At no moment was more given back than had been retained. -/
def NeverOver (log : List Dealing) : Prop := ∀ l, l <+: log → releasedIn l ≤ retainedIn l

/-- Every reservation was committed, in its turn. -/
def AllCommitted (log : List Dealing) : Prop :=
  log.filterMap Dealing.reservation = log.filterMap Dealing.commitment

/-- So many bytes are owed, and nothing is wrong with the log. -/
structure Audit (log : List Dealing) (owed : ℕ) : Prop where
  even : retainedIn log = releasedIn log + owed
  neverOver : NeverOver log
  allCommitted : AllCommitted log

section Audit

variable {log : List Dealing} {owed : ℕ}

theorem retainedIn_append (log log' : List Dealing) :
    retainedIn (log ++ log') = retainedIn log + retainedIn log' := by
  rw [retainedIn, map_append, sum_append, retainedIn, retainedIn]

theorem releasedIn_append (log log' : List Dealing) :
    releasedIn (log ++ log') = releasedIn log + releasedIn log' := by
  rw [releasedIn, map_append, sum_append, releasedIn, releasedIn]

theorem Audit.start : Audit [] 0 where
  even := rfl
  neverOver := by
    intro l hl
    rw [prefix_nil.mp hl]
    exact le_rfl
  allCommitted := rfl

/-- A log that goes on with one call is not wrong if it was not, and the call gives back no more
than is owed. -/
theorem NeverOver.snoc (h : NeverOver log) {d : Dealing}
    (hd : releasedIn log + d.loss ≤ retainedIn log + d.gain) : NeverOver (log ++ [d]) := by
  intro l hl
  rcases prefix_concat_iff.mp hl with rfl | hl
  · rw [retainedIn_append, releasedIn_append]
    simpa [retainedIn, releasedIn] using hd
  · exact h l hl

theorem Audit.snoc (h : Audit log owed) {d : Dealing} {owed' : ℕ}
    (howed : owed + d.gain = owed' + d.loss) (hd : d.reservation = d.commitment) :
    Audit (log ++ [d]) owed' where
  even := by
    rw [retainedIn_append, releasedIn_append, h.even]
    simp only [retainedIn, releasedIn, map_singleton, sum_singleton]
    omega
  neverOver := by
    refine h.neverOver.snoc ?_
    have := h.even
    omega
  allCommitted := by
    have := h.allCommitted
    rw [AllCommitted] at this ⊢
    rw [filterMap_append, filterMap_append, this, filterMap_cons, filterMap_cons, hd]
    rfl

theorem Audit.charge (h : Audit log owed) (n : ℕ) : Audit (log ++ [.charged n]) (owed + n) :=
  h.snoc rfl rfl

theorem Audit.reserve (h : Audit log owed) (n : ℕ) :
    Audit (log ++ [.reserved n] ++ [.committed n]) (owed + n) where
  even := by
    rw [retainedIn_append, releasedIn_append, retainedIn_append, releasedIn_append, h.even]
    simp [retainedIn, releasedIn, Dealing.gain, Dealing.loss]
    omega
  neverOver := by
    have hle := h.neverOver log (prefix_refl log)
    refine (h.neverOver.snoc ?_).snoc ?_
    · simpa only [Dealing.gain, Dealing.loss, Nat.add_zero] using hle
    · rw [retainedIn_append, releasedIn_append]
      simp only [retainedIn, releasedIn, Dealing.gain, Dealing.loss, map_singleton,
        sum_singleton] at hle ⊢
      omega
  allCommitted := by
    have := h.allCommitted
    simpa [AllCommitted, filterMap_cons, Dealing.reservation, Dealing.commitment] using this

theorem Audit.release {n : ℕ} (h : Audit log (owed + n)) : Audit (log ++ [.released n]) owed :=
  h.snoc rfl rfl

end Audit

/-- Any budget, with a log of the calls on it. -/
def TranslatorBudget.audited {β : Type} (B : TranslatorBudget β) :
    TranslatorBudget (β × List Dealing) where
  reserveTransient b n := (B.reserveTransient b.1 n).map fun b' ↦ (b', b.2 ++ [.reserved n])
  commitRetained b n := (B.commitRetained b.1 n, b.2 ++ [.committed n])
  chargeRetained b n := (B.chargeRetained b.1 n).map fun b' ↦ (b', b.2 ++ [.charged n])
  releaseRetained b n := (B.releaseRetained b.1 n, b.2 ++ [.released n])

/-- What the consumer does with the budget is not in the log. -/
def Consumer.audited {β : Type} (consumer : Consumer β) : Consumer (β × List Dealing) where
  between r b := (consumer.between r b.1, b.2)
  returns := consumer.returns

namespace SseDecoder

variable {β δ : Type} {B : TranslatorBudget β} {consumer : Consumer β} {D : TextDecoder δ}
  {includeComments : Bool}

/-! ## What the decoder holds -/

/-- What the decoder itself holds: a line, data and an event; and whether the line that is being
accepted is still owned. -/
structure Held where
  line : ℕ
  data : ℕ
  event : ℕ
  owned : Bool

def Held.sum (h : Held) : ℕ := h.line + h.data + h.event

def heldBy (s : SseDecoder β) : Held :=
  ⟨s.lineRetainedBytes, s.dataLinesBytes, s.eventBytes, s.lineOwned⟩

/-- The decoder holds this, and owes so much. -/
def Owing (h : Held) (owed : ℕ) (s : SseDecoder (β × List Dealing)) : Prop :=
  heldBy s = h ∧ Audit s.translatorBudget.2 owed

section Rules

variable {α : Type} {h : Held} {owed owed' n : ℕ} {Q : α → SseDecoder (β × List Dealing) → Prop}
  {R : DecoderExit → SseDecoder (β × List Dealing) → Prop}

theorem owing_reserve (hR : ∀ s, Owing h owed s → R (.exceeded .turnBytes) s) :
    Ensures (Owing h owed) (reserve B.audited n) (fun _ ↦ Owing h (owed + n)) R := by
  intro s hs
  rw [reserve]
  simp only [TranslatorBudget.audited]
  cases B.reserveTransient s.translatorBudget.1 n with
  | none => exact hR s hs
  | some b => exact ⟨hs.1, hs.2.reserve n⟩

theorem owing_charge (hR : ∀ s, Owing h owed s → R (.exceeded .turnBytes) s) :
    Ensures (Owing h owed) (chargeRetained B.audited n) (fun _ ↦ Owing h (owed + n)) R := by
  intro s hs
  rw [chargeRetained]
  simp only [TranslatorBudget.audited]
  cases B.chargeRetained s.translatorBudget.1 n with
  | none => exact hR s hs
  | some b => exact ⟨hs.1, hs.2.charge n⟩


theorem owing_release (howed : owed = owed' + n) :
    Ensures (Owing h owed) (releaseRetained B.audited n) (fun _ ↦ Owing h owed') R := by
  subst howed
  exact .modify fun _ hs ↦ ⟨hs.1, hs.2.release⟩

theorem owing_modify (h' : Held) {g : SseDecoder (β × List Dealing) → SseDecoder (β × List Dealing)}
    (hheld : ∀ s, heldBy s = h → heldBy (g s) = h')
    (hbudget : ∀ s, (g s).translatorBudget = s.translatorBudget) :
    Ensures (Owing h owed) (modify g : Code _ PUnit) (fun _ ↦ Owing h' owed) R := by
  refine .modify fun s hs ↦ ⟨hheld s hs.1, ?_⟩
  rw [hbudget]
  exact hs.2

theorem owing_read {f : SseDecoder (β × List Dealing) → Code (β × List Dealing) α}
    (hf : ∀ s, heldBy s = h → Ensures (Owing h owed) (f s) Q R) :
    Ensures (Owing h owed) ((MonadState.get : Code _ _) >>= f) Q R :=
  Ensures.reading fun s hs ↦ hf s hs.1

theorem owing_check (hR : ∀ s, Owing h owed s → R (.exceeded .eventBytes) s) (bytes : ℕ) :
    Ensures (Owing h owed) (checkEventBytes bytes : Code _ PUnit) (fun _ ↦ Owing h owed) R := by
  rw [checkEventBytes, when]
  split
  · exact .throw hR
  · exact .pure fun _ ↦ id

theorem owing_releaseLine (howed : owed = owed' + if h.owned then n else 0) :
    Ensures (Owing h owed) (releaseLine B.audited n)
      (fun _ ↦ Owing { h with owned := false } owed') R := by
  subst howed
  rw [releaseLine]
  refine owing_read fun s hs ↦ ?_
  have hflag : s.lineOwned = h.owned := by rw [← hs]; rfl
  rw [hflag, when]
  split
  · rename_i howned
    refine .bind (owing_modify { h with owned := false } ?_ fun _ ↦ rfl) fun _ ↦ owing_release rfl
    intro s' hs'
    rw [← hs']
    rfl
  · rename_i howned
    refine .pure fun s' hs' ↦ ?_
    rw [Nat.add_zero] at hs'
    have hsame : { h with owned := false } = h := by rw [← eq_false_of_ne_true howned]
    rw [hsame]
    exact hs'

end Rules

/-! ## What each piece leaves -/

/-- The decoder owes what it holds, and `k` bytes that the code around it will give back; no line is
being accepted. -/
def Settled (k : ℕ) (s : SseDecoder (β × List Dealing)) : Prop :=
  ∃ h, h.owned = false ∧ Owing h (h.sum + k) s

/-- Code that settles what it takes: it leaves what it owes for its value, or throws in one of some
ways and leaves nothing. -/
def Settles {α : Type} (ok : DecoderExit → Prop) (k : ℕ) (x : Code (β × List Dealing) α)
    (f : α → ℕ) : Prop :=
  Ensures (Settled k) x (fun a ↦ Settled (k + f a)) fun e s ↦ Settled k s ∧ ok e

section Pieces

variable {α : Type} {ok : DecoderExit → Prop} {k : ℕ}

variable {s : SseDecoder (β × List Dealing)}

variable {h : Held} {owed : ℕ}

theorem Settled.of_owing (hs : Owing h owed s) (hfree : h.owned = false) (howed : owed = h.sum + k) :
    Settled k s :=
  ⟨h, hfree, howed ▸ hs⟩

variable {x : Code (β × List Dealing) α}

variable {f : α → ℕ}

theorem Settles.of_held (h : ∀ h : Held, h.owned = false → Ensures (Owing h (h.sum + k)) x
      (fun a ↦ Settled (k + f a)) fun e s ↦ Settled k s ∧ ok e) : Settles ok k x f :=
  fun s ⟨held, hfree, hs⟩ ↦ h held hfree s hs

theorem Settles.bind {α' : Type} {g : α → Code (β × List Dealing) α'} {f : α' → ℕ}
    (hx : Settles ok k x fun _ ↦ 0) (hg : ∀ a, Settles ok k (g a) f) : Settles ok k (x >>= g) f :=
  Ensures.bind hx fun a ↦ hg a

theorem Settles.pure {a : α} (h : f a = 0) :
    Settles ok k (pure a : Code (β × List Dealing) α) f := by
  refine Ensures.pure fun s hs ↦ ?_
  rw [h]
  exact hs

variable (hok : ∀ e, ok (.exceeded e))

include hok in
theorem Settled.refused (hfree : h.owned = false) (howed : owed = h.sum + k)
    (e : TranslatorBudgetExceededError) (s : SseDecoder (β × List Dealing)) (hs : Owing h owed s) :
    Settled k s ∧ ok (.exceeded e) :=
  ⟨.of_owing hs hfree howed, hok e⟩

include hok in
theorem appendLine_settles (sourceValue : JsString) (start stop : ℕ) :
    Settles ok k (appendLine B.audited sourceValue start stop) fun _ ↦ 0 := by
  rw [appendLine, when]
  split
  · refine .of_held fun h hfree ↦ owing_read fun s hs ↦ ?_
    have hline : s.lineRetainedBytes = h.line := by rw [← hs]; rfl
    refine .bind (Q := fun _ ↦ Owing h (h.sum + k)) ?_ fun _ ↦ ?_
    · rw [when]
      split
      · exact owing_check (Settled.refused hok hfree rfl .eventBytes) _
      · exact .pure fun _ ↦ id
    refine Ensures.bind (owing_reserve (Settled.refused hok hfree rfl .turnBytes)) fun _ ↦ ?_
    refine .bind (owing_modify h (fun _ ↦ id) fun _ ↦ rfl) fun _ ↦ ?_
    generalize s.lineRawBytes + utf8SliceBytes sourceValue start stop = bytes
    have howed : h.sum + k + bytes = h.data + h.event + k + bytes + s.lineRetainedBytes := by
      rw [Held.sum, hline]
      omega
    refine .bind (owing_release howed) fun _ ↦ ?_
    refine .modify fun s' hs' ↦
      Settled.of_owing (h := { h with line := bytes }) ⟨?_, hs'.2⟩ hfree ?_
    · rw [← hs'.1]
      rfl
    · simp only [Held.sum]
      omega
  · exact .pure rfl

/-- The bytes of a record that is about to be yielded. -/
def bytesOf (accepted : Option AcceptedRecord) : ℕ := (accepted.map AcceptedRecord.bytes).getD 0

include hok in
theorem dispatch_settles : Settles ok k (dispatch B.audited) bytesOf := by
  refine .of_held fun h hfree ↦ owing_read fun s hs ↦ ?_
  have hdata : s.dataLinesBytes = h.data := by rw [← hs]; rfl
  have hevent : s.eventBytes = h.event := by rw [← hs]; rfl
  split
  · have howed : h.sum + k = h.line + h.data + k + s.eventBytes := by
      rw [Held.sum, hevent]
      omega
    refine .bind (owing_release howed) fun _ ↦ ?_
    refine .bind (owing_modify { h with event := 0 } ?_ fun _ ↦ rfl) fun _ ↦ ?_
    · intro s' hs'
      rw [← hs']
      rfl
    · refine .pure fun s' hs' ↦ .of_owing hs' hfree ?_
      simp [Held.sum, bytesOf]
  · refine Ensures.bind (owing_check (Settled.refused hok hfree rfl .eventBytes) _) fun _ ↦ ?_
    have hone : s.dataLines.length = 1 ∨ s.dataLines.length ≠ 1 := em _
    generalize hpayload : s.dataLinesBytes + (s.dataLines.length - 1) = payload
    refine .bind (Q := fun _ ↦ Owing h (h.line + h.event + k + payload)) ?_ fun _ ↦ ?_
    · rw [when]
      split
      · refine Ensures.bind (owing_reserve (Settled.refused hok hfree rfl .turnBytes)) fun _ ↦ ?_
        refine owing_release ?_
        rw [Held.sum, hdata]
        omega
      · rename_i hlength
        have heq : h.sum + k = h.line + h.event + k + payload := by
          rw [Held.sum, ← hpayload, hdata]
          omega
        rw [heq]
        exact .pure fun _ ↦ id
    · refine .bind (owing_modify { h with data := 0, event := 0 } ?_ fun _ ↦ rfl) fun _ ↦ ?_
      · intro s' hs'
        rw [← hs']
        rfl
      · refine .pure fun s' hs' ↦ .of_owing hs' hfree ?_
        simp only [Held.sum, bytesOf, Option.map_some, Option.getD_some, hevent]
        omega

/-- While a line is being accepted its bytes are owed until they are given back. -/
def SettledLine (n k : ℕ) (s : SseDecoder (β × List Dealing)) : Prop :=
  ∃ h, Owing h (h.sum + k + if h.owned then n else 0) s

variable {n : ℕ}

theorem SettledLine.of_owing (hs : Owing h owed s)
    (howed : owed = h.sum + k + if h.owned then n else 0) : SettledLine n k s :=
  ⟨h, howed ▸ hs⟩

include hok in
theorem SettledLine.refused (howed : owed = h.sum + k + if h.owned then n else 0)
    (e : TranslatorBudgetExceededError) (s : SseDecoder (β × List Dealing)) (hs : Owing h owed s) :
    SettledLine n k s ∧ ok (.exceeded e) :=
  ⟨.of_owing hs howed, hok e⟩

variable {R : DecoderExit → SseDecoder (β × List Dealing) → Prop}

theorem releaseLine_settles (howed : owed = h.sum + k + if h.owned then n else 0) :
    Ensures (Owing h owed) (releaseLine B.audited n) (fun _ ↦ Settled k) R :=
  (owing_releaseLine howed).mono (fun _ ↦ id) (fun _ _ hs ↦ .of_owing hs rfl rfl) fun _ _ ↦ id

theorem Settled.line (hs : Settled k s) : SettledLine n k s := by
  obtain ⟨h, hfree, hs⟩ := hs
  refine .of_owing hs ?_
  rw [hfree]
  rfl

variable {m : ℕ}

theorem releaseRetained_settles :
    Ensures (Settled (k + m)) (releaseRetained B.audited m) (fun _ ↦ Settled k) R := by
  rintro s ⟨h, hfree, hs⟩
  have hrelease := owing_release (B := B) (R := R) (h := h) (n := m)
    (Nat.add_assoc h.sum k m).symm s hs
  exact ⟨h, hfree, hrelease⟩

theorem releaseRetained_settlesLine : Ensures (SettledLine n (k + m)) (releaseRetained B.audited m)
      (fun _ ↦ SettledLine n k) R := by
  rintro s ⟨h, hs⟩
  have howed : (h.sum + (k + m) + if h.owned then n else 0) =
      (h.sum + k + if h.owned then n else 0) + m := by omega
  exact ⟨h, owing_release (B := B) (R := R) (h := h) howed s hs⟩

variable {P : SseDecoder (β × List Dealing) → Prop}

theorem ensuring_release
    (hx : Ensures P x (fun _ ↦ Settled (k + m)) fun e s ↦ Settled (k + m) s ∧ ok e) :
    Ensures P (ensuring x (releaseRetained B.audited m)) (fun _ ↦ Settled k)
      fun e s ↦ Settled k s ∧ ok e := by
  refine .ensuring hx (fun _ ↦ releaseRetained_settles) fun e s hs ↦ ?_
  exact releaseRetained_settles.mono (fun _ ↦ id) (fun _ _ hs' ↦ ⟨hs', hs.2⟩) (fun _ _ ↦ id) s hs.1

theorem ensuring_release_line
    (hx : Ensures P x (fun _ ↦ Settled (k + m)) fun e s ↦ SettledLine n (k + m) s ∧ ok e) :
    Ensures P (ensuring x (releaseRetained B.audited m)) (fun _ ↦ Settled k)
      fun e s ↦ SettledLine n k s ∧ ok e := by
  refine .ensuring hx (fun _ ↦ releaseRetained_settles) fun e s hs ↦ ?_
  exact releaseRetained_settlesLine.mono (fun _ ↦ id) (fun _ _ hs' ↦ ⟨hs', hs.2⟩)
    (fun _ _ ↦ id) s hs.1

include hok in
theorem acceptField_settles (line : JsString) (n : ℕ) :
    Ensures (SettledLine n k) (acceptField B.audited line n) (fun _ ↦ Settled k)
      fun e s ↦ SettledLine n k s ∧ ok e := by
  rintro s ⟨h, hs⟩
  revert s
  change Ensures (Owing h (h.sum + k + if h.owned then n else 0)) _ _ _
  rw [acceptField]
  generalize utf8SliceBytes line 0 ((line.findIdx? (· = 58)).getD line.length) = fieldBytes
  refine Ensures.bind (owing_reserve (SettledLine.refused hok rfl .turnBytes)) fun _ ↦ ?_
  refine ensuring_release_line (.ite (fun _ ↦ ?_) fun _ ↦ Ensures.ite (fun _ ↦ ?_) fun _ ↦ ?_)
  · refine Ensures.bind (owing_reserve (SettledLine.refused hok (by omega) .turnBytes)) fun _ ↦ ?_
    refine owing_read fun s hs ↦ ?_
    have hevent : s.eventBytes = h.event := by rw [← hs]; rfl
    generalize utf8SliceBytes line _ line.length = valueBytes
    have howed : h.sum + k + (if h.owned then n else 0) + fieldBytes + valueBytes =
        h.line + h.data + k + (if h.owned then n else 0) + fieldBytes + valueBytes +
          s.eventBytes := by
      rw [Held.sum, hevent]
      omega
    refine .bind (owing_release howed) fun _ ↦ ?_
    refine .bind (owing_modify { h with event := valueBytes } ?_ fun _ ↦ rfl) fun _ ↦ ?_
    · intro s' hs'
      rw [← hs']
      rfl
    · refine releaseLine_settles ?_
      simp only [Held.sum]
      omega
  · refine owing_read fun s _ ↦ ?_
    generalize utf8SliceBytes line _ line.length = valueBytes
    refine Ensures.bind (owing_check (SettledLine.refused hok (by omega) .eventBytes) _) fun _ ↦ ?_
    refine Ensures.bind (owing_charge (SettledLine.refused hok (by omega) .turnBytes)) fun _ ↦ ?_
    refine .bind (owing_modify { h with data := h.data + valueBytes } ?_ fun _ ↦ rfl) fun _ ↦ ?_
    · intro s' hs'
      rw [← hs']
      rfl
    · refine releaseLine_settles ?_
      simp only [Held.sum]
      omega
  · exact releaseLine_settles (by omega)

include hok in
theorem acceptOwned_settles (line : JsString) (n : ℕ) :
    Ensures (SettledLine n k) (acceptOwned B.audited includeComments line n)
      (fun accepted ↦ Settled (k + bytesOf accepted)) fun e s ↦ SettledLine n k s ∧ ok e := by
  have hrelease (R : DecoderExit → SseDecoder (β × List Dealing) → Prop) :
      Ensures (SettledLine n k) (releaseLine B.audited n) (fun _ ↦ Settled k) R := by
    rintro s ⟨h, hs⟩
    exact releaseLine_settles rfl s hs
  refine .ite (fun _ ↦ ?_) fun _ ↦ .ite (fun _ ↦ .ite (fun _ ↦ ?_) fun _ ↦ ?_) fun _ ↦ ?_
  · refine .bind (hrelease _) fun _ ↦ ?_
    exact (dispatch_settles hok).mono (fun _ ↦ id) (fun _ _ ↦ id) fun _ _ hs ↦ ⟨hs.1.line, hs.2⟩
  · exact .bind (hrelease _) fun _ ↦ .pure fun _ ↦ id
  · rintro s ⟨h, hs⟩
    revert s
    change Ensures (Owing h (h.sum + k + if h.owned then n else 0)) _ _ _
    refine Ensures.bind (owing_charge (SettledLine.refused hok rfl .turnBytes)) fun _ ↦ ?_
    generalize utf8SliceBytes line _ line.length = commentBytes
    refine .bind (releaseLine_settles (k := k + commentBytes) (by omega)) fun _ ↦ ?_
    exact .pure fun _ ↦ id
  · exact .bind (acceptField_settles hok line n) fun _ ↦ .pure fun _ ↦ id

include hok in
theorem acceptLine_settles : Settles ok k (acceptLine B.audited includeComments) bytesOf := by
  refine .of_held fun h hfree ↦ owing_read fun s hs ↦ ?_
  have hline : s.lineRetainedBytes = h.line := by rw [← hs]; rfl
  refine .bind (owing_modify { h with line := 0, owned := true } ?_ fun _ ↦ rfl) fun _ ↦ ?_
  · intro s' hs'
    rw [← hs']
    rfl
  have haccept : Ensures (Owing { h with line := 0, owned := true } (h.sum + k))
      (acceptOwned B.audited includeComments s.lineBuffer s.lineRetainedBytes)
      (fun accepted ↦ Settled (k + bytesOf accepted))
      fun e s' ↦ SettledLine s.lineRetainedBytes k s' ∧ ok e := by
    refine (acceptOwned_settles hok _ _).mono (fun s' hs' ↦ .of_owing hs' ?_)
      (fun _ _ ↦ id) fun _ _ ↦ id
    simp only [Held.sum, if_true, hline]
    omega
  refine .tryCatch haccept fun e ↦ ?_
  rintro s' ⟨⟨h', hs'⟩, he⟩
  have hthrow : Ensures (Owing h' (h'.sum + k + if h'.owned then s.lineRetainedBytes else 0))
      (releaseLine B.audited s.lineRetainedBytes >>= fun _ ↦
        (throw e : Code _ (Option AcceptedRecord)))
      (fun a ↦ Settled (k + bytesOf a)) fun e s ↦ Settled k s ∧ ok e :=
    Ensures.bind (releaseLine_settles rfl) fun _ ↦ .throw fun _ hs ↦ ⟨hs, he⟩
  exact hthrow s' hs'

variable (hreturned : ∀ l, consumer.returns l = true → ok .returned)

include hreturned in
theorem yieldAccepted_settles (accepted : Option AcceptedRecord) :
    Ensures (Settled (k + bytesOf accepted)) (yieldAccepted B.audited consumer.audited accepted)
      (fun _ ↦ Settled k) fun e s ↦ Settled k s ∧ ok e := by
  cases accepted with
  | none => exact .pure fun _ ↦ id
  | some a =>
    refine ensuring_release (m := a.bytes) ?_
    refine .bind (.modify (Q := fun _ ↦ Settled (k + a.bytes)) ?_) fun _ ↦ ?_
    · rintro s ⟨h, hfree, hs⟩
      exact ⟨h, hfree, hs.1, hs.2⟩
    · refine .read fun s hs ↦ ?_
      rw [when]
      split
      · rename_i hreturns
        exact ⟨hs, hreturned _ hreturns⟩
      · exact hs

include hreturned in
theorem accept_settles {x : Code (β × List Dealing) (Option AcceptedRecord)}
    (hx : Settles ok k x bytesOf) {f : PUnit → Code (β × List Dealing) PUnit}
    (hf : Settles ok k (f ⟨⟩) fun _ ↦ 0) :
    Settles ok k (x >>= fun accepted ↦ yieldAccepted B.audited consumer.audited accepted >>= f)
      fun _ ↦ 0 :=
  Ensures.bind hx fun accepted ↦ Ensures.bind (yieldAccepted_settles hreturned accepted) fun _ ↦ hf

theorem settles_modify {g : SseDecoder (β × List Dealing) → SseDecoder (β × List Dealing)}
    (hheld : ∀ s, heldBy (g s) = heldBy s)
    (hbudget : ∀ s, (g s).translatorBudget = s.translatorBudget) :
    Settles ok k (modify g) fun _ ↦ 0 := by
  refine .of_held fun h hfree ↦ ?_
  refine (owing_modify h (fun s hs ↦ (hheld s).trans hs) hbudget).mono (fun _ ↦ id)
    (fun _ s hs ↦ .of_owing hs hfree rfl) fun _ _ ↦ id

include hok hreturned in
theorem consumeFrom_settles (decoded : JsString) (turns offset : ℕ) (nextCr nextLf : Option ℕ) :
    Settles ok k (consumeFrom B.audited consumer.audited includeComments decoded turns offset nextCr
      nextLf) fun _ ↦ 0 := by
  induction turns generalizing offset nextCr nextLf with
  | zero => exact .pure rfl
  | succ turns ih =>
    refine Ensures.ite (fun _ ↦ Ensures.reading fun s _ ↦ ?_) fun _ ↦ Settles.pure rfl
    refine .bind (settles_modify (fun _ ↦ rfl) fun _ ↦ rfl) fun _ ↦ ?_
    refine .ite (fun _ ↦ ih _ _ _) fun _ ↦ ?_
    dsimp only
    cases firstOf (refresh 13 decoded offset nextCr) (refresh 10 decoded offset nextLf) with
    | none => exact appendLine_settles hok _ _ _
    | some newline =>
      refine .bind (appendLine_settles hok _ _ _) fun _ ↦ ?_
      refine .bind (settles_modify (fun _ ↦ rfl) fun _ ↦ rfl) fun _ ↦ ?_
      exact accept_settles hreturned (acceptLine_settles hok) (ih _ _ _)

include hok hreturned in
theorem finishBody_settles (d : δ) :
    Settles ok k (finishBody B.audited consumer.audited D includeComments d) fun _ ↦ 0 := by
  refine .bind (consumeFrom_settles hok hreturned _ _ _ _ _) fun _ ↦ .reading fun s _ ↦ ?_
  refine Settles.bind (Ensures.ite (fun _ ↦ ?_) fun _ ↦ Settles.pure rfl) fun _ ↦ ?_
  · exact .bind (acceptLine_settles hok) fun _ ↦ yieldAccepted_settles hreturned _
  · exact Ensures.bind (dispatch_settles hok) fun _ ↦ yieldAccepted_settles hreturned _

include hok hreturned in
theorem readChunks_settles {sourceEnd : SourceEnd} (hfailed : sourceEnd = .failed → ok .readFailed)
    (chunks : List Bytes) (d : δ) :
    Settles ok k (readChunks B.audited consumer.audited D includeComments sourceEnd d chunks)
      fun _ ↦ 0 := by
  induction chunks generalizing d with
  | nil =>
    cases sourceEnd with
    | done => exact finishBody_settles hok hreturned d
    | failed => exact .throw fun _ hs ↦ ⟨hs, hfailed rfl⟩
  | cons value chunks ih =>
    unfold readChunks
    refine Ensures.bind (Q := fun _ ↦ Settled (k + value.length)) ?_ fun _ ↦
      Ensures.bind (ensuring_release (consumeFrom_settles hok hreturned _ _ _ _ _)) fun _ ↦ ih _
    rintro s ⟨h, hfree, hs⟩
    refine (owing_reserve (Settled.refused hok hfree rfl .turnBytes)).mono (fun _ ↦ id)
      (fun _ s' hs' ↦ .of_owing hs' hfree (Nat.add_assoc _ _ _)) (fun _ _ ↦ id) s hs

end Pieces

/-! ## The decoder -/

theorem releaseHeld_settles {R : DecoderExit → SseDecoder (β × List Dealing) → Prop} :
    Ensures (Settled 0) (releaseHeld B.audited) (fun _ s ↦ Audit s.translatorBudget.2 0) R := by
  rintro s ⟨h, hfree, hs⟩
  have hheld : s.lineRetainedBytes + s.dataLinesBytes + s.eventBytes = h.sum := by rw [← hs.1]; rfl
  have howed : h.sum + 0 = 0 + h.sum := Nat.add_comm ..
  have hrelease := owing_release (B := B) (R := R) (h := h) howed s hs
  rw [← hheld] at hrelease
  exact hrelease.2

/-- The ways a decoder can be left, with this consumer and this end of the body. -/
def MayLeave (consumer : Consumer β) (sourceEnd : SourceEnd) : DecoderExit → Prop
  | .exceeded _ => True
  | .returned => ∃ l, consumer.returns l = true
  | .readFailed => sourceEnd = .failed

/-- **However the decoder is left, it has given back every byte it retained.** -/
theorem decode_settles (B : TranslatorBudget β) (consumer : Consumer β) (D : TextDecoder δ)
    (includeComments : Bool) (budget : β) (chunks : List Bytes) (sourceEnd : SourceEnd) :
    Meets (fun _ s ↦ Audit s.translatorBudget.2 0)
      (fun e s ↦ Audit s.translatorBudget.2 0 ∧ MayLeave consumer sourceEnd e)
      (decode B.audited consumer.audited D includeComments (budget, []) chunks sourceEnd) := by
  have hread : Settles (MayLeave consumer sourceEnd) 0 (readChunks B.audited consumer.audited D
      includeComments sourceEnd D.fresh chunks) fun _ ↦ 0 :=
    readChunks_settles (fun _ ↦ trivial) (fun l hl ↦ ⟨l, hl⟩) id chunks D.fresh
  refine Ensures.ensuring hread (fun _ ↦ releaseHeld_settles) (fun e s hs ↦ ?_)
    { translatorBudget := (budget, []) } ⟨⟨0, 0, 0, false⟩, rfl, rfl, Audit.start⟩
  exact releaseHeld_settles.mono (fun _ ↦ id) (fun _ _ hs' ↦ ⟨hs', hs.2⟩) (fun _ _ ↦ id) s hs.1

end SseDecoder

end Sse
