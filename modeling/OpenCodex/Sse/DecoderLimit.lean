import OpenCodex.Data.ByteLength
import OpenCodex.Sse.DecoderAccounts

/-!
# No event is larger than an event may be

The decoder counts the bytes of the data it collects; here it is shown to count what their join has
as UTF-8 (`byteLength`).  So the one check before an event is dispatched is enough: no event above
the limit is ever yielded, and a body that has one is not read to its end.
-/

set_option autoImplicit false

open List Act

namespace Sse

/-! ## Bytes of a text -/

/-- The bytes of a text as UTF-8. -/
def byteLength (text : JsString) : ℕ := (Utf8.bytesOf text).length

/-- The bytes of a unit that is not half of a pair. -/
def unitBytes (c : CodeUnit) : ℕ := if c ≤ 0x7f then 1 else if c ≤ 0x7ff then 2 else 3

theorem byteLength_unit (c : CodeUnit) : Utf8.byteLength [c] = unitBytes c := by
  have hone : c ≤ 0x7f ↔ c.toNat < 0x80 := by exact Nat.lt_succ_iff.symm
  have htwo : c ≤ 0x7ff ↔ c.toNat < 0x800 := by exact Nat.lt_succ_iff.symm
  rw [Utf8.byteLength_singleton, unitBytes]
  simp only [hone, htwo]

theorem byteLength_join (a b : JsString) :
    byteLength (a ++ 10 :: b) = byteLength a + 1 + byteLength b := by
  have hleft : Utf8.joins a.getLast? (some 10) = false :=
    Utf8.not_joins_right (by rintro c ⟨⟩; decide)
  have hright : Utf8.joins (some 10) b.head? = false := Utf8.not_joins_left (by rintro c ⟨⟩; decide)
  have hfeed : Utf8.byteLength [10] = 1 := rfl
  have hsplit : Utf8.byteLength (a ++ 10 :: b) = Utf8.byteLength a + Utf8.byteLength (10 :: b) :=
    Utf8.byteLength_append_of_not_joins hleft
  refine hsplit.trans ?_
  rw [Utf8.byteLength_cons hright, hfeed, ← Nat.add_assoc]
  rfl

variable (line : JsString)

theorem byteLength_intercalate (lines : List JsString) :
    byteLength ((js "\n").intercalate (line :: lines)) =
      ((line :: lines).map byteLength).sum + lines.length := by
  induction lines generalizing line with
  | nil => simp [List.intercalate]
  | cons line' lines ih =>
    have hjoin : (js "\n").intercalate (line :: line' :: lines) =
        line ++ 10 :: (js "\n").intercalate (line' :: lines) := by
      rfl
    rw [hjoin, byteLength_join, ih]
    simp only [map_cons, sum_cons, length_cons]
    omega

namespace SseDecoder

variable {value : JsString}

variable {index : ℕ}

theorem pairAt_eq {c : CodeUnit} {rest : JsString} (h : value.drop index = c :: rest) :
    pairAt value index = Utf8.joins (some c) rest.head? := by
  have hfirst : value[index]? = some c := by rw [← head?_drop, h, head?_cons]
  have hsecond : value[index + 1]? = rest.head? := by
    rw [← head?_drop, ← drop_drop, h, drop_one, tail_cons]
  rw [pairAt, hfirst, hsecond]
  rfl

theorem utf8SliceBytesFrom_eq {units : ℕ} (h : index + units = value.length) :
    utf8SliceBytesFrom value units index = byteLength (value.drop index) := by
  induction units using Nat.strong_induction_on generalizing index with
  | h units ih =>
  cases hrest : value.drop index with
  | nil =>
    have hlength := congrArg List.length hrest
    rw [length_drop, length_nil] at hlength
    obtain rfl : units = 0 := by omega
    rfl
  | cons c rest =>
    have hlength := congrArg List.length hrest
    rw [length_drop, length_cons] at hlength
    obtain ⟨units, rfl⟩ : ∃ m, units = m + 1 := ⟨rest.length, by omega⟩
    have hget : value[index]? = some c := by rw [← head?_drop, hrest, head?_cons]
    have hdrop : value.drop (index + 1) = rest := by rw [← drop_drop, hrest, drop_one, tail_cons]
    unfold utf8SliceBytesFrom
    by_cases hpair : pairAt value index = true
    · rw [if_pos hpair]
      rw [pairAt_eq hrest] at hpair
      cases rest with
      | nil => exact absurd hpair (by simp [Utf8.joins_none])
      | cons d rest =>
        rw [length_cons] at hlength
        obtain ⟨units, rfl⟩ : ∃ m, units = m + 1 := ⟨rest.length, by omega⟩
        have hdrop' : value.drop (index + 2) = rest := by
          rw [← drop_drop, hrest]
          rfl
        have hih := ih units (by omega) (show index + 2 + units = value.length by omega)
        rw [hdrop'] at hih
        exact (congrArg (4 + ·) hih).trans (Utf8.byteLength_pair rest hpair).1.symm
    · have hih := ih units (by omega) (show index + 1 + units = value.length by omega)
      rw [hdrop] at hih
      rw [if_neg hpair, hget, hih]
      rw [Bool.not_eq_true, pairAt_eq hrest] at hpair
      exact (congrArg (· + byteLength rest) (byteLength_unit c)).symm.trans
        (Utf8.byteLength_cons hpair).symm

theorem utf8SliceBytes_eq {start : ℕ} (h : start ≤ value.length) :
    utf8SliceBytes value start value.length = byteLength (value.drop start) :=
  utf8SliceBytesFrom_eq (by omega)

/-! ## The count of the decoder -/

/-- An event that is no larger than it may be; there is no limit for a comment. -/
def Fits : SseRecord → Prop
  | .event _ data => byteLength data ≤ translatorMaxSseEventBytes
  | .comment _ => True

variable {β δ : Type} {B : TranslatorBudget β} {consumer : Consumer β} {D : TextDecoder δ}
  {includeComments : Bool}

/-- The decoder has counted the bytes of its data, and has yielded nothing too large. -/
structure Measured (s : SseDecoder β) : Prop where
  data : s.dataLinesBytes = (s.dataLines.map byteLength).sum
  fits : ∀ r ∈ s.yielded, Fits r

/-- Code that keeps the count, whether it ends or throws. -/
abbrev Measures {α : Type} (x : Code β α) : Prop := Keeps Measured (fun _ ↦ Measured) x

/-- Code that accepts no event that is too large. -/
def AcceptsFitting (x : Code β (Option AcceptedRecord)) : Prop :=
  Ensures Measured x (fun accepted s ↦ Measured s ∧ ∀ a ∈ accepted, Fits a.record)
    fun _ ↦ Measured

section Pieces

theorem Measures.ensuring {α : Type} {x : Code β α} {cleanup : Code β PUnit} (hx : Measures x)
    (hcleanup : Measures cleanup) : Measures (ensuring x cleanup) :=
  Ensures.ensuring hx (fun _ ↦ hcleanup) fun _ ↦ hcleanup

variable (bytes : ℕ)

theorem measures_reserve : Measures (reserve B bytes) := by
  intro s hs
  rw [reserve]
  cases B.reserveTransient s.translatorBudget bytes with
  | none => exact hs
  | some b => exact ⟨hs.data, hs.fits⟩

theorem measures_charge : Measures (chargeRetained B bytes) := by
  intro s hs
  rw [chargeRetained]
  cases B.chargeRetained s.translatorBudget bytes with
  | none => exact hs
  | some b => exact ⟨hs.data, hs.fits⟩

theorem measures_release : Measures (releaseRetained B bytes) :=
  Keeps.modify fun _ hs ↦ ⟨hs.data, hs.fits⟩

theorem measures_check : Measures (checkEventBytes bytes : Code β PUnit) :=
  Keeps.when fun _ ↦ .throw fun _ ↦ id

theorem measures_releaseLine : Measures (releaseLine B bytes) := by
  refine .bind Keeps.get fun s ↦ .when fun _ ↦ ?_
  refine .bind (.modify fun _ hs ↦ ⟨hs.data, hs.fits⟩) fun _ ↦ ?_
  exact measures_release _

theorem measures_appendLine (sourceValue : JsString) (start stop : ℕ) :
    Measures (appendLine B sourceValue start stop) := by
  refine .when fun _ ↦ .bind Keeps.get fun s ↦ ?_
  refine .bind (.when fun _ ↦ measures_check _) fun _ ↦ ?_
  refine .bind (measures_reserve _) fun _ ↦ ?_
  refine .bind (.modify fun _ hs ↦ ⟨hs.data, hs.fits⟩) fun _ ↦ ?_
  refine .bind (measures_release _) fun _ ↦ ?_
  exact .modify fun _ hs ↦ ⟨hs.data, hs.fits⟩

theorem dispatch_fitting : AcceptsFitting (dispatch B) := by
  refine Ensures.reading fun s hs ↦ Ensures.ite (fun _ ↦ ?_) fun hdata ↦ ?_
  · refine Ensures.bind (measures_release _) fun _ ↦ ?_
    refine Ensures.bind (Keeps.modify fun _ hs ↦ ⟨hs.data, hs.fits⟩) fun _ ↦ ?_
    exact Ensures.pure fun s' hs' ↦ ⟨hs', fun a ha ↦ by simp at ha⟩
  obtain ⟨line, lines, hlines⟩ := exists_cons_of_ne_nil hdata
  have hpayload : s.dataLinesBytes + (s.dataLines.length - 1) =
      byteLength ((js "\n").intercalate s.dataLines) := by
    rw [hs.data, hlines, byteLength_intercalate]
    rfl
  by_cases hlarge : s.dataLinesBytes + (s.dataLines.length - 1) > translatorMaxSseEventBytes
  · have hthrow : Ensures Measured
        (checkEventBytes (s.dataLinesBytes + (s.dataLines.length - 1)) : Code β PUnit)
        (fun _ _ ↦ False) fun _ ↦ Measured := by
      rw [checkEventBytes, when_pos hlarge]
      exact Ensures.throw fun _ ↦ id
    exact Ensures.bind hthrow fun _ _ hfalse ↦ hfalse.elim
  refine Ensures.bind (measures_check _) fun _ ↦ ?_
  refine Ensures.bind (Keeps.when fun _ ↦ Keeps.bind (measures_reserve _)
    fun _ ↦ measures_release _) fun _ ↦ ?_
  refine Ensures.bind (Keeps.modify fun _ hs ↦ ⟨rfl, hs.fits⟩) fun _ ↦ ?_
  refine Ensures.pure fun s' hs' ↦ ⟨hs', fun a ha ↦ ?_⟩
  obtain rfl := Option.some_inj.mp ha
  rw [Fits, ← hpayload]
  omega

theorem valueStartOf_le :
    valueStartOf line ((line.findIdx? (· = 58)).getD line.length) ≤ line.length := by
  have hend : (line.findIdx? (· = 58)).getD line.length ≤ line.length := by
    cases hfind : line.findIdx? (· = 58) with
    | none => exact le_rfl
    | some i => exact (findIdx?_eq_some_iff_getElem.mp hfind).1.le
  generalize (line.findIdx? (· = 58)).getD line.length = fieldEnd at hend
  rw [valueStartOf]
  have hstart : (if fieldEnd = line.length then line.length else fieldEnd + 1) ≤ line.length := by
    split_ifs <;> omega
  generalize (if fieldEnd = line.length then line.length else fieldEnd + 1) = start at hstart
  split_ifs with hspace
  · exact (List.getElem?_eq_some_iff.mp hspace).1
  · exact hstart

theorem measures_acceptField (bytes : ℕ) : Measures (acceptField B line bytes) := by
  refine .bind (measures_reserve _) fun _ ↦ ?_
  refine Measures.ensuring (Ensures.ite (fun _ ↦ ?_) fun _ ↦ Ensures.ite (fun _ ↦ ?_)
    fun _ ↦ ?_) (measures_release _)
  · refine .bind (measures_reserve _) fun _ ↦ .bind Keeps.get fun s ↦ ?_
    refine .bind (measures_release _) fun _ ↦ ?_
    refine Keeps.bind (Keeps.modify fun _ hs ↦ ⟨hs.data, hs.fits⟩) fun _ ↦ ?_
    exact measures_releaseLine _
  · refine .bind Keeps.get fun s ↦ ?_
    refine .bind (measures_check _) fun _ ↦ ?_
    refine .bind (measures_charge _) fun _ ↦ ?_
    refine .bind (.modify fun s hs ↦ ⟨?_, hs.fits⟩) fun _ ↦ measures_releaseLine _
    rw [map_append, sum_append, ← hs.data, utf8SliceBytes_eq (valueStartOf_le line)]
    rfl
  · exact measures_releaseLine _

theorem acceptOwned_fitting (bytes : ℕ) :
    AcceptsFitting (acceptOwned B includeComments line bytes) := by
  have hnone : AcceptsFitting (pure none : Code β (Option AcceptedRecord)) :=
    Ensures.pure fun s hs ↦ ⟨hs, fun a ha ↦ by simp at ha⟩
  refine .ite (fun _ ↦ ?_) fun _ ↦ .ite (fun _ ↦ Ensures.ite (fun _ ↦ ?_) fun _ ↦ ?_) fun _ ↦ ?_
  · exact .bind (measures_releaseLine _) fun _ ↦ dispatch_fitting
  · exact .bind (measures_releaseLine _) fun _ ↦ hnone
  · refine .bind (measures_charge _) fun _ ↦ ?_
    refine .bind (measures_releaseLine _) fun _ ↦ ?_
    refine .pure fun s hs ↦ ⟨hs, fun a ha ↦ ?_⟩
    obtain rfl := Option.some_inj.mp ha
    trivial
  · exact .bind (measures_acceptField line bytes) fun _ ↦ hnone

theorem acceptLine_fitting : AcceptsFitting (acceptLine B includeComments) := by
  refine .reading fun s _ ↦ ?_
  refine Ensures.bind (Keeps.modify fun _ hs ↦ ⟨hs.data, hs.fits⟩) fun _ ↦ ?_
  refine .tryCatch (acceptOwned_fitting _ _) fun e ↦ ?_
  exact .bind (measures_releaseLine _) fun _ ↦ .throw fun _ ↦ id

theorem yieldAccepted_measures (accepted : Option AcceptedRecord) :
    Ensures (fun s ↦ Measured s ∧ ∀ a ∈ accepted, Fits a.record)
      (yieldAccepted B consumer accepted) (fun _ ↦ Measured) fun _ ↦ Measured := by
  cases accepted with
  | none => exact .pure fun _ hs ↦ hs.1
  | some a =>
    have hyield : Ensures (fun s ↦ Measured s ∧ ∀ a' ∈ some a, Fits a'.record)
        (yieldRecord consumer a.record) (fun _ ↦ Measured) fun _ ↦ Measured := ?_
    · exact .ensuring hyield (fun _ ↦ measures_release _) fun _ ↦ measures_release _
    refine .bind (Q := fun _ ↦ Measured) (.modify fun s hs ↦ ?_) fun _ ↦ ?_
    · refine ⟨hs.1.data, fun r hr ↦ ?_⟩
      rcases mem_append.mp hr with hr | hr
      · exact hs.1.fits r hr
      · rw [mem_singleton.mp hr]
        exact hs.2 a rfl
    · exact Ensures.reading fun s _ ↦ Keeps.when fun _ ↦ Keeps.throw fun _ ↦ id

theorem consumeFrom_measures (decoded : JsString) (turns offset : ℕ) (nextCr nextLf : Option ℕ) :
    Measures (consumeFrom B consumer includeComments decoded turns offset nextCr nextLf) := by
  induction turns generalizing offset nextCr nextLf with
  | zero => exact .pure _
  | succ turns ih =>
    refine .ite (fun _ ↦ .reading fun s _ ↦ ?_) fun _ ↦ .pure _
    refine Ensures.bind (Keeps.modify fun _ hs ↦ ⟨hs.data, hs.fits⟩) fun _ ↦ ?_
    refine .ite (fun _ ↦ ih _ _ _) fun _ ↦ ?_
    dsimp only
    cases firstOf (refresh 13 decoded offset nextCr) (refresh 10 decoded offset nextLf) with
    | none => exact measures_appendLine _ _ _
    | some newline =>
      refine .bind (measures_appendLine _ _ _) fun _ ↦ ?_
      refine Ensures.bind (Keeps.modify fun _ hs ↦ ⟨hs.data, hs.fits⟩) fun _ ↦ ?_
      refine .bind acceptLine_fitting fun accepted ↦ ?_
      exact .bind (yieldAccepted_measures accepted) fun _ ↦ ih _ _ _

theorem finishBody_measures (d : δ) : Measures (finishBody B consumer D includeComments d) := by
  refine .bind (consumeFrom_measures _ _ _ _ _) fun _ ↦ ?_
  refine Ensures.reading fun s _ ↦ Ensures.bind (Keeps.when fun _ ↦ ?_) fun _ ↦ ?_
  · exact Ensures.bind acceptLine_fitting yieldAccepted_measures
  · exact .bind dispatch_fitting yieldAccepted_measures

theorem readChunks_measures (sourceEnd : SourceEnd) (chunks : List Bytes) (d : δ) :
    Measures (readChunks B consumer D includeComments sourceEnd d chunks) := by
  induction chunks generalizing d with
  | nil =>
    cases sourceEnd with
    | done => exact finishBody_measures d
    | failed => exact .throw fun _ ↦ id
  | cons value chunks ih =>
    unfold readChunks
    refine .bind (measures_reserve _) fun _ ↦ .bind ?_ fun _ ↦ ih _
    exact Measures.ensuring (consumeFrom_measures _ _ _ _ _) (measures_release _)

end Pieces

/-! ## The decoder -/

theorem decode_measured (B : TranslatorBudget β) (consumer : Consumer β) (D : TextDecoder δ)
    (includeComments : Bool) (budget : β) (chunks : List Bytes) (sourceEnd : SourceEnd) :
    Measured (decode B consumer D includeComments budget chunks sourceEnd).2 := by
  have hcleanup : Measures (releaseHeld B) := Keeps.bind Keeps.get fun _ ↦ measures_release _
  refine Keeps.after (P := Measured) ?_ ⟨rfl, fun r hr ↦ absurd hr (not_mem_nil)⟩
  exact Measures.ensuring (readChunks_measures sourceEnd chunks D.fresh) hcleanup

/-- **The decoder gives back every byte it reserved.**  For every budget, body, way to cut it,
consumer and end of the body: when the decoder is left, what it retained has been given back and every
reservation has been committed, and at no moment was more given back than had been retained.  No
event above the limit is yielded; and where the text of the body has one, a decoder that is not
left early throws. -/
theorem gives_back_every_byte {β : Type} (B : TranslatorBudget β) (consumer : Consumer β)
    (includeComments : Bool) (budget : β) (chunks : List Bytes) (sourceEnd : SourceEnd) :
    let r := decode B.audited consumer.audited utf8Decoder includeComments (budget, []) chunks
      sourceEnd
    let log := r.2.translatorBudget.2
    retainedIn log = releasedIn log ∧ NeverOver log ∧ AllCommitted log ∧
      (∀ event data, .event event data ∈ r.2.yielded →
        byteLength data ≤ translatorMaxSseEventBytes) ∧
      ∀ event data, .event event data ∈ recordsOf includeComments (utf8Decoder.text [chunks.flatten]) →
        translatorMaxSseEventBytes < byteLength data →
          ∃ e, r.1 = .error e ∧ MayLeave consumer sourceEnd e := by
  intro r log
  have hsettles := decode_settles B consumer utf8Decoder includeComments budget chunks sourceEnd
  have hmeasured := decode_measured B.audited consumer.audited utf8Decoder includeComments
    (budget, []) chunks sourceEnd
  have hyielded (h : r.1 = .ok ⟨⟩) := decode_yielded h
  rw [utf8Decoder_chunkIndependent chunks] at hyielded
  change Meets _ _ r at hsettles
  have haudit : Audit log 0 := by
    revert hsettles
    rcases r with ⟨_ | _, s⟩
    · exact And.left
    · exact id
  refine ⟨haudit.even, haudit.neverOver, haudit.allCommitted,
    fun event data h ↦ hmeasured.fits _ h, fun event data h hlarge ↦ ?_⟩
  cases hresult : r.1 with
  | ok a =>
    have hfits := hmeasured.fits (.event event data) ((hyielded hresult).symm ▸ h)
    exact absurd hlarge (Nat.not_lt.mpr hfits)
  | error e =>
    have hpair : r = (.error e, r.2) := Prod.ext hresult rfl
    rw [hpair] at hsettles
    exact ⟨e, rfl, hsettles.2⟩

end SseDecoder

end Sse
