import OpenCodex.Data.Utf8
import OpenCodex.Sse.DecoderRecords

/-!
# The decoder on any split of a body

Each piece of the decoder is described by what it does to its `view`: the line in the buffer, the
flag for a line feed, the open group and the records yielded.  Where the budget refuses nothing is
said.  The loop over one decoded text keeps `At`: the lines accepted and the line in the buffer are
where the cutting of all text decoded so far stands.
-/

set_option autoImplicit false

open List Option Act

namespace Sse

namespace SseDecoder

open Cutting (Frontier skip blocks)

variable {β δ : Type} {B : TranslatorBudget β} {consumer : Consumer β} {D : TextDecoder δ}
  {includeComments : Bool}

/-! ## What each piece does -/

/-- What of the decoder decides its records. -/
structure View where
  line : JsString
  skipLineFeed : Bool
  fields : Fields
  yielded : List SseRecord

def view (s : SseDecoder β) : View := ⟨s.lineBuffer, s.skipLineFeed, ⟨s.event, s.dataLines⟩, s.yielded⟩

/-- Run on a view, code that does not overflow ends with this view. -/
def Turns {α : Type} (x : Code β α) (v : View) (Q : α → View → Prop) : Prop :=
  Ensures (fun s ↦ s.view = v) x (fun a s ↦ Q a s.view) fun _ _ ↦ True

variable {v : View} {α : Type}

variable {Q : α → View → Prop} {x : Code β α} {α' : Type}

theorem Turns.bind {f : α → Code β α'} {Q' : α' → View → Prop} (hx : Turns x v Q)
    (hf : ∀ a w, Q a w → Turns (f a) w Q') : Turns (x >>= f) v Q' :=
  Ensures.bind hx fun a s hs ↦ hf a s.view hs s rfl

theorem Turns.pure {a : α} (h : Q a v) : Turns (pure a : Code β α) v Q :=
  Ensures.pure fun _ hs ↦ hs ▸ h

theorem Turns.read {f : SseDecoder β → Code β α} (h : ∀ s, s.view = v → Turns (f s) v Q) :
    Turns ((MonadState.get : Code β _) >>= f) v Q :=
  Ensures.read fun s hs ↦ h s hs s hs

/-- Code that leaves the view as it is. -/
def Still {α : Type} (x : Code β α) : Prop := ∀ v, Turns x v fun _ w ↦ w = v

theorem Still.then (hx : Still x) {f : α → Code β α'} {Q : α' → View → Prop}
    (hf : ∀ a, Turns (f a) v Q) : Turns (x >>= f) v Q :=
  (hx v).bind fun a _ hw ↦ hw ▸ hf a

variable {g : SseDecoder β → SseDecoder β}

theorem still_modify (h : ∀ s, (g s).view = s.view) : Still (modify g : Code β PUnit) :=
  fun _ ↦ .modify fun s hs ↦ (h s).trans hs

variable (bytes : ℕ)

theorem still_reserve : Still (reserve B bytes) := by
  intro v s hs
  rw [reserve]
  cases B.reserveTransient s.translatorBudget bytes with
  | none => trivial
  | some b => exact hs

theorem still_charge : Still (chargeRetained B bytes) := by
  intro v s hs
  rw [chargeRetained]
  cases B.chargeRetained s.translatorBudget bytes with
  | none => trivial
  | some b => exact hs

theorem still_release : Still (releaseRetained B bytes) := still_modify fun _ ↦ rfl

theorem still_when {c : Prop} [Decidable c] {x : Code β PUnit} (h : Still x) :
    Still (when c x) := by
  intro v
  rw [when]
  split_ifs
  · exact h v
  · exact .pure rfl

theorem still_check : Still (checkEventBytes bytes : Code β PUnit) :=
  still_when fun _ ↦ .throw fun _ _ ↦ trivial

variable {f : PUnit → Code β α}

theorem Turns.change {w : View} (h : ∀ s, s.view = v → (g s).view = w) (hf : Turns (f ⟨⟩) w Q) :
    Turns ((modify g : Code β PUnit) >>= f) v Q :=
  fun s hs ↦ hf (g s) (h s hs)

theorem still_releaseLine : Still (releaseLine B bytes) := by
  intro v
  refine .read fun s hs ↦ ?_
  refine still_when (fun w ↦ ?_) v
  exact .change (w := w) (fun s hs ↦ hs) (still_release _ w)

theorem Turns.ensuring {cleanup : Code β PUnit} (hx : Turns x v Q) (hcleanup : Still cleanup) :
    Turns (ensuring x cleanup) v Q := by
  refine Ensures.ensuring hx (fun a s hs ↦ ?_) fun e s _ ↦ ?_
  · exact (hcleanup s.view).mono (fun _ ↦ id) (fun _ s' hs' ↦ hs' ▸ hs) (fun _ _ ↦ id) s rfl
  · exact (hcleanup s.view).mono (fun _ ↦ id) (fun _ _ _ ↦ trivial) (fun _ _ ↦ id) s rfl

theorem appendLine_turns (sourceValue : JsString) (start stop : ℕ) (v : View) :
    Turns (appendLine B sourceValue start stop) v fun _ w ↦
      w = { v with line := v.line ++ sliceOf sourceValue start stop } := by
  rw [appendLine, when]
  split_ifs with h
  · refine .read fun s hs ↦ ?_
    refine (still_when (still_check _)).then fun _ ↦ (still_reserve _).then fun _ ↦ ?_
    refine .change (w := { v with line := v.line ++ sliceOf sourceValue start stop })
      (fun s hs ↦ by rw [← hs]; rfl) ?_
    exact (still_release _).then fun _ ↦ still_modify (fun _ ↦ rfl) _
  · refine .pure ?_
    have hnil : sliceOf sourceValue start stop = [] := by
      rw [sliceOf, Nat.sub_eq_zero_of_le (by omega), take_zero]
    rw [hnil, append_nil]

/-- The records of what was accepted. -/
def recordsIn (accepted : Option AcceptedRecord) : List SseRecord :=
  accepted.toList.map AcceptedRecord.record

theorem dispatch_turns (v : View) : Turns (dispatch B) v fun accepted w ↦
    w = { v with fields := ⟨none, []⟩ } ∧
      recordsIn accepted = eventRecord v.fields.event v.fields.data := by
  refine .read fun s hs ↦ ?_
  subst hs
  by_cases hdata : s.dataLines = []
  · rw [if_pos hdata]
    refine (still_release _).then fun _ ↦ .change
      (w := { s.view with fields := ⟨none, s.dataLines⟩ }) (fun s' hs' ↦ ?_) (.pure ⟨?_, ?_⟩)
    · simp only [view, View.mk.injEq, Fields.mk.injEq] at hs' ⊢
      exact ⟨hs'.1, hs'.2.1, ⟨trivial, hs'.2.2.1.2⟩, hs'.2.2.2⟩
    · rw [hdata]
    · exact (if_pos hdata).symm
  · rw [if_neg hdata]
    refine (still_check _).then fun _ ↦ (still_when ?_).then fun _ ↦ ?_
    · exact fun w ↦ (still_reserve _).then fun _ ↦ still_release _ w
    · refine .change (w := { s.view with fields := ⟨none, []⟩ }) (fun s' hs' ↦ ?_) (.pure ⟨rfl, ?_⟩)
      · simp only [view, View.mk.injEq, Fields.mk.injEq] at hs' ⊢
        exact ⟨hs'.1, hs'.2.1, trivial, hs'.2.2.2⟩
      · exact (if_neg hdata).symm

/-! ### Fields -/

theorem take_fieldEnd (line : JsString) :
    line.take ((line.findIdx? (· = 58)).getD line.length) = fieldName line := by
  induction line with
  | nil => rfl
  | cons c line ih =>
    rw [findIdx?_cons, fieldName]
    by_cases hc : c = 58
    · simp [hc]
    · simp only [hc, decide_false, Bool.false_eq_true, if_false, ne_eq, not_false_eq_true,
        decide_true, takeWhile_cons_of_pos]
      rw [← fieldName, ← ih]
      cases List.findIdx? (fun x ↦ decide (x = 58)) line <;> simp

theorem drop_valueStart (line : JsString) :
    line.drop (valueStartOf line ((line.findIdx? (· = 58)).getD line.length)) = fieldValue line := by
  have hdrop : line.drop ((line.findIdx? (· = 58)).getD line.length) = line.dropWhile (· ≠ 58) := by
    have h := take_fieldEnd line
    rw [fieldName] at h
    have hsum := takeWhile_append_dropWhile (p := (· ≠ (58 : CodeUnit))) (l := line)
    rw [← h] at hsum
    exact append_cancel_left ((take_append_drop _ line).trans hsum.symm)
  generalize hend : (line.findIdx? (· = 58)).getD line.length = fieldEnd at hdrop
  have hstart : line.drop (if fieldEnd = line.length then line.length else fieldEnd + 1) =
      (line.dropWhile (· ≠ 58)).drop 1 := by
    rw [← hdrop, drop_drop]
    split_ifs with h
    · rw [drop_length, drop_of_length_le (by omega)]
    · rfl
  rw [valueStartOf, fieldValue, ← hstart]
  generalize (if fieldEnd = line.length then line.length else fieldEnd + 1) = start
  simp only [head?_drop, drop_drop]
  split_ifs <;> rfl

theorem acceptField_turns (includeComments : Bool) {line : JsString} (hline : line ≠ []) (hcomment : commentOf line = none)
    (bytes : ℕ) (v : View) : Turns (acceptField B line bytes) v fun _ w ↦
      w = { v with fields := (acceptFields includeComments v.fields line).1 } := by
  have haccept : acceptFields includeComments v.fields line =
      if fieldName line = js "event" then (⟨some (fieldValue line), v.fields.data⟩, [])
      else if fieldName line = js "data" then (⟨v.fields.event, v.fields.data ++ [fieldValue line]⟩, [])
      else (v.fields, []) := by
    rw [acceptFields, if_neg hline, hcomment]
  rw [haccept, acceptField]
  refine (still_reserve _).then fun _ ↦ ?_
  simp only [take_fieldEnd, drop_valueStart]
  refine .ensuring ?_ (still_release _)
  split_ifs with hevent hdata
  · refine (still_reserve _).then fun _ ↦ .read fun s _ ↦ (still_release _).then fun _ ↦ ?_
    exact .change (w := { v with fields := ⟨some (fieldValue line), v.fields.data⟩ })
      (fun s hs ↦ by rw [← hs]; rfl) (still_releaseLine _ _)
  · refine .read fun s hs ↦ (still_check _).then fun _ ↦ (still_charge _).then fun _ ↦ ?_
    subst hs
    refine .change (w := { s.view with fields := ⟨s.event, s.dataLines ++ [fieldValue line]⟩ })
      (fun s' hs' ↦ ?_) (still_releaseLine _ _)
    simp only [view, View.mk.injEq, Fields.mk.injEq] at hs' ⊢
    exact ⟨hs'.1, hs'.2.1, ⟨hs'.2.2.1.1, by rw [hs'.2.2.1.2]⟩, hs'.2.2.2⟩
  · exact still_releaseLine _ _

theorem acceptOwned_turns (line : JsString) (bytes : ℕ) (v : View) :
    Turns (acceptOwned B includeComments line bytes) v fun accepted w ↦
      w = { v with fields := (acceptFields includeComments v.fields line).1 } ∧
        recordsIn accepted = (acceptFields includeComments v.fields line).2 := by
  rw [acceptOwned]
  by_cases hnil : line = []
  · rw [if_pos hnil]
    refine (still_releaseLine _).then fun _ ↦ ?_
    refine (dispatch_turns _).mono (fun _ ↦ id) (fun accepted s' h ↦ ?_) fun _ _ ↦ id
    rw [hnil]
    exact h
  · rw [if_neg hnil]
    have hcommentOf : commentOf line =
        if line.head? = some 58 then some (fieldValue line) else none := rfl
    by_cases hhead : line.head? = some 58
    · rw [if_pos hhead]
      rw [if_pos hhead] at hcommentOf
      have haccept : acceptFields includeComments v.fields line =
          (v.fields, if includeComments then [.comment (fieldValue line)] else []) := by
        rw [acceptFields, if_neg hnil, hcommentOf]
      rw [haccept]
      cases includeComments with
      | false => exact (still_releaseLine _).then fun _ ↦ .pure ⟨rfl, rfl⟩
      | true =>
        refine (still_charge _).then fun _ ↦ (still_releaseLine _).then fun _ ↦ Turns.pure ⟨rfl, ?_⟩
        change [SseRecord.comment _] = [_]
        congr 2
        obtain ⟨c, line, rfl⟩ := exists_cons_of_ne_nil hnil
        rw [head?_cons, some_inj] at hhead
        subst hhead
        cases line with
        | nil => rfl
        | cons d line => by_cases hd : d = 32 <;> simp [fieldValue, hd]
    · rw [if_neg hhead]
      rw [if_neg hhead] at hcommentOf
      refine .bind (acceptField_turns includeComments hnil hcommentOf _ _)
        fun _ w hw ↦ .pure ⟨hw, ?_⟩
      rw [acceptFields, if_neg hnil, hcommentOf]
      dsimp only
      split_ifs <;> rfl

/-- **A complete line** does to the fields what the reference does with it. -/
theorem acceptLine_turns (v : View) : Turns (acceptLine B includeComments) v fun accepted w ↦
      w = { v with line := [], fields := (acceptFields includeComments v.fields v.line).1 } ∧
        recordsIn accepted = (acceptFields includeComments v.fields v.line).2 := by
  refine .read fun s hs ↦ ?_
  subst hs
  refine .change (w := { s.view with line := [] }) (fun s' hs' ↦ ?_) ?_
  · simp only [view, View.mk.injEq, Fields.mk.injEq] at hs' ⊢
    exact ⟨trivial, hs'.2⟩
  · refine .tryCatch (acceptOwned_turns s.lineBuffer s.lineRetainedBytes _) fun e ↦ ?_
    exact .bind (Q := fun _ _ ↦ True) (fun s' _ ↦
      (still_releaseLine _ s'.view).mono (fun _ ↦ id) (fun _ _ _ ↦ trivial) (fun _ _ ↦ id) s' rfl)
      fun _ ↦ .throw fun _ _ ↦ trivial

theorem yieldAccepted_turns (accepted : Option AcceptedRecord) (v : View) :
    Turns (yieldAccepted B consumer accepted) v fun _ w ↦
      w = { v with yielded := v.yielded ++ recordsIn accepted } := by
  cases accepted with
  | none =>
    refine .pure ?_
    simp [recordsIn]
  | some a =>
    refine .ensuring ?_ (still_release _)
    refine .change (w := { v with yielded := v.yielded ++ [a.record] })
      (fun s hs ↦ by rw [← hs]; rfl) ?_
    exact .read fun s _ ↦ still_when (fun _ ↦ .throw fun _ _ ↦ trivial) _

/-! ## One decoded text -/

/-- A line feed that may belong to a line ending already seen. -/
def isLineFeed (c : CodeUnit) : Bool := c == 10

/-- Where the cutting of a text into lines stands: so many lines accepted, a line in the buffer, the
flag for a line feed, and what is still to be looked at. -/
structure At (whole : JsString) (closed : List JsString) (line : JsString) (waiting : Bool)
    (rest : JsString) : Prop where
  more : rest ≠ [] →
    Frontier lineBreak isLineFeed whole closed line false (skip isLineFeed waiting rest)
  done : rest = [] → Frontier lineBreak isLineFeed whole closed line waiting []

variable {whole line rest : JsString} {closed : List JsString} {waiting : Bool}

theorem At.read (h : At whole closed line waiting []) (piece : JsString) :
    At (whole ++ piece) closed line waiting piece where
  more hne := (h.done rfl).read hne
  done hnil := by
    rw [hnil, append_nil]
    exact h.done rfl

/-- What is cut at a break of lines. -/
def isBreak (c : CodeUnit) : Bool := c == 13 || c == 10

variable {c : CodeUnit}

theorem lineBreak_letter (h : isBreak c = false) (text : JsString) : lineBreak (c :: text) = 0 := by
  have hc : ¬(c = 13 ∨ c = 10) := by simpa [isBreak] using h
  cases text with
  | nil => exact if_neg hc
  | cons d text => exact (if_neg fun hcd ↦ hc (Or.inl hcd.1)).trans (if_neg hc)

theorem frontier_letters {letters : JsString} (hletters : ∀ c ∈ letters, isBreak c = false)
    (h : Frontier lineBreak isLineFeed whole closed line false (letters ++ rest)) :
    Frontier lineBreak isLineFeed whole closed (line ++ letters) false rest := by
  induction letters generalizing line with
  | nil => simpa using h
  | cons c letters ih =>
    have hc := hletters c (mem_cons_self ..)
    have hnext := ih (fun d hd ↦ hletters d (mem_cons_of_mem _ hd))
      (h.letter fun ext ↦ lineBreak_letter hc _)
    rwa [append_assoc, singleton_append] at hnext

/-- **A line ending** closes the line in the buffer. -/
theorem At.close (hc : isBreak c = true)
    (h : Frontier lineBreak isLineFeed whole closed line false (c :: rest)) :
    At whole (closed ++ [line]) [] (decide (c = 13)) rest := by
  have hone : ∀ d text, ¬(c = 13 ∧ d = 10) → lineBreak (c :: d :: text) = 1 := by
    intro d text hd
    rw [lineBreak, if_neg hd]
    exact if_pos (by simpa [isBreak] using hc)
  have hlast : lineBreak [c] = 1 := if_pos (by simpa [isBreak] using hc)
  refine ⟨fun hne ↦ ?_, fun hnil ↦ ?_⟩
  · obtain ⟨d, text, rfl⟩ := exists_cons_of_ne_nil hne
    by_cases hd : c = 13 ∧ d = 10
    · have htwo : ∀ ext, lineBreak (c :: d :: text ++ ext) = 2 := fun ext ↦ if_pos hd
      have hskip : skip isLineFeed (decide (c = 13)) (d :: text) = text := by
        rw [hd.1, hd.2]
        rfl
      rw [hskip]
      exact h.close (by omega) htwo (by simp)
    · have hskip : skip isLineFeed (decide (c = 13)) (d :: text) = d :: text := by
        refine if_neg fun h ↦ hd ?_
        simpa [isLineFeed] using h
      rw [hskip]
      exact h.close (by omega) (fun ext ↦ hone d (text ++ ext) hd) (by simp)
  · subst hnil
    by_cases hcr : c = 13
    · subst hcr
      refine h.closeLate (cons_ne_nil _ _) (fun a ext ↦ ?_) hlast
      cases ha : isLineFeed a with
      | true =>
        rw [isLineFeed, beq_iff_eq] at ha
        exact if_pos ⟨rfl, ha⟩
      | false => exact hone a ext fun had ↦ by simp [isLineFeed, had.2] at ha
    · have hlf : ∀ ext, lineBreak ([c] ++ ext) = 1 := by
        intro ext
        cases ext with
        | nil => exact hlast
        | cons d text => exact hone d text fun hd ↦ hcr hd.1
      rw [decide_eq_false hcr]
      exact h.close (by omega) hlf (by simp)

/-! ### The cached positions -/

/-- A cached position is the first one at the offset or behind it, unless it has been passed. -/
def Cached (c : CodeUnit) (decoded : JsString) (offset : ℕ) (next : Option ℕ) : Prop :=
  match next with
  | none => indexFrom c decoded offset = none
  | some position => offset ≤ position → indexFrom c decoded offset = some position

variable {offset : ℕ} {decoded : JsString}

theorem indexFrom_eq_none :
    indexFrom c decoded offset = none ↔ ∀ d ∈ decoded.drop offset, d ≠ c := by
  rw [indexFrom, map_eq_none_iff, findIdx?_eq_none_iff]
  simp

theorem indexFrom_eq_some {position : ℕ} : indexFrom c decoded offset = some position ↔
      offset ≤ position ∧ decoded[position]? = some c ∧
        ∀ k, offset ≤ k → k < position → decoded[k]? ≠ some c := by
  rw [indexFrom, map_eq_some_iff]
  constructor
  · rintro ⟨i, hi, rfl⟩
    rw [findIdx?_eq_some_iff_getElem] at hi
    obtain ⟨hlt, hfound, hbefore⟩ := hi
    rw [getElem_drop] at hfound
    rw [length_drop] at hlt
    refine ⟨by omega, ?_, fun k hk hki hkc ↦ ?_⟩
    · rw [Nat.add_comm, getElem?_eq_getElem (by omega), of_decide_eq_true hfound]
    · have hnot := hbefore (k - offset) (by omega)
      rw [getElem_drop] at hnot
      have hget : decoded[offset + (k - offset)]? = some c := by
        rw [show offset + (k - offset) = k by omega, hkc]
      rw [List.getElem?_eq_some_iff] at hget
      exact hnot (decide_eq_true hget.2)
  · rintro ⟨hle, hget, hbefore⟩
    obtain ⟨hlt, hc⟩ := List.getElem?_eq_some_iff.mp hget
    refine ⟨position - offset, ?_, by omega⟩
    rw [findIdx?_eq_some_iff_getElem]
    refine ⟨by rw [length_drop]; omega, ?_, fun j hj hjc ↦ ?_⟩
    · simp only [getElem_drop, decide_eq_true_eq]
      rw [← hc]
      congr 1
      omega
    · rw [getElem_drop, decide_eq_true_eq] at hjc
      exact hbefore (offset + j) (by omega) (by omega) (by rw [List.getElem?_eq_some_iff]; exact ⟨_, hjc⟩)

variable {offset' : ℕ}

theorem cached_indexFrom (c : CodeUnit) (decoded : JsString) (h : offset ≤ offset') :
    Cached c decoded offset' (indexFrom c decoded offset) := by
  cases hi : indexFrom c decoded offset with
  | none =>
    rw [indexFrom_eq_none] at hi
    refine indexFrom_eq_none.mpr fun d hd ↦ hi d ?_
    rw [show offset' = offset + (offset' - offset) by omega, ← drop_drop] at hd
    exact mem_of_mem_drop hd
  | some position =>
    obtain ⟨-, hget, hbefore⟩ := indexFrom_eq_some.mp hi
    exact fun hle ↦ indexFrom_eq_some.mpr ⟨hle, hget, fun k hk ↦ hbefore k (by omega)⟩

variable {next : Option ℕ}

theorem Cached.mono (h : Cached c decoded offset next) (hle : offset ≤ offset') :
    Cached c decoded offset' next := by
  cases next with
  | none =>
    have hnone := cached_indexFrom c decoded hle
    rwa [show indexFrom c decoded offset = none from h] at hnone
  | some position =>
    intro hposition
    have hsome := cached_indexFrom c decoded hle
    rw [h (by omega)] at hsome
    exact hsome hposition

theorem refresh_eq (h : Cached c decoded offset next) :
    refresh c decoded offset next = indexFrom c decoded offset := by
  cases next with
  | none => exact Eq.symm h
  | some position =>
    rw [refresh]
    split_ifs with hlt
    · rfl
    · exact (h (by omega)).symm

theorem firstOf_none
    (h : firstOf (indexFrom 13 decoded offset) (indexFrom 10 decoded offset) = none) :
    ∀ c ∈ decoded.drop offset, isBreak c = false := by
  intro c hc
  cases hcr : indexFrom 13 decoded offset with
  | some i => cases hlf : indexFrom 10 decoded offset <;> simp [firstOf, hcr, hlf] at h
  | none =>
    rw [hcr] at h
    change indexFrom 10 decoded offset = none at h
    have h13 := indexFrom_eq_none.mp hcr c hc
    have h10 := indexFrom_eq_none.mp h c hc
    simp [isBreak, h13, h10]

theorem firstOf_some {newline : ℕ}
    (h : firstOf (indexFrom 13 decoded offset) (indexFrom 10 decoded offset) = some newline) :
    ∃ letters c rest, decoded.drop offset = letters ++ c :: rest ∧
      (∀ d ∈ letters, isBreak d = false) ∧ isBreak c = true ∧ decoded[newline]? = some c ∧
      offset ≤ newline ∧ letters = sliceOf decoded offset newline ∧
      rest = decoded.drop (newline + 1) := by
  have hkey : offset ≤ newline ∧ (∃ c, decoded[newline]? = some c ∧ isBreak c = true) ∧
      ∀ k d, offset ≤ k → k < newline → decoded[k]? = some d → isBreak d = false := by
    have hnot : ∀ {k : ℕ} {d : CodeUnit}, decoded[k]? = some d → decoded[k]? ≠ some 13 → decoded[k]? ≠ some 10 →
        isBreak d = false := by
      intro k d hd h13 h10
      rw [hd, Ne, some_inj] at h13 h10
      simp [isBreak, h13, h10]
    have habsent : ∀ {c : CodeUnit} {k : ℕ}, indexFrom c decoded offset = none → offset ≤ k →
        decoded[k]? ≠ some c := by
      intro c k hnone hk hget
      obtain ⟨hlt, hd⟩ := List.getElem?_eq_some_iff.mp hget
      refine indexFrom_eq_none.mp hnone c ?_ rfl
      rw [← hd, mem_drop_iff_getElem]
      exact ⟨k - offset, by omega, by congr 1; omega⟩
    cases hcr : indexFrom 13 decoded offset with
    | none =>
      rw [hcr] at h
      change indexFrom 10 decoded offset = some newline at h
      obtain ⟨hle, hget, hbefore⟩ := indexFrom_eq_some.mp h
      exact ⟨hle, ⟨10, hget, rfl⟩, fun k d hk hkn hd ↦
        hnot hd (habsent hcr hk) (hbefore k hk hkn)⟩
    | some i =>
      obtain ⟨hile, higet, hibefore⟩ := indexFrom_eq_some.mp hcr
      cases hlf : indexFrom 10 decoded offset with
      | none =>
        rw [hcr, hlf] at h
        obtain rfl : i = newline := some_inj.mp h
        exact ⟨hile, ⟨13, higet, rfl⟩, fun k d hk hkn hd ↦
          hnot hd (hibefore k hk hkn) (habsent hlf hk)⟩
      | some j =>
        obtain ⟨hjle, hjget, hjbefore⟩ := indexFrom_eq_some.mp hlf
        rw [hcr, hlf] at h
        obtain rfl : min i j = newline := some_inj.mp h
        refine ⟨by omega, ?_, fun k d hk hkn hd ↦
          hnot hd (hibefore k hk (by omega)) (hjbefore k hk (by omega))⟩
        rcases Nat.le_total i j with hij | hij
        · exact ⟨13, by rw [Nat.min_eq_left hij]; exact higet, rfl⟩
        · exact ⟨10, by rw [Nat.min_eq_right hij]; exact hjget, rfl⟩
  obtain ⟨hle, ⟨c, hget, hc⟩, hbefore⟩ := hkey
  obtain ⟨hlt, hcget⟩ := List.getElem?_eq_some_iff.mp hget
  refine ⟨sliceOf decoded offset newline, c, decoded.drop (newline + 1), ?_, fun d hd ↦ ?_, hc, hget,
    hle, rfl, rfl⟩
  · rw [sliceOf, ← hcget, ← drop_eq_getElem_cons hlt]
    have hdrop : decoded.drop newline = (decoded.drop offset).drop (newline - offset) := by
      rw [drop_drop, show offset + (newline - offset) = newline by omega]
    rw [hdrop, take_append_drop]
  · rw [sliceOf, mem_take_iff_getElem] at hd
    obtain ⟨k, hk, rfl⟩ := hd
    rw [length_drop] at hk
    refine hbefore (offset + k) _ (by omega) (by omega) ?_
    rw [getElem_drop, getElem?_eq_getElem]

/-! ### The loop -/

/-- The decoder has read this much text: the lines accepted have gone into its fields and records,
and the line in its buffer is where the cutting stands. -/
def Reading (includeComments : Bool) (whole rest : JsString) (v : View) : Prop :=
  ∃ closed, At whole closed v.line v.skipLineFeed rest ∧
    runLines includeComments ⟨none, []⟩ closed = (v.fields, v.yielded)

theorem accept_turns (v : View)
    (hf : Turns (f ⟨⟩) ⟨[], v.skipLineFeed, (acceptFields includeComments v.fields v.line).1,
      v.yielded ++ (acceptFields includeComments v.fields v.line).2⟩ Q) :
    Turns (acceptLine B includeComments >>= fun accepted ↦
      yieldAccepted B consumer accepted >>= f) v Q := by
  refine (acceptLine_turns v).bind fun accepted w hw ↦
    (yieldAccepted_turns accepted w).bind fun _ w' hw' ↦ ?_
  rw [hw', hw.2, hw.1]
  exact hf

theorem runLines_concat {f : Fields} {out : List SseRecord} {closed : List JsString}
    (h : runLines includeComments ⟨none, []⟩ closed = (f, out)) (line : JsString) :
    runLines includeComments ⟨none, []⟩ (closed ++ [line]) =
      ((acceptFields includeComments f line).1, out ++ (acceptFields includeComments f line).2) := by
  rw [runLines_append, h]
  simp [runLines]

/-- **The loop over one text** cuts it at its line endings. -/
theorem consumeFrom_turns {turns : ℕ} {nextCr nextLf : Option ℕ}
    (hturns : decoded.length ≤ turns + offset) (hcr : Cached 13 decoded offset nextCr)
    (hlf : Cached 10 decoded offset nextLf)
    (h : Reading includeComments whole (decoded.drop offset) v) :
    Turns (consumeFrom B consumer includeComments decoded turns offset nextCr nextLf) v
      fun _ ↦ Reading includeComments whole [] := by
  induction turns generalizing offset nextCr nextLf v with
  | zero =>
    rw [drop_of_length_le (by omega)] at h
    exact .pure h
  | succ turns ih =>
    rw [consumeFrom]
    split_ifs with hoffset
    · refine .read fun s hs ↦ .change (w := { v with skipLineFeed := false })
        (fun s' hs' ↦ by rw [← hs']; rfl) ?_
      have hwaiting : v.skipLineFeed = s.skipLineFeed := by rw [← hs]; rfl
      have hdrop := drop_eq_getElem_cons hoffset
      have hne : decoded.drop offset ≠ [] := by rw [hdrop]; exact cons_ne_nil _ _
      obtain ⟨closed, hat, hrun⟩ := h
      have hfront := hat.more hne
      rw [hwaiting] at hfront
      split_ifs with hskip
      · -- the line feed of a line ending that was seen as a carriage return
        refine ih (by omega) (hcr.mono (Nat.le_succ _)) (hlf.mono (Nat.le_succ _))
          ⟨closed, ?_, hrun⟩
        have hhead : decoded[offset] = 10 := by
          rw [getElem?_eq_getElem hoffset, some_inj] at hskip
          exact hskip.2
        have hrest : skip isLineFeed s.skipLineFeed (decoded.drop offset) =
            decoded.drop (offset + 1) := by
          rw [hdrop, hskip.1, hhead]
          rfl
        rw [hrest] at hfront
        refine ⟨fun _ ↦ ?_, fun hnil ↦ hnil ▸ hfront⟩
        rw [Cutting.skip_false]
        exact hfront
      · have hrest : skip isLineFeed s.skipLineFeed (decoded.drop offset) = decoded.drop offset := by
          rw [hdrop]
          refine if_neg fun hboth ↦ hskip ?_
          rw [getElem?_eq_getElem hoffset, some_inj]
          simpa [isLineFeed] using hboth
        rw [hrest] at hfront
        simp only [refresh_eq hcr, refresh_eq hlf]
        cases hnewline : firstOf (indexFrom 13 decoded offset) (indexFrom 10 decoded offset) with
        | none =>
          refine (appendLine_turns decoded offset decoded.length _).mono (fun _ ↦ id)
            (fun _ s' hs' ↦ ?_) fun _ _ ↦ id
          rw [hs']
          have hslice : sliceOf decoded offset decoded.length = decoded.drop offset := by
            rw [sliceOf, take_of_length_le (by rw [length_drop])]
          rw [← append_nil (decoded.drop offset)] at hfront
          have hletters := frontier_letters (firstOf_none hnewline) hfront
          exact ⟨closed, ⟨fun h ↦ absurd rfl h, fun _ ↦ hslice ▸ hletters⟩, hrun⟩
        | some newline =>
          obtain ⟨letters, c, rest, hsplit, hletters, hc, hget, hle, hslice, hrest'⟩ :=
            firstOf_some hnewline
          refine (appendLine_turns decoded offset newline _).bind fun _ w hw ↦ ?_
          subst hw
          refine .change (w := ⟨v.line ++ letters, decide (c = 13), v.fields, v.yielded⟩)
            (fun s' hs' ↦ ?_) ?_
          · simp only [view, View.mk.injEq, hget, some_inj] at hs' ⊢
            exact ⟨hslice ▸ hs'.1, trivial, hs'.2.2⟩
          · refine accept_turns _ ?_
            rw [hsplit] at hfront
            refine ih (by omega) (cached_indexFrom 13 decoded (by omega))
              (cached_indexFrom 10 decoded (by omega)) ⟨closed ++ [v.line ++ letters], ?_, ?_⟩
            · rw [← hrest']
              exact .close hc (frontier_letters hletters hfront)
            · exact runLines_concat hrun _
    · rw [drop_of_length_le (by omega)] at h
      exact .pure h

theorem consumeDecoded_turns (decoded : JsString) (h : Reading includeComments whole [] v) :
    Turns (consumeDecoded B consumer includeComments decoded) v fun _ ↦
      Reading includeComments (whole ++ decoded) [] := by
  obtain ⟨closed, hat, hrun⟩ := h
  exact consumeFrom_turns (Nat.le_refl _) (cached_indexFrom 13 decoded (Nat.le_refl 0))
    (cached_indexFrom 10 decoded (Nat.le_refl 0)) ⟨closed, hat.read decoded, hrun⟩

end SseDecoder

/-! ## The whole body -/

/-- What a text decoder makes of a body in chunks. -/
def TextDecoder.textFrom {δ : Type} (D : TextDecoder δ) : δ → List Bytes → JsString
  | d, [] => D.flush d
  | d, value :: chunks => (D.decode d value).2 ++ D.textFrom (D.decode d value).1 chunks

def TextDecoder.text {δ : Type} (D : TextDecoder δ) (chunks : List Bytes) : JsString :=
  D.textFrom D.fresh chunks

/-- Streaming decoding does not depend on the chunks. -/
def TextDecoder.ChunkIndependent {δ : Type} (D : TextDecoder δ) : Prop :=
  ∀ chunks : List Bytes, D.text chunks = D.text [chunks.flatten]

namespace SseDecoder

variable {β δ : Type} {B : TranslatorBudget β} {consumer : Consumer β} {D : TextDecoder δ}
  {includeComments : Bool} {whole : JsString}

variable {v : View}

/-- **At the end** the line in the buffer is accepted and the open event dispatched. -/
theorem finishBody_turns (d : δ) (h : Reading includeComments whole [] v) :
    Turns (finishBody B consumer D includeComments d) v fun _ w ↦
      w.yielded = recordsOf includeComments (whole ++ D.flush d) := by
  refine (consumeDecoded_turns (D.flush d) h).bind fun _ w hw ↦ .read fun s hs ↦ ?_
  subst hs
  obtain ⟨closed, hat, hrun⟩ := hw
  have hcut := (hat.done rfl).stop (by rw [Cutting.skip_nil, Cutting.blocks_nil, append_nil])
  rw [append_nil] at hcut
  have hrecords := recordsOf_eq includeComments (whole ++ D.flush d)
  have hlines : linesOf (whole ++ D.flush d) = closed ++ [s.lineBuffer] := by
    rw [linesOf, hcut]
    rfl
  rw [hlines, runLines_concat hrun] at hrecords
  rw [hrecords]
  have hfinal : ∀ v : View, Turns (dispatch B >>= fun finalRecord ↦
      yieldAccepted B consumer finalRecord) v fun _ w ↦
        w.yielded = v.yielded ++ eventRecord v.fields.event v.fields.data := by
    intro v
    refine (dispatch_turns v).bind fun accepted w hw ↦ ?_
    refine (yieldAccepted_turns accepted w).mono (fun _ ↦ id) (fun _ s' hs' ↦ ?_) fun _ _ ↦ id
    rw [hs', hw.2, hw.1]
  refine .bind (Q := fun _ w ↦ w = ⟨[], s.skipLineFeed,
    (acceptFields includeComments s.view.fields s.lineBuffer).1,
    s.yielded ++ (acceptFields includeComments s.view.fields s.lineBuffer).2⟩ ∨
      s.lineBuffer = [] ∧ w = s.view) ?_ fun _ w hw ↦ ?_
  · rw [when]
    split_ifs with hlength
    · refine (acceptLine_turns s.view).bind fun accepted w hw ↦ ?_
      refine (yieldAccepted_turns accepted w).mono (fun _ ↦ id) (fun _ s' hs' ↦ Or.inl ?_)
        fun _ _ ↦ id
      rw [hs', hw.2, hw.1]
      rfl
    · exact .pure (Or.inr ⟨length_eq_zero_iff.mp (by omega), rfl⟩)
  · rcases hw with rfl | ⟨hnil, rfl⟩
    · exact hfinal _
    · refine (hfinal s.view).mono (fun _ ↦ id) (fun _ s' hs' ↦ ?_) fun _ _ ↦ id
      change s'.view.yielded = _ at hs'
      rw [hs', hnil, acceptFields, if_pos rfl]
      simp only [eventRecord, if_true, append_nil]

theorem readChunks_turns (B : TranslatorBudget β) (consumer : Consumer β) (D : TextDecoder δ)
    (sourceEnd : SourceEnd) (chunks : List Bytes) (d : δ) (h : Reading includeComments whole [] v) :
    Turns (readChunks B consumer D includeComments sourceEnd d chunks) v fun _ w ↦
      w.yielded = recordsOf includeComments (whole ++ D.textFrom d chunks) := by
  induction chunks generalizing d whole v with
  | nil =>
    cases sourceEnd with
    | done => exact finishBody_turns d h
    | failed => exact .throw fun _ _ ↦ trivial
  | cons value chunks ih =>
    unfold readChunks
    refine (still_reserve _).then fun _ ↦ ?_
    refine ((consumeDecoded_turns _ h).ensuring (still_release _)).bind fun _ w hw ↦ ?_
    rw [TextDecoder.textFrom, ← append_assoc]
    exact ih _ hw

theorem reading_start (includeComments : Bool) :
    Reading includeComments [] [] ⟨[], false, ⟨none, []⟩, []⟩ :=
  ⟨[], ⟨fun h ↦ absurd rfl h, fun _ ↦ .start lineBreak isLineFeed⟩, rfl⟩

theorem still_releaseHeld (B : TranslatorBudget β) : Still (releaseHeld B) := by
  intro v
  exact .read fun s _ ↦ still_release _ v

theorem decode_yielded {budget : β} {chunks : List Bytes} {sourceEnd : SourceEnd}
    (h : (decode B consumer D includeComments budget chunks sourceEnd).1 = .ok ⟨⟩) :
    (decode B consumer D includeComments budget chunks sourceEnd).2.yielded =
      recordsOf includeComments (D.text chunks) := by
  have hread := (readChunks_turns B consumer D sourceEnd chunks D.fresh
    (reading_start includeComments)).ensuring (still_releaseHeld B) { translatorBudget := budget } rfl
  rw [decode] at h ⊢
  cases hrun : ensuring (readChunks B consumer D includeComments sourceEnd D.fresh chunks)
      (releaseHeld B) { translatorBudget := budget } with
  | mk r s =>
    rw [hrun] at hread h
    dsimp only at h
    subst h
    exact hread

/-- **Decoding does not depend on chunking.**  Where the body stays within the budget, the records are
those of the reference parser on the text of the whole body, however it was split. -/
theorem decodes_any_split (B : TranslatorBudget β) (consumer : SseRecord → β → β)
    (D : TextDecoder δ) (hD : D.ChunkIndependent) (includeComments : Bool) (budget : β)
    (chunks : List Bytes)
    (hbudget : (decodeServerSentEvents B consumer D includeComments budget chunks).1 = .ok ⟨⟩) :
    (decodeServerSentEvents B consumer D includeComments budget chunks).2.yielded =
      recordsOf includeComments (D.text [chunks.flatten]) := by
  rw [← hD chunks]
  exact decode_yielded hbudget

end SseDecoder

/-! ## The text decoder of the platform -/

/-- Streaming UTF-8; a byte order mark at the head of the body is taken off. -/
def utf8Decoder : TextDecoder (Utf8.State × Bool) where
  fresh := (Utf8.ground, false)
  decode d bytes :=
    let r := Utf8.run d.1 bytes
    ((r.1, d.2 || !r.2.isEmpty), (if d.2 then r.2 else Utf8.dropMark r.2).flatMap Utf8.unitsOf)
  flush d := (if d.2 then Utf8.flush d.1 else Utf8.dropMark (Utf8.flush d.1)).flatMap Utf8.unitsOf

theorem utf8Decoder_textFrom (s : Utf8.State) (started : Bool) (chunks : List Bytes) :
    utf8Decoder.textFrom (s, started) chunks =
      (if started then (Utf8.run s chunks.flatten).2 ++ Utf8.flush (Utf8.run s chunks.flatten).1
        else Utf8.dropMark ((Utf8.run s chunks.flatten).2 ++
          Utf8.flush (Utf8.run s chunks.flatten).1)).flatMap Utf8.unitsOf := by
  induction chunks generalizing s started with
  | nil => rfl
  | cons value chunks ih =>
    rw [flatten_cons, Utf8.run_append, TextDecoder.textFrom]
    change ((if started then (Utf8.run s value).2 else Utf8.dropMark (Utf8.run s value).2).flatMap
      Utf8.unitsOf) ++ utf8Decoder.textFrom ((Utf8.run s value).1,
        started || !(Utf8.run s value).2.isEmpty) chunks = _
    rw [ih]
    cases started with
    | true => simp
    | false =>
      cases (Utf8.run s value).2 with
      | nil => rfl
      | cons p points => by_cases hp : p = Utf8.byteOrderMark <;> simp [Utf8.dropMark, hp]

theorem utf8Decoder_chunkIndependent : utf8Decoder.ChunkIndependent := by
  intro chunks
  rw [TextDecoder.text, TextDecoder.text, utf8Decoder, ← utf8Decoder, utf8Decoder_textFrom,
    utf8Decoder_textFrom, flatten_singleton]

/-- A budget that refuses nothing. -/
def openBudget : TranslatorBudget Unit := ⟨fun _ _ ↦ some (), fun _ _ ↦ (), fun _ _ ↦ some (), fun _ _ ↦ ()⟩

/-- A record whose line endings are CR LF, split between the two, and whose last event is not
terminated. -/
theorem decodes_any_split_inside_crlf :
    (SseDecoder.decodeServerSentEvents openBudget (fun _ b ↦ b) utf8Decoder false ()
      [[100, 97, 116, 97, 58, 32, 120, 13], [10, 13], [10, 100, 97, 116, 97, 58, 121]]).2.yielded =
        recordsOf false (utf8Decoder.text [[[100, 97, 116, 97, 58, 32, 120, 13], [10, 13],
          [10, 100, 97, 116, 97, 58, 121]].flatten]) :=
  SseDecoder.decodes_any_split openBudget (fun _ b ↦ b) utf8Decoder utf8Decoder_chunkIndependent
    false () _ (by decide +kernel)

end Sse
