import OpenCodex.Data.Cutting
import OpenCodex.Data.ByteLength
import OpenCodex.Data.EventSource
import OpenCodex.Sse.Decoder

/-!
# The buffer of a relay that rewrites blocks

The relay collects text until a pair of line endings closes a block.  Its buffer is scanned from
where the last scan stopped, three units before the end: a pair is at most four units long, so
nothing before can begin one any more (`Scanned`).  What was consumed stays in the buffer until it
is compacted.

The budget is charged for the text that is not consumed, in bytes of UTF-8.  A surrogate that is
alone counts as a replacement character, and where two fragments meet in the middle of a pair the
count is two less than the sum (`Utf8.byteLength_append`).
-/

set_option autoImplicit false

open List Option Act Nat

namespace Sse

/-! ## The delimiter -/

/-- What `\r\n|\r(?!\n)|\n` matches at the head of a text; `0` where it does not match. -/
def endingLength (text : JsString) : ℕ :=
  if text[0]? = some 13 then if text[1]? = some 10 then 2 else 1
  else if text[0]? = some 10 then 1 else 0

/-- What `(?:\r\n|\r(?!\n)|\n){2}` matches there. -/
def delimiterLength (text : JsString) : ℕ :=
  let first := endingLength text
  let second := endingLength (text.drop first)
  if first = 0 ∨ second = 0 then 0 else first + second

/-- The first match in a text: where it begins, and its length. -/
def firstDelimiter : JsString → Option (ℕ × ℕ)
  | [] => none
  | c :: text =>
    if delimiterLength (c :: text) ≠ 0 then some (0, delimiterLength (c :: text))
    else (firstDelimiter text).map fun found ↦ (found.1 + 1, found.2)

/-- `delimiterPattern.exec(buffer)` from `lastIndex` on. -/
def execDelimiter (buffer : JsString) (lastIndex : ℕ) : Option (ℕ × ℕ) :=
  (firstDelimiter (buffer.drop lastIndex)).map fun found ↦ (lastIndex + found.1, found.2)

variable {text rest : JsString} {c : CodeUnit} {i n : ℕ}

theorem endingLength_le (text : JsString) : endingLength text ≤ text.length := by
  rcases text with _ | ⟨a, _ | ⟨b, text⟩⟩
  · decide
  · simp only [endingLength, getElem?_cons_zero, getElem?_cons_succ, length_cons]
    split_ifs <;> simp_all
  · simp only [endingLength, length_cons]
    split_ifs <;> omega

theorem endingLength_append (hne : text ≠ []) (rest : JsString) : endingLength (text ++ rest) =
      endingLength text + if text = [13] ∧ rest[0]? = some 10 then 1 else 0 := by
  rcases text with _ | ⟨a, _ | ⟨b, text⟩⟩
  · exact absurd rfl hne
  · by_cases ha : a = 13
    · subst ha
      by_cases hrest : rest[0]? = some 10 <;> simp [endingLength, hrest]
    · simp [endingLength, ha]
  · simp [endingLength]

theorem endingLength_other (h13 : c ≠ 13) (h10 : c ≠ 10) (text rest : JsString) :
    endingLength (text ++ c :: rest) = endingLength text := by
  rcases text with _ | ⟨a, text⟩
  · simp [endingLength, h13, h10]
  · rw [endingLength_append (cons_ne_nil a text), if_neg (by simp [h10]), add_zero]

theorem endingLength_le_two (text : JsString) : endingLength text ≤ 2 := by
  rw [endingLength]
  split_ifs <;> omega

theorem eq_carriage_return_iff (h : endingLength text ≠ 0) :
    text = [13] ↔ endingLength text = text.length ∧ text.getLast? = some 13 := by
  constructor
  · rintro rfl
    exact ⟨rfl, rfl⟩
  · rintro ⟨hall, hlast⟩
    have htwo := endingLength_le_two text
    rcases text with _ | ⟨a, _ | ⟨b, _ | ⟨d, text⟩⟩⟩
    · exact absurd rfl h
    · rw [getLast?_singleton, Option.some.injEq] at hlast
      rw [hlast]
    · have hb : b = 13 := by simpa using hlast
      subst hb
      by_cases ha : a = 13 <;> by_cases ha' : a = 10 <;> simp [endingLength, ha, ha'] at hall
    · simp only [length_cons] at hall
      omega

theorem delimiterLength_le (text : JsString) : delimiterLength text ≤ text.length := by
  have hfirst := endingLength_le text
  have hsecond := endingLength_le (text.drop (endingLength text))
  rw [length_drop] at hsecond
  simp only [delimiterLength]
  split_ifs <;> omega

theorem delimiterLength_other (h13 : c ≠ 13) (h10 : c ≠ 10) (text rest : JsString) :
    delimiterLength (text ++ c :: rest) = delimiterLength text := by
  simp only [delimiterLength, endingLength_other h13 h10,
    drop_append_of_le_length (endingLength_le text)]

theorem delimiterLength_eq (h : delimiterLength text ≠ 0) :
    endingLength text ≠ 0 ∧ endingLength (text.drop (endingLength text)) ≠ 0 ∧
      delimiterLength text = endingLength text + endingLength (text.drop (endingLength text)) := by
  have hparts : ¬(endingLength text = 0 ∨ endingLength (text.drop (endingLength text)) = 0) :=
    fun hnot ↦ h (if_pos hnot)
  exact ⟨fun h' ↦ hparts (Or.inl h'), fun h' ↦ hparts (Or.inr h'), if_neg hparts⟩

theorem delimiterLength_append_of_first (hne : text.drop (endingLength text) ≠ [])
    (hnot : text ≠ [13]) (rest : JsString) : delimiterLength (text ++ rest) =
      let second := endingLength (text.drop (endingLength text)) +
        if text.drop (endingLength text) = [13] ∧ rest[0]? = some 10 then 1 else 0
      if endingLength text = 0 ∨ second = 0 then 0 else endingLength text + second := by
  have hnil : text ≠ [] := by
    rintro rfl
    exact hne rfl
  have hsame : endingLength (text ++ rest) = endingLength text := by
    rw [endingLength_append hnil, if_neg (fun h ↦ hnot h.1), add_zero]
  rw [delimiterLength, hsame, drop_append_of_le_length (endingLength_le text),
    endingLength_append hne]

/-- The match may get longer only by a line feed behind the carriage return it ends in. -/
theorem delimiterLength_append (h : delimiterLength text ≠ 0) (rest : JsString) :
    delimiterLength (text ++ rest) = delimiterLength text +
      if delimiterLength text = text.length ∧ text.getLast? = some 13 ∧ rest[0]? = some 10
        then 1 else 0 := by
  obtain ⟨hfirst, hsecond, hlength⟩ := delimiterLength_eq h
  have hdrop : text.drop (endingLength text) ≠ [] := by
    intro hnil
    rw [hnil] at hsecond
    exact hsecond rfl
  have hnot : text ≠ [13] := by
    rintro rfl
    exact hdrop rfl
  have hlast : text.drop (endingLength text) = [13] ↔
      delimiterLength text = text.length ∧ text.getLast? = some 13 := by
    have hget : text.getLast? = (text.drop (endingLength text)).getLast? := by
      rw [getLast?_drop, if_neg (by rw [← drop_eq_nil_iff]; exact hdrop)]
    have hle := endingLength_le text
    rw [eq_carriage_return_iff hsecond, hlength, hget, length_drop]
    exact and_congr_left fun _ ↦ by omega
  have hcond : (text.drop (endingLength text) = [13] ∧ rest[0]? = some 10) ↔
      (delimiterLength text = text.length ∧ text.getLast? = some 13 ∧ rest[0]? = some 10) := by
    rw [hlast, and_assoc]
  rw [delimiterLength_append_of_first hdrop hnot]
  simp only [hcond]
  rw [if_neg (by omega), hlength, add_assoc]

/-- **What begins no match within three units never will**: by then both endings have begun. -/
theorem delimiterLength_long (hlong : 3 ≤ text.length) (h : delimiterLength text = 0)
    (rest : JsString) : delimiterLength (text ++ rest) = 0 := by
  have hdrop : 1 ≤ (text.drop (endingLength text)).length := by
    have := endingLength_le_two text
    rw [length_drop]
    omega
  have hnot : text ≠ [13] := by
    rintro rfl
    nomatch hlong
  rw [delimiterLength_append_of_first (ne_nil_of_length_pos (by omega)) hnot]
  by_cases hone : text.drop (endingLength text) = [13]
  · have hfirst : endingLength text = 0 := by
      by_contra hfirst
      have hcr : endingLength [13] = 1 := rfl
      rw [delimiterLength, hone, hcr, if_neg (by omega)] at h
      omega
    exact if_pos (Or.inl hfirst)
  · simp only [hone, false_and, if_false, add_zero]
    exact h

theorem mem_ending {c : CodeUnit} (h : c ∈ text.take (endingLength text)) : c = 13 ∨ c = 10 := by
  rcases text with _ | ⟨a, _ | ⟨b, text⟩⟩
  · exact absurd h not_mem_nil
  · rw [endingLength] at h
    split_ifs at h <;> simp_all
  · rw [endingLength] at h
    split_ifs at h <;> simp_all

theorem mem_delimiter {c : CodeUnit} (h : c ∈ text.take (delimiterLength text)) :
    c = 13 ∨ c = 10 := by
  by_cases hzero : delimiterLength text = 0
  · rw [hzero] at h
    exact absurd h not_mem_nil
  · rw [(delimiterLength_eq hzero).2.2, take_add, mem_append] at h
    exact h.elim mem_ending mem_ending

/-! ## Searching -/

theorem firstDelimiter_eq_some {found : ℕ × ℕ} (h : firstDelimiter text = some found) :
    found.1 < text.length ∧ delimiterLength (text.drop found.1) = found.2 ∧ found.2 ≠ 0 ∧
      ∀ j < found.1, delimiterLength (text.drop j) = 0 := by
  induction text generalizing found with
  | nil => simp [firstDelimiter] at h
  | cons c text ih =>
    rw [firstDelimiter] at h
    split_ifs at h with hhere
    · obtain rfl := some.inj h
      exact ⟨by simp, rfl, hhere, fun j hj ↦ absurd hj (not_lt_zero j)⟩
    · obtain ⟨later, hlater, rfl⟩ := map_eq_some_iff.mp h
      obtain ⟨hlt, hlength, hne, hbefore⟩ := ih hlater
      refine ⟨by simpa using hlt, hlength, hne, fun j hj ↦ ?_⟩
      rcases j with _ | j
      · exact not_not.mp hhere
      · exact hbefore j (by simpa using hj)

theorem firstDelimiter_eq_none :
    firstDelimiter text = none ↔ ∀ j, delimiterLength (text.drop j) = 0 := by
  induction text with
  | nil => simp [firstDelimiter, delimiterLength, endingLength]
  | cons c text ih =>
    rw [firstDelimiter]
    split_ifs with hhere
    · exact ⟨fun h ↦ h.elim, fun h ↦ absurd (h 0) hhere⟩
    · rw [map_eq_none_iff, ih]
      refine ⟨fun h j ↦ ?_, fun h j ↦ h (j + 1)⟩
      rcases j with _ | j
      · exact not_not.mp hhere
      · exact h j

theorem firstDelimiter_append_none {text' : JsString} (h : firstDelimiter text = none)
    (hother : ∀ c ∈ text', c ≠ 13 ∧ c ≠ 10) : firstDelimiter (text ++ text') = none := by
  rw [firstDelimiter_eq_none] at h ⊢
  intro j
  have hparts : ∀ l : JsString, delimiterLength l = 0 → delimiterLength (l ++ text') = 0 := by
    intro l hl
    cases text' with
    | nil => rwa [List.append_nil]
    | cons c text' =>
      obtain ⟨h13, h10⟩ := hother c mem_cons_self
      rwa [delimiterLength_other h13 h10]
  rcases le_total j text.length with hj | hj
  · rw [drop_append_of_le_length hj]
    exact hparts _ (h j)
  · rw [drop_append, drop_of_length_le hj, nil_append]
    cases htail : text'.drop (j - text.length) with
    | nil => rfl
    | cons c tail =>
      have hmem : c ∈ text' := mem_of_mem_drop (htail ▸ mem_cons_self)
      obtain ⟨h13, h10⟩ := hother c hmem
      exact delimiterLength_other h13 h10 [] tail

/-! ## The buffer -/

/-- `text.slice(start, stop)` -/
def slice (text : JsString) (start stop : ℕ) : JsString := (text.drop start).take (stop - start)

inductive BufferRefusal where
  /-- `assertAppendSize` threw. -/
  | size
  /-- The budget threw. -/
  | budget
  deriving DecidableEq, Repr

/-- `createSseBlockBuffer`, with the budget it shares. -/
structure SseBlockBuffer (β : Type) where
  buffer : JsString := []
  offset : ℕ := 0
  scanOffset : ℕ := 0
  needsScan : Bool := false
  /-- The last unit of the text, `none` for `NaN`. -/
  lastCodeUnit : Option CodeUnit := none
  bufferBytes : ℕ := 0
  budget : β
  /-- What the budget was charged for the text so far. -/
  charged : ℕ := 0
  /-- What it was given back. -/
  released : ℕ := 0

namespace SseBlockBuffer

variable {β : Type} (B : TranslatorBudget β)

/-- The text that is not consumed. -/
def tail (b : SseBlockBuffer β) : JsString := b.buffer.drop b.offset

def isEmpty (b : SseBlockBuffer β) : Bool := b.offset == b.buffer.length

def compact (b : SseBlockBuffer β) : SseBlockBuffer β :=
  if b.offset = 0 then b
  else { b with
    buffer := b.buffer.drop b.offset
    scanOffset := b.scanOffset - b.offset
    offset := 0 }

/-- `budget.reserveTransient(bytes, scope)` -/
def reserve (bytes : ℕ) : Act (SseBlockBuffer β) BufferRefusal PUnit := do
  let b ← get
  match B.reserveTransient b.budget bytes with
  | none => throw .budget
  | some budget => set { b with budget, charged := b.charged + bytes }

/-- The reservation takes the place of what was charged before. -/
def settle (nextBytes : ℕ) : Act (SseBlockBuffer β) BufferRefusal PUnit :=
  modify fun b ↦ { b with
    budget := B.releaseRetained (B.commitRetained b.budget nextBytes) b.bufferBytes
    released := b.released + b.bufferBytes
    bufferBytes := nextBytes }

def append (assertAppendSize : ℕ → Bool) (fragment : JsString) :
    Act (SseBlockBuffer β) BufferRefusal PUnit :=
  Act.when (fragment ≠ []) do
    let b ← get
    let fragmentBytes := Utf8.byteLength fragment
    let fragmentBytes :=
      if b.offset < b.buffer.length ∧ Utf8.joins b.lastCodeUnit fragment.head? = true then
        fragmentBytes - 2
      else fragmentBytes
    let nextBytes := b.bufferBytes + fragmentBytes
    Act.when (assertAppendSize nextBytes = false) (throw .size)
    reserve B nextBytes
    modify compact
    modify fun b ↦ { b with
      buffer := b.buffer ++ fragment
      lastCodeUnit := fragment.getLast?
      needsScan := b.needsScan || fragment.contains 13 || fragment.contains 10 }
    settle B nextBytes

/-- What the scan has to visit again: a delimiter is at most four units long. -/
def resume (b : SseBlockBuffer β) : ℕ := max b.offset (b.buffer.length - 3)

def next : Act (SseBlockBuffer β) BufferRefusal (Option (JsString × JsString)) := do
  let b ← get
  if b.needsScan = false then
    set { b with scanOffset := b.resume }
    pure none
  else
    match execDelimiter b.buffer b.scanOffset with
    | none =>
      set { b with scanOffset := b.resume, needsScan := false }
      pure none
    | some (start, length) =>
      let stop := start + length
      let block := slice b.buffer b.offset start
      let delimiter := slice b.buffer start stop
      let nextBytes := b.bufferBytes - Utf8.byteLength block - delimiter.length
      reserve B nextBytes
      settle B nextBytes
      modify fun b ↦ { b with offset := stop, scanOffset := stop }
      modify fun b ↦
        if b.offset = b.buffer.length then
          { b with
            buffer := []
            offset := 0
            scanOffset := 0
            needsScan := false
            lastCodeUnit := none }
        else b
      pure (some (block, delimiter))

def clear (b : SseBlockBuffer β) : SseBlockBuffer β where
  budget := B.releaseRetained b.budget b.bufferBytes
  charged := b.charged
  released := b.released + b.bufferBytes

/-! ### What the operations do -/

variable {B} {b : SseBlockBuffer β}

theorem compact_eq (b : SseBlockBuffer β) : b.compact =
    { b with buffer := b.tail, scanOffset := b.scanOffset - b.offset, offset := 0 } := by
  rw [compact]
  split_ifs with h
  · cases b
    simp_all [tail]
  · rfl

/-- What a reservation that is granted and settled leaves. -/
def recharged (B : TranslatorBudget β) (b : SseBlockBuffer β) (budget : β) (nextBytes : ℕ) :
    SseBlockBuffer β :=
  { b with
    budget := B.releaseRetained (B.commitRetained budget nextBytes) b.bufferBytes
    charged := b.charged + nextBytes
    released := b.released + b.bufferBytes
    bufferBytes := nextBytes }

/-- The bytes of the text with a fragment, as they are reckoned. -/
def appendBytes (b : SseBlockBuffer β) (fragment : JsString) : ℕ :=
  b.bufferBytes +
    if b.offset < b.buffer.length ∧ Utf8.joins b.lastCodeUnit fragment.head? = true then
      Utf8.byteLength fragment - 2
    else Utf8.byteLength fragment

/-- The text with a fragment. -/
def appended (b : SseBlockBuffer β) (fragment : JsString) : SseBlockBuffer β :=
  { b with
    buffer := b.tail ++ fragment
    offset := 0
    scanOffset := b.scanOffset - b.offset
    lastCodeUnit := fragment.getLast?
    needsScan := b.needsScan || fragment.contains 13 || fragment.contains 10 }

theorem append_nil (assertAppendSize : ℕ → Bool) (b : SseBlockBuffer β) :
    append B assertAppendSize [] b = (.ok ⟨⟩, b) := rfl

variable {fragment : JsString}

/-- **A fragment is refused, and nothing has changed, or it is appended.** -/
theorem append_cases (assertAppendSize : ℕ → Bool) (hne : fragment ≠ []) (b : SseBlockBuffer β) :
    (append B assertAppendSize fragment b = (.error .size, b) ∧
        assertAppendSize (b.appendBytes fragment) = false) ∨
      (append B assertAppendSize fragment b = (.error .budget, b) ∧
        B.reserveTransient b.budget (b.appendBytes fragment) = none) ∨
      ∃ budget, B.reserveTransient b.budget (b.appendBytes fragment) = some budget ∧
        append B assertAppendSize fragment b =
          (.ok ⟨⟩, (recharged B b budget (b.appendBytes fragment)).appended fragment) := by
  have hbytes : b.appendBytes fragment = b.bufferBytes +
      if b.offset < b.buffer.length ∧ Utf8.joins b.lastCodeUnit fragment.head? = true then
        Utf8.byteLength fragment - 2
      else Utf8.byteLength fragment := rfl
  rw [append, when_pos hne, bind_of_ok (get_run b), ← hbytes]
  by_cases hsize : assertAppendSize (b.appendBytes fragment) = false
  · rw [when_pos hsize]
    exact Or.inl ⟨rfl, hsize⟩
  · rw [when_neg hsize, bind_of_ok (pure_run _ b)]
    refine Or.inr ?_
    cases hgrant : B.reserveTransient b.budget (b.appendBytes fragment) with
    | none =>
      refine Or.inl ⟨?_, rfl⟩
      rw [bind_run, reserve, bind_of_ok (get_run b), hgrant]
      rfl
    | some budget =>
      refine Or.inr ⟨budget, rfl, ?_⟩
      have hreserve : reserve B (b.appendBytes fragment) b =
          (.ok ⟨⟩, { b with budget, charged := b.charged + b.appendBytes fragment }) := by
        rw [reserve, bind_of_ok (get_run b), hgrant]
        rfl
      rw [bind_of_ok hreserve, bind_of_ok (modify_run _ _),
        bind_of_ok (modify_run _ _), settle, modify_run, compact_eq]
      rfl

/-- The first delimiter that a scan finds, in the text that is not consumed. -/
def found (b : SseBlockBuffer β) : Option (ℕ × ℕ) :=
  if b.needsScan = false then none else execDelimiter b.buffer b.scanOffset

/-- The text behind a delimiter. -/
def consumed (b : SseBlockBuffer β) (stop : ℕ) : SseBlockBuffer β :=
  if stop = b.buffer.length then
    { b with buffer := [], offset := 0, scanOffset := 0, needsScan := false, lastCodeUnit := none }
  else { b with offset := stop, scanOffset := stop }

/-- The bytes behind a delimiter, as they are reckoned. -/
def nextBytes (b : SseBlockBuffer β) (start length : ℕ) : ℕ :=
  b.bufferBytes - Utf8.byteLength (slice b.buffer b.offset start) -
    (slice b.buffer start (start + length)).length

theorem next_none (h : b.found = none) :
    next B b = (.ok none, { b with scanOffset := b.resume, needsScan := false }) := by
  rw [next, bind_of_ok (get_run b)]
  by_cases hscan : b.needsScan = false
  · rw [if_pos hscan, ← hscan]
    rfl
  · rw [found, if_neg hscan] at h
    rw [if_neg hscan, h]
    rfl

variable {start length : ℕ}

/-- **A block is refused, and nothing has changed, or it is consumed.** -/
theorem next_some (h : b.found = some (start, length)) : (next B b = (.error .budget, b) ∧
        B.reserveTransient b.budget (b.nextBytes start length) = none) ∨
      ∃ budget, B.reserveTransient b.budget (b.nextBytes start length) = some budget ∧
        next B b = (.ok (some (slice b.buffer b.offset start, slice b.buffer start (start + length))),
          (recharged B b budget (b.nextBytes start length)).consumed (start + length)) := by
  have hscan : ¬b.needsScan = false := by
    intro hscan
    rw [found, if_pos hscan] at h
    exact some_ne_none _ h.symm
  rw [found, if_neg hscan] at h
  rw [next, bind_of_ok (get_run b), if_neg hscan, h]
  dsimp only
  rw [← nextBytes]
  cases hgrant : B.reserveTransient b.budget (b.nextBytes start length) with
  | none =>
    refine Or.inl ⟨?_, rfl⟩
    rw [bind_run, reserve, bind_of_ok (get_run b), hgrant]
    rfl
  | some budget =>
    refine Or.inr ⟨budget, rfl, ?_⟩
    have hreserve : reserve B (b.nextBytes start length) b =
        (.ok ⟨⟩, { b with budget, charged := b.charged + b.nextBytes start length }) := by
      rw [reserve, bind_of_ok (get_run b), hgrant]
      rfl
    rw [bind_of_ok hreserve, settle, bind_of_ok (modify_run _ _),
      bind_of_ok (modify_run _ _), bind_of_ok (modify_run _ _), pure_run,
      consumed]
    by_cases hstop : start + length = b.buffer.length
    · simp only [recharged, hstop, if_true]
    · simp only [recharged, hstop, if_false]

/-! ### What holds between the operations -/

/-- Where the scan stands, and what is reckoned. -/
structure Sound (b : SseBlockBuffer β) : Prop where
  offset_le : b.offset ≤ b.scanOffset
  scanOffset_le : b.scanOffset ≤ b.resume
  inside : b.offset ≤ b.buffer.length
  /-- What was scanned brought nothing. -/
  scanned : b.needsScan = false → firstDelimiter (b.buffer.drop b.scanOffset) = none
  bytes : b.bufferBytes = Utf8.byteLength b.tail
  ledger : b.charged = b.released + b.bufferBytes
  last : b.tail ≠ [] → b.lastCodeUnit = b.tail.getLast?

theorem tail_ne_nil (b : SseBlockBuffer β) : b.tail ≠ [] ↔ b.offset < b.buffer.length := by
  rw [tail, Ne, drop_eq_nil_iff, not_le]

theorem sound_new (budget : β) : Sound ({ budget } : SseBlockBuffer β) where
  offset_le := le_refl 0
  scanOffset_le := zero_le _
  inside := le_refl 0
  scanned _ := rfl
  bytes := rfl
  ledger := rfl
  last h := absurd rfl h

theorem Sound.scan_le (h : Sound b) : b.scanOffset ≤ b.buffer.length := by
  have := h.scanOffset_le
  have := h.inside
  rw [resume] at *
  omega

theorem Sound.appendBytes_eq (h : Sound b) (fragment : JsString) :
    b.appendBytes fragment = Utf8.byteLength (b.tail ++ fragment) := by
  have hsum := Utf8.byteLength_append b.tail fragment
  rw [appendBytes, h.bytes]
  by_cases htail : b.tail = []
  · have hnot : ¬b.offset < b.buffer.length := by rw [← tail_ne_nil]; exact not_not.mpr htail
    rw [if_neg fun hand ↦ hnot hand.1, htail, nil_append, Utf8.byteLength_nil, zero_add]
  · rw [h.last htail]
    by_cases hjoin : Utf8.joins b.tail.getLast? fragment.head? = true
    · have := Utf8.three_le_of_joins hjoin
      rw [if_pos ⟨(tail_ne_nil b).mp htail, hjoin⟩]
      rw [if_pos hjoin] at hsum
      omega
    · rw [if_neg fun hand ↦ hjoin hand.2]
      rw [if_neg hjoin] at hsum
      omega

theorem tail_appended (b : SseBlockBuffer β) (budget : β) (n : ℕ) (fragment : JsString) :
    ((recharged B b budget n).appended fragment).tail = b.tail ++ fragment := rfl

theorem Sound.appended (h : Sound b) (budget : β) (hne : fragment ≠ []) :
    Sound ((recharged B b budget (b.appendBytes fragment)).appended fragment) where
  offset_le := zero_le _
  scanOffset_le := by
    have hscan := h.scanOffset_le
    have hin := h.inside
    simp only [SseBlockBuffer.appended, recharged, resume, tail, length_append,
      length_drop] at hscan ⊢
    omega
  inside := zero_le _
  scanned hscan := by
    have hparts : (b.needsScan = false ∧ fragment.contains 13 = false) ∧
        fragment.contains 10 = false := by
      simpa only [SseBlockBuffer.appended, recharged, Bool.or_eq_false_iff] using hscan
    have hdrop : (b.tail ++ fragment).drop (b.scanOffset - b.offset) =
        b.buffer.drop b.scanOffset ++ fragment := by
      have hle := h.scan_le
      have hoff := h.offset_le
      rw [drop_append_of_le_length (by rw [tail, length_drop]; omega), tail,
        drop_drop, Nat.add_sub_cancel' hoff]
    change firstDelimiter ((b.tail ++ fragment).drop (b.scanOffset - b.offset)) = none
    rw [hdrop]
    refine firstDelimiter_append_none (h.scanned hparts.1.1) fun c hc ↦ ⟨?_, ?_⟩
    · rintro rfl
      exact absurd (hparts.1.2.symm.trans (contains_iff_mem.mpr hc)) Bool.false_ne_true
    · rintro rfl
      exact absurd (hparts.2.symm.trans (contains_iff_mem.mpr hc)) Bool.false_ne_true
  bytes := h.appendBytes_eq fragment
  ledger := by
    have := h.ledger
    change b.charged + b.appendBytes fragment = b.released + b.bufferBytes + b.appendBytes fragment
    omega
  last _ := by
    rw [tail_appended, getLast?_append_of_ne_nil _ hne]
    rfl

theorem Sound.found_some (h : Sound b) (hfound : b.found = some (start, length)) :
    b.needsScan = true ∧ b.scanOffset ≤ start ∧ start < b.buffer.length ∧
      delimiterLength (b.buffer.drop start) = length ∧ length ≠ 0 ∧
        start + length ≤ b.buffer.length ∧
          ∀ j, b.scanOffset ≤ j → j < start → delimiterLength (b.buffer.drop j) = 0 := by
  rw [found] at hfound
  split_ifs at hfound with hscan
  obtain ⟨⟨i, n⟩, hfirst, heq⟩ := map_eq_some_iff.mp hfound
  obtain ⟨rfl, rfl⟩ := Prod.mk.inj heq
  obtain ⟨hlt, hlength, hne, hbefore⟩ := firstDelimiter_eq_some hfirst
  have hle := h.scan_le
  rw [drop_drop] at hlength
  rw [length_drop] at hlt
  have hfits := delimiterLength_le (b.buffer.drop (b.scanOffset + i))
  rw [hlength, length_drop] at hfits
  refine ⟨Bool.eq_true_of_not_eq_false hscan, le_add_right _ _, by omega, hlength, hne,
    by omega, fun j hj hlt ↦ ?_⟩
  have hbefore' := hbefore (j - b.scanOffset) (by omega)
  rwa [drop_drop, Nat.add_sub_cancel' hj] at hbefore'

theorem Sound.found_none (h : Sound b) (hfound : b.found = none) :
    firstDelimiter (b.buffer.drop b.scanOffset) = none := by
  rw [found] at hfound
  split_ifs at hfound with hscan
  · exact h.scanned hscan
  · exact map_eq_none_iff.mp hfound

theorem Sound.tail_eq (h : Sound b) (hfound : b.found = some (start, length)) :
    b.tail = slice b.buffer b.offset start ++ slice b.buffer start (start + length) ++
      b.buffer.drop (start + length) := by
  obtain ⟨-, hscan, hlt, -, -, hfits, -⟩ := h.found_some hfound
  have hoff := h.offset_le
  rw [tail, slice, slice, Nat.add_sub_cancel_left, append_assoc, ← drop_drop, take_append_drop]
  conv_lhs => rw [← take_append_drop (start - b.offset) (b.buffer.drop b.offset)]
  rw [drop_drop, Nat.add_sub_cancel' (hoff.trans hscan)]

theorem Sound.delimiter_eq (h : Sound b) (hfound : b.found = some (start, length)) :
    slice b.buffer start (start + length) =
      (b.buffer.drop start).take (delimiterLength (b.buffer.drop start)) := by
  rw [slice, Nat.add_sub_cancel_left, (h.found_some hfound).2.2.2.1]

theorem Sound.nextBytes_eq (h : Sound b) (hfound : b.found = some (start, length)) :
    b.nextBytes start length = Utf8.byteLength (b.buffer.drop (start + length)) := by
  have hendings : ∀ c ∈ slice b.buffer start (start + length), c = 13 ∨ c = 10 := by
    rw [h.delimiter_eq hfound]
    exact fun c hc ↦ mem_delimiter hc
  have hascii : ∀ c ∈ slice b.buffer start (start + length), c.toNat < 0xd800 := by
    intro c hc
    rcases hendings c hc with rfl | rfl <;> decide
  have hne : slice b.buffer start (start + length) ≠ [] := by
    obtain ⟨-, -, hlt, -, hpos, -, -⟩ := h.found_some hfound
    refine ne_nil_of_length_pos ?_
    rw [slice, length_take, length_drop]
    omega
  have hfirst : Utf8.byteLength (slice b.buffer b.offset start ++ slice b.buffer start (start + length)) =
      Utf8.byteLength (slice b.buffer b.offset start) +
        (slice b.buffer start (start + length)).length := by
    rw [Utf8.byteLength_append_of_not_joins (Utf8.not_joins_right fun c hc ↦
      hascii c (mem_of_mem_head? hc)), Utf8.byteLength_endings hendings]
  have hsum : Utf8.byteLength b.tail = Utf8.byteLength (slice b.buffer b.offset start) +
      (slice b.buffer start (start + length)).length +
        Utf8.byteLength (b.buffer.drop (start + length)) := by
    rw [h.tail_eq hfound, Utf8.byteLength_append_of_not_joins (Utf8.not_joins_left fun c hc ↦ ?_), hfirst]
    rw [getLast?_append_of_ne_nil _ hne] at hc
    exact hascii c (mem_of_getLast? hc)
  rw [nextBytes, h.bytes, hsum]
  omega

theorem tail_consumed (b : SseBlockBuffer β) (budget : β) (n stop : ℕ) :
    ((recharged B b budget n).consumed stop).tail = b.buffer.drop stop := by
  rw [consumed]
  split_ifs with hstop
  · rw [hstop]
    exact (drop_length).symm
  · rfl

theorem Sound.consumed (h : Sound b) (budget : β) (hfound : b.found = some (start, length)) :
    Sound ((recharged B b budget (b.nextBytes start length)).consumed (start + length)) := by
  have hbytes := h.nextBytes_eq hfound
  obtain ⟨hscan, hle, hlt, -, hpos, hfits, -⟩ := h.found_some hfound
  have hledger : b.charged + b.nextBytes start length =
      b.released + b.bufferBytes + b.nextBytes start length := by rw [h.ledger]
  rw [SseBlockBuffer.consumed]
  split_ifs with hstop
  · have hzero : b.nextBytes start length = 0 := by
      have hdrop : b.buffer.drop (start + length) = [] := drop_eq_nil_of_le (le_of_eq hstop.symm)
      rw [hbytes, hdrop, Utf8.byteLength_nil]
    exact ⟨le_refl 0, zero_le _, le_refl 0, fun _ ↦ rfl, hzero, hledger, fun h ↦ absurd rfl h⟩
  · refine ⟨le_refl _, le_max_left _ _, hfits, fun h ↦ ?_, hbytes, hledger, fun hne ↦ ?_⟩
    · exact absurd (hscan.symm.trans h) (by decide)
    · have hrest : b.buffer.drop (start + length) ≠ [] := hne
      have htail := h.tail_eq hfound
      have hnil : b.tail ≠ [] := by
        rw [htail]
        exact append_ne_nil_of_right_ne_nil _ hrest
      change b.lastCodeUnit = (b.buffer.drop (start + length)).getLast?
      rw [h.last hnil, htail, getLast?_append_of_ne_nil _ hrest]

theorem Sound.stopped (h : Sound b) (hfound : b.found = none) :
    Sound { b with scanOffset := b.resume, needsScan := false } where
  offset_le := le_max_left _ _
  scanOffset_le := Nat.le_refl _
  inside := h.inside
  scanned _ := by
    have hnone := firstDelimiter_eq_none.mp (h.found_none hfound)
    refine firstDelimiter_eq_none.mpr fun j ↦ ?_
    have := hnone (b.resume - b.scanOffset + j)
    rwa [drop_drop, ← Nat.add_assoc, Nat.add_sub_cancel' h.scanOffset_le, ← drop_drop]
      at this
  bytes := h.bytes
  ledger := h.ledger
  last := h.last

theorem tail_compact (b : SseBlockBuffer β) : b.compact.tail = b.tail := by
  rw [compact_eq]
  rfl

theorem Sound.compact (h : Sound b) : Sound b.compact := by
  have hle := h.scan_le
  have hscan := h.scanOffset_le
  have hoff := h.offset_le
  rw [compact_eq]
  refine ⟨zero_le _, ?_, zero_le _, fun hneeds ↦ ?_, h.bytes, h.ledger, h.last⟩
  · simp only [resume, tail, length_drop] at hscan ⊢
    omega
  · change firstDelimiter (b.tail.drop (b.scanOffset - b.offset)) = none
    rw [tail, drop_drop, Nat.add_sub_cancel' hoff]
    exact h.scanned hneeds

theorem Sound.clear (h : Sound b) : Sound (b.clear B) where
  offset_le := le_refl 0
  scanOffset_le := zero_le _
  inside := le_refl 0
  scanned _ := rfl
  bytes := rfl
  ledger := h.ledger
  last h := absurd rfl h

/-- What was scanned of the text. -/
def scanned (b : SseBlockBuffer β) : JsString := slice b.buffer b.offset b.scanOffset

/-- What was not. -/
def unscanned (b : SseBlockBuffer β) : JsString := b.buffer.drop b.scanOffset

theorem Sound.scanned_append (h : Sound b) : b.scanned ++ b.unscanned = b.tail := by
  rw [SseBlockBuffer.scanned, unscanned, slice, tail]
  conv_rhs => rw [← take_append_drop (b.scanOffset - b.offset) (b.buffer.drop b.offset)]
  rw [drop_drop, Nat.add_sub_cancel' h.offset_le]

theorem Sound.compact_parts (h : Sound b) :
    b.compact.scanned = b.scanned ∧ b.compact.unscanned = b.unscanned := by
  have hoff := h.offset_le
  rw [compact_eq]
  constructor
  · change (b.tail.drop 0).take (b.scanOffset - b.offset - 0) = _
    rw [drop_zero, Nat.sub_zero]
    rfl
  · change b.tail.drop (b.scanOffset - b.offset) = _
    rw [tail, drop_drop, Nat.add_sub_cancel' hoff]
    rfl

theorem scanned_consumed (b : SseBlockBuffer β) (stop : ℕ) : (b.consumed stop).scanned = [] := by
  rw [consumed]
  split_ifs
  · rfl
  · rw [SseBlockBuffer.scanned, slice, Nat.sub_self, take_zero]

theorem unscanned_consumed (b : SseBlockBuffer β) (stop : ℕ) :
    (b.consumed stop).unscanned = b.buffer.drop stop := by
  rw [consumed]
  split_ifs with hstop
  · rw [hstop, drop_length]
    rfl
  · rfl

theorem isEmpty_consumed (b : SseBlockBuffer β) (stop : ℕ) :
    (b.consumed stop).isEmpty = decide (stop = b.buffer.length) := by
  rw [consumed]
  split_ifs with hstop
  · rw [decide_eq_true hstop]
    rfl
  · rw [decide_eq_false hstop]
    exact beq_false_of_ne hstop

theorem Sound.append (h : Sound b) (fragment : JsString) :
    (SseBlockBuffer.append B (fun _ ↦ true) fragment b = (.error .budget, b) ∧
        ∃ bytes, B.reserveTransient b.budget bytes = none) ∨
      ∃ b', SseBlockBuffer.append B (fun _ ↦ true) fragment b = (.ok ⟨⟩, b') ∧ Sound b' ∧
        b'.scanned = b.scanned ∧ b'.unscanned = b.unscanned ++ fragment := by
  by_cases hne : fragment = []
  · subst hne
    exact Or.inr ⟨b, rfl, h, rfl, (List.append_nil _).symm⟩
  · rcases append_cases (B := B) (fun _ ↦ true) hne b with ⟨-, hsize⟩ | ⟨hrun, hnone⟩ |
      ⟨budget, -, hrun⟩
    · nomatch hsize
    · exact Or.inl ⟨hrun, _, hnone⟩
    · refine Or.inr ⟨_, hrun, h.appended budget hne, ?_, ?_⟩
      all_goals
        have hoff := h.offset_le
        have hle : b.scanOffset - b.offset ≤ b.tail.length := by
          have := h.scan_le
          rw [tail, length_drop]
          omega
      · change ((b.tail ++ fragment).drop 0).take (b.scanOffset - b.offset - 0) = _
        rw [drop_zero, Nat.sub_zero, take_append_of_le_length hle]
        rfl
      · change (b.tail ++ fragment).drop (b.scanOffset - b.offset) = _
        rw [drop_append_of_le_length hle, tail, drop_drop, Nat.add_sub_cancel' hoff]
        rfl

/-! ### Any sequence of calls -/

/-- A call of the buffer. -/
inductive Call where
  | append (fragment : JsString)
  | next
  | compact
  | clear

def Call.run (B : TranslatorBudget β) (assertAppendSize : ℕ → Bool) :
    Call → Act (SseBlockBuffer β) BufferRefusal (Option (JsString × JsString))
  | .append fragment => do
    SseBlockBuffer.append B assertAppendSize fragment
    pure none
  | .next => SseBlockBuffer.next B
  | .compact => do
    modify SseBlockBuffer.compact
    pure none
  | .clear => do
    modify (SseBlockBuffer.clear B)
    pure none

/-- The buffer behind some calls, whatever they throw. -/
def runCalls (B : TranslatorBudget β) (assertAppendSize : ℕ → Bool) (calls : List Call)
    (b : SseBlockBuffer β) : SseBlockBuffer β :=
  calls.foldl (fun b call ↦ (call.run B assertAppendSize b).2) b

/-- What a call makes of the text that is not consumed. -/
def Unconsumed (text : JsString) : Call → Except BufferRefusal (Option (JsString × JsString)) →
    JsString → Prop
  | _, .error _, text' => text' = text
  | .append fragment, .ok _, text' => text' = text ++ fragment
  | .next, .ok none, text' => text' = text
  | .next, .ok (some (block, delimiter)), text' => text = block ++ delimiter ++ text'
  | .compact, .ok _, text' => text' = text
  | .clear, .ok _, text' => text' = []

/-- **One call** keeps the reckoning, and consumes or adds what it says. -/
theorem Sound.call (h : Sound b) (assertAppendSize : ℕ → Bool) (call : Call) :
    Sound (call.run B assertAppendSize b).2 ∧
      Unconsumed b.tail call (call.run B assertAppendSize b).1
        (call.run B assertAppendSize b).2.tail := by
  cases call with
  | append fragment =>
    rw [Call.run]
    by_cases hne : fragment = []
    · subst hne
      rw [bind_of_ok (append_nil assertAppendSize b)]
      exact ⟨h, (List.append_nil _).symm⟩
    · rcases append_cases (B := B) assertAppendSize hne b with ⟨hrun, -⟩ | ⟨hrun, -⟩ |
        ⟨budget, -, hrun⟩
      · rw [bind_run, hrun]
        exact ⟨h, rfl⟩
      · rw [bind_run, hrun]
        exact ⟨h, rfl⟩
      · rw [bind_of_ok hrun]
        exact ⟨h.appended budget hne, rfl⟩
  | next =>
    rw [Call.run]
    cases hfound : b.found with
    | none =>
      rw [next_none hfound]
      exact ⟨h.stopped hfound, rfl⟩
    | some found =>
      obtain ⟨start, length⟩ := found
      rcases next_some (B := B) hfound with ⟨hrun, -⟩ | ⟨budget, -, hrun⟩
      · rw [hrun]
        exact ⟨h, rfl⟩
      · rw [hrun]
        refine ⟨h.consumed budget hfound, ?_⟩
        rw [tail_consumed]
        exact h.tail_eq hfound
  | compact => exact ⟨h.compact, tail_compact b⟩
  | clear => exact ⟨h.clear, rfl⟩

/-- **The reckoning holds behind every sequence of calls**, whatever is refused. -/
theorem sound_runCalls (B : TranslatorBudget β) (assertAppendSize : ℕ → Bool) (calls : List Call)
    (h : Sound b) : Sound (runCalls B assertAppendSize calls b) := by
  induction calls generalizing b with
  | nil => exact h
  | cons call calls ih => exact ih (h.call assertAppendSize call).1

end SseBlockBuffer

end Sse
