import Mathlib.Tactic.IntervalCases
import Mathlib.Data.List.TakeDrop
import OpenCodex.Data.Cutting
import OpenCodex.Sse.Framing

/-!
# Framing does not depend on the chunks

What the framers should compute says nothing about chunks: `blocksOf bytes` cuts a byte string at its
pairs of line endings, each ending taken as long as it can be.  The state of a framer that has read
some bytes is then a `Cutting.Frontier` of those bytes — the blocks reported, the candidate, the tail,
and whether a late line feed may come — and every move of the scanning loop is one of the rules for
frontiers.  So the blocks a framer reports are those of `blocksOf`, for every way of cutting the bytes
into chunks.

The loop itself is treated once (`scanDelimiters_ensures`): an invariant of its two indices is carried
through where it survives a byte that begins no delimiter and the action at one that does.
-/

set_option autoImplicit false

open List Cutting Act Nat

namespace Sse

/-! ## The blocks of a byte string -/

/-- The length of the line ending at the head: a carriage return takes a line feed after it along. -/
def lineEnding (bytes : Bytes) : ℕ :=
  if bytes[0]? = some 13 then if bytes[1]? = some 10 then 2 else 1
  else if bytes[0]? = some 10 then 1 else 0

/-- The length of the pair of line endings at the head, `0` where there is none. -/
def linePair (bytes : Bytes) : ℕ :=
  let first := lineEnding bytes
  let second := lineEnding (bytes.drop first)
  if first = 0 ∨ second = 0 then 0 else first + second

/-- The blocks of a byte string that a pair of line endings closes, and what follows the last. -/
def blocksOf (bytes : Bytes) : List Bytes × Bytes := Cutting.blocks linePair [] bytes

@[simp] theorem blocksOf_nil : blocksOf [] = ([], []) := blocks_nil []

theorem length_blocksOf_le (bytes : Bytes) :
    (∀ block ∈ (blocksOf bytes).1, block.length ≤ bytes.length) ∧
      (blocksOf bytes).2.length ≤ bytes.length := by
  have h := length_blocks_le (d := linePair) [] bytes
  simp only [length_nil, zero_add] at h
  exact h

/-- A line feed may still come for a delimiter that ends in a carriage return. -/
def lateLineFeed (byte : UInt8) : Bool := byte == 10

/-! ## What a scanner reads -/

theorem byteAt_eq (previousTail chunk : Bytes) (index : ℕ) :
    byteAt previousTail chunk index = (previousTail ++ chunk)[index]? := by
  rw [byteAt, getElem?_append]

variable {stop : ℕ}

theorem length_subarray (bytes : Bytes) (start : ℕ) (h : stop ≤ bytes.length) :
    (subarray bytes start stop).length = stop - start := by
  rw [subarray, length_take, length_drop]
  omega

variable {start : ℕ}

theorem subarray_drop (bytes : Bytes) (h : start ≤ stop) :
    subarray bytes start stop ++ bytes.drop stop = bytes.drop start := by
  rw [subarray]
  conv_rhs => rw [← take_append_drop (stop - start) (bytes.drop start), drop_drop]
  rw [Nat.add_sub_cancel' h]

theorem subarray_self (bytes : Bytes) (start : ℕ) : subarray bytes start start = [] := by
  simp [subarray]

theorem subarray_succ {bytes : Bytes} (h : start ≤ stop) {byte : UInt8}
    (hbyte : bytes[stop]? = some byte) :
    subarray bytes start (stop + 1) = subarray bytes start stop ++ [byte] := by
  have hget : (bytes.drop start)[stop - start]? = some byte := by
    rw [getElem?_drop, Nat.add_sub_cancel' h, hbyte]
  rw [subarray, subarray, succ_sub h, take_succ, hget]
  rfl

theorem copyRange_eq {bytes : Bytes} (hstop : stop ≤ bytes.length) (hstart : start ≤ stop) :
    copyRange start stop (fun i ↦ bytes[i]?) = subarray bytes start stop := by
  obtain ⟨n, rfl⟩ := Nat.exists_eq_add_of_le hstart
  rw [copyRange, Nat.add_sub_cancel_left]
  clear hstart
  induction n with
  | zero => rw [add_zero, subarray_self]; rfl
  | succ n ih =>
    obtain ⟨byte, hbyte⟩ : ∃ byte, bytes[start + n]? = some byte := by
      exact ⟨_, getElem?_eq_getElem (by omega)⟩
    rw [← add_assoc, subarray_succ (by omega) hbyte, range'_concat, filterMap_append, ih (by omega)]
    simp [hbyte]

theorem copyRange_rest {bytes : Bytes} (h : start ≤ bytes.length) :
    copyRange start bytes.length (fun i ↦ bytes[i]?) = bytes.drop start := by
  rw [copyRange_eq (le_refl _) h, subarray, take_of_length_le (by rw [length_drop])]

/-! ## Delimiters -/

theorem sseDelimiterLengthAt_shift (i n : ℕ) (g : ℕ → Option UInt8) :
    sseDelimiterLengthAt i (i + n) g = sseDelimiterLengthAt 0 n (fun k ↦ g (i + k)) := by
  have hsub : ∀ k, i + k - i = k := by intro k; omega
  have hge : ∀ k, i + k ≥ i + n ↔ k ≥ n := by intro k; omega
  by_cases hcr : g i = some 13 ∧ g (i + 1) = some 10
  · simp only [sseDelimiterLengthAt, Nat.add_assoc, Nat.add_zero, Nat.zero_add, hcr, hge,
      add_lt_add_iff_left, and_self, if_true]
    split_ifs <;> simp only [hsub, sub_zero]
  · simp only [sseDelimiterLengthAt, Nat.add_assoc, Nat.add_zero, Nat.zero_add, hge,
      add_lt_add_iff_left, if_neg hcr]
    split_ifs <;> simp only [hsub, sub_zero]

/-- What a scanner that reads `bytes` finds at an index. -/
def found (bytes : Bytes) (index : ℕ) : Option ℕ :=
  sseDelimiterLengthAt index bytes.length (fun i ↦ bytes[i]?)

variable {index : ℕ}

theorem found_drop {bytes : Bytes} (h : index ≤ bytes.length) :
    found bytes index = found (bytes.drop index) 0 := by
  obtain ⟨n, hn⟩ := Nat.exists_eq_add_of_le h
  have hlen : (bytes.drop index).length = n := by rw [length_drop]; omega
  rw [found, found, hlen, hn, sseDelimiterLengthAt_shift]
  congr 1
  funext k
  rw [getElem?_drop]

/-- Undecided are the ends of a string that may begin a delimiter. -/
def Undecided (bytes : Bytes) : Prop := bytes = [] ∨ bytes = [10] ∨ bytes = [13] ∨ bytes = [13, 10]

theorem found_none {bytes : Bytes} (h : found bytes 0 = none) : Undecided bytes := by
  rcases bytes with _ | ⟨a, _ | ⟨b, _ | ⟨c, _ | ⟨d, l⟩⟩⟩⟩ <;>
    simp [found, sseDelimiterLengthAt, Undecided] at h ⊢
  all_goals grind

theorem found_zero {bytes : Bytes} (h : found bytes 0 = some 0) (hne : bytes ≠ []) (ext : Bytes) :
    linePair (bytes ++ ext) = 0 := by
  rcases bytes with _ | ⟨a, _ | ⟨b, _ | ⟨c, _ | ⟨d, l⟩⟩⟩⟩ <;>
    simp [found, sseDelimiterLengthAt, linePair, lineEnding] at h hne ⊢
  all_goals grind

theorem found_length {bytes : Bytes} {n : ℕ} (h : found bytes 0 = some (n + 1)) :
    n + 1 ≤ bytes.length := by
  rcases bytes with _ | ⟨a, _ | ⟨b, _ | ⟨c, _ | ⟨d, l⟩⟩⟩⟩ <;>
    simp [found, sseDelimiterLengthAt] at h ⊢
  all_goals grind

theorem found_closed {bytes : Bytes} {n : ℕ} (h : found bytes 0 = some (n + 1))
    (hend : n + 1 = bytes.length → bytes[n]? ≠ some 13) (ext : Bytes) :
    linePair (bytes ++ ext) = n + 1 := by
  rcases bytes with _ | ⟨a, _ | ⟨b, _ | ⟨c, _ | ⟨d, l⟩⟩⟩⟩ <;>
    simp [found, sseDelimiterLengthAt, linePair, lineEnding] at h hend ⊢
  all_goals grind

theorem found_late {bytes : Bytes} {n : ℕ} (h : found bytes 0 = some (n + 1))
    (hend : n + 1 = bytes.length) (hcr : bytes[n]? = some 13) :
    linePair bytes = bytes.length ∧ ∀ a ext, linePair (bytes ++ a :: ext) =
      bytes.length + if lateLineFeed a then 1 else 0 := by
  rcases bytes with _ | ⟨a, _ | ⟨b, _ | ⟨c, _ | ⟨d, l⟩⟩⟩⟩ <;>
    simp [found, sseDelimiterLengthAt, linePair, lineEnding, lateLineFeed] at h hend hcr ⊢
  all_goals grind

theorem Undecided.blocks {bytes : Bytes} (h : Undecided bytes) (acc : Bytes) :
    Cutting.blocks linePair acc bytes = ([], acc ++ bytes) := by
  rcases h with rfl | rfl | rfl | rfl
  · simp
  · rw [blocks_letter (by rfl), blocks_nil]
  · rw [blocks_letter (by rfl), blocks_nil]
  · rw [blocks_letter (by rfl), blocks_letter (by rfl), blocks_nil, append_assoc]
    rfl

theorem found_mem {bytes : Bytes} {n : ℕ} (h : found bytes 0 = some (n + 1)) :
    bytes.take (n + 1) ∈ delimiters := by
  have hsmall : n < 4 := by
    rcases bytes with _ | ⟨a, _ | ⟨b, _ | ⟨c, _ | ⟨d, l⟩⟩⟩⟩ <;>
      simp [found, sseDelimiterLengthAt] at h ⊢
    all_goals grind
  rcases bytes with _ | ⟨a, _ | ⟨b, l⟩⟩
  · simp [found, sseDelimiterLengthAt] at h
  · simp [found, sseDelimiterLengthAt] at h
  · by_cases hcr : a = 13 ∧ b = 10
    · obtain ⟨rfl, rfl⟩ := hcr
      rcases l with _ | ⟨c, _ | ⟨d, l⟩⟩ <;>
        simp [found, sseDelimiterLengthAt, delimiters] at h ⊢ <;>
        interval_cases n <;> simp at h ⊢
      all_goals grind
    · rcases l with _ | ⟨c, l⟩ <;>
        simp [found, sseDelimiterLengthAt, delimiters, hcr] at h ⊢ <;>
        interval_cases n <;> simp at h ⊢
      all_goals grind

theorem delimiterBytesAt_eq {bytes : Bytes} {n : ℕ} (hindex : index ≤ bytes.length)
    (h : found bytes index = some (n + 1)) : delimiterBytesAt index (n + 1) (fun i ↦ bytes[i]?) =
      subarray bytes index (index + (n + 1)) := by
  rw [found_drop hindex] at h
  have hlen := found_length h
  rw [length_drop] at hlen
  rw [delimiterBytesAt, copyRange_eq (by omega) (by omega), subarray, Nat.add_sub_cancel_left]
  have hmem := found_mem h
  cases hfind : delimiters.find? (fun text ↦ decide (text = (bytes.drop index).take (n + 1))) with
  | none => exact absurd (List.find?_eq_none.mp hfind _ hmem) (by simp)
  | some text => simpa using find?_some hfind

/-! ## The scanning loop -/

/-- What a pair of line endings that ends at `stop` may still be waiting for, seen from the scanner. -/
def waits (bytes : Bytes) (stop : ℕ) : Bool :=
  decide (stop = bytes.length) && decide (bytes[stop - 1]? = some 13)

variable {σ ε : Type}

/-- **The scanning loop.**  An invariant of the two indices that survives every byte at which no
delimiter begins, and the action at every delimiter, holds where the loop stops: at the end, or where
it cannot tell yet. -/
theorem scanDelimiters_ensures (bytes : Bytes) {I : ℕ → ℕ → σ → Prop} {R : ε → σ → Prop}
    {complete : ℕ → ℕ → ℕ → Act σ ε PUnit}
    (hbyte : ∀ i r s, I i r s → i < bytes.length → found bytes i = some 0 → I (i + 1) r s)
    (hcomplete : ∀ i r n, i < bytes.length → found bytes i = some (n + 1) →
      Ensures (I i r) (complete r i (n + 1)) (fun _ ↦ I (i + (n + 1)) (i + (n + 1))) R)
    {turns i r : ℕ} (hturns : bytes.length ≤ turns + i) :
    Ensures (I i r) (scanDelimiters bytes.length (fun i ↦ bytes[i]?) complete turns i r)
      (fun p s ↦ I p.1 p.2 s ∧ (p.1 < bytes.length → found bytes p.1 = none)) R := by
  induction turns generalizing i r with
  | zero => exact fun s hs ↦ ⟨hs, fun h ↦ absurd h (by omega)⟩
  | succ turns ih =>
    refine .ite (fun hi ↦ ?_) fun hi ↦ .pure fun s hs ↦ ⟨hs, fun h ↦ absurd h hi⟩
    split
    · rename_i hfound
      exact .pure fun s hs ↦ ⟨hs, fun _ ↦ hfound⟩
    · rename_i hfound
      exact (ih (by omega)).mono (fun s hs ↦ hbyte i r s hs hi hfound) (fun _ _ ↦ id) fun _ _ ↦ id
    · rename_i n hfound
      exact (hcomplete i r n hi hfound).bind fun _ ↦ ih (by omega)

theorem scanDelimiters_keeps {P : σ → Prop} {R : ε → σ → Prop} {total : ℕ}
    {byteAt : ℕ → Option UInt8} {complete : ℕ → ℕ → ℕ → Act σ ε PUnit}
    (h : ∀ r i n, Keeps P R (complete r i n)) (turns i r : ℕ) :
    Keeps P R (scanDelimiters total byteAt complete turns i r) := by
  induction turns generalizing i r with
  | zero => exact .pure _
  | succ turns ih =>
    refine .ite (fun _ ↦ ?_) fun _ ↦ .pure _
    split
    · exact .pure _
    · exact ih _ _
    · exact (h _ _ _).bind fun _ ↦ ih _ _

/-! ## The frontier of a scanner -/

/-- How the blocks reported, the open block and what is undecided relate to the bytes read. -/
abbrev Front := Cutting.Frontier linePair lateLineFeed

variable {whole acc cand : Bytes} {closed : List Bytes} {waiting : Bool} {bytes : Bytes} {i r n : ℕ}

theorem Front.waiting_false (h : Front whole closed acc waiting (bytes.drop i))
    (hi : i < bytes.length) : waiting = false :=
  Cutting.Frontier.waiting_false h (by simpa using hi)

theorem Front.byte (h : Front whole closed (cand ++ subarray bytes r i) waiting (bytes.drop i))
    (hr : r ≤ i) (hi : i < bytes.length) (hfound : found bytes i = some 0) :
    Front whole closed (cand ++ subarray bytes r (i + 1)) waiting (bytes.drop (i + 1)) := by
  obtain rfl := h.waiting_false hi
  rw [found_drop hi.le] at hfound
  have hdrop : bytes.drop i = bytes[i] :: bytes.drop (i + 1) := drop_eq_getElem_cons hi
  have hzero := found_zero hfound (by simpa using hi)
  rw [subarray_succ hr (getElem?_eq_getElem hi), ← append_assoc]
  rw [hdrop] at h hzero
  exact h.letter hzero

theorem Front.delimit (h : Front whole closed acc waiting (bytes.drop i)) (hi : i < bytes.length)
    (hfound : found bytes i = some (n + 1)) :
    Front whole (closed ++ [acc]) [] (waits bytes (i + (n + 1))) (bytes.drop (i + (n + 1))) := by
  obtain rfl := h.waiting_false hi
  rw [found_drop hi.le] at hfound
  have hlen := found_length hfound
  have hlast : bytes[i + (n + 1) - 1]? = (bytes.drop i)[n]? := by
    rw [getElem?_drop]
    rfl
  rw [waits, hlast]
  by_cases hend : n + 1 = (bytes.drop i).length ∧ (bytes.drop i)[n]? = some 13
  · obtain ⟨hend, hcr⟩ := hend
    obtain ⟨hnil, hlate⟩ := found_late hfound hend hcr
    have hstop : i + (n + 1) = bytes.length := by
      rw [length_drop] at hend
      omega
    rw [hstop, hcr, drop_length]
    simp only [decide_true, Bool.and_true]
    exact h.closeLate (by rw [← length_pos_iff]; omega) hlate hnil
  · have hopen : (decide (i + (n + 1) = bytes.length) &&
        decide ((bytes.drop i)[n]? = some 13)) = false := by
      rw [Bool.and_eq_false_iff, decide_eq_false_iff_not, decide_eq_false_iff_not]
      by_cases hcr : (bytes.drop i)[n]? = some 13
      · refine .inl fun hstop ↦ hend ⟨?_, hcr⟩
        rw [length_drop]
        omega
      · exact .inr hcr
    rw [hopen, ← drop_drop]
    exact h.close (succ_ne_zero n) (found_closed hfound fun hstop hcr ↦ hend ⟨hstop, hcr⟩) hlen

/-- The blocks reported are the blocks of what was read, and the rest is its open block. -/
theorem Front.blocks (h : Front whole closed acc waiting bytes) (hund : Undecided bytes) :
    blocksOf whole = (closed, acc ++ bytes) := by
  refine Cutting.Frontier.stop h ?_
  cases waiting with
  | true =>
    obtain ⟨hacc, hnil⟩ := h.between rfl
    rw [hacc, hnil, skip_nil, blocks_nil, append_nil]
  | false => rw [skip_false, hund.blocks]

theorem skip_lateLineFeed (waiting : Bool) (bytes : Bytes) :
    Cutting.skip lateLineFeed waiting bytes =
      bytes.drop (if waiting = true ∧ bytes[0]? = some 10 then 1 else 0) := by
  cases bytes with
  | nil => simp
  | cons byte bytes =>
    rw [Cutting.skip, lateLineFeed]
    by_cases h : waiting = true ∧ byte = 10
    · simp [h]
    · rw [if_neg (by simpa using h), if_neg (by simpa using h), drop_zero]

theorem byteAt_fun (previousTail chunk : Bytes) :
    byteAt previousTail chunk = fun i ↦ (previousTail ++ chunk)[i]? :=
  funext (byteAt_eq previousTail chunk)

theorem subarray_append (previousTail chunk : Bytes) (h : start < stop) :
    (if start < previousTail.length then
        subarray previousTail start (min stop previousTail.length) else []) ++
      (if stop > previousTail.length then
        subarray chunk (start - previousTail.length) (stop - previousTail.length) else []) =
    subarray (previousTail ++ chunk) start stop := by
  simp only [subarray, drop_append, take_append, length_drop]
  by_cases hstart : start < previousTail.length
  · rw [if_pos hstart, Nat.sub_eq_zero_of_le hstart.le, drop_zero, Nat.sub_zero]
    split_ifs with hstop
    · rw [min_eq_right hstop.le, take_of_length_le (by rw [length_drop]),
        take_of_length_le (l := previousTail.drop start) (by rw [length_drop]; omega)]
      congr 2
      omega
    · rw [min_eq_left (by omega),
        show stop - start - (previousTail.length - start) = 0 by omega, take_zero]
  · rw [if_neg hstart, if_pos (by omega), drop_of_length_le (l := previousTail) (by omega),
      take_nil]
    congr 2
    omega

end Sse
