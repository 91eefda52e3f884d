import OpenCodex.Text.InlineThink
import OpenCodex.Data.Delimiters
import OpenCodex.Data.Labelled
import Mathlib.Data.List.TakeWhile

/-!
# Inline thinking is split as in the whole text

`splitInlineThinking` splits a whole text: if it begins with an open tag, leading whitespace apart,
then the open tags and the close tags that belong to them cut it into thinking and answer by turns,
and otherwise it is all answer.  The parser in its interleaved mode gives out the same, however the
text is cut into chunks (`run_interleaved`).

At every moment the parser owes what splitting gives of what it carries with all that may still come
(`Standing`), and feeding a chunk pays a part of this: that is the one statement about each of its
functions.  What it lets go before it knows more are units at which no tag can begin.
-/

set_option autoImplicit false

open List Option Delimiters Nat Function

namespace Text

open Bridge (AdapterEvent isTrimmed trimStart indexOf)
open Labelled (units)

/-! ## The tags -/

def openDelimiters : Delimiters CodeUnit ThinkingTag where
  mark := 0x3c
  words := openTags.map fun tag ↦ (tag, tag.name ++ js ">")
  unmarked {w} hw := by revert w; decide
  prefixFree := by decide

def closeDelimiters (tag : ThinkingTag) : Delimiters CodeUnit ThinkingTag where
  mark := 0x3c
  words := [(tag, js "/" ++ (tag.name ++ js ">"))]
  unmarked {w} hw := by revert w; cases tag <;> decide
  prefixFree := pairwise_singleton _ _

/-- What to look for: in a block its close tag, and outside of one an open tag. -/
def delimiters : Option ThinkingTag → Delimiters CodeUnit ThinkingTag
  | none => openDelimiters
  | some tag => closeDelimiters tag

/-- In which block the text is behind a tag. -/
def behind : Option ThinkingTag → ThinkingTag → Option ThinkingTag
  | none, tag => some tag
  | some _, _ => none

/-! ## Splitting a whole text -/

inductive SplitKind where
  | answer
  | reasoning
  deriving DecidableEq

/-- What a text is split into. -/
inductive SplitToken where
  | piece (kind : SplitKind) (text : JsString)
  | opening (tag : ThinkingTag)
  | closing (tag : ThinkingTag)

namespace SplitToken

/-- What stands in the text for it. -/
def source : SplitToken → JsString
  | piece _ text => text
  | opening tag => tag.text
  | closing tag => closeTagFor tag

/-- What is given out for it. -/
def delta : SplitToken → Option (SplitKind × JsString)
  | piece kind text => some (kind, text)
  | opening _ | closing _ => none

end SplitToken

def kindIn : Option ThinkingTag → SplitKind
  | none => .answer
  | some _ => .reasoning

def tagToken : Option ThinkingTag → ThinkingTag → SplitToken
  | none, tag => .opening tag
  | some _, tag => .closing tag

/-- Split a text that begins inside a block, or outside of one. -/
def splitFrom (inside : Option ThinkingTag) (l : JsString) : List SplitToken :=
  match _ : (delimiters inside).search l with
  | none => [.piece (kindIn inside) l]
  | some (before, tag, rest) =>
    .piece (kindIn inside) before :: tagToken inside tag :: splitFrom (behind inside tag) rest
termination_by l.length
decreasing_by exact search_shorter ‹_›

/-- **Splitting a whole text**, which begins with an open tag where there is anything to split. -/
def splitInlineThinking (text : JsString) : List SplitToken :=
  match openDelimiters.read (trimStart text) with
  | none => [.piece .answer text]
  | some (tag, rest) =>
    .piece .answer (text.takeWhile isTrimmed) :: .opening tag :: splitFrom (some tag) rest

/-- What is given out for a whole text. -/
def splitDeltas (text : JsString) : List (SplitKind × JsString) :=
  (splitInlineThinking text).filterMap SplitToken.delta

/-! ### Nothing is lost -/

variable {b : Option ThinkingTag} {tag : ThinkingTag}

variable {w : JsString}

theorem source_tagToken (h : (tag, w) ∈ (delimiters b).words) :
    (tagToken b tag).source = (delimiters b).mark :: w := by
  cases b with
  | none =>
    obtain ⟨t, -, ht⟩ := mem_map.mp h
    obtain ⟨rfl, rfl⟩ := Prod.mk.inj ht
    rfl
  | some open_ =>
    obtain ⟨rfl, rfl⟩ := Prod.mk.inj (mem_singleton.mp h)
    rfl

variable {l : JsString}

theorem splitFrom_none (h : (delimiters b).search l = none) :
    splitFrom b l = [.piece (kindIn b) l] := by
  rw [splitFrom]
  split
  · rfl
  · rename_i hs
    rw [h] at hs
    nomatch hs

variable {rest : JsString}

variable {before : JsString}

theorem splitFrom_some (h : (delimiters b).search l = some (before, tag, rest)) :
    splitFrom b l = .piece (kindIn b) before :: tagToken b tag ::
      splitFrom (behind b tag) rest := by
  rw [splitFrom]
  split
  · rename_i hs
    rw [h] at hs
    nomatch hs
  · rename_i hs
    rw [h, some_inj] at hs
    obtain ⟨rfl, hs2⟩ := Prod.mk.inj hs
    obtain ⟨rfl, rfl⟩ := Prod.mk.inj hs2
    rfl

theorem source_splitFrom (b : Option ThinkingTag) (l : JsString) :
    (splitFrom b l).flatMap SplitToken.source = l := by
  induction b, l using splitFrom.induct with
  | case1 b l h =>
    rw [splitFrom_none h]
    exact append_nil l
  | case2 b l before tag rest h ih =>
    obtain ⟨w, hw, hl⟩ := search_spec h
    rw [splitFrom_some h, flatMap_cons, flatMap_cons, ih, source_tagToken hw, hl]
    rfl

theorem source_splitInlineThinking (text : JsString) :
    (splitInlineThinking text).flatMap SplitToken.source = text := by
  rw [splitInlineThinking]
  cases h : openDelimiters.read (trimStart text) with
  | none => exact append_nil text
  | some found =>
    obtain ⟨w, hw, hl⟩ := openDelimiters.read_eq_some.mp h
    dsimp only
    rw [flatMap_cons, flatMap_cons, source_splitFrom,
      show (SplitToken.opening found.1).source = openDelimiters.mark :: w from
        source_tagToken (b := none) hw, cons_append, ← hl]
    exact takeWhile_append_dropWhile

/-! ## What is owed -/

def unitsFrom (b : Option ThinkingTag) (l : JsString) : List (SplitKind × CodeUnit) :=
  units ((splitFrom b l).filterMap SplitToken.delta)

theorem unitsFrom_none (h : (delimiters b).search l = none) :
    unitsFrom b l = l.map (kindIn b, ·) := by
  rw [unitsFrom, splitFrom_none h]
  exact append_nil _

theorem unitsFrom_some (h : (delimiters b).search l = some (before, tag, rest)) :
    unitsFrom b l = before.map (kindIn b, ·) ++ unitsFrom (behind b tag) rest := by
  rw [unitsFrom, splitFrom_some h]
  cases b <;> rfl

/-- The most units a tag has behind its mark. -/
def wordLimit : Option ThinkingTag → ℕ
  | none => maxOpenTag - 1
  | some _ => maxCloseTag - 1

theorem word_le {w : ThinkingTag × JsString} (hw : w ∈ (delimiters b).words) :
    w.2.length ≤ wordLimit b := by
  revert w
  cases b with
  | none => decide
  | some tag => cases tag <;> decide

/-- Where no tag is found, units that are far enough from the end are no part of one. -/
theorem unitsFrom_hold {k : ℕ} (h : (delimiters b).search l = none)
    (hk : k = 0 ∨ k + wordLimit b ≤ l.length) (m : JsString) : unitsFrom b (l ++ m) =
      (l.take k).map (kindIn b, ·) ++ unitsFrom b (l.drop k ++ m) := by
  rcases hk with rfl | hk
  · rfl
  · have hs := search_hold h word_le hk m
    cases hrest : (delimiters b).search (l.drop k ++ m) with
    | none =>
      rw [hrest] at hs
      rw [unitsFrom_none hs, unitsFrom_none hrest, ← map_append, ← append_assoc, take_append_drop]
    | some found =>
      obtain ⟨before, tag, rest⟩ := found
      rw [hrest] at hs
      rw [unitsFrom_some hs, unitsFrom_some hrest, map_append, append_assoc]

/-! ## How the parser searches -/

theorem text_eq (tag : ThinkingTag) : tag.text = 0x3c :: (tag.name ++ js ">") := rfl

theorem closeTagFor_eq (tag : ThinkingTag) :
    closeTagFor tag = 0x3c :: (js "/" ++ (tag.name ++ js ">")) := rfl

theorem read_open (l : JsString) :
    openDelimiters.read l = (openTags.find? fun tag ↦ tag.text.isPrefixOf l).map fun tag ↦
      (tag, l.drop tag.text.length) := by
  cases l with
  | nil => rfl
  | cons c l =>
    rw [Delimiters.read, show openDelimiters.mark = 0x3c from rfl,
      show openDelimiters.words = openTags.map fun tag ↦ (tag, tag.name ++ js ">") from rfl]
    split_ifs with hc
    · rw [hc]
      induction openTags with
      | nil => rfl
      | cons tag tags ih =>
        rw [map_cons, readWord, findSome?_cons, find?_cons, text_eq, isPrefixOf_cons_cons_self]
        by_cases hp : tag.name ++ js ">" <+: l
        · rw [if_pos hp, isPrefixOf_iff_prefix.mpr hp]
          rfl
        · rw [if_neg hp, Bool.eq_false_iff.mpr fun h ↦ hp (List.isPrefixOf_iff_prefix.mp h)]
          exact ih
    · rw [find?_eq_none.mpr, map_none]
      intro tag _ hp
      rw [text_eq, isPrefixOf_iff_prefix, cons_prefix_cons] at hp
      exact hc hp.1.symm

theorem read_openTagAt (input : JsString) (i : ℕ) : openDelimiters.read (input.drop i) =
      (openTagAt input i).map fun tag ↦ (tag, input.drop (i + tag.text.length)) := by
  rw [read_open, openTagAt]
  simp only [drop_drop]

theorem search_close (tag : ThinkingTag) (l : JsString) :
    (closeDelimiters tag).search l = (indexOf (closeTagFor tag) l).map fun i ↦
      (l.take i, tag, l.drop (i + (closeTagFor tag).length)) := by
  induction l with
  | nil => rfl
  | cons c l ih =>
    rw [indexOf]
    by_cases hp : (closeTagFor tag).isPrefixOf (c :: l) = true
    · obtain ⟨rest, hl⟩ := isPrefixOf_iff_prefix.mp hp
      rw [if_pos hp, search_of_read, ← hl]
      · rw [map_some, take_zero, zero_add, drop_left]
      · rw [read_eq_some]
        exact ⟨_, mem_singleton_self _, by rw [← hl, closeTagFor_eq]; rfl⟩
    · rw [if_neg hp, search_of_not_read, ih, Option.map_map, Option.map_map]
      · refine congrArg (Option.map · _) (funext fun i ↦ ?_)
        rw [comp_apply, comp_apply, take_succ_cons, add_right_comm, drop_succ_cons]
      · cases hr : (closeDelimiters tag).read (c :: l) with
        | none => rfl
        | some found =>
          obtain ⟨w, hw, hl⟩ := (closeDelimiters tag).read_eq_some.mp hr
          obtain ⟨-, rfl⟩ := Prod.mk.inj (mem_singleton.mp hw)
          refine absurd (List.isPrefixOf_iff_prefix.mpr ?_) hp
          rw [hl, closeTagFor_eq]
          exact prefix_append (_ :: _) found.2

variable {input : JsString}

variable {turns : ℕ}

theorem findOpenTag_eq {pos : ℕ} (h : input.length < turns + pos) :
    findOpenTag input turns (indexOfFrom (js "<") input pos) =
      (openDelimiters.search (input.drop pos)).map fun found ↦
        (pos + found.1.length, found.2.1) := by
  induction turns generalizing pos with
  | zero =>
    rw [drop_eq_nil_of_le (by omega)]
    rfl
  | succ turns ih =>
    cases hi : indexOfFrom (js "<") input pos with
    | none =>
      rw [search_eq_none (D := openDelimiters) (not_mem_drop (c := 0x3c) hi)]
      rfl
    | some openIndex =>
      obtain ⟨hle, -, hfirst⟩ := indexOfFrom_some hi
      have hlen : (input.slice pos (openIndex - pos)).length = openIndex - pos := by
        have := indexOfFrom_lt (cons_ne_nil _ _) hi
        rw [slice, length_take, length_drop]
        omega
      rw [findOpenTag, ← slice_append_drop input hle,
        search_unmarked (D := openDelimiters) (not_mem_slice (c := 0x3c) hfirst)]
      have hread := read_openTagAt input openIndex
      cases ht : openTagAt input openIndex with
      | some tag =>
        rw [ht] at hread
        rw [search_of_read hread, map_some, map_some, append_nil, hlen, Nat.add_sub_cancel' hle]
      | none =>
        rw [ht, drop_of_indexOfFrom hi] at hread
        rw [drop_of_indexOfFrom hi, search_of_not_read hread]
        dsimp only
        rw [ih (by omega)]
        simp only [Option.map_map]
        refine congrArg (Option.map · _) (funext fun found ↦ ?_)
        simp only [comp_apply, length_append, length_cons, hlen]
        rw [show openIndex + 1 + found.1.length = pos + (openIndex - pos + (found.1.length + 1)) by
          omega]

/-! ## What the parser owes, and pays -/

/-- The event for a delta. -/
def eventOf : SplitKind × JsString → AdapterEvent
  | (.answer, text) => .textDelta text none none
  | (.reasoning, text) => .reasoningRawDelta text

/-- What is still to be given out, by what is still to come. -/
abbrev Owed := JsString → List (SplitKind × CodeUnit)

namespace InlineThinkTagParser

/-- The parser is in a block or outside of one, with nothing held. -/
structure Ready (p : InlineThinkTagParser) (b : Option ThinkingTag) : Prop where
  interleaved : p.interleaved = true
  whitespace : p.preWhitespaceLength = 0
  preBuffer : p.preBuffer = []
  state : match b with
    | some tag => p.state = .thinking ∧ p.closeTag = closeTagFor tag
    | none => p.state = .scanning

/-- What the parser owes in each of its states. -/
inductive Standing (p : InlineThinkTagParser) : Owed → Prop
  | pre {ws : JsString} (interleaved : p.interleaved = true) (state : p.state = .pre)
      (chunks : p.preWhitespaceChunks.flatten = ws) (length : p.preWhitespaceLength = ws.length)
      (trimmed : ∀ c ∈ ws, isTrimmed c = true)
      (begun : p.preBuffer = [] ∨ isPossibleOpenTagPrefix p.preBuffer = true)
      (quiet : openDelimiters.read p.preBuffer = none) :
      Standing p fun m ↦ units (splitDeltas (ws ++ (p.preBuffer ++ m)))
  | thinking {tag : ThinkingTag} (ready : Ready p (some tag))
      (quiet : (closeDelimiters tag).search p.thinkingBuffer = none) :
      Standing p fun m ↦ unitsFrom (some tag) (p.thinkingBuffer ++ m)
  | scanning (ready : Ready { p with preBuffer := [] } none)
      (quiet : openDelimiters.search p.preBuffer = none) :
      Standing p fun m ↦ unitsFrom none (p.preBuffer ++ m)
  | streaming (state : p.state = .streaming) (whitespace : p.preWhitespaceLength = 0)
      (preBuffer : p.preBuffer = []) : Standing p fun m ↦ m.map (.answer, ·)

/-- What has been given out, and what is owed now, are what was owed. -/
def Pays (out : InlineThinkTagParser × List AdapterEvent) (events : List AdapterEvent) (R : Owed) :
    Prop :=
  ∃ ds R', out.2 = events ++ ds.map eventOf ∧ (∀ d ∈ ds, d.2 ≠ []) ∧ Standing out.1 R' ∧
    ∀ m, R m = units ds ++ R' m

variable {p : InlineThinkTagParser} {R : Owed} {events : List AdapterEvent}

theorem Pays.standing (h : Standing p R) : Pays (p, events) events R :=
  ⟨[], R, (append_nil _).symm, by simp, h, fun _ ↦ rfl⟩

variable {out : InlineThinkTagParser × List AdapterEvent} {R' : Owed}

theorem Pays.of_eq (h : Pays out events R') (hR : ∀ m, R m = R' m) : Pays out events R :=
  funext hR ▸ h

variable {text : JsString}

theorem Pays.delta {k : SplitKind} (ht : text ≠ [])
    (h : Pays out (events ++ [eventOf (k, text)]) R') (hR : ∀ m, R m = text.map (k, ·) ++ R' m) :
    Pays out events R := by
  obtain ⟨ds, R'', hout, hne, hs, hR'⟩ := h
  refine ⟨(k, text) :: ds, R'', ?_, forall_mem_cons.mpr ⟨ht, hne⟩, hs, fun m ↦ ?_⟩
  · rw [hout, append_assoc]
    rfl
  · rw [hR, hR', Labelled.units_cons, append_assoc]

theorem Pays.pushText (h : Pays out (pushText events text) R')
    (hR : ∀ m, R m = text.map (.answer, ·) ++ R' m) : Pays out events R := by
  rw [InlineThinkTagParser.pushText] at h
  split_ifs at h with ht
  · exact h.of_eq fun m ↦ by rw [hR, ht]; rfl
  · exact .delta ht (show Pays out (events ++ [eventOf (.answer, text)]) R' from h) hR

theorem Pays.pushReasoning (h : Pays out (pushReasoning events text) R')
    (hR : ∀ m, R m = text.map (.reasoning, ·) ++ R' m) : Pays out events R := by
  rw [InlineThinkTagParser.pushReasoning] at h
  split_ifs at h with ht
  · exact h.of_eq fun m ↦ by rw [hR, ht]; rfl
  · exact .delta ht (show Pays out (events ++ [eventOf (.reasoning, text)]) R' from h) hR

/-! ### The loop over the tags of a chunk -/

theorem surrogateSafeCut_le (text : JsString) (cut : ℕ) : surrogateSafeCut text cut ≤ cut := by
  rw [surrogateSafeCut]
  split_ifs
  · exact min_le_left _ _
  · split
    · split_ifs
      · exact sub_le _ _
      · exact le_rfl
    · exact le_rfl

variable {offset : ℕ}

theorem cut_bound (limit : ℕ) (hoffset : offset ≤ input.length) :
    let cut := max offset (surrogateSafeCut input (input.length - limit))
    offset ≤ cut ∧ cut ≤ input.length ∧
      (cut - offset = 0 ∨ cut - offset + limit ≤ (input.drop offset).length) := by
  have := surrogateSafeCut_le input (input.length - limit)
  rw [length_drop]
  omega

theorem search_closeTag (tag : ThinkingTag) (input : JsString) (offset : ℕ) :
    (closeDelimiters tag).search (input.drop offset) =
      (indexOfFrom (closeTagFor tag) input offset).map fun idx ↦
        (input.slice offset (idx - offset), tag, input.drop (idx + (closeTagFor tag).length)) := by
  rw [search_close, indexOfFrom, Option.map_map]
  refine congrArg (Option.map · _) (funext fun i ↦ ?_)
  rw [comp_apply, Nat.add_sub_cancel_left, slice, drop_drop, Nat.add_assoc]

theorem search_openTag (input : JsString) (offset : ℕ) : openDelimiters.search (input.drop offset) =
      (findOpenTag input (input.length + 1) (indexOfFrom (js "<") input offset)).map fun found ↦
        (input.slice offset (found.1 - offset), found.2,
          input.drop (found.1 + found.2.text.length)) := by
  rw [findOpenTag_eq (by omega), Option.map_map]
  cases hf : openDelimiters.search (input.drop offset) with
  | none => rfl
  | some found =>
    obtain ⟨before, tag, rest⟩ := found
    obtain ⟨w, hw, hl⟩ := search_spec hf
    have htext : tag.text = openDelimiters.mark :: w := source_tagToken (b := none) hw
    rw [map_some, comp_apply, Nat.add_sub_cancel_left, slice,
      add_assoc, ← drop_drop, hl, take_left, ← cons_append, ← htext,
      ← append_assoc, drop_left' length_append]

theorem openTag_bound {i : ℕ}
    (h : findOpenTag input (input.length + 1) (indexOfFrom (js "<") input offset) = some (i, tag)) :
    offset ≤ i ∧ i + tag.text.length ≤ input.length := by
  rw [findOpenTag_eq (by omega)] at h
  obtain ⟨found, hf, he⟩ := map_eq_some_iff.mp h
  obtain ⟨rfl, rfl⟩ := Prod.mk.inj he
  obtain ⟨w, hw, hl⟩ := search_spec hf
  have htext : found.2.1.text = openDelimiters.mark :: w := source_tagToken (b := none) hw
  have := congrArg length hl
  simp only [length_drop, length_append, length_cons] at this
  rw [htext, length_cons]
  omega

theorem quiet_drop {D : Delimiters CodeUnit ThinkingTag} {cut : ℕ} (hle : offset ≤ cut)
    (h : D.search (input.drop offset) = none) : D.search (input.drop cut) = none := by
  have := search_drop h (cut - offset)
  rwa [drop_drop, Nat.add_sub_cancel' hle] at this

theorem drainChunk_pays (h : Ready p b) (hoffset : offset ≤ input.length)
    (hturns : input.length < turns + offset) : Pays (drainChunk input turns offset events p) events
      fun m ↦ unitsFrom b (input.drop offset ++ m) := by
  induction turns generalizing offset events p b with
  | zero => omega
  | succ turns ih =>
    cases b with
    | some tag =>
      obtain ⟨hstate, hclose⟩ := h.state
      have hsearch := search_closeTag tag input offset
      rw [drainChunk, hstate]
      dsimp only
      rw [hclose]
      cases hi : indexOfFrom (closeTagFor tag) input offset with
      | some idx =>
        rw [hi] at hsearch
        have hle := (indexOfFrom_some hi).1
        have hlen := (indexOfFrom_some hi).2.1.length_le
        rw [length_drop, closeTagFor_eq, length_cons] at hlen
        rw [h.interleaved]
        refine .pushReasoning (ih (b := none) ⟨rfl, h.whitespace, h.preBuffer, rfl⟩ ?_ ?_)
          fun m ↦ unitsFrom_some (search_append hsearch m)
        · rw [closeTagFor_eq, length_cons]
          omega
        · rw [closeTagFor_eq, length_cons]
          omega
      | none =>
        rw [hi] at hsearch
        obtain ⟨hcut, -, hfar⟩ := cut_bound maxCloseTag hoffset
        have hfar' := hfar.imp_right (Nat.le_trans (Nat.add_le_add_left (Nat.sub_le _ 1) _))
        refine .pushReasoning (.standing (.thinking
          ⟨h.interleaved, h.whitespace, h.preBuffer, rfl, rfl⟩ (quiet_drop hcut hsearch)))
          fun m ↦ ?_
        rw [unitsFrom_hold (b := some tag) hsearch hfar', drop_drop, Nat.add_sub_cancel' hcut]
        rfl
    | none =>
      have hsearch := search_openTag input offset
      rw [drainChunk, show p.state = .scanning from h.state]
      dsimp only
      cases hf : findOpenTag input (input.length + 1) (indexOfFrom (js "<") input offset) with
      | some found =>
        obtain ⟨openIndex, tag⟩ := found
        rw [hf] at hsearch
        obtain ⟨hle, hbound⟩ := openTag_bound hf
        refine .pushText (ih (b := some tag)
          ⟨h.interleaved, h.whitespace, h.preBuffer, rfl, rfl⟩ hbound ?_)
          fun m ↦ unitsFrom_some (b := none) (search_append hsearch m)
        rw [text_eq, length_cons]
        omega
      | none =>
        rw [hf] at hsearch
        obtain ⟨hcut, -, hfar⟩ := cut_bound (maxOpenTag - 1) hoffset
        refine .pushText (.standing (.scanning
          ⟨h.interleaved, h.whitespace, rfl, rfl⟩ (quiet_drop hcut hsearch))) fun m ↦ ?_
        rw [unitsFrom_hold (b := none) hsearch hfar, drop_drop, Nat.add_sub_cancel' hcut]
        rfl

theorem drain_pays (h : Ready p b) (input : JsString) :
    Pays (drain input 0 [] p) [] fun m ↦ unitsFrom b (input ++ m) :=
  drainChunk_pays h (zero_le _) (lt_succ_self _)

/-! ### The beginning -/

variable {ws : JsString}

theorem finishPreWhitespace_true (hchunks : p.preWhitespaceChunks.flatten = ws)
    (hlength : p.preWhitespaceLength = ws.length) :
    ∃ q, p.finishPreWhitespace true = (q, ws) ∧ q.interleaved = p.interleaved ∧
      q.state = p.state ∧ q.preBuffer = p.preBuffer ∧ q.preWhitespaceLength = 0 := by
  rw [finishPreWhitespace]
  by_cases h0 : p.preWhitespaceLength = 0
  · rw [if_pos h0, length_eq_zero_iff.mp (hlength.symm.trans h0)]
    exact ⟨p, rfl, rfl, rfl, rfl, h0⟩
  · rw [if_neg h0, if_pos rfl, hchunks]
    exact ⟨_, rfl, rfl, rfl, rfl, rfl⟩

theorem units_splitDeltas (hws : ∀ c ∈ ws, isTrimmed c = true) (hrest : trimStart rest = rest) :
    units (splitDeltas (ws ++ rest)) =
      match openDelimiters.read rest with
      | none => (ws ++ rest).map (.answer, ·)
      | some (tag, rest) => ws.map (.answer, ·) ++ unitsFrom (some tag) rest := by
  have hstart : trimStart (ws ++ rest) = rest := by
    rw [trimStart, dropWhile_append_of_pos hws]
    exact hrest
  have hlead : (ws ++ rest).takeWhile isTrimmed = ws := by
    have := takeWhile_append_dropWhile (p := isTrimmed) (l := ws ++ rest)
    rw [show (ws ++ rest).dropWhile isTrimmed = rest from hstart] at this
    exact append_cancel_right this
  rw [splitDeltas, splitInlineThinking, hstart, hlead]
  cases openDelimiters.read rest with
  | none => exact append_nil _
  | some found => rfl

theorem trimStart_of_head (h : ∃ c ∈ l.head?, isTrimmed c = false) : trimStart l = l := by
  obtain ⟨c, hc, htrim⟩ := h
  cases l with
  | nil => nomatch hc
  | cons d l =>
    obtain rfl : d = c := by simpa using hc
    exact dropWhile_cons_of_neg (by rw [htrim]; exact Bool.false_ne_true)

theorem head_append {c : CodeUnit} {m : JsString} (h : c ∈ l.head?) : c ∈ (l ++ m).head? := by
  rw [head?_append, h]
  rfl

theorem openTagAt_bound (h : openTagAt input 0 = some tag) : tag.text.length ≤ input.length := by
  have := find?_some h
  exact (List.isPrefixOf_iff_prefix.mp this).length_le

theorem possible_of_word (hw : (tag, w) ∈ openDelimiters.words)
    (hp : l <+: openDelimiters.mark :: w) (hlt : l.length < w.length + 1) :
    l.length ≤ maxOpenTag ∧ isPossibleOpenTagPrefix l = true := by
  have htext : tag.text = openDelimiters.mark :: w := source_tagToken (b := none) hw
  have htag : tag ∈ openTags := by cases tag <;> decide
  have hlimit : w.length ≤ maxOpenTag - 1 := word_le (b := none) hw
  refine ⟨by omega, any_eq_true.mpr ⟨tag, htag, ?_⟩⟩
  rw [Bool.and_eq_true, htext]
  exact ⟨List.isPrefixOf_iff_prefix.mpr hp, decide_eq_true hlt⟩

theorem read_append_none (hread : openDelimiters.read input = none)
    (hp : ¬ (input.length ≤ maxOpenTag && isPossibleOpenTagPrefix input) = true) (m : JsString) :
    openDelimiters.read (input ++ m) = none := by
  cases hm : openDelimiters.read (input ++ m) with
  | none => rfl
  | some found =>
    obtain ⟨w, hw, hprefix, hlt⟩ := prefix_of_read_append hread hm
    obtain ⟨hlen, hpossible⟩ := possible_of_word hw hprefix hlt
    exact absurd (Bool.and_eq_true_iff.mpr ⟨decide_eq_true hlen, hpossible⟩) hp

theorem decideStart_pays (hin : p.interleaved = true) (hstate : p.state = .pre)
    (hchunks : p.preWhitespaceChunks.flatten = ws) (hlength : p.preWhitespaceLength = ws.length)
    (htrimmed : ∀ c ∈ ws, isTrimmed c = true) (hbuffer : p.preBuffer = [])
    (hhead : ∃ c ∈ input.head?, isTrimmed c = false) :
    Pays (decideStart input p) [] fun m ↦ units (splitDeltas (ws ++ (input ++ m))) := by
  have hne : input ≠ [] := by
    rintro rfl
    obtain ⟨c, hc, -⟩ := hhead
    nomatch hc
  have hgoes : ∀ m, trimStart (input ++ m) = input ++ m := fun m ↦
    trimStart_of_head (Exists.imp (fun c ↦ And.imp_left head_append) hhead)
  have hread := read_openTagAt input 0
  rw [drop_zero] at hread
  rw [decideStart]
  cases ht : openTagAt input 0 with
  | some tag =>
    rw [ht] at hread
    obtain ⟨q, hq, hqin, hqstate, hqbuffer, hqlength⟩ := finishPreWhitespace_true hchunks hlength
    dsimp only
    rw [hin, hq]
    refine .pushText (drainChunk_pays (b := some tag)
      ⟨hqin.trans hin, hqlength, hqbuffer.trans hbuffer, rfl, rfl⟩ ?_ (by omega)) fun m ↦ ?_
    · exact openTagAt_bound ht
    · rw [units_splitDeltas htrimmed (hgoes m), Delimiters.read_append hread m]
      dsimp only
      rw [zero_add]
  | none =>
    rw [ht] at hread
    dsimp only
    split_ifs with hp
    · rw [Bool.and_eq_true] at hp
      exact .standing (.pre hin hstate hchunks hlength htrimmed (.inr hp.2) hread)
    · obtain ⟨q, hq, hqin, hqstate, hqbuffer, hqlength⟩ :=
        finishPreWhitespace_true (p := { p with state := .streaming }) hchunks hlength
      rw [hq]
      refine .delta (k := .answer) (by simp [hne]) (.standing
        (.streaming hqstate hqlength (hqbuffer.trans hbuffer))) fun m ↦ ?_
      rw [units_splitDeltas htrimmed (hgoes m), read_append_none hread hp]
      simp only [map_append, append_assoc]

/-! ### Chunks -/

theorem head_of_possible (h : isPossibleOpenTagPrefix l = true) (hne : l ≠ []) :
    ∃ c ∈ l.head?, isTrimmed c = false := by
  obtain ⟨tag, -, hp⟩ := any_eq_true.mp h
  obtain ⟨c, rest, rfl⟩ := exists_cons_of_ne_nil hne
  have hp := isPrefixOf_iff_prefix.mp (Bool.and_eq_true_iff.mp hp).1
  rw [text_eq, cons_prefix_cons] at hp
  exact ⟨c, rfl, hp.1 ▸ by decide⟩

theorem appendPreWhitespace_eq (text : JsString) (hchunks : p.preWhitespaceChunks.flatten = ws)
    (hlength : p.preWhitespaceLength = ws.length) :
    ∃ q, p.appendPreWhitespace text = q ∧ q.interleaved = p.interleaved ∧ q.state = p.state ∧
      q.preBuffer = p.preBuffer ∧ q.preWhitespaceChunks.flatten = ws ++ text ∧
      q.preWhitespaceLength = (ws ++ text).length := by
  rw [appendPreWhitespace]
  split_ifs with ht
  · rw [ht, append_nil]
    exact ⟨p, rfl, rfl, rfl, rfl, hchunks, hlength⟩
  · refine ⟨_, rfl, rfl, rfl, rfl, ?_, ?_⟩
    · rw [flatten_append, hchunks, flatten_singleton]
    · rw [hlength, length_append]

theorem feed_streaming (hne : text ≠ []) (h : p.state = .streaming) :
    p.feed text = (p, [.textDelta text none none]) := by
  rw [feed, if_neg hne, h]

theorem feed_thinking (hne : text ≠ []) (h : p.state = .thinking) :
    p.feed text = drain (p.thinkingBuffer ++ text) 0 [] { p with thinkingBuffer := [] } := by
  obtain ⟨⟩ := p
  cases h
  exact if_neg hne

theorem feed_scanning (hne : text ≠ []) (h : p.state = .scanning) :
    p.feed text = drain (p.preBuffer ++ text) 0 [] { p with preBuffer := [] } := by
  obtain ⟨⟩ := p
  cases h
  exact if_neg hne

theorem feed_begun (hne : text ≠ []) (h : p.state = .pre) (hbuffer : p.preBuffer ≠ []) :
    p.feed text = decideStart (p.preBuffer ++ text) { p with preBuffer := [] } := by
  obtain ⟨⟩ := p
  cases h
  exact (if_neg hne).trans (if_pos hbuffer)

theorem feed_pre (hne : text ≠ []) (h : p.state = .pre) (hbuffer : p.preBuffer = []) : p.feed text =
      if trimStart text = [] then (p.appendPreWhitespace text, [])
      else decideStart (trimStart text) (p.appendPreWhitespace (text.takeWhile isTrimmed)) := by
  have htext : text.takeWhile isTrimmed ++ trimStart text = text := takeWhile_append_dropWhile
  have hlead : text.take (text.length - (trimStart text).length) = text.takeWhile isTrimmed := by
    rw [show text.length - (trimStart text).length = (text.takeWhile isTrimmed).length by
      rw [← congrArg length htext, length_append, Nat.add_sub_cancel],
      ← congrArg (take _) htext, take_left]
  rw [feed, if_neg hne, h]
  dsimp only
  rw [if_neg (not_not.mpr hbuffer), hlead]
  split_ifs with hstripped
  · rw [hstripped, append_nil] at htext
    rw [htext]
  · rfl

theorem head_of_stripped (h : trimStart text ≠ []) :
    ∃ c ∈ (trimStart text).head?, isTrimmed c = false := by
  obtain ⟨c, rest, hrest⟩ := exists_cons_of_ne_nil h
  have hfalse : ∀ h, isTrimmed ((trimStart text).head h) = false := head_dropWhile_not isTrimmed
  rw [hrest] at hfalse ⊢
  exact ⟨c, rfl, hfalse (cons_ne_nil _ _)⟩

/-- Before the beginning is decided, a chunk is put to the whitespace, or it decides. -/
theorem feed_pre_cases (hne : text ≠ []) (hstate : p.state = .pre)
    (hchunks : p.preWhitespaceChunks.flatten = ws) (hlength : p.preWhitespaceLength = ws.length)
    (htrimmed : ∀ c ∈ ws, isTrimmed c = true)
    (hbegun : p.preBuffer = [] ∨ isPossibleOpenTagPrefix p.preBuffer = true) :
    ∃ q w, q.interleaved = p.interleaved ∧ q.state = .pre ∧ q.preBuffer = [] ∧
      q.preWhitespaceChunks.flatten = w ∧ q.preWhitespaceLength = w.length ∧
      (∀ c ∈ w, isTrimmed c = true) ∧
      (p.feed text = (q, []) ∧ w = ws ++ text ∧ p.preBuffer = [] ∨
        ∃ input, p.feed text = decideStart input q ∧ (∃ c ∈ input.head?, isTrimmed c = false) ∧
          w ++ input = ws ++ (p.preBuffer ++ text)) := by
  by_cases hbuffer : p.preBuffer = []
  · obtain ⟨q, hq, hqin, hqstate, hqbuffer, hqchunks, hqlength⟩ :=
      appendPreWhitespace_eq (text.takeWhile isTrimmed) hchunks hlength
    have htext : text.takeWhile isTrimmed ++ trimStart text = text := takeWhile_append_dropWhile
    have hlead : ∀ c ∈ text.takeWhile isTrimmed, isTrimmed c = true := all_eq_true.mp all_takeWhile
    refine ⟨q, _, hqin, hqstate.trans hstate, hqbuffer.trans hbuffer, hqchunks, hqlength,
      fun c hc ↦ (mem_append.mp hc).elim (htrimmed c) (hlead c), ?_⟩
    rw [feed_pre hne hstate hbuffer]
    split_ifs with hstripped
    · rw [hstripped, append_nil] at htext
      rw [htext] at hq ⊢
      exact .inl ⟨by rw [hq], rfl, hbuffer⟩
    · refine .inr ⟨_, by rw [hq], head_of_stripped hstripped, ?_⟩
      rw [hbuffer, nil_append, append_assoc, htext]
  · refine ⟨{ p with preBuffer := [] }, ws, rfl, hstate, rfl, hchunks, hlength, htrimmed,
      .inr ⟨_, feed_begun hne hstate hbuffer, ?_, rfl⟩⟩
    exact Exists.imp (fun c ↦ And.imp_left head_append)
      (head_of_possible (hbegun.resolve_left hbuffer) hbuffer)

/-- **Feeding a chunk pays what is owed for it.** -/
theorem feed_pays (h : Standing p R) (text : JsString) :
    Pays (p.feed text) [] fun m ↦ R (text ++ m) := by
  by_cases ht : text = []
  · subst ht
    exact .standing h
  cases h with
  | @pre ws hin hstate hchunks hlength htrimmed hbegun hquiet =>
    obtain ⟨q, w, hqin, hqstate, hqbuffer, hqchunks, hqlength, hw,
      ⟨hfeed, rfl, hbuffer⟩ | ⟨input, hfeed, hhead, hall⟩⟩ :=
      feed_pre_cases ht hstate hchunks hlength htrimmed hbegun
    · rw [hfeed]
      refine (Pays.standing (.pre (hqin.trans hin) hqstate hqchunks hqlength hw (.inl hqbuffer)
        (by rw [hqbuffer]; rfl))).of_eq fun m ↦ ?_
      dsimp only
      rw [hqbuffer, hbuffer, nil_append, nil_append, append_assoc]
    · rw [hfeed]
      refine (decideStart_pays (hqin.trans hin) hqstate hqchunks hqlength hw hqbuffer
        hhead).of_eq fun m ↦ ?_
      rw [← append_assoc w, hall, append_assoc, append_assoc]
  | @thinking tag ready hquiet =>
    rw [feed_thinking ht ready.state.1]
    refine (drain_pays (p := { p with thinkingBuffer := [] }) (b := some tag)
      ⟨ready.interleaved, ready.whitespace, ready.preBuffer, ready.state⟩ _).of_eq fun m ↦ ?_
    rw [append_assoc]
  | scanning ready hquiet =>
    rw [feed_scanning (p := p) ht ready.state]
    refine (drain_pays (b := none) ready _).of_eq fun m ↦ ?_
    rw [append_assoc]
  | streaming hstate hwhitespace hbuffer =>
    rw [feed_streaming ht hstate]
    exact .delta (k := .answer) ht (.standing (.streaming hstate hwhitespace hbuffer))
      fun m ↦ map_append

/-- **Flushing pays all that is owed.** -/
theorem flush_pays (h : Standing p R) :
    ∃ ds, p.flush.2 = ds.map eventOf ∧ (∀ d ∈ ds, d.2 ≠ []) ∧ R [] = units ds := by
  have one : ∀ (k : SplitKind) (text : JsString), text ≠ [] →
      ∃ ds, [eventOf (k, text)] = ds.map eventOf ∧ (∀ d ∈ ds, d.2 ≠ []) ∧
        text.map (k, ·) = units ds :=
    fun k text ht ↦ ⟨[(k, text)], rfl, by simpa using ht, (append_nil _).symm⟩
  rw [flush]
  cases h with
  | @pre ws hin hstate hchunks hlength htrimmed hbegun hquiet =>
    obtain ⟨q, hq, -⟩ := finishPreWhitespace_true hchunks hlength
    have hrest : trimStart p.preBuffer = p.preBuffer := by
      by_cases hbuffer : p.preBuffer = []
      · rw [hbuffer]
        rfl
      · exact trimStart_of_head (head_of_possible (hbegun.resolve_left hbuffer) hbuffer)
    rw [if_neg (by rw [hstate]; decide), hq]
    dsimp only
    rw [append_nil, units_splitDeltas htrimmed hrest, hquiet]
    split_ifs with hsome
    · refine one .answer (ws ++ p.preBuffer) fun h0 ↦ ?_
      obtain ⟨rfl, hbuffer⟩ := append_eq_nil_iff.mp h0
      exact hsome.elim (fun h ↦ absurd hlength (ne_of_gt h)) (absurd hbuffer)
    · obtain ⟨h0, hbuffer⟩ := not_or.mp hsome
      rw [length_eq_zero_iff.mp (hlength.symm.trans (Nat.eq_zero_of_not_pos h0)),
        not_not.mp hbuffer]
      exact ⟨[], rfl, by simp, rfl⟩
  | @thinking tag ready hquiet =>
    rw [if_pos ready.state.1]
    dsimp only
    rw [append_nil, unitsFrom_none (b := some tag) hquiet]
    by_cases h0 : p.thinkingBuffer = []
    · rw [h0]
      exact ⟨[], rfl, by simp, rfl⟩
    · rw [pushReasoning, if_neg h0]
      exact one .reasoning _ h0
  | scanning ready hquiet =>
    have hwhitespace : p.preWhitespaceLength = 0 := ready.whitespace
    rw [if_neg (by rw [show p.state = .scanning from ready.state]; decide), finishPreWhitespace,
      if_pos hwhitespace]
    dsimp only
    rw [append_nil, unitsFrom_none (b := none) hquiet]
    by_cases h0 : p.preBuffer = []
    · rw [if_neg (by simp [hwhitespace, h0]), h0]
      exact ⟨[], rfl, by simp, rfl⟩
    · rw [if_pos (.inr h0)]
      exact one .answer _ h0
  | streaming hstate hwhitespace hbuffer =>
    rw [if_neg (by rw [hstate]; decide), if_neg (by simp [hwhitespace, hbuffer])]
    exact ⟨[], rfl, by simp, rfl⟩

theorem run_pays (h : Standing p R) (chunks : List JsString) :
    ∃ ds, run chunks p = ds.map eventOf ∧ (∀ d ∈ ds, d.2 ≠ []) ∧ R chunks.flatten = units ds := by
  induction chunks generalizing p R with
  | nil => exact flush_pays h
  | cons chunk chunks ih =>
    obtain ⟨ds, R', hout, hne, hs, hR⟩ := feed_pays h chunk
    obtain ⟨more, hrun, hmore, hend⟩ := ih hs
    refine ⟨ds ++ more, ?_, fun d hd ↦ ?_, ?_⟩
    · rw [run, hout, hrun, nil_append, map_append]
    · exact (mem_append.mp hd).elim (hne d) (hmore d)
    · rw [flatten_cons, Labelled.units_append, ← hend]
      exact hR chunks.flatten

/-- **The parser in its interleaved mode gives out what splitting the whole text gives**, in
whatever chunks the text comes, and splitting leaves nothing of the text out. -/
theorem run_interleaved (chunks : List JsString) :
    (∃ ds, run chunks { interleaved := true } = ds.map eventOf ∧ (∀ d ∈ ds, d.2 ≠ []) ∧
      Labelled.merged ds = Labelled.merged (splitDeltas chunks.flatten)) ∧
    (splitInlineThinking chunks.flatten).flatMap SplitToken.source = chunks.flatten := by
  obtain ⟨ds, hrun, hne, hunits⟩ := run_pays (p := { interleaved := true })
    (.pre rfl rfl rfl rfl (by simp) (.inl rfl) rfl) chunks
  exact ⟨⟨ds, hrun, hne, Labelled.merged_eq hunits.symm⟩, source_splitInlineThinking _⟩

end InlineThinkTagParser

end Text
