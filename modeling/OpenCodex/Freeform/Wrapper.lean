import OpenCodex.Freeform.Values
import OpenCodex.Data.JsonMembers

/-!
# The scan says what completion will do

`unwrapFreeformToolInput` reads the complete arguments; `scanFreeformWrapper` reads as much of them
as is there, and what it answers is about every way the arguments can go on.  `Verdict` states that
for the scan from any place inside of the outermost object: a `raw` means that no completion
unwraps, an `input` that every completion unwraps to the string that begins there, and a `hold` that
the object is not complete.  The scan of the members goes from one such place to the next
(`scanMembers_verdict`), with a table whose entries are those of the members that the reader of JSON
has read (`Recorded`).
-/

set_option autoImplicit false

open List Option Bool

namespace Freeform

open Json
open Bridge (trim trimStart isTrimmed)

/-! ## JSON is in no fence -/

variable {ws : JsString}

theorem run_spaces {st : State} (hst : ∀ c, isSpace c = true → step st c = some st)
    (hws : ∀ c ∈ ws, isSpace c = true) : run st ws = some st := by
  induction ws with
  | nil => rfl
  | cons c ws ih =>
    obtain ⟨hc, hws⟩ := forall_mem_cons.mp hws
    rw [run_cons, hst c hc, bind_some, ih hws]

theorem step_done_space (v : Json) (c : CodeUnit) (hc : isSpace c = true) :
    step ⟨[], .done v⟩ c = some ⟨[], .done v⟩ := if_pos hc

variable {c : CodeUnit}

theorem isTrimmed_of_isSpace (h : isSpace c = true) : isTrimmed c = true := by
  have hall : ∀ d ∈ jsonWhitespace, isTrimmed d = true := by decide
  exact hall c (isSpace_iff.mp h)

theorem not_trimmed_of_numberChar (h : isNumberChar c = true) : isTrimmed c = false ∧ c ≠ 0x60 := by
  simp only [isNumberChar, or_eq_true, beq_iff_eq] at h
  rcases h with ((((rfl | rfl) | hdigit) | rfl) | rfl) | rfl
  case inl.inl.inl.inr =>
    have hall : ∀ d < 10, isTrimmed (digitUnit d) = false ∧ digitUnit d ≠ 0x60 := by decide
    have hdigit' : 0x30 ≤ c ∧ c ≤ 0x39 := by
      simpa only [isDigit, and_eq_true, decide_eq_true_eq] using hdigit
    have hle : 0x30 ≤ c.toNat ∧ c.toNat ≤ 0x39 := hdigit'
    have hc : c = digitUnit (c.toNat - 0x30) := by
      rw [digitUnit, Nat.add_sub_cancel' hle.1, UInt16.ofNat_toNat]
    rw [hc]
    exact hall _ (by omega)
  all_goals decide

theorem spaces_or_head (text : JsString) : (∀ d ∈ text, isSpace d = true) ∨
      ∃ ws c l, text = ws ++ c :: l ∧ (∀ d ∈ ws, isSpace d = true) ∧ isSpace c = false := by
  have hparts := takeWhile_append_dropWhile (p := isSpace) (l := text)
  have hhead := head?_dropWhile_not isSpace text
  have hall : ∀ d ∈ text.takeWhile isSpace, isSpace d = true := List.all_eq_true.mp all_takeWhile
  cases hrest : text.dropWhile isSpace with
  | nil =>
    rw [hrest, append_nil] at hparts
    exact .inl (hparts ▸ hall)
  | cons c l =>
    rw [hrest] at hparts hhead
    exact .inr ⟨_, c, l, hparts.symm, hall, hhead⟩

variable {text : JsString} {v : Json}

theorem head_of_parse (h : parse text = some v) :
    ∃ ws c l, text = ws ++ c :: l ∧ (∀ d ∈ ws, isSpace d = true) ∧ isSpace c = false ∧
      isTrimmed c = false ∧ c ≠ 0x60 := by
  rw [parse, start] at h
  rcases spaces_or_head text with hall | ⟨ws, c, l, rfl, hws, hspace⟩
  · rw [run_spaces (between_value []).space hall] at h
    cases h
  · refine ⟨ws, c, l, rfl, hws, hspace, ?_⟩
    rw [run_append, run_spaces (between_value []).space hws, bind_some, run_cons, step] at h
    dsimp only at h
    rw [hspace, if_neg Bool.false_ne_true] at h
    by_cases hc : c ∈ ([0x22, 0x7b, 0x5b, 0x74, 0x66, 0x6e] : List CodeUnit)
    · have hall : ∀ d ∈ ([0x22, 0x7b, 0x5b, 0x74, 0x66, 0x6e] : List CodeUnit),
          isTrimmed d = false ∧ d ≠ 0x60 := by decide
      exact hall c hc
    · by_cases hnumber : isNumberChar c = true
      · exact not_trimmed_of_numberChar hnumber
      · rw [startValue_eq_none hc (eq_false_of_ne_true hnumber)] at h
        cases h

variable {l : JsString}

theorem head_trim (hws : ∀ d ∈ ws, isTrimmed d = true) (hc : isTrimmed c = false) :
    ∃ l', trim (ws ++ c :: l) = c :: l' := by
  have hne : ¬isTrimmed c = true := by rw [hc]; exact false_ne_true
  have hstart : trimStart (ws ++ c :: l) = c :: l := by
    rw [trimStart, dropWhile_append_of_pos hws, dropWhile_cons_of_neg hne]
  rw [trim, hstart, reverse_cons, trimStart, dropWhile_append]
  split_ifs
  · rw [dropWhile_cons_of_neg hne]
    exact ⟨[], rfl⟩
  · rw [reverse_append]
    exact ⟨_, rfl⟩

theorem stripMarkdownCodeFence_of_parse (h : parse text = some v) (toolName : JsString) :
    stripMarkdownCodeFence text toolName = text := by
  obtain ⟨ws, c, l, rfl, hws, -, hc, hfence⟩ := head_of_parse h
  obtain ⟨l', hl'⟩ := head_trim (l := l) (fun d hd ↦ isTrimmed_of_isSpace (hws d hd)) hc
  have hno : fence.isPrefixOf (c :: l') = false := by
    have hbeq : ((0x60 : CodeUnit) == c) = false := beq_eq_false_iff_ne.mpr hfence.symm
    show ((0x60 == c) && _) = false
    rw [hbeq]
    rfl
  rw [stripMarkdownCodeFence]
  split_ifs
  · rfl
  · rw [hl', outerFenceBody, hno]
    rfl

/-! ## What completion unwraps -/

/-- The string that an object unwraps to. -/
def unwrapped (fallbackKeys : List JsString) (record : List (JsString × Json)) : Option JsString :=
  match lookup record canonicalKey with
  | some w => string? w
  | none =>
    match fallbackKeys.filterMap fun key ↦ (lookup record key).bind string? with
    | [body] => some body
    | _ => none

variable {record : List (JsString × Json)}

theorem unwrapThrough_obj (h : parse text = some (.obj record)) (fallbackKeys : List JsString)
    (toolName : JsString) :
    unwrapThrough fallbackKeys text toolName =
      ((unwrapped fallbackKeys record).map (stripMarkdownCodeFence · toolName)).getD text := by
  have hstrip := stripMarkdownCodeFence_of_parse h toolName
  rw [unwrapThrough, h, unwrapped]
  dsimp only
  rcases lookup record canonicalKey with _ | w
  · rcases fallbackKeys.filterMap fun key ↦ (lookup record key).bind string? with
      _ | ⟨body, _ | ⟨other, rest⟩⟩
    · exact hstrip
    · rfl
    · exact hstrip
  · cases w <;> rfl

theorem unwrapThrough_other (h : parse text = some v) (hv : ∀ record, v ≠ .obj record)
    (fallbackKeys : List JsString) (toolName : JsString) :
    unwrapThrough fallbackKeys text toolName = text := by
  have hstrip := stripMarkdownCodeFence_of_parse h toolName
  rw [unwrapThrough, h]
  cases v with
  | obj record => exact absurd rfl (hv record)
  | _ => exact hstrip

/-- A string stands in a text behind an opening quote, up to the closing one; the index is that of
what follows the opening quote. -/
def DecodesAt (text : JsString) (n : ℕ) (s : JsString) : Prop :=
  ∃ before p r, text = before ++ 0x22 :: (p ++ r) ∧ n = before.length + 1 ∧
    parse (0x22 :: p) = some (.str s)

variable {n : ℕ} {s : JsString}

theorem DecodesAt.append (h : DecodesAt text n s) (ext : JsString) :
    DecodesAt (text ++ ext) n s := by
  obtain ⟨before, p, r, rfl, hn, hp⟩ := h
  exact ⟨before, p, r ++ ext, by simp only [append_assoc, cons_append], hn, hp⟩

variable {s' : JsString}

theorem eq_of_parse_append {p m : JsString} (h : parse p = some (.str s))
    (h' : parse (p ++ m) = some (.str s')) : s = s' := by
  obtain ⟨_, hrun, hfinish⟩ := bind_eq_some_iff.mp h
  rcases finish_eq_some hfinish with rfl | ⟨n, -, -, hn⟩
  · rw [parse, run_append, hrun, bind_some] at h'
    obtain ⟨st, hst, hfinish'⟩ := bind_eq_some_iff.mp h'
    rw [run_spaces (step_done_space _) (run_done hst), some_inj] at hst
    rw [← hst] at hfinish'
    exact Json.str.inj (some_inj.mp hfinish')
  · exact Json.noConfusion hn

theorem DecodesAt.unique (h : DecodesAt text n s) (h' : DecodesAt text n s') : s = s' := by
  obtain ⟨before, p, r, rfl, rfl, hp⟩ := h
  obtain ⟨before', p', r', htext, hn, hp'⟩ := h'
  obtain ⟨-, hrest⟩ := append_inj htext (Nat.succ_injective hn)
  rw [cons_inj_right] at hrest
  rcases prefix_or_prefix_of_prefix (prefix_append p r)
    (hrest ▸ prefix_append p' r') with ⟨m, rfl⟩ | ⟨m, rfl⟩
  · exact eq_of_parse_append hp (by rw [cons_append, hp'])
  · exact (eq_of_parse_append hp' (by rw [cons_append, hp])).symm

/-! ## The verdict -/

/-- What an answer of the scan says, when the reader is in a state at the rest of the text. -/
def Verdict (bounded : JsString) (fallbackKeys : List JsString) (wholeText : Bool) (st : State)
    (l : JsString) : FreeformWrapperScan → Prop
  | .raw => ∀ ext record, (run st (l ++ ext)).bind finish = some (.obj record) →
      (record.map (·.1)).Nodup → unwrapped fallbackKeys record = none
  | .input n => ∀ ext record, (run st (l ++ ext)).bind finish = some (.obj record) →
      (record.map (·.1)).Nodup →
        ∃ s, unwrapped fallbackKeys record = some s ∧ DecodesAt (bounded ++ ext) n s
  | .hold => wholeText = true → ∀ record, (run st l).bind finish ≠ some (.obj record)

variable {bounded : JsString} {fallbackKeys : List JsString} {wholeText : Bool} {st : State}

theorem verdict_raw (h : run st l = none) : Verdict bounded fallbackKeys wholeText st l .raw := by
  intro ext record hrecord
  rw [run_append, h] at hrecord
  nomatch hrecord

variable {st' : State}

theorem Reaches.verdict {r : JsString} {x : FreeformWrapperScan} (h : Reaches st l r st')
    (hx : Verdict bounded fallbackKeys wholeText st' r x) :
    Verdict bounded fallbackKeys wholeText st l x := by
  cases x with
  | raw | input n =>
    intro ext record hrecord
    rw [h.run] at hrecord
    exact hx ext record hrecord
  | hold =>
    intro hwhole record hrecord
    have hrun := h.run []
    rw [append_nil, append_nil] at hrun
    rw [hrun] at hrecord
    exact hx hwhole record hrecord

theorem verdict_cons {x : FreeformWrapperScan} (h : step st c = some st')
    (hx : Verdict bounded fallbackKeys wholeText st' l x) :
    Verdict bounded fallbackKeys wholeText st (c :: l) x :=
  (Reaches.of_run (p := [c]) (by rw [run_cons, h]; rfl) l).verdict hx

variable {x : Scan JsString}

/-- **From one place to the next.** -/
theorem Agrees.verdict {T : JsString → State → Prop} {f : JsString → FreeformWrapperScan}
    (h : Agrees st l x T) (hf : ∀ r st', r <:+ l → T r st' →
      Verdict bounded fallbackKeys wholeText st' r (f r)) :
    Verdict bounded fallbackKeys wholeText st l (x.wrapper f) := by
  cases x with
  | «at» r =>
    obtain ⟨st', hr, hT⟩ := h
    exact hr.verdict (hf r st' hr.suffix hT)
  | hold =>
    intro _ record hrecord
    obtain ⟨_, hst', hfinish⟩ := bind_eq_some_iff.mp hrecord
    rcases finish_eq_some hfinish with rfl | ⟨n, -, -, hn⟩
    · exact h _ hst' _ rfl
    · exact Json.noConfusion hn
  | never => exact verdict_raw h

/-! ## The table of the members -/

/-- An entry of the table is that of a member that was read. -/
def Recorded (bounded : JsString) (m : JsString × Member) (w : JsString × Json) : Prop :=
  m.1 = w.1 ∧ (m.2.stringValue = true → ∃ s, w.2 = .str s ∧ DecodesAt bounded m.2.valueStart s) ∧
    (m.2.stringValue = false → ∀ s, w.2 ≠ .str s)

variable {ms : List (JsString × Json)} {members : Members}

theorem recorded_lookup (h : List.Forall₂ (Recorded bounded) members ms) (key : JsString) :
    Option.Rel (fun m s ↦ DecodesAt bounded m.valueStart s)
      ((members.lookup key).filter (·.stringValue)) ((lookup ms.reverse key).bind string?) := by
  induction h with
  | nil => exact .none
  | @cons m w members ms hmw _ ih =>
    obtain ⟨hname, hstring, hother⟩ := hmw
    obtain ⟨name, m⟩ := m
    obtain ⟨_, w⟩ := w
    obtain rfl : name = _ := hname
    rw [reverse_cons, lookup_append, lookup_cons, List.lookup_cons, lookup_nil]
    by_cases hkey : name = key
    · subst hkey
      rw [beq_self_eq_true, if_pos rfl]
      show Option.Rel _ (Option.filter _ (some m)) (string? w)
      cases hm : m.stringValue with
      | true =>
        obtain ⟨s, rfl, hs⟩ := hstring hm
        rw [filter_some, if_pos hm]
        exact .some hs
      | false =>
        have hno : string? w = none := by
          cases w with
          | str s => exact absurd rfl (hother hm s)
          | _ => rfl
        rw [filter_some, if_neg (by rw [hm]; exact false_ne_true), hno]
        exact .none
    · rw [beq_eq_false_iff_ne.mpr fun h ↦ hkey h.symm, if_neg hkey]
      exact ih

theorem recorded_candidates (h : List.Forall₂ (Recorded bounded) members ms)
    (fallbackKeys : List JsString) : List.Forall₂ (fun m s ↦ DecodesAt bounded m.valueStart s)
      (fallbackKeys.filterMap fun key ↦ (members.lookup key).filter (·.stringValue))
      (fallbackKeys.filterMap fun key ↦ (lookup ms.reverse key).bind string?) := by
  induction fallbackKeys with
  | nil => exact .nil
  | cons key keys ih =>
    rw [filterMap_cons, filterMap_cons]
    have hkey := recorded_lookup h key
    revert hkey
    generalize (members.lookup key).filter (·.stringValue) = o
    generalize (lookup ms.reverse key).bind string? = o'
    rintro (hms | _)
    · exact .cons hms ih
    · exact ih

/-! ## The members -/

variable {name : JsString}

/-- The value at the head of a text, and what is read behind it. -/
theorem value_read {stack : List Frame} (hspace : isSpace c = false)
    (h : (run ⟨stack, .value⟩ (c :: l)).bind finish = some (.obj record)) :
    ∃ w r, Begun c l r w ∧ (run (deliver stack w) r).bind finish = some (.obj record) := by
  have hagrees := scanValue_agrees stack hspace l
  obtain ⟨_, hrun, hfinish⟩ := bind_eq_some_iff.mp h
  cases hx : scanValue (c :: l) with
  | «at» r =>
    rw [hx] at hagrees
    obtain ⟨_, hreaches, w, rfl, hbegun⟩ := hagrees
    have hrest := hreaches.run []
    rw [append_nil, append_nil] at hrest
    exact ⟨w, r, hbegun, hrest ▸ h⟩
  | hold =>
    rw [hx] at hagrees
    rcases finish_eq_some hfinish with rfl | ⟨n, -, -, hn⟩
    · exact absurd rfl (hagrees _ hrun _)
    · exact Json.noConfusion hn
  | never =>
    rw [hx] at hagrees
    exact absurd (hagrees.symm.trans hrun) (by simp)

theorem member_read (hspace : isSpace c = false)
    (h : (run ⟨[.obj ms (some name)], .value⟩ (c :: l)).bind finish = some (.obj record)) :
    ∃ w r more, Begun c l r w ∧ record = ms.reverse ++ (name, w) :: more := by
  obtain ⟨w, r, hbegun, hrest⟩ := value_read hspace h
  obtain ⟨more, hmore⟩ := obj_of_holding (.inside [] (suffix_refl ((name, w) :: ms))) hrest
  refine ⟨w, r, more, hbegun, ?_⟩
  rw [Json.obj.inj hmore, reverse_cons, append_assoc]
  rfl

theorem lookup_of_nodup {before more : List (JsString × Json)} {w : Json}
    (h : ((before ++ (name, w) :: more).map (·.1)).Nodup) :
    lookup (before ++ (name, w) :: more) name = some w := by
  have hnone : lookup more name = none := by
    rw [map_append, map_cons] at h
    have hnot := (nodup_cons.mp (nodup_append.mp h).2.1).1
    cases hl : lookup more name with
    | none => rfl
    | some w' => exact absurd (List.mem_map_of_mem (f := (·.1)) (mem_of_lookup hl)) hnot
  rw [lookup_append, lookup_cons, hnone, if_pos rfl]
  rfl

theorem verdict_canonical {before : JsString} (hbounded : bounded = before ++ c :: l)
    (hspace : isSpace c = false) :
    Verdict bounded fallbackKeys wholeText ⟨[.obj ms (some canonicalKey)], .value⟩ (c :: l)
      (if (c :: l).head? == some 0x22 then .input (indexIn bounded (c :: l) + 1) else .raw) := by
  have hread : ∀ ext record, (run ⟨[.obj ms (some canonicalKey)], .value⟩ (c :: l ++ ext)).bind
      finish = some (.obj record) → (record.map (·.1)).Nodup →
        ∃ w r, Begun c (l ++ ext) r w ∧ unwrapped fallbackKeys record = string? w := by
    intro ext record hrecord hnodup
    obtain ⟨w, r, more, hbegun, rfl⟩ := member_read hspace hrecord
    exact ⟨w, r, hbegun, by rw [unwrapped, lookup_of_nodup hnodup]⟩
  by_cases hquote : c = 0x22
  · subst hquote
    intro ext record hrecord hnodup
    obtain ⟨w, r, hbegun, hw⟩ := hread ext record hrecord hnodup
    obtain ⟨p, s, hl, hs, rfl⟩ := hbegun.string rfl
    refine ⟨s, hw, before, p, r, ?_, ?_, parse_of_spells hs⟩
    · rw [hbounded, ← hl, append_assoc]
      rfl
    · rw [indexIn, hbounded, length_append, Nat.add_sub_cancel]
  · have hhead : ((c :: l).head? == some 0x22) = false :=
      beq_eq_false_iff_ne.mpr fun h ↦ hquote (some_inj.mp h)
    rw [hhead]
    intro ext record hrecord hnodup
    obtain ⟨w, r, hbegun, hw⟩ := hread ext record hrecord hnodup
    rw [hw]
    cases w with
    | str s => exact absurd rfl (hbegun.other hquote s)
    | _ => rfl

theorem skipWhitespace_hold : skipWhitespace l = .hold ↔ ∀ c ∈ l, isSpace c = true := by
  induction l with
  | nil => exact ⟨fun _ ↦ List.forall_mem_nil _, fun _ ↦ rfl⟩
  | cons c l ih =>
    rw [skipWhitespace, forall_mem_cons, isSpace_iff]
    split_ifs with hc
    · exact ih.trans ⟨fun h ↦ ⟨hc, h⟩, And.right⟩
    · exact ⟨by rintro ⟨⟩, fun h ↦ absurd h.1 hc⟩

theorem verdict_close (hrecorded : List.Forall₂ (Recorded bounded) members ms)
    (hcanonical : ∀ w ∈ ms, w.1 ≠ canonicalKey) (l : JsString) :
    Verdict bounded fallbackKeys wholeText ⟨[], .done (.obj ms.reverse)⟩ l
      (afterTopLevelClose l members fallbackKeys wholeText) := by
  have hread : ∀ ext record, (run ⟨[], .done (.obj ms.reverse)⟩ (l ++ ext)).bind finish =
      some (.obj record) → (∀ c ∈ l, isSpace c = true) ∧ record = ms.reverse := by
    intro ext record hrecord
    obtain ⟨st', hst', hfinish⟩ := bind_eq_some_iff.mp hrecord
    have hspaces := run_done hst'
    rw [run_spaces (step_done_space _) hspaces, some_inj] at hst'
    rw [← hst'] at hfinish
    exact ⟨fun c hc ↦ hspaces c (mem_append_left _ hc), (Json.obj.inj (some_inj.mp hfinish)).symm⟩
  have hnone : lookup ms.reverse canonicalKey = none := by
    cases hl : lookup ms.reverse canonicalKey with
    | none => rfl
    | some w => exact absurd rfl (hcanonical _ (mem_reverse.mp (mem_of_lookup hl)))
  have hcandidates := recorded_candidates hrecorded fallbackKeys
  rw [afterTopLevelClose]
  by_cases htrailing : skipWhitespace l = .hold
  · rw [if_neg (not_not.mpr htrailing)]
    by_cases hwhole : wholeText = false
    · rw [if_pos hwhole]
      exact fun h ↦ absurd (hwhole.symm.trans h) false_ne_true
    rw [if_neg hwhole]
    have hunwrapped : unwrapped fallbackKeys ms.reverse =
        match fallbackKeys.filterMap fun key ↦ (lookup ms.reverse key).bind string? with
        | [body] => some body
        | _ => none := by rw [unwrapped, hnone]
    generalize (fallbackKeys.filterMap fun key ↦
      (members.lookup key).filter (·.stringValue)) = candidates at hcandidates ⊢
    generalize (fallbackKeys.filterMap fun key ↦
      (lookup ms.reverse key).bind string?) = bodies at hcandidates hunwrapped
    rcases hcandidates with _ | ⟨hm, _ | ⟨hm', hrest⟩⟩
    · intro ext record hrecord _
      rw [(hread ext record hrecord).2, hunwrapped]
    · intro ext record hrecord _
      rw [(hread ext record hrecord).2, hunwrapped]
      exact ⟨_, rfl, hm.append ext⟩
    · intro ext record hrecord _
      rw [(hread ext record hrecord).2, hunwrapped]
  · rw [if_pos htrailing]
    intro ext record hrecord _
    exact absurd (skipWhitespace_hold.mpr (hread ext record hrecord).1) htrailing

/-- The reader is where a member may begin: at the first one, or at the name of a further one. -/
inductive AtMember : List (JsString × Json) → State → JsString → Prop where
  | first {l : JsString} : AtMember [] ⟨[.obj [] none], .member⟩ l
  | next {ms : List (JsString × Json)} {l : JsString} :
      AtMember ms ⟨[.obj ms none], .name⟩ (0x22 :: l)

variable {g : JsString → FreeformWrapperScan}

theorem wrapper_bind {f : JsString → Scan JsString} :
    (x.bind f).wrapper g = x.wrapper fun a ↦ (f a).wrapper g := by
  cases x <;> rfl

theorem wrapper_ite {p : Prop} [Decidable p] :
    (if p then .never else x).wrapper g = if p then .raw else x.wrapper g := by
  split_ifs <;> rfl

/-- What follows the name of a member, as far as the scan reads it. -/
def afterName (bounded : JsString) (fallbackKeys : List JsString) (wholeText : Bool)
    (next : Members → JsString → FreeformWrapperScan) (members : Members) (name : JsString)
    (valueAt : JsString) : FreeformWrapperScan :=
  let stringValue := valueAt.head? == some 0x22
  let valueStart := indexIn bounded valueAt + 1
  if name = canonicalKey then if stringValue then .input valueStart else .raw
  else
    let members := (name, ⟨stringValue, valueStart⟩) :: members
    (scanValue valueAt).wrapper fun valueEnd ↦
      (skipWhitespace valueEnd).wrapper fun at' ↦
      if at'.head? = some 0x2c then (skipWhitespace at'.tail).wrapper fun member ↦
        if member.head? ≠ some 0x22 then .raw else next members member
      else if at'.head? = some 0x7d then
        afterTopLevelClose at'.tail members fallbackKeys wholeText
      else .raw

theorem scanMembers_succ (turns : ℕ) (members : Members) (l : JsString) :
    scanMembers bounded fallbackKeys wholeText (turns + 1) members l =
      (skipWhitespace l).wrapper fun at' ↦ if at'.head? = some 0x7d then
          afterTopLevelClose at'.tail members fallbackKeys wholeText
        else if at'.head? ≠ some 0x22 then .raw else (scanString at'.tail).wrapper fun nameEnd ↦
          match Json.parse (at'.take (at'.length - nameEnd.length)) with
          | some (.str name) => ((skipWhitespace nameEnd).bind fun colon ↦
              if colon.head? ≠ some 0x3a then .never else skipWhitespace colon.tail).wrapper
                (afterName bounded fallbackKeys wholeText
                  (scanMembers bounded fallbackKeys wholeText turns) members name)
          | _ => .raw := by
  simp only [wrapper_bind, wrapper_ite]
  rfl

/-- The scan of the members from a further one on. -/
def MembersAgree (bounded : JsString) (fallbackKeys : List JsString) (wholeText : Bool)
    (turns : ℕ) (next : Members → JsString → FreeformWrapperScan) : Prop :=
  ∀ members ms st l, List.Forall₂ (Recorded bounded) members ms →
    (∀ w ∈ ms, w.1 ≠ canonicalKey) → AtMember ms st l → l <:+ bounded → l.length < turns →
    Verdict bounded fallbackKeys wholeText st l (next members l)

/-- **The value of a member**, and what follows it. -/
theorem afterName_verdict {turns : ℕ} {next : Members → JsString → FreeformWrapperScan}
    (hnext : MembersAgree bounded fallbackKeys wholeText turns next)
    (hrecorded : List.Forall₂ (Recorded bounded) members ms)
    (hcanonical : ∀ w ∈ ms, w.1 ≠ canonicalKey) (name : JsString) (hl : Starts l)
    (hbounded : l <:+ bounded) (hturns : l.length ≤ turns) :
    Verdict bounded fallbackKeys wholeText ⟨[.obj ms (some name)], .value⟩ l
      (afterName bounded fallbackKeys wholeText next members name l) := by
  obtain ⟨c, l, rfl, hspace⟩ := hl
  obtain ⟨before, hbefore⟩ := hbounded
  rw [afterName]
  dsimp only
  by_cases hname : name = canonicalKey
  · subst hname
    rw [if_pos rfl]
    exact verdict_canonical hbefore.symm hspace
  rw [if_neg hname]
  refine (scanValue_agrees [.obj ms (some name)] hspace l).verdict ?_
  rintro r _ hr ⟨w, rfl, hbegun⟩
  have hentry : Recorded bounded
      (name, ⟨(c :: l).head? == some 0x22, indexIn bounded (c :: l) + 1⟩) (name, w) := by
    refine ⟨rfl, fun hstring ↦ ?_, fun hother ↦ hbegun.other fun hc ↦ ?_⟩
    · obtain rfl := some_inj.mp (eq_of_beq hstring)
      obtain ⟨p, s, hp, hs, rfl⟩ := hbegun.string rfl
      refine ⟨s, rfl, before, p, r, by rw [← hp, hbefore], ?_, parse_of_spells hs⟩
      rw [indexIn, ← hbefore, length_append, Nat.add_sub_cancel]
    · rw [hc] at hother
      nomatch hother
  have hrecorded' := List.Forall₂.cons hentry hrecorded
  have hcanonical' : ∀ w' ∈ (name, w) :: ms, w'.1 ≠ canonicalKey :=
    forall_mem_cons.mpr ⟨hname, hcanonical⟩
  refine (skipWhitespace_agrees (between_after _) r).verdict ?_
  rintro _ _ hsuffix ⟨rfl, d, r', rfl, hspace'⟩
  rw [head?_cons, tail_cons]
  have hstep := step_after [.obj ((name, w) :: ms) none] hspace'
  by_cases hcomma : d = 0x2c
  · subst hcomma
    rw [if_pos rfl]
    refine verdict_cons hstep ((skipWhitespace_agrees (between_name _) r').verdict ?_)
    rintro _ _ hsuffix' ⟨rfl, e, r'', rfl, hspace''⟩
    rw [head?_cons]
    by_cases hquote : e = 0x22
    · subst hquote
      rw [if_neg (not_not.mpr rfl)]
      have hrest : (0x22 :: r'') <:+ l := by
        refine hsuffix'.trans ?_
        rcases suffix_cons_iff.mp (hsuffix.trans hr) with heq | hsuffix
        · exact (List.cons.inj heq).2 ▸ suffix_refl r'
        · exact (suffix_cons _ _).trans hsuffix
      exact hnext _ _ _ _ hrecorded' hcanonical' .next
        ((hrest.trans (suffix_cons _ _)).trans ⟨before, hbefore⟩)
        (Nat.lt_of_le_of_lt hrest.length_le hturns)
    · rw [if_pos fun h ↦ hquote (some_inj.mp h)]
      refine verdict_raw ?_
      rw [run_cons, step]
      dsimp only
      rw [hspace'', if_neg Bool.false_ne_true, if_neg hquote]
      rfl
  rw [if_neg fun h ↦ hcomma (some_inj.mp h)]
  by_cases hclose : d = 0x7d
  · subst hclose
    rw [if_pos rfl]
    exact verdict_cons hstep (verdict_close hrecorded' hcanonical' r')
  · rw [if_neg fun h ↦ hclose (some_inj.mp h)]
    refine verdict_raw ?_
    show (step _ d).bind _ = none
    rw [show step ⟨[.obj ((name, w) :: ms) none], .after⟩ d = _ from hstep, punctuate,
      if_neg hcomma, if_neg hclose]
    rfl

theorem AtMember.between (h : AtMember ms st l) :
    Between st ∧ step st 0x22 = some ⟨[.obj ms none], .str true []⟩ := by
  cases h with
  | first => exact ⟨between_member _, rfl⟩
  | next => exact ⟨between_name _, rfl⟩

/-- **The members**, from any one on. -/
theorem scanMembers_verdict (turns : ℕ) : MembersAgree bounded fallbackKeys wholeText turns
      (scanMembers bounded fallbackKeys wholeText turns) := by
  induction turns with
  | zero => exact fun _ _ _ _ _ _ _ _ hturns ↦ absurd hturns (Nat.not_lt_zero _)
  | succ turns ih =>
    intro members ms st l hrecorded hcanonical hat hbounded hturns
    obtain ⟨hbetween, hstring⟩ := hat.between
    rw [scanMembers_succ]
    refine (skipWhitespace_agrees hbetween l).found.verdict ?_
    rintro _ st' hsuffix ⟨hfound, rfl, c, r, rfl, hspace⟩
    rw [head?_cons, tail_cons]
    by_cases hclose : c = 0x7d
    · subst hclose
      rw [if_pos rfl]
      cases hat with
      | first => exact verdict_cons rfl (verdict_close hrecorded hcanonical r)
      | next => exact absurd (Scan.at.inj hfound) (by simp)
    rw [if_neg fun h ↦ hclose (some_inj.mp h)]
    by_cases hquote : c = 0x22
    · subst hquote
      rw [if_neg (not_not.mpr rfl)]
      refine Agrees.verdict (scanString_from hstring (f := fun s ↦ ⟨[.obj ms (some s)], .colon⟩)
        (fun s ↦ ?_) r) ?_
      · show some (State.mk [.obj ms (some s.reverse.reverse)] .colon) = _
        rw [reverse_reverse]
      rintro nameEnd _ - ⟨-, p, name, rfl, hs, rfl⟩
      have hname : (0x22 :: (p ++ nameEnd)).take ((0x22 :: (p ++ nameEnd)).length -
          nameEnd.length) = 0x22 :: p := by
        rw [← cons_append, length_append, Nat.add_sub_cancel, take_left]
      rw [hname, parse_of_spells hs]
      refine (colon_agrees ms name [] nameEnd).verdict ?_
      rintro valueAt _ hvalue ⟨rfl, hstarts⟩
      have hrest : valueAt <:+ p ++ nameEnd := hvalue.trans (suffix_append _ _)
      have hwhole := (hrest.trans (suffix_cons _ _)).trans hsuffix
      refine afterName_verdict ih hrecorded hcanonical name hstarts (hwhole.trans hbounded) ?_
      have := (hsuffix.length_le.trans_lt hturns)
      rw [length_cons] at this
      exact hrest.length_le.trans (Nat.le_of_succ_le (Nat.le_of_lt_succ this))
    · rw [if_pos fun h ↦ hquote (some_inj.mp h)]
      have hstep : step st' c = none := by
        cases hat with
        | first =>
          rw [step]
          dsimp only
          rw [hspace, if_neg Bool.false_ne_true, if_neg hclose, if_neg hquote]
        | next =>
          rw [step]
          dsimp only
          rw [hspace, if_neg Bool.false_ne_true, if_neg hquote]
      exact verdict_raw (by rw [run_cons, hstep]; rfl)

/-! ## The whole text -/

theorem skipWhitespace_spaces (hws : ∀ d ∈ ws, isSpace d = true) (hc : isSpace c = false)
    (l : JsString) : skipWhitespace (ws ++ c :: l) = .at (c :: l) := by
  induction ws with
  | nil =>
    rw [nil_append, skipWhitespace, if_neg fun h ↦ ?_]
    rw [isSpace_iff.mpr h] at hc
    cases hc
  | cons d ws ih =>
    obtain ⟨hd, hws⟩ := forall_mem_cons.mp hws
    rw [cons_append, skipWhitespace, if_pos (isSpace_iff.mp hd), ih hws]

theorem obj_iff_brace (hspace : isSpace c = false) (h : (run start (c :: l)).bind finish = some v) :
    (∃ record, v = .obj record) ↔ c = 0x7b := by
  constructor
  · rintro ⟨record, rfl⟩
    obtain ⟨w, r, hbegun, hrest⟩ := value_read hspace h
    obtain ⟨_, hrun, hfinish⟩ := bind_eq_some_iff.mp hrest
    rw [show deliver [] w = ⟨[], .done w⟩ from rfl,
      run_spaces (step_done_space w) (run_done hrun), some_inj] at hrun
    rw [← hrun] at hfinish
    exact hbegun.object record (some_inj.mp hfinish)
  · rintro rfl
    have hholding : Holding [] ⟨[.obj [] none], .member⟩ := .inside [] (suffix_refl _)
    obtain ⟨more, hmore⟩ := obj_of_holding hholding h
    exact ⟨_, hmore⟩

/-- **The verdict on a whole buffer.** -/
theorem scan_verdict (bounded : JsString) (fallbackKeys : List JsString) (wholeText : Bool) :
    Verdict bounded fallbackKeys wholeText start bounded ((skipWhitespace bounded).wrapper fun l ↦
        if l.head? ≠ some 0x7b then .raw
        else scanMembers bounded fallbackKeys wholeText (bounded.length + 1) [] l.tail) := by
  have hstart : ∀ d, isSpace d = true → step start d = some start := (between_value []).space
  rcases spaces_or_head bounded with hall | ⟨ws, c, l, hbounded, hws, hspace⟩
  · rw [skipWhitespace_hold.mpr hall]
    intro _ record hrecord
    rw [run_spaces hstart hall] at hrecord
    cases hrecord
  · have hreaches : Reaches start bounded (c :: l) start := by
      rw [hbounded]
      exact .of_run (run_spaces hstart hws) _
    rw [show skipWhitespace bounded = .at (c :: l) by
      rw [hbounded]; exact skipWhitespace_spaces hws hspace l]
    refine hreaches.verdict ?_
    show Verdict _ _ _ _ _ (if some c ≠ some 0x7b then _ else _)
    by_cases hc : c = 0x7b
    · subst hc
      have hsuffix : l <:+ bounded := (suffix_cons _ l).trans (hbounded ▸ suffix_append ws _)
      exact verdict_cons rfl (scanMembers_verdict _ _ _ _ _ .nil
        (List.forall_mem_nil _) .first hsuffix
        (Nat.lt_succ_of_le hsuffix.length_le))
    · rw [if_pos fun h ↦ hc (some_inj.mp h)]
      intro ext record hrecord
      exact absurd ((obj_iff_brace hspace hrecord).mp ⟨record, rfl⟩) hc

theorem scan_input_brace {fallbackKeys : List JsString} {whole : Bool} {ext : JsString}
    (hv : parse (text ++ ext) = some v) (h : ((skipWhitespace text).wrapper fun l ↦
      if l.head? ≠ some 0x7b then .raw
      else scanMembers text fallbackKeys whole (text.length + 1) [] l.tail) = .input n) :
    ∃ record, v = .obj record := by
  rcases spaces_or_head text with hall | ⟨ws, c, l, rfl, hws, hspace⟩
  · rw [skipWhitespace_hold.mpr hall] at h
    nomatch h
  · rw [skipWhitespace_spaces hws hspace] at h
    have hc : c = 0x7b := by
      by_contra hc
      change (if some c ≠ some 0x7b then _ else _) = _ at h
      rw [if_pos fun heq ↦ hc (some_inj.mp heq)] at h
      nomatch h
    rw [parse, start, append_assoc, run_append, run_spaces (between_value []).space hws] at hv
    exact (obj_iff_brace hspace hv).mpr hc

/-- **The scan of a part decides the whole.**  What it answers of the beginning of a text is what
completion makes of the text, if no name is repeated in it: it leaves a `raw` one as it is, and
takes from an `input` one the string that begins at the index, without the fence that may be around
it.  A short text that is a complete object is not held.  And a value is taken for one exactly if it
is one. -/
theorem scanFreeformWrapper_sound :
    (∀ (text ext : JsString) (fallbackKeys : List JsString) (toolName : JsString) (v : Json),
      parse (text ++ ext) = some v → (∀ record, v = .obj record → (record.map (·.1)).Nodup) →
        (scanFreeformWrapper text fallbackKeys = .raw →
          unwrapThrough fallbackKeys (text ++ ext) toolName = text ++ ext) ∧
        ∀ n, scanFreeformWrapper text fallbackKeys = .input n → ∃ s, DecodesAt (text ++ ext) n s ∧
            unwrapThrough fallbackKeys (text ++ ext) toolName = stripMarkdownCodeFence s toolName) ∧
    (∀ (text : JsString) (fallbackKeys : List JsString) (record : List (JsString × Json)),
      text.length ≤ maxFreeformWrapperScanChars → parse text = some (.obj record) →
        scanFreeformWrapper text fallbackKeys ≠ .hold) ∧
    ∀ text r : JsString, scanValue text = .at r ↔
      ∃ p v, text = p ++ r ∧ parse p = some v ∧ Tight p ∧ EndsAt v r := by
  refine ⟨fun text ext fallbackKeys toolName v hv hnodup ↦ ?_,
    fun text fallbackKeys record hlength hrecord ↦ ?_, fun _ _ ↦ scanValue_eq_at⟩
  · -- the buffer is a beginning of the text, clamped or not
    have hscan : ∃ bounded tail, text = bounded ++ tail ∧
        scanFreeformWrapper text fallbackKeys = (skipWhitespace bounded).wrapper fun l ↦
          if l.head? ≠ some 0x7b then .raw
          else scanMembers bounded fallbackKeys (text.length ≤ maxFreeformWrapperScanChars)
            (bounded.length + 1) [] l.tail := by
      rw [scanFreeformWrapper]
      by_cases hlength : text.length ≤ maxFreeformWrapperScanChars
      · rw [if_pos (decide_eq_true hlength)]
        exact ⟨text, [], (append_nil _).symm, rfl⟩
      · rw [if_neg fun h ↦ hlength (of_decide_eq_true h)]
        exact ⟨_, _, (take_append_drop _ _).symm, rfl⟩
    obtain ⟨bounded, tail, rfl, hscan⟩ := hscan
    have hverdict := scan_verdict bounded fallbackKeys
      ((bounded ++ tail).length ≤ maxFreeformWrapperScanChars)
    rw [← hscan] at hverdict
    rw [append_assoc] at hv ⊢
    constructor
    · intro hraw
      rw [hraw] at hverdict
      cases v with
      | obj record =>
        rw [unwrapThrough_obj hv, hverdict _ record hv (hnodup record rfl)]
        rfl
      | _ => exact unwrapThrough_other hv nofun _ _
    · intro n hinput
      rw [hinput] at hverdict hscan
      obtain ⟨record, rfl⟩ := scan_input_brace hv hscan.symm
      obtain ⟨s, hs, hdecodes⟩ := hverdict _ record hv (hnodup record rfl)
      refine ⟨s, hdecodes, ?_⟩
      rw [unwrapThrough_obj hv, hs]
      rfl
  · intro hhold
    have hverdict := scan_verdict text fallbackKeys true
    rw [scanFreeformWrapper, decide_eq_true hlength] at hhold
    simp only [if_true] at hhold
    rw [hhold] at hverdict
    exact hverdict rfl record hrecord

/-- Arguments cut inside of the input, and complete ones without any. -/
theorem scanFreeformWrapper_sound_cut :
    (∃ s, DecodesAt (js "\x7b\"input\":\"a" ++ js "b\"\x7d") 10 s ∧
      unwrapThrough [] (js "\x7b\"input\":\"a" ++ js "b\"\x7d") (js "exec") =
        stripMarkdownCodeFence s (js "exec")) ∧ scanFreeformWrapper (js "\x7b\x7d") [] ≠ .hold :=
  ⟨(scanFreeformWrapper_sound.1 _ _ [] (js "exec") (.obj [(js "input", .str (js "ab"))]) rfl
    fun _ h ↦ Json.obj.inj h ▸ by decide).2 10 (by decide +kernel),
    scanFreeformWrapper_sound.2.1 _ [] [] (by decide) rfl⟩

/-- Arguments whose `input` is a fenced line. -/
def fencedInput : JsString := js "\x7b\"input\":\"```\\nx\\n```\"\x7d"

/-- **A body is taken out of its fence**: what completion returns is not the string that stands at
the index. -/
theorem body_out_of_fence :
    scanFreeformWrapper fencedInput (freeformFallbackKeys (js "exec")) = .input 10 ∧
      parse fencedInput = some (.obj [(js "input", .str (js "```\nx\n```"))]) ∧
      unwrapFreeformToolInput fencedInput (js "exec") = js "x" ∧
      ∀ s, DecodesAt fencedInput 10 s → unwrapFreeformToolInput fencedInput (js "exec") ≠ s := by
  have hdecodes : DecodesAt fencedInput 10 (js "```\nx\n```") :=
    ⟨js "\x7b\"input\":", js "```\\nx\\n```\"", js "\x7d", by decide +kernel, rfl, rfl⟩
  have hbody : unwrapFreeformToolInput fencedInput (js "exec") = js "x" := by decide +kernel
  refine ⟨by decide +kernel, rfl, hbody, fun s hs ↦ ?_⟩
  rw [hbody, hs.unique hdecodes]
  decide

end Freeform
