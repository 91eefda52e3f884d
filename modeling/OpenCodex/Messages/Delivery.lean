import OpenCodex.Data.Segments
import OpenCodex.Messages.StreamRuns

/-!
# What a body says

A body is read in any chunks, and pings may be written at any time.  Where the budget refuses nothing,
the translator nevertheless sees the events of the body, one after the other (`eventsOf`): its text is
that of the whole body, and frames are cut off at the same places (`framesOf_extends`).

`Delivery` makes a rule of this.  What holds at the beginning, is kept by a ping, and is taken from each
event to the next by `handleFrame`, holds of all events of the body when it has been read
(`Delivery.holds`); and the body can be read (`Delivery.readable`).
-/

set_option autoImplicit false

open List Act Option

namespace Messages

open Bridge (indexOf indexOf_spec indexOf_le suffix_take occurs_of_suffix trim)
open Sse (utf8Decoder)

/-! ## Text -/

theorem utf8Decoder_append (d : Utf8.State × Bool) (a b : List UInt8) :
    utf8Decoder.decode d (a ++ b) = ((utf8Decoder.decode (utf8Decoder.decode d a).1 b).1,
        (utf8Decoder.decode d a).2 ++ (utf8Decoder.decode (utf8Decoder.decode d a).1 b).2) := by
  obtain ⟨s, started⟩ := d
  simp only [utf8Decoder, Utf8.run_append]
  cases started with
  | true => simp
  | false =>
    cases (Utf8.run s a).2 with
    | nil => simp [Utf8.dropMark]
    | cons p points => by_cases hp : p = Utf8.byteOrderMark <;> simp [Utf8.dropMark, hp]

/-- What has been decoded when these bytes were read. -/
def streamText (bytes : List UInt8) : JsString := (utf8Decoder.decode utf8Decoder.fresh bytes).2

/-! ## Frames -/

abbrev Frame := JsString × Json

def separator : JsString := js "\n\n"

/-- The text up to here is a frame with its separator. -/
def endsEvent (text : JsString) : Bool := separator.isSuffixOf text

def readLine (read : JsString × JsString) (line : JsString) : JsString × JsString :=
  match fieldValue "event" line, fieldValue "data" line with
  | some name, _ => (trim name, read.2)
  | none, some fragment => (read.1, read.2 ++ fragment)
  | none, none => read

/-- The event in a raw frame. -/
def eventIn (rawFrame : JsString) : Option Frame :=
  frameEvent ((rawFrame.splitOn 10).foldl readLine ([], []))

/-- The events of a text, in order. -/
def framesOf (text : JsString) : List Frame :=
  (Segments.cut endsEvent text).1.filterMap fun segment ↦
    eventIn (segment.take (segment.length - 2))

/-- **The events of a body.** -/
def eventsOf (body : List UInt8) : List Frame := framesOf (streamText body)

theorem separator_length : separator.length = 2 := by decide +kernel

theorem head_endsEvent (text : JsString) :
    Segments.head endsEvent text = (indexOf separator text).map fun i ↦ text.take (i + 2) := by
  cases hindex : indexOf separator text with
  | none =>
    refine Segments.head_eq_none.mpr fun f hf ↦ ?_
    by_contra hends
    rw [Bool.not_eq_false] at hends
    obtain ⟨j, hj, -⟩ := occurs_of_suffix (isSuffixOf_iff_suffix.mp hends) hf
    obtain ⟨i, hi, -⟩ := indexOf_le hj
    exact absurd (hindex.symm.trans hi) (by simp)
  | some i =>
    have hspec := indexOf_spec hindex
    have hlength := hspec.length_le
    refine Segments.head_eq_some.mpr ⟨List.take_prefix _ _, ?_, fun g hg hends ↦ ?_⟩
    · have hsuffix := suffix_take hspec
      exact isSuffixOf_iff_suffix.mpr hsuffix
    · -- an earlier end would be an earlier occurrence
      have hgtext := hg.trans (List.take_prefix _ _)
      obtain ⟨j, hj, hjlength⟩ := occurs_of_suffix (isSuffixOf_iff_suffix.mp hends) hgtext
      obtain ⟨k, hk, hle⟩ := indexOf_le hj
      obtain rfl := some.inj (hindex.symm.trans hk)
      rw [separator_length] at hjlength
      refine hg.eq_of_length_le ?_
      rw [length_take]
      omega

theorem endsEvent_nil : endsEvent [] = false := by decide +kernel

variable {text : JsString}

theorem framesOf_of_none (h : indexOf separator text = none) : framesOf text = [] := by
  rw [framesOf, Segments.cut_of_none (by rw [head_endsEvent, h]; rfl)]
  rfl

variable {sep : ℕ}

theorem framesOf_of_some (h : indexOf separator text = some sep) :
    framesOf text = (eventIn (text.take sep)).toList ++ framesOf (text.drop (sep + 2)) := by
  have hhead : Segments.head endsEvent text = some (text.take (sep + 2)) := by
    rw [head_endsEvent, h]
    rfl
  have hlength := (indexOf_spec h).length_le
  rw [length_drop, separator_length] at hlength
  have htake : (text.take (sep + 2)).length = sep + 2 := by
    rw [length_take]
    omega
  rw [framesOf, Segments.cut_of_some endsEvent_nil hhead, filterMap_cons, htake,
    Nat.add_sub_cancel, take_take, Nat.min_eq_left (Nat.le_add_right sep 2)]
  cases eventIn (text.take sep) <;> rfl

/-- The events of a text, found as the code finds them. -/
def scanFrames : ℕ → JsString → List Frame
  | 0, _ => []
  | n + 1, text =>
    match indexOf separator text with
    | none => []
    | some sep => (eventIn (text.take sep)).toList ++ scanFrames n (text.drop (sep + 2))

theorem framesOf_eq_scan {n : ℕ} (h : text.length ≤ n) : framesOf text = scanFrames n text := by
  induction n generalizing text with
  | zero =>
    obtain rfl := length_eq_zero_iff.mp (Nat.le_zero.mp h)
    rw [framesOf_of_none (show indexOf separator [] = none from if_neg (by decide +kernel)),
      scanFrames]
  | succ n ih =>
    rw [scanFrames]
    cases hsep : indexOf separator text with
    | none => exact framesOf_of_none hsep
    | some sep =>
      have hlength := (indexOf_spec hsep).length_le
      rw [framesOf_of_some hsep, ih (by rw [length_drop]; omega)]

theorem indexOf_append (h : indexOf separator text = some sep) (more : JsString) :
    indexOf separator (text ++ more) = some sep := by
  have hspec := indexOf_spec h
  have hhead : Segments.head endsEvent text = some (text.take (sep + 2)) := by
    rw [head_endsEvent, h]
    rfl
  have happend := Segments.head_append hhead more
  rw [head_endsEvent] at happend
  obtain ⟨i, hi, htake⟩ := map_eq_some_iff.mp happend
  have hlength := hspec.length_le
  have hlength' := (indexOf_spec hi).length_le
  rw [length_drop, separator_length] at hlength hlength'
  have heq := congrArg List.length htake
  rw [length_take, length_take, length_append] at heq
  rw [length_append] at hlength'
  rw [hi]
  congr 1
  omega

/-! ## Code that is granted everything -/

section Granted

variable (E : MessagesEnv) {s : MessageStream}

theorem ask_granted (h : s.grants = none) : ask s = (.ok ⟨⟩, s) := by rw [ask, h]

theorem onLine_granted (h : s.grants = none) (read : JsString × JsString) (line : JsString) :
    onLine read line s = (.ok (readLine read line), s) := by
  unfold onLine readLine
  cases fieldValue "event" line with
  | some name => rfl
  | none =>
    cases fieldValue "data" line with
    | none => rfl
    | some fragment =>
      dsimp only
      rw [bind_of_ok (ask_granted h), bind_of_ok (ask_granted h), pure_run]

theorem readLines_granted (h : s.grants = none) (lines : List JsString) (read : JsString × JsString) :
    lines.foldlM onLine read s = (.ok (lines.foldl readLine read), s) := by
  induction lines generalizing read with
  | nil => rfl
  | cons line lines ih =>
    rw [foldlM_cons, bind_of_ok (onLine_granted h read line), ih]
    rfl

theorem onFrame_granted (h : s.grants = none) (room : Bool) (rawFrame : JsString) :
    onFrame E room rawFrame s =
      when (s.terminated = false) (forSome (eventIn rawFrame) fun e ↦ handleFrame E room e.1 e.2) s := by
  rw [onFrame, bind_of_ok (ask_granted h), bind_of_ok (ask_granted h),
    bind_of_ok (readLines_granted h _ _), bind_of_ok (get_run s)]
  rfl

end Granted

/-! ## Delivery -/

/-- The budget refuses nothing, and no read fails. -/
def unrefused : TranslationEvent → Bool
  | .chunk none _ => true
  | .scan none _ => true
  | .done none => true
  | .ping none _ => true
  | _ => false

def brings : TranslationEvent → List UInt8
  | .chunk _ value => value
  | _ => []

/-- The translator, and beside it what has been read. -/
def reader (E : MessagesEnv) : Machine (Translation × List UInt8) TranslationEvent :=
  (responsesSseToAnthropicSse E).recording brings

def Unrefused (_ : Translation × List UInt8) (e : TranslationEvent) : Prop := unrefused e = true

instance (t : Translation × List UInt8) (e : TranslationEvent) : Decidable (Unrefused t e) :=
  inferInstanceAs (Decidable (_ = true))

/-- The translator has read this body to its end. -/
def ReadToEnd (E : MessagesEnv) (body : List UInt8) (t : Translation) : Prop :=
  (reader E).ReachableIf Unrefused (t, body) ∧ t.phase = .over

/-- A property that goes from each event of a body to the next. -/
structure Delivery (E : MessagesEnv) (body : List UInt8) (Inv : List Frame → MessageStream → Prop) :
    Prop where
  init : Inv [] {}
  granted : ∀ fs s g, Inv fs s → Inv fs { s with grants := g }
  ping : ∀ fs (s : MessageStream), Inv fs s → Inv fs { s with written := s.written ++ [.ping] }
  /-- Only the last event terminates. -/
  live : ∀ fs f rest s, eventsOf body = fs ++ f :: rest → Inv fs s → s.terminated = false
  ended : ∀ s, Inv (eventsOf body) s → s.terminated = true
  event : ∀ fs f rest room s, eventsOf body = fs ++ f :: rest → Inv fs s → s.grants = none →
    Meets (fun _ ↦ Inv (fs ++ [f])) (fun _ _ ↦ False) (handleFrame E room f.1 f.2 s)

namespace Delivery

variable {E : MessagesEnv} {body : List UInt8} {Inv : List Frame → MessageStream → Prop}

/-- The events behind and the events in the buffer are those of the text. -/
structure Midstream (Inv : List Frame → MessageStream → Prop) (t : Translation) (b : List UInt8) :
    Prop where
  decoder : t.decoder = (utf8Decoder.decode utf8Decoder.fresh b).1
  stream : ∃ fs, Inv fs t.stream ∧
    ∀ more, framesOf (streamText b ++ more) = fs ++ framesOf (t.buffer ++ more)

/-- What holds of a translator on its way through the body. -/
def Underway (body : List UInt8) (Inv : List Frame → MessageStream → Prop) (t : Translation)
    (b : List UInt8) : Prop :=
  match t.phase with
  | .reading => Midstream Inv t b ∧ indexOf separator t.buffer = none
  | .scanning => Midstream Inv t b
  | .cancelling => b ≠ body
  | .over => b = body → Inv (eventsOf body) t.stream

variable {s : MessageStream}

/-- **Taking a frame** off the buffer. -/
theorem onFrame_midstream (h : Delivery E body Inv) {fs : List Frame} (hinv : Inv fs s)
    (hgrants : s.grants = none) (room : Bool) {rawFrame : JsString} {rest : List Frame}
    (hevents : eventsOf body = fs ++ ((eventIn rawFrame).toList ++ rest)) :
    Meets (fun _ ↦ Inv (fs ++ (eventIn rawFrame).toList)) (fun _ _ ↦ False)
      (onFrame E room rawFrame s) := by
  rw [onFrame_granted E hgrants]
  cases hevent : eventIn rawFrame with
  | none =>
    have hnothing : Meets (fun _ ↦ Inv fs) (fun _ _ ↦ False)
        (when (s.terminated = false) (pure ⟨⟩ : Code PUnit) s) :=
      Keeps.when (P := Inv fs) (fun _ ↦ .pure _) s hinv
    simpa using hnothing
  | some f =>
    rw [hevent] at hevents
    rw [when_pos (h.live fs f rest s hevents hinv)]
    exact h.event fs f rest room s hevents hinv hgrants

variable {t : Translation}

theorem runWith_granted {code : Code PUnit} (next : TranslationPhase) {Q : MessageStream → Prop}
    (h : Meets (fun _ ↦ Q) (fun _ _ ↦ False) (code { t.stream with grants := none })) :
    (runWith t none code next).phase = next ∧ (runWith t none code next).decoder = t.decoder ∧
      (runWith t none code next).buffer = t.buffer ∧ Q (runWith t none code next).stream := by
  rw [runWith]
  cases hrun : code { t.stream with grants := none } with
  | mk r s =>
    rw [hrun] at h
    cases r with
    | ok a => exact ⟨rfl, rfl, rfl, h⟩
    | error e => exact h.elim

variable {b : List UInt8}

theorem Midstream.chunk (h : Delivery E body Inv) (hmid : Midstream Inv t b) (value : List UInt8) :
    Midstream Inv (runWith { t with
          decoder := (utf8Decoder.decode t.decoder value).1
          buffer := t.buffer ++ (utf8Decoder.decode t.decoder value).2 } none (do ask; ask) .scanning)
      (b ++ value) := by
  obtain ⟨fs, hinv, htext⟩ := hmid.stream
  have hgranted := h.granted fs t.stream none hinv
  have hasks : Meets (fun _ ↦ Inv fs) (fun _ _ ↦ False)
      ((do ask; ask : Code PUnit) { t.stream with grants := none }) := by
    rw [bind_of_ok (ask_granted rfl), ask_granted rfl]
    exact hgranted
  obtain ⟨-, hdecoder, hbuffer, hstream⟩ := runWith_granted .scanning (t := { t with
      decoder := (utf8Decoder.decode t.decoder value).1
      buffer := t.buffer ++ (utf8Decoder.decode t.decoder value).2 }) hasks
  constructor
  · rw [hdecoder, utf8Decoder_append, hmid.decoder]
  · refine ⟨fs, hstream, fun more ↦ ?_⟩
    have hsplit : streamText (b ++ value) =
        streamText b ++ (utf8Decoder.decode t.decoder value).2 := by
      rw [streamText, utf8Decoder_append, hmid.decoder, streamText]
    rw [hbuffer, hsplit, append_assoc, append_assoc, htext]

theorem streamText_extends (h : b <+: body) : ∃ more, streamText body = streamText b ++ more := by
  obtain ⟨rest, rfl⟩ := h
  exact ⟨_, by rw [streamText, utf8Decoder_append, streamText]⟩

theorem Midstream.scan (h : Delivery E body Inv) (hmid : Midstream Inv t b) (hb : b <+: body)
    (hsep : indexOf separator t.buffer = some sep) (room : Bool) :
    (runWith { t with buffer := t.buffer.drop (sep + 2) } none
        (onFrame E room (t.buffer.take sep)) .scanning).phase = .scanning ∧
      Midstream Inv (runWith { t with buffer := t.buffer.drop (sep + 2) } none
        (onFrame E room (t.buffer.take sep)) .scanning) b := by
  obtain ⟨fs, hinv, htext⟩ := hmid.stream
  have hlength := (indexOf_spec hsep).length_le
  rw [length_drop, separator_length] at hlength
  -- the first frame of the buffer stays the first one
  have hfirst : ∀ more, framesOf (t.buffer ++ more) = (eventIn (t.buffer.take sep)).toList ++
      framesOf (t.buffer.drop (sep + 2) ++ more) := by
    intro more
    rw [framesOf_of_some (indexOf_append hsep more), take_append_of_le_length (by omega),
      drop_append_of_le_length (by omega)]
  obtain ⟨more, hmore⟩ := streamText_extends hb
  have hevents : eventsOf body = fs ++ ((eventIn (t.buffer.take sep)).toList ++
      framesOf (t.buffer.drop (sep + 2) ++ more)) := by
    rw [eventsOf, hmore, htext, hfirst]
  have hframe := onFrame_midstream h (h.granted fs t.stream none hinv) rfl room hevents
  obtain ⟨hphase, hdecoder, hbuffer, hstream⟩ := runWith_granted .scanning
    (t := { t with buffer := t.buffer.drop (sep + 2) }) hframe
  refine ⟨hphase, hdecoder.trans hmid.decoder, _, hstream, fun more ↦ ?_⟩
  rw [hbuffer, htext, hfirst, append_assoc]

theorem fail_nothing (h : s.terminated = true) (status : ℚ) (message : JsString)
    (upstreamDerived : Bool) (code : Option JsString) :
    fail E status message upstreamDerived code s = (.ok ⟨⟩, s) := by
  rw [fail, bind_run, get_run, andThen_ok, when_neg (by rw [h]; exact Bool.noConfusion), pure_run]

theorem Midstream.all (hmid : Midstream Inv t body) (hsep : indexOf separator t.buffer = none) :
    Inv (eventsOf body) t.stream := by
  obtain ⟨fs, hinv, htext⟩ := hmid.stream
  have hall := htext []
  rw [append_nil, append_nil, framesOf_of_none hsep, append_nil] at hall
  rw [eventsOf, hall]
  exact hinv

theorem scan_none (hphase : t.phase = .scanning) (hsep : indexOf separator t.buffer = none)
    (grants : Option ℕ) (room : Bool) :
    translationStep E t (.scan grants room) = some { t with phase := .reading } := by
  rw [separator] at hsep
  simp only [translationStep, hphase, hsep]

theorem scan_some (hphase : t.phase = .scanning) (hsep : indexOf separator t.buffer = some sep)
    (grants : Option ℕ) (room : Bool) : translationStep E t (.scan grants room) =
      some (runWith { t with buffer := t.buffer.drop (sep + 2) } grants
        (onFrame E room (t.buffer.take sep)) .scanning) := by
  rw [separator] at hsep
  simp only [translationStep, hphase, hsep]

variable {t' : Translation} {e : TranslationEvent}

theorem underway_step (h : Delivery E body Inv) (hunder : b <+: body → Underway body Inv t b)
    (hc : unrefused e = true) (hs : translationStep E t e = some t') (hb : b ++ brings e <+: body) :
    Underway body Inv t' (b ++ brings e) := by
  have hunder := hunder ((prefix_append _ _).trans hb)
  obtain ⟨phase, decoder, buffer, stream⟩ := t
  cases e with
  | chunk grants value =>
    obtain rfl : grants = none := by
      cases grants with
      | none => rfl
      | some n => exact absurd hc Bool.noConfusion
    cases phase with
    | reading =>
      obtain rfl := some.inj hs
      have hmid := Midstream.chunk h hunder.1 value
      rw [Underway, (runWith_granted .scanning (Q := fun _ ↦ True) ?_).1]
      · exact hmid
      · exact trivial
    | _ => cases hs
  | scan grants room =>
    obtain rfl : grants = none := by
      cases grants with
      | none => rfl
      | some n => exact absurd hc Bool.noConfusion
    have hbrings : brings (.scan none room) = [] := rfl
    rw [hbrings, append_nil] at hb ⊢
    cases phase with
    | scanning =>
      cases hsep : indexOf separator buffer with
      | none =>
        rw [scan_none rfl hsep] at hs
        obtain rfl := some.inj hs
        exact ⟨⟨hunder.decoder, hunder.stream⟩, hsep⟩
      | some sep =>
        have hscan := Midstream.scan h hunder hb hsep room
        rw [scan_some rfl hsep] at hs
        obtain rfl := some.inj hs
        rw [Underway, hscan.1]
        exact hscan.2
    | _ => cases hs
  | done grants =>
    obtain rfl : grants = none := by
      cases grants with
      | none => rfl
      | some n => exact absurd hc Bool.noConfusion
    have hbrings : brings (.done none) = [] := rfl
    rw [hbrings, append_nil] at hb ⊢
    cases phase with
    | reading =>
      obtain rfl := some.inj hs
      by_cases hbody : b = body
      · subst hbody
        have hinv := h.granted _ stream none (Midstream.all hunder.1 hunder.2)
        rw [runWith, fail_nothing (h.ended _ hinv)]
        exact fun _ ↦ hinv
      · rw [runWith]
        split
        · exact fun heq ↦ absurd heq hbody
        · exact hbody
    | _ => cases hs
  | readError grants message | readOverflow | cancelled => exact absurd hc Bool.noConfusion
  | ping grants room =>
    obtain rfl : grants = none := by
      cases grants with
      | none => rfl
      | some n => exact absurd hc Bool.noConfusion
    have hbrings : brings (.ping none room) = [] := rfl
    rw [hbrings, append_nil] at hb ⊢
    cases phase with
    | reading =>
      obtain rfl := some.inj hs
      obtain ⟨fs, hinv, htext⟩ := hunder.1.stream
      refine ⟨⟨hunder.1.decoder, fs, ?_, htext⟩, hunder.2⟩
      exact ping_after (h.granted fs) (h.ping fs) (h.granted fs stream none hinv)
    | cancelling =>
      obtain rfl := some.inj hs
      exact hunder
    | scanning => cases hs
    | «over» => cases hs

theorem underway_inductive (h : Delivery E body Inv) :
    (reader E).Inductive Unrefused fun t ↦ t.2 <+: body → Underway body Inv t.1 t.2 where
  init := by
    rintro ⟨t, b⟩ ⟨rfl, rfl⟩ -
    refine ⟨⟨rfl, [], h.init, fun more ↦ rfl⟩, ?_⟩
    exact if_neg (by decide +kernel)
  step := by
    rintro ⟨t, b⟩ e t' hunder hc hs hb
    obtain ⟨u, hu, rfl⟩ := map_eq_some_iff.mp hs
    exact underway_step h hunder hc hu hb

/-- **What holds from each event to the next holds at the end**, for any chunks and any pings. -/
theorem holds (h : Delivery E body Inv) (ht : ReadToEnd E body t) :
    Inv (eventsOf body) t.stream := by
  have hunder := (underway_inductive h).reachable ht.1 prefix_rfl
  rw [Underway, ht.2] at hunder
  exact hunder rfl

/-! ## The body can be read -/

theorem next_of_step (hc : unrefused e = true) (h : translationStep E t e = some t') :
    (reader E).Next Unrefused (t, b) (t', b ++ brings e) :=
  ⟨e, hc, map_eq_some_iff.mpr ⟨t', h, rfl⟩⟩

theorem run_to_end (h : Delivery E body Inv) (n : ℕ) :
    ∀ t, t.buffer.length ≤ n → t.phase = .scanning →
      (reader E).ReachableIf Unrefused (t, body) → ∃ t', ReadToEnd E body t' := by
  induction n using Nat.strong_induction_on with
  | h n ih =>
    intro t hn hphase hreach
    cases hsep : indexOf separator t.buffer with
    | none =>
      have hreading := hreach.next (next_of_step rfl (scan_none hphase hsep none true))
      rw [show brings (.scan none true) = [] from rfl, append_nil] at hreading
      have hunder := (underway_inductive h).reachable hreading prefix_rfl
      have hended := h.ended _ (h.granted _ _ none (Midstream.all hunder.1 hunder.2))
      refine ⟨{ t with phase := .over, stream := { t.stream with grants := none } }, ?_, rfl⟩
      have hdone : translationStep E { t with phase := .reading } (.done none) =
          some { t with phase := .over, stream := { t.stream with grants := none } } := by
        simp only [translationStep, runWith, fail_nothing hended]
      have hover := hreading.next (next_of_step rfl hdone)
      rwa [show brings (.done none) = [] from rfl, append_nil] at hover
    | some sep =>
      have hlength := (indexOf_spec hsep).length_le
      rw [length_drop, separator_length] at hlength
      have hunder := (underway_inductive h).reachable hreach prefix_rfl
      rw [Underway, hphase] at hunder
      have hnext := hreach.next (next_of_step rfl (scan_some hphase hsep none true))
      rw [show brings (.scan none true) = [] from rfl, append_nil] at hnext
      refine ih (t.buffer.length - 2) (by omega) _ ?_
        (Midstream.scan h hunder prefix_rfl hsep true).1 hnext
      have hbuffer : ∀ (t : Translation) (code : Code PUnit),
          (runWith t none code .scanning).buffer = t.buffer := by
        intro t code
        rw [runWith]
        split <;> rfl
      rw [hbuffer, length_drop]
      change t.buffer.length - (sep + 2) ≤ t.buffer.length - 2
      omega

/-- **The body can be read.** -/
theorem readable (h : Delivery E body Inv) : ∃ t, ReadToEnd E body t := by
  have hstart : (reader E).ReachableIf Unrefused ({}, []) := .init ⟨rfl, rfl⟩
  have hchunk := hstart.next (next_of_step (e := .chunk none body) rfl rfl)
  exact run_to_end h _ _ le_rfl rfl hchunk

end Delivery

end Messages
