import OpenCodex.Bridge.Events
import OpenCodex.Data.JsonDoc
import OpenCodex.Data.OMap
import Mathlib.Data.List.TakeWhile
import Mathlib.Data.Finset.Card

/-!
# Loops across turns

A client that sends the same tool call back turn after turn, and gets the same result each time, is
in a loop that no single response shows.  For every lane the ledger remembers the last tool round
trip it was told of, as the signature of the call and the digest of its result, and how many bodies
in a row had it; at three it accuses the target that serves the lane, once for each streak.

The round trip is read out of the whole history that a body carries, and the ledger does not know
which part of it is new.  So a turn that adds only text counts as one more round trip, and three
messages after one call are a loop (`text_is_a_loop`).  Where every body that goes on with a streak
brings at least one more answered call, three bodies are three calls (`loops_are_real`).
-/

set_option autoImplicit false

open List Option

namespace LaneLedger

open Json Bridge

/-! ## The round trips of a body -/

def callArgumentCapChars : ℕ := 2048
def roundTripDigestChars : ℕ := 8192
def roundTripRepeats : ℕ := 3
def laneLedgerCapacity : ℕ := 512
def laneLedgerTtlMs : ℤ := 30 * 60000

/-- A member of a record that is a string. -/
def text? (record : Json) (name : JsString) : Option JsString :=
  match record.field? name with
  | some (.str s) => some s
  | _ => none

/-- `replace(/\s+/g, " ")`; the flag tells whether the run of blanks is already replaced. -/
def collapse (inRun : Bool) : JsString → JsString
  | [] => []
  | c :: rest =>
    if isTrimmed c then if inRun then collapse true rest else 0x20 :: collapse true rest
    else c :: collapse false rest

def signatureOf (item : Json) (carriedArguments : JsString) : JsString :=
  let namespaceText := (text? item (js "namespace")).getD []
  let name := (text? item (js "name")).getD []
  let rawArguments := (text? item (js "arguments")).getD
    ((text? item (js "input")).getD carriedArguments)
  let argumentsText := (collapse false rawArguments).take callArgumentCapChars
  (if namespaceText = [] then [] else namespaceText ++ js ".") ++ name ++ js "(" ++ argumentsText ++
    js ")"

def typeOf (record : Json) : JsString := (text? record (js "type")).getD []

/-- The `call_id` of an item, if it has one that is not empty. -/
def callId? (record : Json) : Option JsString := truthy (text? record (js "call_id"))

def isCall (item : Json) : Bool :=
  item.isObject && [js "function_call", js "custom_tool_call", js "local_shell_call"].contains
    (typeOf item)

def isOutput (item : Json) : Bool :=
  item.isObject && [js "function_call_output", js "custom_tool_call_output",
    js "local_shell_call_output"].contains (typeOf item)

/-- The signatures of the calls of a history, under their ids. -/
abbrev CallBook := OMap JsString JsString

def noteCall (item : Json) (callsById : CallBook) : CallBook :=
  match callId? item with
  | none => callsById
  | some callId =>
    if isCall item then callsById.set callId (signatureOf item [])
    else if isOutput item then callsById.set callId ((callsById.get? callId).getD [])
    else callsById

/-- The history is walked backwards, so that an output finds the calls before it. -/
def callBook (input : List Json) : CallBook := input.foldr noteCall .empty

/-- What a call asked and what it got. -/
@[ext]
structure RoundTrip where
  signature : JsString
  digest : JsString
  deriving DecidableEq

/-- `record.output ?? record.result ?? ""` -/
def outputValue (record : Json) : Json :=
  match record.field? (js "output") with
  | none | some .null =>
    match record.field? (js "result") with
    | none | some .null => .str []
    | some result => result
  | some output => output

section Reading

variable (sha1 : JsString → JsString)

def digestText (text : JsString) : JsString := sha1 (text.take roundTripDigestChars)

/-- The round trip that an output ends, if it answers a call. -/
def roundTripOf (callsById : CallBook) (item : Json) : Option RoundTrip :=
  if !isOutput item then none
  else (truthy ((callId? item).bind callsById.get?)).map fun signature ↦
    let output := (text? item (js "output")).getD (stringify (outputValue item))
    ⟨signature, digestText sha1 output⟩

/-- The `input` of a request body, if it is a list. -/
def inputOf (body : Json) : List Json :=
  match body.field? (js "input") with
  | some (.arr items) => items
  | _ => []

def lastToolRoundTrip (body : Json) : Option RoundTrip :=
  let input := inputOf body
  input.reverse.findSome? (roundTripOf sha1 (callBook input))

end Reading

/-! ## The ledger -/

structure ComboDegenerateTarget where
  provider : String
  model : String
  deriving DecidableEq

structure LaneRoundTripEntry extends RoundTrip where
  repeats : ℕ
  /-- This streak has already demoted a target. -/
  fired : Bool
  notedAt : ℤ
  deriving DecidableEq

structure LaneServing where
  comboId : String
  target : ComboDegenerateTarget
  notedAt : ℤ
  deriving DecidableEq

structure Ledger where
  laneRoundTrips : OMap String LaneRoundTripEntry
  laneServing : OMap String LaneServing

/-- The longest unchanged entries go, so many of them. -/
def dropOldest {α : Type} : ℕ → OMap String α → OMap String α
  | 0, m => m
  | n + 1, m =>
    match m.keys.head? with
    | none => m
    | some oldest => dropOldest n (m.delete oldest)

def withinCapacity {α : Type} (m : OMap String α) : OMap String α :=
  dropOldest (m.size - laneLedgerCapacity) m

/-- A lane that is there and not empty. -/
def laneOf (lane : Option String) : Option String := lane.filter (· ≠ "")

def noteComboLaneServing (ledger : Ledger) (lane : Option String) (comboId : String)
    (target : ComboDegenerateTarget) (now : ℤ) : Ledger :=
  match laneOf lane with
  | none => ledger
  | some lane =>
    if comboId = "" then ledger
    else { ledger with
      laneServing := withinCapacity ((ledger.laneServing.delete lane).set lane
        ⟨comboId, target, now⟩) }

structure Verdict where
  signature : JsString
  repeats : ℕ
  comboId : String
  target : ComboDegenerateTarget
  deriving DecidableEq

/-- The entry of a lane after one more round trip. -/
def nextEntry (previous : Option LaneRoundTripEntry) (pair : RoundTrip) (now : ℤ) :
    LaneRoundTripEntry :=
  match previous with
  | none => { pair with repeats := 1, fired := false, notedAt := now }
  | some previous =>
    if now - previous.notedAt < laneLedgerTtlMs ∧ previous.signature = pair.signature ∧
        previous.digest = pair.digest then
      { previous with repeats := previous.repeats + 1, notedAt := now }
    else { pair with repeats := 1, fired := false, notedAt := now }

/-- Who is to blame, if the serving target is known and recent. -/
def servingAt (ledger : Ledger) (lane : String) (now : ℤ) : Option LaneServing :=
  (ledger.laneServing.get? lane).filter fun serving ↦ now - serving.notedAt < laneLedgerTtlMs

/-- The entry that is marked as fired is the one in the table. -/
def noteComboToolRoundTrip (sha1 : JsString → JsString) (ledger : Ledger) (lane : Option String)
    (body : Json) (now : ℤ) : Ledger × Option Verdict :=
  match laneOf lane, lastToolRoundTrip sha1 body with
  | some lane, some pair =>
    let entry := nextEntry (ledger.laneRoundTrips.get? lane) pair now
    let verdict :=
      if entry.repeats < roundTripRepeats ∨ entry.fired = true then none
      else (servingAt ledger lane now).map fun serving ↦
        ⟨pair.signature, entry.repeats, serving.comboId, serving.target⟩
    let entry := { entry with fired := entry.fired || verdict.isSome }
    ({ ledger with
      laneRoundTrips := withinCapacity ((ledger.laneRoundTrips.delete lane).set lane entry) },
      verdict)
  | _, _ => (ledger, none)

/-! ## Runs -/

inductive Call where
  | serving (lane : Option String) (comboId : String) (target : ComboDegenerateTarget) (now : ℤ)
  | roundTrip (lane : Option String) (body : Json) (now : ℤ)

def apply (sha1 : JsString → JsString) (ledger : Ledger) : Call → Ledger
  | .serving lane comboId target now => noteComboLaneServing ledger lane comboId target now
  | .roundTrip lane body now => (noteComboToolRoundTrip sha1 ledger lane body now).1

/-- The ledger after some calls. -/
def after (sha1 : JsString → JsString) (calls : List Call) : Ledger :=
  calls.foldl (apply sha1) ⟨.empty, .empty⟩

/-! ## What a history says -/

/-- A tool output of a history: the call it answers, and the round trip it ends. -/
structure ToolOutput where
  callId : JsString
  roundTrip : Option RoundTrip
  deriving DecidableEq

def toolOutputs (sha1 : JsString → JsString) (body : Json) : List ToolOutput :=
  let input := inputOf body
  (input.filter isOutput).map fun item ↦
    ⟨(callId? item).getD [], roundTripOf sha1 (callBook input) item⟩

/-- The outputs at the end of a history that all end the same round trip, the last one first.  Those
after them answer no call. -/
def lastBlock (pair : RoundTrip) (outputs : List ToolOutput) : List ToolOutput :=
  (outputs.reverse.dropWhile (·.roundTrip.isNone)).takeWhile (·.roundTrip == some pair)

/-- How many calls are answered there. -/
def callsAnswered (sha1 : JsString → JsString) (body : Json) (pair : RoundTrip) : ℕ :=
  ((lastBlock pair (toolOutputs sha1 body)).map (·.callId)).toFinset.card

section History

variable {sha1 : JsString → JsString} {body item : Json} {pair : RoundTrip}

theorem roundTripOf_of_not_isOutput (callsById : CallBook) (h : isOutput item = false) :
    roundTripOf sha1 callsById item = none := by
  rw [roundTripOf, h]
  rfl

theorem lastToolRoundTrip_eq (sha1 : JsString → JsString) (body : Json) :
    lastToolRoundTrip sha1 body = (toolOutputs sha1 body).reverse.findSome? (·.roundTrip) := by
  rw [lastToolRoundTrip, toolOutputs]
  generalize callBook (inputOf body) = callsById
  induction inputOf body using List.reverseRecOn with
  | nil => rfl
  | append_singleton input item ih =>
    rw [reverse_append, filter_append, map_append, reverse_append,
      findSome?_append, findSome?_append, ih]
    congr 1
    cases hitem : isOutput item with
    | false => simp [hitem, roundTripOf_of_not_isOutput]
    | true => simp [hitem]

variable {outputs : List ToolOutput}

theorem findSome?_dropWhile : (outputs.dropWhile (·.roundTrip.isNone)).head?.bind (·.roundTrip) =
      outputs.findSome? (·.roundTrip) := by
  induction outputs with
  | nil => rfl
  | cons output outputs ih =>
    cases h : output.roundTrip with
    | none => rw [dropWhile_cons_of_pos (by simp [h]), ih, findSome?_cons, h]
    | some pair =>
      rw [dropWhile_cons_of_neg (by simp [h]), findSome?_cons, h]
      exact h

theorem callsAnswered_pos (h : lastToolRoundTrip sha1 body = some pair) :
    0 < callsAnswered sha1 body pair := by
  rw [lastToolRoundTrip_eq, ← findSome?_dropWhile] at h
  rw [callsAnswered, lastBlock, Finset.card_pos]
  cases hrest : (toolOutputs sha1 body).reverse.dropWhile (·.roundTrip.isNone) with
  | nil =>
    rw [hrest] at h
    exact absurd h.symm (some_ne_none _)
  | cons output rest =>
    rw [hrest] at h
    have hpair : output.roundTrip = some pair := h
    rw [takeWhile_cons_of_pos (by simp [hpair])]
    exact ⟨output.callId, by simp⟩

theorem lastBlock_split (pair : RoundTrip) (outputs : List ToolOutput) :
    ∃ front back, outputs = front ++ (lastBlock pair outputs).reverse ++ back := by
  refine ⟨((outputs.reverse.dropWhile (·.roundTrip.isNone)).dropWhile
    (·.roundTrip == some pair)).reverse,
    (outputs.reverse.takeWhile (·.roundTrip.isNone)).reverse, ?_⟩
  rw [lastBlock, ← reverse_append, takeWhile_append_dropWhile, ← reverse_append,
    takeWhile_append_dropWhile, reverse_reverse]

variable {output : ToolOutput}

theorem roundTrip_of_mem_lastBlock (h : output ∈ lastBlock pair outputs) :
    output.roundTrip = some pair := by
  have hpair := mem_takeWhile_imp (l := (outputs.reverse.dropWhile (·.roundTrip.isNone))) h
  exact beq_iff_eq.mp hpair

theorem call_of_callBook {input : List Json} {callId signature : JsString}
    (h : (callBook input).get? callId = some signature) (hne : signature ≠ []) :
    ∃ call ∈ input, isCall call = true ∧ callId? call = some callId ∧
      signatureOf call [] = signature := by
  induction input with
  | nil => exact absurd h.symm (some_ne_none _)
  | cons item input ih =>
    have hrest : ∀ {signature'}, (callBook input).get? callId = some signature' →
        signature' = signature → ∃ call ∈ item :: input, isCall call = true ∧
          callId? call = some callId ∧ signatureOf call [] = signature := by
      rintro signature' hget rfl
      obtain ⟨call, hmem, hcall⟩ := ih hget
      exact ⟨call, mem_cons_of_mem item hmem, hcall⟩
    rw [callBook, foldr_cons, ← callBook, noteCall] at h
    cases hid : callId? item with
    | none =>
      rw [hid] at h
      exact hrest h rfl
    | some callId' =>
      rw [hid] at h
      dsimp only at h
      by_cases heq : callId = callId'
      · subst heq
        split_ifs at h with hcall hout
        · rw [OMap.get?_set_self] at h
          exact ⟨item, mem_cons_self, hcall, hid, some.inj h⟩
        · rw [OMap.get?_set_self] at h
          cases hget : (callBook input).get? callId with
          | none =>
            rw [hget] at h
            exact absurd (some.inj h).symm hne
          | some signature' =>
            rw [hget] at h
            exact hrest hget (some.inj h)
        · exact hrest h rfl
      · split_ifs at h with hcall hout
        · rw [OMap.get?_set_of_ne _ heq] at h
          exact hrest h rfl
        · rw [OMap.get?_set_of_ne _ heq] at h
          exact hrest h rfl
        · exact hrest h rfl

/-- **What an output with a round trip answers.** -/
theorem call_of_mem_toolOutputs (h : output ∈ toolOutputs sha1 body)
    (hpair : output.roundTrip = some pair) :
    ∃ call ∈ inputOf body, isCall call = true ∧ callId? call = some output.callId ∧
      signatureOf call [] = pair.signature := by
  obtain ⟨item, hitem, rfl⟩ := List.mem_map.mp h
  dsimp only at hpair ⊢
  rw [roundTripOf] at hpair
  split_ifs at hpair
  obtain ⟨signature, hsignature, rfl⟩ := map_eq_some_iff.mp hpair
  obtain ⟨hbook, hne⟩ := filter_eq_some_iff.mp hsignature
  obtain ⟨callId, hid, hget⟩ := bind_eq_some_iff.mp hbook
  rw [hid]
  exact call_of_callBook hget (of_decide_eq_true hne)

end History

/-! ## What the ledger remembers -/

/-- The body of a round trip that a lane is told of. -/
def Call.bodyFor (sha1 : JsString → JsString) (lane : String) : Call → Option Json
  | .serving _ _ _ _ => none
  | .roundTrip lane' body _ =>
    if laneOf lane' = some lane ∧ (lastToolRoundTrip sha1 body).isSome then some body else none

/-- The last body of a lane that had a round trip. -/
def lastBody (sha1 : JsString → JsString) (lane : String) (calls : List Call) : Option Json :=
  calls.reverse.findSome? (Call.bodyFor sha1 lane)

/-- A streak of a lane goes on: its entry is there, young enough, and holds the same round trip. -/
def GoesOn (ledger : Ledger) (lane : String) (pair : RoundTrip) (now : ℤ) : Prop :=
  ∃ entry ∈ ledger.laneRoundTrips.get? lane,
    now - entry.notedAt < laneLedgerTtlMs ∧ entry.toRoundTrip = pair

instance (ledger : Ledger) (lane : String) (pair : RoundTrip) (now : ℤ) :
    Decidable (GoesOn ledger lane pair now) :=
  inferInstanceAs (Decidable (∃ entry ∈ ledger.laneRoundTrips.get? lane, _))

section Ledgers

variable {sha1 : JsString → JsString} {ledger : Ledger} {calls : List Call} {c : Call}
  {lane lane' : String} {body : Json} {pair : RoundTrip} {now : ℤ}

theorem after_concat : after sha1 (calls ++ [c]) = apply sha1 (after sha1 calls) c :=
  foldl_concat ..

theorem lastBody_concat : lastBody sha1 lane (calls ++ [c]) =
    (c.bodyFor sha1 lane).or (lastBody sha1 lane calls) := by
  rw [lastBody, reverse_append, findSome?_append, lastBody]
  cases h : c.bodyFor sha1 lane <;> simp [h]

variable {α : Type}

theorem get?_dropOldest {n : ℕ} {m : OMap String α} {value : α}
    (h : (dropOldest n m).get? lane = some value) : m.get? lane = some value := by
  induction n generalizing m with
  | zero => exact h
  | succ n ih =>
    rw [dropOldest] at h
    split at h
    · exact h
    · exact (OMap.get?_of_delete (ih h))

theorem get?_renewed {m : OMap String α} {value renewed : α}
    (h : (withinCapacity ((m.delete lane).set lane renewed)).get? lane' = some value) :
    lane' = lane ∧ value = renewed ∨ lane' ≠ lane ∧ m.get? lane' = some value := by
  have hget := get?_dropOldest h
  by_cases heq : lane' = lane
  · subst heq
    rw [OMap.get?_set_self] at hget
    exact Or.inl ⟨rfl, (some.inj hget).symm⟩
  · rw [OMap.get?_set_of_ne _ heq, OMap.get?_delete_of_ne _ heq] at hget
    exact Or.inr ⟨heq, hget⟩

theorem nextEntry_cases (previous? : Option LaneRoundTripEntry) (pair : RoundTrip) (now : ℤ) :
    (∃ previous, previous? = some previous ∧ now - previous.notedAt < laneLedgerTtlMs ∧
      previous.toRoundTrip = pair ∧ nextEntry previous? pair now =
        { previous with repeats := previous.repeats + 1, notedAt := now }) ∨
    nextEntry previous? pair now = { pair with repeats := 1, fired := false, notedAt := now } := by
  cases previous? with
  | none => exact Or.inr rfl
  | some previous =>
    rw [nextEntry]
    split_ifs with hgoes
    · obtain ⟨hyoung, hsignature, hdigest⟩ := hgoes
      exact Or.inl ⟨previous, rfl, hyoung, RoundTrip.ext hsignature hdigest, rfl⟩
    · exact Or.inr rfl

theorem nextEntry_of_young {previous : LaneRoundTripEntry}
    (h : now - previous.notedAt < laneLedgerTtlMs) :
    nextEntry (some previous) previous.toRoundTrip now =
      { previous with repeats := previous.repeats + 1, notedAt := now } := by
  rw [nextEntry, if_pos ⟨h, rfl, rfl⟩]

theorem nextEntry_toRoundTrip (previous? : Option LaneRoundTripEntry) (pair : RoundTrip) (now : ℤ) :
    (nextEntry previous? pair now).toRoundTrip = pair := by
  rcases nextEntry_cases previous? pair now with ⟨previous, -, -, rfl, heq⟩ | heq <;> rw [heq]

variable {lane? : Option String}

theorem get?_note {entry : LaneRoundTripEntry}
    (h : (noteComboToolRoundTrip sha1 ledger lane? body now).1.laneRoundTrips.get? lane' =
      some entry) : ledger.laneRoundTrips.get? lane' = some entry ∧
        (laneOf lane? = some lane' → lastToolRoundTrip sha1 body = none) ∨
      ∃ pair, laneOf lane? = some lane' ∧ lastToolRoundTrip sha1 body = some pair ∧
        entry = { nextEntry (ledger.laneRoundTrips.get? lane') pair now with
          fired := (nextEntry (ledger.laneRoundTrips.get? lane') pair now).fired ||
            (noteComboToolRoundTrip sha1 ledger lane? body now).2.isSome } := by
  rw [noteComboToolRoundTrip] at h ⊢
  cases hlane : laneOf lane? with
  | none =>
    rw [hlane] at h
    exact Or.inl ⟨h, fun heq ↦ absurd heq.symm (some_ne_none _)⟩
  | some lane =>
    cases hpair : lastToolRoundTrip sha1 body with
    | none =>
      rw [hlane, hpair] at h
      exact Or.inl ⟨h, fun _ ↦ rfl⟩
    | some pair =>
      rw [hlane, hpair] at h
      dsimp only at h ⊢
      rcases get?_renewed h with ⟨rfl, heq⟩ | ⟨hne, hget⟩
      · exact Or.inr ⟨pair, rfl, rfl, heq⟩
      · exact Or.inl ⟨hget, fun heq ↦ absurd (some.inj heq).symm hne⟩

theorem of_verdict {verdict : Verdict}
    (h : (noteComboToolRoundTrip sha1 ledger lane? body now).2 = some verdict) :
    ∃ lane pair serving, laneOf lane? = some lane ∧ lastToolRoundTrip sha1 body = some pair ∧
      roundTripRepeats ≤ (nextEntry (ledger.laneRoundTrips.get? lane) pair now).repeats ∧
      (nextEntry (ledger.laneRoundTrips.get? lane) pair now).fired = false ∧
      servingAt ledger lane now = some serving ∧
      verdict = ⟨pair.signature, (nextEntry (ledger.laneRoundTrips.get? lane) pair now).repeats,
        serving.comboId, serving.target⟩ := by
  rw [noteComboToolRoundTrip] at h
  cases hlane : laneOf lane? with
  | none =>
    rw [hlane] at h
    exact absurd h.symm (some_ne_none _)
  | some lane =>
    cases hpair : lastToolRoundTrip sha1 body with
    | none =>
      rw [hlane, hpair] at h
      exact absurd h.symm (some_ne_none _)
    | some pair =>
      rw [hlane, hpair] at h
      dsimp only at h
      split_ifs at h with hquiet
      obtain ⟨serving, hserving, rfl⟩ := map_eq_some_iff.mp h
      rw [not_or, not_lt, Bool.not_eq_true] at hquiet
      exact ⟨lane, pair, serving, rfl, rfl, hquiet.1, hquiet.2, hserving, rfl⟩

end Ledgers

/-! ## The streak of a lane -/

/-- A body that goes on with a streak answers more calls with it than the lane's last body did. -/
def Grows (sha1 : JsString → JsString) (past : List Call) : Call → Prop
  | .serving _ _ _ _ => True
  | .roundTrip lane? body now => ∀ lane ∈ laneOf lane?, ∀ pair ∈ lastToolRoundTrip sha1 body,
    ∀ last ∈ lastBody sha1 lane past, GoesOn (after sha1 past) lane pair now →
      callsAnswered sha1 last pair < callsAnswered sha1 body pair

instance (sha1 : JsString → JsString) (past : List Call) : DecidablePred (Grows sha1 past)
  | .serving _ _ _ _ => inferInstanceAs (Decidable True)
  | .roundTrip lane? _ _ => inferInstanceAs (Decidable (∀ lane ∈ laneOf lane?, _))

/-- In a run this holds of every call. -/
def Growing (sha1 : JsString → JsString) (calls : List Call) : Prop :=
  ∀ past c later, calls = past ++ c :: later → Grows sha1 past c

/-- Every round trip that a lane is told of in the later calls goes on with its streak. -/
def Uninterrupted (sha1 : JsString → JsString) (lane : String) (past later : List Call) : Prop :=
  ∀ before lane? body now rest pair, later = before ++ .roundTrip lane? body now :: rest →
    laneOf lane? = some lane → lastToolRoundTrip sha1 body = some pair →
    GoesOn (after sha1 (past ++ before)) lane pair now

section Streaks

variable {sha1 : JsString → JsString} {calls past later : List Call} {c : Call} {lane : String}
  {body : Json} {pair : RoundTrip} {now : ℤ}

theorem Growing.init (h : Growing sha1 (calls ++ [c])) : Growing sha1 calls := by
  rintro past c' later rfl
  exact h past c' (later ++ [c]) (by simp)

theorem Growing.last (h : Growing sha1 (calls ++ [c])) : Grows sha1 calls c := h calls c [] rfl

variable {lane? : Option String}

theorem bodyFor_roundTrip (hlane : laneOf lane? = some lane)
    (hpair : lastToolRoundTrip sha1 body = some pair) :
    (Call.roundTrip lane? body now).bodyFor sha1 lane = some body := by
  rw [Call.bodyFor, if_pos ⟨hlane, by rw [hpair]; rfl⟩]

/-- What an entry is worth: its repeats are answered calls of the lane's last body. -/
def Remembered (sha1 : JsString → JsString) (calls : List Call) (lane : String)
    (entry : LaneRoundTripEntry) : Prop :=
  ∃ body, lastBody sha1 lane calls = some body ∧
    lastToolRoundTrip sha1 body = some entry.toRoundTrip ∧
    entry.repeats ≤ callsAnswered sha1 body entry.toRoundTrip

/-- **One more round trip.**  If it goes on with a streak then it has brought a call. -/
theorem repeats_le (hkept : ∀ entry, (after sha1 calls).laneRoundTrips.get? lane = some entry →
      Remembered sha1 calls lane entry) (hgrows : Grows sha1 calls (.roundTrip lane? body now))
    (hlane : laneOf lane? = some lane) (hpair : lastToolRoundTrip sha1 body = some pair) :
    (nextEntry ((after sha1 calls).laneRoundTrips.get? lane) pair now).repeats ≤
      callsAnswered sha1 body pair := by
  rcases nextEntry_cases ((after sha1 calls).laneRoundTrips.get? lane) pair now with
    ⟨previous, hget, hyoung, rfl, heq⟩ | heq
  · obtain ⟨last, hlast, -, hrepeats⟩ := hkept previous hget
    have hmore := hgrows lane hlane previous.toRoundTrip hpair last hlast
      ⟨previous, hget, hyoung, rfl⟩
    rw [heq]
    exact Nat.succ_le_of_lt (lt_of_le_of_lt hrepeats hmore)
  · rw [heq]
    exact callsAnswered_pos hpair

/-- **What the ledger remembers**, in a run whose bodies bring calls. -/
theorem remembered_after (h : Growing sha1 calls) (lane : String) (entry : LaneRoundTripEntry)
    (hget : (after sha1 calls).laneRoundTrips.get? lane = some entry) :
    Remembered sha1 calls lane entry := by
  induction calls using List.reverseRecOn generalizing lane entry with
  | nil => exact absurd hget.symm (some_ne_none _)
  | append_singleton calls c ih =>
    have hold : (after sha1 calls).laneRoundTrips.get? lane = some entry →
        c.bodyFor sha1 lane = none → Remembered sha1 (calls ++ [c]) lane entry := by
      intro hbefore hnone
      rw [Remembered, lastBody_concat, hnone, none_or]
      exact ih h.init lane entry hbefore
    rw [after_concat] at hget
    cases c with
    | serving lane? comboId target now =>
      refine hold ?_ rfl
      rw [apply, noteComboLaneServing] at hget
      split at hget
      · exact hget
      · split_ifs at hget <;> exact hget
    | roundTrip lane? body now =>
      rcases get?_note hget with ⟨hbefore, hnone⟩ | ⟨pair, hlane, hpair, rfl⟩
      · refine hold hbefore ?_
        rw [Call.bodyFor, if_neg]
        rintro ⟨hlane, hsome⟩
        rw [hnone hlane] at hsome
        cases hsome
      · refine ⟨body, ?_, ?_, ?_⟩
        · rw [lastBody_concat, bodyFor_roundTrip hlane hpair, some_or]
        · rw [hpair, nextEntry_toRoundTrip]
        · rw [nextEntry_toRoundTrip]
          exact repeats_le (ih h.init lane) h.last hlane hpair

/-- **Who serves a lane**, as the calls tell. -/
theorem serving_after {serving : LaneServing}
    (hget : (after sha1 calls).laneServing.get? lane = some serving) :
    ∃ before lane? later, calls = before ++ .serving lane? serving.comboId serving.target
        serving.notedAt :: later ∧ laneOf lane? = some lane ∧
      ∀ lane? comboId target now, Call.serving lane? comboId target now ∈ later →
        laneOf lane? = some lane → comboId = "" := by
  induction calls using List.reverseRecOn generalizing serving with
  | nil => exact absurd hget.symm (some_ne_none _)
  | append_singleton calls c ih =>
    have hold : (after sha1 calls).laneServing.get? lane = some serving →
        (∀ lane? comboId target now, c = .serving lane? comboId target now →
          laneOf lane? = some lane → comboId = "") →
        ∃ before lane? later, calls ++ [c] = before ++ .serving lane? serving.comboId
            serving.target serving.notedAt :: later ∧ laneOf lane? = some lane ∧
          ∀ lane? comboId target now, .serving lane? comboId target now ∈ later →
            laneOf lane? = some lane → comboId = "" := by
      intro hbefore hnew
      obtain ⟨before, lane?, later, rfl, hlane, hlater⟩ := ih hbefore
      refine ⟨before, lane?, later ++ [c], by simp, hlane, ?_⟩
      intro lane?' comboId target now hmem hlane'
      rcases mem_append.mp hmem with hin | hlast
      · exact hlater lane?' comboId target now hin hlane'
      · exact hnew lane?' comboId target now (mem_singleton.mp hlast).symm hlane'
    rw [after_concat] at hget
    cases c with
    | roundTrip lane? body now =>
      refine hold ?_ fun _ _ _ _ h ↦ absurd h Call.noConfusion
      rw [apply, noteComboToolRoundTrip] at hget
      split at hget <;> exact hget
    | serving lane? comboId target now =>
      rw [apply, noteComboLaneServing] at hget
      cases hlane : laneOf lane? with
      | none =>
        rw [hlane] at hget
        refine hold hget ?_
        rintro _ _ _ _ ⟨⟩ hlane'
        exact absurd (hlane.symm.trans hlane') (some_ne_none _).symm
      | some lane' =>
        rw [hlane] at hget
        dsimp only at hget
        split_ifs at hget with hempty
        · refine hold hget ?_
          rintro _ _ _ _ ⟨⟩ -
          exact hempty
        · dsimp only at hget
          rcases get?_renewed hget with ⟨rfl, rfl⟩ | ⟨hne, hbefore⟩
          · exact ⟨calls, lane?, [], rfl, hlane, by rintro _ _ _ _ ⟨⟩⟩
          · refine hold hbefore ?_
            rintro _ _ _ _ ⟨⟩ hlane'
            exact absurd (some.inj (hlane.symm.trans hlane')).symm hne

theorem Uninterrupted.init (h : Uninterrupted sha1 lane past (later ++ [c])) :
    Uninterrupted sha1 lane past later := by
  rintro before lane? body now rest pair rfl
  exact h before lane? body now (rest ++ [c]) pair (by simp)

/-- **A streak is accused once.**  After a verdict the entry stays marked as long as the streak is
not interrupted. -/
theorem fired_after (later : List Call)
    (hfired : ∀ entry, (after sha1 past).laneRoundTrips.get? lane = some entry → entry.fired = true)
    (h : Uninterrupted sha1 lane past later) :
    ∀ entry, (after sha1 (past ++ later)).laneRoundTrips.get? lane = some entry →
      entry.fired = true := by
  induction later using List.reverseRecOn with
  | nil => rwa [append_nil]
  | append_singleton later c ih =>
    have hbefore := ih h.init
    intro entry hget
    rw [← append_assoc, after_concat] at hget
    cases c with
    | serving lane? comboId target now =>
      refine hbefore entry ?_
      rw [apply, noteComboLaneServing] at hget
      split at hget
      · exact hget
      · split_ifs at hget <;> exact hget
    | roundTrip lane? body now =>
      rcases get?_note hget with ⟨hold, -⟩ | ⟨pair, hlane, hpair, rfl⟩
      · exact hbefore entry hold
      · obtain ⟨previous, hprevious, hyoung, hsame⟩ :=
          h later lane? body now [] pair rfl hlane hpair
        rw [hprevious, ← hsame, nextEntry_of_young hyoung, hbefore previous hprevious]
        rfl

theorem growing_nil : Growing sha1 [] := fun past c later h ↦ by simp at h

theorem Growing.concat (h : Growing sha1 calls) (hlast : Grows sha1 calls c) :
    Growing sha1 (calls ++ [c]) := by
  intro past c' later heq
  rcases eq_nil_or_concat later with rfl | ⟨later, last, rfl⟩
  · obtain ⟨rfl, hc⟩ := append_inj' heq rfl
    rw [← (List.cons.inj hc).1]
    exact hlast
  · rw [concat_eq_append, ← cons_append, ← append_assoc] at heq
    exact h past c' later (append_inj' heq rfl).1

theorem not_twice {earlier mid : List Call} {lane?' : Option String} {body' : Json} {now' : ℤ}
    {verdict verdict' : Verdict} (hlane : laneOf lane? = some lane)
    (hlane' : laneOf lane?' = some lane)
    (hfirst : (noteComboToolRoundTrip sha1 (after sha1 earlier) lane? body now).2 = some verdict)
    (hsecond : (noteComboToolRoundTrip sha1
      (after sha1 (earlier ++ .roundTrip lane? body now :: mid)) lane?' body' now').2 =
        some verdict') : ¬ Uninterrupted sha1 lane (earlier ++ [.roundTrip lane? body now])
      (mid ++ [.roundTrip lane?' body' now']) := by
  intro hstreak
  have hmarked : ∀ entry, (after sha1 (earlier ++ [.roundTrip lane? body now])).laneRoundTrips.get?
      lane = some entry → entry.fired = true := by
    intro entry hget
    rw [after_concat] at hget
    obtain ⟨-, pair, -, -, hpair, -⟩ := of_verdict hfirst
    rcases get?_note hget with ⟨-, hnone⟩ | ⟨-, -, -, rfl⟩
    · exact absurd ((hnone hlane).symm.trans hpair) (some_ne_none _).symm
    · rw [hfirst]
      exact Bool.or_true _
  have hstill := fired_after mid hmarked hstreak.init
  obtain ⟨lane'', pair, -, hlane'', hpair, -, hnot, -⟩ := of_verdict hsecond
  obtain ⟨previous, hprevious, hyoung, hsame⟩ :=
    hstreak mid lane?' body' now' [] pair rfl hlane' hpair
  rw [append_assoc, singleton_append, mem_def] at hprevious
  rw [append_assoc, singleton_append] at hstill
  rw [← some.inj (hlane'.symm.trans hlane''), hprevious, ← hsame, nextEntry_of_young hyoung] at hnot
  exact absurd ((hstill previous hprevious).symm.trans hnot) Bool.true_eq_false_eq_False.elim

/-- **Only real loops are accused**, where every body that goes on with a streak answers more calls
with it than the last body of the lane: then the body of a verdict has a block of tool outputs with
the accused round trip, no other output between them, that answer three calls.  The accused target
serves the lane and was noted within the time to live.  And a streak that is not interrupted is
accused once. -/
theorem loops_are_real (sha1 : JsString → JsString) (past : List Call) (lane? : Option String)
    (body : Json) (now : ℤ) (verdict : Verdict)
    (hgrows : Growing sha1 (past ++ [.roundTrip lane? body now]))
    (h : (noteComboToolRoundTrip sha1 (after sha1 past) lane? body now).2 = some verdict) :
    ∃ lane, laneOf lane? = some lane ∧
      (∃ digest front block back, toolOutputs sha1 body = front ++ block ++ back ∧
        (∀ output ∈ block, output.roundTrip = some ⟨verdict.signature, digest⟩ ∧
          ∃ call ∈ inputOf body, isCall call = true ∧ callId? call = some output.callId ∧
            signatureOf call [] = verdict.signature) ∧ 3 ≤ (block.map (·.callId)).toFinset.card) ∧
      (∃ before lane?' servedAt later,
        past = before ++ .serving lane?' verdict.comboId verdict.target servedAt :: later ∧
        laneOf lane?' = some lane ∧ now - servedAt < laneLedgerTtlMs ∧
        ∀ lane?' comboId target now', Call.serving lane?' comboId target now' ∈ later →
          laneOf lane?' = some lane → comboId = "") ∧ ∀ earlier lane?' body' now' mid verdict',
        past = earlier ++ .roundTrip lane?' body' now' :: mid → laneOf lane?' = some lane →
        (noteComboToolRoundTrip sha1 (after sha1 earlier) lane?' body' now').2 = some verdict' →
        ¬ Uninterrupted sha1 lane (earlier ++ [.roundTrip lane?' body' now'])
          (mid ++ [.roundTrip lane? body now]) := by
  obtain ⟨lane, pair, serving, hlane, hpair, hrepeats, -, hserving, rfl⟩ := of_verdict h
  obtain ⟨hserved, hyoung⟩ := filter_eq_some_iff.mp hserving
  refine ⟨lane, hlane, ?_, ?_, ?_⟩
  · obtain ⟨front, back, hsplit⟩ := lastBlock_split pair (toolOutputs sha1 body)
    refine ⟨pair.digest, front, _, back, hsplit, fun output houtput ↦ ?_, ?_⟩
    · have hmem := mem_reverse.mp houtput
      have hround := roundTrip_of_mem_lastBlock hmem
      have hin : output ∈ toolOutputs sha1 body := by
        rw [hsplit]
        exact mem_append_left _ (mem_append_right _ houtput)
      exact ⟨hround, call_of_mem_toolOutputs hin hround⟩
    · rw [map_reverse, toFinset_reverse]
      exact hrepeats.trans (repeats_le (remembered_after hgrows.init lane) hgrows.last hlane hpair)
  · obtain ⟨before, lane?', later, hpast, hlane', hlater⟩ := serving_after hserved
    exact ⟨before, lane?', serving.notedAt, later, hpast, hlane', of_decide_eq_true hyoung, hlater⟩
  · rintro earlier lane?' body' now' mid verdict' rfl hlane' hfirst
    exact not_twice hlane' hlane hfirst h

end Streaks

/-! ## A loop, and none -/

def bodyWith (input : List Json) : Json := .obj [(js "input", .arr input)]

/-- A call of `pwd`, and its result. -/
def pwd (callId : String) : List Json :=
  [.obj [(js "type", .str (js "function_call")), (js "call_id", .str (js callId)),
    (js "name", .str (js "pwd")), (js "arguments", .str [])],
   .obj [(js "type", .str (js "function_call_output")), (js "call_id", .str (js callId)),
    (js "output", .str (js "/"))]]

def message (text : String) : Json :=
  .obj [(js "type", .str (js "message")), (js "role", .str (js "user")),
    (js "content", .str (js text))]

def served : Call := .serving (some "lane") "combo" ⟨"relay", "model"⟩ 0

def told (input : List Json) (now : ℤ) : Call := .roundTrip (some "lane") (bodyWith input) now

/-- **Text is taken for a loop.**  One call is answered, then two messages are added, one a turn,
and the target is accused of a loop of three. -/
theorem text_is_a_loop : (noteComboToolRoundTrip id
      (after id [served, told (pwd "1") 1, told (pwd "1" ++ [message "and"]) 2]) (some "lane")
      (bodyWith (pwd "1" ++ [message "and", message "then"])) 3).2 =
        some ⟨js "pwd()", 3, "combo", ⟨"relay", "model"⟩⟩ ∧
    (toolOutputs id (bodyWith (pwd "1" ++ [message "and", message "then"]))).length = 1 := by
  decide +kernel

/-- Three calls with one result. -/
theorem three_calls_are_a_loop : ∃ front block back digest,
      toolOutputs id (bodyWith (pwd "1" ++ pwd "2" ++ pwd "3")) = front ++ block ++ back ∧
      (∀ output ∈ block, output.roundTrip = some ⟨js "pwd()", digest⟩) ∧
      3 ≤ (block.map (·.callId)).toFinset.card := by
  have hgrows : Growing id ([served, told (pwd "1") 1, told (pwd "1" ++ pwd "2") 2] ++
      [told (pwd "1" ++ pwd "2" ++ pwd "3") 3]) := by
    refine ((@Growing.concat id [] _ growing_nil ?_).concat ?_ |>.concat ?_).concat ?_
    all_goals decide +kernel
  obtain ⟨lane, -, ⟨digest, front, block, back, hsplit, hblock, hcard⟩, -⟩ :=
    loops_are_real id _ (some "lane") (bodyWith (pwd "1" ++ pwd "2" ++ pwd "3")) 3
      ⟨js "pwd()", 3, "combo", ⟨"relay", "model"⟩⟩ hgrows (by decide +kernel)
  exact ⟨front, block, back, digest, hsplit, fun output h ↦ (hblock output h).1, hcard⟩

end LaneLedger
