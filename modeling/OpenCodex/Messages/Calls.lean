import OpenCodex.Messages.CallViews

/-!
# Every call, once and whole

A stream follows the protocol (`Protocol`) if its function calls are announced, spelled out and done under
their own names; the events of different calls may come in any order.  The translator sends each of its
calls once and whole exactly if position and name agree (`calls_whole_iff`): each call is announced, and the
text that stands behind it is its own.

The two failures are a call that is only ever done, and two calls that are open at the same time.
-/

set_option autoImplicit false

open List

namespace Messages

open Act (Ensures Keeps when forSome)
open Bridge (truthy)
open Tools (plainObject stringAt nonEmptyAt)

variable (E : MessagesEnv) {t : Bool}

/-! ## The protocol -/

/-- A function call, with its final arguments. -/
structure CallItem where
  id : JsString
  callId : JsString
  name : JsString
  arguments : JsString

/-- What the client should get for a call. -/
def CallItem.sent (c : CallItem) : SentCall :=
  ⟨c.callId, c.name, closedWith (isClaudeWebSearchToolName c.name) c.arguments⟩

/-- The item is this call. -/
def CallItem.Names (c : CallItem) (item : Json) : Prop :=
  stringAt item "id" = some c.id ∧ stringAt item "call_id" = some c.callId ∧
    stringAt item "name" = some c.name

instance (c : CallItem) (item : Json) : Decidable (c.Names item) := inferInstanceAs (Decidable (_ ∧ _))

def announced (f : Frame) : Option Json :=
  if f.1 = js "response.output_item.added" then itemOf "function_call" f.2 else none

def finished (f : Frame) : Option Json :=
  if f.1 = js "response.output_item.done" then itemOf "function_call" f.2 else none

/-- The event is about the arguments of this call. -/
def isArguments (eventName : String) (c : CallItem) (f : Frame) : Bool :=
  f.1 = js eventName ∧ stringAt f.2 "item_id" = some c.id

def deltaOf (c : CallItem) (f : Frame) : Option JsString :=
  if isArguments "response.function_call_arguments.delta" c f then stringAt f.2 "delta" else none

/-- The events of a call in their order: its announcement, deltas, the whole arguments, its end. -/
def stageOf (c : CallItem) (f : Frame) : Option ℕ :=
  if (announced f).any fun item ↦ c.Names item then some 0
  else if isArguments "response.function_call_arguments.delta" c f then some 1
  else if isArguments "response.function_call_arguments.done" c f then some 2
  else if (finished f).any fun item ↦ c.Names item then some 3 else none

/-- A response that is completed. -/
def IsCompleted (f : Frame) : Prop :=
  f.1 = js "response.completed" ∧ f.2.field? (js "item_id") = none ∧ f.2.field? (js "item") = none

instance (f : Frame) : Decidable (IsCompleted f) := inferInstanceAs (Decidable (_ ∧ _ ∧ _))

/-- **The protocol**: the stream is about these calls. -/
structure Protocol (calls : List CallItem) (frames : List Frame) : Prop where
  ids : (calls.map CallItem.id).Nodup
  callIds : (calls.map CallItem.callId).Nodup
  ends : frames.getLast?.any (fun f ↦ IsCompleted f) = true
  goesOn : ∀ f ∈ frames.dropLast, isTerminal f.1 = false
  announces : ∀ f ∈ frames, ∀ item ∈ announced f, ∃ c ∈ calls, c.Names item
  finishes : ∀ f ∈ frames, ∀ item ∈ finished f, ∃ c ∈ calls,
    c.Names item ∧ stringAt item "arguments" = some c.arguments
  /-- Only deltas are repeated. -/
  ordered : ∀ c ∈ calls, (frames.filterMap (stageOf c)).Pairwise fun a b ↦ a < b ∨ a = 1 ∧ b = 1
  appears : ∀ c ∈ calls, 0 ∈ frames.filterMap (stageOf c) ∨ 3 ∈ frames.filterMap (stageOf c)
  deltas : ∀ f ∈ frames, f.1 = js "response.function_call_arguments.delta" →
    ∃ c ∈ calls, stringAt f.2 "item_id" = some c.id ∧ (stringAt f.2 "delta").isSome = true
  spelled : ∀ c ∈ calls, (frames.filterMap (deltaOf c)).flatten = [] ∨
    (frames.filterMap (deltaOf c)).flatten = c.arguments
  wholes : ∀ f ∈ frames, f.1 = js "response.function_call_arguments.done" →
    ∃ c ∈ calls, stringAt f.2 "item_id" = some c.id ∧ stringAt f.2 "arguments" = some c.arguments

theorem protocol_iff (calls : List CallItem) (frames : List Frame) :
    ((calls.map CallItem.id).Nodup ∧ (calls.map CallItem.callId).Nodup) ∧
      (frames.getLast?.any (fun f ↦ IsCompleted f) = true ∧
        ∀ f ∈ frames.dropLast, isTerminal f.1 = false) ∧
      ((∀ f ∈ frames, ∀ item ∈ announced f, ∃ c ∈ calls, c.Names item) ∧
        ∀ f ∈ frames, ∀ item ∈ finished f, ∃ c ∈ calls,
          c.Names item ∧ stringAt item "arguments" = some c.arguments) ∧
      ((∀ c ∈ calls, (frames.filterMap (stageOf c)).Pairwise fun a b ↦ a < b ∨ a = 1 ∧ b = 1) ∧
        ∀ c ∈ calls, 0 ∈ frames.filterMap (stageOf c) ∨ 3 ∈ frames.filterMap (stageOf c)) ∧
      ((∀ f ∈ frames, f.1 = js "response.function_call_arguments.delta" →
          ∃ c ∈ calls, stringAt f.2 "item_id" = some c.id ∧ (stringAt f.2 "delta").isSome = true) ∧
        (∀ c ∈ calls, (frames.filterMap (deltaOf c)).flatten = [] ∨
          (frames.filterMap (deltaOf c)).flatten = c.arguments) ∧
        ∀ f ∈ frames, f.1 = js "response.function_call_arguments.done" →
          ∃ c ∈ calls, stringAt f.2 "item_id" = some c.id ∧ stringAt f.2 "arguments" = some c.arguments) ↔
      Protocol calls frames :=
  ⟨fun ⟨⟨h1, h2⟩, ⟨h3, h4⟩, ⟨h5, h6⟩, ⟨h7, h8⟩, h9, h10, h11⟩ ↦
      ⟨h1, h2, h3, h4, h5, h6, h7, h8, h9, h10, h11⟩,
    fun h ↦ ⟨⟨h.ids, h.callIds⟩, ⟨h.ends, h.goesOn⟩, ⟨h.announces, h.finishes⟩, ⟨h.ordered, h.appears⟩,
      h.deltas, h.spelled, h.wholes⟩⟩

instance (calls : List CallItem) (frames : List Frame) : Decidable (Protocol calls frames) :=
  decidable_of_iff _ (protocol_iff calls frames)

/-- **Every call is sent once and whole**, and calls are the reason to stop. -/
def CallsWhole (calls : List CallItem) (written : List MessagesEvent) : Prop :=
  (∀ c ∈ calls, ((callsIn written).map ToolCall.sent).filter (·.callId = c.callId) = [c.sent]) ∧
    (calls ≠ [] → ∃ usage, .messageDelta (js "tool_use") usage ∈ written)

/-- **Position and name agree**: each call is announced, and what stands behind it is its own. -/
def Attributed (calls : List CallItem) (frames : List Frame) : Prop :=
  ∀ c ∈ calls, ∃ before item after, heard E {} frames = before ++ .call item :: after ∧ c.Names item ∧
    argumentsRead E (isClaudeWebSearchToolName c.name) [] after = c.sent.arguments

/-! ## What is written -/

variable {f : Frame}

theorem mirrors_completed (h : IsCompleted f) (id : Option JsString) : mirrors id f.2 = false := by
  obtain ⟨-, hid, hitem⟩ := h
  cases hid' : truthy id with
  | none => rw [mirrors, hid']; rfl
  | some id => simp [mirrors, hid', stringAt, hid, hitem, Sse.stringOf, plainObject]

theorem handleFrame_completed (room : Bool) (h : IsCompleted f) (s : MessageStream) :
    handleFrame E room f.1 f.2 s = onCompleted E f.2 s := by
  unfold handleFrame
  rw [Act.bind_run, Act.get_run, Act.andThen_ok, mirrors_completed h, h.1]
  rw [if_neg (by simp), if_neg (by decide +kernel), if_neg (by decide +kernel),
    if_neg (by decide +kernel), if_neg (by decide +kernel), if_neg (by decide +kernel),
    if_neg (by decide +kernel), if_neg (by decide +kernel), if_neg (by decide +kernel),
    if_neg (by decide +kernel), if_pos rfl]

theorem meaningOf_completed (h : IsCompleted f) : meaningOf E f = .ending := by
  unfold meaningOf
  rw [h.1]
  rw [if_neg (by decide +kernel), if_neg (by decide +kernel), if_neg (by decide +kernel),
    if_neg (by decide +kernel), if_neg (by decide +kernel), if_neg (by decide +kernel),
    if_neg (by decide +kernel), if_neg (by decide +kernel), if_pos (.inl rfl)]

/-- Between the events, and behind the last one. -/
def Sending (before : List Frame) (sent : List SentCall) (fs : List Frame) (s : MessageStream) : Prop :=
  fs.length ≤ before.length ∧ At false (fs.foldl (Position.read E) {}) { s with grants := none } ∨
    fs.length = before.length + 1 ∧ Finished sent s

variable {s : MessageStream}

theorem At.pinged {σ : Position} (h : At t σ { s with grants := none }) :
    At t σ { s with grants := none, written := s.written ++ [.ping] } := by
  obtain ⟨d, ⟨rfl, hterminated, -⟩, hfits⟩ := h
  refine ⟨_, ⟨?_, hterminated, rfl⟩, hfits⟩
  simp only [deskOf, callsIn_concat]
  rfl

theorem Finished.pinged {sent : List SentCall} (h : Finished sent s) :
    Finished sent { s with written := s.written ++ [.ping] } := by
  refine ⟨h.terminated, ?_, fun hne ↦ ?_⟩
  · rw [callsIn_concat]
    exact h.calls
  · obtain ⟨usage, hmem⟩ := h.stops hne
    exact ⟨usage, mem_append_left _ hmem⟩

theorem at_start : At false {} {} :=
  ⟨_, ⟨rfl, rfl, rfl⟩, ⟨rfl, fun block ↦ ⟨by simp [deskOf], fun tool ↦ by simp [deskOf]⟩⟩,
    nofun, rfl, rfl⟩

variable {body : List UInt8}

theorem sending_delivery {before : List Frame} {last : Frame}
    (hbody : eventsOf body = before ++ [last]) (hlast : IsCompleted last)
    (hbefore : ∀ f ∈ before, isTerminal f.1 = false)
    (hid : ∀ f ∈ before, ∀ item ∈ announced f, (stringAt item "call_id").isSome = true) :
    Delivery E body (Sending E before (before.foldl (Position.read E) {}).closed.past) where
  init := .inl ⟨Nat.zero_le _, at_start⟩
  granted fs s g h := by
    rcases h with ⟨hlength, h⟩ | ⟨hlength, h⟩
    · exact .inl ⟨hlength, h⟩
    · exact .inr ⟨hlength, h.terminated, h.calls, h.stops⟩
  ping fs s h := by
    rcases h with ⟨hlength, h⟩ | ⟨hlength, h⟩
    · exact .inl ⟨hlength, h.pinged⟩
    · exact .inr ⟨hlength, h.pinged⟩
  live fs f rest s hsplit h := by
    rcases h with ⟨hlength, h⟩ | ⟨hlength, h⟩
    · exact h.state.1
    · have hlengths := congrArg List.length (hbody.symm.trans hsplit)
      simp only [length_append, length_cons, length_nil] at hlengths
      omega
  ended s h := by
    rcases h with ⟨hlength, h⟩ | ⟨hlength, h⟩
    · rw [hbody, length_append, length_singleton] at hlength
      omega
    · exact h.terminated
  event fs f rest room s hsplit h hgrants := by
    have hlengths := congrArg List.length (hbody.symm.trans hsplit)
    simp only [length_append, length_cons, length_nil] at hlengths
    rcases h with ⟨hlength, h⟩ | ⟨hlength, -⟩
    · have hat : At false (fs.foldl (.read E) {}) s := by
        have hsame : { s with grants := none } = s := by rw [← hgrants]
        rwa [hsame] at h
      rcases eq_nil_or_concat rest with rfl | ⟨rest', x, rfl⟩
      · obtain ⟨rfl, hf⟩ := append_inj' (hbody.symm.trans hsplit) rfl
        obtain rfl := singleton_inj.mp hf
        rw [handleFrame_completed E room hlast]
        refine (onCompleted_finished E _ _).post (fun _ s h ↦ .inr ⟨?_, h⟩) s hat
        rw [length_append, length_singleton]
      · rw [concat_eq_append, ← cons_append, ← append_assoc] at hsplit
        obtain ⟨rfl, -⟩ := append_inj' (hbody.symm.trans hsplit) rfl
        have hmem : f ∈ fs ++ f :: rest' := by simp
        refine (handleFrame_at E room _ f (hbefore f hmem) (fun item hname hitem ↦ ?_)).post
          (fun _ s h ↦ .inl ⟨?_, ?_⟩) s hat
        · exact hid f hmem item (by rw [announced, if_pos hname]; exact hitem)
        · simp
        · have hsame : { s with grants := none } = s := by rw [← h.state.2]
          rw [hsame, foldl_append]
          exact h
    · omega

/-- **The calls that are written** are the calls that are read by position. -/
theorem calls_written {calls : List CallItem} (h : Protocol calls (eventsOf body)) :
    (∃ t, ReadToEnd E body t) ∧ ∀ t, ReadToEnd E body t →
      Finished (callsRead E (heard E {} (eventsOf body))) t.stream := by
  obtain ⟨before, last, hbody, hlast, hbefore⟩ : ∃ before last, eventsOf body = before ++ [last] ∧
      IsCompleted last ∧ ∀ f ∈ before, isTerminal f.1 = false := by
    have hends := h.ends
    cases hlast : (eventsOf body).getLast? with
    | none => simp [hlast] at hends
    | some last =>
      rw [hlast] at hends
      exact ⟨_, last, (dropLast_append_getLast? last hlast).symm, of_decide_eq_true hends, h.goesOn⟩
  have hid : ∀ f ∈ before, ∀ item ∈ announced f, (stringAt item "call_id").isSome = true := by
    intro f hf item hitem
    obtain ⟨c, -, -, hcall, -⟩ := h.announces f (hbody ▸ mem_append_left _ hf) item hitem
    rw [hcall]
    rfl
  have hdelivery := sending_delivery E hbody hlast hbefore hid
  refine ⟨hdelivery.readable, fun t ht ↦ ?_⟩
  have hsent : callsRead E (heard E {} (eventsOf body)) =
      (before.foldl (Position.read E) {}).closed.past := by
    have hcomplete := complete_foldl E (before ++ [last]) {}
    rw [foldl_append, foldl_cons, foldl_nil, Position.read, mirrors_completed hlast,
      if_neg Bool.false_ne_true, meaningOf_completed E hlast] at hcomplete
    rw [hbody]
    exact hcomplete.symm.trans (append_nil _)
  rcases hdelivery.holds ht with ⟨hlength, -⟩ | ⟨-, hfinished⟩
  · rw [hbody, length_append, length_singleton] at hlength
    omega
  · rwa [hsent]

/-! ## Calls by their names -/

theorem meaningOfDone_ne_call (data item : Json) : meaningOfDone data ≠ .call item := by
  unfold meaningOfDone
  cases itemOf "web_search_call" data with
  | some _ => simp
  | none =>
    cases itemOf "function_call" data with
    | some _ => simp
    | none => cases itemOf "reasoning" data <;> simp

variable {item : Json}

theorem announced_of_meaning (h : meaningOf E f = .call item) : announced f = some item := by
  unfold meaningOf at h
  unfold announced
  split_ifs at h with hcreated hbeat htext hdelta hreasoning hdelta' hadded hpiece hwhole hdone hend
  · rw [if_pos hadded]
    cases hitem : itemOf "function_call" f.2 with
    | none => simp [hitem] at h
    | some item' =>
      rw [hitem] at h
      exact congrArg some (Meaning.call.inj h)
  · cases hopt : nonEmptyAt f.2 "delta" <;> simp [hopt] at h
  · cases hopt : nonEmptyAt f.2 "arguments" <;> simp [hopt] at h
  · exact absurd h (meaningOfDone_ne_call f.2 item)

/-- The call ids in the order of the announcements. -/
def announcedId (f : Frame) : Option JsString := (announced f).map callIdOf

theorem heard_sublist (a : Attention) (frames : List Frame) :
    ((callsRead E (heard E a frames)).map SentCall.callId).Sublist (frames.filterMap announcedId) := by
  induction frames generalizing a with
  | nil => exact List.Sublist.slnil
  | cons f frames ih =>
    have hskip : ∀ l : List JsString, l.Sublist (frames.filterMap announcedId) →
        l.Sublist ((f :: frames).filterMap announcedId) := by
      intro l hl
      rw [filterMap_cons]
      cases announcedId f with
      | none => exact hl
      | some id => exact hl.cons id
    rw [heard]
    split
    · exact hskip _ (ih _)
    · cases hmeaning : meaningOf E f with
      | call item =>
        rw [callsRead, map_cons, filterMap_cons, announcedId, announced_of_meaning E hmeaning]
        exact (ih _).cons_cons _
      | _ => exact hskip _ (ih _)

theorem mem_heard {a : Attention} {frames : List Frame} {m : Meaning} (h : m ∈ heard E a frames) :
    ∃ f ∈ frames, meaningOf E f = m := by
  induction frames generalizing a with
  | nil => exact absurd h not_mem_nil
  | cons f frames ih =>
    rw [heard] at h
    split at h
    · obtain ⟨g, hg, hm⟩ := ih h
      exact ⟨g, mem_cons_of_mem _ hg, hm⟩
    · rcases mem_cons.mp h with rfl | h
      · exact ⟨f, mem_cons_self, rfl⟩
      · obtain ⟨g, hg, hm⟩ := ih h
        exact ⟨g, mem_cons_of_mem _ hg, hm⟩

section Names

variable {calls : List CallItem} {frames : List Frame}

variable {c : CallItem}

theorem callIdOf_names (h : c.Names item) : callIdOf item = c.callId := by
  rw [callIdOf, h.2.1]
  rfl

theorem nameOf_names (h : c.Names item) : nameOf item = c.name := by
  rw [nameOf, h.2.2]
  rfl

theorem Protocol.unique (h : Protocol calls frames) {c' : CallItem} (hc : c ∈ calls)
    (hc' : c' ∈ calls) (heq : c.callId = c'.callId) : c = c' :=
  inj_on_of_nodup_map h.callIds hc hc' heq

theorem Protocol.announced_nodup (h : Protocol calls frames) :
    (frames.filterMap announcedId).Nodup := by
  rw [List.Nodup, pairwise_filterMap, pairwise_iff_forall_sublist]
  intro f g hfg id hf id' hg heq
  subst heq
  obtain ⟨item, hitem, hid⟩ := Option.map_eq_some_iff.mp hf
  obtain ⟨item', hitem', hid'⟩ := Option.map_eq_some_iff.mp hg
  have hmem := hfg.subset
  obtain ⟨c, hc, hnames⟩ := h.announces f (hmem (by simp)) item hitem
  obtain ⟨c', hc', hnames'⟩ := h.announces g (hmem (by simp)) item' hitem'
  have hcall : c = c' := by
    refine h.unique hc hc' ?_
    rw [← callIdOf_names hnames, ← callIdOf_names hnames', hid, hid']
  subst hcall
  have hstage : ∀ {f : Frame} {item : Json}, announced f = some item → c.Names item →
      stageOf c f = some 0 := by
    intro f item hitem hnames
    rw [stageOf, hitem]
    simp [hnames]
  have hordered := h.ordered c hc
  rw [pairwise_filterMap, pairwise_iff_forall_sublist] at hordered
  have hzero := hordered hfg 0 (hstage hitem hnames) 0 (hstage hitem' hnames')
  simp at hzero

theorem Protocol.names_of_heard (h : Protocol calls frames)
    (hitem : Meaning.call item ∈ heard E {} frames) : ∃ c ∈ calls, c.Names item := by
  obtain ⟨f, hf, hmeaning⟩ := mem_heard E hitem
  exact h.announces f hf item (announced_of_meaning E hmeaning)

end Names

theorem filter_eq_singleton_iff {l : List SentCall} (h : (l.map SentCall.callId).Nodup) (d : SentCall) :
    l.filter (·.callId = d.callId) = [d] ↔ d ∈ l := by
  constructor
  · intro heq
    have hmem : d ∈ l.filter (·.callId = d.callId) := heq ▸ mem_singleton_self d
    exact (mem_filter.mp hmem).1
  · intro hmem
    induction l with
    | nil => exact absurd hmem not_mem_nil
    | cons e l ih =>
      rw [map_cons, nodup_cons] at h
      obtain ⟨hnot, h⟩ := h
      rcases mem_cons.mp hmem with rfl | hmem
      · rw [filter_cons_of_pos (by simp), filter_eq_nil_iff.mpr]
        intro e he heq
        exact hnot (of_decide_eq_true heq ▸ List.mem_map_of_mem he)
      · have hne : e.callId ≠ d.callId := fun heq ↦ hnot (heq ▸ List.mem_map_of_mem hmem)
        rw [filter_cons_of_neg (by simpa using hne)]
        exact ih h hmem

/-! ## The result -/

/-- A call is read as it should be sent exactly if it is announced and its own text stands behind it. -/
theorem sent_mem_iff {calls : List CallItem} {frames : List Frame} (h : Protocol calls frames)
    {c : CallItem} (hc : c ∈ calls) : c.sent ∈ callsRead E (heard E {} frames) ↔
      ∃ before item after, heard E {} frames = before ++ .call item :: after ∧ c.Names item ∧
        argumentsRead E (isClaudeWebSearchToolName c.name) [] after = c.sent.arguments := by
  rw [mem_callsRead]
  constructor
  · rintro ⟨before, item, after, hsplit, hread⟩
    have hitem : Meaning.call item ∈ heard E {} frames := by
      rw [hsplit]
      simp
    obtain ⟨c', hc', hnames⟩ := h.names_of_heard E hitem
    have hcallId : c.callId = callIdOf item := congrArg SentCall.callId hread
    obtain rfl := h.unique hc hc' (hcallId.trans (callIdOf_names hnames))
    refine ⟨before, item, after, hsplit, hnames, ?_⟩
    rw [hread, readCall, nameOf_names hnames]
  · rintro ⟨before, item, after, hsplit, hnames, hread⟩
    refine ⟨before, item, after, hsplit, ?_⟩
    rw [readCall, callIdOf_names hnames, nameOf_names hnames, hread]
    rfl

/-- **Every call is sent once and whole** exactly if position and name agree: for any chunks and any pings. -/
theorem calls_whole_iff {calls : List CallItem} {body : List UInt8}
    (h : Protocol calls (eventsOf body)) :
    (∀ t, ReadToEnd E body t → CallsWhole calls t.stream.written) ↔
      Attributed E calls (eventsOf body) := by
  obtain ⟨⟨t, ht⟩, hwritten⟩ := calls_written E h
  have hnodup : ((callsRead E (heard E {} (eventsOf body))).map SentCall.callId).Nodup :=
    (heard_sublist E {} (eventsOf body)).nodup h.announced_nodup
  constructor
  · intro hwhole c hc
    have hsingle := (hwhole t ht).1 c hc
    rw [(hwritten t ht).calls] at hsingle
    exact (sent_mem_iff E h hc).mp ((filter_eq_singleton_iff hnodup c.sent).mp hsingle)
  · intro hattributed t ht
    have hfinished := hwritten t ht
    refine ⟨fun c hc ↦ ?_, fun hne ↦ ?_⟩
    · rw [hfinished.calls]
      exact (filter_eq_singleton_iff hnodup c.sent).mpr ((sent_mem_iff E h hc).mpr (hattributed c hc))
    · obtain ⟨c, hc⟩ := exists_mem_of_ne_nil calls hne
      exact hfinished.stops (ne_nil_of_mem ((sent_mem_iff E h hc).mpr (hattributed c hc)))

/-! ## One call after the other, and two at a time -/

def weatherCall : CallItem := ⟨js "fc_1", js "call_1", js "weather", js "[1]"⟩

def clockCall : CallItem := ⟨js "fc_2", js "call_2", js "clock", js "[2]"⟩

/-- A frame with these members. -/
def frameText (members : JsString) : JsString := js "data: \x7b" ++ members ++ js "\x7d\n\n"

/-- An event about the item of a call. -/
def itemText (event : String) (c : CallItem) (arguments : JsString) : JsString :=
  frameText (js "\"type\":\"response.output_item." ++ js event ++
    js "\",\"item\":\x7b\"type\":\"function_call\",\"id\":\"" ++ c.id ++ js "\",\"call_id\":\"" ++ c.callId ++
    js "\",\"name\":\"" ++ c.name ++ js "\",\"arguments\":\"" ++ arguments ++ js "\"\x7d")

def deltaText (c : CallItem) (delta : JsString) : JsString :=
  frameText (js "\"type\":\"response.function_call_arguments.delta\",\"item_id\":\"" ++ c.id ++
    js "\",\"delta\":\"" ++ delta ++ js "\"")

def completedText : JsString := frameText (js "\"type\":\"response.completed\"")

def bodyOf (texts : List JsString) : List UInt8 := Utf8.bytesOf texts.flatten

/-- One call after the other. -/
def sequentialBody : List UInt8 :=
  bodyOf [itemText "added" weatherCall [], deltaText weatherCall (js "["), deltaText weatherCall (js "1]"),
    itemText "done" weatherCall (js "[1]"), itemText "added" clockCall [],
    itemText "done" clockCall (js "[2]"), completedText]

/-- Both calls are announced before the arguments of either. -/
def parallelBody : List UInt8 :=
  bodyOf [itemText "added" weatherCall [], itemText "added" clockCall [], deltaText weatherCall (js "[1]"),
    deltaText clockCall (js "[2]"), completedText]

/-- Position tells the calls apart only if they do not overlap. -/
theorem parallel_calls_mixed : Protocol [weatherCall, clockCall] (eventsOf parallelBody) ∧
      ∃ t, ReadToEnd plainEnv parallelBody t ∧ (callsIn t.stream.written).map ToolCall.sent =
          [⟨js "call_1", js "weather", []⟩, ⟨js "call_2", js "clock", js "[1][2]"⟩] ∧
        ¬CallsWhole [weatherCall, clockCall] t.stream.written := by
  have hprotocol : Protocol [weatherCall, clockCall] (eventsOf parallelBody) := by decide +kernel
  have hread : callsRead plainEnv (heard plainEnv {} (eventsOf parallelBody)) =
      [⟨js "call_1", js "weather", []⟩, ⟨js "call_2", js "clock", js "[1][2]"⟩] := by
    decide +kernel
  obtain ⟨⟨t, ht⟩, hwritten⟩ := calls_written plainEnv hprotocol
  have hcalls := (hwritten t ht).calls.trans hread
  refine ⟨hprotocol, t, ht, hcalls, fun hwhole ↦ ?_⟩
  have hweather := hwhole.1 weatherCall mem_cons_self
  rw [hcalls] at hweather
  exact absurd hweather (by decide +kernel)

/-- Two calls, one after the other. -/
theorem calls_whole_sequential : Protocol [weatherCall, clockCall] (eventsOf sequentialBody) ∧
      ∀ t, ReadToEnd plainEnv sequentialBody t →
        CallsWhole [weatherCall, clockCall] t.stream.written := by
  have hprotocol : Protocol [weatherCall, clockCall] (eventsOf sequentialBody) := by decide +kernel
  have hread : ∀ c ∈ [weatherCall, clockCall],
      c.sent ∈ callsRead plainEnv (heard plainEnv {} (eventsOf sequentialBody)) := by
    decide +kernel
  exact ⟨hprotocol, (calls_whole_iff plainEnv hprotocol).mpr fun c hc ↦
    (sent_mem_iff plainEnv hprotocol hc).mp (hread c hc)⟩

end Messages
