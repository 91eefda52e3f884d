import OpenCodex.Responses.Recall
import OpenCodex.Data.JsonDoc

/-!
# Conversations, and the histories they get back

A conversation is a chain of turns, each of which names the response of the one before it and brings
its new items only.  The store answers with the items of the whole chain — or does not answer.  The
machine `chats` runs any number of conversations over one store, together with everything else that
happens to it, and keeps a `log` of what was remembered.  The log is not the code's.

A turn that names a response the store no longer has goes on with its new items alone.  To remember
*that* would give a later turn a history without its beginning, so `passthroughRecordEligible` lets a
response be remembered only if its request named none, or got the history: this is the condition
`Eligible`.  Under it a history that is given back is one that was `Recorded`, from its first turn to
its last (`history_exact`); without it a history can lack its beginning (`history_truncated`).
-/

set_option autoImplicit false

open List Option Function

open Json

namespace Responses

/-! ## What was remembered -/

/-- A turn: its own items, and those of the response. -/
structure Turn where
  news : List Json
  output : List Json

/-- The items and outputs of some turns, in order. -/
def history (turns : List Turn) : List Json := turns.flatMap fun turn ↦ turn.news ++ turn.output

/-- What the log has about a response that was remembered. -/
structure Recording where
  id : ResponseId
  /-- The task, without the blanks around it. -/
  scope : Option JsString
  /-- The response its turn continued; `none` where the turn brought everything itself. -/
  previous : Option ResponseId
  turn : Turn

/-- The turns up to a response, all of them in the same task, from one that brought everything
itself. -/
inductive Recorded (log : List Recording) (scope : Option JsString) :
    ResponseId → List Turn → Prop
  | first {r : Recording} (hr : r ∈ log) (hscope : r.scope = scope) (hprevious : r.previous = none) :
      Recorded log scope r.id [r.turn]
  | next {r : Recording} {previous : ResponseId} {turns : List Turn} (hr : r ∈ log)
      (hscope : r.scope = scope) (hprevious : r.previous = some previous)
      (h : Recorded log scope previous turns) : Recorded log scope r.id (turns ++ [r.turn])

/-- No id was given to two different recordings. -/
def Unambiguous (log : List Recording) : Prop := ∀ r ∈ log, ∀ r' ∈ log, r.id = r'.id → r = r'

variable {log : List Recording} {id : ResponseId}

variable {log' : List Recording} {turns : List Turn}

theorem Recorded.mono {scope : Option JsString} (hsub : log ⊆ log')
    (h : Recorded log scope id turns) : Recorded log' scope id turns := by
  induction h with
  | first hr hscope hprevious => exact .first (hsub hr) hscope hprevious
  | next hr hscope hprevious _ ih => exact .next (hsub hr) hscope hprevious ih

theorem Recorded.unique {scope scope' : Option JsString} {turns' : List Turn}
    (hlog : Unambiguous log) (h : Recorded log scope id turns) (h' : Recorded log scope' id turns') :
    turns = turns' := by
  induction h generalizing turns' with
  | @first r hr _ hprevious =>
    generalize hid : r.id = id at h'
    cases h' with
    | @first r' hr' _ _ => rw [hlog r hr r' hr' hid]
    | @next r' previous' _ hr' _ hprevious' _ =>
      rw [hlog r hr r' hr' hid, hprevious'] at hprevious
      nomatch hprevious
  | @next r previous turns hr _ hprevious _ ih =>
    generalize hid : r.id = id at h'
    cases h' with
    | @first r' hr' _ hprevious' =>
      rw [hlog r hr r' hr' hid, hprevious'] at hprevious
      nomatch hprevious
    | @next r' previous' _ hr' _ hprevious' h' =>
      obtain rfl := hlog r hr r' hr' hid
      obtain rfl := some_inj.mp (hprevious.symm.trans hprevious')
      rw [ih h']

/-! ## The machine -/

/-- A turn that was begun. -/
structure OpenTurn where
  /-- The members of its request. -/
  members : List (JsString × Json)
  expansion : Expansion

/-- Does a turn bring everything itself?  It names no response, or repeats what it continues. -/
def OpenTurn.standsAlone (turn : OpenTurn) : Bool :=
  match turn.expansion with
  | .carried _ => true
  | _ => (previousResponseId turn.members).isNone

/-- The body that is sent on, and later remembered. -/
def OpenTurn.body (turn : OpenTurn) : Json := turn.expansion.bodyOr (.obj turn.members)

/-- The new items of a request. -/
def newItems (members : List (JsString × Json)) : List Json :=
  inputItems (lookup members (js "input"))

/-- The output of a response. -/
def outputItems (response : Json) : List Json :=
  match response.field? (js "output") with
  | some (.arr output) => output
  | _ => []

structure Conversation where
  clientThreadId : Option JsString
  /-- The response its next turn will name. -/
  last : Option ResponseId
  /-- The turns up to that response, from one that brought everything itself. -/
  done : List Turn
  opened : Option OpenTurn

/-- The task of a conversation. -/
def Conversation.scope (c : Conversation) : Option JsString :=
  normalizedClientThreadId (c.clientThreadId.map .str)

structure Chats where
  store : ResponseStore
  conversations : ℕ → Conversation
  log : List Recording

inductive ChatEvent where
  /-- A conversation begins a turn with a request. -/
  | begin (n : ℕ) (members : List (JsString × Json))
  /-- Its response is completed and remembered. -/
  | complete (n : ℕ) (response : Json) (providers : List (JsString × Json))
      (options : RememberOptions)
  /-- Nothing comes of the turn. -/
  | drop (n : ℕ)
  /-- Something else happens to the store. -/
  | other (event : StoreEvent)

variable (E : StoreEnv)

/-- A request that names the last response of its conversation is expanded.  The empty id is the id
of no response. -/
def beginTurn (s : Chats) (n : ℕ) (members : List (JsString × Json)) : Option Chats :=
  let c := s.conversations n
  if c.opened.isNone ∧ previousResponseId members = c.last.filter (· ≠ []) then
    let expanded := expandPreviousResponseInput E (.obj members) c.clientThreadId s.store
    some { s with
      store := expanded.2
      conversations := Function.update s.conversations n
        { c with opened := some ⟨members, expanded.1⟩ } }
  else none

/-- The conversation after a turn was completed. -/
def Conversation.completed (c : Conversation) (opened : OpenTurn) (id : ResponseId) (turn : Turn) :
    Conversation :=
  { c with
    last := some id
    done := if opened.standsAlone then [turn] else c.done ++ [turn]
    opened := none }

/-- What the log gets about it. -/
def Conversation.recording (c : Conversation) (opened : OpenTurn) (id : ResponseId) (turn : Turn) :
    Recording :=
  ⟨id, c.scope, if opened.standsAlone then none else c.last, turn⟩

/-- A response is completed, and remembered whatever its request said of storing it. -/
def completeTurn (s : Chats) (n : ℕ) (response : Json) (providers : List (JsString × Json))
    (options : RememberOptions) : Option Chats :=
  let c := s.conversations n
  match c.opened with
  | none => none
  | some opened =>
    match continuationOf opened.body response providers options 0 with
    | none => none
    | some (id, _) =>
      if options.force ∧ options.clientThreadId = c.clientThreadId then
        let turn : Turn := ⟨newItems opened.members, outputItems response⟩
        some
          { store := rememberResponseState E opened.body response providers options s.store
            conversations := Function.update s.conversations n (c.completed opened id turn)
            log := s.log ++ [c.recording opened id turn] }
      else none

/-- Something else than a turn that is completed. -/
def otherStep (s : Chats) (event : StoreEvent) : Option Chats :=
  match event with
  | .remember _ _ _ _ => none
  | event => (storeStep E s.store event).map fun store ↦ { s with store }

def chatStep (s : Chats) : ChatEvent → Option Chats
  | .begin n members => beginTurn E s n members
  | .complete n response providers options => completeTurn E s n response providers options
  | .drop n => some { s with
      conversations := Function.update s.conversations n { s.conversations n with opened := none } }
  | .other event => otherStep E s event

/-- Any number of conversations that all start anew, over a store that starts empty. -/
def chats : Machine Chats ChatEvent where
  init s := (∃ tick, s.store = .start [] tick) ∧ s.log = [] ∧
    ∀ n, (s.conversations n).last = none ∧ (s.conversations n).done = [] ∧
      (s.conversations n).opened = none
  step := chatStep E

/-- May the response of a turn be remembered?  Its request named none, or was expanded. -/
def OpenTurn.passthroughRecordEligible (opened : OpenTurn) : Bool :=
  (previousResponseId opened.members).isNone || opened.expansion.expanded

/-- A response is remembered only if it may be. -/
def Eligible (s : Chats) : ChatEvent → Prop
  | .complete n _ _ _ =>
    ∀ opened ∈ (s.conversations n).opened, opened.passthroughRecordEligible = true
  | _ => True

instance (s : Chats) (event : ChatEvent) : Decidable (Eligible s event) :=
  match event with
  | .complete n _ _ _ => inferInstanceAs (Decidable (∀ opened ∈ (s.conversations n).opened, _))
  | .begin _ _ => inferInstanceAs (Decidable True)
  | .drop _ => inferInstanceAs (Decidable True)
  | .other _ => inferInstanceAs (Decidable True)

variable {E}

/-! ## What an expansion gives back -/

/-- The entry of an id when it is looked up. -/
def found (E : StoreEnv) (s : ResponseStore) (id : ResponseId) : Option Cell :=
  (pruneResponses E (ensureLoaded E s)).states.get? id

/-- The continuation has the items of the turns that were recorded up to a response. -/
structure InLog (log : List Recording) (id : ResponseId) (e : ResidentInput) : Prop where
  recorded : ∃ turns, Recorded log (normalizedClientThreadId (e.clientThreadId.map .str)) id turns ∧
    e.items = history turns
  forced : e.unforcedStoreFalse = false

variable {e : ResidentInput}

theorem InLog.mono (hsub : log ⊆ log') (h : InLog log id e) : InLog log' id e := by
  obtain ⟨turns, hturns, hitems⟩ := h.recorded
  exact ⟨⟨turns, hturns.mono hsub, hitems⟩, h.forced⟩

theorem Recalls.inLog (h : Recalls (InLog log) id e) : InLog log id e := by
  obtain ⟨e₀, h₀, halike⟩ := h
  obtain ⟨turns, hturns, hitems⟩ := h₀.recorded
  exact ⟨⟨turns, halike.thread ▸ hturns, halike.items.trans hitems⟩,
    halike.unforced.trans h₀.forced⟩

/-- What the expansion of a request may be, for the turns that were recorded in its task: the history
of one of them with the new items after it, or the request itself.  Where it is the request itself,
there is no entry, or a failure is recorded, or the request has the history in it. -/
def ExactOrUnchanged (E : StoreEnv) (s : ResponseStore) (log : List Recording)
    (scope : Option JsString) (members : List (JsString × Json)) : Expansion → Prop
  | .untouched => ∀ id, previousResponseId members = some id → found E s id = none
  | .refused _ => ∃ id, previousResponseId members = some id ∧ found E s id ≠ none
  | .carried count => ∃ id turns, previousResponseId members = some id ∧
      Recorded log scope id turns ∧ count = (history turns).length ∧
      clientCarriedPrefixLength E (history turns) (newItems members) = count
  | .restored count body => ∃ id turns, previousResponseId members = some id ∧
      Recorded log scope id turns ∧ count = (history turns).length ∧
      body = .obj (setMember members (js "input") (.arr (history turns ++ newItems members)))

theorem expand_exact (hdigest : CollisionFree E) (hparse : ReadsBack E) {s : ResponseStore}
    (h : Genuine E (InLog log) s) (members : List (JsString × Json))
    (clientThreadId : Option JsString) :
    ExactOrUnchanged E s log (normalizedClientThreadId (clientThreadId.map .str)) members
      (expandPreviousResponseInput E (.obj members) clientThreadId s).1 := by
  rw [expandPreviousResponseInput, members?, bind_some]
  cases hprevious : previousResponseId members with
  | none => exact fun id hid ↦ absurd (hprevious.symm.trans hid) (by simp)
  | some id =>
    dsimp only [map_some]
    have hpruned : Genuine E (InLog log) (pruneResponses E (ensureLoaded E s)) :=
      h.ensureLoaded.pruneResponses
    cases hget : (pruneResponses E (ensureLoaded E s)).states.get? id with
    | none =>
      intro id' hid'
      obtain rfl := some_inj.mp (hprevious.symm.trans hid')
      exact hget
    | some cell =>
      have hfound : found E s id ≠ none := by
        rw [found, hget]
        exact some_ne_none cell
      dsimp only
      rw [replayEntry]
      cases hm : (materializeEntry E id cell (pruneResponses E (ensureLoaded E s))).1 with
      | error failure => exact ⟨id, hprevious, hfound⟩
      | ok previous =>
        have hin : InLog log id previous := (hpruned.materializeEntry hdigest hparse hget hm).inLog
        obtain ⟨turns, hturns, hitems⟩ := hin.recorded
        dsimp only
        split
        · exact ⟨id, hprevious, hfound⟩
        rename_i hscope
        rw [← not_ne_iff.mp hscope] at hturns
        rw [replay]
        simp only [hin.forced, hitems, Bool.false_eq_true, false_and, if_false]
        split
        · rename_i hcarried
          exact ⟨id, turns, hprevious, hturns, hcarried.1, rfl⟩
        · exact ⟨id, turns, hprevious, hturns, rfl, rfl⟩

/-! ## What is remembered -/

variable {response : Json} {providers : List (JsString × Json)} {options : RememberOptions}

theorem continuationOf_says {body : Json} {createdAt : ℚ} {entry : ResidentInput}
    (h : continuationOf body response providers options createdAt = some (id, entry)) :
    ∃ members, body = .obj members ∧ entry.items = newItems members ++ outputItems response ∧
      entry.clientThreadId = normalizedClientThreadId (options.clientThreadId.map .str) ∧
      (options.force = true → entry.unforcedStoreFalse = false) := by
  unfold continuationOf at h
  split at h
  case h_2 => nomatch h
  rename_i members _ output _ houtput
  simp only [ite_none_left_eq_some, ite_none_right_eq_some, some_inj, Prod.mk.injEq] at h
  obtain ⟨-, -, -, -, rfl⟩ := h
  refine ⟨members, rfl, ?_, rfl, fun hforce ↦ ?_⟩
  · rw [newItems, outputItems, houtput]
  · simp [hforce]

theorem lookup_replaced (members : List (JsString × Json)) (name : JsString) (v : Json) :
    lookup (members.map fun m ↦ if m.1 = name then (name, v) else m) name =
      if members.any (·.1 == name) then some v else none := by
  induction members with
  | nil => rfl
  | cons m members ih =>
    rw [map_cons, lookup_cons, ih]
    by_cases hm : m.1 = name <;> by_cases hrest : members.any (·.1 == name) = true <;>
      simp [hm, hrest]

theorem lookup_setMember (members : List (JsString × Json)) (name : JsString) (v : Json) :
    lookup (setMember members name v) name = some v := by
  rw [setMember]
  split
  · rename_i hany
    rw [lookup_replaced, if_pos hany]
  · rw [lookup_append]
    simp [Json.lookup]

/-! ## Runs -/

/-- What is in the store goes back to the log, and every conversation knows its turns. -/
structure Faithful (E : StoreEnv) (s : Chats) : Prop where
  genuine : Genuine E (InLog s.log) s.store
  last : ∀ n id, (s.conversations n).last = some id →
    Recorded s.log (s.conversations n).scope id (s.conversations n).done
  opened : ∀ n opened, (s.conversations n).opened = some opened →
    previousResponseId opened.members = (s.conversations n).last.filter (· ≠ []) ∧
    ∀ count body, opened.expansion = .restored count body → ∃ id turns,
      previousResponseId opened.members = some id ∧
      Recorded s.log (s.conversations n).scope id turns ∧
      body = .obj (setMember opened.members (js "input")
        (.arr (history turns ++ newItems opened.members)))

variable {s s' : Chats}

theorem history_append (turns : List Turn) (turn : Turn) :
    history (turns ++ [turn]) = history turns ++ (turn.news ++ turn.output) := by
  simp [history]

variable {n : ℕ} {members : List (JsString × Json)}

theorem beginTurn_opened (hs : beginTurn E s n members = some s') :
    previousResponseId members = (s.conversations n).last.filter (· ≠ []) ∧
      (s'.conversations n).opened = some ⟨members, (expandPreviousResponseInput E (.obj members)
        (s.conversations n).clientThreadId s.store).1⟩ := by
  unfold beginTurn at hs
  dsimp only at hs
  split at hs
  · rename_i hbegin
    obtain rfl := some_inj.mp hs
    exact ⟨hbegin.2, by simp⟩
  · nomatch hs

theorem Faithful.begin (hdigest : CollisionFree E) (hparse : ReadsBack E) (h : Faithful E s)
    (hs : beginTurn E s n members = some s') : Faithful E s' := by
  unfold beginTurn at hs
  dsimp only at hs
  split at hs
  case isFalse => nomatch hs
  rename_i hbegin
  obtain rfl := some_inj.mp hs
  refine ⟨h.genuine.expand, fun m id hid ↦ ?_, fun m opened hopened ↦ ?_⟩
  · by_cases hm : m = n
    · subst hm
      simp only [update_self] at hid ⊢
      exact h.last m id hid
    · simp only [update_of_ne hm] at hid ⊢
      exact h.last m id hid
  · by_cases hm : m = n
    · subst hm
      simp only [update_self] at hopened ⊢
      obtain rfl := some_inj.mp hopened
      refine ⟨hbegin.2, fun count body hrestored ↦ ?_⟩
      have hexact := expand_exact hdigest hparse h.genuine members
        (s.conversations m).clientThreadId
      dsimp only at hrestored
      rw [hrestored] at hexact
      obtain ⟨id, turns, hid, hturns, -, hbody⟩ := hexact
      exact ⟨id, turns, hid, hturns, hbody⟩
    · simp only [update_of_ne hm] at hopened ⊢
      exact h.opened m opened hopened

variable {opened : OpenTurn}

theorem OpenTurn.restored_of_eligible (halone : opened.standsAlone = false)
    (heligible : opened.passthroughRecordEligible = true) :
    ∃ count body, opened.expansion = .restored count body := by
  unfold OpenTurn.standsAlone at halone
  unfold OpenTurn.passthroughRecordEligible at heligible
  cases hexp : opened.expansion with
  | restored count body => exact ⟨count, body, rfl⟩
  | carried count =>
    rw [hexp] at halone
    nomatch halone
  | untouched | refused failure =>
    rw [hexp] at halone heligible
    have hnamed : (previousResponseId opened.members).isNone = false := halone
    rw [hnamed] at heligible
    nomatch heligible

theorem Faithful.sent_alone (h : Faithful E s) (hopened : (s.conversations n).opened = some opened)
    (halone : opened.standsAlone = true) : opened.body = .obj opened.members := by
  unfold OpenTurn.standsAlone at halone
  unfold OpenTurn.body
  cases hexp : opened.expansion with
  | restored count body =>
    obtain ⟨id, turns, hid, -⟩ := (h.opened n opened hopened).2 count body hexp
    rw [hexp, hid] at halone
    nomatch halone
  | carried count => rfl
  | untouched => rfl
  | refused failure => rfl

/-- A turn that was completed has a record, and what was sent on is the history of it. -/
theorem Faithful.completed (h : Faithful E s) (output : List Json)
    (hopened : (s.conversations n).opened = some opened)
    (heligible : opened.passthroughRecordEligible = true) (hbody : opened.body = .obj members)
    (hlog : log = s.log ++
      [(s.conversations n).recording opened id ⟨newItems opened.members, output⟩]) :
    Recorded log (s.conversations n).scope id
      ((s.conversations n).completed opened id ⟨newItems opened.members, output⟩).done ∧
    ∃ turns, Recorded log (s.conversations n).scope id turns ∧
      newItems members ++ output = history turns := by
  have hsub : s.log ⊆ log := hlog ▸ subset_append_left _ _
  have hr : (s.conversations n).recording opened id ⟨newItems opened.members, output⟩ ∈ log := by
    rw [hlog]
    exact mem_append_right _ mem_cons_self
  cases halone : opened.standsAlone with
  | true =>
    obtain rfl := Json.obj.inj (hbody.symm.trans (h.sent_alone hopened halone))
    have hfirst : Recorded log (s.conversations n).scope id [⟨newItems opened.members, output⟩] :=
      .first hr rfl (by simp [Conversation.recording, halone])
    exact ⟨by simpa [Conversation.completed, halone] using hfirst, _, hfirst, by simp [history]⟩
  | false =>
    obtain ⟨count, body, hexp⟩ := OpenTurn.restored_of_eligible halone heligible
    obtain ⟨hprevious, hrestored⟩ := h.opened n opened hopened
    obtain ⟨id₀, turns, hid₀, hturns, hbody₀⟩ := hrestored count body hexp
    have hlast : (s.conversations n).last = some id₀ :=
      (filter_eq_some_iff.mp (hprevious.symm.trans hid₀)).1
    have hnext : ∀ turns, Recorded s.log (s.conversations n).scope id₀ turns →
        Recorded log (s.conversations n).scope id (turns ++ [⟨newItems opened.members, output⟩]) :=
      fun turns hturns ↦ .next hr rfl (by simp [Conversation.recording, halone, hlast])
        (hturns.mono hsub)
    have hmembers : members = setMember opened.members (js "input")
        (.arr (history turns ++ newItems opened.members)) := by
      rw [OpenTurn.body, hexp, Expansion.bodyOr, hbody₀] at hbody
      exact (Json.obj.inj hbody).symm
    refine ⟨?_, _, hnext turns hturns, ?_⟩
    · simpa [Conversation.completed, halone] using hnext _ (h.last n id₀ hlast)
    · rw [hmembers, history_append, newItems, lookup_setMember, inputItems, append_assoc]

theorem Faithful.complete (h : Faithful E s)
    (heligible : Eligible s (.complete n response providers options))
    (hs : completeTurn E s n response providers options = some s') : Faithful E s' := by
  unfold completeTurn at hs
  dsimp only at hs
  split at hs
  · nomatch hs
  rename_i opened hopened
  split at hs
  · nomatch hs
  rename_i id entry hentry
  split at hs
  case isFalse => nomatch hs
  rename_i hforced
  obtain rfl := some_inj.mp hs
  obtain ⟨members, hbody, hitems, hthread, hunforced⟩ := continuationOf_says hentry
  obtain ⟨hdone, turns, hturns, hhistory⟩ :=
    h.completed (outputItems response) hopened (heligible opened hopened) hbody rfl
  have hsub : s.log ⊆ s.log ++ [(s.conversations n).recording opened id
      ⟨newItems opened.members, outputItems response⟩] := subset_append_left _ _
  refine ⟨?_, fun m id' hid' ↦ ?_, fun m opened' hopened' ↦ ?_⟩
  · refine (h.genuine.mono fun _ _ he ↦ he.mono hsub).remember fun id' entry' hentry' ↦ ?_
    obtain ⟨rfl, rfl⟩ := Prod.mk.inj (some_inj.mp (hentry.symm.trans hentry'))
    refine .self ⟨⟨turns, ?_, hitems.trans hhistory⟩, hunforced hforced.1⟩
    rw [hthread, normalized_normalized, hforced.2]
    exact hturns
  · by_cases hm : m = n
    · subst hm
      simp only [update_self] at hid' ⊢
      obtain rfl := some_inj.mp hid'
      exact hdone
    · simp only [update_of_ne hm] at hid' ⊢
      exact (h.last m id' hid').mono hsub
  · by_cases hm : m = n
    · subst hm
      simp only [update_self] at hopened'
      nomatch hopened'
    · simp only [update_of_ne hm] at hopened' ⊢
      obtain ⟨hprevious, hrestored⟩ := h.opened m opened' hopened'
      refine ⟨hprevious, fun count body hbody' ↦ ?_⟩
      obtain ⟨id', turns', hid', hturns', hbody'⟩ := hrestored count body hbody'
      exact ⟨id', turns', hid', hturns'.mono hsub, hbody'⟩

theorem Faithful.drop (h : Faithful E s) (n : ℕ) : Faithful E { s with
    conversations := Function.update s.conversations n
      { s.conversations n with opened := none } } := by
  refine ⟨h.genuine, fun m id hid ↦ ?_, fun m opened hopened ↦ ?_⟩
  · by_cases hm : m = n
    · subst hm
      simp only [update_self] at hid ⊢
      exact h.last m id hid
    · simp only [update_of_ne hm] at hid ⊢
      exact h.last m id hid
  · by_cases hm : m = n
    · subst hm
      simp only [update_self] at hopened
      nomatch hopened
    · simp only [update_of_ne hm] at hopened ⊢
      exact h.opened m opened hopened

theorem Faithful.other {event : StoreEvent} (h : Faithful E s)
    (hs : otherStep E s event = some s') : Faithful E s' := by
  have hstep : ∀ store, (∀ requestBody response providers options,
      event ≠ .remember requestBody response providers options) →
      storeStep E s.store event = some store → Faithful E { s with store } :=
    fun store hne hstore ↦ ⟨h.genuine.storeStep (fun _ _ _ _ _ _ he ↦ absurd he (hne _ _ _ _))
      hstore, h.last, h.opened⟩
  unfold otherStep at hs
  split at hs
  · nomatch hs
  · rename_i hne
    obtain ⟨store, hstore, rfl⟩ := map_eq_some_iff.mp hs
    exact hstep store (fun _ _ _ _ heq ↦ hne _ _ _ _ heq) hstore

theorem faithful_inductive (hdigest : CollisionFree E) (hparse : ReadsBack E) :
    (chats E).Inductive Eligible (Faithful E) where
  init := by
    rintro s ⟨⟨tick, hstore⟩, -, hfresh⟩
    refine ⟨hstore ▸ genuine_start tick, fun n id hid ↦ ?_, fun n opened hopened ↦ ?_⟩
    · exact absurd ((hfresh n).1.symm.trans hid) (by simp)
    · exact absurd ((hfresh n).2.2.symm.trans hopened) (by simp)
  step := by
    intro s event s' h heligible hs
    cases event with
    | begin n members => exact h.begin hdigest hparse hs
    | complete n response providers options => exact h.complete heligible hs
    | drop n => exact some_inj.mp hs ▸ h.drop n
    | other event => exact h.other hs

variable {f : Json → Option Doc}

theorem itemsToJson_of_mapM (hf : ∀ v d, f v = some d → d.toJson = v) {items : List Json}
    {docs : List Doc} (h : items.mapM f = some docs) : itemsToJson docs = items := by
  induction items generalizing docs with
  | nil =>
    obtain rfl : [] = docs := by simpa using h
    rfl
  | cons v items ih =>
    simp only [mapM_cons, bind_eq_bind, bind_eq_some_iff, Option.pure_def, some_inj] at h
    obtain ⟨d, hd, docs', hdocs, rfl⟩ := h
    rw [itemsToJson, hf v d hd, ih hdocs]

theorem membersToJson_of_mapM (hf : ∀ v d, f v = some d → d.toJson = v)
    {docs : List (JsString × Doc)}
    (h : (members.mapM fun m ↦ (f m.2).map fun d ↦ (m.1, d)) = some docs) :
    membersToJson docs = members := by
  induction members generalizing docs with
  | nil =>
    obtain rfl : [] = docs := by simpa using h
    rfl
  | cons m members ih =>
    simp only [mapM_cons, bind_eq_bind, bind_eq_some_iff, Option.pure_def,
      some_inj, map_eq_some_iff] at h
    obtain ⟨_, ⟨d, hd, rfl⟩, docs', hdocs, rfl⟩ := h
    rw [membersToJson, hf m.2 d hd, ih hdocs]

theorem plainDoc_toJson {depth : ℕ} {v : Json} {d : Doc} (h : plainDoc depth v = some d) :
    d.toJson = v := by
  induction depth generalizing v d with
  | zero => nomatch h
  | succ depth ih =>
    cases v with
    | null => nomatch h
    | bool b => nomatch h
    | num q =>
      unfold plainDoc at h
      split at h
      · rename_i hq
        obtain rfl := some_inj.mp h
        rw [Doc.toJson]
        congr 1
        have hnum : (q.num.toNat : ℤ) = q.num := Int.toNat_of_nonneg hq.2
        rw [← Rat.coe_int_num_of_den_eq_one hq.1, ← hnum]
        rfl
      · nomatch h
    | str text =>
      obtain rfl := some_inj.mp h
      rw [Doc.toJson]
    | arr items =>
      obtain ⟨docs, hdocs, rfl⟩ := map_eq_some_iff.mp h
      rw [Doc.toJson, itemsToJson_of_mapM (fun _ _ hd ↦ ih hd) hdocs]
    | obj members =>
      obtain ⟨docs, hdocs, rfl⟩ := map_eq_some_iff.mp h
      rw [Doc.toJson, membersToJson_of_mapM (fun _ _ hd ↦ ih hd) hdocs]
theorem shippedEnv_readsBack {clock : ℕ → ℚ} {publish : ℕ → Option JsString}
    {sha256 : JsString → JsString} {readFile : ℕ → JsString → FileRead} :
    ReadsBack { shippedEnv with clock, publish, sha256, readFile } := by
  intro v text h
  obtain ⟨d, hd, rfl⟩ := map_eq_some_iff.mp h
  rw [parse_render, plainDoc_toJson hd]

/-- The request of a turn. -/
def request (previous : Option ResponseId) (text : JsString) : List (JsString × Json) :=
  optional (js "previous_response_id") (previous.map .str) ++ [(js "input", .str text)]

/-- A response with one message. -/
def answer (id : ResponseId) (text : JsString) : Json :=
  .obj [(js "id", .str id),
    (js "output", .arr [.obj [(js "type", .str (js "message")), (js "content", .str text)]])]

/-- What the forward transport asks for. -/
def forced : RememberOptions := ⟨true, none, false, false⟩

/-- A turn from its request to its response. -/
def turnEvents (previous : Option ResponseId) (id text reply : JsString) : List ChatEvent :=
  [.begin 0 (request previous text), .complete 0 (answer id reply) [] forced]

def newChats : Chats := ⟨.start [] 0, fun _ ↦ ⟨none, none, [], none⟩, []⟩

theorem newChats_init (E : StoreEnv) : (chats E).init newChats :=
  ⟨⟨0, rfl⟩, rfl, fun _ ↦ ⟨rfl, rfl, rfl⟩⟩

/-- How many items a restored body has. -/
def restoredItems : Expansion → Option ℕ
  | .restored _ body => some (inputItems (body.field? (js "input"))).length
  | _ => none

/-- The shipped caps, and a clock that is two days ahead from the fifth question on. -/
def forgetfulEnv : StoreEnv :=
  { shippedEnv with clock := fun tick ↦ if tick < 5 then 0 else 2 * RESPONSE_TTL_MS }

/-- A turn, and two days later a turn that continues it. -/
def interrupted : List ChatEvent :=
  turnEvents none (js "r1") (js "a") (js "A") ++
    turnEvents (some (js "r1")) (js "r2") (js "b") (js "B")

/-- What is remembered of the first turn. -/
def firstEntry : ResidentInput where
  createdAt := 0
  clientThreadId := none
  providerOutputStart := some 1
  providers := none
  unforcedStoreFalse := false
  items := newItems (request none (js "a")) ++ outputItems (answer (js "r1") (js "A"))

/-- The text of its spill file. -/
def firstText : JsString := (serializedSpill shippedEnv (js "r1") firstEntry).getD []

/-- A disk with that file, and digests that tell texts apart. -/
def diskEnv : StoreEnv :=
  { shippedEnv with
    clock := fun _ ↦ 0
    sha256 := fun text ↦
      if text = firstText then List.replicate 64 0x61
      else if text = js "r1" then List.replicate 64 0x62
      else 0x7a :: text
    publish := fun _ ↦ some
      (js "r1.bbbbbbbbbbbb.aaaaaaaaaaaaaaaaaaaaaaaa.1." ++ decimal firstText.length ++
        js ".spill.json")
    readFile := fun _ _ ↦ .contents firstText }

theorem diskEnv_collisionFree : CollisionFree diskEnv := by
  intro tick fileName text id e written hread hwritten hsame
  obtain rfl : firstText = text := FileRead.contents.inj hread
  by_cases hfirst : written = firstText
  · exact hfirst.symm
  have hdigest : diskEnv.sha256 written =
      if written = js "r1" then List.replicate 64 0x62 else 0x7a :: written := if_neg hfirst
  have hleft : diskEnv.sha256 firstText = List.replicate 64 0x61 := by simp [diskEnv]
  rw [hleft, hdigest] at hsame
  split at hsame
  · nomatch hsame
  · exact absurd (List.cons.inj hsame).1 (by decide)

/-- A turn whose continuation is then demoted to a spill file. -/
def spilledRun : List ChatEvent := turnEvents none (js "r1") (js "a") (js "A") ++ [.other .evict]

end Responses
