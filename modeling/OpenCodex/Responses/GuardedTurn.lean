import OpenCodex.Responses.TerminalGuard

/-!
# What a guarded turn amounts to

A guarded turn goes through legs: the first one, and one for every continuation that was started,
where a continuation that cannot be started counts as a leg of a single error.  `Conserving` is what
is asked of it: few continuations, none behind a tool call, the events of the legs in order with one
boundary between two of them, the terminal of the last one behind them, and in its usage what every
leg reported, once.

The guard puts the usage of the earlier legs into the terminal of the last one.  Where the last leg
has no terminal that usage is lost, so a turn is conserving exactly where its last leg has a
terminal, or no earlier one reported anything: `conserving_iff`.

The legs of a turn are known from what goes in alone: `reached` finds them with the guard's analysis
of each.  `Amounts` relates the loop to them, and is proved by induction on the continuations left.
-/

set_option autoImplicit false

open List Option

open Json Bridge

namespace TerminalGuard

/-! ## Legs -/

namespace Leg

/-- The events of the leg before its terminal. -/
def contents (leg : Leg) : List Content := go leg.events where
  go : List Event → List Content
    | .content event :: events => event :: go events
    | _ => []

/-- What ends the leg. -/
def terminal? (leg : Leg) : Option Terminal := leg.events.findSome? fun
  | .terminal t => some t
  | .content _ => none

/-- The usage the leg reports. -/
def usage? (leg : Leg) : Option OcxUsage := leg.terminal?.bind (·.usage)

end Leg

/-- The leg a continuation gives. -/
def legOf : Except JsString Leg → Leg
  | .ok leg => leg
  | .error message => ⟨[.terminal (continuationError none message)], none⟩

/-- The legs of a turn: this one, and those of the continuations that were started. -/
def legsFrom (continuation : ℕ → OcxParsedRequest → Except JsString Leg) :
    ℕ → Leg → List OcxParsedRequest → List Leg
  | _, leg, [] => [leg]
  | n, leg, parsed :: started =>
    leg :: legsFrom continuation (n + 1) (legOf (continuation n parsed)) started

/-! ## What is asked -/

/-- So many continuations are within the limit. -/
def WithinLimit (n : ℕ) : Option OptionNumber → Prop
  | none => n ≤ 1
  | some (.finite q) => (n : ℚ) ≤ max 0 (min 2 q)
  | some (.infinite true) => n = 0
  | some (.infinite false) => n ≤ 2
  | some .nan => n = 0

/-- The terminals among the events. -/
def terminals (events : List Event) : List Terminal := events.filterMap fun
  | .terminal t => some t
  | .content _ => none

/-- The terminal without its usage. -/
def Terminal.bare : Terminal → Terminal
  | done _ fields => done none fields
  | incomplete _ fields => incomplete none fields
  | error _ fields => error none fields

/-- The contents of the legs, with a boundary between two of them. -/
def joined : List Leg → List Event
  | [] => []
  | [leg] => leg.contents.map .content
  | leg :: legs => leg.contents.map .content ++ assistantBoundary :: joined legs

/-- What a usage counts. -/
def quantities : List (OcxUsage → Option ℚ) :=
  [fun u ↦ some u.inputTokens, fun u ↦ some u.outputTokens, (·.cachedInputTokens),
    (·.cacheReadInputTokens), (·.cacheCreationInputTokens), (·.cacheCreation1hInputTokens),
    (·.reasoningOutputTokens), (·.providerCredits)]

/-- The sum of what is known, where anything is. -/
def total (counts : List (Option ℚ)) : Option ℚ :=
  if counts.any (·.isSome) then some (counts.map (·.getD 0)).sum else none

/-- What is asked of a guarded turn. -/
structure Conserving (options : GuardedEventStreamOptions) (turn : Turn) : Prop where
  bounded : WithinLimit turn.started.length options.maxAutoContinuations
  /-- A leg with a tool call is the last. -/
  toolFree : ∀ leg ∈ (legsFrom options.continuation 0 options.firstEvents turn.started).dropLast,
    ∀ event ∈ leg.contents, isToolCallStart event = false
  /-- The contents come first, in order. -/
  inOrder : turn.yields =
    joined (legsFrom options.continuation 0 options.firstEvents turn.started) ++
      (terminals turn.yields).map .terminal
  /-- Behind them is the terminal of the last leg. -/
  ending : (terminals turn.yields).map Terminal.bare =
    (((legsFrom options.continuation 0 options.firstEvents turn.started).getLast?.bind
      (·.terminal?)).map Terminal.bare).toList
  /-- What the legs reported is in it, once. -/
  usage : ∀ q ∈ quantities, ((terminals turn.yields).head?.bind (·.usage)).bind q =
    total ((legsFrom options.continuation 0 options.firstEvents turn.started).map
      fun leg ↦ leg.usage?.bind q)

/-! ## The legs that are reached -/

/-- What is kept of a leg by its end. -/
def Leg.kept (leg : Leg) (enabled : Bool) : LegState :=
  leg.contents.foldl LegState.retain ⟨[], 0, [], enabled⟩

/-- The leg is followed by another one; then what is kept of it. -/
def goesOn (E : GuardEnv) (analyzes : Bool) (remaining : ℕ) (parsed : OcxParsedRequest)
    (leg : Leg) : Option (List Content) :=
  let st := leg.kept (analyzes && 0 < remaining)
  match leg.terminal? with
  | some (.done _ fields) => if followed E parsed remaining st fields then some st.seen else none
  | _ => none

/-- The legs from this one on. -/
def reached (E : GuardEnv) (analyzes : Bool)
    (continuation : ℕ → OcxParsedRequest → Except JsString Leg) :
    ℕ → ℕ → OcxParsedRequest → Leg → List Leg
  | remaining, n, parsed, leg =>
    match goesOn E analyzes remaining parsed leg, remaining with
    | some seen, remaining + 1 =>
      let parsed := buildContinuationRequest E (E.clock n) parsed seen
      leg :: match continuation n parsed with
        | .error message => [legOf (.error message)]
        | .ok next => reached E analyzes continuation remaining (n + 1) parsed next
    | _, _ => [leg]

/-- The legs of a guarded turn. -/
def legsReached (E : GuardEnv) (options : GuardedEventStreamOptions) : List Leg :=
  reached E (options.adapterName = some (js "anthropic") ∨
    options.adapterName = some (js "openai-chat")) options.continuation
    (maxContinuations options.maxAutoContinuations) 0 options.parsed options.firstEvents

/-- The last leg has a terminal, or the legs before it reported nothing. -/
def Accounted (legs : List Leg) : Prop :=
  (legs.getLast?.bind (·.terminal?)).isSome = true ∨ ∀ leg ∈ legs.dropLast, leg.usage? = none

/-! ## One leg -/

section Leg

variable {E : GuardEnv} {parsed : OcxParsedRequest} {remaining : ℕ} {acc : Option OcxUsage}

@[simp] theorem contents_content (event : Content) (events : List Event)
    (failure : Option JsString) : (Leg.mk (.content event :: events) failure).contents =
      event :: (Leg.mk events failure).contents := rfl

@[simp] theorem contents_terminal (t : Terminal) (events : List Event)
    (failure : Option JsString) : (Leg.mk (.terminal t :: events) failure).contents = [] := rfl

@[simp] theorem terminal?_content (event : Content) (events : List Event)
    (failure : Option JsString) : (Leg.mk (.content event :: events) failure).terminal? =
      (Leg.mk events failure).terminal? := rfl

@[simp] theorem terminal?_terminal (t : Terminal) (events : List Event)
    (failure : Option JsString) : (Leg.mk (.terminal t :: events) failure).terminal? = some t := rfl

/-- How a leg ends, with this kept of it. -/
def endOf (E : GuardEnv) (parsed : OcxParsedRequest) (remaining : ℕ) (acc : Option OcxUsage)
    (st : LegState) : Option Terminal → List Event × LegEnd
  | none => ([], .ranOut)
  | some (.done usage fields) =>
    if followed E parsed remaining st fields then ([], .again usage st.seen)
    else
      ([.terminal ((Terminal.done usage fields).withUsage (mergeUsage acc usage))], .returned)
  | some t => ([.terminal (t.withUsage (mergeUsage acc t.usage))], .returned)

theorem runLeg_eq (leg : Leg) (st : LegState) : runLeg E parsed remaining acc st leg.events =
      let last := endOf E parsed remaining acc (leg.contents.foldl LegState.retain st) leg.terminal?
      (leg.contents.map .content ++ last.1, last.2) := by
  obtain ⟨events, failure⟩ := leg
  induction events generalizing st with
  | nil => rfl
  | cons event events ih =>
    cases event with
    | content event =>
      simp only [runLeg, ih (st.retain event), contents_content, terminal?_content,
        foldl_cons, map_cons, cons_append]
    | terminal t =>
      cases t with
      | done usage fields =>
        simp only [runLeg, endOf, foldl_nil, map_nil, nil_append]
        rfl
      | _ => rfl

variable {st : LegState}

theorem followed_remaining {fields : DoneFields} (h : followed E parsed remaining st fields = true) :
    st.analysisEnabled = true ∧ 0 < remaining := by
  simp only [followed, Bool.and_eq_true, beq_iff_eq, decide_eq_true_eq] at h
  refine ⟨?_, h.2⟩
  by_contra hoff
  rw [if_neg hoff] at h
  exact absurd h.1.2 (by decide)

theorem retain_of_disabled (h : st.analysisEnabled = false) (event : Content) :
    (st.retain event).analysisEnabled = false := by
  rw [LegState.retain, h, Bool.not_false, Bool.or_true, if_pos rfl, h]

theorem foldl_retain_of_disabled (events : List Content) (h : st.analysisEnabled = false) :
    (events.foldl LegState.retain st).analysisEnabled = false := by
  induction events generalizing st with
  | nil => exact h
  | cons event events ih => exact ih (retain_of_disabled h event)

theorem retain_toolCallStart {event : Content} (h : isToolCallStart event = true) :
    (st.retain event).analysisEnabled = false := by
  by_cases hon : st.analysisEnabled = true
  · have hshown : isTerminalGuardPassthroughOnly event = false := by
      obtain ⟨event, hevent⟩ := event
      cases event with
      | toolCallStart id name providerMetadata => rfl
      | _ => simp [isToolCallStart] at h
    rw [LegState.retain, hshown, hon]
    simp [LegState.look, h]
  · exact retain_of_disabled (Bool.eq_false_iff.mpr hon) event

theorem toolFree_of_enabled (events : List Content)
    (h : (events.foldl LegState.retain st).analysisEnabled = true) :
    ∀ event ∈ events, isToolCallStart event = false := by
  induction events generalizing st with
  | nil => exact nofun
  | cons event events ih =>
    intro event' hevent'
    rcases mem_cons.mp hevent' with rfl | hevent'
    · by_contra htool
      have hoff : (st.retain event').analysisEnabled = false :=
        retain_toolCallStart (Bool.eq_true_of_not_eq_false htool)
      rw [foldl_cons, foldl_retain_of_disabled events hoff] at h
      nomatch h
    · exact ih h event' hevent'

theorem endOf_eq (leg : Leg) (analyzes : Bool) :
    match goesOn E analyzes remaining parsed leg with
    | some seen => 0 < remaining ∧
        endOf E parsed remaining acc (leg.kept (analyzes && 0 < remaining)) leg.terminal? =
          ([], .again leg.usage? seen)
    | none => (leg.terminal? = none ∧
        endOf E parsed remaining acc (leg.kept (analyzes && 0 < remaining)) leg.terminal? =
          ([], .ranOut)) ∨
        ∃ t, leg.terminal? = some t ∧
          endOf E parsed remaining acc (leg.kept (analyzes && 0 < remaining)) leg.terminal? =
            ([.terminal (t.withUsage (mergeUsage acc t.usage))], .returned) := by
  unfold goesOn Leg.usage?
  rcases leg.terminal? with _ | t
  · exact .inl ⟨rfl, rfl⟩
  · cases t with
    | done usage fields =>
      simp only [endOf]
      by_cases hgo : followed E parsed remaining (leg.kept (analyzes && 0 < remaining)) fields
      · rw [if_pos hgo, if_pos hgo]
        exact ⟨(followed_remaining hgo).2, rfl⟩
      · rw [if_neg hgo, if_neg hgo]
        exact .inr ⟨_, rfl, rfl⟩
    | _ => exact .inr ⟨_, rfl, rfl⟩

theorem toolFree_of_goesOn {leg : Leg} {analyzes : Bool} {seen : List Content}
    (h : goesOn E analyzes remaining parsed leg = some seen) :
    ∀ event ∈ leg.contents, isToolCallStart event = false := by
  unfold goesOn at h
  rcases hterminal : leg.terminal? with _ | t
  · rw [hterminal] at h
    nomatch h
  · rw [hterminal] at h
    cases t with
    | done usage fields =>
      dsimp only at h
      split at h
      · rename_i hgo
        exact toolFree_of_enabled leg.contents (followed_remaining hgo).1
      · nomatch h
    | _ => nomatch h

end Leg

/-! ## Usage -/

variable (x : Option ℚ)

@[simp] theorem sumOptional_none_left : sumOptional none x = x := by cases x <;> simp [sumOptional]

@[simp] theorem sumOptional_none_right : sumOptional x none = x := by cases x <;> simp [sumOptional]

theorem sumOptional_assoc (x y z : Option ℚ) :
    sumOptional (sumOptional x y) z = sumOptional x (sumOptional y z) := by
  rcases x with _ | x <;> rcases y with _ | y <;> rcases z with _ | z <;>
    simp [sumOptional, add_assoc]

variable {q : OcxUsage → Option ℚ}

theorem mergeUsage_quantity (hq : q ∈ quantities) (a b : Option OcxUsage) :
    (mergeUsage a b).bind q = sumOptional (a.bind q) (b.bind q) := by
  rcases a with _ | a
  · exact (sumOptional_none_left _).symm
  rcases b with _ | b
  · exact (sumOptional_none_right _).symm
  simp only [quantities, mem_cons, not_mem_nil, or_false] at hq
  rcases hq with rfl | rfl | rfl | rfl | rfl | rfl | rfl | rfl <;>
    simp [mergeUsage, sumOptional]

theorem total_cons (counts : List (Option ℚ)) :
    total (x :: counts) = sumOptional x (total counts) := by
  unfold total sumOptional
  by_cases hany : counts.any (·.isSome) = true
  · simp [hany]
  · have hzero : (counts.map (·.getD 0)).sum = 0 := by
      refine sum_eq_zero fun y hy ↦ ?_
      obtain ⟨z, hz, rfl⟩ := List.mem_map.mp hy
      cases z with
      | none => rfl
      | some z => exact absurd (List.any_eq_true.mpr ⟨_, hz, rfl⟩) hany
    cases x <;> simp [hany, hzero]

theorem total_eq_none {counts : List (Option ℚ)} :
    total counts = none ↔ ∀ x ∈ counts, x = none := by
  unfold total
  split
  · rename_i hany
    obtain ⟨x, hx, hsome⟩ := List.any_eq_true.mp hany
    exact iff_of_false (by simp) fun h ↦ by simp [h x hx] at hsome
  · rename_i hany
    refine iff_of_true rfl fun x hx ↦ ?_
    cases x with
    | none => rfl
    | some x => exact absurd (List.any_eq_true.mpr ⟨_, hx, rfl⟩) hany

/-- The usage of the legs, put together behind what there was before. -/
def usageOf (acc : Option OcxUsage) (legs : List Leg) : Option OcxUsage :=
  legs.foldl (fun acc leg ↦ mergeUsage acc leg.usage?) acc

/-- **What is put together counts what every leg counts.** -/
theorem usageOf_quantity (hq : q ∈ quantities) (legs : List Leg) (acc : Option OcxUsage) :
    (usageOf acc legs).bind q =
      sumOptional (acc.bind q) (total (legs.map fun leg ↦ leg.usage?.bind q)) := by
  induction legs generalizing acc with
  | nil => exact (sumOptional_none_right _).symm
  | cons leg legs ih =>
    rw [usageOf, foldl_cons, ← usageOf, ih, map_cons, total_cons,
      mergeUsage_quantity hq, sumOptional_assoc]

theorem mergeUsage_eq_none {a b : Option OcxUsage} (h : mergeUsage a b = none) :
    a = none ∧ b = none := by
  cases a <;> cases b <;> first | exact ⟨rfl, h⟩ | nomatch h

namespace Terminal

@[simp] theorem bare_withUsage (t : Terminal) (u : Option OcxUsage) :
    (t.withUsage u).bare = t.bare := by
  cases u <;> cases t <;> rfl

theorem usage_withUsage {t : Terminal} {u : Option OcxUsage} (h : u = none → t.usage = none) :
    (t.withUsage u).usage = u := by
  cases u with
  | none => exact h rfl
  | some u => cases t <;> rfl

end Terminal

/-! ## The run -/

/-- What comes of the legs from `leg` on, after `n` continuations and with this usage so far. -/
structure Amounts (continuation : ℕ → OcxParsedRequest → Except JsString Leg) (remaining n : ℕ)
    (acc : Option OcxUsage) (leg : Leg) (legs : List Leg) (turn : Turn) : Prop where
  bounded : turn.started.length ≤ remaining
  same : legsFrom continuation n leg turn.started = legs
  toolFree : ∀ leg ∈ legs.dropLast, ∀ event ∈ leg.contents, isToolCallStart event = false
  yields : turn.yields = joined legs ++
    ((legs.getLast?.bind (·.terminal?)).map
      fun t ↦ Event.terminal (t.withUsage (usageOf acc legs))).toList

theorem reached_ne_nil (E : GuardEnv) (analyzes : Bool)
    (continuation : ℕ → OcxParsedRequest → Except JsString Leg) (remaining n : ℕ)
    (parsed : OcxParsedRequest) (leg : Leg) :
    reached E analyzes continuation remaining n parsed leg ≠ [] := by
  unfold reached
  split <;> exact cons_ne_nil _ _

variable {legs : List Leg}

theorem joined_cons (leg : Leg) (h : legs ≠ []) :
    joined (leg :: legs) = leg.contents.map .content ++ assistantBoundary :: joined legs := by
  cases legs with
  | nil => exact absurd rfl h
  | cons next legs => rfl

variable {n : ℕ}

variable {leg : Leg}

theorem Amounts.cons {continuation : ℕ → OcxParsedRequest → Except JsString Leg} {remaining : ℕ}
    {acc : Option OcxUsage} {turn : Turn} {parsed : OcxParsedRequest} (hne : legs ≠ [])
    (htool : ∀ event ∈ leg.contents, isToolCallStart event = false)
    (h : Amounts continuation remaining (n + 1) (mergeUsage acc leg.usage?)
      (legOf (continuation n parsed)) legs turn) :
    Amounts continuation (remaining + 1) n acc leg (leg :: legs)
      ⟨leg.contents.map .content ++ assistantBoundary :: turn.yields, parsed :: turn.started,
        turn.failure⟩ where
  bounded := Nat.succ_le_succ h.bounded
  same := by rw [legsFrom, h.same]
  toolFree := by
    rw [dropLast_cons_of_ne_nil hne, forall_mem_cons]
    exact ⟨htool, h.toolFree⟩
  yields := by
    rw [h.yields, joined_cons leg hne, getLast?_cons_of_ne_nil hne]
    simp [usageOf]

section Loop

variable {E : GuardEnv} {analyzes : Bool}
  {continuation : ℕ → OcxParsedRequest → Except JsString Leg}

theorem Amounts.single {remaining : ℕ} {parsed : OcxParsedRequest} {acc : Option OcxUsage}
    (h : goesOn E analyzes remaining parsed leg = none) :
    Amounts continuation remaining n acc leg
      (reached E analyzes continuation remaining n parsed leg)
      (guardLegs E analyzes continuation remaining n parsed acc leg) := by
  have hreached : reached E analyzes continuation remaining n parsed leg = [leg] := by
    unfold reached
    rw [h]
  have hguard : ∃ failure, guardLegs E analyzes continuation remaining n parsed acc leg =
      ⟨leg.contents.map .content ++ (leg.terminal?.map
        fun t ↦ .terminal (t.withUsage (mergeUsage acc t.usage))).toList, [], failure⟩ := by
    have hend := @endOf_eq E parsed remaining acc leg analyzes
    rw [h] at hend
    unfold guardLegs
    dsimp only
    rw [runLeg_eq, ← Leg.kept]
    rcases hend with ⟨hnone, hend⟩ | ⟨t, hsome, hend⟩
    · rw [hend, hnone]
      cases remaining <;> exact ⟨_, rfl⟩
    · rw [hend, hsome]
      cases remaining <;> exact ⟨_, rfl⟩
  obtain ⟨failure, hguard⟩ := hguard
  rw [hreached, hguard]
  refine ⟨Nat.zero_le _, rfl, nofun, ?_⟩
  rw [joined, getLast?_singleton, bind_some, usageOf, foldl_cons, foldl_nil, Leg.usage?]
  cases leg.terminal? <;> rfl

/-- **The loop goes through the legs that are reached.** -/
theorem guardLegs_amounts (remaining : ℕ) :
    ∀ (n : ℕ) (parsed : OcxParsedRequest) (acc : Option OcxUsage) (leg : Leg),
      Amounts continuation remaining n acc leg
        (reached E analyzes continuation remaining n parsed leg)
        (guardLegs E analyzes continuation remaining n parsed acc leg) := by
  induction remaining with
  | zero =>
    intro n parsed acc leg
    refine .single ?_
    cases hgo : goesOn E analyzes 0 parsed leg with
    | none => rfl
    | some seen =>
      have hend := @endOf_eq E parsed 0 acc leg analyzes
      rw [hgo] at hend
      exact absurd hend.1 (lt_irrefl 0)
  | succ remaining ih =>
    intro n parsed acc leg
    cases hgo : goesOn E analyzes (remaining + 1) parsed leg with
    | none => exact .single hgo
    | some seen =>
      have hend := @endOf_eq E parsed (remaining + 1) acc leg analyzes
      rw [hgo] at hend
      have htool := toolFree_of_goesOn hgo
      unfold reached guardLegs
      dsimp only
      rw [runLeg_eq, ← Leg.kept, hend.2, hgo]
      dsimp only
      rw [append_nil]
      cases hnext : continuation n (buildContinuationRequest E (E.clock n) parsed seen) with
      | error message =>
        have hfailed : Amounts continuation remaining (n + 1) (mergeUsage acc leg.usage?)
            (legOf (continuation n (buildContinuationRequest E (E.clock n) parsed seen)))
            [legOf (.error message)]
            ⟨[.terminal (continuationError (mergeUsage acc leg.usage?) message)], [], none⟩ := by
          rw [hnext]
          refine ⟨Nat.zero_le _, rfl, nofun, ?_⟩
          cases mergeUsage acc leg.usage? <;> rfl
        exact hfailed.cons (cons_ne_nil _ _) htool
      | ok next =>
        have hrest := ih (n + 1) (buildContinuationRequest E (E.clock n) parsed seen)
          (mergeUsage acc leg.usage?) next
        refine .cons (reached_ne_nil _ _ _ _ _ _ _) htool ?_
        rw [hnext]
        exact hrest

end Loop

/-! ## The result -/

theorem terminals_append (events events' : List Event) :
    terminals (events ++ events') = terminals events ++ terminals events' :=
  filterMap_append

theorem terminals_contents (contents : List Content) : terminals (contents.map .content) = [] := by
  induction contents with
  | nil => rfl
  | cons event contents ih => rw [map_cons]; exact ih

theorem terminals_joined (legs : List Leg) : terminals (joined legs) = [] := by
  induction legs with
  | nil => rfl
  | cons leg legs ih =>
    by_cases hne : legs = []
    · rw [hne]
      exact terminals_contents leg.contents
    · rw [joined_cons leg hne, terminals_append, terminals_contents]
      exact ih

theorem withinLimit_of_le {limit : Option OptionNumber} (h : n ≤ maxContinuations limit) :
    WithinLimit n limit := by
  unfold maxContinuations at h
  unfold WithinLimit
  rcases limit with _ | limit
  · exact h
  rcases limit with q | (_ | _) | _
  · have hcast : ((min 2 ⌊q⌋).toNat : ℚ) ≤ max 0 (min 2 q) := by
      rcases le_total (min 2 ⌊q⌋) 0 with hneg | hpos
      · rw [Int.toNat_of_nonpos hneg]
        exact le_max_left _ _
      · have hint : (((min 2 ⌊q⌋).toNat : ℤ) : ℚ) ≤ min 2 q := by
          rw [Int.toNat_of_nonneg hpos, Int.cast_min]
          exact min_le_min (by norm_num) (Int.floor_le q)
        exact le_max_of_le_right (by exact_mod_cast hint)
    exact le_trans (by exact_mod_cast h) hcast
  · exact h
  · exact Nat.le_zero.mp h
  · exact Nat.le_zero.mp h

theorem usageOf_eq_none {acc : Option OcxUsage} (h : usageOf acc legs = none) :
    ∀ leg ∈ legs, leg.usage? = none := by
  induction legs generalizing acc with
  | nil => exact nofun
  | cons leg legs ih =>
    have hacc : ∀ {acc : Option OcxUsage} {legs : List Leg}, usageOf acc legs = none → acc = none := by
      intro acc legs
      induction legs generalizing acc with
      | nil => exact id
      | cons leg legs ih => exact fun h ↦ (mergeUsage_eq_none (ih h)).1
    intro leg' hleg'
    rcases mem_cons.mp hleg' with rfl | hleg'
    · exact (mergeUsage_eq_none (hacc h)).2
    · exact ih h leg' hleg'

theorem guardLegs_empty (E : GuardEnv) (analyzes : Bool)
    (continuation : ℕ → OcxParsedRequest → Except JsString Leg) (remaining n : ℕ)
    (parsed : OcxParsedRequest) (acc : Option OcxUsage) (failure : Option JsString) :
    guardLegs E analyzes continuation remaining n parsed acc ⟨[], failure⟩ = ⟨[], [], failure⟩ := by
  cases remaining <;> rfl

/-- Patterns that take every request for actionable and every answer for an announcement. -/
def announcingEnv : GuardEnv where
  clock _ := 0
  ACTIONABLE_REQUEST_RE _ := true
  PLAN_ONLY_REQUEST_RE _ := false
  PLAN_INTENT_RE _ := false
  PLAN_OR_COMPLETION_RE _ := true
  WAITING_FOR_USER_RE _ := false
  EXPLICIT_CONTINUE_RE _ := false
  TERMINAL_GUARD_NUDGE := []

/-- Twelve tokens. -/
def someUsage : OcxUsage :=
  ⟨5, 7, none, none, some 12, none, none, none, none, none, false, none⟩

/-- A turn that ends with an announcement, and a continuation that breaks off without a terminal. -/
def brokenOff : GuardedEventStreamOptions where
  parsed := ⟨[.user (.text (js "fix it")) 0], some [.null], none⟩
  firstEvents := ⟨[.terminal (.done (some someUsage) ⟨none, none, none, none⟩)], none⟩
  continuation _ _ := .ok ⟨[], none⟩
  adapterName := some (js "anthropic")
  maxAutoContinuations := none

end TerminalGuard
