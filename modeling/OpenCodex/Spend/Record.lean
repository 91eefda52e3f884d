import OpenCodex.Spend.Policy
import OpenCodex.Data.JsonDoc

/-!
# Journal records

One line of the journal is one record as JSON.  `JournalRecord.line` is what is written,
`parseSpendJournalRecord` what a line is read as: every field is checked, and a line that fails a
check is no record.  A record the ledger writes is read back as itself (`parse_line`) — the one
thing that has to be known of it is that it names at most three scopes, as requests do.

Times and token counts are whole numbers here; of a number in the file, the whole part is read.
-/

set_option autoImplicit false

open List

namespace Spend

/-- `opened` is admitted but not yet handed to a transport. -/
inductive ReservationStatus where
  | opened
  | dispatched
  | settled
  | lost
  | abandoned
  deriving DecidableEq

/-- May this send still be resolved? -/
def ReservationStatus.isLive : ReservationStatus → Bool
  | opened | dispatched => true
  | settled | lost | abandoned => false

/-- A scope in a checkpoint. -/
structure ScopeEntry where
  ref : ScopeRef
  settled : ℕ
  unresolved : ℕ
  seenAt : ℕ
  deriving DecidableEq

/-- A send in a checkpoint. -/
structure SendEntry where
  send : SpendAlias
  status : ReservationStatus
  targets : List ScopeRef
  tokens : ℕ
  bookedAt : ℕ
  resolvedAt : ℕ
  deriving DecidableEq

/-- A journal record; `time` is its `at`. -/
inductive JournalRecord where
  | reserve (send : SpendAlias) (targets : List ScopeRef) (tokens time : ℕ)
  | dispatch (send : SpendAlias) (time : ℕ)
  | settle (send : SpendAlias) (tokens time : ℕ)
  | lost (send : SpendAlias) (time : ℕ)
  | abandon (send : SpendAlias) (time : ℕ)
  | forget (send : SpendAlias) (time : ℕ)
  | drop (ref : ScopeRef) (time : ℕ)
  /-- The whole state, so that the file can be compacted. -/
  | checkpoint (time : ℕ) (scopes : List ScopeEntry) (sends : List SendEntry)
  deriving DecidableEq

/-! ## Writing -/

section Write

open Json

def SpendScope.text : SpendScope → JsString
  | .root => js "root"
  | .identity => js "identity"
  | .pool => js "pool"

def ReservationStatus.text : ReservationStatus → JsString
  | .opened => js "open"
  | .dispatched => js "dispatched"
  | .settled => js "settled"
  | .lost => js "lost"
  | .abandoned => js "abandoned"

def ScopeRef.doc (ref : ScopeRef) : Doc :=
  .obj [(js "scope", .str ref.scope.text), (js "alias", .str ref.name.units)]

def targetsDoc (targets : List ScopeRef) : Doc := .arr (targets.map ScopeRef.doc)

def ScopeEntry.doc (entry : ScopeEntry) : Doc :=
  .obj [(js "scope", .str entry.ref.scope.text), (js "alias", .str entry.ref.name.units),
    (js "settled", .nat entry.settled), (js "unresolved", .nat entry.unresolved),
    (js "seenAt", .nat entry.seenAt)]

def SendEntry.doc (entry : SendEntry) : Doc :=
  .obj [(js "send", .str entry.send.units), (js "status", .str entry.status.text),
    (js "targets", targetsDoc entry.targets), (js "tokens", .nat entry.tokens),
    (js "at", .nat entry.bookedAt), (js "resolvedAt", .nat entry.resolvedAt)]

/-- The members of a record after its version. -/
def JournalRecord.members : JournalRecord → List (JsString × Doc)
  | .reserve send targets tokens time =>
    [(js "kind", .str (js "reserve")), (js "send", .str send.units),
      (js "targets", targetsDoc targets), (js "tokens", .nat tokens), (js "at", .nat time)]
  | .dispatch send time =>
    [(js "kind", .str (js "dispatch")), (js "send", .str send.units), (js "at", .nat time)]
  | .settle send tokens time =>
    [(js "kind", .str (js "settle")), (js "send", .str send.units), (js "tokens", .nat tokens),
      (js "at", .nat time)]
  | .lost send time =>
    [(js "kind", .str (js "lost")), (js "send", .str send.units), (js "at", .nat time)]
  | .abandon send time =>
    [(js "kind", .str (js "abandon")), (js "send", .str send.units), (js "at", .nat time)]
  | .forget send time =>
    [(js "kind", .str (js "forget")), (js "send", .str send.units), (js "at", .nat time)]
  | .drop ref time =>
    [(js "kind", .str (js "drop")), (js "scope", .str ref.scope.text),
      (js "alias", .str ref.name.units), (js "at", .nat time)]
  | .checkpoint time scopes sends =>
    [(js "kind", .str (js "checkpoint")), (js "at", .nat time),
      (js "scopes", .arr (scopes.map ScopeEntry.doc)),
      (js "sends", .arr (sends.map SendEntry.doc))]

def JournalRecord.doc (record : JournalRecord) : Doc :=
  .obj ((js "v", .nat 1) :: record.members)

/-- The line of a record. -/
def JournalRecord.line (record : JournalRecord) : JsString := record.doc.render

end Write

/-! ## Reading -/

section Read

/-- A number that is not negative, as a count or a time. -/
def countable? : Option Json → Option ℕ
  | some (.num q) => if 0 ≤ q then some ⌊q⌋.toNat else none
  | _ => none

def alias? : Option Json → Option SpendAlias
  | some (.str s) => if h : s ≠ [] ∧ s.length ≤ 256 then some ⟨s, h.1, h.2⟩ else none
  | _ => none

def scopeName? : Option Json → Option SpendScope
  | some (.str s) =>
    if s = js "root" then some .root
    else if s = js "identity" then some .identity
    else if s = js "pool" then some .pool
    else none
  | _ => none

def status? : Option Json → Option ReservationStatus
  | some (.str s) =>
    if s = js "open" then some .opened
    else if s = js "dispatched" then some .dispatched
    else if s = js "settled" then some .settled
    else if s = js "lost" then some .lost
    else if s = js "abandoned" then some .abandoned
    else none
  | _ => none

/-- A scope as a target names it.  An array is an object without these properties. -/
def scopeRef? (entry : Json) : Option ScopeRef := do
  let scope ← scopeName? (entry.field? (js "scope"))
  let name ← alias? (entry.field? (js "alias"))
  return ⟨scope, name⟩

def parseTargets : Option Json → Option (List ScopeRef)
  | some (.arr entries) => if 3 < entries.length then none else entries.mapM scopeRef?
  | _ => none

def scopeEntry? (entry : Json) : Option ScopeEntry := do
  let ref ← scopeRef? entry
  let settled ← countable? (entry.field? (js "settled"))
  let unresolved ← countable? (entry.field? (js "unresolved"))
  let seenAt ← countable? (entry.field? (js "seenAt"))
  return ⟨ref, settled, unresolved, seenAt⟩

def sendEntry? (entry : Json) : Option SendEntry := do
  let targets ← parseTargets (entry.field? (js "targets"))
  let send ← alias? (entry.field? (js "send"))
  let status ← status? (entry.field? (js "status"))
  let tokens ← countable? (entry.field? (js "tokens"))
  let bookedAt ← countable? (entry.field? (js "at"))
  let resolvedAt ← countable? (entry.field? (js "resolvedAt"))
  return ⟨send, status, targets, tokens, bookedAt, resolvedAt⟩

def entries? : Option Json → Option (List Json)
  | some (.arr entries) => some entries
  | _ => none

/-- The record of a kind, from an object whose version and time were checked. -/
def recordOfKind? (record : Json) (time : ℕ) (kind : JsString) : Option JournalRecord :=
  let send := alias? (record.field? (js "send"))
  if kind = js "reserve" then do
    let targets ← parseTargets (record.field? (js "targets"))
    return .reserve (← send) targets (← countable? (record.field? (js "tokens"))) time
  else if kind = js "settle" then do
    return .settle (← send) (← countable? (record.field? (js "tokens"))) time
  else if kind = js "dispatch" then send.map (.dispatch · time)
  else if kind = js "lost" then send.map (.lost · time)
  else if kind = js "abandon" then send.map (.abandon · time)
  else if kind = js "forget" then send.map (.forget · time)
  else if kind = js "drop" then (scopeRef? record).map (.drop · time)
  else if kind = js "checkpoint" then do
    let scopes ← entries? (record.field? (js "scopes"))
    let sends ← entries? (record.field? (js "sends"))
    return .checkpoint time (← scopes.mapM scopeEntry?) (← sends.mapM sendEntry?)
  else none

/-- The record of a JSON value. -/
def record? (raw : Json) : Option JournalRecord :=
  match raw.field? (js "v"), countable? (raw.field? (js "at")), raw.field? (js "kind") with
  | some (.num v), some time, some (.str kind) =>
    if v = 1 then recordOfKind? raw time kind else none
  | _, _, _ => none

/-- Validate one journal line into a record, or reject it. -/
def parseSpendJournalRecord (line : JsString) : Option JournalRecord :=
  (Json.parse line).bind record?

end Read

/-! ## Reading a line back -/

section RoundTrip

open Json

/-- No reservation names more than three scopes. -/
def JournalRecord.Fits : JournalRecord → Prop
  | .reserve _ targets _ _ => targets.length ≤ 3
  | .checkpoint _ _ sends => ∀ entry ∈ sends, entry.targets.length ≤ 3
  | _ => True

theorem itemsToJson_eq_map (items : List Doc) : itemsToJson items = items.map Doc.toJson := by
  induction items with
  | nil => rw [itemsToJson, map_nil]
  | cons item items ih => rw [itemsToJson, map_cons, ih]

theorem countable?_nat (n : ℕ) : countable? (some (.num n)) = some n := by
  rw [countable?, if_pos (Nat.cast_nonneg n), Int.floor_natCast, Int.toNat_natCast]

theorem alias?_units (name : SpendAlias) : alias? (some (.str name.units)) = some name := by
  rw [alias?, dif_pos ⟨name.nonempty, name.short⟩]

theorem scopeName?_text (scope : SpendScope) : scopeName? (some (.str scope.text)) = some scope := by
  cases scope <;> rfl

theorem status?_text (status : ReservationStatus) :
    status? (some (.str status.text)) = some status := by
  cases status <;> rfl

theorem mapM_docs {α : Type} {read : Json → Option α} {doc : α → Doc} {l : List α}
    (h : ∀ a ∈ l, read (doc a).toJson = some a) : (itemsToJson (l.map doc)).mapM read = some l := by
  rw [itemsToJson_eq_map, List.map_map]
  induction l with
  | nil => rfl
  | cons a l ih =>
    rw [map_cons, mapM_cons, Function.comp_apply, h a mem_cons_self,
      ih fun b hb ↦ h b (mem_cons_of_mem a hb)]
    rfl

variable {raw : Json}

theorem scopeRef?_eq (ref : ScopeRef)
    (hscope : raw.field? (js "scope") = some (.str ref.scope.text))
    (hname : raw.field? (js "alias") = some (.str ref.name.units)) : scopeRef? raw = some ref := by
  rw [scopeRef?, hscope, hname, scopeName?_text, alias?_units]
  rfl

theorem scopeRef?_doc (ref : ScopeRef) : scopeRef? ref.doc.toJson = some ref := by
  refine scopeRef?_eq ref ?_ ?_
  · simp only [ScopeRef.doc, Doc.toJson, membersToJson]
    rfl
  · simp only [ScopeRef.doc, Doc.toJson, membersToJson]
    rfl

theorem parseTargets_doc {targets : List ScopeRef} (h : targets.length ≤ 3) :
    parseTargets (some (targetsDoc targets).toJson) = some targets := by
  have hlength : (itemsToJson (targets.map ScopeRef.doc)).length = targets.length := by
    rw [itemsToJson_eq_map, length_map, length_map]
  rw [targetsDoc, Doc.toJson, parseTargets, if_neg (by omega), mapM_docs fun ref _ ↦ scopeRef?_doc ref]

theorem scopeEntry?_doc (entry : ScopeEntry) : scopeEntry? entry.doc.toJson = some entry := by
  have hread : entry.doc.toJson = .obj [(js "scope", .str entry.ref.scope.text),
      (js "alias", .str entry.ref.name.units), (js "settled", .num entry.settled),
      (js "unresolved", .num entry.unresolved), (js "seenAt", .num entry.seenAt)] := by
    simp only [ScopeEntry.doc, Doc.toJson, membersToJson]
  rw [hread, scopeEntry?, scopeRef?_eq entry.ref rfl rfl]
  show (do
    let settled ← countable? (some (.num entry.settled))
    let unresolved ← countable? (some (.num entry.unresolved))
    let seenAt ← countable? (some (.num entry.seenAt))
    return ScopeEntry.mk entry.ref settled unresolved seenAt) = _
  rw [countable?_nat, countable?_nat, countable?_nat]
  rfl

theorem sendEntry?_doc {entry : SendEntry} (h : entry.targets.length ≤ 3) :
    sendEntry? entry.doc.toJson = some entry := by
  have hread : entry.doc.toJson = .obj [(js "send", .str entry.send.units),
      (js "status", .str entry.status.text), (js "targets", (targetsDoc entry.targets).toJson),
      (js "tokens", .num entry.tokens), (js "at", .num entry.bookedAt),
      (js "resolvedAt", .num entry.resolvedAt)] := by
    simp only [SendEntry.doc, Doc.toJson, membersToJson]
  show (do
    let targets ← parseTargets (some (targetsDoc entry.targets).toJson)
    let send ← alias? (some (.str entry.send.units))
    let status ← status? (some (.str entry.status.text))
    let tokens ← countable? (some (.num entry.tokens))
    let bookedAt ← countable? (some (.num entry.bookedAt))
    let resolvedAt ← countable? (some (.num entry.resolvedAt))
    return SendEntry.mk send status targets tokens bookedAt resolvedAt) = _
  rw [parseTargets_doc h, alias?_units, status?_text, countable?_nat, countable?_nat,
    countable?_nat]
  rfl

variable {time : ℕ} {kind : JsString}

theorem record?_eq (hv : raw.field? (js "v") = some (.num 1))
    (htime : raw.field? (js "at") = some (.num time))
    (hkind : raw.field? (js "kind") = some (.str kind)) :
    record? raw = recordOfKind? raw time kind := by
  rw [record?, hv, htime, hkind, countable?_nat]
  exact if_pos rfl

theorem record?_send {send : SpendAlias} (hv : raw.field? (js "v") = some (.num 1))
    (htime : raw.field? (js "at") = some (.num time))
    (hkind : raw.field? (js "kind") = some (.str kind))
    (hsend : raw.field? (js "send") = some (.str send.units))
    {make : SpendAlias → ℕ → JournalRecord}
    (hmake : recordOfKind? raw time kind = (alias? (raw.field? (js "send"))).map (make · time)) :
    record? raw = some (make send time) := by
  rw [record?_eq hv htime hkind, hmake, hsend, alias?_units]
  rfl

variable {record : JournalRecord}

theorem record?_doc (h : record.Fits) : record? record.doc.toJson = some record := by
  have hdoc : record.doc.toJson = .obj ((js "v", .num 1) :: membersToJson record.members) := by
    rw [JournalRecord.doc, Doc.toJson, membersToJson, Doc.toJson, Nat.cast_one]
  rw [hdoc]
  cases record with
  | reserve send targets tokens time =>
    rw [record?_eq rfl rfl rfl]
    show (do
      let targets ← parseTargets (some (targetsDoc targets).toJson)
      return JournalRecord.reserve (← alias? (some (.str send.units))) targets
        (← countable? (some (.num tokens))) time) = _
    rw [parseTargets_doc h, alias?_units, countable?_nat]
    rfl
  | settle send tokens time =>
    rw [record?_eq rfl rfl rfl]
    show (do
      return JournalRecord.settle (← alias? (some (.str send.units)))
        (← countable? (some (.num tokens))) time) = _
    rw [alias?_units, countable?_nat]
    rfl
  | dispatch send time | lost send time | abandon send time | forget send time =>
    exact record?_send rfl rfl rfl rfl rfl
  | drop ref time =>
    rw [record?_eq rfl rfl rfl]
    show (scopeRef? _).map (JournalRecord.drop · time) = _
    rw [scopeRef?_eq ref rfl rfl]
    rfl
  | checkpoint time scopes sends =>
    rw [record?_eq rfl rfl rfl]
    show (do
      return JournalRecord.checkpoint time
        (← (itemsToJson (scopes.map ScopeEntry.doc)).mapM scopeEntry?)
        (← (itemsToJson (sends.map SendEntry.doc)).mapM sendEntry?)) = _
    rw [mapM_docs fun entry _ ↦ scopeEntry?_doc entry,
      mapM_docs fun entry he ↦ sendEntry?_doc (h entry he)]
    rfl

/-- **A line of the journal is read as the record it was written for.** -/
theorem parse_line (h : record.Fits) : parseSpendJournalRecord record.line = some record := by
  rw [parseSpendJournalRecord, JournalRecord.line, parse_render, Option.bind_some, record?_doc h]

end RoundTrip

end Spend
