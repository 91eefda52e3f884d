import OpenCodex.Data.OMap
import OpenCodex.Data.Json
import Mathlib.Data.Rat.Floor

/-!
# Spend scopes, policies and pools

The spend ledger accounts tokens at three scopes at once: the root workflow, the authenticated
identity and the account pool.  It knows a scope by a salted alias only; the hash that makes the
alias is a parameter of everything here.

A policy may give each scope a ceiling, and says how long a dormant scope is remembered and how many
scopes and sends are tracked.  Pools have one thing more: an operator may declare that a historical
alias belongs to a configured provider.  `resolvePoolAliases` reads that table, and what it returns
is consulted whenever pools are compared; the counters of the original buckets are never moved.
-/

set_option autoImplicit false

/-- A JavaScript number, as far as token counts need it. -/
inductive JsNumber where
  | finite (q : ℚ)
  /-- An infinity or NaN. -/
  | notFinite
  deriving DecidableEq

namespace Spend

/-! ## Aliases and scopes -/

inductive SpendScope where
  | root
  | identity
  | pool
  deriving DecidableEq

/-- What an alias is made for. -/
inductive AliasKind where
  | scope (scope : SpendScope)
  | send
  deriving DecidableEq

/-- An alias as it may stand in the journal: not empty, at most 256 units long. -/
structure SpendAlias where
  units : JsString
  nonempty : units ≠ []
  short : units.length ≤ 256
  deriving DecidableEq

/-- The hash of an identifier; the raw identifier goes no further. -/
abbrev AliasHash := AliasKind → JsString → SpendAlias

/-- A hash that hides nothing of a short identifier; runs on fixed input are given with it. -/
def plainHash : AliasHash := fun kind id ↦
  let tag : CodeUnit := match kind with
    | .scope .root => 0x72
    | .scope .identity => 0x69
    | .scope .pool => 0x70
    | .send => 0x73
  ⟨tag :: id.take 255, List.cons_ne_nil _ _, Nat.succ_le_succ (List.length_take_le 255 id)⟩

structure ScopeRef where
  scope : SpendScope
  name : SpendAlias
  deriving DecidableEq

/-- The scopes a request names, in the clear. -/
structure SpendScopes where
  rootId : Option JsString
  identityId : Option JsString
  poolId : Option JsString
  deriving DecidableEq

/-- The scopes a request touches, as aliases. -/
def refsFor (hash : AliasHash) (targets : SpendScopes) : List ScopeRef :=
  (targets.rootId.map fun id ↦ ⟨.root, hash (.scope .root) id⟩).toList ++
    (targets.identityId.map fun id ↦ ⟨.identity, hash (.scope .identity) id⟩).toList ++
    (targets.poolId.map fun id ↦ ⟨.pool, hash (.scope .pool) id⟩).toList

/-- A token count as it is booked. -/
def sanitizeTokens : JsNumber → ℕ
  | .finite q => ⌊q⌋.toNat
  | .notFinite => 0

/-! ## Policies -/

/-- The ceilings; a scope without one is only observed. -/
structure SpendAdmissionPolicy where
  root : Option ℕ
  identity : Option ℕ
  pool : Option ℕ
  deriving DecidableEq

def SpendAdmissionPolicy.maxTokens (policy : SpendAdmissionPolicy) : SpendScope → Option ℕ
  | .root => policy.root
  | .identity => policy.identity
  | .pool => policy.pool

structure SpendReservationPolicy extends SpendAdmissionPolicy where
  /-- Historical pool aliases and the providers they belong to, as configured. -/
  poolAliases : Option Json
  canonicalProviderIds : Option (List JsString)
  /-- How long a dormant scope's accounting is retained. -/
  retentionMs : ℕ
  maxTrackedScopes? : Option ℕ
  maxTrackedSends? : Option ℕ
  /-- Journal records after which the file is compacted. -/
  compactAfterRecords? : Option ℕ

namespace SpendReservationPolicy

variable (policy : SpendReservationPolicy)

def maxTrackedScopes : ℕ := policy.maxTrackedScopes?.getD 4096

def maxTrackedSends : ℕ := policy.maxTrackedSends?.getD 16384

def compactAfterRecords : ℕ := policy.compactAfterRecords?.getD 8192

/-- Does any scope carry a ceiling? -/
def spendCeilingsConfigured : Bool :=
  policy.root.isSome || policy.identity.isSome || policy.pool.isSome

end SpendReservationPolicy

/-- The unconfigured default: nothing is refused, and accounts are kept for a week. -/
def defaultSpendReservationPolicy : SpendReservationPolicy :=
  ⟨⟨none, none, none⟩, none, none, 7 * 24 * 60 * 60000, none, none, none⟩

/-! ## The table of pool aliases -/

section Pools

/-- What `String.prototype.trim` takes away. -/
def isTrimmed (c : CodeUnit) : Bool :=
  (0x09 ≤ c && c ≤ 0x0d) || c == 0x20 || c == 0xa0 || c == 0x1680 || (0x2000 ≤ c && c ≤ 0x200a) ||
    c == 0x2028 || c == 0x2029 || c == 0x202f || c == 0x205f || c == 0x3000 || c == 0xfeff

def trim (s : JsString) : JsString := ((s.dropWhile isTrimmed).reverse.dropWhile isTrimmed).reverse

/-- `/^[0-9a-f]{32}$/` -/
def isSaltedAlias (s : JsString) : Bool :=
  s.length == 32 && s.all fun c ↦ (0x30 ≤ c && c ≤ 0x39) || (0x61 ≤ c && c ≤ 0x66)

/-- The properties of an object, each once. -/
def properties (members : List (JsString × Json)) : OMap JsString Json := OMap.empty.setAll members

/-- A provider name as the table may give it. -/
def validProvider (provider : JsString) : Bool :=
  trim provider != [] && trim provider == provider && decide (provider.length ≤ 256)

/-- What is wrong with one entry of the table. -/
def entryError (providerIds : Option (List JsString)) (entry : JsString × Json) : Option String :=
  match entry.2 with
  | .str provider =>
    if !isSaltedAlias entry.1 || !validProvider provider then
      some ("spendPoolAliases requires exact 32-character salted pool aliases and nonempty " ++
        "provider IDs")
    else if providerIds.any fun ids ↦ !ids.contains provider then
      some "spendPoolAliases targets a provider that is not configured"
    else none
  | _ =>
    some ("spendPoolAliases requires exact 32-character salted pool aliases and nonempty " ++
      "provider IDs")

/-- What is wrong with the shape of the table, and with its providers where a roster is given. -/
def spendPoolAliasesError (value : Option Json) (providerIds : Option (List JsString)) :
    Option String :=
  match value with
  | none => none
  | some (.obj members) =>
    if 4096 < (properties members).size then some "spendPoolAliases has too many entries"
    else (properties members).entries.findSome? (entryError providerIds)
  | some _ => some "spendPoolAliases must be an object"

/-- The entries of a table that has the right shape. -/
def tableEntries (value : Option Json) : OMap JsString Json :=
  ((value.bind Json.members?).map properties).getD .empty

/-- An alias that a configured provider's own name hashes to belongs to that provider. -/
def validatePoolAliasOwners (hash : AliasHash) (value : Option Json)
    (providerIds : List JsString) : Option String :=
  match spendPoolAliasesError value none with
  | some error => some error
  | none =>
    if providerIds.any fun provider ↦
        match (tableEntries value).get? (hash (.scope .pool) provider).units with
        | some (.str target) => target != provider
        | _ => false then
      some "spendPoolAliases maps a configured provider's own pool alias to a different provider"
    else none

/-- The table, read: where each alias that is bound leads. -/
structure PoolContinuity where
  valid : Bool
  bindings : OMap JsString JsString

namespace PoolContinuity

/-- Follow the bindings; `none` when they go round in a circle. -/
def follow (bindings : OMap JsString JsString) : ℕ → JsString → Option JsString
  | 0, _ => none
  | fuel + 1, name =>
    match bindings.get? name with
    | none => some name
    | some next => if next = name then some name else follow bindings fuel next

variable (pools : PoolContinuity)

/-- The pool an alias belongs to.  A path longer than the table has met an alias twice, and a table
with such a path is not valid and has no bindings. -/
def resolve (name : JsString) : JsString :=
  (follow pools.bindings (pools.bindings.size + 1) name).getD name

def known (name : JsString) : Bool := pools.bindings.has name

end PoolContinuity

/-- The bindings a table declares: historical aliases to their providers, and the configured
providers to themselves. -/
def declaredBindings (hash : AliasHash) (value : Option Json)
    (providerIds : Option (List JsString)) : OMap JsString JsString :=
  let declared := (tableEntries value).entries.filterMap fun entry ↦
    match entry.2 with
    | .str provider => some (entry.1, (hash (.scope .pool) provider).units)
    | _ => none
  let configured := (providerIds.getD []).map fun provider ↦
    ((hash (.scope .pool) provider).units, (hash (.scope .pool) provider).units)
  OMap.empty.setAll (declared ++ configured)

/-- Read the table; a table with an error, or with a circle in it, binds nothing. -/
def resolvePoolAliases (hash : AliasHash) (value : Option Json)
    (providerIds : Option (List JsString)) : PoolContinuity :=
  let error := (spendPoolAliasesError value providerIds).isSome ||
    (validatePoolAliasOwners hash value (providerIds.getD [])).isSome
  let bindings := declaredBindings hash value providerIds
  if error || bindings.keys.any fun name ↦
      (PoolContinuity.follow bindings (bindings.size + 1) name).isNone then
    ⟨false, .empty⟩
  else ⟨true, bindings⟩

end Pools

end Spend
