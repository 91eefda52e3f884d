import OpenCodex.Data.JsonWrite
import OpenCodex.Data.OMap
import Mathlib.Data.List.Sort

/-!
# Which claim is current

A claim says that a subject has a capability.  A later claim may supersede earlier ones by naming
their events, and `resolveClaimStates` finds the one claim of each key, which is a subject with a
capability, that is superseded by none.  A claim that names an event that is neither there nor
purged, or one of another key, is reported as a corruption; so are two claims that are superseded by
none.
-/

set_option autoImplicit false

open Json

namespace Lab

/-- A claim event, as far as its state depends on it. -/
structure ClaimSnapshotEvent where
  eventId : JsString
  subjectId : JsString
  capability : JsString
  /-- The events it supersedes. -/
  supersedes : List JsString
  effectiveAt : ℚ
  recordedAt : ℚ
  deriving DecidableEq

/-- A corruption of the kind `claim_corruption`. -/
structure LedgerCorruption where
  eventId : Option JsString
  detail : JsString
  deriving DecidableEq

structure ClaimState where
  key : JsString
  current : Option ClaimSnapshotEvent
  corruption : Option JsString
  unusable : Option Bool
  deriving DecidableEq

/-- The key of a claim, as the text of a list. -/
def claimKeyString (subjectId capability : JsString) : JsString :=
  (Json.arr [.str subjectId, .str capability]).stringify

def ClaimSnapshotEvent.key (claim : ClaimSnapshotEvent) : JsString :=
  claimKeyString claim.subjectId claim.capability

/-- The claim does not come after the other: by effect, by record, by id. -/
def claimLe (a b : ClaimSnapshotEvent) : Prop :=
  if a.effectiveAt ≠ b.effectiveAt then a.effectiveAt < b.effectiveAt
  else if a.recordedAt ≠ b.recordedAt then a.recordedAt < b.recordedAt
  else a.eventId ≤ b.eventId

instance : DecidableRel claimLe := fun a b ↦ inferInstanceAs (Decidable
  (if a.effectiveAt ≠ b.effectiveAt then a.effectiveAt < b.effectiveAt
  else if a.recordedAt ≠ b.recordedAt then a.recordedAt < b.recordedAt
  else a.eventId ≤ b.eventId))

/-- What the links of a key's claims come to, as far as they have been followed. -/
structure Links where
  superseded : List JsString
  /-- The corruption of the key's state. -/
  corruption : Option JsString
  corruptions : List LedgerCorruption

/-- Follow one link. -/
def followLink (allById : OMap JsString ClaimSnapshotEvent) (purgedEventIds : List JsString)
    (claim : ClaimSnapshotEvent) (links : Links) (pred : JsString) : Links :=
  match allById.get? pred with
  | none =>
    -- A purge may have removed the claim that was superseded.
    if pred ∈ purgedEventIds then links
    else { links with
      corruption := some (js "missing predecessor")
      corruptions := links.corruptions ++
        [⟨some claim.eventId, js "missing supersedes predecessor " ++ pred⟩] }
  | some prev =>
    if prev.subjectId ≠ claim.subjectId ∨ prev.capability ≠ claim.capability then
      { links with
        corruption := some (js "cross-key supersession")
        corruptions := links.corruptions ++ [⟨some claim.eventId, js "cross-key supersession"⟩] }
    else { links with superseded := links.superseded ++ [pred] }

/-- Follow the links of all claims of a key. -/
def followLinks (allById : OMap JsString ClaimSnapshotEvent) (purgedEventIds : List JsString)
    (sorted : List ClaimSnapshotEvent) : Links :=
  sorted.foldl (fun links claim ↦
    claim.supersedes.foldl (followLink allById purgedEventIds claim) links) ⟨[], none, []⟩

/-- The state of a key with these claims, and the corruptions it is reported with. -/
def resolveKey (allById : OMap JsString ClaimSnapshotEvent)
    (unusableClaims purgedEventIds : List JsString) (key : JsString)
    (list : List ClaimSnapshotEvent) : ClaimState × List LedgerCorruption :=
  let sorted := list.insertionSort claimLe
  let links := followLinks allById purgedEventIds sorted
  if links.corruption.isSome then
    (⟨key, none, links.corruption, none⟩, links.corruptions)
  else
    let current := sorted.filter fun claim ↦ claim.eventId ∉ links.superseded
    if 1 < current.length then
      (⟨key, none, some (js "conflicting current claims"), none⟩,
        links.corruptions ++ [⟨none, js "multiple unsuperseded claims for " ++ key⟩])
    else
      (⟨key, current.head?, none, current.head?.map fun claim ↦ claim.eventId ∈ unusableClaims⟩,
        links.corruptions)

/-- The claims by their keys. -/
def claimsByKey (claims : List ClaimSnapshotEvent) : OMap JsString (List ClaimSnapshotEvent) :=
  claims.foldl (fun byKey claim ↦
    byKey.set claim.key ((byKey.get? claim.key).getD [] ++ [claim])) .empty

structure ClaimStates where
  states : OMap JsString ClaimState
  corruptions : List LedgerCorruption

/-- The states of all keys, once purged events and supersession are taken into account. -/
def resolveClaimStates (unusableClaims purgedEventIds : List JsString)
    (claims : List ClaimSnapshotEvent) : ClaimStates :=
  let allById := OMap.empty.setAll (claims.map fun claim ↦ (claim.eventId, claim))
  (claimsByKey claims).entries.foldl (fun result entry ↦
    let resolved := resolveKey allById unusableClaims purgedEventIds entry.1 entry.2
    ⟨result.states.set entry.1 resolved.1, result.corruptions ++ resolved.2⟩) ⟨.empty, []⟩

end Lab
