import OpenCodex.Data.FirstFree
import OpenCodex.Data.JsonDoc
import OpenCodex.Data.OMap

/-!
# Tool-call ids that an upstream takes

An id has up to 64 characters of a set.  One that does not fit, or that names a call already, is
rewritten: what is not allowed becomes an underscore, and a number at the end makes the rewritten id
one that is not in use; the beginning is cut so that the number still fits.

* `Reminter` gives each call of a response an id of its own.  It remembers for each cut beginning how
  far it has counted, and so skips the numbers it has tried.
* `Allocator` gives each raw id of a request one id on the wire.

Numbers count on without end here.  Those of the source do so up to `2 ^ 53`, and no JavaScript
collection holds as many ids (`countable`).
-/

set_option autoImplicit false

open List Option Nat

namespace ToolCallIds

open Json (decimal)

/-! ## Ids -/

def maxToolCallIdLength : ℕ := 64

/-- `[a-zA-Z0-9_-]` -/
def isAllowed (c : CodeUnit) : Bool :=
  0x61 ≤ c && c ≤ 0x7a || 0x41 ≤ c && c ≤ 0x5a || 0x30 ≤ c && c ≤ 0x39 || c == 0x5f || c == 0x2d

def isConformingToolCallId (rawId : JsString) : Bool :=
  0 < rawId.length && rawId.length ≤ maxToolCallIdLength && rawId.all isAllowed

/-- `replace(/[^a-zA-Z0-9_-]/g, "_")` -/
def cleaned (rawId : JsString) : JsString := rawId.map fun c ↦ if isAllowed c then c else 0x5f

/-- How many ids a collection can hold. -/
def countable : ℕ := 2 ^ 53

/-! ### Numbers at the end -/

variable {n m : ℕ} {u v : CodeUnit} {text text' rawId base : JsString}

theorem decimal_forall {p : CodeUnit → Prop} (hp : ∀ k < 10, p (Json.digitUnit k)) (n : ℕ) :
    ∀ c ∈ decimal n, p c := by
  induction n using Nat.strong_induction_on with
  | _ n ih =>
    by_cases h : n < 10
    · rw [Json.decimal_of_lt h]
      exact forall_mem_singleton.mpr (hp n h)
    · rw [Json.decimal_of_ge (by omega), forall_mem_append]
      exact ⟨ih _ (by omega), forall_mem_singleton.mpr (hp _ (by omega))⟩

theorem isAllowed_decimal (n : ℕ) : (decimal n).all isAllowed = true :=
  all_eq_true.mpr (decimal_forall (fun k hk ↦ by interval_cases k <;> rfl) n)

theorem length_decimal_mono (h : m ≤ n) : (decimal m).length ≤ (decimal n).length := by
  induction n using Nat.strong_induction_on generalizing m with
  | _ n ih =>
    by_cases hn : n < 10
    · rw [Json.decimal_of_lt hn, Json.decimal_of_lt (by omega)]
      exact le_rfl
    · rw [Json.decimal_of_ge (n := n) (by omega), length_append]
      by_cases hm : m < 10
      · rw [Json.decimal_of_lt hm]
        exact le_add_left _ _
      · rw [Json.decimal_of_ge (by omega), length_append]
        exact Nat.add_le_add_right (ih _ (by omega) (Nat.div_le_div_right h)) _

theorem length_decimal_le (h : n < 2 * countable) : (decimal n).length ≤ 17 := by
  refine (length_decimal_mono (le_pred_of_lt h)).trans ?_
  decide +kernel

theorem number_inj (hu : ∀ k < 10, u ≠ Json.digitUnit k)
    (h : text ++ u :: decimal m = text' ++ u :: decimal n) : m = n := by
  have hdigits (n : ℕ) : u ∉ decimal n := fun hmem ↦ decimal_forall (p := (u ≠ ·)) hu n u hmem rfl
  have hsplit (text : JsString) (n : ℕ) :
      (text ++ u :: decimal n).reverse.takeWhile (· != u) = (decimal n).reverse := by
    rw [reverse_append, reverse_cons, append_assoc, takeWhile_append_of_pos (by
        intro a ha
        rw [bne_iff_ne]
        rintro rfl
        exact hdigits n (mem_reverse.mp ha))]
    simp
  have hsame := congrArg (fun l ↦ l.reverse.takeWhile (· != u)) h
  simp only [hsplit] at hsame
  exact Json.decimal_injective (reverse_injective hsame)

theorem isConforming_iff : isConformingToolCallId rawId = true ↔
    0 < rawId.length ∧ rawId.length ≤ maxToolCallIdLength ∧ rawId.all isAllowed = true := by
  rw [isConformingToolCallId, Bool.and_eq_true, Bool.and_eq_true, decide_eq_true_iff,
    decide_eq_true_iff, and_assoc]

theorem all_cleaned (rawId : JsString) : (cleaned rawId).all isAllowed = true := by
  refine all_eq_true.mpr fun c hc ↦ ?_
  obtain ⟨d, -, rfl⟩ := mem_map.mp hc
  split_ifs with h
  · exact h
  · rfl

theorem all_take (h : base.all isAllowed = true) (k : ℕ) : (base.take k).all isAllowed = true :=
  all_eq_true.mpr fun c hc ↦ all_eq_true.mp h c (mem_of_mem_take hc)

/-! ## An id for each call of a response -/

/-- `-2`, `-3`, … -/
def suffixOf (n : ℕ) : JsString := 0x2d :: decimal n

/-- The beginning that leaves room for a suffix. -/
def prefixFor (base suffix : JsString) : JsString :=
  base.take (max 1 (maxToolCallIdLength - suffix.length))

def candidate (base : JsString) (n : ℕ) : JsString := prefixFor base (suffixOf n) ++ suffixOf n

structure Reminter where
  occupied : List JsString
  nextSuffixByWidthAndPrefix : OMap (ℕ × JsString) ℕ

def createToolCallIdReminter (reservedIds : List JsString) : Reminter := ⟨reservedIds, .empty⟩

/-- `isConformingToolCallId(rawId) ? rawId : rawId.replace(…)` -/
def baseOf (rawId : JsString) : JsString :=
  if isConformingToolCallId rawId then rawId else cleaned rawId

/-- The loop over the numbers. -/
def search (base : JsString) : ℕ → ℕ → Reminter → Option (JsString × Reminter)
  | 0, _, _ => none
  | fuel + 1, n, s =>
    let suffix := suffixOf n
    let cursorKey := (suffix.length, prefixFor base suffix)
    let next := (s.nextSuffixByWidthAndPrefix.get? cursorKey).getD n
    if n < next then search base fuel next s
    else
      let s' := { s with
        nextSuffixByWidthAndPrefix := s.nextSuffixByWidthAndPrefix.set cursorKey (n + 1) }
      if candidate base n ∈ s.occupied then search base fuel (n + 1) s'
      else some (candidate base n, { s' with occupied := s.occupied ++ [candidate base n] })

/-- One call of the function; among the first numbers one more than there are ids is free. -/
def remint (s : Reminter) (rawId : JsString) : Option (JsString × Reminter) :=
  if rawId ∈ s.occupied then search (baseOf rawId) (s.occupied.length + 1) 2 s
  else some (rawId, { s with occupied := s.occupied ++ [rawId] })

/-- A sequence of calls, and the ids they return. -/
def remintAll : Reminter → List JsString → Option (List JsString)
  | _, [] => some []
  | s, rawId :: rawIds =>
    (remint s rawId).bind fun r ↦ (remintAll r.2 rawIds).map (r.1 :: ·)

/-! ### The cursors -/

variable {s s' : Reminter} {rawIds : List JsString} {fuel : ℕ}

theorem candidate_inj (h : candidate base m = candidate base n) : m = n :=
  number_inj (u := 0x2d) (fun k hk ↦ by interval_cases k <;> decide) h

theorem exists_first (rawId : JsString) : ∃ n ≤ 2 + s.occupied.length,
    FirstFree.IsFirst (candidate (baseOf rawId)) s.occupied 2 n :=
  FirstFree.exists_isFirst (fun _ _ _ _ ↦ candidate_inj) le_rfl

theorem length_suffixOf_mono (h : m ≤ n) : (suffixOf m).length ≤ (suffixOf n).length :=
  succ_le_succ (length_decimal_mono h)

/-- Every number below a cursor was tried for its width and beginning. -/
def Reminter.Counted (s : Reminter) : Prop :=
  ∀ key next, s.nextSuffixByWidthAndPrefix.get? key = some next → ∃ last, next = last + 1 ∧
    (suffixOf last).length = key.1 ∧
      ∀ m, 2 ≤ m → m ≤ last → (suffixOf m).length = key.1 → key.2 ++ suffixOf m ∈ s.occupied

theorem Reminter.Counted.add (h : s.Counted) (id : JsString) :
    Reminter.Counted { s with occupied := s.occupied ++ [id] } := fun key next hnext ↦ by
  obtain ⟨last, hlast, hwidth, hm⟩ := h key next hnext
  exact ⟨last, hlast, hwidth, fun m h2 hle hw ↦ mem_append_left _ (hm m h2 hle hw)⟩

theorem Reminter.Counted.tried (h : s.Counted) (hn : candidate base n ∈ s.occupied)
    (hbelow : ∀ m, 2 ≤ m → m < n → candidate base m ∈ s.occupied) : Reminter.Counted { s with
      nextSuffixByWidthAndPrefix := s.nextSuffixByWidthAndPrefix.set
        ((suffixOf n).length, prefixFor base (suffixOf n)) (n + 1) } := by
  intro key next hnext
  rw [OMap.get?_set] at hnext
  split_ifs at hnext with hkey
  · obtain rfl := some_inj.mp hnext
    subst hkey
    refine ⟨n, rfl, rfl, fun m h2 hle hw ↦ ?_⟩
    have hm : candidate base m ∈ s.occupied := by
      obtain rfl | hlt := eq_or_lt_of_le hle
      · exact hn
      · exact hbelow m h2 hlt
    rwa [candidate, prefixFor, hw] at hm
  · exact h key next hnext

/-- **The loop finds the first number that is free**, whatever the cursors let it skip. -/
theorem search_eq (h : s.Counted) (hn : 2 ≤ n)
    (hbelow : ∀ m, 2 ≤ m → m < n → candidate base m ∈ s.occupied)
    (hfirst : FirstFree.IsFirst (candidate base) s.occupied 2 m) (hfuel : m < n + fuel) :
    ∃ s', search base fuel n s = some (candidate base m, s') ∧
      s'.occupied = s.occupied ++ [candidate base m] ∧ s'.Counted := by
  have hle : n ≤ m := by
    by_contra hlt
    exact hfirst.free (hbelow m hfirst.le (by omega))
  induction fuel generalizing n s with
  | zero => omega
  | succ fuel ih =>
    rw [search]
    dsimp only
    split_ifs with hskip htaken
    · cases hnext : s.nextSuffixByWidthAndPrefix.get?
        ((suffixOf n).length, prefixFor base (suffixOf n)) with
      | none =>
        rw [hnext, getD_none] at hskip
        exact absurd hskip (lt_irrefl n)
      | some next =>
        rw [hnext] at hskip
        rw [getD_some] at hskip ⊢
        obtain ⟨last, rfl, hwidth, hm⟩ := h _ _ hnext
        -- what is skipped has the width of both ends
        have hbelow' : ∀ k, 2 ≤ k → k < last + 1 → candidate base k ∈ s.occupied := by
          intro k h2 hk
          by_cases hkn : k < n
          · exact hbelow k h2 hkn
          · have hlow := length_suffixOf_mono (Nat.le_of_not_lt hkn)
            have hhigh := length_suffixOf_mono (le_of_lt_succ hk)
            have hw : (suffixOf k).length = (suffixOf n).length := by
              dsimp only at hwidth
              omega
            have hmem := hm k h2 (by omega) hw
            rwa [candidate, prefixFor, hw]
        refine ih h (by omega) hbelow' hfirst (by omega) ?_
        by_contra hlt
        exact hfirst.free (hbelow' m hfirst.le (by omega))
    · have hlt : n ≠ m := fun heq ↦ hfirst.free (heq ▸ htaken)
      refine ih (h.tried htaken hbelow) (by omega) (fun k h2 hk ↦ ?_) hfirst (by omega) (by omega)
      obtain rfl | hlt := eq_or_lt_of_le (le_of_lt_succ hk)
      · exact htaken
      · exact hbelow k h2 hlt
    · obtain rfl : n = m := by
        by_contra hne
        exact htaken (hfirst.taken n hn (by omega))
      refine ⟨_, rfl, rfl, ?_⟩
      refine .tried (h.add _) (mem_append_right _ (mem_singleton_self _))
        fun k h2 hk ↦ mem_append_left _ (hbelow k h2 hk)

/-! ### What a sequence of calls returns -/

theorem all_baseOf (rawId : JsString) : (baseOf rawId).all isAllowed = true := by
  rw [baseOf]
  split_ifs with h
  · exact (isConforming_iff.mp h).2.2
  · exact all_cleaned rawId

theorem isConforming_candidate (hbase : base.all isAllowed = true) (hn : n < 2 * countable) :
    isConformingToolCallId (candidate base n) = true := by
  have hsuffix : (suffixOf n).length ≤ 18 := succ_le_succ (length_decimal_le hn)
  have hprefix : (prefixFor base (suffixOf n)).length ≤ max 1 (64 - (suffixOf n).length) :=
    length_take_le _ _
  have hpos : 0 < (suffixOf n).length := succ_pos _
  rw [isConforming_iff, candidate, length_append, all_append]
  refine ⟨by omega, ?_, Bool.and_eq_true_iff.mpr ⟨all_take hbase _, ?_⟩⟩
  · rw [maxToolCallIdLength]
    omega
  · rw [suffixOf, all_cons, isAllowed_decimal]
    rfl

/-- What is returned for a raw id, with the ids that are in use. -/
structure Reminted (used : List JsString) (rawId id : JsString) : Prop where
  fresh : id ∉ used
  unchanged : rawId ∉ used → id = rawId
  numbered : rawId ∈ used → ∃ n, 2 ≤ n ∧ id = candidate (baseOf rawId) n ∧
    ∀ m, 2 ≤ m → m < n → candidate (baseOf rawId) m ∈ used
  conforming : rawId ∈ used → used.length < countable → isConformingToolCallId id = true

theorem remint_spec (h : s.Counted) (rawId : JsString) : ∃ id s', remint s rawId = some (id, s') ∧
    s'.occupied = s.occupied ++ [id] ∧ s'.Counted ∧ Reminted s.occupied rawId id := by
  rw [remint]
  split_ifs with hused
  · obtain ⟨m, hle, hfirst⟩ := exists_first (s := s) rawId
    obtain ⟨s', hsearch, hoccupied, hcounted⟩ :=
      search_eq h le_rfl (by omega) hfirst (show m < 2 + (s.occupied.length + 1) by omega)
    refine ⟨_, s', hsearch, hoccupied, hcounted, hfirst.free, fun hnot ↦ absurd hused hnot,
      fun _ ↦ ⟨m, hfirst.le, rfl, hfirst.taken⟩, fun _ hlength ↦ ?_⟩
    refine isConforming_candidate (all_baseOf rawId) ?_
    simp only [countable] at hlength ⊢
    omega
  · exact ⟨rawId, _, rfl, rfl, h.add rawId, hused, fun _ ↦ rfl, fun hmem ↦ absurd hmem hused,
      fun hmem ↦ absurd hmem hused⟩

theorem remintAll_spec (h : s.Counted) (rawIds : List JsString) : ∃ ids,
    remintAll s rawIds = some ids ∧ ids.length = rawIds.length ∧ ids.Nodup ∧
      (∀ id ∈ ids, id ∉ s.occupied) ∧ ∀ i rawId id, rawIds[i]? = some rawId → ids[i]? = some id →
        Reminted (s.occupied ++ ids.take i) rawId id := by
  induction rawIds generalizing s with
  | nil => exact ⟨[], rfl, rfl, nodup_nil, by simp, by simp⟩
  | cons rawId rawIds ih =>
    obtain ⟨id, s', hid, hoccupied, hcounted, hreminted⟩ := remint_spec h rawId
    obtain ⟨ids, hids, hlength, hnodup, hnew, hrest⟩ := ih hcounted
    rw [hoccupied] at hnew hrest
    refine ⟨id :: ids, by rw [remintAll, hid, bind_some, hids, map_some],
      congrArg (· + 1) hlength, nodup_cons.mpr ⟨fun hmem ↦ ?_, hnodup⟩, ?_, ?_⟩
    · exact hnew id hmem (mem_append_right _ (mem_singleton_self id))
    · exact forall_mem_cons.mpr ⟨hreminted.fresh, fun other hmem hold ↦
        hnew other hmem (mem_append_left _ hold)⟩
    · rintro (_ | i) rawId' id' hraw hid'
      · obtain rfl := some_inj.mp hraw
        obtain rfl := some_inj.mp hid'
        rwa [take_zero, append_nil]
      · rw [take_succ_cons, append_cons]
        exact hrest i rawId' id' hraw hid'

/-- **Every call returns an id of its own.**  A raw id that is not in use stays as it is; any other
gets the smallest number that is free, and the result is one that the upstream takes. -/
theorem reminted_ids (reservedIds rawIds : List JsString) : ∃ ids,
    remintAll (createToolCallIdReminter reservedIds) rawIds = some ids ∧
      ids.length = rawIds.length ∧ ids.Nodup ∧ (∀ id ∈ ids, id ∉ reservedIds) ∧
        ∀ i rawId id, rawIds[i]? = some rawId → ids[i]? = some id →
          Reminted (reservedIds ++ ids.take i) rawId id :=
  remintAll_spec (fun _ _ h ↦ absurd h (by simp [createToolCallIdReminter])) rawIds

/-- A raw id that is neither reserved nor seen before may be an id that another call got. -/
theorem first_seen_reminted : remintAll (createToolCallIdReminter []) [js "a", js "a", js "a-2"] =
      some [js "a", js "a-2", js "a-2-2"] ∧
    js "a-2" ∉ [js "a", js "a"] ∧ js "a-2-2" ≠ js "a-2" := by
  decide +kernel

/-! ## An id for each raw id of a request -/

/-- The first eight hexadecimal digits of the SHA-256 of an id: any function of this shape. -/
structure Digest where
  hash : JsString → JsString
  length_hash : ∀ rawId, (hash rawId).length = 8
  all_hash : ∀ rawId, (hash rawId).all isAllowed = true

/-- Leaves `reserve` characters spare. -/
def fitToolCallId (cleaned hash : JsString) (reserve : ℕ) : JsString :=
  let tail := 0x5f :: hash
  cleaned.take (max 1 (maxToolCallIdLength - reserve - tail.length)) ++ tail

structure Allocator where
  rawToWire : OMap JsString JsString
  occupied : List JsString

def createToolCallIdAllocator : Allocator := ⟨.empty, []⟩

namespace Allocator

def put (s : Allocator) (rawId wire : JsString) : Allocator :=
  ⟨s.rawToWire.set rawId wire, s.occupied ++ [wire]⟩

def reserve (s : Allocator) (rawId : JsString) : Allocator :=
  if rawId = [] ∨ s.rawToWire.has rawId then s
  else if isConformingToolCallId rawId then s.put rawId rawId
  else s

/-- The candidates of `allocate`: the first has no number, the others have those from 2 on. -/
def candidate (D : Digest) (rawId : JsString) (n : ℕ) : JsString :=
  if n < 2 then fitToolCallId (cleaned rawId) (D.hash rawId) 0
  else
    let suffix := 0x5f :: decimal n
    fitToolCallId (cleaned rawId) (D.hash rawId) suffix.length ++ suffix

/-- The wire id, `none` for `undefined`; the outer `none` is a loop that has not ended. -/
def allocate (D : Digest) (s : Allocator) (rawId : JsString) : Option (Option JsString × Allocator) :=
  if rawId = [] then some (none, s)
  else
    match s.rawToWire.get? rawId with
    | some existing => some (some existing, s)
    | none =>
      if isConformingToolCallId rawId && !s.occupied.contains rawId then
        some (some rawId, s.put rawId rawId)
      else
        (FirstFree.search (candidate D rawId) s.occupied (s.occupied.length + 2) 1).map fun wire ↦
          (some wire, s.put rawId wire)

def lookup (s : Allocator) (rawId : JsString) : Option JsString :=
  if rawId = [] then none else s.rawToWire.get? rawId

end Allocator

/-- A call of the allocator. -/
inductive AllocatorCall where
  | reserve (rawId : JsString)
  | allocate (rawId : JsString)
  | lookup (rawId : JsString)
  deriving DecidableEq

def AllocatorCall.id : AllocatorCall → JsString
  | reserve rawId | allocate rawId | lookup rawId => rawId

/-- One call, and the wire id it returns. -/
def Allocator.call (D : Digest) (s : Allocator) : AllocatorCall → Option (Option JsString × Allocator)
  | .reserve rawId => some (none, s.reserve rawId)
  | .allocate rawId => s.allocate D rawId
  | .lookup rawId => some (s.lookup rawId, s)

/-- A sequence of calls, each with what it returns. -/
def Allocator.calls (D : Digest) : Allocator → List AllocatorCall →
    Option (List (AllocatorCall × Option JsString))
  | _, [] => some []
  | s, c :: rest => (s.call D c).bind fun r ↦ (calls D r.2 rest).map ((c, r.1) :: ·)

/-- No call reserves behind one that allocates. -/
def ReservesFirst (calls : List AllocatorCall) : Prop :=
  calls.Pairwise fun c c' ↦ ∀ raw raw', c = .allocate raw → c' ≠ .reserve raw'

/-! ### What is known of the ids that were given -/

variable {D : Digest} {a : Allocator} {raw raw' wire : JsString} {c : AllocatorCall}
  {answer : Option JsString} {told : List (AllocatorCall × Option JsString)}

/-- A raw id is the wire id that another one was given. -/
def Given (raw : JsString) (told : List (AllocatorCall × Option JsString)) : Prop :=
  ∃ raw', raw' ≠ raw ∧ (.allocate raw', some raw) ∈ told

theorem Given.append (h : Given raw told) (more : List (AllocatorCall × Option JsString)) :
    Given raw (told ++ more) :=
  h.imp fun _ ⟨hne, hmem⟩ ↦ ⟨hne, mem_append_left _ hmem⟩

namespace Allocator

/-- The table has what was answered and what was reserved; no two raw ids have one wire id, and one
that is not its raw id was allocated. -/
structure Sound (a : Allocator) (told : List (AllocatorCall × Option JsString)) : Prop where
  answered : ∀ c wire, (c, some wire) ∈ told → a.rawToWire.get? c.id = some wire
  reserved : ∀ raw, .reserve raw ∈ told.map Prod.fst → isConformingToolCallId raw = true →
    a.rawToWire.get? raw = some raw
  inj : ∀ raw raw' wire, a.rawToWire.get? raw = some wire → a.rawToWire.get? raw' = some wire →
    raw = raw'
  occupied : ∀ wire, wire ∈ a.occupied ↔ ∃ raw, a.rawToWire.get? raw = some wire
  rewritten : ∀ raw wire, a.rawToWire.get? raw = some wire →
    wire = raw ∨ (.allocate raw, some wire) ∈ told
  taken : ∀ raw wire, a.rawToWire.get? raw = some wire → isConformingToolCallId raw = true →
    wire = raw ∨ Given raw told
  length : a.occupied.length ≤ told.length
  conforming : told.length < countable → ∀ wire ∈ a.occupied, isConformingToolCallId wire = true

theorem Sound.same (h : a.Sound told)
    (hanswer : ∀ wire, answer = some wire → a.rawToWire.get? c.id = some wire)
    (hreserved : ∀ raw, c = .reserve raw → isConformingToolCallId raw = true →
      a.rawToWire.get? raw = some raw) : a.Sound (told ++ [(c, answer)]) where
  answered c' wire hmem := by
    rcases mem_append.mp hmem with hmem | hmem
    · exact h.answered c' wire hmem
    · obtain ⟨rfl, rfl⟩ := Prod.mk.inj (mem_singleton.mp hmem)
      exact hanswer wire rfl
  reserved raw hmem hraw := by
    rw [map_append, mem_append] at hmem
    rcases hmem with hmem | hmem
    · exact h.reserved raw hmem hraw
    · exact hreserved raw (mem_singleton.mp hmem).symm hraw
  inj := h.inj
  occupied := h.occupied
  rewritten raw wire hget := (h.rewritten raw wire hget).imp_right (mem_append_left _)
  taken raw wire hget hconf := (h.taken raw wire hget hconf).imp_right (.append · _)
  length := h.length.trans (by rw [length_append]; exact le_add_right _ _)
  conforming hlength := h.conforming (by
    rw [length_append] at hlength
    omega)

theorem Sound.occupant (h : a.Sound told) (hraw : a.rawToWire.get? raw = none)
    (hmem : raw ∈ a.occupied) : Given raw told := by
  obtain ⟨raw', hget⟩ := (h.occupied raw).mp hmem
  have hne : raw' ≠ raw := by
    rintro rfl
    exact absurd (hraw.symm.trans hget) (by simp)
  exact ⟨raw', hne, (h.rewritten raw' raw hget).resolve_left hne.symm⟩

theorem Sound.put (h : a.Sound told) (hraw : a.rawToWire.get? c.id = none)
    (hwire : wire ∉ a.occupied) (hanswer : ∀ w, answer = some w → w = wire)
    (hrewritten : wire = c.id ∨ c = .allocate c.id ∧ answer = some wire)
    (htaken : isConformingToolCallId c.id = true → wire = c.id ∨ c.id ∈ a.occupied)
    (hreserved : ∀ raw, c = .reserve raw → wire = raw)
    (hconforming : told.length < countable → isConformingToolCallId wire = true) :
    (a.put c.id wire).Sound (told ++ [(c, answer)]) := by
  have hold {raw w : JsString} (hget : a.rawToWire.get? raw = some w) :
      (a.put c.id wire).rawToWire.get? raw = some w := by
    refine (OMap.get?_set_of_ne _ ?_ _).trans hget
    rintro rfl
    exact absurd (hraw.symm.trans hget) (by simp)
  have hcases {raw w : JsString} (hget : (a.put c.id wire).rawToWire.get? raw = some w) :
      raw = c.id ∧ w = wire ∨ a.rawToWire.get? raw = some w := by
    rw [Allocator.put, OMap.get?_set] at hget
    split_ifs at hget with heq
    · exact .inl ⟨heq, (some_inj.mp hget).symm⟩
    · exact .inr hget
  have hself : (a.put c.id wire).rawToWire.get? c.id = some wire := OMap.get?_set_self ..
  have hmem {w : JsString} : w ∈ (a.put c.id wire).occupied ↔ w ∈ a.occupied ∨ w = wire := by
    rw [Allocator.put, mem_append, mem_singleton]
  constructor
  case answered =>
    intro c' w hc
    rcases mem_append.mp hc with hc | hc
    · exact hold (h.answered c' w hc)
    · obtain ⟨rfl, rfl⟩ := Prod.mk.inj (mem_singleton.mp hc)
      rw [hself, hanswer w rfl]
  case reserved =>
    intro raw hc hconf
    rw [map_append, mem_append] at hc
    rcases hc with hc | hc
    · exact hold (h.reserved raw hc hconf)
    · obtain rfl := mem_singleton.mp hc
      rw [hreserved raw rfl] at hself ⊢
      exact hself
  case inj =>
    intro raw raw' w hget hget'
    rcases hcases hget with ⟨rfl, rfl⟩ | hbefore
    · rcases hcases hget' with ⟨rfl, -⟩ | hbefore'
      · rfl
      · exact absurd ((h.occupied w).mpr ⟨raw', hbefore'⟩) hwire
    · rcases hcases hget' with ⟨rfl, rfl⟩ | hbefore'
      · exact absurd ((h.occupied w).mpr ⟨raw, hbefore⟩) hwire
      · exact h.inj raw raw' w hbefore hbefore'
  case occupied =>
    intro w
    rw [hmem, h.occupied]
    constructor
    · rintro (⟨raw, hget⟩ | rfl)
      · exact ⟨raw, hold hget⟩
      · exact ⟨c.id, hself⟩
    · rintro ⟨raw, hget⟩
      rcases hcases hget with ⟨-, hw⟩ | hbefore
      · exact .inr hw
      · exact .inl ⟨raw, hbefore⟩
  case rewritten =>
    intro raw w hget
    rcases hcases hget with ⟨rfl, rfl⟩ | hget
    · refine hrewritten.imp_right fun hcw ↦ mem_append_right _ ?_
      rw [← hcw.1, hcw.2]
      exact mem_singleton_self _
    · exact (h.rewritten raw w hget).imp_right (mem_append_left _)
  case taken =>
    intro raw w hget hconf
    rcases hcases hget with ⟨rfl, rfl⟩ | hbefore
    · exact (htaken hconf).imp_right fun hmem ↦ (h.occupant hraw hmem).append _
    · exact (h.taken raw w hbefore hconf).imp_right (.append · _)
  case length =>
    rw [Allocator.put, length_append, length_append]
    exact Nat.add_le_add_right h.length 1
  case conforming =>
    intro hlength w hw
    rw [length_append] at hlength
    rcases hmem.mp hw with hw | rfl
    · exact h.conforming (by omega) w hw
    · exact hconforming (by omega)

end Allocator

/-! ### The candidates -/

theorem Allocator.candidate_inj (hm : 2 ≤ m) (hn : 2 ≤ n)
    (h : candidate D raw m = candidate D raw n) : m = n := by
  rw [candidate, candidate, if_neg (by omega), if_neg (by omega)] at h
  exact number_inj (u := 0x5f) (fun k hk ↦ by interval_cases k <;> decide) h

theorem length_fitToolCallId (D : Digest) (raw : JsString) (spare : ℕ) (h : spare ≤ 54) :
    (fitToolCallId (cleaned raw) (D.hash raw) spare).length + spare ≤ maxToolCallIdLength := by
  have htake := length_take_le
    (max 1 (maxToolCallIdLength - spare - (0x5f :: D.hash raw).length)) (cleaned raw)
  have hhash := D.length_hash raw
  rw [fitToolCallId, length_append]
  simp only [length_cons, hhash, maxToolCallIdLength] at htake ⊢
  omega

theorem all_fitToolCallId (D : Digest) (raw : JsString) (spare : ℕ) :
    (fitToolCallId (cleaned raw) (D.hash raw) spare).all isAllowed = true := by
  rw [fitToolCallId, all_append, all_take (all_cleaned raw), all_cons, D.all_hash]
  rfl

theorem Allocator.isConforming_candidate (D : Digest) (raw : JsString) (hn : n < 2 * countable) :
    isConformingToolCallId (candidate D raw n) = true := by
  have hpos (spare : ℕ) : 0 < (fitToolCallId (cleaned raw) (D.hash raw) spare).length := by
    rw [fitToolCallId, length_append]
    exact Nat.add_pos_right _ (Nat.succ_pos _)
  rw [candidate, isConforming_iff]
  split_ifs
  · exact ⟨hpos 0, length_fitToolCallId D raw 0 (zero_le _), all_fitToolCallId D raw 0⟩
  · have hdigits := length_decimal_le hn
    have hlength := length_fitToolCallId D raw (0x5f :: decimal n).length (by
      rw [length_cons]
      omega)
    rw [length_append, all_append, all_fitToolCallId, all_cons, isAllowed_decimal]
    exact ⟨Nat.add_pos_left (hpos _) _, hlength, rfl⟩

/-! ### What a sequence of calls returns -/

theorem Allocator.allocate_spec (h : a.Sound told) (raw : JsString) :
    ∃ answer a', a.allocate D raw = some (answer, a') ∧ (raw ≠ [] → answer ≠ none) ∧
      a'.Sound (told ++ [(.allocate raw, answer)]) ∧
        ∀ wire, answer = some wire → isConformingToolCallId raw = true →
          wire = raw ∨ Given raw told := by
  rw [Allocator.allocate]
  by_cases hnil : raw = []
  · rw [if_pos hnil]
    exact ⟨none, a, rfl, fun hne ↦ absurd hnil hne, h.same (by simp) (by simp), by simp⟩
  rw [if_neg hnil]
  cases hget : a.rawToWire.get? raw with
  | some existing =>
    refine ⟨some existing, a, rfl, by simp, h.same ?_ (by simp), ?_⟩
    · rintro wire ⟨⟩
      exact hget
    · rintro wire ⟨⟩
      exact h.taken raw existing hget
  | none =>
    dsimp only
    split_ifs with hfree
    · simp only [Bool.and_eq_true, Bool.not_eq_true', contains_eq_mem,
        decide_eq_false_iff_not] at hfree
      refine ⟨some raw, _, rfl, by simp, h.put (c := .allocate raw) hget hfree.2 ?_ (.inl rfl)
        (fun _ ↦ .inl rfl) (by simp) fun _ ↦ hfree.1, ?_⟩
      · rintro wire ⟨⟩
        rfl
      · rintro wire ⟨⟩ -
        exact .inl rfl
    · obtain ⟨n, hn, hfirst⟩ : ∃ n ≤ 2 + a.occupied.length,
          FirstFree.IsFirst (candidate D raw) a.occupied 1 n :=
        FirstFree.exists_isFirst (fun _ _ hm hn ↦ candidate_inj hm hn) (by omega)
      have htaken (hconf : isConformingToolCallId raw = true) : raw ∈ a.occupied := by
        simpa [hconf] using hfree
      rw [FirstFree.search_eq hfirst (by omega), map_some]
      refine ⟨_, _, rfl, by simp, h.put (c := .allocate raw) hget hfirst.free ?_ (.inr ⟨rfl, rfl⟩)
        (fun hconf ↦ .inr (htaken hconf)) (by simp) fun hlength ↦ ?_, ?_⟩
      · rintro wire ⟨⟩
        rfl
      · have hle := h.length
        refine isConforming_candidate D raw ?_
        simp only [countable] at hlength ⊢
        omega
      · exact fun _ _ hconf ↦ .inr (h.occupant hget (htaken hconf))

theorem Allocator.Sound.reserve (h : a.Sound told) (raw : JsString)
    (hfirst : ∀ raw', .allocate raw' ∉ told.map Prod.fst) :
    (a.reserve raw).Sound (told ++ [(.reserve raw, none)]) := by
  have hself (raw wire : JsString) (hget : a.rawToWire.get? raw = some wire) : wire = raw :=
    (h.rewritten raw wire hget).resolve_right fun hmem ↦ hfirst raw (mem_map_of_mem hmem)
  rw [Allocator.reserve]
  split_ifs with hknown hconf
  · refine h.same (by simp) ?_
    rintro _ ⟨⟩ hconf
    rcases hknown with rfl | hhas
    · cases hconf
    · obtain ⟨wire, hget⟩ := OMap.has_iff.mp hhas
      exact hself raw wire hget ▸ hget
  · rw [not_or, Bool.not_eq_true, OMap.has_eq_false_iff] at hknown
    refine h.put (c := .reserve raw) hknown.2 (fun hmem ↦ ?_) (by simp) (.inl rfl)
      (fun _ ↦ .inl rfl) ?_ fun _ ↦ hconf
    · obtain ⟨raw', hget⟩ := (h.occupied raw).mp hmem
      obtain rfl := hself raw' raw hget
      exact absurd (hknown.2.symm.trans hget) (by simp)
    · rintro _ ⟨⟩
      rfl
  · refine h.same (by simp) ?_
    rintro _ ⟨⟩ hconf'
    exact absurd hconf' hconf

/-- What the answers to a sequence of calls are. -/
structure Answered (told : List (AllocatorCall × Option JsString)) : Prop where
  allocates : ∀ raw, raw ≠ [] → (.allocate raw, none) ∉ told
  same_iff : ∀ c c' wire wire', (c, some wire) ∈ told → (c', some wire') ∈ told →
    (c.id = c'.id ↔ wire = wire')
  conforming : told.length < countable → ∀ c wire, (c, some wire) ∈ told →
    isConformingToolCallId wire = true
  reserved : ∀ c wire, (c, some wire) ∈ told → .reserve c.id ∈ told.map Prod.fst →
    isConformingToolCallId c.id = true → wire = c.id
  unchanged : ∀ before c wire after, told = before ++ (c, some wire) :: after →
    isConformingToolCallId c.id = true → wire = c.id ∨ Given c.id before

theorem Allocator.call_spec (h : a.Sound told) (c : AllocatorCall)
    (hfirst : ∀ raw raw', c = .reserve raw → .allocate raw' ∉ told.map Prod.fst) :
    ∃ answer a', a.call D c = some (answer, a') ∧
      (∀ raw, c = .allocate raw → raw ≠ [] → answer ≠ none) ∧ a'.Sound (told ++ [(c, answer)]) ∧
        ∀ wire, answer = some wire → isConformingToolCallId c.id = true →
          wire = c.id ∨ Given c.id told := by
  cases c with
  | reserve raw =>
    exact ⟨none, _, rfl, by simp, h.reserve raw fun raw' ↦ hfirst raw raw' rfl, by simp⟩
  | allocate raw =>
    obtain ⟨answer, a', hcall, hsome, hrest⟩ := allocate_spec (D := D) h raw
    exact ⟨answer, a', hcall, fun _ hraw ↦ AllocatorCall.allocate.inj hraw ▸ hsome, hrest⟩
  | lookup raw =>
    have hlookup (wire : JsString) (hwire : a.lookup raw = some wire) :
        a.rawToWire.get? raw = some wire := by
      rw [lookup] at hwire
      split_ifs at hwire
      exact hwire
    exact ⟨a.lookup raw, a, rfl, by simp, h.same hlookup (by simp),
      fun wire hwire ↦ h.taken raw wire (hlookup wire hwire)⟩

theorem Allocator.calls_spec {calls : List AllocatorCall} (h : a.Sound told)
    (horder : ReservesFirst (told.map Prod.fst ++ calls)) :
    ∃ more, ∃ a' : Allocator, a.calls D calls = some more ∧ more.map Prod.fst = calls ∧
      a'.Sound (told ++ more) ∧ (∀ raw, raw ≠ [] → (.allocate raw, none) ∉ more) ∧
        ∀ before c wire after, more = before ++ (c, some wire) :: after →
          isConformingToolCallId c.id = true → wire = c.id ∨ Given c.id (told ++ before) := by
  induction calls generalizing a told with
  | nil => exact ⟨[], a, rfl, rfl, by rwa [append_nil], by simp, by simp⟩
  | cons c calls ih =>
    obtain ⟨answer, a', hcall, hsome, hsound, hunchanged⟩ := call_spec (D := D) h c
      fun raw raw' hc hmem ↦ (pairwise_append.mp horder).2.2 _ hmem c mem_cons_self raw' raw rfl hc
    obtain ⟨more, last, hmore, hcalls, hlast, hnone, hrest⟩ := ih hsound (by
      rwa [map_append, append_assoc])
    rw [append_assoc] at hlast
    refine ⟨(c, answer) :: more, last, by rw [Allocator.calls, hcall, bind_some, hmore]; rfl,
      congrArg (c :: ·) hcalls, hlast, fun raw hraw hmem ↦ ?_, fun before c' wire after hsplit ↦ ?_⟩
    · rcases mem_cons.mp hmem with heq | hmem
      · obtain ⟨rfl, rfl⟩ := Prod.mk.inj heq
        exact hsome raw rfl hraw rfl
      · exact hnone raw hraw hmem
    · cases before with
      | nil =>
        obtain ⟨heq, -⟩ := cons.inj hsplit
        obtain ⟨rfl, rfl⟩ := Prod.mk.inj heq
        rw [append_nil]
        exact hunchanged wire rfl
      | cons x before =>
        obtain ⟨rfl, hbehind⟩ := cons.inj hsplit
        rw [append_cons]
        exact hrest before c' wire after hbehind

/-- A digest that is the same for all ids. -/
def zeros : Digest := ⟨fun _ ↦ js "00000000", fun _ ↦ rfl, fun _ ↦ rfl⟩

end ToolCallIds
