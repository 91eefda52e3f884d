import OpenCodex.Data.JsonOrder
import OpenCodex.Data.OMap
import OpenCodex.Data.Supersequence

/-!
# Completing a sparse terminal

While a native response streams, its finished items are recorded under their output indexes.  The
terminal that ends it reports a list of items too, and may leave some of them out.
`nativeResponseOutput` puts both into one list, with one position moving along the recorded items: an
item the terminal shares with them is preceded by all recorded items before it.

Items are told apart by their id, and by their content where they have none.  The content of an item
is known by `sha256`, the hash of its canonical text as hexadecimal digits.

`sparse_merged` is the result about it: where the two lists do not contradict one another the result holds
everything of both, and it fails on everything else.  A terminal that reports nothing is not compared
with anything.
-/

set_option autoImplicit false

open List

open Json

namespace NativeOutput

variable (sha256 : JsString → JsString)

/-! ## Fingerprints -/

mutual

/-- The text of a value, with the members of every object in the order of their names. -/
def canonical : Json → JsString
  | .arr items => 0x5b :: ([0x2c].intercalate (canonicalItems items) ++ [0x5d])
  | .obj members => 0x7b :: ([0x2c].intercalate (((canonicalMembers members).insertionSort
      nameLe).map fun m ↦ literal m.1 ++ 0x3a :: m.2) ++ [0x7d])
  | v => v.stringify

def canonicalItems : List Json → List JsString
  | [] => []
  | item :: items => canonical item :: canonicalItems items

/-- The members of an object, each with the canonical text of its value. -/
def canonicalMembers : List (JsString × Json) → List (JsString × JsString)
  | [] => []
  | (name, v) :: members => (name, canonical v) :: canonicalMembers members

end

/-- The fingerprint of a value. -/
def nativeResponseFingerprint (value : Json) : JsString := sha256 (canonical value)

/-! ## The merge -/

/-- What an item is told apart by. -/
def identity (item : Json) : JsString :=
  match item.field? (js "id") with
  | some (.str id) => js "id:" ++ id
  | _ => js "body:" ++ nativeResponseFingerprint sha256 item

/-- The recorded items, in the order of their output indexes. -/
def observedItems (done : OMap ℕ Json) : List Json :=
  (done.entries.insertionSort fun a b ↦ a.1 ≤ b.1).map Prod.snd

/-- Note where the item with the next index stands. -/
def recordPosition (positions : OMap JsString ℕ) (entry : Json × ℕ) :
    Except JsString (OMap JsString ℕ) :=
  let key := identity sha256 entry.1
  if positions.has key then .error (js "Duplicate native completed output identity.")
  else .ok (positions.set key entry.2)

/-- Where each recorded item stands. -/
def recordPositions (observed : List Json) : Except JsString (OMap JsString ℕ) :=
  observed.zipIdx.foldlM (recordPosition sha256) .empty

/-- How far the merge has come. -/
structure Merge where
  result : List Json
  /-- The identities of the terminal's items so far. -/
  seen : List JsString
  /-- How many of the recorded items are in the result. -/
  cursor : ℕ

/-- Place the next item of the terminal. -/
def place (observed : List Json) (positions : OMap JsString ℕ) (st : Merge) (item : Json) :
    Except JsString Merge :=
  let key := identity sha256 item
  if key ∈ st.seen then .error (js "Duplicate native terminal output identity.")
  else
    let seen := st.seen ++ [key]
    match positions.get? key with
    | none => .ok { st with result := st.result ++ [item], seen }
    | some position =>
      if position < st.cursor ∨ some (nativeResponseFingerprint sha256 item) ≠
          observed[position]?.map (nativeResponseFingerprint sha256) then
        .error (js "Native terminal output contradicts completed wire items.")
      else
        -- The recorded items up to the position go in before the item itself.
        let missing := (observed.take position).drop st.cursor
        .ok { result := st.result ++ missing ++ [item], seen, cursor := position + 1 }

/-- The recorded items and those of the terminal, in one list.  `none` is a terminal without an
output. -/
def nativeResponseOutput (done : OMap ℕ Json) (terminal : Option Json) :
    Except JsString (List Json) := do
  let observed := observedItems done
  match terminal with
  | none | some .null | some (.arr []) => .ok observed
  | some (.arr items) =>
    if items.any fun item ↦ !item.isObject then .error (js "Invalid native response output.")
    else
      let positions ← recordPositions sha256 observed
      let st ← items.foldlM (place sha256 observed positions) ⟨[], [], 0⟩
      .ok (st.result ++ observed.drop st.cursor)
  | some _ => .error (js "Invalid native response output.")

/-! ## What an item is -/

/-- What tells an item apart: its id, or else what it says. -/
inductive Identity where
  | named (id : JsString)
  | body (content : Json)

noncomputable instance : DecidableEq Identity := Classical.decEq Identity

def whose (item : Json) : Identity :=
  match item.field? (js "id") with
  | some (.str id) => .named id
  | _ => .body item.inOrder

/-- The items say the same, whatever the order of their members. -/
def SameContent (a b : Json) : Prop := a.inOrder = b.inOrder

/-- No two canonical texts have one hash. -/
def NoCollision : Prop := ∀ v w : Json,
  sha256 (canonical v) = sha256 (canonical w) → canonical v = canonical w

/-- The list holds the recorded items in the order of their indexes. -/
def InIndexOrder (done : OMap ℕ Json) (observed : List Json) : Prop :=
  ∃ entries : List (ℕ × Json), entries.Perm done.entries ∧
    entries.Pairwise (fun a b ↦ a.1 < b.1) ∧ observed = entries.map Prod.snd

/-- The terminal reports nothing. -/
def Silent (terminal : Option Json) : Prop :=
  terminal = none ∨ terminal = some .null ∨ terminal = some (.arr [])

theorem observedItems_inIndexOrder (done : OMap ℕ Json) :
    InIndexOrder done (observedItems done) := by
  have hperm := perm_insertionSort (fun a b : ℕ × Json ↦ a.1 ≤ b.1) done.entries
  refine ⟨_, hperm, ?_, rfl⟩
  have hle := pairwise_insertionSort (fun a b : ℕ × Json ↦ a.1 ≤ b.1) done.entries
  have hne : (done.entries.insertionSort fun a b ↦ a.1 ≤ b.1).Pairwise fun a b ↦ a.1 ≠ b.1 :=
    pairwise_map.mp ((hperm.map Prod.fst).nodup_iff.mpr done.nodup)
  exact hle.imp₂ (fun a b hab hne ↦ lt_of_le_of_ne hab hne) hne

/-! ## Fingerprints say what an item says -/

mutual

theorem canonical_eq (v : Json) : canonical v = v.inOrder.stringify := by
  cases v with
  | arr items => rw [canonical, inOrder, stringify_arr, canonicalItems_eq]
  | obj members =>
    rw [canonical, inOrder, stringify_obj, canonicalMembers_eq, ← map_insertionSort nameLe]
    · rw [List.map_map]
      rfl
    · intro m _ m' _
      rfl
  | _ => rfl

theorem canonicalItems_eq (items : List Json) :
    canonicalItems items = (inOrderItems items).map stringify := by
  cases items with
  | nil => rfl
  | cons item items => rw [canonicalItems, inOrderItems, map_cons, canonical_eq, canonicalItems_eq]

theorem canonicalMembers_eq (members : List (JsString × Json)) :
    canonicalMembers members = (inOrderMembers members).map fun m ↦ (m.1, m.2.stringify) := by
  cases members with
  | nil => rfl
  | cons m members =>
    rw [canonicalMembers, inOrderMembers, map_cons, canonical_eq, canonicalMembers_eq]

end

variable {v w : Json}

theorem canonical_eq_iff (hv : v.Decimal) (hw : w.Decimal) :
    canonical v = canonical w ↔ SameContent v w := by
  rw [canonical_eq, canonical_eq]
  refine ⟨fun h ↦ ?_, fun h ↦ congrArg stringify h⟩
  have hparse := parse_stringify (decimal_inOrder v hv)
  rw [h, parse_stringify (decimal_inOrder w hw)] at hparse
  exact (Option.some.inj hparse).symm

section Hash

variable {sha256} (hsha : NoCollision sha256)

include hsha

theorem fingerprint_eq_iff (hv : v.Decimal) (hw : w.Decimal) :
    nativeResponseFingerprint sha256 v = nativeResponseFingerprint sha256 w ↔ SameContent v w := by
  rw [← canonical_eq_iff hv hw]
  exact ⟨hsha v w, congrArg sha256⟩

theorem identity_eq_iff (hv : v.Decimal) (hw : w.Decimal) :
    identity sha256 v = identity sha256 w ↔ whose v = whose w := by
  have hnamed : ∀ id hash, js "id:" ++ id ≠ js "body:" ++ hash := by
    intro id hash h
    exact absurd (List.cons.inj h).1 (by decide)
  have hbody := fingerprint_eq_iff hsha hv hw
  unfold identity whose
  split <;> split
  · rw [append_cancel_left_eq, Identity.named.injEq]
  · exact iff_of_false (hnamed _ _) nofun
  · exact iff_of_false (fun h ↦ hnamed _ _ h.symm) nofun
  · rw [append_cancel_left_eq, Identity.body.injEq]
    exact hbody

end Hash

/-! ## Where the recorded items stand -/

open Supersequence

variable {sha256}

/-- The table knows where each of the items stands, and nothing else. -/
structure Positions (sha256 : JsString → JsString) (observed : List Json)
    (positions : OMap JsString ℕ) : Prop where
  found : ∀ k p, positions.get? k = some p → ∃ front a post,
    observed = front ++ a :: post ∧ front.length = p ∧ identity sha256 a = k
  missing : ∀ k, positions.get? k = none → k ∉ keys (identity sha256) observed

theorem positions_nil : Positions sha256 [] .empty := ⟨nofun, fun _ _ ↦ not_mem_nil⟩

theorem Positions.has_iff {observed : List Json} {positions : OMap JsString ℕ}
    (h : Positions sha256 observed positions) (k : JsString) :
    positions.has k = true ↔ k ∈ keys (identity sha256) observed := by
  rw [OMap.has_iff]
  constructor
  · rintro ⟨p, hp⟩
    obtain ⟨front, a, post, rfl, -, rfl⟩ := h.found k p hp
    exact List.mem_map_of_mem (mem_append_right _ mem_cons_self)
  · intro hk
    cases hget : positions.get? k with
    | none => exact absurd hk (h.missing k hget)
    | some p => exact ⟨p, rfl⟩

theorem Positions.record {observed : List Json} {positions : OMap JsString ℕ}
    (h : Positions sha256 observed positions) (item : Json) :
    Positions sha256 (observed ++ [item])
      (positions.set (identity sha256 item) observed.length) := by
  refine ⟨fun k p hp ↦ ?_, fun k hk ↦ ?_⟩
  · rw [OMap.get?_set] at hp
    split at hp
    · rename_i hkey
      exact ⟨observed, item, [], rfl, Option.some.inj hp, hkey.symm⟩
    · obtain ⟨front, a, post, rfl, hlen, hid⟩ := h.found k p hp
      exact ⟨front, a, post ++ [item], by simp, hlen, hid⟩
  · rw [OMap.get?_set] at hk
    split at hk
    · cases hk
    · rename_i hkey
      rw [Supersequence.keys_append, mem_append]
      rintro (hmem | hmem)
      · exact h.missing k hk hmem
      · exact hkey (mem_singleton.mp hmem)

variable {passed : List Json}

theorem recordPositions_from (l : List Json) {positions : OMap JsString ℕ}
    (h : Positions sha256 passed positions) (hnodup : (keys (identity sha256) passed).Nodup) :
    if (keys (identity sha256) (passed ++ l)).Nodup then
      ∃ positions', (l.zipIdx passed.length).foldlM (recordPosition sha256) positions =
        .ok positions' ∧ Positions sha256 (passed ++ l) positions'
    else ∃ e, (l.zipIdx passed.length).foldlM (recordPosition sha256) positions = .error e := by
  induction l generalizing passed positions with
  | nil =>
    rw [append_nil, if_pos hnodup]
    exact ⟨positions, rfl, h⟩
  | cons item l ih =>
    rw [zipIdx_cons, foldlM_cons]
    by_cases hitem : identity sha256 item ∈ keys (identity sha256) passed
    · have hrepeated : ¬ (keys (identity sha256) (passed ++ item :: l)).Nodup := by
        rw [Supersequence.keys_append, Supersequence.keys_cons, nodup_append]
        exact fun hnd ↦ hnd.2.2 _ hitem _ mem_cons_self rfl
      rw [if_neg hrepeated, recordPosition, if_pos ((h.has_iff _).mpr hitem)]
      exact ⟨_, rfl⟩
    · have hfresh : ¬ positions.has (identity sha256 item) = true :=
        fun hhas ↦ hitem ((h.has_iff _).mp hhas)
      have hnodup' : (keys (identity sha256) (passed ++ [item])).Nodup := by
        rw [Supersequence.keys_append]
        exact hnodup.append (nodup_singleton _) (by simpa using hitem)
      have hih := ih (h.record item) hnodup'
      rw [length_append, length_singleton, append_assoc, singleton_append]
        at hih
      rw [recordPosition, if_neg hfresh]
      exact hih

theorem recordPositions_ok {observed : List Json} (h : (keys (identity sha256) observed).Nodup) :
    ∃ positions, recordPositions sha256 observed = .ok positions ∧
      Positions sha256 observed positions := by
  have hfrom := recordPositions_from observed (@positions_nil sha256) nodup_nil
  rwa [nil_append, if_pos h] at hfrom

theorem recordPositions_error {observed : List Json}
    (h : ¬ (keys (identity sha256) observed).Nodup) :
    ∃ e, recordPositions sha256 observed = .error e := by
  have hfrom := recordPositions_from observed (@positions_nil sha256) nodup_nil
  rwa [nil_append, if_neg h] at hfrom

/-! ## Placing the terminal's items -/

/-- The two items have one fingerprint. -/
def SamePrint (sha256 : JsString → JsString) (a b : Json) : Prop :=
  nativeResponseFingerprint sha256 a = nativeResponseFingerprint sha256 b

section Placing

variable {observed : List Json} {positions : OMap JsString ℕ}
  (hpos : Positions sha256 observed positions)

variable {st : Merge} {item : Json}

theorem place_repeated (h : identity sha256 item ∈ st.seen) :
    ∃ e, place sha256 observed positions st item = .error e :=
  ⟨_, if_pos h⟩

include hpos

theorem place_other (hseen : identity sha256 item ∉ st.seen)
    (h : identity sha256 item ∉ keys (identity sha256) observed) :
    place sha256 observed positions st item =
      .ok { st with result := st.result ++ [item], seen := st.seen ++ [identity sha256 item] } := by
  have hget : positions.get? (identity sha256 item) = none :=
    OMap.has_eq_false_iff.mp (Bool.eq_false_iff.mpr fun hhas ↦ h ((hpos.has_iff _).mp hhas))
  simp only [place, if_neg hseen, hget]

theorem get?_of_split (hnodup : (keys (identity sha256) observed).Nodup) {front post : List Json}
    {a : Json} (hsplit : observed = front ++ a :: post) :
    positions.get? (identity sha256 a) = some front.length := by
  cases hget : positions.get? (identity sha256 a) with
  | none =>
    refine absurd ?_ (hpos.missing _ hget)
    rw [hsplit]
    exact List.mem_map_of_mem (mem_append_right _ mem_cons_self)
  | some p =>
    obtain ⟨front', a', post', hsplit', rfl, hid⟩ := hpos.found _ _ hget
    have hone : (keys (identity sha256) observed)[front.length]? =
        (keys (identity sha256) observed)[front'.length]? := by
      conv_lhs => rw [hsplit]
      conv_rhs => rw [hsplit']
      simp [Supersequence.keys, hid]
    have hlt : front.length < (keys (identity sha256) observed).length := by
      rw [hsplit]
      simp [Supersequence.keys]
    rw [(getElem?_inj hlt hnodup).mp hone]

theorem place_passed (hnodup : (keys (identity sha256) observed).Nodup) {rest : List Json}
    (hobserved : observed = passed ++ rest) (hcursor : passed.length = st.cursor)
    (h : identity sha256 item ∈ keys (identity sha256) passed) :
    ∃ e, place sha256 observed positions st item = .error e := by
  by_cases hseen : identity sha256 item ∈ st.seen
  · exact place_repeated hseen
  obtain ⟨a, ha, hid⟩ := Supersequence.mem_keys.mp h
  obtain ⟨front, post, rfl⟩ := append_of_mem ha
  have hget := get?_of_split hpos hnodup (hobserved.trans (append_assoc _ _ _))
  have hlt : front.length < st.cursor := by
    rw [← hcursor]
    simp
  rw [hid] at hget
  simp only [place, if_neg hseen, hget, if_pos (Or.inl hlt)]
  exact ⟨_, rfl⟩

theorem place_shared (hnodup : (keys (identity sha256) observed).Nodup) {a : Json}
    {front post : List Json} (hobserved : observed = passed ++ (front ++ a :: post))
    (hcursor : passed.length = st.cursor) (hseen : identity sha256 item ∉ st.seen)
    (hid : identity sha256 a = identity sha256 item) :
    place sha256 observed positions st item =
      if nativeResponseFingerprint sha256 a = nativeResponseFingerprint sha256 item then
        .ok ⟨st.result ++ front ++ [item], st.seen ++ [identity sha256 item],
          (passed ++ (front ++ [a])).length⟩
      else .error (js "Native terminal output contradicts completed wire items.") := by
  have hsplit : observed = (passed ++ front) ++ a :: post := by rw [hobserved, append_assoc]
  have hget := get?_of_split hpos hnodup hsplit
  rw [hid] at hget
  have hitem : observed[(passed ++ front).length]? = some a := by
    rw [hsplit]
    simp
  have hmissing : (observed.take (passed ++ front).length).drop st.cursor = front := by
    rw [hsplit, take_left, ← hcursor, drop_left]
  have hge : ¬ (passed ++ front).length < st.cursor := by
    rw [← hcursor]
    simp
  simp only [place, if_neg hseen, hget, hitem, hmissing, Option.map_some, hge, false_or]
  by_cases hsame : nativeResponseFingerprint sha256 a = nativeResponseFingerprint sha256 item
  · rw [if_pos hsame, if_neg (by simp [hsame])]
    simp [Nat.add_assoc]
  · rw [if_neg hsame, if_pos fun heq ↦ hsame (Option.some.inj heq).symm]

end Placing

/-- The items can still be placed, with these recorded items gone by and those ahead. -/
structure Fits (sha256 : JsString → JsString) (st : Merge) (passed rest items : List Json) :
    Prop where
  fresh : ∀ k ∈ keys (identity sha256) items, k ∉ st.seen
  ahead : Ahead (identity sha256) (SamePrint sha256) passed rest items

theorem fresh_cons {seen : List JsString} {item : Json} {items : List Json} :
    (∀ k ∈ keys (identity sha256) (item :: items), k ∉ seen) ∧
      identity sha256 item ∉ keys (identity sha256) items ↔
    identity sha256 item ∉ seen ∧
      ∀ k ∈ keys (identity sha256) items, k ∉ seen ++ [identity sha256 item] := by
  rw [Supersequence.keys_cons, forall_mem_cons]
  constructor
  · rintro ⟨⟨hitem, hitems⟩, hne⟩
    refine ⟨hitem, fun k hk hmem ↦ ?_⟩
    rcases mem_append.mp hmem with hmem | hmem
    · exact hitems k hk hmem
    · exact hne (mem_singleton.mp hmem ▸ hk)
  · rintro ⟨hitem, hitems⟩
    refine ⟨⟨hitem, fun k hk hmem ↦ hitems k hk (mem_append_left _ hmem)⟩, fun hmem ↦ ?_⟩
    exact hitems _ hmem (mem_append_right _ (mem_singleton_self _))

section Steps

variable {observed : List Json} {positions : OMap JsString ℕ}
  (hpos : Positions sha256 observed positions)
  (hnodup : (keys (identity sha256) observed).Nodup)

include hpos hnodup

/-- **Placing one item.**  Either it contradicts the recorded items, or it goes in, and what can be
placed behind it is what could be placed with it. -/
theorem place_cases (item : Json) (items : List Json) {st : Merge} {rest : List Json}
    (hobserved : observed = passed ++ rest) (hcursor : passed.length = st.cursor) :
    ((∃ e, place sha256 observed positions st item = .error e) ∧
      ¬ Fits sha256 st passed rest (item :: items)) ∨
    ∃ st₁ passed₁ rest₁, place sha256 observed positions st item = .ok st₁ ∧
      observed = passed₁ ++ rest₁ ∧ passed₁.length = st₁.cursor ∧
      (Fits sha256 st passed rest (item :: items) ↔ Fits sha256 st₁ passed₁ rest₁ items) ∧
      (Fits sha256 st passed rest (item :: items) → ∀ r,
        Woven (identity sha256) (SamePrint sha256) rest₁ items r → ∃ r',
          Woven (identity sha256) (SamePrint sha256) rest (item :: items) r' ∧
          st₁.result ++ r = st.result ++ r') := by
  by_cases hseen : identity sha256 item ∈ st.seen
  · exact .inl ⟨place_repeated hseen, fun h ↦ h.fresh _ mem_cons_self hseen⟩
  by_cases hpassed : identity sha256 item ∈ keys (identity sha256) passed
  · exact .inl ⟨place_passed hpos hnodup hobserved hcursor hpassed, fun h ↦
      h.ahead.ahead _ mem_cons_self hpassed⟩
  by_cases hrest : identity sha256 item ∈ keys (identity sha256) rest
  · obtain ⟨a, ha, hid⟩ := Supersequence.mem_keys.mp hrest
    obtain ⟨front, post, rfl⟩ := append_of_mem ha
    have hplace := place_shared hpos hnodup hobserved hcursor hseen hid
    have hnodup' : (keys (identity sha256) (front ++ a :: post)).Nodup := by
      rw [hobserved, Supersequence.keys_append] at hnodup
      exact (nodup_append.mp hnodup).2.1
    have hahead : Ahead (identity sha256) (SamePrint sha256) passed (front ++ a :: post)
        (item :: items) ↔ _ := ahead_both hnodup' hpassed hid
    by_cases hsame : nativeResponseFingerprint sha256 a = nativeResponseFingerprint sha256 item
    · rw [if_pos hsame] at hplace
      refine .inr ⟨_, passed ++ (front ++ [a]), post, hplace, ?_, rfl, ?_, ?_⟩
      · rw [hobserved]
        simp
      · constructor
        · intro h
          have hb := hahead.mp h.ahead
          exact ⟨(fresh_cons.mp ⟨h.fresh, hb.1⟩).2, hb.2.2⟩
        · intro h
          have hf := fresh_cons.mpr ⟨hseen, h.fresh⟩
          exact ⟨hf.1, hahead.mpr ⟨hf.2, hsame, h.ahead⟩⟩
      · intro h r hr
        have hb := hahead.mp h.ahead
        refine ⟨front ++ item :: r, (Woven.both hid hsame hr).append_first ?_, ?_⟩
        · intro k hk hmem
          rcases mem_cons.mp hmem with rfl | hmem
          · rw [Supersequence.keys_append, Supersequence.keys_cons, nodup_append] at hnodup'
            exact hnodup'.2.2 _ hk _ (hid ▸ mem_cons_self) rfl
          · refine hb.2.2.ahead k hmem ?_
            rw [Supersequence.keys_append, Supersequence.keys_append]
            exact mem_append_right _ (mem_append_left _ hk)
        · simp
    · rw [if_neg hsame] at hplace
      exact .inl ⟨⟨_, hplace⟩, fun h ↦ hsame (hahead.mp h.ahead).2.1⟩
  · have hother : identity sha256 item ∉ keys (identity sha256) observed := by
      rw [hobserved, Supersequence.keys_append, mem_append]
      exact fun h ↦ h.elim hpassed hrest
    have hahead : Ahead (identity sha256) (SamePrint sha256) passed rest (item :: items) ↔ _ :=
      ahead_second hpassed hrest
    refine .inr ⟨_, passed, rest, place_other hpos hseen hother, hobserved, hcursor, ?_, ?_⟩
    · constructor
      · intro h
        have hb := hahead.mp h.ahead
        exact ⟨(fresh_cons.mp ⟨h.fresh, hb.1⟩).2, hb.2⟩
      · intro h
        have hf := fresh_cons.mpr ⟨hseen, h.fresh⟩
        exact ⟨hf.1, hahead.mpr ⟨hf.2, h.ahead⟩⟩
    · exact fun _ r hr ↦ ⟨item :: r, .second hrest hr, by simp⟩

/-- **Placing the items from here on** succeeds where they fit, and weaves them into the recorded
items ahead. -/
theorem placeAll (items : List Json) {st : Merge} {rest : List Json}
    (hobserved : observed = passed ++ rest) (hcursor : passed.length = st.cursor) :
    ((∃ e, items.foldlM (place sha256 observed positions) st = .error e) ∧
      ¬ Fits sha256 st passed rest items) ∨
    ∃ st', items.foldlM (place sha256 observed positions) st = .ok st' ∧
      Fits sha256 st passed rest items ∧
      ∃ r, Woven (identity sha256) (SamePrint sha256) rest items r ∧
        st'.result ++ observed.drop st'.cursor = st.result ++ r := by
  induction items generalizing st passed rest with
  | nil =>
    refine .inr ⟨st, rfl, ⟨nofun, ahead_nil _ _⟩, rest, .rest rest, ?_⟩
    rw [hobserved, ← hcursor, drop_left]
  | cons item items ih =>
    rw [foldlM_cons]
    rcases place_cases hpos hnodup item items hobserved hcursor with
      ⟨⟨e, he⟩, hfits⟩ | ⟨st₁, passed₁, rest₁, hplace, hobserved₁, hcursor₁, hfits, hwoven⟩
    · rw [he]
      exact .inl ⟨⟨e, rfl⟩, hfits⟩
    · rw [hplace, hfits]
      rcases ih hobserved₁ hcursor₁ with herror | ⟨st', hfold, hfits₁, r, hr, hresult⟩
      · exact .inl herror
      · obtain ⟨r', hr', heq⟩ := hwoven (hfits.mpr hfits₁) r hr
        exact .inr ⟨st', hfold, hfits₁, r', hr', hresult.trans heq⟩

end Steps

/-! ## The whole merge -/

theorem output_silent {done : OMap ℕ Json} {terminal : Option Json} (h : Silent terminal) :
    nativeResponseOutput sha256 done terminal = .ok (observedItems done) := by
  rcases h with rfl | rfl | rfl <;> rfl

/-- A list of the terminal's is merged where the identities and fingerprints allow it. -/
theorem output_list (done : OMap ℕ Json) {items : List Json} (hne : items ≠ []) :
    ((∃ e, nativeResponseOutput sha256 done (some (.arr items)) = .error e) ∧
      ¬ ((∀ item ∈ items, item.isObject = true) ∧
        Consistent (identity sha256) (SamePrint sha256) (observedItems done) items)) ∨
    ∃ r, nativeResponseOutput sha256 done (some (.arr items)) = .ok r ∧
      (∀ item ∈ items, item.isObject = true) ∧
      Consistent (identity sha256) (SamePrint sha256) (observedItems done) items ∧
      Woven (identity sha256) (SamePrint sha256) (observedItems done) items r := by
  have houtput : nativeResponseOutput sha256 done (some (.arr items)) =
      if items.any fun item ↦ !item.isObject then .error (js "Invalid native response output.")
      else (do
        let positions ← recordPositions sha256 (observedItems done)
        let st ← items.foldlM (place sha256 (observedItems done) positions) ⟨[], [], 0⟩
        .ok (st.result ++ (observedItems done).drop st.cursor)) := by
    cases items with
    | nil => exact absurd rfl hne
    | cons item items => rfl
  rw [houtput]
  by_cases hobjects : ∀ item ∈ items, item.isObject = true
  · rw [if_neg (by simpa using hobjects)]
    by_cases hnodup : (keys (identity sha256) (observedItems done)).Nodup
    · obtain ⟨positions, hrecord, hpos⟩ := recordPositions_ok hnodup
      rw [hrecord]
      have hfits : Fits sha256 ⟨[], [], 0⟩ [] (observedItems done) items ↔
          Consistent (identity sha256) (SamePrint sha256) (observedItems done) items := by
        rw [consistent_iff, and_iff_right hnodup]
        exact ⟨fun h ↦ h.ahead, fun h ↦ ⟨fun _ _ ↦ not_mem_nil, h⟩⟩
      have hstart : ([] : List Json).length = (Merge.mk [] [] 0).cursor := rfl
      rcases placeAll hpos hnodup items (nil_append _).symm hstart with
        ⟨⟨e, he⟩, hnot⟩ | ⟨st', hfold, hyes, r, hr, hresult⟩
      · refine .inl ⟨⟨e, ?_⟩, fun h ↦ hnot (hfits.mpr h.2)⟩
        simp only [bind, Except.bind, he]
      · refine .inr ⟨r, ?_, hobjects, hfits.mp hyes, hr⟩
        simp only [bind, Except.bind, hfold]
        exact congrArg Except.ok hresult
    · obtain ⟨e, he⟩ := recordPositions_error hnodup
      rw [he]
      exact .inl ⟨⟨e, rfl⟩, fun h ↦ hnodup h.2.first⟩
  · rw [if_pos (by simpa using hobjects)]
    exact .inl ⟨⟨_, rfl⟩, fun h ↦ hobjects h.1⟩

theorem agree (hsha : NoCollision sha256) {on : List Json} (h : ∀ item ∈ on, item.Decimal) :
    Agree (identity sha256) whose (SamePrint sha256) SameContent on :=
  ⟨fun _ ha _ hb ↦ identity_eq_iff hsha (h _ ha) (h _ hb),
    fun _ ha _ hb ↦ fingerprint_eq_iff hsha (h _ ha) (h _ hb)⟩

/-- **Merging a sparse terminal loses and reorders nothing.**  A terminal that reports nothing leaves
the recorded items as they are, in the order of their indexes.  Any other is merged exactly where it
is a list of objects, no identity is repeated within either list, what has one identity says the
same, and what both lists have stands in one order; then the result holds everything of both. -/
theorem sparse_merged (hsha : NoCollision sha256) (done : OMap ℕ Json) (terminal : Option Json)
    (hdone : ∀ entry ∈ done.entries, entry.2.Decimal)
    (hterminal : ∀ v, terminal = some v → v.Decimal) :
    ∃ observed, InIndexOrder done observed ∧
      (Silent terminal → nativeResponseOutput sha256 done terminal = .ok observed) ∧
      (¬ Silent terminal → ((∃ r, nativeResponseOutput sha256 done terminal = .ok r) ↔
          ∃ items, terminal = some (.arr items) ∧ (∀ item ∈ items, item.isObject = true) ∧
            Consistent whose SameContent observed items) ∧
        ∀ r, nativeResponseOutput sha256 done terminal = .ok r →
          ∃ items, terminal = some (.arr items) ∧ Merged whose SameContent observed items r) := by
  obtain ⟨entries, hperm, hsorted, hobserved⟩ := observedItems_inIndexOrder done
  refine ⟨observedItems done, ⟨entries, hperm, hsorted, hobserved⟩, output_silent, fun hloud ↦ ?_⟩
  have hdecimal : ∀ item ∈ observedItems done, item.Decimal := by
    intro item hitem
    rw [hobserved] at hitem
    obtain ⟨entry, hentry, rfl⟩ := List.mem_map.mp hitem
    exact hdone entry (hperm.mem_iff.mp hentry)
  -- Anything but a list is refused.
  have hlist : ∀ r, nativeResponseOutput sha256 done terminal = .ok r →
      ∃ items, terminal = some (.arr items) := by
    intro r hr
    rcases terminal with _ | v
    · exact absurd (.inl rfl) hloud
    · cases v with
      | null => exact absurd (.inr (.inl rfl)) hloud
      | arr items => exact ⟨items, rfl⟩
      | _ => exact absurd hr (by nofun)
  have hitems : ∀ items, terminal = some (.arr items) →
      items ≠ [] ∧ Agree (identity sha256) whose (SamePrint sha256) SameContent
        (observedItems done ++ items) := by
    rintro items rfl
    refine ⟨fun h ↦ hloud (.inr (.inr (by rw [h]))), agree hsha fun item hitem ↦ ?_⟩
    rcases mem_append.mp hitem with hitem | hitem
    · exact hdecimal item hitem
    · cases hterminal _ rfl with
      | arr h => exact h item hitem
  constructor
  · constructor
    · rintro ⟨r, hr⟩
      obtain ⟨items, rfl⟩ := hlist r hr
      obtain ⟨hne, hagree⟩ := hitems items rfl
      rcases @output_list sha256 done items hne with ⟨⟨e, he⟩, -⟩ | ⟨-, -, hobjects, hcon, -⟩
      · rw [he] at hr
        exact absurd hr nofun
      · exact ⟨items, rfl, hobjects, hcon.congr hagree⟩
    · rintro ⟨items, rfl, hobjects, hcon⟩
      obtain ⟨hne, hagree⟩ := hitems items rfl
      rcases @output_list sha256 done items hne with ⟨-, hnot⟩ | ⟨r, hr, -⟩
      · exact absurd ⟨hobjects, hcon.congr hagree.symm⟩ hnot
      · exact ⟨r, hr⟩
  · intro r hr
    obtain ⟨items, rfl⟩ := hlist r hr
    obtain ⟨hne, hagree⟩ := hitems items rfl
    rcases @output_list sha256 done items hne with ⟨⟨e, he⟩, -⟩ | ⟨r', hr', -, hcon, hwoven⟩
    · rw [he] at hr
      exact absurd hr nofun
    · obtain rfl : r' = r := Except.ok.inj (hr'.symm.trans hr)
      have hcon' := hcon.congr hagree
      exact ⟨items, rfl, (hwoven.congr hagree).merged hcon'.first hcon'.second⟩

/-- An item with an id and a text. -/
def namedItem (id text : String) : Json :=
  .obj [(js "id", .str (js id)), (js "text", .str (js text))]

theorem namedItem_decimal (id text : String) : (namedItem id text).Decimal :=
  .obj fun m hm ↦ by
    rcases mem_cons.mp hm with rfl | hm
    · exact .str _
    · rw [mem_singleton.mp hm]
      exact .str _

/-- Two recorded items, the later one first. -/
def recordedPair : OMap ℕ Json := ⟨[(1, namedItem "b" "y"), (0, namedItem "a" "x")], by decide⟩

/-- The terminal leaves out the first of them and reports one more. -/
def sparseTerminal : Option Json := some (.arr [namedItem "b" "y", namedItem "c" "z"])

theorem pair_merged : ∃ observed, InIndexOrder recordedPair observed ∧ (Silent sparseTerminal →
        nativeResponseOutput (fun text ↦ text) recordedPair sparseTerminal = .ok observed) ∧
      (¬ Silent sparseTerminal →
        ((∃ r, nativeResponseOutput (fun text ↦ text) recordedPair sparseTerminal = .ok r) ↔
          ∃ items, sparseTerminal = some (.arr items) ∧ (∀ item ∈ items, item.isObject = true) ∧
            Consistent whose SameContent observed items) ∧
        ∀ r, nativeResponseOutput (fun text ↦ text) recordedPair sparseTerminal = .ok r →
          ∃ items, sparseTerminal = some (.arr items) ∧
            Merged whose SameContent observed items r) := by
  refine sparse_merged (fun _ _ h ↦ h) recordedPair sparseTerminal ?_ ?_
  · intro entry hentry
    rcases mem_cons.mp hentry with rfl | hentry
    · exact namedItem_decimal _ _
    · rw [mem_singleton.mp hentry]
      exact namedItem_decimal _ _
  · rintro v hv
    obtain rfl := Option.some.inj hv
    refine .arr fun item hitem ↦ ?_
    rcases mem_cons.mp hitem with rfl | hitem
    · exact namedItem_decimal _ _
    · rw [mem_singleton.mp hitem]
      exact namedItem_decimal _ _

example : nativeResponseOutput (fun text ↦ text) recordedPair sparseTerminal =
    .ok [namedItem "a" "x", namedItem "b" "y", namedItem "c" "z"] := rfl

/-- One item recorded under two indexes. -/
def recordedTwice : OMap ℕ Json := ⟨[(0, namedItem "a" "x"), (1, namedItem "a" "x")], by decide⟩

/-- A terminal that reports nothing is refused for nothing: an identity is in the result twice, and
what is not a list is let through. -/
theorem silent_repeats : nativeResponseOutput (fun text ↦ text) recordedTwice (some (.arr [])) =
      .ok [namedItem "a" "x", namedItem "a" "x"] ∧
    ¬ (keys whose [namedItem "a" "x", namedItem "a" "x"]).Nodup ∧
    nativeResponseOutput (fun text ↦ text) recordedTwice (some .null) =
      .ok [namedItem "a" "x", namedItem "a" "x"] := by
  refine ⟨rfl, fun h ↦ ?_, rfl⟩
  exact (nodup_cons.mp h).1 (mem_singleton_self _)

end NativeOutput
