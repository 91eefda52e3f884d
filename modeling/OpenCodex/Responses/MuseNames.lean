import OpenCodex.Data.FirstFree
import OpenCodex.Data.JsonText
import OpenCodex.Data.OMap

/-!
# Tool names for an upstream that takes 64 characters

A tool name that the upstream would refuse is replaced by one that it takes: the beginning of the
name, what it cannot hold made into underscores, and eight digits of a hash of the whole name.  The
names that need no replacement are claimed first; the others are hashed with one salt after another
until the result is free.

`sha256` is the hash, as hexadecimal digits.  The search for a salt has no bound in the source, and
none need exist for an arbitrary function; here it runs on fuel, and `Salted` says that the hashes
of every name take more values than there are names, which is when the search ends.
-/

set_option autoImplicit false

open List

namespace MuseToolNames

open Json (decimal)

/-! ## Names -/

def museToolNameMax : ℕ := 64

def museToolNamePrefix : ℕ := 55

def museToolNameHashLen : ℕ := 8

/-- `[a-zA-Z0-9_-]` -/
def isSafe (c : CodeUnit) : Bool :=
  0x61 ≤ c && c ≤ 0x7a || 0x41 ≤ c && c ≤ 0x5a || 0x30 ≤ c && c ≤ 0x39 || c == 0x5f || c == 0x2d

def sanitizeMuseToolName (name : JsString) : JsString :=
  name.map fun c ↦ if isSafe c then c else 0x5f

/-- `^[a-zA-Z0-9_-]{1,64}$` -/
def isPassThroughMuseToolName (name : JsString) : Bool :=
  1 ≤ name.length && name.length ≤ museToolNameMax && name.all isSafe &&
    sanitizeMuseToolName name == name

section

variable (sha256 : JsString → JsString)

def hashSuffix (originalName : JsString) (salt : ℕ) : JsString :=
  let hashInput := if salt = 0 then originalName else originalName ++ js "#" ++ decimal salt
  (sha256 hashInput).take museToolNameHashLen

/-- `sanitizeMuseToolName(originalName).slice(0, …) || "tool"` -/
def wireBase (originalName : JsString) : JsString :=
  let base := (sanitizeMuseToolName originalName).take museToolNamePrefix
  if base = [] then js "tool" else base

def saltedName (originalName : JsString) (salt : ℕ) : JsString :=
  wireBase originalName ++ js "_" ++ hashSuffix sha256 originalName salt

/-- The loop over the salts. -/
def firstFree (used : List JsString) (originalName : JsString) : ℕ → ℕ → Option JsString
  | 0, _ => none
  | fuel + 1, salt =>
    let candidate := saltedName sha256 originalName salt
    if used.contains candidate then firstFree used originalName fuel (salt + 1) else some candidate

/-- The name, which the caller adds to those that are used. -/
def museWireToolName (fuel : ℕ) (originalName : JsString) (used : List JsString) :
    Option JsString :=
  if isPassThroughMuseToolName originalName && !used.contains originalName then some originalName
  else firstFree sha256 used originalName fuel 0

/-! ## The plan -/

/-- Collects a name that is neither empty nor collected. -/
def addCollectedName (names : List JsString) : Option JsString → List JsString
  | none => names
  | some name => if name = [] ∨ name ∈ names then names else names ++ [name]

structure AliasPlan where
  wireByOriginal : OMap JsString JsString
  used : List JsString

/-- The first pass claims the names that stay. -/
def claimPassThrough (plan : AliasPlan) (name : JsString) : AliasPlan :=
  if isPassThroughMuseToolName name
  then ⟨plan.wireByOriginal.set name name, plan.used ++ [name]⟩ else plan

/-- The second pass finds one for each of the others. -/
def claimWire (fuel : ℕ) (plan : AliasPlan) (name : JsString) : Option AliasPlan :=
  if plan.wireByOriginal.has name then some plan
  else (museWireToolName sha256 fuel name plan.used).map fun wire ↦
    ⟨plan.wireByOriginal.set name wire, plan.used ++ [wire]⟩

def addAlias (aliases : OMap JsString JsString) (entry : JsString × JsString) :
    OMap JsString JsString :=
  if entry.2 ≠ entry.1 then aliases.set entry.2 entry.1 else aliases

/-- `wireByOriginal` and `aliases` -/
def buildMuseToolNameAliasPlan (fuel : ℕ) (originalNames : List JsString) :
    Option (OMap JsString JsString × OMap JsString JsString) :=
  let unique := originalNames.foldl (fun unique name ↦ addCollectedName unique (some name)) []
  let plan := unique.foldl claimPassThrough ⟨.empty, []⟩
  (unique.foldlM (claimWire sha256 fuel) plan).map fun plan ↦
    (plan.wireByOriginal, plan.wireByOriginal.entries.foldl addAlias .empty)

/-- The hashes of each of the names take more values than there are names. -/
def Salted (names : List JsString) : Prop :=
  ∀ name ∈ names, ∀ used : List JsString, used.length ≤ names.length →
    ∃ salt, hashSuffix sha256 name salt ∉ used

/-- The digits of a hash, of which there are enough. -/
def Hexadecimal : Prop := ∀ text, museToolNameHashLen ≤ (sha256 text).length ∧
  (sha256 text).all isSafe = true

end

/-! ## What can be sent -/

theorem isSafe_underscore : isSafe 0x5f = true := by decide

theorem sanitize_of_all {name : JsString} (h : name.all isSafe = true) :
    sanitizeMuseToolName name = name := by
  conv_rhs => rw [← map_id name]
  refine map_congr_left fun c hc ↦ ?_
  rw [if_pos (all_eq_true.mp h c hc)]
  rfl

theorem isPassThrough_iff {name : JsString} : isPassThroughMuseToolName name = true ↔
    name ≠ [] ∧ name.length ≤ 64 ∧ name.all isSafe = true := by
  rw [isPassThroughMuseToolName]
  simp only [Bool.and_eq_true, decide_eq_true_eq, beq_iff_eq,
    Nat.one_le_iff_ne_zero, length_eq_zero_iff, ne_eq]
  exact ⟨fun ⟨⟨⟨h, hlength⟩, hall⟩, _⟩ ↦ ⟨h, hlength, hall⟩,
    fun ⟨h, hlength, hall⟩ ↦ ⟨⟨⟨h, hlength⟩, hall⟩, sanitize_of_all hall⟩⟩

theorem all_sanitize (name : JsString) : (sanitizeMuseToolName name).all isSafe = true := by
  rw [sanitizeMuseToolName, all_map, all_eq_true]
  intro c _
  rw [Function.comp_apply]
  split_ifs with h
  · exact h
  · exact isSafe_underscore

theorem all_wireBase (name : JsString) : (wireBase name).all isSafe = true := by
  rw [wireBase]
  split_ifs
  · decide
  · exact all_eq_true.mpr fun c hc ↦ all_eq_true.mp (all_sanitize name) c (mem_of_mem_take hc)

theorem length_wireBase (name : JsString) : (wireBase name).length ≤ 55 := by
  rw [wireBase]
  split_ifs
  · decide
  · exact length_take_le _ _

section

variable {sha256 : JsString → JsString} {name : JsString}

theorem isPassThrough_saltedName (hhex : Hexadecimal sha256) (salt : ℕ) :
    isPassThroughMuseToolName (saltedName sha256 name salt) = true := by
  refine isPassThrough_iff.mpr ⟨?_, ?_, ?_⟩
  · rw [saltedName, ne_eq, append_eq_nil_iff, append_eq_nil_iff]
    exact fun h ↦ absurd h.1.2 (by decide)
  · have hbase := length_wireBase name
    have hhash : (hashSuffix sha256 name salt).length ≤ 8 := length_take_le _ _
    rw [saltedName, length_append, length_append]
    have hunder : (js "_").length = 1 := rfl
    omega
  · rw [saltedName, all_append, all_append, all_wireBase, Bool.true_and]
    refine Bool.and_eq_true_iff.mpr ⟨by decide, all_eq_true.mpr fun c hc ↦ ?_⟩
    exact all_eq_true.mp (hhex _).2 c (mem_of_mem_take hc)

/-! ## The search for a salt -/

variable {used : List JsString}

theorem firstFree_eq (fuel salt : ℕ) : firstFree sha256 used name fuel salt =
    FirstFree.search (saltedName sha256 name) used fuel salt := by
  induction fuel generalizing salt with
  | zero => rfl
  | succ fuel ih =>
    rw [firstFree, FirstFree.search, ih]
    simp

theorem exists_firstFree {salt : ℕ} (h : saltedName sha256 name salt ∉ used) :
    ∃ salt', saltedName sha256 name salt' ∉ used ∧ ∀ fuel > salt,
      firstFree sha256 used name fuel 0 = some (saltedName sha256 name salt') := by
  obtain ⟨salt', hle, hfirst⟩ := FirstFree.IsFirst.exists_of_free h (Nat.zero_le salt)
  refine ⟨salt', hfirst.free, fun fuel hfuel ↦ ?_⟩
  rw [firstFree_eq, FirstFree.search_eq hfirst (by omega)]

theorem exists_free_salt {names : List JsString} (h : Salted sha256 names) (hname : name ∈ names)
    (hused : used.length ≤ names.length) : ∃ salt, saltedName sha256 name salt ∉ used := by
  obtain ⟨salt, hsalt⟩ := h name hname (used.map fun wire ↦ wire.drop ((wireBase name).length + 1))
    (by rwa [length_map])
  refine ⟨salt, fun hmem ↦ hsalt (mem_map.mpr ⟨_, hmem, ?_⟩)⟩
  have hlength : (wireBase name ++ js "_").length = (wireBase name).length + 1 := by
    rw [length_append]
    rfl
  rw [saltedName, ← hlength, drop_left]

end

/-! ## The plan gives every name one of its own -/

/-- What the plan of some names is for. -/
structure PlanFor (names : List JsString) (wireByOriginal aliases : OMap JsString JsString) :
    Prop where
  known : ∀ {name wire}, wireByOriginal.get? name = some wire → name ∈ names
  total : ∀ {name}, name ∈ names → ∃ wire, wireByOriginal.get? name = some wire
  passes : ∀ {name wire}, wireByOriginal.get? name = some wire →
    isPassThroughMuseToolName wire = true
  fixed : ∀ {name wire}, wireByOriginal.get? name = some wire →
    isPassThroughMuseToolName name = true → wire = name
  inj : ∀ {name name' wire}, wireByOriginal.get? name = some wire →
    wireByOriginal.get? name' = some wire → name = name'
  alias_iff : ∀ {name wire},
    aliases.get? wire = some name ↔ wireByOriginal.get? name = some wire ∧ wire ≠ name

/-- What holds of the plan while it is made. -/
structure Claims (names : List JsString) (plan : AliasPlan) : Prop where
  known : ∀ {name wire}, plan.wireByOriginal.get? name = some wire → name ∈ names
  passes : ∀ {name wire}, plan.wireByOriginal.get? name = some wire →
    isPassThroughMuseToolName wire = true
  fixed : ∀ {name wire}, plan.wireByOriginal.get? name = some wire →
    isPassThroughMuseToolName name = true → wire = name
  inj : ∀ {name name' wire}, plan.wireByOriginal.get? name = some wire →
    plan.wireByOriginal.get? name' = some wire → name = name'
  used : ∀ {name wire}, plan.wireByOriginal.get? name = some wire → wire ∈ plan.used
  size : plan.used.length = plan.wireByOriginal.size

section

variable {sha256 : JsString → JsString} {names : List JsString} {plan : AliasPlan}
  {name wire : JsString}

theorem claims_start (names : List JsString) : Claims names ⟨.empty, []⟩ where
  known h := nomatch h
  passes h := nomatch h
  fixed h := nomatch h
  inj h := nomatch h
  used h := nomatch h
  size := rfl

theorem Claims.claim (h : Claims names plan) (hname : name ∈ names)
    (hnew : plan.wireByOriginal.has name = false) (hfree : wire ∉ plan.used)
    (hpass : isPassThroughMuseToolName wire = true)
    (hfixed : isPassThroughMuseToolName name = true → wire = name) :
    Claims names ⟨plan.wireByOriginal.set name wire, plan.used ++ [wire]⟩ := by
  have hget : ∀ {other w}, (plan.wireByOriginal.set name wire).get? other = some w →
      other = name ∧ w = wire ∨ other ≠ name ∧ plan.wireByOriginal.get? other = some w := by
    intro other w hother
    rw [OMap.get?_set] at hother
    split_ifs at hother with heq
    · exact .inl ⟨heq, (Option.some.inj hother).symm⟩
    · exact .inr ⟨heq, hother⟩
  refine ⟨fun hother ↦ ?_, fun hother ↦ ?_, fun hother ↦ ?_, fun hother hother' ↦ ?_,
    fun hother ↦ ?_, ?_⟩
  · obtain ⟨rfl, -⟩ | ⟨-, hold⟩ := hget hother
    · exact hname
    · exact h.known hold
  · obtain ⟨-, rfl⟩ | ⟨-, hold⟩ := hget hother
    · exact hpass
    · exact h.passes hold
  · obtain ⟨rfl, rfl⟩ | ⟨-, hold⟩ := hget hother
    · exact hfixed
    · exact h.fixed hold
  · obtain ⟨rfl, rfl⟩ | ⟨-, hold⟩ := hget hother
    · obtain ⟨rfl, -⟩ | ⟨-, hold'⟩ := hget hother'
      · rfl
      · exact absurd (h.used hold') hfree
    · obtain ⟨-, rfl⟩ | ⟨-, hold'⟩ := hget hother'
      · exact absurd (h.used hold) hfree
      · exact h.inj hold hold'
  · obtain ⟨-, rfl⟩ | ⟨-, hold⟩ := hget hother
    · exact mem_append_right _ (mem_singleton_self _)
    · exact mem_append_left _ (h.used hold)
  · rw [length_append, OMap.size_set, hnew, h.size]
    rfl

/-! ### The first pass -/

variable {rest : List JsString}

theorem claims_passThrough (h : Claims names plan)
    (hused : ∀ wire ∈ plan.used, plan.wireByOriginal.has wire = true)
    (hnew : ∀ name ∈ rest, plan.wireByOriginal.has name = false) (hnodup : rest.Nodup)
    (hrest : rest ⊆ names) : Claims names (rest.foldl claimPassThrough plan) ∧
      ∀ name, (plan.wireByOriginal.has name = true ∨
        name ∈ rest ∧ isPassThroughMuseToolName name = true) →
          (rest.foldl claimPassThrough plan).wireByOriginal.has name = true := by
  induction rest generalizing plan with
  | nil => exact ⟨h, fun name hname ↦ hname.elim id fun hmem ↦ absurd hmem.1 (by simp)⟩
  | cons first rest ih =>
    obtain ⟨hfirst, hnodup⟩ := nodup_cons.mp hnodup
    obtain ⟨hmem, hrest⟩ := cons_subset.mp hrest
    have hfresh := hnew first mem_cons_self
    rw [foldl_cons, claimPassThrough]
    split_ifs with hpass
    · have hfree : first ∉ plan.used := by
        intro hmem
        rw [hused first hmem] at hfresh
        nomatch hfresh
      have hset : ∀ name, (plan.wireByOriginal.set first first).has name = true ↔
          name = first ∨ plan.wireByOriginal.has name = true := by
        intro name
        rw [OMap.has_set]
        simp
      obtain ⟨hclaims, hall⟩ := ih (h.claim hmem hfresh hfree hpass fun _ ↦ rfl)
        (fun wire hwire ↦ (hset wire).mpr ((mem_append.mp hwire).symm.imp
          mem_singleton.mp (hused wire)))
        (fun name hname ↦ by
          rw [← Bool.not_eq_true, hset, not_or]
          exact ⟨fun heq ↦ hfirst (heq ▸ hname), by simp [hnew name (.tail _ hname)]⟩)
        hnodup hrest
      refine ⟨hclaims, fun name hname ↦ hall name ?_⟩
      rw [hset, or_assoc]
      rcases hname with hold | ⟨hmem, hpass⟩
      · exact .inr (.inl hold)
      · exact (mem_cons.mp hmem).imp_right fun hmem ↦ .inr ⟨hmem, hpass⟩
    · obtain ⟨hclaims, hall⟩ := ih h hused (fun name hname ↦ hnew name (.tail _ hname)) hnodup hrest
      refine ⟨hclaims, fun name hname ↦ hall name (hname.imp_right fun hand ↦ ⟨?_, hand.2⟩)⟩
      exact (mem_cons.mp hand.1).resolve_left fun heq ↦ hpass (heq ▸ hand.2)

/-! ### The second pass -/

theorem Claims.size_le (h : Claims names plan) : plan.used.length ≤ names.length := by
  rw [h.size, ← OMap.length_keys]
  refine (plan.wireByOriginal.keys_nodup.subperm fun name hname ↦ ?_).length_le
  obtain ⟨wire, hwire⟩ := OMap.mem_keys.mp hname
  exact h.known hwire

theorem claims_wire (hhex : Hexadecimal sha256) (hsalt : Salted sha256 names)
    (h : Claims names plan) (hpass : ∀ name ∈ names, isPassThroughMuseToolName name = true →
      plan.wireByOriginal.has name = true) (hrest : rest ⊆ names) :
    ∃ fuel₀ plan', (∀ fuel > fuel₀, rest.foldlM (claimWire sha256 fuel) plan = some plan') ∧
      Claims names plan' ∧ ∀ name, (plan.wireByOriginal.has name = true ∨ name ∈ rest) →
        plan'.wireByOriginal.has name = true := by
  induction rest generalizing plan with
  | nil => exact ⟨0, plan, fun _ _ ↦ rfl, h, fun name hname ↦ hname.elim id (absurd · (by simp))⟩
  | cons first rest ih =>
    obtain ⟨hmem, hrest⟩ := cons_subset.mp hrest
    by_cases hhas : plan.wireByOriginal.has first = true
    · obtain ⟨fuel₀, plan', hrun, hclaims, hall⟩ := ih h hpass hrest
      refine ⟨fuel₀, plan', fun fuel hfuel ↦ ?_, hclaims, fun name hname ↦ hall name ?_⟩
      · rw [foldlM_cons, claimWire, if_pos hhas]
        exact hrun fuel hfuel
      · rcases hname with hold | hname
        · exact .inl hold
        · exact (mem_cons.mp hname).elim (fun heq ↦ .inl (heq ▸ hhas)) .inr
    · have hnot : isPassThroughMuseToolName first = false :=
        eq_false_of_ne_true fun hfirst ↦ hhas (hpass first hmem hfirst)
      obtain ⟨salt, hfree⟩ := exists_free_salt hsalt hmem h.size_le
      obtain ⟨salt', hunused, hwire⟩ := exists_firstFree hfree
      have hset (wire name : JsString) : (plan.wireByOriginal.set first wire).has name = true ↔
          name = first ∨ plan.wireByOriginal.has name = true := by
        rw [OMap.has_set]
        simp
      have hnew := h.claim hmem (eq_false_of_ne_true hhas) hunused
        (isPassThrough_saltedName hhex salt') fun hfirst ↦ by
          rw [hnot] at hfirst
          nomatch hfirst
      obtain ⟨fuel₀, plan', hrun, hclaims, hall⟩ := ih hnew
        (fun name hname hname' ↦ (hset _ name).mpr (.inr (hpass name hname hname'))) hrest
      refine ⟨max fuel₀ salt, plan', fun fuel hfuel ↦ ?_, hclaims, fun name hname ↦ hall name ?_⟩
      · rw [foldlM_cons, claimWire, if_neg hhas, museWireToolName, hnot, Bool.false_and,
          if_neg (by simp), hwire fuel (by omega)]
        exact hrun fuel (by omega)
      · rw [hset, or_assoc]
        rcases hname with hold | hname
        · exact .inr (.inl hold)
        · exact (mem_cons.mp hname).imp_right .inr

/-! ### The aliases -/

theorem get?_foldl_addAlias {entries : List (JsString × JsString)}
    (hnodup : (entries.map Prod.snd).Nodup) (aliases : OMap JsString JsString)
    (hnew : ∀ entry ∈ entries, aliases.get? entry.2 = none) {original : JsString} :
    (entries.foldl addAlias aliases).get? wire = some original ↔
      aliases.get? wire = some original ∨ (original, wire) ∈ entries ∧ wire ≠ original := by
  induction entries generalizing aliases with
  | nil => simp
  | cons entry entries ih =>
    rw [map_cons, nodup_cons] at hnodup
    obtain ⟨hentry, hnodup⟩ := hnodup
    have hfresh := hnew entry mem_cons_self
    rw [foldl_cons, addAlias]
    split_ifs with hne
    · rw [ih hnodup]
      · rw [OMap.get?_set, mem_cons]
        split_ifs with hwire
        · subst hwire
          rw [hfresh, Option.some.injEq]
          refine ⟨?_, ?_⟩
          · rintro (rfl | hmem)
            · exact .inr ⟨.inl rfl, hne⟩
            · exact .inr ⟨.inr hmem.1, hmem.2⟩
          · rintro (hnone | ⟨heq | hmem, hne'⟩)
            · cases hnone
            · exact .inl (congrArg Prod.fst heq).symm
            · exact .inr ⟨hmem, hne'⟩
        · have hother : (original, wire) ≠ entry := fun heq ↦ hwire (congrArg Prod.snd heq)
          simp [hother]
      · intro later hlater
        rw [OMap.get?_set_of_ne, hnew later (.tail _ hlater)]
        exact fun heq ↦ hentry (heq ▸ mem_map_of_mem hlater)
    · rw [ih hnodup aliases fun later hlater ↦ hnew later (.tail _ hlater), mem_cons]
      have hother : (original, wire) = entry → ¬wire ≠ original := by
        rintro rfl
        exact hne
      tauto

end

/-! ### The whole plan -/

theorem foldl_addCollectedName {names : List JsString} (done : List JsString)
    (hnodup : (done ++ names).Nodup) (hnonempty : ∀ name ∈ names, name ≠ []) :
    names.foldl (fun unique name ↦ addCollectedName unique (some name)) done = done ++ names := by
  induction names generalizing done with
  | nil => rw [append_nil]; rfl
  | cons name names ih =>
    have hnew : name ∉ done := by
      intro hmem
      exact (nodup_append.mp hnodup).2.2 name hmem name mem_cons_self rfl
    rw [foldl_cons, addCollectedName, if_neg, ih, append_assoc]
    · rfl
    · rwa [append_assoc]
    · exact fun other hmem ↦ hnonempty other (.tail _ hmem)
    · exact not_or.mpr ⟨hnonempty name mem_cons_self, hnew⟩

/-- **The plan**: with enough fuel there is one, and it gives every name a name of its own that can
be sent, and itself where it can be sent. -/
theorem exists_plan {sha256 : JsString → JsString} {names : List JsString}
    (hhex : Hexadecimal sha256) (hsalt : Salted sha256 names) (hnodup : names.Nodup)
    (hnonempty : ∀ name ∈ names, name ≠ []) :
    ∃ fuel₀ wireByOriginal aliases, PlanFor names wireByOriginal aliases ∧
      ∀ fuel > fuel₀, buildMuseToolNameAliasPlan sha256 fuel names =
        some (wireByOriginal, aliases) := by
  obtain ⟨hfirst, hpass⟩ := claims_passThrough (claims_start names) (by simp) (by simp) hnodup
    (List.Subset.refl names)
  obtain ⟨fuel₀, plan, hrun, hclaims, hall⟩ := claims_wire hhex hsalt hfirst
    (fun name hname hsafe ↦ hpass name (.inr ⟨hname, hsafe⟩)) (List.Subset.refl names)
  refine ⟨fuel₀, plan.wireByOriginal, plan.wireByOriginal.entries.foldl addAlias .empty, ?_,
    fun fuel hfuel ↦ ?_⟩
  · have hwires : (plan.wireByOriginal.entries.map Prod.snd).Nodup := by
      refine (nodup_map_iff_inj_on ?_).mpr fun a ha b hb heq ↦ ?_
      · exact List.Nodup.of_map _ plan.wireByOriginal.keys_nodup
      · have ha := OMap.mem_entries.mp (show (a.1, a.2) ∈ plan.wireByOriginal.entries from ha)
        have hb := OMap.mem_entries.mp (show (b.1, b.2) ∈ plan.wireByOriginal.entries from hb)
        rw [← heq] at hb
        exact Prod.ext (hclaims.inj ha hb) heq
    refine ⟨hclaims.known, fun hname ↦ OMap.has_iff.mp (hall _ (.inr hname)), hclaims.passes,
      hclaims.fixed, hclaims.inj, fun {name wire} ↦ ?_⟩
    rw [get?_foldl_addAlias hwires _ (by simp), OMap.mem_entries]
    simp
  · rw [buildMuseToolNameAliasPlan]
    simp only [foldl_addCollectedName [] (by simpa using hnodup) hnonempty, nil_append]
    rw [hrun fuel hfuel]
    rfl

end MuseToolNames
