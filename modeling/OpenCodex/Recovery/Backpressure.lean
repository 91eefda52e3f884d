import OpenCodex.Recovery.ProbeLease
import Mathlib.Data.List.Induction
import Mathlib.Data.List.TakeWhile

/-!
# When the pool may recover again

The limiter keeps buckets, not sends: a bucket is made when it is first needed, and dropped when a
later one is made.  What is dropped has left the window already, so the buckets inside the window
count exactly the sends whose bucket is inside it (`Kept`), and a recovery is admitted by those
numbers alone.

A refusal names the moment the oldest bucket of the window leaves.  Until then no bucket leaves, so
the numbers stand, and with them the refusal, unless an initial send raises the allowance.
-/

set_option autoImplicit false

open List Option Bool

namespace Recovery

namespace PoolBackpressureLimiter

/-! ## Runs -/

/-- A call of the limiter. -/
inductive Call where
  | recordInitialSend (now : ℤ)
  | tryPermit (now : ℤ)

def Call.now : Call → ℤ
  | recordInitialSend now => now
  | tryPermit now => now

/-- An initial send, or a recovery that was admitted. -/
structure Sent where
  recovery : Bool
  now : ℤ

/-- A call, and what it adds to the sends. -/
def call (s : PoolBackpressureLimiter × List Sent) : Call → PoolBackpressureLimiter × List Sent
  | .recordInitialSend now => (s.1.recordInitialSend now, s.2 ++ [⟨false, now⟩])
  | .tryPermit now =>
    ((s.1.tryPermit now).1, s.2 ++ if (s.1.tryPermit now).2 then [⟨true, now⟩] else [])

/-- Calls of a new limiter, one after the other. -/
def callAll (policy : PoolBackpressurePolicy) (calls : List Call) :
    PoolBackpressureLimiter × List Sent :=
  calls.foldl call (create policy, [])

/-- The sends of a kind whose bucket is inside the window. -/
def sentIn (limiter : PoolBackpressureLimiter) (sent : List Sent) (recovery : Bool) (now : ℤ) :
    List Sent :=
  sent.filter fun send ↦ send.recovery == recovery &&
    decide (now - limiter.policy.windowMs < limiter.startOf send.now)

/-! ## Buckets -/

section Buckets

variable {limiter : PoolBackpressureLimiter} {now t : ℤ} {buckets : List Bucket}

theorem bucketMs_pos (limiter : PoolBackpressureLimiter) : 0 < limiter.bucketMs :=
  Int.lt_of_lt_of_le Int.zero_lt_one (le_max_left _ _)

theorem startOf_le (limiter : PoolBackpressureLimiter) (now : ℤ) : limiter.startOf now ≤ now :=
  Int.ediv_mul_le _ (ne_of_gt limiter.bucketMs_pos)

theorem startOf_mono (limiter : PoolBackpressureLimiter) {t now : ℤ} (h : t ≤ now) :
    limiter.startOf t ≤ limiter.startOf now :=
  Int.mul_le_mul_of_nonneg_right (Int.ediv_le_ediv limiter.bucketMs_pos h) limiter.bucketMs_pos.le

theorem mem_inWindow {b : Bucket} : b ∈ limiter.inWindow now buckets ↔
    b ∈ buckets ∧ now - limiter.policy.windowMs < b.start := by
  rw [inWindow, mem_filter, decide_eq_true_eq]

/-- What the buckets inside the window count together. -/
def tally (limiter : PoolBackpressureLimiter) (now : ℤ) (f : Bucket → ℕ) (buckets : List Bucket) :
    ℕ :=
  ((limiter.inWindow now buckets).map f).sum

theorem tally_append (f : Bucket → ℕ) (buckets buckets' : List Bucket) :
    limiter.tally now f (buckets ++ buckets') =
      limiter.tally now f buckets + limiter.tally now f buckets' := by
  rw [tally, inWindow, filter_append, map_append, sum_append]
  rfl

theorem tally_singleton (f : Bucket → ℕ) (b : Bucket) :
    limiter.tally now f [b] = if now - limiter.policy.windowMs < b.start then f b else 0 := by
  rw [tally, inWindow, filter_singleton]
  by_cases h : now - limiter.policy.windowMs < b.start
  · simp [h]
  · simp [h]

theorem tally_eq_zero {f : Bucket → ℕ}
    (h : ∀ b ∈ buckets, b.start ≤ now - limiter.policy.windowMs) :
    limiter.tally now f buckets = 0 := by
  have hnone : limiter.inWindow now buckets = [] := by
    refine filter_eq_nil_iff.mpr fun b hb ↦ ?_
    have := h b hb
    rw [decide_eq_true_eq]
    omega
  rw [tally, hnone]
  rfl

/-- **The bucket of a moment** is the last one, or a new one, before which only buckets are dropped
that have left the window. -/
theorem bucketFor_spec (limiter : PoolBackpressureLimiter) (t : ℤ) :
    ∃ left older last, limiter.bucketFor t = older ++ [last] ∧
      last.start = limiter.startOf t ∧ (∀ b ∈ left, b.start ≤ t - limiter.policy.windowMs) ∧
      (limiter.buckets = left ++ (older ++ [last]) ∨
        limiter.buckets = left ++ older ∧ last = ⟨limiter.startOf t, 0, 0⟩) := by
  rw [bucketFor]
  split
  · rename_i hlast
    cases hbuckets : limiter.buckets.getLast? with
    | none =>
      rw [hbuckets] at hlast
      nomatch hlast
    | some last =>
      rw [hbuckets] at hlast
      obtain ⟨older, holder⟩ := getLast?_eq_some_iff.mp hbuckets
      exact ⟨[], older, last, holder, by simpa using hlast, by simp, .inl holder⟩
  · refine ⟨limiter.buckets.takeWhile fun bucket ↦
      decide (bucket.start ≤ limiter.startOf t - limiter.policy.windowMs), _, _, rfl, rfl,
      fun b hb ↦ ?_, .inr ⟨takeWhile_append_dropWhile.symm, rfl⟩⟩
    have hold := mem_takeWhile_imp hb
    have := limiter.startOf_le t
    rw [decide_eq_true_eq] at hold
    omega

theorem charge_concat (f : Bucket → Bucket) (older : List Bucket) (last : Bucket) :
    charge f (older ++ [last]) = older ++ [f last] := by
  rw [charge, dropLast_concat, getLast?_concat]
  rfl

end Buckets

/-! ## What the buckets know -/

/-- What a bucket counts of a kind of sends. -/
def counted (recovery : Bool) (b : Bucket) : ℕ := if recovery then b.recoveries else b.initials

/-- One more send of a kind. -/
def counting (recovery : Bool) (b : Bucket) : Bucket :=
  if recovery then { b with recoveries := b.recoveries + 1 }
  else { b with initials := b.initials + 1 }

theorem counting_start (recovery : Bool) (b : Bucket) : (counting recovery b).start = b.start := by
  cases recovery <;> rfl

theorem counted_counting (recovery kind : Bool) (b : Bucket) :
    counted kind (counting recovery b) = counted kind b + if recovery = kind then 1 else 0 := by
  cases recovery <;> cases kind <;> rfl

/-- After a call at `last`: the buckets are in order, none is of a later moment, and inside every
later window they count the sends whose bucket is inside it. -/
structure Kept (last : ℤ) (limiter : PoolBackpressureLimiter) (sent : List Sent) : Prop where
  sorted : limiter.buckets.Pairwise fun b b' ↦ b.start ≤ b'.start
  past : ∀ b ∈ limiter.buckets, b.start ≤ limiter.startOf last
  tally : ∀ recovery now, last ≤ now →
    limiter.tally now (counted recovery) limiter.buckets =
      (limiter.sentIn sent recovery now).length
  filed : ∀ send ∈ sent, last - limiter.policy.windowMs < limiter.startOf send.now →
    ∃ b ∈ limiter.buckets, b.start = limiter.startOf send.now

section Kept

variable {limiter : PoolBackpressureLimiter} {last t : ℤ} {sent : List Sent}

variable (policy : PoolBackpressurePolicy)

theorem Kept.start (last : ℤ) : Kept last (create policy) [] where
  sorted := .nil
  past _ h := absurd h (not_mem_nil)
  tally _ _ _ := rfl
  filed _ h := absurd h (not_mem_nil)

/-- **Making the bucket of the moment changes no count.** -/
theorem Kept.turn (h : Kept last limiter sent) (ht : last ≤ t) :
    Kept t { limiter with buckets := limiter.bucketFor t } sent := by
  obtain ⟨left, older, b, hbuckets, hb, hleft, hfrom⟩ := limiter.bucketFor_spec t
  have hpast : ∀ b ∈ limiter.buckets, b.start ≤ limiter.startOf t := fun b hb ↦
    (h.past b hb).trans (limiter.startOf_mono ht)
  have hgone : ∀ now, t ≤ now → ∀ f, limiter.tally now f left = 0 := fun now hnow f ↦
    tally_eq_zero fun b hb ↦ by
      have := hleft b hb
      omega
  have hsub : (limiter.bucketFor t).Sublist (limiter.buckets ++ [b]) := by
    rw [hbuckets]
    rcases hfrom with hfrom | ⟨hfrom, -⟩
    · rw [hfrom, append_assoc]
      exact (sublist_append_left _ _).trans (sublist_append_right _ _)
    · rw [hfrom, append_assoc]
      exact sublist_append_right _ _
  have hsorted : (limiter.buckets ++ [b]).Pairwise fun b b' ↦ b.start ≤ b'.start := by
    refine pairwise_append.mpr ⟨h.sorted, pairwise_singleton _ _, fun c hc d hd ↦ ?_⟩
    rw [mem_singleton.mp hd, hb]
    exact hpast c hc
  refine ⟨hsorted.sublist hsub, fun c hc ↦ ?_, fun recovery now hnow ↦ ?_, fun send hsend hin ↦ ?_⟩
  · rcases mem_append.mp (hsub.subset hc) with hc | hc
    · exact hpast c hc
    · rw [mem_singleton.mp hc]
      exact hb.le
  · refine Eq.trans ?_ (h.tally recovery now (ht.trans hnow))
    change limiter.tally now (counted recovery) (limiter.bucketFor t) = _
    rw [hbuckets]
    rcases hfrom with hfrom | ⟨hfrom, hnew⟩
    · rw [hfrom, tally_append _ left, hgone now hnow, Nat.zero_add]
    · have hzero : counted recovery b = 0 := by rw [hnew]; cases recovery <;> rfl
      rw [hfrom, tally_append, tally_append, hgone now hnow, tally_singleton, hzero, ite_self,
        Nat.zero_add, Nat.add_zero]
  · have hin' : t - limiter.policy.windowMs < limiter.startOf send.now := hin
    obtain ⟨c, hc, hstart⟩ := h.filed send hsend (by omega)
    refine ⟨c, ?_, hstart⟩
    have hnot : c ∉ left := by
      intro hmem
      have := hleft c hmem
      omega
    change c ∈ limiter.bucketFor t
    rw [hbuckets]
    rcases hfrom with hfrom | ⟨hfrom, -⟩
    · rw [hfrom] at hc
      exact (mem_append.mp hc).resolve_left hnot
    · rw [hfrom] at hc
      exact mem_append_left _ ((mem_append.mp hc).resolve_left hnot)

/-- **Counting a send in the bucket of the moment.** -/
theorem Kept.count (h : Kept t limiter sent) (recovery : Bool) {older : List Bucket} {b : Bucket}
    (hbuckets : limiter.buckets = older ++ [b]) (hb : b.start = limiter.startOf t) :
    Kept t { limiter with buckets := charge (counting recovery) limiter.buckets }
      (sent ++ [⟨recovery, t⟩]) := by
  have hcharge : charge (counting recovery) limiter.buckets = older ++ [counting recovery b] := by
    rw [hbuckets, charge_concat]
  have hstart := counting_start recovery b
  have hsorted := h.sorted
  rw [hbuckets, pairwise_append] at hsorted
  rw [hcharge]
  refine ⟨?_, fun c hc ↦ ?_, fun kind now hnow ↦ ?_, fun send hsend hin ↦ ?_⟩
  · refine pairwise_append.mpr ⟨hsorted.1, pairwise_singleton _ _, fun c hc d hd ↦ ?_⟩
    rw [mem_singleton.mp hd, hstart]
    exact hsorted.2.2 c hc b (mem_singleton.mpr rfl)
  · rcases mem_append.mp hc with hc | hc
    · exact h.past c (by rw [hbuckets]; exact mem_append_left _ hc)
    · rw [mem_singleton.mp hc, hstart]
      exact hb.le
  · have htally := h.tally kind now hnow
    rw [hbuckets, tally_append, tally_singleton] at htally
    change limiter.tally now (counted kind) (older ++ [counting recovery b]) =
      (limiter.sentIn (sent ++ [⟨recovery, t⟩]) kind now).length
    rw [tally_append, tally_singleton, counting_start, counted_counting, sentIn,
      filter_append, length_append, ← sentIn, ← htally, filter_singleton, ← hb]
    by_cases hin : now - limiter.policy.windowMs < b.start
    · by_cases hkind : recovery = kind
      · simp [hin, hkind, Nat.add_assoc]
      · simp [hin, hkind, beq_eq_false_iff_ne.mpr hkind]
    · simp [hin]
  · rcases mem_append.mp hsend with hsend | hsend
    · obtain ⟨c, hc, hc'⟩ := h.filed send hsend hin
      rw [hbuckets] at hc
      rcases mem_append.mp hc with hc | hc
      · exact ⟨c, mem_append_left _ hc, hc'⟩
      · rw [mem_singleton.mp hc] at hc'
        exact ⟨_, mem_append_right _ (mem_singleton.mpr rfl), hstart.trans hc'⟩
    · rw [mem_singleton.mp hsend]
      exact ⟨_, mem_append_right _ (mem_singleton.mpr rfl), hstart.trans hb⟩

/-- What a recovery at this moment is judged by. -/
def Permits (limiter : PoolBackpressureLimiter) (sent : List Sent) (now : ℤ) : Prop :=
  (limiter.sentIn sent true now).length + 1 ≤
    limiter.allowanceFor (limiter.sentIn sent false now).length

variable {now : ℤ}

theorem Kept.spent_iff (h : Kept last limiter sent) (hnow : last ≤ now) :
    limiter.spent now limiter.buckets = true ↔ ¬ Permits limiter sent now := by
  have hinitials := h.tally false now hnow
  have hrecoveries := h.tally true now hnow
  rw [spent, decide_eq_true_eq, Permits, not_le, ← hinitials, ← hrecoveries]
  rfl

/-- **A recovery is admitted by the numbers of the window.** -/
theorem Kept.tryPermit_iff (h : Kept last limiter sent) (hnow : last ≤ now) :
    (limiter.tryPermit now).2 = true ↔ Permits limiter sent now := by
  have hspent : limiter.spent now (limiter.bucketFor now) = true ↔ ¬ Permits limiter sent now :=
    (h.turn hnow).spent_iff le_rfl
  rw [tryPermit]
  by_cases hp : Permits limiter sent now
  · rw [if_neg fun hs ↦ hspent.mp hs hp]
    exact iff_of_true rfl hp
  · rw [if_pos (hspent.mpr hp)]
    exact iff_of_false false_ne_true hp

theorem tryPermit_refused (h : (limiter.tryPermit now).2 = false) :
    (limiter.tryPermit now).1 = { limiter with
      buckets := limiter.bucketFor now, refusedTotal := limiter.refusedTotal + 1 } := by
  rw [tryPermit] at h ⊢
  split
  · rfl
  · rename_i hspent
    rw [if_neg hspent] at h
    nomatch h

theorem Kept.refused (h : Kept last limiter sent) (hnow : last ≤ now)
    (hrefused : (limiter.tryPermit now).2 = false) : Kept now (limiter.tryPermit now).1 sent := by
  rw [tryPermit_refused hrefused]
  have hturn := h.turn hnow
  exact ⟨hturn.sorted, hturn.past, hturn.tally, hturn.filed⟩

/-- **What one call does.** -/
theorem Kept.call (h : Kept last limiter sent) {c : Call} (hc : last ≤ c.now) :
    Kept c.now (call (limiter, sent) c).1 (PoolBackpressureLimiter.call (limiter, sent) c).2 := by
  cases c with
  | recordInitialSend now =>
    obtain ⟨left, older, b, hbuckets, hb, -, -⟩ := limiter.bucketFor_spec now
    exact (h.turn hc).count false hbuckets hb
  | tryPermit now =>
    rw [PoolBackpressureLimiter.call]
    cases hpermit : (limiter.tryPermit now).2 with
    | false =>
      rw [if_neg Bool.false_ne_true, append_nil]
      exact h.refused hc hpermit
    | true =>
      obtain ⟨left, older, b, hbuckets, hb, -, -⟩ := limiter.bucketFor_spec now
      have hcount := (h.turn hc).count true hbuckets hb
      rw [if_pos rfl]
      dsimp only [Call.now]
      rw [tryPermit] at hpermit ⊢
      split
      · rename_i hspent
        rw [if_pos hspent] at hpermit
        nomatch hpermit
      · exact hcount

theorem policy_call (s : PoolBackpressureLimiter × List Sent) (c : Call) :
    (PoolBackpressureLimiter.call s c).1.policy = s.1.policy := by
  cases c with
  | recordInitialSend now => rfl
  | tryPermit now =>
    change (s.1.tryPermit now).1.policy = s.1.policy
    rw [tryPermit]
    split
    · rfl
    · rfl

theorem policy_callAll (calls : List Call) : (callAll policy calls).1.policy = policy := by
  induction calls using List.reverseRecOn with
  | nil => rfl
  | append_singleton calls c ih =>
    rw [callAll, foldl_append, ← callAll]
    exact (policy_call _ c).trans ih

/-- **What a run of calls leaves**, seen from a later moment. -/
theorem kept_callAll {calls : List Call} (h : (calls.map Call.now ++ [now]).Pairwise (· ≤ ·)) :
    ∃ last ≤ now, Kept last (callAll policy calls).1 (callAll policy calls).2 := by
  induction calls using List.reverseRecOn generalizing now with
  | nil => exact ⟨now, le_rfl, .start policy now⟩
  | append_singleton calls c ih =>
    rw [map_append, map_singleton] at h
    obtain ⟨hbefore, -, hle⟩ := pairwise_append.mp h
    obtain ⟨last, hlast, hkept⟩ := ih hbefore
    refine ⟨c.now, hle c.now (by simp) now (by simp), ?_⟩
    rw [callAll, foldl_append, ← callAll]
    exact hkept.call hlast

/-! ## The time a refusal names -/

theorem now_lt_nextRecoveryAt (hwindow : 0 < limiter.policy.windowMs)
    (h : limiter.spent now limiter.buckets = true) : now < limiter.nextRecoveryAt now := by
  rw [nextRecoveryAt, h, Bool.not_true, if_neg Bool.false_ne_true]
  split
  · omega
  · rename_i b rest hin
    have hb : b ∈ limiter.inWindow now limiter.buckets := by rw [hin]; exact mem_cons_self
    have := (mem_inWindow.mp hb).2
    omega

theorem Kept.nextRecoveryAt_le (h : Kept last limiter sent) (hnow : last ≤ now)
    (hspent : limiter.spent now limiter.buckets = true) {send : Sent} (hsend : send ∈ sent)
    (hin : now - limiter.policy.windowMs < limiter.startOf send.now) :
    limiter.nextRecoveryAt now ≤ limiter.startOf send.now + limiter.policy.windowMs := by
  obtain ⟨b, hb, hstart⟩ := h.filed send hsend (by omega)
  have hmem : b ∈ limiter.inWindow now limiter.buckets := mem_inWindow.mpr ⟨hb, by omega⟩
  have hsorted : (limiter.inWindow now limiter.buckets).Pairwise fun b b' ↦ b.start ≤ b'.start :=
    h.sorted.sublist filter_sublist
  rw [nextRecoveryAt, hspent, Bool.not_true, if_neg Bool.false_ne_true]
  split
  · rename_i hnil
    rw [hnil] at hmem
    exact absurd hmem not_mem_nil
  · rename_i first rest hfirst
    rw [hfirst] at hmem hsorted
    rcases mem_cons.mp hmem with rfl | hrest
    · omega
    · have := rel_of_pairwise_cons hsorted hrest
      omega

theorem sentIn_until {later : ℤ} (hle : now ≤ later)
    (h : ∀ send ∈ sent, now - limiter.policy.windowMs < limiter.startOf send.now →
      later < limiter.startOf send.now + limiter.policy.windowMs) (recovery : Bool) :
    limiter.sentIn sent recovery later = limiter.sentIn sent recovery now := by
  refine filter_congr fun send hsend ↦ ?_
  have hiff : later - limiter.policy.windowMs < limiter.startOf send.now ↔
      now - limiter.policy.windowMs < limiter.startOf send.now := by
    refine ⟨fun hin ↦ by omega, fun hin ↦ ?_⟩
    have := h send hsend hin
    omega
  rw [decide_eq_decide.mpr hiff]

/-- Later calls for a recovery, one after the other. -/
def tryAll (limiter : PoolBackpressureLimiter) (times : List ℤ) : PoolBackpressureLimiter :=
  times.foldl (fun limiter now ↦ (limiter.tryPermit now).1) limiter

theorem policy_refused (h : (limiter.tryPermit now).2 = false) :
    (limiter.tryPermit now).1.policy = limiter.policy := by rw [tryPermit_refused h]

/-- **A refusal stands until the named time**: until then the window holds what it was refused
for. -/
theorem refused_until {limit : ℤ} (times : List ℤ) (h : Kept last limiter sent)
    (hrefused : ¬ Permits limiter sent last)
    (hin : ∀ send ∈ sent, last - limiter.policy.windowMs < limiter.startOf send.now →
      limit ≤ limiter.startOf send.now + limiter.policy.windowMs)
    (hsorted : (last :: (times ++ [now])).Pairwise (· ≤ ·)) (hnow : now < limit) :
    ((limiter.tryAll times).tryPermit now).2 = false := by
  have hstill : ∀ t, last ≤ t → t < limit → ¬ Permits limiter sent t := by
    intro t hle hlt
    have hsame := sentIn_until hle fun send hsend h' ↦ hlt.trans_le (hin send hsend h')
    rw [Permits, hsame, hsame]
    exact hrefused
  induction times generalizing limiter last with
  | nil =>
    have hle : last ≤ now := rel_of_pairwise_cons hsorted (by simp)
    rw [← not_eq_true]
    exact fun hp ↦ hstill now hle hnow ((h.tryPermit_iff hle).mp hp)
  | cons t times ih =>
    have hle : last ≤ t := rel_of_pairwise_cons hsorted (by simp)
    have hsorted' := (pairwise_cons.mp hsorted).2
    have hlt : t < limit :=
      (rel_of_pairwise_cons hsorted' (by simp : now ∈ times ++ [now])).trans_lt hnow
    have hno : (limiter.tryPermit t).2 = false := by
      rw [← not_eq_true]
      exact fun hp ↦ hstill t hle hlt ((h.tryPermit_iff hle).mp hp)
    have hkept := h.refused hle hno
    rw [tryPermit_refused hno] at hkept
    rw [tryAll, foldl_cons, tryPermit_refused hno, ← tryAll]
    refine ih hkept (hstill t hle hlt) (fun send hsend h' ↦ hin send hsend ?_) hsorted'
      fun t' hle' hlt' ↦ hstill t' (hle.trans hle') hlt'
    have h'' : t - limiter.policy.windowMs < limiter.startOf send.now := h'
    omega

/-- **The limiter goes by the numbers of the window.** -/
theorem permits_iff (hwindow : 10 ≤ policy.windowMs) (hratio : 0 ≤ policy.maxRetryRatio)
    (calls : List Call) (now : ℤ) :
    let b : ℤ := (policy.windowMs / 10 : ℕ)
    let count (recovery : Bool) := ((callAll policy calls).2.filter fun send ↦
      send.recovery == recovery && decide (now - policy.windowMs < send.now / b * b)).length
    Permits (callAll policy calls).1 (callAll policy calls).2 now ↔ (count true + 1 : ℤ) ≤
      max (policy.minRecoveryAllowance : ℤ) ⌊(count false : ℚ) * policy.maxRetryRatio⌋ := by
  intro b count
  have hpolicy := policy_callAll policy calls
  have hb : (callAll policy calls).1.bucketMs = b := by
    rw [bucketMs, hpolicy]
    exact max_eq_right (by omega)
  have hcount (recovery : Bool) : count recovery =
      ((callAll policy calls).1.sentIn (callAll policy calls).2 recovery now).length := by
    simp only [count, sentIn, startOf, hb, hpolicy]
  have hfloor : 0 ≤ ⌊(count false : ℚ) * policy.maxRetryRatio⌋ :=
    Int.floor_nonneg.mpr (mul_nonneg (Nat.cast_nonneg _) hratio)
  rw [Permits, ← hcount, ← hcount, allowanceFor, hpolicy]
  omega

/-- **A refusal, and the time it names.** -/
theorem Kept.until (h : Kept last limiter sent) (hnow : last ≤ now)
    (hwindow : 0 < limiter.policy.windowMs) (hrefused : (limiter.tryPermit now).2 = false) :
    now < (limiter.tryPermit now).1.nextRecoveryAt now ∧
      ∀ times later, (now :: (times ++ [later])).Pairwise (· ≤ ·) →
        later < (limiter.tryPermit now).1.nextRecoveryAt now →
        (((limiter.tryPermit now).1.tryAll times).tryPermit later).2 = false := by
  have hkept := h.refused hnow hrefused
  have hno : ¬ Permits (limiter.tryPermit now).1 sent now := by
    rw [tryPermit_refused hrefused]
    intro hp
    exact false_ne_true (hrefused.symm.trans ((h.tryPermit_iff hnow).mpr hp))
  have hspent := (hkept.spent_iff le_rfl).mpr hno
  have hwindow' : 0 < (limiter.tryPermit now).1.policy.windowMs := by
    rw [policy_refused hrefused]
    exact hwindow
  refine ⟨now_lt_nextRecoveryAt hwindow' hspent, fun times later hsorted hlater ↦ ?_⟩
  exact refused_until times hkept hno
    (fun send hsend hin ↦ hkept.nextRecoveryAt_le le_rfl hspent hsend hin) hsorted hlater

end Kept

end PoolBackpressureLimiter

/-! ## The answers that name a time -/

section Answers

variable {limiter : PoolBackpressureLimiter} {now : ℤ}

theorem PoolBackpressureLimiter.now_lt_of_refused (hwindow : 0 < limiter.policy.windowMs)
    (h : (limiter.tryPermit now).2 = false) :
    now < (limiter.tryPermit now).1.nextRecoveryAt now := by
  have hspent : limiter.spent now (limiter.bucketFor now) = true := by
    rw [tryPermit] at h
    split at h
    · assumption
    · nomatch h
  rw [tryPermit_refused h]
  refine now_lt_nextRecoveryAt ?_ ?_
  · exact hwindow
  · exact hspent

variable {options : ProbeOptions}

variable {p : ProbeStates} {accountId : AccountId}

theorem ProbeStates.now_lt_nextProbeAt
    (h : p.canAcquireTransientProbe accountId now options = false) :
    now < p.nextProbeAt accountId now options := by
  rw [canAcquireTransientProbe] at h
  rw [nextProbeAt]
  cases hstate : p.states.get? accountId with
  | none =>
    rw [hstate] at h
    nomatch h
  | some state =>
    rw [hstate, all_some, and_eq_false_iff, not_eq_false'] at h
    dsimp only
    rcases h with hlive | hpaced
    · rw [if_pos hlive]
      refine lt_max_of_lt_right ?_
      rw [AccountProbeState.liveLease, and_eq_true] at hlive
      cases hat : state.leaseExpiresAt with
      | none => exact absurd hlive.2 (by simp [hat])
      | some at' => simpa [hat] using hlive.2
    · refine lt_max_of_lt_left ?_
      rw [AccountProbeState.paced] at hpaced
      cases hlast : state.lastProbeAt with
      | none => exact absurd hpaced (by simp [hlast])
      | some last =>
        rw [hlast, all_some, decide_eq_false_iff_not] at hpaced
        rw [map_some, getD_some]
        omega

theorem ProbeStates.tryAcquire_of_can (h : p.canAcquireTransientProbe accountId now options = true) :
    (p.tryAcquireTransientProbe accountId now options).2.isSome = true := by
  have hstate : ((p.states.get? accountId).getD .fresh).liveLease now = false ∧
      ((p.states.get? accountId).getD .fresh).paced now options.interval = true := by
    rw [canAcquireTransientProbe] at h
    cases hget : p.states.get? accountId with
    | none => exact ⟨rfl, rfl⟩
    | some state =>
      rw [hget, all_some, and_eq_true, not_eq_true'] at h
      exact h
  rw [tryAcquireTransientProbe]
  simp only [hstate.1, hstate.2, Bool.false_eq_true, if_false, Bool.not_true, isSome_some]

/-- **Who is withheld is told to come later.** -/
theorem withheld_later {s : RecoveryState} (hwindow : 0 < s.limiter.policy.windowMs)
    {boundAccountId : AccountId} {detourAccountId : Option AccountId} {bound : AccountId}
    {detour : Option AccountId} {retryAt : ℤ}
    (h : (resolveHeldAccountDispatch s boundAccountId detourAccountId now options).2 =
      .withheld bound detour retryAt) : now < retryAt := by
  rw [resolveHeldAccountDispatch] at h
  cases hcan : s.probes.canAcquireTransientProbe boundAccountId now options with
  | false =>
    simp only [hcan, false_eq_true, if_false] at h
    split at h
    · nomatch h
    · cases h
      exact lt_max_of_lt_left (ProbeStates.now_lt_nextProbeAt hcan)
  | true =>
    simp only [hcan, if_true] at h
    cases hpermit : (s.limiter.tryPermit now).2 with
    | false =>
      simp only [hpermit, false_eq_true, if_false] at h
      split at h
      · nomatch h
      · cases h
        exact lt_max_of_lt_right (s.limiter.now_lt_of_refused hwindow hpermit)
    | true =>
      have hsome := ProbeStates.tryAcquire_of_can hcan
      obtain ⟨lease, hlease⟩ := isSome_iff_exists.mp hsome
      simp only [hpermit, if_true, hlease] at h
      nomatch h

end Answers

end Recovery
