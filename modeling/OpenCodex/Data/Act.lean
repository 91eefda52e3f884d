import Mathlib.Order.Basic

/-!
# Computations that change a state and may stop

`Act σ ε α` is a stretch of imperative code: it is run in a state, ends with a value or with an
exception, and leaves a state behind either way — what was done before an exception stays done.
Code is written in `do` notation with `get`, `modify`, `throw` and `tryCatch`.

The statement about such code is `Ensures P x Q R`: run in a state with `P`, the code ends with a
value and `Q`, or with an exception and `R`.  `Keeps P R x` is the case of an invariant, `P` being also
what holds in the end.  The rules follow the syntax, so an invariant of long code is checked one
primitive at a time.
-/

set_option autoImplicit false

universe u

/-- Code over states `σ` that ends with an `α` or an exception `ε`. -/
def Act (σ : Type u) (ε : Type u) (α : Type u) : Type u := σ → Except ε α × σ

namespace Act

variable {σ ε α β : Type u}

/-- What happens after a result. -/
def andThen (r : Except ε α × σ) (f : α → Act σ ε β) : Except ε β × σ :=
  match r with
  | (.ok a, s) => f a s
  | (.error e, s) => (.error e, s)

instance : Monad (Act σ ε) where
  pure a := fun s ↦ (.ok a, s)
  bind x f := fun s ↦ andThen (x s) f

instance : MonadStateOf σ (Act σ ε) where
  get := fun s ↦ (.ok s, s)
  set s' := fun _ ↦ (.ok ⟨⟩, s')
  modifyGet g := fun s ↦ (.ok (g s).1, (g s).2)

/-- What a handler makes of a result. -/
def recover (r : Except ε α × σ) (h : ε → Act σ ε α) : Except ε α × σ :=
  match r with
  | (.ok a, s) => (.ok a, s)
  | (.error e, s) => h e s

instance : MonadExceptOf ε (Act σ ε) where
  throw e := fun s ↦ (.error e, s)
  tryCatch x h := fun s ↦ recover (x s) h

/-- Code for a value that is there. -/
def forSome (x : Option α) (f : α → Act σ ε PUnit) : Act σ ε PUnit :=
  match x with
  | none => pure ⟨⟩
  | some a => f a

@[simp] theorem forSome_none (f : α → Act σ ε PUnit) : forSome none f = pure ⟨⟩ := rfl

@[simp] theorem forSome_some (a : α) (f : α → Act σ ε PUnit) : forSome (some a) f = f a := rfl

/-- A conditional without an alternative. -/
def when (c : Prop) [Decidable c] (x : Act σ ε PUnit) : Act σ ε PUnit :=
  if c then x else pure ⟨⟩

variable {c : Prop}

theorem when_pos [Decidable c] (h : c) (x : Act σ ε PUnit) : when c x = x := if_pos h

theorem when_neg [Decidable c] (h : ¬c) (x : Act σ ε PUnit) : when c x = pure ⟨⟩ := if_neg h

/-- `try … finally`: the clean-up is run whether the code ends with a value or not. -/
def ensuring (x : Act σ ε α) (cleanup : Act σ ε PUnit) : Act σ ε α := do
  let a ← tryCatch x fun e ↦ do
    cleanup
    throw e
  cleanup
  pure a

theorem pure_run (a : α) (s : σ) : (pure a : Act σ ε α) s = (.ok a, s) := rfl

theorem bind_run (x : Act σ ε α) (f : α → Act σ ε β) (s : σ) : (x >>= f) s = andThen (x s) f := rfl

theorem get_run (s : σ) : (get : Act σ ε σ) s = (.ok s, s) := rfl

theorem modify_run (g : σ → σ) (s : σ) : (modify g : Act σ ε PUnit) s = (.ok ⟨⟩, g s) := rfl

variable (e : ε)

theorem tryCatch_run (x : Act σ ε α) (h : ε → Act σ ε α) (s : σ) :
    (tryCatch x h : Act σ ε α) s = recover (x s) h := rfl

@[simp] theorem andThen_ok (a : α) (s : σ) (f : α → Act σ ε β) : andThen (.ok a, s) f = f a s := rfl

variable {f : α → Act σ ε β}

variable {s : σ} {a : α}

theorem bind_of_ok {x : Act σ ε α} {s' : σ} (h : x s = (.ok a, s')) : (x >>= f) s = f a s' := by
  rw [bind_run, h, andThen_ok]

/-! ## What code ensures -/

/-- A result meets a condition on values or one on exceptions. -/
def Meets (Q : α → σ → Prop) (R : ε → σ → Prop) (r : Except ε α × σ) : Prop :=
  match r with
  | (.ok a, s) => Q a s
  | (.error e, s) => R e s

/-- Run in a state with `P`, the code ends with a value and `Q`, or with an exception and `R`. -/
def Ensures (P : σ → Prop) (x : Act σ ε α) (Q : α → σ → Prop) (R : ε → σ → Prop) : Prop :=
  ∀ s, P s → Meets Q R (x s)

namespace Ensures

variable {P P' : σ → Prop} {x : Act σ ε α} {Q Q' : α → σ → Prop} {R R' : ε → σ → Prop}

theorem pure (h : ∀ s, P s → Q a s) : Ensures P (pure a : Act σ ε α) Q R := h

theorem throw {e : ε} (h : ∀ s, P s → R e s) : Ensures P (throw e : Act σ ε α) Q R := h

theorem modify {g : σ → σ} {Q : PUnit → σ → Prop} (h : ∀ s, P s → Q ⟨⟩ (g s)) :
    Ensures P (modify g : Act σ ε PUnit) Q R := h

theorem read {f : σ → Act σ ε α} (h : ∀ s, P s → Meets Q R (f s s)) :
    Ensures P ((MonadState.get : Act σ ε σ) >>= f) Q R := h

theorem reading {f : σ → Act σ ε α} (h : ∀ s, P s → Ensures P (f s) Q R) :
    Ensures P ((MonadState.get : Act σ ε σ) >>= f) Q R :=
  fun s hs ↦ h s hs s hs

theorem mono (h : Ensures P x Q R) (hP : ∀ s, P' s → P s) (hQ : ∀ a s, Q a s → Q' a s)
    (hR : ∀ e s, R e s → R' e s) : Ensures P' x Q' R' := by
  intro s hs
  have hr := h s (hP s hs)
  cases hx : x s with
  | mk r s' =>
    rw [hx] at hr
    cases r with
    | ok a => exact hQ a s' hr
    | error e => exact hR e s' hr

theorem post (h : Ensures P x Q R) (hQ : ∀ a s, Q a s → Q' a s) : Ensures P x Q' R :=
  h.mono (fun _ h ↦ h) hQ fun _ _ h ↦ h

theorem bind {Q' : β → σ → Prop} (hx : Ensures P x Q R) (hf : ∀ a, Ensures (Q a) (f a) Q' R) :
    Ensures P (x >>= f) Q' R := by
  intro s hs
  have hr := hx s hs
  rw [bind_run]
  cases hx : x s with
  | mk r s' =>
    rw [hx] at hr
    cases r with
    | ok a => exact hf a s' hr
    | error e => exact hr

theorem tryCatch {h : ε → Act σ ε α} (hx : Ensures P x Q R')
    (hh : ∀ e, Ensures (R' e) (h e) Q R) : Ensures P (tryCatch x h : Act σ ε α) Q R := by
  intro s hs
  have hr := hx s hs
  rw [tryCatch_run]
  cases hx : x s with
  | mk r s' =>
    rw [hx] at hr
    cases r with
    | ok a => exact hr
    | error e => exact hh e s' hr

theorem ensuring {cleanup : Act σ ε PUnit} {Q' : α → σ → Prop} (hx : Ensures P x Q' R')
    (hdone : ∀ a, Ensures (Q' a) cleanup (fun _ ↦ Q a) R)
    (hfailed : ∀ e, Ensures (R' e) cleanup (fun _ ↦ R e) R) :
    Ensures P (Act.ensuring x cleanup) Q R := by
  refine .bind (Q := Q') (.tryCatch hx fun e ↦ ?_) fun a ↦ ?_
  · exact .bind (hfailed e) fun _ ↦ .throw fun _ hs ↦ hs
  · exact .bind (hdone a) fun _ ↦ .pure fun _ hs ↦ hs

theorem ite [Decidable c] {y : Act σ ε α} (hx : c → Ensures P x Q R) (hy : ¬c → Ensures P y Q R) :
    Ensures P (if c then x else y) Q R := by
  split
  · rename_i h; exact hx h
  · rename_i h; exact hy h

end Ensures

/-- Where the code ends with a value it leaves the property as it found it; where it throws, `R`
holds. -/
def Keeps (P : σ → Prop) (R : ε → σ → Prop) (x : Act σ ε α) : Prop := Ensures P x (fun _ ↦ P) R

namespace Keeps

variable {P : σ → Prop} {R : ε → σ → Prop} {x : Act σ ε α}

theorem pure (a : α) : Keeps P R (pure a : Act σ ε α) := fun _ h ↦ h

theorem throw {e : ε} (h : ∀ s, P s → R e s) : Keeps P R (throw e : Act σ ε α) := h

theorem get : Keeps P R (get : Act σ ε σ) := fun _ h ↦ h

theorem modify {g : σ → σ} (h : ∀ s, P s → P (g s)) : Keeps P R (modify g : Act σ ε PUnit) := h

theorem bind (hx : Keeps P R x) (hf : ∀ a, Keeps P R (f a)) : Keeps P R (x >>= f) :=
  Ensures.bind hx hf

theorem ite [Decidable c] {y : Act σ ε α} (hx : c → Keeps P R x) (hy : ¬c → Keeps P R y) :
    Keeps P R (if c then x else y) :=
  Ensures.ite hx hy

theorem when [Decidable c] {y : Act σ ε PUnit} (hy : c → Keeps P R y) : Keeps P R (when c y) :=
  ite hy fun _ ↦ pure _

theorem forSome {a : Option α} {f : α → Act σ ε PUnit} (h : ∀ a, Keeps P R (f a)) :
    Keeps P R (forSome a f) := by
  cases a with
  | none => exact pure _
  | some a => exact h a

theorem forM {f : α → Act σ ε PUnit} (hf : ∀ a, Keeps P R (f a)) (l : List α) :
    Keeps P R (l.forM f) := by
  induction l with
  | nil => exact pure _
  | cons a l ih => exact (hf a).bind fun _ ↦ ih

theorem foldlM {f : β → α → Act σ ε β} (hf : ∀ b a, Keeps P R (f b a)) (b : β) (l : List α) :
    Keeps P R (l.foldlM f b) := by
  induction l generalizing b with
  | nil => exact pure _
  | cons a l ih => exact (hf b a).bind fun b ↦ ih b

theorem after (h : Keeps P (fun _ ↦ P) x) (hs : P s) : P (x s).2 := by
  have hr := h s hs
  cases hx : x s with
  | mk r s' =>
    rw [hx] at hr
    cases r with
    | ok a => exact hr
    | error e => exact hr

end Keeps

end Act
