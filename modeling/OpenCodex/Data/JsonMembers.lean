import OpenCodex.Data.JsonText

/-!
# Members that were read stay

Once the reader is inside of an object, what it read of the object's own members is part of the
object that the text turns out to be, however it goes on (`obj_of_holding`).  What the text is
cannot be anything else either: the frame at the bottom of the stack only grows, until the unit that
closes it.
-/

set_option autoImplicit false

namespace Json

/-- The outermost value is an object, and these are the last members read of it, or were. -/
inductive Holding (read : List (JsString × Json)) : State → Prop where
  | inside (top : List Frame) {ms : List (JsString × Json)} {name : Option JsString} {mode : Mode} :
      read <:+ ms → Holding read ⟨top ++ [.obj ms name], mode⟩
  | done {ms : List (JsString × Json)} :
      read <:+ ms → Holding read ⟨[], .done (.obj ms.reverse)⟩

variable {read ms : List (JsString × Json)} {top : List Frame} {name : Option JsString}

theorem deliver_holding (h : read <:+ ms) (v : Json) :
    Holding read (deliver (top ++ [.obj ms name]) v) := by
  rcases top with _ | ⟨items | ⟨ms', _ | name'⟩, top⟩
  · cases name with
    | none => exact .inside [] h
    | some name => exact .inside [] (h.trans (List.suffix_cons _ _))
  · exact .inside (.arr (v :: items) :: top) h
  · exact .inside (.obj ms' none :: top) h
  · exact .inside (.obj ((name', v) :: ms') none :: top) h

/-- **Whatever the reader does** leaves the members that were read. -/
theorem kept_holding : Kept (Holding read) := by
  intro st st' hlive hgoes h
  cases h with
  | done => exact Bool.noConfusion hlive
  | @inside top ms name mode h =>
    generalize hstack : top ++ [.obj ms name] = stack at hgoes
    cases hgoes with
    | on => exact hstack ▸ .inside top h
    | openArr => exact hstack ▸ .inside (.arr [] :: top) h
    | openObj => exact hstack ▸ .inside (.obj [] none :: top) h
    | literal => exact hstack ▸ .inside top h
    | letter => exact hstack ▸ .inside top h
    | lastLetter | string | number => exact hstack ▸ deliver_holding h _
    | @named ms' rest mode name' =>
      rcases top with _ | ⟨f, top⟩
      · obtain ⟨hf, rfl⟩ := List.cons.inj hstack
        obtain ⟨rfl, -⟩ := Frame.obj.inj hf
        exact .inside [] h
      · obtain ⟨rfl, rfl⟩ := List.cons.inj hstack
        exact .inside (.obj ms' (some name') :: top) h
    | closeArr =>
      rcases top with _ | ⟨f, top⟩
      · exact Frame.noConfusion (List.cons.inj hstack).1
      · obtain ⟨rfl, rfl⟩ := List.cons.inj hstack
        exact deliver_holding h _
    | closeObj =>
      rcases top with _ | ⟨f, top⟩
      · obtain ⟨hf, rfl⟩ := List.cons.inj hstack
        obtain ⟨rfl, -⟩ := Frame.obj.inj hf
        exact .done h
      · obtain ⟨rfl, rfl⟩ := List.cons.inj hstack
        exact deliver_holding h _

/-- **The text is an object that begins with the members that were read.** -/
theorem obj_of_holding {st : State} (h : Holding read st) {text : JsString} {v : Json}
    (hv : (run st text).bind finish = some v) : ∃ more, v = .obj (read.reverse ++ more) := by
  obtain ⟨st', hst', hfinish⟩ := Option.bind_eq_some_iff.mp hv
  cases kept_holding.run h hst' with
  | @inside top ms name mode => cases top <;> nomatch hfinish
  | @done ms hms =>
    obtain ⟨more, rfl⟩ := hms
    obtain rfl := Option.some_inj.mp hfinish
    exact ⟨more.reverse, by rw [List.reverse_append]⟩

end Json
