/-
Questbook/Proofs/Engine/Step.lean

What a single step may do to the progress of the players.

Whatever a command does, however deep completion events nest in it, it changes progress, outbox
and journal by the few steps that `Engine.Step` lists, one constructor each.  A step carries what
the engine has checked before it, so that an invariant of progress needs one look at each
constructor and nothing else:

    Step mode e e'  →  Invariant e  →  Invariant e'.

Which steps may occur hangs on the mode: `play` while content runs, `reload` while progress is
fitted to new packages, `restore` while it is read back from storage.

`Stepwise mode a` says that every run of `a` that answers is a chain of such steps.  What has been
reached by steps is a property of the state, so that it is shown like any other invariant.
-/
import Mathlib.Logic.Relation
import Questbook.Proofs.Engine.Levels

namespace Questbook

namespace Engine

/-- What a chain of steps is part of. -/
inductive Mode where
  /-- Content runs. -/
  | play
  /-- Progress is fitted to new packages. -/
  | reload
  /-- Progress is read back from storage. -/
  | restore

/-- A single step of progress. -/
inductive Step : Mode → Engine → Engine → Prop
  /-- A step that does not touch progress. -/
  | aside {mode e e'} (hprogress : e'.progress = e.progress) (houtbox : e'.outbox = e.outbox)
      (hjournal : e'.journal = e.journal) (hpackages : e'.packages = e.packages) : Step mode e e'
  | prune {mode} (e : Engine) (p : PlayerId) (held : Nat) : Step mode e (e.pruned p held)
  | start {e : Engine} {p : PlayerId} {id : ObjectId} {definition : Objective}
      (hdefined : e.packages.get .objective id = .ok definition)
      (hinactive : e.progress.find? p id = none) :
      Step .play e (e.begun p id definition.goal.initial)
  | store {e : Engine} {p : PlayerId} {held : Nat} {id : ObjectId} {active : Active}
      (hactive : e.progress.findIn? p held id = some active) (data : Json) :
      Step .play e (e.stored p held id active active.epoch data)
  | cancel {e : Engine} {p : PlayerId} {held : Nat} {id : ObjectId} {active : Active}
      (hactive : e.progress.findIn? p held id = some active) :
      Step .play e (e.removed p held id active .cancelled)
  /-- An objective ends as completed, and its events are about to be fired. -/
  | complete {e : Engine} {p : PlayerId} {held : Nat} {id : ObjectId} {active : Active}
      (hactive : e.progress.findIn? p held id = some active) :
      Step .play e (e.completed p held id active)
  | drop {e : Engine} {p : PlayerId} {held : Nat} {id : ObjectId} {active : Active} {err : NotFound}
      (hactive : e.progress.findIn? p held id = some active)
      (hundefined : e.packages.get .objective id = .error err) :
      Step .reload e (e.ended p held id active .dropped)
  | renew {e : Engine} {p : PlayerId} {held : Nat} {id : ObjectId} {active : Active}
      {definition : Objective} (hactive : e.progress.findIn? p held id = some active)
      (hdefined : e.packages.get .objective id = .ok definition)
      (hunreadable : definition.goal.accepts active.data = false) :
      Step .reload e (e.renewed p held id active definition.goal.initial)
  | restore {e : Engine} {p : PlayerId} {id : ObjectId} {definition : Objective} {data : Json}
      (hdefined : e.packages.get .objective id = .ok definition)
      (hreadable : definition.goal.accepts data = true ∨ data = definition.goal.initial)
      (startedAt : Calendar.Timestamp) : Step .restore e (e.enter p id data startedAt).2

/-- A chain of single steps. -/
abbrev Steps (mode : Mode) : Engine → Engine → Prop := Relation.ReflTransGen (Step mode)

theorem Step.packages_eq {mode : Mode} {e e' : Engine} (h : Step mode e e') :
    e'.packages = e.packages := by
  cases h with
  | aside _ _ _ hpackages => exact hpackages
  | start => exact packages_begun ..
  | restore => exact packages_enter ..
  | _ => rfl

theorem Steps.packages_eq {mode : Mode} {e e' : Engine} (h : Steps mode e e') :
    e'.packages = e.packages := by
  induction h with
  | refl => rfl
  | tail _ hstep ih => exact hstep.packages_eq.trans ih

end Engine

open Engine

variable {mode : Mode} {α : Type} {a : Act α} {e₀ : Engine}

/-- Every run of `a` that answers is a chain of single steps. -/
def Act.Stepwise (mode : Mode) (a : Act α) : Prop :=
  ∀ e x e', a.run e = .ok (x, e') → Steps mode e e'

/-- What goes on from whatever has been reached by steps is a chain of steps. -/
theorem Act.stepwise_of_keeps {H : Halt → Prop} (h : ∀ e₀, a.Keeps (Steps mode e₀) H) :
    a.Stepwise mode :=
  fun e _ _ hrun => (h e).of_run .refl hrun

end Questbook
