/-
Questbook/Proofs/Engine/Stepwise.lean

Everything that is done is done by single steps.

What has been reached from some state by single steps is kept by every change that the engine makes
for a player: each of them is a step, or two.  So it is kept by all that the engine does, on every
level.  The checks that guard a step (an objective is active in the held slot, the packages in force
define it) are the hypotheses of the changes, and here they become those of the constructors of
`Engine.Step`, so that no later proof looks at the code again.
-/
import Questbook.Proofs.Engine.Step

namespace Questbook

open Engine

variable {mode : Mode} {e₀ : Engine} {p : PlayerId} {H : Halt → Prop}

/-! ### Play -/

/-- What has been reached by steps of play is kept by the changes of progress. -/
theorem steps_keptByProgress (e₀ : Engine) :
    KeptByProgress e₀.packages fun _ : Unit => Steps .play e₀ where
  aside he h := he.tail (.aside h.progress h.outbox h.journal h.packages)
  packages he := Steps.packages_eq he
  start he hdefined hinactive := he.tail (.start (Steps.packages_eq he ▸ hdefined) hinactive)
  store he hactive _ _ := he.tail (.store hactive _)
  cancel he hactive := (he.tail (.cancel hactive)).tail (.prune _ _ _)
  complete he hactive := ⟨(), he.tail (.complete hactive), fun _ he => he.tail (.prune _ _ _)⟩
  prune _ _ he := he.tail (.prune _ _ _)

/-- The engine one level further down changes progress by single steps. -/
structure Nested.Stepwise (n : Nested) : Prop where
  fire : ∀ p events, Act.Stepwise .play (n.fire p events)
  checks : ∀ p conditions, Act.Stepwise .play (allHold n p conditions)

theorem nested_stepwise (levels : Nat) : (nested levels).Stepwise where
  fire p events := Act.stepwise_of_keeps fun e₀ =>
    (steps_keptByProgress e₀).fire_keeps levels p events ()
  checks p _ := Act.stepwise_of_keeps fun e₀ =>
    allHold_keeps ((steps_keptByProgress e₀).play levels p ()).content (Set.subset_univ _)

/-- What a goal makes of a game event changes progress by single steps. -/
theorem Goal.handle_stepwise (levels : Nat) (p : PlayerId) (goal : Goal) (data : Json)
    (event : GameEvent) :
    Act.Stepwise .play (Act.attempt (goal.handle (nested levels) p data event)) :=
  Act.stepwise_of_keeps fun e₀ =>
    Goal.handle_keeps ((steps_keptByProgress e₀).play levels p ()).content (Set.subset_univ _) _ _

/-- What a check does that was put off changes progress by single steps. -/
theorem Recheck.passes_stepwise (levels : Nat) (p : PlayerId) (check : Recheck) :
    Act.Stepwise .play (Act.attempt (check.passes (nested levels) p)) :=
  Act.stepwise_of_keeps fun e₀ =>
    Recheck.passes_keeps ((steps_keptByProgress e₀).play levels p ()).content (Set.subset_univ _)

theorem Objectives.store_stepwise (held : Nat) (id : ObjectId) (epoch : Nat) (data : Json) :
    Act.Stepwise .play (store p held id epoch data) := by
  refine Act.stepwise_of_keeps (H := fun _ => True) fun e₀ => Act.keeps_get_bind fun e he => ?_
  cases hactive : e.progress.findIn? p held id with
  | none => exact he
  | some active =>
    dsimp only
    split
    · rename_i hepoch
      subst hepoch
      exact he.tail (.store hactive data)
    · exact he

/-! ### Reload and storage -/

theorem steps_keptByReload (e₀ : Engine) (p : PlayerId) :
    KeptByReload p e₀.packages (Steps .reload e₀) where
  drop he hactive hundefined := he.tail (.drop hactive (Steps.packages_eq he ▸ hundefined))
  renew he hactive hdefined hunreadable :=
    he.tail (.renew hactive (Steps.packages_eq he ▸ hdefined) hunreadable)
  prune _ he := he.tail (.prune _ _ _)

theorem Objectives.restore_stepwise (records : List ProgressRecord) :
    Act.Stepwise .restore (restore records) :=
  Act.stepwise_of_keeps (H := fun _ => True) fun _ => restore_keeps
    (fun _ _ he hdefined hreadable => he.tail (.restore hdefined hreadable _)) records

end Questbook
