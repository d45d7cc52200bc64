/-
Questbook/Proofs/Engine/Perform.lean

What a command does to progress.

Main result: `perform_steps`.  A command that answers has changed progress by a chain of single
steps of its own mode:

    e.perform levels c = .ok (answer, e')  →  Steps c.mode (c.setting e) e'

`Command.setting` is the state in which the chain begins: a reload puts its packages in force first.
-/
import Questbook.Proofs.Engine.Stepwise

namespace Questbook

open Engine

/-! ### Commands -/

/-- What the steps of a command are part of. -/
def Command.mode : Command → Mode
  | restore _ => .restore
  | replacePackages _ => .reload
  | _ => .play

/-- The state in which the steps of a command begin. -/
def Command.setting (e : Engine) : Command → Engine
  | replacePackages packages => { e with packages }
  | _ => e

/-- All commands but two leave it at that content runs. -/
theorem Command.mode_cases (c : Command) : (∃ records, c = .restore records) ∨
    (∃ packages, c = .replacePackages packages) ∨ (c.mode = .play ∧ ∀ e, c.setting e = e) := by
  cases c with
  | restore records => exact .inl ⟨records, rfl⟩
  | replacePackages packages => exact .inr (.inl ⟨packages, rfl⟩)
  | _ => exact .inr (.inr ⟨rfl, fun _ => rfl⟩)

/-- A command that answers has changed progress by a chain of single steps. -/
theorem perform_steps {levels : Nat} {c : Command} {e e' : Engine} {answer : c.Answer}
    (h : e.perform levels c = .ok (answer, e')) : Steps c.mode (c.setting e) e' := by
  rcases c.mode_cases with ⟨records, rfl⟩ | ⟨packages, rfl⟩ | ⟨hmode, hsetting⟩
  · exact Objectives.restore_stepwise records e answer e' h
  · have hkeeps : (Objectives.reconcile packages).Keeps (Steps .reload { e with packages })
        fun _ => True := Objectives.reconcile_keeps (steps_keptByReload { e with packages })
    exact hkeeps.of_run .refl h
  · rw [hmode, hsetting]
    have hkeeps := (steps_keptByProgress e).perform_keeps levels () c
      (fun records hc => by subst hc; cases hmode) fun packages hc => by subst hc; cases hmode
    exact hkeeps.of_run .refl h

namespace Engine

/-! ### Runs -/

variable {levels : Nat} {cs : List Command} {c : Command} {e₀ e' : Engine}

theorem performAll_append (cs ds : List Command) (e : Engine) :
    performAll levels (cs ++ ds) e = (performAll levels cs e >>= performAll levels ds) := by
  induction cs generalizing e with
  | nil => rfl
  | cons c rest ih =>
    simp only [List.cons_append, performAll, bind_assoc]
    exact congrArg _ (funext fun r => ih r.2)

/-- A run goes on with one more command. -/
theorem performAll_append_singleton {e : Engine} {answer : c.Answer}
    (hbefore : performAll levels cs e₀ = .ok e) (hlast : e.perform levels c = .ok (answer, e')) :
    performAll levels (cs ++ [c]) e₀ = .ok e' := by
  rw [performAll_append, hbefore]
  show performAll levels [c] e = _
  unfold performAll
  rw [hlast]
  rfl

/-- A run goes on from where its first command has led. -/
theorem exists_of_performAll_cons (h : performAll levels (c :: cs) e₀ = .ok e') :
    ∃ e answer, e₀.perform levels c = .ok (answer, e) ∧ performAll levels cs e = .ok e' := by
  cases hstep : e₀.perform levels c with
  | error err => simp [performAll, hstep, bind, Except.bind] at h
  | ok r =>
    simp only [performAll, hstep, bind, Except.bind] at h
    exact ⟨r.2, r.1, rfl, h⟩

/-- The last command of a run is carried out where the others have led. -/
theorem performAll_concat (h : performAll levels (cs ++ [c]) e₀ = .ok e') :
    ∃ e answer, performAll levels cs e₀ = .ok e ∧ e.perform levels c = .ok (answer, e') := by
  rw [performAll_append] at h
  cases hrun : performAll levels cs e₀ with
  | error err =>
    rw [hrun] at h
    cases h
  | ok e =>
    rw [hrun] at h
    obtain ⟨e₁, answer, hstep, hrest⟩ := exists_of_performAll_cons h
    cases hrest
    exact ⟨e, answer, rfl, hstep⟩

/-! ### Trying runs out -/

/-- Whether there is an answer, and one that passes a test. -/
def passes {α : Type} (result : Except Halt α) (test : α → Bool) : Bool :=
  match result with
  | .ok x => test x
  | .error _ => false

theorem exists_of_passes {α : Type} {result : Except Halt α} {test : α → Bool}
    (h : passes result test = true) : ∃ x, result = .ok x ∧ test x = true := by
  cases result with
  | ok x => exact ⟨x, rfl, h⟩
  | error halt => cases h

/-- Packages with the single objective `forest.wolves`. -/
def wolves : Packages where
  sources := ⟨(∅ : Table String PackageSource).insert "forest"
    { PackageSource.empty with
      objectives := (∅ : Table String String).insert "wolves" "kill wolf 3" }⟩
  built := Catalogue.empty.add .objective ⟨"forest", "wolves"⟩
    ⟨⟨"forest", "wolves"⟩, .kill ["wolf"] 3, [], []⟩
  broken := []
  diagnostics := []

/-- An engine that has just begun, with an archive. -/
def bare : Engine :=
  fresh Registry.empty ⟨true, true⟩ World.empty true "chat" ⟨0, 0⟩ fun _ => 0

end Engine

end Questbook
