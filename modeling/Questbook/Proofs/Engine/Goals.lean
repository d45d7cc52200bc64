/-
Questbook/Proofs/Engine/Goals.lean

What goals make of game events.

A goal reads progress, runs on a game event and answers with progress and an outcome.  What it puts
off asks for no more than the goal does.  A goal is lawful if it can read its own progress: the
progress it begins with, and all it comes to from there.  The built-in goals are lawful, as long as
the number to kill is a 32-bit one, and a goal of a host's own has to see to it.
-/
import Questbook.Engine.Objectives
import Questbook.Proofs.Engine.Demands
import Questbook.Proofs.Engine.Keeps

namespace Questbook

variable {n : Nested} {p : PlayerId}

theorem Script.mem_answers_of_run {α : Type} {ask : (r : Request) → Act r.Answer}
    {script : Script α} {a : α} {e e' : Engine}
    (h : StateT.run (ExceptT.run (script.run ask)) e = .ok (.ok a, e')) : a ∈ script.answers := by
  induction script generalizing e with
  | done b =>
    cases h
    exact Set.mem_singleton a
  | fail err => cases h
  | ask r next ih =>
    obtain ⟨answer, e₁, -, hnext⟩ := Eval.exists_of_run_bind h
    exact Set.mem_iUnion.2 ⟨answer, ih answer hnext⟩

namespace Goal

variable {goal : Goal} {before data : Json} {event : GameEvent} {e e' : Engine}

/-- A check that a goal puts off asks for no more than the goal. -/
theorem demands_of_deferred {check : Recheck}
    (h : StateT.run (ExceptT.run (goal.handle n p before event)) e =
      .ok (.ok (data, .deferred check), e')) : check.demands ⊆ goal.demands := by
  -- Only an arrow that flies and a goal of the host put a check off.
  cases goal with
  | arrow target range =>
    simp only [handle] at h
    split at h
    · split at h
      · cases h
        exact subset_rfl
      · cases h
    · cases h
  | reach target range =>
    simp only [handle] at h
    split at h
    · split at h
      · obtain ⟨x, e₁, -, h⟩ := Eval.exists_of_run_bind h
        split at h <;> cases h
      · cases h
    · cases h
  | kill entities amount =>
    simp only [handle] at h
    split at h
    · cases h
    · split at h
      · split at h
        · split at h <;> cases h
        · cases h
      · cases h
  | custom g =>
    simp only [handle] at h
    split at h
    · intro d hd
      simp only [Goal.demands, Set.mem_iUnion]
      exact ⟨before, event, .inr ⟨data, check, Script.mem_answers_of_run h, hd⟩⟩
    · cases h

/-! ### Progress that can be read -/

/-- Progress that a goal comes to by a game event. -/
def Made (goal : Goal) (data : Json) : Prop :=
  ∃ n p before event e outcome e',
    StateT.run (ExceptT.run (goal.handle n p before event)) e = .ok (.ok (data, outcome), e')

/-- A goal that can read its own progress. -/
def Lawful : Goal → Prop
  | arrow _ _ => True
  | reach _ _ => True
  | kill _ amount => amount ≤ Decimal.maxUnsigned32
  | custom g => g.accepts g.initial = true ∧
      ∀ before event data outcome, g.accepts before = true →
        (data, outcome) ∈ (g.handle before event).answers → g.accepts data = true

theorem killsLeft?_killData {left : Nat} (h : left ≤ Decimal.maxUnsigned32) :
    killsLeft? (killData left) = some left := by
  have hint : (left : Int) ≤ Decimal.maxUnsigned32 := by exact_mod_cast h
  simp [killsLeft?, killData, Json.ofFields, Json.setField, Json.members?, Json.field?,
    Json.Given.required, Json.natural?, openRecord, hint]

theorem natural?_le {limit k : Nat} (h : Json.natural? limit data = some k) : k ≤ limit := by
  unfold Json.natural? at h
  split at h
  · split at h
    · cases h
      omega
    · cases h
  · cases h

theorem killsLeft?_le {left : Nat} (h : killsLeft? data = some left) :
    left ≤ Decimal.maxUnsigned32 := by
  obtain ⟨given, -, h⟩ := Option.bind_eq_some_iff.1 h
  split at h
  · rename_i entry
    cases entry with
    | value j => exact natural?_le h
    | absent | cut => cases h
  · cases h

theorem Lawful.accepts_initial (h : goal.Lawful) : goal.accepts goal.initial = true := by
  cases goal with
  | arrow | reach => rfl
  | kill entities amount => simp [accepts, initial, killsLeft?_killData h]
  | custom g => exact h.1

/-- What a lawful goal comes to by a game event can be read. -/
theorem Lawful.accepts_of_made (h : goal.Lawful) (hmade : goal.Made data) :
    goal.accepts data = true := by
  obtain ⟨n, p, before, event, e, outcome, e', hrun⟩ := hmade
  cases goal with
  | arrow target range =>
    simp only [handle] at hrun
    split at hrun
    · rename_i hnull
      split at hrun
      · cases hrun
        exact hnull
      · cases hrun
        exact hnull
    · cases hrun
  | reach target range =>
    simp only [handle] at hrun
    split at hrun
    · rename_i hnull
      split at hrun
      · obtain ⟨x, e₁, -, hrun⟩ := Eval.exists_of_run_bind hrun
        cases hrun
        exact hnull
      · cases hrun
        exact hnull
    · cases hrun
  | kill entities amount =>
    -- What is left of the kills never grows, and so stays in range.
    simp only [handle] at hrun
    split at hrun
    · cases hrun
    · rename_i left hleft
      split at hrun
      · split at hrun
        · cases hrun
          simp [accepts, killsLeft?_killData (Nat.le_trans (Nat.sub_le _ _) (killsLeft?_le hleft))]
        · cases hrun
          simp [accepts, hleft]
      · cases hrun
        simp [accepts, hleft]
  | custom g =>
    simp only [handle] at hrun
    split at hrun
    · rename_i haccepts
      exact h.2 before event data outcome haccepts (Script.mem_answers_of_run hrun)
    · cases hrun

end Goal

/-! ### Packages -/

/-- What is found under an identifier was built. -/
theorem Packages.find?_of_get {packages : Packages} {k : Kind} {id : ObjectId} {d : k.Def}
    (h : packages.get k id = .ok d) : packages.built.find? k id = some d := by
  unfold get at h
  split at h
  · cases h
  · split at h
    · rename_i hbuilt
      rw [hbuilt, Except.ok.inj h]
    · cases h

/-- Packages whose goals can read their own progress. -/
def Packages.Lawful (packages : Packages) : Prop :=
  ∀ id definition, packages.get .objective id = .ok definition → definition.goal.Lawful

theorem Packages.lawful_empty : Packages.empty.Lawful := by
  intro id definition h
  obtain ⟨err, herr⟩ : ∃ err, Packages.empty.get .objective id = .error err := ⟨_, rfl⟩
  cases herr.symm.trans h

end Questbook
