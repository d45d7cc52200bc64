/-
Questbook/Proofs/Engine/Landing.lean

What a check tells that is passed.

A check asks what it was put off with: for an arrow, the target and the range that the definition of
the objective had when the event was dispatched.  What the definition says on the tick does not
matter.  A reload that leaves the progress of an objective as it is leaves its checks as they are
too, and a reload that begins it anew gives it another epoch, so that they are dropped.

Main result: `check_honoured`.
-/
import Questbook.Proofs.Engine.Rechecks

namespace Questbook

open Engine

/-! ### Goals that are met -/

/-- On the event the goal has put a check off, and in the state `e` it is met. -/
inductive Goal.Met (n : Nested) (event : GameEvent) (check : Recheck) (e : Engine) : Goal → Prop
  /-- The arrow that has hit is strictly in range of the goal's own target: where the world has it
  by now, or else where it was reported. -/
  | arrow {target reported : Location} {range : Quantity} {p : PlayerId} {projectile : String}
      {blocks : Float} {e' : Engine} (hevent : event = .projectileHit p projectile .arrow reported)
      (hrange : (Act.attempt (range.resolve n p)).run e = .ok (.ok blocks, e'))
      (hnear : target.within ((e.world.projectile? projectile).getD reported).toSpot blocks =
        true) :
      Met n event check e (.arrow target range)
  /-- A goal of a host's own has given the check itself. -/
  | custom {goal : CustomGoal} {data data' : Json} {e₀ e₁ e' : Engine}
      (hgiven : (Act.attempt ((goal.handle data event).run (n.ask event.player))).run e₀ =
        .ok (.ok (data', .deferred check), e₁))
      (hpasses : (Act.attempt (check.passes n event.player)).run e = .ok (.ok true, e')) :
      Met n event check e (.custom goal)

/-- An evaluation that answers at once has this one answer. -/
theorem Eval.eq_of_pure_run {α : Type} {x y : α} {e e' : Engine}
    (h : StateT.run (ExceptT.run (pure x : Eval α)) e = .ok (.ok y, e')) : x = y := by
  cases h
  rfl

/-- A goal is met if the check that it has put off is passed. -/
theorem Goal.met_of_passes {n : Nested} {event : GameEvent} {check : Recheck} {goal : Goal}
    {data data' : Json} {e₀ e₁ e e' : Engine}
    (hgiven : (Act.attempt (goal.handle n event.player data event)).run e₀ =
      .ok (.ok (data', .deferred check), e₁))
    (hpasses : (Act.attempt (check.passes n event.player)).run e = .ok (.ok true, e')) :
    goal.Met n event check e := by
  rw [Goal.handle_eq] at hgiven
  split at hgiven
  case isFalse => cases hgiven
  case isTrue =>
    cases goal with
    | arrow target range =>
      simp only [Goal.respond] at hgiven
      split at hgiven
      · rename_i p projectile reported
        cases hgiven
        obtain ⟨_, _, hget, hpasses⟩ := Eval.exists_of_run_bind hpasses
        cases hget
        obtain ⟨blocks, e₁, hrange, hpasses⟩ := Eval.exists_of_run_bind hpasses
        exact .arrow rfl hrange (Eval.eq_of_pure_run hpasses)
      · cases hgiven
    -- Neither of the next two ever puts a check off.
    | reach target range =>
      simp only [Goal.respond] at hgiven
      split at hgiven
      · obtain ⟨blocks, e₁, -, hgiven⟩ := Eval.exists_of_run_bind hgiven
        have houtcome := congrArg Prod.snd (Eval.eq_of_pure_run hgiven)
        split at houtcome <;> cases houtcome
      · cases hgiven
    | kill entities amount =>
      simp only [Goal.respond] at hgiven
      split at hgiven
      · split at hgiven
        · have houtcome := congrArg Prod.snd (Eval.eq_of_pure_run hgiven)
          split at houtcome <;> cases houtcome
        · cases hgiven
      · cases hgiven
    | custom goal => exact .custom hgiven hpasses

/-! ### Checks that are passed -/

namespace Objectives

variable {n : Nested} {p : PlayerId} {id : ObjectId} {epoch : Nat} {check : Recheck}
  {e e₁ e' : Engine}

/-- A check that is passed settles its objective, under the definition in force by then. -/
theorem resume_of_passes (held : Nat) {definition : Objective} {settled : Bool}
    (hheld : e.progress.held? p = some held)
    (hcurrent : e.progress.isCurrent p held id epoch = true)
    (hpasses : (Act.attempt (check.passes n p)).run e = .ok (.ok true, e₁))
    (hdefined : e₁.packages.get .objective id = .ok definition)
    (hsettle : (settle n p held definition epoch).run e₁ = .ok (settled, e')) :
    (resume n p id epoch check).run e = .ok ((), e') := by
  have hget : (get : Act Engine).run e = .ok (e, e) := rfl
  have hobjective : (Act.objective id).run e₁ = .ok (.ok definition, e₁) := by
    show Except.ok (e₁.packages.get .objective id, e₁) = _
    rw [hdefined]
    rfl
  unfold resume
  refine (Act.run_bind_of_run hget).trans ?_
  rw [hheld]
  refine (Act.run_bind_of_run hget).trans ?_
  rw [if_pos hcurrent]
  refine (Act.run_bind_of_run hpasses).trans ((Act.run_bind_of_run hobjective).trans ?_)
  show ((fun _ => ()) <$> settle n p held definition epoch : Act Unit).run e₁ = _
  rw [StateT.run_map, hsettle]
  rfl

end Objectives

/-! ### Every run -/

namespace Engine

variable {registry : Registry} {integrations : Integrations} {world : World} {archived : Bool}
  {screen : String} {clock : Calendar.Timestamp} {dice : Dice} {levels : Nat}
  {start e e₀ e₁ e₂ e' : Engine}
  {cs before after : List Command} {done : List (Appointment Task)} {s : Appointment Task}
  {p : PlayerId} {o : ObjectId} {epoch : Nat} {check : Recheck} {event : GameEvent}
  {r : Except EvalError Bool}

/-- Packages stay in force until others are put in force. -/
theorem packages_of_performAll (hreload : ∀ packages, .replacePackages packages ∉ cs)
    (hrun : performAll levels cs start = .ok e) : e.packages = start.packages := by
  induction cs using List.reverseRecOn generalizing e with
  | nil =>
    cases hrun
    rfl
  | append_singleton cs c ih =>
    obtain ⟨e₁, answer, hbefore, hlast⟩ := performAll_concat hrun
    have hsetting : (c.setting e₁).packages = e₁.packages := by
      cases c with
      | replacePackages packages => exact absurd (by simp) (hreload packages)
      | _ => rfl
    have hbefore' := ih (fun packages hmem => hreload packages (by simp [hmem])) hbefore
    exact ((perform_steps hlast).packages_eq.trans hsetting).trans hbefore'

/-- When the turn of a check comes, the packages are in force that were in force when it was put
off, if none have been put in force since. -/
theorem CarriesOut.packages_eq (h : CarriesOut levels start cs done s e₁ e₂)
    (hdeferred : Deferred levels start cs before after event e₀ o epoch check)
    (hreload : ∀ packages, .replacePackages packages ∉ after) : e₁.packages = e₀.packages := by
  cases h with
  | @intro e rest hbefore hdue hdone hrun =>
    have hdone' : e₁.packages = e.packages :=
      (Task.runEach_stepwise levels done _ _ _ hdone).packages_eq
    rw [hdeferred.split, performAll_append, hdeferred.before] at hbefore
    have hsince : e.packages = e₀.packages := by
      refine packages_of_performAll (fun packages hmem => ?_) hbefore
      rcases List.mem_cons.1 hmem with hdispatch | hmem
      · cases hdispatch
      · exact hreload packages hmem
    exact hdone'.trans hsince

/-- **A check counts for the definition that has put it off.**  Suppose that on a tick of a run it
is the turn of a check of an objective, and what was started under the epoch of the check is
completed once the check has been run.  Then the objective is still active under that epoch when its
turn comes; a dispatch since the tick before has put the check off; and the definition that was in
force when the event was dispatched is met: it asks for an arrow, and the arrow is strictly in range
of its own target, or else a host's own goal has given a check that is passed.  If no packages have
been put in force since the dispatch, the definition is the one in force still. -/
theorem check_honoured
    (h : CarriesOut levels (fresh registry integrations world archived screen clock dice) cs done s
      e₁ e₂)
    (hs : s.task = .recheck p o epoch check)
    (hpasses : (Act.attempt (check.passes (nested levels) p)).run e₁ = .ok (r, e))
    (hcompleted : e.journal.times epoch .rewarded < e₂.journal.times epoch .rewarded) :
    (∃ active, e₁.progress.find? p o = some active ∧ active.epoch = epoch) ∧
    ∃ before event after e₀ definition, event.player = p ∧
      Deferred levels (fresh registry integrations world archived screen clock dice) cs before after
        event e₀ o epoch check ∧
      e₀.packages.get .objective o = .ok definition ∧
      definition.goal.Met (nested levels) event check e₁ ∧
      ((∀ packages, .replacePackages packages ∉ after) →
        e₁.packages.get .objective o = .ok definition) := by
  obtain ⟨before, event, after, e₀, rfl, hdeferred⟩ := h.deferred rfl hs
  -- What follows the check has completed the epoch, so that the check counted and was passed.
  obtain ⟨hactive, rfl⟩ : (∃ active, e₁.progress.find? event.player o = some active ∧
      active.epoch = epoch) ∧ r = .ok true := by
    rcases Objectives.resume_cases (h.resume_run hs) with
      ⟨-, hsame⟩ | ⟨active, _, _, hactive, hepoch, hrun, hr⟩
    · have hle : e₁.journal.times epoch .rewarded ≤ e.journal.times epoch .rewarded :=
        (Recheck.passes_stepwise levels _ check _ _ _ hpasses).moves.times_le epoch .rewarded
      rw [hsame] at hcompleted
      omega
    · cases hpasses.symm.trans hrun
      rcases hr with htrue | hsame
      · exact ⟨⟨active, hactive, hepoch⟩, htrue⟩
      · rw [hsame] at hcompleted
        omega
  refine ⟨hactive, before, event, after, e₀, ?_⟩
  cases hdeferred.puts with
  | @intro _ _ _ _ _ definition _ _ hturn hdefined _ hgiven =>
    have hmet := Goal.met_of_passes hgiven hpasses
    refine ⟨definition, rfl, hdeferred, hdefined, hmet, fun hreload => ?_⟩
    rw [h.packages_eq hdeferred hreload]
    exact hdefined

/-! ### An arrow that hits -/

/-- A place far off. -/
def clearing : Location := .ofSpot ⟨"world", 100, 64, 0⟩

theorem glade_near_glade : glade.within glade.toSpot 5 = true := by decide +kernel

theorem clearing_far_from_glade : clearing.within glade.toSpot 5 = false := by decide +kernel

/-- On the next tick the check of the arrow completes the objective, whatever the packages in force
are by then. -/
theorem carriesOut_landing (target : Location) {cs : List Command}
    (hrun : performAll 1 (shot ++ cs) bare = .ok { struck with packages := archery target }) :
    ∃ e₁ e₂, CarriesOut 1 bare (shot ++ cs) [] landing e₁ e₂ ∧
      (Act.attempt ((Recheck.landing glade (.constant 5) "arrow" glade).passes (nested 1)
        ⟨"ann"⟩)).run e₁ = .ok (.ok true, e₁) ∧
      e₁.packages = archery target ∧ e₁.world = World.empty ∧
      e₁.journal.times 0 .rewarded = 0 ∧ e₂.journal.times 0 .rewarded = 1 := by
  let e₁ : Engine := { struck with packages := archery target, agenda := struck.agenda.advance.2 }
  have hpasses : (Act.attempt ((Recheck.landing glade (.constant 5) "arrow" glade).passes (nested 1)
      ⟨"ann"⟩)).run e₁ = .ok (.ok (glade.within glade.toSpot 5), e₁) := rfl
  rw [glade_near_glade] at hpasses
  have hdefined : e₁.packages.get .objective ⟨"forest", "wolves"⟩ =
      .ok ⟨⟨"forest", "wolves"⟩, .arrow target (.constant 5), [], []⟩ := rfl
  obtain ⟨e₂, hsettle, hrewarded⟩ : ∃ e₂, (Objectives.settle (nested 1) ⟨"ann"⟩ 0
      ⟨⟨"forest", "wolves"⟩, .arrow target (.constant 5), [], []⟩ 0).run e₁ = .ok (true, e₂) ∧
      e₂.journal.times 0 .rewarded = 1 := ⟨_, rfl, rfl⟩
  have hresume := Objectives.resume_of_passes 0 rfl rfl hpasses hdefined hsettle
  have hdue : struck.agenda.advance.1 = [landing] := List.mergeSort_singleton _
  exact ⟨e₁, e₂, .intro hrun hdue rfl hresume, hpasses, rfl, rfl, rfl, hrewarded⟩

/-- The arrow has hit where it should, and nothing has happened since. -/
theorem check_honoured_of_hit : ∃ e₁ e₂ before event after e₀ definition,
    CarriesOut 1 bare shot [] landing e₁ e₂ ∧
    e₁.journal.times 0 .rewarded < e₂.journal.times 0 .rewarded ∧
    Deferred 1 bare shot before after event e₀ ⟨"forest", "wolves"⟩ 0
      (.landing glade (.constant 5) "arrow" glade) ∧
    e₀.packages.get .objective ⟨"forest", "wolves"⟩ = .ok definition ∧
    definition.goal.Met (nested 1) event (.landing glade (.constant 5) "arrow" glade) e₁ := by
  have hrun : performAll 1 (shot ++ []) bare = .ok { struck with packages := archery glade } :=
    performAll_shot
  obtain ⟨e₁, e₂, hcarries, hpasses, -, -, hbefore, hafter⟩ := carriesOut_landing glade hrun
  have hcompleted : e₁.journal.times 0 .rewarded < e₂.journal.times 0 .rewarded := by omega
  obtain ⟨-, before, event, after, e₀, definition, -, hdeferred, hdefined, hmet, -⟩ :=
    check_honoured hcarries rfl hpasses hcompleted
  exact ⟨e₁, e₂, before, event, after, e₀, definition, hcarries, hcompleted, hdeferred, hdefined,
    hmet⟩

/-- **A check does not go by new packages.**  After the arrow has hit the glade, other packages ask
for one in a clearing far off.  The progress of the objective can be read as before, so that the
next tick completes it, although the definition that is in force by then is not met. -/
theorem check_honoured_after_reload : ∃ e₁ e₂ definition,
    CarriesOut 1 bare (shot ++ [.replacePackages (archery clearing)]) [] landing e₁ e₂ ∧
    (Act.attempt ((Recheck.landing glade (.constant 5) "arrow" glade).passes (nested 1)
      ⟨"ann"⟩)).run e₁ = .ok (.ok true, e₁) ∧
    e₁.journal.times 0 .rewarded < e₂.journal.times 0 .rewarded ∧
    e₁.packages.get .objective ⟨"forest", "wolves"⟩ = .ok definition ∧
    definition.goal = .arrow clearing (.constant 5) ∧
    ¬ definition.goal.Met (nested 1) (.projectileHit ⟨"ann"⟩ "arrow" .arrow glade)
      (.landing glade (.constant 5) "arrow" glade) e₁ := by
  have hrun : performAll 1 (shot ++ [.replacePackages (archery clearing)]) bare =
      .ok { struck with packages := archery clearing } := by
    rw [performAll_append, performAll_shot]
    rfl
  obtain ⟨e₁, e₂, hcarries, hpasses, hpackages, hworld, hbefore, hafter⟩ :=
    carriesOut_landing clearing hrun
  refine ⟨e₁, e₂, ⟨⟨"forest", "wolves"⟩, .arrow clearing (.constant 5), [], []⟩, hcarries, hpasses,
    by omega, ?_, rfl, ?_⟩
  · rw [hpackages]
    rfl
  · intro hmet
    cases hmet with
    | arrow hevent hrange hnear =>
      cases hevent
      obtain rfl := Eval.eq_of_pure_run hrange
      rw [hworld] at hnear
      exact absurd hnear (Bool.eq_false_iff.1 clearing_far_from_glade)

end Engine

end Questbook
