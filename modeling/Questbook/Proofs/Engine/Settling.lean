/-
Questbook/Proofs/Engine/Settling.lean

How an objective is settled.

Once its goal is reached, an objective is completed if all its conditions are checked to true and it
is still active since the same start when the last of them has been checked.  Otherwise nothing
happens any more, and it is left as the conditions have left it.

Content that asks for no more than luck, a look at the conversation and a note leaves the progress
of everybody alone while it is evaluated.  Where goal, checks and conditions are such, an objective
that is not completed is left as it was, but for the progress that was stored.

Main results: `settle_run_iff` for an objective whose goal is reached, `offer_run_iff` for an event
that is offered and `resume_run_iff` for a check that is run.
-/
import Questbook.Proofs.Engine.Completion
import Questbook.Proofs.Engine.Turns

namespace Questbook

open Engine

variable {n : Nested} {p : PlayerId}

/-! ### Conditions -/

/-- All conditions are checked to true, one after another. -/
inductive AllMet (n : Nested) (p : PlayerId) : List ConditionRef → Engine → Engine → Prop
  | nil (e : Engine) : AllMet n p [] e e
  | cons {c : ConditionRef} {rest : List ConditionRef} {e e₁ e₂ : Engine}
      (hc : (Act.attempt (c.evaluate n p)).run e = .ok (.ok true, e₁))
      (hrest : AllMet n p rest e₁ e₂) : AllMet n p (c :: rest) e e₂

/-- All conditions up to some are checked to true, and that one is false or fails. -/
inductive Unmet (n : Nested) (p : PlayerId) : List ConditionRef → Engine → Engine → Prop
  | head {c : ConditionRef} {rest : List ConditionRef} {e e₁ : Engine} {r : Except EvalError Bool}
      (hc : (Act.attempt (c.evaluate n p)).run e = .ok (r, e₁)) (hr : r ≠ .ok true) :
      Unmet n p (c :: rest) e e₁
  | tail {c : ConditionRef} {rest : List ConditionRef} {e e₁ e₂ : Engine}
      (hc : (Act.attempt (c.evaluate n p)).run e = .ok (.ok true, e₁))
      (hrest : Unmet n p rest e₁ e₂) : Unmet n p (c :: rest) e e₂

section

variable {c : ConditionRef} {conditions : List ConditionRef} {e e' : Engine}
  {r : Except EvalError Bool}

theorem Check.holds_of_true (hc : (Act.attempt (c.evaluate n p)).run e = .ok (.ok true, e')) :
    (c.holds n p).run e = .ok (true, e') :=
  Act.run_bind_of_run hc

/-- A condition that is false and one that fails do not hold. -/
theorem Check.holds_of_ne (hc : (Act.attempt (c.evaluate n p)).run e = .ok (r, e'))
    (hr : r ≠ .ok true) : (c.holds n p).run e = .ok (false, e') := by
  refine (Act.run_bind_of_run hc).trans ?_
  match r with
  | .error err => rfl
  | .ok false => rfl
  | .ok true => exact absurd rfl hr

theorem Check.exists_of_holds_run {met : Bool} (h : (c.holds n p).run e = .ok (met, e')) :
    ∃ r, (Act.attempt (c.evaluate n p)).run e = .ok (r, e') ∧ (met = true ↔ r = .ok true) := by
  obtain ⟨r, e₁, hc, h⟩ := Act.exists_of_run_bind h
  match r with
  | .error err =>
    cases h
    exact ⟨_, hc, by simp⟩
  | .ok met =>
    cases h
    exact ⟨_, hc, by simp⟩

theorem AllMet.run (h : AllMet n p conditions e e') :
    (allHold n p conditions).run e = .ok (true, e') := by
  induction h with
  | nil => rfl
  | cons hc _ ih => exact (Act.run_bind_of_run (Check.holds_of_true hc)).trans ih

theorem Unmet.run (h : Unmet n p conditions e e') :
    (allHold n p conditions).run e = .ok (false, e') := by
  induction h with
  | head hc hr => exact Act.run_bind_of_run (Check.holds_of_ne hc hr)
  | tail hc _ ih => exact (Act.run_bind_of_run (Check.holds_of_true hc)).trans ih

/-- Conditions that have been checked are all met, or one of them is not. -/
theorem met_of_allHold_run {met : Bool} (h : (allHold n p conditions).run e = .ok (met, e')) :
    if met then AllMet n p conditions e e' else Unmet n p conditions e e' := by
  induction conditions generalizing e with
  | nil =>
    cases h
    exact .nil _
  | cons c rest ih =>
    obtain ⟨holds, e₁, hholds, h⟩ := Act.exists_of_run_bind h
    obtain ⟨r, hc, hr⟩ := Check.exists_of_holds_run hholds
    cases holds with
    | false =>
      cases h
      exact .head hc (by simpa using hr)
    | true =>
      obtain rfl := hr.1 rfl
      have hrest := ih h
      cases met with
      | false => exact .tail hc hrest
      | true => exact .cons hc hrest

theorem allHold_run_true_iff :
    (allHold n p conditions).run e = .ok (true, e') ↔ AllMet n p conditions e e' :=
  ⟨fun h => met_of_allHold_run h, AllMet.run⟩

theorem allHold_run_false_iff :
    (allHold n p conditions).run e = .ok (false, e') ↔ Unmet n p conditions e e' :=
  ⟨fun h => met_of_allHold_run h, Unmet.run⟩

end

/-! ### An objective whose goal is reached -/

/-- What comes of an objective whose goal is reached in `e`, as far as its start under the epoch is
concerned: whether it is completed, and the state in the end. -/
inductive Settles (n : Nested) (p : PlayerId) (held : Nat) (definition : Objective) (epoch : Nat)
    (e : Engine) : Bool → Engine → Prop
  /-- A condition is false or fails. -/
  | unmet {e' : Engine} (h : Unmet n p definition.conditions e e') :
      Settles n p held definition epoch e false e'
  /-- The conditions themselves have seen to it that the start does not count any more. -/
  | stale {e' : Engine} (h : AllMet n p definition.conditions e e')
      (hstale : e'.progress.isCurrent p held definition.id epoch = false) :
      Settles n p held definition epoch e false e'
  /-- All conditions are met, and in the state that the last of them has left the objective is
  completed; its events follow. -/
  | completed {active : Active} {e₁ e₂ : Engine} (h : AllMet n p definition.conditions e e₁)
      (hactive : e₁.progress.findIn? p held definition.id = some active)
      (hepoch : active.epoch = epoch)
      (hfire : (n.fire p definition.events).run (e₁.completed p held definition.id active) =
        .ok ((), e₂)) :
      Settles n p held definition epoch e true (e₂.pruned p held)

namespace Objectives

variable {held epoch : Nat} {id : ObjectId} {definition : Objective} {e e₁ e₂ e' : Engine}

theorem isCurrent_eq_false_iff : e.progress.isCurrent p held id epoch = false ↔
    ∀ active, e.progress.findIn? p held id = some active → active.epoch ≠ epoch := by
  rw [← Bool.not_eq_true, Slots.isCurrent_iff]
  simp

/-- Removing what is active under the epoch. -/
theorem remove_of_current {active : Active} {how : Ending}
    (hactive : e.progress.findIn? p held id = some active) :
    (remove p held id (some active.epoch) how).run e =
      .ok (some active.epoch, e.removed p held id active how) := by
  rw [remove_run, hactive]
  simp

theorem remove_of_stale {how : Ending} (h : e.progress.isCurrent p held id epoch = false) :
    (remove p held id (some epoch) how).run e = .ok (none, e) := by
  rw [isCurrent_eq_false_iff] at h
  rw [remove_run]
  cases hfind : e.progress.findIn? p held id with
  | none => rfl
  | some active => simp [Ne.symm (h active hfind)]

/-- How an objective is settled whose goal is reached. -/
theorem settle_run_iff {done : Bool} : (settle n p held definition epoch).run e = .ok (done, e') ↔
    Settles n p held definition epoch e done e' := by
  refine ⟨fun h => ?_, fun h => ?_⟩
  · cases done with
    | true =>
      obtain ⟨e₁, e₂, active, hmet, hactive, hepoch, hfire, rfl⟩ := settle_run h
      exact .completed (allHold_run_true_iff.1 hmet) hactive hepoch hfire
    | false =>
      obtain ⟨met, e₁, hmet, h⟩ := Act.exists_of_run_bind h
      cases met with
      | false =>
        cases h
        exact .unmet (allHold_run_false_iff.1 hmet)
      | true =>
        obtain ⟨removed, e₂, hremove, hk⟩ := Act.exists_of_run_bind h
        rcases remove_cases hremove with ⟨rfl, rfl⟩ | ⟨active, hactive, hepoch, rfl, rfl⟩
        · cases hk
          refine .stale (allHold_run_true_iff.1 hmet) (isCurrent_eq_false_iff.2 ?_)
          intro active hactive hepoch
          rw [← hepoch, remove_of_current hactive] at hremove
          cases hremove
        · obtain ⟨_, e₃, -, hk⟩ := Act.exists_of_run_bind hk
          cases hk
  · cases h with
    | unmet h => exact Act.run_bind_of_run h.run
    | stale h hstale =>
      exact (Act.run_bind_of_run h.run).trans (Act.run_bind_of_run (remove_of_stale hstale))
    | @completed active e₁ e₂ h hactive hepoch hfire =>
      subst hepoch
      refine (Act.run_bind_of_run h.run).trans
        ((Act.run_bind_of_run (remove_of_current hactive)).trans ?_)
      exact Act.run_bind_of_run (a := finish n p definition.id active.epoch definition.events) hfire

end Objectives

/-! ### An event that is offered -/

/-- What becomes of a game event that is offered to an objective that is active in `e`. -/
inductive Offers (n : Nested) (event : GameEvent) (p : PlayerId) (held : Nat) (id : ObjectId)
    (definition : Objective) (active : Active) (e : Engine) : Engine → Prop
  /-- The goal fails, and nothing more happens. -/
  | failed {err : EvalError} {e' : Engine}
      (h : (Act.attempt (definition.goal.handle n p active.data event)).run e =
        .ok (.error err, e')) :
      Offers n event p held id definition active e e'
  | ignored {data : Json} {e' : Engine}
      (h : (Act.attempt (definition.goal.handle n p active.data event)).run e =
        .ok (.ok (data, .ignored), e')) :
      Offers n event p held id definition active e e'
  | progressed {data : Json} {done : Bool} {e₁ e' : Engine}
      (h : (Act.attempt (definition.goal.handle n p active.data event)).run e =
        .ok (.ok (data, .progressed), e₁))
      (hstore : (Objectives.store p held id active.epoch data).run e₁ = .ok (done, e')) :
      Offers n event p held id definition active e e'
  | deferred {data : Json} {check : Recheck} {e₁ : Engine} {agenda : Agenda Task}
      (h : (Act.attempt (definition.goal.handle n p active.data event)).run e =
        .ok (.ok (data, .deferred check), e₁))
      (hagenda : e₁.agenda.afterAll? [(1, .recheck p id active.epoch check)] = some agenda) :
      Offers n event p held id definition active e { e₁ with agenda }
  /-- The goal is satisfied, but has itself seen to it that the start does not count any more. -/
  | stale {data : Json} {e' : Engine}
      (h : (Act.attempt (definition.goal.handle n p active.data event)).run e =
        .ok (.ok (data, .satisfied), e'))
      (hstale : e'.progress.isCurrent p held id active.epoch = false) :
      Offers n event p held id definition active e e'
  /-- The goal is satisfied: its progress is stored, and the objective is settled. -/
  | satisfied {data : Json} {now : Active} {done : Bool} {e₁ e' : Engine}
      (h : (Act.attempt (definition.goal.handle n p active.data event)).run e =
        .ok (.ok (data, .satisfied), e₁))
      (hnow : e₁.progress.findIn? p held id = some now) (hepoch : now.epoch = active.epoch)
      (hsettles : Settles n p held definition active.epoch
        (e₁.stored p held id now active.epoch data) done e') :
      Offers n event p held id definition active e e'

namespace Objectives

variable {held epoch : Nat} {id : ObjectId} {definition : Objective} {active : Active}
  {K : Packages} {event : GameEvent} {data : Json} {e e₁ e' : Engine}

theorem store_of_current {now : Active} (hnow : e.progress.findIn? p held id = some now)
    (hepoch : now.epoch = epoch) :
    (store p held id epoch data).run e = .ok (true, e.stored p held id now epoch data) := by
  refine (Act.run_get_bind _ e).trans ?_
  rw [hnow]
  dsimp only
  rw [if_pos hepoch]
  rfl

theorem store_of_stale (h : e.progress.isCurrent p held id epoch = false) :
    (store p held id epoch data).run e = .ok (false, e) := by
  rw [isCurrent_eq_false_iff] at h
  refine (Act.run_get_bind _ e).trans ?_
  cases hfind : e.progress.findIn? p held id with
  | none => rfl
  | some now =>
    dsimp only
    rw [if_neg (h now hfind)]
    rfl

/-- Either there is something to store the progress of, or there is not. -/
theorem current_or_stale (e : Engine) (p : PlayerId) (held : Nat) (id : ObjectId) (epoch : Nat) :
    (∃ now, e.progress.findIn? p held id = some now ∧ now.epoch = epoch) ∨
      e.progress.isCurrent p held id epoch = false := by
  cases h : e.progress.isCurrent p held id epoch with
  | true => exact .inl ((Slots.isCurrent_iff _ _ _ _).1 h)
  | false => exact .inr rfl

theorem run_discard {α : Type} {a : Act α} : (discard a).run e = .ok ((), e') ↔
    ∃ x, a.run e = .ok (x, e') := by
  show ((fun _ => ()) <$> a : Act Unit).run e = _ ↔ _
  rw [StateT.run_map]
  cases h : a.run e with
  | error err => simp [Except.map, Functor.map]
  | ok r => simp [Functor.map, Except.map, Prod.ext_iff]

theorem offer_of_inactive (h : e.progress.findIn? p held id = none) :
    (offer n K event p held id).run e = .ok ((), e) := by
  refine (Act.run_get_bind _ e).trans ?_
  rw [h]
  cases K.get .objective id <;> rfl

theorem offer_of_undefined {err : NotFound} (h : K.get .objective id = .error err) :
    (offer n K event p held id).run e = .ok ((), e) := by
  refine (Act.run_get_bind _ e).trans ?_
  rw [h]
  rfl

/-- What is done with the answer of a goal to an event. -/
def heed (n : Nested) (p : PlayerId) (held : Nat) (id : ObjectId) (definition : Objective)
    (epoch : Nat) : Except EvalError (Json × Outcome) → Act Unit
  | .error _ => pure ()
  | .ok (_, .ignored) => pure ()
  | .ok (data, .progressed) => discard (store p held id epoch data)
  | .ok (data, .satisfied) => do
    if ← store p held id epoch data then discard (settle n p held definition epoch)
  | .ok (_, .deferred check) => Act.later [(1, .recheck p id epoch check)]

/-- To offer an event to an active objective is to let its goal answer and to heed the answer. -/
theorem offer_run (hdefined : K.get .objective id = .ok definition)
    (hactive : e.progress.findIn? p held id = some active) :
    (offer n K event p held id).run e =
      (Act.attempt (definition.goal.handle n p active.data event) >>=
        heed n p held id definition active.epoch).run e := by
  refine (Act.run_get_bind _ e).trans ?_
  rw [hdefined, hactive]
  refine congrArg (StateT.run · e) (bind_congr fun r => ?_)
  match r with
  | .error err => rfl
  | .ok (data, .ignored) => rfl
  | .ok (data, .progressed) => rfl
  | .ok (data, .satisfied) => rfl
  | .ok (data, .deferred check) => rfl

/-- How an event goes that is offered to an active objective. -/
theorem offer_run_iff (hdefined : K.get .objective id = .ok definition)
    (hactive : e.progress.findIn? p held id = some active) :
    (offer n K event p held id).run e = .ok ((), e') ↔
      Offers n event p held id definition active e e' := by
  rw [offer_run hdefined hactive]
  refine ⟨fun h => ?_, fun h => ?_⟩
  · obtain ⟨r, e₁, hjudged, h⟩ := Act.exists_of_run_bind h
    match r with
    | .error err =>
      cases h
      exact .failed hjudged
    | .ok (data, .ignored) =>
      cases h
      exact .ignored hjudged
    | .ok (data, .progressed) =>
      obtain ⟨done, hstore⟩ := run_discard.1 h
      exact .progressed hjudged hstore
    | .ok (data, .satisfied) =>
      -- Handling the event may have ended the start that it was about.
      rcases current_or_stale e₁ p held id active.epoch with ⟨now, hnow, hepoch⟩ | hstale
      · have h := (Act.run_bind_of_run (store_of_current hnow hepoch)).symm.trans h
        obtain ⟨done, hsettle⟩ := run_discard.1 h
        exact .satisfied hjudged hnow hepoch (settle_run_iff.1 hsettle)
      · have h := (Act.run_bind_of_run (store_of_stale hstale)).symm.trans h
        cases h
        exact .stale hjudged hstale
    | .ok (data, .deferred check) =>
      obtain ⟨_, _, hget, h⟩ := Act.exists_of_run_bind h
      cases hget
      split at h
      · rename_i agenda hagenda
        cases h
        exact .deferred hjudged hagenda
      · cases h
  · cases h with
    | failed hjudged => exact Act.run_bind_of_run hjudged
    | ignored hjudged => exact Act.run_bind_of_run hjudged
    | progressed hjudged hstore =>
      exact (Act.run_bind_of_run hjudged).trans (run_discard.2 ⟨_, hstore⟩)
    | @deferred data check e₁ agenda hjudged hagenda =>
      refine (Act.run_bind_of_run hjudged).trans ((Act.run_get_bind _ e₁).trans ?_)
      rw [hagenda]
      rfl
    | stale hjudged hstale =>
      exact (Act.run_bind_of_run hjudged).trans (Act.run_bind_of_run (store_of_stale hstale))
    | satisfied hjudged hnow hepoch hsettles =>
      refine (Act.run_bind_of_run hjudged).trans
        ((Act.run_bind_of_run (store_of_current hnow hepoch)).trans ?_)
      exact run_discard.2 ⟨_, settle_run_iff.2 hsettles⟩

end Objectives

/-! ### A check that is run -/

/-- What becomes of a check that is run for an objective that is active in `e` under the epoch. -/
inductive Resumes (n : Nested) (p : PlayerId) (held : Nat) (id : ObjectId) (epoch : Nat)
    (check : Recheck) (e : Engine) : Engine → Prop
  /-- The check fails or is not passed, and nothing more happens. -/
  | rejected {r : Except EvalError Bool} {e' : Engine}
      (h : (Act.attempt (check.passes n p)).run e = .ok (r, e')) (hr : r ≠ .ok true) :
      Resumes n p held id epoch check e e'
  | undefined {err : NotFound} {e' : Engine}
      (h : (Act.attempt (check.passes n p)).run e = .ok (.ok true, e'))
      (hundefined : e'.packages.get .objective id = .error err) :
      Resumes n p held id epoch check e e'
  /-- The check is passed, and the objective is settled. -/
  | passed {definition : Objective} {done : Bool} {e₁ e' : Engine}
      (h : (Act.attempt (check.passes n p)).run e = .ok (.ok true, e₁))
      (hdefined : e₁.packages.get .objective id = .ok definition)
      (hsettles : Settles n p held definition epoch e₁ done e') :
      Resumes n p held id epoch check e e'

namespace Objectives

variable {held epoch : Nat} {id : ObjectId} {check : Recheck} {e e' : Engine}

/-- A check is dropped if its objective is not active under the epoch any more. -/
theorem resume_of_stale (h : ∀ held, e.progress.held? p = some held →
    e.progress.isCurrent p held id epoch = false) :
    (resume n p id epoch check).run e = .ok ((), e) := by
  refine (Act.run_get_bind _ e).trans ?_
  cases hheld : e.progress.held? p with
  | none => rfl
  | some held =>
    refine (Act.run_get_bind _ e).trans ?_
    rw [h held hheld]
    rfl

/-- What is done with the answer of a check. -/
def conclude (n : Nested) (p : PlayerId) (held : Nat) (id : ObjectId) (epoch : Nat) :
    Except EvalError Bool → Act Unit
  | .error _ => pure ()
  | .ok false => pure ()
  | .ok true => do
    match ← Act.objective id with
    | .error _ => pure ()
    | .ok definition => discard (settle n p held definition epoch)

/-- To resume a check that counts still is to run it and to conclude from its answer. -/
theorem resume_run (hheld : e.progress.held? p = some held)
    (hcurrent : e.progress.isCurrent p held id epoch = true) :
    (resume n p id epoch check).run e =
      (Act.attempt (check.passes n p) >>= conclude n p held id epoch).run e := by
  refine (Act.run_get_bind _ e).trans ?_
  rw [hheld]
  refine (Act.run_get_bind _ e).trans ?_
  rw [if_pos hcurrent]
  refine congrArg (StateT.run · e) (bind_congr fun r => ?_)
  match r with
  | .error err => rfl
  | .ok false => rfl
  | .ok true => rfl

/-- How a check goes that is run for an objective that is active under the epoch still. -/
theorem resume_run_iff (hheld : e.progress.held? p = some held)
    (hcurrent : e.progress.isCurrent p held id epoch = true) :
    (resume n p id epoch check).run e = .ok ((), e') ↔
      Resumes n p held id epoch check e e' := by
  rw [resume_run hheld hcurrent]
  refine ⟨fun h => ?_, fun h => ?_⟩
  · obtain ⟨r, e₁, hjudged, h⟩ := Act.exists_of_run_bind h
    match r with
    | .error err =>
      cases h
      exact .rejected hjudged nofun
    | .ok false =>
      cases h
      exact .rejected hjudged nofun
    | .ok true =>
      have h : _ = _ := (Act.run_objective_bind _ e₁).symm.trans h
      cases hget : e₁.packages.get .objective id with
      | error err =>
        rw [hget] at h
        cases h
        exact .undefined hjudged hget
      | ok definition =>
        rw [hget] at h
        obtain ⟨done, hsettle⟩ := run_discard.1 h
        exact .passed hjudged hget (settle_run_iff.1 hsettle)
  · cases h with
    | @rejected r _ hjudged hr =>
      refine (Act.run_bind_of_run hjudged).trans ?_
      match r with
      | .error err => rfl
      | .ok false => rfl
      | .ok true => exact absurd rfl hr
    | undefined hjudged hundefined =>
      refine (Act.run_bind_of_run hjudged).trans ((Act.run_objective_bind _ e').trans ?_)
      rw [hundefined]
      rfl
    | @passed definition done e₁ _ hjudged hdefined hsettles =>
      refine (Act.run_bind_of_run hjudged).trans ((Act.run_objective_bind _ e₁).trans ?_)
      rw [hdefined]
      exact run_discard.2 ⟨_, settle_run_iff.2 hsettles⟩

end Objectives

/-- A goal to kill is satisfied when nothing is left to kill. -/
theorem Goal.eq_of_kill_satisfied {entities : List String} {amount : Nat} {data data' : Json}
    {event : GameEvent} {e e' : Engine}
    (h : (Act.attempt ((Goal.kill entities amount).handle n p data event)).run e =
      .ok (.ok (data', .satisfied), e')) : data' = killData 0 := by
  rw [Goal.handle_eq] at h
  split at h
  case isFalse => cases h
  case isTrue =>
    simp only [Goal.respond] at h
    split at h
    · split at h
      · split at h
        · rename_i hnone
          cases h
          rw [hnone]
        · cases h
      · cases h
    · cases h

/-! ### Content that leaves progress alone -/

namespace Engine

variable {e₀ e e' : Engine} {levels : Nat}

theorem Aside.refl (e : Engine) : e.Aside e := ⟨rfl, rfl, rfl, rfl⟩

/-- Nobody's progress is touched by content that asks for no more than what leaves it alone. -/
theorem aside_keptByContent (e₀ : Engine) (levels : Nat) (p : PlayerId) (deep : Bool) :
    KeptByContent (nested levels) p Demand.aloof deep e₀.Aside fun _ => True where
  dice he := ⟨he.progress, he.outbox, he.journal, he.packages⟩
  place _ _ he := ⟨he.progress, he.outbox, he.journal, he.packages⟩
  join _ he := ⟨he.progress, he.outbox, he.journal, he.packages⟩
  render _ he := ⟨he.progress, he.outbox, he.journal, he.packages⟩
  note _ he := ⟨he.progress, he.outbox, he.journal, he.packages⟩
  later he _ _ := ⟨he.progress, he.outbox, he.journal, he.packages⟩
  ask r hr := by
    cases levels with
    | zero => exact Act.keeps_halt trivial
    | succ levels =>
      rcases hr with h | h | ⟨entry, h⟩ <;> cases h
      · exact Act.keeps_bind Act.keeps_get fun _ => Act.keeps_pure _
      · exact Act.keeps_modify fun _ he => ⟨he.progress, he.outbox, he.journal, he.packages⟩
  start id hr := by rcases hr with h | h | ⟨entry, h⟩ <;> cases h
  cancel id hr := by rcases hr with h | h | ⟨entry, h⟩ <;> cases h
  complete id hr := by rcases hr with h | h | ⟨entry, h⟩ <;> cases h
  overflow := trivial

end Engine

section

variable {levels : Nat} {e e' : Engine} {conditions : List ConditionRef}

theorem Goal.handle_aside {goal : Goal} {data : Json} {event : GameEvent}
    {r : Except EvalError (Json × Outcome)} (hA : goal.demands ⊆ Demand.aloof)
    (h : (Act.attempt (goal.handle (nested levels) p data event)).run e = .ok (r, e')) :
    e.Aside e' :=
  (Goal.handle_keeps (aside_keptByContent e levels p false) hA data event e (.refl e)).of_run h

theorem Recheck.passes_aside {check : Recheck} {r : Except EvalError Bool}
    (hA : check.demands ⊆ Demand.aloof)
    (h : (Act.attempt (check.passes (nested levels) p)).run e = .ok (r, e')) : e.Aside e' :=
  (Recheck.passes_keeps (aside_keptByContent e levels p false) hA e (.refl e)).of_run h

theorem allHold_aside {met : Bool} (hA : Condition.demandsOf conditions ⊆ Demand.aloof)
    (h : (allHold (nested levels) p conditions).run e = .ok (met, e')) : e.Aside e' :=
  (allHold_keeps (aside_keptByContent e levels p false) hA e (.refl e)).of_run h

end

end Questbook
