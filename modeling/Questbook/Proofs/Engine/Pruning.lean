/-
Questbook/Proofs/Engine/Pruning.lean

What can be seen of slots that are closed.

A slot that is left empty is closed, and the next start opens another one.  With a single map in
place of the slots the same runs come to the same, as long as every dispatch is unbroken: an
operation that holds a closed slot finds nothing in it, but what it looks for there by an epoch is
not active any more either.  Only a dispatch looks for something by its name alone.  A completion
event that cancels the last objective of a player and starts one again leaves it in a new slot,
where the rest of the dispatch does not look for it; any other objective that is active meanwhile
would keep the slot open.

Main results: `pruning_unobservable` for runs whose dispatches are unbroken, and
`pruning_observable` for one whose dispatch is not.
-/
import Mathlib.Data.List.Induction
import Questbook.Proofs.Engine.Flat
import Questbook.Proofs.Engine.Rechecks
import Questbook.Proofs.Engine.Termination
import Questbook.Proofs.Engine.Turns

namespace Questbook

open Engine

variable {e e' : Engine} {p : PlayerId} {held epoch levels : Nat} {id : ObjectId}

/-! ### Objectives that advance -/

namespace Objectives

theorem settle_eq_flat (hslot : e.InSlot p held epoch) (definition : Objective) :
    (settle (nested levels) p held definition epoch).run e =
      (Flat.settle (nested levels) p definition epoch).run e := by
  refine Act.run_bind_congr rfl fun met e₁ hmet => ?_
  have hslot₁ := Steps.inSlot ((nested_stepwise levels).checks _ _ _ _ _ hmet) hslot
  cases met with
  | false => rfl
  | true =>
    have hremove : (remove p held definition.id (some epoch) .completed).run e₁ =
        (Flat.remove p definition.id (some epoch) .completed).run e₁ :=
      remove_eq_flat _ _ fun a hactive hepoch =>
        hslot₁.held hactive (Eq.symm (by simpa using hepoch))
    refine Act.run_bind_congr hremove fun removed e₂ hrun => ?_
    have hheld₂ := held?_of_remove (q := p) hrun
    rcases remove_cases hrun with ⟨rfl, -⟩ | ⟨a, hactive, -, rfl, -⟩
    · rfl
    · exact finish_eq_flat (hheld₂.trans (e₁.progress.held?_of_findIn? _ _ _ hactive)) definition.id
        epoch definition.events true

/-- An objective is offered an event by its name, if it is found in the slot that is held wherever
it is active. -/
theorem offer_eq_flat (K : Packages) (event : GameEvent) (hissued : e.Issued)
    (hfound : e.progress.findIn? p held id = e.progress.find? p id) :
    (offer (nested levels) K event p held id).run e =
      (Flat.offer (nested levels) K event p id).run e := by
  refine Act.run_get_congr ?_
  rw [← hfound]
  cases K.get .objective id with
  | error err => rfl
  | ok definition =>
    cases hactive : e.progress.findIn? p held id with
    | none => rfl
    | some a =>
      refine Act.run_bind_congr rfl fun r e₁ hrun => ?_
      -- The goal may run content that closes the slot, but then the epoch is not active any more.
      have hslot₁ := Steps.inSlot (Goal.handle_stepwise levels p _ _ _ _ _ _ hrun)
        (hissued.inSlot hactive)
      rcases r with err | ⟨data, outcome⟩
      · rfl
      · cases outcome with
        | ignored | deferred check => rfl
        | progressed => exact Act.run_discard_congr (store_eq_flat hslot₁ data)
        | satisfied =>
          have hstore : (store p held id a.epoch data).run e₁ =
            (Flat.store p id a.epoch data).run e₁ := store_eq_flat hslot₁ data
          refine Act.run_bind_congr hstore fun stored e₂ hrun₂ => ?_
          have hslot₂ := Steps.inSlot (store_stepwise held id _ data _ _ _ hrun₂) hslot₁
          cases stored with
          | false => rfl
          | true => exact Act.run_discard_congr (settle_eq_flat hslot₂ definition)

/-- An epoch is current in the slot that the player has if it is the one of what is active. -/
theorem isCurrent_of_held? (hheld : e.progress.held? p = some held) (id : ObjectId) (epoch : Nat) :
    e.progress.isCurrent p held id epoch = (e.progress.find? p id).any (·.epoch = epoch) := by
  rw [Slots.isCurrent, Slots.findIn?_of_held? _ _ _ _ hheld]
  cases e.progress.find? p id <;> rfl

theorem resume_eq_flat (hissued : e.Issued) (id : ObjectId) (epoch : Nat) (check : Recheck) :
    (resume (nested levels) p id epoch check).run e =
      (Flat.resume (nested levels) p id epoch check).run e := by
  refine Act.run_get_congr ?_
  cases hheld : e.progress.held? p with
  | none =>
    rw [e.progress.find?_of_held?_eq_none p id hheld]
    rfl
  | some held =>
    refine (Act.run_get_bind _ e).trans ?_
    rw [isCurrent_of_held? hheld]
    split
    · rename_i hcurrent
      rw [← isCurrent_of_held? hheld] at hcurrent
      obtain ⟨a, hactive, hepoch⟩ := (Slots.isCurrent_iff _ _ _ _).1 hcurrent
      refine Act.run_bind_congr rfl fun r e₁ hrun => ?_
      have hslot₁ := Steps.inSlot (Recheck.passes_stepwise levels p check _ _ _ hrun)
        (hepoch ▸ hissued.inSlot hactive)
      rcases r with err | passed
      · rfl
      · cases passed with
        | false => rfl
        | true =>
          refine Act.run_objective_congr ?_
          cases e₁.packages.get .objective id with
          | error err => rfl
          | ok definition => exact Act.run_discard_congr (settle_eq_flat hslot₁ definition)
    · rfl

end Objectives

/-! ### Dispatches -/

namespace Engine

variable {event : GameEvent} {e₁ : Engine}

/-- What comes before the turn of an objective is done by single steps. -/
theorem Turn.steps (h : e.Turn levels event held id e₁) : Steps .play e e₁ :=
  h.keeps ((steps_keptByProgress e).play levels event.player ()).toKeptByGoals
    ((steps_keptByProgress e).deferral event.player ()) .refl

/-- In a dispatch from `e`, what is active when its turn comes is found in the slot that the player
had when the dispatch began. -/
def Unbroken (levels : Nat) (event : GameEvent) (e : Engine) : Prop :=
  ∀ held id e₁, e.Turn levels event held id e₁ →
    e₁.progress.findIn? event.player held id = e₁.progress.find? event.player id

/-- A dispatch is unbroken while something is active still that was when it began. -/
theorem unbroken_of_kept (he : e.Issued)
    (hkept : ∀ held id e₁, e.Turn levels event held id e₁ → ∃ kept a b,
      e.progress.find? event.player kept = some a ∧
      e₁.progress.find? event.player kept = some b ∧ b.epoch = a.epoch) :
    e.Unbroken levels event := by
  intro held id e₁ hturn
  obtain ⟨kept, a, b, hbefore, hnow, hepoch⟩ := hkept held id e₁ hturn
  have hslot := he.inSlot ((e.progress.findIn?_of_held? _ _ kept hturn.1).trans hbefore)
  exact e₁.progress.findIn?_of_held? _ _ id ((Steps.inSlot hturn.steps hslot).held hnow hepoch)

/-- Whether an objective is active since the same epoch at every turn of a dispatch. -/
def keptAtTurns (levels : Nat) (event : GameEvent) (held : Nat) (ids : List ObjectId)
    (kept : ObjectId) (a : Active) (e : Engine) : Bool :=
  ids.inits.all fun done =>
    match (Objectives.offerEach (nested levels) e.packages event event.player held done).run e with
    | .ok (_, e₁) => (e₁.progress.find? event.player kept).map Active.epoch == some a.epoch
    | .error _ => true

/-- Whether a dispatch is unbroken can be tried out, by what is active at the turns that come. -/
theorem unbroken_of_turns {ids : List ObjectId} {kept : ObjectId} {a : Active} (he : e.Issued)
    (hheld : e.progress.held? event.player = some held)
    (hids : e.progress.ids event.player = ids)
    (hactive : e.progress.find? event.player kept = some a)
    (hturns : e.keptAtTurns levels event held ids kept a = true) : e.Unbroken levels event := by
  refine unbroken_of_kept he fun held' id e₁ hturn => ?_
  obtain ⟨hheld', done, rest, hsplit, hdone⟩ := hturn
  obtain rfl : held = held' := Option.some.inj (hheld.symm.trans hheld')
  have hinit : done ∈ ids.inits := (List.mem_inits _ _).2 ⟨_, hsplit.symm.trans hids⟩
  have hnow := List.all_eq_true.1 hturns done hinit
  rw [hdone] at hnow
  obtain ⟨b, hnow, hepoch⟩ := Option.map_eq_some_iff.1 (beq_iff_eq.1 hnow)
  exact ⟨kept, a, b, hactive, hnow, hepoch⟩

end Engine

namespace Objectives

variable {event : GameEvent} {e₀ : Engine}

/-- From the turn of an objective on, an unbroken dispatch finds by name what it finds in the slot
that it holds. -/
theorem offerEach_eq_flat (hissued : e₀.Issued) (hunbroken : e₀.Unbroken levels event)
    (done : List ObjectId) {rest : List ObjectId}
    (hheld : e₀.progress.held? event.player = some held)
    (hids : e₀.progress.ids event.player = done ++ rest)
    (hdone : (offerEach (nested levels) e₀.packages event event.player held done).run e₀ =
      .ok ((), e)) :
    (offerEach (nested levels) e₀.packages event event.player held rest).run e =
      (Flat.offerEach (nested levels) e₀.packages event event.player rest).run e := by
  induction rest generalizing done e with
  | nil => rfl
  | cons id rest ih =>
    have hturn : e₀.Turn levels event held id e := ⟨hheld, done, rest, hids, hdone⟩
    have hoffer : (offer (nested levels) e₀.packages event event.player held id).run e =
        (Flat.offer (nested levels) e₀.packages event event.player id).run e :=
      offer_eq_flat _ event (Steps.issued hturn.steps hissued) (hunbroken held id e hturn)
    refine Act.run_bind_congr hoffer fun _ e₁ hrun => ?_
    refine ih (done ++ [id]) (by simpa using hids) ?_
    -- The turn that is over is the last one of those that have been.
    rw [offerEach_append]
    refine (Act.run_bind_of_run hdone).trans ?_
    exact (Act.run_bind_of_run hrun).trans rfl

theorem dispatch_eq_flat (hissued : e.Issued) (hunbroken : e.Unbroken levels event) :
    (dispatch (nested levels) event).run e = (Flat.dispatch (nested levels) event).run e := by
  refine Act.run_get_congr ?_
  cases hheld : e.progress.held? event.player with
  | none =>
    have hslot : e.progress.slots.find? event.player = none := Option.map_eq_none_iff.1 hheld
    have hids : e.progress.ids event.player = [] := by
      rw [Slots.ids, Slots.activeOf, hslot]
      exact List.mergeSort_nil
    rw [hids]
    rfl
  | some held => exact offerEach_eq_flat hissued hunbroken [] hheld rfl rfl

end Objectives

/-! ### Time and reload -/

theorem Task.run_eq_flat (hissued : e.Issued) (t : Task) :
    (t.run (nested levels)).run e = (Flat.run (nested levels) t).run e := by
  cases t with
  | recheck p id epoch check => exact Objectives.resume_eq_flat hissued id epoch check
  | fire | remind => rfl

theorem Task.runEach_eq (hissued : e.Issued) (due : List (Appointment Task)) :
    (runEach (nested levels) due).run e = (Flat.runEach (nested levels) due).run e := by
  induction due generalizing e with
  | nil => rfl
  | cons s rest ih =>
    have hfirst : (s.task.run (nested levels)).run e =
      (Flat.run (nested levels) s.task).run e := s.task.run_eq_flat hissued
    refine Act.run_bind_congr hfirst fun _ e₁ hrun => ih ?_
    exact Steps.issued (s.task.run_stepwise levels _ _ _ hrun) hissued

theorem Act.tick_eq_flat (hissued : e.Issued) :
    (tick (nested levels)).run e = (Flat.tick (nested levels)).run e := by
  refine Act.run_get_congr ?_
  refine Act.run_bind_congr rfl fun _ e₁ hrun => ?_
  have hissued₁ : e₁.Issued := by
    cases hrun
    exact hissued
  exact Act.run_bind_congr (Task.runEach_eq hissued₁ _) fun _ _ _ => rfl

namespace Objectives

variable {K : Packages}

theorem refit_eq_flat (hheld : e.progress.held? p = some held) (id : ObjectId) :
    (refit K p held id).run e = (Flat.refit K p id).run e := by
  refine Act.run_get_congr ?_
  rw [Slots.findIn?_of_held? _ _ _ _ hheld, ← e.progress.own_of_held? p hheld]
  cases e.progress.find? p id with
  | none => rfl
  | some a =>
    cases K.get .objective id with
    | error err => rfl
    | ok definition =>
      dsimp only
      split <;> rfl

/-- Fitting objectives to new packages opens no slot and closes none. -/
theorem refit_keeps_held? (e₀ : Engine) (held : Nat) (id : ObjectId) :
    (refit K p held id).Keeps (fun e => ∀ q, e.progress.held? q = e₀.progress.held? q)
      fun _ => False := by
  refine Act.keeps_get_bind fun e he => ?_
  split
  · exact he
  · split
    · exact fun q => (e.progress.held?_changeIn ..).trans (he q)
    · split
      · exact he
      · exact fun q => (e.progress.issueEpoch.2.held?_changeIn ..).trans (he q)

theorem refitEach_keeps_held? (e₀ : Engine) (held : Nat) (ids : List ObjectId) :
    (refitEach K p held ids).Keeps (fun e => ∀ q, e.progress.held? q = e₀.progress.held? q)
      fun _ => False := by
  induction ids with
  | nil => exact Act.keeps_pure _
  | cons id rest ih => exact Act.keeps_bind (refit_keeps_held? e₀ held id) fun _ => ih

theorem refitEach_eq_flat (hheld : e.progress.held? p = some held) (ids : List ObjectId) :
    (refitEach K p held ids).run e = (Flat.refitEach K p ids).run e := by
  induction ids generalizing e with
  | nil => rfl
  | cons id rest ih =>
    have hfirst := refit_eq_flat (K := K) hheld id
    refine Act.run_bind_congr hfirst fun _ e₁ hrun => ih ?_
    exact ((refit_keeps_held? e held id).of_run (fun _ => rfl) hrun p).trans hheld

/-- The players are gone through in the same order, each of them in the slot that he has. -/
theorem refitSlots_eq_flat {slots : List (PlayerId × Nat)}
    (hheld : ∀ s ∈ slots, e.progress.held? s.1 = some s.2)
    (hdistinct : (slots.map Prod.fst).Nodup) :
    (refitSlots K slots).run e = (Flat.refitPlayers K (slots.map Prod.fst)).run e := by
  induction slots generalizing e with
  | nil => rfl
  | cons slot rest ih =>
    obtain ⟨p, held⟩ := slot
    rw [List.forall_mem_cons] at hheld
    rw [List.map_cons, List.nodup_cons] at hdistinct
    refine Act.run_get_congr ?_
    rw [Slots.activeIn_of_held? _ _ _ hheld.1]
    have hfirst := refitEach_eq_flat (K := K) hheld.1 (e.progress.activeOf p).keys
    refine Act.run_bind_congr hfirst fun _ e₁ hrun => ?_
    have hsame := (refitEach_keeps_held? e held _).of_run (fun _ => rfl) hrun
    have hprune := prune_eq_flat (Slots.emptyIn_of_held? ((hsame p).trans hheld.1))
    refine Act.run_bind_congr hprune fun _ e₂ hpruned => ?_
    cases hpruned
    refine ih (fun s hs => ?_) hdistinct.2
    -- The slot that has been closed is this player's, and he does not come again.
    have hne : p ≠ s.1 := fun hp => hdistinct.1 (List.mem_map.2 ⟨s, hs, hp.symm⟩)
    exact (e₁.progress.held?_prune_of_ne _ _ _ hne).trans ((hsame s.1).trans (hheld.2 s hs))

theorem reconcile_eq_flat (K : Packages) (e : Engine) :
    (reconcile K).run e = (Flat.reconcile K).run e := by
  refine Act.run_get_congr ?_
  have hplayers : e.progress.slots.keys =
      (e.progress.slots.entries.map fun s => (s.1, s.2.number)).map Prod.fst := by
    rw [List.map_map]
    rfl
  rw [hplayers]
  refine refitSlots_eq_flat (List.forall_mem_map.2 fun s hs => ?_) ?_
  · rw [Slots.held?, Table.find?_of_mem_entries hs]
    rfl
  · rw [List.map_map]
    exact e.progress.slots.distinct

end Objectives

/-! ### Commands and runs -/

namespace Engine

variable {start : Engine} {cs : List Command} {c : Command} {registry : Registry}
  {integrations : Integrations} {world : World} {archived : Bool} {screen : String}
  {clock : Calendar.Timestamp} {dice : Dice} {event : GameEvent}

/-- A command comes to the same by name, unless it is a dispatch that is broken. -/
theorem perform_eq_flat (hissued : e.Issued)
    (hunbroken : ∀ event, c = .dispatch event → e.Unbroken levels event) :
    e.perform levels c = Flat.perform levels c e := by
  -- All other commands hold no slot, and are the same operation in both stores.
  cases c with
  | dispatch event => exact Objectives.dispatch_eq_flat hissued (hunbroken event rfl)
  | tick => exact Act.tick_eq_flat hissued
  | replacePackages packages =>
    refine Act.run_bind_congr rfl fun _ e₁ _ => ?_
    exact Objectives.reconcile_eq_flat packages e₁
  | request p r =>
    cases r with
    | cancelObjective id => exact Objectives.cancel_eq_flat p id e
    | completeObjective id => exact Objectives.complete_eq_flat levels p id e
    | _ => rfl
  | _ => rfl

theorem issued_of_perform {answer : c.Answer} (hissued : e.Issued)
    (h : e.perform levels c = .ok (answer, e')) : e'.Issued := by
  refine Steps.issued (perform_steps h) ?_
  cases c <;> exact hissued

theorem issued_of_performAll (hstart : start.Issued) (hrun : performAll levels cs start = .ok e) :
    e.Issued := by
  induction cs generalizing start with
  | nil =>
    cases hrun
    exact hstart
  | cons c rest ih =>
    obtain ⟨e₁, answer, hstep, hrest⟩ := exists_of_performAll_cons hrun
    exact ih (issued_of_perform hstart hstep) hrest

/-- Every dispatch of a run is unbroken. -/
def Calm (levels : Nat) (start : Engine) (cs : List Command) : Prop :=
  ∀ before event after e, cs = before ++ .dispatch event :: after →
    performAll levels before start = .ok e → e.Unbroken levels event

/-- A run that is calm is so after its first command. -/
theorem Calm.tail {answer : c.Answer} (h : Calm levels start (c :: cs))
    (hstep : start.perform levels c = .ok (answer, e)) : Calm levels e cs := by
  intro before event after e₁ hcs hbefore
  refine h (c :: before) event after e₁ (by rw [hcs, List.cons_append]) ?_
  rw [performAll, hstep]
  exact hbefore

theorem calm_of_not_mem (h : ∀ event, .dispatch event ∉ cs) : Calm levels start cs :=
  fun before event after _ hcs _ => absurd (by simp [hcs]) (h event)

theorem Calm.concat (h : Calm levels start cs)
    (hlast : ∀ event e, c = .dispatch event → performAll levels cs start = .ok e →
      e.Unbroken levels event) : Calm levels start (cs ++ [c]) := by
  intro before event after e hcs hbefore
  -- A dispatch of the longer run is its last command, or one of the run before.
  rcases List.eq_nil_or_concat after with rfl | ⟨after, last, rfl⟩
  · obtain ⟨rfl, hc⟩ := List.append_inj' hcs rfl
    exact hlast event e (List.singleton_inj.1 hc) hbefore
  · rw [List.concat_eq_append, ← List.cons_append, ← List.append_assoc] at hcs
    exact h before event after e (List.append_inj' hcs rfl).1 hbefore

theorem performAll_eq_flat (hissued : start.Issued) (hcalm : Calm levels start cs) :
    Flat.performAll levels cs start = performAll levels cs start := by
  induction cs generalizing start with
  | nil => rfl
  | cons c rest ih =>
    have hfirst : start.perform levels c = Flat.perform levels c start :=
      perform_eq_flat hissued fun event hevent =>
        hcalm [] event rest start (by rw [hevent]; rfl) rfl
    rw [performAll, Flat.performAll, ← hfirst]
    cases hstep : start.perform levels c with
    | error err => rfl
    | ok r => exact ih (issued_of_perform hissued hstep) (hcalm.tail hstep)

/-- **Pruning cannot be seen where dispatches are unbroken.**  With a single map in place of the
slots a run from the beginning comes to the same, down to the whole state: to the same that is
active, with the same data, to the same events fired, and to the same that waits for the archive,
for the next ticks and for the players.  Each command of the run answers the same by name, and what
is cancelled or completed within a command, by whatever content, is cancelled and completed by name
as well.  That other store is a map from players and objectives to entries: what is done by name
changes one entry, and closing a slot none. -/
theorem pruning_unobservable
    (hcalm : Calm levels (fresh registry integrations world archived screen clock dice) cs) :
    Flat.performAll levels cs (fresh registry integrations world archived screen clock dice) =
      performAll levels cs (fresh registry integrations world archived screen clock dice) ∧
    (∀ before c after e, cs = before ++ c :: after →
      performAll levels before (fresh registry integrations world archived screen clock dice) =
        .ok e → Flat.perform levels c e = e.perform levels c) ∧
    (∀ p id e, (Flat.cancel p id).run e = (Objectives.cancel p id).run e ∧
      (Flat.complete (nested levels) p id).run e =
        (Objectives.complete (nested levels) p id).run e) ∧
    ∀ p q id o e e',
      (∀ data startedAt, (e.enter p id data startedAt).2.progress.find? q o =
        if p = q ∧ id = o then some ⟨data, e.progress.nextEpoch, startedAt⟩
        else e.progress.find? q o) ∧
      (∀ epoch how removed, (Flat.remove p id epoch how).run e = .ok (removed, e') →
        e'.progress.find? q o =
          if removed.isSome ∧ p = q ∧ id = o then none else e.progress.find? q o) ∧
      (∀ epoch data stored, (Flat.store p id epoch data).run e = .ok (stored, e') →
        e'.progress.find? q o =
          if stored ∧ p = q ∧ id = o then (e.progress.find? p id).map fun a => { a with data }
          else e.progress.find? q o) ∧
      (∀ K, (Flat.refit K p id).run e = .ok ((), e') → e'.progress.find? q o =
        if p = q ∧ id = o then
          (e.progress.find? p id).bind (Flat.fitted K id e.progress.nextEpoch)
        else e.progress.find? q o) ∧
      ((Flat.prune p).run e = .ok ((), e') → e'.progress.find? q o = e.progress.find? q o) := by
  have hfresh := issued_fresh registry integrations world archived screen clock dice
  refine ⟨performAll_eq_flat hfresh hcalm, fun before c after e hcs hbefore => ?_, fun p id e =>
    ⟨(Objectives.cancel_eq_flat p id e).symm, (Objectives.complete_eq_flat levels p id e).symm⟩,
    fun p q id o e e' => ⟨fun data startedAt => e.find?_enter p q id o data startedAt,
      fun _ _ _ => Flat.find?_of_remove q o, fun _ _ _ => Flat.find?_of_store q o,
      fun _ => Flat.find?_of_refit q o, Flat.find?_of_prune q o⟩⟩
  refine (perform_eq_flat (issued_of_performAll hfresh hbefore) fun event hevent => ?_).symm
  exact hcalm before event after e (by rw [hcs, hevent]) hbefore

/-! ### A hunt -/

/-- Three objectives.  When the first one is completed, the second one is cancelled and started
again. -/
def hunt : Sources where
  packages := (∅ : Table String PackageSource).insert "hunt" { PackageSource.empty with
    events := .ofList [("again", "objective start second"), ("drop", "objective cancel second")]
    objectives := .ofList [("first", "mobkill wolf 1 events:drop,again"),
      ("second", "mobkill wolf 2"), ("third", "mobkill bear 5")] }

/-- What the built-in keywords make of the hunt. -/
def hunted : Packages := Packages.compile (Vocabulary.registry ⟨true, true⟩) hunt

/-- An objective of the hunt. -/
def quarry (name : String) : ObjectId := ⟨"hunt", name⟩

/-- The hunt is put in force, and some of its objectives are started. -/
def hunting (names : List String) : List Command :=
  .replacePackages hunted :: names.map fun name => .request ⟨"ann"⟩ (.startObjective (quarry name))

/-- The player has killed a wolf. -/
def wolfKilled : GameEvent := .entityKilled ⟨"ann"⟩ "wolf"

theorem hunted_eq : hunted = compileWithin (Vocabulary.registry ⟨true, true⟩) hunt 6 :=
  (compileWithin_eq (show 5 < 6 by decide) (by decide)).symm

/-- A run in which a slot has been closed before another one is opened. -/
def huntingAnew : List Command :=
  hunting ["third"] ++ [.request ⟨"ann"⟩ (.cancelObjective (quarry "third"))] ++
    hunting ["first", "second", "third"]

/-- Another objective is active all the while that the second one is cancelled and started again:
the dispatch is unbroken, whatever the number of the slot. -/
theorem pruning_unobservable_of_hunt : ∃ e e₁,
    performAll 1 huntingAnew idle = .ok e ∧ e.progress.held? ⟨"ann"⟩ = some 1 ∧
    e.perform 1 (.dispatch wolfKilled) = .ok ((), e₁) ∧
    Flat.perform 1 (.dispatch wolfKilled) e = .ok ((), e₁) ∧
    Flat.performAll 1 (huntingAnew ++ [.dispatch wolfKilled]) idle = .ok e₁ := by
  let ids : List ObjectId := ["first", "second", "third"].map quarry
  have h : passes (performAll 1 huntingAnew idle) (fun e =>
      e.progress.held? ⟨"ann"⟩ == some 1 && (e.progress.activeOf ⟨"ann"⟩).keys == ids &&
        passes ((Objectives.offerEach (nested 1) e.packages wolfKilled ⟨"ann"⟩ 1 ids).run e)
          (fun _ => true) &&
        (e.progress.find? ⟨"ann"⟩ (quarry "third")).any
          (e.keptAtTurns 1 wolfKilled 1 ids (quarry "third"))) = true := by
    rw [huntingAnew, hunting, hunting, hunted_eq]
    decide +kernel
  obtain ⟨e, hrun, h⟩ := exists_of_passes h
  simp only [Bool.and_eq_true, beq_iff_eq] at h
  obtain ⟨⟨⟨hheld, hkeys⟩, hoffered⟩, hturns⟩ := h
  obtain ⟨r, hoffered, -⟩ := exists_of_passes hoffered
  obtain ⟨a, hactive, hturns⟩ := (Option.any_eq_true _ _).1 hturns
  have hids : e.progress.ids ⟨"ann"⟩ = ids := by
    rw [Slots.ids, hkeys]
    exact List.mergeSort_of_pairwise (by decide)
  have hissued : e.Issued := issued_of_performAll (issued_fresh _ _ _ _ _ _ _) hrun
  have hcalm : Calm 1 idle (huntingAnew ++ [.dispatch wolfKilled]) := by
    refine (calm_of_not_mem (by simp [huntingAnew, hunting])).concat ?_
    rintro event e₀ hc hrun₀
    cases hc
    cases hrun.symm.trans hrun₀
    exact unbroken_of_turns hissued hheld hids hactive hturns
  have hdispatch : e.perform 1 (.dispatch wolfKilled) = .ok ((), r.2) :=
    (Objectives.dispatch_run 1 hheld hids).trans hoffered
  obtain ⟨hruns, hcommands, -⟩ := pruning_unobservable hcalm
  exact ⟨e, r.2, hrun, hheld, hdispatch, (hcommands _ _ [] e rfl hrun).trans hdispatch,
    hruns.trans (performAll_append_singleton hrun hdispatch)⟩

/-- How many kills are left of the second objective after a run. -/
def leftAfter : Except Halt Engine → Option String
  | .ok e => e.property? ⟨"ann"⟩ (quarry "second") "left"
  | .error _ => none

/-- A run ends with a dispatch, to the objectives that are active by then. -/
theorem leftAfter_wolfKilled {cs : List Command} (names : List String) {left : String}
    (hsorted : (names.map quarry).Pairwise fun a b => ObjectId.atMost a b = true)
    (h : passes (performAll 1 cs idle) (fun e =>
      e.progress.held? ⟨"ann"⟩ == some 0 &&
        (e.progress.activeOf ⟨"ann"⟩).keys == names.map quarry &&
        passes ((Objectives.offerEach (nested 1) e.packages wolfKilled ⟨"ann"⟩ 0
          (names.map quarry)).run e) fun r =>
            r.2.property? ⟨"ann"⟩ (quarry "second") "left" == some left) = true) :
    leftAfter (performAll 1 (cs ++ [.dispatch wolfKilled]) idle) = some left := by
  obtain ⟨e, hrun, h⟩ := exists_of_passes h
  simp only [Bool.and_eq_true, beq_iff_eq] at h
  obtain ⟨⟨hheld, hkeys⟩, h⟩ := h
  obtain ⟨r, hoffered, hleft⟩ := exists_of_passes h
  have hids : e.progress.ids ⟨"ann"⟩ = names.map quarry := by
    rw [Slots.ids, hkeys]
    exact List.mergeSort_of_pairwise hsorted
  have hdispatch : e.perform 1 (.dispatch wolfKilled) = .ok ((), r.2) :=
    (Objectives.dispatch_run 0 hheld hids).trans hoffered
  rw [performAll_append_singleton hrun hdispatch]
  exact beq_iff_eq.1 hleft

/-- The same by name. -/
theorem leftAfter_wolfKilled_flat (names : List String) {left : String}
    (hsorted : (names.map quarry).Pairwise fun a b => ObjectId.atMost a b = true)
    (h : passes (performAll 1 (hunting names) idle) (fun e =>
      (e.progress.activeOf ⟨"ann"⟩).keys == names.map quarry &&
        passes ((Flat.offerEach (nested 1) e.packages wolfKilled ⟨"ann"⟩
          (names.map quarry)).run e) fun r =>
            r.2.property? ⟨"ann"⟩ (quarry "second") "left" == some left) = true) :
    leftAfter (Flat.performAll 1 (hunting names ++ [.dispatch wolfKilled]) idle) = some left := by
  obtain ⟨e, hrun, h⟩ := exists_of_passes h
  simp only [Bool.and_eq_true, beq_iff_eq] at h
  obtain ⟨hkeys, h⟩ := h
  obtain ⟨r, hoffered, hleft⟩ := exists_of_passes h
  have hids : e.progress.ids ⟨"ann"⟩ = names.map quarry := by
    rw [Slots.ids, hkeys]
    exact List.mergeSort_of_pairwise hsorted
  have hquiet : Flat.performAll 1 (hunting names) idle = .ok e :=
    (performAll_eq_flat (issued_fresh _ _ _ _ _ _ _) (calm_of_not_mem (by simp [hunting]))).trans
      hrun
  have hdispatch : Flat.perform 1 (.dispatch wolfKilled) e = .ok ((), r.2) := by
    refine (Act.run_get_bind _ e).trans ?_
    show StateT.run (Flat.offerEach _ _ _ _ (e.progress.ids ⟨"ann"⟩)) e = _
    rw [hids]
    exact hoffered
  rw [Flat.performAll_append_singleton hquiet hdispatch]
  exact beq_iff_eq.1 hleft

/-- **A closed slot can be seen.**  The first objective of the hunt is completed, and its events
cancel the second one and start it again.  If nothing else is active, the rest of the dispatch
passes over the second one; by name it does not, and neither does it if an objective is active that
has nothing to do with wolves. -/
theorem pruning_observable : hunted.diagnostics = [] ∧
    leftAfter (performAll 1 (hunting ["first", "second"] ++ [.dispatch wolfKilled]) idle) =
      some "2" ∧
    leftAfter (Flat.performAll 1 (hunting ["first", "second"] ++ [.dispatch wolfKilled]) idle) =
      some "1" ∧
    leftAfter (performAll 1 (hunting ["first", "second", "third"] ++ [.dispatch wolfKilled])
      idle) = some "1" := by
  refine ⟨by rw [hunted_eq]; decide +kernel, ?_, ?_, ?_⟩
  · refine leftAfter_wolfKilled ["first", "second"] (by decide) ?_
    rw [hunting, hunted_eq]
    decide +kernel
  · refine leftAfter_wolfKilled_flat ["first", "second"] (by decide) ?_
    rw [hunting, hunted_eq]
    decide +kernel
  · refine leftAfter_wolfKilled ["first", "second", "third"] (by decide) ?_
    rw [hunting, hunted_eq]
    decide +kernel

end Engine

end Questbook
