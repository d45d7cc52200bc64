/-
Questbook/Proofs/Engine/Flat.lean

A store that is a single map.

What is active could as well be kept in a single map from players and objectives to entries, which
knows no slots.  `Flat` says what is done with objectives there.  Each operation finds an objective
by its player and its name alone; no slot is held, so that whatever else may have happened
meanwhile, it is looked for again.  The map is read off the slots by `Slots.find?`: in the slot that
a player has, all is found that is active for him (`findIn?_own`), and closing an empty slot takes
nothing out of the map (`Slots.find?_prune`).

What is done to the map is told of the map alone (`Flat.find?_of_remove`, `Flat.find?_of_store`,
`Flat.find?_of_refit`, `Flat.find?_of_prune`).

To cancel or to complete an objective is the same in both stores, in any state (`cancel_eq_flat` and
`complete_eq_flat`).  An operation that waits for conditions or for a goal holds a slot, and that
may be closed meanwhile; but then nothing is active any more under the epoch that was found in it
(`Step.inSlot`), so that the operation comes to the same by name (`store_eq_flat`,
`settle_eq_flat`).
-/
import Questbook.Proofs.Engine.Epochs
import Questbook.Proofs.Engine.Perform
import Questbook.Proofs.Engine.Tidy

namespace Questbook

/-! ### Operations on a single map -/

/-- The number of the slot that a player has, if he has one. -/
def Slots.own (s : Slots) (p : PlayerId) : Nat := (s.held? p).getD 0

namespace Flat

/-- Remove an objective, if it is active and, where an epoch is given, has been since that start. -/
def remove (p : PlayerId) (id : ObjectId) (epoch : Option Nat) (how : Ending) :
    Act (Option Nat) := do
  match (← get).progress.find? p id with
  | none => pure none
  | some active =>
    if epoch.all (· = active.epoch) then
      modify fun e => e.removed p (e.progress.own p) id active how
      pure (some active.epoch)
    else pure none

/-- Close the slot of a player if nothing is active for him. -/
def prune (p : PlayerId) : Act Unit := modify fun e => e.pruned p (e.progress.own p)

/-- End an active objective and fire nothing. -/
def cancel (p : PlayerId) (id : ObjectId) : Act (Except ProgressError Unit) := do
  let removed ← remove p id none .cancelled
  prune p
  pure (if removed.isSome then .ok () else .error (.notActive p id))

/-- Complete an active objective whatever its progress and conditions, and fire its events. -/
def complete (n : Nested) (p : PlayerId) (id : ObjectId) : Act (Except ProgressError Unit) := do
  match ← Act.objective id with
  | .error e => pure (.error (.notFound e))
  | .ok definition =>
    match ← remove p id none .completed with
    | none => pure (.error (.notActive p id))
    | some epoch =>
      Objectives.finish n p id epoch definition.events
      prune p
      pure (.ok ())

/-- Store progress of an objective, if it is still active since the same start. -/
def store (p : PlayerId) (id : ObjectId) (epoch : Nat) (data : Json) : Act Bool := do
  match (← get).progress.find? p id with
  | none => pure false
  | some active =>
    if active.epoch = epoch then
      modify fun e => e.stored p (e.progress.own p) id active epoch data
      pure true
    else pure false

/-- Complete an objective if its conditions hold and it is still active since the same start. -/
def settle (n : Nested) (p : PlayerId) (definition : Objective) (epoch : Nat) : Act Bool := do
  if ← allHold n p definition.conditions then
    if (← remove p definition.id (some epoch) .completed).isSome then
      Objectives.finish n p definition.id epoch definition.events
      prune p
      pure true
    else pure false
  else pure false

/-- Offer a game event to one objective. -/
def offer (n : Nested) (packages : Packages) (event : GameEvent) (p : PlayerId) (id : ObjectId) :
    Act Unit := do
  match packages.get .objective id, (← get).progress.find? p id with
  | .ok definition, some active =>
    match ← Act.attempt (definition.goal.handle n p active.data event) with
    | .error _ => pure ()
    | .ok (_, .ignored) => pure ()
    | .ok (data, .progressed) => discard (store p id active.epoch data)
    | .ok (data, .satisfied) =>
      if ← store p id active.epoch data then discard (settle n p definition active.epoch)
    | .ok (_, .deferred check) => Act.later [(1, .recheck p id active.epoch check)]
  | _, _ => pure ()

/-- Offer a game event to one objective after another. -/
def offerEach (n : Nested) (packages : Packages) (event : GameEvent) (p : PlayerId) :
    List ObjectId → Act Unit
  | [] => pure ()
  | id :: rest => do
    offer n packages event p id
    offerEach n packages event p rest

/-- Offer a game event to the objectives of its player that are active now, in order. -/
def dispatch (n : Nested) (event : GameEvent) : Act Unit := do
  let e ← get
  offerEach n e.packages event event.player (e.progress.ids event.player)

/-- Run a check that was put off, if the objective is still active since the same start. -/
def resume (n : Nested) (p : PlayerId) (id : ObjectId) (epoch : Nat) (check : Recheck) :
    Act Unit := do
  if ((← get).progress.find? p id).any (·.epoch = epoch) then
    match ← Act.attempt (check.passes n p) with
    | .error _ => pure ()
    | .ok false => pure ()
    | .ok true =>
      match ← Act.objective id with
      | .error _ => pure ()
      | .ok definition => discard (settle n p definition epoch)

/-- Fit one active objective to new packages. -/
def refit (packages : Packages) (p : PlayerId) (id : ObjectId) : Act Unit := do
  match (← get).progress.find? p id with
  | none => pure ()
  | some active =>
    match packages.get .objective id with
    | .error _ => modify fun e => e.ended p (e.progress.own p) id active .dropped
    | .ok definition =>
      if definition.goal.accepts active.data then pure ()
      else modify fun e => e.renewed p (e.progress.own p) id active definition.goal.initial

/-- Fit active objectives of a player to new packages. -/
def refitEach (packages : Packages) (p : PlayerId) : List ObjectId → Act Unit
  | [] => pure ()
  | id :: rest => do
    refit packages p id
    refitEach packages p rest

/-- Fit the active objectives of some players to new packages. -/
def refitPlayers (packages : Packages) : List PlayerId → Act Unit
  | [] => pure ()
  | p :: rest => do
    refitEach packages p ((← get).progress.activeOf p).keys
    prune p
    refitPlayers packages rest

/-- Fit all active objectives to new packages. -/
def reconcile (packages : Packages) : Act Unit := do
  refitPlayers packages (← get).progress.slots.keys

/-- Carry out a task whose tick has come. -/
def run (n : Nested) : Task → Act Unit
  | .recheck p id epoch check => resume n p id epoch check
  | t => t.run n

/-- Carry out tasks, one after another. -/
def runEach (n : Nested) : List (Appointment Task) → Act Unit
  | [] => pure ()
  | s :: rest => do
    run n s.task
    runEach n rest

/-- Advance the clock by a tick and carry out what is due; how much that was. -/
def tick (n : Nested) : Act Nat := do
  let (due, agenda) := (← get).agenda.advance
  modify fun e => { e with agenda }
  runEach n due
  pure due.length

/-- What a host asks for is done. -/
def carryOut (n : Nested) : (c : Command) → Act c.Answer
  | .dispatch event => dispatch n event
  | .tick => tick n
  | .request p (.cancelObjective id) => cancel p id
  | .request p (.completeObjective id) => complete n p id
  | .replacePackages packages => do
    modify fun e => { e with packages }
    reconcile packages
  | c => c.perform n

/-- Carry out a command on an engine with so many levels of nesting. -/
def perform (levels : Nat) (c : Command) (e : Engine) : Except Halt (c.Answer × Engine) :=
  (carryOut (nested levels) c).run e

/-- Carry out commands one after another, whatever they answer. -/
def performAll (levels : Nat) : List Command → Engine → Except Halt Engine
  | [], e => .ok e
  | c :: rest, e => do
    let (_, e) ← perform levels c e
    performAll levels rest e

end Flat

/-- A run goes on with one more command. -/
theorem Flat.performAll_append_singleton {levels : Nat} {cs : List Command} {c : Command}
    {e₀ e e' : Engine} {answer : c.Answer} (hbefore : performAll levels cs e₀ = .ok e)
    (hlast : perform levels c e = .ok (answer, e')) :
    performAll levels (cs ++ [c]) e₀ = .ok e' := by
  induction cs generalizing e₀ with
  | nil =>
    cases hbefore
    rw [List.nil_append, performAll, hlast]
    rfl
  | cons first rest ih =>
    rw [performAll] at hbefore
    rw [List.cons_append, performAll]
    cases hstep : perform levels first e₀ with
    | error err =>
      rw [hstep] at hbefore
      cases hbefore
    | ok r =>
      rw [hstep] at hbefore
      exact ih hbefore

/-! ### Epochs and slots -/

namespace Engine

variable {mode : Mode} {e e' : Engine} {p : PlayerId} {id : ObjectId} {a : Active}
  {held epoch : Nat}

/-- What is active after a step was active before under the same epoch, or has the next one. -/
theorem Step.active_cases (h : Step mode e e') (hactive : e'.progress.find? p id = some a) :
    (∃ b, e.progress.find? p id = some b ∧ b.epoch = a.epoch) ∨
      (a.epoch = e.progress.nextEpoch ∧ e'.progress.nextEpoch = e.progress.nextEpoch + 1) := by
  cases h with
  | aside hprogress => exact .inl ⟨a, hprogress ▸ hactive, rfl⟩
  | prune => exact .inl ⟨a, (e.find?_pruned ..).symm.trans hactive, rfl⟩
  | start | restore =>
    have hactive : (e.enter _ _ _ _).2.progress.find? p id = some a := hactive
    rw [find?_enter] at hactive
    split at hactive
    · cases hactive
      exact .inr ⟨rfl, e.nextEpoch_enter ..⟩
    · exact .inl ⟨a, hactive, rfl⟩
  | store hfind =>
    rw [e.find?_stored _ _ _ _ _ _ _ hfind] at hactive
    split at hactive
    · rename_i hkey
      obtain ⟨rfl, rfl⟩ := hkey
      cases hactive
      exact .inl ⟨_, e.progress.find?_of_findIn? _ _ _ hfind, rfl⟩
    · exact .inl ⟨a, hactive, rfl⟩
  | cancel hfind | complete hfind | drop hfind =>
    have hactive := (e.find?_ended _ p _ _ id .dropped hfind).symm.trans hactive
    split at hactive
    · cases hactive
    · exact .inl ⟨a, hactive, rfl⟩
  | renew hfind =>
    rw [e.find?_renewed _ _ _ _ _ _ hfind] at hactive
    split at hactive
    · cases hactive
      exact .inr ⟨rfl, Slots.nextEpoch_changeIn e.progress.issueEpoch.2 _ _ _⟩
    · exact .inl ⟨a, hactive, rfl⟩

/-- As long as something is active for a player he keeps his slot. -/
theorem Step.held?_eq (h : Step mode e e') (hactive : e'.progress.find? p id = some a)
    (hheld : e.progress.held? p = some held) : e'.progress.held? p = some held := by
  cases h with
  | aside hprogress => exact hprogress ▸ hheld
  | prune =>
    obtain ⟨now, hnow, -⟩ := Slots.exists_findIn?_of_find? _ _ _ hactive
    have hbefore := e.progress.held?_of_held?_prune _ _ _ hnow
    exact hnow.trans (hbefore.symm.trans hheld)
  | @start _ q x definition _ _ =>
    have hput := e.progress.issueEpoch.2.held?_put q p x
      ⟨definition.goal.initial, e.progress.nextEpoch, e.clock⟩
    refine hput.trans ?_
    split
    · rename_i hq
      subst hq
      exact congrArg (fun h : Option Nat => some (h.getD _)) hheld
    · exact hheld
  | @restore _ q x _ data _ _ startedAt =>
    have hput := e.progress.issueEpoch.2.held?_put q p x ⟨data, e.progress.nextEpoch, startedAt⟩
    refine hput.trans ?_
    split
    · rename_i hq
      subst hq
      exact congrArg (fun h : Option Nat => some (h.getD _)) hheld
    · exact hheld
  | store | cancel | complete | drop => exact (e.progress.held?_changeIn ..).trans hheld
  | renew => exact (e.progress.issueEpoch.2.held?_changeIn ..).trans hheld

/-- Every epoch under which something is active has been given out. -/
def Issued (e : Engine) : Prop :=
  ∀ p id a, e.progress.find? p id = some a → a.epoch < e.progress.nextEpoch

theorem issued_fresh (registry : Registry) (integrations : Integrations) (world : World)
    (archived : Bool) (screen : String) (clock : Calendar.Timestamp) (dice : Dice) :
    (fresh registry integrations world archived screen clock dice).Issued := nofun

theorem Step.issued (h : Step mode e e') (he : e.Issued) : e'.Issued := by
  intro p id a hactive
  rcases h.active_cases hactive with ⟨b, hbefore, hepoch⟩ | ⟨hepoch, hnext⟩
  · exact (hepoch ▸ he p id b hbefore).trans_le h.nextEpoch_le
  · rw [hepoch, hnext]
    exact Nat.lt_succ_self _

theorem Steps.issued (h : Steps mode e e') (he : e.Issued) : e'.Issued := by
  induction h with
  | refl => exact he
  | tail _ hstep ih => exact hstep.issued ih

/-- Whatever is active for a player under an epoch is found in a certain slot. -/
structure InSlot (p : PlayerId) (held epoch : Nat) (e : Engine) : Prop where
  issued : epoch < e.progress.nextEpoch
  held {id : ObjectId} {a : Active} (hactive : e.progress.find? p id = some a)
    (hepoch : a.epoch = epoch) : e.progress.held? p = some held

/-- An epoch is found in one slot, and never in a later one. -/
theorem Step.inSlot (h : Step mode e e') (he : e.InSlot p held epoch) :
    e'.InSlot p held epoch where
  issued := he.issued.trans_le h.nextEpoch_le
  held {id a} hactive hepoch := by
    rcases h.active_cases hactive with ⟨b, hbefore, hsame⟩ | ⟨hnext, -⟩
    · exact h.held?_eq hactive (he.held hbefore (hsame.trans hepoch))
    · exact absurd (hepoch.symm.trans hnext) he.issued.ne

theorem Steps.inSlot (h : Steps mode e e') (he : e.InSlot p held epoch) :
    e'.InSlot p held epoch := by
  induction h with
  | refl => exact he
  | tail _ hstep ih => exact hstep.inSlot ih

/-- What is found in a held slot is found there as long as it is active. -/
theorem Issued.inSlot (he : e.Issued) (h : e.progress.findIn? p held id = some a) :
    e.InSlot p held a.epoch where
  issued := he p id a (e.progress.find?_of_findIn? _ _ _ h)
  held _ _ := e.progress.held?_of_findIn? _ _ _ h

end Engine

/-! ### The same by name -/

namespace Slots

variable (s : Slots) (p : PlayerId) {held : Nat} (id : ObjectId)

theorem own_of_held? (h : s.held? p = some held) : s.own p = held := by
  rw [own, h, Option.getD_some]

/-- In the slot that a player has, all is found that is active for him. -/
theorem findIn?_own : s.findIn? p (s.own p) id = s.find? p id := by
  cases h : s.held? p with
  | none =>
    rw [s.find?_of_held?_eq_none p id h,
      s.findIn?_of_find?_eq_none p _ id (s.find?_of_held?_eq_none p id h)]
  | some held => rw [s.own_of_held? p h, s.findIn?_of_held? p held id h]

/-- Where no slot of a player is empty but the one that is held, it may as well be closed by its
player alone. -/
theorem prune_own (h : s.EmptyIn { x | x.1 = p → x.2 = held }) :
    s.prune p held = s.prune p (s.own p) := by
  unfold prune
  cases hslot : s.slots.find? p with
  | none => rfl
  | some slot =>
    have hown : s.own p = slot.number := by
      rw [own, held?, hslot, Option.map_some, Option.getD_some]
    by_cases hempty : slot.active.isEmpty = true
    · have hheld : slot.number = held := h p slot hslot hempty rfl
      simp only [hown, hheld]
    · simp only [hempty, and_false, if_false, Bool.false_eq_true]

end Slots

namespace Engine

variable {e : Engine} {p q : PlayerId} {id o : ObjectId} {a : Active} {epoch : Nat}

/-- What ends in the slot that its player has is taken out of the map, and nothing else is. -/
theorem find?_ended_own (how : Ending) (h : e.progress.find? p id = some a) :
    (e.ended p (e.progress.own p) id a how).progress.find? q o =
      if p = q ∧ id = o then none else e.progress.find? q o :=
  e.find?_ended p q _ id o how ((e.progress.findIn?_own p id).trans h)

/-- What is stored there is stored in the map. -/
theorem find?_stored_own (data : Json) (h : e.progress.find? p id = some a) :
    (e.stored p (e.progress.own p) id a epoch data).progress.find? q o =
      if p = q ∧ id = o then some { a with data } else e.progress.find? q o :=
  e.find?_stored p q _ id o data epoch ((e.progress.findIn?_own p id).trans h)

/-- And so is what begins anew there. -/
theorem find?_renewed_own (data : Json) (h : e.progress.find? p id = some a) :
    (e.renewed p (e.progress.own p) id a data).progress.find? q o =
      if p = q ∧ id = o then some { a with data, epoch := e.progress.nextEpoch }
      else e.progress.find? q o :=
  e.find?_renewed p q _ id o data ((e.progress.findIn?_own p id).trans h)

end Engine

open Engine

variable {α β : Type} {e e' : Engine} {p : PlayerId} {held epoch levels : Nat} {id : ObjectId}

/-! ### What is done to the map -/

namespace Flat

variable {K : Packages} (q : PlayerId) (o : ObjectId)

/-- An objective that is removed is not in the map any more. -/
theorem find?_of_remove {epoch removed : Option Nat} {how : Ending}
    (h : (remove p id epoch how).run e = .ok (removed, e')) :
    e'.progress.find? q o =
      if removed.isSome ∧ p = q ∧ id = o then none else e.progress.find? q o := by
  have h := (Act.run_get_bind _ e).symm.trans h
  cases hfind : e.progress.find? p id with
  | none =>
    rw [hfind] at h
    cases h
    simp
  | some a =>
    simp only [hfind] at h
    split at h
    · cases h
      simp only [Option.isSome_some, true_and]
      exact find?_ended_own how hfind
    · cases h
      simp

/-- Progress that is stored is in the map, under the same epoch. -/
theorem find?_of_store {data : Json} {stored : Bool}
    (h : (store p id epoch data).run e = .ok (stored, e')) :
    e'.progress.find? q o =
      if stored ∧ p = q ∧ id = o then (e.progress.find? p id).map fun a => { a with data }
      else e.progress.find? q o := by
  have h := (Act.run_get_bind _ e).symm.trans h
  cases hfind : e.progress.find? p id with
  | none =>
    rw [hfind] at h
    cases h
    simp
  | some a =>
    simp only [hfind] at h
    split at h
    · cases h
      simp only [true_and]
      exact find?_stored_own data hfind
    · cases h
      simp

/-- What comes of an entry under new packages: it stays, begins anew under a new epoch or is taken
out. -/
def fitted (K : Packages) (id : ObjectId) (epoch : Nat) (a : Active) : Option Active :=
  match K.get .objective id with
  | .error _ => none
  | .ok definition =>
    if definition.goal.accepts a.data then some a
    else some { a with data := definition.goal.initial, epoch }

/-- One entry is fitted to new packages. -/
theorem find?_of_refit (h : (refit K p id).run e = .ok ((), e')) :
    e'.progress.find? q o =
      if p = q ∧ id = o then (e.progress.find? p id).bind (fitted K id e.progress.nextEpoch)
      else e.progress.find? q o := by
  have h := (Act.run_get_bind _ e).symm.trans h
  have hsame : e.progress.find? q o =
      if p = q ∧ id = o then e.progress.find? p id else e.progress.find? q o := by
    split
    · rename_i heq
      rw [heq.1, heq.2]
    · rfl
  cases hfind : e.progress.find? p id with
  | none =>
    rw [hfind] at h hsame
    cases h
    exact hsame
  | some a =>
    simp only [hfind] at h
    rw [hfind] at hsame
    cases hget : K.get .objective id with
    | error err =>
      rw [hget] at h
      cases h
      rw [Option.bind_some, fitted, hget]
      exact find?_ended_own .dropped hfind
    | ok definition =>
      simp only [hget] at h
      rw [Option.bind_some, fitted, hget]
      dsimp only
      split at h
      · cases h
        rename_i haccepts
        rw [if_pos haccepts]
        exact hsame
      · cases h
        rename_i hrejects
        rw [if_neg hrejects]
        exact find?_renewed_own _ hfind

/-- To close a slot changes nothing in the map. -/
theorem find?_of_prune (h : (prune p).run e = .ok ((), e')) :
    e'.progress.find? q o = e.progress.find? q o := by
  cases h
  exact e.find?_pruned p q _ o

end Flat

/-! ### Operations that hold a slot -/

namespace Objectives

/-- Something is done with what is active in the slot that is held, if it is fit for it.  The same
is done by name, if what is fit can be active only in that slot. -/
theorem found_eq_flat {q : Active → Prop} [DecidablePred q] {f f' : Active → Act α} {x : α}
    (hheld : ∀ a, e.progress.find? p id = some a → q a → e.progress.held? p = some held)
    (hf : ∀ a, e.progress.held? p = some held → (f a).run e = (f' a).run e) :
    StateT.run (match e.progress.findIn? p held id with
      | none => pure x
      | some a => if q a then f a else pure x) e =
    StateT.run (match e.progress.find? p id with
      | none => pure x
      | some a => if q a then f' a else pure x) e := by
  cases hfind : e.progress.find? p id with
  | none => rw [Slots.findIn?_of_find?_eq_none _ _ _ _ hfind]
  | some a =>
    by_cases hfit : q a
    · have hslot := hheld a hfind hfit
      rw [(e.progress.findIn?_of_held? p held id hslot).trans hfind]
      dsimp only
      rw [if_pos hfit, if_pos hfit]
      exact hf a hslot
    · cases hactive : e.progress.findIn? p held id with
      | none =>
        dsimp only
        rw [if_neg hfit]
      | some b =>
        cases hfind.symm.trans (e.progress.find?_of_findIn? _ _ _ hactive)
        dsimp only
        rw [if_neg hfit, if_neg hfit]

theorem remove_eq_flat (epoch : Option Nat) (how : Ending)
    (hheld : ∀ a, e.progress.find? p id = some a → epoch.all (· = a.epoch) = true →
      e.progress.held? p = some held) :
    (remove p held id epoch how).run e = (Flat.remove p id epoch how).run e := by
  refine found_eq_flat (q := fun a => epoch.all (· = a.epoch) = true) hheld fun a hslot => ?_
  rw [← e.progress.own_of_held? p hslot]
  rfl

theorem store_eq_flat (hslot : e.InSlot p held epoch) (data : Json) :
    (store p held id epoch data).run e = (Flat.store p id epoch data).run e := by
  refine found_eq_flat (q := fun a => a.epoch = epoch) (fun a => hslot.held) fun a hslot => ?_
  rw [← e.progress.own_of_held? p hslot]
  rfl

theorem prune_eq_flat (h : e.progress.EmptyIn { x | x.1 = p → x.2 = held }) :
    (prune p held).run e = (Flat.prune p).run e := by
  show Except.ok ((), e.pruned p held) = Except.ok ((), e.pruned p (e.progress.own p))
  rw [pruned, pruned, e.progress.prune_own p h]

theorem flat_remove_of_none (h : e.progress.find? p id = none) (epoch : Option Nat) (how : Ending) :
    (Flat.remove p id epoch how).run e = .ok (none, e) := by
  refine (Act.run_get_bind _ e).trans ?_
  rw [h]
  rfl

/-- A player keeps his slot when something is removed from it. -/
theorem held?_of_remove {epoch removed : Option Nat} {how : Ending} {q : PlayerId}
    (h : (remove p held id epoch how).run e = .ok (removed, e')) :
    e'.progress.held? q = e.progress.held? q := by
  rcases remove_cases h with ⟨-, rfl⟩ | ⟨a, -, -, -, rfl⟩
  · rfl
  · exact e.progress.held?_changeIn _ _ _ _

/-- What follows a completion, down to the pruning of the slot.  Whatever slots the events open and
close, none that is left empty is another than the one that is held. -/
theorem finish_eq_flat (hheld : e.progress.held? p = some held) (id : ObjectId) (epoch : Nat)
    (events : List EventRef) (x : α) :
    StateT.run (finish (nested levels) p id epoch events >>= fun _ => prune p held >>= fun _ =>
      pure x) e =
    StateT.run (finish (nested levels) p id epoch events >>= fun _ => Flat.prune p >>= fun _ =>
      pure x) e := by
  have hkeeps : (finish (nested levels) p id epoch events).Keeps (fun e₁ =>
      e₁.packages = e.packages ∧ e₁.progress.EmptyIn { x | x.1 = p → x.2 = held }) fun _ => True :=
    Act.keeps_bind (Act.keeps_modify fun _ he => he) fun _ =>
      (Engine.emptyIn_keptByProgress e.packages).fire_keeps levels p events _
  refine Act.run_bind_congr rfl fun _ e₁ hrun => ?_
  obtain ⟨-, hempty⟩ := hkeeps.of_run ⟨rfl, Slots.emptyIn_of_held? hheld⟩ hrun
  exact Act.run_bind_congr (prune_eq_flat hempty) fun _ _ _ => rfl

/-- A cancellation finds by name what it finds in the slot that the player has. -/
theorem cancel_eq_flat (p : PlayerId) (id : ObjectId) (e : Engine) :
    (cancel p id).run e = (Flat.cancel p id).run e := by
  refine (Act.run_get_bind _ e).trans ?_
  cases hheld : e.progress.held? p with
  | none =>
    have hslot : e.progress.slots.find? p = none := Option.map_eq_none_iff.1 hheld
    have hpruned : e.pruned p (e.progress.own p) = e := by
      rw [pruned, Slots.prune, hslot]
    have hnone := flat_remove_of_none (e.progress.find?_of_held?_eq_none p id hheld) none .cancelled
    refine Eq.trans ?_ (Act.run_bind_of_run hnone).symm
    show _ = Except.ok (_, e.pruned p (e.progress.own p))
    rw [hpruned]
    rfl
  | some held =>
    have hremove : (remove p held id none .cancelled).run e =
      (Flat.remove p id none .cancelled).run e := remove_eq_flat _ _ fun _ _ _ => hheld
    refine Act.run_bind_congr hremove fun _ e₁ hrun => ?_
    have hheld₁ : e₁.progress.held? p = some held := (held?_of_remove hrun).trans hheld
    exact Act.run_bind_congr (prune_eq_flat (Slots.emptyIn_of_held? hheld₁)) fun _ _ _ => rfl

/-- So does a completion. -/
theorem complete_eq_flat (levels : Nat) (p : PlayerId) (id : ObjectId) (e : Engine) :
    (complete (nested levels) p id).run e = (Flat.complete (nested levels) p id).run e := by
  refine Act.run_objective_congr ?_
  cases e.packages.get .objective id with
  | error err => rfl
  | ok definition =>
    refine (Act.run_get_bind _ e).trans ?_
    cases hheld : e.progress.held? p with
    | none =>
      have hnone := e.progress.find?_of_held?_eq_none p id hheld
      refine Eq.trans ?_ (Act.run_bind_of_run (flat_remove_of_none hnone none .completed)).symm
      rfl
    | some held =>
      have hremove : (remove p held id none .completed).run e =
        (Flat.remove p id none .completed).run e := remove_eq_flat _ _ fun _ _ _ => hheld
      refine Act.run_bind_congr hremove fun removed e₁ hrun => ?_
      cases removed with
      | none => rfl
      | some epoch =>
        exact finish_eq_flat ((held?_of_remove hrun).trans hheld) id epoch definition.events _

end Objectives

end Questbook
