/-
Questbook/Engine/Objectives.lean

The objectives of the players: how they start, advance, complete and end.

An objective is active for a player, or it is not.  It leaves by being cancelled or completed, and
only completion fires its events.  Every step that works on a player's objectives holds the slot it
found at its beginning, and what it computed counts only as long as the objective is active in that
slot since the same start: an objective that was cancelled or started again meanwhile can never be
completed by stale work.
-/
import Questbook.Engine.Evaluate

namespace Questbook

/-! ### Game events and goals -/

/-- What a goal makes of a game event, and its progress afterwards. -/
def Goal.handle (n : Nested) (p : PlayerId) (data : Json) (event : GameEvent) :
    Goal → Eval (Json × Outcome)
  | arrow target range =>
    if data.isNull then
      match event with
      | .projectileHit _ projectile .arrow spot =>
        pure (data, .deferred (.landing target range projectile spot))
      | _ => pure (data, .ignored)
    else throw (.world "corrupted progress record")
  | reach target range =>
    if data.isNull then
      match event with
      | .playerMoved _ spot => do
        let range ← range.resolve n p
        pure (data, if target.within spot.toSpot range then .satisfied else .ignored)
      | _ => pure (data, .ignored)
    else throw (.world "corrupted progress record")
  | kill entities _ =>
    match killsLeft? data with
    | none => throw (.world "corrupted progress record")
    | some left =>
      match event with
      | .entityKilled _ entity =>
        if countsKill entities entity then
          pure (killData (left - 1), if left - 1 = 0 then .satisfied else .progressed)
        else pure (data, .ignored)
      | _ => pure (data, .ignored)
  | custom goal =>
    if goal.accepts data then (goal.handle data event).run (n.ask p)
    else throw (.world "corrupted progress record")

/-- Whether a check that was put off is passed. -/
def Recheck.passes (n : Nested) (p : PlayerId) : Recheck → Eval Bool
  | landing target range projectile reported => do
    let landed := ((← get).world.projectile? projectile).getD reported
    let range ← range.resolve n p
    pure (target.within landed.toSpot range)
  | custom script => script.run (n.ask p)

namespace Objectives

/-! ### Starting and ending -/

/-- Start an objective that is not active. -/
def start (p : PlayerId) (id : ObjectId) : Act (Except ProgressError Unit) := do
  match ← Act.objective id with
  | .error e => pure (.error (.notFound e))
  | .ok definition =>
    if (← get).progress.isActive p id then pure (.error (.alreadyActive p id))
    else
      modify (·.begun p id definition.goal.initial)
      pure (.ok ())

/-- Remove an objective from a held slot, if it is active there and, where an epoch is given, has
been since that start.  The answer is the epoch it was active under. -/
def remove (p : PlayerId) (held : Nat) (id : ObjectId) (epoch : Option Nat) (how : Ending) :
    Act (Option Nat) := do
  match (← get).progress.findIn? p held id with
  | none => pure none
  | some active =>
    if epoch.all (· = active.epoch) then
      modify (·.removed p held id active how)
      pure (some active.epoch)
    else pure none

/-- Close a held slot if nothing is active in it. -/
def prune (p : PlayerId) (held : Nat) : Act Unit := modify (·.pruned p held)

/-- Fire the events of an objective that was completed under an epoch. -/
def finish (n : Nested) (p : PlayerId) (id : ObjectId) (epoch : Nat) (events : List EventRef) :
    Act Unit := do
  modify (·.mark p id epoch .rewarded)
  n.fire p events

/-- End an active objective and fire nothing. -/
def cancel (p : PlayerId) (id : ObjectId) : Act (Except ProgressError Unit) := do
  match (← get).progress.held? p with
  | none => pure (.error (.notActive p id))
  | some held =>
    let removed ← remove p held id none .cancelled
    prune p held
    pure (if removed.isSome then .ok () else .error (.notActive p id))

/-- Complete an active objective whatever its progress and conditions, and fire its events. -/
def complete (n : Nested) (p : PlayerId) (id : ObjectId) : Act (Except ProgressError Unit) := do
  match ← Act.objective id with
  | .error e => pure (.error (.notFound e))
  | .ok definition =>
    match (← get).progress.held? p with
    | none => pure (.error (.notActive p id))
    | some held =>
      match ← remove p held id none .completed with
      | none => pure (.error (.notActive p id))
      | some epoch =>
        -- It is over before its events are fired, so that they may start it again.
        finish n p id epoch definition.events
        prune p held
        pure (.ok ())

/-! ### Advancing -/

/-- Complete an objective of a held slot if its conditions hold and it is still active since the
same start. -/
def settle (n : Nested) (p : PlayerId) (held : Nat) (definition : Objective) (epoch : Nat) :
    Act Bool := do
  if ← allHold n p definition.conditions then
    -- What the conditions have run may have ended it, or ended it and started it again.
    if (← remove p held definition.id (some epoch) .completed).isSome then
      finish n p definition.id epoch definition.events
      prune p held
      pure true
    else pure false
  else pure false

/-- Store progress of an objective of a held slot, if it is still active since the same start. -/
def store (p : PlayerId) (held : Nat) (id : ObjectId) (epoch : Nat) (data : Json) : Act Bool := do
  match (← get).progress.findIn? p held id with
  | none => pure false
  | some active =>
    if active.epoch = epoch then
      modify (·.stored p held id active epoch data)
      pure true
    else pure false

/-- Offer a game event to one objective of a held slot. -/
def offer (n : Nested) (packages : Packages) (event : GameEvent) (p : PlayerId) (held : Nat)
    (id : ObjectId) : Act Unit := do
  match packages.get .objective id, (← get).progress.findIn? p held id with
  | .ok definition, some active =>
    match ← Act.attempt (definition.goal.handle n p active.data event) with
    | .error _ => pure ()
    | .ok (_, .ignored) => pure ()
    | .ok (data, .progressed) => discard (store p held id active.epoch data)
    | .ok (data, .satisfied) =>
      -- Handling the event may have ended it, and then its conditions are not asked for.
      if ← store p held id active.epoch data then
        discard (settle n p held definition active.epoch)
    | .ok (_, .deferred check) => Act.later [(1, .recheck p id active.epoch check)]
  | _, _ => pure ()

/-- Offer a game event to one objective of a held slot after another. -/
def offerEach (n : Nested) (packages : Packages) (event : GameEvent) (p : PlayerId)
    (held : Nat) : List ObjectId → Act Unit
  | [] => pure ()
  | id :: rest => do
    offer n packages event p held id
    offerEach n packages event p held rest

/-- Offer a game event to the objectives of its player that are active now, in order. -/
def dispatch (n : Nested) (event : GameEvent) : Act Unit := do
  let e ← get
  match e.progress.held? event.player with
  | none => pure ()
  -- What the events of one objective start is not offered this event.
  | some held => offerEach n e.packages event event.player held (e.progress.ids event.player)

/-- Run a check that was put off, if the objective is still active since the same start. -/
def resume (n : Nested) (p : PlayerId) (id : ObjectId) (epoch : Nat) (check : Recheck) :
    Act Unit := do
  match (← get).progress.held? p with
  | none => pure ()
  | some held =>
    if (← get).progress.isCurrent p held id epoch then
      match ← Act.attempt (check.passes n p) with
      | .error _ => pure ()
      | .ok false => pure ()
      | .ok true =>
        match ← Act.objective id with
        | .error _ => pure ()
        | .ok definition => discard (settle n p held definition epoch)

/-! ### Storage and reload -/

/-- Make stored objectives active again, and count them.  One without a definition is left out; one
whose progress cannot be read begins anew. -/
def restore : List ProgressRecord → Act Nat
  | [] => pure 0
  | r :: rest => do
    match ← Act.objective r.objective with
    | .error _ => restore rest
    | .ok definition =>
      let data := if definition.goal.accepts r.data then r.data else definition.goal.initial
      modify fun e => (e.enter r.player r.objective data r.startedAt).2
      pure ((← restore rest) + 1)

/-- Fit one active objective of a held slot to new packages. -/
def refit (packages : Packages) (p : PlayerId) (held : Nat) (id : ObjectId) : Act Unit := do
  match (← get).progress.findIn? p held id with
  | none => pure ()
  | some active =>
    match packages.get .objective id with
    | .error _ => modify (·.ended p held id active .dropped)
    | .ok definition =>
      if definition.goal.accepts active.data then pure ()
      else modify (·.renewed p held id active definition.goal.initial)

/-- Fit active objectives of a held slot to new packages. -/
def refitEach (packages : Packages) (p : PlayerId) (held : Nat) : List ObjectId → Act Unit
  | [] => pure ()
  | id :: rest => do
    refit packages p held id
    refitEach packages p held rest

/-- Fit the active objectives of held slots to new packages, and close those left empty. -/
def refitSlots (packages : Packages) : List (PlayerId × Nat) → Act Unit
  | [] => pure ()
  | (p, held) :: rest => do
    refitEach packages p held ((← get).progress.activeIn p held).keys
    prune p held
    refitSlots packages rest

/-- Fit all active objectives to new packages.  One that has no definition any more is dropped; one
whose progress its new definition cannot read begins anew. -/
def reconcile (packages : Packages) : Act Unit := do
  refitSlots packages ((← get).progress.slots.entries.map fun s => (s.1, s.2.number))

end Objectives

end Questbook
