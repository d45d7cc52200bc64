/-
Questbook/Engine/State.lean

The state of the engine, and the steps it is changed by.

Everything that happens is a step from one state to another.  A step may stop the engine for good,
where a count leaves its range or content calls for itself without end; otherwise it answers.  An
evaluation is a step that may fail for the player it runs for: the failure keeps what the step has
changed so far, and whoever started the evaluation recovers from it.
-/
import Questbook.Package.Compiled
import Questbook.Progress.Journal
import Questbook.Progress.Slots
import Questbook.Quest.Goal
import Questbook.Agenda
import Questbook.Talk.Session

namespace Questbook

/-- Work that waits for its tick. -/
inductive Task where
  /-- Fire the events of a delayed folder. -/
  | fire (player : PlayerId) (events : List EventRef)
  /-- Run a check that an objective has put off, if it is still active since the same start. -/
  | recheck (player : PlayerId) (objective : ObjectId) (epoch : Nat) (check : Recheck)
  /-- Write a note for the host. -/
  | remind (r : Reminder)

/-- The numbers that the dice show, roll after roll.  They come from outside. -/
abbrev Dice : Type := Nat → Float

/-- The dice after they have been rolled. -/
def Dice.rest (d : Dice) : Dice := fun roll => d (roll + 1)

/-- The state of the engine. -/
structure Engine where
  registry : Registry
  packages : Packages
  world : World
  /-- The integrations there are while the engine runs. -/
  integrations : Integrations
  progress : Slots
  sessions : Sessions
  agenda : Agenda Task
  /-- The changes of progress for an archive, newest first; none where there is no archive. -/
  outbox : Option (List RecordChange)
  journal : Journal
  /-- The screen of a conversation that names none. -/
  defaultScreen : String
  /-- The time at which what starts now is said to have started. -/
  clock : Calendar.Timestamp
  /-- The numbers that the dice are going to show. -/
  dice : Dice
  /-- The notes that hosts have asked for, newest first. -/
  notes : List Json

/-- An engine without packages, players and progress.  It plays with the dice that it is given;
where none are given, they show zero. -/
def Engine.fresh (registry : Registry) (integrations : Integrations) (world : World)
    (archived : Bool) (defaultScreen : String) (clock : Calendar.Timestamp)
    (dice : Dice := fun _ => 0) : Engine where
  registry
  packages := Packages.empty
  world
  integrations
  progress := Slots.empty
  sessions := Sessions.empty
  agenda := Agenda.empty
  outbox := if archived then some [] else none
  journal := []
  defaultScreen
  clock
  dice
  notes := []

namespace Engine

/-! ### Moments of sessions -/

/-- Something happens to a session: its player sees what there is to see of it, and it is written
down. -/
def told (e : Engine) (p : PlayerId) (number : Nat) (what : Moment) : Engine :=
  { e with
    world := e.world.render p what.frames
    sessions := e.sessions.tell p number what }

/-- The session of a player is set, and its screen shows something. -/
def showing (e : Engine) (p : PlayerId) (session : Session) (frames : List Frame) : Engine :=
  ({ e with sessions := e.sessions.put p session }).told p session.number (.shown frames)

/-- A player is in his session no more, and its screen is closed. -/
def parted (e : Engine) (p : PlayerId) (session : Session) (how : Parting) : Engine :=
  (({ e with sessions := e.sessions.drop p }).told p session.number (.left how)).told p
    session.number (.closed session.screen.close)

/-! ### Changes of progress -/

/-- Hand a change of progress to the archive, if there is one. -/
def persist (e : Engine) (op : RecordChange) : Engine :=
  { e with outbox := e.outbox.map (op :: ·) }

/-- Write into the journal what has happened to an objective. -/
def mark (e : Engine) (p : PlayerId) (id : ObjectId) (epoch : Nat) (what : Happening) : Engine :=
  { e with journal := ⟨p, id, epoch, what⟩ :: e.journal }

/-- Make an objective active under an epoch of its own, in place of what was active there. -/
def enter (e : Engine) (p : PlayerId) (id : ObjectId) (data : Json)
    (startedAt : Calendar.Timestamp) : Active × Engine :=
  let (epoch, progress) := e.progress.issueEpoch
  let active : Active := ⟨data, epoch, startedAt⟩
  -- What was active there has its end written down, and nothing is fired for it.
  let ended := match e.progress.find? p id with
    | some former => e.mark p id former.epoch (.ended .renewed)
    | none => e
  (active, { ended with progress := progress.put p id active }.mark p id epoch .entered)

/-- Start an objective now. -/
def begun (e : Engine) (p : PlayerId) (id : ObjectId) (data : Json) : Engine :=
  let (active, entered) := e.enter p id data e.clock
  entered.persist (.upsert (active.record p id))

/-- Store progress of an active objective of a held slot, on behalf of the start that has the
epoch. -/
def stored (e : Engine) (p : PlayerId) (held : Nat) (id : ObjectId) (active : Active)
    (epoch : Nat) (data : Json) : Engine :=
  let active := { active with data }
  ({ e with progress := e.progress.changeIn p held (·.insert id active) }.mark p id epoch
    .stored).persist (.upsert (active.record p id))

/-- End an active objective of a held slot. -/
def ended (e : Engine) (p : PlayerId) (held : Nat) (id : ObjectId) (active : Active)
    (how : Ending) : Engine :=
  { e with progress := e.progress.changeIn p held (·.erase id) }.mark p id active.epoch (.ended how)

/-- End an active objective of a held slot, in the archive too. -/
def removed (e : Engine) (p : PlayerId) (held : Nat) (id : ObjectId) (active : Active)
    (how : Ending) : Engine :=
  (e.ended p held id active how).persist (.delete p id)

/-- Begin an active objective of a held slot anew, under an epoch of its own; it still counts as
started when it was. -/
def renewed (e : Engine) (p : PlayerId) (held : Nat) (id : ObjectId) (active : Active)
    (data : Json) : Engine :=
  let (epoch, progress) := e.progress.issueEpoch
  let fresh := { active with data, epoch }
  (({ e with progress := progress.changeIn p held (·.insert id fresh) }.mark p id active.epoch
    (.ended .renewed)).mark p id epoch .entered).persist (.upsert (fresh.record p id))

/-- Close a held slot if nothing is active in it. -/
def pruned (e : Engine) (p : PlayerId) (held : Nat) : Engine :=
  { e with progress := e.progress.prune p held }

/-! ### The view of each change -/

section

variable (e : Engine) (p q : PlayerId) (held : Nat) (id o : ObjectId) (data : Json)
variable (startedAt : Calendar.Timestamp) {active : Active}

/-- Entering an objective changes progress, and the journal. -/
theorem enter_eq : (e.enter p id data startedAt).2 =
    { e with
      progress := e.progress.issueEpoch.2.put p id ⟨data, e.progress.nextEpoch, startedAt⟩
      journal := (e.enter p id data startedAt).2.journal } := by
  simp only [enter, mark]
  split <;> rfl

theorem packages_enter : (e.enter p id data startedAt).2.packages = e.packages := by
  rw [enter_eq]

theorem world_enter : (e.enter p id data startedAt).2.world = e.world := by
  rw [enter_eq]

theorem sessions_enter : (e.enter p id data startedAt).2.sessions = e.sessions := by
  rw [enter_eq]

theorem agenda_enter : (e.enter p id data startedAt).2.agenda = e.agenda := by
  rw [enter_eq]

theorem packages_begun : (e.begun p id data).packages = e.packages :=
  e.packages_enter p id data e.clock

theorem world_begun : (e.begun p id data).world = e.world :=
  e.world_enter p id data e.clock

theorem sessions_begun : (e.begun p id data).sessions = e.sessions :=
  e.sessions_enter p id data e.clock

theorem agenda_begun : (e.begun p id data).agenda = e.agenda :=
  e.agenda_enter p id data e.clock

@[simp] theorem outbox_enter : (e.enter p id data startedAt).2.outbox = e.outbox := by
  simp only [enter, mark]
  split <;> rfl

@[simp] theorem nextEpoch_enter :
    (e.enter p id data startedAt).2.progress.nextEpoch = e.progress.nextEpoch + 1 :=
  Slots.nextEpoch_put e.progress.issueEpoch.2 p id _

/-- What is entered is active under the next epoch. -/
theorem find?_enter : (e.enter p id data startedAt).2.progress.find? q o =
    if p = q ∧ id = o then some ⟨data, e.progress.nextEpoch, startedAt⟩
    else e.progress.find? q o :=
  Slots.find?_put e.progress.issueEpoch.2 p q id o ⟨data, e.progress.nextEpoch, startedAt⟩

theorem journal_enter : (e.enter p id data startedAt).2.journal =
    ⟨p, id, e.progress.nextEpoch, .entered⟩ ::
      ((e.progress.find? p id).toList.map fun a => ⟨p, id, a.epoch, .ended .renewed⟩) ++
        e.journal := by
  simp only [enter, mark, Slots.issueEpoch]
  cases e.progress.find? p id <;> rfl

theorem find?_stored (epoch : Nat) (h : e.progress.findIn? p held id = some active) :
    (e.stored p held id active epoch data).progress.find? q o =
      if p = q ∧ id = o then some { active with data } else e.progress.find? q o :=
  Slots.find?_changeIn_insert e.progress p q held id o h _

theorem find?_ended (how : Ending) (h : e.progress.findIn? p held id = some active) :
    (e.ended p held id active how).progress.find? q o =
      if p = q ∧ id = o then none else e.progress.find? q o :=
  Slots.find?_changeIn_erase e.progress p q held id o h

theorem find?_renewed (h : e.progress.findIn? p held id = some active) :
    (e.renewed p held id active data).progress.find? q o =
      if p = q ∧ id = o then some { active with data, epoch := e.progress.nextEpoch }
      else e.progress.find? q o :=
  Slots.find?_changeIn_insert e.progress.issueEpoch.2 p q held id o h _

theorem find?_pruned : (e.pruned p held).progress.find? q o = e.progress.find? q o :=
  Slots.find?_prune e.progress p q held o

end

end Engine

/-! ### Steps -/

/-- Why the engine stops for good. -/
inductive Halt where
  /-- A count has left its range. -/
  | overflow
  /-- Events have nested deeper than the engine allows. -/
  | tooDeep
deriving DecidableEq, Repr

/-- A step of the engine. -/
abbrev Act (α : Type) : Type := StateT Engine (Except Halt) α

/-- A step of the engine that may fail for its player. -/
abbrev Eval (α : Type) : Type := ExceptT EvalError (StateT Engine (Except Halt)) α

namespace Act

variable {α : Type}

/-- Stop the engine. -/
def halt (h : Halt) : Act α := throw h

/-- The answer of an evaluation, if it did not fail. -/
def attempt (e : Eval α) : Act (Except EvalError α) := e.run

/-- Change the world. -/
def changeWorld (f : World → World) : Act Unit := modify fun e => { e with world := f e.world }

/-- Change the sessions. -/
def changeSessions (f : Sessions → Sessions) : Act Unit :=
  modify fun e => { e with sessions := f e.sessions }

/-- Let something happen to a session. -/
def tell (p : PlayerId) (number : Nat) (what : Moment) : Act Unit := modify (·.told p number what)

/-- Write a note for the host. -/
def note (entry : Json) : Act Unit := modify fun e => { e with notes := entry :: e.notes }

/-- Schedule tasks, each after its ticks. -/
def later (tasks : List (Nat × Task)) : Act Unit := do
  match (← get).agenda.afterAll? tasks with
  | some agenda => modify fun e => { e with agenda }
  | none => halt .overflow

/-- The definition of an objective in the packages in force. -/
def objective (id : ObjectId) : Act (Except NotFound Objective) := do
  pure ((← get).packages.get .objective id)

end Act

namespace Eval

variable {α : Type}

/-- An answer or a failure that is known already. -/
def ofExcept : Except EvalError α → Eval α
  | .ok a => pure a
  | .error e => throw e

/-- What the world knows of a player. -/
def avatar (p : PlayerId) : Eval Avatar := do ofExcept ((← get).world.avatar p)

/-- Change what the world knows of a player. -/
def changeAvatar (p : PlayerId) (f : Avatar → Avatar) : Eval Unit := do
  let a ← avatar p
  Act.changeWorld (·.join p (f a))

/-- Go on only where there is an economy. -/
def needEconomy : Eval Unit := do
  if (← get).integrations.economy then pure () else throw (.featureUnavailable "economy")

/-- Go on only where there are stats. -/
def needStats : Eval Unit := do
  if (← get).integrations.stats then pure () else throw (.featureUnavailable "stats")

/-- The money of a player. -/
def balance (p : PlayerId) : Eval Float := do
  needEconomy
  ofExcept ((← get).world.balance p)

/-- Roll the dice. -/
def draw : Eval Float := do
  let dice := (← get).dice
  modify fun e => { e with dice := e.dice.rest }
  pure (dice 0)

end Eval

/-! ### What can be seen -/

namespace Engine

/-- A named value of an active objective's progress. -/
def property? (e : Engine) (p : PlayerId) (id : ObjectId) (name : String) : Option String := do
  let active ← e.progress.find? p id
  let definition ← (e.packages.get .objective id).toOption
  definition.goal.property? name active.data

/-- The progress record of an active objective. -/
def record? (e : Engine) (p : PlayerId) (id : ObjectId) : Option ProgressRecord :=
  (e.progress.find? p id).map (·.record p id)

/-- Take the notes that have been written, oldest first. -/
def drainNotes (e : Engine) : List Json × Engine := (e.notes.reverse, { e with notes := [] })

/-- Take the changes of progress that wait for the archive, oldest first. -/
def drainOutbox (e : Engine) : List RecordChange × Engine :=
  ((e.outbox.getD []).reverse, { e with outbox := e.outbox.map fun _ => [] })

/-- Take the output that waits for the players, for each of them oldest first. -/
def drainFrames (e : Engine) : List (PlayerId × List Frame) × Engine :=
  let (frames, world) := e.world.collect
  (frames, { e with world })

end Engine

end Questbook
