/-
Questbook/Engine/Command.lean

What the engine does for its host.

A command is one thing a host may ask for, and `Command.perform` carries it out.  Some of them a
script may ask for too, and then they are carried out in the middle of another one: `nested` ties
that knot, for so many levels as the engine allows.  Content that calls for itself without end
stops the engine, since no number of levels is enough for it.
-/
import Questbook.Engine.Talks

namespace Questbook

/-! ### Requests -/

/-- Carry out a request on behalf of a player. -/
def Request.answer (n : Nested) (p : PlayerId) : (r : Request) → Act r.Answer
  | startConversation id => Talks.start n p id
  | selectOption index => Talks.select n p index
  | navigate command => Talks.navigate p command
  | talkState => do pure ((← get).sessions.state? p)
  | endConversation => Talks.leave n p .dismissed
  | disconnect => Talks.leave n p .disconnected
  | startObjective id => Objectives.start p id
  | cancelObjective id => Objectives.cancel p id
  | completeObjective id => Objectives.complete n p id
  | note entry => Act.note entry

/-- The engine with so many levels below it. -/
def nested : Nat → Nested
  | 0 => ⟨fun _ _ => Act.halt .tooDeep, fun _ _ => Act.halt .tooDeep⟩
  | levels + 1 =>
    ⟨fun p events => Action.fireEach (nested levels) p events,
      fun p r => r.answer (nested levels) p⟩

/-! ### Time -/

/-- Write the note of a reminder, with the tick it is written on, and schedule those that follow. -/
def Reminder.ring (r : Reminder) : Act Unit := do
  Act.note (.list [.text r.label, .whole (← get).agenda.tick])
  Act.later (r.again.map fun e => (e.1, .remind e.2))

/-- Carry out reminders on an agenda of their own: their notes, each with its tick, and the
agenda with the reminders that follow. -/
def Reminder.ringAll : List (Appointment Reminder) → Agenda Reminder →
    Option (List (String × Nat) × Agenda Reminder)
  | [], s => some ([], s)
  | e :: rest, s => do
    let s ← s.afterAll? e.task.again
    let (notes, s) ← ringAll rest s
    pure ((e.task.label, s.tick) :: notes, s)

/-- Carry out a task whose tick has come. -/
def Task.run (n : Nested) : Task → Act Unit
  | fire p events => Action.fireEach n p events
  | recheck p id epoch check => Objectives.resume n p id epoch check
  | remind r => r.ring

/-- Carry out tasks, one after another. -/
def Task.runEach (n : Nested) : List (Appointment Task) → Act Unit
  | [] => pure ()
  | s :: rest => do
    s.task.run n
    runEach n rest

/-- Advance the clock by a tick and carry out what is due; how much that was. -/
def Act.tick (n : Nested) : Act Nat := do
  let (due, agenda) := (← get).agenda.advance
  -- The clock advances first, so that what is scheduled meanwhile is due later.
  modify fun e => { e with agenda }
  Task.runEach n due
  pure due.length

/-! ### Commands -/

/-- What a host may ask of the engine. -/
inductive Command where
  /-- Something that a script may ask for too. -/
  | request (player : PlayerId) (r : Request)
  /-- Whether a condition holds, failures counting as false. -/
  | check (player : PlayerId) (raw package : String)
  /-- Whether a condition holds, or how it fails. -/
  | evaluate (player : PlayerId) (raw package : String)
  /-- Fire an event: whether its conditions let it take place. -/
  | fire (player : PlayerId) (raw package : String)
  /-- The text of a variable, failures showing nothing. -/
  | display (player : PlayerId) (raw package : String)
  /-- The text of a variable, or how it fails. -/
  | value (player : PlayerId) (raw package : String)
  /-- Offer a game event to the objectives of its player. -/
  | dispatch (event : GameEvent)
  /-- Advance the clock by a tick. -/
  | tick
  /-- Write a note some ticks later. -/
  | remind (ticks : Nat) (r : Reminder)
  /-- Make stored objectives active again. -/
  | restore (records : List ProgressRecord)
  /-- Put new packages in force. -/
  | replacePackages (packages : Packages)
  /-- Something has changed in the world. -/
  | changeWorld (f : World → World)
  /-- Time has passed: it is now so late. -/
  | setClock (clock : Calendar.Timestamp)

/-- What the engine answers to a command. -/
def Command.Answer : Command → Type
  | request _ r => r.Answer
  | check _ _ _ => Except NotFound Bool
  | evaluate _ _ _ => Except NotFound (Except EvalError Bool)
  | fire _ _ _ => Except NotFound Bool
  | display _ _ _ => Except NotFound String
  | value _ _ _ => Except NotFound (Except EvalError String)
  | dispatch _ => Unit
  | tick => Nat
  | remind _ _ => Unit
  | restore _ => Nat
  | replacePackages _ => Unit
  | changeWorld _ => Unit
  | setClock _ => Unit

/-- Go on with the definition that a name leads to. -/
def Act.resolving {α : Type} (raw : String) (k : Kind) (package : String)
    (f : Resolved k → Act α) : Act (Except NotFound α) := do
  match (← get).packages.resolve raw k package with
  | .error e => pure (.error e)
  | .ok d => .ok <$> f d

/-- A condition found by its name as a reference to it. -/
def Resolved.conditionRef (d : Resolved .condition) : ConditionRef := ⟨d.id, d.negated, d.target⟩

/-- Carry out a command. -/
def Command.perform (n : Nested) : (c : Command) → Act c.Answer
  | request p r => r.answer n p
  | check p raw package => Act.resolving raw .condition package (·.conditionRef.holds n p)
  | evaluate p raw package =>
    Act.resolving raw .condition package fun d => Act.attempt (d.conditionRef.evaluate n p)
  | fire p raw package => Act.resolving raw .event package fun d => Action.fire n p d.target
  | display p raw package => Act.resolving raw .var package fun d => Variable.shown n p d.target
  | value p raw package =>
    Act.resolving raw .var package fun d => Act.attempt (Variable.value n p d.target)
  | dispatch event => Objectives.dispatch n event
  | tick => Act.tick n
  | remind ticks r => Act.later [(ticks, .remind r)]
  | restore records => Objectives.restore records
  | replacePackages packages => do
    modify fun e => { e with packages }
    Objectives.reconcile packages
  | changeWorld f => Act.changeWorld f
  | setClock clock => modify fun e => { e with clock }

/-- Carry out a command on an engine with so many levels of nesting. -/
def Engine.perform (levels : Nat) (c : Command) (e : Engine) : Except Halt (c.Answer × Engine) :=
  (c.perform (nested levels)).run e

/-- Carry out commands one after another, whatever they answer. -/
def Engine.performAll (levels : Nat) : List Command → Engine → Except Halt Engine
  | [], e => .ok e
  | c :: rest, e => do
    let (_, e) ← e.perform levels c
    performAll levels rest e

end Questbook
