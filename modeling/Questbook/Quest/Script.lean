/-
Questbook/Quest/Script.lean

What a host's own definitions may do.

A host adds conditions, events, variables and objectives of its own.  Each of them runs a `Script`:
a finished answer, a failure, or a request to the engine on behalf of the player it runs for,
with the script that goes on from the answer.  A script is data, so that the engine keeps control
of every step: it can see what is asked before it answers.

What a script may ask for is narrower than what a host may do in code of its own.  It can change
objectives and conversations and leave notes, but it can dispatch no game event, advance no clock,
and neither restore nor reload anything while it runs; those are commands, and come from outside.
-/
import Questbook.Error
import Questbook.Json.Basic

namespace Questbook

/-- What a player sees of a conversation. -/
inductive TalkState where
  /-- The player is to pick one of `options`. -/
  | selecting (conversation : ObjectId) (text : String) (options : List String)
  /-- A choice is being carried out. -/
  | resolving
  | ended
deriving DecidableEq, Repr

/-- A note that a host asks to be written when its time has come, and further ones that count their
ticks from then. -/
inductive Reminder where
  | mk (label : String) (again : List (Nat × Reminder))

/-- The note of a reminder. -/
def Reminder.label : Reminder → String
  | mk label _ => label

/-- The reminders that follow a reminder, and after how many ticks. -/
def Reminder.again : Reminder → List (Nat × Reminder)
  | mk _ again => again

/-- What a script may ask of the engine. -/
inductive Request where
  | startConversation (id : ObjectId)
  | selectOption (index : Nat)
  | navigate (command : String)
  | talkState
  | endConversation
  | disconnect
  | startObjective (id : ObjectId)
  | cancelObjective (id : ObjectId)
  | completeObjective (id : ObjectId)
  /-- Write a note for the host. -/
  | note (entry : Json)

/-- What the engine answers to a request. -/
def Request.Answer : Request → Type
  | startConversation _ => Except TalkError TalkState
  | selectOption _ => Except TalkError TalkState
  | navigate _ => Except TalkError Bool
  | talkState => Option TalkState
  | endConversation => Bool
  | disconnect => Bool
  | startObjective _ => Except ProgressError Unit
  | cancelObjective _ => Except ProgressError Unit
  | completeObjective _ => Except ProgressError Unit
  | note _ => Unit

/-- A run of a host's definition. -/
inductive Script (α : Type) where
  | done (a : α)
  | fail (e : EvalError)
  | ask (r : Request) (next : r.Answer → Script α)

namespace Script

variable {α β : Type}

/-- Go on from the answer of a script. -/
def bind : Script α → (α → Script β) → Script β
  | done a, f => f a
  | fail e, _ => fail e
  | ask r next, f => ask r fun answer => (next answer).bind f

instance : Monad Script where
  pure := done
  bind := bind

/-- Ask the engine for something. -/
def request (r : Request) : Script r.Answer := ask r done

/-- A script that makes no request. -/
inductive Quiet : Script α → Prop where
  | done (a : α) : Quiet (done a)
  | fail (e : EvalError) : Quiet (fail e)

end Script

end Questbook
