/-
Questbook/Talk/Chronicle.lean

What becomes of each session of a conversation.

The chronicle follows a session by its number: the conversation and the screen it began with, what
its screen has shown, how the player left it, what the screen has shown at its end, and the final
events that were fired then.  What a moment shows is handed to the player when the moment is written
down.  Nothing in the engine reads the chronicle; it is what a host may look at to see what has
happened.
-/
import Questbook.Quest.Definition
import Questbook.Talk.Screen

namespace Questbook

/-- How a session ends. -/
inductive Parting where
  /-- No line of the NPC is open. -/
  | noLine
  /-- A line was shown that leaves no reply open. -/
  | noReply
  /-- The reply that was picked leads to no line. -/
  | noPointers
  /-- Someone has asked for the end. -/
  | dismissed
  | disconnected
deriving DecidableEq, Repr

/-- Whether an end is a natural one. -/
def Parting.natural : Parting → Bool
  | noLine | noReply | noPointers | dismissed => true
  | disconnected => false

/-- What happens to a session. -/
inductive Moment where
  /-- It begins, with a conversation and a way to show it. -/
  | began (talk : Conversation) (style : Screen.Style)
  /-- Its screen shows something. -/
  | shown (frames : List Frame)
  /-- The player is in it no more. -/
  | left (how : Parting)
  /-- Its screen is closed. -/
  | closed (frames : List Frame)
  /-- One of its final events is fired. -/
  | fired (event : ObjectId)

/-- What the player sees of a moment. -/
def Moment.frames : Moment → List Frame
  | shown frames | closed frames => frames
  | began _ _ | left _ | fired _ => []

/-- Something that has happened, and to which session of which player. -/
structure ChronicleEntry where
  player : PlayerId
  number : Nat
  what : Moment

/-- What has happened to sessions, newest first. -/
abbrev Chronicle := List ChronicleEntry

/-- What has happened to a session, oldest first, and to whom. -/
def Chronicle.story (c : Chronicle) (number : Nat) : List (PlayerId × Moment) :=
  (c.filter (·.number = number)).reverse.map fun x => (x.player, x.what)

end Questbook
