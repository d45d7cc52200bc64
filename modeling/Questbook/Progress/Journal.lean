/-
Questbook/Progress/Journal.lean

What becomes of each start of an objective.

Whenever an objective becomes active it gets an epoch, and the journal follows that epoch: how it
was entered, each time progress was stored under it, how it ended and whether its completion events
were set off.  Nothing in the engine reads the journal; it is what a host may look at to see what
has happened.
-/
import Questbook.Ident

namespace Questbook

/-- How an objective ceases to be active under an epoch. -/
inductive Ending where
  | cancelled
  | completed
  /-- Its definition is gone. -/
  | dropped
  /-- It goes on under another epoch. -/
  | renewed
deriving DecidableEq, Repr

/-- What happens to an objective under an epoch. -/
inductive Happening where
  | entered
  | stored
  | ended (how : Ending)
  /-- Its completion events are set off. -/
  | rewarded
deriving DecidableEq, Repr

/-- Something that has happened, and to which objective of which player. -/
structure JournalEntry where
  player : PlayerId
  objective : ObjectId
  epoch : Nat
  what : Happening
deriving DecidableEq, Repr

/-- What has happened to objectives, newest first. -/
abbrev Journal := List JournalEntry

/-- What has happened under an epoch, oldest first. -/
def Journal.under (j : Journal) (epoch : Nat) : List JournalEntry :=
  (j.filter (·.epoch = epoch)).reverse

/-- How often something has happened under an epoch. -/
def Journal.times (j : Journal) (epoch : Nat) (what : Happening) : Nat :=
  (j.under epoch).countP (·.what = what)

end Questbook
