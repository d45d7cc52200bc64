/-
Questbook/Quest/Goal.lean

The progress of a goal: where it begins, what counts as progress of it, and what it shows.

Progress is stored as JSON.  Aiming and walking have none; killing counts down what is left; a
host's goal has its own.  Progress that a goal does not accept cannot be used with it.
-/
import Questbook.Quest.Definition
import Questbook.World.Decode

namespace Questbook

/-! ### Counting down -/

/-- How many are left to kill, from stored progress. -/
def killsLeft? (data : Json) : Option Nat := do
  match ← Json.members? openRecord ["left"] data with
  | [left] => left.required (Json.natural? Decimal.maxUnsigned32)
  | _ => none

/-- Stored progress of a goal with so many left to kill. -/
def killData (left : Nat) : Json := .ofFields [("left", .whole left)]

/-- Whether a kill counts: the names of entities are told apart by letter case only outside
ASCII. -/
def countsKill (entities : List String) (entity : String) : Bool :=
  entities.any (Text.sameFolded · entity)

/-- A named value of a goal to kill `amount` entities. -/
def killProperty? (amount left : Nat) (name : String) : Option String :=
  match Text.lower name with
  | "left" => some (toString left)
  | "amount" => some (toString (amount - min left amount))
  | "total" => some (toString amount)
  | _ => none

/-! ### Any goal -/

namespace Goal

/-- The progress of a goal that has just begun. -/
def initial : Goal → Json
  | arrow _ _ => .null
  | reach _ _ => .null
  | kill _ amount => killData amount
  | custom g => g.initial

/-- Whether a goal can go on from stored progress. -/
def accepts : Goal → Json → Bool
  | arrow _ _, data => data.isNull
  | reach _ _, data => data.isNull
  | kill _ _, data => (killsLeft? data).isSome
  | custom g, data => g.accepts data

/-- A named value of a goal's progress. -/
def property? : Goal → String → Json → Option String
  | arrow _ _, _, _ => none
  | reach _ _, _, _ => none
  | kill _ amount, name, data => do killProperty? amount (← killsLeft? data) name
  | custom g, name, data => g.property name data

end Goal

end Questbook
