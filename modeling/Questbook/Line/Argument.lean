/-
Questbook/Line/Argument.lean

Arguments with a meaning: numbers, locations and choices among names.
-/
import Questbook.Line.Basic
import Questbook.World.Facing

namespace Questbook

/-- Values that an argument chooses by name, in any letter case.  A value may have several names;
messages list all of them in this order. -/
class Choice (α : Type) where
  options : List (String × α)

namespace Choice

variable {α : Type} [Choice α]

/-- The value with a name. -/
def ofName? (token : String) : Option α :=
  ((Choice.options (α := α)).find? fun o => Text.sameFolded o.1 token).map Prod.snd

/-- The names to choose from. -/
def names (α : Type) [Choice α] : List String := (Choice.options (α := α)).map Prod.fst

end Choice

instance : Choice Direction :=
  ⟨[("north", .north), ("east", .east), ("south", .south), ("west", .west), ("up", .up),
    ("down", .down)]⟩

namespace Line

/-- The value of a token that names a choice, or an error at the token handed out last. -/
def choice {α : Type} [Choice α] (token : String) : Reader α :=
  match Choice.ofName? token with
  | some a => pure a
  | none => failHere (.invalidChoice token (Choice.names α))

/-- The next argument as a choice. -/
def nextChoice {α : Type} [Choice α] : Reader α := next >>= choice

/-- The next argument as a 32-bit signed number. -/
def nextInt : Reader Int := nextAs "integer" (Decimal.signed? (-2147483648) 2147483647)

/-- The next argument as a 32-bit number above zero. -/
def nextPositive : Reader Nat := do
  let n ← nextAs "positive integer" (Decimal.unsigned? Decimal.maxUnsigned32)
  if n = 0 then failHere (.invalidNumber "0" "positive integer") else pure n

/-- The next argument as a finite number.  An infinite one is named by its value. -/
def nextNumber : Reader Float := do
  let x ← nextAs "number" Decimal.real?
  if x.isFinite then pure x else failHere (.invalidNumber (Decimal.plain x) "finite number")

/-- The next argument as a location. -/
def nextLocation : Reader Location := do
  let token ← next
  match Location.parse token with
  | .ok l => pure l
  | .error reason => failHere (.invalidLocation token reason)

end Line

end Questbook
