/-
Questbook/Json/Decode.lean

Decoding JSON values into records.

A record is given as an object, or as a list of its members in order.  In an object, members that
are not asked for are passed over unless the record is closed; in a list, surplus items fail
unless the format says otherwise.  A member that is missing from an object counts as null where
null is allowed; one that is missing from a list does not.
-/
import Questbook.Decimal.Plain
import Questbook.Json.Basic

namespace Questbook.Json

variable {α : Type}

/-! ### Single values -/

/-- A string. -/
def text? : Json → Option String
  | .text s => some s
  | _ => none

/-- A truth value. -/
def bool? : Json → Option Bool
  | .bool b => some b
  | _ => none

/-- A whole number from zero to `limit`. -/
def natural? (limit : Nat) : Json → Option Nat
  | .whole n => if 0 ≤ n ∧ n ≤ limit then some n.toNat else none
  | _ => none

/-- A 64-bit real number, which may be written as a whole one. -/
def real? : Json → Option Float
  | .whole n => some (Decimal.ofInt n)
  | .real x => some x
  | _ => none

/-- A 32-bit real number, which may be written as a whole one. -/
def real32? : Json → Option Float32
  | .whole n => some (Decimal.ofInt32 n)
  | .real x => some x.toFloat32
  | _ => none

/-- A list whose items all decode. -/
def listOf? (f : Json → Option α) : Json → Option (List α)
  | .list items => items.mapM f
  | _ => none

/-- An object whose values all decode, as pairs in ascending order of the names. -/
def mapOf? (f : Json → Option α) : Json → Option (List (String × α))
  | .record fields => fields.mapM fun e => (f e.2).map (e.1, ·)
  | _ => none

/-! ### Records -/

/-- How a member of a record was given. -/
inductive Given where
  | value (j : Json)
  /-- The object has no such member. -/
  | absent
  /-- The list ends before it. -/
  | cut

/-- What a record allows beyond its members. -/
structure Shape where
  /-- Members with other names are an error. -/
  closed : Bool := false
  /-- Items after the last member are passed over. -/
  surplus : Bool := false

/-- The members of a record in the order of `names`. -/
def members? (shape : Shape) (names : List String) : Json → Option (List Given)
  | .record fields =>
    if shape.closed ∧ ¬ fields.all (fun f => names.contains f.1) then none
    else some (names.map fun n => ((field? n fields).map Given.value).getD .absent)
  | .list items =>
    if names.length < items.length ∧ ¬ shape.surplus then none
    else some ((items.take names.length).map Given.value ++
      List.replicate (names.length - items.length) Given.cut)
  | _ => none

/-- A member that has to be there. -/
def Given.required (f : Json → Option α) : Given → Option α
  | .value j => f j
  | _ => none

/-- A member that may be null or left out of an object. -/
def Given.nullable (f : Json → Option α) : Given → Option (Option α)
  | .value .null => some none
  | .value j => (f j).map some
  | .absent => some none
  | .cut => none

/-- A member with a value of its own where it is left out. -/
def Given.orElse (fallback : α) (f : Json → Option α) : Given → Option α
  | .value j => f j
  | _ => some fallback

end Questbook.Json
