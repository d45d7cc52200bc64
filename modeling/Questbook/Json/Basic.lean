/-
Questbook/Json/Basic.lean

JSON values.  Whole numbers and real numbers are different values even where they are equal as
numbers, because decoding tells them apart: a whole number may stand where a real one is wanted,
but not the other way round.  The fields of an object stand in ascending order of their names,
each name once.
-/
import Questbook.Text.Words

namespace Questbook

/-- A JSON value. -/
inductive Json where
  | null
  | bool (b : Bool)
  | whole (n : Int)
  | real (x : Float)
  | text (s : String)
  | list (items : List Json)
  | record (fields : List (String × Json))
deriving Inhabited

namespace Json

/-- Whether a value is null. -/
def isNull : Json → Bool
  | null => true
  | _ => false

/-- Set a field among fields in ascending order. -/
def setField (name : String) (value : Json) : List (String × Json) → List (String × Json)
  | [] => [(name, value)]
  | (n, v) :: rest =>
    if n = name then (name, value) :: rest
    else if name < n then (name, value) :: (n, v) :: rest
    else (n, v) :: setField name value rest

/-- The object with the given fields; of fields with one name the last counts. -/
def ofFields (fields : List (String × Json)) : Json :=
  .record (fields.foldl (fun acc f => setField f.1 f.2 acc) [])

/-- The value of a field. -/
def field? (name : String) (fields : List (String × Json)) : Option Json :=
  (fields.find? (·.1 = name)).map Prod.snd

end Json

end Questbook
