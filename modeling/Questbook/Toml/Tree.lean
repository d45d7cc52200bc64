/-
Questbook/Toml/Tree.lean

The tables of a TOML document while it is being read.

A document is a sequence of assignments and headers.  Both walk a path of keys from a table
downwards and create what is missing; what they may walk through or define depends on how a table
came into being.  `Section` records just that: whether it was written out or only implied by a
longer path, and whether it was made by a dotted key.
-/
import Questbook.Json.Basic

namespace Questbook.Toml

mutual

/-- What stands under a key. -/
inductive Item where
  /-- A finished value, which nothing later may extend. -/
  | value (j : Json)
  | table (t : Section)
  /-- The tables of a repeated header, the last one first. -/
  | tables (ts : List Section)

/-- A table: whether only longer paths imply it, whether a dotted key made it, and its items. -/
inductive Section where
  | mk (implied dotted : Bool) (items : List (String × Item))

end

namespace Section

/-- Whether only longer paths imply the table. -/
def implied : Section → Bool
  | mk i _ _ => i

/-- Whether a dotted key made the table. -/
def dotted : Section → Bool
  | mk _ d _ => d

/-- The items of the table. -/
def items : Section → List (String × Item)
  | mk _ _ l => l

/-- A table written out by a header or as the document itself, without items yet. -/
def blank : Section := mk false false []

/-- The item under a key. -/
def item? (t : Section) (key : String) : Option Item := (t.items.find? (·.1 = key)).map Prod.snd

/-- Set the item under a key. -/
def set (t : Section) (key : String) (i : Item) : Section :=
  let others := t.items.filter (·.1 ≠ key)
  mk t.implied t.dotted (others ++ [(key, i)])

/-- Remove a key. -/
def remove (t : Section) (key : String) : Section :=
  mk t.implied t.dotted (t.items.filter (·.1 ≠ key))

/-- Change the table at the end of a path, creating the tables on the way.  A dotted path may not
go through a table that was written out; no path goes through a value. -/
def atPath (dotted : Bool) (change : Section → Option Section) :
    List String → Section → Option Section
  | [], t => change t
  | key :: rest, t =>
    match t.item? key with
    | none => do
      let below ← atPath dotted change rest (mk true dotted [])
      pure (t.set key (.table below))
    | some (.table below) =>
      if dotted ∧ ¬ below.implied then none
      else do
        let below ← atPath dotted change rest below
        pure (t.set key (.table below))
    | some (.tables (last :: earlier)) => do
      let last ← atPath dotted change rest last
      pure (t.set key (.tables (last :: earlier)))
    | some _ => none

/-- Assign a value to a key in the table at the end of a dotted path.  The table has to be one that
dotted keys made exactly when the path is not empty, and the key has to be new. -/
def assign (path : List String) (key : String) (value : Json) (t : Section) : Option Section :=
  t.atPath true (fun below =>
    if below.dotted = path.isEmpty then none
    else if (below.item? key).isSome then none
    else some (below.set key (.value value))) path

/-- The table that a header opens at the end of a path: the one that longer paths implied there, or
a new one. -/
def opened? (t : Section) (key : String) : Option Section :=
  match t.item? key with
  | none => some blank
  | some (.table below) =>
    if below.implied ∧ ¬ below.dotted then some (mk false false below.items) else none
  | some _ => none

end Section

mutual

/-- An item as a value. -/
def Item.toJson : Item → Json
  | .value j => j
  | .table t => t.toJson
  | .tables ts => .list (tablesToJson ts).reverse

/-- The tables of a repeated header as values. -/
def tablesToJson : List Section → List Json
  | [] => []
  | t :: rest => t.toJson :: tablesToJson rest

/-- A table as a value. -/
def Section.toJson : Section → Json
  | .mk _ _ items => Json.ofFields (itemsToJson items)

/-- The items of a table as fields. -/
def itemsToJson : List (String × Item) → List (String × Json)
  | [] => []
  | (k, i) :: rest => (k, i.toJson) :: itemsToJson rest

end

end Questbook.Toml
