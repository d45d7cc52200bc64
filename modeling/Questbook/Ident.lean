/-
Questbook/Ident.lean

Names of things.  A definition is named by its package and its name in that package, written
`package.name`; inside a package the first part may be left out.  A package name has no dot, so
the first dot is the one that separates.  A player is named by whatever text the host uses.
-/
import Questbook.Text.Words

namespace Questbook

/-! ### Kinds -/

/-- What a definition defines. -/
inductive Kind where
  | condition
  | event
  | objective
  | var
  | item
  | conversation
deriving DecidableEq, Repr

namespace Kind

/-- Every kind, in the order in which a name is looked for under another one. -/
def all : List Kind := [condition, event, objective, var, item, conversation]

/-- The kind as a word in a message. -/
def word : Kind → String
  | condition => "condition"
  | event => "event"
  | objective => "objective"
  | var => "variable"
  | item => "item"
  | conversation => "conversation"

/-- The kind as a title. -/
def title : Kind → String
  | condition => "Condition"
  | event => "Event"
  | objective => "Objective"
  | var => "Variable"
  | item => "Item"
  | conversation => "Conversation"

/-- The kind that a word names. -/
def ofWord? (w : String) : Option Kind := all.find? (·.word = w)

theorem mem_all (k : Kind) : k ∈ all := by cases k <;> decide

end Kind

/-! ### Definitions -/

/-- The name of a definition. -/
structure ObjectId where
  package : String
  name : String
deriving DecidableEq, Repr, Inhabited

namespace ObjectId

/-- The name written out. -/
def text (id : ObjectId) : String := id.package ++ "." ++ id.name

/-- The definition that `raw` means when it is written in package `current`.  A dot in front means
the current package too. -/
def qualify (raw current : String) : ObjectId :=
  match Text.cut '.' raw with
  | some (package, name) => if package = "" then ⟨current, name⟩ else ⟨package, name⟩
  | none => ⟨current, raw⟩

/-- The definition with a name written out in full: both parts have to be there. -/
def parse? (s : String) : Option ObjectId :=
  match Text.cut '.' s with
  | some (package, name) => if package = "" ∨ name = "" then none else some ⟨package, name⟩
  | none => none

/-- The message for a text that `parse?` refuses. -/
def malformed (s : String) : String := "'" ++ s ++ "' is not a package-qualified identifier"

/-- The order of identifiers: by package, then by name. -/
def atMost (a b : ObjectId) : Bool :=
  if a.package = b.package then Text.atMost a.name b.name else Text.atMost a.package b.package

/-- A list of identifiers in ascending order. -/
def sorted (l : List ObjectId) : List ObjectId := l.mergeSort atMost

end ObjectId

/-! ### Players -/

/-- The identity of a player. -/
structure PlayerId where
  text : String
deriving DecidableEq, Repr, Inhabited

end Questbook
