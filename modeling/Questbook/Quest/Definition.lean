/-
Questbook/Quest/Definition.lean

Built definitions.

A definition refers to others through references that hold the built definition itself beside its
identifier.  So conditions and events are finite trees, a reference can never dangle, and a
definition goes on working as it was built when the packages are replaced.  Objectives are the
exception: they start and complete one another in circles, and are referred to by name.
-/
import Questbook.Line.Argument
import Questbook.Quest.Script
import Questbook.Table
import Questbook.Template
import Questbook.World.GameEvent
import Questbook.World.Thing

namespace Questbook

/-- A built definition and its name. -/
structure Ref (α : Type) where
  id : ObjectId
  target : α

/-! ### Variables -/

/-- What a `player` variable shows. -/
inductive PlayerFact where
  | name
  | uuid
deriving DecidableEq, Repr

/-- What a `location` variable shows. -/
inductive LocationPart where
  | full
  | xyz
  | x
  | y
  | z
  | world
deriving DecidableEq, Repr

/-- A text of a player. -/
inductive Variable where
  | balance
  /-- How much money is missing to a target. -/
  | missing (target : Float)
  | objective (id : ObjectId) (property : String)
  | player (field : PlayerFact)
  | location (field : LocationPart)
  | custom (script : Script String)

/-- A reference to a variable. -/
abbrev VariableRef := Ref Variable

/-- Text with references to variables. -/
abbrev RichText := List (Template.Segment VariableRef)

/-- Whether a text has references in it. -/
def RichText.hasVariables (t : RichText) : Bool :=
  t.any fun
    | .literal _ => false
    | .reference _ => true

/-- A number: a constant, or the value of a variable at the time. -/
inductive Quantity where
  | constant (x : Float)
  | var (v : VariableRef)

/-- An item and how many of it. -/
abbrev Stack := Item × Nat

/-! ### Conditions -/

/-- A reference to a definition that may be negated. -/
structure Check (α : Type) where
  id : ObjectId
  negated : Bool
  target : α

/-- A truth of a player. -/
inductive Condition where
  | sneaking
  | facing (direction : Direction)
  /-- One of the parts holds, or all of them. -/
  | compound (any : Bool) (parts : List (Check Condition))
  | holding (items : List Stack)
  | objective (id : ObjectId)
  | chance (probability : Quantity)
  | stat (name : String) (level : Float) (exactly : Bool)
  | money (amount : Quantity)
  | custom (script : Script Bool)

/-- A reference to a condition. -/
abbrev ConditionRef := Check Condition

/-! ### Events -/

/-- What a `lever` event does to its lever. -/
inductive Switch where
  | on
  | off
  | toggle
deriving DecidableEq, Repr

/-- What an `objective` event does with its objective. -/
inductive ObjectiveChange where
  | start
  | cancel
  | complete
deriving DecidableEq, Repr

/-- Something that takes place only if its conditions hold. -/
structure Gated (α : Type) where
  conditions : List ConditionRef
  content : α

/-- A change for a player. -/
inductive Action where
  | lever (spot : Location) (switch : Switch)
  /-- Fire other events, at once or some ticks later. -/
  | folder (delay : Nat) (events : List (Ref (Gated Action)))
  | objective (action : ObjectiveChange) (id : ObjectId)
  | notify (channel : Channel) (text : RichText)
  | give (items : List Stack)
  | take (items : List Stack)
  | money (amount : Quantity)
  | custom (script : Script Unit)

/-- An event: an action behind its gate. -/
abbrev Event := Gated Action

/-- A reference to an event. -/
abbrev EventRef := Ref Event

/-! ### Objectives -/

/-- A check that is put off to the next tick. -/
inductive Recheck where
  /-- Whether the projectile, where it is by then or else where it was reported, is in range. -/
  | landing (target : Location) (range : Quantity) (projectile : String) (reported : Location)
  | custom (script : Script Bool)

/-- What a goal makes of a game event. -/
inductive Outcome where
  | ignored
  | progressed
  | satisfied
  | deferred (check : Recheck)

/-- A goal of a host's own, with progress of its own shape. -/
structure CustomGoal where
  initial : Json
  accepts : Json → Bool
  /-- The progress afterwards and what the event was to the goal. -/
  handle : Json → GameEvent → Script (Json × Outcome)
  property : String → Json → Option String

/-- What a player has to do. -/
inductive Goal where
  /-- Land an arrow close to a target. -/
  | arrow (target : Location) (range : Quantity)
  /-- Walk close to a target. -/
  | reach (target : Location) (range : Quantity)
  /-- Kill a number of entities of certain types. -/
  | kill (entities : List String) (amount : Nat)
  | custom (goal : CustomGoal)

/-- An objective: a goal, the conditions that gate its completion, and what completion fires. -/
structure Objective where
  id : ObjectId
  goal : Goal
  conditions : List ConditionRef
  events : List EventRef

/-! ### Conversations -/

/-- A line of an NPC or a reply of the player, and where it leads. -/
structure TalkOption where
  text : RichText
  conditions : List ConditionRef
  events : List EventRef
  pointers : List String

/-- A conversation: a graph of lines and replies. -/
structure Conversation where
  id : ObjectId
  quester : RichText
  first : List String
  screen : Option String
  finalEvents : List EventRef
  npcOptions : Table String TalkOption
  playerOptions : Table String TalkOption

/-! ### By kind -/

/-- The definitions of a kind. -/
def Kind.Def : Kind → Type
  | condition => Condition
  | event => Event
  | objective => Objective
  | var => Variable
  | item => Item
  | conversation => Conversation

/-- The built definitions, by kind and identifier. -/
structure Catalogue where
  conditions : Table ObjectId Condition
  events : Table ObjectId Event
  objectives : Table ObjectId Objective
  vars : Table ObjectId Variable
  items : Table ObjectId Item
  conversations : Table ObjectId Conversation

namespace Catalogue

/-- The catalogue without definitions. -/
def empty : Catalogue := ⟨∅, ∅, ∅, ∅, ∅, ∅⟩

instance : Inhabited Catalogue := ⟨empty⟩

/-- The built definitions of a kind. -/
def table (c : Catalogue) : (k : Kind) → Table ObjectId k.Def
  | .condition => c.conditions
  | .event => c.events
  | .objective => c.objectives
  | .var => c.vars
  | .item => c.items
  | .conversation => c.conversations

/-- The definition of a kind with an identifier. -/
def find? (c : Catalogue) (k : Kind) (id : ObjectId) : Option k.Def := (c.table k).find? id

/-- Add a definition. -/
def add (c : Catalogue) : (k : Kind) → ObjectId → k.Def → Catalogue
  | .condition, id, d => { c with conditions := c.conditions.insert id d }
  | .event, id, d => { c with events := c.events.insert id d }
  | .objective, id, d => { c with objectives := c.objectives.insert id d }
  | .var, id, d => { c with vars := c.vars.insert id d }
  | .item, id, d => { c with items := c.items.insert id d }
  | .conversation, id, d => { c with conversations := c.conversations.insert id d }

/-- The identifiers of a kind, in ascending order. -/
def ids (c : Catalogue) (k : Kind) : List ObjectId := ObjectId.sorted (c.table k).keys

theorem find?_add_self (c : Catalogue) (k : Kind) (id : ObjectId) (d : k.Def) :
    (c.add k id d).find? k id = some d := by
  cases k <;> exact Table.find?_insert_self _ _ _

theorem find?_add_of_ne (c : Catalogue) {k k' : Kind} {id id' : ObjectId} (d : k.Def)
    (h : (k, id) ≠ (k', id')) : (c.add k id d).find? k' id' = c.find? k' id' := by
  cases k <;> cases k' <;> first
    | rfl
    | exact Table.find?_insert_of_ne _ _ fun hid => h (by rw [hid])

end Catalogue

end Questbook
