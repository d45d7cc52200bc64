/-
Questbook/Quest/Registry.lean

The keywords of definitions and the names of screens.

A registry says for each kind and keyword how a definition is drafted from its line.  Keywords are
told apart by letter case, screens are not.  A keyword is registered once; one whose provider is
missing is registered as unavailable, and refuses every line.  Around the keyword's own draft an
event reads its `conditions:`, and an objective its `conditions:` and `events:`.
-/
import Questbook.Quest.Plan
import Questbook.Talk.Screen

namespace Questbook

/-- What a keyword of a kind drafts; items and conversations have no keywords. -/
def Kind.Content : Kind → Type
  | condition => Condition
  | event => Action
  | objective => Goal
  | var => Variable
  | item => Unit
  | conversation => Unit

/-- The keywords of each kind, and the screens. -/
structure Registry where
  conditions : Table String (LineDraft Condition)
  events : Table String (LineDraft Action)
  goals : Table String (LineDraft Goal)
  vars : Table String (LineDraft Variable)
  screens : Table String Screen.Style

namespace Registry

/-- The registry without keywords and screens. -/
def empty : Registry := ⟨∅, ∅, ∅, ∅, ∅⟩

instance : Inhabited Registry := ⟨empty⟩

/-- Whether a kind has a keyword. -/
def hasKeyword (r : Registry) (k : Kind) (keyword : String) : Bool :=
  match k with
  | .condition => r.conditions.contains keyword
  | .event => r.events.contains keyword
  | .objective => r.goals.contains keyword
  | .var => r.vars.contains keyword
  | .item => false
  | .conversation => false

/-- Register a keyword that is new for its kind. -/
def register (r : Registry) (k : Kind) (keyword : String) (draft : LineDraft k.Content) :
    Except RegisterError Registry :=
  if r.hasKeyword k keyword then .error (.duplicate k keyword)
  else .ok <| match k, draft with
    | .condition, d => { r with conditions := r.conditions.insert keyword d }
    | .event, d => { r with events := r.events.insert keyword d }
    | .objective, d => { r with goals := r.goals.insert keyword d }
    | .var, d => { r with vars := r.vars.insert keyword d }
    | .item, _ => r
    | .conversation, _ => r

/-- Register a keyword whose provider is missing. -/
def withhold (r : Registry) (k : Kind) (keyword feature : String) :
    Except RegisterError Registry :=
  r.register k keyword (Draft.fail (.featureUnavailable feature))

/-- The screen with a name. -/
def screen? (r : Registry) (name : String) : Option Screen.Style :=
  r.screens.find? (Text.lower name)

/-- Register a screen under a name that is new. -/
def registerScreen (r : Registry) (name : String) (style : Screen.Style) :
    Except RegisterError Registry :=
  let key := Text.lower name
  if r.screens.contains key then .error (.duplicateScreen key)
  else .ok { r with screens := r.screens.insert key style }

/-! ### Drafting a definition -/

/-- The draft that a line's keyword has in a table. -/
def byKeyword {α : Type} (k : Kind) (drafts : Table String (LineDraft α)) : LineDraft α := fun l =>
  match drafts.find? l.keyword with
  | some draft => draft l
  | none => .fail (.unknownKeyword k l.keyword) l

/-- Refuse a line whose keyword is not in a table, before anything of it is read. -/
def known {α : Type} (k : Kind) (drafts : Table String (LineDraft α)) : LineDraft Unit := fun l =>
  if drafts.contains l.keyword then .done () l else .fail (.unknownKeyword k l.keyword) l

/-- The conditions behind `conditions:`. -/
def gate : LineDraft (List ConditionRef) := do
  let raws ← Draft.read (Line.optionalList "conditions")
  Draft.each Draft.condition raws

/-- A condition of a line. -/
def condition (r : Registry) : LineDraft Condition := byKeyword .condition r.conditions

/-- An event of a line: its gate first, then its action. -/
def event (r : Registry) : LineDraft Event := do
  known .event r.events
  let conditions ← gate
  let content ← byKeyword .event r.events
  pure ⟨conditions, content⟩

/-- An objective of a line: its gate, its completion events, then its goal. -/
def objective (r : Registry) (id : ObjectId) : LineDraft Objective := do
  known .objective r.goals
  let conditions ← gate
  let raws ← Draft.read (Line.optionalList "events")
  let events ← Draft.each Draft.event raws
  let goal ← byKeyword .objective r.goals
  pure ⟨id, goal, conditions, events⟩

/-- A variable of a line. -/
def var (r : Registry) : LineDraft Variable := byKeyword .var r.vars

/-- An item of a line: the keyword is its material, and underscores in its name are spaces. -/
def item : LineDraft Item := do
  let name ← Draft.read (Line.optional "name")
  let material ← Draft.read (do pure (← get).keyword)
  pure ⟨Text.lower material, name.map (Text.substitute '_' ' ')⟩

end Registry

end Questbook
