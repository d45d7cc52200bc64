/-
Questbook/Quest/Vocabulary.lean

The built-in keywords.

Each keyword is a draft: what it reads from its line, in order, and what it makes of it.  Keywords
that need an integration, money or stats, are unavailable where the integration is missing.
-/
import Questbook.Quest.Registry

namespace Questbook

/-- Which integrations exist. -/
structure Integrations where
  economy : Bool
  stats : Bool
deriving DecidableEq, Repr

namespace Vocabulary

open Draft

/-! ### Conditions -/

/-- `facing DIRECTION` -/
def facing : LineDraft Condition := .facing <$> read Line.nextChoice

/-- `and LIST` and `or LIST` -/
def compound (any : Bool) : LineDraft Condition := do
  let raws ← read Line.nextList
  .compound any <$> each condition raws

/-- `item ITEMS` -/
def holding : LineDraft Condition := .holding <$> nextStacks

/-- `objective NAME` -/
def objectiveActive : LineDraft Condition := do
  let raw ← read Line.next
  .objective <$> objective raw

/-- `chance NUMBER` -/
def chance : LineDraft Condition := .chance <$> nextQuantity

/-- `stat NAME LEVEL [equal]` -/
def stat : LineDraft Condition := do
  let name ← read Line.next
  let level ← read Line.nextNumber
  let exactly ← read (Line.flag "equal")
  pure (.stat name level exactly)

/-- `money NUMBER` -/
def moneyAtLeast : LineDraft Condition := .money <$> nextQuantity

/-! ### Events -/

instance : Choice Switch := ⟨[("on", .on), ("off", .off), ("toggle", .toggle)]⟩

instance : Choice ObjectiveChange :=
  ⟨[("start", .start), ("add", .start), ("cancel", .cancel), ("remove", .cancel),
    ("complete", .complete), ("finish", .complete)]⟩

instance : Choice Channel := ⟨[("chat", .chat), ("actionbar", .actionBar), ("title", .title)]⟩

/-- `lever LOCATION SWITCH` -/
def lever : LineDraft Action := do
  let spot ← read Line.nextLocation
  let switch ← read Line.nextChoice
  pure (.lever spot switch)

/-- The number of ticks behind `delay:`, none where it is missing. -/
def delay : Line.Reader Nat := do
  match ← Line.optional "delay" with
  | none => pure 0
  | some raw =>
    match Decimal.unsigned? Decimal.maxUnsigned64 raw with
    | some n => pure n
    | none => Line.failHere (.invalidNumber raw "tick count")

/-- `folder LIST [delay:TICKS]` -/
def folder : LineDraft Action := do
  let ticks ← read delay
  let raws ← read Line.nextList
  .folder ticks <$> each event raws

/-- `objective ACTION NAME` -/
def changeObjective : LineDraft Action := do
  let action ← read Line.nextChoice
  let raw ← read Line.next
  .objective action <$> objective raw

/-- The channel behind `io:`, the chat where it is missing. -/
def channel : Line.Reader Channel := do
  match ← Line.optional "io" with
  | none => pure .chat
  | some raw => Line.choice raw

/-- `notify TEXT [io:CHANNEL]` -/
def notify : LineDraft Action := do
  let place ← read channel
  let message ← read Line.rest
  .notify place <$> richText message

/-- `give ITEMS` -/
def give : LineDraft Action := .give <$> nextStacks

/-- `take ITEMS` -/
def take : LineDraft Action := .take <$> nextStacks

/-- `money NUMBER` -/
def transfer : LineDraft Action := .money <$> nextQuantity

/-! ### Objectives -/

/-- `arrow LOCATION RANGE` -/
def arrow : LineDraft Goal := do
  let target ← read Line.nextLocation
  .arrow target <$> nextQuantity

/-- `location LOCATION RANGE` -/
def reach : LineDraft Goal := do
  let target ← read Line.nextLocation
  .reach target <$> nextQuantity

/-- `mobkill ENTITIES AMOUNT` -/
def kill : LineDraft Goal := do
  let entities ← read Line.nextList
  if entities.isEmpty then fail (.invalid "no entity types given")
  else
    let amount ← read Line.nextPositive
    pure (.kill (entities.map Text.lower) amount)

/-! ### Variables -/

instance : Choice PlayerFact := ⟨[("name", .name), ("uuid", .uuid)]⟩

instance : Choice LocationPart :=
  ⟨[("xyz", .xyz), ("x", .x), ("y", .y), ("z", .z), ("world", .world)]⟩

/-- The target of a `left:NUMBER` argument. -/
def missingTarget? (token : String) : Option Float :=
  match Text.cut ':' token with
  | some (key, value) => if Text.sameFolded key "left" then Decimal.finite? value else none
  | none => none

/-- `money amount` and `money left:NUMBER` -/
def balance : LineDraft Variable := do
  let token ← read Line.next
  if Text.sameFolded token "amount" then pure .balance
  else
    match missingTarget? token with
    | some target => pure (.missing target)
    | none =>
      read (Line.failHere
        (.invalid ("expected 'amount' or 'left:<number>', got '" ++ token ++ "'")))

/-- `objective NAME PROPERTY` -/
def objectiveProperty : LineDraft Variable := do
  let raw ← read Line.next
  let id ← objective raw
  .objective id <$> read Line.next

/-- `player FIELD` -/
def player : LineDraft Variable := .player <$> read Line.nextChoice

/-- `location [FIELD]` -/
def location : LineDraft Variable := do
  let bare ← read (do pure (← get).isBare)
  if bare then pure (.location .full) else .location <$> read Line.nextChoice

/-! ### The registry -/

/-- The screens, by name. -/
def screens : List (String × Screen.Style) :=
  [("simple", .chat none), ("paged", .chat (some 3)), ("menu", .menu false),
    ("combined", .menu true)]

/-- A keyword's draft, or a refusal where its integration is missing. -/
def given {α : Type} (present : Bool) (feature : String) (draft : LineDraft α) : LineDraft α :=
  if present then draft else fail (.featureUnavailable feature)

/-- The registry of the built-in keywords and screens. -/
def registry (i : Integrations) : Registry where
  conditions := .ofList
    [("sneak", pure .sneaking), ("facing", facing), ("and", compound false), ("or", compound true),
      ("item", holding), ("objective", objectiveActive), ("chance", chance),
      ("stat", given i.stats "stats" stat), ("money", given i.economy "economy" moneyAtLeast)]
  events := .ofList
    [("lever", lever), ("folder", folder), ("objective", changeObjective), ("notify", notify),
      ("give", give), ("take", take), ("money", given i.economy "economy" transfer)]
  goals := .ofList [("arrow", arrow), ("location", reach), ("mobkill", kill)]
  vars := .ofList
    [("money", given i.economy "economy" balance), ("objective", objectiveProperty),
      ("player", player), ("location", location)]
  screens := .ofList screens

end Vocabulary

end Questbook
