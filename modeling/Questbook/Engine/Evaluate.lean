/-
Questbook/Engine/Evaluate.lean

Running definitions for a player.

Conditions and events are finite trees, and what runs them follows the tree.  Two things lead out
of it: the completion of an objective fires events that its definition does not contain, and a
host's script may ask the engine for anything.  Both go through `Nested`, what the engine as a
whole does one level further down.

Failures end here.  A condition that fails counts as false, negated or not; an event that fails has
still taken place, and the next one follows; a variable that fails shows nothing.
-/
import Questbook.Engine.State

namespace Questbook

/-- The engine one level further down. -/
structure Nested where
  /-- Fire events one after another. -/
  fire : PlayerId → List EventRef → Act Unit
  /-- Carry out a request of a script. -/
  ask : PlayerId → (r : Request) → Act r.Answer

/-- Run a script against the answers of the engine. -/
def Script.run {α : Type} (ask : (r : Request) → Act r.Answer) : Script α → Eval α
  | .done a => pure a
  | .fail e => throw e
  | .ask r next => do
    let answer ← ask r
    (next answer).run ask

/-! ### Variables -/

/-- A location as a variable shows it. -/
def LocationPart.show : LocationPart → Location → String
  | full, l => l.text
  | xyz, l => Text.joined " " [Decimal.plain l.x, Decimal.plain l.y, Decimal.plain l.z]
  | x, l => Decimal.plain l.x
  | y, l => Decimal.plain l.y
  | z, l => Decimal.plain l.z
  | world, l => l.world

/-- The value of a variable. -/
def Variable.value (n : Nested) (p : PlayerId) : Variable → Eval String
  | balance => Decimal.plain <$> Eval.balance p
  | missing target => do
    let money ← Eval.balance p
    pure (Decimal.plain (target - money))
  | objective id property => do pure (((← get).property? p id property).getD "")
  | player .name => Avatar.name <$> Eval.avatar p
  | player .uuid => pure p.text
  | location field => do pure (field.show (← Eval.avatar p).location)
  | custom script => script.run (n.ask p)

/-- The value of a variable where it is shown: nothing if it fails. -/
def Variable.shown (n : Nested) (p : PlayerId) (v : Variable) : Act String := do
  match ← Act.attempt (v.value n p) with
  | .ok text => pure text
  | .error _ => pure ""

/-- The value of a number. -/
def Quantity.resolve (n : Nested) (p : PlayerId) : Quantity → Eval Float
  | constant x => pure x
  | var v => do
    let text ← v.target.value n p
    match Decimal.finite? (Text.trim text) with
    | some x => pure x
    | none => throw (.notANumber v.id text)

/-- A text with the values of its references. -/
def RichText.render (n : Nested) (p : PlayerId) : RichText → Act String
  | [] => pure ""
  | .literal text :: rest => do pure (text ++ (← RichText.render n p rest))
  | .reference v :: rest => do
    let text ← v.target.shown n p
    pure (text ++ (← RichText.render n p rest))

/-! ### Conditions -/

/-- Whether a player has so many of some items, each entry counted for itself. -/
def holdsAll (p : PlayerId) : List Stack → Eval Bool
  | [] => pure true
  | (item, amount) :: rest => do
    if (← Eval.avatar p).count item.key < amount then pure false else holdsAll p rest

mutual

/-- Whether a condition holds. -/
def Condition.check (n : Nested) (p : PlayerId) : Condition → Eval Bool
  | .sneaking => Avatar.sneaking <$> Eval.avatar p
  | .facing direction => do pure ((← Eval.avatar p).location.direction = direction)
  | .compound any parts => Condition.checkParts n p any parts
  | .holding items => holdsAll p items
  | .objective id => do pure ((← get).progress.isActive p id)
  | .chance probability => do
    let limit ← probability.resolve n p
    pure (decide ((← Eval.draw) < limit))
  | .stat name level exactly => do
    Eval.needStats
    let actual := ((← Eval.avatar p).stats.find? name).getD 0
    pure (if exactly then actual == level else decide (level ≤ actual))
  | .money amount => do
    let amount ← amount.resolve n p
    let money ← Eval.balance p
    pure (decide (amount ≤ money))
  | .custom script => script.run (n.ask p)

/-- The first of the parts that comes out as `any` decides; without one it is the other way. -/
def Condition.checkParts (n : Nested) (p : PlayerId) (any : Bool) :
    List (Check Condition) → Eval Bool
  | [] => pure !any
  | ⟨_, negated, target⟩ :: rest => do
    let met ← target.check n p
    if (met != negated) = any then pure any else Condition.checkParts n p any rest

end

/-- Whether a condition that may be negated holds. -/
def Check.evaluate (n : Nested) (p : PlayerId) (c : ConditionRef) : Eval Bool := do
  let met ← c.target.check n p
  pure (met != c.negated)

/-- Whether a condition holds, false if it fails. -/
def Check.holds (n : Nested) (p : PlayerId) (c : ConditionRef) : Act Bool := do
  match ← Act.attempt (c.evaluate n p) with
  | .ok met => pure met
  | .error _ => pure false

/-- Whether all conditions hold, up to the first that does not. -/
def allHold (n : Nested) (p : PlayerId) : List ConditionRef → Act Bool
  | [] => pure true
  | c :: rest => do
    if ← c.holds n p then allHold n p rest else pure false

end Questbook
