/-
Questbook/Quest/Plan.lean

How a definition is built.

A `Plan` is a finished definition, a failure, or a reference together with what to do once the
referenced definition is there.  It does not say how references are resolved, and it cannot go on
without one: where a reference fails, so does the plan.  A plan that reads a line leaves the line
behind at each of these points, so that it can be seen how far it came.

A `Draft` is a plan that depends on what it reads from; a `LineDraft` reads the arguments of a line
and makes references, in order.
-/
import Questbook.Quest.Definition

namespace Questbook

/-! ### References -/

/-- A reference as it is written in a definition. -/
inductive Reference where
  /-- A condition; an exclamation mark in front negates it. -/
  | condition (raw : String)
  | event (raw : String)
  | var (raw : String)
  | item (raw : String)
  /-- An objective, which has to be declared and need not be built. -/
  | objective (raw : String)
deriving DecidableEq, Repr

/-- What a reference stands for once it is resolved. -/
def Reference.Target : Reference → Type
  | condition _ => ConditionRef
  | event _ => EventRef
  | var _ => VariableRef
  | item _ => Item
  | objective _ => ObjectId

/-- The text of a reference without an exclamation mark in front, and whether there was one. -/
def stripNegation (raw : String) : Bool × String :=
  match raw.toList with
  | '!' :: rest => (true, String.ofList rest)
  | _ => (false, raw)

/-! ### Plans -/

/-- A construction that asks for references on its way; `σ` is what it has read from. -/
inductive Plan (σ α : Type) where
  | done (a : α) (s : σ)
  | fail (e : BuildError) (s : σ)
  | refer (r : Reference) (s : σ) (next : r.Target → Plan σ α)

namespace Plan

variable {σ τ α β : Type}

/-- Go on from the answer of a plan. -/
def bind : Plan σ α → (α → σ → Plan σ β) → Plan σ β
  | done a s, f => f a s
  | fail e s, _ => fail e s
  | refer r s next, f => refer r s fun t => (next t).bind f

/-- Change the answer of a plan. -/
def map (f : α → β) : Plan σ α → Plan σ β
  | done a s => done (f a) s
  | fail e s => fail e s
  | refer r s next => refer r s fun t => (next t).map f

/-- Forget what a plan has read from. -/
def forget : Plan σ α → Plan Unit α
  | done a _ => done a ()
  | fail e _ => fail e ()
  | refer r _ next => refer r () fun t => (next t).forget

end Plan

/-! ### Drafts -/

/-- A plan that depends on what it reads from. -/
def Draft (σ α : Type) : Type := σ → Plan σ α

/-- A plan that reads the arguments of a line. -/
abbrev LineDraft (α : Type) : Type := Draft Line α

namespace Draft

variable {σ α β : Type}

instance : Monad (Draft σ) where
  pure a := fun s => .done a s
  bind d f := fun s => (d s).bind f

/-- Fail for a reason that is not in the arguments. -/
def fail (e : BuildError) : Draft σ α := fun s => .fail e s

/-- Read arguments. -/
def read (r : Line.Reader α) : LineDraft α := fun l =>
  match l.read r with
  | (.ok a, l) => .done a l
  | (.error e, l) => .fail (.parse e) l

/-- Make a reference.  Where it fails the plan fails with it: a host's own factory is taken to pass
the failure on, as the built-in ones do, and not to go on without what it has asked for. -/
def refer (r : Reference) : Draft σ r.Target := fun s => .refer r s fun t => .done t s

/-- The condition with a name. -/
def condition (raw : String) : Draft σ ConditionRef := refer (.condition raw)

/-- The event with a name. -/
def event (raw : String) : Draft σ EventRef := refer (.event raw)

/-- The variable with a name. -/
def var (raw : String) : Draft σ VariableRef := refer (.var raw)

/-- The item with a name. -/
def item (raw : String) : Draft σ Item := refer (.item raw)

/-- The objective with a name, which is only looked up. -/
def objective (raw : String) : Draft σ ObjectId := refer (.objective raw)

/-- One reference after another. -/
def each {γ : Type} (f : γ → Draft σ α) : List γ → Draft σ (List α)
  | [] => pure []
  | c :: rest => do
    let a ← f c
    let as ← each f rest
    pure (a :: as)

/-- A text with its references resolved. -/
def richText (raw : String) : Draft σ RichText :=
  each (fun
    | .literal text => pure (.literal text)
    | .reference name => .reference <$> var name) (Template.scan raw)

/-- The name between two percent signs. -/
def percentName? (token : String) : Option String :=
  match token.toList with
  | '%' :: rest =>
    match rest.reverse with
    | '%' :: name => if name.isEmpty then none else some (String.ofList name.reverse)
    | _ => none
  | _ => none

/-- The next argument as a number or a `%variable%`. -/
def nextQuantity : LineDraft Quantity := do
  let token ← read Line.next
  match percentName? token with
  | some name => .var <$> var name
  | none =>
    match Decimal.finite? token with
    | some x => pure (.constant x)
    | none => read (Line.failHere (.invalidNumber token "number or %variable%"))

/-- An entry `item` or `item:amount` of a list; one item where no amount is given. -/
def stack (entry : String) : LineDraft Stack := do
  match Text.cut ':' entry with
  | none => (·, 1) <$> item entry
  | some (name, amount) =>
    match (Decimal.unsigned? Decimal.maxUnsigned32 amount).filter (0 < ·) with
    | some n => (·, n) <$> item name
    | none => read (Line.failHere (.invalidNumber amount "positive item amount"))

/-- The next argument as a list of items with amounts, at least one. -/
def nextStacks : LineDraft (List Stack) := do
  let entries ← read Line.nextList
  if entries.isEmpty then read (Line.failHere .missingArgument)
  else each stack entries

end Draft

end Questbook
