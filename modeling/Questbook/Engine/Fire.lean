/-
Questbook/Engine/Fire.lean

Firing events.

An event takes place if its conditions hold.  What its action cannot do is skipped: the event has
then taken place all the same, as far as it got.
-/
import Questbook.Engine.Objectives

namespace Questbook

/-! ### Single actions -/

/-- The state of a lever after a switch. -/
def Switch.apply : Switch → Bool → Bool
  | on, _ => true
  | off, _ => false
  | toggle, powered => !powered

namespace Eval

/-- Switch the lever at a location; any other block is left alone. -/
def pull (spot : Location) (switch : Switch) : Eval Unit := do
  match (← get).world.block? spot with
  | none => pure ()
  | some block =>
    if block.material = "lever" then
      Act.changeWorld (·.place spot { block with powered := switch.apply block.powered })

/-- Give a player items, entry by entry.  A count that leaves its range stops the engine. -/
def give (p : PlayerId) : List Stack → Eval Unit
  | [] => pure ()
  | (item, amount) :: rest => do
    match (← Eval.avatar p).give? item.key amount with
    | none => Act.halt .overflow
    | some a => Act.changeWorld (·.join p a)
    give p rest

/-- Take items from a player, entry by entry, as many as he has. -/
def take (p : PlayerId) : List Stack → Eval Unit
  | [] => pure ()
  | (item, amount) :: rest => do
    Eval.changeAvatar p (·.take item.key amount)
    take p rest

/-- Pay a player an amount, or collect a negative one from him. -/
def transfer (p : PlayerId) (amount : Float) : Eval Unit := do
  Eval.needEconomy
  Eval.changeAvatar p fun a =>
    { a with balance := if 0 ≤ amount then a.balance + amount else a.balance - -amount }

/-- Show a player a short message. -/
def notify (n : Nested) (p : PlayerId) (channel : Channel) (text : RichText) : Eval Unit := do
  if (← get).world.isOnline p then
    let text ← text.render n p
    Act.changeWorld (·.render p [.notify channel text])
  else throw (.playerOffline p)

/-- Fail if an objective does not exist.  That it is active already, or not at all, is nothing to
fail for. -/
def found (result : Except ProgressError Unit) : Eval Unit :=
  match result with
  | .error (.notFound e) => throw (.notFound e)
  | _ => pure ()

/-- Start, cancel or complete an objective. -/
def changeObjective (n : Nested) (p : PlayerId) (action : ObjectiveChange) (id : ObjectId) :
    Eval Unit := do
  let result ← match action with
    | .start => Objectives.start p id
    | .cancel => Objectives.cancel p id
    | .complete => Objectives.complete n p id
  found result

end Eval

/-! ### Events -/

mutual

/-- Carry out an action. -/
def Action.perform (n : Nested) (p : PlayerId) : Action → Eval Unit
  | .lever spot switch => Eval.pull spot switch
  | .folder delay events =>
    if delay = 0 then Action.fireEach n p events else Act.later [(delay, .fire p events)]
  | .objective action id => Eval.changeObjective n p action id
  | .notify channel text => Eval.notify n p channel text
  | .give items => Eval.give p items
  | .take items => Eval.take p items
  | .money amount => do Eval.transfer p (← amount.resolve n p)
  | .custom script => script.run (n.ask p)

/-- Fire an event: whether its conditions let it take place. -/
def Action.fire (n : Nested) (p : PlayerId) : Gated Action → Act Bool
  | ⟨conditions, content⟩ => do
    if ← allHold n p conditions then
      -- An event takes place even if its action fails.
      discard (Act.attempt (content.perform n p))
      pure true
    else pure false

/-- Fire events one after another. -/
def Action.fireEach (n : Nested) (p : PlayerId) : List (Ref (Gated Action)) → Act Unit
  | [] => pure ()
  | ⟨_, event⟩ :: rest => do
    discard (Action.fire n p event)
    Action.fireEach n p rest

end

end Questbook
