/-
Questbook/Talk/Plan.lean

How a conversation is built from what is written.

First the graph is checked: there is something to begin with, every pointer leads to an option of
the other side, and a screen that is named exists.  Only then the references are made, so that a
conversation that is built is a closed graph.
-/
import Questbook.Package.Source
import Questbook.Quest.Registry

namespace Questbook.ConversationSource

/-- The first pointer of a list that leads to no option. -/
def strayPointer? (options : Table String OptionSource) (pointers : List String) : Option String :=
  pointers.find? fun p => !options.contains p

/-- The first option with a pointer that leads to no option of the other side, and the pointer. -/
def strayOption? (options others : Table String OptionSource) : Option (String × String) :=
  options.entries.findSome? fun e => (strayPointer? others e.2.pointers).map (e.1, ·)

/-- What is wrong with the graph of a conversation, if anything is. -/
def flaw? (c : ConversationSource) (hasScreen : String → Bool) : Option String :=
  if c.first.isEmpty then some "conversation has no starting NPC options"
  else if let some p := strayPointer? c.npcOptions c.first then
    some ("starting option '" ++ p ++ "' is not an NPC option")
  else if let some (n, p) := strayOption? c.npcOptions c.playerOptions then
    some ("NPC option '" ++ n ++ "' points to unknown player option '" ++ p ++ "'")
  else if let some (n, p) := strayOption? c.playerOptions c.npcOptions then
    some ("player option '" ++ n ++ "' points to unknown NPC option '" ++ p ++ "'")
  else
    match c.screen with
    | some name =>
      if hasScreen name then none
      else some ("conversation IO '" ++ name ++ "' is not registered")
    | none => none

open Draft

/-- An option with its references resolved. -/
def option (o : OptionSource) : Draft Unit TalkOption := do
  let text ← richText o.text
  let conditions ← each condition o.conditions
  let events ← each event o.events
  pure ⟨text, conditions, events, o.pointers⟩

/-- A table of options with their references resolved. -/
def options (t : Table String OptionSource) : Draft Unit (Table String TalkOption) := do
  let compiled ← each (fun e => (e.1, ·) <$> option e.2) t.entries
  pure (Table.ofList compiled)

/-- The draft of a conversation. -/
def draft (registry : Registry) (id : ObjectId) (c : ConversationSource) :
    Draft Unit Conversation :=
  match c.flaw? fun name => (registry.screen? name).isSome with
  | some text => fail (.invalid text)
  | none => do
    let npcOptions ← options c.npcOptions
    let playerOptions ← options c.playerOptions
    let quester ← richText c.quester
    let finalEvents ← each event c.finalEvents
    pure ⟨id, quester, c.first, c.screen, finalEvents, npcOptions, playerOptions⟩

end Questbook.ConversationSource
