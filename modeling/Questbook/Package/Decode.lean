/-
Questbook/Package/Decode.lean

Reading packages from values.  Packages, conversations and their options are closed records: a
member they do not know is an error.  In a document of tables a list may hold more items than a
record has members, in JSON it may not; `surplus` tells which.
-/
import Questbook.Json.Decode
import Questbook.Package.Source

namespace Questbook

/-- A table of values by name. -/
def Table.ofJson? {α : Type} (f : Json → Option α) (j : Json) : Option (Table String α) :=
  (Json.mapOf? f j).map Table.ofList

/-- A list of names. -/
def namesOfJson? : Json → Option (List String) := Json.listOf? Json.text?

/-- An option of a conversation. -/
def OptionSource.ofJson? (surplus : Bool) (j : Json) : Option OptionSource := do
  match ← Json.members? ⟨true, surplus⟩ ["text", "conditions", "events", "pointers"] j with
  | [text, conditions, events, pointers] =>
    let text ← text.required Json.text?
    let conditions ← conditions.orElse [] namesOfJson?
    let events ← events.orElse [] namesOfJson?
    let pointers ← pointers.orElse [] namesOfJson?
    pure ⟨text, conditions, events, pointers⟩
  | _ => none

/-- A conversation. -/
def ConversationSource.ofJson? (surplus : Bool) (j : Json) : Option ConversationSource := do
  let names := ["quester", "first", "io", "final_events", "npc_options", "player_options"]
  match ← Json.members? ⟨true, surplus⟩ names j with
  | [quester, first, screen, finalEvents, npcOptions, playerOptions] =>
    let quester ← quester.required Json.text?
    let first ← first.required namesOfJson?
    let screen ← screen.nullable Json.text?
    let finalEvents ← finalEvents.orElse [] namesOfJson?
    let npcOptions ← npcOptions.orElse ∅ (Table.ofJson? (OptionSource.ofJson? surplus))
    let playerOptions ← playerOptions.orElse ∅ (Table.ofJson? (OptionSource.ofJson? surplus))
    pure ⟨quester, first, screen, finalEvents, npcOptions, playerOptions⟩
  | _ => none

/-- A package. -/
def PackageSource.ofJson? (surplus : Bool) (j : Json) : Option PackageSource := do
  let names := ["conditions", "events", "objectives", "variables", "items", "conversations"]
  match ← Json.members? ⟨true, surplus⟩ names j with
  | [conditions, events, objectives, vars, items, conversations] =>
    let lines (g : Json.Given) := g.orElse ∅ (Table.ofJson? Json.text?)
    let conditions ← lines conditions
    let events ← lines events
    let objectives ← lines objectives
    let vars ← lines vars
    let items ← lines items
    let conversations ← conversations.orElse ∅ (Table.ofJson? (ConversationSource.ofJson? surplus))
    pure ⟨conditions, events, objectives, vars, items, conversations⟩
  | _ => none

/-- Packages read from a list of pairs of a name and a package, and inserted in order; also what
each of them declared again. -/
def Sources.ofJson? : Json → Option (List (List (Kind × String)) × Sources)
  | .list entries => entries.foldlM (fun (clashes, sources) entry =>
      match entry with
      | .list [.text name, package] => do
        let package ← PackageSource.ofJson? false package
        let (clashing, sources) := sources.insert name package
        pure (clashes ++ [clashing], sources)
      | _ => none) ([], Sources.empty)
  | _ => none

end Questbook
