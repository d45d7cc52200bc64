/-
Questbook/Settings.lean

The settings of a host.

Settings are read from a TOML document in which every member may be left out and none may be
unknown.  Without a document all of them have the values they come with.
-/
import Questbook.Package.Folder

namespace Questbook

/-- The settings of a host. -/
structure Settings where
  /-- The folder of the content; packages are in its folder `packages`. -/
  dataFolder : String := "data"
  databaseUrl : String := "sqlite:questline.db?mode=rwc"
  /-- The length of a tick. -/
  tickMillis : Nat := 50
  /-- How often gathered changes of progress are written. -/
  autosaveSeconds : Nat := 30
  listenAddress : String := "0.0.0.0:2567"
  /-- The screen of a conversation that names none. -/
  defaultScreen : String := "simple"
  /-- Whether packages are read again when their files change. -/
  hotReload : Bool := true
deriving DecidableEq, Repr, Inhabited

/-- What is wrong with settings. -/
inductive SettingsError where
  /-- They cannot be read as text. -/
  | unreadable
  /-- The text is no document of settings. -/
  | malformed
deriving DecidableEq, Repr

namespace Settings

/-- Settings read from a value. -/
def ofJson? (j : Json) : Option Settings := do
  let names := ["data_dir", "database_url", "tick_millis", "autosave_secs", "listen_addr",
    "default_conversation_io", "hot_reload"]
  let count := Json.natural? Decimal.maxUnsigned64
  let usual : Settings := {}
  match ← Json.members? ⟨true, true⟩ names j with
  | [folder, database, tick, autosave, address, screen, reload] =>
    let dataFolder ← folder.orElse usual.dataFolder Json.text?
    let databaseUrl ← database.orElse usual.databaseUrl Json.text?
    let tickMillis ← tick.orElse usual.tickMillis count
    let autosaveSeconds ← autosave.orElse usual.autosaveSeconds count
    let listenAddress ← address.orElse usual.listenAddress Json.text?
    let defaultScreen ← screen.orElse usual.defaultScreen Json.text?
    let hotReload ← reload.orElse usual.hotReload Json.bool?
    pure { dataFolder, databaseUrl, tickMillis, autosaveSeconds, listenAddress, defaultScreen,
           hotReload }
  | _ => none

/-- Settings read from where they should be. -/
def load : Option Entry → Except SettingsError Settings
  | none => .ok {}
  | some entry =>
    match entry.text? with
    | none => .error .unreadable
    | some text =>
      match Toml.read? text >>= ofJson? with
      | some settings => .ok settings
      | none => .error .malformed

end Settings

end Questbook
