/-
Questbook/Encode.lean

Things of the engine as JSON, as a host hands them on: members have the names under which the
things are read, and what is not there is null.
-/
import Questbook.Progress.Record
import Questbook.Quest.Script

namespace Questbook

/-- A list of strings as JSON. -/
def Json.ofTexts (l : List String) : Json := .list (l.map .text)

/-- A string that may be missing as JSON. -/
def Json.ofText? : Option String → Json
  | some s => .text s
  | none => .null

/-- An item as JSON. -/
def Item.json (i : Item) : Json :=
  .ofFields [("material", .text i.material), ("name", .ofText? i.name)]

/-- A block as JSON. -/
def Block.json (b : Block) : Json :=
  .ofFields [("material", .text b.material), ("powered", .bool b.powered)]

/-- The name of a channel. -/
def Channel.word : Channel → String
  | chat => "chat"
  | actionBar => "action_bar"
  | title => "title"

/-- A piece of output as JSON. -/
def Frame.json : Frame → Json
  | notify channel text =>
    .ofFields [("type", .text "notify"), ("channel", .text channel.word), ("text", .text text)]
  | chat lines => .ofFields [("type", .text "chat"), ("lines", .ofTexts lines)]
  | menu title text slots =>
    .ofFields [("type", .text "menu"), ("title", .text title), ("text", .text text),
      ("slots", .ofTexts slots)]
  | close => .ofFields [("type", .text "close")]

/-- What a player sees of a conversation as JSON. -/
def TalkState.json : TalkState → Json
  | selecting conversation text options =>
    .ofFields [("state", .text "selecting"), ("conversation", .text conversation.text),
      ("npc_text", .text text), ("options", .ofTexts options)]
  | resolving => .ofFields [("state", .text "resolving")]
  | ended => .ofFields [("state", .text "ended")]

/-- A progress record as JSON. -/
def ProgressRecord.json (r : ProgressRecord) : Json :=
  .ofFields [("player", .text r.player.text), ("objective", .text r.objective.text),
    ("data", r.data), ("started_at", .text r.startedAt.text)]

end Questbook
