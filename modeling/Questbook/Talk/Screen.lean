/-
Questbook/Talk/Screen.lean

How a conversation is shown.

A screen collects a prompt, the NPC's line and the replies on offer, and shows it when told to.  A
chat screen numbers the replies, optionally a page at a time; a menu screen opens a list with one
slot for each reply and closes it at the end.  Showing is output only: what a screen holds decides
the frames, and the frames are handed on by whoever asked.
-/
import Questbook.World.Thing

namespace Questbook

/-- A way to show conversations, one of those that are built in.  A screen of a host's own is not
represented; a host can give the built-in ones other names. -/
inductive Screen.Style where
  /-- Lines of chat, so many replies to a page, or all of them at once. -/
  | chat (pageSize : Option Nat)
  /-- A menu; with `echo` the NPC's line stands in the chat as well. -/
  | menu (echo : Bool)
deriving DecidableEq, Repr

/-- What there is to show. -/
structure Screen.Prompt where
  speaker : String
  text : String
  options : List String
deriving DecidableEq, Repr

/-- A screen of one conversation. -/
structure Screen where
  style : Screen.Style
  prompt : Screen.Prompt
  page : Nat
deriving DecidableEq, Repr

namespace Screen

/-- A prompt without text. -/
def Prompt.blank : Prompt := ⟨"", "", []⟩

/-- The NPC's line as chat. -/
def Prompt.line (p : Prompt) : String := p.speaker ++ ": " ++ p.text

/-- A new screen.  A page has to hold something: a page size of nothing is none. -/
def ofStyle : Style → Screen
  | .chat pageSize => ⟨.chat (pageSize.filter (0 < ·)), Prompt.blank, 0⟩
  | .menu echo => ⟨.menu echo, Prompt.blank, 0⟩

/-- Forget the prompt. -/
def clear (s : Screen) : Screen := { s with prompt := Prompt.blank, page := 0 }

/-- Set the NPC's line. -/
def say (s : Screen) (speaker text : String) : Screen :=
  { s with prompt := ⟨speaker, text, s.prompt.options⟩ }

/-- Offer one more reply. -/
def offer (s : Screen) (text : String) : Screen :=
  { s with prompt := { s.prompt with options := s.prompt.options ++ [text] } }

/-- How many pages the replies fill, at least one. -/
def pages (s : Screen) : Nat :=
  match s.style with
  | .chat (some size) => max 1 ((s.prompt.options.length + size - 1) / size)
  | _ => 1

/-- The first reply shown, counted from zero, and the replies shown. -/
def window (s : Screen) : Nat × List String :=
  match s.style with
  | .chat (some size) => (s.page * size, (s.prompt.options.drop (s.page * size)).take size)
  | _ => (0, s.prompt.options)

/-- Replies with their numbers, counted from `first`. -/
def numbered (first : Nat) : List String → List String
  | [] => []
  | text :: rest => (toString first ++ ". " ++ text) :: numbered (first + 1) rest

/-- The line that tells the page, where there are several. -/
def footer (s : Screen) : List String :=
  if 1 < s.pages then
    ["(page " ++ toString (s.page + 1) ++ "/" ++ toString s.pages ++ ")"]
  else []

/-- The frames that show the prompt. -/
def display (s : Screen) : List Frame :=
  match s.style with
  | .chat _ =>
    [.chat (s.prompt.line :: (numbered (s.window.1 + 1) s.window.2 ++ s.footer))]
  | .menu echo =>
    (if echo then [.chat [s.prompt.line]] else []) ++
      [.menu s.prompt.speaker s.prompt.text s.prompt.options]

/-- Turn the page: whether the screen knows the command, the screen afterwards and the frames. -/
def navigate (s : Screen) (command : String) : Bool × Screen × List Frame :=
  match s.style with
  | .chat (some _) =>
    let turned (page : Nat) : Bool × Screen × List Frame :=
      let s := { s with page }
      (true, s, s.display)
    if command = "next" then turned (if s.page + 1 < s.pages then s.page + 1 else s.page)
    else if command = "previous" then turned (s.page - 1)
    else (false, s, [])
  | _ => (false, s, [])

/-- The frames at the end of a conversation. -/
def close (s : Screen) : List Frame :=
  match s.style with
  | .chat _ => []
  | .menu _ => [.close]

end Screen

end Questbook
