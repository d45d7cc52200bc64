/-
Questbook/Template.lean

Text with references in it.  `%name%` stands for the value of a variable and `%%` for a percent
sign.  A percent sign that begins neither is an ordinary character, so every text can be scanned;
a name is not empty and has no blank in it.
-/
import Questbook.Text.Words

namespace Questbook.Template

/-- A piece of a text: characters as they are, or a reference. -/
inductive Segment (α : Type) where
  | literal (text : String)
  | reference (a : α)
deriving DecidableEq, Repr

/-- Put the characters gathered so far, last one first, in front of the segments that follow. -/
def flush (gathered : List Char) (l : List (Segment String)) : List (Segment String) :=
  if gathered.isEmpty then l else .literal (String.ofList gathered.reverse) :: l

/-- The segments of a text that percent signs cut into pieces, given the characters gathered before
it. -/
def scanPieces (gathered : List Char) : List (List Char) → List (Segment String)
  | [] => flush gathered []
  | [text] => flush (text.reverse ++ gathered) []
  | text :: name :: rest =>
    let before := text.reverse ++ gathered
    -- The name of a reference reaches up to the next percent sign, if there is one.
    if rest.isEmpty then scanPieces ('%' :: before) (name :: rest)
    else if name.isEmpty then scanPieces ('%' :: before) rest
    else if name.any Text.isBlank then scanPieces ('%' :: before) (name :: rest)
    else flush before (.reference (String.ofList name) :: scanPieces [] rest)

/-- The segments of a text: no empty literal, no two literals side by side. -/
def scan (s : String) : List (Segment String) := scanPieces [] (Text.piecesChars '%' s.toList)

end Questbook.Template
