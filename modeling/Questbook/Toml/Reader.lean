/-
Questbook/Toml/Reader.lean

Reading TOML 1.0 documents.

A document becomes a `Json` value: a table is an object, a date or time is an object with one
member of a reserved name, so that it can be taken neither for a string nor for a table of other
members.  Brackets nest at most 79 deep, and a key has at most 79 parts.
-/
import Questbook.Decimal.Plain
import Questbook.Json.Reader
import Questbook.Text.Parser
import Questbook.Toml.Tree

namespace Questbook.Toml

open Text Text.Parser

/-! ### Blanks, comments and line ends -/

/-- Skip blanks within a line. -/
def blanks : Parser Unit := do
  let _ ← run fun c => c = ' ' ∨ c = '\t'

/-- A line end, with or without a carriage return. -/
def newline : Parser Unit := char '\n' <|> (char '\r' *> char '\n')

/-- Whether a character may stand in a comment or a string: no control character but the tab. -/
def isPrintable (c : Char) : Bool := c = '\t' ∨ (' ' ≤ c ∧ c.toNat ≠ 127)

/-- A comment up to the end of its line. -/
def comment : Parser Unit := do
  char '#'
  let _ ← run isPrintable

/-- The end of a line after blanks and a comment. -/
def lineEnd : Parser Unit := do
  blanks
  let _ ← optional? comment
  newline <|> atEnd

/-- Skip blanks, comments and line ends. -/
def gaps : Parser Unit := do
  let _ ← many ((do let _ ← run1 fun c => c = ' ' ∨ c = '\t') <|> newline <|> (comment *> newline))

/-! ### Strings -/

/-- What follows a backslash in a string with escapes. -/
def escape : Parser Char := do
  let scalar (n : Nat) : Parser Char := match Json.scalar? n with
    | some c => pure c
    | none => failure
  match ← satisfy fun _ => true with
  | '"' => pure '"'
  | '\\' => pure '\\'
  | 'b' => pure (Char.ofNat 8)
  | 'f' => pure (Char.ofNat 12)
  | 'n' => pure '\n'
  | 'r' => pure '\r'
  | 't' => pure '\t'
  | 'u' => hex 4 >>= scalar
  | 'U' => hex 8 >>= scalar
  | _ => failure

/-- A string with escapes on one line. -/
def basic : Parser String := do
  char '"'
  let cs ← many do
    let c ← satisfy fun c => c ≠ '"' ∧ isPrintable c
    if c = '\\' then escape else pure c
  char '"'
  pure (String.ofList cs)

/-- A string without escapes on one line. -/
def literal : Parser String := do
  char '\''
  let cs ← run fun c => c ≠ '\'' ∧ isPrintable c
  char '\''
  pure (String.ofList cs)

/-- The end of a string over several lines: three quotes, of up to two more the first ones belong
to the string. -/
def closing (quote : Char) : Parser (List Char) := do
  let qs ← upTo (· = quote) 3 5
  pure (qs.drop 3)

/-- A quote or two that do not end a string over several lines. -/
def innerQuotes (quote : Char) : Parser (List Char) := fun cs =>
  let qs := cs.takeWhile (· = quote)
  if 0 < qs.length ∧ qs.length < 3 then some (qs, cs.drop qs.length) else none

/-- A backslash at the end of a line, with the blanks and line ends that it removes. -/
def lineJoin : Parser (List Char) := do
  char '\\'
  blanks
  newline
  let _ ← many ((do let _ ← run1 fun c => c = ' ' ∨ c = '\t') <|> newline)
  pure []

/-- A string with escapes over several lines. -/
def multiBasic : Parser String := do
  word "\"\"\""
  let _ ← optional? newline
  let parts ← many (lineJoin
    <|> (do let c ← satisfy fun c => c ≠ '"' ∧ isPrintable c
            if c = '\\' then (fun c => [c]) <$> escape else pure [c])
    <|> (newline *> pure ['\n'])
    <|> innerQuotes '"')
  let last ← closing '"'
  pure (String.ofList (parts.flatten ++ last))

/-- A string without escapes over several lines. -/
def multiLiteral : Parser String := do
  word "\'\'\'"
  let _ ← optional? newline
  let parts ← many ((do let c ← satisfy fun c => c ≠ '\'' ∧ isPrintable c
                        pure [c])
    <|> (newline *> pure ['\n'])
    <|> innerQuotes '\'')
  let last ← closing '\''
  pure (String.ofList (parts.flatten ++ last))

/-- A string of any form. -/
def string : Parser String := multiBasic <|> multiLiteral <|> basic <|> literal

/-! ### Keys -/

/-- Whether a character may stand in a key without quotes. -/
def isBare (c : Char) : Bool :=
  ('A' ≤ c ∧ c ≤ 'Z') ∨ ('a' ≤ c ∧ c ≤ 'z') ∨ ('0' ≤ c ∧ c ≤ '9') ∨ c = '_' ∨ c = '-'

/-- One part of a key. -/
def simpleKey : Parser String := basic <|> literal <|> (String.ofList <$> run1 isBare)

/-- A key: parts with dots between them and blanks around them. -/
def key : Parser (List String) := do
  let parts ← sepBy1 (blanks *> simpleKey <* blanks) (char '.')
  if parts.length < 80 then pure parts else failure

/-! ### Numbers and times -/

/-- Digits of a base with single underscores between them. -/
def grouped (isDigit : Char → Bool) : Parser (List Char) := do
  let first ← satisfy isDigit
  let rest ← many ((satisfy isDigit) <|> (char '_' *> satisfy isDigit))
  pure (first :: rest)

/-- The number that digits of a base denote. -/
def inBase (base : Nat) (ds : List Char) : Nat :=
  ds.foldl (fun n c => base * n + ((hexValue? c).getD 0)) 0

/-- A whole number of 64 bits. -/
def bounded (n : Int) : Parser Json :=
  if Decimal.minSigned64 ≤ n ∧ n ≤ Decimal.maxSigned64 then pure (.whole n) else failure

/-- A whole number with the mark of its base. -/
def marked (mark : String) (base : Nat) : Parser Json := do
  word mark
  let ds ← grouped fun c => ((hexValue? c).getD base) < base
  bounded (inBase base ds)

/-- The whole part of a decimal number with its sign; a leading zero stands alone. -/
def decimalWhole : Parser (Bool × List Char) := do
  let sign ← optional? (satisfy fun c => c = '+' ∨ c = '-')
  let ds ← grouped Decimal.isDigit
  if ds.head? = some '0' ∧ ds.length ≠ 1 then failure
  pure (sign = some '-', ds)

/-- A decimal whole number. -/
def decimal : Parser Json := do
  let (negative, ds) ← decimalWhole
  let n : Int := Decimal.ofDigits ds
  bounded (if negative then -n else n)

/-- The power of ten of a real number. -/
def exponent : Parser Int := do
  let _ ← satisfy fun c => c = 'e' ∨ c = 'E'
  let sign ← optional? (satisfy fun c => c = '+' ∨ c = '-')
  let ds ← grouped Decimal.isDigit
  let n : Int := Decimal.ofDigits ds
  pure (if sign = some '-' then -n else n)

/-- A real number: a whole part and a fraction or an exponent or both.  Beyond the largest number of
the format a positive one is refused and a negative one is minus infinity. -/
def float : Parser Json := do
  let (negative, ds) ← decimalWhole
  let fraction ← optional? (char '.' *> grouped Decimal.isDigit)
  let e ← optional? exponent
  if fraction.isNone ∧ e.isNone then failure
  let fs := fraction.getD []
  let bits := Decimal.binary64.nearestDecimal (Decimal.ofDigits (ds ++ fs)) (e.getD 0 - fs.length)
  if bits = Decimal.binary64.infinity ∧ ¬ negative then failure
  let x := Float.ofBits (UInt64.ofNat bits)
  pure (.real (if negative then -x else x))

/-- Infinity or not-a-number with an optional sign. -/
def special : Parser Json := do
  let sign ← optional? (satisfy fun c => c = '+' ∨ c = '-')
  let x : Float ← (word "inf" *> pure (1.0 / 0.0)) <|> (word "nan" *> pure (0.0 / 0.0))
  pure (.real (if sign = some '-' then -x else x))

/-- Exactly `n` digits as a number from `low` to `high`. -/
def field (n low high : Nat) : Parser Nat := do
  let v ← Decimal.ofDigits <$> upTo Decimal.isDigit n n
  if low ≤ v ∧ v ≤ high then pure v else failure

/-- A number with two digits. -/
def two (n : Nat) : List Char := [Nat.digitChar (n / 10 % 10), Nat.digitChar (n % 10)]

/-- How many days a month has. -/
def monthLength (year month : Nat) : Nat :=
  if month = 2 then (if year % 4 = 0 ∧ (year % 100 ≠ 0 ∨ year % 400 = 0) then 29 else 28)
  else if month = 4 ∨ month = 6 ∨ month = 9 ∨ month = 11 then 30
  else 31

/-- A day, as its text. -/
def date : Parser (List Char) := do
  let year ← field 4 0 9999
  char '-'
  let month ← field 2 1 12
  char '-'
  let day ← field 2 1 (monthLength year month)
  pure (two (year / 100) ++ two year ++ '-' :: two month ++ '-' :: two day)

/-- A time of day, as its text. -/
def time : Parser (List Char) := do
  let hour ← field 2 0 23
  char ':'
  let minute ← field 2 0 59
  char ':'
  let second ← field 2 0 60
  let fraction ← optional? (char '.' *> run1 Decimal.isDigit)
  let ds := (((fraction.getD []).take 9).reverse.dropWhile (· = '0')).reverse
  let fractionText := if ds.isEmpty then [] else '.' :: ds
  pure (two hour ++ ':' :: two minute ++ ':' :: two second ++ fractionText)

/-- An offset from UTC, as its text; no offset has a plus sign. -/
def offset : Parser (List Char) :=
  ((char 'Z' <|> char 'z') *> pure ['Z']) <|> do
    let sign ← satisfy fun c => c = '+' ∨ c = '-'
    let hour ← field 2 0 23
    char ':'
    let minute ← field 2 0 59
    let sign := if hour = 0 ∧ minute = 0 then '+' else sign
    pure (sign :: two hour ++ ':' :: two minute)

/-- A day, a time of day, or both with an optional offset. -/
def dateTime : Parser Json := do
  let dayAndTime : Parser (List Char) := do
    let d ← date
    let t ← optional? do
      let _ ← satisfy fun c => c = 'T' ∨ c = 't' ∨ c = ' '
      let t ← time
      let o ← optional? offset
      pure ('T' :: t ++ o.getD [])
    pure (d ++ t.getD [])
  let cs ← dayAndTime <|> time
  pure (.record [("$__toml_private_datetime", .text (String.ofList cs))])

/-- A number or a time. -/
def scalar : Parser Json :=
  dateTime <|> float <|> special <|> marked "0x" 16 <|> marked "0o" 8 <|> marked "0b" 2 <|> decimal

/-! ### Values -/

/-- Items between square brackets, a comma after the last one allowed. -/
def array (item : Parser Json) : Parser Json := do
  char '['
  gaps
  let items ← (sepBy1 (item <* gaps) (char ',' <* gaps) <* optional? (char ',' <* gaps)) <|> pure []
  char ']'
  pure (.list items)

/-- A key and its value with an equals sign between them. -/
def assignment (value : Parser Json) : Parser (List String × Json) := do
  let k ← key
  char '='
  blanks
  let v ← value
  pure (k, v)

/-- Assign one after another. -/
def assignAll : List (List String × Json) → Section → Option Section
  | [], t => some t
  | (k, v) :: rest, t =>
    match k.getLast? with
    | none => none
    | some last => (t.assign k.dropLast last v).bind (assignAll rest)

/-- Assignments between curly brackets on one line. -/
def inlineTable (value : Parser Json) : Parser Json := do
  char '\x7b'
  blanks
  let pairs ← (sepBy1 (assignment value <* blanks) (char ',' <* blanks)) <|> pure []
  char '\x7d'
  match assignAll pairs Section.blank with
  | some t => pure t.toJson
  | none => failure

/-- A value with at most `depth` brackets around its innermost part. -/
def value : Nat → Parser Json
  | 0 => (.text <$> string) <|> (word "true" *> pure (.bool true)) <|>
      (word "false" *> pure (.bool false)) <|> scalar
  | depth + 1 => do
    match ← peek? with
    | some '[' => array (value depth)
    | some '\x7b' => inlineTable (value depth)
    | _ => value 0

/-! ### Documents -/

/-- One line of a document that is not empty. -/
inductive Line where
  | assignment (key : List String) (value : Json)
  | header (path : List String)
  | repeated (path : List String)

/-- A line of a document, or nothing for one without content. -/
def line : Parser (Option Line) := do
  blanks
  match ← peek? with
  | some '#' => comment *> (newline <|> atEnd) *> pure none
  | some '\n' => newline *> pure none
  | some '\r' => newline *> pure none
  | some '[' =>
    let l ← (do word "[["
                let k ← key
                word "]]"
                pure (Line.repeated k))
      <|> (do char '['
              let k ← key
              char ']'
              pure (Line.header k))
    lineEnd
    pure (some l)
  | some _ =>
    let (k, v) ← assignment (value 79)
    lineEnd
    pure (some (.assignment k v))
  | none => failure

/-- A document half read: the finished tables, the table of the last header and where it goes. -/
structure Draft where
  root : Section
  current : Section
  /-- The path of the last header and whether it repeats; nothing before the first header. -/
  target : Option (List String × String × Bool)

/-- Put the current table where its header says. -/
def Draft.close (d : Draft) : Option Section :=
  match d.target with
  | none => some d.current
  | some (path, key, false) => d.root.atPath false (fun t =>
      match t.item? key with
      | none => some (t.set key (.table d.current))
      | some _ => none) path
  | some (path, key, true) => d.root.atPath false (fun t =>
      match t.item? key with
      | none => some (t.set key (.tables [d.current]))
      | some (.tables ts) => some (t.set key (.tables (d.current :: ts)))
      | some _ => none) path

/-- The table at the end of a path, if the path can be walked. -/
def tableAt? (path : List String) (t : Section) : Option Section :=
  match path with
  | [] => some t
  | key :: rest =>
    match t.item? key with
    | none => some Section.blank
    | some (.table below) => tableAt? rest below
    | some (.tables (last :: _)) => tableAt? rest last
    | some _ => none

/-- Take one line into a document. -/
def Draft.take (d : Draft) : Line → Option Draft
  | .assignment k v => do
    let last ← k.getLast?
    let current ← d.current.assign k.dropLast last v
    pure { d with current }
  | .header k => do
    let last ← k.getLast?
    let root ← d.close
    let parent ← tableAt? k.dropLast root
    let current ← parent.opened? last
    -- The table is filled apart and goes back to its place when it is closed.
    let root ← root.atPath false (fun t => some (t.remove last)) k.dropLast
    pure ⟨root, current, some (k.dropLast, last, false)⟩
  | .repeated k => do
    let last ← k.getLast?
    let root ← d.close
    let parent ← tableAt? k.dropLast root
    match parent.item? last with
    | none => pure ⟨root, Section.blank, some (k.dropLast, last, true)⟩
    | some (.tables _) => pure ⟨root, Section.blank, some (k.dropLast, last, true)⟩
    | some _ => none

/-- The lines of a document. -/
def lines : Parser (List Line) := do
  let ls ← many line
  blanks
  pure (ls.filterMap id)

/-- The value of a document; a byte order mark in front is passed over. -/
def read? (s : String) : Option Json := do
  let cs := match s.toList with
    | c :: rest => if c.toNat = 0xFEFF then rest else c :: rest
    | [] => []
  let ls ← all? lines cs
  let d ← ls.foldlM Draft.take ⟨Section.blank, Section.blank, none⟩
  let root ← d.close
  pure root.toJson

end Questbook.Toml
