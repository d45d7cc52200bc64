/-
Questbook/Calendar/Timestamp.lean

Points in time with nanoseconds, and their text by RFC 3339.

Text is written in UTC with zero, three, six or nine digits after the second, as many as the value
needs.  There are two readers.  The strict one takes the standard's form, with a blank allowed for
the `T`.  The lenient one also takes blanks around the parts, fields of one digit, years of more
than four digits with a sign, and `UTC` for the offset.  A sixtieth second is kept as such.
-/
import Questbook.Text.Parser
import Questbook.Decimal.Plain

namespace Questbook.Calendar

open Text Text.Parser

/-- A point in time: seconds since the start of 1970 in UTC, and nanoseconds within the second.
Nanoseconds of a leap second count on past one billion. -/
structure Timestamp where
  seconds : Int
  nanos : Nat
deriving DecidableEq, Inhabited, Repr

/-- A day of the calendar. -/
structure Day where
  year : Int
  month : Nat
  day : Nat
deriving DecidableEq, Inhabited

/-- Whether a year has a 29th of February. -/
def isLeap (year : Int) : Bool := year % 4 == 0 && (year % 100 != 0 || year % 400 == 0)

/-- How many days a month has. -/
def monthLength (year : Int) (month : Nat) : Nat :=
  if month = 2 then (if isLeap year then 29 else 28)
  else if month = 4 ∨ month = 6 ∨ month = 9 ∨ month = 11 then 30
  else 31

/-- Whether a day stands in the calendar. -/
def Day.valid (d : Day) : Bool :=
  1 ≤ d.month && d.month ≤ 12 && 1 ≤ d.day && d.day ≤ monthLength d.year d.month &&
    -262143 ≤ d.year && d.year ≤ 262142

/-- The number of a day, counted from the first of January 1970.  Years are taken to start in
March, so that a leap day ends one; four hundred of them repeat exactly. -/
def Day.number (d : Day) : Int :=
  let y := if d.month ≤ 2 then d.year - 1 else d.year
  let era := y.fdiv 400
  let yearOfEra := y - 400 * era
  let shifted : Int := ((d.month + 9) % 12 : Nat)
  -- From March on, every five months have 153 days.
  let dayOfYear := (153 * shifted + 2) / 5 + d.day - 1
  let dayOfEra := 365 * yearOfEra + yearOfEra / 4 - yearOfEra / 100 + dayOfYear
  146097 * era + dayOfEra - 719468

/-- The day with a number. -/
def Day.ofNumber (n : Int) : Day :=
  let z := n + 719468
  let era := z.fdiv 146097
  let dayOfEra := z - 146097 * era
  let yearOfEra := (dayOfEra - dayOfEra / 1460 + dayOfEra / 36524 - dayOfEra / 146096) / 365
  let dayOfYear := dayOfEra - (365 * yearOfEra + yearOfEra / 4 - yearOfEra / 100)
  let shifted := (5 * dayOfYear + 2) / 153
  let day := dayOfYear - (153 * shifted + 2) / 5 + 1
  let month := if shifted < 10 then shifted + 3 else shifted - 9
  let year := yearOfEra + 400 * era + (if month ≤ 2 then 1 else 0)
  ⟨year, month.toNat, day.toNat⟩

/-! ### Writing -/

/-- A number with at least `width` digits. -/
def padded (width n : Nat) : List Char :=
  let ds := Nat.toDigits 10 n
  List.replicate (width - ds.length) '0' ++ ds

/-- A year: four digits, or a sign and at least four. -/
def yearText (y : Int) : List Char :=
  if 0 ≤ y ∧ y ≤ 9999 then padded 4 y.toNat
  else (if y < 0 then '-' else '+') :: padded 4 y.natAbs

/-- The digits after the second, with their point. -/
def fractionText (nanos : Nat) : List Char :=
  if nanos = 0 then []
  else if nanos % 1000000 = 0 then '.' :: padded 3 (nanos / 1000000)
  else if nanos % 1000 = 0 then '.' :: padded 6 (nanos / 1000)
  else '.' :: padded 9 nanos

/-- The text of a point in time with a given mark for UTC. -/
def Timestamp.textWith (mark : String) (t : Timestamp) : String :=
  let day := Day.ofNumber (t.seconds.fdiv 86400)
  let clock := (t.seconds.fmod 86400).toNat
  let leap := t.nanos / 1000000000
  let cs := yearText day.year ++ '-' :: padded 2 day.month ++ '-' :: padded 2 day.day ++
    'T' :: padded 2 (clock / 3600) ++ ':' :: padded 2 (clock / 60 % 60) ++
    ':' :: padded 2 (clock % 60 + leap) ++ fractionText (t.nanos % 1000000000)
  String.ofList cs ++ mark

/-- The text of a point in time, UTC written `Z`. -/
def Timestamp.text (t : Timestamp) : String := t.textWith "Z"

/-- The text of a point in time, UTC written as an offset of zero. -/
def Timestamp.offsetText (t : Timestamp) : String := t.textWith "+00:00"

/-! ### Reading -/

/-- A number of `low` to `high` digits. -/
def digits (low high : Nat) : Parser Nat := Decimal.ofDigits <$> upTo Decimal.isDigit low high

/-- The digits of a fraction of a second as nanoseconds; from the tenth on they count nothing. -/
def nanoseconds : Parser Nat := do
  let ds ← upTo Decimal.isDigit 1 9
  let _ ← run Decimal.isDigit
  pure (Decimal.ofDigits ds * Nat.pow 10 (9 - ds.length))

/-- An optional fraction of a second. -/
def fraction : Parser Nat := do
  if (← peek?) = some '.' then
    char '.'
    nanoseconds
  else pure 0

/-- Skip blanks. -/
def blanks : Parser Unit := do
  let _ ← run isBlank

/-- An offset from UTC in seconds; `colon` reads what stands between hours and minutes. -/
def offset (colon : Parser Unit) : Parser Int := do
  match ← satisfy fun c => c = 'Z' ∨ c = 'z' ∨ c = '+' ∨ c = '-' ∨ c.toNat = 0x2212 with
  | 'Z' => pure 0
  | 'z' => pure 0
  | sign =>
    let hours ← digits 2 2
    colon
    let minutes ← digits 2 2
    if 60 ≤ minutes then failure
    let seconds : Int := 60 * (60 * hours + minutes : Nat)
    pure (if sign = '+' then seconds else -seconds)

/-- The point in time with the given parts, if they stand in the calendar. -/
def assemble? (day : Day) (hour minute second nanos : Nat) (offset : Int) : Option Timestamp :=
  if day.valid ∧ hour ≤ 23 ∧ minute ≤ 59 ∧ second ≤ 60 ∧ offset.natAbs < 86400 then
    -- A leap second is the second before it, with nanoseconds past one billion.
    let leap := second / 60
    let clock := 3600 * hour + 60 * minute + (second - leap)
    let t : Timestamp := ⟨86400 * day.number + clock - offset, nanos + 1000000000 * leap⟩
    -- The offset may have moved the day out of the calendar.
    if (Day.ofNumber (t.seconds.fdiv 86400)).valid then some t else none
  else none

/-- The separator between a day and a time. -/
def daySeparator : Parser Unit := do
  let _ ← satisfy fun c => c = 'T' ∨ c = 't' ∨ c = ' '

/-- A reader's failure where there is no value. -/
def orFail {α : Type} : Option α → Parser α
  | some a => pure a
  | none => failure

/-- The strict reader. -/
def strict : Parser Timestamp := do
  let year ← digits 4 4
  char '-'
  let month ← digits 2 2
  char '-'
  let day ← digits 2 2
  daySeparator
  let hour ← digits 2 2
  char ':'
  let minute ← digits 2 2
  char ':'
  let second ← digits 2 2
  let nanos ← fraction
  let off ← offset (char ':')
  orFail (assemble? ⟨year, month, day⟩ hour minute second nanos off)

/-- A year of the lenient reader: up to four digits, any number of them after a sign. -/
def lenientYear : Parser Int := do
  blanks
  match ← peek? with
  | some '-' =>
    char '-'
    let ds ← run1 Decimal.isDigit
    pure (-(Decimal.ofDigits ds : Int))
  | some '+' =>
    char '+'
    let ds ← run1 Decimal.isDigit
    pure (Decimal.ofDigits ds)
  | _ =>
    let n ← digits 1 4
    pure n

/-- A field of the lenient reader: one or two digits after any blanks. -/
def lenientField : Parser Nat := do
  blanks
  digits 1 2

/-- The word for UTC in any letter case. -/
def utc : Parser Int := do
  let cs ← upTo (fun _ => true) 3 3
  if sameFolded (String.ofList cs) "utc" then pure 0 else failure

/-- The lenient reader. -/
def lenient : Parser Timestamp := do
  let year ← lenientYear
  blanks
  char '-'
  let month ← lenientField
  blanks
  char '-'
  let day ← lenientField
  daySeparator
  let hour ← lenientField
  blanks
  char ':'
  let minute ← lenientField
  blanks
  char ':'
  let second ← lenientField
  let nanos ← fraction
  blanks
  let off ← utc <|> offset (do let _ ← run fun c => c = ':' ∨ isBlank c)
  blanks
  orFail (assemble? ⟨year, month, day⟩ hour minute second nanos off)

/-- The point in time that a text of the standard's form denotes. -/
def Timestamp.ofStrict? (s : String) : Option Timestamp := all? strict s.toList

/-- The point in time that a text denotes, read leniently. -/
def Timestamp.ofLenient? (s : String) : Option Timestamp := all? lenient s.toList

end Questbook.Calendar
