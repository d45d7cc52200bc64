/-
Questbook/Json/Reader.lean

Reading JSON text.

A number without point and exponent is whole as long as it fits 64 bits; every other number is
real.  The digits of a real number are gathered into a 64-bit whole number, digits that no longer
fit are left out, and the result is scaled by a power of ten in floating point: quick, and off by
an ulp now and then, which a stored value that is read back shows.  Minus zero is real.  Refused are
numbers too large for a float, lone surrogates, control characters in a string and more than 127
nested brackets.

A text may carry another JSON text as a string: an object whose first member has a reserved name,
and which has no other member, stands for the value of the text in that member.  The text within
counts its brackets anew.
-/
import Questbook.Decimal.Plain
import Questbook.Json.Basic
import Questbook.Text.Parser

namespace Questbook.Json

open Text Text.Parser

/-- Skip JSON's white space. -/
def skip : Parser Unit := do
  let _ ← run fun c => c = ' ' ∨ c = '\t' ∨ c = '\n' ∨ c = '\r'

/-! ### Numbers -/

/-- The power of ten nearest to `10 ^ n`. -/
def powerOfTen (n : Nat) : Float :=
  Float.ofBits (UInt64.ofNat (Decimal.binary64.nearestDecimal 1 n))

/-- Scale down by more than the largest power of ten: that power first, then the rest. -/
def scaleDown : Nat → Float → Nat → Float
  | 0, x, _ => x
  | steps + 1, x, n =>
    if n ≤ 308 then x / powerOfTen n
    else if x == 0 then x
    else scaleDown steps (x / powerOfTen 308) (n - 308)

/-- A whole number times a power of ten, unless that is infinite. -/
def scale? (significand : Nat) (e : Int) : Option Float :=
  let x := Decimal.ofInt significand
  if 0 ≤ e then
    if e ≤ 308 then (some (x * powerOfTen e.toNat)).filter Float.isFinite
    else if significand = 0 then some x
    else none
  else some (scaleDown 4 x (-e).toNat)

/-- Add digits to a significand while it fits 64 bits; the digits left over. -/
def gather (significand : Nat) : List Char → Nat × List Char
  | [] => (significand, [])
  | c :: rest =>
    let next := 10 * significand + (Decimal.digit? c).getD 0
    if next ≤ Decimal.maxUnsigned64 then gather next rest else (significand, c :: rest)

/-- The parts of a number text. -/
structure NumberText where
  negative : Bool
  whole : List Char
  fraction : Option (List Char)
  exponent : Option Int

/-- The value of a number text.  Left out digits before the point count as places. -/
def NumberText.value? (t : NumberText) : Option Json :=
  let (significand, beyond) := gather 0 t.whole
  let signed (x : Float) : Json := .real (if t.negative then -x else x)
  match t.fraction, t.exponent with
  | none, none =>
    if beyond ≠ [] then (scale? significand beyond.length).map signed
    else if ¬ t.negative then some (.whole significand)
    else if significand = 0 ∨ Decimal.maxSigned64 + 1 < (significand : Int) then
      some (signed (Decimal.ofInt significand))
    else some (.whole (-significand))
  | fraction, exponent =>
    let digits := fraction.getD []
    let (significand, left) := gather significand digits
    let places := digits.length - left.length
    (scale? significand (beyond.length - places + exponent.getD 0)).map signed

/-- Digits after an `e` with an optional sign. -/
def exponent : Parser Int := do
  let _ ← satisfy fun c => c = 'e' ∨ c = 'E'
  let sign ← optional? (satisfy fun c => c = '+' ∨ c = '-')
  let ds ← run1 Decimal.isDigit
  let n : Int := Decimal.ofDigits ds
  pure (if sign = some '-' then -n else n)

/-- A number; a leading zero stands alone. -/
def number : Parser Json := do
  let minus ← optional? (char '-')
  let whole ← run1 Decimal.isDigit
  if whole.head? = some '0' ∧ whole.length ≠ 1 then failure
  let fraction ← optional? (char '.')
  let fraction ← match fraction with
    | some _ => some <$> run1 Decimal.isDigit
    | none => pure none
  let e ← peek?
  let e ← if e = some 'e' ∨ e = some 'E' then some <$> exponent else pure none
  match (NumberText.mk minus.isSome whole fraction e).value? with
  | some value => pure value
  | none => failure

/-! ### Strings -/

/-- The character of a code point outside the surrogates. -/
def scalar? (n : Nat) : Option Char :=
  if n < 0xD800 ∨ (0xDFFF < n ∧ n < 0x110000) then some (Char.ofNat n) else none

/-- What follows a backslash. -/
def escape : Parser Char := do
  match ← satisfy fun _ => true with
  | '"' => pure '"'
  | '\\' => pure '\\'
  | '/' => pure '/'
  | 'b' => pure (Char.ofNat 8)
  | 'f' => pure (Char.ofNat 12)
  | 'n' => pure '\n'
  | 'r' => pure '\r'
  | 't' => pure '\t'
  | 'u' =>
    let high ← hex 4
    if 0xD800 ≤ high ∧ high < 0xDC00 then
      word "\\u"
      let low ← hex 4
      if 0xDC00 ≤ low ∧ low < 0xE000 then
        pure (Char.ofNat (0x10000 + 0x400 * (high - 0xD800) + (low - 0xDC00)))
      else failure
    else
      match scalar? high with
      | some c => pure c
      | none => failure
  | _ => failure

/-- One character of a string. -/
def stringChar : Parser Char := do
  let c ← satisfy fun c => c ≠ '"' ∧ ' ' ≤ c
  if c = '\\' then escape else pure c

/-- A string with its quotes. -/
def string : Parser String := do
  char '"'
  let cs ← many stringChar
  char '"'
  pure (String.ofList cs)

/-! ### Values -/

/-- Items between brackets with commas between neighbours. -/
def array (item : Parser Json) : Parser Json := do
  char '['
  skip
  if (← peek?) = some ']' then
    char ']'
    pure (.list [])
  else
    let items ← sepBy1 (item <* skip) (char ',' *> skip)
    char ']'
    pure (.list items)

/-- The name of a member that carries a JSON text. -/
def carrier : String := "$serde_json::private::RawValue"

/-- A name and the colon behind it. -/
def memberName : Parser String := do
  let name ← string
  skip
  char ':'
  skip
  pure name

/-- The value of a carried text, up to the end of the object that carries it. -/
def carried (inner : String → Option Json) : Parser Json := do
  let text ← string
  skip
  char '}'
  match inner text with
  | some v => pure v
  | none => failure

/-- The rest of an object whose first member has the given name, behind the name. -/
def object (name : String) (value : Parser Json) : Parser Json := do
  let first ← value
  skip
  let rest ← many do
    char ','
    skip
    let name ← memberName
    let v ← value
    skip
    pure (name, v)
  char '}'
  pure (ofFields ((name, first) :: rest))

/-- A value with at most `depth` brackets around its innermost part; `inner` reads carried texts. -/
def value (inner : String → Option Json) : Nat → Parser Json
  | 0 => number <|> (.text <$> string) <|> (word "null" *> pure .null) <|>
      (word "true" *> pure (.bool true)) <|> (word "false" *> pure (.bool false))
  | depth + 1 => do
    match ← peek? with
    | some '[' => array (value inner depth)
    | some '{' =>
      char '{'
      skip
      if (← peek?) = some '}' then
        char '}'
        pure (.record [])
      else
        let name ← memberName
        if name = carrier then carried inner else object name (value inner depth)
    | some '"' => .text <$> string
    | some 'n' => word "null" *> pure .null
    | some 't' => word "true" *> pure (.bool true)
    | some 'f' => word "false" *> pure (.bool false)
    | _ => number

/-- The value that a text denotes, with at most `levels` texts carried one within the other. -/
def readWithin? : Nat → String → Option Json
  | 0, _ => none
  | levels + 1, s => all? (skip *> value (readWithin? levels) 127 <* skip) s.toList

/-- The value that a text denotes.  A carried text is shorter than the one that carries it, so their
number is no bound on what can be read. -/
def read? (s : String) : Option Json := readWithin? (s.length + 1) s

/-! ### Values handed on -/

mutual

/-- A value that one reader hands on to another: what it carries is read, in an object whose members
are now in ascending order. -/
def handedOn? : Json → Option Json
  | .list items => (itemsHandedOn? items).map .list
  | .record [] => some (.record [])
  | .record ((name, v) :: rest) =>
    if name = carrier then
      match v, rest with
      | .text s, [] => read? s
      | _, _ => none
    else do
      let first ← handedOn? v
      let rest ← fieldsHandedOn? rest
      pure (.record ((name, first) :: rest))
  | j => some j

/-- Items that are handed on. -/
def itemsHandedOn? : List Json → Option (List Json)
  | [] => some []
  | j :: rest => do
    let j ← handedOn? j
    let rest ← itemsHandedOn? rest
    pure (j :: rest)

/-- Members that are handed on. -/
def fieldsHandedOn? : List (String × Json) → Option (List (String × Json))
  | [] => some []
  | (name, v) :: rest => do
    let v ← handedOn? v
    let rest ← fieldsHandedOn? rest
    pure ((name, v) :: rest)

end

end Questbook.Json
