/-
Questbook/Json/Printer.lean

JSON text without white space.  Real numbers have the shortest digits that read back, of two
equally near the even ones: positional notation with at least one digit after the point for decimal
exponents from -5 to 16, and one digit before the point with an exponent outside of that.
-/
import Questbook.Decimal.Plain
import Questbook.Json.Basic

namespace Questbook.Json

/-- A natural number in decimal digits. -/
def naturalText (n : Nat) : List Char := Nat.toDigits 10 n

/-- A whole number in decimal digits. -/
def wholeText (n : Int) : List Char :=
  if n < 0 then '-' :: naturalText n.natAbs else naturalText n.natAbs

/-- Digits as a real number of JSON. -/
def realDigits (d : Decimal.Digits) : List Char :=
  let ds := d.digits
  if (ds.length : Int) ≤ d.point ∧ d.point ≤ 16 then
    ds ++ List.replicate (d.point.toNat - ds.length) '0' ++ ['.', '0']
  else if 0 < d.point ∧ d.point ≤ 16 then
    ds.take d.point.toNat ++ '.' :: ds.drop d.point.toNat
  else if -5 < d.point ∧ d.point ≤ 0 then
    '0' :: '.' :: (List.replicate (-d.point).toNat '0' ++ ds)
  else
    let mantissa := match ds with
      | [c] => [c]
      | c :: rest => c :: '.' :: rest
      | [] => ['0']
    mantissa ++ 'e' :: wholeText (d.point - 1)

/-- A real number; what is not finite has no JSON text and becomes null. -/
def realText (x : Float) : List Char :=
  match Decimal.binary64.decode x.toBits.toNat with
  | .finite negative m q =>
    let body := if m = 0 then ['0', '.', '0'] else realDigits (Decimal.binary64.shortest .even m q)
    if negative then '-' :: body else body
  | _ => "null".toList

/-- One character of a string. -/
def charText (c : Char) : List Char :=
  match c with
  | '"' => ['\\', '"']
  | '\\' => ['\\', '\\']
  | '\n' => ['\\', 'n']
  | '\r' => ['\\', 'r']
  | '\t' => ['\\', 't']
  | c =>
    if c.toNat = 8 then ['\\', 'b']
    else if c.toNat = 12 then ['\\', 'f']
    else if c.toNat < 32 then
      "\\u00".toList ++ [Nat.digitChar (c.toNat / 16), Nat.digitChar (c.toNat % 16)]
    else [c]

/-- A string in quotes. -/
def stringText (s : String) : List Char := '"' :: (s.toList.flatMap charText ++ ['"'])

mutual

/-- The text of a value. -/
def chars : Json → List Char
  | .null => "null".toList
  | .bool b => if b then "true".toList else "false".toList
  | .whole n => wholeText n
  | .real x => realText x
  | .text s => stringText s
  | .list items => '[' :: (itemChars items ++ [']'])
  | .record fields => '\x7b' :: (fieldChars fields ++ ['\x7d'])

/-- The texts of items with commas between neighbours. -/
def itemChars : List Json → List Char
  | [] => []
  | [j] => chars j
  | j :: rest => chars j ++ ',' :: itemChars rest

/-- The texts of fields with commas between neighbours. -/
def fieldChars : List (String × Json) → List Char
  | [] => []
  | [(n, j)] => stringText n ++ ':' :: chars j
  | (n, j) :: rest => stringText n ++ ':' :: (chars j ++ ',' :: fieldChars rest)

end

/-- The text of a value as a string. -/
def print (j : Json) : String := String.ofList j.chars

end Questbook.Json
