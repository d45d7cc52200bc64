/-
Questbook/Decimal/Plain.lean

Numbers as text and text as numbers.

Written numbers are plain: the shortest digits, of two equally near the larger, in positional
notation, never an exponent, no fractional part for a whole number, a sign for negative zero, and
`inf`, `-inf`, `NaN` for the rest.  Read numbers may also have an exponent, a missing part before or
after the point, and a plus sign; infinity and not-a-number are read in any letter case.  Whole
numbers are digits with an optional sign, within stated bounds.
-/
import Questbook.Decimal.Shortest
import Questbook.Text.Words

namespace Questbook.Decimal

/-! ### Writing -/

/-- Digits in positional notation. -/
def Digits.plain (d : Digits) : List Char :=
  if d.point ≤ 0 then '0' :: '.' :: (List.replicate (-d.point).toNat '0' ++ d.digits)
  else
    let p := d.point.toNat
    if d.digits.length ≤ p then d.digits ++ List.replicate (p - d.digits.length) '0'
    else d.digits.take p ++ '.' :: d.digits.drop p

/-- The text of what a bit pattern stands for. -/
def Format.plain (f : Format) (bits : Nat) : String :=
  match f.decode bits with
  | .notANumber => "NaN"
  | .infinite negative => if negative then "-inf" else "inf"
  | .finite negative m q =>
    let body := if m = 0 then ['0'] else (f.shortest .up m q).plain
    String.ofList (if negative then '-' :: body else body)

/-- The text of a 64-bit number. -/
def plain (x : Float) : String := binary64.plain x.toBits.toNat

/-- The text of a 32-bit number. -/
def plain32 (x : Float32) : String := binary32.plain x.toBits.toNat

/-! ### Reading -/

/-- The value of a digit. -/
def digit? (c : Char) : Option Nat :=
  if '0' ≤ c ∧ c ≤ '9' then some (c.toNat - '0'.toNat) else none

/-- Whether a character is a digit. -/
def isDigit (c : Char) : Bool := (digit? c).isSome

/-- The number a list of digits denotes; other characters count as nothing. -/
def ofDigits (ds : List Char) : Nat := ds.foldl (fun n c => 10 * n + (digit? c).getD 0) 0

/-- One or more digits and nothing else, as a number. -/
def natural? (cs : List Char) : Option Nat :=
  if cs ≠ [] ∧ cs.all isDigit then some (ofDigits cs) else none

/-- A whole number not above `limit`, a plus sign allowed. -/
def unsigned? (limit : Nat) (s : String) : Option Nat :=
  let read (cs : List Char) := (natural? cs).filter (· ≤ limit)
  match s.toList with
  | '+' :: rest => read rest
  | cs => read cs

/-- A whole number between `low` and `high`, a sign allowed. -/
def signed? (low high : Int) (s : String) : Option Int :=
  let inside (n : Int) := if low ≤ n ∧ n ≤ high then some n else none
  match s.toList with
  | '+' :: rest => (natural? rest).bind fun n => inside n
  | '-' :: rest => (natural? rest).bind fun n => inside (-n)
  | cs => (natural? cs).bind fun n => inside n

/-- The largest 32-bit unsigned number. -/
def maxUnsigned32 : Nat := 4294967295

/-- The largest 64-bit unsigned number. -/
def maxUnsigned64 : Nat := 18446744073709551615

/-- The least 64-bit signed number. -/
def minSigned64 : Int := -9223372036854775808

/-- The largest 64-bit signed number. -/
def maxSigned64 : Int := 9223372036854775807

/-- A number text without its sign. -/
inductive Numeral where
  | notANumber
  | infinite
  | finite (m : Nat) (e : Int)

/-- The power of ten after an `e`: an optional sign and at least one digit, or nothing at all. -/
def exponent? : List Char → Option Int
  | [] => some 0
  | c :: rest =>
    if c = 'e' ∨ c = 'E' then
      match rest with
      | '+' :: ds => (natural? ds).map Int.ofNat
      | '-' :: ds => (natural? ds).map fun n => -(n : Int)
      | ds => (natural? ds).map Int.ofNat
    else none

/-- A number text without a sign: digits with an optional point and power of ten, or a name. -/
def numeral? (cs : List Char) : Option Numeral :=
  match lower (String.ofList cs) with
  | "nan" => some .notANumber
  | "inf" => some .infinite
  | "infinity" => some .infinite
  | _ =>
    let whole := cs.takeWhile isDigit
    let rest := cs.dropWhile isDigit
    let (fraction, rest) :=
      match rest with
      | '.' :: rest => (rest.takeWhile isDigit, rest.dropWhile isDigit)
      | _ => ([], rest)
    if whole = [] ∧ fraction = [] then none
    else (exponent? rest).map fun e => .finite (ofDigits (whole ++ fraction)) (e - fraction.length)
where
  /-- Names are compared without regard to letter case. -/
  lower (s : String) : String := Text.lower s

/-- The bit pattern of a number text, without its sign. -/
def Format.ofNumeral (f : Format) : Numeral → Nat
  | .notANumber => f.infinity + f.exponentUnit / 2
  | .infinite => f.infinity
  | .finite m e => f.nearestDecimal m e

/-- The bit pattern of a number text, a sign allowed. -/
def Format.read? (f : Format) (s : String) : Option Nat :=
  match s.toList with
  | '+' :: rest => (numeral? rest).map f.ofNumeral
  | '-' :: rest => (numeral? rest).map fun n => f.signUnit + f.ofNumeral n
  | cs => (numeral? cs).map f.ofNumeral

/-- The 64-bit number a text denotes. -/
def real? (s : String) : Option Float :=
  (binary64.read? s).map fun n => Float.ofBits (UInt64.ofNat n)

/-- The 32-bit number a text denotes. -/
def real32? (s : String) : Option Float32 :=
  (binary32.read? s).map fun n => Float32.ofBits (UInt32.ofNat n)

/-- The 64-bit number a text denotes, unless it is infinite or not a number. -/
def finite? (s : String) : Option Float := (real? s).filter Float.isFinite

/-- The 64-bit number nearest to a whole number. -/
def ofInt (n : Int) : Float :=
  let bits := binary64.nearest n.natAbs 1
  Float.ofBits (UInt64.ofNat (if n < 0 then binary64.signUnit + bits else bits))

/-- The 32-bit number nearest to a whole number. -/
def ofInt32 (n : Int) : Float32 :=
  let bits := binary32.nearest n.natAbs 1
  Float32.ofBits (UInt32.ofNat (if n < 0 then binary32.signUnit + bits else bits))

end Questbook.Decimal
