/-
Questbook/Decimal/Shortest.lean

The shortest decimal text of a binary number: the fewest digits that read back as the same
number, and of those the nearest to it.

A finite number `m · 2 ^ q` is what every real in an interval around it rounds to; the ends belong
to the interval exactly when `m` is even.  For one digit, two digits and so on the number's two
neighbours on that decimal grid are tested, in exact arithmetic, until one of them lies in the
interval.  Of two that do, the nearer is taken; which of two equally near is up to the format that
writes the number.
-/
import Questbook.Decimal.Binary

namespace Questbook.Decimal

/-- The digits `d₁ d₂ … dₙ` standing for `0.d₁d₂…dₙ · 10 ^ point`. -/
structure Digits where
  digits : List Char
  point : Int

/-- Which of two equally near digit texts is taken. -/
inductive Tie where
  /-- The larger one. -/
  | up
  /-- The one whose last digit is even. -/
  | even
deriving DecidableEq, Repr

/-- Whether the digits `c + 1` are taken rather than `c`, where both will do: a fraction `r / den`
of a digit lies between the number and `c`. -/
def Tie.takesNext (tie : Tie) (c r den : Nat) : Bool :=
  if 2 * r = den then tie = .up || c % 2 = 1 else den < 2 * r

/-- How many decimal digits a natural number has; zero has one. -/
def digitCount (n : Nat) : Nat := (Nat.toDigits 10 n).length

/-- The `k` with `10 ^ (k - 1) ≤ num / den < 10 ^ k`, for a positive fraction. -/
def magnitude (num den : Nat) : Int :=
  if den ≤ num then digitCount (num / den)
  else 1 - (digitCount ((den + num - 1) / num - 1) : Int)

/-- Drop zeros at the end of a digit list. -/
def dropTrailingZeros (ds : List Char) : List Char := (ds.reverse.dropWhile (· == '0')).reverse

/-- The reals that round to a number: the number itself and the two ends, over one denominator,
and whether the ends belong to it. -/
structure Interval where
  low : Nat
  value : Nat
  high : Nat
  den : Nat
  closed : Bool

/-- The interval of reals that round to `m · 2 ^ q`.  Below a power of two the next number is half
as far away as above it. -/
def Format.interval (f : Format) (m : Nat) (q : Int) : Interval :=
  let below := if m = f.exponentUnit ∧ f.leastExponent < q then 1 else 2
  let up := Nat.pow 2 (q - 2).toNat
  { low := (4 * m - below) * up
    value := 4 * m * up
    high := (4 * m + 2) * up
    den := Nat.pow 2 (2 - q).toNat
    closed := m % 2 = 0 }

/-- Whether the fraction `num / den` lies in the interval. -/
def Interval.contains (i : Interval) (num den : Nat) : Bool :=
  let at' := num * i.den
  if i.closed then i.low * den ≤ at' && at' ≤ i.high * den
  else i.low * den < at' && at' < i.high * den

/-- The number on the grid of `n` significant digits that stands for the interval, if one lies in
it, with the power of ten it counts. -/
def Interval.onGrid? (i : Interval) (tie : Tie) (n : Nat) : Option (Nat × Int) :=
  let k := magnitude i.value i.den - n
  let num := i.value * Nat.pow 10 (-k).toNat
  let den := i.den * Nat.pow 10 k.toNat
  let c := num / den
  let inside (c : Nat) : Bool := i.contains (c * Nat.pow 10 k.toNat) (Nat.pow 10 (-k).toNat)
  match inside c, inside (c + 1) with
  | true, true => some (if tie.takesNext c (num % den) den then c + 1 else c, k)
  | true, false => some (c, k)
  | false, true => some (c + 1, k)
  | false, false => none

/-- The first grid that holds a number of the interval, from `n` digits on. -/
def Interval.shortestFrom (i : Interval) (tie : Tie) (n : Nat) : Nat → Nat × Int
  | 0 => (i.value / i.den, 0)
  | tries + 1 =>
    match i.onGrid? tie n with
    | some hit => hit
    | none => i.shortestFrom tie (n + 1) tries

/-- The shortest digits of the positive number `m · 2 ^ q`.  Seventeen digits tell any two numbers
of the longest format apart. -/
def Format.shortest (f : Format) (tie : Tie) (m : Nat) (q : Int) : Digits :=
  let hit := (f.interval m q).shortestFrom tie 1 17
  let ds := Nat.toDigits 10 hit.1
  { digits := dropTrailingZeros ds, point := hit.2 + ds.length }

end Questbook.Decimal
