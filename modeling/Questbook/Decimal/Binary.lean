/-
Questbook/Decimal/Binary.lean

Binary floating point formats as exact numbers.  `Format.decode` reads a bit pattern as
`± m · 2 ^ q`; `Format.nearest` goes the other way and rounds a fraction of natural numbers to the
nearest bit pattern, a tie to the one whose last bit is zero.  All of it is arithmetic on `Nat`
and `Int`, so that the text of a number and the number of a text are determined here and not by
the machine.
-/

namespace Questbook.Decimal

/-- A binary interchange format: the length of its significand, hidden bit included, and of its
exponent field. -/
structure Format where
  precision : Nat
  exponentBits : Nat

/-- The format of `Float`. -/
def binary64 : Format := ⟨53, 11⟩

/-- The format of `Float32`. -/
def binary32 : Format := ⟨24, 8⟩

/-- What a bit pattern stands for; a finite one is `± m · 2 ^ q`. -/
inductive Reading where
  | notANumber
  | infinite (negative : Bool)
  | finite (negative : Bool) (m : Nat) (q : Int)

namespace Format

/-- The exponent of the last bit of the smallest numbers. -/
def leastExponent (f : Format) : Int := 3 - (Nat.pow 2 (f.exponentBits - 1) : Nat) - f.precision

/-- The weight of the lowest bit of the exponent field. -/
def exponentUnit (f : Format) : Nat := Nat.pow 2 (f.precision - 1)

/-- The bit pattern of positive infinity: all ones in the exponent field. -/
def infinity (f : Format) : Nat := (Nat.pow 2 f.exponentBits - 1) * f.exponentUnit

/-- The weight of the sign bit. -/
def signUnit (f : Format) : Nat := Nat.pow 2 f.exponentBits * f.exponentUnit

/-- What a bit pattern stands for. -/
def decode (f : Format) (bits : Nat) : Reading :=
  let negative := decide (f.signUnit ≤ bits)
  let magnitude := bits % f.signUnit
  if f.infinity < magnitude then .notANumber
  else if magnitude = f.infinity then .infinite negative
  else
    let exponent := magnitude / f.exponentUnit
    let fraction := magnitude % f.exponentUnit
    if exponent = 0 then .finite negative fraction f.leastExponent
    else .finite negative (f.exponentUnit + fraction) (f.leastExponent + (exponent - 1 : Nat))

/-- The natural number nearest to `num / den`, a tie going to the even one. -/
def roundEven (num den : Nat) : Nat :=
  let m := num / den
  let twice := 2 * (num % den)
  if twice < den then m
  else if den < twice then m + 1
  else m + m % 2

/-- The bit pattern nearest to the fraction `num / den`, without a sign. -/
def nearest (f : Format) (num den : Nat) : Nat :=
  if num = 0 then 0
  else
    let top : Int := (num.log2 : Int) - den.log2
    let least := f.leastExponent
    let scaled (q : Int) : Nat × Nat :=
      if 0 ≤ q then (num, den * Nat.pow 2 q.toNat) else (num * Nat.pow 2 (-q).toNat, den)
    let q₁ := max least (top - (f.precision - 1 : Nat))
    let s₁ := scaled q₁
    let q := if s₁.1 < f.exponentUnit * s₁.2 then max least (q₁ - 1) else q₁
    let s := scaled q
    min f.infinity ((q - least).toNat * f.exponentUnit + roundEven s.1 s.2)

/-- The bit pattern nearest to `m · 10 ^ e`, without a sign.  Exponents far outside the format are
settled without computing the power. -/
def nearestDecimal (f : Format) (m : Nat) (e : Int) : Nat :=
  if m = 0 then 0
  else if 400 < e then f.infinity
  else if 0 ≤ e then f.nearest (m * Nat.pow 10 e.toNat) 1
  else if (m.log2 : Int) + 1 + 3 * e < -1200 then 0
  else f.nearest m (Nat.pow 10 (-e).toNat)

end Format

end Questbook.Decimal
