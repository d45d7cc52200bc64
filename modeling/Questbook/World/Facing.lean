/-
Questbook/World/Facing.lean

The direction a player looks in.

A steep gaze is up or down whatever its yaw.  Otherwise the yaw, taken round the circle, falls into
one of the sectors of south, west, north and east; south is cut in two by zero degrees.  The rule
is stated for any type of angles, so that it can be read with exact arithmetic as well as with the
floats the engine runs on.
-/
import Questbook.World.Location

namespace Questbook

/-- A direction of the world. -/
inductive Direction where
  | north
  | east
  | south
  | west
  | up
  | down
deriving DecidableEq, Repr

/-- What the rule of directions needs to know of angles in degrees. -/
class Angle (R : Type) where
  /-- A whole number of degrees. -/
  degrees : Int → R
  /-- Whether an angle is strictly smaller than another. -/
  below : R → R → Bool
  /-- An angle brought into the circle from 0 to 360 degrees. -/
  round : R → R

namespace Direction

/-- The direction as a word. -/
def word : Direction → String
  | north => "north"
  | east => "east"
  | south => "south"
  | west => "west"
  | up => "up"
  | down => "down"

/-- The direction of a gaze. -/
def ofAngles {R : Type} [Angle R] (yaw pitch : R) : Direction :=
  let degrees : Int → R := Angle.degrees
  if Angle.below (degrees 60) pitch then down
  else if Angle.below pitch (degrees (-60)) then up
  else
    let yaw := Angle.round yaw
    if Angle.below yaw (degrees 45) then south
    else if Angle.below yaw (degrees 135) then west
    else if Angle.below yaw (degrees 225) then north
    else if Angle.below yaw (degrees 325) then east
    else south

end Direction

/-- The remainder of `± m · 2 ^ q` by a whole number, with the sign of the dividend; it has no more
binary digits than the dividend, so that it is exact. -/
def Decimal.Format.remainder (f : Decimal.Format) (modulus bits : Nat) : Nat :=
  match f.decode bits with
  | .finite negative m q =>
    let magnitude :=
      if 0 ≤ q then f.nearest (m * Nat.pow 2 q.toNat % modulus) 1
      else f.nearest (m % (modulus * Nat.pow 2 (-q).toNat)) (Nat.pow 2 (-q).toNat)
    if negative then f.signUnit + magnitude else magnitude
  | _ => f.infinity + f.exponentUnit / 2

/-- A 32-bit angle brought into the circle: the remainder by a full turn, and a turn added to a
negative one. -/
def roundAngle (x : Float32) : Float32 :=
  let r := Float32.ofBits (UInt32.ofNat (Decimal.binary32.remainder 360 x.toBits.toNat))
  if r < 0 then r + 360 else r

instance : Angle Float32 where
  degrees n := Decimal.ofInt32 n
  below a b := decide (a < b)
  round := roundAngle

/-- The direction that a location looks in. -/
def Location.direction (l : Location) : Direction := Direction.ofAngles l.yaw l.pitch

end Questbook
