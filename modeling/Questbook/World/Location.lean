/-
Questbook/World/Location.lean

Places in a named world.

Distance and range are stated for coordinates of any number type, so that they can be read with
exact arithmetic as well as with the floats the engine runs on.  A location is a spot with float
coordinates and the two angles of a gaze, and has the text form `x;y;z;world[;yaw;pitch]`.
-/
import Questbook.Decimal.Plain

namespace Questbook

/-! ### Spots -/

/-- A point of a named world. -/
structure Spot (R : Type) where
  world : String
  x : R
  y : R
  z : R

namespace Spot

variable {R : Type}

/-- The square of the distance of two spots of one world. -/
def distanceSquared? [Add R] [Sub R] [Mul R] (a b : Spot R) : Option R :=
  if a.world = b.world then
    let dx := a.x - b.x
    let dy := a.y - b.y
    let dz := a.z - b.z
    some (dx * dx + dy * dy + dz * dz)
  else none

/-- Whether two spots of one world are strictly closer than `range`: their squares decide. -/
def within [Add R] [Sub R] [Mul R] [LT R] [DecidableLT R] (a b : Spot R) (range : R) : Bool :=
  match a.distanceSquared? b with
  | some d => decide (d < range * range)
  | none => false

end Spot

/-! ### Locations -/

/-- A spot with the angles of a gaze, in degrees. -/
structure Location extends Spot Float where
  yaw : Float32
  pitch : Float32

/-- The coordinates of a block. -/
structure Cell where
  world : String
  x : Int
  y : Int
  z : Int
deriving DecidableEq

namespace Location

/-- The location at a spot, looking south and level. -/
def ofSpot (s : Spot Float) : Location := ⟨s, 0, 0⟩

/-- A coordinate of the block that a coordinate lies in, as far as 64 bits reach. -/
def blockCoordinate (x : Float) : Int := x.floor.toInt64.toInt

/-- The block that a location lies in. -/
def block (l : Location) : Cell :=
  ⟨l.world, blockCoordinate l.x, blockCoordinate l.y, blockCoordinate l.z⟩

/-- The text of a location, without the gaze. -/
def text (l : Location) : String :=
  Text.joined ";" [Decimal.plain l.x, Decimal.plain l.y, Decimal.plain l.z, l.world]

/-- A coordinate has to be a finite number. -/
def coordinate (s : String) : Except String Float :=
  match Decimal.finite? s with
  | some x => .ok x
  | none => .error "coordinates must be numbers"

/-- An angle may be any number, not only a finite one. -/
def angle (name s : String) : Except String Float32 :=
  match Decimal.real32? s with
  | some x => .ok x
  | none => .error (name ++ " must be a number")

/-- The spot with the given parts.  The world is looked at first. -/
def spot (x y z world : String) : Except String (Spot Float) := do
  if world = "" then throw "world name is empty"
  let x ← coordinate x
  let y ← coordinate y
  let z ← coordinate z
  pure ⟨world, x, y, z⟩

/-- The location with a given text, or what is wrong with the text. -/
def parse (s : String) : Except String Location :=
  match Text.pieces ';' s with
  | [x, y, z, world] => ofSpot <$> spot x y z world
  | [x, y, z, world, yaw, pitch] => do
    let s ← spot x y z world
    let yaw ← angle "yaw" yaw
    let pitch ← angle "pitch" pitch
    pure ⟨s, yaw, pitch⟩
  | _ => .error "expected x;y;z;world[;yaw;pitch]"

end Location

end Questbook
