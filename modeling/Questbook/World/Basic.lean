/-
Questbook/World/Basic.lean

A world in memory: the players that are in it, the blocks that were placed, the projectiles that
are tracked, and the output that waits for each player.

Reading anything of a player who is not in the world fails.  An inventory counts items by key, and
counts are 32-bit: a count that would grow beyond that has no value here, and giving the items
stops the engine.
-/
import Questbook.Error
import Questbook.Table
import Questbook.World.GameEvent
import Questbook.World.Thing

namespace Questbook

/-- What the world knows of a player. -/
structure Avatar where
  name : String
  location : Location
  sneaking : Bool
  balance : Float
  stats : Table String Float
  inventory : Table String Nat

/-- A player as he joins: standing, without money, stats or items. -/
def Avatar.fresh (name : String) (location : Location) : Avatar :=
  ⟨name, location, false, 0, ∅, ∅⟩

/-- How many items an inventory holds under a key. -/
def Avatar.count (a : Avatar) (key : String) : Nat := (a.inventory.find? key).getD 0

/-- The inventory with some more items, unless the count leaves 32 bits. -/
def Avatar.give? (a : Avatar) (key : String) (amount : Nat) : Option Avatar :=
  let n := a.count key + amount
  if n ≤ Decimal.maxUnsigned32 then some { a with inventory := a.inventory.insert key n } else none

/-- The inventory with up to `amount` items fewer. -/
def Avatar.take (a : Avatar) (key : String) (amount : Nat) : Avatar :=
  { a with inventory := a.inventory.insert key (a.count key - amount) }

/-- A world in memory. -/
structure World where
  players : Table PlayerId Avatar
  blocks : Table Cell Block
  projectiles : Table String Location
  /-- Output not yet collected, newest first, per player. -/
  frames : Table PlayerId (List Frame)
  /-- Balances cannot be read while this is set. -/
  economyDown : Bool

namespace World

/-- The world without anything in it. -/
def empty : World := ⟨∅, ∅, ∅, ∅, false⟩

instance : Inhabited World := ⟨empty⟩

/-- Whether a player is in the world. -/
def isOnline (w : World) (p : PlayerId) : Bool := w.players.contains p

/-- What the world knows of a player. -/
def avatar (w : World) (p : PlayerId) : Except EvalError Avatar :=
  match w.players.find? p with
  | some a => .ok a
  | none => .error (.playerOffline p)

/-- A player joins, or joins again with new data. -/
def join (w : World) (p : PlayerId) (a : Avatar) : World :=
  { w with players := w.players.insert p a }

/-- A player leaves. -/
def leave (w : World) (p : PlayerId) : World := { w with players := w.players.erase p }

/-- The block at a location, if one was placed there. -/
def block? (w : World) (l : Location) : Option Block := w.blocks.find? l.block

/-- Place a block. -/
def place (w : World) (l : Location) (b : Block) : World :=
  { w with blocks := w.blocks.insert l.block b }

/-- Where a projectile is, if it is tracked. -/
def projectile? (w : World) (handle : String) : Option Location := w.projectiles.find? handle

/-- Track a projectile. -/
def track (w : World) (handle : String) (l : Location) : World :=
  { w with projectiles := w.projectiles.insert handle l }

/-- Stop tracking a projectile. -/
def forget (w : World) (handle : String) : World :=
  { w with projectiles := w.projectiles.erase handle }

/-- Hand output to a player, who need not be in the world. -/
def render (w : World) (p : PlayerId) (fs : List Frame) : World :=
  if fs.isEmpty then w
  else { w with frames := w.frames.insert p (fs.reverse ++ (w.frames.find? p).getD []) }

/-- Collect all output that waits, for each player oldest first. -/
def collect (w : World) : List (PlayerId × List Frame) × World :=
  (w.frames.entries.map fun e => (e.1, e.2.reverse), { w with frames := ∅ })

/-- The money of a player, unless balances cannot be read. -/
def balance (w : World) (p : PlayerId) : Except EvalError Float :=
  if w.economyDown then .error (.featureUnavailable "economy") else Avatar.balance <$> w.avatar p

end World

end Questbook
