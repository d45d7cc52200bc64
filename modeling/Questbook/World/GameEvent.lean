/-
Questbook/World/GameEvent.lean

What happens in the world and may advance an objective.
-/
import Questbook.Ident
import Questbook.World.Location

namespace Questbook

/-- What was shot. -/
inductive Projectile where
  | arrow
  | snowball
  | trident
  | other
deriving DecidableEq, Repr

/-- Something that happened to a player or by one. -/
inductive GameEvent where
  /-- A projectile of the player hit something.  It may still move; `projectile` is the handle under
  which the world can be asked for it later, `spot` where the hit was reported. -/
  | projectileHit (player : PlayerId) (projectile : String) (kind : Projectile) (spot : Location)
  /-- The player went somewhere. -/
  | playerMoved (player : PlayerId) (spot : Location)
  /-- The player killed something. -/
  | entityKilled (player : PlayerId) (entity : String)

/-- The player that an event belongs to. -/
def GameEvent.player : GameEvent → PlayerId
  | projectileHit p _ _ _ => p
  | playerMoved p _ => p
  | entityKilled p _ => p

/-- The name of a sort of event. -/
def GameEvent.sort : GameEvent → String
  | projectileHit .. => "projectile_hit"
  | playerMoved .. => "player_moved"
  | entityKilled .. => "entity_killed"

/-- The name of a sort of projectile. -/
def Projectile.word : Projectile → String
  | arrow => "arrow"
  | snowball => "snowball"
  | trident => "trident"
  | other => "other"

end Questbook
