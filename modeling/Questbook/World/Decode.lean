/-
Questbook/World/Decode.lean

Reading the things of a world from JSON: open records, whose unknown members are passed over.
-/
import Questbook.Json.Decode
import Questbook.World.Basic

namespace Questbook

open Json

/-- An open record of JSON. -/
def openRecord : Shape := ⟨false, false⟩

/-- A location; the gaze may be left out. -/
def Location.ofJson? (j : Json) : Option Location := do
  match ← members? openRecord ["world", "x", "y", "z", "yaw", "pitch"] j with
  | [world, x, y, z, yaw, pitch] =>
    let world ← world.required text?
    let x ← x.required real?
    let y ← y.required real?
    let z ← z.required real?
    let yaw ← yaw.orElse 0 real32?
    let pitch ← pitch.orElse 0 real32?
    pure ⟨⟨world, x, y, z⟩, yaw, pitch⟩
  | _ => none

/-- A block; without power where that is left out. -/
def Block.ofJson? (j : Json) : Option Block := do
  match ← members? openRecord ["material", "powered"] j with
  | [material, powered] =>
    let material ← material.required text?
    let powered ← powered.orElse false bool?
    pure ⟨material, powered⟩
  | _ => none

/-- An item. -/
def Item.ofJson? (j : Json) : Option Item := do
  match ← members? openRecord ["material", "name"] j with
  | [material, name] =>
    let material ← material.required text?
    let name ← name.nullable text?
    pure ⟨material, name⟩
  | _ => none

/-- Numbers by name. -/
def statsOfJson? (j : Json) : Option (Table String Float) :=
  (mapOf? real? j).map Table.ofList

/-- Counts of items by key. -/
def inventoryOfJson? (j : Json) : Option (Table String Nat) :=
  (mapOf? (natural? Decimal.maxUnsigned32) j).map Table.ofList

/-- A player's data; all but the name and the location may be left out. -/
def Avatar.ofJson? (j : Json) : Option Avatar := do
  let names := ["name", "location", "sneaking", "balance", "stats", "inventory"]
  match ← members? openRecord names j with
  | [name, location, sneaking, balance, stats, inventory] =>
    let name ← name.required text?
    let location ← location.required Location.ofJson?
    let sneaking ← sneaking.orElse false bool?
    let balance ← balance.orElse 0 real?
    let stats ← stats.orElse ∅ statsOfJson?
    let inventory ← inventory.orElse ∅ inventoryOfJson?
    pure ⟨name, location, sneaking, balance, stats, inventory⟩
  | _ => none

/-- A player's identity. -/
def PlayerId.ofJson? (j : Json) : Option PlayerId := j.text?.map PlayerId.mk

/-- A definition's name written out. -/
def ObjectId.ofJson? (j : Json) : Option ObjectId := j.text? >>= ObjectId.parse?

/-! ### Game events -/

/-- The sort of projectile with a name. -/
def Projectile.ofWord? (w : String) : Option Projectile :=
  [Projectile.arrow, .snowball, .trident, .other].find? (·.word = w)

/-- A sort of projectile: its name, or the name as the only member of an object without a value. -/
def Projectile.ofJson? : Json → Option Projectile
  | .text w => ofWord? w
  | .record [(w, .null)] => ofWord? w
  | .record [(w, .record [])] => ofWord? w
  | _ => none

/-- A game event without its sort, given the rest of its members. -/
def GameEvent.ofMembers? (sort : String) (j : Json) : Option GameEvent :=
  match sort with
  | "projectile_hit" => do
    match ← members? openRecord ["player_id", "projectile_id", "kind", "location"] j with
    | [player, projectile, kind, spot] =>
      let player ← player.required PlayerId.ofJson?
      let projectile ← projectile.required text?
      let kind ← kind.required Projectile.ofJson?
      let spot ← spot.required Location.ofJson?
      pure (.projectileHit player projectile kind spot)
    | _ => none
  | "player_moved" => do
    match ← members? openRecord ["player_id", "to"] j with
    | [player, spot] =>
      let player ← player.required PlayerId.ofJson?
      let spot ← spot.required Location.ofJson?
      pure (.playerMoved player spot)
    | _ => none
  | "entity_killed" => do
    match ← members? openRecord ["player_id", "entity_type"] j with
    | [player, entity] =>
      let player ← player.required PlayerId.ofJson?
      let entity ← entity.required text?
      pure (.entityKilled player entity)
    | _ => none
  | _ => none

/-- A game event: an object whose member `type` is its sort, or a list that begins with it. -/
def GameEvent.ofJson? : Json → Option GameEvent
  | .record fields => do
    let sort ← field? "type" fields
    let sort ← sort.text?
    ofMembers? sort (.record (fields.filter (·.1 ≠ "type")))
  | .list (sort :: rest) => do
    let sort ← sort.text?
    ofMembers? sort (.list rest)
  | _ => none

end Questbook
