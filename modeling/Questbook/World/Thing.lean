/-
Questbook/World/Thing.lean

The things of a world that quests deal with: items, blocks, and the output shown to a player.
-/
import Questbook.Ident

namespace Questbook

/-! ### Items and blocks -/

/-- A kind of item: its material and, where it has one, its display name. -/
structure Item where
  material : String
  name : Option String
deriving DecidableEq, Repr, Inhabited

/-- The key under which an inventory counts an item. -/
def Item.key (i : Item) : String :=
  match i.name with
  | some name => i.material ++ "|" ++ name
  | none => i.material

/-- The state of a block. -/
structure Block where
  material : String
  powered : Bool
deriving DecidableEq, Repr, Inhabited

/-- A block as it is placed: without power. -/
def Block.ofMaterial (material : String) : Block := ⟨material, false⟩

/-! ### Output -/

/-- Where a short message appears. -/
inductive Channel where
  | chat
  | actionBar
  | title
deriving DecidableEq, Repr

/-- One piece of output for a player. -/
inductive Frame where
  | notify (channel : Channel) (text : String)
  | chat (lines : List String)
  | menu (title text : String) (slots : List String)
  /-- Close whatever menu is open. -/
  | close
deriving DecidableEq, Repr

end Questbook
