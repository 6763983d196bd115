import PinNumbering.Tile
/-! # Tables

The tiles and blocks of a device. An entry is known by its position; nothing forces the tables to be
consistent (see `PinNumbering.Tables.Consistency`), so every look-up may fail.
-/
set_option autoImplicit false

namespace PinNumbering

/-- The tiles and blocks of a device. -/
structure Tables where
  tiles : List Tile
  blocks : List Block
  deriving DecidableEq, Repr, Inhabited

namespace Tables

/-- Tables without entries. -/
def empty : Tables := ⟨[], []⟩

/-- The tile at a position. -/
def tile? (T : Tables) (t : TileId) : Option Tile := T.tiles[t]?

/-- The block at a position. -/
def block? (T : Tables) (b : BlockId) : Option Block := T.blocks[b]?

/-- The first tile of a name. -/
def tileNamed? (T : Tables) (name : String) : Option Tile :=
  T.tiles.find? fun tile => tile.name == name

/-- The first block of a name. -/
def blockNamed? (T : Tables) (name : String) : Option Block :=
  T.blocks.find? fun block => block.name == name

/-- The sub tile at a position of a tile. -/
def subTile? (T : Tables) (t : TileId) (position : Nat) : Option SubTile := do
  let tile ← T.tile? t
  tile.subTiles[position]?

/-- The name of a block in messages; a block that the tables lack goes by its number. -/
def blockName (T : Tables) (b : BlockId) : String :=
  match T.block? b with
  | some block => block.name
  | none => "#" ++ toString b

end Tables

end PinNumbering
