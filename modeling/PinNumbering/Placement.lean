import PinNumbering.Lookup
/-! # Where a block goes

* `preferredTile` and `preferredBlock`: the first choice of a block and of a tile.
* `compatible` and `compatibleAt`: whether a tile takes a block.
* `isInput`, `isOutput` and `isPad`: whether a tile is a pad.
-/
set_option autoImplicit false

namespace PinNumbering

namespace Tables

/-! ## Preferences -/

/-- The first tile that a block lists. -/
def preferredTile (T : Tables) (b : BlockId) : Lookup TileId := do
  let block ← T.findBlock b
  orFail block.tiles.head? (.noEquivalentTile block.name)

/-- The first block that the first sub tile of a tile lists. -/
def preferredBlock (T : Tables) (t : TileId) : Lookup BlockId := do
  let tile ← T.findTile t
  orFail (tile.subTiles.head?.bind fun s => s.sites.head?) (.noEquivalentSite tile.name)

/-! ## Compatibility -/

/-- The block lists the tile. -/
def compatible (T : Tables) (t : TileId) (b : BlockId) : Lookup Bool := do
  let _ ← T.findTile t
  let block ← T.findBlock b
  return block.tiles.contains t

/-- The block lists the tile, and a sub tile of it hosts the block at the capacity location. -/
def compatibleAt (T : Tables) (t : TileId) (b : BlockId) (location : Nat) : Lookup Bool := do
  let listed ← T.compatible t b
  let tile ← T.findTile t
  return listed && (tile.hostAt? b location).isSome

/-! ## Pads -/

/-- The tile is an input pad. -/
def isInput (T : Tables) (t : TileId) : Lookup Bool := do
  let tile ← T.findTile t
  return tile.isInput

/-- The tile is an output pad. -/
def isOutput (T : Tables) (t : TileId) : Lookup Bool := do
  let tile ← T.findTile t
  return tile.isOutput

/-- The tile is a pad of either direction. -/
def isPad (T : Tables) (t : TileId) : Lookup Bool := do
  let tile ← T.findTile t
  return tile.isPad

end Tables

end PinNumbering
