import PinNumbering.Machine.RootPin
import PinNumbering.Tables.Consistency
/-! # The checks of tables on a machine

The checks of `PinNumbering.Tables.Consistency` with the arithmetic of a machine: the number of
locations of a range, the remainder that it leaves, and the sum of the pins of the sub tiles.
-/
set_option autoImplicit false

namespace PinNumbering

namespace Machine
variable (m : Machine) (T : Tables)

/-- The sub tile at a position of a tile. -/
def validateSubTile (tile : Tile) (position : Nat) (s : SubTile) : Run TableFault Unit := do
  Run.of ((TableFault.subTileIndexMismatch tile.name s.name position s.index).unless
    (s.index = position))
  Run.of ((TableFault.invertedCapacity tile.name s.name s.capacity).unless
    (s.capacity.low ≤ s.capacity.high))
  let total ← m.total s.capacity
  let rest ← remainder s.numPins total
  Run.of ((TableFault.unevenInstancePins tile.name s.name s.numPins total).unless (rest = 0))
  Run.of ((TableFault.rootPinTableLength tile.name s.numPins s.rootPins.length).unless
    (s.rootPins.length = s.numPins))
  Run.of ((tile.subTiles.take position).forM fun earlier =>
    (TableFault.overlappingCapacity tile.name earlier.capacity s.capacity).unless
      (earlier.capacity.overlaps s.capacity = false))
  Run.of (s.sites.forM fun site => T.validateSite tile s site)

/-- The next sub tile of a tile, whose pins are added to those before. -/
def countSubTile (tile : Tile) (computed : Nat) (s : SubTile × Nat) : Run TableFault Nat := do
  m.validateSubTile T tile s.2 s.1
  m.add computed s.1.numPins

/-- A tile: its sub tiles, the sum of their pins, and the class of each pin. -/
def validateTile (tile : Tile) : Run TableFault Unit := do
  let computed ← tile.subTiles.zipIdx.foldlM (m.countSubTile T tile) 0
  Run.of ((TableFault.pinCountMismatch tile.name tile.numPins computed).unless
    (computed = tile.numPins))
  Run.of ((TableFault.classTableLength tile.name tile.numPins tile.classOfPin.length).unless
    (tile.classOfPin.length = tile.numPins))
  let numClasses := tile.classes.length
  Run.of (tile.classOfPin.zipIdx.forM fun (cls, pin) =>
    (TableFault.danglingClass tile.name pin cls).unless (cls < numClasses))

/-- The first fault of the tables, tiles before blocks, if there is one. -/
def validate : Run TableFault Unit := do
  T.tiles.zipIdx.forM fun (tile, position) => do
    Run.of ((TableFault.tileIdMismatch position tile.id).unless (tile.id = position))
    m.validateTile T tile
  Run.of (T.blocks.zipIdx.forM fun (block, position) => do
    (TableFault.blockIdMismatch position block.id).unless (block.id = position)
    T.validateBlock block)

end Machine

end PinNumbering
