import PinNumbering.Tables
/-! # Consistency of tables

One numbering can only be turned into another on consistent tables. `Tables.validate` goes through
the tiles and then the blocks, in order, and reports the first fault:

* an entry or a sub tile carries a number other than its position;
* a capacity range is inverted, shares a location with an earlier one, or does not divide the pins;
* a table has not one entry per pin, or a pin has a class that the tile lacks;
* the pins of the sub tiles do not add up to the pins of the tile;
* a tile and a block do not list each other.
-/
set_option autoImplicit false

namespace PinNumbering

/-- What is wrong with tables. Names are those of the tile, sub tile or block concerned. -/
inductive TableFault where
  /-- The tile at a position carries another number. -/
  | tileIdMismatch (position id : Nat)
  /-- The block at a position carries another number. -/
  | blockIdMismatch (position id : Nat)
  /-- The sub tile at a position carries another number. -/
  | subTileIndexMismatch (tile subTile : String) (position index : Nat)
  /-- The pins of a sub tile do not divide evenly among its instances. -/
  | unevenInstancePins (tile subTile : String) (numPins capacity : Nat)
  /-- The pins of the sub tiles do not add up to those of the tile. -/
  | pinCountMismatch (tile : String) (declared computed : Nat)
  /-- A sub tile does not list one root pin for each of its pins. -/
  | rootPinTableLength (tile : String) (expected actual : Nat)
  /-- A tile does not list one class for each of its root pins. -/
  | classTableLength (tile : String) (expected actual : Nat)
  /-- A root pin has a class that the tile lacks. -/
  | danglingClass (tile : String) (pin cls : Nat)
  /-- A sub tile lists a block that the tables lack. -/
  | missingBlock (tile subTile : String) (block : BlockId)
  /-- A block lists a tile that the tables lack. -/
  | missingTile (block : String) (tile : TileId)
  /-- Of a tile and a block only one lists the other. -/
  | asymmetricEquivalence (tile block : String)
  /-- A capacity range ends before it starts. -/
  | invertedCapacity (tile subTile : String) (range : CapacityRange)
  /-- Two sub tiles of a tile have overlapping capacity ranges. -/
  | overlappingCapacity (tile : String) (first second : CapacityRange)
  deriving DecidableEq, Repr

/-- The message that reports a fault. -/
def TableFault.message : TableFault → String
  | tileIdMismatch position id =>
    s!"physical tile entry at position {position} carries ID {id}"
  | blockIdMismatch position id =>
    s!"logical block entry at position {position} carries ID {id}"
  | subTileIndexMismatch tile subTile position index =>
    s!"sub tile '{subTile}' of tile '{tile}' is at position {position} but has index {index}"
  | unevenInstancePins tile subTile numPins capacity =>
    s!"sub tile '{subTile}' of tile '{tile}' has {numPins} pins for {capacity} instances"
  | pinCountMismatch tile declared computed =>
    s!"tile '{tile}' declares {declared} root pins but its sub tiles provide {computed}"
  | rootPinTableLength tile expected actual =>
    s!"sub tile pin index table of tile '{tile}' has {actual} entries, expected {expected}"
  | classTableLength tile expected actual =>
    s!"pin class table of tile '{tile}' has {actual} entries, expected {expected}"
  | danglingClass tile pin cls =>
    s!"root pin {pin} of tile '{tile}' refers to missing class {cls}"
  | missingBlock tile subTile block =>
    s!"sub tile '{subTile}' of tile '{tile}' refers to unknown logical block {block}"
  | missingTile block tile =>
    s!"logical block '{block}' refers to unknown physical tile {tile}"
  | asymmetricEquivalence tile block =>
    s!"tile '{tile}' and logical block '{block}' do not list each other as equivalent"
  | invertedCapacity tile subTile range =>
    let shown := range.text
    s!"sub tile '{subTile}' of tile '{tile}' has inverted capacity range {shown}"
  | overlappingCapacity tile first second =>
    let shown := first.text
    let other := second.text
    s!"capacity ranges {shown} and {other} of tile '{tile}' overlap"

/-- Reports a fault unless a condition holds. -/
def TableFault.unless (fault : TableFault) (condition : Prop) [Decidable condition] :
    Except TableFault Unit :=
  if condition then .ok () else .error fault

@[simp] theorem TableFault.unless_eq_ok_iff (fault : TableFault) (condition : Prop)
    [Decidable condition] : fault.unless condition = .ok () ↔ condition := by
  rw [TableFault.unless]
  split <;> simp_all

theorem TableFault.unless_eq_error_iff (fault e : TableFault) (condition : Prop)
    [Decidable condition] : fault.unless condition = .error e ↔ ¬ condition ∧ fault = e := by
  rw [TableFault.unless]
  split <;> simp_all

namespace Tables

/-! ## One sub tile -/

/-- A site is a block of the tables that lists the tile. -/
def validateSite (T : Tables) (tile : Tile) (s : SubTile) (site : BlockId) :
    Except TableFault Unit :=
  match T.block? site with
  | none => .error (.missingBlock tile.name s.name site)
  | some block =>
    (TableFault.asymmetricEquivalence tile.name block.name).unless (tile.id ∈ block.tiles)

/-- The sub tile at a position of a tile: its number, its capacity range, its pins, its distance
from the earlier sub tiles and its sites. -/
def validateSubTile (T : Tables) (tile : Tile) (position : Nat) (s : SubTile) :
    Except TableFault Unit := do
  (TableFault.subTileIndexMismatch tile.name s.name position s.index).unless (s.index = position)
  (TableFault.invertedCapacity tile.name s.name s.capacity).unless
    (s.capacity.low ≤ s.capacity.high)
  (TableFault.unevenInstancePins tile.name s.name s.numPins s.capacity.total).unless
    (s.numPins % s.capacity.total = 0)
  (TableFault.rootPinTableLength tile.name s.numPins s.rootPins.length).unless
    (s.rootPins.length = s.numPins)
  (tile.subTiles.take position).forM fun earlier =>
    (TableFault.overlappingCapacity tile.name earlier.capacity s.capacity).unless
      (earlier.capacity.overlaps s.capacity = false)
  s.sites.forM fun site => T.validateSite tile s site

/-! ## Tiles and blocks -/

/-- A tile: its sub tiles, the sum of their pins, and the class of each pin. -/
def validateTile (T : Tables) (tile : Tile) : Except TableFault Unit := do
  tile.subTiles.zipIdx.forM fun (s, position) => T.validateSubTile tile position s
  let computed := totalOf (tile.subTiles.map SubTile.numPins)
  (TableFault.pinCountMismatch tile.name tile.numPins computed).unless (computed = tile.numPins)
  (TableFault.classTableLength tile.name tile.numPins tile.classOfPin.length).unless
    (tile.classOfPin.length = tile.numPins)
  let numClasses := tile.classes.length
  tile.classOfPin.zipIdx.forM fun (cls, pin) =>
    (TableFault.danglingClass tile.name pin cls).unless (cls < numClasses)

/-- A block: each tile that it lists is known and hosts it. -/
def validateBlock (T : Tables) (block : Block) : Except TableFault Unit :=
  block.tiles.forM fun id =>
    match T.tile? id with
    | none => .error (.missingTile block.name id)
    | some tile =>
      (TableFault.asymmetricEquivalence tile.name block.name).unless
        (∃ s ∈ tile.subTiles, s.hosts block.id = true)

/-- The first fault of the tables, tiles before blocks, if there is one. -/
def validate (T : Tables) : Except TableFault Unit := do
  T.tiles.zipIdx.forM fun (tile, position) => do
    (TableFault.tileIdMismatch position tile.id).unless (tile.id = position)
    T.validateTile tile
  T.blocks.zipIdx.forM fun (block, position) => do
    (TableFault.blockIdMismatch position block.id).unless (block.id = position)
    T.validateBlock block

end Tables

end PinNumbering
