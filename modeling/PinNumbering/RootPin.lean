import PinNumbering.Lookup
/-! # Root pins

Root pins of a tile against capacity coordinates and against the logical pins of blocks.

* `Tile.rootPin?`: the instance that a root pin belongs to, and its number there.
* `hostIndex`, `hostIndexAt`: which sub tile takes a block.
* `pinInSubTile`, `rootPinOfFirst`, `rootPinAtLocation`, `rootPinOfInstance`: from a logical pin to
  a pin of the sub tile, and to a root pin of the first instance, of the instance at a location, or
  of a given instance.
* `coordinates` and `rootPinAtCoordinates`: between a root pin and the pair of a capacity location
  and a pin of the instance there.
* `drives`: the direction of a root pin; `maxRootPins`, `numSubTileFlatPins`: counts.
-/
set_option autoImplicit false

namespace PinNumbering

/-! ## Root pins of a tile -/

/-- A root pin as a pin of an instance of a sub tile. -/
structure RootPin where
  subTile : SubTile
  /-- Instance of the sub tile, counted from zero. -/
  inst : Nat
  /-- Number of the pin within the instance. -/
  instancePin : Nat
  deriving DecidableEq, Repr, Inhabited

namespace RootPin

/-- The capacity location of the instance. -/
def location (pin : RootPin) : Nat := pin.subTile.capacity.low + pin.inst

/-- The port that carries the pin. -/
def port? (pin : RootPin) : Option Port := pin.subTile.portContaining? pin.instancePin

end RootPin

namespace Tile

/-- The instance and the pin of it behind a number, if a sub tile owns a root pin of that number.
The pins of a sub tile are those of its instances one after the other. -/
def rootPin? (tile : Tile) (pin : Nat) : Option RootPin := do
  let (s, offset) ← tile.owner? pin
  return ⟨s, offset / s.pinsPerInstance, offset % s.pinsPerInstance⟩

/-- The instance and the pin of it behind a root pin. -/
def resolveRootPin (tile : Tile) (pin : Nat) : Lookup RootPin :=
  orFail (tile.rootPin? pin) (.pinOutOfRange tile.name pin tile.numPins)

/-- The root pin for a pin of a sub tile. -/
def findRootPin (tile : Tile) (s : SubTile) (pin : Nat) : Lookup Nat :=
  orFail s.rootPins[pin]? (.pinOutOfRange (tile.label s) pin s.rootPins.length)

/-- The class of a root pin and its number. -/
def findClassOfPin (tile : Tile) (pin : Nat) : Lookup (Nat × PinClass) := do
  let cls ← orFail tile.classOfPin[pin]?
    (.pinOutOfRange tile.name pin tile.classOfPin.length)
  let info ← orFail tile.classes[cls]? (.classOutOfRange tile.name cls tile.classes.length)
  return (cls, info)

end Tile

namespace Tables

/-! ## Hosts -/

/-- The first sub tile of a tile that hosts a block. -/
def findHost (T : Tables) (tile : Tile) (b : BlockId) : Lookup SubTile :=
  orFail (tile.host? b) (.blockNotInTile tile.name (T.blockName b))

/-- The first sub tile of a tile that hosts a block and covers a capacity location. -/
def findHostAt (T : Tables) (tile : Tile) (b : BlockId) (location : Nat) : Lookup SubTile :=
  orFail (tile.hostAt? b location) (.blockNotAtLocation tile.name (T.blockName b) location)

/-- The index of the first sub tile that hosts a block. -/
def hostIndex (T : Tables) (t : TileId) (b : BlockId) : Lookup Nat := do
  let tile ← T.findTile t
  let s ← T.findHost tile b
  return s.index

/-- The index of the first sub tile that hosts a block and covers a capacity location. -/
def hostIndexAt (T : Tables) (t : TileId) (b : BlockId) (location : Nat) : Lookup Nat := do
  let tile ← T.findTile t
  let s ← T.findHostAt tile b location
  return s.index

/-! ## From logical pins -/

/-- The pin of a sub tile that the direct map of a block gives to a logical pin. -/
def findDirectPin (T : Tables) (tile : Tile) (s : SubTile) (b : BlockId) (logicalPin : Nat) :
    Lookup Nat :=
  orFail ((s.directMap? b).bind fun m => m.right? logicalPin)
    (.unmappedLogicalPin tile.name (T.blockName b) s.index logicalPin)

/-- The pin of a sub tile for a logical pin of a block. -/
def pinInSubTile (T : Tables) (t : TileId) (subTile : Nat) (b : BlockId) (logicalPin : Nat) :
    Lookup Nat := do
  let tile ← T.findTile t
  let s ← tile.findSubTile subTile
  T.findDirectPin tile s b logicalPin

/-- The root pin for a logical pin of a block in the first instance of its first host. -/
def rootPinOfFirst (T : Tables) (t : TileId) (b : BlockId) (logicalPin : Nat) : Lookup Nat := do
  let tile ← T.findTile t
  let s ← T.findHost tile b
  let pin ← T.findDirectPin tile s b logicalPin
  tile.findRootPin s pin

/-- The root pin for a logical pin of a block in the instance at a capacity location. -/
def rootPinAtLocation (T : Tables) (t : TileId) (b : BlockId) (location logicalPin : Nat) :
    Lookup Nat := do
  let tile ← T.findTile t
  let s ← T.findHostAt tile b location
  let pin ← T.findDirectPin tile s b logicalPin
  let first ← tile.findRootPin s pin
  return (location - s.capacity.low) * s.pinsPerInstance + first

/-- The root pin for a logical pin of a block in a given instance of a given sub tile. -/
def rootPinOfInstance (T : Tables) (t : TileId) (subTile : Nat) (b : BlockId)
    (inst logicalPin : Nat) : Lookup Nat := do
  let tile ← T.findTile t
  let s ← tile.findSubTile subTile
  (LookupError.capacityOutOfRange tile.name (s.capacity.low + inst)).unless
    (inst < s.capacity.total)
  let pin ← T.findDirectPin tile s b logicalPin
  tile.findRootPin s (pin + inst * s.pinsPerInstance)

/-! ## Capacity coordinates -/

/-- The capacity location of a root pin, and the pin's number within the instance there. -/
def coordinates (T : Tables) (t : TileId) (pin : Nat) : Lookup (Nat × Nat) := do
  let tile ← T.findTile t
  let root ← tile.resolveRootPin pin
  return (root.location, root.instancePin)

/-- The root pin with a given number within the instance at a capacity location. -/
def rootPinAtCoordinates (T : Tables) (t : TileId) (instancePin location : Nat) :
    Lookup Nat := do
  let tile ← T.findTile t
  let (base, s) ← orFail (tile.findWithBase? fun s => s.capacity.contains location)
    (.capacityOutOfRange tile.name location)
  (LookupError.pinOutOfRange (tile.label s) instancePin s.pinsPerInstance).unless
    (instancePin < s.pinsPerInstance)
  return base + (location - s.capacity.low) * s.pinsPerInstance + instancePin

/-! ## Directions and counts -/

/-- A root pin drives a net. Pins past the root pins do not. -/
def drives (T : Tables) (t : TileId) (pin : Nat) : Lookup Bool := do
  let tile ← T.findTile t
  if pin < tile.numPins then
    let (_, info) ← tile.findClassOfPin pin
    return info.pinType == .driver
  else
    return false

/-- The number of flat pins that all sites of a sub tile take together. It is a product that
consistent tables do not bound, and `Machine.numSubTileFlatPins` forms it where it fits. -/
def numSubTileFlatPins (T : Tables) (t : TileId) (subTile : Nat) : Lookup Nat := do
  let tile ← T.findTile t
  let s ← tile.findSubTile subTile
  let blocks ← s.sites.mapM T.findBlock
  return totalOf (blocks.map Block.totalPins) * s.capacity.total

/-- The largest number of root pins among the tiles that a block lists; zero if it lists none. -/
def maxRootPins (T : Tables) (b : BlockId) : Lookup Nat := do
  let block ← T.findBlock b
  let tiles ← block.tiles.mapM T.findTile
  return (tiles.map Tile.numPins).foldl max 0

end Tables

end PinNumbering
