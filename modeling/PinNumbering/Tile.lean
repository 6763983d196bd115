import PinNumbering.Block
import PinNumbering.Capacity
import PinNumbering.EndToEnd
/-! # Physical tiles

A tile exposes root pins. They are numbered sub tile by sub tile, within a sub tile instance by
instance, and within an instance port by port. Every instance of a sub tile can hold any one of the
blocks that the sub tile lists as its sites.

* `SubTile.pinsPerInstance`: how the pins of a sub tile divide among its instances.
* `Tile.owner?`: the sub tile that owns a root pin.
* `Tile.findWithBase?`: a search among the sub tiles that counts the pins it passes.
* `Tile.host?` and `Tile.hostAt?`: the sub tile that takes a block.
-/
set_option autoImplicit false

namespace PinNumbering

/-- A placement slot of a tile, which holds one instance at each of its capacity locations. -/
structure SubTile where
  /-- Declared position within the tile. -/
  index : Nat
  name : String
  capacity : CapacityRange
  /-- Blocks that an instance can hold, the preferred one first. -/
  sites : List BlockId
  /-- Ports of one instance. -/
  ports : List Port
  /-- Root pins of all instances together. -/
  numPins : Nat
  /-- The tile's root pin for each pin of the sub tile. -/
  rootPins : List Nat
  /-- For a hosted block, its logical pins (left) and the pins of the sub tile (right). -/
  directMaps : KeyMap PinMap
  deriving DecidableEq, Repr, Inhabited

namespace SubTile

/-- The root pins of one instance; none where there is no instance. -/
def pinsPerInstance (s : SubTile) : Nat := s.numPins / s.capacity.total

/-- The block is one of the sites. -/
def hosts (s : SubTile) (block : BlockId) : Bool := s.sites.contains block

/-- The direct map of a block. -/
def directMap? (s : SubTile) (block : BlockId) : Option PinMap := s.directMaps.find? block

/-- The first port of a name. -/
def portNamed? (s : SubTile) (name : String) : Option Port :=
  s.ports.find? fun port => port.name == name

/-- The first port whose run contains a pin of an instance. -/
def portContaining? (s : SubTile) (pin : Nat) : Option Port :=
  s.ports.find? fun port => port.contains pin

theorem hosts_iff (s : SubTile) (block : BlockId) : s.hosts block = true ↔ block ∈ s.sites := by
  rw [hosts, List.contains_iff_mem]

end SubTile

/-- A physical tile. -/
structure Tile where
  id : TileId
  name : String
  /-- Number of root pins. -/
  numPins : Nat
  subTiles : List SubTile
  /-- Classes of the root pins. -/
  classes : List PinClass
  /-- Class of each root pin. -/
  classOfPin : List Nat
  /-- The tile is an input pad. -/
  isInput : Bool
  /-- The tile is an output pad. -/
  isOutput : Bool
  deriving DecidableEq, Repr, Inhabited

/-! ## Searches that count root pins -/

namespace SubTile

/-- The sub tile reached by a root pin, with the pin's number within it. The search stops at the
sub tile that the pin falls into; if the instances of that one have no pins, nothing owns the
pin. -/
def ownerAmong? : List SubTile → Nat → Option (SubTile × Nat)
  | [], _ => none
  | s :: rest, pin =>
    if pin < s.numPins then
      if 0 < s.pinsPerInstance then some (s, pin) else none
    else ownerAmong? rest (pin - s.numPins)

/-- The first sub tile with a property, with its first root pin when the list starts at `base`. -/
def findWithBaseAmong? (p : SubTile → Bool) : Nat → List SubTile → Option (Nat × SubTile)
  | _, [] => none
  | base, s :: rest => if p s then some (base, s) else findWithBaseAmong? p (base + s.numPins) rest

end SubTile

namespace Tile

/-- First root pin of each sub tile. -/
def rootPinBases (t : Tile) : List Nat := startsFrom 0 (t.subTiles.map SubTile.numPins)

/-- The first sub tile with a property, with its first root pin. -/
def findWithBase? (t : Tile) (p : SubTile → Bool) : Option (Nat × SubTile) :=
  SubTile.findWithBaseAmong? p 0 t.subTiles

/-- The sub tile that owns a root pin, with the pin's number within it. The pins of the sub tiles
passed are taken off the pin; `Machine.ownerFrom` adds them up instead, as far as a machine can. -/
def owner? (t : Tile) (pin : Nat) : Option (SubTile × Nat) := SubTile.ownerAmong? t.subTiles pin

/-- The first sub tile with a block among its sites. -/
def host? (t : Tile) (block : BlockId) : Option SubTile :=
  t.subTiles.find? fun s => s.hosts block

/-- The first sub tile with a block among its sites and a location in its range. -/
def hostAt? (t : Tile) (block : BlockId) (location : Nat) : Option SubTile :=
  t.subTiles.find? fun s => s.hosts block && s.capacity.contains location

/-- The tile is a pad of either direction. -/
def isPad (t : Tile) : Bool := t.isInput || t.isOutput

/-- How a message names a sub tile of the tile. -/
def label (t : Tile) (s : SubTile) : String := t.name ++ "." ++ s.name

end Tile

end PinNumbering
