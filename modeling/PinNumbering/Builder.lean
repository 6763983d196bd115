import PinNumbering.PinMap.OfList
import PinNumbering.Tables
/-! # Building tables from ports

A block is given by its ports, its primitives and the tiles that host it; a tile by its slots. All
numbers follow from the order of the ports:

* the pins of a block are numbered port by port, root ports first and then the ports of each
  primitive, and a graph pin has the same number as its logical pin;
* each port of a primitive is a primitive class of its own;
* the root pins of a tile are numbered slot by slot, instance by instance and port by port, and each
  port of each instance is a root class of its own;
* a direct map joins the ports of a block and of a slot that have the same name, pin by pin.
-/
set_option autoImplicit false

namespace PinNumbering

/-! ## Specifications -/

/-- A port of a given width. -/
structure PortSpec where
  name : String
  kind : PortKind
  width : Nat
  deriving DecidableEq, Repr

/-- A primitive with its ports. -/
structure PrimitiveSpec where
  name : String
  ports : List PortSpec
  deriving DecidableEq, Repr

/-- A block with its root ports and its primitives. -/
structure BlockSpec where
  id : BlockId
  name : String
  ports : List PortSpec
  primitives : List PrimitiveSpec
  tiles : List TileId
  deriving DecidableEq, Repr

/-- A slot of a tile, which becomes a sub tile. -/
structure SlotSpec where
  name : String
  capacity : CapacityRange
  /-- Positions of the blocks that the slot hosts. -/
  sites : List BlockId
  ports : List PortSpec
  deriving DecidableEq, Repr

/-- A tile with its slots. -/
structure TileSpec where
  id : TileId
  name : String
  slots : List SlotSpec
  deriving DecidableEq, Repr

/-! ## Ports -/

/-- The number of pins of a list of ports. -/
def PortSpec.totalWidth (specs : List PortSpec) : Nat := totalOf (specs.map PortSpec.width)

/-- Ports laid end to end, the first of which has the given index and first pin. -/
def PortSpec.portsFrom (index firstPin : Nat) : List PortSpec → List Port
  | [] => []
  | spec :: rest =>
    ⟨spec.name, index, spec.kind, firstPin, spec.width⟩ ::
      portsFrom (index + 1) (firstPin + spec.width) rest

/-- Ports laid end to end. -/
def PortSpec.ports (specs : List PortSpec) : List Port := portsFrom 0 0 specs

/-- The pins of a port of an owner whose pins start at `base`. -/
def Port.pinsFrom (base : Nat) (port : Port) : List Nat :=
  List.range' (base + port.firstPin) port.numPins

/-! ## Blocks -/

/-- The ports of an owner whose graph pins start at `base`. -/
def PortSpec.blockPorts (base : Nat) (specs : List PortSpec) : List BlockPort :=
  (ports specs).map fun port => { toPort := port, pins := port.pinsFrom base }

/-- The graph pins of an owner. -/
def PortSpec.graphPins (owner : PinOwner) (specs : List PortSpec) : List GraphPin :=
  (ports specs).flatMap fun port =>
    (List.range port.numPins).map fun pinNumber => ⟨owner, port.index, pinNumber⟩

/-- Primitives whose graph pins start at `base`. -/
def PrimitiveSpec.primitivesFrom (base : Nat) : List PrimitiveSpec → List Primitive
  | [] => []
  | spec :: rest =>
    ⟨spec.name, PortSpec.blockPorts base spec.ports⟩ ::
      primitivesFrom (base + PortSpec.totalWidth spec.ports) rest

namespace BlockSpec

/-- The primitives of the block, whose graph pins follow those of the root ports. -/
def builtPrimitives (spec : BlockSpec) : List Primitive :=
  PrimitiveSpec.primitivesFrom (PortSpec.totalWidth spec.ports) spec.primitives

/-- The graph pins of the block, owner by owner. -/
def builtGraphPins (spec : BlockSpec) : List GraphPin :=
  PortSpec.graphPins .root spec.ports ++
    spec.primitives.zipIdx.flatMap fun (primitive, position) =>
      PortSpec.graphPins (.primitive position) primitive.ports

/-- The ports that are primitive classes, in the order of the classes. -/
def classPorts (spec : BlockSpec) : List BlockPort :=
  spec.builtPrimitives.flatMap Primitive.ports

/-- The block of a specification. Its graph pins are known by their positions, and nothing limits
how many there are; handles of 32 bits agree with positions below `idLimit` pins. -/
def build (spec : BlockSpec) : Block where
  id := spec.id
  name := spec.name
  numPins := PortSpec.totalWidth spec.ports
  ports := PortSpec.blockPorts 0 spec.ports
  primitives := spec.builtPrimitives
  graphPins := spec.builtGraphPins
  logicalPins :=
    PinMap.ofList ((List.range spec.builtGraphPins.length).map fun pin => (pin, pin))
  classOfGraphPin :=
    KeyMap.ofList (spec.classPorts.zipIdx.flatMap fun (port, cls) =>
      port.pins.map fun pin => (pin, cls))
  primitiveClasses := spec.classPorts.map fun port => ⟨port.kind.pinType, port.pins⟩
  tiles := spec.tiles

end BlockSpec

/-! ## Tiles -/

/-- The pairs by which a port of a block leads to the first of the given ports with its name. -/
def Port.directPairs (blockPort : Port) (ports : List Port) : List (Nat × Nat) :=
  match ports.find? fun port => port.name == blockPort.name with
  | none => []
  | some port =>
    (List.range (min blockPort.numPins port.numPins)).map fun pin =>
      (blockPort.firstPin + pin, port.firstPin + pin)

/-- The direct map of a block in a slot with the given ports. -/
def Block.directMapTo (block : Block) (ports : List Port) : PinMap :=
  PinMap.ofList (block.ports.flatMap fun blockPort => blockPort.toPort.directPairs ports)

namespace SlotSpec

/-- The pins of one instance of a slot. -/
def pinsPerInstance (slot : SlotSpec) : Nat := PortSpec.totalWidth slot.ports

/-- The pins of all instances of a slot. -/
def numPins (slot : SlotSpec) : Nat := slot.pinsPerInstance * slot.capacity.total

/-- The sub tile of a slot at a position, whose root pins start at `base`. -/
def build (slot : SlotSpec) (blocks : List Block) (position base : Nat) : SubTile where
  index := position
  name := slot.name
  capacity := slot.capacity
  sites := slot.sites
  ports := PortSpec.ports slot.ports
  numPins := slot.numPins
  rootPins := List.range' base slot.numPins
  directMaps :=
    KeyMap.ofList ((slot.sites.filterMap fun site => blocks[site]?).map fun block =>
      (block.id, block.directMapTo (PortSpec.ports slot.ports)))

/-- The classes of a slot whose root pins start at `base`. The instances of a slot without ports are
not counted out. -/
def classes (slot : SlotSpec) (base : Nat) : List PinClass :=
  if slot.ports.isEmpty then []
  else (List.range slot.capacity.total).flatMap fun inst =>
    (PortSpec.ports slot.ports).map fun port =>
      ⟨port.kind.pinType, port.pinsFrom (base + inst * slot.pinsPerInstance)⟩

/-- Every port of every instance is a class. -/
theorem classes_eq (slot : SlotSpec) (base : Nat) :
    slot.classes base = (List.range slot.capacity.total).flatMap fun inst =>
      (PortSpec.ports slot.ports).map fun port =>
        ⟨port.kind.pinType, port.pinsFrom (base + inst * slot.pinsPerInstance)⟩ := by
  rw [classes]
  split
  next h =>
    rw [List.isEmpty_iff.1 h]
    exact (List.flatMap_eq_nil_iff.2 fun _ _ => rfl).symm
  next => rfl

/-- The sub tiles of slots from a position on, whose root pins start at `base`. -/
def buildFrom (blocks : List Block) (position base : Nat) : List SlotSpec → List SubTile
  | [] => []
  | slot :: rest =>
    slot.build blocks position base :: buildFrom blocks (position + 1) (base + slot.numPins) rest

/-- The classes of slots whose root pins start at `base`. -/
def classesFrom (base : Nat) : List SlotSpec → List PinClass
  | [] => []
  | slot :: rest => slot.classes base ++ classesFrom (base + slot.numPins) rest

end SlotSpec

/-- The tile of a specification, over blocks that are already built. It is no pad. -/
def TileSpec.build (spec : TileSpec) (blocks : List Block) : Tile where
  id := spec.id
  name := spec.name
  numPins := totalOf (spec.slots.map SlotSpec.numPins)
  subTiles := SlotSpec.buildFrom blocks 0 0 spec.slots
  classes := SlotSpec.classesFrom 0 spec.slots
  classOfPin := (SlotSpec.classesFrom 0 spec.slots).zipIdx.flatMap fun (info, cls) =>
    List.replicate info.size cls
  isInput := false
  isOutput := false

/-- The tables of a list of blocks and a list of tiles. -/
def Tables.build (blocks : List BlockSpec) (tiles : List TileSpec) : Tables where
  tiles := tiles.map fun tile => tile.build (blocks.map BlockSpec.build)
  blocks := blocks.map BlockSpec.build

end PinNumbering
