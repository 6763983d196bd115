import PinNumbering.Builder
import PinNumbering.Machine.RootPin
/-! # Building tiles on a machine

The tiles of `PinNumbering.Builder` with the arithmetic of a machine. The width of a port is a
number without pins behind it, so the ports of a slot, the pins of all its instances and the root
pins of a tile can exceed a word. Blocks hold a graph pin for each pin of their ports; what they
count is never more than what they hold, and they are built as they are.
-/
set_option autoImplicit false

namespace PinNumbering

namespace Machine
variable {ε : Type} (m : Machine)

/-- Ports laid end to end, the first of which has the given index and first pin, and the first pin
after them. -/
def portsFrom : Nat → Nat → List PortSpec → Run ε (List Port × Nat)
  | _, firstPin, [] => return ([], firstPin)
  | index, firstPin, spec :: rest => do
    let next ← m.add firstPin spec.width
    let (ports, last) ← portsFrom (index + 1) next rest
    return (⟨spec.name, index, spec.kind, firstPin, spec.width⟩ :: ports, last)

/-- The pairs by which a port of a block leads to the first of the given ports with its name. -/
def directPairs (ports : List Port) (blockPort : Port) : Run ε (List (Nat × Nat)) :=
  match ports.find? fun port => port.name == blockPort.name with
  | none => return []
  | some port =>
    (List.range (min blockPort.numPins port.numPins)).mapM fun pin => do
      let left ← m.add blockPort.firstPin pin
      let right ← m.add port.firstPin pin
      return (left, right)

/-- The direct map of a block in a slot with the given ports, under the number of the block. -/
def directMapTo (ports : List Port) (block : Block) : Run ε (BlockId × PinMap) := do
  let pairs ← block.ports.mapM fun blockPort => m.directPairs ports blockPort.toPort
  return (block.id, PinMap.ofList pairs.flatten)

/-- The class of a port of an instance of a slot whose root pins start at `base`, and the width of
the port. -/
def portClass (base perInstance inst : Nat) (port : Port) : Run ε (PinClass × Nat) := do
  let before ← m.mul inst perInstance
  let start ← m.add base before
  let first ← m.add start port.firstPin
  let last ← m.add first port.numPins
  return (⟨port.kind.pinType, List.range' first (last - first)⟩, port.numPins)

/-- The classes of a slot with the given ports. The instances of a slot without ports are not
counted out. -/
def slotClasses (base perInstance total : Nat) (ports : List Port) :
    Run ε (List (PinClass × Nat)) :=
  if ports.isEmpty then return []
  else do
    let classes ← (List.range total).mapM fun inst =>
      ports.mapM (m.portClass base perInstance inst)
    return classes.flatten

/-- The sub tile of a slot at a position, whose root pins start at `base`, its classes with the
widths of their ports, and the first root pin after it. -/
def buildSlot (blocks : List Block) (position base : Nat) (slot : SlotSpec) :
    Run ε (SubTile × List (PinClass × Nat) × Nat) := do
  let (ports, perInstance) ← m.portsFrom 0 0 slot.ports
  let total ← m.total slot.capacity
  let numPins ← m.mul perInstance total
  let maps ← (slot.sites.filterMap fun site => blocks[site]?).mapM (m.directMapTo ports)
  let classes ← m.slotClasses base perInstance total ports
  let next ← m.add base numPins
  let s : SubTile := {
    index := position
    name := slot.name
    capacity := slot.capacity
    sites := slot.sites
    ports := ports
    numPins := numPins
    rootPins := List.range' base (next - base)
    directMaps := KeyMap.ofList maps }
  return (s, classes, next)

/-- The sub tiles of slots from a position on, their classes, and the first root pin after them. -/
def buildSlots (blocks : List Block) : Nat → Nat → List SlotSpec →
    Run ε (List SubTile × List (PinClass × Nat) × Nat)
  | _, base, [] => return ([], [], base)
  | position, base, slot :: rest => do
    let (s, classes, next) ← m.buildSlot blocks position base slot
    let (subTiles, classes', last) ← buildSlots blocks (position + 1) next rest
    return (s :: subTiles, classes ++ classes', last)

/-- The tile of a specification, over blocks that are already built. It is no pad. -/
def buildTile (blocks : List Block) (spec : TileSpec) : Run ε Tile := do
  let (subTiles, classes, numPins) ← m.buildSlots blocks 0 0 spec.slots
  return {
    id := spec.id
    name := spec.name
    numPins := numPins
    subTiles := subTiles
    classes := classes.map Prod.fst
    classOfPin := classes.zipIdx.flatMap fun ((_, width), cls) => List.replicate width cls
    isInput := false
    isOutput := false }

/-- The tables of a list of blocks and a list of tiles. -/
def build (blocks : List BlockSpec) (tiles : List TileSpec) : Run ε Tables := do
  let built := blocks.map BlockSpec.build
  let tiles ← tiles.mapM (m.buildTile built)
  return ⟨tiles, built⟩

end Machine

end PinNumbering
