import PinNumbering.Machine
import PinNumbering.RootPin
/-! # Root pins on a machine

The look-ups among the root pins with the arithmetic of a machine. They read the same fields in the
same order as those of `PinNumbering.RootPin`, and form the same sums: the root pins that a search
passes are added up, and the end of the run of a port is its first pin and its length.

* `total`, `pinsPerInstance`, `portContains`: what a search asks of a sub tile or a port.
* `ownerFrom`, `findWithBaseFrom`: the searches that count root pins.
* `resolveRootPin`, `rootPinAtLocation`, `rootPinOfInstance`, `coordinates`,
  `rootPinAtCoordinates`, `numSubTileFlatPins`: the look-ups.
-/
set_option autoImplicit false

namespace PinNumbering

namespace Machine
variable {ε : Type} (m : Machine)

/-! ## Sub tiles and ports -/

/-- The number of locations of a range: one more than its bounds are apart. -/
def total (r : CapacityRange) : Run ε Nat :=
  if r.high < r.low then return 0 else m.add (r.high - r.low) 1

/-- The root pins of one instance; none where there is no instance. -/
def pinsPerInstance (s : SubTile) : Run ε Nat := do
  let total ← m.total s.capacity
  return s.numPins / total

/-- The pin lies in the run of the port. The end of the run is formed for no pin before it. -/
def portContains (p : Port) (pin : Nat) : Run ε Bool :=
  if p.firstPin ≤ pin then do
    let limit ← m.add p.firstPin p.numPins
    return decide (pin < limit)
  else return false

/-! ## Searches that count root pins -/

/-- The sub tile reached by a root pin, with the pin's number within it, when the first sub tile
starts at `base`. -/
def ownerFrom (pin : Nat) : Nat → List SubTile → Run ε (Option (SubTile × Nat))
  | _, [] => return none
  | base, s :: rest => do
    let limit ← m.add base s.numPins
    if pin < limit then do
      let perInstance ← m.pinsPerInstance s
      if 0 < perInstance then do
        let offset ← m.sub pin base
        return some (s, offset)
      else return none
    else ownerFrom pin limit rest

/-- The first sub tile with a property, with its first root pin when the list starts at `base`. -/
def findWithBaseFrom (p : SubTile → Bool) : Nat → List SubTile → Run ε (Option (Nat × SubTile))
  | _, [] => return none
  | base, s :: rest =>
    if p s then return some (base, s)
    else do
      let next ← m.add base s.numPins
      findWithBaseFrom p next rest

/-- The instance and the pin of it behind a number, if a sub tile owns a root pin of that number. -/
def rootPin? (tile : Tile) (pin : Nat) : Run ε (Option RootPin) := do
  match ← m.ownerFrom pin 0 tile.subTiles with
  | none => return none
  | some (s, offset) =>
    let perInstance ← m.pinsPerInstance s
    let inst ← quotient offset perInstance
    let instancePin ← remainder offset perInstance
    return some ⟨s, inst, instancePin⟩

/-- The instance and the pin of it behind a root pin. -/
def resolveRootPin (tile : Tile) (pin : Nat) : Run LookupError RootPin := do
  let root ← m.rootPin? tile pin
  Run.of (orFail root (.pinOutOfRange tile.name pin tile.numPins))

section Tables
variable (T : Tables)

/-! ## From logical pins -/

/-- The root pin for a logical pin of a block in the instance at a capacity location. -/
def rootPinAtLocation (t : TileId) (b : BlockId) (location logicalPin : Nat) :
    Run LookupError Nat := do
  let tile ← Run.of (T.findTile t)
  let s ← Run.of (T.findHostAt tile b location)
  let inst ← m.sub location s.capacity.low
  let pin ← Run.of (T.findDirectPin tile s b logicalPin)
  let first ← Run.of (tile.findRootPin s pin)
  let perInstance ← m.pinsPerInstance s
  let before ← m.mul inst perInstance
  m.add before first

/-- The failure for an instance past the range of a sub tile, which reports its location. -/
def instanceOutOfRange {α : Type} (tile : Tile) (s : SubTile) (inst : Nat) : Run LookupError α := do
  let location ← m.add s.capacity.low inst
  throw (.failure (.capacityOutOfRange tile.name location))

/-- The root pin for a logical pin of a block in a given instance of a given sub tile. -/
def rootPinOfInstance (t : TileId) (subTile : Nat) (b : BlockId) (inst logicalPin : Nat) :
    Run LookupError Nat := do
  let tile ← Run.of (T.findTile t)
  let s ← Run.of (tile.findSubTile subTile)
  let total ← m.total s.capacity
  if inst < total then do
    let pin ← Run.of (T.findDirectPin tile s b logicalPin)
    let perInstance ← m.pinsPerInstance s
    let before ← m.mul inst perInstance
    let position ← m.add pin before
    Run.of (tile.findRootPin s position)
  else m.instanceOutOfRange tile s inst

/-! ## Capacity coordinates -/

/-- The capacity location of a root pin, and the pin's number within the instance there. -/
def coordinates (t : TileId) (pin : Nat) : Run LookupError (Nat × Nat) := do
  let tile ← Run.of (T.findTile t)
  let root ← m.resolveRootPin tile pin
  let location ← m.add root.subTile.capacity.low root.inst
  return (location, root.instancePin)

/-- The root pin with a given number within the instance at a capacity location. -/
def rootPinAtCoordinates (t : TileId) (instancePin location : Nat) : Run LookupError Nat := do
  let tile ← Run.of (T.findTile t)
  let found ← m.findWithBaseFrom (fun s => s.capacity.contains location) 0 tile.subTiles
  let (base, s) ← Run.of (orFail found (.capacityOutOfRange tile.name location))
  let inst ← m.sub location s.capacity.low
  let perInstance ← m.pinsPerInstance s
  Run.of ((LookupError.pinOutOfRange (tile.label s) instancePin perInstance).unless
    (instancePin < perInstance))
  let before ← m.mul inst perInstance
  let first ← m.add base before
  m.add first instancePin

/-! ## Counts -/

/-- The flat pins of one more site. -/
def addPinsOf (sum : Nat) (b : BlockId) : Run LookupError Nat := do
  let block ← Run.of (T.findBlock b)
  m.add sum block.totalPins

/-- The number of flat pins that all sites of a sub tile take together. -/
def numSubTileFlatPins (t : TileId) (subTile : Nat) : Run LookupError Nat := do
  let tile ← Run.of (T.findTile t)
  let s ← Run.of (tile.findSubTile subTile)
  let perInstance ← s.sites.foldlM (m.addPinsOf T) 0
  let total ← m.total s.capacity
  m.mul perInstance total

end Tables

end Machine

end PinNumbering
