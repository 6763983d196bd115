import PinNumbering.Machine.RootPin
import PinNumbering.Names
/-! # Names of root pins on a machine

The look-ups of `PinNumbering.Names` with the arithmetic of a machine.
-/
set_option autoImplicit false

namespace PinNumbering

namespace Machine
variable {ε : Type} (m : Machine) (T : Tables)

/-- The port that carries a root pin. -/
def portOfRoot? (root : RootPin) : Run ε (Option Port) :=
  root.subTile.ports.findM? fun port => m.portContains port root.instancePin

/-- The place of a root pin in its port, if it lies in one. -/
def placeOf (root : RootPin) : Option Port → Run ε (Option (Nat × Nat))
  | none => return none
  | some port => do
    let place ← m.sub root.instancePin port.firstPin
    return some (port.index, place)

/-- Where a root pin of a tile sits. -/
def portPosition (t : TileId) (pin : Nat) : Run LookupError PortPosition := do
  let tile ← Run.of (T.findTile t)
  let root ← m.resolveRootPin tile pin
  let port ← m.portOfRoot? root
  let place ← m.placeOf root port
  return ⟨root.subTile.index, root.inst, place⟩

/-- The place in a port behind a root pin of a tile. -/
def resolvePortPin (tile : Tile) (pin : Nat) : Run LookupError PortPin := do
  let root ← m.resolveRootPin tile pin
  let found ← m.portOfRoot? root
  let port ← Run.of (orFail found (.unmappedPhysicalPin tile.name pin))
  let place ← m.sub root.instancePin port.firstPin
  return ⟨root.subTile.index, root.inst, port, place⟩

/-- The printed form of a root pin: tile, instance if there are several, port and place. -/
def pinName (t : TileId) (pin : Nat) : Run LookupError String := do
  let tile ← Run.of (T.findTile t)
  let root ← m.resolveRootPin tile pin
  let found ← m.portOfRoot? root
  let port ← Run.of (orFail found (.unmappedPhysicalPin tile.name pin))
  let place ← m.sub root.instancePin port.firstPin
  let total ← m.total root.subTile.capacity
  let owner := if 1 < total then indexed tile.name root.inst else tile.name
  return owner ++ "." ++ indexed port.name place

/-- The runs of a list of pins, the first of which continues `run` if it is in the same port. -/
def runsFrom (run : PortRun) : List PortPin → Run String (List PortRun)
  | [] => return [run]
  | p :: rest =>
    if run.covers p then do
      let next ← m.add run.last 1
      if p.pin = next then runsFrom { run with last := p.pin } rest
      else throw (.failure (run.gap p))
    else do
      let runs ← runsFrom (PortRun.single p) rest
      return run :: runs

/-- The runs of an ordered list of pins. -/
def runs : List PortPin → Run String (List PortRun)
  | [] => return []
  | p :: rest => m.runsFrom (PortRun.single p) rest

/-- The printed form of a root class, one text for each run of its pins. -/
def classPinNames (t : TileId) (cls : Nat) : Run LookupError (List String) := do
  let tile ← Run.of (T.findTile t)
  let info ← Run.of
    (orFail tile.classes[cls]? (.classOutOfRange tile.name cls tile.classes.length))
  let pins ← info.pins.mapM (m.resolvePortPin tile)
  let runs ← (m.runs (pins.mergeSort PortPin.le)).mapError fun
    | .stop reason => .stop reason
    | .failure detail => .failure (.malformedClass tile.name cls detail)
  return runs.map (PortRun.text tile.name)

/-! ## Ports by name -/

/-- The root pin at a place of a port of a sub tile that starts at `base`. -/
def pinOfPort (base : Nat) (port : Port) (place : Nat) : Run ε (Option Nat) :=
  if place < port.numPins then do
    let first ← m.add base port.firstPin
    let pin ← m.add first place
    return some pin
  else return none

/-- The root pin at a place of the first port of a name, in the first instance of its sub tile. -/
def rootPinOfPort? (t : TileId) (name : String) (place : Nat) : Run ε (Option Nat) :=
  match T.tile? t with
  | none => return none
  | some tile => do
    match ← m.findWithBaseFrom (fun s => (s.portNamed? name).isSome) 0 tile.subTiles with
    | none => return none
    | some (base, s) =>
      match s.portNamed? name with
      | none => return none
      | some port => m.pinOfPort base port place

/-- The root class at a place of the first port of a name, if there is such a pin. -/
def classOfPort (t : TileId) (name : String) (place : Nat) (pinType : PinType) :
    Run LookupError (Option Nat) := do
  let tile ← Run.of (T.findTile t)
  match ← m.rootPinOfPort? T t name place with
  | none => return none
  | some pin =>
    let (cls, info) ← Run.of (tile.findClassOfPin pin)
    Run.of ((LookupError.pinTypeMismatch tile.name cls pinType info.pinType).unless
      (info.pinType = pinType))
    return some cls

end Machine

end PinNumbering
