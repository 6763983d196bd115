import PinNumbering.RootPin
/-! # Names of root pins and root classes

A root pin is printed by its tile, its instance, its port and its place in the port. The pins of a
root class are printed as runs, one for each port of an instance that they touch. In the other
direction, the name of a port and a place in it lead to a root pin of a first instance.

* `portPosition`: sub tile, instance, port and place of a root pin.
* `pinName`: the printed form of a root pin. The instance is left out where there is only one.
* `PortRun.runs`: the runs of an ordered list of pins, which may leave no gap within a port.
* `classPinNames`: the printed form of a root class.
* `rootPinOfPort?` and `classOfPort`: the root pin and the root class of a pin named by its port.
-/
set_option autoImplicit false

namespace PinNumbering

/-! ## Places in ports -/

/-- Where a root pin sits, by declared indices. -/
structure PortPosition where
  subTile : Nat
  inst : Nat
  /-- The port that carries the pin, if there is one, and the pin's place in it. -/
  place : Option (Nat × Nat)
  deriving DecidableEq, Repr, Inhabited

/-- Where a root pin of a tile sits. -/
def Tables.portPosition (T : Tables) (t : TileId) (pin : Nat) : Lookup PortPosition := do
  let tile ← T.findTile t
  let root ← tile.resolveRootPin pin
  return {
    subTile := root.subTile.index
    inst := root.inst
    place := root.port?.map fun port => (port.index, root.instancePin - port.firstPin) }

/-- A root pin as a place in a port of an instance. -/
structure PortPin where
  /-- Declared index of the sub tile. -/
  subTile : Nat
  inst : Nat
  port : Port
  /-- Place within the port. -/
  pin : Nat
  deriving DecidableEq, Repr, Inhabited

/-- The place in a port behind a root pin of a tile. -/
def Tile.resolvePortPin (tile : Tile) (pin : Nat) : Lookup PortPin := do
  let root ← tile.resolveRootPin pin
  let port ← orFail root.port? (.unmappedPhysicalPin tile.name pin)
  return ⟨root.subTile.index, root.inst, port, root.instancePin - port.firstPin⟩

/-! ## Pins -/

/-- The name of a place, as an owner followed by a bracketed number. -/
def indexed (owner : String) (n : Nat) : String := owner ++ "[" ++ toString n ++ "]"

/-- The printed form of a root pin: tile, instance if there are several, port and place. -/
def Tables.pinName (T : Tables) (t : TileId) (pin : Nat) : Lookup String := do
  let tile ← T.findTile t
  let root ← tile.resolveRootPin pin
  let port ← orFail root.port? (.unmappedPhysicalPin tile.name pin)
  let owner :=
    if 1 < root.subTile.capacity.total then indexed tile.name root.inst else tile.name
  return owner ++ "." ++ indexed port.name (root.instancePin - port.firstPin)

/-! ## Runs -/

/-- Pins of one port of one instance from `first` to `last`. -/
structure PortRun where
  /-- Declared index of the sub tile. -/
  subTile : Nat
  inst : Nat
  port : Port
  first : Nat
  last : Nat
  deriving DecidableEq, Repr, Inhabited

namespace PortRun

/-- The run of a single pin. -/
def single (p : PortPin) : PortRun := ⟨p.subTile, p.inst, p.port, p.pin, p.pin⟩

/-- The pin is in the same port of the same instance. -/
def covers (run : PortRun) (p : PortPin) : Bool :=
  run.subTile == p.subTile && run.inst == p.inst && run.port.index == p.port.index

/-- Says that a pin does not continue a run. -/
def gap (run : PortRun) (p : PortPin) : String :=
  indexed p.port.name p.pin ++ " does not follow " ++ indexed p.port.name run.last

/-- The runs of a list of pins, the first of which continues `run` if it is in the same port. -/
def runsFrom (run : PortRun) : List PortPin → Except String (List PortRun)
  | [] => .ok [run]
  | p :: rest =>
    if run.covers p then
      if p.pin = run.last + 1 then runsFrom { run with last := p.pin } rest
      else .error (run.gap p)
    else (runsFrom (single p) rest).map (run :: ·)

/-- The runs of an ordered list of pins. A port whose pins leave a gap or repeat is an error. -/
def runs : List PortPin → Except String (List PortRun)
  | [] => .ok []
  | p :: rest => runsFrom (single p) rest

/-- The printed form of a run: the tile and the instance, the port, and the first and last place, or
the one place. -/
def text (tileName : String) (run : PortRun) : String :=
  let owner := indexed tileName run.inst ++ "." ++ run.port.name
  if run.first = run.last then indexed owner run.first
  else owner ++ "[" ++ toString run.first ++ ":" ++ toString run.last ++ "]"

end PortRun

/-! ## Classes -/

/-- The order in which the pins of a class are printed: by sub tile, instance, port and place. -/
def PortPin.le (a b : PortPin) : Bool :=
  decide (a.subTile < b.subTile) || (a.subTile == b.subTile &&
    (decide (a.inst < b.inst) || (a.inst == b.inst &&
      (decide (a.port.index < b.port.index) || (a.port.index == b.port.index &&
        decide (a.pin ≤ b.pin))))))

/-- The printed form of a root class, one text for each run of its pins. -/
def Tables.classPinNames (T : Tables) (t : TileId) (cls : Nat) : Lookup (List String) := do
  let tile ← T.findTile t
  let info ← orFail tile.classes[cls]? (.classOutOfRange tile.name cls tile.classes.length)
  let pins ← info.pins.mapM tile.resolvePortPin
  match PortRun.runs (pins.mergeSort PortPin.le) with
  | .ok runs => return runs.map (PortRun.text tile.name)
  | .error detail => throw (.malformedClass tile.name cls detail)

namespace Tables

/-! ## Ports by name -/

/-- The root pin at a place of the first port of a name, in the first instance of its sub tile. -/
def rootPinOfPort? (T : Tables) (t : TileId) (name : String) (place : Nat) : Option Nat := do
  let tile ← T.tile? t
  let (base, s) ← tile.findWithBase? fun s => (s.portNamed? name).isSome
  let port ← s.portNamed? name
  if place < port.numPins then some (base + port.firstPin + place) else none

/-- The root class at a place of the first port of a name, if there is such a pin. The class must
have the given direction. -/
def classOfPort (T : Tables) (t : TileId) (name : String) (place : Nat) (pinType : PinType) :
    Lookup (Option Nat) := do
  let tile ← T.findTile t
  match T.rootPinOfPort? t name place with
  | none => return none
  | some pin =>
    let (cls, info) ← tile.findClassOfPin pin
    (LookupError.pinTypeMismatch tile.name cls pinType info.pinType).unless
      (info.pinType = pinType)
    return some cls

end Tables

end PinNumbering
