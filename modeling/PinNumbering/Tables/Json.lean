import PinNumbering.Json
import PinNumbering.Machine
import PinNumbering.PinMap.OfList
import PinNumbering.Tables
/-! # Tables as JSON

Each type of the tables has a writer `toJson` and a reader `ofJson?`. Records are objects with the
members that `memberNames` lists, maps are objects with decimal keys, and plain choices are written
as their names. Identifiers must be below `idLimit` and all other numbers below `wordLimit`. The
pairs of a one-to-one map are inserted in ascending order of their keys, so that of two pairs with
the same right side the one with the greater key stays.
-/
set_option autoImplicit false

namespace PinNumbering

/-! ## Maps -/

def KeyMap.toJson {α : Type} (value : α → Json) (m : KeyMap α) : Json := Json.keyed value m.entries

def KeyMap.ofJson? {α : Type} (keyLimit : Nat) (value? : Json → Option α) (j : Json) :
    Option (KeyMap α) :=
  (j.entries? keyLimit value?).map KeyMap.ofList

def PinMap.toJson (m : PinMap) : Json := Json.keyed Json.number m.pairs

def PinMap.ofJson? (leftLimit rightLimit : Nat) (j : Json) : Option PinMap :=
  (j.entries? leftLimit (Json.nat? rightLimit)).map PinMap.ofList

/-! ## Ports and classes -/

def PinType.toJson (t : PinType) : Json := .text t.text

def PinType.ofJson? (j : Json) : Option PinType := do
  match ← j.variant? with
  | ("Driver", .null) => some .driver
  | ("Receiver", .null) => some .receiver
  | _ => none

def PortKind.toJson (k : PortKind) : Json := .text k.text

def PortKind.ofJson? (j : Json) : Option PortKind := do
  match ← j.variant? with
  | ("Input", .null) => some .input
  | ("Output", .null) => some .output
  | ("Clock", .null) => some .clock
  | _ => none

def PinClass.memberNames : List String := ["pin_type", "pins"]

def PinClass.toJson (c : PinClass) : Json :=
  .record memberNames [c.pinType.toJson, .nats c.pins]

def PinClass.ofJson? (j : Json) : Option PinClass := do
  match ← j.members? memberNames with
  | [pinType, pins] =>
    return { pinType := ← PinType.ofJson? pinType, pins := ← pins.nats? wordLimit }
  | _ => none

def Port.memberNames : List String :=
  ["name", "index", "kind", "absolute_first_pin_index", "num_pins"]

/-- The values of the members of a port. -/
def Port.memberValues (p : Port) : List Json :=
  [.text p.name, .number p.index, p.kind.toJson, .number p.firstPin, .number p.numPins]

def Port.toJson (p : Port) : Json := .record memberNames p.memberValues

/-- A port from the values of its members. -/
def Port.ofMembers? (name index kind firstPin numPins : Json) : Option Port := do
  return {
    name := ← name.text?
    index := ← index.nat? wordLimit
    kind := ← PortKind.ofJson? kind
    firstPin := ← firstPin.nat? wordLimit
    numPins := ← numPins.nat? wordLimit }

def Port.ofJson? (j : Json) : Option Port := do
  match ← j.members? memberNames with
  | [name, index, kind, firstPin, numPins] => ofMembers? name index kind firstPin numPins
  | _ => none

def BlockPort.memberNames : List String := Port.memberNames ++ ["pins"]

def BlockPort.toJson (p : BlockPort) : Json :=
  .record memberNames (p.toPort.memberValues ++ [.nats p.pins])

def BlockPort.ofJson? (j : Json) : Option BlockPort := do
  match ← j.members? memberNames with
  | [name, index, kind, firstPin, numPins, pins] =>
    let port ← Port.ofMembers? name index kind firstPin numPins
    return { toPort := port, pins := ← pins.nats? idLimit }
  | _ => none

/-! ## Capacity ranges, sub tiles and tiles -/

def CapacityRange.memberNames : List String := ["low", "high"]

def CapacityRange.toJson (r : CapacityRange) : Json :=
  .record memberNames [.number r.low, .number r.high]

def CapacityRange.ofJson? (j : Json) : Option CapacityRange := do
  match ← j.members? memberNames with
  | [low, high] => return { low := ← low.nat? wordLimit, high := ← high.nat? wordLimit }
  | _ => none

def SubTile.memberNames : List String :=
  ["index", "name", "capacity", "equivalent_sites", "ports", "num_phy_pins",
    "sub_tile_to_tile_pin_indices", "pin_directs"]

def SubTile.toJson (s : SubTile) : Json :=
  .record memberNames
    [.number s.index, .text s.name, s.capacity.toJson, .nats s.sites,
      .list (s.ports.map Port.toJson), .number s.numPins, .nats s.rootPins,
      s.directMaps.toJson PinMap.toJson]

def SubTile.ofJson? (j : Json) : Option SubTile := do
  match ← j.members? memberNames with
  | [index, name, capacity, sites, ports, numPins, rootPins, directMaps] =>
    return {
      index := ← index.nat? wordLimit
      name := ← name.text?
      capacity := ← CapacityRange.ofJson? capacity
      sites := ← sites.nats? idLimit
      ports := ← ports.list? Port.ofJson?
      numPins := ← numPins.nat? wordLimit
      rootPins := ← rootPins.nats? wordLimit
      directMaps := ← KeyMap.ofJson? idLimit (PinMap.ofJson? wordLimit wordLimit) directMaps }
  | _ => none

def Tile.memberNames : List String :=
  ["id", "name", "num_pins", "sub_tiles", "class_inf", "pin_class", "is_input_type",
    "is_output_type"]

def Tile.toJson (t : Tile) : Json :=
  .record memberNames
    [.number t.id, .text t.name, .number t.numPins, .list (t.subTiles.map SubTile.toJson),
      .list (t.classes.map PinClass.toJson), .nats t.classOfPin, .bool t.isInput,
      .bool t.isOutput]

def Tile.ofJson? (j : Json) : Option Tile := do
  match ← j.members? memberNames with
  | [id, name, numPins, subTiles, classes, classOfPin, isInput, isOutput] =>
    return {
      id := ← id.nat? idLimit
      name := ← name.text?
      numPins := ← numPins.nat? wordLimit
      subTiles := ← subTiles.list? SubTile.ofJson?
      classes := ← classes.list? PinClass.ofJson?
      classOfPin := ← classOfPin.nats? wordLimit
      isInput := ← isInput.bool?
      isOutput := ← isOutput.bool? }
  | _ => none

/-! ## Graph pins, primitives and blocks -/

/-- An owner of pins as a variant. -/
def PinOwner.toJson : PinOwner → Json
  | .root => .text "Root"
  | .primitive position => .object [("Primitive", .number position)]

/-- An owner of pins from a variant. -/
def PinOwner.ofJson? (j : Json) : Option PinOwner := do
  match ← j.variant? with
  | ("Root", .null) => some .root
  | ("Primitive", position) => return .primitive (← position.nat? wordLimit)
  | _ => none

def GraphPin.memberNames : List String := ["owner", "port", "pin_number"]

def GraphPin.toJson (p : GraphPin) : Json :=
  .record memberNames [p.owner.toJson, .number p.port, .number p.pinNumber]

def GraphPin.ofJson? (j : Json) : Option GraphPin := do
  match ← j.members? memberNames with
  | [owner, port, pinNumber] =>
    return {
      owner := ← PinOwner.ofJson? owner
      port := ← port.nat? wordLimit
      pinNumber := ← pinNumber.nat? wordLimit }
  | _ => none

def Primitive.memberNames : List String := ["name", "ports"]

def Primitive.toJson (p : Primitive) : Json :=
  .record memberNames [.text p.name, .list (p.ports.map BlockPort.toJson)]

def Primitive.ofJson? (j : Json) : Option Primitive := do
  match ← j.members? memberNames with
  | [name, ports] => return { name := ← name.text?, ports := ← ports.list? BlockPort.ofJson? }
  | _ => none

def Block.memberNames : List String :=
  ["id", "name", "num_pins", "ports", "primitives", "pb_pins", "pin_ids", "pb_pin_class",
    "primitive_class_inf", "equivalent_tiles"]

def Block.toJson (b : Block) : Json :=
  .record memberNames
    [.number b.id, .text b.name, .number b.numPins, .list (b.ports.map BlockPort.toJson),
      .list (b.primitives.map Primitive.toJson), .list (b.graphPins.map GraphPin.toJson),
      b.logicalPins.toJson, b.classOfGraphPin.toJson Json.number,
      .list (b.primitiveClasses.map PinClass.toJson), .nats b.tiles]

def Block.ofJson? (j : Json) : Option Block := do
  match ← j.members? memberNames with
  | [id, name, numPins, ports, primitives, graphPins, logicalPins, classOfGraphPin,
      primitiveClasses, tiles] =>
    return {
      id := ← id.nat? idLimit
      name := ← name.text?
      numPins := ← numPins.nat? wordLimit
      ports := ← ports.list? BlockPort.ofJson?
      primitives := ← primitives.list? Primitive.ofJson?
      graphPins := ← graphPins.list? GraphPin.ofJson?
      logicalPins := ← PinMap.ofJson? wordLimit idLimit logicalPins
      classOfGraphPin := ← KeyMap.ofJson? idLimit (Json.nat? wordLimit) classOfGraphPin
      primitiveClasses := ← primitiveClasses.list? PinClass.ofJson?
      tiles := ← tiles.nats? idLimit }
  | _ => none

/-! ## Tables -/

def Tables.memberNames : List String := ["tiles", "blocks"]

def Tables.toJson (T : Tables) : Json :=
  .record memberNames [.list (T.tiles.map Tile.toJson), .list (T.blocks.map Block.toJson)]

def Tables.ofJson? (j : Json) : Option Tables := do
  match ← j.members? memberNames with
  | [tiles, blocks] =>
    return { tiles := ← tiles.list? Tile.ofJson?, blocks := ← blocks.list? Block.ofJson? }
  | _ => none

end PinNumbering
