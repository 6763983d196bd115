import PinNumbering.PinMap
import PinNumbering.Port
/-! # Logical blocks

A block has root pins on its boundary and internal pins on the primitives nested in it. Its logical
numbering counts the root pins first and the internal pins after them; its pin graph knows every pin
by a handle of its own. `Block.logicalPins` relates the two.

* `graphPinAt?`, `logicalPin?`, `graphPin?` and `classOf?`: from one way of naming a pin to another.
* Ports by name, by root pin, by graph pin and by logical pin.
-/
set_option autoImplicit false

namespace PinNumbering

/-- A block, as its position in the tables. -/
abbrev BlockId := Nat

/-- A tile, as its position in the tables. -/
abbrev TileId := Nat

/-- What carries a graph pin: the boundary of the block or one of its primitives. -/
inductive PinOwner where
  | root
  | primitive (position : Nat)
  deriving DecidableEq, Repr, Inhabited

/-- A pin of a block's pin graph: the port that carries it and its place there. -/
structure GraphPin where
  owner : PinOwner
  /-- Position of the port among the ports of the owner. -/
  port : Nat
  /-- Place of the pin within the port. -/
  pinNumber : Nat
  deriving DecidableEq, Repr, Inhabited

/-- The pin is on the boundary of its block. -/
def GraphPin.isRoot (pin : GraphPin) : Bool := pin.owner == .root

/-- A part of a block that has no parts of its own. -/
structure Primitive where
  name : String
  ports : List BlockPort
  deriving DecidableEq, Repr, Inhabited

/-- A logical block. -/
structure Block where
  id : BlockId
  name : String
  /-- Number of root pins. -/
  numPins : Nat
  /-- Root ports. -/
  ports : List BlockPort
  primitives : List Primitive
  /-- Every graph pin, at its handle. -/
  graphPins : List GraphPin
  /-- Logical pins (left) and graph pins (right). -/
  logicalPins : PinMap
  /-- Primitive class of each classified graph pin. -/
  classOfGraphPin : KeyMap Nat
  /-- Classes of the pins of the primitives. -/
  primitiveClasses : List PinClass
  /-- Tiles that host the block, the preferred one first. -/
  tiles : List TileId
  deriving DecidableEq, Repr, Inhabited

namespace Block

/-- The number of logical pins, root and internal. -/
def totalPins (b : Block) : Nat := b.logicalPins.size

/-- The logical pin of a graph pin. -/
def logicalPin? (b : Block) (pin : GraphPinId) : Option Nat := b.logicalPins.left? pin

/-- The graph pin with a logical number. -/
def graphPinAt? (b : Block) (logicalPin : Nat) : Option GraphPinId :=
  b.logicalPins.right? logicalPin

/-- The pin behind a handle. -/
def graphPin? (b : Block) (pin : GraphPinId) : Option GraphPin := b.graphPins[pin]?

/-- The primitive class of a graph pin. -/
def classOf? (b : Block) (pin : GraphPinId) : Option Nat := b.classOfGraphPin.find? pin

/-! ## Ports -/

/-- The first root port of a name. -/
def portNamed? (b : Block) (name : String) : Option BlockPort :=
  b.ports.find? fun port => port.name == name

/-- The first root port whose run contains a root pin. -/
def portContaining? (b : Block) (pin : Nat) : Option BlockPort :=
  b.ports.find? fun port => port.contains pin

/-- The ports of an owner of pins. -/
def portsOf? (b : Block) : PinOwner → Option (List BlockPort)
  | .root => some b.ports
  | .primitive position => b.primitives[position]?.map Primitive.ports

/-- The port that carries a graph pin. -/
def portOf? (b : Block) (pin : GraphPinId) : Option BlockPort := do
  let data ← b.graphPin? pin
  let ports ← b.portsOf? data.owner
  ports[data.port]?

/-- The port that carries the pin with a logical number. -/
def portAt? (b : Block) (logicalPin : Nat) : Option BlockPort := do
  let pin ← b.graphPinAt? logicalPin
  b.portOf? pin

end Block

end PinNumbering
