/-! # Ports and pin classes

A port is a named run of consecutive pins in the numbering of its owner. The ports of a block also
name the pins of the block's pin graph that they carry. A pin class is a group of interchangeable
pins, which either drive a net or receive from one.
-/
set_option autoImplicit false

namespace PinNumbering

/-! ## Directions -/

/-- Whether the pins of a class drive a net or receive from it. -/
inductive PinType where
  | driver
  | receiver
  deriving DecidableEq, Repr, Inhabited

/-- The name of a pin type. -/
def PinType.text : PinType → String
  | .driver => "Driver"
  | .receiver => "Receiver"

/-- What a port is for. -/
inductive PortKind where
  | input
  | output
  | clock
  deriving DecidableEq, Repr, Inhabited

namespace PortKind

/-- The name of a kind of port. -/
def text : PortKind → String
  | .input => "Input"
  | .output => "Output"
  | .clock => "Clock"

/-- Output pins drive; input and clock pins receive. -/
def pinType : PortKind → PinType
  | .output => .driver
  | .input | .clock => .receiver

end PortKind

/-! ## Classes and ports -/

/-- A group of interchangeable pins, in the numbering of its owner. -/
structure PinClass where
  pinType : PinType
  pins : List Nat
  deriving DecidableEq, Repr, Inhabited

/-- The number of pins in a class. -/
def PinClass.size (c : PinClass) : Nat := c.pins.length

/-- A named run of pins. On a sub tile the numbering is that of one instance. -/
structure Port where
  name : String
  /-- Declared position among the ports of the owner. -/
  index : Nat
  kind : PortKind
  /-- First pin of the run. -/
  firstPin : Nat
  /-- Length of the run. -/
  numPins : Nat
  deriving DecidableEq, Repr, Inhabited

/-- The pin lies in the run of the port. The end of the run is an exact sum here, and one that may
not fit in `Machine.portContains`. -/
def Port.contains (p : Port) (pin : Nat) : Bool :=
  decide (p.firstPin ≤ pin) && decide (pin < p.firstPin + p.numPins)

@[simp] theorem Port.contains_iff (p : Port) (pin : Nat) :
    p.contains pin = true ↔ p.firstPin ≤ pin ∧ pin < p.firstPin + p.numPins := by
  simp [Port.contains]

/-- A pin of a block's pin graph, as its position among the graph pins of the block. -/
abbrev GraphPinId := Nat

/-- A port of a block or of one of its primitives, with the graph pins that it carries. -/
structure BlockPort extends Port where
  pins : List GraphPinId
  deriving DecidableEq, Repr, Inhabited

end PinNumbering
