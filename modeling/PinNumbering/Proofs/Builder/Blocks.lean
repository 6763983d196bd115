import PinNumbering.Builder
import PinNumbering.Proofs.FlatPins.Numbered
/-! # Blocks as they are built

The ports of a specification are laid end to end, so the pins of all ports of an owner are one run
of numbers. In a built block the graph pins are listed owner by owner, the root ports first, and
each graph pin has its place in that list as its logical pin. So the logical pins are the numbers
below the number of graph pins, and those on the boundary come first.
-/
set_option autoImplicit false

namespace PinNumbering

/-! ## What the numbers are about -/

/-- A port without its numbers. -/
def Port.toSpec (port : Port) : PortSpec := ⟨port.name, port.kind, port.numPins⟩

/-- A primitive without its numbers. -/
def Primitive.toSpec (primitive : Primitive) : PrimitiveSpec :=
  ⟨primitive.name, primitive.ports.map fun port => port.toPort.toSpec⟩

/-- A block without its numbers. -/
def Block.toSpec (block : Block) : BlockSpec :=
  ⟨block.id, block.name, block.ports.map fun port => port.toPort.toSpec,
    block.primitives.map Primitive.toSpec, block.tiles⟩

/-! ## Ports -/

namespace PortSpec

theorem map_toSpec_portsFrom (index firstPin : Nat) (specs : List PortSpec) :
    (portsFrom index firstPin specs).map Port.toSpec = specs := by
  induction specs generalizing index firstPin with
  | nil => rfl
  | cons spec rest ih => rw [portsFrom, List.map_cons, ih, Port.toSpec]

theorem map_toSpec_blockPorts (base : Nat) (specs : List PortSpec) :
    ((blockPorts base specs).map fun port => port.toPort.toSpec) = specs := by
  rw [blockPorts, List.map_map]
  exact map_toSpec_portsFrom 0 0 specs

theorem map_numPins_portsFrom (index firstPin : Nat) (specs : List PortSpec) :
    (portsFrom index firstPin specs).map Port.numPins = specs.map PortSpec.width := by
  induction specs generalizing index firstPin with
  | nil => rfl
  | cons spec rest ih => rw [portsFrom, List.map_cons, List.map_cons, ih]

theorem map_index_portsFrom (index firstPin : Nat) (specs : List PortSpec) :
    (portsFrom index firstPin specs).map Port.index = List.range' index specs.length := by
  induction specs generalizing index firstPin with
  | nil => rfl
  | cons spec rest ih => rw [portsFrom, List.map_cons, ih, List.length_cons, List.range'_succ]

theorem endToEnd_portsFrom (index firstPin : Nat) (specs : List PortSpec) :
    EndToEnd Port.firstPin Port.numPins firstPin (portsFrom index firstPin specs) := by
  induction specs generalizing index firstPin with
  | nil => rfl
  | cons spec rest ih => exact EndToEnd.cons_iff.2 ⟨rfl, ih (index + 1) (firstPin + spec.width)⟩

theorem length_ports (specs : List PortSpec) : (ports specs).length = specs.length := by
  have h := congrArg List.length (map_numPins_portsFrom 0 0 specs)
  rwa [List.length_map, List.length_map] at h

theorem index_of_getElem?_ports {specs : List PortSpec} {j : Nat} {port : Port}
    (h : (ports specs)[j]? = some port) : port.index = j := by
  have hindices : (ports specs).map Port.index = List.range (ports specs).length := by
    rw [length_ports, List.range_eq_range']
    exact map_index_portsFrom 0 0 specs
  exact eq_of_map_eq_range hindices h

theorem totalOf_ports (specs : List PortSpec) :
    totalOf ((ports specs).map Port.numPins) = totalWidth specs := by
  rw [ports, map_numPins_portsFrom, totalWidth]

theorem endToEnd_ports (specs : List PortSpec) :
    EndToEnd Port.firstPin Port.numPins 0 (ports specs) :=
  endToEnd_portsFrom 0 0 specs

theorem firstPin_add_lt {specs : List PortSpec} {port : Port} (hport : port ∈ ports specs)
    {pin : Nat} (hpin : pin < port.numPins) : port.firstPin + pin < totalWidth specs := by
  have hlt := (endToEnd_ports specs).lt_end hport hpin
  rw [totalOf_ports] at hlt
  omega

/-- The ports of an owner list its pins in order. -/
theorem flatMap_pinsFrom_ports (base : Nat) (specs : List PortSpec) :
    (ports specs).flatMap (Port.pinsFrom base) = List.range' base (totalWidth specs) := by
  have h := ((endToEnd_ports specs).shift base).flatMap_range'
  rw [totalOf_ports] at h
  exact h

theorem length_graphPins (owner : PinOwner) (specs : List PortSpec) :
    (graphPins owner specs).length = totalWidth specs := by
  rw [graphPins, ← totalOf_ports]
  induction ports specs with
  | nil => rfl
  | cons port rest ih =>
    rw [List.flatMap_cons, List.length_append, ih, List.map_cons, totalOf_cons, List.length_map,
      List.length_range]

theorem owner_of_mem_graphPins {owner : PinOwner} {specs : List PortSpec} {pin : GraphPin}
    (h : pin ∈ graphPins owner specs) : pin.owner = owner := by
  obtain ⟨port, -, hpin⟩ := List.mem_flatMap.1 h
  obtain ⟨pinNumber, -, rfl⟩ := List.mem_map.1 hpin
  rfl

end PortSpec

theorem BlockSpec.toSpec_build (spec : BlockSpec) : spec.build.toSpec = spec := by
  have hprimitives : ∀ (base : Nat) (primitives : List PrimitiveSpec),
      (PrimitiveSpec.primitivesFrom base primitives).map Primitive.toSpec = primitives := by
    intro base primitives
    induction primitives generalizing base with
    | nil => rfl
    | cons primitive rest ih =>
      rw [PrimitiveSpec.primitivesFrom, List.map_cons, ih, Primitive.toSpec,
        PortSpec.map_toSpec_blockPorts]
  rw [Block.toSpec, build, PortSpec.map_toSpec_blockPorts, builtPrimitives, hprimitives]

/-! ## Graph pins -/

namespace BlockSpec

/-- The number of pins of a block, root and internal. -/
def totalPins (spec : BlockSpec) : Nat :=
  PortSpec.totalWidth spec.ports +
    totalOf (spec.primitives.map fun primitive => PortSpec.totalWidth primitive.ports)

theorem length_builtGraphPins (spec : BlockSpec) :
    spec.builtGraphPins.length = spec.totalPins := by
  have hprimitives : ∀ (k : Nat) (primitives : List PrimitiveSpec),
      ((primitives.zipIdx k).flatMap fun primitive =>
        PortSpec.graphPins (.primitive primitive.2) primitive.1.ports).length =
        totalOf (primitives.map fun primitive => PortSpec.totalWidth primitive.ports) := by
    intro k primitives
    induction primitives generalizing k with
    | nil => rfl
    | cons primitive rest ih =>
      rw [List.zipIdx_cons, List.flatMap_cons, List.length_append, ih, PortSpec.length_graphPins,
        List.map_cons, totalOf_cons]
  rw [builtGraphPins, List.length_append, PortSpec.length_graphPins, totalPins]
  congr 1
  exact hprimitives 0 spec.primitives

theorem isRoot_iff_of_getElem? {spec : BlockSpec} {pin : Nat} {data : GraphPin}
    (h : spec.builtGraphPins[pin]? = some data) :
    data.isRoot = true ↔ pin < PortSpec.totalWidth spec.ports := by
  have hlength := PortSpec.length_graphPins .root spec.ports
  rw [builtGraphPins] at h
  by_cases hpin : pin < PortSpec.totalWidth spec.ports
  · rw [List.getElem?_append_left (by omega)] at h
    have howner := PortSpec.owner_of_mem_graphPins (List.mem_of_getElem? h)
    simp [GraphPin.isRoot, howner, hpin]
  · rw [List.getElem?_append_right (by omega)] at h
    obtain ⟨⟨primitive, position⟩, -, hmem⟩ := List.mem_flatMap.1 (List.mem_of_getElem? h)
    have howner : data.owner = .primitive position := PortSpec.owner_of_mem_graphPins hmem
    simp [GraphPin.isRoot, howner, hpin]

/-! ## Logical pins -/

/-- Each logical pin of a built block is the graph pin of the same number. -/
theorem pairs_logicalPins (spec : BlockSpec) :
    spec.build.logicalPins.pairs = (List.range spec.totalPins).map fun pin => (pin, pin) := by
  let identity : PinMap :=
    { pairs := (List.range spec.totalPins).map fun pin => (pin, pin)
      ascending := List.pairwise_map.2 List.pairwise_lt_range
      rightsDistinct := List.pairwise_map.2 (List.pairwise_lt_range.imp Nat.ne_of_lt) }
  have hbuilt : spec.build.logicalPins = PinMap.ofList identity.pairs := by
    show PinMap.ofList _ = _
    rw [length_builtGraphPins]
  rw [hbuilt, identity.ofList_pairs]

theorem totalPins_build (spec : BlockSpec) : spec.build.totalPins = spec.totalPins := by
  rw [Block.totalPins, PinMap.size, pairs_logicalPins, List.length_map, List.length_range]

theorem numbered_build (spec : BlockSpec) : spec.build.Numbered where
  logicalPins := by
    rw [totalPins_build, pairs_logicalPins, List.map_map]
    exact List.map_id _
  graphPin := by
    intro pair hpair
    rw [pairs_logicalPins] at hpair
    obtain ⟨pin, hpin, rfl⟩ := List.mem_map.1 hpair
    rw [List.mem_range, ← length_builtGraphPins] at hpin
    have hdata : spec.builtGraphPins[pin]? = some spec.builtGraphPins[pin] :=
      List.getElem?_eq_getElem hpin
    exact ⟨_, hdata, isRoot_iff_of_getElem? hdata⟩

end BlockSpec

end PinNumbering
