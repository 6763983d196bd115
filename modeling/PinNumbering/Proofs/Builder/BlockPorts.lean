import PinNumbering.Proofs.Builder.Classes
/-! # Port look-ups of built blocks

A built block numbers its pins three times over: the pin graph lists them owner by owner and port
by port; each port keeps the numbers of its own pins; and the classes count the ports of the
primitives. The look-ups go through one or the other. They agree because all three follow the same
runs: an owner starts where the pins of the owners before it end, and a port where the ports before
it end.

* `BlockSpec.owners`: the owners in the order of their pins; `getElem?_builtGraphPins_iff`, the
  graph pin of a number.
* `Block.Carries`: the pin at a place of a port; `graphPin?_build_iff`, that the pin graph knows it.
* `portContaining?_build_iff`, `portAt?_build_iff`: the port of a root pin and of a logical pin.
* `classOf?_build_iff_carries`, `exists_info_of_classOf?`: the class of a pin by its port.
-/
set_option autoImplicit false

namespace PinNumbering

/-! ## Ports of one owner -/

namespace PortSpec

theorem getElem?_graphPins_iff {owner : PinOwner} {specs : List PortSpec} {n : Nat}
    {data : GraphPin} :
    (graphPins owner specs)[n]? = some data ↔ data.owner = owner ∧
      ∃ port, (ports specs)[data.port]? = some port ∧ data.pinNumber < port.numPins ∧
        n = port.firstPin + data.pinNumber := by
  have hlengths : ∀ j, totalOf (((ports specs).take j).map fun port =>
      ((List.range port.numPins).map fun k => (⟨owner, port.index, k⟩ : GraphPin)).length) =
        totalOf (((ports specs).map Port.numPins).take j) := by
    intro j
    simp only [List.length_map, List.length_range, List.map_take]
  rw [graphPins, getElem?_flatMap_iff]
  simp only [hlengths]
  constructor
  · rintro ⟨j, port, k, hport, hk, rfl⟩
    rw [List.getElem?_map, Option.map_eq_some_iff] at hk
    obtain ⟨k', hk, rfl⟩ := hk
    obtain ⟨hlt, rfl⟩ := List.getElem?_eq_some_iff.1 hk
    rw [List.length_range] at hlt
    have hindex := index_of_getElem?_ports hport
    have hstart := (endToEnd_ports specs).start_eq hport
    refine ⟨rfl, port, ?_, ?_, ?_⟩
    · rw [hindex]
      exact hport
    · rw [List.getElem_range]
      exact hlt
    · rw [hstart, List.getElem_range, Nat.zero_add]
  · rintro ⟨rfl, port, hport, hk, rfl⟩
    have hindex := index_of_getElem?_ports hport
    have hstart := (endToEnd_ports specs).start_eq hport
    refine ⟨data.port, port, data.pinNumber, hport, ?_, by omega⟩
    rw [List.getElem?_map, List.getElem?_range hk, Option.map_some, hindex]

theorem getElem?_blockPorts_iff {base : Nat} {specs : List PortSpec} {j : Nat}
    {port : BlockPort} :
    (blockPorts base specs)[j]? = some port ↔
      (ports specs)[j]? = some port.toPort ∧ port.pins = port.toPort.pinsFrom base := by
  rw [blockPorts, List.getElem?_map, Option.map_eq_some_iff]
  constructor
  · rintro ⟨own, hown, rfl⟩
    exact ⟨hown, rfl⟩
  · rintro ⟨hown, hpins⟩
    exact ⟨port.toPort, hown, by rw [← hpins]⟩

end PortSpec

theorem Port.getElem?_pinsFrom_iff {port : Port} {base k pin : Nat} :
    (port.pinsFrom base)[k]? = some pin ↔ k < port.numPins ∧ pin = base + (port.firstPin + k) := by
  rw [pinsFrom, List.getElem?_eq_some_iff]
  simp only [List.length_range', List.getElem_range', Nat.one_mul, exists_prop, Nat.add_assoc]
  rw [eq_comm (a := pin)]

/-! ## All owners -/

theorem PrimitiveSpec.getElem?_primitivesFrom (base i : Nat) (primitives : List PrimitiveSpec) :
    (primitivesFrom base primitives)[i]? = primitives[i]?.map fun primitive =>
      ⟨primitive.name, PortSpec.blockPorts (base + totalOf ((primitives.take i).map
        fun before => PortSpec.totalWidth before.ports)) primitive.ports⟩ := by
  induction primitives generalizing base i with
  | nil => rfl
  | cons primitive rest ih =>
    cases i with
    | zero => rfl
    | succ i =>
      rw [primitivesFrom, List.getElem?_cons_succ, ih, List.getElem?_cons_succ,
        List.take_succ_cons, List.map_cons, totalOf_cons]
      simp only [Nat.add_assoc]

namespace BlockSpec
variable (spec : BlockSpec)

/-- The owners of pins in the order of their graph pins, with their ports. -/
def owners : List (PinOwner × List PortSpec) :=
  (.root, spec.ports) :: spec.primitives.zipIdx.map fun x => (.primitive x.2, x.1.ports)

/-- Position of an owner among the owners. -/
def ownerPosition : PinOwner → Nat
  | .root => 0
  | .primitive i => i + 1

/-- Number of graph pins before those of an owner. -/
def pinsBefore (owner : PinOwner) : Nat :=
  totalOf ((spec.owners.take (ownerPosition owner)).map fun x => PortSpec.totalWidth x.2)

theorem getElem?_owners_primitive_iff {i : Nat} {x : PinOwner × List PortSpec} :
    spec.owners[i + 1]? = some x ↔
      ∃ primitive, spec.primitives[i]? = some primitive ∧ x = (.primitive i, primitive.ports) := by
  rw [owners, List.getElem?_cons_succ, List.getElem?_map, List.getElem?_zipIdx, Option.map_map,
    Option.map_eq_some_iff, Nat.zero_add]
  simp only [Function.comp_apply, eq_comm]

theorem position_eq_of_getElem?_owners {m : Nat} {x : PinOwner × List PortSpec}
    (h : spec.owners[m]? = some x) : m = ownerPosition x.1 := by
  cases m with
  | zero =>
    obtain rfl : (.root, spec.ports) = x := Option.some.inj h
    rfl
  | succ i =>
    obtain ⟨primitive, -, rfl⟩ := (getElem?_owners_primitive_iff spec).1 h
    rfl

/-- A graph pin is a place of a port of an owner, counted on from where the owner starts. -/
theorem getElem?_builtGraphPins_iff {n : Nat} {data : GraphPin} :
    spec.builtGraphPins[n]? = some data ↔ ∃ specs,
      spec.owners[ownerPosition data.owner]? = some (data.owner, specs) ∧
      ∃ port, (PortSpec.ports specs)[data.port]? = some port ∧ data.pinNumber < port.numPins ∧
        n = spec.pinsBefore data.owner + (port.firstPin + data.pinNumber) := by
  have hjoined : spec.builtGraphPins =
      spec.owners.flatMap fun x => PortSpec.graphPins x.1 x.2 := by
    rw [owners, List.flatMap_cons, List.flatMap_map]
    rfl
  rw [hjoined, getElem?_flatMap_iff]
  simp only [PortSpec.length_graphPins, PortSpec.getElem?_graphPins_iff]
  constructor
  · rintro ⟨m, ⟨owner, specs⟩, k, hm, ⟨howner, port, hport, hk, rfl⟩, rfl⟩
    obtain rfl : data.owner = owner := howner
    obtain rfl := spec.position_eq_of_getElem?_owners hm
    exact ⟨specs, hm, port, hport, hk, rfl⟩
  · rintro ⟨specs, hm, port, hport, hk, rfl⟩
    exact ⟨_, _, _, hm, ⟨rfl, port, hport, hk, rfl⟩, rfl⟩

theorem pinsBefore_primitive (i : Nat) :
    spec.pinsBefore (.primitive i) = PortSpec.totalWidth spec.ports +
      totalOf ((spec.primitives.take i).map fun before => PortSpec.totalWidth before.ports) := by
  rw [pinsBefore, ownerPosition, owners, List.take_succ_cons, List.map_cons, totalOf_cons,
    ← List.map_take, List.map_map]
  conv => rhs; rw [← List.zipIdx_map_fst 0 spec.primitives, ← List.map_take, List.map_map]
  rfl

theorem portsOf?_build_iff {owner : PinOwner} {ports : List BlockPort} :
    spec.build.portsOf? owner = some ports ↔ ∃ specs,
      spec.owners[ownerPosition owner]? = some (owner, specs) ∧
      ports = PortSpec.blockPorts (spec.pinsBefore owner) specs := by
  cases owner with
  | root =>
    constructor
    · intro h
      exact ⟨spec.ports, rfl, (Option.some.inj h).symm⟩
    · rintro ⟨specs, hspecs, rfl⟩
      obtain ⟨-, rfl⟩ := Prod.mk.inj (Option.some.inj hspecs)
      rfl
  | primitive i =>
    have hports : spec.build.portsOf? (.primitive i) =
        (spec.builtPrimitives[i]?).map Primitive.ports := rfl
    rw [hports, builtPrimitives, PrimitiveSpec.getElem?_primitivesFrom, Option.map_map,
      Option.map_eq_some_iff, ← pinsBefore_primitive]
    simp only [ownerPosition, getElem?_owners_primitive_iff]
    constructor
    · rintro ⟨primitive, hprimitive, rfl⟩
      exact ⟨primitive.ports, ⟨primitive, hprimitive, rfl⟩, rfl⟩
    · rintro ⟨specs, ⟨primitive, hprimitive, heq⟩, rfl⟩
      obtain ⟨-, rfl⟩ := Prod.mk.inj heq
      exact ⟨primitive, hprimitive, rfl⟩

end BlockSpec

/-! ## Graph pins and the ports that carry them -/

/-- The pin stands at a place of a port: its owner has the port at that position, and the port lists
the pin there. -/
def Block.Carries (block : Block) (place : GraphPin) (port : BlockPort) (pin : GraphPinId) : Prop :=
  ∃ ports, block.portsOf? place.owner = some ports ∧ ports[place.port]? = some port ∧
    port.pins[place.pinNumber]? = some pin

theorem Block.Carries.port_unique {block : Block} {place : GraphPin} {port port' : BlockPort}
    {pin pin' : GraphPinId} (h : block.Carries place port pin)
    (h' : block.Carries place port' pin') : port = port' := by
  obtain ⟨ports, howner, hport, -⟩ := h
  obtain ⟨ports', howner', hport', -⟩ := h'
  rw [howner, Option.some.injEq] at howner'
  rw [← howner', hport, Option.some.injEq] at hport'
  exact hport'

theorem Block.Carries.getElem?_pins {block : Block} {place : GraphPin} {port : BlockPort}
    {pin : GraphPinId} (h : block.Carries place port pin) :
    port.pins[place.pinNumber]? = some pin := by
  obtain ⟨-, -, -, hpin⟩ := h
  exact hpin

theorem Block.Carries.exists_primitive {block : Block} {place : GraphPin} {port : BlockPort}
    {pin : GraphPinId} {i : Nat} (h : block.Carries place port pin)
    (howner : place.owner = .primitive i) :
    ∃ primitive ∈ block.primitives, port ∈ primitive.ports := by
  obtain ⟨ports, hports, hport, -⟩ := h
  rw [howner] at hports
  obtain ⟨primitive, hprimitive, rfl⟩ := Option.map_eq_some_iff.1 hports
  exact ⟨primitive, List.mem_of_getElem? hprimitive, List.mem_of_getElem? hport⟩

theorem Block.portOf?_eq_some_iff {block : Block} {pin : GraphPinId} {port : BlockPort} :
    block.portOf? pin = some port ↔ ∃ place, block.graphPin? pin = some place ∧
      ∃ ports, block.portsOf? place.owner = some ports ∧ ports[place.port]? = some port := by
  simp only [portOf?, Option.bind_eq_bind, Option.bind_eq_some_iff]

namespace BlockSpec
variable (spec : BlockSpec)

theorem carries_build_iff {place : GraphPin} {port : BlockPort} {pin : Nat} :
    spec.build.Carries place port pin ↔ ∃ specs,
      spec.owners[ownerPosition place.owner]? = some (place.owner, specs) ∧
      (PortSpec.ports specs)[place.port]? = some port.toPort ∧
      port.pins = port.toPort.pinsFrom (spec.pinsBefore place.owner) ∧
      place.pinNumber < port.numPins ∧
      pin = spec.pinsBefore place.owner + (port.firstPin + place.pinNumber) := by
  simp only [Block.Carries, portsOf?_build_iff]
  constructor
  · rintro ⟨_, ⟨specs, howner, rfl⟩, hport, hpin⟩
    obtain ⟨hport, hpins⟩ := PortSpec.getElem?_blockPorts_iff.1 hport
    rw [hpins, Port.getElem?_pinsFrom_iff] at hpin
    exact ⟨specs, howner, hport, hpins, hpin⟩
  · rintro ⟨specs, howner, hport, hpins, hpin⟩
    refine ⟨_, ⟨specs, howner, rfl⟩, PortSpec.getElem?_blockPorts_iff.2 ⟨hport, hpins⟩, ?_⟩
    rw [hpins, Port.getElem?_pinsFrom_iff]
    exact hpin

/-- The pin graph knows a pin by the place where a port carries it, so no pin has two places. -/
theorem graphPin?_build_iff {place : GraphPin} {pin : Nat} :
    spec.build.graphPin? pin = some place ↔ ∃ port, spec.build.Carries place port pin := by
  have hgraph : spec.build.graphPin? pin = spec.builtGraphPins[pin]? := rfl
  simp only [hgraph, getElem?_builtGraphPins_iff, carries_build_iff]
  constructor
  · rintro ⟨specs, howner, port, hport, hk, hpin⟩
    exact ⟨⟨port, port.pinsFrom (spec.pinsBefore place.owner)⟩, specs, howner, hport, rfl, hk,
      hpin⟩
  · rintro ⟨port, specs, howner, hport, -, hk, hpin⟩
    exact ⟨specs, howner, port.toPort, hport, hk, hpin⟩

theorem portOf?_build_iff {port : BlockPort} {pin : Nat} :
    spec.build.portOf? pin = some port ↔ ∃ place, spec.build.Carries place port pin := by
  rw [Block.portOf?_eq_some_iff]
  constructor
  · rintro ⟨place, hplace, ports, howner, hport⟩
    obtain ⟨port', hcarries⟩ := spec.graphPin?_build_iff.1 hplace
    obtain ⟨ports', howner', hport', hpin⟩ := hcarries
    rw [howner, Option.some.injEq] at howner'
    rw [← howner', hport, Option.some.injEq] at hport'
    rw [← hport'] at hpin
    exact ⟨place, ports, howner, hport, hpin⟩
  · rintro ⟨place, hcarries⟩
    have hplace := spec.graphPin?_build_iff.2 ⟨port, hcarries⟩
    obtain ⟨ports, howner, hport, -⟩ := hcarries
    exact ⟨place, hplace, ports, howner, hport⟩

theorem carries_unique {place place' : GraphPin} {port port' : BlockPort} {pin : Nat}
    (h : spec.build.Carries place port pin) (h' : spec.build.Carries place' port' pin) :
    place = place' := by
  have hplace := spec.graphPin?_build_iff.2 ⟨port, h⟩
  have hplace' := spec.graphPin?_build_iff.2 ⟨port', h'⟩
  rw [hplace, Option.some.injEq] at hplace'
  exact hplace'

/-! ## The search by root pin -/

theorem carries_root_iff {j k pin : Nat} {port : BlockPort} :
    spec.build.Carries ⟨.root, j, k⟩ port pin ↔
      spec.build.ports[j]? = some port ∧ k < port.numPins ∧ pin = port.firstPin + k := by
  have hports : spec.build.ports = PortSpec.blockPorts 0 spec.ports := rfl
  have howner : spec.build.portsOf? .root = some spec.build.ports := rfl
  simp only [Block.Carries, howner, Option.some.injEq, exists_eq_left']
  refine and_congr_right ?_
  intro hport
  rw [hports] at hport
  obtain ⟨-, hpins⟩ := PortSpec.getElem?_blockPorts_iff.1 hport
  rw [hpins, Port.getElem?_pinsFrom_iff, Nat.zero_add]

theorem portContaining?_build_iff {port : BlockPort} {pin : Nat} :
    spec.build.portContaining? pin = some port ↔
      ∃ j k, spec.build.Carries ⟨.root, j, k⟩ port pin := by
  have hdisjoint : spec.build.ports.Pairwise fun x y =>
      ¬ (x.toPort.contains pin = true ∧ y.toPort.contains pin = true) := by
    have hports : spec.build.ports = PortSpec.blockPorts 0 spec.ports := rfl
    rw [hports, PortSpec.blockPorts, List.pairwise_map]
    simp only [Port.contains_iff]
    exact (PortSpec.endToEnd_ports spec.ports).disjoint pin
  rw [Block.portContaining?, find?_eq_some_iff_of_pairwise hdisjoint, Port.contains_iff]
  simp only [carries_root_iff]
  constructor
  · rintro ⟨hmem, hlo, hhi⟩
    obtain ⟨j, hj⟩ := List.getElem?_of_mem hmem
    exact ⟨j, pin - port.firstPin, hj, by omega, by omega⟩
  · rintro ⟨j, k, hj, hk, rfl⟩
    exact ⟨List.mem_of_getElem? hj, by omega, by omega⟩

/-! ## Classes -/

theorem exists_classPort_iff {port : BlockPort} {pin : Nat} :
    port ∈ spec.classPorts ∧ pin ∈ port.pins ↔
      ∃ i j k, spec.build.Carries ⟨.primitive i, j, k⟩ port pin := by
  have hports : ∀ i, spec.build.portsOf? (.primitive i) =
      spec.builtPrimitives[i]?.map Primitive.ports := fun _ => rfl
  simp only [Block.Carries, hports, classPorts, List.mem_flatMap, Option.map_eq_some_iff]
  constructor
  · rintro ⟨⟨primitive, hprimitive, hport⟩, hpin⟩
    obtain ⟨i, hi⟩ := List.getElem?_of_mem hprimitive
    obtain ⟨j, hj⟩ := List.getElem?_of_mem hport
    obtain ⟨k, hk⟩ := List.getElem?_of_mem hpin
    exact ⟨i, j, k, _, ⟨primitive, hi, rfl⟩, hj, hk⟩
  · rintro ⟨i, j, k, _, ⟨primitive, hi, rfl⟩, hj, hk⟩
    exact ⟨⟨primitive, List.mem_of_getElem? hi, List.mem_of_getElem? hj⟩,
      List.mem_of_getElem? hk⟩

theorem classOf?_build_iff_carries {pin cls : Nat} :
    spec.build.classOf? pin = some cls ↔ ∃ port i j k, spec.classPorts[cls]? = some port ∧
      spec.build.Carries ⟨.primitive i, j, k⟩ port pin := by
  rw [classOf?_build_iff]
  constructor
  · rintro ⟨port, hcls, hpin⟩
    obtain ⟨i, j, k, hcarries⟩ :=
      spec.exists_classPort_iff.1 ⟨List.mem_of_getElem? hcls, hpin⟩
    exact ⟨port, i, j, k, hcls, hcarries⟩
  · rintro ⟨port, i, j, k, hcls, hcarries⟩
    exact ⟨port, hcls, (spec.exists_classPort_iff.2 ⟨i, j, k, hcarries⟩).2⟩

/-- The class of a pin has the type of the port that carries the pin, and no other lists the pin. -/
theorem exists_info_of_classOf? {place : GraphPin} {port : BlockPort} {pin cls : Nat}
    (h : spec.build.Carries place port pin) (hcls : spec.build.classOf? pin = some cls) :
    ∃ info, spec.build.primitiveClasses[cls]? = some info ∧ pin ∈ info.pins ∧
      info.pinType = port.kind.pinType ∧
      ∀ cls' info', spec.build.primitiveClasses[cls']? = some info' → pin ∈ info'.pins →
        cls' = cls := by
  obtain ⟨port', i, j, k, hport', h'⟩ := spec.classOf?_build_iff_carries.1 hcls
  obtain rfl := spec.carries_unique h h'
  obtain rfl := h.port_unique h'
  have hinfo : spec.build.primitiveClasses[cls]? = some ⟨port.kind.pinType, port.pins⟩ := by
    show (spec.classPorts.map _)[cls]? = _
    rw [List.getElem?_map, hport', Option.map_some]
  refine ⟨_, hinfo, List.mem_of_getElem? h.getElem?_pins, rfl, ?_⟩
  intro cls' info' hinfo' hmem'
  have hcls' := (spec.classified_build.classOf?_eq_some_iff pin cls').2 ⟨info', hinfo', hmem'⟩
  rw [hcls, Option.some.injEq] at hcls'
  exact hcls'.symm

/-! ## Logical pins -/

theorem graphPinAt?_build_iff {l pin : Nat} :
    spec.build.graphPinAt? l = some pin ↔ pin = l ∧ l < spec.build.totalPins := by
  rw [Block.graphPinAt?, PinMap.right?_eq_some_iff, spec.classified_build.mem_logicalPins_iff]

theorem logicalPin?_build_iff {l pin : Nat} :
    spec.build.logicalPin? pin = some l ↔ l = pin ∧ pin < spec.build.totalPins := by
  rw [Block.logicalPin?, PinMap.left?_eq_some_iff, spec.classified_build.mem_logicalPins_iff]
  constructor
  · rintro ⟨rfl, h⟩
    exact ⟨rfl, h⟩
  · rintro ⟨rfl, h⟩
    exact ⟨rfl, h⟩

theorem exists_graphPin?_build_iff {pin : Nat} :
    (∃ place, spec.build.graphPin? pin = some place) ↔ pin < spec.build.totalPins := by
  have hgraph : spec.build.graphPin? pin = spec.builtGraphPins[pin]? := rfl
  rw [hgraph, totalPins_build, ← length_builtGraphPins, ← Option.isSome_iff_exists,
    isSome_getElem?]

theorem owner_eq_root_iff {place : GraphPin} {pin : Nat}
    (h : spec.build.graphPin? pin = some place) :
    place.owner = .root ↔ pin < spec.build.numPins := by
  have hroot := @isRoot_iff_of_getElem? spec pin place h
  rw [GraphPin.isRoot, beq_iff_eq] at hroot
  exact hroot

theorem exists_carries_of_lt {pin : Nat} (h : pin < spec.build.totalPins) :
    ∃ place port, spec.build.Carries place port pin := by
  obtain ⟨place, hplace⟩ := spec.exists_graphPin?_build_iff.2 h
  obtain ⟨port, hcarries⟩ := spec.graphPin?_build_iff.1 hplace
  exact ⟨place, port, hcarries⟩

theorem lt_totalPins_of_carries {place : GraphPin} {port : BlockPort} {pin : Nat}
    (h : spec.build.Carries place port pin) : pin < spec.build.totalPins :=
  spec.exists_graphPin?_build_iff.1 ⟨place, spec.graphPin?_build_iff.2 ⟨port, h⟩⟩

theorem portAt?_build_iff {port : BlockPort} {l : Nat} :
    spec.build.portAt? l = some port ↔ ∃ place, spec.build.Carries place port l := by
  simp only [Block.portAt?, Option.bind_eq_bind, Option.bind_eq_some_iff, graphPinAt?_build_iff,
    portOf?_build_iff]
  constructor
  · rintro ⟨pin, ⟨rfl, -⟩, hcarries⟩
    exact hcarries
  · rintro ⟨place, hcarries⟩
    exact ⟨l, ⟨rfl, spec.lt_totalPins_of_carries hcarries⟩, place, hcarries⟩

theorem owner_eq_root_iff_of_carries {place : GraphPin} {port : BlockPort} {pin : Nat}
    (h : spec.build.Carries place port pin) :
    place.owner = .root ↔ pin < spec.build.numPins :=
  spec.owner_eq_root_iff (spec.graphPin?_build_iff.2 ⟨port, h⟩)

theorem portContaining?_build_eq_none {pin : Nat} (h : spec.build.numPins ≤ pin) :
    spec.build.portContaining? pin = none := by
  refine Option.eq_none_iff_forall_ne_some.2 ?_
  intro port hport
  obtain ⟨j, k, hcarries⟩ := spec.portContaining?_build_iff.1 hport
  have := (spec.owner_eq_root_iff_of_carries hcarries).1 rfl
  omega

theorem numPins_le_totalPins_build : spec.build.numPins ≤ spec.build.totalPins := by
  rw [totalPins_build, totalPins]
  exact Nat.le_add_right _ _

end BlockSpec

/-- The look-ups of ports in a built block follow its pin graph. A root pin has the same root port
by its run and by its graph pin, and its place there is the one that the pin graph tells; an
internal pin has a port of a primitive and no root port. Each graph pin stands in its own port, at
its own place and nowhere else. The pins of the primitives are those with a class: the only class
that lists the logical number of the pin, and of the type of its port. -/
theorem BlockSpec.portLookups_agree (spec : BlockSpec) :
    (∀ l, l < spec.build.numPins → ∃ port ∈ spec.build.ports,
      spec.build.portAt? l = some port ∧ spec.build.portContaining? l = some port ∧
      ∃ pin place, spec.build.graphPinAt? l = some pin ∧ spec.build.graphPin? pin = some place ∧
        l = port.firstPin + place.pinNumber) ∧
    (∀ l, spec.build.numPins ≤ l → l < spec.build.totalPins →
      spec.build.portContaining? l = none ∧ ∃ primitive ∈ spec.build.primitives,
        ∃ port ∈ primitive.ports, spec.build.portAt? l = some port) ∧
    (∀ pin place, spec.build.graphPin? pin = some place → ∃ port,
      spec.build.portOf? pin = some port ∧ port.pins[place.pinNumber]? = some pin ∧
      (∀ place' port', spec.build.Carries place' port' pin → place' = place ∧ port' = port) ∧
      ∀ cls, spec.build.classOf? pin = some cls → ∃ l info,
        spec.build.logicalPin? pin = some l ∧ spec.build.primitiveClasses[cls]? = some info ∧
        l ∈ info.pins ∧ info.pinType = port.kind.pinType ∧
        ∀ cls' info', spec.build.primitiveClasses[cls']? = some info' → l ∈ info'.pins →
          cls' = cls) ∧
    ∀ pin, (∃ cls, spec.build.classOf? pin = some cls) ↔
      ∃ place i, spec.build.graphPin? pin = some place ∧ place.owner = .primitive i := by
  refine ⟨?_, ?_, ?_, ?_⟩
  · intro l hl
    have htotal := spec.numPins_le_totalPins_build
    obtain ⟨place, port, hcarries⟩ := spec.exists_carries_of_lt (Nat.lt_of_lt_of_le hl htotal)
    obtain ⟨owner, j, k⟩ := place
    obtain rfl : owner = .root := (spec.owner_eq_root_iff_of_carries hcarries).2 hl
    have hcontaining := spec.portContaining?_build_iff.2 ⟨j, k, hcarries⟩
    refine ⟨port, List.mem_of_find?_eq_some hcontaining, spec.portAt?_build_iff.2 ⟨_, hcarries⟩,
      hcontaining, l, ⟨.root, j, k⟩, spec.graphPinAt?_build_iff.2 ⟨rfl, by omega⟩,
      spec.graphPin?_build_iff.2 ⟨port, hcarries⟩, ?_⟩
    exact (spec.carries_root_iff.1 hcarries).2.2
  · intro l hlo hhi
    obtain ⟨place, port, hcarries⟩ := spec.exists_carries_of_lt hhi
    have hroot := spec.owner_eq_root_iff_of_carries hcarries
    refine ⟨spec.portContaining?_build_eq_none hlo, ?_⟩
    cases howner : place.owner with
    | root =>
      have := hroot.1 howner
      omega
    | primitive i =>
      obtain ⟨primitive, hprimitive, hport⟩ := hcarries.exists_primitive howner
      exact ⟨primitive, hprimitive, port, hport, spec.portAt?_build_iff.2 ⟨place, hcarries⟩⟩
  · intro pin place hplace
    obtain ⟨port, hcarries⟩ := spec.graphPin?_build_iff.1 hplace
    refine ⟨port, spec.portOf?_build_iff.2 ⟨place, hcarries⟩, hcarries.getElem?_pins, ?_, ?_⟩
    · intro place' port' hcarries'
      obtain rfl := spec.carries_unique hcarries hcarries'
      exact ⟨rfl, hcarries'.port_unique hcarries⟩
    · intro cls hcls
      have hlt := spec.lt_totalPins_of_carries hcarries
      obtain ⟨info, hinfo⟩ := spec.exists_info_of_classOf? hcarries hcls
      exact ⟨pin, info, spec.logicalPin?_build_iff.2 ⟨rfl, hlt⟩, hinfo⟩
  · intro pin
    constructor
    · rintro ⟨cls, hcls⟩
      obtain ⟨port, i, j, k, -, hcarries⟩ := spec.classOf?_build_iff_carries.1 hcls
      exact ⟨_, i, spec.graphPin?_build_iff.2 ⟨port, hcarries⟩, rfl⟩
    · rintro ⟨place, i, hplace, howner⟩
      have hroot := spec.owner_eq_root_iff hplace
      have hlt := spec.exists_graphPin?_build_iff.1 ⟨place, hplace⟩
      rw [howner] at hroot
      refine (spec.classified_build.exists_classOf?_iff pin).2 ⟨Nat.le_of_not_lt ?_, hlt⟩
      exact fun h => PinOwner.noConfusion (hroot.2 h)

/-- In the first of the uneven blocks, root pin 3 is the second pin of the second port "in", behind
a port without width, and pin 6 is the second pin of port "q" of the cell, which is class 1. -/
theorem Samples.uneven_portLookups :
    ∃ spec, unevenBlocks[0]? = some spec ∧
      spec.build.graphPin? 3 = some ⟨.root, 2, 1⟩ ∧
      spec.build.graphPin? 6 = some ⟨.primitive 0, 1, 1⟩ ∧
      (∃ port ∈ spec.build.ports, spec.build.portAt? 3 = some port ∧
        spec.build.portContaining? 3 = some port) ∧
      spec.build.portContaining? 6 = none ∧ spec.build.classOf? 6 = some 1 ∧
      ∃ port, spec.build.portOf? 6 = some port ∧
        ∀ place' port', spec.build.Carries place' port' 6 →
          place' = ⟨.primitive 0, 1, 1⟩ ∧ port' = port := by
  refine ⟨_, rfl, rfl, rfl, ?_, ?_, rfl, ?_⟩
  · obtain ⟨hroot, -, -, -⟩ := BlockSpec.portLookups_agree unevenBlocks[0]
    obtain ⟨port, hport, hat, hcontaining, -⟩ := hroot 3 (by decide)
    exact ⟨port, hport, hat, hcontaining⟩
  · obtain ⟨-, hinternal, -, -⟩ := BlockSpec.portLookups_agree unevenBlocks[0]
    exact (hinternal 6 (by decide) (by decide)).1
  · obtain ⟨-, -, hplaces, -⟩ := BlockSpec.portLookups_agree unevenBlocks[0]
    obtain ⟨port, hport, -, honly, -⟩ := hplaces 6 _ rfl
    exact ⟨port, hport, honly⟩

end PinNumbering
