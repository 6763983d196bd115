import PinNumbering.Proofs.Builder.Blocks
/-! # Tiles as they are built

The sub tiles of a built tile are its slots, each with the root pins that follow those of the slots
before it. A slot numbers the pins of an instance by its ports, and lists its instances one after
the other. The classes of the tile are the ports of its instances in the same order, so together
they list the root pins in order, and the class of a root pin is the only one that lists it.
-/
set_option autoImplicit false

namespace PinNumbering

/-! ## Sub tiles -/

/-- A sub tile without its numbers. -/
def SubTile.toSpec (s : SubTile) : SlotSpec :=
  ⟨s.name, s.capacity, s.sites, s.ports.map Port.toSpec⟩

/-- A tile without its numbers. -/
def Tile.toSpec (tile : Tile) : TileSpec := ⟨tile.id, tile.name, tile.subTiles.map SubTile.toSpec⟩

namespace SlotSpec

theorem map_toSpec_buildFrom (blocks : List Block) (position base : Nat) (slots : List SlotSpec) :
    (buildFrom blocks position base slots).map SubTile.toSpec = slots := by
  induction slots generalizing position base with
  | nil => rfl
  | cons slot rest ih =>
    rw [buildFrom, List.map_cons, ih, SubTile.toSpec, build, PortSpec.ports,
      PortSpec.map_toSpec_portsFrom]

theorem map_numPins_buildFrom (blocks : List Block) (position base : Nat) (slots : List SlotSpec) :
    (buildFrom blocks position base slots).map SubTile.numPins = slots.map numPins := by
  induction slots generalizing position base with
  | nil => rfl
  | cons slot rest ih => rw [buildFrom, List.map_cons, List.map_cons, ih, build]

theorem getElem?_buildFrom (blocks : List Block) (position base : Nat) (slots : List SlotSpec)
    (i : Nat) :
    (buildFrom blocks position base slots)[i]? = slots[i]?.map fun slot =>
      slot.build blocks (position + i) (base + totalOf ((slots.map numPins).take i)) := by
  induction slots generalizing position base i with
  | nil => rfl
  | cons slot rest ih =>
    cases i with
    | zero => rfl
    | succ i =>
      have hposition : position + 1 + i = position + (i + 1) := by omega
      rw [buildFrom, List.getElem?_cons_succ, ih, List.getElem?_cons_succ, List.map_cons,
        List.take_succ_cons, totalOf_cons, hposition, Nat.add_assoc]

section Build
variable {slot : SlotSpec} {blocks : List Block} {position base : Nat}

theorem pinsPerInstance_build (h : slot.capacity.low ≤ slot.capacity.high) :
    (slot.build blocks position base).pinsPerInstance = slot.pinsPerInstance :=
  Nat.mul_div_cancel _ (slot.capacity.total_pos_iff.2 h)

theorem portsIndexed_build : (slot.build blocks position base).PortsIndexed := by
  show (PortSpec.ports slot.ports).map Port.index = List.range (PortSpec.ports slot.ports).length
  rw [PortSpec.length_ports, List.range_eq_range']
  exact PortSpec.map_index_portsFrom 0 0 slot.ports

theorem portsFill_build (h : slot.capacity.low ≤ slot.capacity.high) :
    (slot.build blocks position base).PortsFill where
  endToEnd := PortSpec.endToEnd_ports slot.ports
  total_eq := by
    rw [pinsPerInstance_build h]
    exact PortSpec.totalOf_ports slot.ports

end Build

end SlotSpec

/-! ## Direct maps -/

theorem Port.exists_of_mem_directPairs {blockPort : Port} {ports : List Port} {pair : Nat × Nat}
    (h : pair ∈ blockPort.directPairs ports) :
    ∃ port ∈ ports, ∃ k, k < blockPort.numPins ∧ k < port.numPins ∧
      pair = (blockPort.firstPin + k, port.firstPin + k) := by
  rw [directPairs] at h
  split at h
  next => simp at h
  next port hport =>
    obtain ⟨k, hk, rfl⟩ := List.mem_map.1 h
    rw [List.mem_range, Nat.lt_min] at hk
    exact ⟨port, List.mem_of_find?_eq_some hport, k, hk.1, hk.2, rfl⟩

theorem BlockSpec.lt_of_mem_directMapTo {spec : BlockSpec} {specs : List PortSpec}
    {pair : Nat × Nat} (h : pair ∈ (spec.build.directMapTo (PortSpec.ports specs)).pairs) :
    pair.1 < spec.build.numPins ∧ pair.2 < PortSpec.totalWidth specs := by
  obtain ⟨blockPort, hblockPort, hpair⟩ := List.mem_flatMap.1 (PinMap.mem_of_mem_pairs_ofList h)
  obtain ⟨own, hown, rfl⟩ := List.mem_map.1 hblockPort
  obtain ⟨port, hport, k, hk, hk', rfl⟩ := Port.exists_of_mem_directPairs hpair
  exact ⟨PortSpec.firstPin_add_lt hown hk, PortSpec.firstPin_add_lt hport hk'⟩

theorem SlotSpec.exists_of_directMap?_build {slot : SlotSpec} {blocks : List Block}
    {position base : Nat} {b : BlockId} {m : PinMap}
    (h : (slot.build blocks position base).directMap? b = some m) :
    ∃ site ∈ slot.sites, ∃ block, blocks[site]? = some block ∧ block.id = b ∧
      m = block.directMapTo (PortSpec.ports slot.ports) := by
  have hentry := KeyMap.mem_of_mem_entries_ofList ((KeyMap.mem_entries_iff _ (b, m)).2 h)
  obtain ⟨block, hblock, hsame⟩ := List.mem_map.1 hentry
  obtain ⟨site, hsite, hget⟩ := List.mem_filterMap.1 hblock
  obtain ⟨hid, hmap⟩ := Prod.mk.inj hsame
  exact ⟨site, hsite, block, hget, hid, hmap.symm⟩

/-! ## Tables of classes -/

theorem zip_replicate {α β : Type} (a : α) (bs : List β) :
    (List.replicate bs.length a).zip bs = bs.map fun b => (a, b) := by
  induction bs with
  | nil => rfl
  | cons b rest ih =>
    rw [List.length_cons, List.replicate_succ, List.zip_cons_cons, ih, List.map_cons]

/-- The class of each pin, beside the pins in the order of the classes. -/
theorem zip_classOfPin (classes : List PinClass) (first : Nat) :
    ((classes.zipIdx first).flatMap fun c => List.replicate c.1.size c.2).zip
        (classes.flatMap PinClass.pins) =
      (classes.zipIdx first).flatMap fun c => c.1.pins.map fun pin => (c.2, pin) := by
  induction classes generalizing first with
  | nil => rfl
  | cons c rest ih =>
    have hlength : (List.replicate c.size first).length = c.pins.length := List.length_replicate
    rw [List.zipIdx_cons, List.flatMap_cons, List.flatMap_cons, List.flatMap_cons,
      List.zip_append hlength, ih, PinClass.size, zip_replicate]

theorem length_classOfPin (classes : List PinClass) (first : Nat) :
    ((classes.zipIdx first).flatMap fun c => List.replicate c.1.size c.2).length =
      (classes.flatMap PinClass.pins).length := by
  induction classes generalizing first with
  | nil => rfl
  | cons c rest ih =>
    rw [List.zipIdx_cons, List.flatMap_cons, List.flatMap_cons, List.length_append,
      List.length_append, ih, List.length_replicate, PinClass.size]

/-- Where the classes list the pins in order, the class of a pin is the one that lists it. -/
theorem getElem?_classOfPin_iff {classes : List PinClass} {n : Nat}
    (hpins : classes.flatMap PinClass.pins = List.range' 0 n) (pin cls : Nat) :
    (classes.zipIdx.flatMap fun c => List.replicate c.1.size c.2)[pin]? = some cls ↔
      ∃ c, classes[cls]? = some c ∧ pin ∈ c.pins := by
  have hlength := length_classOfPin classes 0
  have hzip := zip_classOfPin classes 0
  rw [hpins] at hlength hzip
  rw [List.length_range'] at hlength
  rw [← List.mk_mem_zipIdx_iff_getElem?, List.zipIdx_eq_zip_range', hlength, hzip,
    List.mem_flatMap]
  constructor
  · rintro ⟨⟨c, k⟩, hc, hmem⟩
    obtain ⟨p, hp, hsame⟩ := List.mem_map.1 hmem
    obtain ⟨rfl, rfl⟩ := Prod.mk.inj hsame
    exact ⟨c, List.mk_mem_zipIdx_iff_getElem?.1 hc, hp⟩
  · rintro ⟨c, hc, hp⟩
    exact ⟨(c, cls), List.mk_mem_zipIdx_iff_getElem?.2 hc, List.mem_map_of_mem hp⟩

/-! ## Classes of slots -/

theorem flatMap_range'_instances (base width n : Nat) :
    ((List.range n).flatMap fun inst => List.range' (base + inst * width) width) =
      List.range' base (width * n) := by
  induction n with
  | zero => rfl
  | succ n ih =>
    rw [List.range_succ, List.flatMap_append, ih, List.flatMap_singleton, Nat.mul_comm n width,
      List.range'_append_1, Nat.mul_succ]

namespace SlotSpec

theorem flatMap_pins_classes (slot : SlotSpec) (base : Nat) :
    (slot.classes base).flatMap PinClass.pins = List.range' base slot.numPins := by
  rw [classes_eq, List.flatMap_assoc, numPins, ← flatMap_range'_instances]
  congr 1
  funext inst
  rw [List.flatMap_map]
  exact PortSpec.flatMap_pinsFrom_ports (base + inst * slot.pinsPerInstance) slot.ports

theorem flatMap_pins_classesFrom (base : Nat) (slots : List SlotSpec) :
    (classesFrom base slots).flatMap PinClass.pins =
      List.range' base (totalOf (slots.map numPins)) := by
  induction slots generalizing base with
  | nil => rfl
  | cons slot rest ih =>
    rw [classesFrom, List.flatMap_append, flatMap_pins_classes, ih, List.range'_append_1,
      List.map_cons, totalOf_cons]

end SlotSpec

/-! ## Tiles -/

namespace TileSpec
variable (spec : TileSpec) (blocks : List Block)

theorem toSpec_build : (spec.build blocks).toSpec = spec := by
  rw [Tile.toSpec, build, SlotSpec.map_toSpec_buildFrom]

theorem pinsBefore_build (i : Nat) :
    (spec.build blocks).pinsBefore i = totalOf ((spec.slots.map SlotSpec.numPins).take i) := by
  rw [Tile.pinsBefore_eq, build, SlotSpec.map_numPins_buildFrom]

/-- The sub tiles are the slots, each behind the root pins of those before it. -/
theorem getElem?_subTiles_build (i : Nat) :
    (spec.build blocks).subTiles[i]? = spec.slots[i]?.map fun slot =>
      slot.build blocks i ((spec.build blocks).pinsBefore i) := by
  simp only [pinsBefore_build]
  rw [build, SlotSpec.getElem?_buildFrom]
  simp only [Nat.zero_add]

theorem numbered_build : (spec.build blocks).Numbered := by
  intro i s hs
  rw [getElem?_subTiles_build, Option.map_eq_some_iff] at hs
  obtain ⟨slot, -, rfl⟩ := hs
  rfl

theorem flatMap_pins_build :
    (spec.build blocks).classes.flatMap PinClass.pins =
      List.range' 0 (spec.build blocks).numPins :=
  SlotSpec.flatMap_pins_classesFrom 0 spec.slots

theorem getElem?_classOfPin_build_iff (pin cls : Nat) :
    (spec.build blocks).classOfPin[pin]? = some cls ↔
      ∃ c, (spec.build blocks).classes[cls]? = some c ∧ pin ∈ c.pins :=
  getElem?_classOfPin_iff (spec.flatMap_pins_build blocks) pin cls

theorem length_classOfPin_build :
    (spec.build blocks).classOfPin.length = (spec.build blocks).numPins := by
  have hlength := length_classOfPin (SlotSpec.classesFrom 0 spec.slots) 0
  rw [SlotSpec.flatMap_pins_classesFrom, List.length_range'] at hlength
  exact hlength

end TileSpec

end PinNumbering
