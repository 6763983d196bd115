import PinNumbering.Proofs.Builder.Invariants
import PinNumbering.Proofs.Names.ClassNames
import PinNumbering.Proofs.Names.NamedPorts
/-! # Root classes as they are built

A built tile counts its classes over slots, instances and ports, and its root pins over slots,
instances, ports and pins. Names, positions and directions are found from the pins again, by
division and by search. As both counts run over the same ports, a class is a port of an instance,
and whatever is found from one of its pins is that port.

* `TileSpec.IsPortClass`: the class with the number of a port of an instance;
  `lt_length_classes_iff`, `IsPortClass.unique`, that each class is one.
* `namesOfPins_range'`: the name of pins that are the places of a port in order.
* `IsPortClass.atPort_iff`, `IsPortClass.portPosition_iff`: the places of the pins of a class.
* `TileSpec.exists_consistent`: a built tile is consistent with some tables, whatever its own are.
-/
set_option autoImplicit false

namespace PinNumbering

/-! ## Classes by number -/

namespace SlotSpec

/-- The classes of all instances of a slot. -/
def numClasses (slot : SlotSpec) : Nat := slot.capacity.total * slot.ports.length

/-- The class of a port of an instance, where the root pins of the slot start at `base`. -/
def portClass (slot : SlotSpec) (base inst : Nat) (port : Port) : PinClass :=
  ⟨port.kind.pinType, port.pinsFrom (base + inst * slot.pinsPerInstance)⟩

theorem length_portClasses (slot : SlotSpec) (base inst : Nat) :
    ((PortSpec.ports slot.ports).map (slot.portClass base inst)).length = slot.ports.length := by
  rw [List.length_map, PortSpec.length_ports]

theorem classes_eq_flatMap (slot : SlotSpec) (base : Nat) :
    slot.classes base = (List.range slot.capacity.total).flatMap fun inst =>
      (PortSpec.ports slot.ports).map (slot.portClass base inst) :=
  slot.classes_eq base

theorem length_classes (slot : SlotSpec) (base : Nat) :
    (slot.classes base).length = slot.numClasses := by
  rw [classes_eq_flatMap, length_flatMap_range (slot.length_portClasses base), numClasses]

theorem getElem?_classes_iff {slot : SlotSpec} {base m : Nat} {info : PinClass} :
    (slot.classes base)[m]? = some info ↔ ∃ inst j, inst < slot.capacity.total ∧
      (∃ port, (PortSpec.ports slot.ports)[j]? = some port ∧
        slot.portClass base inst port = info) ∧ m = inst * slot.ports.length + j := by
  rw [classes_eq_flatMap, getElem?_flatMap_range_iff (slot.length_portClasses base)]
  simp only [List.getElem?_map, Option.map_eq_some_iff]

theorem getElem?_classesFrom_iff {base cls : Nat} {slots : List SlotSpec} {info : PinClass} :
    (classesFrom base slots)[cls]? = some info ↔ ∃ i slot m, slots[i]? = some slot ∧
      (slot.classes (base + totalOf ((slots.map numPins).take i)))[m]? = some info ∧
      cls = totalOf ((slots.map numClasses).take i) + m := by
  induction slots generalizing base cls with
  | nil => simp [classesFrom]
  | cons slot rest ih =>
    have hlength := slot.length_classes base
    rw [classesFrom]
    constructor
    · intro h
      by_cases hcls : cls < slot.numClasses
      · rw [List.getElem?_append_left (by omega)] at h
        exact ⟨0, slot, cls, rfl, h, by simp⟩
      · rw [List.getElem?_append_right (by omega), ih] at h
        obtain ⟨i, slot', m, hslot, hm, hsum⟩ := h
        refine ⟨i + 1, slot', m, hslot, ?_, ?_⟩
        · rw [List.map_cons, List.take_succ_cons, totalOf_cons, ← Nat.add_assoc]
          exact hm
        · rw [List.map_cons, List.take_succ_cons, totalOf_cons]
          omega
    · rintro ⟨i, slot', m, hslot, hm, rfl⟩
      cases i with
      | zero =>
        obtain rfl : slot = slot' := Option.some.inj hslot
        obtain ⟨hlt, -⟩ := List.getElem?_eq_some_iff.1 hm
        simp only [List.take_zero, totalOf_nil, Nat.add_zero, Nat.zero_add] at hm hlt ⊢
        rw [List.getElem?_append_left hlt]
        exact hm
      | succ i =>
        rw [List.map_cons, List.take_succ_cons, totalOf_cons, ← Nat.add_assoc] at hm
        rw [List.map_cons, List.take_succ_cons, totalOf_cons,
          List.getElem?_append_right (by omega), ih]
        exact ⟨i, slot', m, hslot, hm, by omega⟩

end SlotSpec

namespace TileSpec
variable {spec : TileSpec} {blocks : List Block} {cls i inst i' inst' : Nat} {port port' : Port}

/-- The class has the number of a port of an instance: the ports are counted slot by slot, instance
by instance and in the order of the slot. -/
def IsPortClass (spec : TileSpec) (cls i inst : Nat) (port : Port) : Prop :=
  ∃ slot, spec.slots[i]? = some slot ∧ inst < slot.capacity.total ∧
    (PortSpec.ports slot.ports)[port.index]? = some port ∧
    cls = totalOf ((spec.slots.map SlotSpec.numClasses).take i) +
      (inst * slot.ports.length + port.index)

theorem getElem?_classes_build_iff {info : PinClass} :
    (spec.build blocks).classes[cls]? = some info ↔ ∃ i inst port slot,
      spec.IsPortClass cls i inst port ∧ spec.slots[i]? = some slot ∧
      slot.portClass ((spec.build blocks).pinsBefore i) inst port = info := by
  have hclasses : (spec.build blocks).classes = SlotSpec.classesFrom 0 spec.slots := rfl
  simp only [hclasses, SlotSpec.getElem?_classesFrom_iff, SlotSpec.getElem?_classes_iff,
    Nat.zero_add, ← pinsBefore_build spec blocks]
  constructor
  · rintro ⟨i, slot, _, hslot, ⟨inst, j, hinst, ⟨port, hport, hinfo⟩, rfl⟩, rfl⟩
    obtain rfl : port.index = j := PortSpec.index_of_getElem?_ports hport
    exact ⟨i, inst, port, slot, ⟨slot, hslot, hinst, hport, rfl⟩, hslot, hinfo⟩
  · rintro ⟨i, inst, port, slot, ⟨slot', hslot', hinst, hport, rfl⟩, hslot, hinfo⟩
    obtain rfl : slot = slot' := Option.some.inj (hslot.symm.trans hslot')
    exact ⟨i, slot, _, hslot, ⟨inst, port.index, hinst, ⟨port, hport, hinfo⟩, rfl⟩, rfl⟩

theorem lt_length_classes_iff :
    cls < (spec.build blocks).classes.length ↔ ∃ i inst port, spec.IsPortClass cls i inst port := by
  rw [← isSome_getElem? (spec.build blocks).classes cls, Option.isSome_iff_exists]
  constructor
  · rintro ⟨info, hinfo⟩
    obtain ⟨i, inst, port, -, hcls, -⟩ := getElem?_classes_build_iff.1 hinfo
    exact ⟨i, inst, port, hcls⟩
  · rintro ⟨i, inst, port, hcls⟩
    have ⟨slot, hslot, _⟩ := hcls
    exact ⟨_, getElem?_classes_build_iff.2 ⟨i, inst, port, slot, hcls, hslot, rfl⟩⟩

theorem IsPortClass.port_eq {cls' : Nat} (h : spec.IsPortClass cls i inst port)
    (h' : spec.IsPortClass cls' i inst' port') (hindex : port.index = port'.index) :
    port = port' := by
  obtain ⟨slot, hslot, -, hport, -⟩ := h
  obtain ⟨slot', hslot', -, hport', -⟩ := h'
  obtain rfl : slot = slot' := Option.some.inj (hslot.symm.trans hslot')
  rw [hindex, hport', Option.some.injEq] at hport
  exact hport.symm

/-- No class is two ports, or a port of two instances. -/
theorem IsPortClass.unique (h : spec.IsPortClass cls i inst port)
    (h' : spec.IsPortClass cls i' inst' port') : i = i' ∧ inst = inst' ∧ port = port' := by
  have ⟨slot, hslot, hinst, hport, hcls⟩ := h
  have ⟨slot', hslot', hinst', hport', hcls'⟩ := h'
  have hindex := (List.getElem?_eq_some_iff.1 hport).1
  have hindex' := (List.getElem?_eq_some_iff.1 hport').1
  rw [PortSpec.length_ports] at hindex hindex'
  have hcount : (spec.slots.map SlotSpec.numClasses)[i]? = some slot.numClasses := by
    rw [List.getElem?_map, hslot, Option.map_some]
  have hcount' : (spec.slots.map SlotSpec.numClasses)[i']? = some slot'.numClasses := by
    rw [List.getElem?_map, hslot', Option.map_some]
  have hlt : inst * slot.ports.length + port.index < slot.numClasses :=
    mul_add_lt_mul hinst hindex
  have hlt' : inst' * slot'.ports.length + port'.index < slot'.numClasses :=
    mul_add_lt_mul hinst' hindex'
  obtain rfl : i = i' := run_unique hcount hcount' hlt hlt' (hcls.symm.trans hcls')
  obtain rfl : slot = slot' := Option.some.inj (hslot.symm.trans hslot')
  have hsum : inst * slot.ports.length + port.index = inst' * slot.ports.length + port'.index := by
    omega
  obtain ⟨hdiv, hmod⟩ := div_mod_of_lt inst hindex
  obtain ⟨hdiv', hmod'⟩ := div_mod_of_lt inst' hindex'
  rw [hsum, hdiv'] at hdiv
  rw [hsum, hmod'] at hmod
  exact ⟨rfl, hdiv.symm, h.port_eq h' hmod.symm⟩

end TileSpec

/-! ## Pins of one port -/

theorem PortRun.text_single (tileName : String) (i inst : Nat) (port : Port) :
    text tileName ⟨i, inst, port, 0, 0⟩ =
      tileName ++ "[" ++ toString inst ++ "]." ++ port.name ++ "[0]" := by
  have hplace : "[0]" = "[" ++ toString 0 ++ "]" := rfl
  rw [text_eq, if_pos rfl, hplace]
  simp only [String.append_assoc]

theorem PortRun.text_range (tileName : String) (i inst : Nat) (port : Port) {last : Nat}
    (hlast : 0 < last) : text tileName ⟨i, inst, port, 0, last⟩ =
      tileName ++ "[" ++ toString inst ++ "]." ++ port.name ++ "[0:" ++ toString last ++ "]" := by
  have hfirst : "[0:" = "[" ++ toString 0 ++ ":" := rfl
  rw [text_eq, if_neg (Nat.ne_of_lt hlast), hfirst]
  simp only [String.append_assoc]

section Port
variable {T : Tables} {tile : Tile} {cls base n : Nat} (run : PortRun) (h : tile.Consistent T)
include h

theorem Tile.Consistent.orderedPins_range'
    (hat : ∀ k, k < n → tile.AtPort (run.pinAt k) (base + k)) :
    tile.orderedPins (List.range' base n) = (List.range' 0 n).map run.pinAt := by
  have hplaces : (List.range' base n).map tile.portPin = (List.range' 0 n).map run.pinAt := by
    rw [List.range'_eq_map_range, List.map_map, ← List.range_eq_range']
    refine List.map_congr_left ?_
    intro k hk
    have hk := hat k (List.mem_range.1 hk)
    exact (h.atPort_portPin_iff.2 ⟨_, hk⟩).unique h hk
  have hsorted : ((List.range' 0 n).map run.pinAt).Pairwise fun p q => p.le q = true := by
    refine List.pairwise_map.2 (List.pairwise_le_range'.imp ?_)
    intro k k' hle
    exact PortPin.le_iff.2 (Or.inr ⟨⟨rfl, rfl, rfl⟩, hle⟩)
  rw [Tile.orderedPins, hplaces, List.mergeSort_of_pairwise hsorted]

/-- Pins that are the places of a port in their order have one name, or none if there is no pin. -/
theorem Tile.Consistent.namesOfPins_range'
    (hat : ∀ k, k < n → tile.AtPort (run.pinAt k) (base + k)) :
    tile.namesOfPins cls (List.range' base n) =
      .ok (if n = 0 then [] else [{ run with first := 0, last := n - 1 }.text tile.name]) := by
  have hall : ∀ pin ∈ List.range' base n, ∃ q, tile.AtPort q pin := by
    intro pin hpin
    rw [List.mem_range'_1] at hpin
    have hk := hat (pin - base) (by omega)
    rw [Nat.add_sub_cancel' hpin.1] at hk
    exact ⟨_, hk⟩
  rw [h.namesOfPins_of_forall hall, h.orderedPins_range' run hat]
  cases n with
  | zero => rfl
  | succ n =>
    have hruns := PortRun.runs_pins { run with first := 0, last := n } (Nat.zero_le n)
    have hpins : (List.range' 0 (n + 1)).map run.pinAt =
        ({ run with first := 0, last := n } : PortRun).pins := rfl
    rw [hpins, hruns]
    rfl

end Port

/-! ## Classes and places -/

section Build
variable {spec : TileSpec} {blocks : List Block} {cls i inst pin : Nat} {port : Port} {q : PortPin}
  (hupright : ∀ slot ∈ spec.slots, slot.capacity.low ≤ slot.capacity.high)
include hupright

variable (blocks) in
theorem TileSpec.portsFill_of_mem_build : ∀ s ∈ (spec.build blocks).subTiles, s.PortsFill := by
  intro s hs
  obtain ⟨i, hi⟩ := List.getElem?_of_mem hs
  rw [getElem?_subTiles_build, Option.map_eq_some_iff] at hi
  obtain ⟨slot, hslot, rfl⟩ := hi
  exact SlotSpec.portsFill_build (hupright slot (List.mem_of_getElem? hslot))

variable (blocks) in
/-- The class of a port of an instance is of the type of the port, and lists the run of the port. -/
theorem TileSpec.IsPortClass.exists_subTile (h : spec.IsPortClass cls i inst port) :
    ∃ s, (spec.build blocks).subTiles[i]? = some s ∧ inst < s.capacity.total ∧
      s.ports[port.index]? = some port ∧
      (spec.build blocks).classes[cls]? = some ⟨port.kind.pinType, List.range'
        ((spec.build blocks).pinsBefore i + inst * s.pinsPerInstance + port.firstPin)
          port.numPins⟩ := by
  have ⟨slot, hslot, hinst, hport, _⟩ := h
  have hwidth := hupright slot (List.mem_of_getElem? hslot)
  refine ⟨slot.build blocks i ((spec.build blocks).pinsBefore i), ?_, hinst, hport, ?_⟩
  · rw [getElem?_subTiles_build, hslot, Option.map_some]
  · rw [SlotSpec.pinsPerInstance_build hwidth]
    exact getElem?_classes_build_iff.2 ⟨i, inst, port, slot, h, hslot, rfl⟩

theorem TileSpec.IsPortClass.atPort_iff (h : spec.IsPortClass cls i inst port) {info : PinClass}
    (hinfo : (spec.build blocks).classes[cls]? = some info) {k : Nat} :
    (spec.build blocks).AtPort ⟨i, inst, port, k⟩ pin ↔ info.pins[k]? = some pin := by
  obtain ⟨s, hs, hinst, hport, hclass⟩ := h.exists_subTile blocks hupright
  obtain rfl := Option.some.inj (hclass.symm.trans hinfo)
  rw [Tile.atPort_iff (portsFill_of_mem_build blocks hupright), List.getElem?_eq_some_iff]
  simp only [hs, List.length_range', List.getElem_range', Nat.one_mul, Option.some.injEq,
    exists_eq_left', exists_prop]
  constructor
  · rintro ⟨-, -, hk, rfl⟩
    exact ⟨hk, by omega⟩
  · rintro ⟨hk, rfl⟩
    exact ⟨hinst, List.mem_of_getElem? hport, hk, by omega⟩

theorem TileSpec.exists_isPortClass_of_atPort (hq : (spec.build blocks).AtPort q pin) :
    ∃ cls, spec.IsPortClass cls q.subTile q.inst q.port := by
  obtain ⟨s, hs, hinst, hport, -, -⟩ :=
    (Tile.atPort_iff (portsFill_of_mem_build blocks hupright)).1 hq
  rw [getElem?_subTiles_build, Option.map_eq_some_iff] at hs
  obtain ⟨slot, hslot, rfl⟩ := hs
  have hget := SlotSpec.portsIndexed_build.getElem?_index hport
  exact ⟨_, slot, hslot, hinst, hget, rfl⟩

end Build

theorem TileSpec.exists_consistent {spec : TileSpec} (blocks : List Block)
    (hupright : ∀ slot ∈ spec.slots, slot.capacity.low ≤ slot.capacity.high)
    (hdisjoint : spec.slots.Pairwise fun slot slot' => ∀ location,
      ¬ (slot.capacity.contains location = true ∧ slot'.capacity.contains location = true)) :
    ∃ T, (spec.build blocks).Consistent T := by
  -- Of the tables, the tile sees only whether the blocks of its slots list it.
  let listing : Block := { (default : Block) with tiles := [spec.id] }
  refine ⟨⟨[], List.replicate (totalOf (spec.slots.flatMap SlotSpec.sites) + 1) listing⟩,
    consistent_build hupright hdisjoint ?_⟩
  intro slot hslot b hb
  obtain ⟨i, hi⟩ := List.getElem?_of_mem (List.mem_flatMap.2 ⟨slot, hslot, hb⟩)
  have hlt := run_le_totalOf hi
  exact ⟨listing, List.getElem?_replicate_of_lt (by omega), List.mem_singleton.2 rfl⟩

theorem PortKind.pinType_beq_driver (kind : PortKind) :
    (kind.pinType == .driver) = (kind == .output) := by
  cases kind <;> rfl

section Build
variable {T T' : Tables} {t : TileId} {spec : TileSpec} {blocks : List Block} {cls i inst : Nat}
  {port : Port} (ht : T.tile? t = some (spec.build blocks))
include ht

theorem TileSpec.IsPortClass.classPinNames_eq (h : spec.IsPortClass cls i inst port)
    (hupright : ∀ slot ∈ spec.slots, slot.capacity.low ≤ slot.capacity.high)
    (hconsistent : (spec.build blocks).Consistent T') :
    T.classPinNames t cls = .ok (if port.numPins = 0 then []
      else [PortRun.text spec.name ⟨i, inst, port, 0, port.numPins - 1⟩]) := by
  obtain ⟨s, -, -, -, hclass⟩ := h.exists_subTile blocks hupright
  rw [Tables.classPinNames_eq ht hclass]
  refine hconsistent.namesOfPins_range' ⟨i, inst, port, 0, 0⟩ ?_
  intro k hk
  refine (h.atPort_iff hupright hclass).2 ?_
  rw [List.getElem?_range' hk, Nat.one_mul]

theorem TileSpec.IsPortClass.portPosition_iff (h : spec.IsPortClass cls i inst port)
    (hupright : ∀ slot ∈ spec.slots, slot.capacity.low ≤ slot.capacity.high)
    (hconsistent : (spec.build blocks).Consistent T') {info : PinClass}
    (hinfo : (spec.build blocks).classes[cls]? = some info) {pin k : Nat} :
    T.portPosition t pin = .ok ⟨i, inst, some (port.index, k)⟩ ↔ info.pins[k]? = some pin := by
  rw [← h.atPort_iff hupright hinfo]
  constructor
  · intro hposition
    obtain ⟨q, hq, hsame⟩ := hconsistent.exists_atPort_of_portPosition
      (portsFill_of_mem_build blocks hupright) ht hposition
    simp only [PortPin.position, PortPosition.mk.injEq, Option.some.injEq, Prod.mk.injEq] at hsame
    obtain ⟨rfl, rfl, hindex, rfl⟩ := hsame
    obtain ⟨cls', h'⟩ := exists_isPortClass_of_atPort hupright hq
    obtain rfl : q.port = port := h'.port_eq h hindex
    exact hq
  · intro hq
    exact hconsistent.portPosition_of_atPort ht hq

end Build

/-! ## Built tiles -/

/-- Each root class of a built tile is one port of one instance. It is printed as that port, from
its first to its last pin, and a port without pins is not printed. The class of a root pin is that
of its port and instance; it lists the pins of that port there, and is of the type of the port, so
the pin drives a net exactly if the port is an output. -/
theorem Tables.rootClasses_are_ports (T : Tables) (t : TileId) (spec : TileSpec)
    (blocks : List Block) (ht : T.tile? t = some (spec.build blocks))
    (hupright : ∀ slot ∈ spec.slots, slot.capacity.low ≤ slot.capacity.high)
    (hdisjoint : spec.slots.Pairwise fun slot slot' => ∀ location,
      ¬ (slot.capacity.contains location = true ∧ slot'.capacity.contains location = true)) :
    (∀ cls, cls < (spec.build blocks).classes.length ↔
      ∃ i inst port, spec.IsPortClass cls i inst port) ∧
    (∀ cls i inst port, spec.IsPortClass cls i inst port →
      (∀ i' inst' port', spec.IsPortClass cls i' inst' port' →
        i' = i ∧ inst' = inst ∧ port' = port) ∧
      (port.numPins = 0 → T.classPinNames t cls = .ok []) ∧
      (port.numPins = 1 → T.classPinNames t cls =
        .ok [spec.name ++ "[" ++ toString inst ++ "]." ++ port.name ++ "[0]"]) ∧
      (1 < port.numPins → T.classPinNames t cls =
        .ok [spec.name ++ "[" ++ toString inst ++ "]." ++ port.name ++ "[0:" ++
          toString (port.numPins - 1) ++ "]"])) ∧
    ∀ pin, pin < (spec.build blocks).numPins → ∃ i inst port k cls info,
      T.portPosition t pin = .ok ⟨i, inst, some (port.index, k)⟩ ∧
      (spec.build blocks).classOfPin[pin]? = some cls ∧ spec.IsPortClass cls i inst port ∧
      (spec.build blocks).classes[cls]? = some info ∧
      (∀ pin' k', T.portPosition t pin' = .ok ⟨i, inst, some (port.index, k')⟩ ↔
        info.pins[k']? = some pin') ∧
      (T.numbering.findClass t cls false).map PinClass.pinType = .ok port.kind.pinType ∧
      T.drives t pin = .ok (port.kind == .output) := by
  obtain ⟨T', h⟩ := spec.exists_consistent blocks hupright hdisjoint
  refine ⟨fun cls => TileSpec.lt_length_classes_iff, ?_, ?_⟩
  · intro cls i inst port hcls
    have hnames := hcls.classPinNames_eq ht hupright h
    refine ⟨fun i' inst' port' hcls' => hcls'.unique hcls, ?_, ?_, ?_⟩
    · intro hwidth
      rw [hnames, if_pos hwidth]
    · intro hwidth
      rw [hnames, if_neg (by omega), hwidth, Nat.sub_self, PortRun.text_single]
    · intro hwidth
      rw [hnames, if_neg (by omega), PortRun.text_range spec.name i inst port (by omega)]
  · intro pin hpin
    have hfill := TileSpec.portsFill_of_mem_build blocks hupright
    obtain ⟨q, hq⟩ := h.exists_atPort hfill hpin
    obtain ⟨cls, hcls⟩ := TileSpec.exists_isPortClass_of_atPort hupright hq
    obtain ⟨s, -, -, -, hinfo⟩ := hcls.exists_subTile blocks hupright
    have hclass := (spec.getElem?_classOfPin_build_iff blocks pin cls).2 ⟨_, hinfo,
      List.mem_of_getElem? ((hcls.atPort_iff hupright hinfo).1 hq)⟩
    refine ⟨q.subTile, q.inst, q.port, q.pin, cls, _, h.portPosition_of_atPort ht hq, hclass, hcls,
      hinfo, fun pin' k' => hcls.portPosition_iff ht hupright h hinfo, ?_, ?_⟩
    · rw [findClass_root_eq ht hinfo]
      rfl
    · have hfound := Tile.findClassOfPin_eq_ok_iff.2 ⟨hclass, hinfo⟩
      rw [drives_eq_of_findClassOfPin ht hpin hfound, PortKind.pinType_beq_driver]

/-- In the uneven tile, class 4 is the port without pins of the second instance of the first slot,
and root pin 7 is in class 5, port "in" of that instance. -/
theorem Samples.uneven_rootClasses :
    ∃ spec, unevenTiles[0]? = some spec ∧
      (∀ slot ∈ spec.slots, slot.capacity.low ≤ slot.capacity.high) ∧
      (spec.slots.Pairwise fun slot slot' => ∀ location,
        ¬ (slot.capacity.contains location = true ∧ slot'.capacity.contains location = true)) ∧
      (Tables.build unevenBlocks unevenTiles).classPinNames 0 4 = .ok [] ∧
      (Tables.build unevenBlocks unevenTiles).classPinNames 0 5 = .ok ["S[1].in[0:2]"] ∧
      (Tables.build unevenBlocks unevenTiles).portPosition 0 7 = .ok ⟨0, 1, some (2, 0)⟩ ∧
      (Tables.build unevenBlocks unevenTiles).drives 0 7 = .ok false := by
  have hupright : ∀ slot ∈ unevenTiles[0].slots, slot.capacity.low ≤ slot.capacity.high := by
    decide
  have hdisjoint : unevenTiles[0].slots.Pairwise fun slot slot' => ∀ location,
      ¬ (slot.capacity.contains location = true ∧ slot'.capacity.contains location = true) := by
    simp [unevenTiles]
    omega
  obtain ⟨-, hnames, -⟩ := (Tables.build unevenBlocks unevenTiles).rootClasses_are_ports 0
    unevenTiles[0] (unevenBlocks.map BlockSpec.build) rfl hupright hdisjoint
  obtain ⟨-, hnone, -, -⟩ := hnames 4 0 1 ⟨"none", 1, .input, 2, 0⟩ ⟨_, rfl, by decide, rfl, rfl⟩
  obtain ⟨-, -, -, hrange⟩ := hnames 5 0 1 ⟨"in", 2, .input, 2, 3⟩ ⟨_, rfl, by decide, rfl, rfl⟩
  exact ⟨_, rfl, hupright, hdisjoint, hnone rfl, hrange (by decide), rfl, rfl⟩

end PinNumbering
