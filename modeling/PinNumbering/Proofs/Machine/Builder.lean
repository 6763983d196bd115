import PinNumbering.Machine.Builder
import PinNumbering.Proofs.Builder.Blocks
import PinNumbering.Proofs.Machine.RootPins
/-! # Tiles built on a machine are those of the numbers

Building is faithful: what a slot adds up are the ends of its ports, the pins of its instances and
the root pins before the next slot. All of them fit if the numbers of locations, the pins of one
instance and the root pins of each tile do.

* `TileSpec.RootsFit`: the condition on a tile; `Block.PortsFit`: that on the blocks of its slots.
* `Machine.faithful_build`: the tables of a list of blocks and a list of tiles.
-/
set_option autoImplicit false

namespace PinNumbering

open Run (Faithful)

/-! ## When what is built fits -/

/-- The numbers of locations and the pins of one instance of the slots fit, and so does the end of
their root pins when these start at `base`. -/
structure SlotSpec.RootsFit (base : Nat) (slots : List SlotSpec) : Prop where
  total : ∀ slot ∈ slots, slot.capacity.total < wordLimit
  perInstance : ∀ slot ∈ slots, slot.pinsPerInstance < wordLimit
  rootPins : base + totalOf (slots.map SlotSpec.numPins) < wordLimit

/-- The numbers of locations, the pins of one instance of each slot and the root pins of a tile
fit. -/
def TileSpec.RootsFit (spec : TileSpec) : Prop := SlotSpec.RootsFit 0 spec.slots

/-- Each root port of a block ends within a word. -/
def Block.PortsFit (block : Block) : Prop :=
  ∀ port ∈ block.ports, port.firstPin + port.numPins < wordLimit

namespace SlotSpec.RootsFit
variable {base : Nat} {slot : SlotSpec} {rest : List SlotSpec}

theorem next_lt (h : RootsFit base (slot :: rest)) : base + slot.numPins < wordLimit := by
  have hpins := h.rootPins
  rw [List.map_cons, totalOf_cons] at hpins
  omega

theorem tail (h : RootsFit base (slot :: rest)) : RootsFit (base + slot.numPins) rest where
  total other hother := h.total other (List.mem_cons_of_mem slot hother)
  perInstance other hother := h.perInstance other (List.mem_cons_of_mem slot hother)
  rootPins := by
    have hpins := h.rootPins
    rw [List.map_cons, totalOf_cons, ← Nat.add_assoc] at hpins
    exact hpins

end SlotSpec.RootsFit

/-- A port of an owner ends no later than the owner's pins. -/
theorem PortSpec.portEnd_le {specs : List PortSpec} {port : Port} (hport : port ∈ ports specs) :
    port.firstPin + port.numPins ≤ totalWidth specs := by
  have hend := (endToEnd_ports specs).run_le_end hport
  rwa [totalOf_ports, Nat.zero_add] at hend

namespace Machine
variable {ε : Type} {fits : Prop}

/-! ## Ports and direct maps -/

theorem faithful_portsFrom (index : Nat) {firstPin : Nat} {specs : List PortSpec}
    (hfits : fits → firstPin + PortSpec.totalWidth specs < wordLimit) :
    Faithful fits (fun m => m.portsFrom index firstPin specs : Machine → Run ε _)
      (.ok (PortSpec.portsFrom index firstPin specs, firstPin + PortSpec.totalWidth specs)) := by
  induction specs generalizing index firstPin with
  | nil => exact .ok _
  | cons spec rest ih =>
    have hwidth : firstPin + PortSpec.totalWidth (spec :: rest) =
        firstPin + spec.width + PortSpec.totalWidth rest := (Nat.add_assoc _ _ _).symm
    rw [hwidth] at hfits ⊢
    exact (Faithful.add fun hf => Nat.lt_of_le_of_lt (Nat.le_add_right _ _) (hfits hf)).after
      ((ih (index + 1) hfits).after (.ok _))

theorem mapM_ok {α β : Type} (f : α → β) (xs : List α) :
    xs.mapM (fun x => (.ok (f x) : Except ε β)) = .ok (xs.map f) := List.mapM_pure

theorem faithful_directPairs {ports : List Port} {blockPort : Port}
    (hleft : fits → blockPort.firstPin + blockPort.numPins < wordLimit)
    (hright : fits → ∀ port ∈ ports, port.firstPin + port.numPins < wordLimit) :
    Faithful fits (fun m => m.directPairs ports blockPort : Machine → Run ε _)
      (.ok (blockPort.directPairs ports)) := by
  unfold directPairs Port.directPairs
  cases hport : ports.find? fun port => port.name == blockPort.name with
  | none => exact .ok []
  | some port =>
    simp only [← mapM_ok]
    refine .mapM fun pin hpin => ?_
    rw [List.mem_range] at hpin
    have hmem : port ∈ ports := List.mem_of_find?_eq_some hport
    refine (Faithful.add fun hf => ?_).after ((Faithful.add fun hf => ?_).after (.ok _))
    · have hend := hleft hf
      omega
    · have hend := hright hf port hmem
      omega

theorem faithful_directMapTo {ports : List Port} {block : Block} (hblock : fits → block.PortsFit)
    (hports : fits → ∀ port ∈ ports, port.firstPin + port.numPins < wordLimit) :
    Faithful fits (fun m => m.directMapTo ports block : Machine → Run ε _)
      (.ok (block.id, block.directMapTo ports)) := by
  have hpairs : Faithful fits (fun m => block.ports.mapM fun blockPort =>
        m.directPairs ports blockPort.toPort : Machine → Run ε _)
      (.ok (block.ports.map fun blockPort => blockPort.toPort.directPairs ports)) := by
    rw [← mapM_ok]
    exact .mapM fun blockPort hport =>
      faithful_directPairs (fun hf => hblock hf blockPort hport) hports
  exact hpairs.after (.ok _)

/-! ## Classes -/

/-- A class with the width of its port, which is its number of pins. -/
def sizedClass (info : PinClass) : PinClass × Nat := (info, info.size)

theorem faithful_portClass {base perInstance inst : Nat} {port : Port}
    (hfits : fits → base + inst * perInstance + port.firstPin + port.numPins < wordLimit) :
    Faithful fits (fun m => m.portClass base perInstance inst port : Machine → Run ε _)
      (.ok (sizedClass ⟨port.kind.pinType, port.pinsFrom (base + inst * perInstance)⟩)) := by
  have hsize : sizedClass ⟨port.kind.pinType, port.pinsFrom (base + inst * perInstance)⟩ =
      (⟨port.kind.pinType, List.range' (base + inst * perInstance + port.firstPin)
        (base + inst * perInstance + port.firstPin + port.numPins -
          (base + inst * perInstance + port.firstPin))⟩, port.numPins) := by
    rw [Nat.add_sub_cancel_left, sizedClass, PinClass.size, Port.pinsFrom, List.length_range']
  have hsums : fits → inst * perInstance < wordLimit ∧ base + inst * perInstance < wordLimit ∧
      base + inst * perInstance + port.firstPin < wordLimit := by
    intro hf
    have hend := hfits hf
    omega
  rw [hsize]
  exact (Faithful.mul fun hf => (hsums hf).1).after ((Faithful.add fun hf => (hsums hf).2.1).after
    ((Faithful.add fun hf => (hsums hf).2.2).after ((Faithful.add hfits).after (.ok _))))

/-- The pins of a port of an instance end no later than those of the slot. -/
theorem portEnd_le_of_inst {slot : SlotSpec} {inst base : Nat} {port : Port}
    (hinst : inst < slot.capacity.total) (hport : port ∈ PortSpec.ports slot.ports) :
    base + inst * slot.pinsPerInstance + port.firstPin + port.numPins ≤ base + slot.numPins := by
  have hend : port.firstPin + port.numPins ≤ slot.pinsPerInstance := PortSpec.portEnd_le hport
  have hnext : inst * slot.pinsPerInstance + slot.pinsPerInstance ≤ slot.numPins := by
    rw [SlotSpec.numPins, Nat.mul_comm slot.pinsPerInstance, ← Nat.succ_mul]
    exact Nat.mul_le_mul_right _ hinst
  omega

theorem faithful_slotClasses {slot : SlotSpec} {base : Nat}
    (hfits : fits → base + slot.numPins < wordLimit) :
    Faithful fits (fun m => m.slotClasses base slot.pinsPerInstance slot.capacity.total
        (PortSpec.ports slot.ports) : Machine → Run ε _)
      (.ok ((slot.classes base).map sizedClass)) := by
  unfold slotClasses
  -- The instances of a slot without ports are not counted out.
  cases hports : slot.ports with
  | nil =>
    have hclasses : slot.classes base = [] := by
      rw [SlotSpec.classes, hports]
      rfl
    rw [hclasses]
    exact .ok []
  | cons spec rest =>
    have hne : (PortSpec.ports (spec :: rest)).isEmpty = false := rfl
    have hclasses : (slot.classes base).map sizedClass =
        ((List.range slot.capacity.total).map fun inst =>
          (PortSpec.ports (spec :: rest)).map fun port =>
            sizedClass ⟨port.kind.pinType,
              port.pinsFrom (base + inst * slot.pinsPerInstance)⟩).flatten := by
      rw [SlotSpec.classes_eq, hports, List.map_flatMap, List.flatMap_def]
      simp only [List.map_map]
      rfl
    simp only [hne, Bool.false_eq_true, if_false, hclasses]
    refine Faithful.after ?_ (.ok _)
    rw [← mapM_ok]
    refine .mapM fun inst hinst => ?_
    rw [← mapM_ok]
    refine .mapM fun port hport => faithful_portClass fun hf => ?_
    rw [← hports] at hport
    exact Nat.lt_of_le_of_lt (portEnd_le_of_inst (List.mem_range.1 hinst) hport) (hfits hf)

/-! ## Slots and tiles -/

theorem faithful_buildSlot {blocks : List Block} (position : Nat) {base : Nat} {slot : SlotSpec}
    {rest : List SlotSpec} (hblocks : fits → ∀ block ∈ blocks, block.PortsFit)
    (hslots : fits → SlotSpec.RootsFit base (slot :: rest)) :
    Faithful fits (fun m => m.buildSlot blocks position base slot : Machine → Run ε _)
      (.ok (slot.build blocks position base, (slot.classes base).map sizedClass,
        base + slot.numPins)) := by
  have hwidth : fits → 0 + PortSpec.totalWidth slot.ports < wordLimit := by
    intro hf
    rw [Nat.zero_add]
    exact (hslots hf).perInstance slot List.mem_cons_self
  have hports := faithful_portsFrom (ε := ε) 0 hwidth
  rw [Nat.zero_add] at hports
  have hends : fits → ∀ port ∈ PortSpec.ports slot.ports,
      port.firstPin + port.numPins < wordLimit := by
    intro hf port hport
    exact Nat.lt_of_le_of_lt (PortSpec.portEnd_le hport)
      ((hslots hf).perInstance slot List.mem_cons_self)
  have hmaps : Faithful fits (fun m => (slot.sites.filterMap fun site => blocks[site]?).mapM
        (m.directMapTo (PortSpec.ports slot.ports)) : Machine → Run ε _)
      (.ok ((slot.sites.filterMap fun site => blocks[site]?).map fun block =>
        (block.id, block.directMapTo (PortSpec.ports slot.ports)))) := by
    rw [← mapM_ok]
    refine .mapM fun block hblock => faithful_directMapTo (fun hf => ?_) hends
    obtain ⟨site, -, hget⟩ := List.mem_filterMap.1 hblock
    exact hblocks hf block (List.mem_of_getElem? hget)
  have hbuilt : slot.build blocks position base =
      { index := position
        name := slot.name
        capacity := slot.capacity
        sites := slot.sites
        ports := PortSpec.ports slot.ports
        numPins := slot.numPins
        rootPins := List.range' base (base + slot.numPins - base)
        directMaps := KeyMap.ofList ((slot.sites.filterMap fun site => blocks[site]?).map
          fun block => (block.id, block.directMapTo (PortSpec.ports slot.ports))) } := by
    rw [Nat.add_sub_cancel_left]
    rfl
  rw [hbuilt]
  refine hports.after ((faithful_total fun hf =>
    (hslots hf).total slot List.mem_cons_self).after ((Faithful.mul fun hf => ?_).after ?_))
  · exact Nat.lt_of_le_of_lt (Nat.le_add_left _ _) (hslots hf).next_lt
  · exact hmaps.after ((faithful_slotClasses fun hf => (hslots hf).next_lt).after
      ((Faithful.add fun hf => (hslots hf).next_lt).after (.ok _)))

theorem faithful_buildSlots {blocks : List Block} (position : Nat) {base : Nat}
    {slots : List SlotSpec}
    (hblocks : fits → ∀ block ∈ blocks, block.PortsFit)
    (hslots : fits → SlotSpec.RootsFit base slots) :
    Faithful fits (fun m => m.buildSlots blocks position base slots : Machine → Run ε _)
      (.ok (SlotSpec.buildFrom blocks position base slots,
        (SlotSpec.classesFrom base slots).map sizedClass,
        base + totalOf (slots.map SlotSpec.numPins))) := by
  induction slots generalizing position base with
  | nil => exact .ok _
  | cons slot rest ih =>
    rw [SlotSpec.classesFrom, List.map_append, List.map_cons, totalOf_cons, ← Nat.add_assoc]
    exact (faithful_buildSlot position hblocks hslots).after
      ((ih (position + 1) fun hf => (hslots hf).tail).after (.ok _))

theorem faithful_buildTile {blocks : List Block} {spec : TileSpec}
    (hblocks : fits → ∀ block ∈ blocks, block.PortsFit) (hspec : fits → spec.RootsFit) :
    Faithful fits (fun m => m.buildTile blocks spec : Machine → Run ε _)
      (.ok (spec.build blocks)) := by
  have hslots := faithful_buildSlots (ε := ε) 0 hblocks hspec
  rw [Nat.zero_add] at hslots
  refine hslots.after ((Faithful.ok _).congr ?_)
  have hclasses : ((SlotSpec.classesFrom 0 spec.slots).map sizedClass).map Prod.fst =
      SlotSpec.classesFrom 0 spec.slots := by
    rw [List.map_map]
    exact List.map_id _
  rw [hclasses, List.zipIdx_map, List.flatMap_map]
  rfl

/-- The tables that a machine builds are those of the specifications, unless a machine that checks
stops for a result that is too large. It does not if the ports and the root pins fit. -/
theorem faithful_build {blocks : List BlockSpec} {tiles : List TileSpec}
    (hblocks : fits → ∀ block ∈ blocks, block.build.PortsFit)
    (htiles : fits → ∀ tile ∈ tiles, tile.RootsFit) :
    Faithful fits (fun m => m.build blocks tiles : Machine → Run ε _)
      (.ok (Tables.build blocks tiles)) := by
  have hbuilt : Faithful fits (fun m => tiles.mapM (m.buildTile (blocks.map BlockSpec.build)) :
        Machine → Run ε _)
      (.ok (tiles.map fun tile => tile.build (blocks.map BlockSpec.build))) := by
    rw [← mapM_ok]
    refine .mapM fun spec hspec => faithful_buildTile (fun hf block hblock => ?_) fun hf =>
      htiles hf spec hspec
    obtain ⟨blockSpec, hmem, rfl⟩ := List.mem_map.1 hblock
    exact hblocks hf blockSpec hmem
  exact hbuilt.after (.ok _)

end Machine

end PinNumbering
