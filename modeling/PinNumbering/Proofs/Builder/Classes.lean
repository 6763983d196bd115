import PinNumbering.Proofs.Builder.Invariants
import PinNumbering.Proofs.Classes.Pins
/-! # Primitive classes as they are built

A built block keeps three records of its primitive classes: the list of the classes, a map from each
graph pin to its class, and the pin graph itself. All three follow the ports of the primitives,
which lie end to end behind the root ports, so each internal pin is in one class. A built tile
counts pins and classes over the same sites, each with its own footprint; as the sites of a slot are
distinct, the numbers of a class and of its pins lead to the same site.
-/
set_option autoImplicit false

namespace PinNumbering

/-! ## Blocks -/

theorem PortSpec.flatMap_pins_blockPorts (base : Nat) (specs : List PortSpec) :
    (blockPorts base specs).flatMap BlockPort.pins = List.range' base (totalWidth specs) := by
  rw [blockPorts, List.flatMap_map]
  exact flatMap_pinsFrom_ports base specs

namespace BlockSpec

theorem flatMap_pins_classPorts (spec : BlockSpec) :
    spec.classPorts.flatMap BlockPort.pins =
      List.range' spec.build.numPins (spec.build.totalPins - spec.build.numPins) := by
  have hprimitives : ∀ (base : Nat) (primitives : List PrimitiveSpec),
      ((PrimitiveSpec.primitivesFrom base primitives).flatMap Primitive.ports).flatMap
        BlockPort.pins =
      List.range' base
        (totalOf (primitives.map fun primitive => PortSpec.totalWidth primitive.ports)) := by
    intro base primitives
    induction primitives generalizing base with
    | nil => rfl
    | cons primitive rest ih =>
      rw [PrimitiveSpec.primitivesFrom, List.flatMap_cons, List.flatMap_append, ih,
        PortSpec.flatMap_pins_blockPorts, List.range'_append_1, List.map_cons, totalOf_cons]
  have hnum : spec.build.numPins = PortSpec.totalWidth spec.ports := rfl
  rw [totalPins_build, totalPins, hnum, Nat.add_sub_cancel_left]
  exact hprimitives _ spec.primitives

theorem classPorts_disjoint (spec : BlockSpec) (pin : Nat) :
    spec.classPorts.Pairwise fun port port' => ¬ (pin ∈ port.pins ∧ pin ∈ port'.pins) := by
  have hnodup : (spec.classPorts.flatMap BlockPort.pins).Nodup := by
    rw [flatMap_pins_classPorts]
    exact List.nodup_range'
  refine (List.pairwise_flatMap.1 hnodup).2.imp ?_
  rintro port port' hne ⟨hmem, hmem'⟩
  exact hne pin hmem pin hmem' rfl

theorem getElem?_primitiveClasses_iff (spec : BlockSpec) (pin cls : Nat) :
    (∃ c, spec.build.primitiveClasses[cls]? = some c ∧ pin ∈ c.pins) ↔
      ∃ port, spec.classPorts[cls]? = some port ∧ pin ∈ port.pins := by
  have hclasses : spec.build.primitiveClasses =
      spec.classPorts.map fun port => ⟨port.kind.pinType, port.pins⟩ := rfl
  simp only [hclasses, List.getElem?_map, Option.map_eq_some_iff]
  constructor
  · rintro ⟨_, ⟨port, hport, rfl⟩, hpin⟩
    exact ⟨port, hport, hpin⟩
  · rintro ⟨port, hport, hpin⟩
    exact ⟨_, ⟨port, hport, rfl⟩, hpin⟩

theorem classOf?_build_iff (spec : BlockSpec) (pin cls : Nat) :
    spec.build.classOf? pin = some cls ↔
      ∃ port, spec.classPorts[cls]? = some port ∧ pin ∈ port.pins := by
  have hmem : ∀ pin cls, (pin, cls) ∈ (spec.classPorts.zipIdx.flatMap fun x =>
      x.1.pins.map fun pin => (pin, x.2)) ↔
        ∃ port, spec.classPorts[cls]? = some port ∧ pin ∈ port.pins := by
    intro pin cls
    simp only [List.mem_flatMap, Prod.exists, List.mk_mem_zipIdx_iff_getElem?, List.mem_map,
      Prod.mk.injEq]
    constructor
    · rintro ⟨port, k, hport, pin', hpin, rfl, rfl⟩
      exact ⟨port, hport, hpin⟩
    · rintro ⟨port, hport, hpin⟩
      exact ⟨port, cls, hport, pin, hpin, rfl, rfl⟩
  have hmap : spec.build.classOf? pin = (KeyMap.ofList (spec.classPorts.zipIdx.flatMap fun x =>
      x.1.pins.map fun pin => (pin, x.2))).find? pin := rfl
  -- A pin in two ports would leave only the later class in the map.
  rw [hmap, KeyMap.find?_ofList_eq_some_iff, hmem]
  intro pin cls cls' h h'
  obtain ⟨port, hport, hpin⟩ := (hmem pin cls).1 h
  obtain ⟨port', hport', hpin'⟩ := (hmem pin cls').1 h'
  exact position_eq_of_pairwise (spec.classPorts_disjoint pin) hport hport' hpin hpin'

theorem classified_build (spec : BlockSpec) : spec.build.Classified where
  classOf?_eq_some_iff pin cls := by
    rw [classOf?_build_iff, getElem?_primitiveClasses_iff]
  exists_classOf?_iff pin := by
    have hpins : pin ∈ spec.classPorts.flatMap BlockPort.pins ↔
        spec.build.numPins ≤ pin ∧ pin < spec.build.totalPins := by
      rw [flatMap_pins_classPorts, List.mem_range'_1]
      omega
    rw [← hpins, List.mem_flatMap]
    simp only [classOf?_build_iff]
    constructor
    · rintro ⟨cls, port, hport, hpin⟩
      exact ⟨port, List.mem_of_getElem? hport, hpin⟩
    · rintro ⟨port, hport, hpin⟩
      obtain ⟨cls, hcls⟩ := List.getElem?_of_mem hport
      exact ⟨cls, port, hcls, hpin⟩
  mem_logicalPins_iff pin graphPin := by
    rw [pairs_logicalPins, totalPins_build, List.mem_map]
    constructor
    · rintro ⟨k, hk, hpair⟩
      obtain ⟨rfl, rfl⟩ := Prod.mk.inj hpair
      exact ⟨rfl, List.mem_range.1 hk⟩
    · rintro ⟨rfl, hlt⟩
      exact ⟨_, List.mem_range.2 hlt, rfl⟩

end BlockSpec

/-! ## Tiles -/

section Tiles
variable {blocks : List BlockSpec} {tiles : List TileSpec} {t : TileId} {tile : Tile}

theorem Tables.classified_of_mem_build {block : Block} (h : block ∈ (build blocks tiles).blocks) :
    block.Classified := by
  obtain ⟨spec, -, rfl⟩ := List.mem_map.1 h
  exact spec.classified_build

theorem Tables.exists_slot_of_mem_subTiles (ht : (build blocks tiles).tile? t = some tile) :
    ∃ spec ∈ tiles, ∀ (i : Nat) (s : SubTile), tile.subTiles[i]? = some s →
      ∃ slot ∈ spec.slots, s.index = i ∧ s.sites = slot.sites := by
  rw [tile?_build, Option.map_eq_some_iff] at ht
  obtain ⟨spec, hspec, rfl⟩ := ht
  refine ⟨spec, List.mem_of_getElem? hspec, ?_⟩
  intro i s hs
  rw [TileSpec.getElem?_subTiles_build, Option.map_eq_some_iff] at hs
  obtain ⟨slot, hslot, rfl⟩ := hs
  exact ⟨slot, List.mem_of_getElem? hslot, rfl, rfl⟩

theorem Tables.rootPin?_build_eq_none (ht : (build blocks tiles).tile? t = some tile) {pin : Nat}
    (hpin : tile.numPins ≤ pin) : tile.rootPin? pin = none := by
  rw [tile?_build, Option.map_eq_some_iff] at ht
  obtain ⟨spec, -, rfl⟩ := ht
  apply Tile.rootPin?_eq_none_of_le
  rw [TileSpec.build, SlotSpec.map_numPins_buildFrom]
  exact hpin

theorem Tables.indexed_build (ht : (build blocks tiles).tile? t = some tile) : tile.Indexed := by
  obtain ⟨spec, -, hslots⟩ := exists_slot_of_mem_subTiles ht
  intro i s hs
  obtain ⟨slot, -, hindex, -⟩ := hslots i s hs
  exact hindex

variable (hsites : ∀ spec ∈ tiles, ∀ slot ∈ spec.slots, slot.sites.Nodup ∧
  ∀ b ∈ slot.sites, b < blocks.length)
include hsites

theorem Tables.nodup_sites_build (ht : (build blocks tiles).tile? t = some tile) :
    ∀ s ∈ tile.subTiles, s.sites.Nodup := by
  obtain ⟨spec, hspec, hslots⟩ := exists_slot_of_mem_subTiles ht
  intro s hs
  obtain ⟨i, hi⟩ := List.getElem?_of_mem hs
  obtain ⟨slot, hslot, -, hsame⟩ := hslots i s hi
  rw [hsame]
  exact (hsites spec hspec slot hslot).1

theorem Tables.layout_build (ht : (build blocks tiles).tile? t = some tile) :
    (build blocks tiles).layout t = .ok ((build blocks tiles).laidOut tile) := by
  obtain ⟨spec, hspec, hslots⟩ := exists_slot_of_mem_subTiles ht
  rw [layout_eq_ok_iff_laidOut ht]
  refine ⟨?_, rfl⟩
  intro p hp
  obtain ⟨hi, -, hk⟩ := Tile.mem_places_iff.1 hp
  obtain ⟨slot, hslot, -, hsame⟩ := hslots _ _ hi
  have hb : p.block ∈ slot.sites := by
    rw [← hsame]
    exact List.mem_of_getElem? hk
  have hlt := (hsites spec hspec slot hslot).2 p.block hb
  exact ⟨blocks[p.block].build, by rw [block?_build, List.getElem?_eq_getElem hlt, Option.map_some]⟩

end Tiles

/-! ## Flat pins and classes -/

/-- In tables built from slots that list existing blocks, each at most once, flat pins and primitive
classes are numbered alike. A pin of a class, counted from the first pin of the site of the class,
leads back to that site, to its own logical number and to a graph pin of that class; and a flat pin
that leads to a graph pin is one pin of one class. -/
theorem Tables.classPins_agree (blocks : List BlockSpec) (tiles : List TileSpec)
    (hsites : ∀ spec ∈ tiles, ∀ slot ∈ spec.slots, slot.sites.Nodup ∧
      ∀ b ∈ slot.sites, b < blocks.length)
    (t : TileId) (tile : Tile) (ht : (build blocks tiles).tile? t = some tile) :
    ∃ n, (build blocks tiles).numbering.numClasses t = .ok n ∧
      (∀ cls, cls < n → ∃ site info base,
        (build blocks tiles).numbering.siteOfClass t cls = .ok site ∧
        (build blocks tiles).numbering.findClass t cls true = .ok info ∧
        (build blocks tiles).numbering.sitePinBase t site.subTile site.block site.inst = .ok base ∧
        ∀ l ∈ info.pins,
          (build blocks tiles).numbering.siteOfPin t (base + l) =
            .ok ⟨site.subTile, site.inst, site.block⟩ ∧
          (build blocks tiles).numbering.logicalPin t (base + l) true = .ok l ∧
          ∃ block graphPin, (build blocks tiles).block? site.block = some block ∧
            (build blocks tiles).numbering.graphPinAt t (base + l) = .ok (site.block, graphPin) ∧
            block.classOf? graphPin = some site.logicalClass) ∧
      ∀ pin, tile.numPins ≤ pin → ∀ b graphPin,
        (build blocks tiles).numbering.graphPinAt t pin = .ok (b, graphPin) →
          ∃ cls l, cls < n ∧ (build blocks tiles).numbering.IsClassPin t cls l pin ∧
            ∀ cls' l', (build blocks tiles).numbering.IsClassPin t cls' l' pin →
              cls' = cls ∧ l' = l := by
  have hL := layout_build hsites ht
  have hindexed := indexed_build ht
  have hnodup := nodup_sites_build hsites ht
  have hclassified : ∀ block ∈ (build blocks tiles).blocks, block.Classified :=
    fun block hblock => classified_of_mem_build hblock
  obtain ⟨hknown, -⟩ := (layout_eq_ok_iff_laidOut ht).1 hL
  refine ⟨_, numClasses_eq hL, ?_, ?_⟩
  · intro cls hcls
    obtain ⟨p, hp, logicalClass, hisClass⟩ := exists_isClass_iff.2 hcls
    obtain ⟨entry, hentry⟩ := hisClass.exists_isEntry (hknown p hp)
    refine ⟨_, _, _, hentry.siteOfClass_eq ht hL hp, hentry.findClass_eq ht hL hp,
      sitePinBase_of_mem_places ht hL hindexed hnodup hp, ?_⟩
    intro l hl
    have hstands := hentry.standsFor hclassified hl
    have hnone := rootPin?_build_eq_none ht hstands.numPins_le
    obtain ⟨hsite, hlogical⟩ := hstands.resolves hp ht hL hnone
    obtain ⟨block, hb, hgraph, hclass⟩ := hentry.graphPinAt_eq hclassified ht hL hp hl hnone
    exact ⟨hsite, hlogical, block, l, hb, hgraph, hclass⟩
  · intro pin hpin b graphPin hgraph
    obtain ⟨cls, hcls, l, hclassPin⟩ := exists_isClassPin_of_graphPinAt ht hL hindexed hnodup
      hclassified (rootPin?_build_eq_none ht hpin) hgraph
    refine ⟨cls, l, hcls, hclassPin, ?_⟩
    intro cls' l' hclassPin'
    exact IsClassPin.unique ht hL hindexed hnodup hclassified hclassPin hclassPin'

/-- In the second instance of the first slot, class 3 is port "q" of the cell in the first block,
whose two pins are the flat pins 28 and 29. -/
theorem Samples.uneven_classPins :
    (∀ spec ∈ unevenTiles, ∀ slot ∈ spec.slots, slot.sites.Nodup ∧
      ∀ b ∈ slot.sites, b < unevenBlocks.length) ∧
    ∃ tile, (Tables.build unevenBlocks unevenTiles).tile? 0 = some tile ∧ tile.numPins ≤ 29 ∧
      (Tables.build unevenBlocks unevenTiles).numbering.numClasses 0 = .ok 4 ∧
      (Tables.build unevenBlocks unevenTiles).numbering.siteOfClass 0 3 = .ok ⟨0, 1, 0, 1⟩ ∧
      (Tables.build unevenBlocks unevenTiles).numbering.graphPinAt 0 29 = .ok (0, 6) ∧
      ∃ cls l, (Tables.build unevenBlocks unevenTiles).numbering.IsClassPin 0 cls l 29 ∧
        ∀ cls' l', (Tables.build unevenBlocks unevenTiles).numbering.IsClassPin 0 cls' l' 29 →
          cls' = cls ∧ l' = l := by
  have hsites : ∀ spec ∈ unevenTiles, ∀ slot ∈ spec.slots, slot.sites.Nodup ∧
      ∀ b ∈ slot.sites, b < unevenBlocks.length := by decide
  obtain ⟨n, -, -, hback⟩ := Tables.classPins_agree _ _ hsites 0 _ rfl
  obtain ⟨cls, l, -, hclassPin, honly⟩ := hback 29 (by decide) 0 6 rfl
  exact ⟨hsites, _, rfl, by decide, rfl, rfl, rfl, cls, l, hclassPin, honly⟩

end PinNumbering
