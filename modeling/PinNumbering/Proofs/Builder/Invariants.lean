import PinNumbering.Proofs.Builder.Tiles
import PinNumbering.Proofs.Tables.Consistent
import PinNumbering.Tables.Json
/-! # Built tables are numbered as documented

Specifications of blocks and tiles fit together if their numbers are their positions, slots and
blocks name each other, and the slots of a tile take locations of their own. The tables that are
built from such specifications pass all checks, and their numbers are as documented beyond what the
checks see: the tables of root pins, the ports, the direct maps, the logical pins and the classes.
-/
set_option autoImplicit false

namespace PinNumbering

/-! ## One tile -/

/-- A tile built from upright slots with locations of their own is consistent with any tables whose
blocks list it where its slots name them. -/
theorem TileSpec.consistent_build {spec : TileSpec} {blocks : List Block} {T : Tables}
    (hupright : ∀ slot ∈ spec.slots, slot.capacity.low ≤ slot.capacity.high)
    (hdisjoint : spec.slots.Pairwise fun slot slot' => ∀ location,
      ¬ (slot.capacity.contains location = true ∧ slot'.capacity.contains location = true))
    (hlisted : ∀ slot ∈ spec.slots, ∀ b ∈ slot.sites, ∃ block, T.block? b = some block ∧
      spec.id ∈ block.tiles) : (spec.build blocks).Consistent T where
  subTile := by
    intro i s hs
    rw [getElem?_subTiles_build, Option.map_eq_some_iff] at hs
    obtain ⟨slot, hget, rfl⟩ := hs
    have hslot : slot ∈ spec.slots := List.mem_of_getElem? hget
    exact ⟨rfl, hupright slot hslot, Nat.dvd_mul_left _ _, List.length_range', hlisted slot hslot⟩
  disjoint := by
    intro i j location s s' hs hs' hin hin'
    rw [getElem?_subTiles_build, Option.map_eq_some_iff] at hs hs'
    obtain ⟨slot, hget, rfl⟩ := hs
    obtain ⟨slot', hget', rfl⟩ := hs'
    have hpairwise := hdisjoint.imp fun hne => hne location
    exact position_eq_of_pairwise hpairwise hget hget' hin hin'
  numPins_eq := by
    rw [build, SlotSpec.map_numPins_buildFrom]
  classOfPin_length := spec.length_classOfPin_build _
  classOfPin_lt := by
    intro cls hcls
    obtain ⟨pin, hpin⟩ := List.getElem?_of_mem hcls
    obtain ⟨c, hc, -⟩ := (spec.getElem?_classOfPin_build_iff _ pin cls).1 hpin
    exact (List.getElem?_eq_some_iff.1 hc).1

/-! ## Specifications that fit together -/

/-- Specifications that fit together. -/
structure CoherentSpecs (blocks : List BlockSpec) (tiles : List TileSpec) : Prop where
  blockIds : blocks.map BlockSpec.id = List.range blocks.length
  tileIds : tiles.map TileSpec.id = List.range tiles.length
  site_lt : ∀ tile ∈ tiles, ∀ slot ∈ tile.slots, ∀ b ∈ slot.sites, b < blocks.length
  upright : ∀ tile ∈ tiles, ∀ slot ∈ tile.slots, slot.capacity.low ≤ slot.capacity.high
  disjoint : ∀ tile ∈ tiles, tile.slots.Pairwise fun slot slot' => ∀ location,
    ¬ (slot.capacity.contains location = true ∧ slot'.capacity.contains location = true)
  /-- A block lists a tile exactly if a slot of the tile names the block. -/
  lists_iff : ∀ block ∈ blocks, ∀ t, t ∈ block.tiles ↔
    ∃ tile ∈ tiles, tile.id = t ∧ ∃ slot ∈ tile.slots, block.id ∈ slot.sites
  totalPins_lt : ∀ block ∈ blocks, block.totalPins < idLimit

namespace Tables

theorem tile?_build (blocks : List BlockSpec) (tiles : List TileSpec) (t : TileId) :
    (build blocks tiles).tile? t =
      tiles[t]?.map fun tile => tile.build (blocks.map BlockSpec.build) :=
  List.getElem?_map

theorem block?_build (blocks : List BlockSpec) (tiles : List TileSpec) (b : BlockId) :
    (build blocks tiles).block? b = blocks[b]?.map BlockSpec.build :=
  List.getElem?_map

theorem map_toSpec_tiles_build (blocks : List BlockSpec) (tiles : List TileSpec) :
    (build blocks tiles).tiles.map Tile.toSpec = tiles := by
  rw [build, List.map_map]
  exact (List.map_congr_left fun tile _ => tile.toSpec_build _).trans (List.map_id _)

theorem map_toSpec_blocks_build (blocks : List BlockSpec) (tiles : List TileSpec) :
    (build blocks tiles).blocks.map Block.toSpec = blocks := by
  rw [build, List.map_map]
  exact (List.map_congr_left fun block _ => block.toSpec_build).trans (List.map_id _)

end Tables

namespace CoherentSpecs
variable {blocks : List BlockSpec} {tiles : List TileSpec}

/-! ## What the checks see -/

theorem exists_block (h : CoherentSpecs blocks tiles) {tile : TileSpec} (ht : tile ∈ tiles)
    {slot : SlotSpec} (hslot : slot ∈ tile.slots) {b : BlockId} (hb : b ∈ slot.sites) :
    ∃ block, blocks[b]? = some block ∧ tile.id ∈ block.tiles := by
  have hlt := h.site_lt tile ht slot hslot b hb
  have hget : blocks[b]? = some blocks[b] := List.getElem?_eq_getElem hlt
  have hid : blocks[b].id = b := eq_of_map_eq_range h.blockIds hget
  refine ⟨blocks[b], hget, ?_⟩
  rw [h.lists_iff _ (List.getElem_mem hlt)]
  exact ⟨tile, ht, rfl, slot, hslot, by rwa [hid]⟩

theorem consistent_tile (h : CoherentSpecs blocks tiles) {tile : TileSpec} (ht : tile ∈ tiles) :
    (tile.build (blocks.map BlockSpec.build)).Consistent (Tables.build blocks tiles) := by
  refine TileSpec.consistent_build (h.upright tile ht) (h.disjoint tile ht) ?_
  intro slot hslot b hb
  obtain ⟨block, hblock, hlists⟩ := h.exists_block ht hslot hb
  refine ⟨block.build, ?_, hlists⟩
  rw [Tables.block?_build, hblock, Option.map_some]

theorem consistent_block (h : CoherentSpecs blocks tiles) {block : BlockSpec}
    (hb : block ∈ blocks) : block.build.Consistent (Tables.build blocks tiles) := by
  intro t ht
  obtain ⟨tile, htile, rfl, slot, hslot, hsite⟩ := (h.lists_iff block hb t).1 ht
  obtain ⟨i, hi⟩ := List.getElem?_of_mem htile
  have hid : tile.id = i := eq_of_map_eq_range h.tileIds hi
  obtain ⟨j, hj⟩ := List.getElem?_of_mem hslot
  refine ⟨tile.build (blocks.map BlockSpec.build), ?_, ?_⟩
  · rw [Tables.tile?_build, hid, hi, Option.map_some]
  · have hs := tile.getElem?_subTiles_build (blocks.map BlockSpec.build) j
    rw [hj, Option.map_some] at hs
    exact ⟨_, List.mem_of_getElem? hs, (SubTile.hosts_iff _ _).2 hsite⟩

theorem consistent (h : CoherentSpecs blocks tiles) : (Tables.build blocks tiles).Consistent where
  tile := by
    intro t tile ht
    rw [Tables.tile?_build, Option.map_eq_some_iff] at ht
    obtain ⟨spec, hspec, rfl⟩ := ht
    exact ⟨eq_of_map_eq_range h.tileIds hspec, h.consistent_tile (List.mem_of_getElem? hspec)⟩
  block := by
    intro b block hb
    rw [Tables.block?_build, Option.map_eq_some_iff] at hb
    obtain ⟨spec, hspec, rfl⟩ := hb
    exact ⟨eq_of_map_eq_range h.blockIds hspec, h.consistent_block (List.mem_of_getElem? hspec)⟩

/-! ## What they do not see -/

/-- A direct map of a slot is the one of a block that the slot names. -/
theorem exists_of_directMap? (h : CoherentSpecs blocks tiles) {slot : SlotSpec}
    {position base : Nat} {b : BlockId} {m : PinMap}
    (hm : (slot.build (blocks.map BlockSpec.build) position base).directMap? b = some m) :
    b ∈ slot.sites ∧ ∃ block, blocks[b]? = some block ∧
      m = block.build.directMapTo (PortSpec.ports slot.ports) := by
  obtain ⟨site, hsite, block, hblock, hid, rfl⟩ := SlotSpec.exists_of_directMap?_build hm
  rw [List.getElem?_map, Option.map_eq_some_iff] at hblock
  obtain ⟨spec, hspec, rfl⟩ := hblock
  have hposition : spec.id = site := eq_of_map_eq_range h.blockIds hspec
  obtain rfl : site = b := hposition.symm.trans hid
  exact ⟨hsite, spec, hspec, rfl⟩

theorem exists_directMap_iff (h : CoherentSpecs blocks tiles) {tile : TileSpec} (ht : tile ∈ tiles)
    {slot : SlotSpec} (hslot : slot ∈ tile.slots) (position base : Nat) (b : BlockId) :
    (∃ m, (slot.build (blocks.map BlockSpec.build) position base).directMap? b = some m) ↔
      b ∈ slot.sites := by
  constructor
  · rintro ⟨m, hm⟩
    exact (h.exists_of_directMap? hm).1
  · intro hb
    obtain ⟨block, hget, -⟩ := h.exists_block ht hslot hb
    have hid : block.id = b := eq_of_map_eq_range h.blockIds hget
    have hbuilt : (blocks.map BlockSpec.build)[b]? = some block.build := by
      rw [List.getElem?_map, hget, Option.map_some]
    have hentry : (b, block.build.directMapTo (PortSpec.ports slot.ports)) ∈
        (slot.sites.filterMap fun site => (blocks.map BlockSpec.build)[site]?).map fun block =>
          (block.id, block.directMapTo (PortSpec.ports slot.ports)) := by
      rw [← hid]
      exact List.mem_map_of_mem (List.mem_filterMap.2 ⟨b, hb, hbuilt⟩)
    exact (KeyMap.exists_find?_ofList_iff _ b).2 ⟨_, hentry⟩

theorem lt_of_mem_directMap (h : CoherentSpecs blocks tiles) {slot : SlotSpec}
    {position base : Nat} {b : BlockId} {m : PinMap}
    (hm : (slot.build (blocks.map BlockSpec.build) position base).directMap? b = some m) :
    ∃ block, (Tables.build blocks tiles).block? b = some block ∧
      ∀ pair ∈ m.pairs, pair.1 < block.numPins ∧ pair.2 < slot.pinsPerInstance := by
  obtain ⟨-, block, hblock, rfl⟩ := h.exists_of_directMap? hm
  refine ⟨block.build, ?_, fun pair hpair => BlockSpec.lt_of_mem_directMapTo hpair⟩
  rw [Tables.block?_build, hblock, Option.map_some]

end CoherentSpecs

/-- Tables built from specifications that fit together are those tiles and blocks with numbers, and
pass all checks. Each sub tile lists consecutive root pins behind those of the sub tiles before it;
its ports carry their positions and follow each other over all pins of an instance; it has direct
maps for the blocks of its slot, and they lead from root pins of the block to pins of one instance.
The class of a root pin is the one that lists it. The logical pins of a block are the numbers below
its number of pins, root pins first, and its handles have 32 bits. -/
theorem Tables.build_numbered (blocks : List BlockSpec) (tiles : List TileSpec)
    (h : CoherentSpecs blocks tiles) :
    ((build blocks tiles).tiles.map Tile.toSpec = tiles ∧
      (build blocks tiles).blocks.map Block.toSpec = blocks) ∧
    (build blocks tiles).validate = .ok () ∧
    (∀ tile ∈ (build blocks tiles).tiles, tile.Numbered ∧
      (∀ s ∈ tile.subTiles, s.PortsIndexed ∧ s.PortsFill ∧
        (∀ b, (∃ m, s.directMap? b = some m) ↔ b ∈ s.sites) ∧
        ∀ b m, s.directMap? b = some m → ∃ block, (build blocks tiles).block? b = some block ∧
          ∀ pair ∈ m.pairs, pair.1 < block.numPins ∧ pair.2 < s.pinsPerInstance) ∧
      ∀ pin, pin < tile.numPins → ∀ cls,
        (tile.classOfPin[pin]? = some cls ↔ ∃ c, tile.classes[cls]? = some c ∧ pin ∈ c.pins)) ∧
    ∀ block ∈ (build blocks tiles).blocks, block.Numbered ∧
      block.graphPins.length = block.totalPins ∧ block.totalPins < idLimit := by
  refine ⟨⟨map_toSpec_tiles_build blocks tiles, map_toSpec_blocks_build blocks tiles⟩,
    (validate_eq_ok_iff _).2 h.consistent, ?_, ?_⟩
  · intro tile htile
    obtain ⟨spec, hspec, rfl⟩ := List.mem_map.1 htile
    refine ⟨spec.numbered_build _, ?_, ?_⟩
    · intro s hs
      obtain ⟨i, hi⟩ := List.getElem?_of_mem hs
      rw [TileSpec.getElem?_subTiles_build, Option.map_eq_some_iff] at hi
      obtain ⟨slot, hget, rfl⟩ := hi
      have hslot : slot ∈ spec.slots := List.mem_of_getElem? hget
      have hupright := h.upright spec hspec slot hslot
      refine ⟨SlotSpec.portsIndexed_build, SlotSpec.portsFill_build hupright,
        h.exists_directMap_iff hspec hslot _ _, ?_⟩
      intro b m hm
      rw [SlotSpec.pinsPerInstance_build hupright]
      exact h.lt_of_mem_directMap hm
    · intro pin _ cls
      exact spec.getElem?_classOfPin_build_iff _ pin cls
  · intro block hblock
    obtain ⟨spec, hspec, rfl⟩ := List.mem_map.1 hblock
    have hlength := spec.length_builtGraphPins
    have htotal := spec.totalPins_build
    refine ⟨spec.numbered_build, hlength.trans htotal.symm, ?_⟩
    rw [htotal]
    exact h.totalPins_lt spec hspec

/-- A block with a port without pins and two ports of one name, and a block for two tiles. -/
def Samples.unevenBlocks : List BlockSpec :=
  [⟨0, "A", [⟨"in", .input, 2⟩, ⟨"none", .input, 0⟩, ⟨"in", .clock, 2⟩],
      [⟨"cell", [⟨"d", .input, 1⟩, ⟨"q", .output, 2⟩]⟩], [0]⟩,
    ⟨1, "B", [⟨"out", .output, 3⟩], [], [1, 0]⟩]

/-- A tile with two instances for either block and one for the second, and a tile without pins. -/
def Samples.unevenTiles : List TileSpec :=
  [⟨0, "S", [⟨"two", ⟨0, 1⟩, [0, 1], [⟨"out", .output, 2⟩, ⟨"none", .input, 0⟩, ⟨"in", .input, 3⟩]⟩,
      ⟨"one", ⟨5, 5⟩, [1], [⟨"out", .output, 3⟩]⟩]⟩,
    ⟨1, "T", [⟨"all", ⟨0, 0⟩, [1], []⟩]⟩]

theorem Samples.uneven_coherent : CoherentSpecs unevenBlocks unevenTiles where
  blockIds := rfl
  tileIds := rfl
  site_lt := by decide
  upright := by decide
  disjoint := by
    simp [unevenTiles]
    omega
  lists_iff := by
    simp [unevenTiles, unevenBlocks, or_comm, eq_comm]
  totalPins_lt := by decide

end PinNumbering
