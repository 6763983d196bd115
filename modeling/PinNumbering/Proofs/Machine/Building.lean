import PinNumbering.Proofs.Builder.Invariants
import PinNumbering.Proofs.Machine.Builder
import PinNumbering.Proofs.Machine.Consistency
/-! # Tables that a machine builds

A machine that builds tables counts the locations of each slot and the root pins of each tile. Where
these fit, either machine builds the tables of the specifications and accepts them, and they have
the documented numbering. Blocks need no condition of their own, since the graph pins of a block
have handles of 32 bits.
-/
set_option autoImplicit false

namespace PinNumbering

/-! ## When built tables fit -/

theorem BlockSpec.portsFit_build {spec : BlockSpec} (h : spec.totalPins < idLimit) :
    spec.build.PortsFit := by
  intro port hport
  obtain ⟨toPort, hmem, rfl⟩ := List.mem_map.1 hport
  have hend := PortSpec.portEnd_le hmem
  have hpins : PortSpec.totalWidth spec.ports ≤ spec.totalPins := Nat.le_add_right _ _
  have hlimit : idLimit < wordLimit := by decide
  show toPort.firstPin + toPort.numPins < wordLimit
  omega

theorem TileSpec.RootsFit.build {spec : TileSpec} (h : spec.RootsFit) (blocks : List Block) :
    (spec.build blocks).RootsFit where
  total s hs := by
    obtain ⟨i, hi⟩ := List.getElem?_of_mem hs
    rw [TileSpec.getElem?_subTiles_build, Option.map_eq_some_iff] at hi
    obtain ⟨slot, hslot, rfl⟩ := hi
    exact h.total slot (List.mem_of_getElem? hslot)
  rootPins := by
    have hpins : (spec.build blocks).subTiles.map SubTile.numPins =
        spec.slots.map SlotSpec.numPins := SlotSpec.map_numPins_buildFrom blocks 0 0 spec.slots
    rw [hpins]
    exact h.rootPins

namespace Machine

theorem build_eq (m : Machine) {ε : Type} {blocks : List BlockSpec} {tiles : List TileSpec}
    (hblocks : ∀ block ∈ blocks, block.totalPins < idLimit)
    (htiles : ∀ tile ∈ tiles, tile.RootsFit) :
    (m.build blocks tiles : Run ε Tables) = .ok (Tables.build blocks tiles) :=
  Run.Faithful.eq_of_true (faithful_build
    (fun _ block hblock => BlockSpec.portsFit_build (hblocks block hblock)) fun _ => htiles) m

theorem validate_build_eq (m : Machine) {blocks : List BlockSpec} {tiles : List TileSpec}
    (htiles : ∀ tile ∈ tiles, tile.RootsFit) :
    m.validate (Tables.build blocks tiles) = Run.of (Tables.build blocks tiles).validate := by
  refine Run.Faithful.eq_of_true (faithful_validate _ fun _ tile htile => ?_) m
  obtain ⟨spec, hspec, rfl⟩ := List.mem_map.1 htile
  exact (htiles spec hspec).build _

/-- From specifications that fit together, and whose locations and root pins fit, either machine
builds tables of these specifications and accepts them. They number root pins and ports without a
gap, relate the root pins of a block to pins of one instance, and put every root pin in one class;
the logical pins of a block are the numbers below their count, the root pins first. -/
theorem build_numbers (m : Machine) (blocks : List BlockSpec) (tiles : List TileSpec)
    (h : CoherentSpecs blocks tiles) (hfits : ∀ tile ∈ tiles, tile.RootsFit) :
    ∃ T : Tables, m.build blocks tiles = (.ok T : Run TableFault Tables) ∧
      (T.tiles.map Tile.toSpec = tiles ∧ T.blocks.map Block.toSpec = blocks) ∧
      m.validate T = .ok () ∧
      (∀ tile ∈ T.tiles, tile.Numbered ∧
        (∀ s ∈ tile.subTiles, s.PortsIndexed ∧ s.PortsFill ∧
          (∀ b, (∃ maps, s.directMap? b = some maps) ↔ b ∈ s.sites) ∧
          ∀ b maps, s.directMap? b = some maps → ∃ block, T.block? b = some block ∧
            ∀ pair ∈ maps.pairs, pair.1 < block.numPins ∧ pair.2 < s.pinsPerInstance) ∧
        ∀ pin, pin < tile.numPins → ∀ cls,
          (tile.classOfPin[pin]? = some cls ↔ ∃ c, tile.classes[cls]? = some c ∧ pin ∈ c.pins)) ∧
      ∀ block ∈ T.blocks, block.Numbered ∧
        block.graphPins.length = block.totalPins ∧ block.totalPins < idLimit := by
  obtain ⟨hspecs, hvalid, htiles, hblocks⟩ := Tables.build_numbered blocks tiles h
  refine ⟨_, m.build_eq h.totalPins_lt hfits, hspecs, ?_, htiles, hblocks⟩
  rw [m.validate_build_eq hfits, hvalid]
  rfl

end Machine

/-- The second port "in" of the first block displaces the first one in the direct map, and root pin
7 is the first pin of class 5, port "in" of the second instance. -/
theorem Samples.uneven_numbered :
    CoherentSpecs unevenBlocks unevenTiles ∧ (∀ tile ∈ unevenTiles, tile.RootsFit) ∧
    ∀ m : Machine, ∃ T : Tables,
      m.build unevenBlocks unevenTiles = (.ok T : Run TableFault Tables) ∧ m.validate T = .ok () ∧
      ∃ tile s maps, T.tiles[0]? = some tile ∧ tile.subTiles[0]? = some s ∧ tile.Numbered ∧
        s.PortsFill ∧ s.directMap? 0 = some maps ∧ maps.pairs = [(2, 2), (3, 3)] ∧
        (∀ pair ∈ maps.pairs, pair.2 < s.pinsPerInstance) ∧
        tile.classOfPin[7]? = some 5 ∧ ∃ c, tile.classes[5]? = some c ∧ 7 ∈ c.pins := by
  have hfits : ∀ tile ∈ unevenTiles, tile.RootsFit := by
    rintro tile (_ | ⟨_, _ | ⟨_, ⟨⟩⟩⟩) <;> exact ⟨by decide, by decide, by decide⟩
  refine ⟨uneven_coherent, hfits, fun m => ?_⟩
  obtain ⟨T, hbuild, -, hvalid, htiles, -⟩ := Machine.build_numbers m _ _ uneven_coherent hfits
  have hexact := m.build_eq (ε := TableFault) uneven_coherent.totalPins_lt hfits
  obtain rfl : Tables.build unevenBlocks unevenTiles = T := Except.ok.inj (hexact.symm.trans hbuild)
  obtain ⟨hnumbered, hsubTiles, hclasses⟩ := htiles _ List.mem_cons_self
  obtain ⟨-, hfill, -, hmaps⟩ := hsubTiles _ List.mem_cons_self
  obtain ⟨block, -, hpairs⟩ := hmaps 0 _ rfl
  refine ⟨_, hbuild, hvalid, _, _, _, rfl, rfl, hnumbered, hfill, rfl, rfl, ?_, rfl, ?_⟩
  · exact fun pair hpair => (hpairs pair hpair).2
  · exact (hclasses 7 (by decide) 5).1 rfl

/-- The specification of the tile at all locations fits together. A machine that checks does not
build the tile. One that wraps builds it, and stops when it checks it. -/
theorem Samples.allLocations_unbuilt :
    CoherentSpecs [] [allLocationsTile] ∧
    (Machine.checking.build [] [allLocationsTile] : Run TableFault Tables) = Run.overflow ∧
    ∃ T : Tables, Machine.wrapping.build [] [allLocationsTile] = (.ok T : Run TableFault Tables) ∧
      Machine.wrapping.validate T = .error (.stop .divisionByZero) := by
  refine ⟨?_, rfl, allLocations, rfl, rfl⟩
  exact {
    blockIds := rfl
    tileIds := rfl
    site_lt := by decide
    upright := by decide
    disjoint := by simp [allLocationsTile]
    lists_iff := by simp
    totalPins_lt := by simp }

end PinNumbering
