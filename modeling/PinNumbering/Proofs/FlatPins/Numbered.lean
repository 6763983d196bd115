import PinNumbering.Proofs.RootPins.Locations
import PinNumbering.Samples
/-! # The documented numbering

Tables can pass all checks and still number their pins in other ways than documented. The round trip
of graph pins relies on what the tables promise beyond the checks:

* `Tile.Numbered`: the sub tiles of a tile list consecutive root pins.
* `SubTile.MapsNumbered`: the direct maps lead from root pins of the block to pins of one instance.
* `SubTile.PortsIndexed`, `SubTile.PortsFill`: the ports of an instance carry their positions, and
  follow each other over all pins of the instance.
* `Block.Numbered`: the logical pins of a block count from zero, root pins first.
* `Tables.Numbered`: all of these but for the ports, and no sub tile lists a block twice.
-/
set_option autoImplicit false

namespace PinNumbering

/-- Every direct map leads from root pins of its block to pins of the first instance. -/
def SubTile.MapsNumbered (T : Tables) (s : SubTile) : Prop :=
  ∀ entry ∈ s.directMaps.entries, ∀ pair ∈ entry.2.pairs,
    pair.2 < s.pinsPerInstance ∧ ∀ block ∈ T.block? entry.1, pair.1 < block.numPins

instance (T : Tables) (s : SubTile) : Decidable (s.MapsNumbered T) :=
  inferInstanceAs (Decidable (∀ entry ∈ s.directMaps.entries, ∀ pair ∈ entry.2.pairs,
    pair.2 < s.pinsPerInstance ∧ ∀ block ∈ T.block? entry.1, pair.1 < block.numPins))

/-- Every port of the sub tile carries its position. -/
def SubTile.PortsIndexed (s : SubTile) : Prop := s.ports.map Port.index = List.range s.ports.length

instance (s : SubTile) : Decidable s.PortsIndexed :=
  inferInstanceAs (Decidable (s.ports.map Port.index = List.range s.ports.length))

/-- The ports of the sub tile follow each other without a gap, and together they hold the pins of
one instance. -/
structure SubTile.PortsFill (s : SubTile) : Prop where
  endToEnd : EndToEnd Port.firstPin Port.numPins 0 s.ports
  total_eq : totalOf (s.ports.map Port.numPins) = s.pinsPerInstance

instance (s : SubTile) : Decidable s.PortsFill :=
  decidable_of_iff (s.ports.map Port.firstPin = startsFrom 0 (s.ports.map Port.numPins) ∧
      totalOf (s.ports.map Port.numPins) = s.pinsPerInstance)
    ⟨fun h => ⟨h.1, h.2⟩, fun h => ⟨h.endToEnd, h.total_eq⟩⟩

/-- The logical pins of the block are the numbers below its number of pins. Their graph pins exist,
and those of the first `numPins` are the ones on the boundary. -/
structure Block.Numbered (block : Block) : Prop where
  logicalPins : block.logicalPins.pairs.map Prod.fst = List.range block.totalPins
  graphPin : ∀ pair ∈ block.logicalPins.pairs, ∃ data ∈ block.graphPin? pair.2,
    data.isRoot = true ↔ pair.1 < block.numPins

instance (block : Block) : Decidable block.Numbered :=
  decidable_of_iff (block.logicalPins.pairs.map Prod.fst = List.range block.totalPins ∧
      ∀ pair ∈ block.logicalPins.pairs, ∃ data ∈ block.graphPin? pair.2,
        data.isRoot = true ↔ pair.1 < block.numPins)
    ⟨fun h => ⟨h.1, h.2⟩, fun h => ⟨h.logicalPins, h.graphPin⟩⟩

/-- Tables that follow the documented numbering. -/
structure Tables.Numbered (T : Tables) : Prop where
  tile : ∀ tile ∈ T.tiles, tile.Numbered
  directMaps : ∀ tile ∈ T.tiles, ∀ s ∈ tile.subTiles, s.MapsNumbered T
  sites : ∀ tile ∈ T.tiles, ∀ s ∈ tile.subTiles, s.sites.Nodup
  block : ∀ block ∈ T.blocks, block.Numbered

instance (T : Tables) : Decidable T.Numbered :=
  decidable_of_iff ((∀ tile ∈ T.tiles, tile.Numbered) ∧
      (∀ tile ∈ T.tiles, ∀ s ∈ tile.subTiles, s.MapsNumbered T) ∧
      (∀ tile ∈ T.tiles, ∀ s ∈ tile.subTiles, s.sites.Nodup) ∧ ∀ block ∈ T.blocks, block.Numbered)
    ⟨fun h => ⟨h.1, h.2.1, h.2.2.1, h.2.2.2⟩, fun h => ⟨h.tile, h.directMaps, h.sites, h.block⟩⟩

/-! ## What follows for single entries -/

theorem eq_of_map_eq_range {α : Type} {f : α → Nat} {xs : List α}
    (h : xs.map f = List.range xs.length) {i : Nat} {x : α} (hx : xs[i]? = some x) : f x = i := by
  obtain ⟨hi, -⟩ := List.getElem?_eq_some_iff.1 hx
  have hget : (xs.map f)[i]? = (List.range xs.length)[i]? := by rw [h]
  rw [List.getElem?_map, hx, List.getElem?_range hi] at hget
  exact Option.some.inj hget

theorem SubTile.PortsIndexed.getElem?_index {s : SubTile} (h : s.PortsIndexed) {port : Port}
    (hport : port ∈ s.ports) : s.ports[port.index]? = some port := by
  obtain ⟨i, hi⟩ := List.getElem?_of_mem hport
  rwa [eq_of_map_eq_range h hi]

section Entries
variable {T : Tables} {tile : Tile} {t : TileId} {s : SubTile} {b : BlockId} {block : Block}
  {logicalPin : Nat}

theorem SubTile.MapsNumbered.withinInstance (h : s.MapsNumbered T) : s.MapsWithinInstance :=
  fun entry hentry pair hpair => (h entry hentry pair hpair).1

theorem SubTile.MapsNumbered.lt_numPins (h : s.MapsNumbered T) {pin : Nat}
    (hjoins : s.Joins b logicalPin pin) (hb : T.block? b = some block) :
    logicalPin < block.numPins := by
  obtain ⟨m, hm, hpair⟩ := hjoins
  have hentry : (b, m) ∈ s.directMaps.entries := (s.directMaps.mem_entries_iff (b, m)).2 hm
  exact (h _ hentry _ hpair).2 block hb

theorem Block.Numbered.exists_graphPin_iff (h : block.Numbered) :
    (∃ pin, (logicalPin, pin) ∈ block.logicalPins.pairs) ↔ logicalPin < block.totalPins := by
  rw [← List.mem_range, ← h.logicalPins, List.mem_map]
  constructor
  · rintro ⟨pin, hpin⟩
    exact ⟨_, hpin, rfl⟩
  · rintro ⟨⟨l, pin⟩, hpin, rfl⟩
    exact ⟨pin, hpin⟩

theorem Tables.Numbered.of_tile? (hn : T.Numbered) (ht : T.tile? t = some tile) :
    tile.Numbered ∧ (∀ s ∈ tile.subTiles, s.MapsNumbered T) ∧
      ∀ s ∈ tile.subTiles, s.sites.Nodup := by
  have hmem : tile ∈ T.tiles := List.mem_of_getElem? ht
  exact ⟨hn.tile tile hmem, hn.directMaps tile hmem, hn.sites tile hmem⟩

theorem Tables.Numbered.of_block? (hn : T.Numbered) (hb : T.block? b = some block) :
    block.Numbered :=
  hn.block block (List.mem_of_getElem? hb)

end Entries

end PinNumbering
