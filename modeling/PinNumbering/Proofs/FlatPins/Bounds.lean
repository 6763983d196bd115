import PinNumbering.Proofs.FlatPins.RoundTrip
import PinNumbering.Proofs.Tables.Faults
import PinNumbering.Proofs.Tables.Totality
/-! # Pins below the bounds

Callers size their arrays by the bound on the pins of a tile, or by the bound on the root pins of
all tiles for a block. On a numbered tile every way from a logical pin stays below the root pins,
the last pin of the last instance included; an internal graph pin stays below the flat pins, since
its number counts on from the start of its span and the spans end at the bound. A tile that takes a
block is among those that the block lists, so the bound for the block covers it.

* `foldl_max_le_iff`, `foldl_max_mem`: the largest number of a list.
* `Tables.Consistent.maxRootPins_spec`: the bound for a block, against the tiles that host it.
* `Tile.Consistent.rootPinAtLocation_lt` and its likes: each way to a pin against the bound.
* `pins_below_bounds`: all of them.
-/
set_option autoImplicit false

namespace PinNumbering

/-! ## The largest number of a list -/

theorem foldl_max_le_iff (ns : List Nat) (start bound : Nat) :
    ns.foldl max start ≤ bound ↔ start ≤ bound ∧ ∀ n ∈ ns, n ≤ bound := by
  induction ns generalizing start with
  | nil => simp
  | cons n rest ih => rw [List.foldl_cons, ih, List.forall_mem_cons, Nat.max_le, and_assoc]

theorem foldl_max_mem (ns : List Nat) (start : Nat) : ns.foldl max start ∈ start :: ns := by
  induction ns generalizing start with
  | nil => exact List.mem_cons_self
  | cons n rest ih =>
    rw [List.foldl_cons]
    have hmem := ih (max start n)
    rcases Nat.le_total start n with hle | hle
    · rw [Nat.max_eq_right hle] at hmem ⊢
      exact List.mem_cons_of_mem start hmem
    · rw [Nat.max_eq_left hle] at hmem ⊢
      rcases List.mem_cons.1 hmem with heq | hrest
      · rw [heq]
        exact List.mem_cons_self
      · exact List.mem_cons_of_mem start (List.mem_cons_of_mem n hrest)

/-! ## The bound for a block -/

/-- The bound is the largest number of root pins of a tile that hosts the block. -/
theorem Tables.Consistent.maxRootPins_spec {T : Tables} (h : T.Consistent) {b : BlockId}
    {block : Block} (hb : T.block? b = some block) :
    ∃ most, T.maxRootPins b = .ok most ∧
      (∀ t tile, T.tile? t = some tile → T.Hosts t b → tile.numPins ≤ most) ∧
      (most = 0 ∨ ∃ t tile, T.tile? t = some tile ∧ T.Hosts t b ∧ tile.numPins = most) := by
  obtain ⟨most, hmost⟩ := h.exists_maxRootPins hb
  have hblock : T.findBlock b = .ok block := orFail_eq_ok_iff.2 hb
  obtain ⟨tiles, htiles, hfold⟩ : ∃ tiles, block.tiles.mapM T.findTile = .ok tiles ∧
      (tiles.map Tile.numPins).foldl max 0 = most := by
    simpa only [maxRootPins, hblock, bind_eq_ok_iff, pure_eq_ok_iff, Except.ok.injEq,
      exists_eq_left'] using hmost
  have hmem : ∀ tile, tile ∈ tiles ↔ ∃ t, T.tile? t = some tile ∧ T.Hosts t b := by
    intro tile
    rw [mem_iff_of_mapM_eq_ok htiles]
    simp only [findTile, orFail_eq_ok_iff, h.hosts_iff_lists, Lists, hb, Option.some.injEq,
      exists_eq_left', and_comm]
  refine ⟨most, hmost, ?_, ?_⟩
  · intro t tile ht hhosts
    have hle := (foldl_max_le_iff (tiles.map Tile.numPins) 0 most).1 (Nat.le_of_eq hfold)
    exact hle.2 _ (List.mem_map_of_mem ((hmem tile).2 ⟨t, ht, hhosts⟩))
  · have hin := foldl_max_mem (tiles.map Tile.numPins) 0
    rw [hfold, List.mem_cons, List.mem_map] at hin
    rcases hin with hzero | ⟨tile, htile, hpins⟩
    · exact .inl hzero
    · obtain ⟨t, ht, hhosts⟩ := (hmem tile).1 htile
      exact .inr ⟨t, tile, ht, hhosts, hpins⟩

/-! ## Each way to a pin -/

section Ways
variable {T : Tables} {tile : Tile} {t : TileId} {b : BlockId} {logicalPin pin : Nat}

theorem Tile.Consistent.rootPinOfFirst_lt (h : tile.Consistent T) (hn : tile.Numbered)
    (ht : T.tile? t = some tile) (hpin : T.rootPinOfFirst t b logicalPin = .ok pin) :
    pin < tile.numPins := by
  obtain ⟨s, k, hhost, -, hk⟩ := (Tables.rootPinOfFirst_eq_ok_iff ht).1 hpin
  obtain ⟨i, -, hi⟩ := Tile.findIdx?_of_host?_eq_some hhost
  exact hn.lt_numPins h hi hk

theorem Tile.Consistent.rootPinOfInstance_lt (h : tile.Consistent T) (hn : tile.Numbered)
    (ht : T.tile? t = some tile) {subTile inst : Nat}
    (hpin : T.rootPinOfInstance t subTile b inst logicalPin = .ok pin) : pin < tile.numPins := by
  obtain ⟨s, k, hs, -, -, hk⟩ := (Tables.rootPinOfInstance_eq_ok_iff ht).1 hpin
  exact hn.lt_numPins h hs hk

/-- The pin of the first instance is moved on without a look-up, so the direct map has to stay
within one instance. -/
theorem Tile.Consistent.rootPinAtLocation_lt (h : tile.Consistent T) (hn : tile.Numbered)
    (hmaps : ∀ s ∈ tile.subTiles, s.MapsWithinInstance) (ht : T.tile? t = some tile)
    {location : Nat} (hpin : T.rootPinAtLocation t b location logicalPin = .ok pin) :
    pin < tile.numPins := by
  obtain ⟨i, s, inst, k, hs, -, hinst, -, -, hk, rfl⟩ :=
    (h.rootPinAtLocation_eq_ok_iff_joins hn hmaps ht).1 hpin
  have hoffset := (h.subTile i s hs).pin_lt_numPins hinst hk
  have hend := run_le_totalOf (Tile.getElem?_map_numPins hs)
  rw [← Tile.pinsBefore_eq, h.numPins_eq] at hend
  omega

theorem Tables.add_lt_flatPinEnd {p : Place} (hp : p ∈ tile.places)
    (hpin : logicalPin < T.pinsOf p.block) :
    tile.numPins + tile.offset T.pinsOf p + logicalPin < (T.laidOut tile).flatPinEnd := by
  have hspan : T.spanOf tile p ∈ (T.laidOut tile).spans := List.mem_map_of_mem hp
  have hend := (T.endToEnd_pins tile).lt_end hspan hpin
  rw [totalOf_numPins_laidOut] at hend
  exact hend

theorem Tile.Consistent.graphPinNumber_lt (h : tile.Consistent T) (hn : tile.Numbered)
    (ht : T.tile? t = some tile) {block : Block} (hb : T.block? b = some block)
    (hbelow : ∀ pair ∈ block.logicalPins.pairs, pair.1 < block.totalPins) {subTile inst : Nat}
    {graphPin : GraphPinId}
    (hpin : T.numbering.graphPinNumber t subTile b inst graphPin = .ok pin) :
    pin < (T.laidOut tile).flatPinEnd := by
  obtain ⟨block', data, logicalPin, hb', -, hpair, hway⟩ :=
    Numbering.graphPinNumber_eq_ok_iff.1 hpin
  obtain rfl : block = block' := Option.some.inj (hb.symm.trans hb')
  rcases hway with ⟨-, hroot⟩ | ⟨-, base, hbase, rfl⟩
  · have hlt : pin < tile.numPins := h.rootPinOfInstance_lt hn ht hroot
    exact Nat.lt_of_lt_of_le hlt (Nat.le_add_right _ _)
  · obtain ⟨p, hp, rfl⟩ :=
      (Tables.sitePinBase_eq_ok_iff_isFirstPlace ht (h.layout_eq ht)).1 hbase
    have hpb : p.block = b := hp.isAt.2.2
    apply Tables.add_lt_flatPinEnd hp.mem_places
    rw [hpb, Tables.pinsOf, Tables.footprintOf_eq_of_block? hb]
    exact hbelow _ hpair

end Ways

/-! ## All bounds -/

/-- On tables that pass the checks, let a tile be numbered as documented, with direct maps that stay
within one instance, and let the logical pins of a block be the numbers below how many they are. If
some sub tile of the tile hosts the block, all ways to root pins for the block stay below the root
pins of the tile, and its graph pins below the flat pins. The bound for any block is zero if no tile
hosts it, and otherwise the number of root pins of some tile that does; no tile that does has
more. -/
theorem Tables.pins_below_bounds (T : Tables) (hT : T.validate = .ok ()) :
    (∀ t tile b block subTile s, T.tile? t = some tile → tile.Numbered →
      (∀ s ∈ tile.subTiles, s.MapsWithinInstance) → T.block? b = some block →
      (∀ pair ∈ block.logicalPins.pairs, pair.1 < block.totalPins) →
      tile.subTiles[subTile]? = some s → b ∈ s.sites →
      ∃ roots flats most, T.numbering.pinBound t false = .ok roots ∧
        T.numbering.pinBound t true = .ok flats ∧ T.maxRootPins b = .ok most ∧ roots ≤ most ∧
        (∀ logicalPin pin, T.rootPinOfFirst t b logicalPin = .ok pin → pin < roots) ∧
        (∀ location logicalPin pin,
          T.rootPinAtLocation t b location logicalPin = .ok pin → pin < roots) ∧
        (∀ inst logicalPin pin,
          T.rootPinOfInstance t subTile b inst logicalPin = .ok pin → pin < roots) ∧
        ∀ inst graphPin pin,
          T.numbering.graphPinNumber t subTile b inst graphPin = .ok pin → pin < flats) ∧
    ∀ b block, T.block? b = some block → ∃ most, T.maxRootPins b = .ok most ∧
      ((∀ t, ¬ T.Hosts t b) → most = 0) ∧
      ((∃ t, T.Hosts t b) →
        ∃ t tile, T.tile? t = some tile ∧ T.Hosts t b ∧ tile.numPins = most) := by
  have hconsistent : T.Consistent := T.validate_eq_ok_iff.1 hT
  constructor
  · intro t tile b block subTile s ht hn hmaps hb hbelow hs hsite
    have h : tile.Consistent T := (hconsistent.tile t tile ht).2
    have htile : T.numbering.tables.findTile t = .ok tile := findTile_eq_ok ht
    have hL : T.numbering.layout t = .ok (T.laidOut tile) := h.layout_eq ht
    obtain ⟨most, hmost, hbound, -⟩ := hconsistent.maxRootPins_spec hb
    have hhosts : T.Hosts t b := ⟨tile, ht, s, List.mem_of_getElem? hs, hsite⟩
    refine ⟨tile.numPins, (T.laidOut tile).flatPinEnd, most, ?_, ?_, hmost, hbound t tile ht hhosts,
      ?_, ?_, ?_, ?_⟩
    · unfold Numbering.pinBound
      rw [htile]
      rfl
    · unfold Numbering.pinBound
      rw [hL]
      rfl
    · intro logicalPin pin hpin
      exact h.rootPinOfFirst_lt hn ht hpin
    · intro location logicalPin pin hpin
      exact h.rootPinAtLocation_lt hn hmaps ht hpin
    · intro inst logicalPin pin hpin
      exact h.rootPinOfInstance_lt hn ht hpin
    · intro inst graphPin pin hpin
      exact h.graphPinNumber_lt hn ht hb hbelow hpin
  · intro b block hb
    obtain ⟨most, hmost, hbound, hattained⟩ := hconsistent.maxRootPins_spec hb
    refine ⟨most, hmost, ?_, ?_⟩
    · intro hnone
      rcases hattained with hzero | ⟨t, -, -, hhosts, -⟩
      · exact hzero
      · exact absurd hhosts (hnone t)
    · intro hsome
      rcases hattained with hzero | hattained
      · obtain ⟨t, tile, ht, hrest⟩ := hsome
        have hhosts : T.Hosts t b := ⟨tile, ht, hrest⟩
        have hle := hbound t tile ht hhosts
        exact ⟨t, tile, ht, hhosts, by omega⟩
      · exact hattained

/-- The memory is the last site of the logic tile. Its last pin on the boundary is root pin 18 of
19, its last graph pin is flat pin 70 of 71. -/
theorem Samples.heterogeneous_bounds :
    heterogeneous.validate = .ok () ∧ heterogeneous.rootPinOfInstance 0 1 2 0 4 = .ok 18 ∧
      heterogeneous.numbering.graphPinNumber 0 1 2 0 9 = .ok 70 ∧
      ∃ roots flats most, heterogeneous.numbering.pinBound 0 false = .ok roots ∧
        heterogeneous.numbering.pinBound 0 true = .ok flats ∧
        heterogeneous.maxRootPins 2 = .ok most ∧ 18 < roots ∧ roots ≤ most ∧ 70 < flats ∧
        ∃ t tile, heterogeneous.tile? t = some tile ∧ heterogeneous.Hosts t 2 ∧
          tile.numPins = most := by
  obtain ⟨htiles, hblocks⟩ := heterogeneous.pins_below_bounds rfl
  obtain ⟨roots, flats, most, hroots, hflats, hmost, hle, -, -, hinstance, hgraph⟩ :=
    htiles 0 _ 2 _ 1 _ rfl (by decide) (by decide) rfl (by decide) rfl (by decide)
  obtain ⟨most', hmost', -, hhosted⟩ := hblocks 2 _ rfl
  obtain rfl : most = most' := Except.ok.inj (hmost.symm.trans hmost')
  have hroot : heterogeneous.rootPinOfInstance 0 1 2 0 4 = .ok 18 := rfl
  have hflat : heterogeneous.numbering.graphPinNumber 0 1 2 0 9 = .ok 70 := rfl
  exact ⟨rfl, hroot, hflat, roots, flats, most, hroots, hflats, hmost, hinstance 0 4 18 hroot, hle,
    hgraph 0 9 70 hflat, hhosted ⟨0, _, rfl, _, .tail _ (.head _), by decide⟩⟩

end PinNumbering
