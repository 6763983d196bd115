import PinNumbering.Proofs.Tables.Consistent
import PinNumbering.Samples
/-! # Reported faults

The checks stop at the first fault. What they report is in the tables, with all the data of the
report; and what can be reported is never in consistent tables. Some checks are only sound because
of those before them: that ranges collide means that they share a location once they are known to
be upright, and that a list lacks the number of an entry means that it lacks the entry once the
number is known to be its position.

* `Tables.HasFault`: the fault is in the tables.
* `HasFault.not_consistent`: consistent tables have no fault.
* `hasFault_of_validateSubTile`, `hasFault_of_validateTile`, `hasFault_of_validateBlock`: what the
  parts of the checks report.
* `Consistent.hosts_iff_lists`: tiles and blocks of consistent tables list each other.
* `validate_classifies`: the checks accept consistent tables and report faults of all others.
-/
set_option autoImplicit false

namespace PinNumbering

/-- Some sub tile of the tile lists the block. -/
def Tables.Hosts (T : Tables) (t : TileId) (b : BlockId) : Prop :=
  ∃ tile, T.tile? t = some tile ∧ ∃ s ∈ tile.subTiles, b ∈ s.sites

/-- The block lists the tile. -/
def Tables.Lists (T : Tables) (b : BlockId) (t : TileId) : Prop :=
  ∃ block, T.block? b = some block ∧ t ∈ block.tiles

/-- A fault of the tables. Its names, numbers and ranges are those of the entries concerned. -/
inductive Tables.HasFault (T : Tables) : TableFault → Prop
  | tileIdMismatch {t : TileId} {tile : Tile} (ht : T.tile? t = some tile) (hid : tile.id ≠ t) :
      T.HasFault (.tileIdMismatch t tile.id)
  | blockIdMismatch {b : BlockId} {block : Block} (hb : T.block? b = some block)
      (hid : block.id ≠ b) : T.HasFault (.blockIdMismatch b block.id)
  | subTileIndexMismatch {tile : Tile} {i : Nat} {s : SubTile} (htile : tile ∈ T.tiles)
      (hs : tile.subTiles[i]? = some s) (hindex : s.index ≠ i) :
      T.HasFault (.subTileIndexMismatch tile.name s.name i s.index)
  | unevenInstancePins {tile : Tile} {s : SubTile} (htile : tile ∈ T.tiles)
      (hs : s ∈ tile.subTiles) (hinstance : 0 < s.capacity.total)
      (hdvd : ¬ s.capacity.total ∣ s.numPins) :
      T.HasFault (.unevenInstancePins tile.name s.name s.numPins s.capacity.total)
  | pinCountMismatch {tile : Tile} (htile : tile ∈ T.tiles)
      (hsum : totalOf (tile.subTiles.map SubTile.numPins) ≠ tile.numPins) :
      T.HasFault (.pinCountMismatch tile.name tile.numPins
        (totalOf (tile.subTiles.map SubTile.numPins)))
  | rootPinTableLength {tile : Tile} {s : SubTile} (htile : tile ∈ T.tiles)
      (hs : s ∈ tile.subTiles) (hlength : s.rootPins.length ≠ s.numPins) :
      T.HasFault (.rootPinTableLength tile.name s.numPins s.rootPins.length)
  | classTableLength {tile : Tile} (htile : tile ∈ T.tiles)
      (hlength : tile.classOfPin.length ≠ tile.numPins) :
      T.HasFault (.classTableLength tile.name tile.numPins tile.classOfPin.length)
  | danglingClass {tile : Tile} {pin cls : Nat} (htile : tile ∈ T.tiles) (hpin : pin < tile.numPins)
      (hcls : tile.classOfPin[pin]? = some cls) (hout : tile.classes.length ≤ cls) :
      T.HasFault (.danglingClass tile.name pin cls)
  | missingBlock {tile : Tile} {s : SubTile} {b : BlockId} (htile : tile ∈ T.tiles)
      (hs : s ∈ tile.subTiles) (hsite : b ∈ s.sites) (hb : T.block? b = none) :
      T.HasFault (.missingBlock tile.name s.name b)
  | missingTile {block : Block} {t : TileId} (hblock : block ∈ T.blocks) (hlisted : t ∈ block.tiles)
      (ht : T.tile? t = none) : T.HasFault (.missingTile block.name t)
  | asymmetricEquivalence {t : TileId} {b : BlockId} {tile : Tile} {block : Block}
      (ht : T.tile? t = some tile) (hb : T.block? b = some block)
      (hone : ¬ (T.Hosts t b ↔ T.Lists b t)) :
      T.HasFault (.asymmetricEquivalence tile.name block.name)
  | invertedCapacity {tile : Tile} {s : SubTile} (htile : tile ∈ T.tiles) (hs : s ∈ tile.subTiles)
      (hinverted : s.capacity.high < s.capacity.low) :
      T.HasFault (.invertedCapacity tile.name s.name s.capacity)
  | overlappingCapacity {tile : Tile} {i j location : Nat} {s s' : SubTile}
      (htile : tile ∈ T.tiles) (hs : tile.subTiles[i]? = some s)
      (hs' : tile.subTiles[j]? = some s') (hij : i < j)
      (hcontains : s.capacity.contains location = true)
      (hcontains' : s'.capacity.contains location = true) :
      T.HasFault (.overlappingCapacity tile.name s.capacity s'.capacity)

section Faults
variable {T : Tables} {tile : Tile} {block : Block} {t : TileId} {b : BlockId} {i : Nat}
  {s : SubTile} {fault : TableFault}

/-! ## Consistent tables have no fault -/

theorem Tables.Consistent.of_mem_tiles (h : T.Consistent) (htile : tile ∈ T.tiles) :
    tile.Consistent T := by
  obtain ⟨t, ht⟩ := List.getElem?_of_mem htile
  exact (h.tile t tile ht).2

theorem Tile.Consistent.of_mem_subTiles (h : tile.Consistent T) (hs : s ∈ tile.subTiles) :
    ∃ i, s.Consistent T tile i := by
  obtain ⟨i, hi⟩ := List.getElem?_of_mem hs
  exact ⟨i, h.subTile i s hi⟩

/-- A tile and a block list each other or neither lists the other, whether or not they exist. -/
theorem Tables.Consistent.hosts_iff_lists (h : T.Consistent) (t : TileId) (b : BlockId) :
    T.Hosts t b ↔ T.Lists b t := by
  constructor
  · rintro ⟨tile, ht, s, hs, hsite⟩
    obtain ⟨hid, htile⟩ := h.tile t tile ht
    obtain ⟨i, hsub⟩ := htile.of_mem_subTiles hs
    obtain ⟨block, hb, hlisted⟩ := hsub.sites_listed b hsite
    rw [hid] at hlisted
    exact ⟨block, hb, hlisted⟩
  · rintro ⟨block, hb, hlisted⟩
    obtain ⟨hid, hblock⟩ := h.block b block hb
    obtain ⟨tile, ht, s, hs, hhosts⟩ := hblock t hlisted
    rw [hid] at hhosts
    exact ⟨tile, ht, s, hs, (s.hosts_iff b).1 hhosts⟩

theorem Tables.HasFault.not_consistent (h : T.HasFault fault) : ¬ T.Consistent := by
  intro hT
  cases h with
  | tileIdMismatch ht hid => exact hid (hT.tile _ _ ht).1
  | blockIdMismatch hb hid => exact hid (hT.block _ _ hb).1
  | subTileIndexMismatch htile hs hindex =>
    exact hindex ((hT.of_mem_tiles htile).subTile _ _ hs).index_eq
  | unevenInstancePins htile hs hinstance hdvd =>
    obtain ⟨i, hsub⟩ := (hT.of_mem_tiles htile).of_mem_subTiles hs
    exact hdvd hsub.total_dvd
  | pinCountMismatch htile hsum => exact hsum (hT.of_mem_tiles htile).numPins_eq
  | rootPinTableLength htile hs hlength =>
    obtain ⟨i, hsub⟩ := (hT.of_mem_tiles htile).of_mem_subTiles hs
    exact hlength hsub.rootPins_length
  | classTableLength htile hlength => exact hlength (hT.of_mem_tiles htile).classOfPin_length
  | danglingClass htile hpin hcls hout =>
    have hlt := (hT.of_mem_tiles htile).classOfPin_lt _ (List.mem_of_getElem? hcls)
    omega
  | missingBlock htile hs hsite hb =>
    obtain ⟨i, hsub⟩ := (hT.of_mem_tiles htile).of_mem_subTiles hs
    obtain ⟨block, hblock, -⟩ := hsub.sites_listed _ hsite
    rw [hb] at hblock
    cases hblock
  | missingTile hblock hlisted ht =>
    obtain ⟨b, hb⟩ := List.getElem?_of_mem hblock
    obtain ⟨tile, htile, -⟩ := (hT.block b _ hb).2 _ hlisted
    rw [ht] at htile
    cases htile
  | asymmetricEquivalence ht hb hone => exact hone (hT.hosts_iff_lists _ _)
  | invertedCapacity htile hs hinverted =>
    obtain ⟨i, hsub⟩ := (hT.of_mem_tiles htile).of_mem_subTiles hs
    have hupright := hsub.low_le_high
    omega
  | overlappingCapacity htile hs hs' hij hcontains hcontains' =>
    have hsame := (hT.of_mem_tiles htile).disjoint _ _ _ _ _ hs hs' hcontains hcontains'
    omega

/-! ## Reports of one sub tile -/

theorem Tables.hasFault_of_validateSite (ht : T.tile? t = some tile) (hid : tile.id = t)
    (hs : s ∈ tile.subTiles) (hsite : b ∈ s.sites)
    (h : T.validateSite tile s b = .error fault) : T.HasFault fault := by
  unfold validateSite at h
  cases hb : T.block? b with
  | none =>
    rw [hb, Except.error.injEq] at h
    rw [← h]
    exact .missingBlock (List.mem_of_getElem? ht) hs hsite hb
  | some block =>
    rw [hb, TableFault.unless_eq_error_iff] at h
    obtain ⟨hnot, rfl⟩ := h
    refine .asymmetricEquivalence ht hb ?_
    intro hiff
    obtain ⟨block', hb', hlisted⟩ := hiff.1 ⟨tile, ht, s, hs, hsite⟩
    rw [hb, Option.some.injEq] at hb'
    rw [hid, hb'] at hnot
    exact hnot hlisted

/-- The sub tiles before are upright when the ranges are compared. -/
theorem Tables.hasFault_of_validateSubTile (ht : T.tile? t = some tile) (hid : tile.id = t)
    (hi : tile.subTiles[i]? = some s)
    (hupright : ∀ (j : Nat) (earlier : SubTile), j < i → tile.subTiles[j]? = some earlier →
      earlier.capacity.low ≤ earlier.capacity.high)
    (h : T.validateSubTile tile i s = .error fault) : T.HasFault fault := by
  have htile : tile ∈ T.tiles := List.mem_of_getElem? ht
  have hs : s ∈ tile.subTiles := List.mem_of_getElem? hi
  simp only [validateSubTile, unit_bind_eq_error_iff, TableFault.unless_eq_error_iff,
    TableFault.unless_eq_ok_iff] at h
  rcases h with ⟨hindex, rfl⟩ | ⟨-, h⟩
  · exact .subTileIndexMismatch htile hi hindex
  rcases h with ⟨hrange, rfl⟩ | ⟨hrange, h⟩
  · exact .invertedCapacity htile hs (Nat.not_le.1 hrange)
  rcases h with ⟨hmod, rfl⟩ | ⟨-, h⟩
  · have hinstance : 0 < s.capacity.total := s.capacity.total_pos_iff.2 hrange
    exact .unevenInstancePins htile hs hinstance fun hdvd => hmod (Nat.mod_eq_zero_of_dvd hdvd)
  rcases h with ⟨hlength, rfl⟩ | ⟨-, h⟩
  · exact .rootPinTableLength htile hs hlength
  rcases h with hoverlap | ⟨-, hsites⟩
  · obtain ⟨k, earlier, hk, hearlier, -⟩ := forM_eq_error_iff.1 hoverlap
    obtain ⟨j, hji, hj⟩ := exists_getElem?_of_mem_take (List.mem_of_getElem? hk)
    obtain ⟨hcollide, rfl⟩ := (TableFault.unless_eq_error_iff _ _ _).1 hearlier
    rw [Bool.not_eq_false] at hcollide
    obtain ⟨location, hmeet, hmeet'⟩ :=
      (CapacityRange.overlaps_iff_meets (hupright j earlier hji hj) hrange).1 hcollide
    exact .overlappingCapacity htile hj hi hji hmeet hmeet'
  · obtain ⟨k, b, hk, hb, -⟩ := forM_eq_error_iff.1 hsites
    exact hasFault_of_validateSite ht hid hs (List.mem_of_getElem? hk) hb

/-! ## Reports of a tile, of a block and of the tables -/

theorem Tables.hasFault_of_validateTile (ht : T.tile? t = some tile) (hid : tile.id = t)
    (h : T.validateTile tile = .error fault) : T.HasFault fault := by
  have htile : tile ∈ T.tiles := List.mem_of_getElem? ht
  simp only [validateTile, unit_bind_eq_error_iff, TableFault.unless_eq_error_iff,
    TableFault.unless_eq_ok_iff] at h
  rcases h with hsubTiles | ⟨-, h⟩
  · obtain ⟨i, s, hi, hs, hbefore⟩ := forM_zipIdx_eq_error_iff.1 hsubTiles
    refine hasFault_of_validateSubTile ht hid hi ?_ hs
    intro j earlier hji hj
    have hpassed := hbefore j earlier hji hj
    exact ((validateSubTile_eq_ok_iff T tile j earlier).1 hpassed).1.low_le_high
  rcases h with ⟨hsum, rfl⟩ | ⟨-, h⟩
  · exact .pinCountMismatch htile hsum
  rcases h with ⟨hlength, rfl⟩ | ⟨hlength, h⟩
  · exact .classTableLength htile hlength
  obtain ⟨pin, cls, hcls, hout, -⟩ := forM_zipIdx_eq_error_iff.1 h
  obtain ⟨hnot, rfl⟩ := (TableFault.unless_eq_error_iff _ _ _).1 hout
  -- The length of the table has passed, so its positions are root pins.
  have hpin : pin < tile.numPins := by
    obtain ⟨hlt, -⟩ := List.getElem?_eq_some_iff.1 hcls
    omega
  exact .danglingClass htile hpin hcls (Nat.not_lt.1 hnot)

theorem Tables.hasFault_of_validateBlock (hb : T.block? b = some block) (hid : block.id = b)
    (h : T.validateBlock block = .error fault) : T.HasFault fault := by
  unfold validateBlock at h
  obtain ⟨k, t, hk, hone, -⟩ := forM_eq_error_iff.1 h
  have hlisted : t ∈ block.tiles := List.mem_of_getElem? hk
  cases ht : T.tile? t with
  | none =>
    rw [ht, Except.error.injEq] at hone
    rw [← hone]
    exact .missingTile (List.mem_of_getElem? hb) hlisted ht
  | some tile =>
    rw [ht, TableFault.unless_eq_error_iff] at hone
    obtain ⟨hnot, rfl⟩ := hone
    refine .asymmetricEquivalence ht hb ?_
    intro hiff
    obtain ⟨tile', ht', s, hs, hsite⟩ := hiff.2 ⟨block, hb, hlisted⟩
    rw [ht, Option.some.injEq] at ht'
    rw [← ht'] at hs
    rw [hid] at hnot
    exact hnot ⟨s, hs, (s.hosts_iff b).2 hsite⟩

theorem Tables.hasFault_of_validate (h : T.validate = .error fault) : T.HasFault fault := by
  unfold validate at h
  rw [unit_bind_eq_error_iff] at h
  rcases h with htiles | ⟨-, hblocks⟩
  · obtain ⟨t, tile, ht, hone, -⟩ := forM_zipIdx_eq_error_iff.1 htiles
    simp only [unit_bind_eq_error_iff, TableFault.unless_eq_error_iff,
      TableFault.unless_eq_ok_iff] at hone
    rcases hone with ⟨hid, rfl⟩ | ⟨hid, hone⟩
    · exact .tileIdMismatch ht hid
    · exact hasFault_of_validateTile ht hid hone
  · obtain ⟨b, block, hb, hone, -⟩ := forM_zipIdx_eq_error_iff.1 hblocks
    simp only [unit_bind_eq_error_iff, TableFault.unless_eq_error_iff,
      TableFault.unless_eq_ok_iff] at hone
    rcases hone with ⟨hid, rfl⟩ | ⟨hid, hone⟩
    · exact .blockIdMismatch hb hid
    · exact hasFault_of_validateBlock hb hid hone

end Faults

/-! ## Consistent or faulty -/

/-- With natural numbers the checks accept exactly the consistent tables, in which a tile hosts a
block exactly if the block lists the tile. What they report of other tables is one of their faults,
and consistent tables have no fault. -/
theorem Tables.validate_classifies (T : Tables) :
    (T.validate = .ok () ↔ T.Consistent) ∧
    (T.validate = .ok () → ∀ t b, T.Hosts t b ↔ T.Lists b t) ∧
    (∀ fault, T.validate = .error fault → T.HasFault fault) ∧
    ∀ fault, T.HasFault fault → ¬ T.Consistent := by
  refine ⟨T.validate_eq_ok_iff, ?_, ?_, ?_⟩
  · intro hT
    exact (T.validate_eq_ok_iff.1 hT).hosts_iff_lists
  · intro fault hfault
    exact hasFault_of_validate hfault
  · intro fault hfault
    exact hfault.not_consistent

end PinNumbering
