import PinNumbering.Proofs.RootPins.LogicalPins
/-! # Logical pins at a capacity location

The way from a logical pin through a capacity location takes the pin that the direct map gives to
the first instance, looks it up in the table of root pins, and adds the pins of the instances before
the one at the location. The ways back divide: they cut the root pin into an instance and a pin of
that instance. Where the direct maps stay within one instance, the two parts cannot mix, and the way
back finds the location, the pin of the sub tile and, for the preferred block, the logical pin.

* `SubTile.MapsWithinInstance`: direct maps that stay within one instance.
* `rootPinAtLocation_eq_ok_iff_joins`: where the way through a location leads.
* `logicalPin_of_joins`: the way back to the logical pin.
* `rootPinAtLocation_roundTrip`: all ways back.
-/
set_option autoImplicit false

namespace PinNumbering

/-! ## Direct maps within one instance -/

/-- Every direct map of the sub tile leads to pins of one instance. -/
def SubTile.MapsWithinInstance (s : SubTile) : Prop :=
  ∀ entry ∈ s.directMaps.entries, ∀ pair ∈ entry.2.pairs, pair.2 < s.pinsPerInstance

instance (s : SubTile) : Decidable s.MapsWithinInstance :=
  inferInstanceAs (Decidable
    (∀ entry ∈ s.directMaps.entries, ∀ pair ∈ entry.2.pairs, pair.2 < s.pinsPerInstance))

theorem SubTile.MapsWithinInstance.pin_lt {s : SubTile} (h : s.MapsWithinInstance) {b : BlockId}
    {logicalPin pin : Nat} (hjoins : s.Joins b logicalPin pin) : pin < s.pinsPerInstance := by
  obtain ⟨m, hm, hpair⟩ := hjoins
  have hentry : (b, m) ∈ s.directMaps.entries := (s.directMaps.mem_entries_iff (b, m)).2 hm
  exact h _ hentry _ hpair

/-! ## Sub tiles by block and location -/

theorem Tile.exists_position_of_hostAt? {tile : Tile} {b : BlockId} {location : Nat} {s : SubTile}
    (h : tile.hostAt? b location = some s) :
    ∃ i : Nat, tile.subTiles[i]? = some s ∧ b ∈ s.sites ∧
      s.capacity.contains location = true := by
  unfold hostAt? at h
  obtain ⟨i, hi⟩ := List.getElem?_of_mem (List.mem_of_find?_eq_some h)
  have hboth := List.find?_some h
  rw [Bool.and_eq_true, SubTile.hosts_iff] at hboth
  exact ⟨i, hi, hboth.1, hboth.2⟩

section Locations
variable {T : Tables} {N : Numbering} {tile : Tile} {t : TileId} {b : BlockId}
  {location logicalPin pin : Nat}

theorem Tables.hostIndexAt_eq_ok_iff (ht : T.tile? t = some tile) {i : Nat} :
    T.hostIndexAt t b location = .ok i ↔
      ∃ s, tile.hostAt? b location = some s ∧ s.index = i := by
  have htile := Tables.findTile_eq_ok ht
  simp only [hostIndexAt, htile, bind_eq_ok_iff, Except.ok.injEq, exists_eq_left', findHostAt,
    orFail_eq_ok_iff, pure_eq_ok_iff]

theorem Tables.pinInSubTile_eq_ok_iff (ht : T.tile? t = some tile) {i k : Nat} :
    T.pinInSubTile t i b logicalPin = .ok k ↔
      ∃ s, tile.subTiles[i]? = some s ∧ s.Joins b logicalPin k := by
  have htile := Tables.findTile_eq_ok ht
  simp only [pinInSubTile, htile, bind_eq_ok_iff, Except.ok.injEq, exists_eq_left',
    Tile.findSubTile, findDirectPin, orFail_eq_ok_iff, SubTile.right?_eq_some_iff_joins]

/-! ## There -/

/-- The way through a location leads to the pin of the instance there, and to no other. -/
theorem Tile.Consistent.rootPinAtLocation_eq_ok_iff_joins (h : tile.Consistent T)
    (hn : tile.Numbered) (hmaps : ∀ s ∈ tile.subTiles, s.MapsWithinInstance)
    (ht : T.tile? t = some tile) :
    T.rootPinAtLocation t b location logicalPin = .ok pin ↔
      ∃ i s inst k, tile.subTiles[i]? = some s ∧ b ∈ s.sites ∧ inst < s.capacity.total ∧
        location = s.capacity.low + inst ∧ s.Joins b logicalPin k ∧ k < s.pinsPerInstance ∧
        pin = tile.pinsBefore i + (inst * s.pinsPerInstance + k) := by
  constructor
  · intro hpin
    obtain ⟨s, k, first, hhost, hjoins, hfirst, hsum⟩ :=
      (Tables.rootPinAtLocation_eq_ok_iff ht).1 hpin
    obtain ⟨i, hi, hb, hcontains⟩ := Tile.exists_position_of_hostAt? hhost
    obtain ⟨hinst, hlocation⟩ := CapacityRange.sub_low_lt_total hcontains
    have hk : k < s.pinsPerInstance := (hmaps s (List.mem_of_getElem? hi)).pin_lt hjoins
    obtain ⟨-, hfirstEq⟩ := (hn.getElem?_rootPins_eq_some_iff hi).1 hfirst
    refine ⟨i, s, location - s.capacity.low, k, hi, hb, hinst, hlocation.symm, hjoins, hk, ?_⟩
    omega
  · rintro ⟨i, s, inst, k, hi, hb, hinst, rfl, hjoins, hk, rfl⟩
    exact h.rootPinAtLocation_of_joins hn ht hi hinst hk hb hjoins

/-! ## And back -/

theorem Tile.Consistent.siteOfPin_of_instance (h : tile.Consistent N.tables)
    (ht : N.tables.tile? t = some tile) {i inst k : Nat} {s : SubTile} {first : BlockId}
    (hs : tile.subTiles[i]? = some s) (hinst : inst < s.capacity.total)
    (hk : k < s.pinsPerInstance) (hfirst : s.sites.head? = some first) :
    N.siteOfPin t (tile.pinsBefore i + (inst * s.pinsPerInstance + k)) = .ok ⟨i, inst, first⟩ := by
  have hroot : tile.rootPin? (tile.pinsBefore i + (inst * s.pinsPerInstance + k)) =
      some ⟨s, inst, k⟩ := h.rootPin?_eq_some_iff.2 ⟨i, hs, hinst, hk, rfl⟩
  have hindex : s.index = i := (h.subTile i s hs).index_eq
  rw [Numbering.siteOfPin_eq_ok_iff_of_rootPin? ht hroot]
  refine ⟨first, hfirst, ?_⟩
  rw [hindex]

theorem Tile.Consistent.coordinates_of_instance (h : tile.Consistent T)
    (ht : T.tile? t = some tile) {i inst k : Nat} {s : SubTile}
    (hs : tile.subTiles[i]? = some s) (hinst : inst < s.capacity.total)
    (hk : k < s.pinsPerInstance) :
    T.coordinates t (tile.pinsBefore i + (inst * s.pinsPerInstance + k)) =
      .ok (s.capacity.low + inst, k) := by
  rw [Tables.coordinates_eq_ok_iff_rootPin? ht]
  exact ⟨⟨s, inst, k⟩, h.rootPin?_eq_some_iff.2 ⟨i, hs, hinst, hk, rfl⟩, rfl, rfl⟩

/-- A pin of an instance leads back to the logical pin that the direct map of the preferred block
joins to it. -/
theorem Tile.Consistent.logicalPin_of_joins (h : tile.Consistent N.tables) (hn : tile.Numbered)
    (ht : N.tables.tile? t = some tile) {i inst k : Nat} {s : SubTile}
    (hs : tile.subTiles[i]? = some s) (hinst : inst < s.capacity.total)
    (hk : k < s.pinsPerInstance) (hfirst : s.sites.head? = some b)
    (hjoins : s.Joins b logicalPin k) (flat : Bool) :
    N.logicalPin t (tile.pinsBefore i + (inst * s.pinsPerInstance + k)) flat = .ok logicalPin := by
  have hoffset : inst * s.pinsPerInstance + k < s.numPins :=
    (h.subTile i s hs).pin_lt_numPins hinst hk
  have hplace : s.rootPins[inst * s.pinsPerInstance + k]? =
      some (tile.pinsBefore i + (inst * s.pinsPerInstance + k)) :=
    (hn.getElem?_rootPins_eq_some_iff hs).2 ⟨hoffset, rfl⟩
  have hlt := hn.lt_numPins h hs hplace
  have hsite := h.siteOfPin_of_instance ht hs hinst hk hfirst
  have hback : inst * s.pinsPerInstance + k - inst * s.pinsPerInstance = k :=
    Nat.add_sub_cancel_left _ _
  rw [Numbering.logicalPin_eq_ok_iff_of_lt ht hlt]
  refine ⟨_, s, _, hsite, hs, hn.idxOf?_rootPins hs hplace, Nat.le_add_right _ _, ?_⟩
  rw [hback]
  exact hjoins

end Locations

/-! ## All ways back -/

/-- On tables that pass the checks, a tile whose root pins are numbered as documented and whose
direct maps stay within one instance takes a logical pin at a location to a root pin with that
location and the pin of the sub tile as its coordinates. The root pin belongs to the instance at the
location, seen as its preferred block, and leads back to the logical pin if it was one of that
block. -/
theorem Tables.rootPinAtLocation_roundTrip (T : Tables) (hT : T.validate = .ok ()) (t : TileId)
    (tile : Tile) (ht : T.tile? t = some tile) (hn : tile.Numbered)
    (hmaps : ∀ s ∈ tile.subTiles, s.MapsWithinInstance) (b : BlockId)
    (location logicalPin pin : Nat)
    (hpin : T.rootPinAtLocation t b location logicalPin = .ok pin) :
    ∃ subTile s k first, tile.subTiles[subTile]? = some s ∧
      s.capacity.contains location = true ∧ s.sites.head? = some first ∧
      T.hostIndexAt t b location = .ok subTile ∧
      T.pinInSubTile t subTile b logicalPin = .ok k ∧
      T.coordinates t pin = .ok (location, k) ∧
      T.numbering.siteOfPin t pin = .ok ⟨subTile, location - s.capacity.low, first⟩ ∧
      (b = first → ∀ flat, T.numbering.logicalPin t pin flat = .ok logicalPin) := by
  have h : tile.Consistent T := ((T.validate_eq_ok_iff.1 hT).tile t tile ht).2
  obtain ⟨i, s, inst, k, hs, hb, hinst, rfl, hjoins, hk, rfl⟩ :=
    (h.rootPinAtLocation_eq_ok_iff_joins hn hmaps ht).1 hpin
  obtain ⟨hcontains, hsub⟩ := CapacityRange.contains_low_add hinst
  -- A sub tile that hosts a block lists a first one.
  obtain ⟨first, hfirst⟩ : ∃ first, s.sites.head? = some first := by
    rw [← Option.isSome_iff_exists, List.isSome_head?]
    exact List.ne_nil_of_mem hb
  refine ⟨i, s, k, first, hs, hcontains, hfirst, ?_, ?_, ?_, ?_, ?_⟩
  · rw [hostIndexAt_eq_ok_iff ht]
    exact ⟨s, h.hostAt?_eq_some hs ((s.hosts_iff b).2 hb) hcontains, (h.subTile i s hs).index_eq⟩
  · exact (pinInSubTile_eq_ok_iff ht).2 ⟨s, hs, hjoins⟩
  · exact h.coordinates_of_instance ht hs hinst hk
  · rw [hsub]
    exact Tile.Consistent.siteOfPin_of_instance (N := T.numbering) h ht hs hinst hk hfirst
  · rintro rfl flat
    exact Tile.Consistent.logicalPin_of_joins (N := T.numbering) h hn ht hs hinst hk hfirst hjoins
      flat

/-- Pin 2 of the first block, placed at location 1 of the logic tile, is root pin 9. -/
theorem Samples.heterogeneous_rootPinAtLocation :
    ∃ tile, heterogeneous.validate = .ok () ∧ heterogeneous.tile? 0 = some tile ∧
      tile.Numbered ∧ (∀ s ∈ tile.subTiles, s.MapsWithinInstance) ∧
      heterogeneous.rootPinAtLocation 0 0 1 2 = .ok 9 ∧
      ∃ subTile s k first, tile.subTiles[subTile]? = some s ∧
        s.capacity.contains 1 = true ∧ s.sites.head? = some first ∧
        heterogeneous.hostIndexAt 0 0 1 = .ok subTile ∧
        heterogeneous.pinInSubTile 0 subTile 0 2 = .ok k ∧
        heterogeneous.coordinates 0 9 = .ok (1, k) ∧
        heterogeneous.numbering.siteOfPin 0 9 = .ok ⟨subTile, 1 - s.capacity.low, first⟩ ∧
        (0 = first → ∀ flat, heterogeneous.numbering.logicalPin 0 9 flat = .ok 2) := by
  have hn : (heterogeneous.tiles[0]).Numbered := by decide
  have hmaps : ∀ s ∈ (heterogeneous.tiles[0]).subTiles, s.MapsWithinInstance := by decide
  exact ⟨_, rfl, rfl, hn, hmaps, rfl,
    heterogeneous.rootPinAtLocation_roundTrip rfl 0 _ rfl hn hmaps 0 1 2 9 rfl⟩

end PinNumbering
