import PinNumbering.Proofs.RootPins.Locations
/-! # Three ways to a root pin

A logical pin leads to a root pin through the first host of its block, through a given instance or
through a capacity location. The three ways choose the sub tile differently, and two of them add the
pins of the instances before, one to the pin of the sub tile and one to the root pin found for it.
From the sub tile on each way is a chain of the same two look-ups, so where they choose the same sub
tile they give the same result, and fail for the same cause.

The first instance needs consistent tables only. Later instances need root pins that are numbered as
documented and direct maps that stay within one instance: otherwise the table of root pins may end
between the two places where it is read.
-/
set_option autoImplicit false

namespace PinNumbering

section Ways
variable {T : Tables} {tile : Tile} {t : TileId} {s : SubTile} {b : BlockId}
  {i inst location logicalPin : Nat}

/-! ## From the sub tile on -/

theorem Tables.rootPinOfFirst_eq_bind (ht : T.tile? t = some tile)
    (hhost : tile.host? b = some s) :
    T.rootPinOfFirst t b logicalPin =
      T.findDirectPin tile s b logicalPin >>= tile.findRootPin s := by
  have htile := Tables.findTile_eq_ok ht
  have hs : T.findHost tile b = .ok s := orFail_eq_ok_iff.2 hhost
  rw [rootPinOfFirst, htile]
  simp only [hs, bind, Except.bind]

theorem Tables.rootPinAtLocation_eq_bind (ht : T.tile? t = some tile)
    (hhost : tile.hostAt? b location = some s) :
    T.rootPinAtLocation t b location logicalPin =
      (T.findDirectPin tile s b logicalPin >>= tile.findRootPin s).map
        fun first => (location - s.capacity.low) * s.pinsPerInstance + first := by
  have htile := Tables.findTile_eq_ok ht
  have hs : T.findHostAt tile b location = .ok s := orFail_eq_ok_iff.2 hhost
  rw [rootPinAtLocation, htile]
  simp only [hs, bind, Except.bind]
  cases T.findDirectPin tile s b logicalPin with
  | error e => rfl
  | ok pin => cases tile.findRootPin s pin <;> rfl

theorem Tables.rootPinOfInstance_eq_bind (ht : T.tile? t = some tile)
    (hs : tile.subTiles[i]? = some s) (hinst : inst < s.capacity.total) :
    T.rootPinOfInstance t i b inst logicalPin =
      T.findDirectPin tile s b logicalPin >>= fun pin =>
        tile.findRootPin s (pin + inst * s.pinsPerInstance) := by
  have htile := Tables.findTile_eq_ok ht
  have hsub : tile.findSubTile i = .ok s := orFail_eq_ok_iff.2 hs
  have hrange : (LookupError.capacityOutOfRange tile.name (s.capacity.low + inst)).unless
      (inst < s.capacity.total) = .ok () := (LookupError.unless_eq_ok_iff _ _).2 hinst
  rw [rootPinOfInstance, htile]
  simp only [hsub, hrange, bind, Except.bind]

theorem Tables.hostIndex_eq_ok_iff (ht : T.tile? t = some tile) :
    T.hostIndex t b = .ok i ↔ ∃ s, tile.host? b = some s ∧ s.index = i := by
  have htile := Tables.findTile_eq_ok ht
  simp only [hostIndex, htile, bind_eq_ok_iff, Except.ok.injEq, exists_eq_left', findHost,
    orFail_eq_ok_iff, pure_eq_ok_iff]

/-! ## The first instance -/

theorem Tile.Consistent.host?_of_hostIndex (h : tile.Consistent T) (ht : T.tile? t = some tile)
    (hi : T.hostIndex t b = .ok i) :
    ∃ s, tile.host? b = some s ∧ tile.subTiles[i]? = some s ∧ b ∈ s.sites := by
  obtain ⟨s, hhost, hindex⟩ := (Tables.hostIndex_eq_ok_iff ht).1 hi
  obtain ⟨j, -, hj⟩ := Tile.findIdx?_of_host?_eq_some hhost
  have hsame : s.index = j := (h.subTile j s hj).index_eq
  have hb := List.find?_some hhost
  refine ⟨s, hhost, ?_, (s.hosts_iff b).1 hb⟩
  rw [← hindex, hsame]
  exact hj

theorem Tile.Consistent.rootPinOfInstance_zero (h : tile.Consistent T)
    (ht : T.tile? t = some tile) (hs : tile.subTiles[i]? = some s)
    (hhost : tile.host? b = some s) :
    T.rootPinOfInstance t i b 0 logicalPin = T.rootPinOfFirst t b logicalPin := by
  rw [Tables.rootPinOfInstance_eq_bind ht hs (h.total_pos hs),
    Tables.rootPinOfFirst_eq_bind ht hhost]
  simp

/-- No sub tile but the first host covers its own first location. -/
theorem Tile.Consistent.rootPinAtLocation_low (h : tile.Consistent T)
    (ht : T.tile? t = some tile) (hs : tile.subTiles[i]? = some s)
    (hhost : tile.host? b = some s) (hb : b ∈ s.sites) :
    T.rootPinAtLocation t b s.capacity.low logicalPin = T.rootPinOfFirst t b logicalPin := by
  have hhostAt := h.hostAt?_eq_some hs ((s.hosts_iff b).2 hb) (h.contains_low hs)
  rw [Tables.rootPinAtLocation_eq_bind ht hhostAt, Tables.rootPinOfFirst_eq_bind ht hhost]
  simp only [Nat.sub_self, Nat.zero_mul, Nat.zero_add]
  exact congrFun Except.map_id _

/-! ## Every instance -/

theorem Tile.Numbered.findRootPin_eq (hn : tile.Numbered) (hs : tile.subTiles[i]? = some s)
    {k : Nat} (hk : k < s.numPins) : tile.findRootPin s k = .ok (tile.pinsBefore i + k) := by
  apply orFail_eq_ok_iff.2
  rw [hn.getElem?_rootPins_eq_some_iff hs]
  omega

/-- The pins of the instances before can be added before or after the table is read. -/
theorem Tile.Consistent.rootPinAtLocation_eq_rootPinOfInstance (h : tile.Consistent T)
    (hn : tile.Numbered) (hmaps : s.MapsWithinInstance) (ht : T.tile? t = some tile)
    (hs : tile.subTiles[i]? = some s) (hhost : tile.hostAt? b location = some s)
    (hcontains : s.capacity.contains location = true) :
    T.rootPinAtLocation t b location logicalPin =
      T.rootPinOfInstance t i b (location - s.capacity.low) logicalPin := by
  obtain ⟨hinst, -⟩ := CapacityRange.sub_low_lt_total hcontains
  rw [Tables.rootPinAtLocation_eq_bind ht hhost, Tables.rootPinOfInstance_eq_bind ht hs hinst]
  cases hpin : T.findDirectPin tile s b logicalPin with
  | error e => rfl
  | ok k =>
    have hjoins : s.Joins b logicalPin k :=
      SubTile.right?_eq_some_iff_joins.1 (orFail_eq_ok_iff.1 hpin)
    have hk : k < s.pinsPerInstance := hmaps.pin_lt hjoins
    have hlater := (h.subTile i s hs).pin_lt_numPins hinst hk
    have hfirst : tile.findRootPin s k = .ok (tile.pinsBefore i + k) :=
      hn.findRootPin_eq hs (by omega)
    have hplace := hn.findRootPin_eq hs hlater
    rw [Nat.add_comm] at hplace
    simp only [bind, Except.bind, hfirst, hplace, Except.map]
    congr 1
    omega

end Ways

/-! ## All ways -/

/-- On tables that pass the checks, the way through the first host of a block, the way through the
first instance of that sub tile and the way through its first location give the same result. On a
tile whose root pins are numbered as documented and whose direct maps stay within one instance, so
do the way through any location and the way through the instance there. -/
theorem Tables.rootPin_ways_agree (T : Tables) (hT : T.validate = .ok ()) (t : TileId)
    (tile : Tile) (ht : T.tile? t = some tile) (b : BlockId) :
    (∀ subTile, T.hostIndex t b = .ok subTile → ∃ s, tile.subTiles[subTile]? = some s ∧
      ∀ logicalPin,
        T.rootPinOfInstance t subTile b 0 logicalPin = T.rootPinOfFirst t b logicalPin ∧
        T.rootPinAtLocation t b s.capacity.low logicalPin = T.rootPinOfFirst t b logicalPin) ∧
    (tile.Numbered → (∀ s ∈ tile.subTiles, s.MapsWithinInstance) → ∀ location subTile,
      T.hostIndexAt t b location = .ok subTile → ∃ s, tile.subTiles[subTile]? = some s ∧
        s.capacity.contains location = true ∧ ∀ logicalPin,
          T.rootPinAtLocation t b location logicalPin =
            T.rootPinOfInstance t subTile b (location - s.capacity.low) logicalPin) := by
  have h : tile.Consistent T := ((T.validate_eq_ok_iff.1 hT).tile t tile ht).2
  constructor
  · intro subTile hindex
    obtain ⟨s, hhost, hs, hb⟩ := h.host?_of_hostIndex ht hindex
    refine ⟨s, hs, fun logicalPin => ⟨?_, ?_⟩⟩
    · exact h.rootPinOfInstance_zero ht hs hhost
    · exact h.rootPinAtLocation_low ht hs hhost hb
  · intro hn hmaps location subTile hindex
    obtain ⟨s, hhost, rfl⟩ := (hostIndexAt_eq_ok_iff ht).1 hindex
    obtain ⟨i, hs, -, hcontains⟩ := Tile.exists_position_of_hostAt? hhost
    obtain rfl : s.index = i := (h.subTile i s hs).index_eq
    refine ⟨s, hs, hcontains, fun logicalPin => ?_⟩
    exact h.rootPinAtLocation_eq_rootPinOfInstance hn (hmaps s (List.mem_of_getElem? hs)) ht hs
      hhost hcontains

/-- In the second instance of the logic tile all ways know pin 2 of the second block as root pin 11,
and none knows its pin 3. -/
theorem Samples.heterogeneous_ways :
    ∃ tile, heterogeneous.validate = .ok () ∧ heterogeneous.tile? 0 = some tile ∧
      tile.Numbered ∧ (∀ s ∈ tile.subTiles, s.MapsWithinInstance) ∧
      heterogeneous.hostIndex 0 1 = .ok 0 ∧ heterogeneous.hostIndexAt 0 1 1 = .ok 0 ∧
      (∃ s, tile.subTiles[0]? = some s ∧ ∀ logicalPin,
        heterogeneous.rootPinOfInstance 0 0 1 0 logicalPin =
            heterogeneous.rootPinOfFirst 0 1 logicalPin ∧
          heterogeneous.rootPinAtLocation 0 1 s.capacity.low logicalPin =
            heterogeneous.rootPinOfFirst 0 1 logicalPin) ∧
      (∃ s, tile.subTiles[0]? = some s ∧ s.capacity.contains 1 = true ∧ ∀ logicalPin,
        heterogeneous.rootPinAtLocation 0 1 1 logicalPin =
          heterogeneous.rootPinOfInstance 0 0 1 (1 - s.capacity.low) logicalPin) ∧
      heterogeneous.rootPinAtLocation 0 1 1 2 = .ok 11 ∧
      heterogeneous.rootPinAtLocation 0 1 1 3 =
        .error (.unmappedLogicalPin "CLB_TILE" "CLB_B" 0 3) := by
  have hn : (heterogeneous.tiles[0]).Numbered := by decide
  have hmaps : ∀ s ∈ (heterogeneous.tiles[0]).subTiles, s.MapsWithinInstance := by decide
  obtain ⟨hfirst, hlater⟩ := heterogeneous.rootPin_ways_agree rfl 0 _ rfl 1
  exact ⟨_, rfl, rfl, hn, hmaps, rfl, rfl, hfirst 0 rfl, hlater hn hmaps 1 0 rfl, rfl, rfl⟩

end PinNumbering
