import PinNumbering.Proofs.RootPins.Owner
import PinNumbering.Samples
/-! # Capacity coordinates

On consistent tables the root pins of a tile and the pairs of a covered capacity location and a pin
of the instance there are the same things. Both translations are read as one relation,
`Tile.AtCoordinates`, although one of them divides what the search for the owner leaves over and the
other searches the capacity ranges in order of declaration.

* `coordinates_eq_ok_iff`, `rootPinAtCoordinates_eq_ok_iff`: each translation is the relation.
* `coordinates_bijective`: the two translations against each other.
-/
set_option autoImplicit false

namespace PinNumbering

/-- The root pin is the given pin of the instance at a capacity location. -/
def Tile.AtCoordinates (tile : Tile) (pin location k : Nat) : Prop :=
  ∃ (i : Nat) (s : SubTile), tile.subTiles[i]? = some s ∧ s.capacity.contains location = true ∧
    k < s.pinsPerInstance ∧
    pin = tile.pinsBefore i + ((location - s.capacity.low) * s.pinsPerInstance + k)

section Consistent
variable {T : Tables} {tile : Tile}

/-- The only sub tile that covers a location is found, whatever stands before it. -/
theorem Tile.Consistent.findWithBase?_contains_iff (h : tile.Consistent T)
    {location base : Nat} {s : SubTile} :
    tile.findWithBase? (fun x => x.capacity.contains location) = some (base, s) ↔
      ∃ i, tile.subTiles[i]? = some s ∧ s.capacity.contains location = true ∧
        base = tile.pinsBefore i := by
  rw [findWithBase?_eq_some_iff]
  constructor
  · rintro ⟨i, hi, hs, -, hbase⟩
    exact ⟨i, hi, hs, hbase⟩
  · rintro ⟨i, hi, hs, hbase⟩
    refine ⟨i, hi, hs, ?_, hbase⟩
    intro x hx
    obtain ⟨j, hji, hj⟩ := exists_getElem?_of_mem_take hx
    rw [Bool.eq_false_iff]
    intro hcontains
    have := h.disjoint j i location x s hj hi hcontains hs
    omega

/-! ## Each translation -/

theorem Tables.coordinates_eq_ok_iff_rootPin? {t : TileId} (ht : T.tile? t = some tile)
    {pin location k : Nat} :
    T.coordinates t pin = .ok (location, k) ↔
      ∃ root, tile.rootPin? pin = some root ∧ root.location = location ∧ root.instancePin = k := by
  have htile := Tables.findTile_eq_ok ht
  simp only [coordinates, htile, bind_eq_ok_iff, Except.ok.injEq, exists_eq_left',
    Tile.resolveRootPin, orFail_eq_ok_iff, pure_eq_ok_iff, Prod.mk.injEq]

theorem Tile.Consistent.coordinates_eq_ok_iff (h : tile.Consistent T) {t : TileId}
    (ht : T.tile? t = some tile) {pin location k : Nat} :
    T.coordinates t pin = .ok (location, k) ↔ tile.AtCoordinates pin location k := by
  rw [Tables.coordinates_eq_ok_iff_rootPin? ht, AtCoordinates]
  simp only [h.rootPin?_eq_some_iff]
  constructor
  · rintro ⟨⟨s, inst, k⟩, ⟨i, hi, hinst, hk, hpin⟩, rfl, rfl⟩
    obtain ⟨hcontains, hsub⟩ := CapacityRange.contains_low_add hinst
    refine ⟨i, s, hi, hcontains, hk, ?_⟩
    rw [RootPin.location, hsub]
    exact hpin
  · rintro ⟨i, s, hi, hcontains, hk, hpin⟩
    obtain ⟨hinst, hlocation⟩ := CapacityRange.sub_low_lt_total hcontains
    exact ⟨⟨s, location - s.capacity.low, k⟩, ⟨i, hi, hinst, hk, hpin⟩, hlocation, rfl⟩

theorem Tile.Consistent.rootPinAtCoordinates_eq_ok_iff (h : tile.Consistent T) {t : TileId}
    (ht : T.tile? t = some tile) {pin location k : Nat} :
    T.rootPinAtCoordinates t k location = .ok pin ↔ tile.AtCoordinates pin location k := by
  have htile := Tables.findTile_eq_ok ht
  simp only [Tables.rootPinAtCoordinates, htile, bind_eq_ok_iff, exists_unit_ok_iff,
    Except.ok.injEq, exists_eq_left', orFail_eq_ok_iff, LookupError.unless_eq_ok_iff,
    pure_eq_ok_iff, Prod.exists, h.findWithBase?_contains_iff, AtCoordinates]
  constructor
  · rintro ⟨base, s, ⟨i, hi, hcontains, rfl⟩, hk, rfl⟩
    exact ⟨i, s, hi, hcontains, hk, by omega⟩
  · rintro ⟨i, s, hi, hcontains, hk, rfl⟩
    exact ⟨_, s, ⟨i, hi, hcontains, rfl⟩, hk, by omega⟩

/-- Each pair of a covered location and a pin of the instance there is that of a root pin. -/
theorem Tile.exists_atCoordinates_iff {location k : Nat} :
    (∃ pin, tile.AtCoordinates pin location k) ↔
      ∃ s ∈ tile.subTiles, s.capacity.contains location = true ∧ k < s.pinsPerInstance := by
  constructor
  · rintro ⟨pin, i, s, hi, hcontains, hk, -⟩
    exact ⟨s, List.mem_of_getElem? hi, hcontains, hk⟩
  · rintro ⟨s, hs, hcontains, hk⟩
    obtain ⟨i, hi⟩ := List.getElem?_of_mem hs
    exact ⟨_, i, s, hi, hcontains, hk, rfl⟩

theorem Tile.Consistent.numPins_eq_totalOf (h : tile.Consistent T) :
    tile.numPins = totalOf (tile.subTiles.map fun s => s.capacity.total * s.pinsPerInstance) := by
  rw [← h.numPins_eq]
  congr 1
  apply List.map_congr_left
  intro s hs
  obtain ⟨i, hi⟩ := List.getElem?_of_mem hs
  exact (h.subTile i s hi).numPins_eq

end Consistent

/-! ## The two translations -/

/-- On tables that pass the checks, root pins and capacity coordinates are in bijection. -/
theorem Tables.coordinates_bijective (T : Tables) (hT : T.validate = .ok ()) (t : TileId)
    (tile : Tile) (ht : T.tile? t = some tile) :
    (∀ pin, (∃ c, T.coordinates t pin = .ok c) ↔ pin < tile.numPins) ∧
    (∀ pin location k, pin < tile.numPins → T.coordinates t pin = .ok (location, k) →
      T.rootPinAtCoordinates t k location = .ok pin) ∧
    (∀ k location, (∃ pin, T.rootPinAtCoordinates t k location = .ok pin) ↔
      ∃ s ∈ tile.subTiles, s.capacity.contains location = true ∧ k < s.pinsPerInstance) ∧
    (∀ k location pin, T.rootPinAtCoordinates t k location = .ok pin →
      pin < tile.numPins ∧ T.coordinates t pin = .ok (location, k)) ∧
    (∀ k location k' location' pin, T.rootPinAtCoordinates t k location = .ok pin →
      T.rootPinAtCoordinates t k' location' = .ok pin → location = location' ∧ k = k') ∧
    tile.numPins =
      totalOf (tile.subTiles.map fun s => s.capacity.total * s.pinsPerInstance) := by
  have h : tile.Consistent T := ((T.validate_eq_ok_iff.1 hT).tile t tile ht).2
  have hsucceeds : ∀ pin, (∃ c, T.coordinates t pin = .ok c) ↔ pin < tile.numPins := by
    intro pin
    rw [← h.exists_rootPin?_iff]
    constructor
    · rintro ⟨⟨location, k⟩, hc⟩
      obtain ⟨root, hroot, -, -⟩ := (Tables.coordinates_eq_ok_iff_rootPin? ht).1 hc
      exact ⟨root, hroot⟩
    · rintro ⟨root, hroot⟩
      exact ⟨_, (Tables.coordinates_eq_ok_iff_rootPin? ht).2 ⟨root, hroot, rfl, rfl⟩⟩
  -- Both translations are the relation, so each undoes the other.
  have hback : ∀ k location pin, T.rootPinAtCoordinates t k location = .ok pin →
      T.coordinates t pin = .ok (location, k) := by
    intro k location pin hpin
    rw [h.coordinates_eq_ok_iff ht, ← h.rootPinAtCoordinates_eq_ok_iff ht]
    exact hpin
  refine ⟨hsucceeds, ?_, ?_, ?_, ?_, h.numPins_eq_totalOf⟩
  · intro pin location k _ hc
    rw [h.rootPinAtCoordinates_eq_ok_iff ht, ← h.coordinates_eq_ok_iff ht]
    exact hc
  · intro k location
    simp only [h.rootPinAtCoordinates_eq_ok_iff ht]
    exact Tile.exists_atCoordinates_iff
  · intro k location pin hpin
    exact ⟨(hsucceeds pin).1 ⟨_, hback k location pin hpin⟩, hback k location pin hpin⟩
  · intro k location k' location' pin hpin hpin'
    have hsame := (hback k location pin hpin).symm.trans (hback k' location' pin hpin')
    cases hsame
    exact ⟨rfl, rfl⟩

/-- Pin 16 of the logic tile is pin 2 of the memory, which stands at location 2. -/
theorem Samples.heterogeneous_coordinates :
    heterogeneous.validate = .ok () ∧ heterogeneous.rootPinAtCoordinates 0 2 2 = .ok 16 ∧
      heterogeneous.coordinates 0 16 = .ok (2, 2) :=
  ⟨rfl, rfl, ((heterogeneous.coordinates_bijective rfl 0 _ rfl).2.2.2.1 2 2 16 rfl).2⟩

end PinNumbering
