import PinNumbering.Placement
import PinNumbering.Proofs.RootPins.Locations
import PinNumbering.Proofs.Tables.Faults
/-! # Compatibility against the search for a sub tile

The checks of compatibility read the tiles that a block lists, the look-ups search the sub tiles of
a tile. Consistent tables list every pair on both sides, and no two sub tiles share a location; so a
check says yes exactly if the search succeeds, and the search at a location has one possible result.
The preferences are first entries of the same lists.

* `Tables.HostsAt`: some sub tile of the tile lists the block and covers the location.
* `compatible_eq_true_iff`, `compatibleAt_eq_true_iff`: when the checks say yes.
* `exists_hostIndex_iff`, `exists_hostIndexAt_iff`: when the searches succeed.
* `Tile.Consistent.hostIndexAt_eq_ok_iff_covers`: the sub tile that the search at a location finds.
* `compatible_agrees`: checks, searches and preferences against each other.
-/
set_option autoImplicit false

namespace PinNumbering

/-- Some sub tile of the tile lists the block and covers the location. -/
def Tables.HostsAt (T : Tables) (t : TileId) (b : BlockId) (location : Nat) : Prop :=
  ∃ tile, T.tile? t = some tile ∧
    ∃ s ∈ tile.subTiles, b ∈ s.sites ∧ s.capacity.contains location = true

section Compatibility
variable {T : Tables} {tile : Tile} {t : TileId} {b : BlockId} {location : Nat}

theorem Tables.HostsAt.hosts (h : T.HostsAt t b location) : T.Hosts t b := by
  obtain ⟨tile, ht, s, hs, hsite, -⟩ := h
  exact ⟨tile, ht, s, hs, hsite⟩

/-! ## Searches -/

theorem Tile.isSome_host?_iff :
    (tile.host? b).isSome = true ↔ ∃ s ∈ tile.subTiles, b ∈ s.sites := by
  rw [host?, List.find?_isSome]
  simp only [SubTile.hosts_iff]

theorem Tile.isSome_hostAt?_iff :
    (tile.hostAt? b location).isSome = true ↔
      ∃ s ∈ tile.subTiles, b ∈ s.sites ∧ s.capacity.contains location = true := by
  rw [hostAt?, List.find?_isSome]
  simp only [Bool.and_eq_true, SubTile.hosts_iff]

theorem Tables.exists_hostIndex_iff : (∃ i, T.hostIndex t b = .ok i) ↔ T.Hosts t b := by
  simp only [hostIndex, findTile, findHost, bind_eq_ok_iff, orFail_eq_ok_iff, pure_eq_ok_iff, Hosts,
    ← Tile.isSome_host?_iff, Option.isSome_iff_exists]
  constructor
  · rintro ⟨i, tile, ht, s, hs, -⟩
    exact ⟨tile, ht, s, hs⟩
  · rintro ⟨tile, ht, s, hs⟩
    exact ⟨s.index, tile, ht, s, hs, rfl⟩

theorem Tables.exists_hostIndexAt_iff :
    (∃ i, T.hostIndexAt t b location = .ok i) ↔ T.HostsAt t b location := by
  simp only [hostIndexAt, findTile, findHostAt, bind_eq_ok_iff, orFail_eq_ok_iff, pure_eq_ok_iff,
    HostsAt, ← Tile.isSome_hostAt?_iff, Option.isSome_iff_exists]
  constructor
  · rintro ⟨i, tile, ht, s, hs, -⟩
    exact ⟨tile, ht, s, hs⟩
  · rintro ⟨tile, ht, s, hs⟩
    exact ⟨s.index, tile, ht, s, hs, rfl⟩

/-- What the search at a location finds hosts the block and covers the location. -/
theorem Tile.Consistent.hostIndexAt_eq_ok_iff_covers (h : tile.Consistent T)
    (ht : T.tile? t = some tile) {i : Nat} :
    T.hostIndexAt t b location = .ok i ↔
      ∃ s, tile.subTiles[i]? = some s ∧ b ∈ s.sites ∧ s.capacity.contains location = true := by
  rw [Tables.hostIndexAt_eq_ok_iff ht]
  constructor
  · rintro ⟨s, hs, rfl⟩
    obtain ⟨i, hi, hsite, hcontains⟩ := Tile.exists_position_of_hostAt? hs
    rw [(h.subTile i s hi).index_eq]
    exact ⟨s, hi, hsite, hcontains⟩
  · rintro ⟨s, hi, hsite, hcontains⟩
    exact ⟨s, h.hostAt?_eq_some hi ((s.hosts_iff b).2 hsite) hcontains, (h.subTile i s hi).index_eq⟩

/-- So it is the one sub tile that covers the location, whichever block it was searched for. -/
theorem Tile.Consistent.covers_iff_of_hostIndexAt (h : tile.Consistent T)
    (ht : T.tile? t = some tile) {i : Nat} (hi : T.hostIndexAt t b location = .ok i) (j : Nat) :
    (∃ s, tile.subTiles[j]? = some s ∧ s.capacity.contains location = true) ↔ j = i := by
  obtain ⟨s, hs, -, hcontains⟩ := (h.hostIndexAt_eq_ok_iff_covers ht).1 hi
  constructor
  · rintro ⟨s', hs', hcontains'⟩
    exact h.disjoint j i location s' s hs' hs hcontains' hcontains
  · rintro rfl
    exact ⟨s, hs, hcontains⟩

/-! ## Checks -/

theorem Tables.compatible_eq_true_iff :
    T.compatible t b = .ok true ↔ (∃ tile, T.tile? t = some tile) ∧ T.Lists b t := by
  simp only [compatible, findTile, findBlock, bind_eq_ok_iff, orFail_eq_ok_iff, pure_eq_ok_iff,
    List.contains_iff_mem, Lists, exists_and_right]

theorem Tables.compatibleAt_eq_true_iff :
    T.compatibleAt t b location = .ok true ↔ T.Lists b t ∧ T.HostsAt t b location := by
  simp only [compatibleAt, findTile, bind_eq_ok_iff, orFail_eq_ok_iff, pure_eq_ok_iff,
    Bool.and_eq_true, Tile.isSome_hostAt?_iff, HostsAt]
  constructor
  · rintro ⟨listed, hlisted, tile, ht, rfl, hhosts⟩
    exact ⟨(compatible_eq_true_iff.1 hlisted).2, tile, ht, hhosts⟩
  · rintro ⟨hlisted, tile, ht, hhosts⟩
    exact ⟨true, compatible_eq_true_iff.2 ⟨⟨tile, ht⟩, hlisted⟩, tile, ht, rfl, hhosts⟩

theorem Tables.Consistent.compatible_iff_hosts (h : T.Consistent) :
    T.compatible t b = .ok true ↔ T.Hosts t b := by
  rw [compatible_eq_true_iff, ← h.hosts_iff_lists]
  constructor
  · exact And.right
  · intro hhosts
    have ⟨tile, ht, _⟩ := hhosts
    exact ⟨⟨tile, ht⟩, hhosts⟩

theorem Tables.Consistent.compatibleAt_iff_hostsAt (h : T.Consistent) :
    T.compatibleAt t b location = .ok true ↔ T.HostsAt t b location := by
  rw [compatibleAt_eq_true_iff, ← h.hosts_iff_lists]
  exact ⟨And.right, fun hhosts => ⟨hhosts.hosts, hhosts⟩⟩

/-! ## Preferences -/

theorem Tables.lists_of_preferredTile (h : T.preferredTile b = .ok t) : T.Lists b t := by
  simp only [preferredTile, findBlock, bind_eq_ok_iff, orFail_eq_ok_iff] at h
  obtain ⟨block, hb, hfirst⟩ := h
  exact ⟨block, hb, List.mem_of_head? hfirst⟩

theorem Tables.hosts_of_preferredBlock (h : T.preferredBlock t = .ok b) : T.Hosts t b := by
  simp only [preferredBlock, findTile, bind_eq_ok_iff, orFail_eq_ok_iff,
    Option.bind_eq_some_iff] at h
  obtain ⟨tile, ht, s, hs, hfirst⟩ := h
  exact ⟨tile, ht, s, List.mem_of_head? hs, List.mem_of_head? hfirst⟩

end Compatibility

/-! ## All of them -/

/-- On tables that pass the checks, a tile is compatible with a block exactly if the search for a
sub tile succeeds, in general and at a location. At a location the search finds the one sub tile
that covers it, which is the same for all blocks. The preferred tile of a block and the preferred
block of a tile are compatible with it. -/
theorem Tables.compatible_agrees (T : Tables) (hT : T.validate = .ok ()) :
    (∀ t b, T.compatible t b = .ok true ↔ ∃ i, T.hostIndex t b = .ok i) ∧
    (∀ t b location,
      T.compatibleAt t b location = .ok true ↔ ∃ i, T.hostIndexAt t b location = .ok i) ∧
    (∀ t b b' location i i', T.hostIndexAt t b location = .ok i →
      T.hostIndexAt t b' location = .ok i' → i = i') ∧
    (∀ t tile b location i, T.tile? t = some tile → T.hostIndexAt t b location = .ok i →
      ∀ j, (∃ s, tile.subTiles[j]? = some s ∧ s.capacity.contains location = true) ↔ j = i) ∧
    (∀ b t, T.preferredTile b = .ok t → T.compatible t b = .ok true) ∧
    (∀ t b, T.preferredBlock t = .ok b → T.compatible t b = .ok true) := by
  have h : T.Consistent := T.validate_eq_ok_iff.1 hT
  refine ⟨?_, ?_, ?_, ?_, ?_, ?_⟩
  · intro t b
    rw [h.compatible_iff_hosts, exists_hostIndex_iff]
  · intro t b location
    rw [h.compatibleAt_iff_hostsAt, exists_hostIndexAt_iff]
  · intro t b b' location i i' hi hi'
    obtain ⟨tile, ht, -⟩ := exists_hostIndexAt_iff.1 ⟨i, hi⟩
    have htile : tile.Consistent T := (h.tile t tile ht).2
    obtain ⟨s, hs, -, hcontains⟩ := (htile.hostIndexAt_eq_ok_iff_covers ht).1 hi
    exact (htile.covers_iff_of_hostIndexAt ht hi' i).1 ⟨s, hs, hcontains⟩
  · intro t tile b location i ht hi
    exact (h.tile t tile ht).2.covers_iff_of_hostIndexAt ht hi
  · intro b t hprefers
    rw [h.compatible_iff_hosts, h.hosts_iff_lists]
    exact lists_of_preferredTile hprefers
  · intro t b hprefers
    exact h.compatible_iff_hosts.2 (hosts_of_preferredBlock hprefers)

/-- Both blocks of logic elements go to sub tile 0 at location 1, which no other sub tile covers.
The memory is compatible with the tile, though not at that location. -/
theorem Samples.heterogeneous_compatible :
    heterogeneous.validate = .ok () ∧ (∃ i, heterogeneous.hostIndex 0 2 = .ok i) ∧
      heterogeneous.compatible 0 2 = .ok true ∧ heterogeneous.compatibleAt 0 1 1 = .ok true ∧
      (¬ ∃ i, heterogeneous.hostIndexAt 0 2 1 = .ok i) ∧
      (∃ i, heterogeneous.hostIndexAt 0 0 1 = .ok i ∧ heterogeneous.hostIndexAt 0 1 1 = .ok i) ∧
      (∃ tile, heterogeneous.tile? 0 = some tile ∧
        ∀ j, (∃ s, tile.subTiles[j]? = some s ∧ s.capacity.contains 1 = true) ↔ j = 0) ∧
      heterogeneous.preferredTile 3 = .ok 1 ∧ heterogeneous.compatible 1 3 = .ok true ∧
      heterogeneous.preferredBlock 0 = .ok 0 ∧ heterogeneous.compatible 0 0 = .ok true := by
  obtain ⟨hsearch, hsearchAt, hsame, hone, htile, hblock⟩ := heterogeneous.compatible_agrees rfl
  refine ⟨rfl, (hsearch 0 2).1 rfl, rfl, (hsearchAt 0 1 1).2 ⟨0, rfl⟩, ?_, ?_, ?_, rfl,
    htile 3 1 rfl, rfl, hblock 0 0 rfl⟩
  · intro hfound
    have hanswer := (hsearchAt 0 2 1).2 hfound
    cases hanswer
  · obtain ⟨i, hi⟩ := (hsearchAt 0 1 1).1 rfl
    have hzero : 0 = i := hsame 0 0 1 1 0 i rfl hi
    exact ⟨i, hzero ▸ rfl, hi⟩
  · exact ⟨_, rfl, hone 0 _ 0 1 0 rfl rfl⟩

end PinNumbering
