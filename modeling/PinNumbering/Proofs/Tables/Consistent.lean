import PinNumbering.Proofs.Chains
import PinNumbering.Tables.Consistency
/-! # What consistency means

`Tables.Consistent` says without reference to an order of checks what the tables have to satisfy,
and `validate_eq_ok_iff` that `Tables.validate` accepts exactly such tables. Everything that is
proved about consistent tables starts from the fields below.
-/
set_option autoImplicit false

namespace PinNumbering

/-- The sub tile at a position of a tile, seen for itself. -/
structure SubTile.Consistent (T : Tables) (tile : Tile) (position : Nat) (s : SubTile) : Prop where
  index_eq : s.index = position
  low_le_high : s.capacity.low ≤ s.capacity.high
  total_dvd : s.capacity.total ∣ s.numPins
  rootPins_length : s.rootPins.length = s.numPins
  sites_listed : ∀ b ∈ s.sites, ∃ block, T.block? b = some block ∧ tile.id ∈ block.tiles

/-- A tile: its sub tiles, which share no capacity location, and its tables of root pins. -/
structure Tile.Consistent (T : Tables) (tile : Tile) : Prop where
  subTile : ∀ (i : Nat) (s : SubTile), tile.subTiles[i]? = some s → s.Consistent T tile i
  disjoint : ∀ (i j location : Nat) (s s' : SubTile), tile.subTiles[i]? = some s →
    tile.subTiles[j]? = some s' → s.capacity.contains location = true →
    s'.capacity.contains location = true → i = j
  numPins_eq : totalOf (tile.subTiles.map SubTile.numPins) = tile.numPins
  classOfPin_length : tile.classOfPin.length = tile.numPins
  classOfPin_lt : ∀ cls ∈ tile.classOfPin, cls < tile.classes.length

/-- A block: each tile that it lists is known and hosts it. -/
def Block.Consistent (T : Tables) (block : Block) : Prop :=
  ∀ t ∈ block.tiles, ∃ tile, T.tile? t = some tile ∧ ∃ s ∈ tile.subTiles, s.hosts block.id = true

/-- Tables whose entries carry their positions and are consistent. -/
structure Tables.Consistent (T : Tables) : Prop where
  tile : ∀ t tile, T.tile? t = some tile → tile.id = t ∧ tile.Consistent T
  block : ∀ b block, T.block? b = some block → block.id = b ∧ block.Consistent T

/-! ## One sub tile -/

theorem exists_getElem?_of_mem_take {α : Type} {xs : List α} {i : Nat} {x : α}
    (h : x ∈ xs.take i) : ∃ j, j < i ∧ xs[j]? = some x := by
  obtain ⟨j, hj⟩ := List.getElem?_of_mem h
  have hji : j < i := by
    obtain ⟨hlt, -⟩ := List.getElem?_eq_some_iff.1 hj
    rw [List.length_take] at hlt
    omega
  rw [List.getElem?_take_of_lt hji] at hj
  exact ⟨j, hji, hj⟩

namespace Tables

theorem validateSite_eq_ok_iff (T : Tables) (tile : Tile) (s : SubTile) (b : BlockId) :
    T.validateSite tile s b = .ok () ↔
      ∃ block, T.block? b = some block ∧ tile.id ∈ block.tiles := by
  unfold validateSite
  cases T.block? b with
  | none => simp
  | some block => simp

theorem validateSubTile_eq_ok_iff (T : Tables) (tile : Tile) (i : Nat) (s : SubTile) :
    T.validateSubTile tile i s = .ok () ↔ s.Consistent T tile i ∧
      ∀ earlier ∈ tile.subTiles.take i, earlier.capacity.overlaps s.capacity = false := by
  simp only [validateSubTile, bind_eq_ok_iff, exists_unit_ok_iff, TableFault.unless_eq_ok_iff,
    forM_eq_ok_iff, validateSite_eq_ok_iff]
  constructor
  · rintro ⟨hindex, hrange, hmod, hlength, hoverlap, hsites⟩
    exact ⟨⟨hindex, hrange, Nat.dvd_of_mod_eq_zero hmod, hlength, hsites⟩, hoverlap⟩
  · rintro ⟨h, hoverlap⟩
    exact ⟨h.index_eq, h.low_le_high, Nat.mod_eq_zero_of_dvd h.total_dvd, h.rootPins_length,
      hoverlap, h.sites_listed⟩

/-- Ranges that pass the comparison of bounds in order of position share no location. -/
theorem disjoint_of_overlaps_eq_false {subTiles : List SubTile}
    (h : ∀ (i : Nat) (s : SubTile), subTiles[i]? = some s →
      ∀ earlier ∈ subTiles.take i, earlier.capacity.overlaps s.capacity = false)
    {i j location : Nat} {s s' : SubTile} (hi : subTiles[i]? = some s)
    (hj : subTiles[j]? = some s') (hs : s.capacity.contains location = true)
    (hs' : s'.capacity.contains location = true) : i = j := by
  have hlt : ∀ (i j : Nat) (s s' : SubTile), i < j → subTiles[i]? = some s →
      subTiles[j]? = some s' → s.capacity.contains location = true →
      s'.capacity.contains location = true → False := by
    intro i j s s' hij hi hj hs hs'
    have hmem : s ∈ subTiles.take j :=
      List.mem_of_getElem? (by rw [List.getElem?_take_of_lt hij, hi])
    have hoverlap : s.capacity.overlaps s'.capacity = true :=
      CapacityRange.overlaps_of_meets ⟨location, hs, hs'⟩
    rw [h j s' hj s hmem] at hoverlap
    exact Bool.false_ne_true hoverlap
  rcases Nat.lt_trichotomy i j with hij | heq | hji
  · exact (hlt i j s s' hij hi hj hs hs').elim
  · exact heq
  · exact (hlt j i s' s hji hj hi hs' hs).elim

theorem overlaps_eq_false_of_disjoint {T : Tables} {tile : Tile} (h : tile.Consistent T)
    {i : Nat} {s earlier : SubTile} (hi : tile.subTiles[i]? = some s)
    (hearlier : earlier ∈ tile.subTiles.take i) :
    earlier.capacity.overlaps s.capacity = false := by
  obtain ⟨j, hji, hj⟩ := exists_getElem?_of_mem_take hearlier
  have hupright := (h.subTile i s hi).low_le_high
  have hupright' := (h.subTile j earlier hj).low_le_high
  rw [Bool.eq_false_iff]
  intro hoverlap
  obtain ⟨location, hmeet, hmeet'⟩ := (CapacityRange.overlaps_iff_meets hupright' hupright).1 hoverlap
  have hsame := h.disjoint j i location earlier s hj hi hmeet hmeet'
  omega

/-! ## Tiles, blocks and tables -/

theorem validateTile_eq_ok_iff (T : Tables) (tile : Tile) :
    T.validateTile tile = .ok () ↔ tile.Consistent T := by
  simp only [validateTile, bind_eq_ok_iff, exists_unit_ok_iff, TableFault.unless_eq_ok_iff,
    forM_eq_ok_iff, validateSubTile_eq_ok_iff, Prod.forall, List.mk_mem_zipIdx_iff_getElem?]
  constructor
  · rintro ⟨hsubTiles, hnumPins, hlength, hclasses⟩
    refine ⟨?_, ?_, hnumPins, hlength, ?_⟩
    · intro i s hi
      exact (hsubTiles s i hi).1
    · intro i j location s s' hi hj
      exact disjoint_of_overlaps_eq_false (fun i s hi => (hsubTiles s i hi).2) hi hj
    · intro cls hcls
      obtain ⟨pin, hpin⟩ := List.getElem?_of_mem hcls
      exact hclasses cls pin hpin
  · intro h
    refine ⟨?_, h.numPins_eq, h.classOfPin_length, ?_⟩
    · intro s i hi
      exact ⟨h.subTile i s hi, fun earlier => overlaps_eq_false_of_disjoint h hi⟩
    · intro cls pin hpin
      exact h.classOfPin_lt cls (List.mem_of_getElem? hpin)

theorem validateBlock_eq_ok_iff (T : Tables) (block : Block) :
    T.validateBlock block = .ok () ↔ block.Consistent T := by
  unfold validateBlock Block.Consistent
  rw [forM_eq_ok_iff]
  constructor
  · intro h t ht
    have hone := h t ht
    cases htile : T.tile? t with
    | none => simp [htile] at hone
    | some tile =>
      rw [htile, TableFault.unless_eq_ok_iff] at hone
      exact ⟨tile, rfl, hone⟩
  · intro h t ht
    obtain ⟨tile, htile, hhost⟩ := h t ht
    rw [htile, TableFault.unless_eq_ok_iff]
    exact hhost

/-- The checks accept exactly the consistent tables. -/
theorem validate_eq_ok_iff (T : Tables) : T.validate = .ok () ↔ T.Consistent := by
  simp only [validate, bind_eq_ok_iff, exists_unit_ok_iff, forM_eq_ok_iff,
    TableFault.unless_eq_ok_iff, validateTile_eq_ok_iff, validateBlock_eq_ok_iff, Prod.forall,
    List.mk_mem_zipIdx_iff_getElem?]
  constructor
  · rintro ⟨htiles, hblocks⟩
    exact ⟨fun t tile ht => htiles tile t ht, fun b block hb => hblocks block b hb⟩
  · intro h
    exact ⟨fun tile t ht => h.tile t tile ht, fun block b hb => h.block b block hb⟩

end Tables

/-! ## Ranges of locations -/

section Range
variable {T : Tables} {tile : Tile} {i : Nat} {s : SubTile}

theorem Tile.Consistent.total_pos (h : tile.Consistent T) (hs : tile.subTiles[i]? = some s) :
    0 < s.capacity.total :=
  s.capacity.total_pos_iff.2 (h.subTile i s hs).low_le_high

theorem Tile.Consistent.contains_low (h : tile.Consistent T) (hs : tile.subTiles[i]? = some s) :
    s.capacity.contains s.capacity.low = true :=
  (s.capacity.contains_iff _).2 ⟨Nat.le_refl _, (h.subTile i s hs).low_le_high⟩

end Range

end PinNumbering
