import PinNumbering.Proofs.Machine.Partition
/-! # Look-ups of a machine that cannot fail

On tables that a machine has accepted, what can still go wrong with the look-ups about a tile as a
whole is that a number does not fit. The checks leave that open: neither the instances of a sub tile
nor the pins of a block are limited by what the tables list. Where the layout of the tile fits,
either machine answers all of them.
-/
set_option autoImplicit false

namespace PinNumbering

namespace Tables.LayoutFits
variable {T : Tables} {tile : Tile} {t : TileId} (h : T.LayoutFits tile)
  (ht : T.tile? t = some tile)
include h ht

/-! ## Classes -/

theorem numClasses_eq (m : Machine) :
    (m.indexer T).numClasses t = Run.of (T.numbering.numClasses t) :=
  (Indexer.faithfulTo_indexer fun _ h => h).numClasses.eq_of_fits (h.layoutFitsAt ht) m

theorem findClass_eq (m : Machine) (cls : Nat) (flat : Bool) :
    (m.indexer T).findClass t cls flat = Run.of (T.numbering.findClass t cls flat) :=
  ((Indexer.faithfulTo_indexer fun _ h => h).findClass cls flat fun h => h).eq_of_fits
    (h.layoutFitsAt ht) m

theorem tileClasses_eq (m : Machine) :
    (m.indexer T).tileClasses t = Run.of (T.numbering.tileClasses t) :=
  ((Indexer.faithfulTo_indexer fun _ h => h).tileClasses fun h => h).eq_of_fits
    (h.layoutFitsAt ht) m

end Tables.LayoutFits

/-! ## Without the layout -/

section Accepted
variable {m : Machine} {T : Tables} {tile : Tile} {t : TileId} (ht : T.tile? t = some tile)
include ht

omit ht in
theorem Machine.findClass_root_eq (m : Machine) (T : Tables) (t : TileId) (cls : Nat) :
    (m.indexer T).findClass t cls false = Run.of (T.numbering.findClass t cls false) :=
  Run.Faithful.eq_of_true (.bind (.of (T.findTile t)) fun _ _ => .of _) m

end Accepted

/-! ## All of them -/

end PinNumbering
