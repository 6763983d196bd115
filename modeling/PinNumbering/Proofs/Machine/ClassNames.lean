import PinNumbering.Proofs.Machine.Accepted
import PinNumbering.Proofs.Machine.Names
import PinNumbering.Proofs.Names.ClassNames
/-! # Names of root classes on a machine

The checks of tables do not look at the ports of sub tiles, so a port may end past the last word. A
machine forms that end for each root pin at or after the first pin of the port. Where the ports of a
tile fit, either machine prints the classes of accepted tables as the natural numbers do, and
nothing of a class is lost.
-/
set_option autoImplicit false

namespace PinNumbering

theorem Machine.Accepts.classPinNames_eq {m : Machine} {T T' : Tables} {t : TileId}
    {tile tile' : Tile} (hT : m.Accepts T) (ht : T.tile? t = some tile)
    (ht' : T'.tile? t = some tile') (hsubTiles : tile'.subTiles = tile.subTiles)
    (hports : tile.PortsFit) (cls : Nat) :
    m.classPinNames T' t cls = Run.of (T'.classPinNames t cls) := by
  refine Run.Faithful.eq_of_true (faithful_classPinNames T' t cls ?_ ?_) m
  · rintro - other hother
    obtain rfl : tile' = other := Option.some.inj (ht'.symm.trans hother)
    rw [Tile.RootsFit, hsubTiles]
    exact hT.tile_rootsFit ht
  · rintro - other hother
    obtain rfl : tile' = other := Option.some.inj (ht'.symm.trans hother)
    rw [Tile.PortsFit, hsubTiles]
    exact hports

end PinNumbering
