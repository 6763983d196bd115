import PinNumbering.Proofs.FlatPins.Numbered
import PinNumbering.Proofs.Layout.Partition
/-! # Internal pins

A flat pin past the root pins of a consistent tile is resolved through the layout. It stands for the
logical pin of a place that it lies above the first pin of that place, provided that this is an
internal pin of the block there.

* `Tables.StandsFor`: the flat pin of a place and a logical pin.
* `siteOfPin_eq_ok_iff_standsFor`, `logicalPin_eq_ok_iff_standsFor`: what a flat pin resolves to.
* `Tile.Consistent.isFirstPlace_iff`: where no sub tile lists a block twice, a place is found from
  its instance and block.
-/
set_option autoImplicit false

namespace PinNumbering

/-! ## Through the layout -/

section Layout
variable {N : Numbering} {tile : Tile} {t : TileId} {L : Layout} {pin : Nat}

theorem Layout.internalSpan_eq_ok_iff {span : Span} :
    L.internalSpan tile pin = .ok span ↔
      L.spanOfPin? pin = some span ∧ span.hasInternalPin pin = true := by
  simp only [internalSpan, bind_eq_ok_iff, orFail_eq_ok_iff, exists_unit_ok_iff,
    LookupError.unless_eq_ok_iff, pure_eq_ok_iff]
  constructor
  · rintro ⟨span', hspan, hinternal, rfl⟩
    exact ⟨hspan, hinternal⟩
  · rintro ⟨hspan, hinternal⟩
    exact ⟨span, hspan, hinternal, rfl⟩

theorem Numbering.siteOfPin_eq_bind_of_none (ht : N.tables.tile? t = some tile)
    (hnone : tile.rootPin? pin = none) (hL : N.layout t = .ok L) :
    N.siteOfPin t pin =
      (L.internalSpan tile pin >>= fun span => pure ⟨span.subTile, span.inst, span.block⟩) := by
  have htile := Tables.findTile_eq_ok ht
  simp only [siteOfPin, htile, hL, bind, Except.bind, hnone]

theorem Numbering.logicalPin_eq_bind_of_le (ht : N.tables.tile? t = some tile)
    (hpin : tile.numPins ≤ pin) (hL : N.layout t = .ok L) :
    N.logicalPin t pin true =
      (L.internalSpan tile pin >>= fun span => pure (pin - span.pinBase)) := by
  have htile := Tables.findTile_eq_ok ht
  unfold logicalPin
  rw [htile]
  show (if pin < tile.numPins then _ else _) = _
  rw [if_neg (Nat.not_lt.2 hpin), if_pos rfl, hL]
  rfl

end Layout

/-! ## What a flat pin stands for -/

/-- The flat pin stands for an internal logical pin of the block at a place. -/
def Tables.StandsFor (T : Tables) (tile : Tile) (p : Place) (logicalPin pin : Nat) : Prop :=
  (T.footprintOf p.block).numRootPins ≤ logicalPin ∧ logicalPin < T.pinsOf p.block ∧
    pin = tile.numPins + tile.offset T.pinsOf p + logicalPin

def Place.toPinSite (p : Place) : PinSite := ⟨p.subTile.index, p.inst, p.block⟩

section Internal
variable {T : Tables} {tile : Tile} {t : TileId} {pin : Nat}

theorem Tables.hasInternalPin_spanOf_iff {p : Place} :
    (T.spanOf tile p).hasInternalPin pin = true ↔
      ∃ logicalPin, T.StandsFor tile p logicalPin pin := by
  have hbase : (T.spanOf tile p).pinBase = tile.numPins + tile.offset T.pinsOf p := rfl
  have hroot : (T.spanOf tile p).numRootPins = (T.footprintOf p.block).numRootPins := rfl
  have hnum : (T.spanOf tile p).numPins = T.pinsOf p.block := rfl
  rw [Span.hasInternalPin_iff, hbase, hroot, hnum]
  constructor
  · rintro ⟨hlo, hhi⟩
    exact ⟨pin - (tile.numPins + tile.offset T.pinsOf p), by omega, by omega, by omega⟩
  · rintro ⟨logicalPin, hlo, hhi, rfl⟩
    omega

theorem Tables.StandsFor.sub_pinBase {p : Place} {logicalPin : Nat}
    (h : T.StandsFor tile p logicalPin pin) : pin - (T.spanOf tile p).pinBase = logicalPin := by
  obtain ⟨-, -, rfl⟩ := h
  exact Nat.add_sub_cancel_left _ _

theorem Tables.internalSpan_laidOut_eq_ok_iff {span : Span} :
    (T.laidOut tile).internalSpan tile pin = .ok span ↔
      ∃ p ∈ tile.places, T.spanOf tile p = span ∧
        ∃ logicalPin, T.StandsFor tile p logicalPin pin := by
  rw [Layout.internalSpan_eq_ok_iff, Layout.spanOfPin?,
    find?_eq_some_iff_of_pairwise (T.disjoint_hasPin tile pin)]
  have hspans : (T.laidOut tile).spans = tile.places.map (T.spanOf tile) := rfl
  rw [hspans, List.mem_map]
  constructor
  · rintro ⟨⟨⟨p, hp, rfl⟩, -⟩, hinternal⟩
    exact ⟨p, hp, rfl, hasInternalPin_spanOf_iff.1 hinternal⟩
  · rintro ⟨p, hp, rfl, hstands⟩
    have hinternal := hasInternalPin_spanOf_iff.2 hstands
    refine ⟨⟨⟨p, hp, rfl⟩, ?_⟩, hinternal⟩
    rw [Span.hasInternalPin_iff] at hinternal
    rw [Span.hasPin_iff]
    omega

theorem Tile.Consistent.block?_of_mem_places (h : tile.Consistent T) {p : Place}
    (hp : p ∈ tile.places) : ∃ block, T.block? p.block = some block := by
  obtain ⟨hi, -, hk⟩ := Tile.mem_places_iff.1 hp
  obtain ⟨block, hblock, -⟩ := (h.subTile _ _ hi).sites_listed p.block (List.mem_of_getElem? hk)
  exact ⟨block, hblock⟩

theorem Tile.Consistent.layout_eq (h : tile.Consistent T) (ht : T.tile? t = some tile) :
    T.layout t = .ok (T.laidOut tile) := by
  rw [Tables.layout_eq_ok_iff_laidOut ht]
  exact ⟨fun p hp => h.block?_of_mem_places hp, rfl⟩

theorem Tables.siteOfPin_eq_ok_iff_standsFor (ht : T.tile? t = some tile)
    (hL : T.layout t = .ok (T.laidOut tile)) (hnone : tile.rootPin? pin = none) {site : PinSite} :
    T.numbering.siteOfPin t pin = .ok site ↔
      ∃ p ∈ tile.places, p.toPinSite = site ∧ ∃ logicalPin, T.StandsFor tile p logicalPin pin := by
  rw [Numbering.siteOfPin_eq_bind_of_none (N := T.numbering) ht hnone hL, bind_eq_ok_iff]
  simp only [internalSpan_laidOut_eq_ok_iff, pure_eq_ok_iff]
  constructor
  · rintro ⟨_, ⟨p, hp, rfl, hstands⟩, rfl⟩
    exact ⟨p, hp, rfl, hstands⟩
  · rintro ⟨p, hp, rfl, hstands⟩
    exact ⟨_, ⟨p, hp, rfl, hstands⟩, rfl⟩

theorem Tables.logicalPin_eq_ok_iff_standsFor (ht : T.tile? t = some tile)
    (hL : T.layout t = .ok (T.laidOut tile)) (hpin : tile.numPins ≤ pin) {logicalPin : Nat} :
    T.numbering.logicalPin t pin true = .ok logicalPin ↔
      ∃ p ∈ tile.places, T.StandsFor tile p logicalPin pin := by
  rw [Numbering.logicalPin_eq_bind_of_le (N := T.numbering) ht hpin hL, bind_eq_ok_iff]
  simp only [internalSpan_laidOut_eq_ok_iff, pure_eq_ok_iff]
  constructor
  · rintro ⟨_, ⟨p, hp, rfl, l, hstands⟩, rfl⟩
    rw [hstands.sub_pinBase]
    exact ⟨p, hp, hstands⟩
  · rintro ⟨p, hp, hstands⟩
    exact ⟨_, ⟨p, hp, rfl, logicalPin, hstands⟩, hstands.sub_pinBase⟩

theorem Tables.StandsFor.numPins_le {p : Place} {logicalPin : Nat}
    (h : T.StandsFor tile p logicalPin pin) : tile.numPins ≤ pin := by
  obtain ⟨-, -, rfl⟩ := h
  omega

theorem Tables.StandsFor.resolves {p : Place} {logicalPin : Nat}
    (h : T.StandsFor tile p logicalPin pin) (hp : p ∈ tile.places) (ht : T.tile? t = some tile)
    (hL : T.layout t = .ok (T.laidOut tile)) (hnone : tile.rootPin? pin = none) :
    T.numbering.siteOfPin t pin = .ok p.toPinSite ∧
      T.numbering.logicalPin t pin true = .ok logicalPin := by
  constructor
  · exact (siteOfPin_eq_ok_iff_standsFor ht hL hnone).2 ⟨p, hp, rfl, logicalPin, h⟩
  · exact (logicalPin_eq_ok_iff_standsFor ht hL h.numPins_le).2 ⟨p, hp, h⟩

theorem Tables.StandsFor.unique {p q : Place} {logicalPin logicalPin' : Nat}
    (h : T.StandsFor tile p logicalPin pin) (h' : T.StandsFor tile q logicalPin' pin)
    (hp : p ∈ tile.places) (hq : q ∈ tile.places) :
    p.toPinSite = q.toPinSite ∧ logicalPin = logicalPin' := by
  have hspan := internalSpan_laidOut_eq_ok_iff.2 ⟨p, hp, rfl, logicalPin, h⟩
  have hspan' := internalSpan_laidOut_eq_ok_iff.2 ⟨q, hq, rfl, logicalPin', h'⟩
  rw [hspan, Except.ok.injEq] at hspan'
  have hsite : p.toSite = q.toSite := congrArg Span.toSite hspan'
  have hlogical := h.sub_pinBase
  rw [hspan', h'.sub_pinBase] at hlogical
  unfold Place.toSite at hsite
  rw [Site.mk.injEq] at hsite
  unfold Place.toPinSite
  rw [PinSite.mk.injEq]
  exact ⟨⟨hsite.1, hsite.2.1, hsite.2.2.2⟩, hlogical.symm⟩

/-! ## Places by instance and block -/

theorem Place.isAt_iff {p : Place} {subTile inst : Nat} {b : BlockId} :
    p.IsAt subTile inst b ↔ p.toPinSite = ⟨subTile, inst, b⟩ := by
  unfold IsAt toPinSite
  rw [PinSite.mk.injEq]

theorem Tile.Consistent.indexed (h : tile.Consistent T) : tile.Indexed :=
  fun i s hi => (h.subTile i s hi).index_eq

theorem Tile.Consistent.exists_place (h : tile.Consistent T) {subTile inst : Nat} {s : SubTile}
    {b : BlockId} (hs : tile.subTiles[subTile]? = some s) (hinst : inst < s.capacity.total)
    (hb : b ∈ s.sites) : ∃ p ∈ tile.places, p.toPinSite = ⟨subTile, inst, b⟩ := by
  obtain ⟨p, hp, hsite⟩ := h.indexed.exists_place hs hinst hb
  exact ⟨p, hp, Place.isAt_iff.1 hsite⟩

theorem Tile.Consistent.isFirstPlace_iff (h : tile.Consistent T)
    (hsites : ∀ s ∈ tile.subTiles, s.sites.Nodup) {subTile inst : Nat} {b : BlockId} {p : Place} :
    tile.IsFirstPlace subTile inst b p ↔ p ∈ tile.places ∧ p.toPinSite = ⟨subTile, inst, b⟩ := by
  rw [h.indexed.isFirstPlace_iff fun s hs => hsites s (List.mem_of_getElem? hs), Place.isAt_iff]

end Internal

end PinNumbering
