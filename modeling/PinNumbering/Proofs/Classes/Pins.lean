import PinNumbering.Proofs.Classes.Maps
import PinNumbering.Proofs.FlatPins.RoundTrip
/-! # The pins of primitive classes

Internal pins and primitive classes are numbered by two walks over the same places, with spans of
different lengths. Where the classes of each block are the classes of its internal pins, the two
numberings fit: the pins of a class are internal pins of its own site, and each internal pin is one
pin of one class.

* `Block.Classified`: the classes of a block, the class of each of its pins and its logical pins
  tell the same.
* `Numbering.IsClassPin`: the pin of a tile for a pin of a class, through the site of the class.
* `isClassPin_iff`: the same at a place.
* `IsEntry.standsFor`, `StandsFor.exists_isEntry`: the pins of the classes at a place are the
  internal pins there.
* `exists_isClassPin_of_graphPinAt`, `IsClassPin.unique`: each internal pin is one pin of one class.
-/
set_option autoImplicit false

namespace PinNumbering

/-- The classes of a block are those of its internal pins, and graph pins are logical pins. -/
structure Block.Classified (block : Block) : Prop where
  /-- The class of a pin is the one that lists it. -/
  classOf?_eq_some_iff : ∀ pin cls : Nat, block.classOf? pin = some cls ↔
    ∃ c, block.primitiveClasses[cls]? = some c ∧ pin ∈ c.pins
  exists_classOf?_iff : ∀ pin : Nat, (∃ cls, block.classOf? pin = some cls) ↔
    block.numPins ≤ pin ∧ pin < block.totalPins
  mem_logicalPins_iff : ∀ pin graphPin : Nat, (pin, graphPin) ∈ block.logicalPins.pairs ↔
    graphPin = pin ∧ pin < block.totalPins

/-- The pin of a tile for a pin of one of its primitive classes: as far above the first pin of the
site of the class as its logical number. -/
def Numbering.IsClassPin (N : Numbering) (t : TileId) (cls logicalPin pin : Nat) : Prop :=
  ∃ site info base, N.siteOfClass t cls = .ok site ∧ N.findClass t cls true = .ok info ∧
    N.sitePinBase t site.subTile site.block site.inst = .ok base ∧ logicalPin ∈ info.pins ∧
    pin = base + logicalPin

section Pins
variable {T : Tables} {tile : Tile} {t : TileId} {p : Place} {cls logicalPin pin : Nat}
  {entry : ClassEntry}

/-! ## At a place -/

theorem Tables.standsFor_iff_of_block? {block : Block} (hb : T.block? p.block = some block) :
    T.StandsFor tile p logicalPin pin ↔
      (block.numPins ≤ logicalPin ∧ logicalPin < block.totalPins) ∧
        pin = tile.numPins + tile.offset T.pinsOf p + logicalPin := by
  have hfootprint : T.footprintOf p.block = block.footprint := footprintOf_eq_of_block? hb
  unfold StandsFor pinsOf
  rw [hfootprint, and_assoc]
  rfl

theorem Tables.IsEntry.standsFor (hT : ∀ block ∈ T.blocks, block.Classified)
    (h : T.IsEntry tile p cls entry) (hl : logicalPin ∈ entry.cls.pins) :
    T.StandsFor tile p logicalPin (tile.numPins + tile.offset T.pinsOf p + logicalPin) := by
  obtain ⟨block, hb, -, hget, -⟩ := h
  have hclassified := hT block (List.mem_of_getElem? hb)
  have hcls := (hclassified.classOf?_eq_some_iff logicalPin _).2 ⟨_, hget, hl⟩
  rw [standsFor_iff_of_block? hb]
  exact ⟨(hclassified.exists_classOf?_iff logicalPin).1 ⟨_, hcls⟩, rfl⟩

theorem Tables.StandsFor.exists_isEntry (hT : ∀ block ∈ T.blocks, block.Classified)
    (h : T.StandsFor tile p logicalPin pin) (hb : ∃ block, T.block? p.block = some block) :
    ∃ cls entry, T.IsEntry tile p cls entry ∧ logicalPin ∈ entry.cls.pins := by
  obtain ⟨block, hb⟩ := hb
  have hclassified := hT block (List.mem_of_getElem? hb)
  obtain ⟨hinternal, -⟩ := (standsFor_iff_of_block? hb).1 h
  obtain ⟨logicalClass, hcls⟩ := (hclassified.exists_classOf?_iff logicalPin).2 hinternal
  obtain ⟨c, hget, hmem⟩ := (hclassified.classOf?_eq_some_iff logicalPin logicalClass).1 hcls
  exact ⟨_, ⟨p.block, logicalClass, c⟩, ⟨block, hb, rfl, hget, rfl⟩, hmem⟩

theorem Tables.IsEntry.cls_eq {cls' : Nat} {entry' : ClassEntry}
    (hT : ∀ block ∈ T.blocks, block.Classified) (h : T.IsEntry tile p cls entry)
    (h' : T.IsEntry tile p cls' entry') (hl : logicalPin ∈ entry.cls.pins)
    (hl' : logicalPin ∈ entry'.cls.pins) : cls = cls' := by
  obtain ⟨block, hb, -, hget, rfl⟩ := h
  obtain ⟨block', hb', -, hget', rfl⟩ := h'
  rw [hb, Option.some.injEq] at hb'
  rw [← hb'] at hget'
  have hclassified := hT block (List.mem_of_getElem? hb)
  have hcls := (hclassified.classOf?_eq_some_iff logicalPin _).2 ⟨_, hget, hl⟩
  rw [(hclassified.classOf?_eq_some_iff logicalPin _).2 ⟨_, hget', hl'⟩, Option.some.injEq] at hcls
  rw [hcls]

theorem Tables.IsEntry.graphPinAt_eq (hT : ∀ block ∈ T.blocks, block.Classified)
    (ht : T.tile? t = some tile) (hL : T.layout t = .ok (T.laidOut tile)) (hp : p ∈ tile.places)
    (h : T.IsEntry tile p cls entry) (hl : logicalPin ∈ entry.cls.pins)
    (hnone : tile.rootPin? (tile.numPins + tile.offset T.pinsOf p + logicalPin) = none) :
    ∃ block, T.block? p.block = some block ∧
      T.numbering.graphPinAt t (tile.numPins + tile.offset T.pinsOf p + logicalPin) =
        .ok (p.block, logicalPin) ∧
      block.classOf? logicalPin = some entry.logicalClass := by
  have hstands := h.standsFor hT hl
  obtain ⟨hsite, hlogical⟩ := hstands.resolves hp ht hL hnone
  obtain ⟨block, hb, -, hget, -⟩ := h
  have hclassified := hT block (List.mem_of_getElem? hb)
  obtain ⟨⟨-, hlt⟩, -⟩ := (standsFor_iff_of_block? hb).1 hstands
  refine ⟨block, hb, ?_, (hclassified.classOf?_eq_some_iff _ _).2 ⟨_, hget, hl⟩⟩
  rw [Numbering.graphPinAt_eq_ok_iff (N := T.numbering) ht]
  exact ⟨p.toPinSite, logicalPin, block, hsite, hlogical, hb,
    (hclassified.mem_logicalPins_iff _ _).2 ⟨rfl, hlt⟩, rfl⟩

/-! ## In a tile -/

section Tile
variable (ht : T.tile? t = some tile) (hL : T.layout t = .ok (T.laidOut tile))
  (hindexed : tile.Indexed) (hsites : ∀ s ∈ tile.subTiles, s.sites.Nodup)
include ht hL hindexed hsites

theorem Tables.sitePinBase_of_mem_places (hp : p ∈ tile.places) :
    T.numbering.sitePinBase t p.subTile.index p.block p.inst =
      .ok (tile.numPins + tile.offset T.pinsOf p) := by
  rw [sitePinBase_eq_ok_iff_isFirstPlace ht hL]
  exact ⟨p, hindexed.isFirstPlace_self hsites hp, rfl⟩

theorem Tables.isClassPin_iff : T.numbering.IsClassPin t cls logicalPin pin ↔
    ∃ p ∈ tile.places, ∃ entry, T.IsEntry tile p cls entry ∧ logicalPin ∈ entry.cls.pins ∧
      pin = tile.numPins + tile.offset T.pinsOf p + logicalPin := by
  obtain ⟨hknown, -⟩ := (layout_eq_ok_iff_laidOut ht).1 hL
  constructor
  · rintro ⟨site, info, base, hsite, hinfo, hbase, hl, rfl⟩
    obtain ⟨p, hp, logicalClass, rfl, hcls⟩ := (siteOfClass_eq_ok_iff_isClass ht hL).1 hsite
    obtain ⟨entry, hentry⟩ := hcls.exists_isEntry (hknown p hp)
    have hplaceBase := sitePinBase_of_mem_places ht hL hindexed hsites hp
    rw [hentry.findClass_eq ht hL hp, Except.ok.injEq] at hinfo
    unfold Place.toClassSite at hbase
    rw [hplaceBase, Except.ok.injEq] at hbase
    rw [← hinfo] at hl
    rw [← hbase]
    exact ⟨p, hp, entry, hentry, hl, rfl⟩
  · rintro ⟨p, hp, entry, hentry, hl, rfl⟩
    exact ⟨_, _, _, hentry.siteOfClass_eq ht hL hp, hentry.findClass_eq ht hL hp,
      sitePinBase_of_mem_places ht hL hindexed hsites hp, hl, rfl⟩

variable (hT : ∀ block ∈ T.blocks, block.Classified)
include hT

/-- No pin is a pin of two classes, nor a pin of one class in two ways. -/
theorem Tables.IsClassPin.unique {cls' logicalPin' : Nat}
    (h : T.numbering.IsClassPin t cls logicalPin pin)
    (h' : T.numbering.IsClassPin t cls' logicalPin' pin) :
    cls' = cls ∧ logicalPin' = logicalPin := by
  obtain ⟨p, hp, entry, hentry, hl, rfl⟩ := (isClassPin_iff ht hL hindexed hsites).1 h
  obtain ⟨q, hq, entry', hentry', hl', heq⟩ := (isClassPin_iff ht hL hindexed hsites).1 h'
  have hstands := hentry.standsFor hT hl
  have hstands' := hentry'.standsFor hT hl'
  rw [← heq] at hstands'
  obtain ⟨hsite, rfl⟩ := hstands.unique hstands' hp hq
  -- The site does not tell the places apart, but no sub tile lists a block twice.
  have hat : p.IsAt q.subTile.index q.inst q.block := Place.isAt_iff.2 hsite
  obtain rfl : p = q :=
    hindexed.place_unique (fun s hs => hsites s (List.mem_of_getElem? hs)) hp hq hat ⟨rfl, rfl, rfl⟩
  exact ⟨hentry'.cls_eq hT hentry hl' hl, rfl⟩

theorem Tables.exists_isClassPin_of_graphPinAt {b : BlockId} {graphPin : GraphPinId}
    (hnone : tile.rootPin? pin = none)
    (h : T.numbering.graphPinAt t pin = .ok (b, graphPin)) :
    ∃ cls, cls < (T.laidOut tile).numClasses ∧
      ∃ logicalPin, T.numbering.IsClassPin t cls logicalPin pin := by
  obtain ⟨hknown, -⟩ := (layout_eq_ok_iff_laidOut ht).1 hL
  obtain ⟨site, -, -, hsite, -⟩ := (Numbering.graphPinAt_eq_ok_iff (N := T.numbering) ht).1 h
  obtain ⟨p, hp, -, logicalPin, hstands⟩ := (siteOfPin_eq_ok_iff_standsFor ht hL hnone).1 hsite
  obtain ⟨cls, entry, hentry, hl⟩ := hstands.exists_isEntry hT (hknown p hp)
  obtain ⟨-, -, hpin⟩ := hstands
  refine ⟨cls, exists_isClass_iff.1 ⟨p, hp, _, hentry.isClass⟩, logicalPin, ?_⟩
  rw [isClassPin_iff ht hL hindexed hsites]
  exact ⟨p, hp, entry, hentry, hl, hpin⟩

end Tile

end Pins

end PinNumbering
