import PinNumbering.Classes
import PinNumbering.Proofs.Layout.Partition
/-! # Primitive classes and their sites

The number of a class is found from its instance and block by a search for their first span, and the
site of a number by a search for the span that holds it. Both searches run over the same list, in
which spans may be empty and may belong to the same instance and block. They are read as one
relation between places, classes of a block and numbers, which is one-to-one on any tables.

* `Tables.IsClass`: the number of a class of the block at a place; `IsClass.unique`.
* `classNumber?_eq_some_iff_isClass`, `siteOfClass_eq_ok_iff_isClass`: each search.
* `siteOfClass_eq_error_iff_le`: the numbers past the last class.
* `classNumber_inverse`: the searches against each other.
-/
set_option autoImplicit false

namespace PinNumbering

/-! ## Classes at places -/

/-- The number is that of a class of the block at a place. -/
def Tables.IsClass (T : Tables) (tile : Tile) (p : Place) (logicalClass cls : Nat) : Prop :=
  logicalClass < T.classesOf p.block ∧ cls = tile.offset T.classesOf p + logicalClass

def Place.toClassSite (p : Place) (logicalClass : Nat) : ClassSite :=
  ⟨p.subTile.index, p.inst, p.block, logicalClass⟩

theorem Place.IsAt.toClassSite_eq {p : Place} {subTile inst : Nat} {b : BlockId}
    (h : p.IsAt subTile inst b) (logicalClass : Nat) :
    p.toClassSite logicalClass = ⟨subTile, inst, b, logicalClass⟩ := by
  obtain ⟨rfl, rfl, rfl⟩ := h
  rfl

section Classes
variable {T : Tables} {tile : Tile} {t : TileId} {L : Layout} {cls logicalClass : Nat}

theorem Tables.classesOf_eq_of_block? {b : BlockId} {block : Block} (hb : T.block? b = some block) :
    T.classesOf b = block.primitiveClasses.length := by
  unfold classesOf
  rw [footprintOf_eq_of_block? hb]
  rfl

theorem Tables.hasClass_spanOf_iff {p : Place} :
    (T.spanOf tile p).hasClass cls = true ↔ ∃ logicalClass, T.IsClass tile p logicalClass cls := by
  have hbase : (T.spanOf tile p).classBase = tile.offset T.classesOf p := rfl
  have hnum : (T.spanOf tile p).numClasses = T.classesOf p.block := rfl
  rw [Span.hasClass_iff, hbase, hnum]
  constructor
  · rintro ⟨hlo, hhi⟩
    exact ⟨cls - tile.offset T.classesOf p, by omega, by omega⟩
  · rintro ⟨logicalClass, hlt, rfl⟩
    omega

theorem Tables.IsClass.sub_classBase {p : Place} (h : T.IsClass tile p logicalClass cls) :
    cls - (T.spanOf tile p).classBase = logicalClass := by
  obtain ⟨-, rfl⟩ := h
  exact Nat.add_sub_cancel_left _ _

theorem Tables.spanOfClass?_laidOut_eq_some_iff {span : Span} :
    (T.laidOut tile).spanOfClass? cls = some span ↔
      ∃ p ∈ tile.places, T.spanOf tile p = span ∧
        ∃ logicalClass, T.IsClass tile p logicalClass cls := by
  have hspans : (T.laidOut tile).spans = tile.places.map (T.spanOf tile) := rfl
  rw [Layout.spanOfClass?, find?_eq_some_iff_of_pairwise (T.disjoint_hasClass tile cls), hspans,
    List.mem_map]
  constructor
  · rintro ⟨⟨p, hp, rfl⟩, hcls⟩
    exact ⟨p, hp, rfl, hasClass_spanOf_iff.1 hcls⟩
  · rintro ⟨p, hp, rfl, hcls⟩
    exact ⟨⟨p, hp, rfl⟩, hasClass_spanOf_iff.2 hcls⟩

/-- A number belongs to one site and is one class of its block. -/
theorem Tables.IsClass.unique {p q : Place} {logicalClass' : Nat}
    (h : T.IsClass tile p logicalClass cls) (h' : T.IsClass tile q logicalClass' cls)
    (hp : p ∈ tile.places) (hq : q ∈ tile.places) :
    p.toSite = q.toSite ∧ logicalClass = logicalClass' := by
  have hspan := spanOfClass?_laidOut_eq_some_iff.2 ⟨p, hp, rfl, logicalClass, h⟩
  have hspan' := spanOfClass?_laidOut_eq_some_iff.2 ⟨q, hq, rfl, logicalClass', h'⟩
  rw [hspan, Option.some.injEq] at hspan'
  have hsite : p.toSite = q.toSite := congrArg Span.toSite hspan'
  have hlogical := h.sub_classBase
  rw [hspan', h'.sub_classBase] at hlogical
  exact ⟨hsite, hlogical.symm⟩

theorem Tables.exists_isClass_iff :
    (∃ p ∈ tile.places, ∃ logicalClass, T.IsClass tile p logicalClass cls) ↔
      cls < (T.laidOut tile).numClasses := by
  rw [← exists_spanOfClass?_laidOut]
  simp only [spanOfClass?_laidOut_eq_some_iff]
  constructor
  · rintro ⟨p, hp, hcls⟩
    exact ⟨_, p, hp, rfl, hcls⟩
  · rintro ⟨_, p, hp, -, hcls⟩
    exact ⟨p, hp, hcls⟩

/-! ## The two searches -/

theorem Tables.exists_tile_of_layout (h : T.layout t = .ok L) :
    ∃ tile, T.tile? t = some tile ∧ L = T.laidOut tile := by
  obtain ⟨tile, htile, -⟩ := bind_eq_ok_iff.1 h
  have ht : T.tile? t = some tile := orFail_eq_ok_iff.1 htile
  exact ⟨tile, ht, ((layout_eq_ok_iff_laidOut ht).1 h).2⟩

theorem Tables.numClasses_eq (hL : T.layout t = .ok L) :
    T.numbering.numClasses t = .ok L.numClasses := by
  have hlayout : T.numbering.layout t = .ok L := hL
  unfold Numbering.numClasses
  rw [hlayout]
  rfl

theorem Tables.classNumber?_eq_some_iff_isClass (hL : T.layout t = .ok (T.laidOut tile))
    {subTile inst : Nat} {b : BlockId} :
    T.numbering.classNumber? t subTile b inst logicalClass = some cls ↔
      ∃ p, tile.IsFirstPlace subTile inst b p ∧ T.IsClass tile p logicalClass cls := by
  have hlayout : (T.numbering.layout t).toOption = some (T.laidOut tile) :=
    congrArg Except.toOption hL
  simp only [Numbering.classNumber?, hlayout, Option.bind_eq_bind, Option.bind_some,
    Option.bind_eq_some_iff, spanAt?_laidOut]
  constructor
  · rintro ⟨_, ⟨p, hp, rfl⟩, hnumber⟩
    split at hnumber
    next hlt =>
      rw [Option.some.injEq] at hnumber
      exact ⟨p, hp, hlt, hnumber.symm⟩
    next => cases hnumber
  · rintro ⟨p, hp, hlt, hcls⟩
    have hspan : logicalClass < (T.spanOf tile p).numClasses := hlt
    refine ⟨_, ⟨p, hp, rfl⟩, ?_⟩
    rw [if_pos hspan, hcls]
    rfl

theorem Tables.exists_layout_of_classNumber? {subTile inst : Nat} {b : BlockId}
    (h : T.numbering.classNumber? t subTile b inst logicalClass = some cls) :
    ∃ L, T.layout t = .ok L := by
  have hlayout : T.numbering.layout t = T.layout t := rfl
  cases hL : T.layout t with
  | error e =>
    rw [hL] at hlayout
    unfold Numbering.classNumber? at h
    rw [hlayout] at h
    cases h
  | ok L => exact ⟨L, rfl⟩

theorem Tables.siteOfClass_eq_bind (ht : T.tile? t = some tile)
    (hL : T.layout t = .ok (T.laidOut tile)) :
    T.numbering.siteOfClass t cls =
      (orFail ((T.laidOut tile).spanOfClass? cls)
        (.classOutOfRange tile.name cls (T.laidOut tile).numClasses) >>= fun span =>
          pure ⟨span.subTile, span.inst, span.block, cls - span.classBase⟩) := by
  have htile : T.numbering.tables.findTile t = .ok tile := Tables.findTile_eq_ok ht
  have hlayout : T.numbering.layout t = .ok (T.laidOut tile) := hL
  unfold Numbering.siteOfClass
  rw [htile, hlayout]
  rfl

theorem Tables.siteOfClass_eq_ok_iff_isClass (ht : T.tile? t = some tile)
    (hL : T.layout t = .ok (T.laidOut tile)) {site : ClassSite} :
    T.numbering.siteOfClass t cls = .ok site ↔
      ∃ p ∈ tile.places, ∃ logicalClass, p.toClassSite logicalClass = site ∧
        T.IsClass tile p logicalClass cls := by
  rw [siteOfClass_eq_bind ht hL, bind_eq_ok_iff]
  simp only [orFail_eq_ok_iff, pure_eq_ok_iff, spanOfClass?_laidOut_eq_some_iff]
  constructor
  · rintro ⟨_, ⟨p, hp, rfl, logicalClass, hcls⟩, rfl⟩
    rw [hcls.sub_classBase]
    exact ⟨p, hp, logicalClass, rfl, hcls⟩
  · rintro ⟨p, hp, logicalClass, rfl, hcls⟩
    refine ⟨_, ⟨p, hp, rfl, logicalClass, hcls⟩, ?_⟩
    rw [hcls.sub_classBase]
    rfl

theorem Tables.siteOfClass_eq_error_iff_le (ht : T.tile? t = some tile)
    (hL : T.layout t = .ok (T.laidOut tile)) {e : LookupError} :
    T.numbering.siteOfClass t cls = .error e ↔ (T.laidOut tile).numClasses ≤ cls ∧
      e = .classOutOfRange tile.name cls (T.laidOut tile).numClasses := by
  rw [siteOfClass_eq_bind ht hL, bind_eq_error_iff]
  simp only [orFail_eq_error_iff, spanOfClass?_laidOut_eq_none_iff, eq_comm (b := e)]
  simp [pure, Except.pure]

theorem Tables.siteOfClass_of_classNumber? {subTile inst : Nat} {b : BlockId}
    (h : T.numbering.classNumber? t subTile b inst logicalClass = some cls) :
    (∃ n, T.numbering.numClasses t = .ok n ∧ cls < n) ∧
      T.numbering.siteOfClass t cls = .ok ⟨subTile, inst, b, logicalClass⟩ := by
  obtain ⟨L, hL⟩ := exists_layout_of_classNumber? h
  obtain ⟨tile, ht, rfl⟩ := exists_tile_of_layout hL
  obtain ⟨p, hfirst, hcls⟩ := (classNumber?_eq_some_iff_isClass hL).1 h
  have hp : p ∈ tile.places := hfirst.mem_places
  constructor
  · exact ⟨_, numClasses_eq hL, exists_isClass_iff.1 ⟨p, hp, logicalClass, hcls⟩⟩
  · rw [siteOfClass_eq_ok_iff_isClass ht hL]
    exact ⟨p, hp, logicalClass, hfirst.isAt.toClassSite_eq logicalClass, hcls⟩

/-! ## Tiles whose sub tiles carry their positions -/

section Indexed
variable (ht : T.tile? t = some tile) (hL : T.layout t = .ok (T.laidOut tile))
  (hindexed : tile.Indexed) (hsites : ∀ s ∈ tile.subTiles, s.sites.Nodup)
include ht hL hindexed hsites

theorem Tables.exists_siteOfClass_of_lt (hcls : cls < (T.laidOut tile).numClasses) :
    ∃ site, T.numbering.siteOfClass t cls = .ok site ∧
      T.numbering.classNumber? t site.subTile site.block site.inst site.logicalClass =
        some cls := by
  obtain ⟨p, hp, logicalClass, hcls⟩ := exists_isClass_iff.2 hcls
  have hfirst := hindexed.isFirstPlace_self hsites hp
  refine ⟨p.toClassSite logicalClass, ?_, ?_⟩
  · exact (siteOfClass_eq_ok_iff_isClass ht hL).2 ⟨p, hp, logicalClass, rfl, hcls⟩
  · exact (classNumber?_eq_some_iff_isClass hL).2 ⟨p, hfirst, hcls⟩

/-- Exactly the classes of the sites have numbers. -/
theorem Tables.exists_classNumber?_iff {subTile inst : Nat} {b : BlockId} :
    (∃ cls, T.numbering.classNumber? t subTile b inst logicalClass = some cls) ↔
      ∃ s block, tile.subTiles[subTile]? = some s ∧ inst < s.capacity.total ∧ b ∈ s.sites ∧
        T.block? b = some block ∧ logicalClass < block.primitiveClasses.length := by
  obtain ⟨hknown, -⟩ := (layout_eq_ok_iff_laidOut ht).1 hL
  simp only [classNumber?_eq_some_iff_isClass hL,
    hindexed.isFirstPlace_iff fun s hs => hsites s (List.mem_of_getElem? hs)]
  constructor
  · rintro ⟨cls, p, ⟨hp, hat⟩, hlt, -⟩
    obtain ⟨s, hs, hinst, hb⟩ := hindexed.exists_place_iff.1 ⟨p, hp, hat⟩
    obtain ⟨block, hblock⟩ := hknown p hp
    rw [classesOf_eq_of_block? hblock] at hlt
    obtain ⟨-, -, hpb⟩ := hat
    rw [hpb] at hblock
    exact ⟨s, block, hs, hinst, hb, hblock, hlt⟩
  · rintro ⟨s, block, hs, hinst, hb, hblock, hlt⟩
    obtain ⟨p, hp, hat⟩ := hindexed.exists_place hs hinst hb
    have hpb : T.block? p.block = some block := by
      rw [hat.2.2]
      exact hblock
    have hlt' : logicalClass < T.classesOf p.block := by
      rw [classesOf_eq_of_block? hpb]
      exact hlt
    exact ⟨_, p, ⟨hp, hat⟩, hlt', rfl⟩

end Indexed

end Classes

/-! ## There and back -/

/-- On any tables, a class of a block in a site that has a number is what the number leads to, so
that no two of them share a number. On a tile that has a layout, whose sub tiles carry their
positions and list no block twice, every class number leads to a site and a class that have it;
exactly the classes of the sites have numbers, and what is past the last of them is out of range. -/
theorem Tables.classNumber_inverse (T : Tables) (t : TileId) :
    (∀ subTile b inst logicalClass cls,
      T.numbering.classNumber? t subTile b inst logicalClass = some cls →
        (∃ n, T.numbering.numClasses t = .ok n ∧ cls < n) ∧
        T.numbering.siteOfClass t cls = .ok ⟨subTile, inst, b, logicalClass⟩) ∧
    (∀ (site site' : ClassSite) cls,
      T.numbering.classNumber? t site.subTile site.block site.inst site.logicalClass = some cls →
      T.numbering.classNumber? t site'.subTile site'.block site'.inst site'.logicalClass = some cls →
        site = site') ∧
    ∀ tile L, T.tile? t = some tile → T.layout t = .ok L → tile.Indexed →
      (∀ s ∈ tile.subTiles, s.sites.Nodup) →
        T.numbering.numClasses t = .ok L.numClasses ∧
        (∀ cls < L.numClasses, ∃ site, T.numbering.siteOfClass t cls = .ok site ∧
          T.numbering.classNumber? t site.subTile site.block site.inst site.logicalClass =
            some cls) ∧
        (∀ subTile b inst logicalClass,
          (∃ cls, T.numbering.classNumber? t subTile b inst logicalClass = some cls) ↔
            ∃ s block, tile.subTiles[subTile]? = some s ∧ inst < s.capacity.total ∧ b ∈ s.sites ∧
              T.block? b = some block ∧ logicalClass < block.primitiveClasses.length) ∧
        ∀ cls e, T.numbering.siteOfClass t cls = .error e ↔
          L.numClasses ≤ cls ∧ e = .classOutOfRange tile.name cls L.numClasses := by
  refine ⟨?_, ?_, ?_⟩
  · intro subTile b inst logicalClass cls hnumber
    exact siteOfClass_of_classNumber? hnumber
  · intro site site' cls hnumber hnumber'
    have hsite := (siteOfClass_of_classNumber? hnumber).2
    rw [(siteOfClass_of_classNumber? hnumber').2, Except.ok.injEq] at hsite
    exact hsite.symm
  intro tile L ht hL hindexed hsites
  obtain ⟨-, rfl⟩ := (layout_eq_ok_iff_laidOut ht).1 hL
  refine ⟨numClasses_eq hL, ?_, ?_, ?_⟩
  · intro cls hcls
    exact exists_siteOfClass_of_lt ht hL hindexed hsites hcls
  · intro subTile b inst logicalClass
    exact exists_classNumber?_iff ht hL hindexed hsites
  · intro cls e
    exact siteOfClass_eq_error_iff_le ht hL

/-- Class 1 of the second block has number 13 in the second instance of the logic tile, which has
16 classes. -/
theorem Samples.heterogeneous_classNumber :
    heterogeneous.numbering.classNumber? 0 0 1 1 1 = some 13 ∧
      heterogeneous.numbering.siteOfClass 0 13 = .ok ⟨0, 1, 1, 1⟩ ∧
      ∃ tile L, heterogeneous.tile? 0 = some tile ∧ heterogeneous.layout 0 = .ok L ∧
        tile.Indexed ∧ (∀ s ∈ tile.subTiles, s.sites.Nodup) ∧ L.numClasses = 16 ∧
        (∃ cls, heterogeneous.numbering.classNumber? 0 1 2 0 1 = some cls) ∧
        heterogeneous.numbering.siteOfClass 0 16 =
          .error (.classOutOfRange "CLB_TILE" 16 16) := by
  obtain ⟨hback, -, htile⟩ := heterogeneous.classNumber_inverse 0
  have hnumber : heterogeneous.numbering.classNumber? 0 0 1 1 1 = some 13 := rfl
  have hindexed : (heterogeneous.tiles[0]).Indexed := by decide
  have hsites : ∀ s ∈ (heterogeneous.tiles[0]).subTiles, s.sites.Nodup := by decide
  obtain ⟨-, -, hexists, herror⟩ := htile _ _ rfl rfl hindexed hsites
  have hmemory : ∃ cls, heterogeneous.numbering.classNumber? 0 1 2 0 1 = some cls :=
    (hexists 1 2 0 1).2 ⟨_, _, rfl, by decide, by decide, rfl, by decide⟩
  exact ⟨hnumber, (hback _ _ _ _ _ hnumber).2, _, _, rfl, rfl, hindexed, hsites, rfl, hmemory,
    (herror 16 _).2 ⟨by decide, rfl⟩⟩

end PinNumbering
