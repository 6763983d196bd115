import PinNumbering.Proofs.Classes.Maps
/-! # Look-ups that cannot fail

A look-up follows references between tiles and blocks: from a site to its block, from a block to the
tiles that it lists, from a root pin to its class, from a class number to a class of a block. Each
check of the tables covers one kind of reference. On tables that pass them all, the look-ups about a
tile as a whole succeed, and so do those about a sub tile, a site, a class or a root pin that the
tile has.
-/
set_option autoImplicit false

namespace PinNumbering

/-! ## Sites -/

theorem Tile.exists_isFirstPlace {tile : Tile} {subTile inst : Nat} {b : BlockId}
    (h : ∃ p ∈ tile.places, p.IsAt subTile inst b) :
    ∃ p, tile.IsFirstPlace subTile inst b p := by
  cases hspan : (Tables.empty.laidOut tile).spanAt? subTile inst b with
  | none =>
    obtain ⟨p, hp, hat⟩ := h
    exact absurd hat (Tables.spanAt?_laidOut_eq_none_iff.1 hspan p hp)
  | some span =>
    obtain ⟨p, hfirst, -⟩ := Tables.spanAt?_laidOut.1 hspan
    exact ⟨p, hfirst⟩

theorem Tables.findClass_root_eq {T : Tables} {tile : Tile} {t : TileId} {cls : Nat}
    {info : PinClass} (ht : T.tile? t = some tile) (hinfo : tile.classes[cls]? = some info) :
    T.numbering.findClass t cls false = .ok info := by
  have htile : T.numbering.tables.findTile t = .ok tile := findTile_eq_ok ht
  simp [Numbering.findClass, htile, bind_eq_ok_iff, orFail_eq_ok_iff, hinfo]

theorem Tile.findClassOfPin_eq_ok_iff {tile : Tile} {pin cls : Nat} {info : PinClass} :
    tile.findClassOfPin pin = .ok (cls, info) ↔
      tile.classOfPin[pin]? = some cls ∧ tile.classes[cls]? = some info := by
  simp only [findClassOfPin, bind_eq_ok_iff, orFail_eq_ok_iff, pure_eq_ok_iff, Prod.mk.injEq]
  constructor
  · rintro ⟨_, hcls, _, hinfo, rfl, rfl⟩
    exact ⟨hcls, hinfo⟩
  · rintro ⟨hcls, hinfo⟩
    exact ⟨cls, hcls, info, hinfo, rfl, rfl⟩

section Tile
variable {T : Tables} {tile : Tile} {t : TileId} {subTile inst : Nat} {s : SubTile} {b : BlockId}
  (h : tile.Consistent T) (ht : T.tile? t = some tile)
include h ht

theorem Tile.Consistent.exists_instanceClasses (hs : tile.subTiles[subTile]? = some s)
    (hinst : inst < s.capacity.total) :
    ∃ m, T.numbering.instanceClasses t subTile inst = .ok m := by
  have hL := h.layout_eq ht
  obtain ⟨whole, -, hwhole⟩ := Tables.exists_tileClasses ht hL
  obtain ⟨part, hpart, -⟩ := Tables.exists_instanceClasses ht hL hwhole hs hinst
  exact ⟨part, hpart⟩

theorem Tile.Consistent.exists_siteClasses (hs : tile.subTiles[subTile]? = some s)
    (hinst : inst < s.capacity.total) (hb : b ∈ s.sites) :
    ∃ m, T.numbering.siteClasses t subTile b inst = .ok m := by
  have hL := h.layout_eq ht
  obtain ⟨p, hfirst⟩ := Tile.exists_isFirstPlace (h.indexed.exists_place hs hinst hb)
  have hmem : ∀ q ∈ [p], q ∈ tile.places := List.forall_mem_singleton.2 hfirst.mem_places
  obtain ⟨m, hm, -⟩ := Tables.classesOfSpans_spanOf ht hL hmem
  exact ⟨m, (Tables.siteClasses_eq_ok_iff ht hL).2 ⟨p, hfirst, hm⟩⟩

/-! ## Classes -/

omit ht in
theorem Tile.Consistent.exists_class {cls : Nat} (hcls : cls ∈ tile.classOfPin) :
    ∃ info, tile.classes[cls]? = some info :=
  ⟨_, List.getElem?_eq_getElem (h.classOfPin_lt cls hcls)⟩

omit ht in
theorem Tile.Consistent.exists_findClassOfPin {pin : Nat} (hpin : pin < tile.numPins) :
    ∃ cls info, tile.findClassOfPin pin = .ok (cls, info) := by
  have hlt : pin < tile.classOfPin.length := by
    rw [h.classOfPin_length]
    exact hpin
  obtain ⟨info, hinfo⟩ := h.exists_class (List.getElem_mem hlt)
  exact ⟨_, info, Tile.findClassOfPin_eq_ok_iff.2 ⟨List.getElem?_eq_getElem hlt, hinfo⟩⟩

end Tile

theorem Tables.Consistent.exists_maxRootPins {T : Tables} (h : T.Consistent) {b : BlockId}
    {block : Block} (hb : T.block? b = some block) : ∃ n, T.maxRootPins b = .ok n := by
  have hknown : ∀ t ∈ block.tiles, ∃ tile, T.findTile t = .ok tile := by
    intro t ht
    obtain ⟨tile, htile, -⟩ := (h.block b block hb).2 t ht
    exact ⟨tile, Tables.findTile_eq_ok htile⟩
  obtain ⟨tiles, htiles⟩ := exists_mapM_eq_ok hknown
  have hblock : T.findBlock b = .ok block := orFail_eq_ok_iff.2 hb
  simp only [Tables.maxRootPins, hblock, htiles, bind_eq_ok_iff, pure_eq_ok_iff, Except.ok.injEq,
    exists_eq_left', exists_eq']

/-! ## All of them -/

end PinNumbering
