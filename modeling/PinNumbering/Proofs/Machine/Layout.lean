import PinNumbering.Machine.FlatPin
import PinNumbering.Proofs.FlatPins.Bounds
import PinNumbering.Proofs.Machine.RootPins
/-! # Layouts on a machine are those of the numbers

The walk over the sites of a tile is faithful: it looks the blocks up in the order of the sites, and
what it adds up on the way are the ends of the spans. The look-ups among flat pins and classes are
faithful for any source of layouts that is.
-/
set_option autoImplicit false

namespace PinNumbering

open Run (Faithful)

/-! ## The walk with natural numbers -/

namespace Tables
variable (T : Tables)

/-- The walk goes on to a site, whose block is looked up. -/
def laySite (w : Walk) (site : Site) : Lookup Walk := do
  let footprint ← T.footprint site.block
  return w.lay (site, footprint)

/-- The walk goes through a sub tile. -/
def laySubTile (w : Machine.TileWalk) (s : SubTile) : Lookup Machine.TileWalk := do
  let sites ← s.allSites.foldlM T.laySite w.sites
  return ⟨w.rootPinBases.push w.rootPinBase, w.rootPinBase + s.numPins, sites⟩

theorem foldlM_laySite (sites : List Site) (w : Walk) :
    sites.foldlM T.laySite w = do
      let sized ← sites.mapM T.sized
      return sized.foldl Walk.lay w := by
  induction sites generalizing w with
  | nil => rfl
  | cons site rest ih => simp [laySite, sized, ih]

theorem foldlM_laySubTile (subTiles : List SubTile) (w : Machine.TileWalk) :
    subTiles.foldlM T.laySubTile w = do
      let sites ← (subTiles.flatMap SubTile.allSites).foldlM T.laySite w.sites
      return ⟨w.rootPinBases ++ (startsFrom w.rootPinBase (subTiles.map SubTile.numPins)).toArray,
        w.rootPinBase + totalOf (subTiles.map SubTile.numPins), sites⟩ := by
  induction subTiles generalizing w with
  | nil => simp [startsFrom]
  | cons s rest ih =>
    simp only [List.foldlM_cons, laySubTile, bind_assoc, pure_bind, ih, List.flatMap_cons,
      List.foldlM_append]
    simp [startsFrom, Nat.add_assoc]

theorem layoutOf_eq_foldlM (tile : Tile) :
    T.layoutOf tile = do
      let w ← tile.subTiles.foldlM T.laySubTile ⟨#[], 0, tile.walkStart⟩
      return ⟨w.sites.spans.toList, w.rootPinBases.toList, w.sites.pinBase, w.sites.classBase⟩ := by
  rw [T.layoutOf_eq, foldlM_laySubTile]
  have hsites : tile.subTiles.flatMap SubTile.allSites = tile.sites := rfl
  simp only [hsites, foldlM_laySite, bind_assoc, pure_bind]
  simp [Layout.ofSites, Layout.ofWalk, Tile.rootPinBases]

end Tables

/-! ## What is left of a walk -/

namespace Tables

/-- The flat pins and the classes still fit after the given sites. -/
structure WalkFits (T : Tables) (w : Walk) (sites : List Site) : Prop where
  pins : w.pinBase + totalOf (sites.map fun site => T.pinsOf site.block) < wordLimit
  classes : w.classBase + totalOf (sites.map fun site => T.classesOf site.block) < wordLimit

variable {T : Tables} {w w' : Walk} {site : Site} {sites rest : List Site}

theorem laySite_eq_ok_iff : T.laySite w site = .ok w' ↔
    ∃ block, T.block? site.block = some block ∧ w.lay (site, block.footprint) = w' := by
  simp only [laySite, footprint, findBlock, bind_eq_ok_iff, orFail_eq_ok_iff, pure_eq_ok_iff]
  constructor
  · rintro ⟨_, ⟨block, hblock, rfl⟩, hw⟩
    exact ⟨block, hblock, hw⟩
  · rintro ⟨block, hblock, hw⟩
    exact ⟨_, ⟨block, hblock, rfl⟩, hw⟩

theorem WalkFits.next_lt (h : T.WalkFits w (site :: rest)) :
    w.pinBase + T.pinsOf site.block < wordLimit ∧
      w.classBase + T.classesOf site.block < wordLimit := by
  obtain ⟨hpins, hclasses⟩ := h
  rw [List.map_cons, totalOf_cons] at hpins hclasses
  omega

theorem WalkFits.laySite (h : T.WalkFits w (site :: rest)) (hw : T.laySite w site = .ok w') :
    T.WalkFits w' rest := by
  obtain ⟨block, hblock, rfl⟩ := laySite_eq_ok_iff.1 hw
  obtain ⟨hpins, hclasses⟩ := h
  rw [List.map_cons, totalOf_cons, pinsOf, footprintOf_eq_of_block? hblock,
    ← Nat.add_assoc] at hpins
  rw [List.map_cons, totalOf_cons, classesOf, footprintOf_eq_of_block? hblock,
    ← Nat.add_assoc] at hclasses
  exact ⟨hpins, hclasses⟩

theorem WalkFits.of_append (h : T.WalkFits w (sites ++ rest)) : T.WalkFits w sites := by
  obtain ⟨hpins, hclasses⟩ := h
  rw [List.map_append, totalOf_append] at hpins hclasses
  constructor <;> omega

theorem WalkFits.foldlM (h : T.WalkFits w (sites ++ rest))
    (hw : sites.foldlM T.laySite w = .ok w') : T.WalkFits w' rest := by
  induction sites generalizing w with
  | nil =>
    cases hw
    exact h
  | cons site others ih =>
    rw [List.foldlM_cons, bind_eq_ok_iff] at hw
    obtain ⟨next, hnext, hw⟩ := hw
    exact ih (h.laySite hnext) hw

/-- The walk fits through the given sub tiles. -/
structure TileWalkFits (T : Tables) (w : Machine.TileWalk) (subTiles : List SubTile) : Prop where
  roots : SubTile.RootsFit w.rootPinBase subTiles
  sites : T.WalkFits w.sites (subTiles.flatMap SubTile.allSites)

theorem TileWalkFits.laySubTile {w w' : Machine.TileWalk} {s : SubTile} {rest : List SubTile}
    (h : T.TileWalkFits w (s :: rest)) (hw : T.laySubTile w s = .ok w') :
    T.TileWalkFits w' rest := by
  obtain ⟨sites, hsites, hw⟩ := (bind_eq_ok_iff ..).1 hw
  rw [pure_eq_ok_iff] at hw
  rw [← hw]
  exact ⟨h.roots.tail, h.sites.foldlM hsites⟩

theorem LayoutFits.walkStart {tile : Tile} (h : T.LayoutFits tile) :
    T.TileWalkFits ⟨#[], 0, tile.walkStart⟩ tile.subTiles where
  roots := h.roots
  sites := by
    have hsites : tile.subTiles.flatMap SubTile.allSites = tile.places.map Place.toSite :=
      tile.sites_eq
    constructor
    · rw [hsites, List.map_map]
      have hpins := h.flatPins
      rw [← tile.totalOf_places] at hpins
      exact hpins
    · rw [hsites, List.map_map]
      have hclasses := h.classes
      rw [← tile.totalOf_places, ← Nat.zero_add (totalOf _)] at hclasses
      exact hclasses

end Tables

namespace Machine
variable {ε : Type} {fits : Prop} (T : Tables)

/-! ## The walk -/

theorem faithful_lay {w : Walk} {site : Site} {footprint : Footprint}
    (hfits : fits → w.pinBase + footprint.numPins < wordLimit ∧
      w.classBase + footprint.numClasses < wordLimit) :
    Faithful fits (fun m => m.lay w site footprint : Machine → Run ε Walk)
      (.ok (w.lay (site, footprint))) :=
  (Faithful.add fun hf => (hfits hf).1).after
    ((Faithful.add fun hf => (hfits hf).2).after (.ok _))

theorem faithful_laySite {w : Walk} {site : Site} {rest : List Site}
    (hfits : fits → T.WalkFits w (site :: rest)) :
    Faithful fits (fun m => m.laySite T w site) (T.laySite w site) := by
  refine (Faithful.of (T.footprint site.block)).bind fun footprint hfootprint => ?_
  refine faithful_lay fun hf => ?_
  obtain ⟨block, hblock, hfootprint⟩ := (bind_eq_ok_iff ..).1 hfootprint
  rw [pure_eq_ok_iff] at hfootprint
  have hnext := (hfits hf).next_lt
  rw [Tables.pinsOf, Tables.classesOf,
    Tables.footprintOf_eq_of_block? (orFail_eq_ok_iff.1 hblock), hfootprint] at hnext
  exact hnext

theorem faithful_foldlM_laySite {w : Walk} {sites : List Site} (hfits : fits → T.WalkFits w sites) :
    Faithful fits (fun m => sites.foldlM (m.laySite T) w) (sites.foldlM T.laySite w) :=
  Faithful.foldlM (fun rest w => fits → T.WalkFits w rest)
    (fun _ _ _ hw => faithful_laySite T hw) (fun _ _ _ _ hw hnext hf => (hw hf).laySite hnext) hfits

theorem faithful_layInstances (s : SubTile) {left inst : Nat} {w : Walk}
    (hfits : fits → T.WalkFits w ((List.range' inst left).flatMap s.sitesOfInstance)) :
    Faithful fits (fun m => m.layInstances T s left inst w)
      (((List.range' inst left).flatMap s.sitesOfInstance).foldlM T.laySite w) := by
  induction left generalizing inst w with
  | zero => exact .ok w
  | succ left ih =>
    simp only [layInstances, List.range'_succ, List.flatMap_cons, List.foldlM_append] at hfits ⊢
    exact (faithful_foldlM_laySite T fun hf => (hfits hf).of_append).bind fun w' hw' =>
      ih fun hf => (hfits hf).foldlM hw'

theorem faithful_laySites {s : SubTile} {w : Walk} (hfits : fits → T.WalkFits w s.allSites) :
    Faithful fits (fun m => m.laySites T s s.capacity.total w) (s.allSites.foldlM T.laySite w) := by
  unfold laySites
  by_cases h : s.sites = []
  · have hsites : s.allSites = [] := by
      rw [SubTile.allSites, List.flatMap_eq_nil_iff]
      intro inst _
      rw [SubTile.sitesOfInstance, h]
      rfl
    simp only [h, hsites, List.isEmpty_nil, if_true]
    exact .pure w
  · have hempty : s.sites.isEmpty = false := by
      rw [List.isEmpty_eq_false_iff]
      exact h
    simp only [SubTile.allSites, List.range_eq_range'] at hfits
    simp only [hempty, Bool.false_eq_true, if_false, SubTile.allSites, List.range_eq_range']
    exact faithful_layInstances T s hfits

theorem faithful_laySubTile {w : TileWalk} {s : SubTile} {rest : List SubTile}
    (hfits : fits → T.TileWalkFits w (s :: rest)) :
    Faithful fits (fun m => m.laySubTile T w s) (T.laySubTile w s) := by
  refine (Faithful.add fun hf => (hfits hf).roots.next_lt).after ?_
  refine (faithful_total fun hf => (hfits hf).roots.total s List.mem_cons_self).after ?_
  exact (faithful_laySites T fun hf => (hfits hf).sites.of_append).bind fun sites _ => .ok _

theorem faithful_layoutOf {tile : Tile} (hfits : fits → T.LayoutFits tile) :
    Faithful fits (fun m => m.layoutOf T tile) (T.layoutOf tile) := by
  rw [T.layoutOf_eq_foldlM]
  refine Faithful.bind (Faithful.foldlM (fun rest w => fits → T.TileWalkFits w rest)
    ?_ ?_ fun hf => (hfits hf).walkStart) fun w _ => .ok _
  · intro w s rest hw
    exact faithful_laySubTile T hw
  · intro w s rest w' hw hnext hf
    exact (hw hf).laySubTile hnext

theorem faithful_layout {t : TileId} (hfits : fits → T.LayoutFitsAt t) :
    Faithful fits (fun m => m.layout T t) (T.layout t) :=
  (Faithful.of (T.findTile t)).bind fun tile htile =>
    faithful_layoutOf T fun hf => hfits hf tile (orFail_eq_ok_iff.1 htile)

/-! ## What a machine that checks lays out -/

/-- The next flat pin and the next class of a walk are words. -/
def WalkInWords (w : Walk) : Prop := w.pinBase < wordLimit ∧ w.classBase < wordLimit

theorem walkInWords_of_laySite {w w' : Walk} {site : Site}
    (h : checking.laySite T w site = .ok w') : WalkInWords w' := by
  obtain ⟨footprint, -, h⟩ := (bind_eq_ok_iff ..).1 h
  obtain ⟨pinBase, hpins, h⟩ := (bind_eq_ok_iff ..).1 h
  obtain ⟨classBase, hclasses, h⟩ := (bind_eq_ok_iff ..).1 h
  obtain ⟨hpin, rfl⟩ := checking_number_eq_ok_iff.1 hpins
  obtain ⟨hclass, rfl⟩ := checking_number_eq_ok_iff.1 hclasses
  rw [pure_eq_ok_iff] at h
  rw [← h]
  exact ⟨hpin, hclass⟩

theorem walkInWords_of_laySites {s : SubTile} {total : Nat} {w w' : Walk} (hw : WalkInWords w)
    (h : checking.laySites T s total w = .ok w') : WalkInWords w' := by
  unfold laySites at h
  by_cases hempty : s.sites.isEmpty = true
  · rw [if_pos hempty, pure_eq_ok_iff] at h
    rwa [← h]
  · rw [if_neg hempty] at h
    -- As instances are counted out, the first of those left goes up.
    generalize 0 = inst at h
    induction total generalizing inst w with
    | zero =>
      cases h
      exact hw
    | succ total ih =>
      obtain ⟨next, hnext, h⟩ := (bind_eq_ok_iff ..).1 h
      have hwords := of_foldlM_eq_ok (p := WalkInWords)
        (fun _ _ _ _ hsite => walkInWords_of_laySite T hsite) hw hnext
      exact ih hwords _ h

theorem fits_of_laySubTiles {subTiles : List SubTile} {w w' : TileWalk}
    (hroot : w.rootPinBase < wordLimit) (hw : WalkInWords w.sites)
    (h : subTiles.foldlM (checking.laySubTile T) w = .ok w') :
    SubTile.RootsFit w.rootPinBase subTiles ∧ WalkInWords w'.sites := by
  induction subTiles generalizing w with
  | nil =>
    cases h
    exact ⟨.nil hroot, hw⟩
  | cons s rest ih =>
    rw [List.foldlM_cons, bind_eq_ok_iff] at h
    obtain ⟨next, hnext, h⟩ := h
    obtain ⟨base, hbase, hnext⟩ := (bind_eq_ok_iff ..).1 hnext
    obtain ⟨total, htotal, hnext⟩ := (bind_eq_ok_iff ..).1 hnext
    obtain ⟨sites, hsites, hnext⟩ := (bind_eq_ok_iff ..).1 hnext
    obtain ⟨hlt, rfl⟩ := checking_number_eq_ok_iff.1 hbase
    rw [pure_eq_ok_iff] at hnext
    rw [← hnext] at h
    obtain ⟨hrest, hwords⟩ := ih hlt (walkInWords_of_laySites T hw hsites) h
    exact ⟨.cons (total_lt_of_checking htotal) hrest, hwords⟩

/-- A machine that checks lays out the tiles that have a layout with natural numbers and whose
layout fits, and no others. -/
theorem checking_layoutOf_eq_ok_iff {tile : Tile} (hpins : tile.numPins < wordLimit) {L : Layout} :
    checking.layoutOf T tile = .ok L ↔ T.layoutOf tile = .ok L ∧ T.LayoutFits tile := by
  constructor
  · intro h
    have hexact := ((faithful_layoutOf T False.elim).eq_of_ok h).1
    obtain ⟨w, hw, h⟩ := (bind_eq_ok_iff ..).1 h
    have hzero : 0 < wordLimit := by decide
    obtain ⟨hroots, hflat, hclasses⟩ := fits_of_laySubTiles T hzero ⟨hpins, hzero⟩ hw
    rw [pure_eq_ok_iff] at h
    obtain ⟨-, hL⟩ := Tables.layoutOf_eq_ok_iff.1 hexact
    -- The walk ends at words, and where the totals of the tile are.
    have hend : w.sites.pinBase = tile.numPins + tile.weight T.pinsOf := by
      rw [hL] at h
      exact congrArg Layout.flatPinEnd h
    have hcount : w.sites.classBase = tile.weight T.classesOf := by
      rw [hL] at h
      exact congrArg Layout.numClasses h
    exact ⟨hexact, hroots, hend ▸ hflat, hcount ▸ hclasses⟩
  · rintro ⟨hexact, hfits⟩
    rw [(faithful_layoutOf T fun h => h).eq_of_fits hfits, hexact]
    rfl

/-! ## Spans -/

theorem faithful_hasPin {s : Span} (pin : Nat) (hfits : fits → s.pinBase + s.numPins < wordLimit) :
    Faithful fits (fun m => m.hasPin s pin : Machine → Run ε Bool) (.ok (s.hasPin pin)) :=
  (Faithful.add hfits).after (.ok _)

theorem faithful_hasInternalPin {s : Span} (pin : Nat) (hbase : fits → s.internalBase < wordLimit)
    (hend : fits → s.pinBase + s.numPins < wordLimit) :
    Faithful fits (fun m => m.hasInternalPin s pin : Machine → Run ε Bool)
      (.ok (s.hasInternalPin pin)) :=
  (Faithful.add hbase).after ((Faithful.add hend).after (.ok _))

theorem faithful_hasClass {s : Span} (cls : Nat)
    (hfits : fits → s.classBase + s.numClasses < wordLimit) :
    Faithful fits (fun m => m.hasClass s cls : Machine → Run ε Bool) (.ok (s.hasClass cls)) :=
  (Faithful.add hfits).after (.ok _)

theorem faithful_shown (s : Span) :
    Faithful False (fun m => m.shown s : Machine → Run ε Span) (.ok s) :=
  (Faithful.add False.elim).after
    ((Faithful.add False.elim).after ((Faithful.add False.elim).after (.ok s)))

theorem faithful_spanOfPin? {L : Layout} (pin : Nat)
    (hfits : fits → ∀ s ∈ L.spans, s.pinBase + s.numPins < wordLimit) :
    Faithful fits (fun m => m.spanOfPin? L pin : Machine → Run ε _) (.ok (L.spanOfPin? pin)) :=
  .findM? fun s hs => faithful_hasPin pin fun hf => hfits hf s hs

theorem faithful_spanOfClass? {L : Layout} (cls : Nat)
    (hfits : fits → ∀ s ∈ L.spans, s.classBase + s.numClasses < wordLimit) :
    Faithful fits (fun m => m.spanOfClass? L cls : Machine → Run ε _) (.ok (L.spanOfClass? cls)) :=
  .findM? fun s hs => faithful_hasClass cls fun hf => hfits hf s hs

theorem faithful_internalSpan {L : Layout} (tile : Tile) (pin : Nat)
    (hbase : fits → ∀ s ∈ L.spans, s.internalBase < wordLimit)
    (hend : fits → ∀ s ∈ L.spans, s.pinBase + s.numPins < wordLimit) :
    Faithful fits (fun m => m.internalSpan L tile pin) (L.internalSpan tile pin) := by
  refine (faithful_spanOfPin? pin hend).after ?_
  refine (Faithful.of _).bind fun span hspan => ?_
  have hmem : span ∈ L.spans := List.mem_of_find?_eq_some (orFail_eq_ok_iff.1 hspan)
  refine (faithful_hasInternalPin pin (fun hf => hbase hf span hmem) fun hf =>
    hend hf span hmem).after ?_
  exact (Faithful.of _).bind fun _ _ => .ok span

end Machine

end PinNumbering
