import PinNumbering.Lookup
/-! # The layout of a tile

A site is one instance of a sub tile together with one of the blocks that it can hold. The layout of
a tile lines up all its sites: sub tiles in order, within a sub tile instances, within an instance
blocks. Each site gets a span of flat pins, as many as its block has logical pins, and a span of
classes, as many as its block has primitive classes. Flat pins continue the root pins of the tile;
classes start at zero.

The first flat pins of a span stand for the root pins of its block. Those pins are reached through
the root pins of the tile, so only the internal rest of a span is ever resolved.

* `Tile.sites`: the sites in order.
* `Footprint`: what a site takes up, which depends on its block alone.
* `Walk`: the walk over the sites, which lays their spans end to end; `spansFrom`: these spans.
* `Tables.layoutOf`: the layout of a tile, unless a site names a block that the tables lack.
  `layoutOf_eq` says that it is made of the sites in order, and which missing block makes it fail.
* `Layout.spanAt?`, `spanOfPin?`, `spanOfClass?`, `instanceSpans`: searches among the spans.
-/
set_option autoImplicit false

namespace PinNumbering

/-! ## Sites and spans -/

/-- An instance of a sub tile together with one of the blocks that it can hold. -/
structure Site where
  /-- Declared index of the sub tile. -/
  subTile : Nat
  /-- Instance of the sub tile, counted from zero. -/
  inst : Nat
  /-- Position of the block among the sites of the sub tile. -/
  position : Nat
  block : BlockId
  deriving DecidableEq, Repr, Inhabited

/-- The sites of an instance of a sub tile. -/
def SubTile.sitesOfInstance (s : SubTile) (inst : Nat) : List Site :=
  s.sites.zipIdx.map fun (block, position) => ⟨s.index, inst, position, block⟩

/-- The sites of a sub tile, instance by instance. -/
def SubTile.allSites (s : SubTile) : List Site :=
  (List.range s.capacity.total).flatMap s.sitesOfInstance

/-- The sites of a tile, sub tile by sub tile. -/
def Tile.sites (tile : Tile) : List Site := tile.subTiles.flatMap SubTile.allSites

/-- What a site takes up. -/
structure Footprint where
  /-- Number of flat pins. -/
  numPins : Nat
  /-- How many of the flat pins stand for root pins of the block. -/
  numRootPins : Nat
  /-- Number of classes. -/
  numClasses : Nat
  deriving DecidableEq, Repr, Inhabited

/-- What a site of the block takes up. -/
def Block.footprint (b : Block) : Footprint := ⟨b.totalPins, b.numPins, b.primitiveClasses.length⟩

/-- A site with the flat pins and the classes reserved for it. -/
structure Span extends Site, Footprint where
  /-- First flat pin. -/
  pinBase : Nat
  /-- First class. -/
  classBase : Nat
  deriving DecidableEq, Repr, Inhabited

namespace Span

/-- One past the last flat pin. -/
def pinEnd (s : Span) : Nat := s.pinBase + s.numPins

/-- First flat pin that stands for an internal pin. It lies past the end of the span when the block
declares more root pins than it has. No check bounds what a block declares: on a machine the sum is
`Machine.internalBase`, which may not fit. -/
def internalBase (s : Span) : Nat := s.pinBase + s.numRootPins

/-- One past the last class. -/
def classEnd (s : Span) : Nat := s.classBase + s.numClasses

/-- The span belongs to the given instance and block. -/
def isAt (s : Span) (subTile inst : Nat) (block : BlockId) : Bool :=
  s.subTile == subTile && s.inst == inst && s.block == block

/-- The flat pin is one of the span. -/
def hasPin (s : Span) (pin : Nat) : Bool := decide (s.pinBase ≤ pin) && decide (pin < s.pinEnd)

/-- The flat pin is one of the span and stands for an internal pin. -/
def hasInternalPin (s : Span) (pin : Nat) : Bool :=
  decide (s.internalBase ≤ pin) && decide (pin < s.pinEnd)

/-- The class is one of the span. -/
def hasClass (s : Span) (cls : Nat) : Bool :=
  decide (s.classBase ≤ cls) && decide (cls < s.classEnd)

@[simp] theorem hasPin_iff (s : Span) (pin : Nat) :
    s.hasPin pin = true ↔ s.pinBase ≤ pin ∧ pin < s.pinBase + s.numPins := by
  rw [hasPin, Bool.and_eq_true, decide_eq_true_eq, decide_eq_true_eq, pinEnd]

@[simp] theorem hasInternalPin_iff (s : Span) (pin : Nat) :
    s.hasInternalPin pin = true ↔
      s.pinBase + s.numRootPins ≤ pin ∧ pin < s.pinBase + s.numPins := by
  rw [hasInternalPin, Bool.and_eq_true, decide_eq_true_eq, decide_eq_true_eq, internalBase, pinEnd]

@[simp] theorem hasClass_iff (s : Span) (cls : Nat) :
    s.hasClass cls = true ↔ s.classBase ≤ cls ∧ cls < s.classBase + s.numClasses := by
  rw [hasClass, Bool.and_eq_true, decide_eq_true_eq, decide_eq_true_eq, classEnd]

@[simp] theorem isAt_iff (s : Span) (subTile inst : Nat) (block : BlockId) :
    s.isAt subTile inst block = true ↔ s.subTile = subTile ∧ s.inst = inst ∧ s.block = block := by
  simp [isAt, and_assoc]

end Span

/-! ## The walk over the sites -/

/-- The spans laid so far, and the first flat pin and the first class that are still free. -/
structure Walk where
  spans : Array Span
  pinBase : Nat
  classBase : Nat

/-- The walk goes on to a site, which gets its span behind all others. -/
def Walk.lay (w : Walk) (site : Site × Footprint) : Walk where
  spans := w.spans.push ⟨site.1, site.2, w.pinBase, w.classBase⟩
  pinBase := w.pinBase + site.2.numPins
  classBase := w.classBase + site.2.numClasses

/-- Spans for a list of sites, laid end to end from the given first pin and first class. They count
without a limit; `Machine.lay` is a step of the same walk on a machine. -/
def spansFrom (pinBase classBase : Nat) : List (Site × Footprint) → List Span
  | [] => []
  | (site, footprint) :: rest =>
    ⟨site, footprint, pinBase, classBase⟩ ::
      spansFrom (pinBase + footprint.numPins) (classBase + footprint.numClasses) rest

/-- What a walk over a list of sites adds to it. -/
theorem Walk.foldl_lay (w : Walk) (sites : List (Site × Footprint)) :
    sites.foldl Walk.lay w =
      ⟨w.spans ++ (spansFrom w.pinBase w.classBase sites).toArray,
        w.pinBase + totalOf (sites.map fun site => site.2.numPins),
        w.classBase + totalOf (sites.map fun site => site.2.numClasses)⟩ := by
  induction sites generalizing w with
  | nil => simp [spansFrom]
  | cons site rest ih =>
    rw [List.foldl_cons, ih]
    simp [lay, spansFrom, Nat.add_assoc]

/-! ## Layouts -/

/-- The spans of a tile and the totals that they add up to. -/
structure Layout where
  /-- The spans in the order of their sites. -/
  spans : List Span
  /-- First root pin of each sub tile. -/
  rootPinBases : List Nat
  /-- One past the last flat pin. -/
  flatPinEnd : Nat
  /-- Number of classes. -/
  numClasses : Nat
  deriving DecidableEq, Repr, Inhabited

/-- The walk over the sites of a tile before the first of them. -/
def Tile.walkStart (tile : Tile) : Walk := ⟨#[], tile.numPins, 0⟩

/-- The layout of a tile at the end of a walk. -/
def Layout.ofWalk (tile : Tile) (w : Walk) : Layout where
  spans := w.spans.toList
  rootPinBases := tile.rootPinBases
  flatPinEnd := w.pinBase
  numClasses := w.classBase

/-- The layout of a tile with the given sites. It has an end however many root pins the tile
declares; on a machine, where `Machine.layoutOf` lays the sites, it exists when that end fits. -/
def Layout.ofSites (tile : Tile) (sites : List (Site × Footprint)) : Layout :=
  Layout.ofWalk tile (sites.foldl Walk.lay tile.walkStart)

/-- The flat pins and the classes of a tile end where the lengths of its spans add up to. -/
theorem Layout.ofSites_eq_totals (tile : Tile) (sites : List (Site × Footprint)) :
    Layout.ofSites tile sites =
      { spans := spansFrom tile.numPins 0 sites
        rootPinBases := tile.rootPinBases
        flatPinEnd := tile.numPins + totalOf (sites.map fun site => site.2.numPins)
        numClasses := totalOf (sites.map fun site => site.2.numClasses) } := by
  rw [ofSites, Walk.foldl_lay]
  simp [ofWalk, Tile.walkStart]

/-- What a site of the block at a position takes up. -/
def Tables.footprint (T : Tables) (b : BlockId) : Lookup Footprint := do
  let block ← T.findBlock b
  return block.footprint

/-- A site with its footprint. -/
def Tables.sized (T : Tables) (site : Site) : Lookup (Site × Footprint) := do
  let footprint ← T.footprint site.block
  return (site, footprint)

/-- The sites of a sub tile with their footprints. Each block is looked up once for all instances,
and not at all where there is no instance; instances that hold no block are not counted out. -/
def Tables.sizedSites (T : Tables) (s : SubTile) : Lookup (List (Site × Footprint)) :=
  if s.sites.isEmpty || s.capacity.total == 0 then return [] else do
    let footprints ← s.sites.mapM T.footprint
    return (List.range s.capacity.total).flatMap fun inst =>
      (s.sitesOfInstance inst).zip footprints

/-- The layout of a tile. The first site whose block is missing makes it fail. -/
def Tables.layoutOf (T : Tables) (tile : Tile) : Lookup Layout := do
  let sites ← tile.subTiles.mapM T.sizedSites
  return Layout.ofSites tile sites.flatten

theorem mapM_flatMap {α β γ : Type} (f : β → Lookup γ) (g : α → List β) (xs : List α) :
    (xs.flatMap g).mapM f = do
      let ys ← xs.mapM fun x => (g x).mapM f
      return ys.flatten := by
  induction xs with
  | nil => rfl
  | cons x rest ih => simp [ih]

theorem mapM_sized_sitesOfInstance (T : Tables) (s : SubTile) (inst : Nat) :
    (s.sitesOfInstance inst).mapM T.sized = do
      let footprints ← s.sites.mapM T.footprint
      return (s.sitesOfInstance inst).zip footprints := by
  rw [SubTile.sitesOfInstance]
  generalize 0 = position
  induction s.sites generalizing position with
  | nil => rfl
  | cons block rest ih => simp [ih, Tables.sized]

theorem Tables.sizedSites_eq (T : Tables) (s : SubTile) :
    T.sizedSites s = s.allSites.mapM T.sized := by
  rw [SubTile.allSites, mapM_flatMap, sizedSites]
  simp only [mapM_sized_sitesOfInstance]
  split
  next h =>
    rcases Bool.or_eq_true_iff.1 h with hsites | htotal
    · simp only [List.isEmpty_iff.1 hsites, List.mapM_nil, pure_bind, List.zip_nil_right,
        List.mapM_pure, ← List.flatMap_def]
      exact congrArg pure (List.flatMap_eq_nil_iff.2 fun _ _ => rfl).symm
    · rw [beq_iff_eq] at htotal
      simp [htotal]
  next h =>
    obtain ⟨n, hn⟩ : ∃ n, s.capacity.total = n + 1 :=
      Nat.exists_eq_succ_of_ne_zero fun e => h (by simp [e])
    cases s.sites.mapM T.footprint with
    | error e => rw [hn, List.range_succ_eq_map, List.mapM_cons]; rfl
    | ok footprints =>
      rw [show (Except.ok footprints : Lookup (List Footprint)) = pure footprints from rfl]
      simp [List.flatMap_def]

/-- The layout of a tile is made of its sites in order, each looked up for itself. -/
theorem Tables.layoutOf_eq (T : Tables) (tile : Tile) :
    T.layoutOf tile = do
      let sites ← tile.sites.mapM T.sized
      return Layout.ofSites tile sites := by
  have h : T.sizedSites = fun s => s.allSites.mapM T.sized := funext T.sizedSites_eq
  simp [Tile.sites, mapM_flatMap, layoutOf, h]

/-- The layout of the tile at a position. -/
def Tables.layout (T : Tables) (t : TileId) : Lookup Layout := do
  let tile ← T.findTile t
  T.layoutOf tile

namespace Layout

/-- First root pin of the sub tile at a position. -/
def rootPinBase? (L : Layout) (position : Nat) : Option Nat := L.rootPinBases[position]?

/-- The first span of an instance and a block. -/
def spanAt? (L : Layout) (subTile inst : Nat) (block : BlockId) : Option Span :=
  L.spans.find? fun s => s.isAt subTile inst block

/-- The span that a flat pin falls into. -/
def spanOfPin? (L : Layout) (pin : Nat) : Option Span := L.spans.find? fun s => s.hasPin pin

/-- The span that a class falls into. -/
def spanOfClass? (L : Layout) (cls : Nat) : Option Span := L.spans.find? fun s => s.hasClass cls

/-- The spans of an instance of a sub tile. -/
def instanceSpans (L : Layout) (subTile inst : Nat) : List Span :=
  L.spans.filter fun s => s.subTile == subTile && s.inst == inst

/-- The span of an internal flat pin of a tile. A pin past every span is out of range; a pin that
stands for a root pin leads nowhere. -/
def internalSpan (L : Layout) (tile : Tile) (pin : Nat) : Lookup Span := do
  let span ← orFail (L.spanOfPin? pin) (.pinOutOfRange tile.name pin L.flatPinEnd)
  (LookupError.unmappedPhysicalPin tile.name pin).unless (span.hasInternalPin pin = true)
  return span

end Layout

/-! ## Tables with a source of layouts -/

/-- Tables together with the source from which the layouts of their tiles are taken. The source may
be a record of layouts made earlier. -/
structure Numbering where
  tables : Tables
  layout : TileId → Lookup Layout

/-- The numbering that makes each layout afresh. -/
def Tables.numbering (T : Tables) : Numbering := ⟨T, T.layout⟩

end PinNumbering
