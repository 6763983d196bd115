import PinNumbering.Layout
import PinNumbering.Machine.RootPin
/-! # The layout of a tile on a machine

The walk over the sites of a tile with the arithmetic of a machine. It counts the root pins of the
sub tiles, and adds the flat pins and the classes of each site when it comes to it. A span keeps
where it starts and how long it is; its ends are formed when something asks for them.

* `lay`, `layInstances`, `laySubTile`, `layoutOf`: the walk, from one site to the tile.
* `pinEnd`, `internalBase`, `classEnd`: the ends of a span.
* `spanOfPin?`, `spanOfClass?`, `internalSpan`: searches among the spans.
* `Indexer`: tables on a machine with a source of layouts.
-/
set_option autoImplicit false

namespace PinNumbering

namespace Machine
variable {ε : Type} (m : Machine)

/-! ## The walk -/

/-- The walk goes on to a site, which gets its span behind all others. -/
def lay (w : Walk) (site : Site) (footprint : Footprint) : Run ε Walk := do
  let pinBase ← m.add w.pinBase footprint.numPins
  let classBase ← m.add w.classBase footprint.numClasses
  return ⟨w.spans.push ⟨site, footprint, w.pinBase, w.classBase⟩, pinBase, classBase⟩

/-- The walk goes on to a site, whose block is looked up. -/
def laySite (T : Tables) (w : Walk) (site : Site) : Run LookupError Walk := do
  let footprint ← Run.of (T.footprint site.block)
  m.lay w site footprint

/-- The walk goes through as many instances of a sub tile, the first of which is `inst`. -/
def layInstances (T : Tables) (s : SubTile) : Nat → Nat → Walk → Run LookupError Walk
  | 0, _, w => return w
  | left + 1, inst, w => do
    let w ← (s.sitesOfInstance inst).foldlM (m.laySite T) w
    layInstances T s left (inst + 1) w

/-- The walk goes through all instances of a sub tile, of which there are `total`. Instances that
hold no block are not counted out. -/
def laySites (T : Tables) (s : SubTile) (total : Nat) (w : Walk) : Run LookupError Walk :=
  if s.sites.isEmpty then return w else m.layInstances T s total 0 w

/-- The walk through the sub tiles: their first root pins, the next one, and the sites so far. -/
structure TileWalk where
  rootPinBases : Array Nat
  rootPinBase : Nat
  sites : Walk

/-- The walk goes through a sub tile. -/
def laySubTile (T : Tables) (w : TileWalk) (s : SubTile) : Run LookupError TileWalk := do
  let next ← m.add w.rootPinBase s.numPins
  let total ← m.total s.capacity
  let sites ← m.laySites T s total w.sites
  return ⟨w.rootPinBases.push w.rootPinBase, next, sites⟩

/-- The layout of a tile. -/
def layoutOf (T : Tables) (tile : Tile) : Run LookupError Layout := do
  let w ← tile.subTiles.foldlM (m.laySubTile T) ⟨#[], 0, tile.walkStart⟩
  return {
    spans := w.sites.spans.toList
    rootPinBases := w.rootPinBases.toList
    flatPinEnd := w.sites.pinBase
    numClasses := w.sites.classBase }

/-- The layout of the tile at a position. -/
def layout (T : Tables) (t : TileId) : Run LookupError Layout := do
  let tile ← Run.of (T.findTile t)
  m.layoutOf T tile

/-! ## The ends of a span -/

/-- One past the last flat pin. -/
def pinEnd (s : Span) : Run ε Nat := m.add s.pinBase s.numPins

/-- First flat pin that stands for an internal pin. -/
def internalBase (s : Span) : Run ε Nat := m.add s.pinBase s.numRootPins

/-- One past the last class. -/
def classEnd (s : Span) : Run ε Nat := m.add s.classBase s.numClasses

/-- The flat pin is one of the span. -/
def hasPin (s : Span) (pin : Nat) : Run ε Bool := do
  let limit ← m.pinEnd s
  return decide (s.pinBase ≤ pin) && decide (pin < limit)

/-- The flat pin is one of the span and stands for an internal pin. -/
def hasInternalPin (s : Span) (pin : Nat) : Run ε Bool := do
  let first ← m.internalBase s
  let limit ← m.pinEnd s
  return decide (first ≤ pin) && decide (pin < limit)

/-- The class is one of the span. -/
def hasClass (s : Span) (cls : Nat) : Run ε Bool := do
  let limit ← m.classEnd s
  return decide (s.classBase ≤ cls) && decide (cls < limit)

/-- A span as it is shown, with the ends of its three ranges. -/
def shown (s : Span) : Run ε Span := do
  let _ ← m.pinEnd s
  let _ ← m.internalBase s
  let _ ← m.classEnd s
  return s

/-! ## Searches -/

/-- The span that a flat pin falls into. -/
def spanOfPin? (L : Layout) (pin : Nat) : Run ε (Option Span) :=
  L.spans.findM? fun s => m.hasPin s pin

/-- The span that a class falls into. -/
def spanOfClass? (L : Layout) (cls : Nat) : Run ε (Option Span) :=
  L.spans.findM? fun s => m.hasClass s cls

/-- The span of an internal flat pin of a tile. -/
def internalSpan (L : Layout) (tile : Tile) (pin : Nat) : Run LookupError Span := do
  let found ← m.spanOfPin? L pin
  let span ← Run.of (orFail found (.pinOutOfRange tile.name pin L.flatPinEnd))
  let internal ← m.hasInternalPin span pin
  Run.of ((LookupError.unmappedPhysicalPin tile.name pin).unless (internal = true))
  return span

end Machine

/-! ## Tables with a source of layouts -/

/-- Tables on a machine, with the source from which the layouts of their tiles are taken. -/
structure Indexer where
  machine : Machine
  tables : Tables
  layout : TileId → Run LookupError Layout

/-- The indexer that makes each layout afresh. -/
def Machine.indexer (m : Machine) (T : Tables) : Indexer := ⟨m, T, m.layout T⟩

end PinNumbering
