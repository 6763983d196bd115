import PinNumbering.Layout
import PinNumbering.RootPin
/-! # Flat pins

Root pins and flat pins of a tile against sites, logical pins and graph pins.

* `sitePinBase`, `graphPinNumber`: from a site and a graph pin to a pin of the tile.
* `siteOfPin`, `logicalPin`, `graphPinAt`: from a pin of the tile back.
* `numFlatPins`, `pinBound`: counts.
-/
set_option autoImplicit false

namespace PinNumbering

/-- The site that a pin of a tile belongs to. A root pin, which all blocks of its instance share,
counts as one of the preferred block. -/
structure PinSite where
  /-- Declared index of the sub tile. -/
  subTile : Nat
  /-- Instance of the sub tile, counted from zero. -/
  inst : Nat
  block : BlockId
  deriving DecidableEq, Repr, Inhabited

namespace Numbering

/-! ## From sites and graph pins -/

/-- The span of an instance and a block. -/
def findSpan (N : Numbering) (tile : Tile) (L : Layout) (subTile inst : Nat) (b : BlockId) :
    Lookup Span :=
  orFail (L.spanAt? subTile inst b)
    (.noSiteInstance tile.name subTile inst (N.tables.blockName b))

/-- The first flat pin of a site. -/
def sitePinBase (N : Numbering) (t : TileId) (subTile : Nat) (b : BlockId) (inst : Nat) :
    Lookup Nat := do
  let tile ← N.tables.findTile t
  let L ← N.layout t
  let span ← N.findSpan tile L subTile inst b
  return span.pinBase

/-- The pin of the tile for a graph pin of a block in a site: a root pin through the direct map, an
internal pin in the span of the site. -/
def graphPinNumber (N : Numbering) (t : TileId) (subTile : Nat) (b : BlockId) (inst : Nat)
    (pin : GraphPinId) : Lookup Nat := do
  let block ← N.tables.findBlock b
  let data ← orFail (block.graphPin? pin) (.unknownGraphPin block.name pin)
  let logicalPin ← orFail (block.logicalPin? pin) (.unknownGraphPin block.name pin)
  if data.isRoot then
    N.tables.rootPinOfInstance t subTile b inst logicalPin
  else
    let base ← N.sitePinBase t subTile b inst
    return base + logicalPin

/-! ## From pins of the tile -/

/-- The site of a root pin or an internal flat pin. -/
def siteOfPin (N : Numbering) (t : TileId) (pin : Nat) : Lookup PinSite := do
  let tile ← N.tables.findTile t
  match tile.rootPin? pin with
  | some root =>
    let block ← orFail root.subTile.sites.head? (.noEquivalentSite (tile.label root.subTile))
    return ⟨root.subTile.index, root.inst, block⟩
  | none =>
    let L ← N.layout t
    let span ← L.internalSpan tile pin
    return ⟨span.subTile, span.inst, span.block⟩

/-- The logical pin behind a root pin, for the preferred block of its instance. -/
def logicalPinOfRoot (N : Numbering) (t : TileId) (tile : Tile) (pin : Nat) : Lookup Nat := do
  let site ← N.siteOfPin t pin
  let s ← tile.findSubTile site.subTile
  let unmapped := LookupError.unmappedPhysicalPin tile.name pin
  let position ← orFail (s.rootPins.idxOf? pin) unmapped
  unmapped.unless (site.inst * s.pinsPerInstance ≤ position)
  orFail ((s.directMap? site.block).bind fun m =>
    m.left? (position - site.inst * s.pinsPerInstance)) unmapped

/-- The logical pin behind a pin of the tile. Pins past the root pins count only if `flat`. -/
def logicalPin (N : Numbering) (t : TileId) (pin : Nat) (flat : Bool) : Lookup Nat := do
  let tile ← N.tables.findTile t
  if pin < tile.numPins then
    N.logicalPinOfRoot t tile pin
  else if flat then
    let L ← N.layout t
    let span ← L.internalSpan tile pin
    return pin - span.pinBase
  else
    throw (.pinOutOfRange tile.name pin tile.numPins)

/-- The block and the graph pin behind a pin of the tile. -/
def graphPinAt (N : Numbering) (t : TileId) (pin : Nat) : Lookup (BlockId × GraphPinId) := do
  let tile ← N.tables.findTile t
  let site ← N.siteOfPin t pin
  let logicalPin ← N.logicalPin t pin true
  let block ← N.tables.findBlock site.block
  let graphPin ← orFail (block.graphPinAt? logicalPin)
    (.unmappedLogicalPin tile.name block.name site.subTile logicalPin)
  return (site.block, graphPin)

/-! ## Counts -/

/-- The number of flat pins past the root pins of a tile. -/
def numFlatPins (N : Numbering) (t : TileId) : Lookup Nat := do
  let tile ← N.tables.findTile t
  let L ← N.layout t
  return L.flatPinEnd - tile.numPins

/-- A bound on the pins of a tile: its root pins, and with `flat` also its flat pins. -/
def pinBound (N : Numbering) (t : TileId) (flat : Bool) : Lookup Nat :=
  if flat then do
    let L ← N.layout t
    return L.flatPinEnd
  else do
    let tile ← N.tables.findTile t
    return tile.numPins

end Numbering

end PinNumbering
