import PinNumbering.Classes
import PinNumbering.Machine.Layout
/-! # Flat pins and primitive classes on a machine

The look-ups of `PinNumbering.FlatPin` and `PinNumbering.Classes` with the arithmetic of a machine.
A layout comes from the indexer, which may fail or stop where it is asked for one.
-/
set_option autoImplicit false

namespace PinNumbering

namespace Indexer
variable (I : Indexer)

/-! ## From sites and graph pins -/

/-- The span of an instance and a block. -/
def findSpan (tile : Tile) (L : Layout) (subTile inst : Nat) (b : BlockId) :
    Run LookupError Span :=
  Run.of (orFail (L.spanAt? subTile inst b)
    (.noSiteInstance tile.name subTile inst (I.tables.blockName b)))

/-- The first flat pin of a site. -/
def sitePinBase (t : TileId) (subTile : Nat) (b : BlockId) (inst : Nat) : Run LookupError Nat := do
  let tile ← Run.of (I.tables.findTile t)
  let L ← I.layout t
  let span ← I.findSpan tile L subTile inst b
  return span.pinBase

/-- The pin of the tile for a graph pin of a block in a site. -/
def graphPinNumber (t : TileId) (subTile : Nat) (b : BlockId) (inst : Nat) (pin : GraphPinId) :
    Run LookupError Nat := do
  let block ← Run.of (I.tables.findBlock b)
  let data ← Run.of (orFail (block.graphPin? pin) (.unknownGraphPin block.name pin))
  let logicalPin ← Run.of (orFail (block.logicalPin? pin) (.unknownGraphPin block.name pin))
  if data.isRoot then
    I.machine.rootPinOfInstance I.tables t subTile b inst logicalPin
  else do
    let base ← I.sitePinBase t subTile b inst
    I.machine.add base logicalPin

/-! ## From pins of the tile -/

/-- The site of a root pin or an internal flat pin. -/
def siteOfPin (t : TileId) (pin : Nat) : Run LookupError PinSite := do
  let tile ← Run.of (I.tables.findTile t)
  match ← I.machine.rootPin? tile pin with
  | some root =>
    let block ← Run.of
      (orFail root.subTile.sites.head? (.noEquivalentSite (tile.label root.subTile)))
    return ⟨root.subTile.index, root.inst, block⟩
  | none =>
    let L ← I.layout t
    let span ← I.machine.internalSpan L tile pin
    return ⟨span.subTile, span.inst, span.block⟩

/-- The logical pin behind a root pin, for the preferred block of its instance. -/
def logicalPinOfRoot (t : TileId) (tile : Tile) (pin : Nat) : Run LookupError Nat := do
  let site ← I.siteOfPin t pin
  let s ← Run.of (tile.findSubTile site.subTile)
  let unmapped := LookupError.unmappedPhysicalPin tile.name pin
  let position ← Run.of (orFail (s.rootPins.idxOf? pin) unmapped)
  let perInstance ← I.machine.pinsPerInstance s
  let before ← I.machine.mul site.inst perInstance
  Run.of (unmapped.unless (before ≤ position))
  Run.of (orFail ((s.directMap? site.block).bind fun m => m.left? (position - before)) unmapped)

/-- The logical pin behind a pin of the tile. Pins past the root pins count only if `flat`. -/
def logicalPin (t : TileId) (pin : Nat) (flat : Bool) : Run LookupError Nat := do
  let tile ← Run.of (I.tables.findTile t)
  if pin < tile.numPins then
    I.logicalPinOfRoot t tile pin
  else if flat then do
    let L ← I.layout t
    let span ← I.machine.internalSpan L tile pin
    I.machine.sub pin span.pinBase
  else
    throw (.failure (.pinOutOfRange tile.name pin tile.numPins))

/-- The block and the graph pin behind a pin of the tile. -/
def graphPinAt (t : TileId) (pin : Nat) : Run LookupError (BlockId × GraphPinId) := do
  let tile ← Run.of (I.tables.findTile t)
  let site ← I.siteOfPin t pin
  let logicalPin ← I.logicalPin t pin true
  let block ← Run.of (I.tables.findBlock site.block)
  let graphPin ← Run.of (orFail (block.graphPinAt? logicalPin)
    (.unmappedLogicalPin tile.name block.name site.subTile logicalPin))
  return (site.block, graphPin)

/-! ## Counts -/

/-- The number of flat pins past the root pins of a tile. -/
def numFlatPins (t : TileId) : Run LookupError Nat := do
  let tile ← Run.of (I.tables.findTile t)
  let L ← I.layout t
  I.machine.sub L.flatPinEnd tile.numPins

/-- A bound on the pins of a tile: its root pins, and with `flat` also its flat pins. -/
def pinBound (t : TileId) (flat : Bool) : Run LookupError Nat :=
  if flat then do
    let L ← I.layout t
    return L.flatPinEnd
  else do
    let tile ← Run.of (I.tables.findTile t)
    return tile.numPins

/-! ## One class -/

/-- The number of a class of a block in a site, if there is such a site and class. A layout that
fails counts as one without the site. -/
def classNumber? (t : TileId) (subTile : Nat) (b : BlockId) (inst logicalClass : Nat) :
    Run LookupError (Option Nat) :=
  match I.layout t with
  | .error (.stop reason) => .error (.stop reason)
  | .error (.failure _) => .ok none
  | .ok L =>
    match L.spanAt? subTile inst b with
    | none => .ok none
    | some span =>
      if logicalClass < span.numClasses then do
        let cls ← I.machine.add span.classBase logicalClass
        return some cls
      else .ok none

/-- The site of a primitive class. -/
def siteOfClass (t : TileId) (cls : Nat) : Run LookupError ClassSite := do
  let tile ← Run.of (I.tables.findTile t)
  let L ← I.layout t
  let found ← I.machine.spanOfClass? L cls
  let span ← Run.of (orFail found (.classOutOfRange tile.name cls L.numClasses))
  let logicalClass ← I.machine.sub cls span.classBase
  return ⟨span.subTile, span.inst, span.block, logicalClass⟩

/-- A class of a tile: a primitive class if `flat`, a root class otherwise. -/
def findClass (t : TileId) (cls : Nat) (flat : Bool) : Run LookupError PinClass := do
  let tile ← Run.of (I.tables.findTile t)
  if flat then do
    let site ← I.siteOfClass t cls
    let block ← Run.of (I.tables.findBlock site.block)
    Run.of (block.findClass site.logicalClass)
  else
    Run.of (orFail tile.classes[cls]? (.classOutOfRange tile.name cls tile.classes.length))

/-- The number of primitive classes of a tile. -/
def numClasses (t : TileId) : Run LookupError Nat := do
  let L ← I.layout t
  return L.numClasses

/-! ## Class maps -/

/-- The classes of the block of a span under their numbers in the tile. -/
def classEntries (span : Span) (block : Block) : Run LookupError (List (Nat × ClassEntry)) :=
  block.primitiveClasses.zipIdx.mapM fun (cls, logicalClass) => do
    let number ← I.machine.add span.classBase logicalClass
    return (number, ⟨span.block, logicalClass, cls⟩)

/-- The classes of the given spans. -/
def classesOfSpans (spans : List Span) : Run LookupError ClassMap := do
  let entries ← spans.mapM fun span => do
    let block ← Run.of (I.tables.findBlock span.block)
    I.classEntries span block
  return KeyMap.ofList entries.flatten

/-- The primitive classes of a tile. -/
def tileClasses (t : TileId) : Run LookupError ClassMap := do
  let L ← I.layout t
  I.classesOfSpans L.spans

/-- The primitive classes of all blocks that an instance of a sub tile can hold. -/
def instanceClasses (t : TileId) (subTile inst : Nat) : Run LookupError ClassMap := do
  let tile ← Run.of (I.tables.findTile t)
  let s ← Run.of (tile.findSubTile subTile)
  let total ← I.machine.total s.capacity
  if inst < total then do
    let L ← I.layout t
    I.classesOfSpans (L.instanceSpans subTile inst)
  else I.machine.instanceOutOfRange tile s inst

/-- The primitive classes of a block in a site. -/
def siteClasses (t : TileId) (subTile : Nat) (b : BlockId) (inst : Nat) :
    Run LookupError ClassMap := do
  let tile ← Run.of (I.tables.findTile t)
  let L ← I.layout t
  let span ← I.findSpan tile L subTile inst b
  I.classesOfSpans [span]

/-- The class of a graph pin of the block of a span under its number in the tile. -/
def classEntry (span : Span) (block : Block) (pin : GraphPinId) :
    Run LookupError (Nat × ClassEntry) := do
  let logicalClass ← Run.of (orFail (block.classOf? pin) (.unclassifiedGraphPin block.name pin))
  let cls ← Run.of (block.findClass logicalClass)
  let number ← I.machine.add span.classBase logicalClass
  return (number, ⟨span.block, logicalClass, cls⟩)

/-- The classes of the pins of one primitive of a block in a site. -/
def primitiveClasses (t : TileId) (subTile : Nat) (b : BlockId) (inst primitive : Nat) :
    Run LookupError ClassMap := do
  let tile ← Run.of (I.tables.findTile t)
  let block ← Run.of (I.tables.findBlock b)
  let L ← I.layout t
  let span ← I.findSpan tile L subTile inst b
  let part ← Run.of (orFail block.primitives[primitive]? (.unknownPrimitive block.name primitive))
  let entries ← part.pinsByKind.mapM (I.classEntry span block)
  return KeyMap.ofList entries

end Indexer

end PinNumbering
