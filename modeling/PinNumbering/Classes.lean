import PinNumbering.FlatPin
/-! # Primitive classes

The primitive classes of all sites of a tile share one numbering, in which the classes of a site are
consecutive. A class map lists classes under their numbers in that numbering.

* `classNumber?` and `siteOfClass`: between a class of a block in a site and its number.
* `findClass`: a class by its number, primitive or root.
* `tileClasses`, `instanceClasses`, `siteClasses`, `primitiveClasses`: the class maps of a tile, of
  an instance, of one block in it, and of one primitive of that block.
-/
set_option autoImplicit false

namespace PinNumbering

/-- The site that a primitive class belongs to, and the number of the class within its block. -/
structure ClassSite where
  /-- Declared index of the sub tile. -/
  subTile : Nat
  /-- Instance of the sub tile, counted from zero. -/
  inst : Nat
  block : BlockId
  logicalClass : Nat
  deriving DecidableEq, Repr, Inhabited

/-- A primitive class with its block and its number there. -/
structure ClassEntry where
  block : BlockId
  logicalClass : Nat
  cls : PinClass
  deriving DecidableEq, Repr, Inhabited

/-- Primitive classes under their numbers in a tile. -/
abbrev ClassMap := KeyMap ClassEntry

/-! ## Classes of blocks -/

/-- A class of a block by its number there. -/
def Block.findClass (block : Block) (logicalClass : Nat) : Lookup PinClass :=
  orFail block.primitiveClasses[logicalClass]?
    (.classOutOfRange block.name logicalClass block.primitiveClasses.length)

/-- The graph pins of a primitive: those of its input ports, then of its output ports, then of its
clock ports. -/
def Primitive.pinsByKind (primitive : Primitive) : List GraphPinId :=
  [PortKind.input, .output, .clock].flatMap fun kind =>
    (primitive.ports.filter fun port => port.kind == kind).flatMap BlockPort.pins

namespace Span

/-- The classes of the block of a span under their numbers in the tile. -/
def classEntries (span : Span) (block : Block) : List (Nat × ClassEntry) :=
  block.primitiveClasses.zipIdx.map fun (cls, logicalClass) =>
    (span.classBase + logicalClass, ⟨span.block, logicalClass, cls⟩)

theorem mem_classEntries_iff (span : Span) (block : Block) (cls : Nat) (entry : ClassEntry) :
    (cls, entry) ∈ span.classEntries block ↔ entry.block = span.block ∧
      block.primitiveClasses[entry.logicalClass]? = some entry.cls ∧
      cls = span.classBase + entry.logicalClass := by
  obtain ⟨b, logicalClass, info⟩ := entry
  simp only [classEntries, List.mem_map, Prod.exists, List.mk_mem_zipIdx_iff_getElem?,
    Prod.mk.injEq, ClassEntry.mk.injEq]
  constructor
  · rintro ⟨info, logicalClass, hget, rfl, rfl, rfl, rfl⟩
    exact ⟨rfl, hget, rfl⟩
  · rintro ⟨rfl, hget, rfl⟩
    exact ⟨info, logicalClass, hget, rfl, rfl, rfl, rfl⟩

/-- The class of a graph pin of the block of a span under its number in the tile. -/
def classEntry (span : Span) (block : Block) (pin : GraphPinId) : Lookup (Nat × ClassEntry) := do
  let logicalClass ← orFail (block.classOf? pin) (.unclassifiedGraphPin block.name pin)
  let cls ← block.findClass logicalClass
  return (span.classBase + logicalClass, ⟨span.block, logicalClass, cls⟩)

end Span

namespace Numbering

/-! ## One class -/

/-- The number of a class of a block in a site, if there is such a site and class. -/
def classNumber? (N : Numbering) (t : TileId) (subTile : Nat) (b : BlockId)
    (inst logicalClass : Nat) : Option Nat := do
  let L ← (N.layout t).toOption
  let span ← L.spanAt? subTile inst b
  if logicalClass < span.numClasses then some (span.classBase + logicalClass) else none

/-- The site of a primitive class. -/
def siteOfClass (N : Numbering) (t : TileId) (cls : Nat) : Lookup ClassSite := do
  let tile ← N.tables.findTile t
  let L ← N.layout t
  let span ← orFail (L.spanOfClass? cls) (.classOutOfRange tile.name cls L.numClasses)
  return ⟨span.subTile, span.inst, span.block, cls - span.classBase⟩

/-- A class of a tile: a primitive class if `flat`, a root class otherwise. -/
def findClass (N : Numbering) (t : TileId) (cls : Nat) (flat : Bool) : Lookup PinClass := do
  let tile ← N.tables.findTile t
  if flat then
    let site ← N.siteOfClass t cls
    let block ← N.tables.findBlock site.block
    block.findClass site.logicalClass
  else
    orFail tile.classes[cls]? (.classOutOfRange tile.name cls tile.classes.length)

/-- The number of primitive classes of a tile. -/
def numClasses (N : Numbering) (t : TileId) : Lookup Nat := do
  let L ← N.layout t
  return L.numClasses

/-! ## Class maps -/

/-- The classes of the given spans. -/
def classesOfSpans (N : Numbering) (spans : List Span) : Lookup ClassMap := do
  let entries ← spans.mapM fun span => do
    let block ← N.tables.findBlock span.block
    return span.classEntries block
  return KeyMap.ofList entries.flatten

/-- The primitive classes of a tile. -/
def tileClasses (N : Numbering) (t : TileId) : Lookup ClassMap := do
  let L ← N.layout t
  N.classesOfSpans L.spans

/-- The primitive classes of all blocks that an instance of a sub tile can hold. -/
def instanceClasses (N : Numbering) (t : TileId) (subTile inst : Nat) : Lookup ClassMap := do
  let tile ← N.tables.findTile t
  let s ← tile.findSubTile subTile
  (LookupError.capacityOutOfRange tile.name (s.capacity.low + inst)).unless
    (inst < s.capacity.total)
  let L ← N.layout t
  N.classesOfSpans (L.instanceSpans subTile inst)

/-- The primitive classes of a block in a site. -/
def siteClasses (N : Numbering) (t : TileId) (subTile : Nat) (b : BlockId) (inst : Nat) :
    Lookup ClassMap := do
  let tile ← N.tables.findTile t
  let L ← N.layout t
  let span ← N.findSpan tile L subTile inst b
  N.classesOfSpans [span]

/-- The classes of the pins of one primitive of a block in a site. -/
def primitiveClasses (N : Numbering) (t : TileId) (subTile : Nat) (b : BlockId)
    (inst primitive : Nat) : Lookup ClassMap := do
  let tile ← N.tables.findTile t
  let block ← N.tables.findBlock b
  let L ← N.layout t
  let span ← N.findSpan tile L subTile inst b
  let part ← orFail block.primitives[primitive]? (.unknownPrimitive block.name primitive)
  let entries ← part.pinsByKind.mapM (span.classEntry block)
  return KeyMap.ofList entries

end Numbering

end PinNumbering
