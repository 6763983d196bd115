import PinNumbering.Machine.Consistency
import PinNumbering.Machine.FlatPin
import PinNumbering.Machine.Names
import PinNumbering.Query
/-! # Queries on a machine

The answers of `PinNumbering.Query` with the arithmetic of a machine. A failure and a fault of the
tables are answers like any other; only a stop leaves a query without one.
-/
set_option autoImplicit false

namespace PinNumbering

namespace Run
variable {ε : Type}

/-- The answer in a value that may not be found. -/
def answer {α : Type} (answer : α → Answer) : Run LookupError α → Run ε Answer
  | .ok a => .ok (answer a)
  | .error (.failure cause) => .ok (.failure cause)
  | .error (.stop reason) => .error (.stop reason)

/-- The answer that the checks of tables give. -/
def verdict : Run TableFault Unit → Run ε Answer
  | .ok () => .ok .consistent
  | .error (.failure fault) => .ok (.fault fault)
  | .error (.stop reason) => .error (.stop reason)

end Run

namespace Machine
variable (m : Machine)

open Answer (ofOption ofLookup)

/-! ## Questions about tables -/

/-- A sub tile as it is shown, with its numbers of instances and of pins for each. -/
def shownSubTile (s : SubTile) : Run LookupError SubTile := do
  let _ ← m.total s.capacity
  let _ ← m.pinsPerInstance s
  return s

/-- The sub tile at a position of a tile as it is shown. -/
def shownSubTile? (T : Tables) (t : TileId) (position : Nat) : Run LookupError (Option SubTile) :=
  match T.subTile? t position with
  | none => return none
  | some s => do
    let s ← m.shownSubTile s
    return some s

/-- The first port of a sub tile whose run contains a pin. -/
def portContaining? (T : Tables) (t : TileId) (position pin : Nat) :
    Run LookupError (Option Port) :=
  match T.subTile? t position with
  | none => return none
  | some s => s.ports.findM? fun port => m.portContains port pin

/-- The first root port of a block whose run contains a root pin. -/
def blockPortContaining? (T : Tables) (b : BlockId) (pin : Nat) :
    Run LookupError (Option BlockPort) :=
  match T.block? b with
  | none => return none
  | some block => block.ports.findM? fun port => m.portContains port.toPort pin

/-- The answer that tables give. Questions without arithmetic are answered as on any machine. -/
def answer {ε : Type} (T : Tables) : TableQuery → Run ε Answer
  | .validate => (m.validate T).verdict
  | .subTile t st => (m.shownSubTile? T t st).answer (ofOption .subTile)
  | .portContaining t st pin => (m.portContaining? T t st pin).answer (ofOption .port)
  | .blockPortContaining b pin => (m.blockPortContaining? T b pin).answer (ofOption .blockPort)
  | .rootPinAtLocation t b location l => (m.rootPinAtLocation T t b location l).answer .number
  | .rootPinOfInstance t st b inst l => (m.rootPinOfInstance T t st b inst l).answer .number
  | .coordinates t pin => (m.coordinates T t pin).answer fun (a, b) => .pair a b
  | .rootPinAtCoordinates t pin location =>
    (m.rootPinAtCoordinates T t pin location).answer .number
  | .numSubTileFlatPins t st => (m.numSubTileFlatPins T t st).answer .number
  | .portPosition t pin => (m.portPosition T t pin).answer .portPosition
  | .pinName t pin => (m.pinName T t pin).answer .text
  | .classPinNames t cls => (m.classPinNames T t cls).answer .texts
  | .rootPinOfPort t name place => (m.rootPinOfPort? T t name place).answer (ofOption .number)
  | .classOfPort t name place ty => (m.classOfPort T t name place ty).answer (ofOption .number)
  | q => .ok (T.answer q)

end Machine

/-! ## Questions about the sites of a tile -/

namespace Indexer
variable (I : Indexer)

open Answer (ofOption)

/-- A layout as it is shown, with the ends of all spans. -/
def shownLayout (t : TileId) : Run LookupError Layout := do
  let L ← I.layout t
  let _ ← L.spans.mapM I.machine.shown
  return L

/-- A span of a layout as it is shown, if the search finds one. -/
def shownSpan? (t : TileId) (find? : Layout → Run LookupError (Option Span)) :
    Run LookupError (Option Span) := do
  let L ← I.layout t
  match ← find? L with
  | none => return none
  | some span => do
    let span ← I.machine.shown span
    return some span

/-- The spans of an instance as they are shown. -/
def shownInstanceSpans (t : TileId) (subTile inst : Nat) : Run LookupError (List Span) := do
  let L ← I.layout t
  (L.instanceSpans subTile inst).mapM I.machine.shown

/-- The first root pin of a sub tile. -/
def rootPinBase? (t : TileId) (subTile : Nat) : Run LookupError (Option Nat) := do
  let L ← I.layout t
  return L.rootPinBase? subTile

/-- The answer about a tile. A layout is reported with the given mark. -/
def answer {ε : Type} (kept : Bool) (t : TileId) : TileQuery → Run ε Answer
  | .layout => (I.shownLayout t).answer (.layout kept)
  | .rootPinBase st => (I.rootPinBase? t st).answer (ofOption .number)
  | .spanAt st inst b =>
    (I.shownSpan? t fun L => return L.spanAt? st inst b).answer (ofOption .span)
  | .spanOfPin pin =>
    (I.shownSpan? t fun L => I.machine.spanOfPin? L pin).answer (ofOption .span)
  | .spanOfClass cls =>
    (I.shownSpan? t fun L => I.machine.spanOfClass? L cls).answer (ofOption .span)
  | .instanceSpans st inst => (I.shownInstanceSpans t st inst).answer .spans
  | .sitePinBase st b inst => (I.sitePinBase t st b inst).answer .number
  | .graphPinNumber st b inst pin => (I.graphPinNumber t st b inst pin).answer .number
  | .siteOfPin pin => (I.siteOfPin t pin).answer .pinSite
  | .subTileOfPin pin => (I.siteOfPin t pin).answer fun site => .number site.subTile
  | .instanceOfPin pin => (I.siteOfPin t pin).answer fun site => .number site.inst
  | .blockOfPin pin => (I.siteOfPin t pin).answer fun site => .number site.block
  | .logicalPin pin flat => (I.logicalPin t pin flat).answer .number
  | .graphPinAt pin => (I.graphPinAt t pin).answer fun (a, b) => .pair a b
  | .numFlatPins => (I.numFlatPins t).answer .number
  | .pinBound flat => (I.pinBound t flat).answer .number
  | .classNumber st b inst cls => (I.classNumber? t st b inst cls).answer (ofOption .number)
  | .siteOfClass cls => (I.siteOfClass t cls).answer .classSite
  | .subTileOfClass cls => (I.siteOfClass t cls).answer fun site => .number site.subTile
  | .instanceOfClass cls => (I.siteOfClass t cls).answer fun site => .number site.inst
  | .blockOfClass cls => (I.siteOfClass t cls).answer fun site => .number site.block
  | .logicalClass cls => (I.siteOfClass t cls).answer fun site => .number site.logicalClass
  | .findClass cls flat => (I.findClass t cls flat).answer .pinClass
  | .classType cls flat => (I.findClass t cls flat).answer fun info => .pinType info.pinType
  | .classSize cls flat => (I.findClass t cls flat).answer fun info => .number info.size
  | .numClasses => (I.numClasses t).answer .number
  | .tileClasses => (I.tileClasses t).answer .classes
  | .instanceClasses st inst => (I.instanceClasses t st inst).answer .classes
  | .siteClasses st b inst => (I.siteClasses t st b inst).answer .classes
  | .primitiveClasses st b inst primitive =>
    (I.primitiveClasses t st b inst primitive).answer .classes

end Indexer

end PinNumbering
