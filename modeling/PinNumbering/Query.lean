import PinNumbering.Classes
import PinNumbering.Names
import PinNumbering.Options
import PinNumbering.Placement
import PinNumbering.Tables.Consistency
/-! # Queries and answers

Everything that can be asked about tables. A `TableQuery` is answered from the tables alone. A
`TileQuery` is about the sites of one tile and may need its layout; `TileQuery.needsLayout` says
when. An `Answer` is a value of any of the types that the questions lead to.
-/
set_option autoImplicit false

namespace PinNumbering

/-! ## Answers -/

/-- The answer to a query. -/
inductive Answer where
  /-- There is nothing of the kind asked for. -/
  | absent
  | failure (cause : LookupError)
  /-- The tables are consistent. -/
  | consistent
  | fault (fault : TableFault)
  | number (n : Nat)
  | flag (b : Bool)
  | text (s : String)
  | texts (ss : List String)
  | pair (a b : Nat)
  /-- An entry of the tables, by number, with its number of root pins. -/
  | entry (id numPins : Nat)
  | tables (T : Tables)
  | options (o : Options)
  | subTile (s : SubTile)
  | directMap (m : PinMap)
  | port (p : Port)
  | block (b : Block)
  | graphPin (p : GraphPin)
  | blockPort (p : BlockPort)
  /-- A layout, and whether the session keeps it. -/
  | layout (kept : Bool) (L : Layout)
  | span (s : Span)
  | spans (ss : List Span)
  | pinSite (site : PinSite)
  | classSite (site : ClassSite)
  | pinClass (c : PinClass)
  | pinType (t : PinType)
  | classes (m : ClassMap)
  | portPosition (p : PortPosition)
  deriving DecidableEq, Repr

namespace Answer

/-- The answer in a value that may be missing. -/
def ofOption {α : Type} (answer : α → Answer) : Option α → Answer
  | none => absent
  | some a => answer a

/-- The answer in a value that may not be found. -/
def ofLookup {α : Type} (answer : α → Answer) : Lookup α → Answer
  | .error cause => failure cause
  | .ok a => answer a

/-- The answer in a pair of numbers that may not be found. -/
def ofPair (result : Lookup (Nat × Nat)) : Answer :=
  ofLookup (fun (a, b) => pair a b) result

end Answer

/-! ## Questions about tables -/

/-- A question that the tables answer alone. -/
inductive TableQuery where
  | tables
  /-- The numbers of tiles and blocks. -/
  | counts
  | validate
  | tileNamed (name : String)
  | blockNamed (name : String)
  | subTile (t : TileId) (subTile : Nat)
  | hosts (t : TileId) (subTile : Nat) (b : BlockId)
  | directMap (t : TileId) (subTile : Nat) (b : BlockId)
  | portNamed (t : TileId) (subTile : Nat) (name : String)
  | portContaining (t : TileId) (subTile pin : Nat)
  | block (b : BlockId)
  | logicalPin (b : BlockId) (pin : GraphPinId)
  | graphPinAt (b : BlockId) (logicalPin : Nat)
  | classOfGraphPin (b : BlockId) (pin : GraphPinId)
  | graphPin (b : BlockId) (pin : GraphPinId)
  | blockPortNamed (b : BlockId) (name : String)
  | blockPortContaining (b : BlockId) (pin : Nat)
  | blockPortOf (b : BlockId) (pin : GraphPinId)
  | blockPortAt (b : BlockId) (logicalPin : Nat)
  | hostIndex (t : TileId) (b : BlockId)
  | hostIndexAt (t : TileId) (b : BlockId) (location : Nat)
  | pinInSubTile (t : TileId) (subTile : Nat) (b : BlockId) (logicalPin : Nat)
  | rootPinOfFirst (t : TileId) (b : BlockId) (logicalPin : Nat)
  | rootPinAtLocation (t : TileId) (b : BlockId) (location logicalPin : Nat)
  | rootPinOfInstance (t : TileId) (subTile : Nat) (b : BlockId) (inst logicalPin : Nat)
  | coordinates (t : TileId) (pin : Nat)
  | rootPinAtCoordinates (t : TileId) (instancePin location : Nat)
  | numSubTileFlatPins (t : TileId) (subTile : Nat)
  | maxRootPins (b : BlockId)
  | drives (t : TileId) (pin : Nat)
  | portPosition (t : TileId) (pin : Nat)
  | pinName (t : TileId) (pin : Nat)
  | classPinNames (t : TileId) (cls : Nat)
  | rootPinOfPort (t : TileId) (name : String) (place : Nat)
  | classOfPort (t : TileId) (name : String) (place : Nat) (pinType : PinType)
  | preferredTile (b : BlockId)
  | preferredBlock (t : TileId)
  | compatible (t : TileId) (b : BlockId)
  | compatibleAt (t : TileId) (b : BlockId) (location : Nat)
  | isInput (t : TileId)
  | isOutput (t : TileId)
  | isPad (t : TileId)
  deriving DecidableEq, Repr

namespace Tables

open Answer (ofOption ofLookup ofPair)

/-- The answer that tables give. -/
def answer (T : Tables) : TableQuery → Answer
  | .tables => .tables T
  | .counts => .pair T.tiles.length T.blocks.length
  | .validate =>
    match T.validate with
    | .ok () => .consistent
    | .error f => .fault f
  | .tileNamed name => ofOption (fun tile : Tile => .entry tile.id tile.numPins) (T.tileNamed? name)
  | .blockNamed name =>
    ofOption (fun block : Block => .entry block.id block.numPins) (T.blockNamed? name)
  | .subTile t st => ofOption .subTile (T.subTile? t st)
  | .hosts t st b => ofOption (fun s : SubTile => .flag (s.hosts b)) (T.subTile? t st)
  | .directMap t st b => ofOption .directMap ((T.subTile? t st).bind fun s => s.directMap? b)
  | .portNamed t st name => ofOption .port ((T.subTile? t st).bind fun s => s.portNamed? name)
  | .portContaining t st pin =>
    ofOption .port ((T.subTile? t st).bind fun s => s.portContaining? pin)
  | .block b => ofOption .block (T.block? b)
  | .logicalPin b pin => ofOption .number ((T.block? b).bind fun block => block.logicalPin? pin)
  | .graphPinAt b l => ofOption .number ((T.block? b).bind fun block => block.graphPinAt? l)
  | .classOfGraphPin b pin => ofOption .number ((T.block? b).bind fun block => block.classOf? pin)
  | .graphPin b pin => ofOption .graphPin ((T.block? b).bind fun block => block.graphPin? pin)
  | .blockPortNamed b name =>
    ofOption .blockPort ((T.block? b).bind fun block => block.portNamed? name)
  | .blockPortContaining b pin =>
    ofOption .blockPort ((T.block? b).bind fun block => block.portContaining? pin)
  | .blockPortOf b pin => ofOption .blockPort ((T.block? b).bind fun block => block.portOf? pin)
  | .blockPortAt b l => ofOption .blockPort ((T.block? b).bind fun block => block.portAt? l)
  | .hostIndex t b => ofLookup .number (T.hostIndex t b)
  | .hostIndexAt t b location => ofLookup .number (T.hostIndexAt t b location)
  | .pinInSubTile t st b l => ofLookup .number (T.pinInSubTile t st b l)
  | .rootPinOfFirst t b l => ofLookup .number (T.rootPinOfFirst t b l)
  | .rootPinAtLocation t b location l => ofLookup .number (T.rootPinAtLocation t b location l)
  | .rootPinOfInstance t st b inst l => ofLookup .number (T.rootPinOfInstance t st b inst l)
  | .coordinates t pin => ofPair (T.coordinates t pin)
  | .rootPinAtCoordinates t pin location => ofLookup .number (T.rootPinAtCoordinates t pin location)
  | .numSubTileFlatPins t st => ofLookup .number (T.numSubTileFlatPins t st)
  | .maxRootPins b => ofLookup .number (T.maxRootPins b)
  | .drives t pin => ofLookup .flag (T.drives t pin)
  | .portPosition t pin => ofLookup .portPosition (T.portPosition t pin)
  | .pinName t pin => ofLookup .text (T.pinName t pin)
  | .classPinNames t cls => ofLookup .texts (T.classPinNames t cls)
  | .rootPinOfPort t name place => ofOption .number (T.rootPinOfPort? t name place)
  | .classOfPort t name place ty => ofLookup (ofOption .number) (T.classOfPort t name place ty)
  | .preferredTile b => ofLookup .number (T.preferredTile b)
  | .preferredBlock t => ofLookup .number (T.preferredBlock t)
  | .compatible t b => ofLookup .flag (T.compatible t b)
  | .compatibleAt t b location => ofLookup .flag (T.compatibleAt t b location)
  | .isInput t => ofLookup .flag (T.isInput t)
  | .isOutput t => ofLookup .flag (T.isOutput t)
  | .isPad t => ofLookup .flag (T.isPad t)

end Tables

/-! ## Questions about the sites of a tile -/

/-- A question about one tile that its layout helps to answer. -/
inductive TileQuery where
  | layout
  | rootPinBase (subTile : Nat)
  | spanAt (subTile inst : Nat) (b : BlockId)
  | spanOfPin (pin : Nat)
  | spanOfClass (cls : Nat)
  | instanceSpans (subTile inst : Nat)
  | sitePinBase (subTile : Nat) (b : BlockId) (inst : Nat)
  | graphPinNumber (subTile : Nat) (b : BlockId) (inst : Nat) (pin : GraphPinId)
  | siteOfPin (pin : Nat)
  | subTileOfPin (pin : Nat)
  | instanceOfPin (pin : Nat)
  | blockOfPin (pin : Nat)
  | logicalPin (pin : Nat) (flat : Bool)
  | graphPinAt (pin : Nat)
  | numFlatPins
  | pinBound (flat : Bool)
  | classNumber (subTile : Nat) (b : BlockId) (inst logicalClass : Nat)
  | siteOfClass (cls : Nat)
  | subTileOfClass (cls : Nat)
  | instanceOfClass (cls : Nat)
  | blockOfClass (cls : Nat)
  | logicalClass (cls : Nat)
  | findClass (cls : Nat) (flat : Bool)
  | classType (cls : Nat) (flat : Bool)
  | classSize (cls : Nat) (flat : Bool)
  | numClasses
  | tileClasses
  | instanceClasses (subTile inst : Nat)
  | siteClasses (subTile : Nat) (b : BlockId) (inst : Nat)
  | primitiveClasses (subTile : Nat) (b : BlockId) (inst primitive : Nat)
  deriving DecidableEq, Repr

namespace Numbering

open Answer (ofOption ofLookup ofPair)

/-- The answer about a tile that a numbering gives. A layout is reported with the given mark. -/
def answer (N : Numbering) (kept : Bool) (t : TileId) : TileQuery → Answer
  | .layout => ofLookup (.layout kept) (N.layout t)
  | .rootPinBase st => ofLookup (fun L => ofOption .number (L.rootPinBase? st)) (N.layout t)
  | .spanAt st inst b => ofLookup (fun L => ofOption .span (L.spanAt? st inst b)) (N.layout t)
  | .spanOfPin pin => ofLookup (fun L => ofOption .span (L.spanOfPin? pin)) (N.layout t)
  | .spanOfClass cls => ofLookup (fun L => ofOption .span (L.spanOfClass? cls)) (N.layout t)
  | .instanceSpans st inst => ofLookup (fun L => .spans (L.instanceSpans st inst)) (N.layout t)
  | .sitePinBase st b inst => ofLookup .number (N.sitePinBase t st b inst)
  | .graphPinNumber st b inst pin => ofLookup .number (N.graphPinNumber t st b inst pin)
  | .siteOfPin pin => ofLookup .pinSite (N.siteOfPin t pin)
  | .subTileOfPin pin => ofLookup .number ((N.siteOfPin t pin).map PinSite.subTile)
  | .instanceOfPin pin => ofLookup .number ((N.siteOfPin t pin).map PinSite.inst)
  | .blockOfPin pin => ofLookup .number ((N.siteOfPin t pin).map PinSite.block)
  | .logicalPin pin flat => ofLookup .number (N.logicalPin t pin flat)
  | .graphPinAt pin => ofPair (N.graphPinAt t pin)
  | .numFlatPins => ofLookup .number (N.numFlatPins t)
  | .pinBound flat => ofLookup .number (N.pinBound t flat)
  | .classNumber st b inst cls => ofOption .number (N.classNumber? t st b inst cls)
  | .siteOfClass cls => ofLookup .classSite (N.siteOfClass t cls)
  | .subTileOfClass cls => ofLookup .number ((N.siteOfClass t cls).map ClassSite.subTile)
  | .instanceOfClass cls => ofLookup .number ((N.siteOfClass t cls).map ClassSite.inst)
  | .blockOfClass cls => ofLookup .number ((N.siteOfClass t cls).map ClassSite.block)
  | .logicalClass cls => ofLookup .number ((N.siteOfClass t cls).map ClassSite.logicalClass)
  | .findClass cls flat => ofLookup .pinClass (N.findClass t cls flat)
  | .classType cls flat => ofLookup .pinType ((N.findClass t cls flat).map PinClass.pinType)
  | .classSize cls flat => ofLookup .number ((N.findClass t cls flat).map PinClass.size)
  | .numClasses => ofLookup .number (N.numClasses t)
  | .tileClasses => ofLookup .classes (N.tileClasses t)
  | .instanceClasses st inst => ofLookup .classes (N.instanceClasses t st inst)
  | .siteClasses st b inst => ofLookup .classes (N.siteClasses t st b inst)
  | .primitiveClasses st b inst primitive =>
    ofLookup .classes (N.primitiveClasses t st b inst primitive)

end Numbering

/-- The question is not settled before the layout of the tile comes in. Root pins need no layout,
and a look-up that fails earlier never gets to it. -/
def TileQuery.needsLayout (T : Tables) (tile : Tile) : TileQuery → Bool
  | .graphPinNumber _ b _ pin => (T.block? b).any fun block =>
      (block.graphPin? pin).any (fun data => !data.isRoot) && (block.logicalPin? pin).isSome
  | .siteOfPin pin | .subTileOfPin pin | .instanceOfPin pin | .blockOfPin pin =>
    (tile.rootPin? pin).isNone
  | .logicalPin pin flat => if pin < tile.numPins then (tile.rootPin? pin).isNone else flat
  | .graphPinAt pin => (tile.rootPin? pin).all fun root =>
      decide (tile.numPins ≤ pin) && !root.subTile.sites.isEmpty
  | .pinBound flat | .findClass _ flat | .classType _ flat | .classSize _ flat => flat
  | .instanceClasses subTile inst =>
    (tile.subTiles[subTile]?).any fun s => decide (inst < s.capacity.total)
  | .primitiveClasses _ b _ _ => (T.block? b).isSome
  | _ => true

/-! ## Questions of a session -/

/-- A question that a session answers. -/
inductive Query where
  /-- The options of the session. -/
  | options
  | ofTables (q : TableQuery)
  | ofTile (t : TileId) (q : TileQuery)
  deriving DecidableEq, Repr

end PinNumbering
