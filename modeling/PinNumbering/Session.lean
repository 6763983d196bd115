import PinNumbering.Query
/-! # Sessions

A session answers queries about fixed tables, one after the other. If its options say so, it keeps
the layout of each tile in a cell of its own: the first query that needs the layout fills the cell,
and later ones read it. Failed layouts are kept like any other.

* `Session.start` and `Session.ofTables`: a session with and without options.
* `Session.remember`: fills the cell of a tile.
* `Session.layout`: reads a layout.
* `Session.ask` and `Session.askAll`: one query, and a list of them.
-/
set_option autoImplicit false

namespace PinNumbering

/-- Tables, options and the layouts kept so far. -/
structure Session where
  tables : Tables
  options : Options
  /-- One cell for each tile if layouts are kept, and no cell otherwise. -/
  layouts : List (Option (Lookup Layout))

namespace Session

/-- A session that has not been asked anything. -/
def init (T : Tables) (o : Options) : Session where
  tables := T
  options := o
  layouts := if o.cacheLayouts then List.replicate T.tiles.length none else []

/-- A session with default options. -/
def ofTables (T : Tables) : Session := init T {}

/-- A session with the given options. If they say so, the tables must be consistent. -/
def start (T : Tables) (o : Options) : Except TableFault Session := do
  if o.validateTables then T.validate
  return init T o

/-- The session has a cell for the layout of a tile. -/
def keeps (s : Session) (t : TileId) : Bool := decide (t < s.layouts.length)

/-- Fills the cell of a tile if there is one and it is empty. -/
def remember (s : Session) (t : TileId) : Session :=
  match s.layouts[t]? with
  | some none => { s with layouts := s.layouts.set t (some (s.tables.layout t)) }
  | _ => s

/-- The layout of a tile, from its cell or else afresh. -/
def layout (s : Session) (t : TileId) : Lookup Layout :=
  match s.layouts[t]? with
  | some (some layout) => layout
  | _ => s.tables.layout t

/-- The tables with the layouts that the session keeps. -/
def numbering (s : Session) : Numbering := ⟨s.tables, s.layout⟩

/-- The session that is ready for a question about a tile: a layout that the answer needs is kept.
-/
def prepare (s : Session) (t : TileId) (q : TileQuery) : Session :=
  if (s.tables.tile? t).any fun tile => q.needsLayout s.tables tile then s.remember t else s

/-- The answer to a query, and the session after it. -/
def ask (s : Session) : Query → Answer × Session
  | .options => (.options s.options, s)
  | .ofTables q => (s.tables.answer q, s)
  | .ofTile t q =>
    let s := s.prepare t q
    (s.numbering.answer (s.keeps t) t q, s)

/-- The answers to a list of queries, and the session after them. -/
def askAll (s : Session) : List Query → List Answer × Session
  | [] => ([], s)
  | q :: rest =>
    let (answer, s) := s.ask q
    let (answers, s) := s.askAll rest
    (answer :: answers, s)

end Session

end PinNumbering
