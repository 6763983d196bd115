import PinNumbering.Machine.Query
import PinNumbering.Session
/-! # Sessions on a machine

A session answers its queries on a machine. What it keeps are the layouts that the machine makes. A
stop ends the session: there is no answer to the query, nor to any after it.

* `Session.startOn`: a session with options, whose tables the machine may have to check.
* `Session.layoutOn`, `Session.rememberOn`: reading a layout, and filling the cell of a tile.
* `Session.askOn`, `Session.askAllOn`: one query, and a list of them.
-/
set_option autoImplicit false

namespace PinNumbering

namespace Session

/-- A session with the given options. If they say so, the tables must be consistent. -/
def startOn (m : Machine) (T : Tables) (o : Options) : Run TableFault Session := do
  if o.validateTables then m.validate T
  return init T o

section Machine
variable {ε : Type} (m : Machine)

/-- The layout of a tile, from its cell or else made by the machine. -/
def layoutOn (s : Session) (t : TileId) : Run LookupError Layout :=
  match s.layouts[t]? with
  | some (some layout) => Run.of layout
  | _ => m.layout s.tables t

/-- The session with a layout in the cell of a tile. -/
def keep (s : Session) (t : TileId) (layout : Lookup Layout) : Session :=
  { s with layouts := s.layouts.set t (some layout) }

/-- Fills the cell of a tile if there is one and it is empty. -/
def rememberOn (s : Session) (t : TileId) : Run ε Session :=
  match s.layouts[t]? with
  | some none =>
    match m.layout s.tables t with
    | .ok L => .ok (s.keep t (.ok L))
    | .error (.failure cause) => .ok (s.keep t (.error cause))
    | .error (.stop reason) => .error (.stop reason)
  | _ => .ok s

/-- The tables with the layouts that the session keeps. -/
def indexer (s : Session) : Indexer := ⟨m, s.tables, s.layoutOn m⟩

/-- The session that is ready for a question about a tile: a layout that the answer needs is kept.
-/
def prepareOn (s : Session) (t : TileId) (q : TileQuery) : Run ε Session :=
  if (s.tables.tile? t).any fun tile => q.needsLayout s.tables tile then s.rememberOn m t
  else .ok s

/-- The answer to a query, and the session after it. -/
def askOn (s : Session) : Query → Run ε (Answer × Session)
  | .options => .ok (.options s.options, s)
  | .ofTables q => do
    let answer ← m.answer s.tables q
    return (answer, s)
  | .ofTile t q => do
    let s ← s.prepareOn m t q
    let answer ← (s.indexer m).answer (s.keeps t) t q
    return (answer, s)

/-- The answers to a list of queries, and the session after them. -/
def askAllOn (s : Session) : List Query → Run ε (List Answer × Session)
  | [] => .ok ([], s)
  | q :: rest => do
    let (answer, s) ← s.askOn m q
    let (answers, s) ← s.askAllOn rest
    return (answer :: answers, s)

end Machine

end Session

end PinNumbering
