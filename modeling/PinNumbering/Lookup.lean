import PinNumbering.Tables
/-! # Look-ups that may fail

To turn a number of one numbering into one of another fails when the arguments do not belong
together or when the tables are inconsistent. `LookupError` lists the causes, `message` words them
and `kind` sorts them. `Lookup` is the result; `orFail` names the cause of a missing value.

The look-ups of a chain fail with the first cause. `orFail_eq_ok_iff`, `orFail_eq_error_iff` and
their likes for `unless` say when one step succeeds and when it fails.
-/
set_option autoImplicit false

namespace PinNumbering

/-- Broad classes of failures. -/
inductive ErrorKind where
  /-- The arguments have no match in the tables. -/
  | notFound
  /-- A number exceeds its range. -/
  | outOfRange
  /-- A class does not flatten into runs of pins. -/
  | malformedGrouping
  deriving DecidableEq, Repr

/-- Why a look-up fails. Tiles, sub tiles and blocks that exist appear by name. -/
inductive LookupError where
  /-- The tables lack the tile. -/
  | unknownTile (tile : TileId)
  /-- The tables lack the block. -/
  | unknownBlock (block : BlockId)
  /-- The tile has no sub tile at the position. -/
  | unknownSubTile (tile : String) (subTile : Nat)
  /-- No sub tile of the tile hosts the block. -/
  | blockNotInTile (tile block : String)
  /-- No sub tile of the tile hosts the block at the location. -/
  | blockNotAtLocation (tile block : String) (location : Nat)
  /-- The instance of the sub tile is not a site of the block. -/
  | noSiteInstance (tile : String) (subTile inst : Nat) (block : String)
  /-- The logical pin leads to no pin of the sub tile. -/
  | unmappedLogicalPin (tile block : String) (subTile pin : Nat)
  /-- The physical pin leads to no logical pin or port. -/
  | unmappedPhysicalPin (tile : String) (pin : Nat)
  /-- The graph pin is not one of the block. -/
  | unknownGraphPin (block : String) (pin : GraphPinId)
  /-- The graph pin has no primitive class. -/
  | unclassifiedGraphPin (block : String) (pin : GraphPinId)
  /-- The block has no primitive at the position. -/
  | unknownPrimitive (block : String) (primitive : Nat)
  /-- The block lists no tile. -/
  | noEquivalentTile (block : String)
  /-- The tile or sub tile lists no block. -/
  | noEquivalentSite (owner : String)
  /-- The class has the other direction. -/
  | pinTypeMismatch (tile : String) (cls : Nat) (expected actual : PinType)
  /-- The pin is not below the number of pins of the owner. -/
  | pinOutOfRange (owner : String) (pin limit : Nat)
  /-- The class is not below the number of classes of the owner. -/
  | classOutOfRange (owner : String) (cls limit : Nat)
  /-- No sub tile covers the capacity location. -/
  | capacityOutOfRange (tile : String) (location : Nat)
  /-- The pins of a class do not form runs within their ports. -/
  | malformedClass (tile : String) (cls : Nat) (detail : String)
  deriving DecidableEq, Repr

namespace LookupError

/-- The broad class of a failure. -/
def kind : LookupError → ErrorKind
  | pinOutOfRange .. | classOutOfRange .. | capacityOutOfRange .. => .outOfRange
  | malformedClass .. => .malformedGrouping
  | _ => .notFound

/-- The message that reports a failure. -/
def message : LookupError → String
  | unknownTile tile => s!"unknown physical tile type {tile}"
  | unknownBlock block => s!"unknown logical block type {block}"
  | unknownSubTile tile subTile => s!"physical tile type '{tile}' has no sub tile {subTile}"
  | blockNotInTile tile block =>
    s!"found no instances of logical block type '{block}' within physical tile type '{tile}'"
  | blockNotAtLocation tile block location =>
    s!"no sub tile of physical tile type '{tile}' hosts logical block type '{block}' " ++
    s!"at capacity location {location}"
  | noSiteInstance tile subTile inst block =>
    s!"logical block type '{block}' is not an equivalent site of instance {inst} " ++
    s!"of sub tile {subTile} in physical tile type '{tile}'"
  | unmappedLogicalPin tile block subTile pin =>
    s!"couldn't find the physical pin of logical pin {pin} of logical block type '{block}' " ++
    s!"in sub tile {subTile} of physical tile type '{tile}'"
  | unmappedPhysicalPin tile pin =>
    s!"physical pin {pin} of physical tile type '{tile}' is not mapped to any logical pin or port"
  | unknownGraphPin block pin =>
    s!"pin-graph pin {pin} is not part of logical block type '{block}'"
  | unclassifiedGraphPin block pin =>
    s!"pin-graph pin {pin} of logical block type '{block}' belongs to no primitive class"
  | unknownPrimitive block primitive =>
    s!"logical block type '{block}' has no primitive {primitive}"
  | noEquivalentTile block => s!"logical block type '{block}' has no equivalent physical tile"
  | noEquivalentSite owner => s!"'{owner}' has no equivalent logical block"
  | pinTypeMismatch tile cls expected actual =>
    let found := actual.text
    let wanted := expected.text
    s!"class {cls} of physical tile type '{tile}' is a {found} class, expected {wanted}"
  | pinOutOfRange owner pin limit => s!"pin {pin} is out of range for '{owner}' ({limit} pins)"
  | classOutOfRange owner cls limit =>
    s!"class {cls} is out of range for '{owner}' ({limit} classes)"
  | capacityOutOfRange tile location =>
    s!"capacity location {location} is not covered by any sub tile of physical tile type '{tile}'"
  | malformedClass tile cls detail =>
    s!"class {cls} of physical tile type '{tile}' is not contiguous: {detail}"

end LookupError

/-- The result of a look-up. -/
abbrev Lookup (α : Type) := Except LookupError α

/-- The value that is there, or a failure for the given cause. -/
def orFail {α : Type} (value : Option α) (cause : LookupError) : Lookup α :=
  match value with
  | some a => .ok a
  | none => .error cause

/-- Fails for the given cause unless a condition holds. -/
def LookupError.unless (cause : LookupError) (condition : Prop) [Decidable condition] :
    Lookup Unit :=
  if condition then .ok () else .error cause

@[simp] theorem orFail_some {α : Type} (a : α) (cause : LookupError) :
    orFail (some a) cause = .ok a := rfl

@[simp] theorem orFail_none {α : Type} (cause : LookupError) :
    orFail (none : Option α) cause = .error cause := rfl

theorem orFail_eq_ok_iff {α : Type} {value : Option α} {cause : LookupError} {a : α} :
    orFail value cause = .ok a ↔ value = some a := by
  cases value <;> simp

theorem orFail_eq_error_iff {α : Type} {value : Option α} {cause e : LookupError} :
    orFail value cause = .error e ↔ value = none ∧ cause = e := by
  cases value <;> simp

@[simp] theorem LookupError.unless_eq_ok_iff (cause : LookupError) (condition : Prop)
    [Decidable condition] : cause.unless condition = .ok () ↔ condition := by
  rw [LookupError.unless]
  split <;> simp_all

theorem LookupError.unless_eq_error_iff (cause e : LookupError) (condition : Prop)
    [Decidable condition] : cause.unless condition = .error e ↔ ¬ condition ∧ cause = e := by
  rw [LookupError.unless]
  split <;> simp_all

namespace Tables

/-- The tile at a position. -/
def findTile (T : Tables) (t : TileId) : Lookup Tile :=
  orFail (T.tile? t) (.unknownTile t)

theorem findTile_eq_ok {T : Tables} {t : TileId} {tile : Tile} (ht : T.tile? t = some tile) :
    T.findTile t = .ok tile :=
  orFail_eq_ok_iff.2 ht

/-- The block at a position. -/
def findBlock (T : Tables) (b : BlockId) : Lookup Block :=
  orFail (T.block? b) (.unknownBlock b)

end Tables

/-- The sub tile at a position of a tile. -/
def Tile.findSubTile (tile : Tile) (position : Nat) : Lookup SubTile :=
  orFail tile.subTiles[position]? (.unknownSubTile tile.name position)

end PinNumbering
