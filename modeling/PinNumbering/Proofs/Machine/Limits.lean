import PinNumbering.Machine
import PinNumbering.Proofs.Layout.Partition
import PinNumbering.Proofs.RootPins.Owner
/-! # When the numbers of tables fit into words

The tables hold words, but what is counted from them need not fit into one: the locations of a range
may be one more than there are words, and the pins that tables declare may add up to more than they
list. These are the conditions under which the sums and products that the look-ups form fit.

* `Tile.RootsFit`: the locations of each range, and the root pins of the sub tiles together.
* `Tables.LayoutFits`: also the flat pins and the classes of all sites.
* `Tables.SpansFit`: also the first internal pin of each site.
* `Tile.PortsFit`: the end of each port.
-/
set_option autoImplicit false

namespace PinNumbering

/-! ## Root pins -/

/-- The numbers of locations of the sub tiles fit, and so does the end of their root pins when these
start at `base`. -/
structure SubTile.RootsFit (base : Nat) (subTiles : List SubTile) : Prop where
  total : ∀ s ∈ subTiles, s.capacity.total < wordLimit
  rootPins : base + totalOf (subTiles.map SubTile.numPins) < wordLimit

/-- The numbers of locations and the root pins of a tile fit. -/
def Tile.RootsFit (tile : Tile) : Prop := SubTile.RootsFit 0 tile.subTiles

/-- The numbers of locations and the root pins of all tiles fit. -/
def Tables.RootsFit (T : Tables) : Prop := ∀ tile ∈ T.tiles, tile.RootsFit

/-- Each port of a tile ends within a word. -/
def Tile.PortsFit (tile : Tile) : Prop :=
  ∀ s ∈ tile.subTiles, ∀ port ∈ s.ports, port.firstPin + port.numPins < wordLimit

namespace SubTile.RootsFit
variable {base : Nat} {s : SubTile} {rest : List SubTile}

theorem next_lt (h : RootsFit base (s :: rest)) : base + s.numPins < wordLimit := by
  have hpins := h.rootPins
  rw [List.map_cons, totalOf_cons] at hpins
  omega

theorem nil (h : base < wordLimit) : RootsFit base [] where
  total _ hs := nomatch hs
  rootPins := h

theorem cons (htotal : s.capacity.total < wordLimit) (hrest : RootsFit (base + s.numPins) rest) :
    RootsFit base (s :: rest) where
  total s' hs' := by
    rcases List.mem_cons.1 hs' with rfl | hs'
    · exact htotal
    · exact hrest.total s' hs'
  rootPins := by
    rw [List.map_cons, totalOf_cons, ← Nat.add_assoc]
    exact hrest.rootPins

theorem tail (h : RootsFit base (s :: rest)) : RootsFit (base + s.numPins) rest where
  total s' hs' := h.total s' (List.mem_cons_of_mem s hs')
  rootPins := by
    have hpins := h.rootPins
    rw [List.map_cons, totalOf_cons, ← Nat.add_assoc] at hpins
    exact hpins

end SubTile.RootsFit

/-! ## Layouts -/

/-- The flat pins and the classes of all sites of a tile fit. -/
structure Tables.LayoutFits (T : Tables) (tile : Tile) : Prop where
  roots : tile.RootsFit
  flatPins : tile.numPins + tile.weight T.pinsOf < wordLimit
  classes : tile.weight T.classesOf < wordLimit

/-- The first internal pin of each site fits as well. It can lie past the end of the site. -/
structure Tables.SpansFit (T : Tables) (tile : Tile) : Prop extends T.LayoutFits tile where
  internalBase : ∀ span ∈ (T.laidOut tile).spans, span.internalBase < wordLimit

/-- The tile at a position fits, if there is one. -/
def Tables.LayoutFitsAt (T : Tables) (t : TileId) : Prop :=
  ∀ tile, T.tile? t = some tile → T.LayoutFits tile

/-- The spans of the tile at a position fit, if there is one. -/
def Tables.SpansFitAt (T : Tables) (t : TileId) : Prop :=
  ∀ tile, T.tile? t = some tile → T.SpansFit tile

theorem Tables.SpansFitAt.layoutFitsAt {T : Tables} {t : TileId} (h : T.SpansFitAt t) :
    T.LayoutFitsAt t := fun tile ht => (h tile ht).toLayoutFits

/-- The look-up of a root pin for a logical pin of a block in an instance fits: the pin's position
in the sub tile, and the location that a failure reports. -/
structure Tables.InstanceFits (T : Tables) (tile : Tile) (s : SubTile) (b : BlockId)
    (inst logicalPin : Nat) : Prop where
  total : s.capacity.total < wordLimit
  position : ∀ pin, T.findDirectPin tile s b logicalPin = .ok pin →
    pin + inst * s.pinsPerInstance < wordLimit
  location : s.capacity.total ≤ inst → s.capacity.low + inst < wordLimit

namespace Tables.LayoutFits
variable {T : Tables} {tile : Tile} {span : Span}

theorem pinEnd_lt (h : T.LayoutFits tile) (hspan : span ∈ (T.laidOut tile).spans) :
    span.pinBase + span.numPins < wordLimit := by
  have hend := (T.endToEnd_pins tile).run_le_end hspan
  rw [T.totalOf_numPins_laidOut] at hend
  exact Nat.lt_of_le_of_lt hend h.flatPins

theorem classEnd_lt (h : T.LayoutFits tile) (hspan : span ∈ (T.laidOut tile).spans) :
    span.classBase + span.numClasses < wordLimit := by
  have hend := (T.endToEnd_classes tile).run_le_end hspan
  rw [T.totalOf_numClasses_laidOut, Nat.zero_add] at hend
  exact Nat.lt_of_le_of_lt hend h.classes

end Tables.LayoutFits

end PinNumbering
