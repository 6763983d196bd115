import PinNumbering.Layout
import PinNumbering.Proofs.EndToEnd
/-! # Places in walk order

A place is a site together with where it stands in its tile: the position of its sub tile, the
instance, and the position among the sites of the sub tile. The layout of a tile walks through its
places in lexicographic order of these three numbers. A weight of blocks, such as the number of
their pins, gives each place an offset: what the places before it weigh together.

* `Tile.places`, `mem_places_iff`, `pairwise_places`: each place once, in order.
* `Tile.offset`, `startsFrom_places`: the offset in closed form, and that it counts the places
  before.
-/
set_option autoImplicit false

namespace PinNumbering

/-- A site and where it stands in its tile. -/
structure Place where
  /-- Position of the sub tile. -/
  position : Nat
  subTile : SubTile
  inst : Nat
  /-- Position of the block among the sites of the sub tile. -/
  sitePosition : Nat
  block : BlockId

namespace Place

/-- What the layout records of a place. -/
def toSite (p : Place) : Site := ⟨p.subTile.index, p.inst, p.sitePosition, p.block⟩

def Before (p q : Place) : Prop :=
  p.position < q.position ∨ p.position = q.position ∧
    (p.inst < q.inst ∨ p.inst = q.inst ∧ p.sitePosition < q.sitePosition)

end Place

/-- The places of an instance of the sub tile at a position. -/
def SubTile.placesOfInstance (s : SubTile) (position inst : Nat) : List Place :=
  s.sites.zipIdx.map fun x => ⟨position, s, inst, x.2, x.1⟩

def SubTile.places (s : SubTile) (position : Nat) : List Place :=
  (List.range s.capacity.total).flatMap (s.placesOfInstance position)

/-- The places of a tile in the order of the walk. -/
def Tile.places (tile : Tile) : List Place :=
  tile.subTiles.zipIdx.flatMap fun x => x.1.places x.2

/-! ## Each place once, in order -/

theorem SubTile.mem_places_iff {s : SubTile} {position : Nat} {p : Place} :
    p ∈ s.places position ↔ p.position = position ∧ p.subTile = s ∧ p.inst < s.capacity.total ∧
      s.sites[p.sitePosition]? = some p.block := by
  simp only [places, placesOfInstance, List.mem_flatMap, List.mem_range, List.mem_map, Prod.exists,
    List.mk_mem_zipIdx_iff_getElem?]
  constructor
  · rintro ⟨inst, hinst, b, k, hk, rfl⟩
    exact ⟨rfl, rfl, hinst, hk⟩
  · rintro ⟨rfl, rfl, hinst, hk⟩
    exact ⟨p.inst, hinst, p.block, p.sitePosition, hk, rfl⟩

theorem Tile.mem_places_iff {tile : Tile} {p : Place} :
    p ∈ tile.places ↔ tile.subTiles[p.position]? = some p.subTile ∧
      p.inst < p.subTile.capacity.total ∧ p.subTile.sites[p.sitePosition]? = some p.block := by
  simp only [places, List.mem_flatMap, Prod.exists, List.mk_mem_zipIdx_iff_getElem?,
    SubTile.mem_places_iff]
  constructor
  · rintro ⟨s, i, hi, rfl, rfl, hinst, hk⟩
    exact ⟨hi, hinst, hk⟩
  · rintro ⟨hi, hinst, hk⟩
    exact ⟨p.subTile, p.position, hi, rfl, rfl, hinst, hk⟩

theorem pairwise_zipIdx {α : Type} (xs : List α) :
    xs.zipIdx.Pairwise (fun x y => x.2 < y.2) := by
  rw [List.pairwise_iff_getElem]
  intro i j hi hj hij
  simp only [List.getElem_zipIdx]
  omega

theorem SubTile.pairwise_places (s : SubTile) (position : Nat) :
    (s.places position).Pairwise Place.Before := by
  unfold places placesOfInstance
  rw [List.pairwise_flatMap]
  constructor
  · intro inst _
    rw [List.pairwise_map]
    refine (pairwise_zipIdx s.sites).imp ?_
    intro x y hxy
    exact Or.inr ⟨rfl, Or.inr ⟨rfl, hxy⟩⟩
  · refine List.pairwise_lt_range.imp ?_
    intro inst inst' hlt p hp q hq
    obtain ⟨x, -, rfl⟩ := List.mem_map.1 hp
    obtain ⟨y, -, rfl⟩ := List.mem_map.1 hq
    exact Or.inr ⟨rfl, Or.inl hlt⟩

theorem Tile.pairwise_places (tile : Tile) : tile.places.Pairwise Place.Before := by
  unfold places
  rw [List.pairwise_flatMap]
  constructor
  · intro x _
    exact x.1.pairwise_places x.2
  · refine (pairwise_zipIdx tile.subTiles).imp ?_
    intro x y hxy p hp q hq
    obtain ⟨hpos, -⟩ := SubTile.mem_places_iff.1 hp
    obtain ⟨hpos', -⟩ := SubTile.mem_places_iff.1 hq
    left
    rw [hpos, hpos']
    exact hxy

theorem Tile.sites_eq (tile : Tile) : tile.sites = tile.places.map Place.toSite := by
  have hone : ∀ (s : SubTile) (position : Nat),
      s.allSites = (s.places position).map Place.toSite := by
    intro s position
    unfold SubTile.allSites SubTile.places SubTile.sitesOfInstance SubTile.placesOfInstance
    simp [List.map_flatMap, Function.comp_def, Place.toSite]
  unfold sites places
  rw [List.map_flatMap]
  conv => lhs; rw [← List.zipIdx_map_fst 0 tile.subTiles, List.flatMap_map]
  congr 1
  funext x
  exact hone x.1 x.2

/-! ## Offsets -/

/-- What the blocks of one instance weigh together. -/
def SubTile.instanceWeight (s : SubTile) (w : BlockId → Nat) : Nat := totalOf (s.sites.map w)

/-- What all places of a tile weigh together. -/
def Tile.weight (tile : Tile) (w : BlockId → Nat) : Nat :=
  totalOf (tile.subTiles.map fun s => s.capacity.total * s.instanceWeight w)

/-- The offset of a place: all instances of the sub tiles before, the instances before of its own
sub tile, and the sites before in its own instance. -/
def Tile.offset (tile : Tile) (w : BlockId → Nat) (p : Place) : Nat :=
  totalOf ((tile.subTiles.take p.position).map fun s => s.capacity.total * s.instanceWeight w) +
    p.inst * p.subTile.instanceWeight w + totalOf ((p.subTile.sites.take p.sitePosition).map w)

def SubTile.weights (s : SubTile) (w : BlockId → Nat) : List Nat :=
  (List.range s.capacity.total).flatMap fun _ => s.sites.map w

theorem startsFrom_map {α : Type} (w : α → Nat) (base : Nat) (xs : List α) :
    startsFrom base (xs.map w) =
      xs.zipIdx.map fun x => base + totalOf ((xs.take x.2).map w) := by
  induction xs generalizing base with
  | nil => rfl
  | cons x rest ih =>
    rw [List.map_cons, startsFrom, ih, List.zipIdx_cons', List.map_cons, List.map_map]
    simp [Function.comp_def, Nat.add_assoc]

theorem startsFrom_flatMap {α : Type} (g : α → List Nat) (base : Nat) (xs : List α) :
    startsFrom base (xs.flatMap g) = xs.zipIdx.flatMap fun x =>
      startsFrom (base + totalOf ((xs.take x.2).map fun y => totalOf (g y))) (g x.1) := by
  induction xs generalizing base with
  | nil => rfl
  | cons x rest ih =>
    rw [List.flatMap_cons, startsFrom_append, ih, List.zipIdx_cons', List.flatMap_cons,
      List.flatMap_map]
    simp [Nat.add_assoc]

theorem totalOf_flatMap_range (ns : List Nat) (n : Nat) :
    totalOf ((List.range n).flatMap fun _ => ns) = n * totalOf ns := by
  induction n with
  | zero => simp
  | succ n ih =>
    rw [List.range_succ, List.flatMap_append, totalOf_append, ih, Nat.succ_mul]
    simp

theorem startsFrom_flatMap_range (ns : List Nat) (base n : Nat) :
    startsFrom base ((List.range n).flatMap fun _ => ns) =
      (List.range n).flatMap fun i => startsFrom (base + i * totalOf ns) ns := by
  induction n with
  | zero => rfl
  | succ n ih =>
    rw [List.range_succ, List.flatMap_append, startsFrom_append, ih, totalOf_flatMap_range,
      List.flatMap_append]
    simp

theorem SubTile.totalOf_weights (s : SubTile) (w : BlockId → Nat) :
    totalOf (s.weights w) = s.capacity.total * s.instanceWeight w :=
  totalOf_flatMap_range _ _

theorem SubTile.map_weight_places (s : SubTile) (position : Nat) (w : BlockId → Nat) :
    ((s.places position).map fun p => w p.block) = s.weights w := by
  unfold places placesOfInstance weights
  rw [List.map_flatMap]
  congr 1
  funext inst
  rw [List.map_map]
  show s.sites.zipIdx.map (w ∘ Prod.fst) = s.sites.map w
  rw [← List.map_map, List.zipIdx_map_fst]

theorem Tile.map_weight_places (tile : Tile) (w : BlockId → Nat) :
    (tile.places.map fun p => w p.block) = tile.subTiles.flatMap fun s => s.weights w := by
  unfold places
  rw [List.map_flatMap]
  simp only [SubTile.map_weight_places]
  conv => rhs; rw [← List.zipIdx_map_fst 0 tile.subTiles, List.flatMap_map]

/-- Counting on from place to place gives every place its offset. -/
theorem Tile.startsFrom_places (tile : Tile) (w : BlockId → Nat) (base : Nat) :
    startsFrom base (tile.places.map fun p => w p.block) =
      tile.places.map fun p => base + tile.offset w p := by
  rw [map_weight_places, startsFrom_flatMap, places, List.map_flatMap]
  congr 1
  funext x
  simp only [SubTile.totalOf_weights]
  rw [SubTile.weights, startsFrom_flatMap_range, SubTile.places, List.map_flatMap]
  congr 1
  funext inst
  rw [startsFrom_map, SubTile.placesOfInstance, List.map_map]
  congr 1
  funext y
  simp only [Function.comp_apply, offset, SubTile.instanceWeight, Nat.add_assoc]

theorem Tile.totalOf_places (tile : Tile) (w : BlockId → Nat) :
    totalOf (tile.places.map fun p => w p.block) = tile.weight w := by
  rw [map_weight_places, weight]
  simp only [← SubTile.totalOf_weights]
  induction tile.subTiles with
  | nil => rfl
  | cons s rest ih => rw [List.flatMap_cons, totalOf_append, ih, List.map_cons, totalOf_cons]

end PinNumbering
