import PinNumbering.Proofs.Machine.Consistency
/-! # Tables that a machine accepts

Tables that a machine has accepted are consistent and their root pins fit. A machine that wraps
would miss a sum of root pins past the limit, but the tables list their root pins, and a list in
memory has fewer entries than there are words.

* `Machine.Accepts`: tables in memory that pass the checks of a machine.
* `Machine.Accepts.rootsFit`, `Machine.Accepts.consistent`: what that says about them.
-/
set_option autoImplicit false

namespace PinNumbering

/-- The machine accepts the tables. Their ranges end at words, and the root pins that a tile lists
are fewer than there are words, as they are in memory. -/
structure Machine.Accepts (m : Machine) (T : Tables) : Prop where
  ranges : ∀ tile ∈ T.tiles, ∀ s ∈ tile.subTiles, s.capacity.high < wordLimit
  memory : ∀ tile ∈ T.tiles, totalOf (tile.subTiles.map fun s => s.rootPins.length) < wordLimit
  checks : m.validate T = .ok ()

namespace Machine
variable {ε : Type} {m : Machine} {T : Tables} {tile : Tile}

/-- Just the range of all words has no number of locations. Nothing is divided by that number. -/
theorem total_lt_of_remainder {r : CapacityRange} (hhigh : r.high < wordLimit)
    {total pins rest : Nat}
    (htotal : (m.total r : Run ε Nat) = .ok total)
    (hrest : (remainder pins total : Run ε Nat) = .ok rest) : r.total < wordLimit := by
  rcases Nat.lt_or_ge r.total wordLimit with hlt | hge
  · exact hlt
  · have hupright : ¬ r.high < r.low := by
      rw [CapacityRange.total] at hge
      have hpos : 0 < wordLimit := by decide
      omega
    have hall : r.high - r.low + 1 = wordLimit := by
      rw [CapacityRange.total] at hge
      omega
    rw [Machine.total, if_neg hupright, add, hall] at htotal
    cases m with
    | checking => cases htotal
    | wrapping =>
      -- The number of locations wraps to zero, and there is no remainder by it.
      cases htotal
      cases hrest

theorem validateSubTile_of_countSubTiles {subTiles : List (SubTile × Nat)} {computed last : Nat}
    (h : subTiles.foldlM (m.countSubTile T tile) computed = .ok last) :
    ∀ s ∈ subTiles, m.validateSubTile T tile s.2 s.1 = .ok () := by
  induction subTiles generalizing computed with
  | nil => simp
  | cons s rest ih =>
    rw [List.foldlM_cons, bind_eq_ok_iff] at h
    obtain ⟨next, hnext, h⟩ := h
    obtain ⟨_, hs, -⟩ := (bind_eq_ok_iff ..).1 hnext
    exact List.forall_mem_cons.2 ⟨hs, ih h⟩

theorem total_lt_of_validateSubTile {position : Nat} {s : SubTile}
    (hhigh : s.capacity.high < wordLimit) (h : m.validateSubTile T tile position s = .ok ()) :
    s.capacity.total < wordLimit ∧ s.rootPins.length = s.numPins := by
  obtain ⟨_, -, h⟩ := (bind_eq_ok_iff ..).1 h
  obtain ⟨_, -, h⟩ := (bind_eq_ok_iff ..).1 h
  obtain ⟨total, htotal, h⟩ := (bind_eq_ok_iff ..).1 h
  obtain ⟨rest, hrest, h⟩ := (bind_eq_ok_iff ..).1 h
  obtain ⟨_, -, h⟩ := (bind_eq_ok_iff ..).1 h
  obtain ⟨_, hlength, -⟩ := (bind_eq_ok_iff ..).1 h
  rw [Run.of_eq_ok_iff, TableFault.unless_eq_ok_iff] at hlength
  exact ⟨total_lt_of_remainder hhigh htotal hrest, hlength⟩

namespace Accepts
variable (h : m.Accepts T)
include h

theorem rootsFit : T.RootsFit := by
  intro tile htile
  obtain ⟨computed, hcount⟩ := countSubTiles_of_validate T h.checks htile
  have hsubTile : ∀ s ∈ tile.subTiles,
      s.capacity.total < wordLimit ∧ s.rootPins.length = s.numPins := by
    intro s hs
    obtain ⟨position, hposition⟩ := List.getElem?_of_mem hs
    exact total_lt_of_validateSubTile (h.ranges tile htile s hs)
      (validateSubTile_of_countSubTiles hcount (s, position)
        (List.mk_mem_zipIdx_iff_getElem?.2 hposition))
  refine ⟨fun s hs => (hsubTile s hs).1, ?_⟩
  -- A sum of counts could have wrapped on the way, but not one of lengths of lists in memory.
  have hlists : tile.subTiles.map SubTile.numPins = tile.subTiles.map fun s => s.rootPins.length :=
    List.map_congr_left fun s hs => (hsubTile s hs).2.symm
  rw [hlists, Nat.zero_add]
  exact h.memory tile htile

theorem validate_eq : T.validate = .ok () := by
  have hchecks := h.checks
  rwa [(faithful_validate T fun h => h).eq_of_fits h.rootsFit, Run.of_eq_ok_iff] at hchecks

theorem consistent : T.Consistent := T.validate_eq_ok_iff.1 h.validate_eq

variable {t : TileId} (ht : T.tile? t = some tile)
include ht

theorem tile_consistent : tile.Consistent T := (h.consistent.tile t tile ht).2

theorem tile_rootsFit : tile.RootsFit := h.rootsFit tile (List.mem_of_getElem? ht)

end Accepts

/-- A machine that checks would stop at more root pins than there are words. That lists are in memory
is a condition on machines that wrap. -/
theorem accepts_of_checking (T : Tables)
    (hranges : ∀ tile ∈ T.tiles, ∀ s ∈ tile.subTiles, s.capacity.high < wordLimit)
    (h : checking.validate T = .ok ()) : checking.Accepts T where
  ranges := hranges
  memory tile htile := by
    obtain ⟨hT, hroots⟩ := (checking_validate_eq_ok_iff T).1 h
    obtain ⟨t, ht⟩ := List.getElem?_of_mem htile
    obtain ⟨-, hconsistent⟩ := (T.validate_eq_ok_iff.1 hT).tile t tile ht
    have hlists : (tile.subTiles.map fun s => s.rootPins.length) =
        tile.subTiles.map SubTile.numPins := by
      refine List.map_congr_left fun s hs => ?_
      obtain ⟨i, hi⟩ := List.getElem?_of_mem hs
      exact (hconsistent.subTile i s hi).rootPins_length
    have hpins := (hroots tile htile).rootPins
    rwa [Nat.zero_add, ← hlists] at hpins
  checks := h

end Machine

theorem Samples.heterogeneous_accepted (m : Machine) : m.Accepts heterogeneous where
  ranges := by decide
  memory := by decide
  checks := by cases m <;> rfl

end PinNumbering
