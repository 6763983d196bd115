import PinNumbering.Proofs.EndToEnd
import PinNumbering.Proofs.Tables.Consistent
import PinNumbering.RootPin
/-! # The owner of a root pin

The root pins of the sub tiles of a tile are laid end to end, and within a sub tile those of its
instances. A root pin of a consistent tile is therefore the same thing as a position among the sub
tiles, an instance of that sub tile and a pin of that instance.

* `Tile.pinsBefore`: where the root pins of a sub tile start.
* `Tile.Consistent.rootPin?_eq_some_iff`: what a root pin resolves to.
* `Tile.Consistent.exists_rootPin?_iff`: every number below the number of root pins resolves.
* `Tile.findWithBase?_eq_some_iff`, `_eq_none_iff`: the searches that count the pins they pass.
-/
set_option autoImplicit false

namespace PinNumbering

/-- The number of root pins of the sub tiles before a position. -/
def Tile.pinsBefore (tile : Tile) (position : Nat) : Nat :=
  totalOf ((tile.subTiles.take position).map SubTile.numPins)

theorem Tile.pinsBefore_eq (tile : Tile) (i : Nat) :
    tile.pinsBefore i = totalOf ((tile.subTiles.map SubTile.numPins).take i) := by
  rw [pinsBefore, List.map_take]

theorem Tile.getElem?_map_numPins {tile : Tile} {i : Nat} {s : SubTile}
    (h : tile.subTiles[i]? = some s) :
    (tile.subTiles.map SubTile.numPins)[i]? = some s.numPins := by
  rw [List.getElem?_map, h, Option.map_some]

theorem Tile.position_unique {tile : Tile} {i j a b : Nat} {s s' : SubTile}
    (hi : tile.subTiles[i]? = some s) (hj : tile.subTiles[j]? = some s') (ha : a < s.numPins)
    (hb : b < s'.numPins) (h : tile.pinsBefore i + a = tile.pinsBefore j + b) : i = j := by
  rw [pinsBefore_eq, pinsBefore_eq] at h
  exact run_unique (getElem?_map_numPins hi) (getElem?_map_numPins hj) ha hb h

/-! ## Searches -/

theorem SubTile.ownerAmong?_eq_some_iff {subTiles : List SubTile} {pin offset : Nat}
    {s : SubTile} :
    ownerAmong? subTiles pin = some (s, offset) ↔
      ∃ i, subTiles[i]? = some s ∧ offset < s.numPins ∧ 0 < s.pinsPerInstance ∧
        pin = totalOf ((subTiles.take i).map numPins) + offset := by
  induction subTiles generalizing pin with
  | nil => simp [ownerAmong?]
  | cons first rest ih =>
    rw [ownerAmong?]
    by_cases hpin : pin < first.numPins
    · rw [if_pos hpin]
      constructor
      · intro h
        by_cases hpos : 0 < first.pinsPerInstance
        · rw [if_pos hpos] at h
          cases h
          exact ⟨0, rfl, hpin, hpos, by simp⟩
        · rw [if_neg hpos] at h
          cases h
      · rintro ⟨i, hi, hoffset, hpos, rfl⟩
        cases i with
        | zero =>
          cases hi
          simp [hpos]
        | succ i =>
          rw [List.take_succ_cons, List.map_cons, totalOf_cons] at hpin
          omega
    · rw [if_neg hpin, ih]
      constructor
      · rintro ⟨i, hi, hoffset, hpos, h⟩
        refine ⟨i + 1, hi, hoffset, hpos, ?_⟩
        rw [List.take_succ_cons, List.map_cons, totalOf_cons]
        omega
      · rintro ⟨i, hi, hoffset, hpos, h⟩
        cases i with
        | zero =>
          cases hi
          simp only [List.take_zero, List.map_nil, totalOf_nil] at h
          omega
        | succ i =>
          rw [List.take_succ_cons, List.map_cons, totalOf_cons] at h
          exact ⟨i, hi, hoffset, hpos, by omega⟩

theorem SubTile.findWithBaseAmong?_eq_some_iff {p : SubTile → Bool} {subTiles : List SubTile}
    {start base : Nat} {s : SubTile} :
    findWithBaseAmong? p start subTiles = some (base, s) ↔
      ∃ i, subTiles[i]? = some s ∧ p s = true ∧ (∀ x ∈ subTiles.take i, p x = false) ∧
        base = start + totalOf ((subTiles.take i).map numPins) := by
  induction subTiles generalizing start with
  | nil => simp [findWithBaseAmong?]
  | cons first rest ih =>
    rw [findWithBaseAmong?]
    by_cases hp : p first = true
    · rw [if_pos hp]
      constructor
      · intro h
        cases h
        exact ⟨0, rfl, hp, by simp, by simp⟩
      · rintro ⟨i, hi, hs, hbefore, rfl⟩
        cases i with
        | zero =>
          cases hi
          simp
        | succ i =>
          have hfirst := hbefore first (by rw [List.take_succ_cons]; exact List.mem_cons_self)
          rw [hp] at hfirst
          cases hfirst
    · rw [if_neg hp, ih]
      constructor
      · rintro ⟨i, hi, hs, hbefore, hbase⟩
        refine ⟨i + 1, hi, hs, ?_, ?_⟩
        · rw [List.take_succ_cons, List.forall_mem_cons]
          exact ⟨Bool.eq_false_iff.2 hp, hbefore⟩
        · rw [List.take_succ_cons, List.map_cons, totalOf_cons]
          omega
      · rintro ⟨i, hi, hs, hbefore, hbase⟩
        cases i with
        | zero =>
          cases hi
          exact absurd hs hp
        | succ i =>
          rw [List.take_succ_cons, List.forall_mem_cons] at hbefore
          rw [List.take_succ_cons, List.map_cons, totalOf_cons] at hbase
          exact ⟨i, hi, hs, hbefore.2, by omega⟩

theorem Tile.findWithBase?_eq_some_iff {tile : Tile} {p : SubTile → Bool} {base : Nat}
    {s : SubTile} :
    tile.findWithBase? p = some (base, s) ↔
      ∃ i, tile.subTiles[i]? = some s ∧ p s = true ∧ (∀ x ∈ tile.subTiles.take i, p x = false) ∧
        base = tile.pinsBefore i := by
  rw [findWithBase?, SubTile.findWithBaseAmong?_eq_some_iff]
  simp only [Nat.zero_add, pinsBefore]

theorem SubTile.findWithBaseAmong?_eq_none_iff {p : SubTile → Bool} {subTiles : List SubTile}
    {start : Nat} :
    findWithBaseAmong? p start subTiles = none ↔ ∀ s ∈ subTiles, p s = false := by
  induction subTiles generalizing start with
  | nil => simp [findWithBaseAmong?]
  | cons first rest ih =>
    rw [findWithBaseAmong?, List.forall_mem_cons]
    by_cases hp : p first = true
    · simp [hp]
    · rw [if_neg hp, ih]
      simp [hp]

theorem Tile.findWithBase?_eq_none_iff {tile : Tile} {p : SubTile → Bool} :
    tile.findWithBase? p = none ↔ ∀ s ∈ tile.subTiles, p s = false :=
  SubTile.findWithBaseAmong?_eq_none_iff

/-! ## Instances -/

theorem div_mod_of_lt (inst : Nat) {k n : Nat} (hk : k < n) :
    (inst * n + k) / n = inst ∧ (inst * n + k) % n = k := by
  have hn : 0 < n := by omega
  constructor
  · rw [Nat.add_comm, Nat.add_mul_div_right _ _ hn, Nat.div_eq_of_lt hk, Nat.zero_add]
  · rw [Nat.add_comm, Nat.add_mul_mod_self_right, Nat.mod_eq_of_lt hk]

theorem mul_add_lt_mul {inst total k n : Nat} (hinst : inst < total) (hk : k < n) :
    inst * n + k < total * n := by
  have hnext : (inst + 1) * n ≤ total * n := Nat.mul_le_mul_right n hinst
  rw [Nat.succ_mul] at hnext
  omega

theorem mul_add_lt_mul_add_iff {inst inst' k k' n : Nat} (hk : k < n) (hk' : k' < n) :
    inst * n + k < inst' * n + k' ↔ inst < inst' ∨ inst = inst' ∧ k < k' := by
  rcases Nat.lt_trichotomy inst inst' with hlt | rfl | hgt
  · have := mul_add_lt_mul hlt hk
    omega
  · omega
  · have := mul_add_lt_mul hgt hk'
    omega

section Consistent
variable {T : Tables} {tile : Tile}

theorem SubTile.Consistent.numPins_eq {position : Nat} {s : SubTile}
    (h : s.Consistent T tile position) : s.numPins = s.capacity.total * s.pinsPerInstance := by
  rw [pinsPerInstance, Nat.mul_div_cancel' h.total_dvd]

theorem SubTile.Consistent.pin_lt_numPins {position : Nat} {s : SubTile}
    (h : s.Consistent T tile position) {inst k : Nat} (hinst : inst < s.capacity.total)
    (hk : k < s.pinsPerInstance) : inst * s.pinsPerInstance + k < s.numPins := by
  rw [h.numPins_eq]
  exact mul_add_lt_mul hinst hk

theorem Tile.rootPin?_eq_some_iff_owner? {pin : Nat} {root : RootPin} :
    tile.rootPin? pin = some root ↔ ∃ offset, tile.owner? pin = some (root.subTile, offset) ∧
      root.inst = offset / root.subTile.pinsPerInstance ∧
      root.instancePin = offset % root.subTile.pinsPerInstance := by
  unfold rootPin?
  cases howner : tile.owner? pin with
  | none => simp
  | some owner =>
    obtain ⟨s, offset⟩ := owner
    obtain ⟨s', inst, k⟩ := root
    simp only [Option.bind_eq_bind, Option.bind_some, Option.pure_def, Option.some.injEq,
      RootPin.mk.injEq, Prod.mk.injEq]
    constructor
    · rintro ⟨rfl, rfl, rfl⟩
      exact ⟨offset, ⟨rfl, rfl⟩, rfl, rfl⟩
    · rintro ⟨_, ⟨rfl, rfl⟩, rfl, rfl⟩
      exact ⟨rfl, rfl, rfl⟩

/-- Past the pins of all its sub tiles a tile has no root pin, whatever else its tables say. -/
theorem Tile.rootPin?_eq_none_of_le {pin : Nat}
    (h : totalOf (tile.subTiles.map SubTile.numPins) ≤ pin) : tile.rootPin? pin = none := by
  rw [Option.eq_none_iff_forall_ne_some]
  intro root hroot
  obtain ⟨offset, howner, -, -⟩ := rootPin?_eq_some_iff_owner?.1 hroot
  obtain ⟨i, hi, hoffset, -, hpin⟩ := SubTile.ownerAmong?_eq_some_iff.1 howner
  have hend := run_le_totalOf (getElem?_map_numPins hi)
  rw [← pinsBefore_eq, pinsBefore] at hend
  omega

/-- A root pin is a pin of an instance of a sub tile, counted on from the sub tiles before. -/
theorem Tile.Consistent.rootPin?_eq_some_iff (h : tile.Consistent T) {pin : Nat}
    {root : RootPin} :
    tile.rootPin? pin = some root ↔
      ∃ i, tile.subTiles[i]? = some root.subTile ∧ root.inst < root.subTile.capacity.total ∧
        root.instancePin < root.subTile.pinsPerInstance ∧
        pin = tile.pinsBefore i +
          (root.inst * root.subTile.pinsPerInstance + root.instancePin) := by
  simp only [rootPin?_eq_some_iff_owner?, Tile.owner?, SubTile.ownerAmong?_eq_some_iff]
  constructor
  · rintro ⟨offset, ⟨i, hi, hoffset, hpos, hpin⟩, hinst, hk⟩
    have hnumPins := (h.subTile i _ hi).numPins_eq
    refine ⟨i, hi, ?_, ?_, ?_⟩
    · rw [hinst]
      apply Nat.div_lt_of_lt_mul
      rw [Nat.mul_comm, ← hnumPins]
      exact hoffset
    · rw [hk]
      exact Nat.mod_lt _ hpos
    · rw [hinst, hk, Nat.div_add_mod', pinsBefore]
      exact hpin
  · rintro ⟨i, hi, hinst, hk, hpin⟩
    have hoffset := (h.subTile i _ hi).pin_lt_numPins hinst hk
    obtain ⟨hdiv, hmod⟩ := div_mod_of_lt root.inst hk
    exact ⟨_, ⟨i, hi, hoffset, by omega, hpin⟩, hdiv.symm, hmod.symm⟩

theorem Tile.Consistent.exists_rootPin?_iff (h : tile.Consistent T) (pin : Nat) :
    (∃ root, tile.rootPin? pin = some root) ↔ pin < tile.numPins := by
  rw [← h.numPins_eq]
  constructor
  · rintro ⟨root, hroot⟩
    obtain ⟨i, hi, hinst, hk, hpin⟩ := h.rootPin?_eq_some_iff.1 hroot
    have hoffset := (h.subTile i _ hi).pin_lt_numPins hinst hk
    have hend := run_le_totalOf (Tile.getElem?_map_numPins hi)
    rw [← Tile.pinsBefore_eq] at hend
    omega
  · intro hpin
    obtain ⟨i, n, offset, hi, hoffset, hpin⟩ := exists_run_of_lt hpin
    rw [List.getElem?_map] at hi
    obtain ⟨s, hs, rfl⟩ := Option.map_eq_some_iff.1 hi
    have hnumPins := (h.subTile i s hs).numPins_eq
    have hpos : 0 < s.pinsPerInstance := by
      apply Nat.pos_of_ne_zero
      intro hzero
      rw [hnumPins, hzero] at hoffset
      omega
    refine ⟨⟨s, offset / s.pinsPerInstance, offset % s.pinsPerInstance⟩, ?_⟩
    rw [Tile.rootPin?_eq_some_iff_owner?]
    refine ⟨offset, ?_, rfl, rfl⟩
    rw [Tile.owner?, SubTile.ownerAmong?_eq_some_iff]
    exact ⟨i, hs, hoffset, hpos, by rw [hpin, List.map_take]⟩

theorem Tile.Consistent.rootPin?_eq_none_iff (h : tile.Consistent T) (pin : Nat) :
    tile.rootPin? pin = none ↔ tile.numPins ≤ pin := by
  rw [Option.eq_none_iff_forall_ne_some, ← Nat.not_lt, ← h.exists_rootPin?_iff]
  simp

end Consistent

end PinNumbering
