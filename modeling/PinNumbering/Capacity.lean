/-! # Capacity ranges

The instances of a sub tile occupy a closed range of capacity locations, numbered across the whole
tile. A range whose bounds are inverted is kept as it is written and holds no location.

* `total`, `contains` and `relative?`: how many locations there are, which, and their numbers.
* `overlaps`: the comparison of bounds by which two ranges collide.
* `Meets`: that they share a location, which for upright ranges is the same.
-/
set_option autoImplicit false

namespace PinNumbering

/-- The closed range `[low, high]` of capacity locations. -/
structure CapacityRange where
  /-- First location. -/
  low : Nat
  /-- Last location. -/
  high : Nat
  deriving DecidableEq, Repr, Inhabited

namespace CapacityRange

/-- The bounds are in the wrong order. -/
def isInverted (r : CapacityRange) : Bool := decide (r.high < r.low)

/-- The number of locations; an inverted range has none. The whole range of a word has one location
more than a word holds, and `Machine.total` says what a machine makes of it. -/
def total (r : CapacityRange) : Nat := r.high + 1 - r.low

/-- The location lies between the bounds. -/
def contains (r : CapacityRange) (location : Nat) : Bool :=
  decide (r.low ≤ location) && decide (location ≤ r.high)

/-- The number of a location within the range, counted from zero. -/
def relative? (r : CapacityRange) (location : Nat) : Option Nat :=
  if r.contains location then some (location - r.low) else none

/-- Each range starts no later than the other ends. Upright ranges that do so share a location. -/
def overlaps (a b : CapacityRange) : Bool :=
  decide (a.low ≤ b.high) && decide (b.low ≤ a.high)

/-- Some location lies in both ranges. -/
def Meets (a b : CapacityRange) : Prop :=
  ∃ location, a.contains location = true ∧ b.contains location = true

/-- The range as it is printed in messages. -/
def text (r : CapacityRange) : String := "[" ++ toString r.low ++ ", " ++ toString r.high ++ "]"

@[simp] theorem contains_iff (r : CapacityRange) (location : Nat) :
    r.contains location = true ↔ r.low ≤ location ∧ location ≤ r.high := by
  simp [contains]

@[simp] theorem isInverted_iff (r : CapacityRange) : r.isInverted = true ↔ r.high < r.low := by
  simp [isInverted]

@[simp] theorem overlaps_iff (a b : CapacityRange) :
    a.overlaps b = true ↔ a.low ≤ b.high ∧ b.low ≤ a.high := by
  simp [overlaps]

theorem total_pos_iff (r : CapacityRange) : 0 < r.total ↔ r.low ≤ r.high := by
  rw [total]; omega

theorem sub_low_lt_total {r : CapacityRange} {location : Nat} (h : r.contains location = true) :
    location - r.low < r.total ∧ r.low + (location - r.low) = location := by
  rw [contains_iff] at h
  unfold total
  omega

theorem contains_low_add {r : CapacityRange} {inst : Nat} (h : inst < r.total) :
    r.contains (r.low + inst) = true ∧ r.low + inst - r.low = inst := by
  unfold total at h
  rw [contains_iff]
  omega

/-! ## Two ranges -/

/-- Ranges meet if both have begun where the first of them ends. -/
theorem meets_iff (a b : CapacityRange) : a.Meets b ↔ max a.low b.low ≤ min a.high b.high := by
  unfold Meets
  simp only [contains_iff]
  constructor
  · rintro ⟨location, ha, hb⟩
    omega
  · intro h
    exact ⟨max a.low b.low, by omega, by omega⟩

instance (a b : CapacityRange) : Decidable (a.Meets b) :=
  decidable_of_decidable_of_iff (meets_iff a b).symm

theorem Meets.symm {a b : CapacityRange} (h : a.Meets b) : b.Meets a := by
  obtain ⟨location, ha, hb⟩ := h
  exact ⟨location, hb, ha⟩

theorem overlaps_of_meets {a b : CapacityRange} (h : a.Meets b) : a.overlaps b = true := by
  rw [meets_iff] at h
  rw [overlaps_iff]
  omega

theorem overlaps_iff_meets {a b : CapacityRange} (ha : a.low ≤ a.high) (hb : b.low ≤ b.high) :
    a.overlaps b = true ↔ a.Meets b := by
  rw [overlaps_iff, meets_iff]
  omega

end CapacityRange

end PinNumbering
