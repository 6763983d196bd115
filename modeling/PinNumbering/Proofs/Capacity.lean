import Mathlib.Data.Set.Card
import PinNumbering.Proofs.Machine.RootPins
/-! # Ranges and their locations

A capacity range stands for the set of locations that it contains, and a range with inverted bounds
for the empty set. The count, the numbering and the test for inverted bounds say so for every range
whose count is a word, which leaves out the range of all words. The comparison of bounds by which
two ranges overlap does not look at the order of the bounds of either. It finds each shared
location, and for upright ranges nothing else; but an inverted range overlaps each range that has
both its bounds, although it has no location to share.

* `CapacityRange.numbering`: the locations in order against the numbers below `total`; the count and
  `relative?` are read off it.
* `CapacityRange.InvertedWithin`: the bounds are in the wrong order and lie in another range.
* `total_le_iff`: counts stay within the limit of the bounds, but for one range.
* `overlaps_iff_meets_or_invertedWithin`: what the comparison of bounds finds.
* `locations_and_overlaps`: all of it, for each range and each pair of ranges.
-/
set_option autoImplicit false

namespace PinNumbering.CapacityRange

/-- The bounds of the first range are in the wrong order, and both are locations of the second. -/
def InvertedWithin (a b : CapacityRange) : Prop :=
  a.isInverted = true ∧ b.contains a.high = true ∧ b.contains a.low = true

instance (a b : CapacityRange) : Decidable (a.InvertedWithin b) :=
  inferInstanceAs (Decidable (_ ∧ _ ∧ _))

/-! ## The locations of a range -/

/-- The locations of a range in ascending order are the numbers from zero up to the count. -/
def numbering (r : CapacityRange) :
    {location // r.contains location = true} ≃o Fin r.total where
  toFun location := ⟨location.1 - r.low, (sub_low_lt_total location.2).1⟩
  invFun inst := ⟨r.low + inst.1, (contains_low_add inst.2).1⟩
  left_inv location := Subtype.ext (sub_low_lt_total location.2).2
  right_inv inst := Fin.ext (contains_low_add inst.2).2
  map_rel_iff' {location location'} := by
    have hlow := (sub_low_lt_total location.2).2
    have hlow' := (sub_low_lt_total location'.2).2
    show location.1 - r.low ≤ location'.1 - r.low ↔ location.1 ≤ location'.1
    omega

theorem relative?_eq_numbering (r : CapacityRange) (location : Nat) :
    r.relative? location = if h : r.contains location = true
      then some (r.numbering ⟨location, h⟩ : Nat) else none := by
  unfold relative?
  by_cases h : r.contains location = true
  · rw [if_pos h, dif_pos h]
    rfl
  · rw [if_neg h, dif_neg h]

theorem encard_contains (r : CapacityRange) :
    Set.encard {location | r.contains location = true} = r.total :=
  calc Set.encard {location | r.contains location = true}
      = ENat.card {location // r.contains location = true} := rfl
    _ = ENat.card (Fin r.total) := ENat.card_congr r.numbering.toEquiv
    _ = r.total := by rw [ENat.card_eq_coe_fintype_card, Fintype.card_fin]

theorem isInverted_iff_total (r : CapacityRange) : r.isInverted = true ↔ r.total = 0 := by
  rw [isInverted_iff, total]
  omega

/-- Where bounds go up to `largest`, so do the counts, except that of the range of all numbers. -/
theorem total_le_iff {r : CapacityRange} {largest : Nat} (h : r.high ≤ largest) :
    r.total ≤ largest ↔ ¬ (r.low = 0 ∧ r.high = largest) := by
  unfold total
  omega

/-! ## Two ranges -/

section Pairs
variable (a b : CapacityRange)

theorem overlaps_comm : a.overlaps b = b.overlaps a := by
  rw [overlaps, overlaps, Bool.and_comm]

/-- An inverted range has no location to share. -/
theorem not_meets_of_isInverted {a b : CapacityRange} (h : a.isInverted = true) :
    ¬ a.Meets b := by
  rw [isInverted_iff] at h
  rw [meets_iff]
  omega

theorem overlaps_and_isInverted_iff :
    a.overlaps b = true ∧ a.isInverted = true ↔ a.InvertedWithin b := by
  simp only [InvertedWithin, overlaps_iff, isInverted_iff, contains_iff]
  omega

theorem overlaps_iff_meets_or_invertedWithin :
    a.overlaps b = true ↔ a.Meets b ∨ a.InvertedWithin b ∨ b.InvertedWithin a := by
  constructor
  · intro h
    by_cases ha : a.isInverted = true
    · exact .inr (.inl ((a.overlaps_and_isInverted_iff b).1 ⟨h, ha⟩))
    by_cases hb : b.isInverted = true
    · rw [overlaps_comm] at h
      exact .inr (.inr ((b.overlaps_and_isInverted_iff a).1 ⟨h, hb⟩))
    rw [isInverted_iff, Nat.not_lt] at ha hb
    exact .inl ((overlaps_iff_meets ha hb).1 h)
  · rintro (hmeets | ha | hb)
    · exact overlaps_of_meets hmeets
    · exact ((a.overlaps_and_isInverted_iff b).2 ha).1
    · rw [overlaps_comm]
      exact ((b.overlaps_and_isInverted_iff a).2 hb).1

/-- The comparison of bounds goes wrong where an inverted range has its bounds in the other. -/
theorem overlaps_iff_meets_iff :
    (a.overlaps b = true ↔ a.Meets b) ↔ ¬ a.InvertedWithin b ∧ ¬ b.InvertedWithin a := by
  rw [overlaps_iff_meets_or_invertedWithin]
  constructor
  · intro h
    constructor
    · intro ha
      exact not_meets_of_isInverted ha.1 (h.1 (.inr (.inl ha)))
    · intro hb
      exact not_meets_of_isInverted hb.1 (h.1 (.inr (.inr hb))).symm
  · rintro ⟨ha, hb⟩
    simp only [ha, hb, or_false]

/-- The comparison of bounds is right whatever the other range only for a single location. -/
theorem forall_overlaps_iff_meets_iff :
    (∀ b : CapacityRange, a.overlaps b = true ↔ a.Meets b) ↔ a.total = 1 := by
  constructor
  · intro h
    -- The range with the bounds of `a` exchanged overlaps `a` in any case.
    have hexchanged := h ⟨a.high, a.low⟩
    simp only [overlaps_iff, meets_iff] at hexchanged
    unfold total
    omega
  · intro h b
    rw [overlaps_iff, meets_iff]
    unfold total at h
    omega

end Pairs

/-! ## Both -/

/-- A count of a machine that is the number of locations is the count with natural numbers. -/
theorem eq_total_of_encard {r : CapacityRange} {n : Nat}
    (h : Set.encard {location | r.contains location = true} = n) : n = r.total := by
  rw [encard_contains] at h
  exact ENat.natCast_inj.1 h.symm

/-- The count of a machine, the numbering and the test for inverted bounds of a range are those of
the set of its locations, just if the count fits into a word; of the ranges between words only that
of all words is excluded. Two ranges overlap if they meet, and besides only if one is inverted with
both bounds in the other; the comparison of bounds is right about just the other pairs. So an
inverted range, which meets nothing, overlaps the ranges that have its bounds, and a range about
which the comparison is right whatever the other range has a single location. -/
theorem locations_and_overlaps {ε : Type} (m : Machine) (r other : CapacityRange) :
    ((∃ n, (m.total r : Run ε Nat) = .ok n ∧
      Set.encard {location | r.contains location = true} = n ∧
      (∃ numbering : {location // r.contains location = true} ≃o Fin n, ∀ location,
        r.relative? location = if h : r.contains location = true
          then some (numbering ⟨location, h⟩ : Nat) else none) ∧
      (r.isInverted = true ↔ n = 0)) ↔ r.total < wordLimit) ∧
    (wordLimit ≤ r.high ∨ (r.total < wordLimit ↔ ¬ (r.low = 0 ∧ r.high + 1 = wordLimit))) ∧
    r.overlaps other = other.overlaps r ∧
    (r.overlaps other = true ↔
      r.Meets other ∨ r.InvertedWithin other ∨ other.InvertedWithin r) ∧
    ((r.overlaps other = true ↔ r.Meets other) ↔
      ¬ r.InvertedWithin other ∧ ¬ other.InvertedWithin r) ∧
    (r.overlaps other = true ∧ r.isInverted = true ↔ r.InvertedWithin other) ∧
    ((∀ b, r.overlaps b = true ↔ r.Meets b) ↔ r.total = 1) := by
  refine ⟨⟨?_, ?_⟩, ?_, r.overlaps_comm other, r.overlaps_iff_meets_or_invertedWithin other,
    r.overlaps_iff_meets_iff other, r.overlaps_and_isInverted_iff other,
    r.forall_overlaps_iff_meets_iff⟩
  · rintro ⟨n, htotal, hcount, -⟩
    rw [← eq_total_of_encard hcount]
    exact Machine.total_lt htotal
  · intro hfits
    exact ⟨r.total, m.total_eq hfits, r.encard_contains,
      ⟨r.numbering, r.relative?_eq_numbering⟩, r.isInverted_iff_total⟩
  · rcases Nat.lt_or_ge r.high wordLimit with hhigh | hhigh
    · right
      have hle := total_le_iff (Nat.le_sub_one_of_lt hhigh)
      have hlimit : 0 < wordLimit := by decide
      omega
    · exact .inl hhigh

/-- The range from 3 down to 0 has no location, and overlaps the range from 0 to 5. The range of all
words is upright and holds every word; a machine that checks stops at its count, and one that wraps
arrives at zero. -/
theorem uncounted_and_overlapping :
    (⟨3, 0⟩ : CapacityRange).total = 0 ∧
    (⟨3, 0⟩ : CapacityRange).overlaps ⟨0, 5⟩ = true ∧
    (¬ ∃ location, (⟨3, 0⟩ : CapacityRange).contains location = true ∧
      (⟨0, 5⟩ : CapacityRange).contains location = true) ∧
    (¬ ∀ a b : CapacityRange, a.overlaps b = true ↔
      ∃ location, a.contains location = true ∧ b.contains location = true) ∧
    (⟨0, wordLimit - 1⟩ : CapacityRange).isInverted = false ∧
    (∀ word < wordLimit, (⟨0, wordLimit - 1⟩ : CapacityRange).contains word = true) ∧
    (Machine.checking.total ⟨0, wordLimit - 1⟩ : Run Empty Nat) = Run.overflow ∧
    (Machine.wrapping.total ⟨0, wordLimit - 1⟩ : Run Empty Nat) = .ok 0 := by
  have hmeets : ¬ (⟨3, 0⟩ : CapacityRange).Meets ⟨0, 5⟩ := by decide
  refine ⟨rfl, rfl, hmeets, ?_, by decide, ?_, rfl, rfl⟩
  · intro hall
    exact hmeets ((hall ⟨3, 0⟩ ⟨0, 5⟩).1 rfl)
  · intro word hword
    rw [contains_iff]
    exact ⟨Nat.zero_le word, Nat.le_sub_one_of_lt hword⟩

end PinNumbering.CapacityRange
