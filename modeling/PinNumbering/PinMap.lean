import PinNumbering.KeyMap
/-! # One-to-one pin maps

A `PinMap` relates pins of one numbering (left) to pins of another (right), each pin at most once
on its side. A new pair displaces every pair that shares one of its sides, so the map stays
one-to-one whatever is inserted.

* `right?` and `left?`: the two directions of look-up.
* `right?_eq_some_iff`, `left?_eq_some_iff` and `right?_eq_some_iff_left?`: both directions read the
  same set of pairs.
* `mem_pairs_insert`: which pairs an insertion leaves.
-/
set_option autoImplicit false

namespace PinNumbering

/-- Pairs of pins, ascending by the left pin, of which no two share a side. -/
structure PinMap where
  /-- The pairs in ascending order of their left pins. -/
  pairs : List (Nat × Nat)
  /-- Every left pin is greater than the left pins before it. -/
  ascending : pairs.Pairwise (fun a b => a.1 < b.1)
  /-- No right pin occurs twice. -/
  rightsDistinct : pairs.Pairwise (fun a b => a.2 ≠ b.2)
  deriving DecidableEq, Repr

theorem rightsDistinct_insertEntry (left right : Nat) :
    ∀ {pairs : List (Nat × Nat)}, pairs.Pairwise (fun a b => a.2 ≠ b.2) →
      (∀ pair ∈ pairs, pair.2 ≠ right) →
      (insertEntry left right pairs).Pairwise (fun a b => a.2 ≠ b.2)
  | [], _, _ => by simp [insertEntry]
  | (l, r) :: rest, h, hright => by
      obtain ⟨hr, hrest⟩ := List.pairwise_cons.1 h
      have hnew : ∀ pair ∈ rest, pair.2 ≠ right := fun pair hp =>
        hright pair (List.mem_cons_of_mem _ hp)
      rw [insertEntry]
      split
      next => exact List.pairwise_cons.2 ⟨fun pair hp => (hright pair hp).symm, h⟩
      next =>
        split
        next => exact List.pairwise_cons.2 ⟨fun pair hp => (hnew pair hp).symm, hrest⟩
        next =>
          refine List.pairwise_cons.2
            ⟨fun pair hp => ?_, rightsDistinct_insertEntry left right hrest hnew⟩
          rcases mem_insertEntry hp with rfl | hp
          · exact hright (l, r) List.mem_cons_self
          · exact hr pair hp

namespace PinMap

/-- The map without pairs. -/
def empty : PinMap := ⟨[], List.Pairwise.nil, List.Pairwise.nil⟩

instance : Inhabited PinMap := ⟨empty⟩

/-- The number of pairs. -/
def size (m : PinMap) : Nat := m.pairs.length

/-- The right pin related to a left pin. -/
def right? (m : PinMap) (left : Nat) : Option Nat :=
  (m.pairs.find? fun pair => pair.1 == left).map Prod.snd

/-- The left pin related to a right pin. -/
def left? (m : PinMap) (right : Nat) : Option Nat :=
  (m.pairs.find? fun pair => pair.2 == right).map Prod.fst

/-- The pairs that share no side with a given pair. -/
def without (m : PinMap) (left right : Nat) : List (Nat × Nat) :=
  m.pairs.filter fun pair => pair.1 != left && pair.2 != right

/-- Relates two pins, after dropping the pairs that share a side with the new one. -/
def insert (m : PinMap) (left right : Nat) : PinMap where
  pairs := insertEntry left right (m.without left right)
  ascending := ascending_insertEntry left right (m.ascending.filter _)
  rightsDistinct :=
    rightsDistinct_insertEntry left right (m.rightsDistinct.filter _) fun pair hp => by
      have := (List.mem_filter.1 hp).2
      simp only [Bool.and_eq_true, bne_iff_ne] at this
      exact this.2

/-! ## Both directions read the same pairs -/

theorem find?_eq_some_iff_mem {f : Nat × Nat → Nat} {key : Nat} {pair : Nat × Nat} :
    ∀ {pairs : List (Nat × Nat)}, pairs.Pairwise (fun a b => f a ≠ f b) →
      (pairs.find? (fun p => f p == key) = some pair ↔ pair ∈ pairs ∧ f pair = key)
  | [], _ => by simp
  | p :: rest, h => by
      obtain ⟨hp, hrest⟩ := List.pairwise_cons.1 h
      by_cases hkey : f p = key
      · have : ∀ q ∈ rest, f q ≠ key := fun q hq e => hp q hq (hkey.trans e.symm)
        simp only [List.find?_cons, hkey, beq_self_eq_true, Option.some.injEq, List.mem_cons]
        constructor
        · rintro rfl; exact ⟨Or.inl rfl, hkey⟩
        · rintro ⟨rfl | hq, hf⟩
          · rfl
          · exact absurd hf (this _ hq)
      · rw [List.find?_cons_of_neg (by simpa using hkey), find?_eq_some_iff_mem hrest]
        constructor
        · rintro ⟨hm, hf⟩; exact ⟨List.mem_cons_of_mem _ hm, hf⟩
        · rintro ⟨hm, hf⟩
          rcases List.mem_cons.1 hm with rfl | hm
          · exact absurd hf hkey
          · exact ⟨hm, hf⟩

theorem right?_eq_some_iff (m : PinMap) (left right : Nat) :
    m.right? left = some right ↔ (left, right) ∈ m.pairs := by
  have h : m.pairs.Pairwise (fun a b => a.1 ≠ b.1) := m.ascending.imp Nat.ne_of_lt
  simp only [right?, Option.map_eq_some_iff, find?_eq_some_iff_mem h]
  constructor
  · rintro ⟨⟨l, r⟩, ⟨hm, rfl⟩, rfl⟩; exact hm
  · intro hm; exact ⟨(left, right), ⟨hm, rfl⟩, rfl⟩

theorem left?_eq_some_iff (m : PinMap) (left right : Nat) :
    m.left? right = some left ↔ (left, right) ∈ m.pairs := by
  simp only [left?, Option.map_eq_some_iff, find?_eq_some_iff_mem m.rightsDistinct]
  constructor
  · rintro ⟨⟨l, r⟩, ⟨hm, rfl⟩, rfl⟩; exact hm
  · intro hm; exact ⟨(left, right), ⟨hm, rfl⟩, rfl⟩

/-- A pin leads to its partner exactly when the partner leads back. -/
theorem right?_eq_some_iff_left? (m : PinMap) (left right : Nat) :
    m.right? left = some right ↔ m.left? right = some left :=
  (m.right?_eq_some_iff left right).trans (m.left?_eq_some_iff left right).symm

/-! ## Pairs after an insertion -/

theorem eq_of_mem_pairs_iff {m n : PinMap} (h : ∀ pair, pair ∈ m.pairs ↔ pair ∈ n.pairs) :
    m = n := by
  have hpairs : m.pairs = n.pairs := eq_of_ascending_of_mem_iff m.ascending n.ascending h
  cases m
  cases n
  cases hpairs
  rfl

theorem mem_insertEntry_of_new {left right : Nat} {pair : Nat × Nat} :
    ∀ {pairs : List (Nat × Nat)}, (∀ q ∈ pairs, q.1 ≠ left) →
      (pair ∈ insertEntry left right pairs ↔ pair = (left, right) ∨ pair ∈ pairs)
  | [], _ => by simp [insertEntry]
  | (l, r) :: rest, h => by
      have hl : ¬ left = l := fun e => h (l, r) List.mem_cons_self e.symm
      have ih : pair ∈ insertEntry left right rest ↔ pair = (left, right) ∨ pair ∈ rest :=
        mem_insertEntry_of_new fun q hq => h q (List.mem_cons_of_mem _ hq)
      rw [insertEntry, if_neg hl]
      split
      next => simp
      next => rw [List.mem_cons, ih, List.mem_cons, or_left_comm]

/-- A pair is in the map after an insertion if it is the new one, or was there and shares no side
with the new one. -/
theorem mem_pairs_insert (m : PinMap) (left right : Nat) (pair : Nat × Nat) :
    pair ∈ (m.insert left right).pairs ↔
      pair = (left, right) ∨ pair ∈ m.pairs ∧ pair.1 ≠ left ∧ pair.2 ≠ right := by
  have hmem : ∀ q : Nat × Nat, q ∈ m.without left right ↔
      q ∈ m.pairs ∧ q.1 ≠ left ∧ q.2 ≠ right := fun q => by
    rw [without, List.mem_filter, Bool.and_eq_true, bne_iff_ne, bne_iff_ne]
  show pair ∈ insertEntry left right (m.without left right) ↔ _
  rw [mem_insertEntry_of_new fun q hq => ((hmem q).1 hq).2.1, hmem]

end PinMap

end PinNumbering
