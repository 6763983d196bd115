import PinNumbering.PinMap
import Std.Data.TreeSet
/-! # One-to-one pin maps from lists

The pairs of a list may share sides. When they are inserted one after the other, a pair is left in
the end exactly if no later pair shares one of its sides. So the map is made from the end of the
list, beside the sets of all pins that occur on each side.

* `survivors` and `ofList`: the pairs that are left.
* `mem_pairs_ofList_cons` and `mem_pairs_ofList_iff`: the condition under which a pair is left.
* `ofList_pairs`: a map is the map of its own pairs.
* `ofList_concat` and `ofList_eq_foldl`: the map of a list is what its pairs leave when they are
  inserted in order.
-/
set_option autoImplicit false

namespace PinNumbering

namespace PinMap

/-! ## Survivors -/

/-- A set of pins. -/
abbrev Pins := Std.TreeSet Nat instOrdNat.compare

/-- Pairs of a list that no later pair displaces, with all the pins of the list on each side. -/
structure Survivors where
  map : PinMap
  lefts : Pins
  rights : Pins
  /-- The right pins of the map are among those of the list. -/
  rights_of_mem : ∀ pair ∈ map.pairs, pair.2 ∈ rights

/-- The survivors of the empty list. -/
def Survivors.empty : Survivors where
  map := PinMap.empty
  lefts := ∅
  rights := ∅
  rights_of_mem := fun _ h => absurd h List.not_mem_nil

/-- The survivors after a pair is put in front of the list. It survives if neither of its pins
occurs again. -/
def Survivors.cons (pair : Nat × Nat) (later : Survivors) : Survivors where
  map :=
    if h : pair.1 ∈ later.lefts ∨ pair.2 ∈ later.rights then later.map
    else
      { pairs := insertEntry pair.1 pair.2 later.map.pairs
        ascending := ascending_insertEntry pair.1 pair.2 later.map.ascending
        rightsDistinct :=
          rightsDistinct_insertEntry pair.1 pair.2 later.map.rightsDistinct fun q hq e =>
            h (Or.inr (e ▸ later.rights_of_mem q hq)) }
  lefts := later.lefts.insert pair.1
  rights := later.rights.insert pair.2
  rights_of_mem := fun q hq => by
    rw [Std.TreeSet.mem_insert]
    split at hq
    next => exact Or.inr (later.rights_of_mem q hq)
    next =>
      rcases mem_insertEntry hq with rfl | hq
      · exact Or.inl (Std.ReflCmp.compare_self)
      · exact Or.inr (later.rights_of_mem q hq)

/-- The survivors of a list. -/
def survivors (pairs : List (Nat × Nat)) : Survivors := pairs.foldr Survivors.cons Survivors.empty

/-- The map that a list of pairs leaves when they are inserted one after the other. -/
def ofList (pairs : List (Nat × Nat)) : PinMap := (survivors pairs).map

/-! ## Insertion in order -/

theorem mem_lefts_survivors (pairs : List (Nat × Nat)) (left : Nat) :
    left ∈ (survivors pairs).lefts ↔ ∃ pair ∈ pairs, pair.1 = left := by
  induction pairs with
  | nil => simp [survivors, Survivors.empty]
  | cons pair rest ih =>
    show left ∈ (survivors rest).lefts.insert pair.1 ↔ _
    rw [Std.TreeSet.mem_insert, Std.LawfulEqCmp.compare_eq_iff_eq, ih]
    simp

theorem mem_rights_survivors (pairs : List (Nat × Nat)) (right : Nat) :
    right ∈ (survivors pairs).rights ↔ ∃ pair ∈ pairs, pair.2 = right := by
  induction pairs with
  | nil => simp [survivors, Survivors.empty]
  | cons pair rest ih =>
    show right ∈ (survivors rest).rights.insert pair.2 ↔ _
    rw [Std.TreeSet.mem_insert, Std.LawfulEqCmp.compare_eq_iff_eq, ih]
    simp

theorem mem_of_mem_pairs_ofList {pairs : List (Nat × Nat)} {pair : Nat × Nat}
    (h : pair ∈ (ofList pairs).pairs) : pair ∈ pairs := by
  induction pairs with
  | nil => exact absurd h List.not_mem_nil
  | cons first rest ih =>
    change pair ∈ (Survivors.cons first (survivors rest)).map.pairs at h
    rw [Survivors.cons] at h
    split at h
    next => exact List.mem_cons_of_mem _ (ih h)
    next =>
      rcases mem_insertEntry h with rfl | h
      · exact List.mem_cons_self
      · exact List.mem_cons_of_mem _ (ih h)

/-- The first pair of a list stays if no later pair shares a side with it; it displaces none. -/
theorem mem_pairs_ofList_cons (first : Nat × Nat) (rest : List (Nat × Nat)) (pair : Nat × Nat) :
    pair ∈ (ofList (first :: rest)).pairs ↔
      pair = first ∧ (∀ q ∈ rest, q.1 ≠ first.1 ∧ q.2 ≠ first.2) ∨
        pair ∈ (ofList rest).pairs := by
  have hseen : (first.1 ∈ (survivors rest).lefts ∨ first.2 ∈ (survivors rest).rights) ↔
      ¬ ∀ q ∈ rest, q.1 ≠ first.1 ∧ q.2 ≠ first.2 := by
    rw [mem_lefts_survivors, mem_rights_survivors]
    constructor
    · rintro (⟨q, hq, e⟩ | ⟨q, hq, e⟩) hall
      · exact (hall q hq).1 e
      · exact (hall q hq).2 e
    · intro hnot
      refine Classical.byContradiction fun hno => hnot fun q hq => ⟨fun e => ?_, fun e => ?_⟩
      · exact hno (Or.inl ⟨q, hq, e⟩)
      · exact hno (Or.inr ⟨q, hq, e⟩)
  show pair ∈ (Survivors.cons first (survivors rest)).map.pairs ↔ _
  rw [Survivors.cons]
  split
  next h =>
    rw [hseen] at h
    exact ⟨Or.inr, fun hp => hp.resolve_left fun hp => h hp.2⟩
  next h =>
    have hall := Classical.not_not.1 (mt hseen.2 h)
    show pair ∈ insertEntry first.1 first.2 (ofList rest).pairs ↔ _
    rw [mem_insertEntry_of_new fun q hq => (hall q (mem_of_mem_pairs_ofList hq)).1]
    constructor
    · rintro (rfl | hp)
      · exact Or.inl ⟨rfl, hall⟩
      · exact Or.inr hp
    · rintro (⟨rfl, _⟩ | hp)
      · exact Or.inl rfl
      · exact Or.inr hp

/-- A pair is left exactly if it stands somewhere in the list with no later pair that shares one of
its sides. -/
theorem mem_pairs_ofList_iff {pairs : List (Nat × Nat)} {pair : Nat × Nat} :
    pair ∈ (ofList pairs).pairs ↔ ∃ before after, pairs = before ++ pair :: after ∧
      ∀ q ∈ after, q.1 ≠ pair.1 ∧ q.2 ≠ pair.2 := by
  induction pairs with
  | nil => simp [ofList, survivors, Survivors.empty, PinMap.empty]
  | cons first rest ih =>
    rw [mem_pairs_ofList_cons, ih]
    constructor
    · rintro (⟨rfl, hall⟩ | ⟨before, after, rfl, hall⟩)
      · exact ⟨[], rest, rfl, hall⟩
      · exact ⟨first :: before, after, rfl, hall⟩
    · rintro ⟨before, after, hsplit, hall⟩
      cases before with
      | nil =>
        obtain ⟨rfl, rfl⟩ := List.cons.inj hsplit
        exact Or.inl ⟨rfl, hall⟩
      | cons q before =>
        obtain ⟨-, rfl⟩ := List.cons.inj hsplit
        exact Or.inr ⟨before, after, rfl, hall⟩

/-- The pairs of a one-to-one map displace none of each other. -/
theorem ofList_pairs (m : PinMap) : ofList m.pairs = m := by
  apply eq_of_mem_pairs_iff
  intro pair
  constructor
  · exact mem_of_mem_pairs_ofList
  · intro hpair
    obtain ⟨before, after, hsplit⟩ := List.append_of_mem hpair
    refine mem_pairs_ofList_iff.2 ⟨before, after, hsplit, ?_⟩
    intro q hq
    have hlefts := m.ascending
    have hrights := m.rightsDistinct
    rw [hsplit, List.pairwise_append, List.pairwise_cons] at hlefts hrights
    exact ⟨(Nat.ne_of_lt (hlefts.2.1.1 q hq)).symm, (hrights.2.1.1 q hq).symm⟩

/-- One pair more is one insertion more. -/
theorem ofList_concat (pairs : List (Nat × Nat)) (last : Nat × Nat) :
    ofList (pairs ++ [last]) = (ofList pairs).insert last.1 last.2 := by
  refine eq_of_mem_pairs_iff fun pair => ?_
  rw [mem_pairs_insert]
  induction pairs with
  | nil =>
    rw [List.nil_append, mem_pairs_ofList_cons]
    simp [ofList, survivors, Survivors.empty, PinMap.empty]
  | cons first rest ih =>
    rw [List.cons_append, mem_pairs_ofList_cons, mem_pairs_ofList_cons, ih]
    constructor
    · rintro (⟨rfl, hall⟩ | rfl | ⟨hp, hne⟩)
      · have hlast := hall last (by simp)
        exact Or.inr ⟨Or.inl ⟨rfl, fun q hq => hall q (by simp [hq])⟩, hlast.1.symm, hlast.2.symm⟩
      · exact Or.inl rfl
      · exact Or.inr ⟨Or.inr hp, hne⟩
    · rintro (rfl | ⟨⟨rfl, hall⟩ | hp, hne⟩)
      · exact Or.inr (Or.inl rfl)
      · refine Or.inl ⟨rfl, fun q hq => ?_⟩
        rcases List.mem_append.1 hq with hq | hq
        · exact hall q hq
        · rw [List.mem_singleton.1 hq]
          exact ⟨hne.1.symm, hne.2.symm⟩
      · exact Or.inr (Or.inr ⟨hp, hne⟩)

/-- The map of a list is what its pairs leave when they are inserted in order. -/
theorem ofList_eq_foldl (pairs : List (Nat × Nat)) :
    ofList pairs = pairs.foldl (fun m pair => m.insert pair.1 pair.2) empty := by
  -- Insertion goes from the front, so the induction is on the list without its last pair.
  generalize hreverse : pairs.reverse = reversed
  induction reversed generalizing pairs with
  | nil =>
    rw [List.reverse_eq_nil_iff.1 hreverse]
    rfl
  | cons last front ih =>
    have hsplit : pairs = front.reverse ++ [last] := by
      rw [← List.reverse_cons, ← hreverse, List.reverse_reverse]
    rw [hsplit, ofList_concat, List.foldl_append, ← ih front.reverse (List.reverse_reverse front)]
    rfl

end PinMap

end PinNumbering
