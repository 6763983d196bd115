import PinNumbering.Proofs.Machine.Accepted
import PinNumbering.Proofs.Machine.FlatPins
/-! # Locations reported as uncovered

The failure `capacityOutOfRange` says that no sub tile of a tile covers a location. A look-up by
location reports it for exactly such locations. Look-ups by a sub tile and an instance of it report
it for an instance number past the last, with the location that the instance would have if the range
of the sub tile went on, as far as the machine can say it. Another sub tile may well cover that
location: of two sub tiles the higher one covers a location that the lower one reports. The reports
of a tile are therefore true exactly if it has at most one sub tile. A sum that wraps does not
change that, for it ends up below the range of its sub tile.

* `Tile.Covers`, `Machine.PastInstances`: a location with a sub tile, and one past an addressed sub
  tile.
* `Accepts.rootPinAtCoordinates_eq_outOfRange_iff` and its likes: when each look-up reports a
  location.
* `Machine.ReportsUncovered`: the locations that the look-ups report.
* `Accepts.reports_truthful_iff`: a second sub tile is what makes a report false.
-/
set_option autoImplicit false

namespace PinNumbering

/-- A sub tile of the tile covers the location. -/
def Tile.Covers (tile : Tile) (location : Nat) : Prop :=
  ∃ s ∈ tile.subTiles, s.capacity.contains location = true

/-- The sub tile has no instance of the number. On the machine it would stand at the location. -/
def Machine.PastInstances (m : Machine) (tile : Tile) (subTile inst location : Nat) : Prop :=
  ∃ s, tile.subTiles[subTile]? = some s ∧ s.capacity.total ≤ inst ∧
    (m.add s.capacity.low inst : Run LookupError Nat) = .ok location

/-- The graph pin is a root pin of the block. -/
def Tables.IsRootGraphPin (T : Tables) (b : BlockId) (pin : GraphPinId) : Prop :=
  ∃ block data logicalPin, T.block? b = some block ∧ block.graphPin? pin = some data ∧
    block.logicalPin? pin = some logicalPin ∧ data.isRoot = true

/-- A look-up about the tile, by location or by instance, reports that no sub tile covers the
location. An instance is asked for by a word. -/
inductive Machine.ReportsUncovered (m : Machine) (T : Tables) (t : TileId) (location : Nat) :
    Prop where
  | atCoordinates (instancePin asked : Nat) (name : String)
    (h : m.rootPinAtCoordinates T t instancePin asked =
      .error (.failure (.capacityOutOfRange name location)))
  | ofInstance (subTile : Nat) (b : BlockId) (inst logicalPin : Nat) (name : String)
    (hinst : inst < wordLimit) (h : m.rootPinOfInstance T t subTile b inst logicalPin =
      .error (.failure (.capacityOutOfRange name location)))
  | ofGraphPin (subTile : Nat) (b : BlockId) (inst : Nat) (pin : GraphPinId) (name : String)
    (hinst : inst < wordLimit) (h : (m.indexer T).graphPinNumber t subTile b inst pin =
      .error (.failure (.capacityOutOfRange name location)))
  | ofClasses (subTile inst : Nat) (name : String) (hinst : inst < wordLimit)
    (h : (m.indexer T).instanceClasses t subTile inst =
      .error (.failure (.capacityOutOfRange name location)))

/-! ## Steps that report no location -/

/-- The run did not end with the report of a location. -/
@[simp] def Halt.ReportsNoLocation : Halt LookupError → Prop
  | .failure (.capacityOutOfRange _ _) => False
  | _ => True

open Halt (ReportsNoLocation)

@[simp] theorem Run.failsOnly_of_iff {ε α : Type} {p : Halt ε → Prop} {x : Except ε α} :
    FailsOnly p (Run.of x) ↔ FailsOnly (fun cause => p (.failure cause)) x := by
  cases x <;> simp

namespace Machine
variable (m : Machine) (T : Tables)

@[simp] theorem failsOnly_number (n : Nat) : FailsOnly ReportsNoLocation (m.number n) := by
  cases m <;> simp [number]

@[simp] theorem failsOnly_add (a b : Nat) : FailsOnly ReportsNoLocation (m.add a b) :=
  m.failsOnly_number (a + b)

@[simp] theorem failsOnly_mul (a b : Nat) : FailsOnly ReportsNoLocation (m.mul a b) :=
  m.failsOnly_number (a * b)

@[simp] theorem failsOnly_sub (a b : Nat) : FailsOnly ReportsNoLocation (m.sub a b) := by
  cases m <;> simp [sub]

@[simp] theorem failsOnly_total (r : CapacityRange) : FailsOnly ReportsNoLocation (m.total r) := by
  simp [total]

@[simp] theorem failsOnly_pinsPerInstance (s : SubTile) :
    FailsOnly ReportsNoLocation (m.pinsPerInstance s) := by
  simp [pinsPerInstance]

theorem failsOnly_laySite (w : Walk) (site : Site) :
    FailsOnly ReportsNoLocation (m.laySite T w site) := by
  simp [laySite, lay, Tables.footprint, Tables.findBlock]

theorem failsOnly_layInstances (s : SubTile) (left inst : Nat) (w : Walk) :
    FailsOnly ReportsNoLocation (m.layInstances T s left inst w) := by
  induction left generalizing inst w with
  | zero => simp [layInstances]
  | succ left ih =>
    rw [layInstances, failsOnly_bind_iff]
    exact ⟨.foldlM (fun w site _ => m.failsOnly_laySite T w site) w, fun w' _ => ih (inst + 1) w'⟩

theorem failsOnly_laySubTile (w : TileWalk) (s : SubTile) :
    FailsOnly ReportsNoLocation (m.laySubTile T w s) := by
  simp [laySubTile, laySites, failsOnly_layInstances]

@[simp] theorem failsOnly_layout (t : TileId) : FailsOnly ReportsNoLocation (m.layout T t) := by
  simp [layout, layoutOf, FailsOnly.foldlM, failsOnly_laySubTile, Tables.findTile]

@[simp] theorem failsOnly_classesOfSpans (spans : List Span) :
    FailsOnly ReportsNoLocation ((m.indexer T).classesOfSpans spans) := by
  simp [Indexer.classesOfSpans, Indexer.classEntries, FailsOnly.mapM, Tables.findBlock]

@[simp] theorem failsOnly_sitePinBase (t : TileId) (subTile : Nat) (b : BlockId) (inst : Nat) :
    FailsOnly ReportsNoLocation ((m.indexer T).sitePinBase t subTile b inst) := by
  simp [Indexer.sitePinBase, Indexer.findSpan, indexer, Tables.findTile]

end Machine

theorem ne_outOfRange_of_failsOnly {α : Type} {x : Run LookupError α}
    (h : FailsOnly ReportsNoLocation x) {name : String} {location : Nat} :
    x ≠ .error (.failure (.capacityOutOfRange name location)) := fun herror => h _ herror

section Reports
variable {m : Machine} {T : Tables} {tile : Tile} {t : TileId} {subTile inst location : Nat}
  {b : BlockId} {name : String}

/-! ## When a location is reported -/

theorem Tile.findWithBase?_contains_eq_none_iff :
    tile.findWithBase? (fun s => s.capacity.contains location) = none ↔
      ¬ tile.Covers location := by
  rw [findWithBase?_eq_none_iff, Covers]
  simp only [not_exists, not_and, Bool.not_eq_true]

theorem Machine.instanceOutOfRange_eq_outOfRange_iff {α : Type} {s : SubTile} :
    (m.instanceOutOfRange tile s inst : Run LookupError α) =
        .error (.failure (.capacityOutOfRange name location)) ↔
      tile.name = name ∧ (m.add s.capacity.low inst : Run LookupError Nat) = .ok location := by
  rw [instanceOutOfRange, bind_eq_error_iff,
    or_iff_right (ne_outOfRange_of_failsOnly (m.failsOnly_add _ _))]
  constructor
  · rintro ⟨reported, hreported, hthrow⟩
    cases hthrow
    exact ⟨rfl, hreported⟩
  · rintro ⟨rfl, hlocation⟩
    exact ⟨location, hlocation, rfl⟩

namespace Machine.Accepts
variable (h : m.Accepts T) (ht : T.tile? t = some tile)
include h ht

theorem rootPinAtCoordinates_eq_outOfRange_iff {instancePin asked : Nat} :
    m.rootPinAtCoordinates T t instancePin asked =
        .error (.failure (.capacityOutOfRange name location)) ↔
      ¬ tile.Covers asked ∧ tile.name = name ∧ asked = location := by
  have htile : T.findTile t = .ok tile := Tables.findTile_eq_ok ht
  have hsearch : (m.findWithBaseFrom (fun s => s.capacity.contains asked) 0 tile.subTiles :
      Run LookupError _) = .ok (tile.findWithBase? fun s => s.capacity.contains asked) :=
    (faithful_findWithBaseFrom _ 0 fun hroots => hroots).eq_of_fits (h.tile_rootsFit ht) m
  rw [← Tile.findWithBase?_contains_eq_none_iff]
  simp only [Machine.rootPinAtCoordinates, htile, hsearch, bind_eq_error_iff, Run.of_ok,
    Except.ok.injEq, exists_eq_left', reduceCtorEq, false_or, Run.of_eq_failure_iff,
    Run.of_eq_ok_iff, orFail_eq_error_iff, orFail_eq_ok_iff, LookupError.unless_eq_error_iff,
    LookupError.capacityOutOfRange.injEq]
  simp only [ne_outOfRange_of_failsOnly, failsOnly_sub, failsOnly_add, failsOnly_mul,
    failsOnly_pinsPerInstance, and_false, exists_false, or_false]

theorem total_subTile_eq {s : SubTile} (hs : tile.subTiles[subTile]? = some s) :
    (m.total s.capacity : Run LookupError Nat) = .ok s.capacity.total :=
  m.total_eq ((h.tile_rootsFit ht).total s (List.mem_of_getElem? hs))

theorem rootPinOfInstance_eq_outOfRange_iff {logicalPin : Nat} :
    m.rootPinOfInstance T t subTile b inst logicalPin =
        .error (.failure (.capacityOutOfRange name location)) ↔
      tile.name = name ∧ m.PastInstances tile subTile inst location := by
  have htile : T.findTile t = .ok tile := Tables.findTile_eq_ok ht
  simp only [Machine.rootPinOfInstance, htile, Tile.findSubTile, bind_eq_error_iff, Run.of_ok,
    Except.ok.injEq, exists_eq_left', reduceCtorEq, false_or, Run.of_eq_failure_iff,
    Run.of_eq_ok_iff, orFail_eq_error_iff, orFail_eq_ok_iff, and_false, PastInstances]
  cases hs : tile.subTiles[subTile]? with
  | none => simp
  | some s =>
    simp only [Option.some.injEq, exists_eq_left', h.total_subTile_eq ht hs, Except.ok.injEq,
      reduceCtorEq, false_or]
    by_cases hinst : inst < s.capacity.total
    · rw [if_pos hinst]
      refine iff_of_false (ne_outOfRange_of_failsOnly ?_) ?_
      · simp [Tables.findDirectPin, Tile.findRootPin]
      · simp [Nat.not_le.2 hinst]
    · rw [if_neg hinst, instanceOutOfRange_eq_outOfRange_iff]
      simp [Nat.not_lt.1 hinst]

theorem instanceClasses_eq_outOfRange_iff :
    (m.indexer T).instanceClasses t subTile inst =
        .error (.failure (.capacityOutOfRange name location)) ↔
      tile.name = name ∧ m.PastInstances tile subTile inst location := by
  have htile : T.findTile t = .ok tile := Tables.findTile_eq_ok ht
  simp only [Indexer.instanceClasses, Machine.indexer, htile, Tile.findSubTile, bind_eq_error_iff,
    Run.of_ok, Except.ok.injEq, exists_eq_left', reduceCtorEq, false_or, Run.of_eq_failure_iff,
    Run.of_eq_ok_iff, orFail_eq_error_iff, orFail_eq_ok_iff, and_false, PastInstances]
  cases hs : tile.subTiles[subTile]? with
  | none => simp
  | some s =>
    simp only [Option.some.injEq, exists_eq_left', h.total_subTile_eq ht hs, Except.ok.injEq,
      reduceCtorEq, false_or]
    by_cases hinst : inst < s.capacity.total
    · rw [if_pos hinst]
      refine iff_of_false (ne_outOfRange_of_failsOnly ?_) ?_
      · rw [failsOnly_bind_iff]
        exact ⟨m.failsOnly_layout T t, fun L _ => m.failsOnly_classesOfSpans T _⟩
      · simp [Nat.not_le.2 hinst]
    · rw [if_neg hinst, instanceOutOfRange_eq_outOfRange_iff]
      simp [Nat.not_lt.1 hinst]

theorem graphPinNumber_eq_outOfRange_iff {pin : GraphPinId} :
    (m.indexer T).graphPinNumber t subTile b inst pin =
        .error (.failure (.capacityOutOfRange name location)) ↔
      T.IsRootGraphPin b pin ∧ tile.name = name ∧ m.PastInstances tile subTile inst location := by
  simp only [Indexer.graphPinNumber, Tables.findBlock, bind_eq_error_iff, Run.of_eq_failure_iff,
    Run.of_eq_ok_iff, orFail_eq_error_iff, orFail_eq_ok_iff, reduceCtorEq, and_false, false_or]
  constructor
  · rintro ⟨block, hblock, data, hdata, logicalPin, hpin, herror⟩
    by_cases hroot : data.isRoot = true
    · rw [if_pos hroot] at herror
      exact ⟨⟨block, data, logicalPin, hblock, hdata, hpin, hroot⟩,
        (h.rootPinOfInstance_eq_outOfRange_iff ht).1 herror⟩
    · rw [if_neg hroot] at herror
      refine absurd herror (ne_outOfRange_of_failsOnly ?_)
      simp
  · rintro ⟨⟨block, data, logicalPin, hblock, hdata, hpin, hroot⟩, hpast⟩
    refine ⟨block, hblock, data, hdata, logicalPin, hpin, ?_⟩
    rw [if_pos hroot]
    exact (h.rootPinOfInstance_eq_outOfRange_iff ht).2 hpast

theorem reportsUncovered_iff :
    m.ReportsUncovered T t location ↔ ¬ tile.Covers location ∨
      ∃ subTile inst, inst < wordLimit ∧ m.PastInstances tile subTile inst location := by
  constructor
  · intro hreport
    cases hreport with
    | atCoordinates instancePin asked name herror =>
      obtain ⟨hcovers, -, rfl⟩ := (h.rootPinAtCoordinates_eq_outOfRange_iff ht).1 herror
      exact .inl hcovers
    | ofInstance subTile b inst logicalPin name hinst herror =>
      obtain ⟨-, hpast⟩ := (h.rootPinOfInstance_eq_outOfRange_iff ht).1 herror
      exact .inr ⟨subTile, inst, hinst, hpast⟩
    | ofGraphPin subTile b inst pin name hinst herror =>
      obtain ⟨-, -, hpast⟩ := (h.graphPinNumber_eq_outOfRange_iff ht).1 herror
      exact .inr ⟨subTile, inst, hinst, hpast⟩
    | ofClasses subTile inst name hinst herror =>
      obtain ⟨-, hpast⟩ := (h.instanceClasses_eq_outOfRange_iff ht).1 herror
      exact .inr ⟨subTile, inst, hinst, hpast⟩
  · rintro (hcovers | ⟨subTile, inst, hinst, hpast⟩)
    · exact .atCoordinates 0 location tile.name
        ((h.rootPinAtCoordinates_eq_outOfRange_iff ht).2 ⟨hcovers, rfl, rfl⟩)
    · exact .ofClasses subTile inst tile.name hinst
        ((h.instanceClasses_eq_outOfRange_iff ht).2 ⟨rfl, hpast⟩)

/-! ## When the reports are true -/

/-- An instance past the last lies above the range of its sub tile. A sum that wraps lies below. -/
theorem not_contains_of_past {s : SubTile} (hs : tile.subTiles[subTile]? = some s)
    (hpast : s.capacity.total ≤ inst) (hinst : inst < wordLimit)
    (hlocation : (m.add s.capacity.low inst : Run LookupError Nat) = .ok location) :
    ¬ s.capacity.contains location = true := by
  have hhigh := h.ranges tile (List.mem_of_getElem? ht) s (List.mem_of_getElem? hs)
  rw [CapacityRange.contains_iff]
  rw [CapacityRange.total] at hpast
  rcases Nat.lt_or_ge (s.capacity.low + inst) wordLimit with hlt | hge
  · rw [m.add_eq hlt, Except.ok.injEq] at hlocation
    omega
  · have hupright := ((h.tile_consistent ht).subTile subTile s hs).low_le_high
    cases m with
    | checking =>
      rw [add, checking_number_of_le hge] at hlocation
      cases hlocation
    | wrapping =>
      have hwrap : (s.capacity.low + inst) % wordLimit = location := by
        rw [add, number, if_neg (Nat.not_lt.2 hge), Except.ok.injEq] at hlocation
        exact hlocation
      rw [Nat.mod_eq_sub_mod hge, Nat.mod_eq_of_lt (by omega)] at hwrap
      omega

theorem not_covers_of_pastInstances (hpast : m.PastInstances tile subTile inst location)
    (hinst : inst < wordLimit) (hone : tile.subTiles.length ≤ 1) : ¬ tile.Covers location := by
  obtain ⟨s, hs, htotal, hlocation⟩ := hpast
  rintro ⟨s', hs', hcontains⟩
  obtain ⟨i, hi⟩ := List.getElem?_of_mem hs'
  obtain ⟨hlt, -⟩ := List.getElem?_eq_some_iff.1 hs
  obtain ⟨hlt', -⟩ := List.getElem?_eq_some_iff.1 hi
  have heq : i = subTile := by omega
  subst heq
  rw [hs, Option.some.injEq] at hi
  subst hi
  exact h.not_contains_of_past ht hs htotal hinst hlocation hcontains

theorem exists_pastInstances_of_le {i j : Nat} {s s' : SubTile} (hi : tile.subTiles[i]? = some s)
    (hj : tile.subTiles[j]? = some s') (hne : i ≠ j) (hle : s.capacity.low ≤ s'.capacity.low) :
    ∃ subTile inst location, inst < wordLimit ∧ m.PastInstances tile subTile inst location ∧
      tile.Covers location := by
  have hlow := (h.tile_consistent ht).contains_low hj
  have hnot : ¬ s.capacity.contains s'.capacity.low = true := by
    intro hcontains
    exact hne ((h.tile_consistent ht).disjoint i j _ s s' hi hj hcontains hlow)
  -- So the first location of the higher sub tile lies past the range of the lower one.
  have hhigh := h.ranges tile (List.mem_of_getElem? ht) s' (List.mem_of_getElem? hj)
  have hupright := ((h.tile_consistent ht).subTile j s' hj).low_le_high
  rw [CapacityRange.contains_iff] at hnot
  have hsum : s.capacity.low + (s'.capacity.low - s.capacity.low) = s'.capacity.low := by omega
  refine ⟨i, s'.capacity.low - s.capacity.low, s'.capacity.low, by omega, ⟨s, hi, ?_, ?_⟩,
    s', List.mem_of_getElem? hj, hlow⟩
  · rw [CapacityRange.total]
    omega
  · rw [m.add_eq (by omega), hsum]

theorem exists_covered_pastInstances (htwo : 1 < tile.subTiles.length) :
    ∃ subTile inst location, inst < wordLimit ∧ m.PastInstances tile subTile inst location ∧
      tile.Covers location := by
  have hfirst : tile.subTiles[0]? = some tile.subTiles[0] := List.getElem?_eq_getElem (by omega)
  have hsecond : tile.subTiles[1]? = some tile.subTiles[1] := List.getElem?_eq_getElem htwo
  rcases Nat.le_total tile.subTiles[0].capacity.low tile.subTiles[1].capacity.low with hle | hle
  · exact h.exists_pastInstances_of_le ht hfirst hsecond (by decide) hle
  · exact h.exists_pastInstances_of_le ht hsecond hfirst (by decide) hle

theorem reports_truthful_iff :
    (∀ location, m.ReportsUncovered T t location → ¬ tile.Covers location) ↔
      tile.subTiles.length ≤ 1 := by
  simp only [h.reportsUncovered_iff ht]
  constructor
  · intro htrue
    apply Nat.not_lt.1
    intro htwo
    obtain ⟨subTile, inst, location, hinst, hpast, hcovers⟩ :=
      h.exists_covered_pastInstances ht htwo
    exact htrue location (.inr ⟨subTile, inst, hinst, hpast⟩) hcovers
  · intro hone location hreport
    rcases hreport with hcovers | ⟨subTile, inst, hinst, hpast⟩
    · exact hcovers
    · exact h.not_covers_of_pastInstances ht hpast hinst hone

end Machine.Accepts

end Reports

/-! ## Both -/

/-- On tables that a machine accepts, its look-up by location reports just the locations without a
sub tile, and its look-ups by instance just those past the addressed sub tile. All reports about a
tile are true if it has one sub tile or none, and only then. -/
theorem Machine.uncovered_reports (m : Machine) (T : Tables) (hT : m.Accepts T) (t : TileId)
    (tile : Tile) (ht : T.tile? t = some tile) :
    (∀ instancePin asked name location,
      m.rootPinAtCoordinates T t instancePin asked =
          .error (.failure (.capacityOutOfRange name location)) ↔
        ¬ tile.Covers asked ∧ tile.name = name ∧ asked = location) ∧
    (∀ subTile b inst logicalPin name location,
      m.rootPinOfInstance T t subTile b inst logicalPin =
          .error (.failure (.capacityOutOfRange name location)) ↔
        tile.name = name ∧ m.PastInstances tile subTile inst location) ∧
    (∀ subTile b inst pin name location,
      (m.indexer T).graphPinNumber t subTile b inst pin =
          .error (.failure (.capacityOutOfRange name location)) ↔
        T.IsRootGraphPin b pin ∧ tile.name = name ∧ m.PastInstances tile subTile inst location) ∧
    (∀ subTile inst name location,
      (m.indexer T).instanceClasses t subTile inst =
          .error (.failure (.capacityOutOfRange name location)) ↔
        tile.name = name ∧ m.PastInstances tile subTile inst location) ∧
    ((∀ location, m.ReportsUncovered T t location → ¬ tile.Covers location) ↔
      tile.subTiles.length ≤ 1) := by
  refine ⟨?_, ?_, ?_, ?_, hT.reports_truthful_iff ht⟩
  · intro instancePin asked name location
    exact hT.rootPinAtCoordinates_eq_outOfRange_iff ht
  · intro subTile b inst logicalPin name location
    exact hT.rootPinOfInstance_eq_outOfRange_iff ht
  · intro subTile b inst pin name location
    exact hT.graphPinNumber_eq_outOfRange_iff ht
  · intro subTile inst name location
    exact hT.instanceClasses_eq_outOfRange_iff ht

/-- The logic tile has two sub tiles. Location 3 is reported by the look-up that is asked about it,
and the second instance past the last of the logic cells at location 3 too. The pad tile has one sub
tile, and its reports are true. -/
theorem Samples.heterogeneous_uncovered :
    ∃ tile pads, heterogeneous.tile? 0 = some tile ∧ heterogeneous.tile? 1 = some pads ∧
      ∀ m : Machine, m.Accepts heterogeneous ∧
        m.rootPinAtCoordinates heterogeneous 0 0 3 =
          .error (.failure (.capacityOutOfRange "CLB_TILE" 3)) ∧
        m.rootPinOfInstance heterogeneous 0 0 0 3 0 =
          .error (.failure (.capacityOutOfRange "CLB_TILE" 3)) ∧
        (¬ ∀ location, m.ReportsUncovered heterogeneous 0 location → ¬ tile.Covers location) ∧
        ∀ location, m.ReportsUncovered heterogeneous 1 location → ¬ pads.Covers location := by
  refine ⟨_, _, rfl, rfl, fun m => ?_⟩
  have haccepts := heterogeneous_accepted m
  obtain ⟨hcoordinates, hinstance, -, -, htrue⟩ := m.uncovered_reports _ haccepts 0 _ rfl
  obtain ⟨-, -, -, -, hpads⟩ := m.uncovered_reports _ haccepts 1 _ rfl
  refine ⟨haccepts, ?_, ?_, ?_, hpads.2 (by decide)⟩
  · refine (hcoordinates 0 3 _ _).2 ⟨?_, rfl, rfl⟩
    unfold Tile.Covers
    decide
  · exact (hinstance 0 0 3 0 _ _).2 ⟨rfl, _, rfl, by decide, m.add_eq (by decide)⟩
  · intro hall
    exact absurd (htrue.1 hall) (by decide)

/-- The memory of the logic tile covers location 2, which the look-ups about the first instance past
the last of the logic cells report as uncovered. -/
theorem Samples.heterogeneous_reports_covered :
    ∃ tile, heterogeneous.tile? 0 = some tile ∧ tile.Covers 2 ∧
      ∀ m : Machine, m.Accepts heterogeneous ∧
        m.rootPinOfInstance heterogeneous 0 0 0 2 0 =
          .error (.failure (.capacityOutOfRange "CLB_TILE" 2)) ∧
        (m.indexer heterogeneous).graphPinNumber 0 0 0 2 0 =
          .error (.failure (.capacityOutOfRange "CLB_TILE" 2)) ∧
        (m.indexer heterogeneous).instanceClasses 0 0 2 =
          .error (.failure (.capacityOutOfRange "CLB_TILE" 2)) := by
  refine ⟨_, rfl, ?_, fun m => ⟨heterogeneous_accepted m, ?_⟩⟩
  · unfold Tile.Covers
    decide
  · cases m <;> exact ⟨rfl, rfl, rfl⟩

end PinNumbering
