import PinNumbering.Machine.Consistency
import PinNumbering.Proofs.Machine.RootPins
import PinNumbering.Proofs.Tables.Faults
/-! # The checks of tables on a machine are those of the numbers

The checks are faithful: a range has passed the check of its bounds when its number of locations
divides the pins, and the pins of the sub tiles are added up in their order. A machine that checks
accepts just the tables that are accepted with natural numbers and whose root pins fit.

* `Machine.faithful_validate`: either machine against the natural numbers.
* `Machine.checking_validate_eq_ok_iff`: what a machine that checks accepts.
* `Machine.checks_classify`: acceptance and reports, with and without the condition.
-/
set_option autoImplicit false

namespace PinNumbering

open Run (Faithful)

namespace Tables
variable (T : Tables)

/-- Checking the sub tiles one after the other and adding up their pins on the way. -/
theorem foldlM_countSubTile (tile : Tile) (subTiles : List (SubTile × Nat)) (computed : Nat) :
    subTiles.foldlM (fun computed s => do
        T.validateSubTile tile s.2 s.1
        return computed + s.1.numPins) computed = do
      subTiles.forM fun s => T.validateSubTile tile s.2 s.1
      return computed + totalOf (subTiles.map fun s => s.1.numPins) := by
  induction subTiles generalizing computed with
  | nil => rfl
  | cons s rest ih =>
    simp only [List.foldlM_cons, bind_assoc, pure_bind, ih]
    simp [Nat.add_assoc]

end Tables

namespace Machine
variable {fits : Prop} (T : Tables)

theorem faithful_validateSubTile (tile : Tile) (position : Nat) {s : SubTile}
    (hfits : fits → s.capacity.total < wordLimit) :
    Faithful fits (fun m => m.validateSubTile T tile position s)
      (T.validateSubTile tile position s) := by
  refine (Faithful.of _).bind fun _ _ => (Faithful.of _).bind fun _ hrange => ?_
  have hpos : 0 < s.capacity.total :=
    s.capacity.total_pos_iff.2 ((TableFault.unless_eq_ok_iff _ _).1 hrange)
  refine (faithful_total hfits).after ((Faithful.remainder hpos).after ?_)
  refine (Faithful.of _).bind fun _ _ => (Faithful.of _).bind fun _ _ => ?_
  exact (Faithful.of _).bind fun _ _ => .of _

theorem faithful_countSubTiles {tile : Tile} (hfits : fits → tile.RootsFit) :
    Faithful fits (fun m => tile.subTiles.zipIdx.foldlM (m.countSubTile T tile) 0) (do
      tile.subTiles.zipIdx.forM fun (s, position) => T.validateSubTile tile position s
      return totalOf (tile.subTiles.map SubTile.numPins)) := by
  have hexact := T.foldlM_countSubTile tile tile.subTiles.zipIdx 0
  have hpins : (tile.subTiles.zipIdx.map fun s => s.1.numPins) =
      tile.subTiles.map SubTile.numPins := by
    rw [← List.zipIdx_map_fst 0 tile.subTiles, List.map_map, List.zipIdx_map_fst]
    rfl
  rw [hpins, Nat.zero_add] at hexact
  rw [← hexact]
  -- What has been counted and what is still to come fit together; each step moves one sub tile over.
  refine Faithful.foldlM
    (fun rest computed => fits → SubTile.RootsFit computed (rest.map Prod.fst)) ?_ ?_ ?_
  · intro computed s rest hroots
    exact (faithful_validateSubTile T tile s.2 fun hf =>
      (hroots hf).total s.1 List.mem_cons_self).bind fun _ _ => .add fun hf => (hroots hf).next_lt
  · intro computed s rest next hroots hnext hf
    obtain ⟨-, -, hnext⟩ := (bind_eq_ok_iff ..).1 hnext
    rw [pure_eq_ok_iff] at hnext
    rw [← hnext]
    exact (hroots hf).tail
  · intro hf
    rw [List.zipIdx_map_fst]
    exact hfits hf

theorem faithful_validateTile {tile : Tile} (hfits : fits → tile.RootsFit) :
    Faithful fits (fun m => m.validateTile T tile) (T.validateTile tile) := by
  have hexact : T.validateTile tile = (do
        tile.subTiles.zipIdx.forM fun s => T.validateSubTile tile s.2 s.1
        return totalOf (tile.subTiles.map SubTile.numPins)) >>= (fun computed => do
      (TableFault.pinCountMismatch tile.name tile.numPins computed).unless (computed = tile.numPins)
      (TableFault.classTableLength tile.name tile.numPins tile.classOfPin.length).unless
        (tile.classOfPin.length = tile.numPins)
      tile.classOfPin.zipIdx.forM fun entry =>
        (TableFault.danglingClass tile.name entry.2 entry.1).unless
          (entry.1 < tile.classes.length)) := by
    simp only [bind_assoc, pure_bind]
    rfl
  rw [hexact]
  refine (faithful_countSubTiles T hfits).bind fun computed _ => ?_
  exact (Faithful.of _).bind fun _ _ => (Faithful.of _).bind fun _ _ => .of _

/-- The checks of tables give on either machine what they give with natural numbers, unless a
machine that checks stops for a result that is too large. It does not if the root pins fit. -/
theorem faithful_validate (hfits : fits → T.RootsFit) :
    Faithful fits (fun m => m.validate T) T.validate := by
  refine (Faithful.forM fun entry hentry => ?_).bind fun _ _ => .of _
  refine (Faithful.of _).bind fun _ _ => faithful_validateTile T fun hf => ?_
  obtain ⟨-, -, htile⟩ := List.mem_zipIdx hentry
  exact hfits hf entry.1 (htile ▸ List.getElem_mem _)

/-! ## What a machine that checks accepts -/

theorem countSubTiles_of_validate {m : Machine} (h : m.validate T = .ok ()) {tile : Tile}
    (htile : tile ∈ T.tiles) :
    ∃ computed, tile.subTiles.zipIdx.foldlM (m.countSubTile T tile) 0 = .ok computed := by
  obtain ⟨_, htiles, -⟩ := (bind_eq_ok_iff ..).1 h
  obtain ⟨position, hposition⟩ := List.getElem?_of_mem htile
  have htile := forM_eq_ok_iff.1 htiles (tile, position)
    (List.mk_mem_zipIdx_iff_getElem?.2 hposition)
  obtain ⟨_, -, htile⟩ := (bind_eq_ok_iff ..).1 htile
  obtain ⟨computed, hcount, -⟩ := (bind_eq_ok_iff ..).1 htile
  exact ⟨computed, hcount⟩

theorem rootsFit_of_countSubTiles {tile : Tile} {rest : List (SubTile × Nat)}
    {computed last : Nat} (hcomputed : computed < wordLimit)
    (h : rest.foldlM (checking.countSubTile T tile) computed = .ok last) :
    SubTile.RootsFit computed (rest.map Prod.fst) := by
  induction rest generalizing computed with
  | nil => exact .nil hcomputed
  | cons s rest ih =>
    rw [List.foldlM_cons, bind_eq_ok_iff] at h
    obtain ⟨next, hnext, h⟩ := h
    obtain ⟨_, hsubTile, hnext⟩ := (bind_eq_ok_iff ..).1 hnext
    obtain ⟨hlt, rfl⟩ := checking_number_eq_ok_iff.1 hnext
    obtain ⟨_, -, hsubTile⟩ := (bind_eq_ok_iff ..).1 hsubTile
    obtain ⟨_, -, hsubTile⟩ := (bind_eq_ok_iff ..).1 hsubTile
    obtain ⟨total, htotal, -⟩ := (bind_eq_ok_iff ..).1 hsubTile
    exact .cons (total_lt_of_checking htotal) (ih hlt h)

/-- A machine that checks accepts the tables that are accepted with natural numbers and whose root
pins fit, and no others. -/
theorem checking_validate_eq_ok_iff :
    checking.validate T = .ok () ↔ T.validate = .ok () ∧ T.RootsFit := by
  constructor
  · intro h
    have hexact := ((faithful_validate T False.elim).eq_of_ok h).1
    refine ⟨hexact, fun tile htile => ?_⟩
    obtain ⟨computed, hcount⟩ := countSubTiles_of_validate T h htile
    have hroots := rootsFit_of_countSubTiles T (by decide) hcount
    rwa [List.zipIdx_map_fst] at hroots
  · rintro ⟨hexact, hroots⟩
    rw [(faithful_validate T fun h => h).eq_of_fits hroots, hexact]
    rfl

/-! ## Accepted or faulty -/

/-- If the root pins fit, either machine accepts exactly the consistent tables, in which a tile
hosts a block exactly if the block lists the tile, and what it reports of other tables is one of
their faults. Without the condition, a machine that checks still accepts only consistent tables and
reports only their faults, but it stops at consistent tables whose root pins do not fit. -/
theorem checks_classify :
    (∀ m : Machine, T.RootsFit →
      (m.validate T = .ok () ↔ T.Consistent) ∧
      (m.validate T = .ok () → ∀ t b, T.Hosts t b ↔ T.Lists b t) ∧
      (∀ fault, m.validate T = .error (.failure fault) → T.HasFault fault) ∧
      ∀ reason, m.validate T ≠ .error (.stop reason)) ∧
    (checking.validate T = .ok () ↔ T.Consistent ∧ T.RootsFit) ∧
    (checking.validate T = .ok () → ∀ t b, T.Hosts t b ↔ T.Lists b t) ∧
    (∀ fault, checking.validate T = .error (.failure fault) → T.HasFault fault) ∧
    (∀ reason, checking.validate T = .error (.stop reason) →
      reason = .overflow ∧ ¬ T.RootsFit) ∧
    ∀ fault, T.HasFault fault → ¬ T.Consistent := by
  obtain ⟨haccepts, hlists, hreports, hfaults⟩ := T.validate_classifies
  have hfaithful := faithful_validate T fun (h : T.RootsFit) => h
  refine ⟨?_, ?_, ?_, ?_, ?_, hfaults⟩
  · intro m hroots
    rw [hfaithful.eq_of_fits hroots, Run.of_eq_ok_iff]
    exact ⟨haccepts, hlists, fun fault hfault => hreports fault (Run.of_eq_failure_iff.1 hfault),
      fun _ => Run.of_ne_stop⟩
  · rw [checking_validate_eq_ok_iff, haccepts]
  · intro hT
    exact hlists ((checking_validate_eq_ok_iff T).1 hT).1
  · intro fault hfault
    exact hreports fault (hfaithful.eq_of_failure hfault)
  · intro reason hstop
    exact ⟨hfaithful.eq_overflow_of_stop hstop, hfaithful.not_fits_of_stop hstop⟩

end Machine

/-- The root pins of the logic tile and the pad fit, and the logic tile and the memory list each
other. Two slots for pads that both cover location 2 are reported with their ranges. -/
theorem Samples.heterogeneous_classified :
    (heterogeneous.RootsFit ∧ (∀ m, Machine.validate m heterogeneous = .ok ()) ∧
      heterogeneous.Consistent ∧ (heterogeneous.Hosts 0 2 ↔ heterogeneous.Lists 2 0)) ∧
    ∃ T : Tables,
      Machine.checking.validate T =
        .error (.failure (.overlappingCapacity "IO" ⟨0, 2⟩ ⟨2, 3⟩)) ∧
      T.HasFault (.overlappingCapacity "IO" ⟨0, 2⟩ ⟨2, 3⟩) ∧ ¬ T.Consistent := by
  obtain ⟨hfitting, haccepts, hlists, -⟩ := Machine.checks_classify heterogeneous
  obtain ⟨hconsistent, hroots⟩ := haccepts.1 rfl
  let colliding : Tables := Tables.build [padBlock 0 [0]]
    [⟨0, "IO", [⟨"west", ⟨0, 2⟩, [0], padPorts⟩, ⟨"east", ⟨2, 3⟩, [0], padPorts⟩]⟩]
  obtain ⟨-, -, -, hreport, -, hfault⟩ := Machine.checks_classify colliding
  have hcollide : Machine.checking.validate colliding =
      .error (.failure (.overlappingCapacity "IO" ⟨0, 2⟩ ⟨2, 3⟩)) := rfl
  have hpresent := hreport _ hcollide
  exact ⟨⟨hroots, fun m => (hfitting m hroots).1.2 hconsistent, hconsistent, hlists rfl 0 2⟩,
    colliding, hcollide, hpresent, hfault _ hpresent⟩

/-- The tile at all locations is consistent. A machine that checks stops at the number of its
locations, and one that wraps at the remainder by it. -/
theorem Samples.allLocations_unaccepted :
    allLocations.Consistent ∧ Machine.checking.validate allLocations = Run.overflow ∧
      Machine.wrapping.validate allLocations = .error (.stop .divisionByZero) :=
  ⟨allLocations.validate_eq_ok_iff.1 rfl, rfl, rfl⟩

end PinNumbering
