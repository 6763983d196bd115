import PinNumbering.Machine.RootPin
import PinNumbering.Proofs.Machine.Faithful
import PinNumbering.Proofs.Machine.Limits
/-! # Root pins on a machine are those of the numbers

Each look-up among the root pins is faithful on any tables. The sums that a search forms are those
of the pins it has passed, so the pin that it looks for is never below the sum; what a quotient
divides by was found to be positive; and a location lies in the range whose first one is taken off.
-/
set_option autoImplicit false

namespace PinNumbering

open Run (Faithful)

namespace Machine
variable {ε : Type} {fits : Prop}

/-! ## Sub tiles and ports -/

theorem faithful_total {r : CapacityRange} (hfits : fits → r.total < wordLimit) :
    Faithful fits (fun m => m.total r : Machine → Run ε Nat) (.ok r.total) := by
  unfold total
  by_cases h : r.high < r.low
  · have htotal : r.total = 0 := by
      rw [CapacityRange.total]
      omega
    simp only [if_pos h, htotal]
    exact .pure 0
  · have htotal : r.total = r.high - r.low + 1 := by
      rw [CapacityRange.total]
      omega
    rw [htotal] at hfits ⊢
    simp only [if_neg h]
    exact .add hfits

theorem total_eq (m : Machine) {r : CapacityRange} (h : r.total < wordLimit) :
    (m.total r : Run ε Nat) = .ok r.total :=
  (faithful_total fun h => h).eq_of_fits h m

theorem total_lt {m : Machine} {r : CapacityRange} {n : Nat}
    (h : (m.total r : Run ε Nat) = .ok n) : n < wordLimit := by
  unfold total at h
  by_cases hinverted : r.high < r.low
  · rw [if_pos hinverted, pure_eq_ok_iff] at h
    rw [← h]
    decide
  · rw [if_neg hinverted] at h
    exact m.number_lt h

/-- A machine that checks goes on only with a number of locations that fits. -/
theorem total_lt_of_checking {r : CapacityRange} {n : Nat}
    (h : (checking.total r : Run ε Nat) = .ok n) : r.total < wordLimit := by
  obtain ⟨htotal, -⟩ := (faithful_total False.elim).eq_of_ok h
  rw [Except.ok.inj htotal]
  exact total_lt h

theorem faithful_pinsPerInstance {s : SubTile} (hfits : fits → s.capacity.total < wordLimit) :
    Faithful fits (fun m => m.pinsPerInstance s : Machine → Run ε Nat) (.ok s.pinsPerInstance) :=
  (faithful_total hfits).after (.pure _)

theorem faithful_portContains {p : Port} (pin : Nat)
    (hfits : fits → p.firstPin + p.numPins < wordLimit) :
    Faithful fits (fun m => m.portContains p pin : Machine → Run ε Bool)
      (.ok (p.contains pin)) := by
  unfold portContains Port.contains
  by_cases h : p.firstPin ≤ pin
  · simp only [if_pos h, decide_eq_true h, Bool.true_and]
    exact (Faithful.add hfits).after (.pure _)
  · simp only [if_neg h, decide_eq_false h, Bool.false_and]
    exact .pure false

/-! ## Searches that count root pins -/

theorem faithful_ownerFrom {pin base : Nat} (h : base ≤ pin) {subTiles : List SubTile}
    (hfits : fits → SubTile.RootsFit base subTiles) :
    Faithful fits (fun m => m.ownerFrom pin base subTiles : Machine → Run ε _)
      (.ok (SubTile.ownerAmong? subTiles (pin - base))) := by
  induction subTiles generalizing base with
  | nil => exact .ok none
  | cons s rest ih =>
    unfold ownerFrom SubTile.ownerAmong?
    refine (Faithful.add fun hf => (hfits hf).next_lt).after ?_
    by_cases hpin : pin < base + s.numPins
    · have hpin' : pin - base < s.numPins := by omega
      simp only [if_pos hpin, if_pos hpin']
      refine (faithful_pinsPerInstance fun hf => (hfits hf).total s List.mem_cons_self).after ?_
      by_cases hpos : 0 < s.pinsPerInstance
      · simp only [if_pos hpos]
        exact (Faithful.sub h).after (.pure _)
      · simp only [if_neg hpos]
        exact .pure none
    · have hpin' : ¬ pin - base < s.numPins := by omega
      simp only [if_neg hpin, if_neg hpin']
      rw [Nat.sub_sub]
      exact ih (Nat.not_lt.1 hpin) fun hf => (hfits hf).tail

theorem faithful_findWithBaseFrom (p : SubTile → Bool) (base : Nat) {subTiles : List SubTile}
    (hfits : fits → SubTile.RootsFit base subTiles) :
    Faithful fits (fun m => m.findWithBaseFrom p base subTiles : Machine → Run ε _)
      (.ok (SubTile.findWithBaseAmong? p base subTiles)) := by
  induction subTiles generalizing base with
  | nil => exact .ok none
  | cons s rest ih =>
    unfold findWithBaseFrom SubTile.findWithBaseAmong?
    cases p s with
    | true => exact .ok (some (base, s))
    | false =>
      exact (Faithful.add fun hf => (hfits hf).next_lt).after (ih _ fun hf => (hfits hf).tail)

theorem faithful_rootPin? {tile : Tile} (pin : Nat) (hfits : fits → tile.RootsFit) :
    Faithful fits (fun m => m.rootPin? tile pin : Machine → Run ε _) (.ok (tile.rootPin? pin)) := by
  unfold rootPin? Tile.rootPin?
  refine (faithful_ownerFrom (Nat.zero_le pin) hfits).after ?_
  rw [Nat.sub_zero]
  have howner : SubTile.ownerAmong? tile.subTiles pin = tile.owner? pin := rfl
  rw [howner]
  cases h : tile.owner? pin with
  | none => exact .ok none
  | some owner =>
    obtain ⟨s, offset⟩ := owner
    obtain ⟨_, hs, -, hpos, -⟩ := SubTile.ownerAmong?_eq_some_iff.1 h
    exact (faithful_pinsPerInstance fun hf => (hfits hf).total s (List.mem_of_getElem? hs)).after
      ((Faithful.quotient hpos).after ((Faithful.remainder hpos).after (.ok _)))

theorem faithful_resolveRootPin {tile : Tile} (pin : Nat) (hfits : fits → tile.RootsFit) :
    Faithful fits (fun m => m.resolveRootPin tile pin) (tile.resolveRootPin pin) :=
  (faithful_rootPin? pin hfits).after (.of _)

/-! ## Look-ups -/

section Tables
variable (T : Tables) (t : TileId)

theorem sub_low_of_findHostAt {tile : Tile} {b : BlockId} {location : Nat} {s : SubTile}
    (h : T.findHostAt tile b location = .ok s) : s.capacity.low ≤ location := by
  have hhost : tile.hostAt? b location = some s := orFail_eq_ok_iff.1 h
  have htakes := List.find?_some hhost
  rw [Bool.and_eq_true, CapacityRange.contains_iff] at htakes
  exact htakes.2.1

theorem faithful_rootPinAtLocation (b : BlockId) (location logicalPin : Nat) :
    Faithful False (fun m => m.rootPinAtLocation T t b location logicalPin)
      (T.rootPinAtLocation t b location logicalPin) := by
  refine (Faithful.of (T.findTile t)).bind fun tile _ => ?_
  refine (Faithful.of (T.findHostAt tile b location)).bind fun s hs => ?_
  refine (Faithful.sub (sub_low_of_findHostAt T hs)).after ?_
  refine (Faithful.of _).bind fun pin _ => (Faithful.of _).bind fun first _ => ?_
  exact (faithful_pinsPerInstance False.elim).after
    ((Faithful.mul False.elim).after (.add False.elim))

theorem faithful_instanceOutOfRange {α : Type} (tile : Tile) {s : SubTile} {inst : Nat}
    (hfits : fits → s.capacity.low + inst < wordLimit) :
    Faithful fits (fun m => m.instanceOutOfRange tile s inst : Machine → Run LookupError α)
      (.error (.capacityOutOfRange tile.name (s.capacity.low + inst))) :=
  (Faithful.add hfits).after (.error _)

theorem faithful_rootPinOfInstance {subTile : Nat} {b : BlockId} {inst logicalPin : Nat}
    (hfits : fits → ∀ tile s, T.tile? t = some tile → tile.subTiles[subTile]? = some s →
      T.InstanceFits tile s b inst logicalPin) :
    Faithful fits (fun m => m.rootPinOfInstance T t subTile b inst logicalPin)
      (T.rootPinOfInstance t subTile b inst logicalPin) := by
  refine (Faithful.of (T.findTile t)).bind fun tile htile => ?_
  refine (Faithful.of (tile.findSubTile subTile)).bind fun s hs => ?_
  have hfits : fits → T.InstanceFits tile s b inst logicalPin := fun hf =>
    hfits hf tile s (orFail_eq_ok_iff.1 htile) (orFail_eq_ok_iff.1 hs)
  refine (faithful_total fun hf => (hfits hf).total).after ?_
  by_cases hinst : inst < s.capacity.total
  · simp only [if_pos hinst, LookupError.unless]
    refine (Faithful.of (T.findDirectPin tile s b logicalPin)).bind fun pin hpin => ?_
    refine (faithful_pinsPerInstance fun hf => (hfits hf).total).after
      ((Faithful.mul fun hf => ?_).after
        ((Faithful.add fun hf => (hfits hf).position pin hpin).after (.of _)))
    have hposition := (hfits hf).position pin hpin
    omega
  · simp only [if_neg hinst, LookupError.unless]
    exact faithful_instanceOutOfRange tile fun hf => (hfits hf).location (Nat.not_lt.1 hinst)

theorem faithful_coordinates (pin : Nat)
    (hroots : fits → ∀ tile, T.tile? t = some tile → tile.RootsFit)
    (hlocation : fits → ∀ tile root, T.tile? t = some tile → tile.rootPin? pin = some root →
      root.location < wordLimit) :
    Faithful fits (fun m => m.coordinates T t pin) (T.coordinates t pin) := by
  refine (Faithful.of (T.findTile t)).bind fun tile htile => ?_
  have ht : T.tile? t = some tile := orFail_eq_ok_iff.1 htile
  refine (faithful_resolveRootPin pin fun hf => hroots hf tile ht).bind fun root hroot => ?_
  exact (Faithful.add fun hf => hlocation hf tile root ht (orFail_eq_ok_iff.1 hroot)).after (.ok _)

theorem faithful_rootPinAtCoordinates (instancePin location : Nat) :
    Faithful False (fun m => m.rootPinAtCoordinates T t instancePin location)
      (T.rootPinAtCoordinates t instancePin location) := by
  refine (Faithful.of (T.findTile t)).bind fun tile _ => ?_
  refine (faithful_findWithBaseFrom _ 0 False.elim).after ?_
  refine (Faithful.of _).bind fun found hfound => ?_
  obtain ⟨base, s⟩ := found
  have hcontains : s.capacity.contains location = true := by
    obtain ⟨-, -, hcontains, -⟩ := Tile.findWithBase?_eq_some_iff.1 (orFail_eq_ok_iff.1 hfound)
    exact hcontains
  have hlow : s.capacity.low ≤ location := ((s.capacity.contains_iff location).1 hcontains).1
  refine (Faithful.sub hlow).after ((faithful_pinsPerInstance False.elim).after ?_)
  refine (Faithful.of _).bind fun _ _ => ?_
  exact (Faithful.mul False.elim).after ((Faithful.add False.elim).after (.add False.elim))

/-- Adding up the pins of one site after the other gives their sum. -/
theorem foldlM_findBlock (sites : List BlockId) (sum : Nat) :
    sites.foldlM (fun sum b => do
        let block ← T.findBlock b
        return sum + block.totalPins) sum = do
      let blocks ← sites.mapM T.findBlock
      return sum + totalOf (blocks.map Block.totalPins) := by
  induction sites generalizing sum with
  | nil => rfl
  | cons b rest ih =>
    simp only [List.foldlM_cons, List.mapM_cons, bind_assoc, pure_bind, ih]
    simp [Nat.add_assoc]

theorem totalOf_totalPins {sites : List BlockId} {blocks : List Block}
    (h : sites.mapM T.findBlock = .ok blocks) :
    totalOf (blocks.map Block.totalPins) = totalOf (sites.map T.pinsOf) := by
  induction sites generalizing blocks with
  | nil =>
    cases h
    rfl
  | cons b rest ih =>
    rw [List.mapM_cons, bind_eq_ok_iff] at h
    obtain ⟨block, hblock, h⟩ := h
    obtain ⟨others, hothers, h⟩ := (bind_eq_ok_iff ..).1 h
    rw [pure_eq_ok_iff] at h
    rw [← h, List.map_cons, List.map_cons, totalOf_cons, totalOf_cons, ih hothers,
      Tables.pinsOf_eq (orFail_eq_ok_iff.1 hblock)]

theorem faithful_addPinsOf {sum : Nat} {b : BlockId} (hfits : fits → sum + T.pinsOf b < wordLimit) :
    Faithful fits (fun m => m.addPinsOf T sum b) (do
      let block ← T.findBlock b
      return sum + block.totalPins) := by
  refine (Faithful.of (T.findBlock b)).bind fun block hblock => .add fun hf => ?_
  have hpins := hfits hf
  rwa [Tables.pinsOf_eq (orFail_eq_ok_iff.1 hblock)] at hpins

theorem faithful_sumPins {sites : List BlockId}
    (hfits : fits → totalOf (sites.map T.pinsOf) < wordLimit) :
    Faithful fits (fun m => sites.foldlM (m.addPinsOf T) 0) (do
      let blocks ← sites.mapM T.findBlock
      return totalOf (blocks.map Block.totalPins)) := by
  have hexact := foldlM_findBlock T sites 0
  simp only [Nat.zero_add] at hexact
  rw [← hexact]
  refine Faithful.foldlM
    (fun rest sum => fits → sum + totalOf (rest.map T.pinsOf) < wordLimit) ?_ ?_ ?_
  · intro sum b rest hsum
    refine faithful_addPinsOf T fun hf => ?_
    have hall := hsum hf
    rw [List.map_cons, totalOf_cons] at hall
    omega
  · intro sum b rest sum' hsum hnext hf
    obtain ⟨block, hblock, hnext⟩ := (bind_eq_ok_iff ..).1 hnext
    have hall := hsum hf
    rw [List.map_cons, totalOf_cons, Tables.pinsOf_eq (orFail_eq_ok_iff.1 hblock),
      ← Nat.add_assoc] at hall
    rw [pure_eq_ok_iff] at hnext
    rwa [← hnext]
  · intro hf
    rw [Nat.zero_add]
    exact hfits hf

theorem faithful_numSubTileFlatPins (subTile : Nat)
    (hfits : fits → ∀ tile s, T.tile? t = some tile → tile.subTiles[subTile]? = some s →
      s.capacity.total < wordLimit ∧ s.instanceWeight T.pinsOf < wordLimit ∧
        s.instanceWeight T.pinsOf * s.capacity.total < wordLimit) :
    Faithful fits (fun m => m.numSubTileFlatPins T t subTile) (T.numSubTileFlatPins t subTile) := by
  refine (Faithful.of (T.findTile t)).bind fun tile htile => ?_
  refine (Faithful.of (tile.findSubTile subTile)).bind fun s hs => ?_
  have hfits := fun hf => hfits hf tile s (orFail_eq_ok_iff.1 htile) (orFail_eq_ok_iff.1 hs)
  have hproduct := (faithful_sumPins T fun hf => (hfits hf).2.1).bind
    (f := fun sum => .ok (sum * s.capacity.total)) fun sum hsum =>
      (faithful_total fun hf => (hfits hf).1).after (.mul fun hf => ?_)
  · refine hproduct.congr ?_
    simp only [bind_assoc]
    rfl
  · obtain ⟨blocks, hblocks, hsum⟩ := (bind_eq_ok_iff ..).1 hsum
    rw [pure_eq_ok_iff] at hsum
    rw [← hsum, totalOf_totalPins T hblocks]
    exact (hfits hf).2.2

end Tables

end Machine

end PinNumbering
