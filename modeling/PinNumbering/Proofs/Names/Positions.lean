import PinNumbering.Proofs.FlatPins.Internal
import PinNumbering.Proofs.Names.PortPins
/-! # Positions of root pins in order

The root pins of a tile are numbered sub tile by sub tile, within a sub tile instance by instance,
within an instance port by port. Where the ports fill their instances, the position of a root pin is
these numbers read back: each position of a pin of a port is that of one root pin, and root pins
ascend exactly as their positions do, the widest number first.

Each of the three levels is a sequence of runs laid end to end (`run_lt_run_iff`), the instances of
a sub tile being runs of one length (`mul_add_lt_mul_add_iff`). So a comparison of root pins is
settled on the first level at which the pins differ.

* `PortPosition.digits`: the numbers of a position, for comparison.
* `portPosition_of_atPort`, `portPosition_of_le`: what the position of a number is;
  `exists_atPort_of_portPosition`, what a position says.
* `lt_iff_of_atPort`: the order of root pins.
-/
set_option autoImplicit false

namespace PinNumbering

/-- The numbers of a position: sub tile, instance, and port and place if there is a port. -/
def PortPosition.digits (p : PortPosition) : List Nat :=
  match p.place with
  | some (port, place) => [p.subTile, p.inst, port, place]
  | none => [p.subTile, p.inst]

/-- The position that declared indices give to a place of a port. -/
def PortPin.position (q : PortPin) : PortPosition :=
  ⟨q.subTile, q.inst, some (q.port.index, q.pin)⟩

theorem PortPin.digits_lt_iff {q q' : PortPin} :
    q.position.digits < q'.position.digits ↔ q.subTile < q'.subTile ∨ q.subTile = q'.subTile ∧
      (q.inst < q'.inst ∨ q.inst = q'.inst ∧
        (q.port.index < q'.port.index ∨ q.port.index = q'.port.index ∧ q.pin < q'.pin)) := by
  show [q.subTile, q.inst, q.port.index, q.pin] < [q'.subTile, q'.inst, q'.port.index, q'.pin] ↔ _
  simp only [List.cons_lt_cons_iff, List.lt_irrefl, and_false, or_false]

theorem Tables.rootPinBase?_laidOut (T : Tables) {tile : Tile} {i : Nat} {s : SubTile}
    (hs : tile.subTiles[i]? = some s) :
    (T.laidOut tile).rootPinBase? i = some (tile.pinsBefore i) := by
  show (startsFrom 0 (tile.subTiles.map SubTile.numPins))[i]? = _
  rw [getElem?_startsFrom (Tile.getElem?_map_numPins hs), Nat.zero_add, Tile.pinsBefore_eq]

section Positions
variable {T T' : Tables} {tile : Tile} {t : TileId} {pin pin' : Nat} {q q' : PortPin}

/-! ## One root pin -/

theorem Tile.Consistent.portPosition_of_atPort (h : tile.Consistent T') (ht : T.tile? t = some tile)
    (hq : tile.AtPort q pin) : T.portPosition t pin = .ok q.position := by
  have htile := Tables.findTile_eq_ok ht
  obtain ⟨root, port, hroot, hport, -, rfl⟩ := h.exists_rootPin_of_atPort hq
  simp only [Tables.portPosition, htile, hroot, hport, bind_eq_ok_iff, pure_eq_ok_iff,
    Except.ok.injEq, exists_eq_left']
  rfl

theorem Tile.Consistent.portPosition_of_le (h : tile.Consistent T') (ht : T.tile? t = some tile)
    (hpin : tile.numPins ≤ pin) :
    T.portPosition t pin = .error (.pinOutOfRange tile.name pin tile.numPins) := by
  have htile := Tables.findTile_eq_ok ht
  have hnone := (h.rootPin?_eq_none_iff pin).2 hpin
  simp only [Tables.portPosition, htile, Tile.resolveRootPin, hnone, orFail_none, bind,
    Except.bind]

theorem Tile.Consistent.exists_atPort_of_portPosition (h : tile.Consistent T')
    (hports : ∀ s ∈ tile.subTiles, s.PortsFill) (ht : T.tile? t = some tile) {p : PortPosition}
    (hp : T.portPosition t pin = .ok p) : ∃ q, tile.AtPort q pin ∧ q.position = p := by
  have hpin : pin < tile.numPins := by
    rcases Nat.lt_or_ge pin tile.numPins with hlt | hle
    · exact hlt
    · rw [h.portPosition_of_le ht hle] at hp
      cases hp
  obtain ⟨q, hq⟩ := h.exists_atPort hports hpin
  rw [h.portPosition_of_atPort ht hq, Except.ok.injEq] at hp
  exact ⟨q, hq, hp⟩

/-! ## Two root pins -/

theorem SubTile.PortsFill.lt_iff {s : SubTile} (hfill : s.PortsFill) (hindexed : s.PortsIndexed)
    {port port' : Port} (hport : port ∈ s.ports) (hport' : port' ∈ s.ports) {k k' : Nat}
    (hk : k < port.numPins) (hk' : k' < port'.numPins) :
    port.firstPin + k < port'.firstPin + k' ↔
      port.index < port'.index ∨ port.index = port'.index ∧ k < k' := by
  have hget := hindexed.getElem?_index hport
  have hget' := hindexed.getElem?_index hport'
  have hlength : (s.ports.map Port.numPins)[port.index]? = some port.numPins := by
    rw [List.getElem?_map, hget, Option.map_some]
  have hlength' : (s.ports.map Port.numPins)[port'.index]? = some port'.numPins := by
    rw [List.getElem?_map, hget', Option.map_some]
  rw [hfill.endToEnd.start_eq hget, hfill.endToEnd.start_eq hget', Nat.zero_add, Nat.zero_add]
  exact run_lt_run_iff hlength hlength' hk hk'

theorem Tile.Consistent.lt_iff_of_atPort (h : tile.Consistent T)
    (hports : ∀ s ∈ tile.subTiles, s.PortsIndexed ∧ s.PortsFill) (hq : tile.AtPort q pin)
    (hq' : tile.AtPort q' pin') : pin < pin' ↔ q.position.digits < q'.position.digits := by
  have hfill : ∀ s ∈ tile.subTiles, s.PortsFill := fun s hs => (hports s hs).2
  obtain ⟨s, hs, hinst, hport, hk, rfl⟩ := (tile.atPort_iff hfill).1 hq
  obtain ⟨s', hs', hinst', hport', hk', rfl⟩ := (tile.atPort_iff hfill).1 hq'
  have hplace := (hfill s (List.mem_of_getElem? hs)).firstPin_add_lt hport hk
  have hplace' := (hfill s' (List.mem_of_getElem? hs')).firstPin_add_lt hport' hk'
  have hoffset := (h.subTile _ s hs).pin_lt_numPins hinst hplace
  have hoffset' := (h.subTile _ s' hs').pin_lt_numPins hinst' hplace'
  rw [PortPin.digits_lt_iff, pinsBefore_eq, pinsBefore_eq,
    run_lt_run_iff (getElem?_map_numPins hs) (getElem?_map_numPins hs') hoffset hoffset']
  -- The sub tile decides unless both pins are in one; then so does the instance.
  apply or_congr_right
  apply and_congr_right
  intro hsub
  rw [hsub, hs', Option.some.injEq] at hs
  subst hs
  rw [mul_add_lt_mul_add_iff hplace hplace']
  apply or_congr_right
  apply and_congr_right
  intro _
  obtain ⟨hindexed, hfill⟩ := hports s' (List.mem_of_getElem? hs')
  exact hfill.lt_iff hindexed hport hport' hk hk'

end Positions

/-! ## All root pins -/

/-- On tables that pass the checks and whose ports carry their positions and fill their instances,
the position of a root pin is a pin of a port of an instance, and the numbers of the position add up
to the root pin. Each such position is that of a root pin, root pins ascend as their positions do,
and a number past the root pins has no position. -/
theorem Tables.portPosition_orderIso (T : Tables) (hT : T.validate = .ok ())
    (hports : ∀ tile ∈ T.tiles, ∀ s ∈ tile.subTiles, s.PortsIndexed ∧ s.PortsFill) (t : TileId)
    (tile : Tile) (ht : T.tile? t = some tile) :
    ∃ L, T.layout t = .ok L ∧
      (∀ pin < tile.numPins, ∃ i inst j k s port base,
        T.portPosition t pin = .ok ⟨i, inst, some (j, k)⟩ ∧ tile.subTiles[i]? = some s ∧
        inst < s.capacity.total ∧ s.ports[j]? = some port ∧ k < port.numPins ∧
        L.rootPinBase? i = some base ∧
        pin = base + inst * s.pinsPerInstance + port.firstPin + k) ∧
      (∀ i inst j k s port, tile.subTiles[i]? = some s → inst < s.capacity.total →
        s.ports[j]? = some port → k < port.numPins →
          ∃ pin < tile.numPins, T.portPosition t pin = .ok ⟨i, inst, some (j, k)⟩) ∧
      (∀ pin < tile.numPins, ∀ pin' < tile.numPins, ∀ p p', T.portPosition t pin = .ok p →
        T.portPosition t pin' = .ok p' → (pin < pin' ↔ p.digits < p'.digits)) ∧
      ∀ pin, tile.numPins ≤ pin →
        T.portPosition t pin = .error (.pinOutOfRange tile.name pin tile.numPins) := by
  have h : tile.Consistent T := ((T.validate_eq_ok_iff.1 hT).tile t tile ht).2
  have hports : ∀ s ∈ tile.subTiles, s.PortsIndexed ∧ s.PortsFill :=
    hports tile (List.mem_of_getElem? ht)
  have hfill : ∀ s ∈ tile.subTiles, s.PortsFill := fun s hs => (hports s hs).2
  refine ⟨T.laidOut tile, h.layout_eq ht, ?_, ?_, ?_, ?_⟩
  · intro pin hpin
    obtain ⟨q, hq⟩ := h.exists_atPort hfill hpin
    obtain ⟨s, hs, hinst, hport, hk, hsum⟩ := (tile.atPort_iff hfill).1 hq
    have hget := (hports s (List.mem_of_getElem? hs)).1.getElem?_index hport
    exact ⟨q.subTile, q.inst, q.port.index, q.pin, s, q.port, _, h.portPosition_of_atPort ht hq,
      hs, hinst, hget, hk, T.rootPinBase?_laidOut hs, by omega⟩
  · intro i inst j k s port hs hinst hget hk
    have hindex : port.index = j :=
      eq_of_map_eq_range (hports s (List.mem_of_getElem? hs)).1 hget
    have hq := (tile.atPort_iff (q := ⟨i, inst, port, k⟩) hfill).2
      ⟨s, hs, hinst, List.mem_of_getElem? hget, hk, rfl⟩
    refine ⟨_, hq.lt_numPins h, ?_⟩
    rw [h.portPosition_of_atPort ht hq, PortPin.position, hindex]
  · intro pin hpin pin' hpin' p p' hp hp'
    obtain ⟨q, hq⟩ := h.exists_atPort hfill hpin
    obtain ⟨q', hq'⟩ := h.exists_atPort hfill hpin'
    rw [h.portPosition_of_atPort ht hq, Except.ok.injEq] at hp
    rw [h.portPosition_of_atPort ht hq', Except.ok.injEq] at hp'
    rw [← hp, ← hp']
    exact h.lt_iff_of_atPort hports hq hq'
  · intro pin hpin
    exact h.portPosition_of_le ht hpin

/-- In the logic tile, root pin 12 is the second pin of the second port of the second instance of
the first sub tile, so it precedes pin 15 of the memory; the memory's last pin is 18, and 19 is
none. -/
theorem Samples.heterogeneous_positions :
    heterogeneous.validate = .ok () ∧
    (∀ tile ∈ heterogeneous.tiles, ∀ s ∈ tile.subTiles, s.PortsIndexed ∧ s.PortsFill) ∧
    ∃ tile s port L, heterogeneous.tile? 0 = some tile ∧ tile.subTiles[1]? = some s ∧
      s.ports[1]? = some port ∧ 0 < s.capacity.total ∧ 1 < port.numPins ∧ tile.numPins = 19 ∧
      heterogeneous.layout 0 = .ok L ∧
      heterogeneous.portPosition 0 12 = .ok ⟨0, 1, some (1, 1)⟩ ∧
      heterogeneous.portPosition 0 15 = .ok ⟨1, 0, some (0, 1)⟩ ∧
      (12 < 15 ↔ (⟨0, 1, some (1, 1)⟩ : PortPosition).digits <
        (⟨1, 0, some (0, 1)⟩ : PortPosition).digits) ∧
      (∃ pin < 19, heterogeneous.portPosition 0 pin = .ok ⟨1, 0, some (1, 1)⟩) ∧
      heterogeneous.portPosition 0 19 = .error (.pinOutOfRange "CLB_TILE" 19 19) := by
  have hports : ∀ tile ∈ heterogeneous.tiles, ∀ s ∈ tile.subTiles,
      s.PortsIndexed ∧ s.PortsFill := by decide
  obtain ⟨L, hL, -, honto, hascending, hpast⟩ :=
    heterogeneous.portPosition_orderIso rfl hports 0 _ rfl
  exact ⟨rfl, hports, _, _, _, L, rfl, rfl, rfl, by decide, by decide, rfl, hL, rfl, rfl,
    hascending 12 (by decide) 15 (by decide) _ _ rfl rfl,
    honto 1 0 1 1 _ _ rfl (by decide) rfl (by decide), hpast 19 (by decide)⟩

end PinNumbering
