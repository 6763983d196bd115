import PinNumbering.Names
import PinNumbering.Proofs.FlatPins.Numbered
/-! # Root pins as places in ports

A root pin of a consistent tile that lies in a port is a sub tile, an instance, a port and a place
in the port, and such a place is one root pin. The ports of a sub tile may overlap: a pin then
counts for the first of them, and the others have no such place.

* `Tile.AtPort`: the root pin at a place of a port; `AtPort.pin_unique`, `AtPort.unique`.
* `resolvePortPin_eq_ok_iff`, `resolvePortPin_of_forall_not`: what a root pin resolves to.
* `Tile.portPin`: the place behind a root pin; `mapM_resolvePortPin_eq_ok_iff` for a list of pins.
* `SubTile.PortsFill`: where the ports of an instance fill it, no search decides. Each root pin is
  at a place of a port (`exists_atPort`), and each place of a port is that of a root pin
  (`atPort_iff`).
-/
set_option autoImplicit false

namespace PinNumbering

/-- The root pin at a place of a port of an instance. -/
def Tile.rootPinAt? (tile : Tile) (q : PortPin) : Option Nat :=
  tile.subTiles[q.subTile]?.map fun s =>
    tile.pinsBefore q.subTile + (q.inst * s.pinsPerInstance + (q.port.firstPin + q.pin))

/-- The instance exists, the port is the one that carries the pin there, and the number is that of
the pin. -/
def Tile.AtPort (tile : Tile) (q : PortPin) (pin : Nat) : Prop :=
  (∃ s, tile.subTiles[q.subTile]? = some s ∧ q.inst < s.capacity.total ∧
    q.port.firstPin + q.pin < s.pinsPerInstance ∧
    s.portContaining? (q.port.firstPin + q.pin) = some q.port) ∧
  tile.rootPinAt? q = some pin

/-- The place in a port behind a root pin; of no meaning where there is none. -/
def Tile.portPin (tile : Tile) (pin : Nat) : PortPin :=
  (tile.resolvePortPin pin).toOption.getD default

section Resolve
variable {T : Tables} {tile : Tile} {pin pin' : Nat} {q q' : PortPin}

theorem SubTile.contains_of_portContaining? {s : SubTile} {k : Nat} {port : Port}
    (h : s.portContaining? k = some port) :
    port ∈ s.ports ∧ port.firstPin ≤ k ∧ k < port.firstPin + port.numPins := by
  have hfound : s.ports.find? (fun port => port.contains k) = some port := h
  have hcontains := List.find?_some hfound
  rw [Port.contains_iff] at hcontains
  exact ⟨List.mem_of_find?_eq_some hfound, hcontains⟩

theorem Tile.Consistent.resolvePortPin_eq_ok_iff (h : tile.Consistent T) :
    tile.resolvePortPin pin = .ok q ↔ tile.AtPort q pin := by
  simp only [Tile.resolvePortPin, Tile.resolveRootPin, bind_eq_ok_iff, orFail_eq_ok_iff,
    pure_eq_ok_iff, h.rootPin?_eq_some_iff]
  constructor
  · rintro ⟨⟨s, inst, k⟩, ⟨i, hi, hinst, hk, hpin⟩, port, hport, rfl⟩
    simp only at hi hinst hk hpin
    -- The port holds the pin, so its first pin can be taken off and put back.
    have hport : s.portContaining? k = some port := hport
    have hindex : s.index = i := (h.subTile i s hi).index_eq
    obtain ⟨-, hfirst, -⟩ := SubTile.contains_of_portContaining? hport
    have hplace : port.firstPin + (k - port.firstPin) = k := by omega
    unfold Tile.AtPort Tile.rootPinAt?
    simp only [hindex, hplace, hi, Option.map_some]
    exact ⟨⟨s, rfl, hinst, hk, hport⟩, by rw [hpin]⟩
  · rintro ⟨⟨s, hs, hinst, hk, hport⟩, hpin⟩
    unfold Tile.rootPinAt? at hpin
    rw [hs, Option.map_some, Option.some.injEq] at hpin
    refine ⟨⟨s, q.inst, q.port.firstPin + q.pin⟩, ⟨q.subTile, hs, hinst, hk, hpin.symm⟩, q.port,
      hport, ?_⟩
    have hindex : s.index = q.subTile := (h.subTile _ s hs).index_eq
    rw [hindex, Nat.add_sub_cancel_left]

theorem Tile.Consistent.exists_rootPin_of_atPort (h : tile.Consistent T) (hq : tile.AtPort q pin) :
    ∃ root port, tile.resolveRootPin pin = .ok root ∧ root.port? = some port ∧
      tile.subTiles[root.subTile.index]? = some root.subTile ∧
      q = ⟨root.subTile.index, root.inst, port, root.instancePin - port.firstPin⟩ := by
  have hresolve := h.resolvePortPin_eq_ok_iff.2 hq
  simp only [Tile.resolvePortPin, bind_eq_ok_iff, orFail_eq_ok_iff, pure_eq_ok_iff] at hresolve
  obtain ⟨root, hroot, port, hport, rfl⟩ := hresolve
  obtain ⟨i, hi, -⟩ := h.rootPin?_eq_some_iff.1 (orFail_eq_ok_iff.1 hroot)
  have hindex : root.subTile.index = i := (h.subTile i _ hi).index_eq
  rw [← hindex] at hi
  exact ⟨root, port, hroot, hport, hi, rfl⟩

theorem Tile.AtPort.unique (h : tile.Consistent T) (hq : tile.AtPort q pin)
    (hq' : tile.AtPort q' pin) : q = q' := by
  have hresolve := h.resolvePortPin_eq_ok_iff.2 hq
  rw [h.resolvePortPin_eq_ok_iff.2 hq', Except.ok.injEq] at hresolve
  exact hresolve.symm

theorem Tile.AtPort.lt_numPins (h : tile.Consistent T) (hq : tile.AtPort q pin) :
    pin < tile.numPins := by
  obtain ⟨root, -, hroot, -⟩ := h.exists_rootPin_of_atPort hq
  exact (h.exists_rootPin?_iff pin).1 ⟨root, orFail_eq_ok_iff.1 hroot⟩

/-- In sub tiles whose ports carry their positions, the index of a port tells which port it is. -/
theorem Tile.AtPort.port_eq (hports : ∀ s ∈ tile.subTiles, s.PortsIndexed)
    (hq : tile.AtPort q pin) (hq' : tile.AtPort q' pin') (hsub : q.subTile = q'.subTile)
    (hindex : q.port.index = q'.port.index) : q.port = q'.port := by
  obtain ⟨⟨s, hs, -, -, hport⟩, -⟩ := hq
  obtain ⟨⟨s', hs', -, -, hport'⟩, -⟩ := hq'
  rw [← hsub, hs, Option.some.injEq] at hs'
  rw [← hs'] at hport'
  have hindexed := hports s (List.mem_of_getElem? hs)
  have hget := hindexed.getElem?_index (SubTile.contains_of_portContaining? hport).1
  rw [hindex, hindexed.getElem?_index (SubTile.contains_of_portContaining? hport').1,
    Option.some.injEq] at hget
  exact hget.symm

/-! ## Lists of pins -/

theorem Tile.Consistent.atPort_portPin_iff (h : tile.Consistent T) :
    tile.AtPort (tile.portPin pin) pin ↔ ∃ q, tile.AtPort q pin := by
  constructor
  · exact fun hq => ⟨_, hq⟩
  · rintro ⟨q, hq⟩
    have hplace : tile.portPin pin = q := by
      rw [Tile.portPin, h.resolvePortPin_eq_ok_iff.2 hq]
      rfl
    rw [hplace]
    exact hq

theorem Tile.Consistent.mapM_resolvePortPin_eq_ok_iff (h : tile.Consistent T) {pins : List Nat}
    {qs : List PortPin} :
    pins.mapM tile.resolvePortPin = .ok qs ↔
      (∀ pin ∈ pins, ∃ q, tile.AtPort q pin) ∧ qs = pins.map tile.portPin := by
  have hplace : ∀ pin q, tile.resolvePortPin pin = .ok q → q = tile.portPin pin := by
    intro pin q hq
    rw [Tile.portPin, hq]
    rfl
  rw [mapM_eq_ok_iff tile.portPin hplace]
  simp only [h.resolvePortPin_eq_ok_iff, h.atPort_portPin_iff]

end Resolve

/-! ## Ports that fill an instance -/

section PortsFill
variable {s : SubTile} {port : Port} {k : Nat}

theorem SubTile.PortsFill.portContaining?_eq_some_iff (h : s.PortsFill) :
    s.portContaining? k = some port ↔
      port ∈ s.ports ∧ port.firstPin ≤ k ∧ k < port.firstPin + port.numPins := by
  unfold portContaining?
  rw [find?_eq_some_iff_of_pairwise, Port.contains_iff]
  apply (h.endToEnd.disjoint k).imp
  intro p q hpq
  rw [Port.contains_iff, Port.contains_iff]
  exact hpq

theorem SubTile.PortsFill.exists_portContaining? (h : s.PortsFill) (hk : k < s.pinsPerInstance) :
    ∃ port, s.portContaining? k = some port := by
  rw [← h.total_eq] at hk
  obtain ⟨port, hport, hcontains⟩ := (h.endToEnd.exists_mem_iff k).2 (by omega)
  exact ⟨port, h.portContaining?_eq_some_iff.2 ⟨hport, hcontains⟩⟩

theorem SubTile.PortsFill.firstPin_add_lt (h : s.PortsFill) (hport : port ∈ s.ports)
    (hk : k < port.numPins) : port.firstPin + k < s.pinsPerInstance := by
  have hend := h.endToEnd.lt_end hport hk
  have htotal := h.total_eq
  omega

variable {T : Tables} {tile : Tile} {q : PortPin} {pin : Nat}

theorem Tile.atPort_iff (hports : ∀ s ∈ tile.subTiles, s.PortsFill) :
    tile.AtPort q pin ↔ ∃ s, tile.subTiles[q.subTile]? = some s ∧ q.inst < s.capacity.total ∧
      q.port ∈ s.ports ∧ q.pin < q.port.numPins ∧
      pin = tile.pinsBefore q.subTile +
        (q.inst * s.pinsPerInstance + (q.port.firstPin + q.pin)) := by
  unfold AtPort rootPinAt?
  constructor
  · rintro ⟨⟨s, hs, hinst, -, hport⟩, hpin⟩
    have hfill := hports s (List.mem_of_getElem? hs)
    rw [hs, Option.map_some, Option.some.injEq] at hpin
    obtain ⟨hmem, -, hlt⟩ := hfill.portContaining?_eq_some_iff.1 hport
    exact ⟨s, hs, hinst, hmem, by omega, hpin.symm⟩
  · rintro ⟨s, hs, hinst, hmem, hlt, rfl⟩
    have hfill := hports s (List.mem_of_getElem? hs)
    have hcontains := hfill.portContaining?_eq_some_iff.2
      ⟨hmem, Nat.le_add_right q.port.firstPin q.pin, by omega⟩
    refine ⟨⟨s, hs, hinst, hfill.firstPin_add_lt hmem hlt, hcontains⟩, ?_⟩
    rw [hs, Option.map_some]

theorem Tile.Consistent.exists_atPort (h : tile.Consistent T)
    (hports : ∀ s ∈ tile.subTiles, s.PortsFill) (hpin : pin < tile.numPins) :
    ∃ q, tile.AtPort q pin := by
  obtain ⟨⟨s, inst, k⟩, hroot⟩ := (h.exists_rootPin?_iff pin).2 hpin
  obtain ⟨i, hi, -, hk, -⟩ := h.rootPin?_eq_some_iff.1 hroot
  obtain ⟨port, hport⟩ := (hports s (List.mem_of_getElem? hi)).exists_portContaining? hk
  have hresolve : tile.resolvePortPin pin = .ok ⟨s.index, inst, port, k - port.firstPin⟩ := by
    simp only [Tile.resolvePortPin, Tile.resolveRootPin, bind_eq_ok_iff, orFail_eq_ok_iff,
      pure_eq_ok_iff]
    exact ⟨_, hroot, port, hport, rfl⟩
  exact ⟨_, h.resolvePortPin_eq_ok_iff.1 hresolve⟩

end PortsFill

end PinNumbering
