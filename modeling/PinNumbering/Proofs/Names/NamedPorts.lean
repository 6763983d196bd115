import PinNumbering.Proofs.Names.Positions
import PinNumbering.Proofs.RootPins.Ways
import PinNumbering.Proofs.Tables.Totality
/-! # Root pins named by their port

The name of a port and a place in it lead to a root pin of a first instance: the first sub tile with
a port of the name counts, and in it the first such port. This search keeps a count of the root pins
that it passes, apart from the scan that resolves a root pin. Both agree: the root pin found has the
position asked for, and from its position it is found again, unless a port of the same name comes
before its own.

* `Tile.FirstNamed`: the port that a name leads to; `exists_firstNamed`.
* `rootPinOfPort?_of_firstNamed`, `rootPinOfPort?_of_forall_ne`: the search by what comes first.
* `atPort_of_firstNamed`, `rootPinOfPort?_of_portPosition`: there and back.
* `classOfPort_eq_none_iff`, `classOfPort_of_some`: the class found that way, if its direction is
  the one asked for.
-/
set_option autoImplicit false

namespace PinNumbering

/-! ## The first port of a name -/

/-- The port at a position of a sub tile, and the first of its name: no earlier port of the sub tile
and no port of an earlier sub tile has the name. -/
structure Tile.FirstNamed (tile : Tile) (name : String) (i : Nat) (s : SubTile) (j : Nat)
    (port : Port) : Prop where
  subTile_at : tile.subTiles[i]? = some s
  port_at : s.ports[j]? = some port
  name_eq : port.name = name
  not_before : ∀ x ∈ tile.subTiles.take i, ∀ p ∈ x.ports, p.name ≠ name
  not_earlier : ∀ p ∈ s.ports.take j, p.name ≠ name

theorem find?_eq_some_iff_take {α : Type} {p : α → Bool} {xs : List α} {a : α} :
    xs.find? p = some a ↔ ∃ i, xs[i]? = some a ∧ p a = true ∧ ∀ x ∈ xs.take i, p x = false := by
  rw [List.find?_eq_some_iff_append]
  constructor
  · rintro ⟨ha, before, after, rfl, hbefore⟩
    exact ⟨before.length, by simp, ha, by simpa using hbefore⟩
  · rintro ⟨i, hi, ha, hbefore⟩
    obtain ⟨hlt, rfl⟩ := List.getElem?_eq_some_iff.1 hi
    refine ⟨ha, xs.take i, xs.drop (i + 1), ?_, by simpa using hbefore⟩
    rw [List.getElem_cons_drop hlt, List.take_append_drop]

theorem SubTile.portNamed?_eq_some_iff {s : SubTile} {name : String} {port : Port} :
    s.portNamed? name = some port ↔
      ∃ j, s.ports[j]? = some port ∧ port.name = name ∧ ∀ p ∈ s.ports.take j, p.name ≠ name := by
  unfold portNamed?
  rw [find?_eq_some_iff_take]
  simp only [beq_iff_eq, beq_eq_false_iff_ne]

theorem SubTile.isSome_portNamed?_eq_false_iff {s : SubTile} {name : String} :
    (s.portNamed? name).isSome = false ↔ ∀ p ∈ s.ports, p.name ≠ name := by
  unfold portNamed?
  simp only [Option.isSome_eq_false_iff, Option.isNone_iff_eq_none, List.find?_eq_none,
    beq_iff_eq, ne_eq]

section Named
variable {T : Tables} {tile : Tile} {t : TileId} {name : String} {i j place pin : Nat} {s : SubTile}
  {port : Port}

theorem Tile.FirstNamed.portNamed? (hfirst : tile.FirstNamed name i s j port) :
    s.portNamed? name = some port :=
  SubTile.portNamed?_eq_some_iff.2 ⟨j, hfirst.port_at, hfirst.name_eq, hfirst.not_earlier⟩

theorem Tile.FirstNamed.findWithBase? (hfirst : tile.FirstNamed name i s j port) :
    tile.findWithBase? (fun s => (s.portNamed? name).isSome) = some (tile.pinsBefore i, s) := by
  rw [findWithBase?_eq_some_iff]
  refine ⟨i, hfirst.subTile_at, by rw [hfirst.portNamed?]; rfl, ?_, rfl⟩
  intro x hx
  exact SubTile.isSome_portNamed?_eq_false_iff.2 (hfirst.not_before x hx)

theorem Tile.exists_firstNamed (h : ∃ s ∈ tile.subTiles, ∃ port ∈ s.ports, port.name = name) :
    ∃ i s j port, tile.FirstNamed name i s j port := by
  cases hfound : tile.subTiles.find? (fun s => (s.portNamed? name).isSome) with
  | none =>
    obtain ⟨s, hs, port, hport, hname⟩ := h
    rw [List.find?_eq_none] at hfound
    have hnone := SubTile.isSome_portNamed?_eq_false_iff.1 (Bool.eq_false_iff.2 (hfound s hs))
    exact absurd hname (hnone port hport)
  | some s =>
    obtain ⟨i, hi, hsome, hbefore⟩ := find?_eq_some_iff_take.1 hfound
    obtain ⟨port, hport⟩ := Option.isSome_iff_exists.1 hsome
    obtain ⟨j, hj, hname, hearlier⟩ := SubTile.portNamed?_eq_some_iff.1 hport
    exact ⟨i, s, j, port, hi, hj, hname,
      fun x hx => SubTile.isSome_portNamed?_eq_false_iff.1 (hbefore x hx), hearlier⟩

/-! ## The search -/

theorem Tables.rootPinOfPort?_of_firstNamed (ht : T.tile? t = some tile)
    (hfirst : tile.FirstNamed name i s j port) :
    T.rootPinOfPort? t name place =
      if place < port.numPins then some (tile.pinsBefore i + port.firstPin + place)
      else none := by
  simp only [rootPinOfPort?, ht, hfirst.findWithBase?, hfirst.portNamed?, Option.bind_eq_bind,
    Option.bind_some]

theorem Tables.place_of_rootPinOfPort? (ht : T.tile? t = some tile)
    (hfirst : tile.FirstNamed name i s j port) (hpin : T.rootPinOfPort? t name place = some pin) :
    place < port.numPins ∧ pin = tile.pinsBefore i + port.firstPin + place := by
  rw [rootPinOfPort?_of_firstNamed ht hfirst, Option.ite_none_right_eq_some,
    Option.some.injEq] at hpin
  exact ⟨hpin.1, hpin.2.symm⟩

theorem Tables.rootPinOfPort?_of_forall_ne (ht : T.tile? t = some tile)
    (h : ∀ s ∈ tile.subTiles, ∀ port ∈ s.ports, port.name ≠ name) :
    T.rootPinOfPort? t name place = none := by
  have hfound : tile.findWithBase? (fun s => (s.portNamed? name).isSome) = none :=
    Tile.findWithBase?_eq_none_iff.2 fun s hs => SubTile.isSome_portNamed?_eq_false_iff.2 (h s hs)
  simp only [rootPinOfPort?, ht, hfound, Option.bind_eq_bind, Option.bind_some, Option.bind_none]

theorem Tables.exists_rootPinOfPort?_iff (ht : T.tile? t = some tile) :
    (∃ pin, T.rootPinOfPort? t name place = some pin) ↔
      ∃ i s j port, tile.FirstNamed name i s j port ∧ place < port.numPins := by
  constructor
  · intro ⟨pin, hpin⟩
    by_cases hnamed : ∃ s ∈ tile.subTiles, ∃ port ∈ s.ports, port.name = name
    · obtain ⟨i, s, j, port, hfirst⟩ := tile.exists_firstNamed hnamed
      exact ⟨i, s, j, port, hfirst, (place_of_rootPinOfPort? ht hfirst hpin).1⟩
    · have hnone : T.rootPinOfPort? t name place = none :=
        rootPinOfPort?_of_forall_ne ht fun s hs port hport hname =>
          hnamed ⟨s, hs, port, hport, hname⟩
      rw [hnone] at hpin
      cases hpin
  · intro ⟨i, s, j, port, hfirst, hplace⟩
    exact ⟨_, by rw [rootPinOfPort?_of_firstNamed ht hfirst, if_pos hplace]⟩

/-! ## There and back -/

theorem Tile.Consistent.atPort_of_firstNamed (h : tile.Consistent T)
    (hports : ∀ s ∈ tile.subTiles, s.PortsFill) (hfirst : tile.FirstNamed name i s j port)
    (hplace : place < port.numPins) :
    tile.AtPort ⟨i, 0, port, place⟩ (tile.pinsBefore i + port.firstPin + place) := by
  rw [tile.atPort_iff hports]
  refine ⟨s, hfirst.subTile_at, h.total_pos hfirst.subTile_at,
    List.mem_of_getElem? hfirst.port_at, hplace, ?_⟩
  simp only [Nat.zero_mul, Nat.zero_add, Nat.add_assoc]

theorem Tile.Consistent.rootPinAtCoordinates_of_firstNamed (h : tile.Consistent T)
    (hports : ∀ s ∈ tile.subTiles, s.PortsFill) (ht : T.tile? t = some tile)
    (hfirst : tile.FirstNamed name i s j port) (hplace : place < port.numPins) :
    T.rootPinAtCoordinates t (port.firstPin + place) s.capacity.low =
      .ok (tile.pinsBefore i + port.firstPin + place) := by
  have hs := hfirst.subTile_at
  have hlt := (hports s (List.mem_of_getElem? hs)).firstPin_add_lt
    (List.mem_of_getElem? hfirst.port_at) hplace
  rw [h.rootPinAtCoordinates_eq_ok_iff ht]
  refine ⟨i, s, hs, h.contains_low hs, hlt, ?_⟩
  rw [Nat.sub_self, Nat.zero_mul, Nat.zero_add, Nat.add_assoc]

/-- A position in a first instance leads back to its root pin if its port is the first of its
name. -/
theorem Tile.Consistent.rootPinOfPort?_of_portPosition (h : tile.Consistent T)
    (hports : ∀ s ∈ tile.subTiles, s.PortsIndexed ∧ s.PortsFill) (ht : T.tile? t = some tile)
    (hposition : T.portPosition t pin = .ok ⟨i, 0, some (j, place)⟩)
    (hfirst : tile.FirstNamed name i s j port) : T.rootPinOfPort? t name place = some pin := by
  have hfill : ∀ s ∈ tile.subTiles, s.PortsFill := fun s hs => (hports s hs).2
  obtain ⟨q, hq, hposition⟩ := h.exists_atPort_of_portPosition hfill ht hposition
  simp only [PortPin.position, PortPosition.mk.injEq, Option.some.injEq,
    Prod.mk.injEq] at hposition
  obtain ⟨rfl, hinst, rfl, rfl⟩ := hposition
  obtain ⟨s', hs', -, hport, hplace, hsum⟩ := (tile.atPort_iff hfill).1 hq
  -- The position names the sub tile and the port by their numbers, so they are the given ones.
  have hs := hfirst.subTile_at
  rw [hs', Option.some.injEq] at hs
  subst hs
  have hget := (hports s' (List.mem_of_getElem? hs')).1.getElem?_index hport
  rw [hfirst.port_at, Option.some.injEq] at hget
  subst hget
  rw [Tables.rootPinOfPort?_of_firstNamed ht hfirst, if_pos hplace, hsum, hinst, Nat.zero_mul,
    Nat.zero_add, Nat.add_assoc]

/-! ## Classes -/

theorem Tables.drives_eq_of_findClassOfPin (ht : T.tile? t = some tile)
    (hpin : pin < tile.numPins) {cls : Nat} {info : PinClass}
    (hclass : tile.findClassOfPin pin = .ok (cls, info)) :
    T.drives t pin = .ok (info.pinType == .driver) := by
  have htile := findTile_eq_ok ht
  simp only [drives, htile, if_pos hpin, hclass, bind, Except.bind, pure, Except.pure]

theorem PinType.eq_iff_driver (a b : PinType) : a = b ↔ (a = .driver ↔ b = .driver) := by
  cases a <;> cases b <;> decide

theorem Tables.classOfPort_of_none (ht : T.tile? t = some tile) {ty : PinType}
    (hnone : T.rootPinOfPort? t name place = none) :
    T.classOfPort t name place ty = .ok none := by
  have htile := findTile_eq_ok ht
  simp only [classOfPort, htile, hnone, bind, Except.bind, pure, Except.pure]

theorem Tables.classOfPort_of_some (ht : T.tile? t = some tile) (ty : PinType) {cls : Nat}
    {info : PinClass} (hsome : T.rootPinOfPort? t name place = some pin)
    (hclass : tile.findClassOfPin pin = .ok (cls, info)) :
    T.classOfPort t name place ty =
      if info.pinType = ty then .ok (some cls)
      else .error (.pinTypeMismatch tile.name cls ty info.pinType) := by
  have htile := findTile_eq_ok ht
  simp only [classOfPort, htile, hsome, hclass, LookupError.unless, bind, Except.bind]
  by_cases hty : info.pinType = ty
  · rw [if_pos hty, if_pos hty]
    rfl
  · rw [if_neg hty, if_neg hty]

theorem Tile.Consistent.exists_findClassOfPin_of_rootPinOfPort? (h : tile.Consistent T)
    (hports : ∀ s ∈ tile.subTiles, s.PortsFill) (ht : T.tile? t = some tile)
    (hpin : T.rootPinOfPort? t name place = some pin) :
    pin < tile.numPins ∧ ∃ cls info, tile.findClassOfPin pin = .ok (cls, info) := by
  obtain ⟨i, s, j, port, hfirst, hplace⟩ := (Tables.exists_rootPinOfPort?_iff ht).1 ⟨pin, hpin⟩
  obtain ⟨-, rfl⟩ := Tables.place_of_rootPinOfPort? ht hfirst hpin
  have hlt := (h.atPort_of_firstNamed hports hfirst hplace).lt_numPins h
  exact ⟨hlt, h.exists_findClassOfPin hlt⟩

theorem Tile.Consistent.classOfPort_eq_none_iff (h : tile.Consistent T)
    (hports : ∀ s ∈ tile.subTiles, s.PortsFill) (ht : T.tile? t = some tile) {ty : PinType} :
    T.classOfPort t name place ty = .ok none ↔ T.rootPinOfPort? t name place = none := by
  constructor
  · intro hnone
    cases hpin : T.rootPinOfPort? t name place with
    | none => rfl
    | some pin =>
      obtain ⟨-, cls, info, hclass⟩ := h.exists_findClassOfPin_of_rootPinOfPort? hports ht hpin
      rw [Tables.classOfPort_of_some ht ty hpin hclass] at hnone
      split at hnone <;> cases hnone
  · exact Tables.classOfPort_of_none ht

theorem Tables.drives_iff_driver_iff (ht : T.tile? t = some tile) (hpin : pin < tile.numPins)
    {cls : Nat} {info : PinClass} (hclass : tile.findClassOfPin pin = .ok (cls, info))
    (ty : PinType) : (T.drives t pin = .ok true ↔ ty = .driver) ↔ info.pinType = ty := by
  rw [drives_eq_of_findClassOfPin ht hpin hclass, Except.ok.injEq, beq_iff_eq,
    PinType.eq_iff_driver info.pinType ty]

end Named

/-- On tables that pass the checks and whose ports carry their positions and fill their instances, a
place of a named port leads to a root pin exactly if it lies in the first port of the name in the
first sub tile with such a port. The root pin then has this place for its position, in the first
instance, and stands at the first location of the sub tile. A root pin of a first instance is found
by the name of its port and its place there, if no port of the name comes before. The class found
through the name of a port is that of the root pin if the root pin drives a net exactly when a
driver is asked for; otherwise the class is reported with its direction. -/
theorem Tables.rootPinOfPort_portPosition (T : Tables) (hT : T.validate = .ok ())
    (hports : ∀ tile ∈ T.tiles, ∀ s ∈ tile.subTiles, s.PortsIndexed ∧ s.PortsFill) (t : TileId)
    (tile : Tile) (ht : T.tile? t = some tile) :
    (∀ name place, (∃ pin, T.rootPinOfPort? t name place = some pin) ↔
      ∃ i s j port, tile.FirstNamed name i s j port ∧ place < port.numPins) ∧
    (∀ name place pin i s j port, T.rootPinOfPort? t name place = some pin →
      tile.FirstNamed name i s j port → pin < tile.numPins ∧
        T.portPosition t pin = .ok ⟨i, 0, some (j, place)⟩ ∧
        T.rootPinAtCoordinates t (port.firstPin + place) s.capacity.low = .ok pin) ∧
    (∀ pin i s j k port, T.portPosition t pin = .ok ⟨i, 0, some (j, k)⟩ →
      tile.subTiles[i]? = some s → s.ports[j]? = some port →
      (∀ x ∈ tile.subTiles.take i, ∀ p ∈ x.ports, p.name ≠ port.name) →
      (∀ p ∈ s.ports.take j, p.name ≠ port.name) →
        T.rootPinOfPort? t port.name k = some pin) ∧
    ∀ name place ty,
      (T.classOfPort t name place ty = .ok none ↔ T.rootPinOfPort? t name place = none) ∧
      ∀ pin, T.rootPinOfPort? t name place = some pin → ∃ cls info,
        tile.classOfPin[pin]? = some cls ∧ tile.classes[cls]? = some info ∧
        ((T.drives t pin = .ok true ↔ ty = .driver) →
          T.classOfPort t name place ty = .ok (some cls)) ∧
        (¬ (T.drives t pin = .ok true ↔ ty = .driver) →
          T.classOfPort t name place ty =
            .error (.pinTypeMismatch tile.name cls ty info.pinType)) := by
  have h : tile.Consistent T := ((T.validate_eq_ok_iff.1 hT).tile t tile ht).2
  have hports : ∀ s ∈ tile.subTiles, s.PortsIndexed ∧ s.PortsFill :=
    hports tile (List.mem_of_getElem? ht)
  have hfill : ∀ s ∈ tile.subTiles, s.PortsFill := fun s hs => (hports s hs).2
  refine ⟨fun name place => exists_rootPinOfPort?_iff ht, ?_, ?_, ?_⟩
  · intro name place pin i s j port hpin hfirst
    obtain ⟨hplace, rfl⟩ := place_of_rootPinOfPort? ht hfirst hpin
    have hq := h.atPort_of_firstNamed hfill hfirst hplace
    have hindex : port.index = j :=
      eq_of_map_eq_range (hports s (List.mem_of_getElem? hfirst.subTile_at)).1 hfirst.port_at
    refine ⟨hq.lt_numPins h, ?_, h.rootPinAtCoordinates_of_firstNamed hfill ht hfirst hplace⟩
    rw [h.portPosition_of_atPort ht hq, PortPin.position, hindex]
  · intro pin i s j k port hposition hs hport hbefore hearlier
    exact h.rootPinOfPort?_of_portPosition hports ht hposition
      ⟨hs, hport, rfl, hbefore, hearlier⟩
  · intro name place ty
    refine ⟨h.classOfPort_eq_none_iff hfill ht, ?_⟩
    intro pin hpin
    obtain ⟨hlt, cls, info, hclass⟩ := h.exists_findClassOfPin_of_rootPinOfPort? hfill ht hpin
    have hdirection := drives_iff_driver_iff ht hlt hclass ty
    have hchosen := classOfPort_of_some ht ty hpin hclass
    simp only [Tile.findClassOfPin, bind_eq_ok_iff, orFail_eq_ok_iff, pure_eq_ok_iff,
      Prod.mk.injEq] at hclass
    obtain ⟨cls, hcls, info, hinfo, rfl, rfl⟩ := hclass
    refine ⟨cls, info, hcls, hinfo, ?_, ?_⟩
    · intro hsame
      rw [hchosen, if_pos (hdirection.1 hsame)]
    · intro hother
      rw [hchosen, if_neg (mt hdirection.2 hother)]

/-- In the logic tile, place 1 of the address port is root pin 15, of a receiver class, so a driver
is not found there. Root pin 5, in the first instance, is found by its port. -/
theorem Samples.heterogeneous_namedPorts :
    heterogeneous.validate = .ok () ∧
    (∀ tile ∈ heterogeneous.tiles, ∀ s ∈ tile.subTiles, s.PortsIndexed ∧ s.PortsFill) ∧
    ∃ tile s port, heterogeneous.tile? 0 = some tile ∧ tile.FirstNamed "addr" 1 s 0 port ∧
      1 < port.numPins ∧ heterogeneous.rootPinOfPort? 0 "addr" 1 = some 15 ∧ 15 < tile.numPins ∧
      heterogeneous.portPosition 0 15 = .ok ⟨1, 0, some (0, 1)⟩ ∧
      heterogeneous.rootPinAtCoordinates 0 (port.firstPin + 1) s.capacity.low = .ok 15 ∧
      heterogeneous.portPosition 0 5 = .ok ⟨0, 0, some (1, 1)⟩ ∧
      heterogeneous.rootPinOfPort? 0 "O" 1 = some 5 ∧
      heterogeneous.drives 0 15 = .ok false ∧
      heterogeneous.classOfPort 0 "addr" 1 .receiver = .ok (some 6) ∧
      heterogeneous.classOfPort 0 "addr" 1 .driver =
        .error (.pinTypeMismatch "CLB_TILE" 6 .driver .receiver) ∧
      (heterogeneous.classOfPort 0 "nope" 0 .driver = .ok none ↔
        heterogeneous.rootPinOfPort? 0 "nope" 0 = none) := by
  have hports : ∀ tile ∈ heterogeneous.tiles, ∀ s ∈ tile.subTiles,
      s.PortsIndexed ∧ s.PortsFill := by decide
  obtain ⟨-, hthere, hback, hclass⟩ :=
    heterogeneous.rootPinOfPort_portPosition rfl hports 0 _ rfl
  have hfirst : ∀ tile ∈ heterogeneous.tiles.take 1, ∀ s ∈ tile.subTiles.drop 1,
      ∀ port ∈ s.ports.take 1, (∀ x ∈ tile.subTiles.take 1, ∀ p ∈ x.ports, p.name ≠ "addr") ∧
        ∀ p ∈ s.ports.take 0, p.name ≠ "addr" := by decide
  obtain ⟨hbefore, hearlier⟩ :=
    hfirst _ List.mem_cons_self _ List.mem_cons_self _ List.mem_cons_self
  obtain ⟨hlt, hposition, hcoordinates⟩ :=
    hthere "addr" 1 15 1 _ 0 _ rfl ⟨rfl, rfl, rfl, hbefore, hearlier⟩
  have hdrives : heterogeneous.drives 0 15 = .ok false := rfl
  obtain ⟨-, hreceiver⟩ := hclass "addr" 1 .receiver
  obtain ⟨cls, -, hcls, -, hsame, -⟩ := hreceiver 15 rfl
  obtain rfl : 6 = cls := Option.some.inj hcls
  obtain ⟨-, hdriver⟩ := hclass "addr" 1 .driver
  obtain ⟨cls, info, hcls, hinfo, -, hother⟩ := hdriver 15 rfl
  obtain rfl : 6 = cls := Option.some.inj hcls
  obtain rfl : (⟨.receiver, [14, 15, 16]⟩ : PinClass) = info := Option.some.inj hinfo
  exact ⟨rfl, hports, _, _, _, rfl, ⟨rfl, rfl, rfl, hbefore, hearlier⟩, by decide, rfl, hlt,
    hposition, hcoordinates, rfl, hback 5 0 _ 1 1 _ rfl rfl rfl (by simp) (by decide), hdrives,
    hsame (by simp [hdrives]), hother (by simp [hdrives]), (hclass "nope" 0 .driver).1⟩

end PinNumbering
