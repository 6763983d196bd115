import PinNumbering.Machine.Names
import PinNumbering.Proofs.Machine.RootPins
import PinNumbering.Proofs.Names.PortPins
/-! # Names on a machine are those of the numbers

The look-ups about ports and names are faithful. A port that contains a pin starts no later than the
pin, and the place after the last one of a run is the only sum that runs form.
-/
set_option autoImplicit false

namespace PinNumbering

open Run (Faithful)

namespace Machine
variable {ε : Type} {fits : Prop} (T : Tables) (t : TileId)

/-! ## Ports of root pins -/

theorem faithful_portOfRoot? {root : RootPin}
    (hfits : fits → ∀ port ∈ root.subTile.ports, port.firstPin + port.numPins < wordLimit) :
    Faithful fits (fun m => m.portOfRoot? root : Machine → Run ε _) (.ok root.port?) :=
  .findM? fun port hport => faithful_portContains root.instancePin fun hf => hfits hf port hport

theorem firstPin_le_of_port? {root : RootPin} {port : Port} (h : root.port? = some port) :
    port.firstPin ≤ root.instancePin := by
  obtain ⟨-, hfirst, -⟩ := SubTile.contains_of_portContaining? h
  exact hfirst

theorem faithful_placeOf (root : RootPin) :
    Faithful fits (fun m => m.placeOf root root.port? : Machine → Run ε _)
      (.ok (root.port?.map fun port => (port.index, root.instancePin - port.firstPin))) := by
  cases h : root.port? with
  | none => exact .ok none
  | some port => exact (Faithful.sub (firstPin_le_of_port? h)).after (.ok _)

theorem faithful_portPosition (pin : Nat) :
    Faithful False (fun m => m.portPosition T t pin) (T.portPosition t pin) := by
  refine (Faithful.of (T.findTile t)).bind fun tile _ => ?_
  refine (faithful_resolveRootPin pin False.elim).bind fun root _ => ?_
  exact (faithful_portOfRoot? False.elim).after ((faithful_placeOf root).after (.ok _))

theorem subTile_mem_of_resolveRootPin {tile : Tile} {pin : Nat} {root : RootPin}
    (h : tile.resolveRootPin pin = .ok root) : root.subTile ∈ tile.subTiles := by
  have hroot : tile.rootPin? pin = some root := orFail_eq_ok_iff.1 h
  unfold Tile.rootPin? at hroot
  obtain ⟨⟨s, offset⟩, howner, hroot⟩ := Option.bind_eq_some_iff.1 hroot
  obtain ⟨_, hs, -⟩ := SubTile.ownerAmong?_eq_some_iff.1 howner
  cases hroot
  exact List.mem_of_getElem? hs

theorem faithful_resolvePortPin {tile : Tile} (pin : Nat) (hroots : fits → tile.RootsFit)
    (hports : fits → tile.PortsFit) :
    Faithful fits (fun m => m.resolvePortPin tile pin) (tile.resolvePortPin pin) := by
  refine (faithful_resolveRootPin pin hroots).bind fun root hroot => ?_
  refine (faithful_portOfRoot? fun hf =>
    hports hf root.subTile (subTile_mem_of_resolveRootPin hroot)).after ?_
  refine (Faithful.of _).bind fun port hport => ?_
  exact (Faithful.sub (firstPin_le_of_port? (orFail_eq_ok_iff.1 hport))).after (.ok _)

/-- A pin of a port has a number after it if the port ends within a word. -/
theorem pin_add_one_lt {tile : Tile} (hports : tile.PortsFit) {pin : Nat} {p : PortPin}
    (h : tile.resolvePortPin pin = .ok p) : p.pin + 1 < wordLimit := by
  obtain ⟨root, hroot, h⟩ := (bind_eq_ok_iff ..).1 h
  obtain ⟨port, hport, h⟩ := (bind_eq_ok_iff ..).1 h
  rw [pure_eq_ok_iff] at h
  obtain ⟨hmem, hfirst, hlt⟩ := SubTile.contains_of_portContaining? (orFail_eq_ok_iff.1 hport)
  have hend := hports root.subTile (subTile_mem_of_resolveRootPin hroot) port hmem
  rw [← h]
  show root.instancePin - port.firstPin + 1 < wordLimit
  omega

theorem faithful_pinName (pin : Nat) :
    Faithful False (fun m => m.pinName T t pin) (T.pinName t pin) := by
  refine (Faithful.of (T.findTile t)).bind fun tile _ => ?_
  refine (faithful_resolveRootPin pin False.elim).bind fun root _ => ?_
  refine (faithful_portOfRoot? False.elim).after ((Faithful.of _).bind fun port hport => ?_)
  refine (Faithful.sub (firstPin_le_of_port? (orFail_eq_ok_iff.1 hport))).after ?_
  exact (faithful_total False.elim).after (.ok _)

/-! ## Runs -/

theorem faithful_runsFrom {run : PortRun} {pins : List PortPin}
    (hrun : fits → run.last + 1 < wordLimit) (hpins : fits → ∀ p ∈ pins, p.pin + 1 < wordLimit) :
    Faithful fits (fun m => m.runsFrom run pins) (PortRun.runsFrom run pins) := by
  induction pins generalizing run with
  | nil => exact .ok [run]
  | cons p rest ih =>
    have hrest : fits → ∀ q ∈ rest, q.pin + 1 < wordLimit := fun hf q hq =>
      hpins hf q (List.mem_cons_of_mem p hq)
    have hlast : fits → p.pin + 1 < wordLimit := fun hf => hpins hf p List.mem_cons_self
    unfold runsFrom PortRun.runsFrom
    refine .ite (fun _ => ?_) fun _ => ?_
    · refine (Faithful.add hrun).after ?_
      exact .ite (fun _ => ih hlast hrest) fun _ => .error _
    · have hruns := (@ih (PortRun.single p) hlast hrest).bind fun runs _ =>
        Faithful.ok (run :: runs)
      refine hruns.congr ?_
      cases PortRun.runsFrom (PortRun.single p) rest <;> rfl

theorem faithful_runs {pins : List PortPin} (hpins : fits → ∀ p ∈ pins, p.pin + 1 < wordLimit) :
    Faithful fits (fun m => m.runs pins) (PortRun.runs pins) := by
  cases pins with
  | nil => exact .ok []
  | cons p rest =>
    exact faithful_runsFrom (fun hf => hpins hf p List.mem_cons_self) fun hf q hq =>
      hpins hf q (List.mem_cons_of_mem p hq)

theorem faithful_classPinNames (cls : Nat)
    (hroots : fits → ∀ tile, T.tile? t = some tile → tile.RootsFit)
    (hports : fits → ∀ tile, T.tile? t = some tile → tile.PortsFit) :
    Faithful fits (fun m => m.classPinNames T t cls) (T.classPinNames t cls) := by
  unfold classPinNames Tables.classPinNames
  refine (Faithful.of (T.findTile t)).bind fun tile htile => (Faithful.of _).bind fun info _ => ?_
  have ht : T.tile? t = some tile := orFail_eq_ok_iff.1 htile
  refine (Faithful.mapM fun pin _ => faithful_resolvePortPin pin (fun hf => hroots hf tile ht)
    fun hf => hports hf tile ht).bind fun pins hpins => ?_
  have hlast : fits → ∀ p ∈ pins.mergeSort PortPin.le, p.pin + 1 < wordLimit := by
    intro hf p hp
    rw [List.mem_mergeSort] at hp
    obtain ⟨pin, -, hpin⟩ := (mem_iff_of_mapM_eq_ok hpins).1 hp
    exact pin_add_one_lt (hports hf tile ht) hpin
  rcases faithful_runs hlast with hruns | ⟨hfits, hstop⟩
  · left
    intro m
    simp only [hruns]
    cases PortRun.runs (pins.mergeSort PortPin.le) <;> rfl
  · right
    refine ⟨hfits, ?_⟩
    simp only [hstop]
    rfl

/-! ## Ports by name -/

theorem faithful_pinOfPort (base : Nat) (port : Port) (place : Nat) :
    Faithful False (fun m => m.pinOfPort base port place : Machine → Run ε _)
      (.ok (if place < port.numPins then some (base + port.firstPin + place) else none)) := by
  unfold pinOfPort
  by_cases h : place < port.numPins
  · simp only [if_pos h]
    exact (Faithful.add False.elim).after ((Faithful.add False.elim).after (.ok _))
  · simp only [if_neg h]
    exact .ok none

theorem faithful_rootPinOfPort? (name : String) (place : Nat) :
    Faithful False (fun m => m.rootPinOfPort? T t name place : Machine → Run ε _)
      (.ok (T.rootPinOfPort? t name place)) := by
  unfold rootPinOfPort? Tables.rootPinOfPort?
  cases T.tile? t with
  | none => exact .ok none
  | some tile =>
    simp only [Option.bind_eq_bind, Option.bind_some]
    refine (faithful_findWithBaseFrom _ 0 False.elim).after ?_
    have hfound : SubTile.findWithBaseAmong? (fun s => (s.portNamed? name).isSome) 0 tile.subTiles =
        tile.findWithBase? fun s => (s.portNamed? name).isSome := rfl
    rw [hfound]
    cases tile.findWithBase? fun s => (s.portNamed? name).isSome with
    | none => exact .ok none
    | some found =>
      obtain ⟨base, s⟩ := found
      simp only [Option.bind_some]
      cases s.portNamed? name with
      | none => exact .ok none
      | some port => exact faithful_pinOfPort base port place

theorem faithful_classOfPort (name : String) (place : Nat) (pinType : PinType) :
    Faithful False (fun m => m.classOfPort T t name place pinType)
      (T.classOfPort t name place pinType) := by
  unfold classOfPort Tables.classOfPort
  refine (Faithful.of (T.findTile t)).bind fun tile _ => ?_
  refine (faithful_rootPinOfPort? T t name place).after ?_
  cases T.rootPinOfPort? t name place with
  | none => exact .ok none
  | some pin => exact (Faithful.of _).bind fun found _ => (Faithful.of _).bind fun _ _ => .ok _

end Machine

end PinNumbering
