import PinNumbering.Proofs.Names.PortPins
import Mathlib.Data.List.Nodup
/-! # What the name of a root pin tells

The name of a root pin is the tile, the instance in brackets where the sub tile has several, a dot,
the port, and the place in brackets. The names of tiles and ports are any texts, and may themselves
hold brackets, dots and digits. Still a name tells whether there are several instances and which one
is meant, the name of the port and the place: the place is read from the end, where digits run up to
the last opening bracket, and the rest from the front, where the name of the tile is the same for
all its pins.

What a name does not tell is the sub tile. Two root pins of one name lie in different sub tiles, in
ports of the same name.

* `append_cons_inj_of_forall`, `indexed_inj`: a mark ends a stretch of other characters, so a
  bracketed number can be read.
* `Tile.ownerName_append_inj`: the part of a name before the port.
* `pinName_of_atPort`, `pinName_inj`: names of places.
-/
set_option autoImplicit false

namespace PinNumbering

/-! ## Numbers in texts -/

theorem append_cons_inj_of_forall {α : Type} {p : α → Prop} {xs ys zs ws : List α} {c d : α}
    (hxs : ∀ x ∈ xs, p x) (hys : ∀ y ∈ ys, p y) (hc : ¬ p c) (hd : ¬ p d)
    (h : xs ++ c :: zs = ys ++ d :: ws) : xs = ys ∧ zs = ws := by
  induction xs generalizing ys with
  | nil =>
    cases ys with
    | nil => exact ⟨rfl, (List.cons.inj h).2⟩
    | cons y ys =>
      have hmark : c = y := (List.cons.inj h).1
      rw [hmark] at hc
      exact absurd (hys y List.mem_cons_self) hc
  | cons x xs ih =>
    cases ys with
    | nil =>
      have hmark : x = d := (List.cons.inj h).1
      rw [← hmark] at hd
      exact absurd (hxs x List.mem_cons_self) hd
    | cons y ys =>
      obtain ⟨hhead, htail⟩ := List.cons.inj h
      rw [List.forall_mem_cons] at hxs hys
      obtain ⟨hsame, hrest⟩ := ih hxs.2 hys.2 htail
      exact ⟨by rw [hhead, hsame], hrest⟩

theorem isDigit_of_mem_toString {n : Nat} {c : Char} (hc : c ∈ (toString n).toList) :
    c.isDigit = true := by
  rw [Nat.toString_eq_repr, Nat.toList_repr] at hc
  exact Nat.isDigit_of_mem_toDigits (by omega) (by omega) hc

theorem toString_inj {m n : Nat} (h : (toString m).toList = (toString n).toList) : m = n := by
  simp only [Nat.toString_eq_repr, Nat.toList_repr] at h
  have hvalue := congrArg (fun digits => Nat.ofDigitChars 10 digits 0) h
  simpa only [Nat.ofDigitChars_ten_toDigits] using hvalue

theorem toList_indexed (owner : String) (n : Nat) :
    (indexed owner n).toList = owner.toList ++ '[' :: ((toString n).toList ++ [']']) := by
  simp only [indexed, String.toList_append, List.append_assoc]
  rfl

theorem indexed_inj {a b : String} {m n : Nat} (h : indexed a m = indexed b n) :
    a = b ∧ m = n := by
  -- Read from the end, the number stops at its bracket, whatever the text before it.
  have hlists := congrArg (fun s : String => s.toList.reverse) h
  simp only [toList_indexed, List.reverse_append, List.reverse_cons, List.append_assoc,
    List.reverse_nil, List.nil_append, List.cons_append,
    List.cons.injEq, true_and] at hlists
  obtain ⟨hdigits, hrest⟩ := append_cons_inj_of_forall (p := fun c => c.isDigit = true)
    (fun c hc => isDigit_of_mem_toString (List.mem_reverse.1 hc))
    (fun c hc => isDigit_of_mem_toString (List.mem_reverse.1 hc)) (by decide) (by decide) hlists
  rw [List.reverse_inj] at hdigits hrest
  exact ⟨String.toList_inj.1 hrest, toString_inj hdigits⟩

/-! ## Owners -/

/-- The printed form of an instance of a sub tile: the tile, with a number if there are several
instances. -/
def Tile.ownerName (tile : Tile) (s : SubTile) (inst : Nat) : String :=
  if 1 < s.capacity.total then indexed tile.name inst else tile.name

section Owner
variable {tile : Tile} {s s' : SubTile} {inst inst' : Nat} {x y : String}

theorem Tile.toList_ownerName_append (tile : Tile) (s : SubTile) (inst : Nat) (x : String) :
    (tile.ownerName s inst ++ "." ++ x).toList = tile.name.toList ++
      if 1 < s.capacity.total then '[' :: ((toString inst).toList ++ ']' :: '.' :: x.toList)
      else '.' :: x.toList := by
  unfold ownerName
  split
  · simp only [String.toList_append, toList_indexed, List.append_assoc, List.cons_append,
      List.nil_append]
    rfl
  · simp only [String.toList_append, List.append_assoc]
    rfl

theorem Tile.ownerName_append_inj
    (h : tile.ownerName s inst ++ "." ++ x = tile.ownerName s' inst' ++ "." ++ y) :
    (1 < s.capacity.total ↔ 1 < s'.capacity.total) ∧ (1 < s.capacity.total → inst = inst') ∧
      x = y := by
  have hlists := congrArg String.toList h
  rw [toList_ownerName_append, toList_ownerName_append, List.append_cancel_left_eq] at hlists
  -- The mark after the name of the tile tells whether there are several instances.
  by_cases hs : 1 < s.capacity.total
  · by_cases hs' : 1 < s'.capacity.total
    · rw [if_pos hs, if_pos hs', List.cons.injEq] at hlists
      obtain ⟨hdigits, hrest⟩ := append_cons_inj_of_forall (p := fun c => c.isDigit = true)
        (fun c hc => isDigit_of_mem_toString hc) (fun c hc => isDigit_of_mem_toString hc)
        (by decide) (by decide) hlists.2
      exact ⟨⟨fun _ => hs', fun _ => hs⟩, fun _ => toString_inj hdigits,
        String.toList_inj.1 (List.cons.inj hrest).2⟩
    · rw [if_pos hs, if_neg hs', List.cons.injEq] at hlists
      exact absurd hlists.1 (by decide)
  · by_cases hs' : 1 < s'.capacity.total
    · rw [if_neg hs, if_pos hs', List.cons.injEq] at hlists
      exact absurd hlists.1 (by decide)
    · rw [if_neg hs, if_neg hs', List.cons.injEq] at hlists
      exact ⟨⟨fun h => absurd h hs, fun h => absurd h hs'⟩, fun h => absurd h hs,
        String.toList_inj.1 hlists.2⟩

end Owner

/-! ## Names -/

section Names
variable {T : Tables} {tile : Tile} {t : TileId} {pin pin' : Nat} {q q' : PortPin} {s s' : SubTile}

theorem Tile.Consistent.pinName_of_atPort (h : tile.Consistent T) (ht : T.tile? t = some tile)
    (hq : tile.AtPort q pin) (hs : tile.subTiles[q.subTile]? = some s) :
    T.pinName t pin =
      .ok (PinNumbering.indexed (tile.ownerName s q.inst ++ "." ++ q.port.name) q.pin) := by
  have htile := Tables.findTile_eq_ok ht
  obtain ⟨root, port, hroot, hport, hsub, rfl⟩ := h.exists_rootPin_of_atPort hq
  rw [hsub, Option.some.injEq] at hs
  simp only [Tables.pinName, htile, hroot, hport, bind_eq_ok_iff, pure_eq_ok_iff,
    Except.ok.injEq, exists_eq_left', orFail_some, hs]
  unfold Tile.ownerName PinNumbering.indexed
  simp only [String.append_assoc]

theorem Tile.Consistent.pinName_inj (h : tile.Consistent T) (ht : T.tile? t = some tile)
    (hq : tile.AtPort q pin) (hs : tile.subTiles[q.subTile]? = some s)
    (hq' : tile.AtPort q' pin') (hs' : tile.subTiles[q'.subTile]? = some s')
    (hname : T.pinName t pin = T.pinName t pin') :
    (s.capacity.total = 1 ∧ s'.capacity.total = 1 ∨
      1 < s.capacity.total ∧ 1 < s'.capacity.total ∧ q.inst = q'.inst) ∧
      q.port.name = q'.port.name ∧ q.pin = q'.pin := by
  rw [h.pinName_of_atPort ht hq hs, h.pinName_of_atPort ht hq' hs', Except.ok.injEq] at hname
  obtain ⟨howner, hpin⟩ := indexed_inj hname
  obtain ⟨hseveral, hinst, hport⟩ := Tile.ownerName_append_inj howner
  have hpos := h.total_pos hs
  have hpos' := h.total_pos hs'
  refine ⟨?_, hport, hpin⟩
  by_cases htotal : 1 < s.capacity.total
  · exact Or.inr ⟨htotal, hseveral.1 htotal, hinst htotal⟩
  · have htotal' : ¬ 1 < s'.capacity.total := fun hlt => htotal (hseveral.2 hlt)
    exact Or.inl ⟨by omega, by omega⟩

theorem Tile.Consistent.subTile_ne_of_pinName (h : tile.Consistent T)
    (ht : T.tile? t = some tile)
    (hports : ∀ s ∈ tile.subTiles, s.PortsFill ∧ (s.ports.map Port.name).Nodup)
    (hq : tile.AtPort q pin) (hq' : tile.AtPort q' pin') (hne : pin ≠ pin')
    (hname : T.pinName t pin = T.pinName t pin') : q.subTile ≠ q'.subTile := by
  intro hsub
  have hfill : ∀ s ∈ tile.subTiles, s.PortsFill := fun s hs => (hports s hs).1
  obtain ⟨s, hs, hinst, hport, -, hsum⟩ := (tile.atPort_iff hfill).1 hq
  obtain ⟨s', hs', hinst', hport', -, hsum'⟩ := (tile.atPort_iff hfill).1 hq'
  obtain ⟨hinstances, hportName, hplace⟩ := h.pinName_inj ht hq hs hq' hs' hname
  rw [← hsub, hs, Option.some.injEq] at hs'
  subst hs'
  have hsamePort : q.port = q'.port :=
    List.inj_on_of_nodup_map (hports s (List.mem_of_getElem? hs)).2 hport hport' hportName
  have hsameInst : q.inst = q'.inst := by
    rcases hinstances with ⟨hone, -⟩ | ⟨-, -, hsame⟩
    · omega
    · exact hsame
  apply hne
  rw [hsum, hsum', hsub, hsameInst, hsamePort, hplace]

end Names

/-- On tables that pass the checks, whose ports fill their instances and are named apart within a
sub tile, every root pin has a name. Two root pins of one name lie in different sub tiles, in ports
of one name and at the same place, and either both sub tiles have one instance or both have several
and the pins are in instances of one number. So names tell all root pins apart where no port name
occurs in two sub tiles. -/
theorem Tables.pinName_identifies (T : Tables) (hT : T.validate = .ok ())
    (hports : ∀ tile ∈ T.tiles, ∀ s ∈ tile.subTiles,
      s.PortsFill ∧ (s.ports.map Port.name).Nodup) (t : TileId) (tile : Tile)
    (ht : T.tile? t = some tile) :
    (∀ pin < tile.numPins, ∃ name, T.pinName t pin = .ok name) ∧
    (∀ pin < tile.numPins, ∀ pin' < tile.numPins, T.pinName t pin = T.pinName t pin' →
      pin ≠ pin' → ∃ q q' s s', tile.AtPort q pin ∧ tile.AtPort q' pin' ∧
        tile.subTiles[q.subTile]? = some s ∧ tile.subTiles[q'.subTile]? = some s' ∧
        q.subTile ≠ q'.subTile ∧
        (s.capacity.total = 1 ∧ s'.capacity.total = 1 ∨
          1 < s.capacity.total ∧ 1 < s'.capacity.total ∧ q.inst = q'.inst) ∧
        q.port.name = q'.port.name ∧ q.pin = q'.pin) ∧
    ((∀ (i j : Nat) (s s' : SubTile) (port port' : Port), tile.subTiles[i]? = some s →
        tile.subTiles[j]? = some s' → port ∈ s.ports → port' ∈ s'.ports →
        port.name = port'.name → i = j) →
      ∀ pin < tile.numPins, ∀ pin' < tile.numPins, T.pinName t pin = T.pinName t pin' →
        pin = pin') := by
  have h : tile.Consistent T := ((T.validate_eq_ok_iff.1 hT).tile t tile ht).2
  have hports : ∀ s ∈ tile.subTiles, s.PortsFill ∧ (s.ports.map Port.name).Nodup :=
    hports tile (List.mem_of_getElem? ht)
  have hfill : ∀ s ∈ tile.subTiles, s.PortsFill := fun s hs => (hports s hs).1
  refine ⟨?_, ?_, ?_⟩
  · intro pin hpin
    obtain ⟨q, hq⟩ := h.exists_atPort hfill hpin
    obtain ⟨s, hs, -⟩ := (tile.atPort_iff hfill).1 hq
    exact ⟨_, h.pinName_of_atPort ht hq hs⟩
  · intro pin hpin pin' hpin' hname hne
    obtain ⟨q, hq⟩ := h.exists_atPort hfill hpin
    obtain ⟨q', hq'⟩ := h.exists_atPort hfill hpin'
    obtain ⟨s, hs, -⟩ := (tile.atPort_iff hfill).1 hq
    obtain ⟨s', hs', -⟩ := (tile.atPort_iff hfill).1 hq'
    exact ⟨q, q', s, s', hq, hq', hs, hs', h.subTile_ne_of_pinName ht hports hq hq' hne hname,
      h.pinName_inj ht hq hs hq' hs' hname⟩
  · intro hapart pin hpin pin' hpin' hname
    by_contra hne
    obtain ⟨q, hq⟩ := h.exists_atPort hfill hpin
    obtain ⟨q', hq'⟩ := h.exists_atPort hfill hpin'
    obtain ⟨s, hs, -, hport, -⟩ := (tile.atPort_iff hfill).1 hq
    obtain ⟨s', hs', -, hport', -⟩ := (tile.atPort_iff hfill).1 hq'
    obtain ⟨-, hportName, -⟩ := h.pinName_inj ht hq hs hq' hs' hname
    exact h.subTile_ne_of_pinName ht hports hq hq' hne hname
      (hapart _ _ s s' _ _ hs hs' hport hport' hportName)

/-- A tile with two slots of one instance each, which have ports of the same name. -/
def Samples.twins : Tables :=
  Tables.build
    [⟨0, "B", [⟨"A", .input, 2⟩], [], [0]⟩]
    [⟨0, "T", [⟨"L", ⟨0, 0⟩, [0], [⟨"A", .input, 2⟩]⟩, ⟨"R", ⟨1, 1⟩, [0], [⟨"A", .input, 2⟩]⟩]⟩]

/-- The second pins of the twins share a name. In the logic tile no port name occurs twice, and all
root pins have names of their own. -/
theorem Samples.twins_names :
    (twins.validate = .ok () ∧ (∀ tile ∈ twins.tiles, ∀ s ∈ tile.subTiles,
        s.PortsFill ∧ (s.ports.map Port.name).Nodup) ∧
      ∃ tile, twins.tile? 0 = some tile ∧ 3 < tile.numPins ∧ twins.pinName 0 1 = .ok "T.A[1]" ∧
        twins.pinName 0 3 = .ok "T.A[1]" ∧
        ∃ q q', tile.AtPort q 1 ∧ tile.AtPort q' 3 ∧ q.subTile ≠ q'.subTile ∧
          q.port.name = q'.port.name ∧ q.pin = q'.pin) ∧
    heterogeneous.validate = .ok () ∧ (∀ tile ∈ heterogeneous.tiles, ∀ s ∈ tile.subTiles,
        s.PortsFill ∧ (s.ports.map Port.name).Nodup) ∧
      (∃ name, heterogeneous.pinName 0 18 = .ok name) ∧
      ∀ pin < 19, ∀ pin' < 19, heterogeneous.pinName 0 pin = heterogeneous.pinName 0 pin' →
        pin = pin' := by
  have hports : ∀ tile ∈ twins.tiles, ∀ s ∈ tile.subTiles,
      s.PortsFill ∧ (s.ports.map Port.name).Nodup := by decide
  have hports' : ∀ tile ∈ heterogeneous.tiles, ∀ s ∈ tile.subTiles,
      s.PortsFill ∧ (s.ports.map Port.name).Nodup := by decide
  obtain ⟨-, hshared, -⟩ := twins.pinName_identifies rfl hports 0 _ rfl
  obtain ⟨q, q', s, s', hq, hq', -, -, hsub, -, hport, hpin⟩ :=
    hshared 1 (by decide) 3 (by decide) rfl (by decide)
  obtain ⟨hnamed, -, hapart⟩ := heterogeneous.pinName_identifies rfl hports' 0 _ rfl
  refine ⟨⟨rfl, hports, _, rfl, by decide, rfl, rfl, q, q', hq, hq', hsub, hport, hpin⟩, rfl,
    hports', hnamed 18 (by decide), hapart ?_⟩
  have hzip : ∀ tile ∈ heterogeneous.tiles.take 1, ∀ x ∈ tile.subTiles.zipIdx,
      ∀ y ∈ tile.subTiles.zipIdx, ∀ port ∈ x.1.ports, ∀ port' ∈ y.1.ports,
        port.name = port'.name → x.2 = y.2 := by decide
  intro i j s s' port port' hs hs' hport hport'
  exact hzip _ List.mem_cons_self (s, i) (List.mk_mem_zipIdx_iff_getElem?.2 hs) (s', j)
    (List.mk_mem_zipIdx_iff_getElem?.2 hs') port hport port' hport'

end PinNumbering
