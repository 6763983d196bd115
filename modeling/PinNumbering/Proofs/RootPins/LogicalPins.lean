import PinNumbering.FlatPin
import PinNumbering.Proofs.RootPins.Coordinates
/-! # Root pins and logical pins

A root pin stands for a logical pin of the preferred block of its instance: the table of the sub
tile gives the place of the root pin in the sub tile, and the direct map of the block leads from the
pin of the first instance back to the logical pin.

* `SubTile.Joins`: the direct map in both directions.
* `Tile.Numbered`: tables of root pins as they are documented, which count on from sub tile to
  sub tile. Without it only the way through an explicit instance leads back.
* `rootPinOfInstance_eq_ok_iff`, `rootPinAtLocation_eq_ok_iff`, `rootPinOfFirst_eq_ok_iff`: what
  each of the three ways from a logical pin to a root pin needs.
* `logicalPin_eq_ok_iff_of_lt`: what the way back needs.
* `rootPinAtLocation_of_joins`, `rootPinOfFirst_iff_of_joins`: where the ways lead on a numbered
  tile.
* `rootPin_of_logicalPin`: the ways against each other.
-/
set_option autoImplicit false

namespace PinNumbering

/-! ## Direct maps and tables of root pins -/

/-- The direct map of the block joins a logical pin and a pin of the sub tile. -/
def SubTile.Joins (s : SubTile) (b : BlockId) (logicalPin pin : Nat) : Prop :=
  ∃ m, s.directMap? b = some m ∧ (logicalPin, pin) ∈ m.pairs

theorem SubTile.right?_eq_some_iff_joins {s : SubTile} {b : BlockId} {logicalPin pin : Nat} :
    ((s.directMap? b).bind fun m => m.right? logicalPin) = some pin ↔
      s.Joins b logicalPin pin := by
  simp only [Option.bind_eq_some_iff, PinMap.right?_eq_some_iff, Joins]

theorem SubTile.left?_eq_some_iff_joins {s : SubTile} {b : BlockId} {logicalPin pin : Nat} :
    ((s.directMap? b).bind fun m => m.left? pin) = some logicalPin ↔
      s.Joins b logicalPin pin := by
  simp only [Option.bind_eq_some_iff, PinMap.left?_eq_some_iff, Joins]

theorem SubTile.Joins.right_unique {s : SubTile} {b : BlockId} {logicalPin pin pin' : Nat}
    (h : s.Joins b logicalPin pin) (h' : s.Joins b logicalPin pin') : pin = pin' := by
  rw [← right?_eq_some_iff_joins] at h h'
  rw [h] at h'
  exact Option.some.inj h'

/-- Each sub tile lists consecutive root pins that start where those of the sub tiles before it
end. -/
def Tile.Numbered (tile : Tile) : Prop :=
  ∀ (i : Nat) (s : SubTile), tile.subTiles[i]? = some s →
    s.rootPins = List.range' (tile.pinsBefore i) s.numPins

instance (tile : Tile) : Decidable tile.Numbered :=
  decidable_of_iff (∀ x ∈ tile.subTiles.zipIdx,
      x.1.rootPins = List.range' (tile.pinsBefore x.2) x.1.numPins) <| by
    simp only [Prod.forall, List.mk_mem_zipIdx_iff_getElem?, Tile.Numbered]
    exact forall_comm

theorem Tile.Numbered.getElem?_rootPins_eq_some_iff {tile : Tile} (h : tile.Numbered)
    {i k pin : Nat} {s : SubTile} (hi : tile.subTiles[i]? = some s) :
    s.rootPins[k]? = some pin ↔ k < s.numPins ∧ pin = tile.pinsBefore i + k := by
  rw [h i s hi]
  by_cases hk : k < s.numPins
  · rw [List.getElem?_range' hk, Option.some.injEq]
    omega
  · rw [List.getElem?_eq_none (by rw [List.length_range']; omega)]
    simp [hk]

theorem Tile.Numbered.lt_numPins {T : Tables} {tile : Tile} (hn : tile.Numbered)
    (h : tile.Consistent T) {i k pin : Nat} {s : SubTile} (hi : tile.subTiles[i]? = some s)
    (hk : s.rootPins[k]? = some pin) : pin < tile.numPins := by
  obtain ⟨hlt, rfl⟩ := (hn.getElem?_rootPins_eq_some_iff hi).1 hk
  have hend := run_le_totalOf (Tile.getElem?_map_numPins hi)
  rw [← Tile.pinsBefore_eq, h.numPins_eq] at hend
  omega

theorem Tile.Numbered.idxOf?_rootPins {tile : Tile} (hn : tile.Numbered) {i k pin : Nat}
    {s : SubTile} (hi : tile.subTiles[i]? = some s) (hk : s.rootPins[k]? = some pin) :
    s.rootPins.idxOf? pin = some k := by
  obtain ⟨hlt, hget⟩ := List.getElem?_eq_some_iff.1 hk
  rw [List.idxOf?_eq_some_iff]
  refine ⟨hlt, hget, ?_⟩
  intro j hj hsame
  have hpin := ((hn.getElem?_rootPins_eq_some_iff hi).1 hk).2
  have hpin' := ((hn.getElem?_rootPins_eq_some_iff hi).1
    (List.getElem?_eq_some_iff.2 ⟨Nat.lt_trans hj hlt, hsame⟩)).2
  omega

section Steps
variable {T : Tables} {N : Numbering} {tile : Tile} {t : TileId}

/-! ## From logical pins -/

theorem Tables.rootPinOfInstance_eq_ok_iff (ht : T.tile? t = some tile)
    {subTile inst logicalPin pin : Nat} {b : BlockId} :
    T.rootPinOfInstance t subTile b inst logicalPin = .ok pin ↔
      ∃ s k, tile.subTiles[subTile]? = some s ∧ inst < s.capacity.total ∧
        s.Joins b logicalPin k ∧ s.rootPins[k + inst * s.pinsPerInstance]? = some pin := by
  have htile := Tables.findTile_eq_ok ht
  simp only [rootPinOfInstance, htile, bind_eq_ok_iff, exists_unit_ok_iff, Except.ok.injEq,
    exists_eq_left', Tile.findSubTile, findDirectPin, Tile.findRootPin, orFail_eq_ok_iff,
    LookupError.unless_eq_ok_iff, SubTile.right?_eq_some_iff_joins, exists_and_left]

theorem Tables.rootPinAtLocation_eq_ok_iff (ht : T.tile? t = some tile)
    {location logicalPin pin : Nat} {b : BlockId} :
    T.rootPinAtLocation t b location logicalPin = .ok pin ↔
      ∃ s k first, tile.hostAt? b location = some s ∧ s.Joins b logicalPin k ∧
        s.rootPins[k]? = some first ∧
        (location - s.capacity.low) * s.pinsPerInstance + first = pin := by
  have htile := Tables.findTile_eq_ok ht
  simp only [rootPinAtLocation, htile, bind_eq_ok_iff, Except.ok.injEq, exists_eq_left',
    findHostAt, findDirectPin, Tile.findRootPin, orFail_eq_ok_iff, pure_eq_ok_iff,
    SubTile.right?_eq_some_iff_joins, exists_and_left]

theorem Tables.rootPinOfFirst_eq_ok_iff (ht : T.tile? t = some tile) {logicalPin pin : Nat}
    {b : BlockId} :
    T.rootPinOfFirst t b logicalPin = .ok pin ↔
      ∃ s k, tile.host? b = some s ∧ s.Joins b logicalPin k ∧ s.rootPins[k]? = some pin := by
  have htile := Tables.findTile_eq_ok ht
  simp only [rootPinOfFirst, htile, bind_eq_ok_iff, Except.ok.injEq, exists_eq_left', findHost,
    findDirectPin, Tile.findRootPin, orFail_eq_ok_iff, SubTile.right?_eq_some_iff_joins,
    exists_and_left]

/-! ## From root pins -/

theorem Numbering.siteOfPin_eq_ok_iff_of_rootPin? (ht : N.tables.tile? t = some tile) {pin : Nat}
    {root : RootPin} (hroot : tile.rootPin? pin = some root) {site : PinSite} :
    N.siteOfPin t pin = .ok site ↔ ∃ b, root.subTile.sites.head? = some b ∧
      ⟨root.subTile.index, root.inst, b⟩ = site := by
  have htile := Tables.findTile_eq_ok ht
  simp only [siteOfPin, htile, hroot, bind_eq_ok_iff, Except.ok.injEq, exists_eq_left',
    orFail_eq_ok_iff, pure_eq_ok_iff]

theorem Numbering.logicalPin_eq_ok_iff_of_lt (ht : N.tables.tile? t = some tile) {pin : Nat}
    (hpin : pin < tile.numPins) {flat : Bool} {logicalPin : Nat} :
    N.logicalPin t pin flat = .ok logicalPin ↔
      ∃ site s position, N.siteOfPin t pin = .ok site ∧ tile.subTiles[site.subTile]? = some s ∧
        s.rootPins.idxOf? pin = some position ∧ site.inst * s.pinsPerInstance ≤ position ∧
        s.Joins site.block logicalPin (position - site.inst * s.pinsPerInstance) := by
  have htile := Tables.findTile_eq_ok ht
  simp only [Numbering.logicalPin, htile, bind_eq_ok_iff, Except.ok.injEq, exists_eq_left',
    if_pos hpin, logicalPinOfRoot, Tile.findSubTile, orFail_eq_ok_iff, exists_unit_ok_iff,
    LookupError.unless_eq_ok_iff, SubTile.left?_eq_some_iff_joins, exists_and_left]

/-! ## Root pins of consistent tiles -/

theorem Tile.Consistent.logicalPin_rootPin (h : tile.Consistent N.tables)
    (ht : N.tables.tile? t = some tile) {pin : Nat} (hpin : pin < tile.numPins) {flat : Bool}
    {logicalPin : Nat} {site : PinSite} (hl : N.logicalPin t pin flat = .ok logicalPin)
    (hsite : N.siteOfPin t pin = .ok site) :
    ∃ s k place, tile.subTiles[site.subTile]? = some s ∧ site.inst < s.capacity.total ∧
      k < s.pinsPerInstance ∧
      pin = tile.pinsBefore site.subTile + (site.inst * s.pinsPerInstance + k) ∧
      s.sites.head? = some site.block ∧ s.Joins site.block logicalPin place ∧
      s.rootPins[place + site.inst * s.pinsPerInstance]? = some pin := by
  obtain ⟨root, hroot⟩ := (h.exists_rootPin?_iff pin).2 hpin
  obtain ⟨i, hi, hinst, hk, hpinEq⟩ := h.rootPin?_eq_some_iff.1 hroot
  obtain ⟨b, hb, rfl⟩ := (Numbering.siteOfPin_eq_ok_iff_of_rootPin? ht hroot).1 hsite
  obtain ⟨site', s, position, hsite', hs, hposition, hle, hjoins⟩ :=
    (Numbering.logicalPin_eq_ok_iff_of_lt ht hpin).1 hl
  rw [hsite] at hsite'
  cases hsite'
  have hindex : root.subTile.index = i := (h.subTile i _ hi).index_eq
  rw [hindex, hi] at hs
  cases hs
  refine ⟨root.subTile, root.instancePin, _, ?_, hinst, hk, ?_, hb, hjoins, ?_⟩
  · rw [hindex]
    exact hi
  · rw [hindex]
    exact hpinEq
  · obtain ⟨hlt, hget, -⟩ := List.idxOf?_eq_some_iff.1 hposition
    rw [Nat.sub_add_cancel hle, List.getElem?_eq_getElem hlt, hget]

theorem Tile.Numbered.place_eq (hn : tile.Numbered) {i k place inst pin : Nat} {s : SubTile}
    (hi : tile.subTiles[i]? = some s)
    (hpin : pin = tile.pinsBefore i + (inst * s.pinsPerInstance + k))
    (hplace : s.rootPins[place + inst * s.pinsPerInstance]? = some pin) :
    place = k := by
  obtain ⟨-, hpin'⟩ := (hn.getElem?_rootPins_eq_some_iff hi).1 hplace
  omega

/-- Whatever stands before it, the sub tile that hosts a block and covers a location is found. -/
theorem Tile.Consistent.hostAt?_eq_some (h : tile.Consistent T) {i location : Nat} {s : SubTile}
    {b : BlockId} (hi : tile.subTiles[i]? = some s) (hhosts : s.hosts b = true)
    (hcontains : s.capacity.contains location = true) : tile.hostAt? b location = some s := by
  unfold hostAt?
  rw [find?_eq_some_iff_of_pairwise]
  · exact ⟨List.mem_of_getElem? hi, by rw [hhosts, hcontains]; rfl⟩
  · rw [List.pairwise_iff_getElem]
    intro j k hj hk hjk hboth
    simp only [Bool.and_eq_true] at hboth
    have := h.disjoint j k location _ _ (List.getElem?_eq_getElem hj) (List.getElem?_eq_getElem hk)
      hboth.1.2 hboth.2.2
    omega

theorem Tile.host?_eq_some_of_findIdx? {b : BlockId} {i : Nat} {s : SubTile}
    (hfirst : tile.subTiles.findIdx? (fun x => x.hosts b) = some i)
    (hi : tile.subTiles[i]? = some s) : tile.host? b = some s := by
  obtain ⟨hlt, hhosts, hbefore⟩ := List.findIdx?_eq_some_iff_getElem.1 hfirst
  rw [List.getElem?_eq_getElem hlt, Option.some.injEq] at hi
  unfold host?
  rw [List.find?_eq_some_iff_getElem]
  rw [hi] at hhosts
  exact ⟨hhosts, i, hlt, hi, fun j hj => by simpa using hbefore j hj⟩

theorem Tile.findIdx?_of_host?_eq_some {b : BlockId} {s : SubTile} (h : tile.host? b = some s) :
    ∃ i, tile.subTiles.findIdx? (fun x => x.hosts b) = some i ∧ tile.subTiles[i]? = some s := by
  unfold host? at h
  obtain ⟨hhosts, i, hlt, hi, hbefore⟩ := List.find?_eq_some_iff_getElem.1 h
  refine ⟨i, ?_, by rw [List.getElem?_eq_getElem hlt, hi]⟩
  rw [List.findIdx?_eq_some_iff_getElem]
  rw [← hi] at hhosts
  exact ⟨hlt, hhosts, fun j hj => by simpa using hbefore j hj⟩

/-- The way through a location leads to the pin of the instance there. -/
theorem Tile.Consistent.rootPinAtLocation_of_joins (h : tile.Consistent T) (hn : tile.Numbered)
    (ht : T.tile? t = some tile) {i inst k logicalPin : Nat} {s : SubTile} {b : BlockId}
    (hs : tile.subTiles[i]? = some s) (hinst : inst < s.capacity.total)
    (hk : k < s.pinsPerInstance) (hb : b ∈ s.sites) (hjoins : s.Joins b logicalPin k) :
    T.rootPinAtLocation t b (s.capacity.low + inst) logicalPin =
      .ok (tile.pinsBefore i + (inst * s.pinsPerInstance + k)) := by
  have hoffset := (h.subTile _ s hs).pin_lt_numPins hinst hk
  have hfirst : s.rootPins[k]? = some (tile.pinsBefore i + k) := by
    rw [hn.getElem?_rootPins_eq_some_iff hs]
    omega
  have hhosts : s.hosts b = true := (s.hosts_iff b).2 hb
  obtain ⟨hcontains, hsub⟩ := CapacityRange.contains_low_add hinst
  rw [Tables.rootPinAtLocation_eq_ok_iff ht]
  refine ⟨s, k, _, h.hostAt?_eq_some hs hhosts hcontains, hjoins, hfirst, ?_⟩
  rw [hsub]
  omega

/-- The way through the first host leads to a pin of an instance exactly if that is the first
instance of the first host. -/
theorem Tile.Consistent.rootPinOfFirst_iff_of_joins (h : tile.Consistent T) (hn : tile.Numbered)
    (ht : T.tile? t = some tile) {i inst k logicalPin : Nat} {s : SubTile} {b : BlockId}
    (hs : tile.subTiles[i]? = some s) (hinst : inst < s.capacity.total)
    (hk : k < s.pinsPerInstance) (hjoins : s.Joins b logicalPin k) :
    T.rootPinOfFirst t b logicalPin = .ok (tile.pinsBefore i + (inst * s.pinsPerInstance + k)) ↔
      inst = 0 ∧ tile.subTiles.findIdx? (fun x => x.hosts b) = some i := by
  have hoffset := (h.subTile _ s hs).pin_lt_numPins hinst hk
  rw [Tables.rootPinOfFirst_eq_ok_iff ht]
  constructor
  · rintro ⟨s', k', hhost, hjoins', hpin'⟩
    obtain ⟨j, hj, hs'⟩ := findIdx?_of_host?_eq_some hhost
    -- The root pin lies among the pins of the first host and of its own sub tile: they are one.
    obtain ⟨hk', hpin''⟩ := (hn.getElem?_rootPins_eq_some_iff hs').1 hpin'
    have hsame : i = j := position_unique hs hs' hoffset hk' hpin''
    rw [← hsame] at hj hs' hpin''
    rw [hs, Option.some.injEq] at hs'
    rw [← hs'] at hjoins'
    obtain rfl := hjoins.right_unique hjoins'
    refine ⟨?_, hj⟩
    have hzero : inst * s.pinsPerInstance = 0 := by omega
    rcases Nat.mul_eq_zero.1 hzero with h0 | h0
    · exact h0
    · omega
  · rintro ⟨rfl, hfirst⟩
    refine ⟨s, k, host?_eq_some_of_findIdx? hfirst hs, hjoins, ?_⟩
    rw [hn.getElem?_rootPins_eq_some_iff hs]
    omega

end Steps

/-! ## There and back -/

/-- On tables that pass the checks, the logical pin behind a root pin leads back to it through its
instance; on a numbered tile it does so through its location as well, and through the first host
exactly if the pin is one of the first instance there. -/
theorem Tables.rootPin_of_logicalPin (T : Tables) (hT : T.validate = .ok ()) (t : TileId)
    (tile : Tile) (ht : T.tile? t = some tile) (pin : Nat) (hpin : pin < tile.numPins)
    (flat : Bool) (logicalPin : Nat) (site : PinSite)
    (hl : T.numbering.logicalPin t pin flat = .ok logicalPin)
    (hsite : T.numbering.siteOfPin t pin = .ok site) :
    T.rootPinOfInstance t site.subTile site.block site.inst logicalPin = .ok pin ∧
    (tile.Numbered → ∃ s, tile.subTiles[site.subTile]? = some s ∧
      T.rootPinAtLocation t site.block (s.capacity.low + site.inst) logicalPin = .ok pin ∧
      (T.rootPinOfFirst t site.block logicalPin = .ok pin ↔ site.inst = 0 ∧
        tile.subTiles.findIdx? (fun x => x.hosts site.block) = some site.subTile)) := by
  have h : tile.Consistent T := ((T.validate_eq_ok_iff.1 hT).tile t tile ht).2
  obtain ⟨s, k, place, hs, hinst, hk, hpinEq, hb, hjoins, hplace⟩ :=
    Tile.Consistent.logicalPin_rootPin (N := T.numbering) h ht hpin hl hsite
  refine ⟨?_, ?_⟩
  · rw [rootPinOfInstance_eq_ok_iff ht]
    exact ⟨s, place, hs, hinst, hjoins, hplace⟩
  intro hn
  obtain rfl := hn.place_eq hs hpinEq hplace
  refine ⟨s, hs, ?_, ?_⟩
  · rw [hpinEq]
    exact h.rootPinAtLocation_of_joins hn ht hs hinst hk (List.mem_of_head? hb) hjoins
  · rw [hpinEq]
    exact h.rootPinOfFirst_iff_of_joins hn ht hs hinst hk hjoins

/-- Pin 9 of the logic tile is pin 2 of the block in its second instance, at location 1. -/
theorem Samples.heterogeneous_rootPin :
    heterogeneous.validate = .ok () ∧ heterogeneous.numbering.logicalPin 0 9 false = .ok 2 ∧
      heterogeneous.numbering.siteOfPin 0 9 = .ok ⟨0, 1, 0⟩ ∧
      heterogeneous.rootPinOfInstance 0 0 0 1 2 = .ok 9 ∧
      ∃ tile s, heterogeneous.tile? 0 = some tile ∧ 9 < tile.numPins ∧ tile.Numbered ∧
        tile.subTiles[0]? = some s ∧
        heterogeneous.rootPinAtLocation 0 0 (s.capacity.low + 1) 2 = .ok 9 ∧
        (heterogeneous.rootPinOfFirst 0 0 2 = .ok 9 ↔
          1 = 0 ∧ tile.subTiles.findIdx? (fun x => x.hosts 0) = some 0) := by
  have hlt : 9 < 19 := by decide
  obtain ⟨hinst, hnumbered⟩ :=
    heterogeneous.rootPin_of_logicalPin rfl 0 _ rfl 9 hlt false 2 ⟨0, 1, 0⟩ rfl rfl
  obtain ⟨s, hs, hlocation, hfirst⟩ := hnumbered (by decide)
  exact ⟨rfl, rfl, rfl, hinst, _, s, rfl, hlt, by decide, hs, hlocation, hfirst⟩

end PinNumbering
