import PinNumbering.Proofs.Machine.Partition
import PinNumbering.Proofs.Machine.Sessions
/-! # Differences and quotients on a machine

What a look-up subtracts or divides by comes from a search or stands behind a comparison, which
settles on either machine that the difference is not below zero and the divisor is positive. Three
of these comparisons are with sums. Where a sum wraps around, a search can lead to the wrong sub
tile, the flat pins can end before the root pins, and the instances of a sub tile can come to none.
A machine that checks stops before that, and for no other reason.

* `Machine.OperandsInOrder`: the differences and quotients that are in order on either machine.
* `Machine.SumsExact`: those that are as long as sums fit.
* `Machine.arithmetic_in_order`: both, and the arithmetic of whole sessions.
-/
set_option autoImplicit false

namespace PinNumbering

/-- Operands that a search or a comparison of the machine has put in order. -/
structure Machine.OperandsInOrder (m : Machine) (T : Tables) (t : TileId) (tile : Tile) :
    Prop where
  /-- The sub tile that the search finds for a root pin has pins in each instance. -/
  root : ∀ pin s offset,
    (m.ownerFrom pin 0 tile.subTiles : Run LookupError _) = .ok (some (s, offset)) →
      offset ≤ pin ∧ ∃ n, 0 < n ∧ (m.pinsPerInstance s : Run LookupError Nat) = .ok n ∧
        m.resolveRootPin tile pin = .ok ⟨s, offset / n, offset % n⟩
  /-- A sub tile that takes a block at a location starts no later than the location. -/
  location : ∀ b location s, T.findHostAt tile b location = .ok s →
    ∃ inst < s.capacity.total, location = s.capacity.low + inst
  /-- Nor does a sub tile that covers a location start later. -/
  covered : ∀ location base s, (m.findWithBaseFrom (fun s => s.capacity.contains location) 0
      tile.subTiles : Run LookupError _) = .ok (some (base, s)) →
    ∃ inst < s.capacity.total, location = s.capacity.low + inst
  /-- The span of a flat pin starts no later than the pin. -/
  span : ∀ L pin span, m.layout T t = .ok L → m.internalSpan L tile pin = .ok span →
    ∃ l, pin = span.pinBase + l ∧
      (tile.numPins ≤ pin → (m.indexer T).logicalPin t pin true = .ok l)
  /-- The span of a class starts no later than the class. -/
  cls : ∀ L cls span, m.layout T t = .ok L →
    (m.spanOfClass? L cls : Run LookupError _) = .ok (some span) →
      ∃ l, cls = span.classBase + l ∧
        (m.indexer T).siteOfClass t cls = .ok ⟨span.subTile, span.inst, span.block, l⟩
  /-- The port of a root pin starts no later than the pin. -/
  place : ∀ pin root port, m.resolveRootPin tile pin = .ok root →
    (m.portOfRoot? root : Run LookupError _) = .ok (some port) →
      ∃ k total, root.instancePin = port.firstPin + k ∧
        (m.total root.subTile.capacity : Run LookupError Nat) = .ok total ∧
        m.portPosition T t pin = .ok ⟨root.subTile.index, root.inst, some (port.index, k)⟩ ∧
        m.pinName T t pin = .ok ((if 1 < total then indexed tile.name root.inst else tile.name) ++
          "." ++ indexed port.name k) ∧
        m.resolvePortPin tile pin = .ok ⟨root.subTile.index, root.inst, port, k⟩

/-- Operands that are in order because sums are exact. -/
structure Machine.SumsExact (m : Machine) (T : Tables) (t : TileId) (tile : Tile) : Prop where
  /-- The sub tile that the search finds for a root pin owns the pin, and quotient and remainder are
  the instance and the pin of it. -/
  root : ∀ pin s offset,
    (m.ownerFrom pin 0 tile.subTiles : Run LookupError _) = .ok (some (s, offset)) →
      0 < s.pinsPerInstance ∧ ∃ i inst k, tile.subTiles[i]? = some s ∧
        pin = tile.pinsBefore i + offset ∧ offset = inst * s.pinsPerInstance + k ∧
        k < s.pinsPerInstance ∧ m.resolveRootPin tile pin = .ok ⟨s, inst, k⟩ ∧
        ∀ b, s.sites.head? = some b → (m.indexer T).siteOfPin t pin = .ok ⟨s.index, inst, b⟩
  /-- The flat pins end no earlier than the root pins. -/
  flatPins : ∀ L, m.layout T t = .ok L →
    ∃ n, L.flatPinEnd = tile.numPins + n ∧ (m.indexer T).numFlatPins t = .ok n
  /-- The pins of a sub tile are divided among its instances only if there are any. -/
  instances : ∀ position, ∀ s ∈ tile.subTiles,
    (s.capacity.low ≤ s.capacity.high → ∀ total,
      (m.total s.capacity : Run TableFault Nat) = .ok total → 0 < total) ∧
    m.validateSubTile T tile position s ≠ .error (.stop .divisionByZero)

theorem test_of_findM?_eq_some {ε α : Type} (test : α → Except ε Bool) {xs : List α} {x : α}
    (h : xs.findM? test = .ok (some x)) : test x = .ok true := by
  induction xs with
  | nil => cases h
  | cons y rest ih =>
    rw [List.findM?, bind_eq_ok_iff] at h
    obtain ⟨found, hy, h⟩ := h
    cases found with
    | true =>
      cases h
      exact hy
    | false => exact ih h

namespace Machine
variable {ε : Type} {m : Machine} {T : Tables} {tile : Tile} {t : TileId}

/-! ## What a test of a machine settles -/

/-- A number between a base and a limit that the machine forms is not below the base, whatever the
limit is. -/
theorem base_le_of_test {base n : Nat} {limit : Run ε Nat}
    (h : (do return decide (base ≤ n) && decide (n < (← limit)) : Run ε Bool) = .ok true) :
    base ≤ n := by
  obtain ⟨_, -, h⟩ := (bind_eq_ok_iff ..).1 h
  rw [pure_eq_ok_iff, Bool.and_eq_true, decide_eq_true_iff] at h
  exact h.1

theorem pinBase_le_of_spanOfPin? {L : Layout} {pin : Nat} {span : Span}
    (h : (m.spanOfPin? L pin : Run ε _) = .ok (some span)) : span.pinBase ≤ pin :=
  base_le_of_test (test_of_findM?_eq_some (fun span => m.hasPin span pin) h)

theorem classBase_le_of_spanOfClass? {L : Layout} {cls : Nat} {span : Span}
    (h : (m.spanOfClass? L cls : Run ε _) = .ok (some span)) : span.classBase ≤ cls :=
  base_le_of_test (test_of_findM?_eq_some (fun span => m.hasClass span cls) h)

theorem firstPin_le_of_portOfRoot? {root : RootPin} {port : Port}
    (h : (m.portOfRoot? root : Run ε _) = .ok (some port)) : port.firstPin ≤ root.instancePin := by
  have htest : (m.portContains port root.instancePin : Run ε Bool) = .ok true :=
    test_of_findM?_eq_some (fun port => m.portContains port root.instancePin) h
  by_cases hfirst : port.firstPin ≤ root.instancePin
  · exact hfirst
  · rw [portContains, if_neg hfirst] at htest
    cases htest

theorem exists_pinsPerInstance_of_ownerFrom {pin base : Nat} (hbase : base ≤ pin)
    {subTiles : List SubTile} {s : SubTile} {offset : Nat}
    (h : (m.ownerFrom pin base subTiles : Run ε _) = .ok (some (s, offset))) :
    offset ≤ pin ∧ ∃ n, 0 < n ∧ (m.pinsPerInstance s : Run ε Nat) = .ok n := by
  induction subTiles generalizing base with
  | nil => cases h
  | cons s' rest ih =>
    obtain ⟨limit, -, h⟩ := (bind_eq_ok_iff ..).1 h
    by_cases hlimit : pin < limit
    · rw [if_pos hlimit, bind_eq_ok_iff] at h
      obtain ⟨n, hn, h⟩ := h
      by_cases hpos : 0 < n
      · rw [if_pos hpos, m.sub_eq hbase] at h
        cases h
        exact ⟨Nat.sub_le pin base, n, hpos, hn⟩
      · rw [if_neg hpos] at h
        cases h
    · rw [if_neg hlimit] at h
      -- The search goes on with a sum that the pin has reached, even if the sum wrapped around.
      exact ih (Nat.not_lt.1 hlimit) h

theorem contains_of_findWithBaseFrom {p : SubTile → Bool} {base base' : Nat}
    {subTiles : List SubTile} {s : SubTile}
    (h : (m.findWithBaseFrom p base subTiles : Run ε _) = .ok (some (base', s))) : p s = true := by
  induction subTiles generalizing base with
  | nil => cases h
  | cons s' rest ih =>
    rw [findWithBaseFrom] at h
    by_cases hp : p s' = true
    · rw [if_pos hp] at h
      cases h
      exact hp
    · rw [if_neg hp, bind_eq_ok_iff] at h
      obtain ⟨next, -, h⟩ := h
      exact ih h

theorem rootPin?_of_ownerFrom {pin offset n : Nat} {s : SubTile}
    (howner : (m.ownerFrom pin 0 tile.subTiles : Run ε _) = .ok (some (s, offset)))
    (hn : (m.pinsPerInstance s : Run ε Nat) = .ok n) (hpos : 0 < n) :
    (m.rootPin? tile pin : Run ε _) = .ok (some ⟨s, offset / n, offset % n⟩) := by
  rw [rootPin?, howner]
  show (m.pinsPerInstance s >>= _) = _
  rw [hn]
  show (quotient offset n >>= _) = _
  rw [quotient_eq hpos]
  show (remainder offset n >>= _) = _
  rw [remainder_eq hpos]
  rfl

theorem exists_total_of_resolveRootPin {pin : Nat} {root : RootPin}
    (h : m.resolveRootPin tile pin = .ok root) :
    ∃ total, (m.total root.subTile.capacity : Run LookupError Nat) = .ok total := by
  obtain ⟨found, hfound, h⟩ := (bind_eq_ok_iff ..).1 h
  rw [Run.of_eq_ok_iff, orFail_eq_ok_iff] at h
  rw [h, rootPin?, bind_eq_ok_iff] at hfound
  obtain ⟨_ | ⟨s, offset⟩, -, hfound⟩ := hfound
  · cases hfound
  · obtain ⟨n, hn, hfound⟩ := (bind_eq_ok_iff ..).1 hfound
    obtain ⟨inst, -, hfound⟩ := (bind_eq_ok_iff ..).1 hfound
    obtain ⟨k, -, hfound⟩ := (bind_eq_ok_iff ..).1 hfound
    cases hfound
    obtain ⟨total, htotal, -⟩ := (bind_eq_ok_iff ..).1 hn
    exact ⟨total, htotal⟩

/-! ## Look-ups whose steps have succeeded -/

theorem sub_eq_of_eq_add {a b c : Nat} (h : a = b + c) : (m.sub a b : Run ε Nat) = .ok c := by
  rw [m.sub_eq (by omega), h, Nat.add_sub_cancel_left]

section Lookups
variable (ht : T.tile? t = some tile)
include ht

theorem of_findTile_eq_ok : Run.of (T.findTile t) = .ok tile :=
  Run.of_eq_ok_iff.2 (Tables.findTile_eq_ok ht)

theorem logicalPin_of_internalSpan {L : Layout} (hL : m.layout T t = .ok L) {pin l : Nat}
    {span : Span} (hspan : m.internalSpan L tile pin = .ok span) (hpin : pin = span.pinBase + l)
    (hle : tile.numPins ≤ pin) : (m.indexer T).logicalPin t pin true = .ok l := by
  refine bind_eq_ok_iff.2 ⟨tile, of_findTile_eq_ok ht, ?_⟩
  rw [if_neg (Nat.not_lt.2 hle), if_pos rfl]
  exact bind_eq_ok_iff.2 ⟨L, hL, bind_eq_ok_iff.2 ⟨span, hspan, sub_eq_of_eq_add hpin⟩⟩

theorem siteOfClass_of_spanOfClass? {L : Layout} (hL : m.layout T t = .ok L) {cls l : Nat}
    {span : Span} (hspan : (m.spanOfClass? L cls : Run LookupError _) = .ok (some span))
    (hcls : cls = span.classBase + l) :
    (m.indexer T).siteOfClass t cls = .ok ⟨span.subTile, span.inst, span.block, l⟩ :=
  bind_eq_ok_iff.2 ⟨tile, of_findTile_eq_ok ht, bind_eq_ok_iff.2 ⟨L, hL,
    bind_eq_ok_iff.2 ⟨some span, hspan, bind_eq_ok_iff.2 ⟨span, rfl,
      bind_eq_ok_iff.2 ⟨l, sub_eq_of_eq_add hcls, rfl⟩⟩⟩⟩⟩

section Places
variable {pin k : Nat} {root : RootPin} {port : Port}
  (hroot : m.resolveRootPin tile pin = .ok root)
  (hport : (m.portOfRoot? root : Run LookupError _) = .ok (some port))
  (hplace : root.instancePin = port.firstPin + k)
include hroot hport hplace

theorem portPosition_of_portOfRoot? :
    m.portPosition T t pin = .ok ⟨root.subTile.index, root.inst, some (port.index, k)⟩ :=
  bind_eq_ok_iff.2 ⟨tile, of_findTile_eq_ok ht, bind_eq_ok_iff.2 ⟨root, hroot,
    bind_eq_ok_iff.2 ⟨some port, hport, bind_eq_ok_iff.2 ⟨some (port.index, k),
      bind_eq_ok_iff.2 ⟨k, sub_eq_of_eq_add hplace, rfl⟩, rfl⟩⟩⟩⟩

theorem pinName_of_portOfRoot? {total : Nat}
    (htotal : (m.total root.subTile.capacity : Run LookupError Nat) = .ok total) :
    m.pinName T t pin = .ok ((if 1 < total then indexed tile.name root.inst else tile.name) ++
      "." ++ indexed port.name k) :=
  bind_eq_ok_iff.2 ⟨tile, of_findTile_eq_ok ht, bind_eq_ok_iff.2 ⟨root, hroot,
    bind_eq_ok_iff.2 ⟨some port, hport, bind_eq_ok_iff.2 ⟨port, rfl,
      bind_eq_ok_iff.2 ⟨k, sub_eq_of_eq_add hplace, bind_eq_ok_iff.2 ⟨total, htotal, rfl⟩⟩⟩⟩⟩⟩

omit ht in
theorem resolvePortPin_of_portOfRoot? :
    m.resolvePortPin tile pin = .ok ⟨root.subTile.index, root.inst, port, k⟩ :=
  bind_eq_ok_iff.2 ⟨root, hroot, bind_eq_ok_iff.2 ⟨some port, hport,
    bind_eq_ok_iff.2 ⟨port, rfl, bind_eq_ok_iff.2 ⟨k, sub_eq_of_eq_add hplace, rfl⟩⟩⟩⟩

end Places

theorem operandsInOrder : m.OperandsInOrder T t tile where
  root pin s offset howner := by
    obtain ⟨hle, n, hpos, hn⟩ := exists_pinsPerInstance_of_ownerFrom (Nat.zero_le pin) howner
    refine ⟨hle, n, hpos, hn, ?_⟩
    exact bind_eq_ok_iff.2 ⟨_, rootPin?_of_ownerFrom howner hn hpos, rfl⟩
  location b location s hfound := by
    have hhost : tile.hostAt? b location = some s := orFail_eq_ok_iff.1 hfound
    have htakes := List.find?_some hhost
    rw [Bool.and_eq_true] at htakes
    obtain ⟨hlt, hlocation⟩ := CapacityRange.sub_low_lt_total htakes.2
    exact ⟨_, hlt, hlocation.symm⟩
  covered location base s hfound := by
    obtain ⟨hlt, hlocation⟩ :=
      CapacityRange.sub_low_lt_total (contains_of_findWithBaseFrom hfound)
    exact ⟨_, hlt, hlocation.symm⟩
  span L pin span hL hspan := by
    obtain ⟨found, hfound, hrest⟩ := (bind_eq_ok_iff ..).1 hspan
    obtain ⟨span', hsome, hrest⟩ := (bind_eq_ok_iff ..).1 hrest
    obtain ⟨_, -, hrest⟩ := (bind_eq_ok_iff ..).1 hrest
    obtain ⟨_, -, hrest⟩ := (bind_eq_ok_iff ..).1 hrest
    rw [pure_eq_ok_iff] at hrest
    rw [Run.of_eq_ok_iff, orFail_eq_ok_iff] at hsome
    rw [hsome, hrest] at hfound
    obtain ⟨l, hpin⟩ := Nat.exists_eq_add_of_le (pinBase_le_of_spanOfPin? hfound)
    exact ⟨l, hpin, logicalPin_of_internalSpan ht hL hspan hpin⟩
  cls L cls span hL hspan := by
    obtain ⟨l, hcls⟩ := Nat.exists_eq_add_of_le (classBase_le_of_spanOfClass? hspan)
    exact ⟨l, hcls, siteOfClass_of_spanOfClass? ht hL hspan hcls⟩
  place pin root port hroot hport := by
    obtain ⟨total, htotal⟩ := exists_total_of_resolveRootPin hroot
    obtain ⟨k, hplace⟩ := Nat.exists_eq_add_of_le (firstPin_le_of_portOfRoot? hport)
    exact ⟨k, total, hplace, htotal, portPosition_of_portOfRoot? ht hroot hport hplace,
      pinName_of_portOfRoot? ht hroot hport hplace htotal,
      resolvePortPin_of_portOfRoot? hroot hport hplace⟩

end Lookups

/-! ## Where sums are exact -/

/-- A machine that checks has formed only sums that fit. -/
theorem owner?_of_ownerFrom (h : m = .checking ∨ tile.RootsFit) {pin offset : Nat} {s : SubTile}
    (howner : (m.ownerFrom pin 0 tile.subTiles : Run ε _) = .ok (some (s, offset))) :
    tile.owner? pin = some (s, offset) ∧
      (m.pinsPerInstance s : Run ε Nat) = .ok s.pinsPerInstance := by
  rcases h with rfl | hroots
  · obtain ⟨hexact, -⟩ :=
      (faithful_ownerFrom (Nat.zero_le pin) False.elim).eq_of_ok howner
    obtain ⟨-, n, -, hn⟩ := exists_pinsPerInstance_of_ownerFrom (Nat.zero_le pin) howner
    obtain ⟨hn', hall⟩ := (faithful_pinsPerInstance False.elim).eq_of_ok hn
    refine ⟨Except.ok.inj hexact, ?_⟩
    rw [hall, Except.ok.inj hn']
  · have hexact : tile.owner? pin = some (s, offset) := by
      rw [(faithful_ownerFrom (Nat.zero_le pin) fun h => h).eq_of_fits hroots] at howner
      exact Except.ok.inj howner
    obtain ⟨i, hi, -⟩ := SubTile.ownerAmong?_eq_some_iff.1 hexact
    exact ⟨hexact, (faithful_pinsPerInstance fun h => h).eq_of_fits
      (hroots.total s (List.mem_of_getElem? hi)) m⟩

theorem laidOut_of_layout (ht : T.tile? t = some tile) (h : m = .checking ∨ T.LayoutFits tile)
    {L : Layout} (hL : m.layout T t = .ok L) : L = T.laidOut tile := by
  rcases h with rfl | hfits
  · exact Indexer.eq_laidOut ht ((faithful_layout T False.elim).eq_of_ok hL).1
  · rw [hfits.layout_eq ht, Run.of_eq_ok_iff] at hL
    exact Indexer.eq_laidOut ht hL

theorem total_pos_of_le (h : m = .checking ∨ T.LayoutFits tile) {s : SubTile}
    (hs : s ∈ tile.subTiles) (hrange : s.capacity.low ≤ s.capacity.high) {total : Nat}
    (htotal : (m.total s.capacity : Run ε Nat) = .ok total) : 0 < total := by
  have hexact : s.capacity.total = total := by
    rcases h with rfl | hfits
    · exact Except.ok.inj ((faithful_total False.elim).eq_of_ok htotal).1
    · rw [m.total_eq (hfits.roots.total s hs)] at htotal
      exact Except.ok.inj htotal
  rw [← hexact]
  exact s.capacity.total_pos_iff.2 hrange

theorem validateSubTile_ne_divisionByZero (h : m = .checking ∨ T.LayoutFits tile)
    (position : Nat) {s : SubTile} (hs : s ∈ tile.subTiles) :
    m.validateSubTile T tile position s ≠ .error (.stop .divisionByZero) := by
  intro hstop
  rcases h with rfl | hfits
  · cases (faithful_validateSubTile T tile position False.elim).eq_overflow_of_stop hstop
  · rw [(faithful_validateSubTile T tile position fun h => h).eq_of_fits
      (hfits.roots.total s hs)] at hstop
    exact Run.of_ne_stop hstop

theorem sumsExact (ht : T.tile? t = some tile) (h : m = .checking ∨ T.LayoutFits tile) :
    m.SumsExact T t tile where
  root pin s offset howner := by
    obtain ⟨hexact, hn⟩ := owner?_of_ownerFrom (h.imp_right fun hfits => hfits.roots) howner
    obtain ⟨i, hi, -, hpos, hpin⟩ := SubTile.ownerAmong?_eq_some_iff.1 hexact
    have hroot := rootPin?_of_ownerFrom howner hn hpos
    refine ⟨hpos, i, _, _, hi, hpin, (Nat.div_add_mod' _ _).symm, Nat.mod_lt _ hpos,
      bind_eq_ok_iff.2 ⟨_, hroot, rfl⟩, ?_⟩
    intro b hb
    refine bind_eq_ok_iff.2 ⟨tile, of_findTile_eq_ok ht, bind_eq_ok_iff.2 ⟨_, hroot, ?_⟩⟩
    refine bind_eq_ok_iff.2 ⟨b, ?_, rfl⟩
    rw [hb]
    rfl
  flatPins L hL := by
    obtain rfl := laidOut_of_layout ht h hL
    exact ⟨tile.weight T.pinsOf, rfl, bind_eq_ok_iff.2 ⟨tile, of_findTile_eq_ok ht,
      bind_eq_ok_iff.2 ⟨_, hL, sub_eq_of_eq_add rfl⟩⟩⟩
  instances position s hs :=
    ⟨fun hrange _ htotal => total_pos_of_le h hs hrange htotal,
      validateSubTile_ne_divisionByZero h position hs⟩

/-- Whatever the tables of a tile say, most operands of its look-ups are in order on either machine.
The others are on a machine that checks, and on one that wraps if the layout of the tile fits. In a
session on a machine that checks nothing but a result that is too large stops the checks of the
tables or a query, and what it answers is answered on either machine. -/
theorem arithmetic_in_order (T : Tables) :
    (∀ (m : Machine) (t : TileId) (tile : Tile), T.tile? t = some tile →
      m.OperandsInOrder T t tile ∧
        (m = .checking ∨ T.LayoutFits tile → m.SumsExact T t tile)) ∧
    ∀ o : Options,
      (∀ reason, Session.startOn .checking T o = .error (.stop reason) → reason = .overflow) ∧
      ∀ s, Session.startOn .checking T o = .ok s → ∀ queries : List Query,
        (∀ reason, (s.askAllOn .checking queries : Run LookupError _) = .error (.stop reason) →
          reason = .overflow) ∧
        ∀ answered, (s.askAllOn .checking queries : Run LookupError _) = .ok answered →
          ∀ m : Machine, Session.startOn m T o = .ok s ∧
            (s.askAllOn m queries : Run LookupError _) = .ok answered := by
  refine ⟨fun m t tile ht => ⟨operandsInOrder ht, sumsExact ht⟩, fun o => ?_⟩
  have hstart := Session.faithful_startOn T o
  refine ⟨fun reason => hstart.eq_overflow_of_stop, fun s hs queries => ?_⟩
  obtain ⟨hexact, hstarts⟩ := hstart.eq_of_ok hs
  have hsound : s.Sound := by
    obtain ⟨-, rfl⟩ := Session.start_eq_ok_iff.1 hexact
    exact Session.sound_init T o
  have hasks := hsound.faithful_askAllOn (ε := LookupError) queries
  exact ⟨fun reason => hasks.eq_overflow_of_stop, fun answered hanswered m =>
    ⟨hstarts m, (hasks.eq_of_ok hanswered).2 m⟩⟩

end Machine

/-- The third sub tile has three pins for two instances, so pin 21 is its third pin and falls into
an instance past its range; the second has no instance to divide its pins among. -/
theorem Samples.disordered_arithmetic :
    disordered.validate = .error (.subTileIndexMismatch "CLB_TILE" "CLB" 0 7) ∧
    ∃ tile second third, disordered.tile? 0 = some tile ∧ disordered.LayoutFits tile ∧
      tile.subTiles[1]? = some second ∧ second.capacity.total = 0 ∧
      tile.subTiles[2]? = some third ∧ third.capacity = ⟨1, 2⟩ ∧ third.numPins = 3 ∧
      ∀ m : Machine,
        (m.ownerFrom 21 0 tile.subTiles : Run LookupError _) = .ok (some (third, 2)) ∧
        0 < third.pinsPerInstance ∧ m.resolveRootPin tile 21 = .ok ⟨third, 2, 0⟩ ∧
        m.portPosition disordered 0 21 = .ok ⟨2, 2, some (0, 0)⟩ ∧
        m.validateSubTile disordered tile 1 second ≠ .error (.stop .divisionByZero) ∧
        (∃ L n, m.layout disordered 0 = .ok L ∧ L.flatPinEnd = tile.numPins + n ∧
          (m.indexer disordered).numFlatPins 0 = .ok n) ∧
        Session.startOn m disordered ⟨true, false⟩ =
          .ok (Session.init disordered ⟨true, false⟩) := by
  have hfits := disordered_layoutFits
  refine ⟨rfl, _, disordered.tiles[0].subTiles[1], disordered.tiles[0].subTiles[2], rfl, hfits, rfl,
    rfl, rfl, rfl, rfl, fun m => ?_⟩
  obtain ⟨htiles, hsessions⟩ := Machine.arithmetic_in_order disordered
  obtain ⟨hoperands, hsums⟩ := htiles m 0 _ rfl
  have h := hsums (.inr hfits)
  have howner : (m.ownerFrom 21 0 disordered.tiles[0].subTiles : Run LookupError _) =
      .ok (some (disordered.tiles[0].subTiles[2], 2)) := by cases m <;> rfl
  obtain ⟨hpos, -⟩ := h.root 21 _ 2 howner
  have hroot : m.resolveRootPin disordered.tiles[0] 21 =
      .ok ⟨disordered.tiles[0].subTiles[2], 2, 0⟩ := by cases m <;> rfl
  obtain ⟨k, total, hplace, -, hposition, -⟩ := hoperands.place 21 _
    ⟨"D", 0, .input, 0, 1⟩ hroot (by cases m <;> rfl)
  obtain rfl : 0 = k := by
    rw [Nat.zero_add] at hplace
    exact hplace
  have hL : m.layout disordered 0 = .ok (disordered.laidOut disordered.tiles[0]) := by
    cases m <;> rfl
  obtain ⟨n, hend, hflat⟩ := h.flatPins _ hL
  have hinstances := h.instances 1 _ (List.getElem_mem (by decide : 1 < 3))
  obtain ⟨-, hstarts⟩ := hsessions ⟨true, false⟩
  exact ⟨howner, hpos, hroot, hposition, hinstances.2, ⟨_, n, hL, hend, hflat⟩,
    ((hstarts _ rfl []).2 _ rfl m).1⟩

/-- On a machine that wraps, the search for root pin 5 of the overdeclared slots passes the second
sub tile, which owns the pin, since the sum of the pins up to there wraps around. The flat pins of
the overdeclared tile end before its root pins. The tile at all locations is checked with the
remainder by zero, where a machine that checks stops at the number of the locations. -/
theorem Samples.overdeclared_arithmetic :
    (∃ tile second third, overdeclaredSlot.tile? 0 = some tile ∧
      tile.subTiles[1]? = some second ∧ tile.pinsBefore 1 ≤ 5 ∧
      5 < tile.pinsBefore 1 + second.numPins ∧ tile.subTiles[2]? = some third ∧
      (Machine.wrapping.ownerFrom 5 0 tile.subTiles : Run LookupError _) = .ok (some (third, 3)) ∧
      (Machine.checking.ownerFrom 5 0 tile.subTiles : Run LookupError _) = Run.overflow) ∧
    (∃ tile L, overdeclaredTile.tile? 0 = some tile ∧
      Machine.wrapping.layout overdeclaredTile 0 = .ok L ∧ L.flatPinEnd < tile.numPins ∧
      Machine.checking.layout overdeclaredTile 0 = Run.overflow) ∧
    ∃ tile s, allLocations.tile? 0 = some tile ∧ tile.subTiles[0]? = some s ∧
      Machine.wrapping.validateSubTile allLocations tile 0 s = .error (.stop .divisionByZero) ∧
      Machine.checking.validateSubTile allLocations tile 0 s = Run.overflow := by
  refine ⟨⟨_, _, overdeclaredSlot.tiles[0].subTiles[2], rfl, rfl, by decide, by decide, rfl, rfl,
    rfl⟩, ⟨_, _, rfl, rfl, ?_, rfl⟩, _, _, rfl, rfl, rfl, rfl⟩
  show 0 < wordLimit - 1
  decide

end PinNumbering
