import PinNumbering.Proofs.Classes.Sites
import PinNumbering.Proofs.FlatPins.Classification
import PinNumbering.Proofs.Sessions.Cells
/-! # Ranges reported as exceeded

The failures `pinOutOfRange` and `classOutOfRange` report a number together with the limit that it
is said to exceed. Many look-ups give such a report, each against a limit of its own: the root pins
of a tile, the end of its flat pins, the length of a table, the pins of one instance, the classes of
a tile or of a block. Some follow from the search that failed, which goes through that very table;
those about a pin of a tile need consistent tables, where the searches stop at the limits.

* `LookupError.Genuine`: a report is true, and the pin that it names is one that may be reported.
* `genuine_findRootPin` and its likes: each look-up fails only so.
* `genuine_bind_findTile`, `genuine_bind_layout`: how a look-up about a tile goes on.
* `Query.MayReport`: which pins a query may report.
* `genuine_answer`, `genuine_tileAnswer`, `genuine_reply`: the answers to all queries.
-/
set_option autoImplicit false

namespace PinNumbering

/-- A report of a number past a range is true: the number is not below the limit. A pin that it
names is one that may be reported. Other failures say nothing about ranges. -/
@[simp] def LookupError.Genuine (mayReport : Nat → Prop) : LookupError → Prop
  | pinOutOfRange _ pin limit => limit ≤ pin ∧ mayReport pin
  | classOutOfRange _ cls limit => limit ≤ cls
  | _ => True

open LookupError (Genuine)

section Reports
variable {T : Tables} {tile : Tile} {t : TileId} {b : BlockId} {mayReport : Nat → Prop}
  {subTile inst pin cls : Nat}

/-! ## Steps that report no range -/

@[simp] theorem Tables.genuine_findTile : FailsOnly (Genuine mayReport) (T.findTile t) := by
  simp [findTile]

theorem Tables.genuine_bind_findTile {α : Type} {f : Tile → Lookup α}
    (hf : ∀ tile, T.tile? t = some tile → FailsOnly (Genuine mayReport) (f tile)) :
    FailsOnly (Genuine mayReport) (T.findTile t >>= f) := by
  rw [failsOnly_bind_iff]
  exact ⟨genuine_findTile, fun tile htile => hf tile (orFail_eq_ok_iff.1 htile)⟩

@[simp] theorem Tables.genuine_findBlock : FailsOnly (Genuine mayReport) (T.findBlock b) := by
  simp [findBlock]

@[simp] theorem Tile.genuine_findSubTile :
    FailsOnly (Genuine mayReport) (tile.findSubTile subTile) := by
  simp [findSubTile]

@[simp] theorem Tables.genuine_findHost : FailsOnly (Genuine mayReport) (T.findHost tile b) := by
  simp [findHost]

@[simp] theorem Tables.genuine_findHostAt {location : Nat} :
    FailsOnly (Genuine mayReport) (T.findHostAt tile b location) := by
  simp [findHostAt]

@[simp] theorem Tables.genuine_findDirectPin {s : SubTile} {logicalPin : Nat} :
    FailsOnly (Genuine mayReport) (T.findDirectPin tile s b logicalPin) := by
  simp [findDirectPin]

@[simp] theorem Tables.genuine_layout : FailsOnly (Genuine mayReport) (T.layout t) := by
  have hfootprint : ∀ b, FailsOnly (Genuine mayReport) (T.footprint b) := by
    intro b
    simp [footprint]
  have hsites : ∀ s, FailsOnly (Genuine mayReport) (T.sizedSites s) := by
    intro s
    simp [sizedSites, FailsOnly.mapM, hfootprint]
  simp [layout, layoutOf, FailsOnly.mapM, hsites]

@[simp] theorem Tables.genuine_numbering_layout :
    FailsOnly (Genuine mayReport) (T.numbering.layout t) := genuine_layout

@[simp] theorem Tables.genuine_findSpan {L : Layout} :
    FailsOnly (Genuine mayReport) (T.numbering.findSpan tile L subTile inst b) := by
  simp [Numbering.findSpan]

/-! ## Searches through a table -/

theorem Tile.genuine_findRootPin (hany : ∀ pin, mayReport pin) {s : SubTile} :
    FailsOnly (Genuine mayReport) (tile.findRootPin s pin) := by
  simp [findRootPin, hany]

theorem Tile.genuine_findClassOfPin (hpin : tile.classOfPin.length ≤ pin → mayReport pin) :
    FailsOnly (Genuine mayReport) (tile.findClassOfPin pin) := by
  simpa [findClassOfPin] using fun hle => ⟨hle, hpin hle⟩

@[simp] theorem Block.genuine_findClass {block : Block} :
    FailsOnly (Genuine mayReport) (block.findClass cls) := by
  simp [findClass]

/-! ## Root pins -/

section AnyPin
variable (hany : ∀ pin, mayReport pin)
include hany

theorem Tables.genuine_rootPinOfFirst {logicalPin : Nat} :
    FailsOnly (Genuine mayReport) (T.rootPinOfFirst t b logicalPin) := by
  simp [rootPinOfFirst, Tile.genuine_findRootPin hany]

theorem Tables.genuine_rootPinAtLocation {location logicalPin : Nat} :
    FailsOnly (Genuine mayReport) (T.rootPinAtLocation t b location logicalPin) := by
  simp [rootPinAtLocation, Tile.genuine_findRootPin hany]

theorem Tables.genuine_rootPinOfInstance {logicalPin : Nat} :
    FailsOnly (Genuine mayReport) (T.rootPinOfInstance t subTile b inst logicalPin) := by
  simp [rootPinOfInstance, Tile.genuine_findRootPin hany]

theorem Tables.genuine_rootPinAtCoordinates {instancePin location : Nat} :
    FailsOnly (Genuine mayReport) (T.rootPinAtCoordinates t instancePin location) := by
  simp [rootPinAtCoordinates, hany]

theorem Tables.genuine_classOfPort {name : String} {place : Nat} {pinType : PinType} :
    FailsOnly (Genuine mayReport) (T.classOfPort t name place pinType) := by
  apply genuine_bind_findTile
  intro tile _
  split
  next => simp
  next pin _ => simp [Tile.genuine_findClassOfPin fun _ => hany pin]

theorem Tables.genuine_graphPinNumber {pin : GraphPinId} :
    FailsOnly (Genuine mayReport) (T.numbering.graphPinNumber t subTile b inst pin) := by
  have hroot : ∀ logicalPin, FailsOnly (Genuine mayReport)
      (T.numbering.tables.rootPinOfInstance t subTile b inst logicalPin) :=
    fun _ => genuine_rootPinOfInstance hany
  simp [Numbering.graphPinNumber, Numbering.sitePinBase, hroot]

end AnyPin

/-! ## Pins of a tile -/

theorem Tables.genuine_bind_layout (ht : T.tile? t = some tile) {α : Type} {f : Layout → Lookup α}
    (hf : FailsOnly (Genuine mayReport) (f (T.laidOut tile))) :
    FailsOnly (Genuine mayReport) (T.numbering.layout t >>= f) := by
  rw [failsOnly_bind_iff]
  refine ⟨genuine_layout, ?_⟩
  intro L hL
  rw [((layout_eq_ok_iff_laidOut ht).1 hL).2]
  exact hf

theorem Tables.genuine_internalSpan (hle : tile.numPins ≤ pin) (hpin : mayReport pin) :
    FailsOnly (Genuine mayReport) ((T.laidOut tile).internalSpan tile pin) := by
  have hend : (T.laidOut tile).spanOfPin? pin = none → (T.laidOut tile).flatPinEnd ≤ pin := by
    rw [spanOfPin?_laidOut_eq_none_iff]
    omega
  simpa [Layout.internalSpan] using fun hnone => ⟨hend hnone, hpin⟩

theorem Tile.Consistent.genuine_resolveRootPin (h : tile.Consistent T)
    (hpin : tile.numPins ≤ pin → mayReport pin) :
    FailsOnly (Genuine mayReport) (tile.resolveRootPin pin) := by
  unfold Tile.resolveRootPin
  rw [failsOnly_orFail_iff, h.rootPin?_eq_none_iff]
  exact fun hle => ⟨hle, hpin hle⟩

section PinOfTile
variable (h : T.Consistent)
  (hpin : ∀ tile, T.tile? t = some tile → tile.numPins ≤ pin → mayReport pin)
include h hpin

theorem Tables.Consistent.genuine_bind_resolveRootPin {α : Type} {f : Tile → RootPin → Lookup α}
    (hf : ∀ tile root, FailsOnly (Genuine mayReport) (f tile root)) :
    FailsOnly (Genuine mayReport)
      (T.findTile t >>= fun tile => tile.resolveRootPin pin >>= f tile) := by
  apply genuine_bind_findTile
  intro tile ht
  rw [failsOnly_bind_iff]
  exact ⟨(h.tile t tile ht).2.genuine_resolveRootPin (hpin tile ht), fun root _ => hf tile root⟩

theorem Tables.Consistent.genuine_coordinates :
    FailsOnly (Genuine mayReport) (T.coordinates t pin) :=
  h.genuine_bind_resolveRootPin hpin fun _ _ => failsOnly_pure _

theorem Tables.Consistent.genuine_portPosition :
    FailsOnly (Genuine mayReport) (T.portPosition t pin) :=
  h.genuine_bind_resolveRootPin hpin fun _ _ => failsOnly_pure _

theorem Tables.Consistent.genuine_pinName : FailsOnly (Genuine mayReport) (T.pinName t pin) :=
  h.genuine_bind_resolveRootPin hpin fun tile root => by simp

theorem Tables.Consistent.genuine_drives : FailsOnly (Genuine mayReport) (T.drives t pin) := by
  apply genuine_bind_findTile
  intro tile ht
  -- Each root pin has an entry in the table of classes, so the search there finds one.
  have hlength := (h.tile t tile ht).2.classOfPin_length
  split
  next =>
    have hreport : tile.classOfPin.length ≤ pin → mayReport pin := by
      rw [hlength]
      exact hpin tile ht
    simp [Tile.genuine_findClassOfPin hreport]
  next => exact failsOnly_pure _

theorem Tables.Consistent.genuine_siteOfPin :
    FailsOnly (Genuine mayReport) (T.numbering.siteOfPin t pin) := by
  apply genuine_bind_findTile
  intro tile ht
  cases hroot : tile.rootPin? pin with
  | some root => simp
  | none =>
    -- Only pins past the root pins have no owner, so the layout is not asked about a root pin.
    have hle := ((h.tile t tile ht).2.rootPin?_eq_none_iff pin).1 hroot
    apply genuine_bind_layout ht
    simp [genuine_internalSpan hle (hpin tile ht hle)]

theorem Tables.Consistent.genuine_logicalPin {flat : Bool} :
    FailsOnly (Genuine mayReport) (T.numbering.logicalPin t pin flat) := by
  apply genuine_bind_findTile
  intro tile ht
  split
  next => simp [Numbering.logicalPinOfRoot, h.genuine_siteOfPin hpin]
  next hlt =>
    have hle := Nat.not_lt.1 hlt
    split
    next =>
      apply genuine_bind_layout ht
      simp [genuine_internalSpan hle (hpin tile ht hle)]
    next => exact failsOnly_throw_iff.2 ⟨hle, hpin tile ht hle⟩

theorem Tables.Consistent.genuine_graphPinAt :
    FailsOnly (Genuine mayReport) (T.numbering.graphPinAt t pin) := by
  simp [Numbering.graphPinAt, h.genuine_siteOfPin hpin, h.genuine_logicalPin hpin]

end PinOfTile

theorem Tables.Consistent.genuine_classPinNames (h : T.Consistent)
    (hany : ∀ pin, mayReport pin) : FailsOnly (Genuine mayReport) (T.classPinNames t cls) := by
  apply genuine_bind_findTile
  intro tile ht
  have hpin : ∀ pin, FailsOnly (Genuine mayReport) (tile.resolvePortPin pin) := by
    intro pin
    simp [Tile.resolvePortPin, (h.tile t tile ht).2.genuine_resolveRootPin fun _ => hany pin]
  simp only [failsOnly_bind_iff, failsOnly_orFail_iff, List.getElem?_eq_none_iff]
  refine ⟨fun hle => hle, fun info _ => ⟨FailsOnly.mapM fun pin _ => hpin pin, fun pins _ => ?_⟩⟩
  split
  next => exact failsOnly_pure _
  next => exact failsOnly_throw_iff.2 trivial

/-! ## Classes -/

theorem Tables.genuine_siteOfClass :
    FailsOnly (Genuine mayReport) (T.numbering.siteOfClass t cls) := by
  apply genuine_bind_findTile
  intro tile ht
  apply genuine_bind_layout ht
  rw [failsOnly_bind_iff, failsOnly_orFail_iff]
  exact ⟨(T.spanOfClass?_laidOut_eq_none_iff tile cls).1, fun _ _ => failsOnly_pure _⟩

theorem Tables.genuine_findClass {flat : Bool} :
    FailsOnly (Genuine mayReport) (T.numbering.findClass t cls flat) := by
  apply genuine_bind_findTile
  intro tile ht
  simp [genuine_siteOfClass]

@[simp] theorem Tables.genuine_classesOfSpans {spans : List Span} :
    FailsOnly (Genuine mayReport) (T.numbering.classesOfSpans spans) := by
  have hentries : ∀ span : Span, FailsOnly (Genuine mayReport)
      (T.numbering.tables.findBlock span.block >>= fun block =>
        pure (span.classEntries block)) := by
    simp
  unfold Numbering.classesOfSpans
  rw [failsOnly_bind_iff]
  exact ⟨FailsOnly.mapM fun span _ => hentries span, fun _ _ => failsOnly_pure _⟩

theorem Tables.genuine_primitiveClasses {primitive : Nat} :
    FailsOnly (Genuine mayReport) (T.numbering.primitiveClasses t subTile b inst primitive) := by
  have hentry : ∀ (span : Span) (block : Block) (pin : GraphPinId),
      FailsOnly (Genuine mayReport) (span.classEntry block pin) := by
    simp [Span.classEntry]
  simp [Numbering.primitiveClasses, FailsOnly.mapM fun pin _ => hentry _ _ pin]

end Reports

/-! ## Answers -/

namespace Answer
variable {α : Type} {p : LookupError → Prop} {answer : α → Answer}

/-- The answer is no failure, or one with the property. -/
def FailsOnly (p : LookupError → Prop) (a : Answer) : Prop := ∀ cause, a = failure cause → p cause

@[simp] theorem failsOnly_of_ne {a : Answer} (ha : ∀ cause, a ≠ failure cause) :
    a.FailsOnly p := fun cause h => absurd h (ha cause)

@[simp] theorem failsOnly_ofLookup_iff {x : Lookup α} :
    (ofLookup answer x).FailsOnly p ↔
      PinNumbering.FailsOnly p x ∧ ∀ a, x = .ok a → (answer a).FailsOnly p := by
  cases x <;> simp [ofLookup, FailsOnly]

@[simp] theorem failsOnly_ofOption_iff {x : Option α} :
    (ofOption answer x).FailsOnly p ↔ ∀ a, x = some a → (answer a).FailsOnly p := by
  cases x <;> simp [ofOption]

theorem FailsOnly.ofLookup {x : Lookup α} (hx : PinNumbering.FailsOnly p x)
    (ha : ∀ a, (answer a).FailsOnly p) : (ofLookup answer x).FailsOnly p :=
  failsOnly_ofLookup_iff.2 ⟨hx, fun a _ => ha a⟩

@[simp] theorem failsOnly_ofPair_iff {x : Lookup (Nat × Nat)} :
    (ofPair x).FailsOnly p ↔ PinNumbering.FailsOnly p x := by
  simp [ofPair]

end Answer

/-! ## Queries about a pin of a tile -/

/-- The pin of a tile that a query is about. -/
def TableQuery.pin? : TableQuery → Option (TileId × Nat)
  | coordinates t pin | drives t pin | portPosition t pin | pinName t pin => some (t, pin)
  | _ => none

/-- The pin of the tile that a query is about. -/
def TileQuery.pin? : TileQuery → Option Nat
  | spanOfPin pin | siteOfPin pin | subTileOfPin pin | instanceOfPin pin | blockOfPin pin
  | logicalPin pin _ | graphPinAt pin => some pin
  | _ => none

/-- The pin of a tile that a query is about. -/
def Query.pin? : Query → Option (TileId × Nat)
  | options => none
  | ofTables q => q.pin?
  | ofTile t q => q.pin?.map fun pin => (t, pin)

/-- A query about a pin of a tile reports no other pin as out of range, and this one only if it lies
past the root pins of the tile. -/
def Query.MayReport (T : Tables) (q : Query) (reported : Nat) : Prop :=
  ∀ t pin, q.pin? = some (t, pin) →
    reported = pin ∧ ∃ tile, T.tile? t = some tile ∧ tile.numPins ≤ pin

section Answers
variable {T : Tables} {t : TileId}

theorem Query.mayReport_of_none {q : Query} (hq : q.pin? = none) (reported : Nat) :
    q.MayReport T reported := by
  intro t pin hsome
  rw [hq] at hsome
  cases hsome

theorem Query.mayReport_of_some {q : Query} {pin : Nat} (hq : q.pin? = some (t, pin)) (tile : Tile)
    (ht : T.tile? t = some tile) (hle : tile.numPins ≤ pin) : q.MayReport T pin := by
  intro t' pin' hsome
  rw [hq, Option.some.injEq, Prod.mk.injEq] at hsome
  obtain ⟨rfl, rfl⟩ := hsome
  exact ⟨rfl, tile, ht, hle⟩

theorem Tables.Consistent.genuine_answer (h : T.Consistent) (q : TableQuery) :
    (T.answer q).FailsOnly (Genuine ((Query.ofTables q).MayReport T)) := by
  cases q with
  | coordinates t pin =>
    rw [answer, Answer.failsOnly_ofPair_iff]
    exact h.genuine_coordinates (Query.mayReport_of_some rfl)
  | drives t pin => exact .ofLookup (h.genuine_drives (Query.mayReport_of_some rfl)) (by simp)
  | portPosition t pin =>
    exact .ofLookup (h.genuine_portPosition (Query.mayReport_of_some rfl)) (by simp)
  | pinName t pin => exact .ofLookup (h.genuine_pinName (Query.mayReport_of_some rfl)) (by simp)
  | rootPinOfFirst =>
    exact .ofLookup (genuine_rootPinOfFirst (Query.mayReport_of_none rfl)) (by simp)
  | rootPinAtLocation =>
    exact .ofLookup (genuine_rootPinAtLocation (Query.mayReport_of_none rfl)) (by simp)
  | rootPinOfInstance =>
    exact .ofLookup (genuine_rootPinOfInstance (Query.mayReport_of_none rfl)) (by simp)
  | rootPinAtCoordinates =>
    exact .ofLookup (genuine_rootPinAtCoordinates (Query.mayReport_of_none rfl)) (by simp)
  | classPinNames =>
    exact .ofLookup (h.genuine_classPinNames (Query.mayReport_of_none rfl)) (by simp)
  | classOfPort =>
    exact .ofLookup (genuine_classOfPort (Query.mayReport_of_none rfl)) (by simp)
  | validate => cases hT : T.validate <;> simp [answer, hT]
  | hostIndex | hostIndexAt | pinInSubTile | numSubTileFlatPins | maxRootPins | preferredTile
  | preferredBlock | compatible | compatibleAt | isInput | isOutput | isPad =>
    simp [answer, hostIndex, hostIndexAt, pinInSubTile, numSubTileFlatPins, maxRootPins,
      preferredTile, preferredBlock, compatible, compatibleAt, isInput, isOutput, isPad,
      FailsOnly.mapM]
  | _ => simp [answer]

theorem Tables.Consistent.genuine_tileAnswer (h : T.Consistent) (kept : Bool) (q : TileQuery) :
    (T.numbering.answer kept t q).FailsOnly (Genuine ((Query.ofTile t q).MayReport T)) := by
  cases q with
  | siteOfPin pin =>
    exact .ofLookup (h.genuine_siteOfPin (Query.mayReport_of_some rfl)) (by simp)
  | subTileOfPin pin | instanceOfPin pin | blockOfPin pin =>
    exact .ofLookup (failsOnly_map_iff.2 (h.genuine_siteOfPin (Query.mayReport_of_some rfl)))
      (by simp)
  | logicalPin pin flat =>
    exact .ofLookup (h.genuine_logicalPin (Query.mayReport_of_some rfl)) (by simp)
  | graphPinAt pin =>
    rw [Numbering.answer, Answer.failsOnly_ofPair_iff]
    exact h.genuine_graphPinAt (Query.mayReport_of_some rfl)
  | graphPinNumber =>
    exact .ofLookup (genuine_graphPinNumber (Query.mayReport_of_none rfl)) (by simp)
  | findClass | classType | classSize => simp [Numbering.answer, genuine_findClass]
  | siteOfClass | subTileOfClass | instanceOfClass | blockOfClass | logicalClass =>
    simp [Numbering.answer, genuine_siteOfClass]
  | primitiveClasses => exact .ofLookup genuine_primitiveClasses (by simp)
  | sitePinBase | numFlatPins | pinBound | numClasses | tileClasses | instanceClasses
  | siteClasses =>
    simp [Numbering.answer, Numbering.sitePinBase, Numbering.numFlatPins, Numbering.pinBound,
      Numbering.numClasses, Numbering.tileClasses, Numbering.instanceClasses,
      Numbering.siteClasses]
  | _ => simp [Numbering.answer]

theorem Tables.Consistent.genuine_reply (h : T.Consistent) (o : Options) (q : Query) :
    (T.reply o q).FailsOnly (Genuine (q.MayReport T)) := by
  cases q with
  | options => exact Answer.failsOnly_of_ne (by simp [reply])
  | ofTables q => exact h.genuine_answer q
  | ofTile t q => exact h.genuine_tileAnswer _ q

end Answers

/-! ## Runs -/

/-- In a session about tables that pass the checks, whatever was asked before, a failure that says
that a pin or a class exceeds a limit is right. A query about a pin of a tile never says so of
another pin, nor of a root pin of the tile. -/
theorem Session.range_failures_genuine (T : Tables) (hT : T.validate = .ok ()) (o : Options)
    (s : Session) (hs : start T o = .ok s) (queries : List Query) (n : Nat) (q : Query)
    (hq : queries[n]? = some q) (e : LookupError)
    (he : (s.askAll queries).1[n]? = some (.failure e)) :
    (∀ owner pin limit, e = .pinOutOfRange owner pin limit → limit ≤ pin) ∧
    (∀ owner cls limit, e = .classOutOfRange owner cls limit → limit ≤ cls) ∧
    ∀ t pin, q.pin? = some (t, pin) →
      ∀ owner reported limit, e = .pinOutOfRange owner reported limit →
        reported = pin ∧ ∃ tile, T.tile? t = some tile ∧ tile.numPins ≤ pin := by
  have hconsistent : T.Consistent := T.validate_eq_ok_iff.1 hT
  obtain ⟨-, rfl⟩ := start_eq_ok_iff.1 hs
  have hanswers : ((init T o).askAll queries).1 = queries.map (T.reply o) :=
    (sound_init T o).askAll_fst queries
  rw [hanswers, List.getElem?_map, hq, Option.map_some, Option.some.injEq] at he
  have hgenuine : e.Genuine (q.MayReport T) := hconsistent.genuine_reply o q e he
  refine ⟨?_, ?_, ?_⟩
  · intro owner pin limit hcause
    rw [hcause] at hgenuine
    exact hgenuine.1
  · intro owner cls limit hcause
    rw [hcause] at hgenuine
    exact hgenuine
  · intro t pin hpin owner reported limit hcause
    rw [hcause] at hgenuine
    exact hgenuine.2 t pin hpin

/-- The logic tile has 19 root pins, 71 flat pins and 16 classes. A pin past the root pins is out of
range for the look-up that stops at them, and the first pin and the first class past all sites are
out of range for those that go on. -/
theorem Samples.heterogeneous_range_failures :
    let queries : List Query := [.ofTile 0 (.logicalPin 30 false), .ofTile 0 (.siteOfPin 71),
      .ofTile 0 (.siteOfClass 16)]
    heterogeneous.validate = .ok () ∧ ∃ s, Session.start heterogeneous ⟨true, true⟩ = .ok s ∧
      (s.askAll queries).1 = [.failure (.pinOutOfRange "CLB_TILE" 30 19),
        .failure (.pinOutOfRange "CLB_TILE" 71 71),
        .failure (.classOutOfRange "CLB_TILE" 16 16)] ∧
      (∃ tile, heterogeneous.tile? 0 = some tile ∧ tile.numPins ≤ 30) ∧ 71 ≤ 71 ∧ 16 ≤ 16 := by
  intro queries
  have hstart : Session.start heterogeneous ⟨true, true⟩ =
      .ok (Session.init heterogeneous ⟨true, true⟩) := rfl
  have hanswers : ((Session.init heterogeneous ⟨true, true⟩).askAll queries).1 =
      [.failure (.pinOutOfRange "CLB_TILE" 30 19), .failure (.pinOutOfRange "CLB_TILE" 71 71),
        .failure (.classOutOfRange "CLB_TILE" 16 16)] := rfl
  have hgenuine := Session.range_failures_genuine heterogeneous rfl ⟨true, true⟩ _ hstart queries
  have hfirst := hgenuine 0 _ rfl _ (by rw [hanswers]; rfl)
  have hsecond := hgenuine 1 _ rfl _ (by rw [hanswers]; rfl)
  have hthird := hgenuine 2 _ rfl _ (by rw [hanswers]; rfl)
  exact ⟨rfl, _, hstart, hanswers, (hfirst.2.2 0 30 rfl _ _ _ rfl).2, hsecond.1 _ _ _ rfl,
    hthird.2.1 _ _ _ rfl⟩

end PinNumbering
