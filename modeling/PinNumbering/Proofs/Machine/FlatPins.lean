import PinNumbering.Proofs.Machine.Layout
/-! # Flat pins and classes on a machine are those of the numbers

The look-ups among flat pins and primitive classes are faithful if the layouts that they are given
are. A span that a search finds starts no later than what was looked for, and the flat pins of a
tile end no earlier than its root pins.
-/
set_option autoImplicit false

namespace PinNumbering

open Run (Faithful)

namespace Indexer

/-- One indexer for each machine, all over the same tables and with their layouts. The layout of a
tile comes with the condition for it. -/
structure FaithfulTo (fits : TileId → Prop) (I : Machine → Indexer) (T : Tables) : Prop where
  machine : ∀ m, (I m).machine = m
  tables : ∀ m, (I m).tables = T
  layout : ∀ t, Faithful (fits t) (fun m => (I m).layout t) (T.layout t)

theorem faithfulTo_indexer {fits : TileId → Prop} {T : Tables}
    (hfits : ∀ t, fits t → T.LayoutFitsAt t) : FaithfulTo fits (fun m => m.indexer T) T where
  machine _ := rfl
  tables _ := rfl
  layout t := Machine.faithful_layout T (hfits t)

theorem pinBase_le_of_internalSpan {L : Layout} {tile : Tile} {pin : Nat} {span : Span}
    (h : L.internalSpan tile pin = .ok span) : span.pinBase ≤ pin := by
  obtain ⟨hfound, -⟩ := Layout.internalSpan_eq_ok_iff.1 h
  have hhas := List.find?_some hfound
  rw [Span.hasPin_iff] at hhas
  exact hhas.1

theorem classBase_le_of_spanOfClass? {L : Layout} {cls : Nat} {span : Span}
    (h : L.spanOfClass? cls = some span) : span.classBase ≤ cls := by
  have hhas := List.find?_some h
  rw [Span.hasClass_iff] at hhas
  exact hhas.1

theorem eq_laidOut {T : Tables} {t : TileId} {tile : Tile} {L : Layout}
    (ht : T.tile? t = some tile) (hL : T.layout t = .ok L) : L = T.laidOut tile :=
  ((Tables.layout_eq_ok_iff_laidOut ht).1 hL).2

/-- A span of a tile leaves room for all primitive classes of its block. -/
theorem classBase_add_lt {T : Tables} {tile : Tile} (h : T.LayoutFits tile) {span : Span}
    (hspan : span ∈ (T.laidOut tile).spans) {block : Block}
    (hb : T.block? span.block = some block) :
    span.classBase + block.primitiveClasses.length < wordLimit := by
  have hend := h.classEnd_lt hspan
  obtain ⟨p, -, rfl⟩ := List.mem_map.1 hspan
  have hb : T.block? p.block = some block := hb
  have hclasses : (T.spanOf tile p).numClasses = block.primitiveClasses.length := by
    show (T.footprintOf p.block).numClasses = _
    rw [Tables.footprintOf_eq_of_block? hb]
    rfl
  rwa [hclasses] at hend

theorem faithful_internalSpan {fits : Prop} {T : Tables} {t : TileId} {tile : Tile}
    (ht : T.tile? t = some tile) {L : Layout} (hL : T.layout t = .ok L) (pin : Nat)
    (hfits : fits → T.SpansFitAt t) :
    Faithful fits (fun m => m.internalSpan L tile pin) (L.internalSpan tile pin) := by
  obtain rfl := eq_laidOut ht hL
  exact Machine.faithful_internalSpan tile pin (fun hf => (hfits hf tile ht).internalBase)
    fun hf _ hspan => (hfits hf tile ht).pinEnd_lt hspan

namespace FaithfulTo

section
variable {fits : TileId → Prop} {I : Machine → Indexer} {T : Tables} (h : FaithfulTo fits I T)
  {t : TileId}
include h

/-! ## Flat pins -/

theorem findSpan (tile : Tile) (L : Layout) (subTile inst : Nat) (b : BlockId) :
    Faithful (fits t) (fun m => (I m).findSpan tile L subTile inst b)
      (T.numbering.findSpan tile L subTile inst b) := by
  simp only [Indexer.findSpan, h.tables]
  exact .of _

theorem sitePinBase (subTile : Nat) (b : BlockId) (inst : Nat) :
    Faithful (fits t) (fun m => (I m).sitePinBase t subTile b inst)
      (T.numbering.sitePinBase t subTile b inst) := by
  unfold Indexer.sitePinBase
  simp only [h.tables]
  refine (Faithful.of (T.findTile t)).bind fun tile _ => (h.layout t).bind fun L _ => ?_
  exact (h.findSpan tile L subTile inst b).bind fun span _ => .ok _

theorem graphPinNumber {subTile : Nat} {b : BlockId} {inst : Nat} {pin : GraphPinId}
    (hroot : fits t → ∀ block logicalPin tile s, T.block? b = some block →
      block.logicalPin? pin = some logicalPin → T.tile? t = some tile →
      tile.subTiles[subTile]? = some s → T.InstanceFits tile s b inst logicalPin)
    (hinternal : fits t → ∀ block logicalPin base, T.block? b = some block →
      block.logicalPin? pin = some logicalPin →
      T.numbering.sitePinBase t subTile b inst = .ok base → base + logicalPin < wordLimit) :
    Faithful (fits t) (fun m => (I m).graphPinNumber t subTile b inst pin)
      (T.numbering.graphPinNumber t subTile b inst pin) := by
  unfold Indexer.graphPinNumber
  simp only [h.tables, h.machine]
  refine (Faithful.of (T.findBlock b)).bind fun block hblock => ?_
  refine (Faithful.of _).bind fun data _ => (Faithful.of _).bind fun logicalPin hpin => ?_
  have hb : T.block? b = some block := orFail_eq_ok_iff.1 hblock
  have hl : block.logicalPin? pin = some logicalPin := orFail_eq_ok_iff.1 hpin
  cases data.isRoot with
  | true =>
    exact Machine.faithful_rootPinOfInstance T t fun hf tile s ht hs =>
      hroot hf block logicalPin tile s hb hl ht hs
  | false =>
    exact (h.sitePinBase subTile b inst).bind fun base hbase =>
      .add fun hf => hinternal hf block logicalPin base hb hl hbase

theorem siteOfPin (pin : Nat) (hfits : fits t → T.SpansFitAt t) :
    Faithful (fits t) (fun m => (I m).siteOfPin t pin) (T.numbering.siteOfPin t pin) := by
  unfold Indexer.siteOfPin Numbering.siteOfPin
  simp only [h.tables, h.machine]
  refine (Faithful.of (T.findTile t)).bind fun tile htile => ?_
  have ht : T.tile? t = some tile := orFail_eq_ok_iff.1 htile
  refine (Machine.faithful_rootPin? pin fun hf => (hfits hf tile ht).roots).after ?_
  cases tile.rootPin? pin with
  | some root => exact (Faithful.of _).bind fun block _ => .ok _
  | none =>
    exact (h.layout t).bind fun L hL =>
      (faithful_internalSpan ht hL pin hfits).bind fun span _ => .ok _

theorem logicalPinOfRoot {tile : Tile} (ht : T.tile? t = some tile) (pin : Nat)
    (hfits : fits t → T.SpansFitAt t)
    (hbefore : fits t → ∀ site s, T.numbering.siteOfPin t pin = .ok site →
      tile.subTiles[site.subTile]? = some s → site.inst * s.pinsPerInstance < wordLimit) :
    Faithful (fits t) (fun m => (I m).logicalPinOfRoot t tile pin)
      (T.numbering.logicalPinOfRoot t tile pin) := by
  unfold Indexer.logicalPinOfRoot
  simp only [h.machine]
  refine (h.siteOfPin pin hfits).bind fun site hsite => ?_
  refine (Faithful.of (tile.findSubTile site.subTile)).bind fun s hs => ?_
  have hs : tile.subTiles[site.subTile]? = some s := orFail_eq_ok_iff.1 hs
  refine (Faithful.of _).bind fun position _ => ?_
  refine (Machine.faithful_pinsPerInstance fun hf =>
    (hfits hf tile ht).roots.total s (List.mem_of_getElem? hs)).after ?_
  refine (Faithful.mul fun hf => hbefore hf site s hsite hs).after ?_
  exact (Faithful.of _).bind fun _ _ => .of _

theorem logicalPin (pin : Nat) (flat : Bool) (hfits : fits t → T.SpansFitAt t)
    (hbefore : fits t → ∀ tile site s, T.tile? t = some tile →
      T.numbering.siteOfPin t pin = .ok site → tile.subTiles[site.subTile]? = some s →
      site.inst * s.pinsPerInstance < wordLimit) :
    Faithful (fits t) (fun m => (I m).logicalPin t pin flat)
      (T.numbering.logicalPin t pin flat) := by
  unfold Indexer.logicalPin
  simp only [h.tables, h.machine]
  refine (Faithful.of (T.findTile t)).bind fun tile htile => ?_
  have ht : T.tile? t = some tile := orFail_eq_ok_iff.1 htile
  refine .ite (fun _ => h.logicalPinOfRoot ht pin hfits fun hf site s =>
    hbefore hf tile site s ht) fun _ => ?_
  cases flat with
  | false => exact .error _
  | true =>
    refine (h.layout t).bind fun L hL => ?_
    exact (faithful_internalSpan ht hL pin hfits).bind fun span hspan =>
      .sub (pinBase_le_of_internalSpan hspan)

theorem graphPinAt (pin : Nat) (hfits : fits t → T.SpansFitAt t)
    (hbefore : fits t → ∀ tile site s, T.tile? t = some tile →
      T.numbering.siteOfPin t pin = .ok site → tile.subTiles[site.subTile]? = some s →
      site.inst * s.pinsPerInstance < wordLimit) :
    Faithful (fits t) (fun m => (I m).graphPinAt t pin) (T.numbering.graphPinAt t pin) := by
  unfold Indexer.graphPinAt
  simp only [h.tables]
  refine (Faithful.of (T.findTile t)).bind fun tile _ =>
    (h.siteOfPin pin hfits).bind fun site _ => ?_
  refine (h.logicalPin pin true hfits hbefore).bind fun logicalPin _ => ?_
  exact (Faithful.of _).bind fun block _ => (Faithful.of _).bind fun graphPin _ => .ok _

theorem numFlatPins :
    Faithful (fits t) (fun m => (I m).numFlatPins t) (T.numbering.numFlatPins t) := by
  unfold Indexer.numFlatPins
  simp only [h.tables, h.machine]
  refine (Faithful.of (T.findTile t)).bind fun tile htile => (h.layout t).bind fun L hL => ?_
  obtain rfl := eq_laidOut (orFail_eq_ok_iff.1 htile) hL
  exact .sub (Nat.le_add_right _ _)

theorem pinBound (flat : Bool) :
    Faithful (fits t) (fun m => (I m).pinBound t flat) (T.numbering.pinBound t flat) := by
  unfold Indexer.pinBound
  simp only [h.tables]
  cases flat with
  | true => exact (h.layout t).bind fun L _ => .ok _
  | false => exact (Faithful.of (T.findTile t)).bind fun tile _ => .ok _

/-! ## One class -/

theorem siteOfClass (cls : Nat) (hfits : fits t → T.LayoutFitsAt t) :
    Faithful (fits t) (fun m => (I m).siteOfClass t cls) (T.numbering.siteOfClass t cls) := by
  unfold Indexer.siteOfClass
  simp only [h.tables, h.machine]
  refine (Faithful.of (T.findTile t)).bind fun tile htile => (h.layout t).bind fun L hL => ?_
  have ht : T.tile? t = some tile := orFail_eq_ok_iff.1 htile
  obtain rfl := eq_laidOut ht hL
  refine (Machine.faithful_spanOfClass? cls fun hf _ hspan =>
    (hfits hf tile ht).classEnd_lt hspan).after ((Faithful.of _).bind fun span hspan => ?_)
  exact (Faithful.sub (classBase_le_of_spanOfClass? (orFail_eq_ok_iff.1 hspan))).after (.ok _)

theorem findClass (cls : Nat) (flat : Bool) (hfits : fits t → T.LayoutFitsAt t) :
    Faithful (fits t) (fun m => (I m).findClass t cls flat) (T.numbering.findClass t cls flat) := by
  unfold Indexer.findClass
  simp only [h.tables]
  refine (Faithful.of (T.findTile t)).bind fun tile _ => ?_
  cases flat with
  | false => exact .of _
  | true =>
    exact (h.siteOfClass cls hfits).bind fun site _ => (Faithful.of _).bind fun block _ => .of _

theorem numClasses : Faithful (fits t) (fun m => (I m).numClasses t) (T.numbering.numClasses t) :=
  (h.layout t).bind fun _ _ => .ok _

/-! ## Class maps -/

theorem classEntries {span : Span} {block : Block}
    (hfits : fits t → span.classBase + block.primitiveClasses.length < wordLimit) :
    Faithful (fits t) (fun m => (I m).classEntries span block) (.ok (span.classEntries block)) := by
  unfold Indexer.classEntries
  simp only [h.machine]
  refine Faithful.congr (Faithful.mapM (f := fun entry : PinClass × Nat => .ok
    (span.classBase + entry.2, (⟨span.block, entry.2, entry.1⟩ : ClassEntry))) fun entry hentry =>
      (Faithful.add fun hf => ?_).after (.ok _)) ?_
  · have hposition : entry.2 < block.primitiveClasses.length := by
      obtain ⟨-, hlt, -⟩ := List.mem_zipIdx hentry
      omega
    have hend := hfits hf
    omega
  · exact List.mapM_pure

theorem classesOfSpans {spans : List Span} (hfits : fits t → ∀ span ∈ spans, ∀ block,
      T.block? span.block = some block →
      span.classBase + block.primitiveClasses.length < wordLimit) :
    Faithful (fits t) (fun m => (I m).classesOfSpans spans) (T.numbering.classesOfSpans spans) := by
  unfold Indexer.classesOfSpans
  simp only [h.tables]
  refine (Faithful.mapM fun span hspan => ?_).bind fun entries _ => .ok _
  exact (Faithful.of (T.findBlock span.block)).bind fun block hblock =>
    h.classEntries fun hf => hfits hf span hspan block (orFail_eq_ok_iff.1 hblock)

/-- The classes of some of the spans of a tile. -/
theorem classesOfSpans_layout {tile : Tile} (ht : T.tile? t = some tile) {L : Layout}
    (hL : T.layout t = .ok L) {spans : List Span} (hspans : ∀ span ∈ spans, span ∈ L.spans)
    (hfits : fits t → T.LayoutFitsAt t) :
    Faithful (fits t) (fun m => (I m).classesOfSpans spans) (T.numbering.classesOfSpans spans) := by
  obtain rfl := eq_laidOut ht hL
  exact h.classesOfSpans fun hf span hspan block hb =>
    classBase_add_lt (hfits hf tile ht) (hspans span hspan) hb

theorem tileClasses (hfits : fits t → T.LayoutFitsAt t) :
    Faithful (fits t) (fun m => (I m).tileClasses t) (T.numbering.tileClasses t) := by
  refine (h.layout t).bind fun L hL => ?_
  obtain ⟨tile, htile, -⟩ := (bind_eq_ok_iff ..).1 hL
  exact h.classesOfSpans_layout (orFail_eq_ok_iff.1 htile) hL (fun _ hspan => hspan) hfits

theorem instanceClasses (subTile : Nat) {inst : Nat} (hfits : fits t → T.LayoutFitsAt t)
    (hlocation : fits t → ∀ tile s, T.tile? t = some tile → tile.subTiles[subTile]? = some s →
      s.capacity.total ≤ inst → s.capacity.low + inst < wordLimit) :
    Faithful (fits t) (fun m => (I m).instanceClasses t subTile inst)
      (T.numbering.instanceClasses t subTile inst) := by
  unfold Indexer.instanceClasses
  simp only [h.tables, h.machine]
  refine (Faithful.of (T.findTile t)).bind fun tile htile => ?_
  have ht : T.tile? t = some tile := orFail_eq_ok_iff.1 htile
  refine (Faithful.of (tile.findSubTile subTile)).bind fun s hs => ?_
  have hs : tile.subTiles[subTile]? = some s := orFail_eq_ok_iff.1 hs
  refine (Machine.faithful_total fun hf =>
    (hfits hf tile ht).roots.total s (List.mem_of_getElem? hs)).after ?_
  by_cases hinst : inst < s.capacity.total
  · simp only [if_pos hinst, LookupError.unless]
    exact (h.layout t).bind fun L hL =>
      h.classesOfSpans_layout ht hL (fun _ hspan => (List.mem_filter.1 hspan).1) hfits
  · simp only [if_neg hinst, LookupError.unless]
    exact Machine.faithful_instanceOutOfRange tile fun hf =>
      hlocation hf tile s ht hs (Nat.not_lt.1 hinst)

theorem siteClasses (subTile : Nat) (b : BlockId) (inst : Nat)
    (hfits : fits t → T.LayoutFitsAt t) :
    Faithful (fits t) (fun m => (I m).siteClasses t subTile b inst)
      (T.numbering.siteClasses t subTile b inst) := by
  unfold Indexer.siteClasses
  simp only [h.tables]
  refine (Faithful.of (T.findTile t)).bind fun tile htile => (h.layout t).bind fun L hL => ?_
  refine (h.findSpan tile L subTile inst b).bind fun span hspan => ?_
  refine h.classesOfSpans_layout (orFail_eq_ok_iff.1 htile) hL (fun other hother => ?_) hfits
  obtain rfl := List.mem_singleton.1 hother
  exact List.mem_of_find?_eq_some (orFail_eq_ok_iff.1 hspan)

end

/-! ## Look-ups without a condition -/

section
variable {I : Machine → Indexer} {T : Tables} (h : FaithfulTo (fun _ => False) I T) (t : TileId)
include h

theorem classNumber? (subTile : Nat) (b : BlockId) (inst logicalClass : Nat) :
    Faithful False (fun m => (I m).classNumber? t subTile b inst logicalClass)
      (.ok (T.numbering.classNumber? t subTile b inst logicalClass)) := by
  unfold Indexer.classNumber? Numbering.classNumber?
  simp only [h.machine]
  have hnumbering : T.numbering.layout t = T.layout t := rfl
  -- A failure to lay out is an absent number here, so this is not a chain of steps.
  rcases h.layout t with hlayout | ⟨-, hstop⟩
  · simp only [hlayout, hnumbering]
    cases T.layout t with
    | error cause => exact .ok none
    | ok L =>
      simp only [Run.of_ok, Except.toOption, Option.bind_eq_bind, Option.bind_some]
      cases L.spanAt? subTile inst b with
      | none => exact .ok none
      | some span =>
        by_cases hlt : logicalClass < span.numClasses
        · simp only [if_pos hlt, Option.bind_some]
          exact (Faithful.add False.elim).after (.ok _)
        · simp only [if_neg hlt, Option.bind_some]
          exact .ok none
  · right
    refine ⟨False.elim, ?_⟩
    simp only [hstop]
    rfl

theorem classEntry (span : Span) (block : Block) (pin : GraphPinId) :
    Faithful False (fun m => (I m).classEntry span block pin) (span.classEntry block pin) := by
  unfold Indexer.classEntry
  simp only [h.machine]
  refine (Faithful.of _).bind fun logicalClass _ => (Faithful.of _).bind fun cls _ => ?_
  exact (Faithful.add False.elim).after (.ok _)

theorem primitiveClasses (subTile : Nat) (b : BlockId) (inst primitive : Nat) :
    Faithful False (fun m => (I m).primitiveClasses t subTile b inst primitive)
      (T.numbering.primitiveClasses t subTile b inst primitive) := by
  unfold Indexer.primitiveClasses
  simp only [h.tables]
  refine (Faithful.of (T.findTile t)).bind fun tile _ => (Faithful.of _).bind fun block _ => ?_
  refine (h.layout t).bind fun L _ =>
    (h.findSpan (t := t) tile L subTile inst b).bind fun span _ => ?_
  refine (Faithful.of _).bind fun part _ => ?_
  exact (Faithful.mapM fun pin _ => h.classEntry span block pin).bind fun entries _ => .ok _

end

end FaithfulTo

end Indexer

end PinNumbering
