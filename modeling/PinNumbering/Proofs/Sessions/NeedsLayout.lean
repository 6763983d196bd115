import PinNumbering.Proofs.Chains
import PinNumbering.Query
/-! # Questions that need the layout

`TileQuery.needsLayout` follows each question through the look-ups that come before the layout. That
it follows them rightly is said without reference to them: a question needs the layout exactly if
two sources of layouts can make it answer differently.

One direction goes through the questions that stop early, whatever the source. For the other a
source that fails is enough: its failure is the answer, except that a class number is merely absent,
and there a layout of one span gives a number.
-/
set_option autoImplicit false

namespace PinNumbering

section Needs
variable {T : Tables} {tile : Tile} {t : TileId} {pin : Nat} {source source' : TileId → Lookup Layout}

/-! ## Questions that stop early -/

theorem Numbering.siteOfPin_congr (ht : T.tile? t = some tile)
    (hroot : (tile.rootPin? pin).isNone = false) :
    (⟨T, source⟩ : Numbering).siteOfPin t pin = (⟨T, source'⟩ : Numbering).siteOfPin t pin := by
  have htile := Tables.findTile_eq_ok ht
  obtain ⟨root, hroot⟩ := Option.isSome_iff_exists.1 (Option.isNone_eq_false_iff.1 hroot)
  simp only [siteOfPin, htile, hroot, bind, Except.bind]

theorem Numbering.logicalPin_congr (ht : T.tile? t = some tile) {flat : Bool}
    (h : (if pin < tile.numPins then (tile.rootPin? pin).isNone else flat) = false) :
    (⟨T, source⟩ : Numbering).logicalPin t pin flat =
      (⟨T, source'⟩ : Numbering).logicalPin t pin flat := by
  have htile := Tables.findTile_eq_ok ht
  by_cases hpin : pin < tile.numPins
  · rw [if_pos hpin] at h
    have hsite : (⟨T, source⟩ : Numbering).siteOfPin t pin =
        (⟨T, source'⟩ : Numbering).siteOfPin t pin := siteOfPin_congr ht h
    simp only [logicalPin, logicalPinOfRoot, htile, hsite, if_pos hpin, bind, Except.bind]
  · rw [if_neg hpin] at h
    simp only [logicalPin, htile, h, if_neg hpin, bind, Except.bind, Bool.false_eq_true, if_false]

theorem Numbering.graphPinAt_congr (ht : T.tile? t = some tile)
    (h : (TileQuery.graphPinAt pin).needsLayout T tile = false) :
    (⟨T, source⟩ : Numbering).graphPinAt t pin = (⟨T, source'⟩ : Numbering).graphPinAt t pin := by
  have htile := Tables.findTile_eq_ok ht
  obtain ⟨root, hroot, hstop⟩ := by simpa [TileQuery.needsLayout, Option.all_eq_false] using h
  have hsome : (tile.rootPin? pin).isNone = false := by rw [hroot, Option.isNone_some]
  have hsite : (⟨T, source⟩ : Numbering).siteOfPin t pin =
      (⟨T, source'⟩ : Numbering).siteOfPin t pin := siteOfPin_congr ht hsome
  by_cases hpin : pin < tile.numPins
  · have hlogical : (⟨T, source⟩ : Numbering).logicalPin t pin true =
        (⟨T, source'⟩ : Numbering).logicalPin t pin true :=
      logicalPin_congr ht (by rw [if_pos hpin]; exact hsome)
    simp only [graphPinAt, htile, hsite, hlogical]
  · -- The pin is past the root pins that the tile declares, so the owner has no site.
    have hsites : root.subTile.sites = [] := by
      simpa [Nat.not_lt.1 hpin] using hstop
    simp only [graphPinAt, siteOfPin, htile, hroot, hsites, List.head?_nil, orFail_none, bind,
      Except.bind]

theorem Numbering.graphPinNumber_congr {subTile inst : Nat} {b : BlockId}
    (h : (TileQuery.graphPinNumber subTile b inst pin).needsLayout T tile = false) :
    (⟨T, source⟩ : Numbering).graphPinNumber t subTile b inst pin =
      (⟨T, source'⟩ : Numbering).graphPinNumber t subTile b inst pin := by
  simp only [TileQuery.needsLayout] at h
  simp only [graphPinNumber, Tables.findBlock]
  cases hb : T.block? b with
  | none => rfl
  | some block =>
    rw [hb, Option.any_some] at h
    simp only [orFail_some, bind, Except.bind]
    cases hdata : block.graphPin? pin with
    | none => rfl
    | some data =>
      cases hl : block.logicalPin? pin with
      | none => rfl
      | some logicalPin =>
        have hroot : data.isRoot = true := by simpa [hdata, hl] using h
        simp only [orFail_some, hroot, if_true]

theorem Numbering.answer_congr (ht : T.tile? t = some tile) {q : TileQuery}
    (h : q.needsLayout T tile = false) (kept : Bool) :
    (⟨T, source⟩ : Numbering).answer kept t q = (⟨T, source'⟩ : Numbering).answer kept t q := by
  have htile := Tables.findTile_eq_ok ht
  cases q with
  | graphPinNumber subTile b inst pin =>
    exact congrArg (Answer.ofLookup .number) (graphPinNumber_congr h)
  | siteOfPin pin => exact congrArg (Answer.ofLookup .pinSite) (siteOfPin_congr ht h)
  | subTileOfPin pin =>
    exact congrArg (fun site => Answer.ofLookup .number (site.map PinSite.subTile))
      (siteOfPin_congr ht h)
  | instanceOfPin pin =>
    exact congrArg (fun site => Answer.ofLookup .number (site.map PinSite.inst))
      (siteOfPin_congr ht h)
  | blockOfPin pin =>
    exact congrArg (fun site => Answer.ofLookup .number (site.map PinSite.block))
      (siteOfPin_congr ht h)
  | logicalPin pin flat => exact congrArg (Answer.ofLookup .number) (logicalPin_congr ht h)
  | graphPinAt pin => exact congrArg Answer.ofPair (graphPinAt_congr ht h)
  | pinBound flat =>
    obtain rfl : flat = false := h
    rfl
  | findClass cls flat =>
    obtain rfl : flat = false := h
    rfl
  | classType cls flat =>
    obtain rfl : flat = false := h
    rfl
  | classSize cls flat =>
    obtain rfl : flat = false := h
    rfl
  | instanceClasses subTile inst =>
    simp only [TileQuery.needsLayout] at h
    simp only [answer, instanceClasses, htile, Tile.findSubTile, bind, Except.bind]
    cases hs : tile.subTiles[subTile]? with
    | none => rfl
    | some s =>
      have hinst : ¬ inst < s.capacity.total := by simpa [hs] using h
      simp only [orFail_some, LookupError.unless, if_neg hinst]
  | primitiveClasses subTile b inst primitive =>
    have hb : T.block? b = none := Option.isSome_eq_false_iff.1 h |> Option.isNone_iff_eq_none.1
    simp only [answer, primitiveClasses, htile, Tables.findBlock, hb, orFail_none, bind, Except.bind]
  | _ => cases h

/-! ## Questions that fail with the source -/

theorem Numbering.siteOfPin_of_failed (ht : T.tile? t = some tile) (e : LookupError)
    (h : (tile.rootPin? pin).isNone = true) :
    (⟨T, fun _ => .error e⟩ : Numbering).siteOfPin t pin = .error e := by
  have htile := Tables.findTile_eq_ok ht
  simp only [siteOfPin, htile, Option.isNone_iff_eq_none.1 h, bind, Except.bind]

theorem Numbering.logicalPin_of_failed (ht : T.tile? t = some tile) (e : LookupError) {flat : Bool}
    (h : (if pin < tile.numPins then (tile.rootPin? pin).isNone else flat) = true) :
    (⟨T, fun _ => .error e⟩ : Numbering).logicalPin t pin flat = .error e := by
  have htile := Tables.findTile_eq_ok ht
  by_cases hpin : pin < tile.numPins
  · rw [if_pos hpin] at h
    simp only [logicalPin, logicalPinOfRoot, htile, siteOfPin_of_failed ht e h, if_pos hpin, bind,
      Except.bind]
  · rw [if_neg hpin] at h
    simp only [logicalPin, htile, h, if_neg hpin, bind, Except.bind, if_true]

theorem Numbering.graphPinAt_of_failed (ht : T.tile? t = some tile) (e : LookupError)
    (h : (TileQuery.graphPinAt pin).needsLayout T tile = true) :
    (⟨T, fun _ => .error e⟩ : Numbering).graphPinAt t pin = .error e := by
  have htile := Tables.findTile_eq_ok ht
  cases hroot : tile.rootPin? pin with
  | none =>
    have hsite := siteOfPin_of_failed ht e (by rw [hroot, Option.isNone_none])
    simp only [graphPinAt, htile, hsite, bind, Except.bind]
  | some root =>
    simp only [TileQuery.needsLayout, hroot, Option.all_some, Bool.and_eq_true, decide_eq_true_eq,
      Bool.not_eq_true', List.isEmpty_eq_false_iff] at h
    obtain ⟨first, hfirst⟩ := Option.isSome_iff_exists.1 (List.isSome_head?.2 h.2)
    have hlogical : (⟨T, fun _ => .error e⟩ : Numbering).logicalPin t pin true = .error e :=
      logicalPin_of_failed ht e (by rw [if_neg (Nat.not_lt.2 h.1)])
    simp only [graphPinAt, siteOfPin, htile, hroot, hfirst, hlogical, orFail_some, bind, Except.bind,
      pure, Except.pure]

theorem Numbering.graphPinNumber_of_failed (ht : T.tile? t = some tile) (e : LookupError)
    {subTile inst : Nat} {b : BlockId}
    (h : (TileQuery.graphPinNumber subTile b inst pin).needsLayout T tile = true) :
    (⟨T, fun _ => .error e⟩ : Numbering).graphPinNumber t subTile b inst pin = .error e := by
  have htile := Tables.findTile_eq_ok ht
  simp only [TileQuery.needsLayout, Option.any_eq_true, Bool.and_eq_true, Option.isSome_iff_exists,
    Bool.not_eq_true'] at h
  obtain ⟨block, hb, ⟨data, hdata, hroot⟩, logicalPin, hl⟩ := h
  simp only [graphPinNumber, sitePinBase, Tables.findBlock, hb, hdata, hl, htile, hroot, orFail_some,
    bind, Except.bind, Bool.false_eq_true, if_false]

theorem Numbering.siteOfClass_of_failed (ht : T.tile? t = some tile) (e : LookupError) (cls : Nat) :
    (⟨T, fun _ => .error e⟩ : Numbering).siteOfClass t cls = .error e := by
  have htile := Tables.findTile_eq_ok ht
  simp only [siteOfClass, htile, bind, Except.bind]

theorem Numbering.findClass_of_failed (ht : T.tile? t = some tile) (e : LookupError) (cls : Nat) :
    (⟨T, fun _ => .error e⟩ : Numbering).findClass t cls true = .error e := by
  have htile := Tables.findTile_eq_ok ht
  simp only [findClass, htile, siteOfClass_of_failed ht, bind, Except.bind, if_true]

theorem Numbering.answer_of_failed (ht : T.tile? t = some tile) (e : LookupError) {q : TileQuery}
    (h : q.needsLayout T tile = true)
    (hq : ∀ subTile b inst cls, q ≠ .classNumber subTile b inst cls) (kept : Bool) :
    (⟨T, fun _ => .error e⟩ : Numbering).answer kept t q = .failure e := by
  have htile := Tables.findTile_eq_ok ht
  cases q with
  | classNumber subTile b inst cls => exact absurd rfl (hq subTile b inst cls)
  | graphPinNumber subTile b inst pin =>
    simp only [answer, graphPinNumber_of_failed ht e h, Answer.ofLookup]
  | siteOfPin pin | subTileOfPin pin | instanceOfPin pin | blockOfPin pin =>
    simp only [answer, siteOfPin_of_failed ht e h, Answer.ofLookup, Except.map]
  | logicalPin pin flat => simp only [answer, logicalPin_of_failed ht e h, Answer.ofLookup]
  | graphPinAt pin =>
    simp only [answer, graphPinAt_of_failed ht e h, Answer.ofPair, Answer.ofLookup]
  | pinBound flat =>
    obtain rfl : flat = true := h
    rfl
  | findClass cls flat | classType cls flat | classSize cls flat =>
    obtain rfl : flat = true := h
    simp only [answer, findClass_of_failed ht, Answer.ofLookup, Except.map]
  | siteOfClass cls | subTileOfClass cls | instanceOfClass cls | blockOfClass cls
  | logicalClass cls =>
    simp only [answer, siteOfClass_of_failed ht, Answer.ofLookup, Except.map]
  | instanceClasses subTile inst =>
    simp only [TileQuery.needsLayout, Option.any_eq_true, decide_eq_true_eq] at h
    obtain ⟨s, hs, hinst⟩ := h
    simp only [answer, instanceClasses, htile, Tile.findSubTile, hs, orFail_some,
      LookupError.unless, if_pos hinst, bind, Except.bind, Answer.ofLookup]
  | primitiveClasses subTile b inst primitive =>
    obtain ⟨block, hb⟩ := Option.isSome_iff_exists.1 h
    simp only [answer, primitiveClasses, htile, Tables.findBlock, hb, orFail_some, bind,
      Except.bind, Answer.ofLookup]
  | sitePinBase | numFlatPins | siteClasses =>
    simp only [answer, sitePinBase, numFlatPins, siteClasses, htile, bind, Except.bind,
      Answer.ofLookup]
  | _ => rfl

/-! ## The layout decides -/

/-- A layout of one span, in which a block has a class of a given number. -/
def Layout.ofClass (subTile inst : Nat) (b : BlockId) (logicalClass : Nat) : Layout where
  spans := [⟨⟨subTile, inst, 0, b⟩, ⟨0, 0, logicalClass + 1⟩, 0, 0⟩]
  rootPinBases := []
  flatPinEnd := 0
  numClasses := logicalClass + 1

theorem Numbering.classNumber?_ofClass (subTile inst : Nat) (b : BlockId) (logicalClass : Nat) :
    (⟨T, fun _ => .ok (Layout.ofClass subTile inst b logicalClass)⟩ : Numbering).classNumber? t
      subTile b inst logicalClass = some logicalClass := by
  simp [classNumber?, Layout.ofClass, Layout.spanAt?, Except.toOption]

/-- A question about a known tile needs the layout exactly if its answer depends on the layout. -/
theorem TileQuery.needsLayout_iff (ht : T.tile? t = some tile) (q : TileQuery) (kept : Bool) :
    q.needsLayout T tile = true ↔ ∃ source source' : TileId → Lookup Layout,
      (⟨T, source⟩ : Numbering).answer kept t q ≠ (⟨T, source'⟩ : Numbering).answer kept t q := by
  constructor
  · intro h
    by_cases hq : ∃ subTile b inst cls, q = .classNumber subTile b inst cls
    · obtain ⟨subTile, b, inst, cls, rfl⟩ := hq
      refine ⟨fun _ => .error (.unknownTile t), fun _ => .ok (Layout.ofClass subTile inst b cls), ?_⟩
      simp only [Numbering.answer, Numbering.classNumber?_ofClass]
      exact Answer.noConfusion
    · have hq' : ∀ subTile b inst cls, q ≠ .classNumber subTile b inst cls :=
        fun subTile b inst cls e => hq ⟨subTile, b, inst, cls, e⟩
      refine ⟨fun _ => .error (.unknownTile t), fun _ => .error (.unknownBlock t), ?_⟩
      rw [Numbering.answer_of_failed ht _ h hq', Numbering.answer_of_failed ht _ h hq']
      simp
  · rintro ⟨source, source', hne⟩
    rw [← Bool.not_eq_false]
    intro h
    exact hne (Numbering.answer_congr ht h kept)

end Needs

end PinNumbering
