import PinNumbering.Machine.Session
import PinNumbering.Proofs.Machine.Consistency
import PinNumbering.Proofs.Machine.FlatPins
import PinNumbering.Proofs.Machine.Names
import PinNumbering.Proofs.Sessions.Cells
/-! # Sessions on a machine give the answers of the numbers

Every answer is faithful, and so is every run of a session: as long as a machine that checks goes
through, the answers and the layouts kept are those of the session with natural numbers.

* `faithful_answer`, `Indexer.FaithfulTo.answer`: one query.
* `Session.faithful_startOn`, `Session.Sound.faithful_askAllOn`: a session from the start, and a
  run.
-/
set_option autoImplicit false

namespace PinNumbering

open Run (Faithful)

/-! ## Answers -/

section Answers
variable {ε α : Type} {fits : Prop} {run : Machine → Run LookupError α} {exact : Lookup α}

theorem Run.Faithful.answer (h : Faithful fits run exact) (f : α → Answer) :
    Faithful fits (fun m => (run m).answer f : Machine → Run ε Answer)
      (.ok (Answer.ofLookup f exact)) := by
  rcases h with hrun | ⟨hfits, hstop⟩
  · left
    intro m
    simp only [hrun]
    cases exact <;> rfl
  · right
    refine ⟨hfits, ?_⟩
    simp only [hstop]
    rfl

theorem Answer.ofLookup_map {β : Type} (f : β → Answer) (g : α → β) (x : Lookup α) :
    ofLookup f (x.map g) = ofLookup (fun a => f (g a)) x := by
  cases x <;> rfl

/-- One field of what was found is an answer of its own. -/
theorem Run.Faithful.answerField {β : Type} (h : Faithful fits run exact) (f : β → Answer)
    (field : α → β) :
    Faithful fits (fun m => (run m).answer fun a => f (field a) : Machine → Run ε Answer)
      (.ok (Answer.ofLookup f (exact.map field))) := by
  rw [Answer.ofLookup_map]
  exact h.answer fun a => f (field a)

end Answers

namespace Machine
variable {ε : Type} (T : Tables)

theorem faithful_verdict :
    Faithful False (fun m => (m.validate T).verdict : Machine → Run ε Answer)
      (.ok (T.answer .validate)) := by
  unfold Tables.answer
  rcases faithful_validate T False.elim with hrun | ⟨hfits, hstop⟩
  · left
    intro m
    simp only [hrun]
    cases T.validate <;> rfl
  · right
    refine ⟨hfits, ?_⟩
    simp only [hstop]
    rfl

theorem faithful_shownSubTile? (t : TileId) (position : Nat) :
    Faithful False (fun m => m.shownSubTile? T t position) (.ok (T.subTile? t position)) := by
  unfold shownSubTile?
  cases T.subTile? t position with
  | none => exact .ok none
  | some s =>
    have hshown : Faithful False (fun m => m.shownSubTile s) (.ok s) :=
      (faithful_total False.elim).after ((faithful_pinsPerInstance False.elim).after (.ok s))
    exact hshown.after (.ok (some s))

theorem faithful_portContaining? (t : TileId) (position pin : Nat) :
    Faithful False (fun m => m.portContaining? T t position pin)
      (.ok ((T.subTile? t position).bind fun s => s.portContaining? pin)) := by
  unfold portContaining?
  cases T.subTile? t position with
  | none => exact .ok none
  | some s => exact .findM? fun port _ => faithful_portContains pin False.elim

theorem faithful_blockPortContaining? (b : BlockId) (pin : Nat) :
    Faithful False (fun m => m.blockPortContaining? T b pin)
      (.ok ((T.block? b).bind fun block => block.portContaining? pin)) := by
  unfold blockPortContaining?
  cases T.block? b with
  | none => exact .ok none
  | some block => exact .findM? fun port _ => faithful_portContains pin False.elim

/-- What tables answer is faithful, whatever the tables and the question. -/
theorem faithful_answer (q : TableQuery) :
    Faithful False (fun m => m.answer T q : Machine → Run ε Answer) (.ok (T.answer q)) := by
  cases q with
  | validate => exact faithful_verdict T
  | subTile t st => exact (faithful_shownSubTile? T t st).answer _
  | portContaining t st pin => exact (faithful_portContaining? T t st pin).answer _
  | blockPortContaining b pin => exact (faithful_blockPortContaining? T b pin).answer _
  | rootPinAtLocation t b location l =>
    exact (faithful_rootPinAtLocation T t b location l).answer _
  | rootPinOfInstance t st b inst l => exact (faithful_rootPinOfInstance T t False.elim).answer _
  | coordinates t pin => exact (faithful_coordinates T t pin False.elim False.elim).answer _
  | rootPinAtCoordinates t pin location =>
    exact (faithful_rootPinAtCoordinates T t pin location).answer _
  | numSubTileFlatPins t st => exact (faithful_numSubTileFlatPins T t st False.elim).answer _
  | portPosition t pin => exact (faithful_portPosition T t pin).answer _
  | pinName t pin => exact (faithful_pinName T t pin).answer _
  | classPinNames t cls => exact (faithful_classPinNames T t cls False.elim False.elim).answer _
  | rootPinOfPort t name place => exact (faithful_rootPinOfPort? T t name place).answer _
  | classOfPort t name place ty => exact (faithful_classOfPort T t name place ty).answer _
  | _ => exact .ok _

end Machine

namespace Indexer.FaithfulTo
variable {ε : Type} {I : Machine → Indexer} {T : Tables} (h : FaithfulTo (fun _ => False) I T)
  (t : TileId)
include h

theorem shownLayout : Faithful False (fun m => (I m).shownLayout t) (T.layout t) := by
  unfold Indexer.shownLayout
  simp only [h.machine]
  refine ((h.layout t).bind (f := .ok) fun L _ => ?_).congr ?_
  · have hspans : Faithful False (fun m => L.spans.mapM m.shown : Machine → Run LookupError _)
        (.ok (L.spans.map id)) := by
      have hmap : L.spans.mapM (fun s => (.ok s : Lookup Span)) = .ok (L.spans.map id) :=
        List.mapM_pure
      rw [← hmap]
      exact .mapM fun span _ => Machine.faithful_shown span
    exact hspans.after (.ok L)
  · cases T.layout t <;> rfl

theorem shownSpan? {find? : Machine → Layout → Run LookupError (Option Span)}
    {find : Layout → Option Span}
    (hfind : ∀ L, Faithful False (fun m => find? m L) (.ok (find L))) :
    Faithful False (fun m => (I m).shownSpan? t (find? m)) ((T.layout t).map find) := by
  unfold Indexer.shownSpan?
  simp only [h.machine]
  refine ((h.layout t).bind (f := fun L => .ok (find L)) fun L _ => (hfind L).after ?_).congr ?_
  · cases find L with
    | none => exact .ok none
    | some span => exact (Machine.faithful_shown span).after (.ok (some span))
  · cases T.layout t <;> rfl

theorem shownInstanceSpans (subTile inst : Nat) :
    Faithful False (fun m => (I m).shownInstanceSpans t subTile inst)
      ((T.layout t).map fun L => L.instanceSpans subTile inst) := by
  unfold Indexer.shownInstanceSpans
  simp only [h.machine]
  refine ((h.layout t).bind fun L _ =>
    Faithful.mapM fun span _ => Machine.faithful_shown span).congr ?_
  cases T.layout t with
  | error cause => rfl
  | ok L => exact List.mapM_pure.trans (by rw [List.map_id']; rfl)

theorem rootPinBase? (subTile : Nat) : Faithful False (fun m => (I m).rootPinBase? t subTile)
    ((T.layout t).map fun L => L.rootPinBase? subTile) := by
  refine ((h.layout t).bind fun L _ => .ok (L.rootPinBase? subTile)).congr ?_
  cases T.layout t <;> rfl

/-- What an indexer answers about a tile is faithful, whatever the tables and the question. -/
theorem answer (kept : Bool) (q : TileQuery) :
    Faithful False (fun m => (I m).answer kept t q : Machine → Run ε Answer)
      (.ok (T.numbering.answer kept t q)) := by
  have hlayout : T.numbering.layout t = T.layout t := rfl
  cases q with
  | layout => exact (h.shownLayout t).answer _
  | rootPinBase st =>
    have hbase := (h.rootPinBase? t st).answer (ε := ε) (Answer.ofOption .number)
    rwa [Answer.ofLookup_map] at hbase
  | spanAt st inst b =>
    have hspan := (h.shownSpan? t (fun L => .ok (L.spanAt? st inst b))).answer (ε := ε)
      (Answer.ofOption .span)
    rwa [Answer.ofLookup_map] at hspan
  | spanOfPin pin =>
    have hspan := (h.shownSpan? t fun L => Machine.faithful_spanOfPin? (L := L) pin
      False.elim).answer (ε := ε) (Answer.ofOption .span)
    simp only [Answer.ofLookup_map] at hspan
    simp only [Indexer.answer, h.machine]
    exact hspan
  | spanOfClass cls =>
    have hspan := (h.shownSpan? t fun L => Machine.faithful_spanOfClass? (L := L) cls
      False.elim).answer (ε := ε) (Answer.ofOption .span)
    simp only [Answer.ofLookup_map] at hspan
    simp only [Indexer.answer, h.machine]
    exact hspan
  | instanceSpans st inst =>
    have hspans := (h.shownInstanceSpans t st inst).answer (ε := ε) .spans
    rwa [Answer.ofLookup_map] at hspans
  | sitePinBase st b inst => exact (h.sitePinBase st b inst).answer _
  | graphPinNumber st b inst pin => exact (h.graphPinNumber False.elim False.elim).answer _
  | siteOfPin pin => exact (h.siteOfPin pin False.elim).answer _
  | subTileOfPin pin =>
    exact (h.siteOfPin pin False.elim).answerField _ _
  | instanceOfPin pin =>
    exact (h.siteOfPin pin False.elim).answerField _ _
  | blockOfPin pin =>
    exact (h.siteOfPin pin False.elim).answerField _ _
  | logicalPin pin flat => exact (h.logicalPin pin flat False.elim False.elim).answer _
  | graphPinAt pin => exact (h.graphPinAt pin False.elim False.elim).answer _
  | numFlatPins => exact h.numFlatPins.answer _
  | pinBound flat => exact (h.pinBound flat).answer _
  | classNumber st b inst cls => exact (h.classNumber? t st b inst cls).answer _
  | siteOfClass cls => exact (h.siteOfClass cls False.elim).answer _
  | subTileOfClass cls =>
    exact (h.siteOfClass cls False.elim).answerField _ _
  | instanceOfClass cls =>
    exact (h.siteOfClass cls False.elim).answerField _ _
  | blockOfClass cls =>
    exact (h.siteOfClass cls False.elim).answerField _ _
  | logicalClass cls =>
    exact (h.siteOfClass cls False.elim).answerField _ _
  | findClass cls flat => exact (h.findClass cls flat False.elim).answer _
  | classType cls flat =>
    exact (h.findClass cls flat False.elim).answerField _ _
  | classSize cls flat =>
    exact (h.findClass cls flat False.elim).answerField _ _
  | numClasses => exact h.numClasses.answer _
  | tileClasses => exact (h.tileClasses False.elim).answer _
  | instanceClasses st inst => exact (h.instanceClasses st False.elim False.elim).answer _
  | siteClasses st b inst => exact (h.siteClasses st b inst False.elim).answer _
  | primitiveClasses st b inst primitive =>
    exact (h.primitiveClasses t st b inst primitive).answer _

end Indexer.FaithfulTo

/-! ## Sessions -/

namespace Session
variable {ε : Type} {s : Session}

theorem faithful_startOn (T : Tables) (o : Options) :
    Faithful False (fun m => startOn m T o) (start T o) := by
  unfold startOn start
  cases o.validateTables with
  | false => exact .ok _
  | true => exact (Machine.faithful_validate T False.elim).bind fun _ _ => .ok _

theorem faithful_rememberOn (s : Session) (t : TileId) :
    Faithful False (fun m => s.rememberOn m t : Machine → Run ε Session) (.ok (s.remember t)) := by
  unfold rememberOn remember
  match hcell : s.layouts[t]? with
  | none | some (some _) => exact .ok s
  | some none =>
    -- A cell keeps failures as well, so a failed layout does not end the chain.
    rcases Machine.faithful_layout s.tables (t := t) False.elim with hlayout | ⟨hfits, hstop⟩
    · left
      intro m
      simp only [hlayout]
      cases s.tables.layout t <;> rfl
    · right
      refine ⟨hfits, ?_⟩
      simp only [hstop]
      rfl

theorem faithful_prepareOn (s : Session) (t : TileId) (q : TileQuery) :
    Faithful False (fun m => s.prepareOn m t q : Machine → Run ε Session)
      (.ok (s.prepare t q)) := by
  unfold prepareOn prepare
  by_cases hneeds : ((s.tables.tile? t).any fun tile => q.needsLayout s.tables tile) = true
  · simp only [if_pos hneeds]
    exact s.faithful_rememberOn t
  · simp only [if_neg hneeds]
    exact .ok s

theorem Sound.faithfulTo_indexer (h : s.Sound) :
    Indexer.FaithfulTo (fun _ => False) (fun m => s.indexer m) s.tables where
  machine _ := rfl
  tables _ := rfl
  layout t := by
    simp only [indexer, layoutOn]
    match hcell : s.layouts[t]? with
    | none | some none => exact Machine.faithful_layout s.tables False.elim
    | some (some layout) =>
      rw [h.layout_of_cell t layout hcell]
      exact .of _

theorem Sound.faithful_askOn (h : s.Sound) (q : Query) :
    Faithful False (fun m => s.askOn m q : Machine → Run ε _) (.ok (s.ask q)) := by
  cases q with
  | options => exact .ok _
  | ofTables q => exact (Machine.faithful_answer s.tables q).after (.ok _)
  | ofTile t q =>
    have hready : (s.prepare t q).Sound := h.ask (.ofTile t q)
    have hanswer := hready.faithfulTo_indexer.answer (ε := ε) t ((s.prepare t q).keeps t) q
    rw [← hready.numbering_eq] at hanswer
    exact (s.faithful_prepareOn t q).after (hanswer.after (.ok _))

/-- A run of a session on a machine gives the answers of the session with natural numbers and keeps
the same layouts, unless a machine that checks stops for a result that is too large. -/
theorem Sound.faithful_askAllOn (h : s.Sound) (queries : List Query) :
    Faithful False (fun m => s.askAllOn m queries : Machine → Run ε _)
      (.ok (s.askAll queries)) := by
  induction queries generalizing s with
  | nil => exact .ok _
  | cons q rest ih => exact (h.faithful_askOn q).after ((ih (h.ask q)).after (.ok _))

end Session

end PinNumbering
