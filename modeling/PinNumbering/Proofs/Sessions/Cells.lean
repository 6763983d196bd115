import PinNumbering.Proofs.Sessions.NeedsLayout
import PinNumbering.Samples
import PinNumbering.Session
/-! # Sessions and their options

A session is compared with answers that are given without one. `Tables.reply` answers a query from
the tables and the options alone, and `Tables.asksFor` says which queries need the layout of a tile.
One query turns each cell into what `layouts_ask` says, and on a sound session it is answered like
`reply`; so are the queries of a whole run.

* `Session.Sound`: there are as many cells as the options say, and each holds the layout of its
  tile.
* `layouts_ask`, `layouts_askAll`: the cells after a query and after a run.
* `Sound.askAll_fst`: the answers of a run.
* `options_change_no_answer`: two sessions about the same tables, with any options.
-/
set_option autoImplicit false

namespace PinNumbering

/-! ## Answers without a session -/

/-- What a session with the given options replies, without any memory. -/
def Tables.reply (T : Tables) (o : Options) : Query → Answer
  | .options => .options o
  | .ofTables q => T.answer q
  | .ofTile t q => T.numbering.answer (o.cacheLayouts && decide (t < T.tiles.length)) t q

/-- The query needs the layout of the tile. -/
def Tables.asksFor (T : Tables) (t : TileId) : Query → Bool
  | .ofTile t' q => t' == t && (T.tile? t).any fun tile => q.needsLayout T tile
  | _ => false

theorem Tables.exists_tile_of_asksFor (T : Tables) {t : TileId} {q : Query}
    (h : T.asksFor t q = true) : ∃ tile, T.tile? t = some tile := by
  cases q with
  | ofTile t' q =>
    rw [asksFor, Bool.and_eq_true, Option.any_eq_true] at h
    obtain ⟨-, tile, ht, -⟩ := h
    exact ⟨tile, ht⟩
  | _ => cases h

theorem Tables.layout_eq_layoutOf (T : Tables) {t : TileId} {tile : Tile}
    (ht : T.tile? t = some tile) : T.layout t = T.layoutOf tile := by
  have htile := Tables.findTile_eq_ok ht
  rw [layout, htile]
  rfl

/-- The answer without the mark whether the session keeps the layout that is reported. -/
def Answer.unmarked : Answer → Answer
  | .layout _ L => .layout false L
  | answer => answer

/-- Answers of two sessions that differ in nothing but what their options are. -/
def Query.Agree (o o' : Options) (answer answer' : Answer) : Query → Prop
  | .options => answer = .options o ∧ answer' = .options o'
  | .ofTile _ .layout => answer.unmarked = answer'.unmarked
  | _ => answer = answer'

theorem Tables.agree_reply (T : Tables) (o o' : Options) (q : Query) :
    q.Agree o o' (T.reply o q) (T.reply o' q) := by
  cases q with
  | options => exact ⟨rfl, rfl⟩
  | ofTables q => rfl
  | ofTile t q =>
    cases q with
    | layout =>
      simp only [Query.Agree, reply, Numbering.answer]
      cases T.numbering.layout t <;> rfl
    | _ => rfl

namespace Session
variable {s : Session}

/-! ## One query -/

theorem ask_ofTile_snd (s : Session) (t : TileId) (q : TileQuery) :
    (s.ask (.ofTile t q)).2 = s.prepare t q := rfl

theorem remember_frame (s : Session) (t : TileId) :
    (s.remember t).tables = s.tables ∧ (s.remember t).options = s.options ∧
      (s.remember t).layouts.length = s.layouts.length := by
  unfold remember
  split
  · exact ⟨rfl, rfl, List.length_set⟩
  · exact ⟨rfl, rfl, rfl⟩

theorem ask_frame (s : Session) (q : Query) :
    (s.ask q).2.tables = s.tables ∧ (s.ask q).2.options = s.options ∧
      (s.ask q).2.layouts.length = s.layouts.length := by
  cases q with
  | ofTile t q =>
    rw [ask_ofTile_snd]
    unfold prepare
    split
    · exact s.remember_frame t
    · exact ⟨rfl, rfl, rfl⟩
  | _ => exact ⟨rfl, rfl, rfl⟩

theorem layouts_remember (s : Session) (t i : TileId) :
    (s.remember t).layouts[i]? = s.layouts[i]?.map fun cell =>
      cell.or (if t = i then some (s.tables.layout i) else none) := by
  unfold remember
  by_cases hti : t = i
  · subst hti
    cases hcell : s.layouts[t]? with
    | none => simp [hcell]
    | some cell =>
      obtain ⟨hlt, -⟩ := List.getElem?_eq_some_iff.1 hcell
      cases cell with
      | none => simp [hlt]
      | some r => simp [hcell]
  · split
    · simp [hti]
    · simp [hti]

/-- A query fills an empty cell if it needs the layout there, and changes no other cell. -/
theorem layouts_ask (s : Session) (q : Query) (i : TileId) :
    (s.ask q).2.layouts[i]? = s.layouts[i]?.map fun cell =>
      cell.or (if s.tables.asksFor i q then some (s.tables.layout i) else none) := by
  cases q with
  | ofTile t q =>
    rw [ask_ofTile_snd]
    unfold prepare
    split
    next h =>
      rw [layouts_remember]
      by_cases hti : t = i
      · subst hti
        simp [Tables.asksFor, h]
      · simp [Tables.asksFor, hti]
    next h =>
      by_cases hti : t = i
      · subst hti
        simp [Tables.asksFor, h]
      · simp [Tables.asksFor, hti]
  | _ => simp [ask, Tables.asksFor]

/-! ## Sound sessions -/

/-- The session has the cells that its options ask for, and each holds the layout of its tile or
nothing yet. -/
structure Sound (s : Session) : Prop where
  length_layouts : s.layouts.length = if s.options.cacheLayouts then s.tables.tiles.length else 0
  layout_of_cell : ∀ (t : TileId) (r : Lookup Layout), s.layouts[t]? = some (some r) →
    r = s.tables.layout t

theorem sound_init (T : Tables) (o : Options) : (init T o).Sound := by
  constructor
  · by_cases ho : o.cacheLayouts = true <;> simp [init, ho]
  · intro t r hr
    have hmem : some r ∈ (init T o).layouts := List.mem_of_getElem? hr
    unfold init at hmem
    split at hmem
    · exact absurd (List.eq_of_mem_replicate hmem) (Option.some_ne_none r)
    · exact absurd hmem List.not_mem_nil

theorem Sound.ask (h : s.Sound) (q : Query) : (s.ask q).2.Sound := by
  obtain ⟨htables, hoptions, hlength⟩ := s.ask_frame q
  constructor
  · rw [htables, hoptions, hlength]
    exact h.length_layouts
  · intro t r hr
    rw [htables]
    rw [layouts_ask] at hr
    obtain ⟨cell, hcell, hor⟩ := Option.map_eq_some_iff.1 hr
    cases cell with
    | some r' =>
      obtain rfl : r' = r := Option.some.inj hor
      exact h.layout_of_cell t r' hcell
    | none =>
      rw [Option.none_or] at hor
      split at hor
      · exact (Option.some.inj hor).symm
      · cases hor

theorem Sound.numbering_eq (h : s.Sound) : s.numbering = s.tables.numbering := by
  have hlayout : s.layout = s.tables.layout := by
    funext t
    unfold Session.layout
    split
    next r hr => exact h.layout_of_cell t r hr
    next => rfl
  rw [numbering, hlayout, Tables.numbering]

theorem Sound.keeps_eq (h : s.Sound) (t : TileId) :
    s.keeps t = (s.options.cacheLayouts && decide (t < s.tables.tiles.length)) := by
  rw [keeps, h.length_layouts]
  cases s.options.cacheLayouts <;> simp

theorem Sound.ask_fst (h : s.Sound) (q : Query) :
    (s.ask q).1 = s.tables.reply s.options q := by
  cases q with
  | options => rfl
  | ofTables q => rfl
  | ofTile t q =>
    obtain ⟨htables, hoptions, -⟩ := s.ask_frame (.ofTile t q)
    have hafter : (s.prepare t q).Sound := h.ask (.ofTile t q)
    rw [ask_ofTile_snd] at htables hoptions
    show (s.prepare t q).numbering.answer ((s.prepare t q).keeps t) t q = _
    rw [hafter.numbering_eq, hafter.keeps_eq, htables, hoptions]
    rfl

/-! ## Runs -/

theorem askAll_cons (s : Session) (q : Query) (rest : List Query) :
    s.askAll (q :: rest) =
      ((s.ask q).1 :: ((s.ask q).2.askAll rest).1, ((s.ask q).2.askAll rest).2) := rfl

/-- A sound session answers like one without memory, whatever it was asked before. -/
theorem Sound.askAll_fst (h : s.Sound) (queries : List Query) :
    (s.askAll queries).1 = queries.map (s.tables.reply s.options) := by
  induction queries generalizing s with
  | nil => rfl
  | cons q rest ih =>
    obtain ⟨htables, hoptions, -⟩ := s.ask_frame q
    rw [askAll_cons, List.map_cons, h.ask_fst, ih (h.ask q), htables, hoptions]

/-- A run fills the empty cells of the tiles whose layout it needs, and changes no other cell. -/
theorem layouts_askAll (s : Session) (queries : List Query) (i : TileId) :
    (s.askAll queries).2.layouts[i]? = s.layouts[i]?.map fun cell =>
      cell.or (if queries.any (s.tables.asksFor i) then some (s.tables.layout i) else none) := by
  induction queries generalizing s with
  | nil => simp [Session.askAll]
  | cons q rest ih =>
    rw [askAll_cons, ih, layouts_ask, (s.ask_frame q).1, Option.map_map]
    congr 1
    funext cell
    rw [Function.comp_apply, Option.or_assoc]
    congr 1
    cases hq : s.tables.asksFor i q <;> simp [hq]

/-! ## Options -/

theorem start_eq_ok_iff {T : Tables} {o : Options} :
    start T o = .ok s ↔ (o.validateTables = true → T.validate = .ok ()) ∧ s = init T o := by
  unfold start
  cases o.validateTables with
  | false => simp [pure, Except.pure, eq_comm]
  | true =>
    simp only [if_true, bind_eq_ok_iff, exists_unit_ok_iff, pure_eq_ok_iff, true_imp_iff,
      eq_comm (b := s)]

/-- What the cells hold after a run from the start, in a session that keeps layouts. -/
theorem layouts_askAll_init {T : Tables} {o : Options} (ho : o.cacheLayouts = true)
    (queries : List Query) (i : TileId) (r : Lookup Layout) :
    ((init T o).askAll queries).2.layouts[i]? = some (some r) ↔
      (∃ q ∈ queries, T.asksFor i q = true) ∧ r = T.layout i := by
  have htables : (init T o).tables = T := rfl
  have hcells : (init T o).layouts = List.replicate T.tiles.length none := by
    simp only [init, ho, if_true]
  rw [layouts_askAll, htables, hcells, List.getElem?_replicate, ← List.any_eq_true]
  by_cases hask : queries.any (T.asksFor i) = true
  · obtain ⟨q, -, hq⟩ := List.any_eq_true.1 hask
    obtain ⟨tile, ht⟩ := T.exists_tile_of_asksFor hq
    obtain ⟨hi, -⟩ := List.getElem?_eq_some_iff.1 ht
    simp [hask, hi, eq_comm]
  · rw [Bool.not_eq_true] at hask
    by_cases hi : i < T.tiles.length <;> simp [hask, hi]

/-- Whatever their options are, two sessions about the same tables agree on every answer, but that a
layout may be reported as kept and that options are reported as they are. A session that keeps
layouts starts with empty cells; after any part of a run it holds the layouts of the tiles that
needed them, right or failed, and it goes on to hold them. A session that is to validate its tables
starts exactly if they pass. -/
theorem options_change_no_answer (T : Tables) (o o' : Options) (s s' : Session)
    (hs : start T o = .ok s) (hs' : start T o' = .ok s') (queries : List Query) :
    ((s.askAll queries).1.length = queries.length ∧
      (s'.askAll queries).1.length = queries.length ∧
      ∀ (n : Nat) (q : Query), queries[n]? = some q → ∃ answer answer',
        (s.askAll queries).1[n]? = some answer ∧ (s'.askAll queries).1[n]? = some answer' ∧
        q.Agree o o' answer answer') ∧
    (o.cacheLayouts = true → s.layouts = List.replicate T.tiles.length none ∧
      ∀ (n i : Nat),
        ((∃ r, (s.askAll (queries.take n)).2.layouts[i]? = some (some r)) ↔
          ∃ q ∈ queries.take n, T.asksFor i q = true) ∧
        ∀ r, (s.askAll (queries.take n)).2.layouts[i]? = some (some r) →
          (∃ tile, T.tile? i = some tile ∧ r = T.layoutOf tile) ∧
          ∀ m, n ≤ m → (s.askAll (queries.take m)).2.layouts[i]? = some (some r)) ∧
    (∀ options : Options, options.validateTables = true →
      ((∃ session, start T options = .ok session) ↔ T.validate = .ok ())) := by
  obtain ⟨-, rfl⟩ := start_eq_ok_iff.1 hs
  obtain ⟨-, rfl⟩ := start_eq_ok_iff.1 hs'
  have hanswers : ((init T o).askAll queries).1 = queries.map (T.reply o) :=
    (sound_init T o).askAll_fst queries
  have hanswers' : ((init T o').askAll queries).1 = queries.map (T.reply o') :=
    (sound_init T o').askAll_fst queries
  refine ⟨⟨?_, ?_, ?_⟩, ?_, ?_⟩
  · rw [hanswers, List.length_map]
  · rw [hanswers', List.length_map]
  · intro n q hq
    refine ⟨T.reply o q, T.reply o' q, ?_, ?_, T.agree_reply o o' q⟩
    · rw [hanswers, List.getElem?_map, hq, Option.map_some]
    · rw [hanswers', List.getElem?_map, hq, Option.map_some]
  · intro ho
    refine ⟨by simp only [init, ho, if_true], fun n i => ⟨?_, ?_⟩⟩
    · simp [layouts_askAll_init ho]
    · intro r hr
      obtain ⟨⟨q, hq, hask⟩, rfl⟩ := (layouts_askAll_init ho _ i r).1 hr
      constructor
      · obtain ⟨tile, ht⟩ := T.exists_tile_of_asksFor hask
        exact ⟨tile, ht, T.layout_eq_layoutOf ht⟩
      · intro m hnm
        have hlater : q ∈ queries.take m := List.take_subset_take_left queries hnm hq
        exact (layouts_askAll_init ho _ i _).2 ⟨⟨q, hlater, hask⟩, rfl⟩
  · intro options hvalidate
    simp only [start_eq_ok_iff, hvalidate, true_imp_iff]
    simp

end Session

/-- A session that keeps layouts and one that validates the tables answer alike. The first of these
queries needs the layout of the logic tile, and the second fails. -/
theorem Samples.heterogeneous_options :
    let queries : List Query := [.ofTile 0 (.siteOfPin 30), .ofTile 9 .numFlatPins, .ofTile 0 .layout]
    ∃ s s', Session.start heterogeneous ⟨true, false⟩ = .ok s ∧
      Session.start heterogeneous ⟨false, true⟩ = .ok s' ∧
      (s'.askAll queries).1[1]? = some (.failure (.unknownTile 9)) ∧
      (∃ answer answer', (s.askAll queries).1[2]? = some answer ∧
        (s'.askAll queries).1[2]? = some answer' ∧ answer.unmarked = answer'.unmarked) ∧
      ∃ r, (s.askAll (queries.take 1)).2.layouts[0]? = some (some r) ∧
        (s.askAll (queries.take 3)).2.layouts[0]? = some (some r) := by
  intro queries
  obtain ⟨⟨-, -, hanswers⟩, hcells, -⟩ := Session.options_change_no_answer heterogeneous
    ⟨true, false⟩ ⟨false, true⟩ _ _ rfl rfl queries
  have hcell := (hcells rfl).2 1 0
  obtain ⟨r, hr⟩ := hcell.1.2 ⟨.ofTile 0 (.siteOfPin 30), by simp [queries], rfl⟩
  exact ⟨_, _, rfl, rfl, rfl, hanswers 2 _ rfl, r, hr, (hcell.2 r hr).2 3 (by decide)⟩

end PinNumbering
