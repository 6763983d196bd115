import PinNumbering.Proofs.Classes.Sites
import PinNumbering.Proofs.FlatPins.Internal
/-! # Class maps

The class map of a tile, of an instance or of a block in an instance is made of the classes of some
places of the tile, each under its number. No two classes of a tile share a number, so nothing is
overwritten, and a map finds exactly the classes of its places.

* `Tables.IsEntry`: a class of the block at a place, with its number.
* `Tables.IsMapOf`, `classesOfSpans_spanOf`: what the map of some places finds.
* `Numbering.IsPart`, `find?_and_siteOfClass_iff`: the part of the map of a tile that belongs to
  certain sites.
* `classMaps_agree`: the maps against each other and against the look-ups of single classes.
-/
set_option autoImplicit false

namespace PinNumbering

/-! ## Entries of places -/

/-- The entry describes a class of the block at a place, and the number is that of the class. -/
def Tables.IsEntry (T : Tables) (tile : Tile) (p : Place) (cls : Nat) (entry : ClassEntry) : Prop :=
  ∃ block, T.block? p.block = some block ∧ entry.block = p.block ∧
    block.primitiveClasses[entry.logicalClass]? = some entry.cls ∧
    cls = tile.offset T.classesOf p + entry.logicalClass

/-- The map finds exactly the classes of the blocks at the given places. -/
def Tables.IsMapOf (T : Tables) (tile : Tile) (ps : List Place) (m : ClassMap) : Prop :=
  ∀ cls entry, m.find? cls = some entry ↔ ∃ p ∈ ps, T.IsEntry tile p cls entry

/-- A map has exactly those entries of another whose classes belong to certain sites. -/
def Numbering.IsPart (N : Numbering) (t : TileId) (kind : ClassSite → Prop)
    (part whole : ClassMap) : Prop :=
  ∀ cls entry, part.find? cls = some entry ↔
    whole.find? cls = some entry ∧ ∃ site, N.siteOfClass t cls = .ok site ∧ kind site

/-- The classes of the block of a span; none if the tables lack it. -/
def Tables.entriesOf (T : Tables) (span : Span) : List (Nat × ClassEntry) :=
  match T.block? span.block with
  | some block => span.classEntries block
  | none => []

section Maps
variable {T : Tables} {tile : Tile} {t : TileId} {cls : Nat} {entry : ClassEntry}

theorem Tables.mem_entriesOf_spanOf_iff {p : Place} :
    (cls, entry) ∈ T.entriesOf (T.spanOf tile p) ↔ T.IsEntry tile p cls entry := by
  have hblock : (T.spanOf tile p).block = p.block := rfl
  have hbase : (T.spanOf tile p).classBase = tile.offset T.classesOf p := rfl
  unfold entriesOf IsEntry
  rw [hblock]
  cases hb : T.block? p.block with
  | none => simp
  | some block => simp [Span.mem_classEntries_iff, hblock, hbase]

theorem Tables.IsEntry.isClass {p : Place} (h : T.IsEntry tile p cls entry) :
    T.IsClass tile p entry.logicalClass cls := by
  obtain ⟨block, hb, -, hget, hcls⟩ := h
  obtain ⟨hlt, -⟩ := List.getElem?_eq_some_iff.1 hget
  refine ⟨?_, hcls⟩
  rw [classesOf_eq_of_block? hb]
  exact hlt

theorem Tables.IsClass.exists_isEntry {p : Place} {logicalClass : Nat}
    (h : T.IsClass tile p logicalClass cls) (hb : ∃ block, T.block? p.block = some block) :
    ∃ entry, T.IsEntry tile p cls entry := by
  obtain ⟨hlt, hcls⟩ := h
  obtain ⟨block, hb⟩ := hb
  rw [classesOf_eq_of_block? hb] at hlt
  have hget : block.primitiveClasses[logicalClass]? = some block.primitiveClasses[logicalClass] :=
    List.getElem?_eq_getElem hlt
  exact ⟨⟨p.block, logicalClass, _⟩, block, hb, rfl, hget, hcls⟩

theorem Tables.IsEntry.unique {p q : Place} {entry' : ClassEntry}
    (h : T.IsEntry tile p cls entry) (h' : T.IsEntry tile q cls entry')
    (hp : p ∈ tile.places) (hq : q ∈ tile.places) : entry = entry' := by
  obtain ⟨hsite, hlogical⟩ := h.isClass.unique h'.isClass hp hq
  have hblock : p.block = q.block := congrArg Site.block hsite
  obtain ⟨b, logicalClass, info⟩ := entry
  obtain ⟨b', logicalClass', info'⟩ := entry'
  obtain ⟨block, hb, rfl, hget, -⟩ := h
  obtain ⟨block', hb', rfl, hget', -⟩ := h'
  rw [hblock, hb', Option.some.injEq] at hb
  obtain rfl : logicalClass = logicalClass' := hlogical
  rw [← hb, hget', Option.some.injEq] at hget
  have hinfo : info' = info := hget
  rw [hblock, hinfo]

/-! ## The map of some places -/

theorem Tables.classesOfSpans_eq_ok_iff {spans : List Span} {m : ClassMap} :
    T.numbering.classesOfSpans spans = .ok m ↔
      (∀ span ∈ spans, ∃ block, T.block? span.block = some block) ∧
        m = KeyMap.ofList (spans.flatMap T.entriesOf) := by
  have hstep : ∀ (span : Span) (entries : List (Nat × ClassEntry)),
      (T.numbering.tables.findBlock span.block >>= fun block =>
        pure (span.classEntries block)) = .ok entries ↔
      (∃ block, T.block? span.block = some block) ∧ entries = T.entriesOf span := by
    intro span entries
    simp only [findBlock, bind_eq_ok_iff, orFail_eq_ok_iff, pure_eq_ok_iff, entriesOf]
    show (∃ block, T.block? span.block = some block ∧ _) ↔ _
    cases T.block? span.block with
    | none => simp
    | some block => simp [eq_comm]
  unfold Numbering.classesOfSpans
  rw [bind_eq_ok_iff]
  simp only [pure_eq_ok_iff, mapM_eq_ok_iff T.entriesOf fun span entries h =>
    ((hstep span entries).1 h).2]
  simp only [hstep, and_true]
  constructor
  · rintro ⟨_, ⟨hknown, rfl⟩, rfl⟩
    exact ⟨hknown, by rw [List.flatMap_def]⟩
  · rintro ⟨hknown, rfl⟩
    exact ⟨_, ⟨hknown, rfl⟩, by rw [List.flatMap_def]⟩

/-! ## The maps of a tile, an instance and a block -/

/-- The places of an instance in the order of the walk. -/
def Tile.placesAt (tile : Tile) (subTile inst : Nat) : List Place :=
  tile.places.filter fun p => p.subTile.index == subTile && p.inst == inst

theorem Tile.mem_placesAt_iff {subTile inst : Nat} {p : Place} :
    p ∈ tile.placesAt subTile inst ↔
      p ∈ tile.places ∧ p.subTile.index = subTile ∧ p.inst = inst := by
  unfold placesAt
  rw [List.mem_filter, Bool.and_eq_true, beq_iff_eq, beq_iff_eq]

theorem Tables.instanceSpans_laidOut (subTile inst : Nat) :
    (T.laidOut tile).instanceSpans subTile inst =
      (tile.placesAt subTile inst).map (T.spanOf tile) := by
  unfold Layout.instanceSpans Tile.placesAt laidOut
  rw [List.filter_map]
  rfl

section LaidOut
variable (ht : T.tile? t = some tile) (hL : T.layout t = .ok (T.laidOut tile))

include hL in
theorem Tables.tileClasses_eq :
    T.numbering.tileClasses t = T.numbering.classesOfSpans (tile.places.map (T.spanOf tile)) := by
  have hlayout : T.numbering.layout t = .ok (T.laidOut tile) := hL
  unfold Numbering.tileClasses
  rw [hlayout]
  rfl

include ht hL

/-- The map of some places of a tile that has a layout finds the classes of the blocks there. -/
theorem Tables.classesOfSpans_spanOf {ps : List Place} (hps : ∀ p ∈ ps, p ∈ tile.places) :
    ∃ m, T.numbering.classesOfSpans (ps.map (T.spanOf tile)) = .ok m ∧ T.IsMapOf tile ps m := by
  obtain ⟨hknown, -⟩ := (layout_eq_ok_iff_laidOut ht).1 hL
  have hmem : ∀ cls entry, (cls, entry) ∈ (ps.map (T.spanOf tile)).flatMap T.entriesOf ↔
      ∃ p ∈ ps, T.IsEntry tile p cls entry := by
    intro cls entry
    rw [List.flatMap_map, List.mem_flatMap]
    simp only [mem_entriesOf_spanOf_iff]
  refine ⟨_, classesOfSpans_eq_ok_iff.2 ⟨?_, rfl⟩, ?_⟩
  · rw [List.forall_mem_map]
    intro p hp
    exact hknown p (hps p hp)
  · intro cls entry
    rw [KeyMap.find?_ofList_eq_some_iff, hmem]
    -- No number has two entries, so none is overwritten.
    intro cls entry entry' hentry hentry'
    obtain ⟨p, hp, hp'⟩ := (hmem cls entry).1 hentry
    obtain ⟨q, hq, hq'⟩ := (hmem cls entry').1 hentry'
    exact hp'.unique hq' (hps p hp) (hps q hq)

theorem Tables.instanceClasses_eq_ok_iff {subTile inst : Nat} {m : ClassMap} :
    T.numbering.instanceClasses t subTile inst = .ok m ↔
      ∃ s, tile.subTiles[subTile]? = some s ∧ inst < s.capacity.total ∧
        T.numbering.classesOfSpans ((tile.placesAt subTile inst).map (T.spanOf tile)) = .ok m := by
  have htile : T.numbering.tables.findTile t = .ok tile := Tables.findTile_eq_ok ht
  have hlayout : T.numbering.layout t = .ok (T.laidOut tile) := hL
  simp only [Numbering.instanceClasses, htile, hlayout, Tile.findSubTile, bind_eq_ok_iff,
    exists_unit_ok_iff, Except.ok.injEq, exists_eq_left', orFail_eq_ok_iff,
    LookupError.unless_eq_ok_iff, instanceSpans_laidOut]

theorem Tables.siteClasses_eq_ok_iff {subTile inst : Nat} {b : BlockId} {m : ClassMap} :
    T.numbering.siteClasses t subTile b inst = .ok m ↔
      ∃ p, tile.IsFirstPlace subTile inst b p ∧
        T.numbering.classesOfSpans ([p].map (T.spanOf tile)) = .ok m := by
  have htile : T.numbering.tables.findTile t = .ok tile := Tables.findTile_eq_ok ht
  have hlayout : T.numbering.layout t = .ok (T.laidOut tile) := hL
  simp only [Numbering.siteClasses, htile, hlayout, Numbering.findSpan, bind_eq_ok_iff,
    Except.ok.injEq, exists_eq_left', orFail_eq_ok_iff, spanAt?_laidOut]
  constructor
  · rintro ⟨_, ⟨p, hp, rfl⟩, hm⟩
    exact ⟨p, hp, hm⟩
  · rintro ⟨p, hp, hm⟩
    exact ⟨_, ⟨p, hp, rfl⟩, hm⟩

/-! ## The map of a tile -/

theorem Tables.IsEntry.siteOfClass_eq {p : Place} (hp : p ∈ tile.places)
    (h : T.IsEntry tile p cls entry) :
    T.numbering.siteOfClass t cls = .ok (p.toClassSite entry.logicalClass) := by
  rw [siteOfClass_eq_ok_iff_isClass ht hL]
  exact ⟨p, hp, entry.logicalClass, rfl, h.isClass⟩

theorem Tables.IsEntry.findClass_eq {p : Place} (hp : p ∈ tile.places)
    (h : T.IsEntry tile p cls entry) : T.numbering.findClass t cls true = .ok entry.cls := by
  have htile : T.numbering.tables.findTile t = .ok tile := Tables.findTile_eq_ok ht
  have hsite := h.siteOfClass_eq ht hL hp
  obtain ⟨block, hb, -, hget, -⟩ := h
  have hblock : T.numbering.tables.findBlock p.block = .ok block := orFail_eq_ok_iff.2 hb
  have hclass : block.findClass entry.logicalClass = .ok entry.cls := orFail_eq_ok_iff.2 hget
  unfold Numbering.findClass
  rw [htile, hsite]
  show (T.numbering.tables.findBlock p.block >>= fun block =>
    block.findClass entry.logicalClass) = _
  rw [hblock]
  exact hclass

theorem Tables.exists_tileClasses :
    ∃ m, T.numbering.tileClasses t = .ok m ∧ T.IsMapOf tile tile.places m := by
  rw [tileClasses_eq hL]
  exact classesOfSpans_spanOf ht hL fun p hp => hp

theorem Tables.keys_eq_range_numClasses {m : ClassMap} (hm : T.IsMapOf tile tile.places m) :
    m.keys = List.range (T.laidOut tile).numClasses := by
  obtain ⟨hknown, -⟩ := (layout_eq_ok_iff_laidOut ht).1 hL
  apply KeyMap.keys_eq_range
  intro cls
  rw [← exists_isClass_iff]
  constructor
  · rintro ⟨entry, hfind⟩
    obtain ⟨p, hp, hentry⟩ := (hm cls entry).1 hfind
    exact ⟨p, hp, entry.logicalClass, hentry.isClass⟩
  · rintro ⟨p, hp, logicalClass, hcls⟩
    obtain ⟨entry, hentry⟩ := hcls.exists_isEntry (hknown p hp)
    exact ⟨entry, (hm cls entry).2 ⟨p, hp, hentry⟩⟩

/-! ## Parts of the map of a tile -/

theorem Tables.find?_and_siteOfClass_iff {m : ClassMap}
    (hm : T.IsMapOf tile tile.places m) (kind : ClassSite → Prop) :
    (m.find? cls = some entry ∧
        ∃ site, T.numbering.siteOfClass t cls = .ok site ∧ kind site) ↔
      ∃ p ∈ tile.places, kind (p.toClassSite entry.logicalClass) ∧ T.IsEntry tile p cls entry := by
  rw [hm cls entry]
  constructor
  · rintro ⟨⟨p, hp, hentry⟩, site, hsite, hkind⟩
    rw [hentry.siteOfClass_eq ht hL hp, Except.ok.injEq] at hsite
    rw [← hsite] at hkind
    exact ⟨p, hp, hkind, hentry⟩
  · rintro ⟨p, hp, hkind, hentry⟩
    exact ⟨⟨p, hp, hentry⟩, _, hentry.siteOfClass_eq ht hL hp, hkind⟩

/-- The map of an instance is the part of the map of the tile that belongs to the instance. -/
theorem Tables.exists_instanceClasses {whole : ClassMap}
    (hwhole : T.IsMapOf tile tile.places whole) {subTile inst : Nat} {s : SubTile}
    (hs : tile.subTiles[subTile]? = some s) (hinst : inst < s.capacity.total) :
    ∃ part, T.numbering.instanceClasses t subTile inst = .ok part ∧
      T.numbering.IsPart t (fun site => site.subTile = subTile ∧ site.inst = inst) part whole := by
  have hps : ∀ p ∈ tile.placesAt subTile inst, p ∈ tile.places := by
    intro p hp
    exact (Tile.mem_placesAt_iff.1 hp).1
  obtain ⟨part, hok, hpart⟩ := classesOfSpans_spanOf ht hL hps
  refine ⟨part, (instanceClasses_eq_ok_iff ht hL).2 ⟨s, hs, hinst, hok⟩, ?_⟩
  intro cls entry
  rw [hpart cls entry, find?_and_siteOfClass_iff ht hL hwhole]
  simp only [Tile.mem_placesAt_iff, and_assoc, Place.toClassSite]

theorem Tables.isPart_of_instanceClasses {whole part : ClassMap}
    (hwhole : T.IsMapOf tile tile.places whole) {subTile inst : Nat}
    (hinstance : T.numbering.instanceClasses t subTile inst = .ok part) :
    T.numbering.IsPart t (fun site => site.subTile = subTile ∧ site.inst = inst) part whole := by
  obtain ⟨s, hs, hinst, -⟩ := (instanceClasses_eq_ok_iff ht hL).1 hinstance
  obtain ⟨part', hinstance', hpart⟩ := exists_instanceClasses ht hL hwhole hs hinst
  rw [hinstance, Except.ok.injEq] at hinstance'
  rw [hinstance']
  exact hpart

theorem Tables.disjoint_keys_of_instanceClasses {part part' : ClassMap}
    {subTile inst subTile' inst' : Nat}
    (hinstance : T.numbering.instanceClasses t subTile inst = .ok part)
    (hinstance' : T.numbering.instanceClasses t subTile' inst' = .ok part')
    (hne : (subTile, inst) ≠ (subTile', inst')) (hcls : cls ∈ part.keys) : cls ∉ part'.keys := by
  intro hcls'
  obtain ⟨whole, -, hwhole⟩ := exists_tileClasses ht hL
  have hpart := isPart_of_instanceClasses ht hL hwhole hinstance
  have hpart' := isPart_of_instanceClasses ht hL hwhole hinstance'
  obtain ⟨entry, hfind⟩ := (part.mem_keys_iff cls).1 hcls
  obtain ⟨entry', hfind'⟩ := (part'.mem_keys_iff cls).1 hcls'
  obtain ⟨-, site, hsite, rfl, rfl⟩ := (hpart cls entry).1 hfind
  obtain ⟨-, site', hsite', rfl, rfl⟩ := (hpart' cls entry').1 hfind'
  rw [hsite, Except.ok.injEq] at hsite'
  rw [hsite'] at hne
  exact hne rfl

/-- Where the sub tiles carry their positions, the maps of the instances make up the whole map. -/
theorem Tables.find?_tileClasses_iff (hindexed : tile.Indexed) {whole : ClassMap}
    (hwhole : T.IsMapOf tile tile.places whole) :
    whole.find? cls = some entry ↔
      ∃ subTile inst part, T.numbering.instanceClasses t subTile inst = .ok part ∧
        part.find? cls = some entry := by
  constructor
  · intro hfind
    obtain ⟨p, hp, hentry⟩ := (hwhole cls entry).1 hfind
    obtain ⟨hi, hinst, -⟩ := Tile.mem_places_iff.1 hp
    have hsite := hentry.siteOfClass_eq ht hL hp
    obtain ⟨part, hinstance, hpart⟩ := exists_instanceClasses ht hL hwhole hi hinst
    refine ⟨p.position, p.inst, part, hinstance, (hpart cls entry).2 ?_⟩
    exact ⟨hfind, _, hsite, hindexed _ _ hi, rfl⟩
  · rintro ⟨subTile, inst, part, hinstance, hfind⟩
    exact ((isPart_of_instanceClasses ht hL hwhole hinstance cls entry).1 hfind).1

/-- The map of a block in an instance of a sub tile that lists it once is the part that belongs to
the block there. -/
theorem Tables.exists_siteClasses (hindexed : tile.Indexed) {whole : ClassMap}
    (hwhole : T.IsMapOf tile tile.places whole) {subTile inst : Nat} {s : SubTile} {b : BlockId}
    (hs : tile.subTiles[subTile]? = some s) (hinst : inst < s.capacity.total)
    (hnodup : s.sites.Nodup) (hb : b ∈ s.sites) :
    ∃ part, T.numbering.siteClasses t subTile b inst = .ok part ∧
      T.numbering.IsPart t
        (fun site => site.subTile = subTile ∧ site.inst = inst ∧ site.block = b) part whole := by
  have honce : ∀ s', tile.subTiles[subTile]? = some s' → s'.sites.Nodup := by
    intro s' hs'
    rw [hs, Option.some.injEq] at hs'
    rw [← hs']
    exact hnodup
  obtain ⟨p, hp, hat⟩ := hindexed.exists_place hs hinst hb
  have hps : ∀ q ∈ [p], q ∈ tile.places := List.forall_mem_singleton.2 hp
  obtain ⟨part, hok, hpart⟩ := classesOfSpans_spanOf ht hL hps
  have hfirst : tile.IsFirstPlace subTile inst b p :=
    (hindexed.isFirstPlace_iff honce).2 ⟨hp, hat⟩
  refine ⟨part, (siteClasses_eq_ok_iff ht hL).2 ⟨p, hfirst, hok⟩, ?_⟩
  intro cls entry
  rw [hpart cls entry, find?_and_siteOfClass_iff ht hL hwhole]
  constructor
  · rintro ⟨q, hq, hentry⟩
    obtain rfl := List.mem_singleton.1 hq
    exact ⟨q, hp, hat, hentry⟩
  · rintro ⟨q, hq, hat', hentry⟩
    obtain rfl := hindexed.place_unique honce hq hp hat' hat
    exact ⟨q, List.mem_singleton_self q, hentry⟩

end LaidOut

end Maps

/-! ## One numbering -/

/-- The map of a tile that has a layout lists the classes from zero on, each with the site and the
class that the look-ups give for its number. On tables that pass the checks the maps of the
instances are the parts of that map that belong to the instances; they share no number, and together
they are the whole map. The map of a block that its sub tile lists once is the part that belongs to
the block in the instance. -/
theorem Tables.classMaps_agree (T : Tables) (t : TileId) :
    (∀ L, T.layout t = .ok L → ∃ n m, T.numbering.numClasses t = .ok n ∧
      T.numbering.tileClasses t = .ok m ∧ m.keys = List.range n ∧
      ∀ cls entry, m.find? cls = some entry →
        ∃ site, T.numbering.siteOfClass t cls = .ok site ∧ entry.block = site.block ∧
          entry.logicalClass = site.logicalClass ∧
          T.numbering.findClass t cls true = .ok entry.cls) ∧
    (T.validate = .ok () → ∀ tile, T.tile? t = some tile →
      ∃ whole, T.numbering.tileClasses t = .ok whole ∧
        (∀ subTile s inst, tile.subTiles[subTile]? = some s → inst < s.capacity.total →
          (∃ part, T.numbering.instanceClasses t subTile inst = .ok part ∧
            T.numbering.IsPart t (fun site => site.subTile = subTile ∧ site.inst = inst)
              part whole) ∧
          (s.sites.Nodup → ∀ b ∈ s.sites,
            ∃ part, T.numbering.siteClasses t subTile b inst = .ok part ∧
              T.numbering.IsPart t
                (fun site => site.subTile = subTile ∧ site.inst = inst ∧ site.block = b)
                part whole)) ∧
        (∀ subTile inst subTile' inst' part part',
          T.numbering.instanceClasses t subTile inst = .ok part →
          T.numbering.instanceClasses t subTile' inst' = .ok part' →
          (subTile, inst) ≠ (subTile', inst') → ∀ cls ∈ part.keys, cls ∉ part'.keys) ∧
        ∀ cls entry, whole.find? cls = some entry ↔
          ∃ subTile inst part, T.numbering.instanceClasses t subTile inst = .ok part ∧
            part.find? cls = some entry) := by
  constructor
  · intro L hL
    obtain ⟨tile, ht, rfl⟩ := exists_tile_of_layout hL
    obtain ⟨m, hok, hm⟩ := exists_tileClasses ht hL
    refine ⟨_, m, numClasses_eq hL, hok, keys_eq_range_numClasses ht hL hm, ?_⟩
    intro cls entry hfind
    obtain ⟨p, hp, hentry⟩ := (hm cls entry).1 hfind
    have hblock : entry.block = p.block := by
      obtain ⟨block, -, hblock, -⟩ := hentry
      exact hblock
    exact ⟨_, hentry.siteOfClass_eq ht hL hp, hblock, rfl, hentry.findClass_eq ht hL hp⟩
  intro hT tile ht
  have h : tile.Consistent T := ((T.validate_eq_ok_iff.1 hT).tile t tile ht).2
  have hL := h.layout_eq ht
  obtain ⟨whole, hok, hwhole⟩ := exists_tileClasses ht hL
  refine ⟨whole, hok, ?_, ?_, ?_⟩
  · intro subTile s inst hs hinst
    refine ⟨exists_instanceClasses ht hL hwhole hs hinst, ?_⟩
    intro hnodup b hb
    exact exists_siteClasses ht hL h.indexed hwhole hs hinst hnodup hb
  · intro subTile inst subTile' inst' part part' hinstance hinstance' hne cls hcls
    exact disjoint_keys_of_instanceClasses ht hL hinstance hinstance' hne hcls
  · intro cls entry
    exact find?_tileClasses_iff ht hL h.indexed hwhole

/-- The logic tile has 16 classes, of which its memory has the last two and the second block in the
second instance has two more. -/
theorem Samples.heterogeneous_classMaps :
    (∃ L n m, heterogeneous.layout 0 = .ok L ∧ heterogeneous.numbering.numClasses 0 = .ok n ∧
      heterogeneous.numbering.tileClasses 0 = .ok m ∧ m.keys = List.range n) ∧
    heterogeneous.validate = .ok () ∧
    ∃ tile s whole memory block, heterogeneous.tile? 0 = some tile ∧
      tile.subTiles[0]? = some s ∧ s.sites.Nodup ∧ 1 < s.capacity.total ∧ 1 ∈ s.sites ∧
      heterogeneous.numbering.tileClasses 0 = .ok whole ∧
      heterogeneous.numbering.instanceClasses 0 1 0 = .ok memory ∧ memory.keys = [14, 15] ∧
      heterogeneous.numbering.siteClasses 0 0 1 1 = .ok block ∧ block.keys = [12, 13] ∧
      heterogeneous.numbering.IsPart 0 (fun site => site.subTile = 1 ∧ site.inst = 0) memory whole ∧
      heterogeneous.numbering.IsPart 0
        (fun site => site.subTile = 0 ∧ site.inst = 1 ∧ site.block = 1) block whole ∧
      ∀ cls ∈ memory.keys, ∃ part, heterogeneous.numbering.instanceClasses 0 0 1 = .ok part ∧
        cls ∉ part.keys := by
  obtain ⟨hview, hparts⟩ := heterogeneous.classMaps_agree 0
  obtain ⟨n, m, hn, hm, hkeys, -⟩ := hview _ rfl
  obtain ⟨whole, hwhole, hpart, hdisjoint, -⟩ := hparts rfl _ rfl
  obtain ⟨⟨memory, hmemory, hmemoryPart⟩, -⟩ := hpart 1 _ 0 rfl (by decide)
  obtain ⟨⟨logic, hlogic, -⟩, hblocks⟩ := hpart 0 _ 1 rfl (by decide)
  have hnodup : (heterogeneous.tiles[0].subTiles[0]).sites.Nodup := by decide
  obtain ⟨block, hblock, hblockPart⟩ := hblocks hnodup 1 (by decide)
  refine ⟨⟨_, n, m, rfl, hn, hm, hkeys⟩, rfl, _, _, whole, memory, block, rfl, rfl, hnodup,
    by decide, by decide, hwhole, hmemory, ?_, hblock, ?_, hmemoryPart, hblockPart, ?_⟩
  · cases hmemory
    rfl
  · cases hblock
    rfl
  · intro cls hcls
    exact ⟨logic, hlogic, hdisjoint _ _ _ _ _ _ hmemory hlogic (by decide) cls hcls⟩

end PinNumbering
