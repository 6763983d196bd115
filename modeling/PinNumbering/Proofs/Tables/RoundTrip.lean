import PinNumbering.Proofs.Json.Faithful
import PinNumbering.Samples
import PinNumbering.Session
/-! # Tables survive their JSON form

The numbers of tables have limits: 32 bits for identifiers and handles of graph pins, 64 bits for
all others. Tables within the limits are read back from what is written of them. Tables that were
read are within the limits, so they are read back as well, whatever the text was that they were read
from. That text may relate one pin to several others; the one-to-one map that is read from it keeps
of these pairs the last.

Each type has its limits as a structure `Fits`, and the writer and reader of the type are faithful
for it.
-/
set_option autoImplicit false

namespace PinNumbering

/-! ## Limits -/

/-- The pins of a class fit their limit. -/
def PinClass.Fits (c : PinClass) : Prop := ∀ pin ∈ c.pins, pin < wordLimit

structure Port.Fits (p : Port) : Prop where
  index : p.index < wordLimit
  firstPin : p.firstPin < wordLimit
  numPins : p.numPins < wordLimit

structure BlockPort.Fits (p : BlockPort) : Prop where
  toPort : p.toPort.Fits
  pins : ∀ pin ∈ p.pins, pin < idLimit

structure CapacityRange.Fits (r : CapacityRange) : Prop where
  low : r.low < wordLimit
  high : r.high < wordLimit

structure SubTile.Fits (s : SubTile) : Prop where
  index : s.index < wordLimit
  capacity : s.capacity.Fits
  sites : ∀ b ∈ s.sites, b < idLimit
  ports : ∀ p ∈ s.ports, p.Fits
  numPins : s.numPins < wordLimit
  rootPins : ∀ pin ∈ s.rootPins, pin < wordLimit
  directMaps : ∀ entry ∈ s.directMaps.entries, entry.1 < idLimit ∧
    ∀ pair ∈ entry.2.pairs, pair.1 < wordLimit ∧ pair.2 < wordLimit

structure Tile.Fits (tile : Tile) : Prop where
  id : tile.id < idLimit
  numPins : tile.numPins < wordLimit
  subTiles : ∀ s ∈ tile.subTiles, s.Fits
  classes : ∀ c ∈ tile.classes, c.Fits
  classOfPin : ∀ cls ∈ tile.classOfPin, cls < wordLimit

def PinOwner.Fits : PinOwner → Prop
  | .root => True
  | .primitive position => position < wordLimit

structure GraphPin.Fits (pin : GraphPin) : Prop where
  owner : pin.owner.Fits
  port : pin.port < wordLimit
  pinNumber : pin.pinNumber < wordLimit

/-- The ports of a primitive fit their limits. -/
def Primitive.Fits (p : Primitive) : Prop := ∀ port ∈ p.ports, port.Fits

structure Block.Fits (block : Block) : Prop where
  id : block.id < idLimit
  numPins : block.numPins < wordLimit
  ports : ∀ p ∈ block.ports, p.Fits
  primitives : ∀ p ∈ block.primitives, p.Fits
  graphPins : ∀ pin ∈ block.graphPins, pin.Fits
  logicalPins : ∀ pair ∈ block.logicalPins.pairs, pair.1 < wordLimit ∧ pair.2 < idLimit
  classOfGraphPin : ∀ entry ∈ block.classOfGraphPin.entries,
    entry.1 < idLimit ∧ entry.2 < wordLimit
  primitiveClasses : ∀ c ∈ block.primitiveClasses, c.Fits
  tiles : ∀ t ∈ block.tiles, t < idLimit

/-- All numbers of the tables are within the limits of their kinds. -/
structure Tables.Fits (T : Tables) : Prop where
  tiles : ∀ tile ∈ T.tiles, tile.Fits
  blocks : ∀ block ∈ T.blocks, block.Fits

open Json

/-! ## Ports and classes -/

theorem PinType.ofJson?_toJson (t : PinType) : PinType.ofJson? t.toJson = some t := by
  cases t <;> rfl

theorem PortKind.ofJson?_toJson (k : PortKind) : PortKind.ofJson? k.toJson = some k := by
  cases k <;> rfl

theorem PinClass.faithful : Faithful toJson ofJson? Fits := by
  refine Faithful.record (by decide) (fun _ => rfl) ?_ ?_
  · intro c hc
    have hpins := (faithful_nats wordLimit).read_write c.pins hc
    simp [PinType.ofJson?_toJson, hpins]
  · intro values c h
    split at h
    next pinType pins =>
      simp only [Option.bind_eq_bind, Option.bind_eq_some_iff, Option.pure_def,
        Option.some.injEq] at h
      obtain ⟨t, -, ps, hps, rfl⟩ := h
      exact (faithful_nats wordLimit).fits_of_read pins ps hps
    next => contradiction

/-- The members of a port that are read one by one. -/
theorem Port.ofMembers?_eq_some_iff {name index kind firstPin numPins : Json} {p : Port} :
    ofMembers? name index kind firstPin numPins = some p ↔
      name.text? = some p.name ∧ index.nat? wordLimit = some p.index ∧
        PortKind.ofJson? kind = some p.kind ∧ firstPin.nat? wordLimit = some p.firstPin ∧
        numPins.nat? wordLimit = some p.numPins := by
  simp only [ofMembers?, Option.bind_eq_bind, Option.bind_eq_some_iff, Option.pure_def,
    Option.some.injEq]
  constructor
  · rintro ⟨n, hn, i, hi, k, hk, f, hf, w, hw, rfl⟩
    exact ⟨hn, hi, hk, hf, hw⟩
  · rintro ⟨hn, hi, hk, hf, hw⟩
    exact ⟨_, hn, _, hi, _, hk, _, hf, _, hw, rfl⟩

theorem Port.Fits.ofMembers? {p : Port} (hp : p.Fits) :
    Port.ofMembers? (.text p.name) (.number p.index) p.kind.toJson (.number p.firstPin)
      (.number p.numPins) = some p :=
  Port.ofMembers?_eq_some_iff.2 ⟨rfl, nat?_eq_some_iff.2 ⟨rfl, hp.index⟩,
    p.kind.ofJson?_toJson, nat?_eq_some_iff.2 ⟨rfl, hp.firstPin⟩,
    nat?_eq_some_iff.2 ⟨rfl, hp.numPins⟩⟩

theorem Port.fits_of_ofMembers? {name index kind firstPin numPins : Json} {p : Port}
    (h : ofMembers? name index kind firstPin numPins = some p) : p.Fits := by
  obtain ⟨-, hindex, -, hfirst, hnum⟩ := ofMembers?_eq_some_iff.1 h
  exact ⟨(nat?_eq_some_iff.1 hindex).2, (nat?_eq_some_iff.1 hfirst).2, (nat?_eq_some_iff.1 hnum).2⟩

theorem Port.faithful : Faithful toJson ofJson? Fits := by
  refine Faithful.record (by decide) (fun _ => rfl) ?_ ?_
  · intro p hp
    exact hp.ofMembers?
  · intro values p h
    split at h
    next => exact fits_of_ofMembers? h
    next => contradiction

theorem BlockPort.faithful : Faithful toJson ofJson? Fits := by
  refine Faithful.record (by decide) (fun _ => rfl) ?_ ?_
  · intro p hp
    have hpins := (faithful_nats idLimit).read_write p.pins hp.pins
    show (Port.ofMembers? _ _ _ _ _).bind _ = _
    simp [hp.toPort.ofMembers?, hpins]
  · intro values p h
    split at h
    next name index kind firstPin numPins pins =>
      simp only [Option.bind_eq_bind, Option.bind_eq_some_iff, Option.pure_def,
        Option.some.injEq] at h
      obtain ⟨port, hport, ps, hps, rfl⟩ := h
      exact ⟨Port.fits_of_ofMembers? hport, (faithful_nats idLimit).fits_of_read pins ps hps⟩
    next => contradiction

/-! ## Sub tiles and tiles -/

theorem CapacityRange.faithful : Faithful toJson ofJson? Fits := by
  refine Faithful.record (by decide) (fun _ => rfl) ?_ ?_
  · intro r hr
    simp [nat?, hr.low, hr.high]
  · intro values r h
    split at h
    next low high =>
      simp only [Option.bind_eq_bind, Option.bind_eq_some_iff, Option.pure_def, nat?_eq_some_iff,
        Option.some.injEq] at h
      obtain ⟨l, ⟨-, hl⟩, u, ⟨-, hu⟩, rfl⟩ := h
      exact ⟨hl, hu⟩
    next => contradiction

theorem SubTile.faithful : Faithful toJson ofJson? Fits := by
  refine Faithful.record (by decide) (fun _ => rfl) ?_ ?_
  · intro s hs
    have hcapacity := CapacityRange.faithful.read_write s.capacity hs.capacity
    have hsites := (faithful_nats idLimit).read_write s.sites hs.sites
    have hports := Port.faithful.list.read_write s.ports hs.ports
    have hrootPins := (faithful_nats wordLimit).read_write s.rootPins hs.rootPins
    have hmaps := ((faithful_pinMap wordLimit wordLimit).keyMap idLimit).read_write s.directMaps
      hs.directMaps
    simp [nat?, text?, hs.index, hs.numPins, hcapacity, hsites, hports, hrootPins, hmaps]
  · intro values s h
    split at h
    next index name capacity sites ports numPins rootPins maps =>
      simp only [Option.bind_eq_bind, Option.bind_eq_some_iff, Option.pure_def, nat?_eq_some_iff,
        Option.some.injEq] at h
      obtain ⟨i, ⟨-, hi⟩, name, -, r, hr, bs, hbs, ps, hps, w, ⟨-, hw⟩, pins, hpins, m, hm, rfl⟩ := h
      exact {
        index := hi
        capacity := CapacityRange.faithful.fits_of_read capacity r hr
        sites := (faithful_nats idLimit).fits_of_read sites bs hbs
        ports := Port.faithful.list.fits_of_read ports ps hps
        numPins := hw
        rootPins := (faithful_nats wordLimit).fits_of_read rootPins pins hpins
        directMaps := ((faithful_pinMap wordLimit wordLimit).keyMap idLimit).fits_of_read maps m hm }
    next => contradiction

theorem Tile.faithful : Faithful toJson ofJson? Fits := by
  refine Faithful.record (by decide) (fun _ => rfl) ?_ ?_
  · intro tile ht
    have hsubTiles := SubTile.faithful.list.read_write tile.subTiles ht.subTiles
    have hclasses := PinClass.faithful.list.read_write tile.classes ht.classes
    have hclassOfPin := (faithful_nats wordLimit).read_write tile.classOfPin ht.classOfPin
    simp [nat?, text?, bool?, ht.id, ht.numPins, hsubTiles, hclasses, hclassOfPin]
  · intro values tile h
    split at h
    next id name numPins subTiles classes classOfPin isInput isOutput =>
      simp only [Option.bind_eq_bind, Option.bind_eq_some_iff, Option.pure_def, nat?_eq_some_iff,
        Option.some.injEq] at h
      obtain ⟨t, ⟨-, ht⟩, name, -, w, ⟨-, hw⟩, ss, hss, cs, hcs, of, hof, i, -, o, -, rfl⟩ := h
      exact {
        id := ht
        numPins := hw
        subTiles := SubTile.faithful.list.fits_of_read subTiles ss hss
        classes := PinClass.faithful.list.fits_of_read classes cs hcs
        classOfPin := (faithful_nats wordLimit).fits_of_read classOfPin of hof }
    next => contradiction

/-! ## Blocks -/

theorem PinOwner.faithful : Faithful toJson ofJson? Fits where
  read_write owner ho := by
    cases owner with
    | root => rfl
    | primitive position =>
      have hposition : position < wordLimit := ho
      simp [ofJson?, toJson, variant?, nat?, hposition]
  fits_of_read j owner h := by
    obtain ⟨variant, -, h⟩ := Option.bind_eq_some_iff.1 h
    split at h
    next =>
      obtain rfl := Option.some.inj h
      trivial
    next position =>
      simp only [Option.bind_eq_bind, Option.bind_eq_some_iff, Option.pure_def, nat?_eq_some_iff,
        Option.some.injEq] at h
      obtain ⟨n, ⟨-, hn⟩, rfl⟩ := h
      exact hn
    next => contradiction

theorem GraphPin.faithful : Faithful toJson ofJson? Fits := by
  refine Faithful.record (by decide) (fun _ => rfl) ?_ ?_
  · intro pin hpin
    have howner := PinOwner.faithful.read_write pin.owner hpin.owner
    simp [nat?, howner, hpin.port, hpin.pinNumber]
  · intro values pin h
    split at h
    next owner port pinNumber =>
      simp only [Option.bind_eq_bind, Option.bind_eq_some_iff, Option.pure_def, nat?_eq_some_iff,
        Option.some.injEq] at h
      obtain ⟨o, ho, p, ⟨-, hp⟩, n, ⟨-, hn⟩, rfl⟩ := h
      exact ⟨PinOwner.faithful.fits_of_read owner o ho, hp, hn⟩
    next => contradiction

theorem Primitive.faithful : Faithful toJson ofJson? Fits := by
  refine Faithful.record (by decide) (fun _ => rfl) ?_ ?_
  · intro p hp
    have hports := BlockPort.faithful.list.read_write p.ports hp
    simp [text?, hports]
  · intro values p h
    split at h
    next name ports =>
      simp only [Option.bind_eq_bind, Option.bind_eq_some_iff, Option.pure_def,
        Option.some.injEq] at h
      obtain ⟨n, -, ps, hps, rfl⟩ := h
      exact BlockPort.faithful.list.fits_of_read ports ps hps
    next => contradiction

theorem Block.faithful : Faithful toJson ofJson? Fits := by
  refine Faithful.record (by decide) (fun _ => rfl) ?_ ?_
  · intro block hb
    have hports := BlockPort.faithful.list.read_write block.ports hb.ports
    have hprimitives := Primitive.faithful.list.read_write block.primitives hb.primitives
    have hgraphPins := GraphPin.faithful.list.read_write block.graphPins hb.graphPins
    have hlogicalPins := (faithful_pinMap wordLimit idLimit).read_write block.logicalPins
      hb.logicalPins
    have hclassOf := ((faithful_nat wordLimit).keyMap idLimit).read_write block.classOfGraphPin
      hb.classOfGraphPin
    have hclasses := PinClass.faithful.list.read_write block.primitiveClasses hb.primitiveClasses
    have htiles := (faithful_nats idLimit).read_write block.tiles hb.tiles
    simp [nat?, text?, hb.id, hb.numPins, hports, hprimitives, hgraphPins, hlogicalPins, hclassOf,
      hclasses, htiles]
  · intro values block h
    split at h
    next id name numPins ports primitives graphPins logicalPins classOf classes tiles =>
      simp only [Option.bind_eq_bind, Option.bind_eq_some_iff, Option.pure_def, nat?_eq_some_iff,
        Option.some.injEq] at h
      obtain ⟨b, ⟨-, hb⟩, name, -, w, ⟨-, hw⟩, ps, hps, prims, hprims, pins, hpins, l, hl, of, hof,
        cs, hcs, ts, hts, rfl⟩ := h
      exact {
        id := hb
        numPins := hw
        ports := BlockPort.faithful.list.fits_of_read ports ps hps
        primitives := Primitive.faithful.list.fits_of_read primitives prims hprims
        graphPins := GraphPin.faithful.list.fits_of_read graphPins pins hpins
        logicalPins := (faithful_pinMap wordLimit idLimit).fits_of_read logicalPins l hl
        classOfGraphPin := ((faithful_nat wordLimit).keyMap idLimit).fits_of_read classOf of hof
        primitiveClasses := PinClass.faithful.list.fits_of_read classes cs hcs
        tiles := (faithful_nats idLimit).fits_of_read tiles ts hts }
    next => contradiction

/-! ## Tables -/

theorem Tables.faithful : Faithful toJson ofJson? Fits := by
  refine Faithful.record (by decide) (fun _ => rfl) ?_ ?_
  · intro T hT
    have htiles := Tile.faithful.list.read_write T.tiles hT.tiles
    have hblocks := Block.faithful.list.read_write T.blocks hT.blocks
    simp [htiles, hblocks]
  · intro values T h
    split at h
    next tiles blocks =>
      simp only [Option.bind_eq_bind, Option.bind_eq_some_iff, Option.pure_def,
        Option.some.injEq] at h
      obtain ⟨ts, hts, bs, hbs, rfl⟩ := h
      exact ⟨Tile.faithful.list.fits_of_read tiles ts hts,
        Block.faithful.list.fits_of_read blocks bs hbs⟩
    next => contradiction

/-- Reading a one-to-one map inserts its pairs in ascending order of their keys. -/
theorem PinMap.exists_of_ofJson? {leftLimit rightLimit : Nat} {j : Json} {m : PinMap}
    (h : ofJson? leftLimit rightLimit j = some m) :
    ∃ pairs, j.entries? leftLimit (Json.nat? rightLimit) = some pairs ∧
      pairs.Pairwise (fun a b => a.1 ≤ b.1) ∧
      m = pairs.foldl (fun m pair => m.insert pair.1 pair.2) empty := by
  obtain ⟨pairs, hpairs, rfl⟩ := Option.map_eq_some_iff.1 h
  exact ⟨pairs, hpairs, ascending_of_entries? hpairs, ofList_eq_foldl pairs⟩

/-- Tables within the limits are read back from what is written of them. The pairs of a one-to-one
map are inserted in ascending order of their keys, and an insertion drops the pairs that share a
side with the new one. So tables read from any text relate graph pins and logical pins, and pins of
sub tiles and logical pins, one to one, whatever pairs the text gives; and they are read back from
what is written of them, so the check of the tables and all answers about them stay the same. -/
theorem Tables.json_roundTrip (T : Tables) :
    (T.Fits → ofJson? T.toJson = some T) ∧
    (∀ leftLimit rightLimit j m, PinMap.ofJson? leftLimit rightLimit j = some m →
      ∃ pairs, j.entries? leftLimit (Json.nat? rightLimit) = some pairs ∧
        pairs.Pairwise (fun a b => a.1 ≤ b.1) ∧
        m = pairs.foldl (fun m pair => m.insert pair.1 pair.2) PinMap.empty) ∧
    ∀ j, ofJson? j = some T →
      (∀ block ∈ T.blocks, ∀ pin logicalPin,
        block.logicalPin? pin = some logicalPin ↔ block.graphPinAt? logicalPin = some pin) ∧
      (∀ tile ∈ T.tiles, ∀ s ∈ tile.subTiles, ∀ b m, s.directMap? b = some m →
        ∀ logicalPin pin, m.left? pin = some logicalPin ↔ m.right? logicalPin = some pin) ∧
      ofJson? T.toJson = some T ∧
      ∀ T', ofJson? T.toJson = some T' → T'.validate = T.validate ∧
        ∀ (o : Options) (queries : List Query),
          (Session.start T' o).map (fun s => (s.askAll queries).1) =
            (Session.start T o).map fun s => (s.askAll queries).1 := by
  refine ⟨faithful.read_write T, fun _ _ _ _ => PinMap.exists_of_ofJson?, ?_⟩
  intro j hj
  have hagain := faithful.read_again hj
  refine ⟨?_, ?_, hagain, ?_⟩
  · intro block _ pin logicalPin
    exact (block.logicalPins.right?_eq_some_iff_left? logicalPin pin).symm
  · intro tile _ s _ b m _ logicalPin pin
    exact (m.right?_eq_some_iff_left? logicalPin pin).symm
  · intro T' hT'
    obtain rfl : T = T' := Option.some.inj (hagain.symm.trans hT')
    exact ⟨rfl, fun _ _ => rfl⟩

/-- A block of which three logical pins share two graph pins, as text. -/
def Samples.sharedGraphPins : Json :=
  .record Block.memberNames [.number 0, .text "B", .number 0, .list [], .list [], .list [],
    .keyed .number [(0, 7), (9, 8), (10, 7)], .object [], .list [], .list []]

/-- Of the pairs with graph pin 7 the one with the greater logical pin is left, and it is left after
the tables are written and read again. -/
theorem Samples.sharedGraphPins_roundTrip :
    ∃ T, Tables.ofJson? (.record Tables.memberNames [.list [], .list [sharedGraphPins]]) = some T ∧
      T.Fits ∧ T.blocks.map (fun block => block.logicalPins.pairs) = [[(9, 8), (10, 7)]] ∧
      Tables.ofJson? T.toJson = some T := by
  let kept : PinMap := ⟨[(9, 8), (10, 7)], by simp, by simp⟩
  have hkept : PinMap.ofJson? wordLimit idLimit (.keyed .number [(0, 7), (9, 8), (10, 7)]) =
      some kept := by
    rw [PinMap.ofJson?, entries?_keyed (faithful_nat idLimit) (by decide) (by decide)]
    rfl
  let block : Block := ⟨0, "B", 0, [], [], [], kept, KeyMap.empty, [], []⟩
  have hblock : Block.ofJson? sharedGraphPins = some block := by
    have hid : 0 < idLimit := by decide
    have hword : 0 < wordLimit := by decide
    rw [Block.ofJson?, sharedGraphPins, members?_record (by decide) rfl]
    simp [nat?, hid, hword, text?, list?, nats?, KeyMap.ofJson?, entries?, hkept]
    rfl
  have hread : Tables.ofJson? (.record Tables.memberNames [.list [], .list [sharedGraphPins]]) =
      some ⟨[], [block]⟩ := by
    rw [Tables.ofJson?, members?_record (by decide) rfl]
    simp [list?, hblock]
  have hfits := Tables.faithful.fits_of_read _ _ hread
  exact ⟨_, hread, hfits, rfl, (Tables.json_roundTrip _).1 hfits⟩

end PinNumbering
