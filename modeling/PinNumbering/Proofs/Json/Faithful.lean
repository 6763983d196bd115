import PinNumbering.Tables.Json
import Std.Data.String.ToNat
/-! # Readers that undo writers

A writer and a reader of a type are faithful if the reader gets back every value of the type that
fits its limits, and gives no other value. Such a pair for the parts of a value makes one for a
list, a record or a map of them. So a value that was read, from whatever layout of the same data, is
written in a form that is read as the same value.

For maps this takes two facts: the decimal text of a key is read as that key, and entries that
ascend by key neither change places nor displace each other when they are inserted again.
-/
set_option autoImplicit false

namespace PinNumbering

/-! ## Lists of results -/

theorem mapM_eq_some_iff {α β : Type} {f : α → Option β} {xs : List α} {ys : List β} :
    xs.mapM f = some ys ↔ xs.map f = ys.map some := by
  induction xs generalizing ys with
  | nil => cases ys <;> simp
  | cons x rest ih =>
    have hstep : (x :: rest).mapM f = some ys ↔
        ∃ z, f x = some z ∧ ∃ zs, rest.mapM f = some zs ∧ z :: zs = ys := by
      simp only [List.mapM_cons, Option.bind_eq_bind, Option.bind_eq_some_iff, Option.pure_def,
        Option.some.injEq]
    rw [hstep]
    cases ys with
    | nil => simp
    | cons y ys =>
      rw [List.map_cons, List.map_cons, List.cons.injEq, ← ih]
      constructor
      · rintro ⟨z, hx, zs, hrest, hsame⟩
        obtain ⟨rfl, rfl⟩ := List.cons.inj hsame
        exact ⟨hx, hrest⟩
      · rintro ⟨hx, hrest⟩
        exact ⟨y, hx, ys, hrest, rfl⟩

theorem exists_of_mapM_eq_some {α β : Type} {f : α → Option β} {xs : List α} {ys : List β}
    (h : xs.mapM f = some ys) {y : β} (hy : y ∈ ys) : ∃ x ∈ xs, f x = some y := by
  have hmem : some y ∈ xs.map f := by
    rw [mapM_eq_some_iff.1 h]
    exact List.mem_map_of_mem hy
  exact List.mem_map.1 hmem

namespace Json

/-- The reader gives back what the writer made of a value that fits, and gives only such values. -/
structure Faithful {α : Type} (write : α → Json) (read? : Json → Option α) (Fits : α → Prop) :
    Prop where
  read_write : ∀ a, Fits a → read? (write a) = some a
  fits_of_read : ∀ j a, read? j = some a → Fits a

theorem Faithful.read_again {α : Type} {write : α → Json} {read? : Json → Option α}
    {Fits : α → Prop} (h : Faithful write read? Fits) {j : Json} {a : α} (ha : read? j = some a) :
    read? (write a) = some a :=
  h.read_write a (h.fits_of_read j a ha)

/-! ## Numbers and lists -/

theorem nat?_eq_some_iff {limit n : Nat} {j : Json} :
    j.nat? limit = some n ↔ j = number n ∧ n < limit := by
  cases j with
  | number m =>
    simp only [nat?, number.injEq]
    split <;> simp only [Option.some.injEq, reduceCtorEq, false_iff] <;> omega
  | _ => simp [nat?]

theorem faithful_nat (limit : Nat) : Faithful number (nat? limit) (fun n => n < limit) where
  read_write _ hn := nat?_eq_some_iff.2 ⟨rfl, hn⟩
  fits_of_read _ _ h := (nat?_eq_some_iff.1 h).2

theorem Faithful.list {α : Type} {write : α → Json} {read? : Json → Option α} {Fits : α → Prop}
    (h : Faithful write read? Fits) :
    Faithful (fun as => list (as.map write)) (list? read?) (fun as => ∀ a ∈ as, Fits a) where
  read_write as has := by
    rw [list?, mapM_eq_some_iff, List.map_map]
    apply List.map_congr_left
    intro a ha
    exact h.read_write a (has a ha)
  fits_of_read j as hj := by
    intro a ha
    cases j with
    | list items =>
      obtain ⟨item, -, hitem⟩ := exists_of_mapM_eq_some hj ha
      exact h.fits_of_read item a hitem
    | _ => simp [list?] at hj

theorem faithful_nats (limit : Nat) :
    Faithful nats (nats? limit) (fun ns => ∀ n ∈ ns, n < limit) :=
  (faithful_nat limit).list

/-! ## Records -/

theorem map_lookup_zip {names : List String} {values : List Json} (hnames : names.Nodup)
    (hlength : names.length = values.length) :
    (names.map fun name => (names.zip values).lookup name) = values.map some := by
  induction names generalizing values with
  | nil =>
    rw [List.length_nil, eq_comm, List.length_eq_zero_iff] at hlength
    rw [hlength]
    rfl
  | cons name rest ih =>
    obtain ⟨hname, hrest⟩ := List.nodup_cons.1 hnames
    cases values with
    | nil => simp at hlength
    | cons value values =>
      simp only [List.length_cons, Nat.add_right_cancel_iff] at hlength
      rw [List.map_cons, List.map_cons, List.zip_cons_cons, List.lookup_cons_self,
        ← ih hrest hlength]
      congr 1
      apply List.map_congr_left
      intro other hother
      have hne : (other == name) = false := by
        rw [beq_eq_false_iff_ne]
        rintro rfl
        exact hname hother
      rw [List.lookup_cons, hne]

/-- A record is read member by member, where no two members share a name. -/
theorem members?_record {names : List String} {values : List Json} (hnames : names.Nodup)
    (hlength : names.length = values.length) :
    (record names values).members? names = some values := by
  rw [record, members?, mapM_eq_some_iff]
  exact map_lookup_zip hnames hlength

/-- A record is read back where its values are read back from a list of them. -/
theorem Faithful.record {α : Type} {names : List String} {values : α → List Json}
    {ofValues? : List Json → Option α} {Fits : α → Prop} (hnames : names.Nodup)
    (hlength : ∀ a, names.length = (values a).length)
    (hread : ∀ a, Fits a → ofValues? (values a) = some a)
    (hfits : ∀ vs a, ofValues? vs = some a → Fits a) :
    Faithful (fun a => .record names (values a)) (fun j => j.members? names >>= ofValues?) Fits where
  read_write a ha := by
    rw [members?_record hnames (hlength a)]
    exact hread a ha
  fits_of_read j a h := by
    obtain ⟨vs, -, hvs⟩ := Option.bind_eq_some_iff.1 h
    exact hfits vs a hvs

/-! ## Maps -/

theorem key?_eq_some_iff {limit n : Nat} {key : String} :
    key? limit key = some n ↔ key = toString n ∧ n < limit := by
  simp only [key?, Option.bind_eq_bind, Option.bind_eq_some_iff]
  constructor
  · rintro ⟨m, -, hm⟩
    split at hm
    next h =>
      obtain rfl : m = n := Option.some.inj hm
      exact ⟨h.1.symm, h.2⟩
    next => contradiction
  · rintro ⟨rfl, hn⟩
    exact ⟨n, Nat.toNat?_repr n, if_pos ⟨rfl, hn⟩⟩

theorem entries?_keyed {α : Type} {write : α → Json} {read? : Json → Option α} {Fits : α → Prop}
    (h : Faithful write read? Fits) {limit : Nat} {entries : List (Nat × α)}
    (hascending : entries.Pairwise fun a b => a.1 < b.1)
    (hentries : ∀ entry ∈ entries, entry.1 < limit ∧ Fits entry.2) :
    (keyed write entries).entries? limit read? = some entries := by
  have hsorted : entries.Pairwise fun a b => decide (a.1 ≤ b.1) = true :=
    hascending.imp fun hab => decide_eq_true (Nat.le_of_lt hab)
  rw [keyed, entries?]
  refine Option.bind_eq_some_iff.2 ⟨entries, ?_, ?_⟩
  · rw [mapM_eq_some_iff, List.map_map]
    apply List.map_congr_left
    rintro ⟨n, a⟩ hentry
    obtain ⟨hn, ha⟩ := hentries _ hentry
    have hkey : key? limit (toString n) = some n := key?_eq_some_iff.2 ⟨rfl, hn⟩
    simp only [Function.comp_apply, hkey, h.read_write a ha, Option.bind_eq_bind,
      Option.bind_some, Option.pure_def]
  · rw [List.mergeSort_of_pairwise hsorted]
    rfl

theorem fits_of_mem_entries? {α : Type} {write : α → Json} {read? : Json → Option α}
    {Fits : α → Prop} (h : Faithful write read? Fits) {limit : Nat} {j : Json}
    {entries : List (Nat × α)} (hj : j.entries? limit read? = some entries) {entry : Nat × α}
    (hentry : entry ∈ entries) : entry.1 < limit ∧ Fits entry.2 := by
  cases j with
  | object members =>
    simp only [entries?, Option.bind_eq_bind, Option.bind_eq_some_iff, Option.pure_def,
      Option.some.injEq] at hj
    obtain ⟨unsorted, hunsorted, rfl⟩ := hj
    rw [List.mem_mergeSort] at hentry
    obtain ⟨⟨key, value⟩, -, hread⟩ := exists_of_mapM_eq_some hunsorted hentry
    simp only [Option.bind_eq_some_iff, Option.some.injEq] at hread
    obtain ⟨n, hn, a, ha, rfl⟩ := hread
    exact ⟨(key?_eq_some_iff.1 hn).2, h.fits_of_read value a ha⟩
  | _ => simp [entries?] at hj

theorem ascending_of_entries? {α : Type} {read? : Json → Option α} {limit : Nat} {j : Json}
    {entries : List (Nat × α)} (hj : j.entries? limit read? = some entries) :
    entries.Pairwise fun a b => a.1 ≤ b.1 := by
  cases j with
  | object members =>
    obtain ⟨unsorted, -, hsorted⟩ := Option.bind_eq_some_iff.1 hj
    obtain rfl := Option.some.inj hsorted
    have htrans : ∀ a b c : Nat × α, decide (a.1 ≤ b.1) = true → decide (b.1 ≤ c.1) = true →
        decide (a.1 ≤ c.1) = true := by
      simp only [decide_eq_true_eq]
      omega
    have htotal : ∀ a b : Nat × α, (decide (a.1 ≤ b.1) || decide (b.1 ≤ a.1)) = true := by
      simp only [Bool.or_eq_true, decide_eq_true_eq]
      omega
    have hpairwise := List.pairwise_mergeSort htrans htotal unsorted
    exact hpairwise.imp of_decide_eq_true
  | _ => simp [entries?] at hj

theorem Faithful.keyMap {α : Type} {write : α → Json} {read? : Json → Option α} {Fits : α → Prop}
    (h : Faithful write read? Fits) (limit : Nat) :
    Faithful (KeyMap.toJson write) (KeyMap.ofJson? limit read?)
      (fun m => ∀ entry ∈ m.entries, entry.1 < limit ∧ Fits entry.2) where
  read_write m hm := by
    rw [KeyMap.toJson, KeyMap.ofJson?, entries?_keyed h m.ascending hm, Option.map_some,
      m.ofList_entries]
  fits_of_read j m hj := by
    intro entry hentry
    obtain ⟨entries, hentries, rfl⟩ := Option.map_eq_some_iff.1 hj
    exact fits_of_mem_entries? h hentries (KeyMap.mem_of_mem_entries_ofList hentry)

theorem faithful_pinMap (leftLimit rightLimit : Nat) :
    Faithful PinMap.toJson (PinMap.ofJson? leftLimit rightLimit)
      (fun m => ∀ pair ∈ m.pairs, pair.1 < leftLimit ∧ pair.2 < rightLimit) where
  read_write m hm := by
    rw [PinMap.toJson, PinMap.ofJson?, entries?_keyed (faithful_nat rightLimit) m.ascending hm,
      Option.map_some, m.ofList_pairs]
  fits_of_read j m hj := by
    intro pair hpair
    obtain ⟨pairs, hpairs, rfl⟩ := Option.map_eq_some_iff.1 hj
    exact fits_of_mem_entries? (faithful_nat rightLimit) hpairs
      (PinMap.mem_of_mem_pairs_ofList hpair)

end Json

end PinNumbering
