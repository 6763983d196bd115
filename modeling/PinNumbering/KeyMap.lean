/-! # Maps keyed by numbers

A `KeyMap` lists its entries in ascending order of their keys, each key once, so that equal maps
are equal values and `entries` is the order in which a map is printed.

* `insert` and `insertNew`: a value for a key replaces the one that is there, or yields to it.
* `ofList`: the map of a list of entries.
* `find?_insert`, `find?_insertNew`, `find?_ofList`: what each key finds.
* `mem_entries_iff`, `mem_keys_iff`, `keys_eq_range`: entries and keys by what is found.
* `ofList_concat`: the map of a list is what its entries leave when they are inserted in order.
-/
set_option autoImplicit false

namespace PinNumbering

/-! ## Ascending lists of entries -/

/-- Puts an entry into its place in a list that ascends by key, replacing an entry of that key. -/
def insertEntry {α : Type} (key : Nat) (value : α) : List (Nat × α) → List (Nat × α)
  | [] => [(key, value)]
  | (k, v) :: rest =>
    if key < k then (key, value) :: (k, v) :: rest
    else if key = k then (key, value) :: rest
    else (k, v) :: insertEntry key value rest

/-- Puts an entry into its place in a list that ascends by key, unless there is one of that key. -/
def insertNewEntry {α : Type} (key : Nat) (value : α) : List (Nat × α) → List (Nat × α)
  | [] => [(key, value)]
  | (k, v) :: rest =>
    if key < k then (key, value) :: (k, v) :: rest
    else if key = k then (k, v) :: rest
    else (k, v) :: insertNewEntry key value rest

/-- An entry goes in front of an ascending list where its key is less than the first. -/
theorem ascending_cons_of_lt {α : Type} {key k : Nat} {value v : α} {rest : List (Nat × α)}
    (hlt : key < k) (h : ((k, v) :: rest).Pairwise (fun a b => a.1 < b.1)) :
    ((key, value) :: (k, v) :: rest).Pairwise (fun a b => a.1 < b.1) := by
  refine List.pairwise_cons.2 ⟨?_, h⟩
  intro entry he
  rcases List.mem_cons.1 he with rfl | he
  · exact hlt
  · exact Nat.lt_trans hlt ((List.pairwise_cons.1 h).1 entry he)

/-- The first entry stays first where an entry with a greater key has joined the rest. -/
theorem ascending_cons_of_mem {α : Type} {key k : Nat} {value v : α} {rest entries : List (Nat × α)}
    (hlt : k < key) (hrest : ∀ entry ∈ rest, k < entry.1)
    (hmem : ∀ entry ∈ entries, entry = (key, value) ∨ entry ∈ rest)
    (h : entries.Pairwise (fun a b => a.1 < b.1)) :
    ((k, v) :: entries).Pairwise (fun a b => a.1 < b.1) := by
  refine List.pairwise_cons.2 ⟨?_, h⟩
  intro entry he
  rcases hmem entry he with rfl | he
  · exact hlt
  · exact hrest entry he

theorem mem_insertEntry {α : Type} {key : Nat} {value : α} {entry : Nat × α} :
    ∀ {entries : List (Nat × α)}, entry ∈ insertEntry key value entries →
      entry = (key, value) ∨ entry ∈ entries
  | [], h => by simpa [insertEntry] using h
  | (k, v) :: rest, h => by
      rw [insertEntry] at h
      split at h
      next => simpa using h
      next =>
        split at h
        next => rcases List.mem_cons.1 h with h | h <;> simp [h]
        next =>
          rcases List.mem_cons.1 h with h | h
          · simp [h]
          · rcases mem_insertEntry h with h | h <;> simp [h]

theorem ascending_insertEntry {α : Type} (key : Nat) (value : α) :
    ∀ {entries : List (Nat × α)}, entries.Pairwise (fun a b => a.1 < b.1) →
      (insertEntry key value entries).Pairwise (fun a b => a.1 < b.1)
  | [], _ => by simp [insertEntry]
  | (k, v) :: rest, h => by
      obtain ⟨hk, hrest⟩ := List.pairwise_cons.1 h
      rw [insertEntry]
      split
      next hlt => exact ascending_cons_of_lt hlt h
      next hge =>
        split
        next heq => exact List.pairwise_cons.2 ⟨fun entry he => heq ▸ hk entry he, hrest⟩
        next hne =>
          have hlt : k < key := by omega
          exact ascending_cons_of_mem hlt hk (fun _ => mem_insertEntry)
            (ascending_insertEntry key value hrest)

theorem mem_insertNewEntry {α : Type} {key : Nat} {value : α} {entry : Nat × α} :
    ∀ {entries : List (Nat × α)}, entry ∈ insertNewEntry key value entries →
      entry = (key, value) ∨ entry ∈ entries
  | [], h => by simpa [insertNewEntry] using h
  | (k, v) :: rest, h => by
      rw [insertNewEntry] at h
      split at h
      next => simpa using h
      next =>
        split at h
        next => exact Or.inr h
        next =>
          rcases List.mem_cons.1 h with h | h
          · simp [h]
          · rcases mem_insertNewEntry h with h | h <;> simp [h]

theorem ascending_insertNewEntry {α : Type} (key : Nat) (value : α) :
    ∀ {entries : List (Nat × α)}, entries.Pairwise (fun a b => a.1 < b.1) →
      (insertNewEntry key value entries).Pairwise (fun a b => a.1 < b.1)
  | [], _ => by simp [insertNewEntry]
  | (k, v) :: rest, h => by
      obtain ⟨hk, hrest⟩ := List.pairwise_cons.1 h
      rw [insertNewEntry]
      split
      next hlt => exact ascending_cons_of_lt hlt h
      next hge =>
        split
        next => exact h
        next hne =>
          have hlt : k < key := by omega
          exact ascending_cons_of_mem hlt hk (fun _ => mem_insertNewEntry)
            (ascending_insertNewEntry key value hrest)

/-- Lists that ascend by key and have the same entries are equal. -/
theorem eq_of_ascending_of_mem_iff {α : Type} :
    ∀ {as bs : List (Nat × α)}, as.Pairwise (fun a b => a.1 < b.1) →
      bs.Pairwise (fun a b => a.1 < b.1) → (∀ entry, entry ∈ as ↔ entry ∈ bs) → as = bs
  | [], [], _, _, _ => rfl
  | [], b :: bs, _, _, h => absurd ((h b).2 List.mem_cons_self) List.not_mem_nil
  | a :: as, [], _, _, h => absurd ((h a).1 List.mem_cons_self) List.not_mem_nil
  | a :: as, b :: bs, ha, hb, h => by
      obtain ⟨hlta, hrasc⟩ := List.pairwise_cons.1 ha
      obtain ⟨hltb, hrbsc⟩ := List.pairwise_cons.1 hb
      have hab : a = b := by
        rcases List.mem_cons.1 ((h a).1 List.mem_cons_self) with e | hmem
        · exact e
        · rcases List.mem_cons.1 ((h b).2 List.mem_cons_self) with e | hmem'
          · exact e.symm
          · exact absurd (hlta b hmem') (Nat.lt_asymm (hltb a hmem))
      subst hab
      refine congrArg (a :: ·) (eq_of_ascending_of_mem_iff hrasc hrbsc fun entry => ?_)
      constructor
      · intro he
        rcases List.mem_cons.1 ((h entry).1 (List.mem_cons_of_mem _ he)) with rfl | he'
        · exact absurd (hlta entry he) (Nat.lt_irrefl _)
        · exact he'
      · intro he
        rcases List.mem_cons.1 ((h entry).2 (List.mem_cons_of_mem _ he)) with rfl | he'
        · exact absurd (hltb entry he) (Nat.lt_irrefl _)
        · exact he'

/-! ## The map -/

/-- A finite map from numbers, as entries in ascending order of keys. -/
structure KeyMap (α : Type) where
  /-- The entries in ascending order. -/
  entries : List (Nat × α)
  /-- Every key is greater than the keys before it. -/
  ascending : entries.Pairwise (fun a b => a.1 < b.1)
  deriving DecidableEq, Repr

namespace KeyMap

/-- The map without entries. -/
def empty {α : Type} : KeyMap α := ⟨[], List.Pairwise.nil⟩

instance {α : Type} : Inhabited (KeyMap α) := ⟨empty⟩

/-- The value at a key. -/
def find? {α : Type} (m : KeyMap α) (key : Nat) : Option α :=
  (m.entries.find? fun entry => entry.1 == key).map Prod.snd

/-- Sets the value at a key. -/
def insert {α : Type} (m : KeyMap α) (key : Nat) (value : α) : KeyMap α :=
  ⟨insertEntry key value m.entries, ascending_insertEntry key value m.ascending⟩

/-- Sets the value at a key that has none. -/
def insertNew {α : Type} (m : KeyMap α) (key : Nat) (value : α) : KeyMap α :=
  ⟨insertNewEntry key value m.entries, ascending_insertNewEntry key value m.ascending⟩

/-- The map of a list of entries, of which the last wins at each key. The list is taken from its
end: where it ascends, each entry goes to the front. -/
def ofList {α : Type} (entries : List (Nat × α)) : KeyMap α :=
  entries.foldr (fun entry m => m.insertNew entry.1 entry.2) empty

/-- The keys in ascending order. -/
def keys {α : Type} (m : KeyMap α) : List Nat := m.entries.map Prod.fst

theorem find?_insertEntry {α : Type} (key k : Nat) (value : α) :
    ∀ {entries : List (Nat × α)}, entries.Pairwise (fun a b => a.1 < b.1) →
      ((insertEntry key value entries).find? fun entry => entry.1 == k).map Prod.snd =
        if key = k then some value else (entries.find? fun entry => entry.1 == k).map Prod.snd
  | [], _ => by
      by_cases h : key = k <;> simp [insertEntry, h]
  | (k', v) :: rest, h => by
      have ih := find?_insertEntry key k value (List.pairwise_cons.1 h).2
      rw [insertEntry]
      split
      next =>
        by_cases hk : key = k <;> simp [hk]
      next =>
        split
        next heq =>
          subst heq
          by_cases hk : key = k <;> simp [hk]
        next hne =>
          by_cases hk : k' = k
          · subst hk
            simp [hne]
          · simpa [hk] using ih

theorem find?_insert {α : Type} (m : KeyMap α) (key k : Nat) (value : α) :
    (m.insert key value).find? k = if key = k then some value else m.find? k :=
  find?_insertEntry key k value m.ascending

theorem find?_insertNewEntry {α : Type} (key k : Nat) (value : α) :
    ∀ {entries : List (Nat × α)}, entries.Pairwise (fun a b => a.1 < b.1) →
      ((insertNewEntry key value entries).find? fun entry => entry.1 == k).map Prod.snd =
        ((entries.find? fun entry => entry.1 == k).map Prod.snd).or
          (if key = k then some value else none)
  | [], _ => by
      by_cases h : key = k <;> simp [insertNewEntry, h]
  | (k', v) :: rest, h => by
      obtain ⟨hk', hrest⟩ := List.pairwise_cons.1 h
      have ih := find?_insertNewEntry key k value hrest
      rw [insertNewEntry]
      split
      next hlt =>
        by_cases hk : key = k
        · have hnone : ((k', v) :: rest).find? (fun entry => entry.1 == k) = none := by
            simp only [List.find?_eq_none, List.mem_cons, beq_iff_eq]
            rintro entry (rfl | he) heq
            · simp only at heq
              omega
            · have := hk' entry he
              simp only at this
              omega
          simp [hnone, hk]
        · simp [hk]
      next =>
        split
        next heq =>
          subst heq
          by_cases hk : key = k <;> simp [hk]
        next hne =>
          by_cases hk : k' = k
          · subst hk
            simp
          · simpa [hk] using ih

theorem find?_insertNew {α : Type} (m : KeyMap α) (key k : Nat) (value : α) :
    (m.insertNew key value).find? k = (m.find? k).or (if key = k then some value else none) :=
  find?_insertNewEntry key k value m.ascending

@[simp] theorem find?_empty {α : Type} (key : Nat) : (empty : KeyMap α).find? key = none := rfl

theorem ofList_cons {α : Type} (entry : Nat × α) (rest : List (Nat × α)) :
    ofList (entry :: rest) = (ofList rest).insertNew entry.1 entry.2 := rfl

/-- A key finds the value of its last entry. -/
theorem find?_ofList {α : Type} (entries : List (Nat × α)) (key : Nat) :
    (ofList entries).find? key =
      (entries.reverse.find? fun entry => entry.1 == key).map Prod.snd := by
  induction entries with
  | nil => rfl
  | cons entry rest ih =>
    rw [ofList_cons, find?_insertNew, ih, List.reverse_cons, List.find?_append]
    by_cases h : entry.1 = key <;>
      cases rest.reverse.find? (fun entry => entry.1 == key) <;> simp [h]

/-- Where no two entries of a list share a key, every key finds its entry. -/
theorem find?_ofList_eq_some_iff {α : Type} {entries : List (Nat × α)}
    (h : ∀ key value value', (key, value) ∈ entries → (key, value') ∈ entries → value = value')
    (key : Nat) (value : α) :
    (ofList entries).find? key = some value ↔ (key, value) ∈ entries := by
  rw [find?_ofList, Option.map_eq_some_iff]
  constructor
  · rintro ⟨⟨k, v⟩, hfound, rfl⟩
    have hkey := List.find?_some hfound
    rw [beq_iff_eq] at hkey
    rw [← hkey]
    exact List.mem_reverse.1 (List.mem_of_find?_eq_some hfound)
  · intro hmem
    cases hfound : entries.reverse.find? fun entry => entry.1 == key with
    | none =>
      have hnone := List.find?_eq_none.1 hfound (key, value) (List.mem_reverse.2 hmem)
      exact absurd (beq_self_eq_true key) hnone
    | some entry =>
      obtain ⟨k, v⟩ := entry
      have hkey := List.find?_some hfound
      rw [beq_iff_eq] at hkey
      obtain rfl : k = key := hkey
      have hmem' := List.mem_reverse.1 (List.mem_of_find?_eq_some hfound)
      exact ⟨_, rfl, h k v value hmem' hmem⟩

theorem mem_entries_iff {α : Type} (m : KeyMap α) (entry : Nat × α) :
    entry ∈ m.entries ↔ m.find? entry.1 = some entry.2 := by
  obtain ⟨entries, ascending⟩ := m
  simp only [find?]
  induction entries with
  | nil => simp
  | cons first rest ih =>
    obtain ⟨hfirst, hrest⟩ := List.pairwise_cons.1 ascending
    have ih := ih hrest
    by_cases hkey : first.1 = entry.1
    · have hnot : entry ∉ rest := fun he => by
        have := hfirst entry he
        omega
      simp only [List.mem_cons, hnot, or_false, List.find?_cons, hkey, beq_self_eq_true,
        Option.map_some, Option.some.injEq]
      constructor
      · rintro rfl; rfl
      · exact fun h => Prod.ext hkey.symm h.symm
    · have hne : entry ≠ first := fun h => hkey (h ▸ rfl)
      simpa [hne, hkey] using ih

theorem mem_keys_iff {α : Type} (m : KeyMap α) (key : Nat) :
    key ∈ m.keys ↔ ∃ value, m.find? key = some value := by
  rw [keys, List.mem_map]
  constructor
  · rintro ⟨entry, hentry, rfl⟩
    exact ⟨entry.2, (m.mem_entries_iff entry).1 hentry⟩
  · rintro ⟨value, hfind⟩
    exact ⟨(key, value), (m.mem_entries_iff (key, value)).2 hfind, rfl⟩

theorem keys_eq_range {α : Type} {m : KeyMap α} {n : Nat}
    (h : ∀ key, (∃ value, m.find? key = some value) ↔ key < n) : m.keys = List.range n := by
  have hascending : m.keys.Pairwise (fun a b => a < b) := List.pairwise_map.2 m.ascending
  have hperm : m.keys.Perm (List.range n) := by
    rw [List.perm_ext_iff_of_nodup (hascending.imp Nat.ne_of_lt) List.nodup_range]
    intro key
    rw [mem_keys_iff, h, List.mem_range]
  exact hperm.eq_of_pairwise (fun a b _ _ hab hba => absurd hab (Nat.lt_asymm hba)) hascending
    List.pairwise_lt_range

theorem eq_of_find? {α : Type} {m n : KeyMap α} (h : ∀ key, m.find? key = n.find? key) : m = n := by
  have hentries : m.entries = n.entries :=
    eq_of_ascending_of_mem_iff m.ascending n.ascending fun entry => by
      rw [mem_entries_iff, mem_entries_iff, h]
  cases m
  cases n
  cases hentries
  rfl

theorem mem_of_mem_entries_ofList {α : Type} {entries : List (Nat × α)} {entry : Nat × α}
    (h : entry ∈ (ofList entries).entries) : entry ∈ entries := by
  rw [mem_entries_iff, find?_ofList, Option.map_eq_some_iff] at h
  obtain ⟨found, hfound, hvalue⟩ := h
  have hkey := List.find?_some hfound
  rw [beq_iff_eq] at hkey
  have hsame : found = entry := Prod.ext hkey hvalue
  rw [← hsame]
  exact List.mem_reverse.1 (List.mem_of_find?_eq_some hfound)

theorem exists_find?_ofList_iff {α : Type} (entries : List (Nat × α)) (key : Nat) :
    (∃ value, (ofList entries).find? key = some value) ↔ ∃ value, (key, value) ∈ entries := by
  rw [← Option.isSome_iff_exists, find?_ofList, Option.isSome_map, List.find?_isSome]
  constructor
  · rintro ⟨entry, hentry, hkey⟩
    rw [beq_iff_eq] at hkey
    exact ⟨entry.2, hkey ▸ List.mem_reverse.1 hentry⟩
  · rintro ⟨value, hmem⟩
    exact ⟨(key, value), List.mem_reverse.2 hmem, beq_self_eq_true key⟩

theorem ofList_entries {α : Type} (m : KeyMap α) : ofList m.entries = m := by
  have hsame : ∀ key value value', (key, value) ∈ m.entries → (key, value') ∈ m.entries →
      value = value' := by
    intro key value value' h h'
    rw [mem_entries_iff] at h h'
    exact Option.some.inj (h.symm.trans h')
  apply eq_of_find?
  intro key
  apply Option.ext
  intro value
  rw [find?_ofList_eq_some_iff hsame, mem_entries_iff]

/-- One entry more is one insertion more. -/
theorem ofList_concat {α : Type} (entries : List (Nat × α)) (entry : Nat × α) :
    ofList (entries ++ [entry]) = (ofList entries).insert entry.1 entry.2 := by
  refine eq_of_find? fun key => ?_
  rw [find?_insert, find?_ofList, find?_ofList, List.reverse_append]
  by_cases h : entry.1 = key <;> simp [h]

end KeyMap

end PinNumbering
