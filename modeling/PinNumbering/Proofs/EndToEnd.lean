import PinNumbering.EndToEnd
/-! # Searching runs laid end to end

Runs that follow each other without a gap share no number, and together they hold every number from
the start of the first to the end of the last. A search for the run of a number therefore finds the
only one that there is.

* `start_le_of_lt`, `run_unique`, `run_lt_run_iff`: the runs of a list of lengths do not meet, and
  their numbers ascend.
* `getElem?_flatMap_iff`: the entries of lists that are joined end to end;
  `getElem?_flatMap_range_iff`, of lists of one length.
* `EndToEnd`: entries whose runs follow each other; `pairwise`, `exists_mem_iff`, `flatMap_range'`,
  `disjoint`, `start_eq`.
* `find?_eq_some_iff_of_pairwise`, `find?_eq_some_iff_isOnly`: searches for a property that no two
  entries share.
-/
set_option autoImplicit false

namespace PinNumbering

/-! ## Searches for what no two entries share -/

theorem find?_eq_some_iff_of_pairwise {α : Type} {p : α → Bool} {a : α} :
    ∀ {xs : List α}, xs.Pairwise (fun x y => ¬ (p x = true ∧ p y = true)) →
      (xs.find? p = some a ↔ a ∈ xs ∧ p a = true)
  | [], _ => by simp
  | x :: rest, h => by
      obtain ⟨hx, hrest⟩ := List.pairwise_cons.1 h
      by_cases hp : p x = true
      · rw [List.find?_cons_of_pos hp, Option.some.injEq]
        constructor
        · rintro rfl
          exact ⟨List.mem_cons_self, hp⟩
        · rintro ⟨hmem, ha⟩
          rcases List.mem_cons.1 hmem with rfl | hmem
          · rfl
          · exact absurd ⟨hp, ha⟩ (hx a hmem)
      · rw [List.find?_cons_of_neg hp, find?_eq_some_iff_of_pairwise hrest, List.mem_cons]
        constructor
        · rintro ⟨hmem, ha⟩
          exact ⟨Or.inr hmem, ha⟩
        · rintro ⟨rfl | hmem, ha⟩
          · exact absurd ha hp
          · exact ⟨hmem, ha⟩

/-- The entry stands at a position, and it is the only position of an entry with the property. -/
def IsOnly {α : Type} (p : α → Prop) (xs : List α) (a : α) : Prop :=
  ∃ i, xs[i]? = some a ∧ p a ∧ ∀ (j : Nat) (b : α), xs[j]? = some b → p b → j = i

theorem IsOnly.congr {α : Type} {p q : α → Prop} {xs : List α} {a : α}
    (h : ∀ x ∈ xs, (p x ↔ q x)) : IsOnly p xs a ↔ IsOnly q xs a := by
  refine exists_congr fun i => and_congr_right fun hi => ?_
  refine and_congr (h a (List.mem_of_getElem? hi)) ?_
  refine forall_congr' fun j => forall_congr' fun b => forall_congr' fun hb => ?_
  rw [h b (List.mem_of_getElem? hb)]

theorem position_eq_of_pairwise {α : Type} {p : α → Prop} {xs : List α}
    (h : xs.Pairwise fun x y => ¬ (p x ∧ p y)) {i j : Nat} {x y : α} (hi : xs[i]? = some x)
    (hj : xs[j]? = some y) (hx : p x) (hy : p y) : i = j := by
  obtain ⟨hilt, rfl⟩ := List.getElem?_eq_some_iff.1 hi
  obtain ⟨hjlt, rfl⟩ := List.getElem?_eq_some_iff.1 hj
  rw [List.pairwise_iff_getElem] at h
  rcases Nat.lt_trichotomy i j with hlt | heq | hgt
  · exact absurd ⟨hx, hy⟩ (h i j hilt hjlt hlt)
  · exact heq
  · exact absurd ⟨hy, hx⟩ (h j i hjlt hilt hgt)

theorem totalOf_take_succ {ns : List Nat} {i n : Nat} (h : ns[i]? = some n) :
    totalOf (ns.take (i + 1)) = totalOf (ns.take i) + n := by
  rw [List.take_add_one, h, totalOf_append]
  simp

theorem totalOf_take_le_of_le (ns : List Nat) {i j : Nat} (hij : i ≤ j) :
    totalOf (ns.take i) ≤ totalOf (ns.take j) := by
  obtain ⟨k, rfl⟩ := Nat.exists_eq_add_of_le hij
  rw [List.take_add, totalOf_append]
  omega

theorem start_le_of_lt {ns : List Nat} {i j n : Nat} (h : ns[i]? = some n) (hij : i < j) :
    totalOf (ns.take i) + n ≤ totalOf (ns.take j) := by
  rw [← totalOf_take_succ h]
  exact totalOf_take_le_of_le ns hij

theorem run_le_totalOf {ns : List Nat} {i n : Nat} (h : ns[i]? = some n) :
    totalOf (ns.take i) + n ≤ totalOf ns := by
  obtain ⟨hi, -⟩ := List.getElem?_eq_some_iff.1 h
  have := start_le_of_lt h hi
  rwa [List.take_length] at this

theorem run_unique {ns : List Nat} {i j n m a b : Nat} (hi : ns[i]? = some n)
    (hj : ns[j]? = some m) (ha : a < n) (hb : b < m)
    (h : totalOf (ns.take i) + a = totalOf (ns.take j) + b) : i = j := by
  rcases Nat.lt_trichotomy i j with hlt | heq | hgt
  · have := start_le_of_lt hi hlt
    omega
  · exact heq
  · have := start_le_of_lt hj hgt
    omega

theorem run_lt_run_iff {ns : List Nat} {i j n m a b : Nat} (hi : ns[i]? = some n)
    (hj : ns[j]? = some m) (ha : a < n) (hb : b < m) :
    totalOf (ns.take i) + a < totalOf (ns.take j) + b ↔ i < j ∨ i = j ∧ a < b := by
  rcases Nat.lt_trichotomy i j with hlt | rfl | hgt
  · have := start_le_of_lt hi hlt
    omega
  · omega
  · have := start_le_of_lt hj hgt
    omega

theorem getElem?_startsFrom {base i n : Nat} {ns : List Nat} (hi : ns[i]? = some n) :
    (startsFrom base ns)[i]? = some (base + totalOf (ns.take i)) := by
  induction ns generalizing base i with
  | nil => simp at hi
  | cons m rest ih =>
    rw [startsFrom]
    cases i with
    | zero => simp
    | succ i =>
      rw [List.getElem?_cons_succ] at hi ⊢
      rw [ih hi, List.take_succ_cons, totalOf_cons, Nat.add_assoc]

theorem exists_run_of_lt {ns : List Nat} {p : Nat} (h : p < totalOf ns) :
    ∃ i n a, ns[i]? = some n ∧ a < n ∧ p = totalOf (ns.take i) + a := by
  induction ns generalizing p with
  | nil => simp at h
  | cons n rest ih =>
    by_cases hp : p < n
    · exact ⟨0, n, p, rfl, hp, by simp⟩
    · rw [totalOf_cons] at h
      obtain ⟨i, m, a, hi, ha, hpa⟩ := ih (p := p - n) (by omega)
      refine ⟨i + 1, m, a, hi, ha, ?_⟩
      rw [List.take_succ_cons, totalOf_cons]
      omega

/-- Lists that are joined end to end: an entry of the whole is one of a part, counted on from where
the part starts. -/
theorem getElem?_flatMap_iff {α β : Type} {f : α → List β} {xs : List α} {n : Nat} {b : β} :
    (xs.flatMap f)[n]? = some b ↔ ∃ i a k, xs[i]? = some a ∧ (f a)[k]? = some b ∧
      n = totalOf ((xs.take i).map fun x => (f x).length) + k := by
  induction xs generalizing n with
  | nil => simp
  | cons x rest ih =>
    rw [List.flatMap_cons]
    constructor
    · intro h
      by_cases hn : n < (f x).length
      · rw [List.getElem?_append_left hn] at h
        exact ⟨0, x, n, rfl, h, by simp⟩
      · rw [List.getElem?_append_right (by omega), ih] at h
        obtain ⟨i, a, k, hi, hk, hsum⟩ := h
        refine ⟨i + 1, a, k, hi, hk, ?_⟩
        rw [List.take_succ_cons, List.map_cons, totalOf_cons]
        omega
    · rintro ⟨i, a, k, hi, hk, rfl⟩
      cases i with
      | zero =>
        obtain rfl : x = a := Option.some.inj hi
        obtain ⟨hlt, -⟩ := List.getElem?_eq_some_iff.1 hk
        rw [List.take_zero, List.map_nil, totalOf_nil, Nat.zero_add,
          List.getElem?_append_left hlt]
        exact hk
      | succ i =>
        rw [List.take_succ_cons, List.map_cons, totalOf_cons,
          List.getElem?_append_right (by omega), ih]
        exact ⟨i, a, k, hi, hk, by omega⟩

section Width
variable {β : Type} {f : Nat → List β} {width : Nat} (hwidth : ∀ i, (f i).length = width)
include hwidth

theorem length_flatMap_range (n : Nat) : ((List.range n).flatMap f).length = n * width := by
  induction n with
  | zero => simp
  | succ n ih =>
    rw [List.range_succ, List.flatMap_append, List.length_append, ih, List.flatMap_singleton,
      hwidth, Nat.succ_mul]

theorem getElem?_flatMap_range_iff {n m : Nat} {b : β} :
    ((List.range n).flatMap f)[m]? = some b ↔
      ∃ i k, i < n ∧ (f i)[k]? = some b ∧ m = i * width + k := by
  have htotal : ∀ i, totalOf ((List.range i).map fun x => (f x).length) = i * width := by
    intro i
    induction i with
    | zero => simp
    | succ i ih =>
      rw [List.range_succ, List.map_append, totalOf_append, ih, List.map_singleton, totalOf_cons,
        totalOf_nil, hwidth, Nat.add_zero, Nat.succ_mul]
  have hget : ∀ i a, (List.range n)[i]? = some a ↔ i < n ∧ a = i := by
    intro i a
    rw [List.getElem?_eq_some_iff]
    simp [eq_comm]
  simp only [getElem?_flatMap_iff, hget, List.take_range]
  constructor
  · rintro ⟨i, _, k, ⟨hi, rfl⟩, hk, rfl⟩
    rw [Nat.min_eq_left (Nat.le_of_lt hi), htotal]
    exact ⟨_, k, hi, hk, rfl⟩
  · rintro ⟨i, k, hi, hk, rfl⟩
    refine ⟨i, i, k, ⟨hi, rfl⟩, hk, ?_⟩
    rw [Nat.min_eq_left (Nat.le_of_lt hi), htotal]

end Width

/-! ## Entries with runs -/

/-- The runs of the entries follow each other without a gap, the first from `base` on. -/
def EndToEnd {α : Type} (start length : α → Nat) (base : Nat) (xs : List α) : Prop :=
  xs.map start = startsFrom base (xs.map length)

namespace EndToEnd
variable {α : Type} {start length : α → Nat} {base : Nat} {xs : List α}

theorem cons_iff {x : α} :
    EndToEnd start length base (x :: xs) ↔
      start x = base ∧ EndToEnd start length (base + length x) xs := by
  rw [EndToEnd, List.map_cons, List.map_cons, startsFrom, List.cons.injEq, EndToEnd]

theorem base_le_start (h : EndToEnd start length base xs) {x : α} (hx : x ∈ xs) :
    base ≤ start x := by
  induction xs generalizing base with
  | nil => simp at hx
  | cons y rest ih =>
    obtain ⟨hy, hrest⟩ := cons_iff.1 h
    rcases List.mem_cons.1 hx with rfl | hx
    · omega
    · have := ih hrest hx
      omega

theorem start_eq (h : EndToEnd start length base xs) {i : Nat} {x : α} (hx : xs[i]? = some x) :
    start x = base + totalOf ((xs.map length).take i) := by
  have hlength : (xs.map length)[i]? = some (length x) := by rw [List.getElem?_map, hx]; rfl
  have hstart : (xs.map start)[i]? = some (start x) := by rw [List.getElem?_map, hx]; rfl
  rw [h, getElem?_startsFrom hlength, Option.some.injEq] at hstart
  exact hstart.symm

theorem pairwise (h : EndToEnd start length base xs) :
    xs.Pairwise (fun x y => start x + length x ≤ start y) := by
  induction xs generalizing base with
  | nil => exact List.Pairwise.nil
  | cons x rest ih =>
    obtain ⟨hx, hrest⟩ := cons_iff.1 h
    refine List.pairwise_cons.2 ⟨fun y hy => ?_, ih hrest⟩
    have := base_le_start hrest hy
    omega

/-- Some run holds a number exactly when it lies between the two ends. -/
theorem exists_mem_iff (h : EndToEnd start length base xs) (n : Nat) :
    (∃ x ∈ xs, start x ≤ n ∧ n < start x + length x) ↔
      base ≤ n ∧ n < base + totalOf (xs.map length) := by
  induction xs generalizing base with
  | nil =>
    simp only [List.not_mem_nil, false_and, exists_false, List.map_nil, totalOf_nil, false_iff]
    omega
  | cons x rest ih =>
    obtain ⟨hx, hrest⟩ := cons_iff.1 h
    have ih := ih hrest
    rw [List.map_cons, totalOf_cons]
    constructor
    · rintro ⟨y, hy, hlo, hhi⟩
      rcases List.mem_cons.1 hy with rfl | hy
      · omega
      · have := ih.1 ⟨y, hy, hlo, hhi⟩
        omega
    · rintro ⟨hlo, hhi⟩
      by_cases hn : n < base + length x
      · exact ⟨x, List.mem_cons_self, by omega, by omega⟩
      · obtain ⟨y, hy, hrun⟩ := ih.2 ⟨by omega, by omega⟩
        exact ⟨y, List.mem_cons_of_mem _ hy, hrun⟩

theorem lt_end (h : EndToEnd start length base xs) {x : α} (hx : x ∈ xs) {k : Nat}
    (hk : k < length x) : start x + k < base + totalOf (xs.map length) :=
  ((h.exists_mem_iff (start x + k)).1 ⟨x, hx, by omega, by omega⟩).2

theorem run_le_end (h : EndToEnd start length base xs) {x : α} (hx : x ∈ xs) :
    start x + length x ≤ base + totalOf (xs.map length) := by
  obtain ⟨i, hi⟩ := List.getElem?_of_mem hx
  have hlength : (xs.map length)[i]? = some (length x) := by rw [List.getElem?_map, hi]; rfl
  have hrun := run_le_totalOf hlength
  rw [h.start_eq hi]
  omega

theorem shift (h : EndToEnd start length base xs) (k : Nat) :
    EndToEnd (fun x => k + start x) length (k + base) xs := by
  induction xs generalizing base with
  | nil => rfl
  | cons x rest ih =>
    obtain ⟨hx, hrest⟩ := cons_iff.1 h
    refine cons_iff.2 ⟨by omega, ?_⟩
    rw [Nat.add_assoc]
    exact ih hrest

/-- The runs together list the numbers between the two ends. -/
theorem flatMap_range' (h : EndToEnd start length base xs) :
    (xs.flatMap fun x => List.range' (start x) (length x)) =
      List.range' base (totalOf (xs.map length)) := by
  induction xs generalizing base with
  | nil => rfl
  | cons x rest ih =>
    obtain ⟨hx, hrest⟩ := cons_iff.1 h
    rw [List.flatMap_cons, ih hrest, hx, List.range'_append_1, List.map_cons, totalOf_cons]

theorem disjoint (h : EndToEnd start length base xs) (n : Nat) :
    xs.Pairwise (fun x y => ¬ ((start x ≤ n ∧ n < start x + length x) ∧
      (start y ≤ n ∧ n < start y + length y))) := by
  refine h.pairwise.imp ?_
  intro x y hxy
  omega

end EndToEnd

end PinNumbering
