import PinNumbering.Lookup
/-! # Chains of steps that may fail

A chain succeeds when all its steps do, and otherwise fails with the first failure.

* `bind_eq_ok_iff`, `bind_eq_error_iff`: two steps.
* `forM_eq_ok_iff`, `forM_eq_error_iff`, `forM_zipIdx_eq_error_iff`: a check of every entry of a
  list.
* `mapM_eq_ok_iff`, `exists_mapM_eq_ok`, `mapM_eq_error_iff`: a look-up for every entry of a list.
* `FailsOnly`: what is true of every failure of a chain, step by step.
-/
set_option autoImplicit false

namespace PinNumbering

section Chains
variable {ε α β : Type}

theorem bind_eq_ok_iff {x : Except ε α} {f : α → Except ε β} {b : β} :
    x >>= f = .ok b ↔ ∃ a, x = .ok a ∧ f a = .ok b := by
  cases x with
  | error e => simp [bind, Except.bind]
  | ok a => simp [bind, Except.bind]

theorem bind_eq_error_iff {x : Except ε α} {f : α → Except ε β} {e : ε} :
    x >>= f = .error e ↔ x = .error e ∨ ∃ a, x = .ok a ∧ f a = .error e := by
  cases x with
  | error e' => simp [bind, Except.bind]
  | ok a => simp [bind, Except.bind]

theorem pure_eq_ok_iff {a b : α} : (pure a : Except ε α) = .ok b ↔ a = b := by
  simp [pure, Except.pure]

theorem exists_unit_ok_iff {x : Except ε Unit} {p : Unit → Prop} :
    (∃ u, x = .ok u ∧ p u) ↔ x = .ok () ∧ p () := by
  constructor
  · rintro ⟨⟨⟩, hx, hp⟩
    exact ⟨hx, hp⟩
  · rintro ⟨hx, hp⟩
    exact ⟨(), hx, hp⟩

theorem unit_bind_eq_error_iff {x : Except ε Unit} {f : Unit → Except ε β} {e : ε} :
    x >>= f = .error e ↔ x = .error e ∨ x = .ok () ∧ f () = .error e := by
  rw [bind_eq_error_iff, exists_unit_ok_iff]

theorem forM_eq_ok_iff {xs : List α} {f : α → Except ε Unit} :
    xs.forM f = .ok () ↔ ∀ x ∈ xs, f x = .ok () := by
  induction xs with
  | nil => simp [pure, Except.pure]
  | cons x rest ih =>
    have hcons : (x :: rest).forM f = f x >>= fun _ => rest.forM f := rfl
    rw [hcons, bind_eq_ok_iff, exists_unit_ok_iff, ih, List.forall_mem_cons]

/-- The failure is that of the first entry that fails. -/
theorem forM_eq_error_iff {xs : List α} {f : α → Except ε Unit} {e : ε} :
    xs.forM f = .error e ↔
      ∃ (i : Nat) (x : α), xs[i]? = some x ∧ f x = .error e ∧
        ∀ (j : Nat) (y : α), j < i → xs[j]? = some y → f y = .ok () := by
  induction xs with
  | nil => simp [pure, Except.pure]
  | cons x rest ih =>
    have hcons : (x :: rest).forM f = f x >>= fun _ => rest.forM f := rfl
    rw [hcons, unit_bind_eq_error_iff, ih]
    constructor
    · rintro (hx | ⟨hx, i, z, hi, hz, hbefore⟩)
      · exact ⟨0, x, rfl, hx, fun j y hj => absurd hj (Nat.not_lt_zero j)⟩
      · refine ⟨i + 1, z, hi, hz, ?_⟩
        intro j y hj hy
        cases j with
        | zero =>
          obtain rfl : x = y := Option.some.inj hy
          exact hx
        | succ j => exact hbefore j y (Nat.lt_of_succ_lt_succ hj) hy
    · rintro ⟨i, z, hi, hz, hbefore⟩
      cases i with
      | zero =>
        obtain rfl : x = z := Option.some.inj hi
        exact Or.inl hz
      | succ i =>
        have hx : f x = .ok () := hbefore 0 x (Nat.succ_pos i) rfl
        have hrest : ∀ (j : Nat) (y : α), j < i → rest[j]? = some y → f y = .ok () :=
          fun j y hj hy => hbefore (j + 1) y (Nat.succ_lt_succ hj) hy
        exact Or.inr ⟨hx, i, z, hi, hz, hrest⟩

theorem forM_zipIdx_eq_error_iff {xs : List α} {f : α × Nat → Except ε Unit} {e : ε} :
    xs.zipIdx.forM f = .error e ↔
      ∃ (i : Nat) (x : α), xs[i]? = some x ∧ f (x, i) = .error e ∧
        ∀ (j : Nat) (y : α), j < i → xs[j]? = some y → f (y, j) = .ok () := by
  have hget : ∀ (i : Nat) (x : α × Nat), xs.zipIdx[i]? = some x ↔ xs[i]? = some x.1 ∧ x.2 = i := by
    rintro i ⟨x, j⟩
    rw [List.getElem?_zipIdx, Option.map_eq_some_iff]
    constructor
    · rintro ⟨y, hy, hpair⟩
      cases hpair
      exact ⟨hy, Nat.zero_add i⟩
    · rintro ⟨hx, rfl⟩
      exact ⟨x, hx, by rw [Nat.zero_add]⟩
  rw [forM_eq_error_iff]
  constructor
  · rintro ⟨i, ⟨x, j⟩, hx, he, hbefore⟩
    obtain ⟨hi, rfl⟩ := (hget i (x, j)).1 hx
    refine ⟨j, x, hi, he, ?_⟩
    intro k y hk hy
    exact hbefore k (y, k) hk ((hget k (y, k)).2 ⟨hy, rfl⟩)
  · rintro ⟨i, x, hi, he, hbefore⟩
    refine ⟨i, (x, i), (hget i (x, i)).2 ⟨hi, rfl⟩, he, ?_⟩
    rintro k ⟨y, j⟩ hk hy
    obtain ⟨hy, rfl⟩ := (hget k (y, j)).1 hy
    exact hbefore j y hk hy

/-- If each step that succeeds gives the value of `g`, so does the chain. -/
theorem mapM_eq_ok_iff {f : α → Except ε β} (g : α → β) (hg : ∀ x y, f x = .ok y → y = g x)
    {xs : List α} {ys : List β} :
    xs.mapM f = .ok ys ↔ (∀ x ∈ xs, f x = .ok (g x)) ∧ ys = xs.map g := by
  induction xs generalizing ys with
  | nil =>
    rw [List.mapM_nil, pure_eq_ok_iff, List.map_nil, eq_comm]
    simp
  | cons x rest ih =>
    rw [List.mapM_cons, List.forall_mem_cons, List.map_cons]
    simp only [bind_eq_ok_iff, pure_eq_ok_iff, ih]
    constructor
    · rintro ⟨y, hy, zs, ⟨hrest, rfl⟩, rfl⟩
      obtain rfl := hg x y hy
      exact ⟨⟨hy, hrest⟩, rfl⟩
    · rintro ⟨⟨hx, hrest⟩, rfl⟩
      exact ⟨g x, hx, rest.map g, ⟨hrest, rfl⟩, rfl⟩

theorem exists_mapM_eq_ok {f : α → Except ε β} {xs : List α} (h : ∀ x ∈ xs, ∃ y, f x = .ok y) :
    ∃ ys, xs.mapM f = .ok ys := by
  induction xs with
  | nil => exact ⟨[], rfl⟩
  | cons x rest ih =>
    obtain ⟨y, hy⟩ := h x List.mem_cons_self
    obtain ⟨ys, hys⟩ := ih fun z hz => h z (List.mem_cons_of_mem x hz)
    exact ⟨y :: ys, by rw [List.mapM_cons, hy, hys]; rfl⟩

theorem mem_iff_of_mapM_eq_ok {f : α → Except ε β} {xs : List α} {ys : List β}
    (h : xs.mapM f = .ok ys) {y : β} : y ∈ ys ↔ ∃ x ∈ xs, f x = .ok y := by
  induction xs generalizing ys with
  | nil =>
    cases h
    simp
  | cons x rest ih =>
    rw [List.mapM_cons] at h
    simp only [bind_eq_ok_iff, pure_eq_ok_iff] at h
    obtain ⟨z, hz, zs, hzs, rfl⟩ := h
    simp only [List.mem_cons, exists_eq_or_imp, ih hzs, hz, Except.ok.injEq]
    rw [eq_comm]

/-- The failure is that of the first entry that fails. -/
theorem mapM_eq_error_iff {f : α → Except ε β} {xs : List α} {e : ε} :
    xs.mapM f = .error e ↔
      ∃ before x after, xs = before ++ x :: after ∧ (∀ y ∈ before, ∃ b, f y = .ok b) ∧
        f x = .error e := by
  induction xs with
  | nil => simp [pure, Except.pure]
  | cons x rest ih =>
    rw [List.mapM_cons, bind_eq_error_iff]
    have htail : ∀ a, (rest.mapM f >>= fun bs => pure (a :: bs) : Except ε (List β)) = .error e ↔
        rest.mapM f = .error e := by
      intro a
      rw [bind_eq_error_iff]
      simp [pure, Except.pure]
    simp only [htail, ih]
    constructor
    · rintro (hx | ⟨a, ha, before, z, after, rfl, hbefore, hz⟩)
      · exact ⟨[], x, rest, rfl, by simp, hx⟩
      · refine ⟨x :: before, z, after, rfl, ?_, hz⟩
        rw [List.forall_mem_cons]
        exact ⟨⟨a, ha⟩, hbefore⟩
    · rintro ⟨before, z, after, hsplit, hbefore, hz⟩
      cases before with
      | nil =>
        obtain ⟨rfl, rfl⟩ := List.cons.inj hsplit
        exact Or.inl hz
      | cons y before =>
        obtain ⟨rfl, rfl⟩ := List.cons.inj hsplit
        rw [List.forall_mem_cons] at hbefore
        obtain ⟨⟨a, ha⟩, hbefore⟩ := hbefore
        exact Or.inr ⟨a, ha, before, z, after, rfl, hbefore, hz⟩

/-! ## Folds -/

/-- What every step keeps, the fold keeps. -/
theorem of_foldlM_eq_ok {σ : Type} {f : σ → α → Except ε σ} {p : σ → Prop}
    (hstep : ∀ s x s', p s → f s x = .ok s' → p s') {xs : List α} {s s' : σ} (hs : p s)
    (h : xs.foldlM f s = .ok s') : p s' := by
  induction xs generalizing s with
  | nil =>
    cases h
    exact hs
  | cons x rest ih =>
    rw [List.foldlM_cons, bind_eq_ok_iff] at h
    obtain ⟨next, hnext, h⟩ := h
    exact ih (hstep s x next hs hnext) h

/-! ## What is true of every failure -/

/-- Every failure has the property. -/
def FailsOnly (p : ε → Prop) (x : Except ε α) : Prop := ∀ e, x = .error e → p e

variable {p : ε → Prop}

@[simp] theorem failsOnly_ok (a : α) : FailsOnly p (.ok a : Except ε α) := by
  intro e h
  cases h

@[simp] theorem failsOnly_pure (a : α) : FailsOnly p (pure a : Except ε α) := failsOnly_ok a

@[simp] theorem failsOnly_error_iff {e : ε} : FailsOnly p (.error e : Except ε α) ↔ p e := by
  simp [FailsOnly]

@[simp] theorem failsOnly_throw_iff {e : ε} : FailsOnly p (throw e : Except ε α) ↔ p e :=
  failsOnly_error_iff

@[simp] theorem failsOnly_bind_iff {x : Except ε α} {f : α → Except ε β} :
    FailsOnly p (x >>= f) ↔ FailsOnly p x ∧ ∀ a, x = .ok a → FailsOnly p (f a) := by
  unfold FailsOnly
  simp only [bind_eq_error_iff]
  constructor
  · intro h
    exact ⟨fun e hx => h e (Or.inl hx), fun a hx e hf => h e (Or.inr ⟨a, hx, hf⟩)⟩
  · rintro ⟨hx, hf⟩ e (he | ⟨a, ha, he⟩)
    · exact hx e he
    · exact hf a ha e he

@[simp] theorem failsOnly_map_iff {x : Except ε α} {f : α → β} :
    FailsOnly p (x.map f) ↔ FailsOnly p x := by
  cases x <;> simp [Except.map]

@[simp] theorem failsOnly_functor_map_iff {x : Except ε α} {f : α → β} :
    FailsOnly p (f <$> x) ↔ FailsOnly p x := failsOnly_map_iff

@[simp] theorem failsOnly_ite_iff {c : Prop} [Decidable c] {x y : Except ε α} :
    FailsOnly p (if c then x else y) ↔ (c → FailsOnly p x) ∧ (¬ c → FailsOnly p y) := by
  by_cases h : c <;> simp [h]

theorem FailsOnly.mapM {f : α → Except ε β} {xs : List α} (h : ∀ x ∈ xs, FailsOnly p (f x)) :
    FailsOnly p (xs.mapM f) := by
  intro e he
  obtain ⟨before, x, after, rfl, -, hx⟩ := mapM_eq_error_iff.1 he
  exact h x (List.mem_append_right before List.mem_cons_self) e hx

theorem FailsOnly.foldlM {σ : Type} {f : σ → α → Except ε σ} {xs : List α}
    (h : ∀ s, ∀ x ∈ xs, FailsOnly p (f s x)) (s : σ) : FailsOnly p (xs.foldlM f s) := by
  induction xs generalizing s with
  | nil => simp
  | cons x rest ih =>
    rw [List.foldlM_cons, failsOnly_bind_iff]
    refine ⟨h s x List.mem_cons_self, fun s' _ => ?_⟩
    exact ih (fun s z hz => h s z (List.mem_cons_of_mem x hz)) s'

end Chains

@[simp] theorem failsOnly_orFail_iff {α : Type} {p : LookupError → Prop} {value : Option α}
    {cause : LookupError} : FailsOnly p (orFail value cause) ↔ (value = none → p cause) := by
  cases value <;> simp

@[simp] theorem failsOnly_unless_iff {p : LookupError → Prop} {cause : LookupError}
    {condition : Prop} [Decidable condition] :
    FailsOnly p (cause.unless condition) ↔ (¬ condition → p cause) := by
  by_cases h : condition <;> simp [LookupError.unless, h]

end PinNumbering
