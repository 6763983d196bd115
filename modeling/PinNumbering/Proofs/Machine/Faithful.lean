import PinNumbering.Machine
import PinNumbering.Proofs.Chains
/-! # Runs that are faithful to the numbers

A run on a machine is faithful to a computation with natural numbers if it gives the same on either
machine, except that a machine that checks may stop because a result is too large. The exception
comes with a condition under which all results fit, and under which it does not occur. A run that is
faithful neither takes a difference below zero nor divides by zero, and as long as a machine that
checks goes through, one that wraps does the same.

* `Run.Faithful`: the relation; `Faithful.bind` and `Faithful.after`: two steps.
* `Faithful.add`, `Faithful.mul`, `Faithful.sub`, `Faithful.quotient`, `Faithful.remainder`: one
  operation.
* `Faithful.foldlM`, `Faithful.mapM`, `Faithful.forM`, `Faithful.findM?`: a step for every entry of
  a list.
* `Faithful.eq_of_fits`, `Faithful.eq_of_ok`, `Faithful.eq_overflow_of_stop`: what follows about
  runs.
-/
set_option autoImplicit false

namespace PinNumbering

namespace Run
variable {ε α β σ : Type}

/-- On either machine the run gives what the computation with natural numbers gives, or else a
machine that checks stops because a result is too large, which does not happen if `fits`. Runs about
which no such condition is known are faithful with `False`. -/
def Faithful (fits : Prop) (run : Machine → Run ε α) (exact : Except ε α) : Prop :=
  (∀ m, run m = of exact) ∨ ¬ fits ∧ run .checking = overflow

namespace Faithful
variable {fits : Prop} {run : Machine → Run ε α} {exact : Except ε α}

/-! ## Single steps -/

theorem of (x : Except ε α) : Faithful fits (fun _ => Run.of x) x := .inl fun _ => rfl

theorem ok (a : α) : Faithful fits (fun _ => .ok a : Machine → Run ε α) (.ok a) := of (.ok a)

theorem pure (a : α) : Faithful fits (fun _ => Pure.pure a : Machine → Run ε α) (.ok a) :=
  of (.ok a)

theorem error (cause : ε) :
    Faithful fits (fun _ => .error (.failure cause) : Machine → Run ε α) (.error cause) :=
  of (.error cause)

theorem number {n : Nat} (hfits : fits → n < wordLimit) :
    Faithful fits (fun m => m.number n : Machine → Run ε Nat) (.ok n) := by
  by_cases h : n < wordLimit
  · exact .inl fun m => m.number_eq h
  · exact .inr ⟨fun hf => h (hfits hf), Machine.checking_number_of_le (Nat.not_lt.1 h)⟩

theorem add {a b : Nat} (hfits : fits → a + b < wordLimit) :
    Faithful fits (fun m => m.add a b : Machine → Run ε Nat) (.ok (a + b)) :=
  number hfits

theorem mul {a b : Nat} (hfits : fits → a * b < wordLimit) :
    Faithful fits (fun m => m.mul a b : Machine → Run ε Nat) (.ok (a * b)) :=
  number hfits

theorem sub {a b : Nat} (h : b ≤ a) :
    Faithful fits (fun m => m.sub a b : Machine → Run ε Nat) (.ok (a - b)) :=
  .inl fun m => m.sub_eq h

theorem quotient {a b : Nat} (h : 0 < b) :
    Faithful fits (fun _ => Machine.quotient a b : Machine → Run ε Nat) (.ok (a / b)) :=
  .inl fun _ => Machine.quotient_eq h

theorem remainder {a b : Nat} (h : 0 < b) :
    Faithful fits (fun _ => Machine.remainder a b : Machine → Run ε Nat) (.ok (a % b)) :=
  .inl fun _ => Machine.remainder_eq h

/-! ## Chains -/

theorem bind {next : Machine → α → Run ε β} {f : α → Except ε β} (hrun : Faithful fits run exact)
    (hnext : ∀ a, exact = .ok a → Faithful fits (fun m => next m a) (f a)) :
    Faithful fits (fun m => run m >>= next m) (exact >>= f) := by
  rcases hrun with hrun | ⟨hfits, hstop⟩
  · cases exact with
    | error cause =>
      left
      intro m
      simp only [hrun]
      rfl
    | ok a =>
      rcases hnext a rfl with hnext | ⟨hfits, hstop⟩
      · left
        intro m
        simp only [hrun]
        exact hnext m
      · right
        refine ⟨hfits, ?_⟩
        simp only [hrun]
        exact hstop
  · right
    refine ⟨hfits, ?_⟩
    simp only [hstop]
    rfl

/-- A step that only computes a value leaves no trace in the computation with natural numbers. -/
theorem after {next : Machine → α → Run ε β} {a : α} {y : Except ε β}
    (hrun : Faithful fits run (.ok a)) (hnext : Faithful fits (fun m => next m a) y) :
    Faithful fits (fun m => run m >>= next m) y :=
  hrun.bind (f := fun _ => y) fun _ h => Except.ok.inj h ▸ hnext

theorem congr {exact' : Except ε α} (h : Faithful fits run exact) (heq : exact = exact') :
    Faithful fits run exact' := heq ▸ h

theorem ite {c : Prop} [Decidable c] {run' : Machine → Run ε α} {exact' : Except ε α}
    (hpos : c → Faithful fits run exact) (hneg : ¬ c → Faithful fits run' exact') :
    Faithful fits (fun m => if c then run m else run' m) (if c then exact else exact') := by
  by_cases h : c
  · simpa only [if_pos h] using hpos h
  · simpa only [if_neg h] using hneg h

/-! ## Lists -/

/-- A fold whose steps are faithful as long as something holds of what is left and of the state. -/
theorem foldlM {step : Machine → σ → α → Run ε σ} {f : σ → α → Except ε σ}
    (inv : List α → σ → Prop)
    (hstep : ∀ s x rest, inv (x :: rest) s → Faithful fits (fun m => step m s x) (f s x))
    (hkeep : ∀ s x rest s', inv (x :: rest) s → f s x = .ok s' → inv rest s') {xs : List α} {s : σ}
    (h : inv xs s) : Faithful fits (fun m => xs.foldlM (step m) s) (xs.foldlM f s) := by
  induction xs generalizing s with
  | nil => exact ok s
  | cons x rest ih =>
    simp only [List.foldlM_cons]
    exact (hstep s x rest h).bind fun s' hs' => ih (hkeep s x rest s' h hs')

theorem mapM {step : Machine → α → Run ε β} {f : α → Except ε β} {xs : List α}
    (hstep : ∀ x ∈ xs, Faithful fits (fun m => step m x) (f x)) :
    Faithful fits (fun m => xs.mapM (step m)) (xs.mapM f) := by
  induction xs with
  | nil => exact ok []
  | cons x rest ih =>
    simp only [List.mapM_cons]
    refine (hstep x List.mem_cons_self).bind fun y _ => ?_
    exact (ih fun z hz => hstep z (List.mem_cons_of_mem x hz)).bind fun ys _ => ok (y :: ys)

theorem forM {step : Machine → α → Run ε Unit} {f : α → Except ε Unit} {xs : List α}
    (hstep : ∀ x ∈ xs, Faithful fits (fun m => step m x) (f x)) :
    Faithful fits (fun m => xs.forM (step m)) (xs.forM f) := by
  induction xs with
  | nil => exact ok ()
  | cons x rest ih =>
    exact (hstep x List.mem_cons_self).bind fun _ _ =>
      ih fun z hz => hstep z (List.mem_cons_of_mem x hz)

theorem findM? {test : Machine → α → Run ε Bool} {p : α → Bool} {xs : List α}
    (htest : ∀ x ∈ xs, Faithful fits (fun m => test m x) (.ok (p x))) :
    Faithful fits (fun m => xs.findM? (test m)) (.ok (xs.find? p)) := by
  induction xs with
  | nil => exact ok none
  | cons x rest ih =>
    simp only [List.findM?, List.find?]
    refine (htest x List.mem_cons_self).after ?_
    cases p x with
    | true => exact ok (some x)
    | false => exact ih fun z hz => htest z (List.mem_cons_of_mem x hz)

/-! ## What follows -/

/-- Where all results fit, either machine gives what the computation with natural numbers gives. -/
theorem eq_of_fits (h : Faithful fits run exact) (hfits : fits) (m : Machine) :
    run m = Run.of exact := by
  rcases h with hrun | ⟨hno, -⟩
  · exact hrun m
  · exact absurd hfits hno

theorem eq_of_true (h : Faithful True run exact) (m : Machine) : run m = Run.of exact :=
  h.eq_of_fits trivial m

/-- A value of a machine that checks is the value of the computation with natural numbers, and one
that wraps arrives at it too. -/
theorem eq_of_ok (h : Faithful fits run exact) {a : α} (ha : run .checking = .ok a) :
    exact = .ok a ∧ ∀ m, run m = .ok a := by
  rcases h with hrun | ⟨-, hstop⟩
  · have hexact : exact = .ok a := of_eq_ok_iff.1 ((hrun .checking).symm.trans ha)
    exact ⟨hexact, fun m => by rw [hrun, hexact]; rfl⟩
  · rw [hstop] at ha
    cases ha

/-- A failure on a machine that checks is that of the computation with natural numbers. -/
theorem eq_of_failure (h : Faithful fits run exact) {cause : ε}
    (hcause : run .checking = .error (.failure cause)) : exact = .error cause := by
  rcases h with hrun | ⟨-, hstop⟩
  · exact of_eq_failure_iff.1 ((hrun .checking).symm.trans hcause)
  · rw [hstop] at hcause
    cases hcause

/-- A machine that checks stops only where not all results fit. -/
theorem not_fits_of_stop (h : Faithful fits run exact) {reason : Stop}
    (hstop : run .checking = .error (.stop reason)) : ¬ fits := by
  rcases h with hrun | ⟨hfits, -⟩
  · rw [hrun] at hstop
    exact absurd hstop of_ne_stop
  · exact hfits

/-- A machine that checks stops for no other reason. -/
theorem eq_overflow_of_stop (h : Faithful fits run exact) {reason : Stop}
    (hstop : run .checking = .error (.stop reason)) : reason = .overflow := by
  rcases h with hrun | ⟨-, hover⟩
  · rw [hrun] at hstop
    exact absurd hstop of_ne_stop
  · rw [hover] at hstop
    cases hstop
    rfl

end Faithful

end Run

end PinNumbering
