/-! # Runs laid end to end

Numbers are given out in runs: each run starts where the one before it ends.

* `totalOf`: where the runs end, counted from the start of the first.
* `startsFrom`: where each run starts.
-/
set_option autoImplicit false

namespace PinNumbering

/-- The length of runs of the given lengths together. -/
def totalOf : List Nat → Nat
  | [] => 0
  | n :: rest => n + totalOf rest

/-- Where runs of the given lengths start when the first starts at `base`. -/
def startsFrom (base : Nat) : List Nat → List Nat
  | [] => []
  | n :: rest => base :: startsFrom (base + n) rest

@[simp] theorem totalOf_nil : totalOf [] = 0 := rfl

@[simp] theorem totalOf_cons (n : Nat) (rest : List Nat) :
    totalOf (n :: rest) = n + totalOf rest := rfl

@[simp] theorem totalOf_append (ns ms : List Nat) :
    totalOf (ns ++ ms) = totalOf ns + totalOf ms := by
  induction ns with
  | nil => simp
  | cons n rest ih => simp [ih, Nat.add_assoc]

theorem startsFrom_append (base : Nat) (ns ms : List Nat) :
    startsFrom base (ns ++ ms) = startsFrom base ns ++ startsFrom (base + totalOf ns) ms := by
  induction ns generalizing base with
  | nil => simp [startsFrom]
  | cons n rest ih => simp [startsFrom, ih, Nat.add_assoc]

end PinNumbering
