/-! # Arithmetic on machine words

The numberings count with natural numbers, and what they say holds without a limit. A machine holds
each number in a word of 64 bits. A result that does not fit stops a machine that checks for it, and
a machine that wraps goes on with the remainder. Division by zero stops either.

* `Machine`: the two kinds; `Stop`: why a machine stops.
* `Run`: the result of a computation on a machine, which can also fail for a cause of its own.
* `Machine.add`, `Machine.mul`, `Machine.sub`, `quotient`, `remainder`: the operations.

The modules below `PinNumbering.Machine` carry out the look-ups, the checks of tables and their
building with these operations, one for one.
-/
set_option autoImplicit false

namespace PinNumbering

/-- Identifiers are numbers of 32 bits. -/
def idLimit : Nat := 4294967296

/-- All other numbers have 64 bits. -/
def wordLimit : Nat := 18446744073709551616

/-! ## Machines -/

/-- What a machine does with a result that does not fit into a word. -/
inductive Machine where
  /-- It stops. -/
  | checking
  /-- It keeps the remainder. -/
  | wrapping
  deriving DecidableEq, Repr

/-- Why a machine stops. -/
inductive Stop where
  /-- A sum or a product is too large. -/
  | overflow
  /-- A difference is below zero. -/
  | underflow
  | divisionByZero
  deriving DecidableEq, Repr

/-- Why a run has no value. -/
inductive Halt (ε : Type) where
  /-- The computation fails for a cause of its own. -/
  | failure (cause : ε)
  /-- The machine stops. -/
  | stop (reason : Stop)
  deriving DecidableEq, Repr

/-- The result of a computation on a machine. -/
abbrev Run (ε α : Type) := Except (Halt ε) α

namespace Run
variable {ε α : Type}

/-- A computation without arithmetic, as it is on any machine. -/
def of : Except ε α → Run ε α
  | .ok a => .ok a
  | .error cause => .error (.failure cause)

/-- The run that stops for a result that is too large. -/
def overflow : Run ε α := .error (.stop .overflow)

@[simp] theorem of_ok (a : α) : of (.ok a : Except ε α) = .ok a := rfl

@[simp] theorem of_pure (a : α) : of (pure a : Except ε α) = .ok a := rfl

@[simp] theorem of_error (cause : ε) :
    of (.error cause : Except ε α) = .error (.failure cause) := rfl

@[simp] theorem of_eq_ok_iff {x : Except ε α} {a : α} : of x = .ok a ↔ x = .ok a := by
  cases x <;> simp

@[simp] theorem of_eq_failure_iff {x : Except ε α} {cause : ε} :
    of x = .error (.failure cause) ↔ x = .error cause := by
  cases x <;> simp

@[simp] theorem of_ne_stop {x : Except ε α} {reason : Stop} : of x ≠ .error (.stop reason) := by
  cases x <;> simp

end Run

/-! ## Operations -/

namespace Machine
variable {ε : Type} (m : Machine)

/-- A result as the machine keeps it. -/
def number (n : Nat) : Run ε Nat :=
  if n < wordLimit then .ok n
  else match m with
    | .checking => .error (.stop .overflow)
    | .wrapping => .ok (n % wordLimit)

/-- The sum. -/
def add (a b : Nat) : Run ε Nat := m.number (a + b)

/-- The product. -/
def mul (a b : Nat) : Run ε Nat := m.number (a * b)

/-- The difference. -/
def sub (a b : Nat) : Run ε Nat :=
  if b ≤ a then .ok (a - b)
  else match m with
    | .checking => .error (.stop .underflow)
    | .wrapping => .ok ((a + wordLimit - b) % wordLimit)

/-- The quotient. -/
def quotient (a b : Nat) : Run ε Nat :=
  if b = 0 then .error (.stop .divisionByZero) else .ok (a / b)

/-- The remainder. -/
def remainder (a b : Nat) : Run ε Nat :=
  if b = 0 then .error (.stop .divisionByZero) else .ok (a % b)

theorem number_eq {n : Nat} (h : n < wordLimit) : (m.number n : Run ε Nat) = .ok n := if_pos h

theorem checking_number_of_le {n : Nat} (h : wordLimit ≤ n) :
    (checking.number n : Run ε Nat) = Run.overflow := if_neg (Nat.not_lt.2 h)

theorem add_eq {a b : Nat} (h : a + b < wordLimit) : (m.add a b : Run ε Nat) = .ok (a + b) :=
  m.number_eq h

theorem sub_eq {a b : Nat} (h : b ≤ a) : (m.sub a b : Run ε Nat) = .ok (a - b) := if_pos h

theorem quotient_eq {a b : Nat} (h : 0 < b) : (quotient a b : Run ε Nat) = .ok (a / b) :=
  if_neg (Nat.pos_iff_ne_zero.1 h)

theorem remainder_eq {a b : Nat} (h : 0 < b) : (remainder a b : Run ε Nat) = .ok (a % b) :=
  if_neg (Nat.pos_iff_ne_zero.1 h)

/-- What a machine keeps is a word. -/
theorem number_lt {n k : Nat} (h : (m.number n : Run ε Nat) = .ok k) : k < wordLimit := by
  unfold number at h
  split at h
  next hlt =>
    cases h
    exact hlt
  next =>
    cases m with
    | checking => cases h
    | wrapping =>
      cases h
      exact Nat.mod_lt n (by decide)

/-- A machine that checks keeps just the results that fit. -/
theorem checking_number_eq_ok_iff {n k : Nat} :
    (checking.number n : Run ε Nat) = .ok k ↔ n < wordLimit ∧ k = n := by
  by_cases h : n < wordLimit <;> simp [number, h, eq_comm]

end Machine

end PinNumbering
