/-! # JSON values

The values that tables are read from and written to. Only natural numbers carry their value: no
table holds any other number, so `otherNumber` stands for all of those.

A record is written as an object of its members. It is read from an object that has all its members,
whatever else the object has, and also from a list of just the members in their order. An
enumeration writes a constant as its name and any other variant as an object of one member, and
reads a constant from such an object as well, if the payload is null.

* `nat?`, `bool?`, `text?`, `list?`, `members?`, `variant?`, `entries?`: readers of one layer.
* `record`, `keyed`: writers of one layer.
-/
set_option autoImplicit false

namespace PinNumbering

/-- A JSON value. -/
inductive Json where
  | null
  | bool (value : Bool)
  | number (value : Nat)
  /-- A number that is negative or has a fraction. -/
  | otherNumber
  | text (value : String)
  | list (items : List Json)
  | object (members : List (String × Json))
  deriving Repr, Inhabited

namespace Json

/-! ## Scalars -/

/-- A natural number below a limit. -/
def nat? (limit : Nat) : Json → Option Nat
  | number n => if n < limit then some n else none
  | _ => none

/-- A truth value. -/
def bool? : Json → Option Bool
  | bool b => some b
  | _ => none

/-- A text. -/
def text? : Json → Option String
  | text s => some s
  | _ => none

/-! ## Lists and records -/

/-- A list whose items can all be read. -/
def list? {α : Type} (item? : Json → Option α) : Json → Option (List α)
  | list items => items.mapM item?
  | _ => none

/-- A list of natural numbers below a limit. -/
def nats? (limit : Nat) : Json → Option (List Nat) := list? (nat? limit)

/-- A list of natural numbers. -/
def nats (ns : List Nat) : Json := list (ns.map number)

/-- The members of a record, in the order of their names. -/
def members? (names : List String) : Json → Option (List Json)
  | object members => names.mapM fun name => members.lookup name
  | list items => if items.length = names.length then some items else none
  | _ => none

/-- A record of named members. -/
def record (names : List String) (values : List Json) : Json := object (names.zip values)

/-! ## Enumerations -/

/-- A variant of an enumeration and its payload, which is null for a bare name. -/
def variant? : Json → Option (String × Json)
  | text name => some (name, null)
  | object [(name, payload)] => some (name, payload)
  | _ => none

/-! ## Maps from numbers -/

/-- A key that is the decimal text of a number below a limit. Each number has one such text, so
there is no other way to write a key. -/
def key? (limit : Nat) (key : String) : Option Nat := do
  let n ← key.toNat?
  if toString n = key ∧ n < limit then some n else none

/-- The entries of a map from numbers below a limit, in ascending order of their keys. -/
def entries? {α : Type} (limit : Nat) (value? : Json → Option α) : Json → Option (List (Nat × α))
  | object members => do
    let entries ← members.mapM fun (key, value) => do
      let n ← key? limit key
      let a ← value? value
      return (n, a)
    return entries.mergeSort fun a b => decide (a.1 ≤ b.1)
  | _ => none

/-- A map from numbers. -/
def keyed {α : Type} (value : α → Json) (entries : List (Nat × α)) : Json :=
  object (entries.map fun (n, a) => (toString n, value a))

end Json

end PinNumbering
