/-! # Options

What a session may be told about its work: whether to keep the layouts that it makes, and whether to
validate the tables before it starts.
-/
set_option autoImplicit false

namespace PinNumbering

/-- The options of a session. -/
structure Options where
  /-- Keep each layout for later queries. -/
  cacheLayouts : Bool := true
  /-- Validate the tables first. -/
  validateTables : Bool := false
  deriving DecidableEq, Repr, Inhabited

/-- Why options cannot be read. -/
inductive OptionsError where
  /-- There is no file, or its bytes are not text. -/
  | unreadable
  /-- The text is not one of options. -/
  | malformed
  deriving DecidableEq, Repr

/-- The name of an option. -/
inductive OptionName where
  | cacheLayouts
  | validateTables
  deriving DecidableEq, Repr

namespace OptionName

/-- The option of a name. -/
def ofText? (name : String) : Option OptionName :=
  if name = "cache_layouts" then some .cacheLayouts
  else if name = "validate_tables" then some .validateTables
  else none

end OptionName

/-- The options that a list of settings leaves: those not set keep their defaults. -/
def Options.ofSettings (settings : List (OptionName × Bool)) : Options where
  cacheLayouts := (settings.lookup .cacheLayouts).getD true
  validateTables := (settings.lookup .validateTables).getD false

end PinNumbering
