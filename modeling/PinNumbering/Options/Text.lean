import PinNumbering.Options
/-! # The text of options

Options are written as TOML. Only two keys are known and both take a truth value, so of that format
only this much can appear in a valid text: an optional byte order mark, then lines, each of which
holds at most one setting and may end in a comment. A key is bare or quoted in either way, no key
is set twice, and a line ends in a line feed with or without a carriage return before it. Every
other text is malformed, whether it is valid TOML or not.

* `OptionsText.setting?`: one line.
* `Options.ofText?`: a whole text.
* `Options.load`: the bytes of a file, if there is one.
-/
set_option autoImplicit false

namespace PinNumbering

namespace OptionsText

/-! ## Characters -/

/-- Blanks separate the parts of a line. -/
def isBlank (c : Char) : Bool := c == ' ' || c == '\t'

/-- A bare key consists of letters, digits, underscores and dashes. -/
def isBare (c : Char) : Bool := c.isAlphanum || c == '_' || c == '-'

/-- Comments and quoted keys hold tabs and all characters that are not control characters. -/
def isText (c : Char) : Bool :=
  c == '\t' || (0x20 ≤ c.toNat && c.toNat ≤ 0x7e) || 0x80 ≤ c.toNat

/-- Drops leading blanks. -/
def skipBlanks (line : List Char) : List Char := line.dropWhile isBlank

/-! ## Quoted keys -/

/-- The character with a hexadecimal code. The codes of surrogates are no characters. -/
def charOfHex? (digits : List Char) : Option Char := do
  let values ← digits.mapM fun c =>
    if c.isDigit then some (c.toNat - 0x30)
    else if 'a' ≤ c ∧ c ≤ 'f' then some (c.toNat - 0x61 + 10)
    else if 'A' ≤ c ∧ c ≤ 'F' then some (c.toNat - 0x41 + 10)
    else none
  let code := values.foldl (fun code digit => 16 * code + digit) 0
  if code.isValidChar then some (Char.ofNat code) else none

/-- The character that an escape of one letter stands for. -/
def escaped? : Char → Option Char
  | 'b' => some '\x08'
  | 't' => some '\t'
  | 'n' => some '\n'
  | 'f' => some '\x0c'
  | 'r' => some '\r'
  | '\x22' => some '\x22'
  | '\\' => some '\\'
  | _ => none

/-- The rest of a key in double quotes, and what follows it. -/
def doubleQuoted? : List Char → Option (List Char × List Char)
  | [] => none
  | '\x22' :: rest => some ([], rest)
  | '\\' :: 'u' :: a :: b :: c :: d :: rest => do
    let char ← charOfHex? [a, b, c, d]
    let (key, rest) ← doubleQuoted? rest
    return (char :: key, rest)
  | '\\' :: 'U' :: a :: b :: c :: d :: e :: f :: g :: h :: rest => do
    let char ← charOfHex? [a, b, c, d, e, f, g, h]
    let (key, rest) ← doubleQuoted? rest
    return (char :: key, rest)
  | '\\' :: c :: rest => do
    let char ← escaped? c
    let (key, rest) ← doubleQuoted? rest
    return (char :: key, rest)
  | c :: rest =>
    if isText c && c != '\\' then do
      let (key, rest) ← doubleQuoted? rest
      return (c :: key, rest)
    else none

/-- The rest of a key in single quotes, and what follows it. -/
def singleQuoted? : List Char → Option (List Char × List Char)
  | [] => none
  | '\x27' :: rest => some ([], rest)
  | c :: rest =>
    if isText c then do
      let (key, rest) ← singleQuoted? rest
      return (c :: key, rest)
    else none

/-! ## Lines -/

/-- The key at the start of a line, and what follows it. -/
def key? : List Char → Option (List Char × List Char)
  | '\x22' :: rest => doubleQuoted? rest
  | '\x27' :: rest => singleQuoted? rest
  | line => some (line.takeWhile isBare, line.dropWhile isBare)

/-- The truth value at the start of a line, and what follows it. -/
def value? : List Char → Option (Bool × List Char)
  | 't' :: 'r' :: 'u' :: 'e' :: rest => some (true, rest)
  | 'f' :: 'a' :: 'l' :: 's' :: 'e' :: rest => some (false, rest)
  | _ => none

/-- Nothing is left of a line but blanks and a comment. -/
def isFinished (line : List Char) : Bool :=
  match skipBlanks line with
  | [] => true
  | '#' :: comment => comment.all isText
  | _ => false

/-- The setting of a line that holds one. -/
def setting? (line : List Char) : Option (OptionName × Bool) := do
  let (key, rest) ← key? (skipBlanks line)
  let name ← OptionName.ofText? (String.ofList key)
  match skipBlanks rest with
  | '=' :: rest =>
    let (value, rest) ← value? (skipBlanks rest)
    if isFinished rest then some (name, value) else none
  | _ => none

/-- The settings of a line, of which there is at most one. -/
def settingsOfLine? (line : List Char) : Option (List (OptionName × Bool)) :=
  if isFinished line then some [] else (setting? line).map fun setting => [setting]

/-- The lines of a text, without the characters that end them. The last line has no line feed, so a
carriage return at its end belongs to it. -/
def lines : List Char → List (List Char)
  | [] => [[]]
  | c :: rest =>
    if c = '\n' then [] :: lines rest
    else if c = '\r' ∧ rest.head? = some '\n' then lines rest
    else
      match lines rest with
      | [] => [[c]]
      | line :: more => (c :: line) :: more

/-- The settings of a text. -/
def settings? (text : List Char) : Option (List (OptionName × Bool)) := do
  let perLine ← (lines text).mapM settingsOfLine?
  return perLine.flatten

end OptionsText

/-- The options of a text. -/
def Options.ofText? (text : String) : Option Options := do
  let chars :=
    match text.toList with
    | '\ufeff' :: rest => rest
    | chars => chars
  let settings ← OptionsText.settings? chars
  if (settings.map Prod.fst).Nodup then some (Options.ofSettings settings) else none

/-- The options in the bytes of a file, if there is one. -/
def Options.load (file : Option ByteArray) : Except OptionsError Options :=
  match file.bind String.fromUTF8? with
  | none => .error .unreadable
  | some text =>
    match Options.ofText? text with
    | none => .error .malformed
    | some options => .ok options

end PinNumbering
