import PinNumbering.Options.Text
/-! # Options as they are written

A text of options can be written in many ways: with blanks around each part of a line, with keys in
quotes or without, with escapes, with comments, with either end of line, and after a byte order
mark. The reader takes just these texts, unless they set an option twice, and reads the settings
that they are made of.

* `OptionsText.WrittenKey`, `WrittenLine`, `WrittenText`: keys, lines and texts with all that is
  free about them.
* `key?_eq_some_iff`, `settingsOfLine?_eq_some_iff`, `settings?_eq_some_iff`: what is read of each.
* `Options.ofText?_eq_some_iff`: what is read of a text.
-/
set_option autoImplicit false

namespace PinNumbering

/-! ## Names and values -/

/-- The name of an option as it is written. -/
def OptionName.chars : OptionName → List Char
  | .cacheLayouts => ['c', 'a', 'c', 'h', 'e', '_', 'l', 'a', 'y', 'o', 'u', 't', 's']
  | .validateTables => ['v', 'a', 'l', 'i', 'd', 'a', 't', 'e', '_', 't', 'a', 'b', 'l', 'e', 's']

theorem OptionName.ofText?_eq_some_iff {key : List Char} {name : OptionName} :
    ofText? (String.ofList key) = some name ↔ key = name.chars := by
  have hcache : "cache_layouts" = String.ofList cacheLayouts.chars := rfl
  have hvalidate : "validate_tables" = String.ofList validateTables.chars := rfl
  have hne : cacheLayouts.chars ≠ validateTables.chars := by decide
  simp only [ofText?, hcache, hvalidate, String.ofList_inj]
  by_cases h : key = cacheLayouts.chars
  · rw [if_pos h]
    cases name with
    | cacheLayouts => simp [h]
    | validateTables => simp [h, hne]
  · rw [if_neg h]
    cases name with
    | cacheLayouts => simp [h]
    | validateTables => simp

namespace OptionsText

/-- A truth value as it is written. -/
def valueChars : Bool → List Char
  | true => "true".toList
  | false => "false".toList

theorem value?_eq_some_iff {line rest : List Char} {value : Bool} :
    value? line = some (value, rest) ↔ line = valueChars value ++ rest := by
  constructor
  · intro h
    unfold value? at h
    split at h <;> simp_all [valueChars]
  · rintro rfl
    cases value <;> rfl

/-! ## Blanks -/

theorem skipBlanks_append {blanks : List Char} (h : ∀ c ∈ blanks, isBlank c = true)
    (rest : List Char) : skipBlanks (blanks ++ rest) = skipBlanks rest :=
  List.dropWhile_append_of_pos h

theorem exists_blanks (line : List Char) :
    ∃ blanks, (∀ c ∈ blanks, isBlank c = true) ∧ line = blanks ++ skipBlanks line :=
  ⟨line.takeWhile isBlank, List.all_eq_true.1 List.all_takeWhile,
    List.takeWhile_append_dropWhile.symm⟩

/-! ## Keys -/

/-- A character of a key in double quotes as it is written. -/
inductive Spelled : Char → List Char → Prop where
  | plain (c : Char) (htext : isText c = true) (hslash : c ≠ '\\') (hquote : c ≠ '\x22') :
    Spelled c [c]
  | letter (letter c : Char) (h : escaped? letter = some c) : Spelled c ['\\', letter]
  | short (a b c d char : Char) (h : charOfHex? [a, b, c, d] = some char) :
    Spelled char ['\\', 'u', a, b, c, d]
  | long (a b c d e f g h char : Char) (hchar : charOfHex? [a, b, c, d, e, f, g, h] = some char) :
    Spelled char ['\\', 'U', a, b, c, d, e, f, g, h]

/-- The characters of a key in double quotes, one after the other. -/
inductive SpelledKey : List Char → List Char → Prop where
  | nil : SpelledKey [] []
  | cons {c : Char} {key chars written : List Char} (hc : Spelled c written)
    (hkey : SpelledKey key chars) : SpelledKey (c :: key) (written ++ chars)

theorem doubleQuoted?_eq_some_iff {line key rest : List Char} :
    doubleQuoted? line = some (key, rest) ↔
      ∃ chars, SpelledKey key chars ∧ line = chars ++ '\x22' :: rest := by
  constructor
  · intro h
    fun_induction doubleQuoted? line generalizing key rest with
    | case1 => cases h
    | case2 =>
      cases h
      exact ⟨[], .nil, rfl⟩
    | case3 a b c d more ih =>
      simp only [Option.bind_eq_bind, Option.bind_eq_some_iff, Prod.exists, pure,
        Option.some.injEq, Prod.mk.injEq] at h
      obtain ⟨char, hchar, key, _, hmore, rfl, rfl⟩ := h
      obtain ⟨chars, hkey, rfl⟩ := ih hmore
      exact ⟨_, .cons (.short a b c d char hchar) hkey, rfl⟩
    | case4 a b c d e f g h' more ih =>
      simp only [Option.bind_eq_bind, Option.bind_eq_some_iff, Prod.exists, pure,
        Option.some.injEq, Prod.mk.injEq] at h
      obtain ⟨char, hchar, key, _, hmore, rfl, rfl⟩ := h
      obtain ⟨chars, hkey, rfl⟩ := ih hmore
      exact ⟨_, .cons (.long a b c d e f g h' char hchar) hkey, rfl⟩
    | case5 letter more _ _ ih =>
      simp only [Option.bind_eq_bind, Option.bind_eq_some_iff, Prod.exists, pure,
        Option.some.injEq, Prod.mk.injEq] at h
      obtain ⟨char, hchar, key, _, hmore, rfl, rfl⟩ := h
      obtain ⟨chars, hkey, rfl⟩ := ih hmore
      exact ⟨_, .cons (.letter letter char hchar) hkey, rfl⟩
    | case6 c more hquote _ _ _ htext ih =>
      simp only [Option.bind_eq_bind, Option.bind_eq_some_iff, Prod.exists, pure,
        Option.some.injEq, Prod.mk.injEq] at h
      obtain ⟨key, _, hmore, rfl, rfl⟩ := h
      obtain ⟨chars, hkey, rfl⟩ := ih hmore
      rw [Bool.and_eq_true, bne_iff_ne] at htext
      exact ⟨_, .cons (.plain c htext.1 htext.2 hquote) hkey, rfl⟩
    | case7 => cases h
  · rintro ⟨chars, hkey, rfl⟩
    induction hkey with
    | nil => rfl
    | @cons c key chars written hc _ ih =>
      rw [List.append_assoc]
      -- Reading a character does not depend on what follows it.
      generalize chars ++ '\x22' :: rest = line at ih ⊢
      cases hc with
      | plain _ htext hslash hquote => simp [doubleQuoted?, htext, hslash, ih]
      | letter letter _ h =>
        have hshort : letter ≠ 'u' := by
          rintro rfl
          cases h
        have hlong : letter ≠ 'U' := by
          rintro rfl
          cases h
        simp [doubleQuoted?, hshort, hlong, h, ih]
      | short a b c d _ h => simp [doubleQuoted?, h, ih]
      | long a b c d e f g h _ hchar => simp [doubleQuoted?, hchar, ih]

theorem singleQuoted?_eq_some_iff {line key rest : List Char} :
    singleQuoted? line = some (key, rest) ↔
      (∀ c ∈ key, isText c = true ∧ c ≠ '\x27') ∧ line = key ++ '\x27' :: rest := by
  constructor
  · intro h
    fun_induction singleQuoted? line generalizing key rest with
    | case1 => cases h
    | case2 =>
      cases h
      exact ⟨by simp, rfl⟩
    | case3 c more hquote htext ih =>
      simp only [Option.bind_eq_bind, Option.bind_eq_some_iff, Prod.exists, pure,
        Option.some.injEq, Prod.mk.injEq] at h
      obtain ⟨key, _, hmore, rfl, rfl⟩ := h
      obtain ⟨hkey, rfl⟩ := ih hmore
      exact ⟨List.forall_mem_cons.2 ⟨⟨htext, hquote⟩, hkey⟩, rfl⟩
    | case4 => cases h
  · rintro ⟨hkey, rfl⟩
    induction key with
    | nil => rfl
    | cons c key ih =>
      rw [List.forall_mem_cons] at hkey
      obtain ⟨⟨htext, hquote⟩, hkey⟩ := hkey
      simp [singleQuoted?, htext, ih hkey]

/-- A key as it is written. -/
inductive WrittenKey (key : List Char) : List Char → Prop where
  | bare : WrittenKey key key
  | single : WrittenKey key ('\x27' :: key ++ ['\x27'])
  | double (chars : List Char) (h : SpelledKey key chars) :
    WrittenKey key ('\x22' :: chars ++ ['\x22'])

theorem isBare_of_mem_chars (name : OptionName) : ∀ c ∈ name.chars, isBare c = true :=
  List.all_eq_true.1 (by cases name <;> rfl)

theorem isText_of_mem_chars (name : OptionName) :
    ∀ c ∈ name.chars, isText c = true ∧ c ≠ '\x27' := by
  have hall : name.chars.all (fun c => isText c && c != '\x27') = true := by cases name <;> rfl
  simpa using hall

/-- A bare key ends before a character that could not go on it. -/
theorem key?_eq_some_iff {line rest : List Char} {name : OptionName}
    (hrest : ∀ c ∈ rest.head?, isBare c = false) :
    key? line = some (name.chars, rest) ↔
      ∃ written, WrittenKey name.chars written ∧ line = written ++ rest := by
  constructor
  · intro h
    unfold key? at h
    split at h
    next more =>
      obtain ⟨chars, hkey, rfl⟩ := doubleQuoted?_eq_some_iff.1 h
      exact ⟨_, .double chars hkey, by simp⟩
    next more =>
      obtain ⟨-, rfl⟩ := singleQuoted?_eq_some_iff.1 h
      exact ⟨_, .single, by simp⟩
    next =>
      rw [Option.some.injEq, Prod.mk.injEq] at h
      exact ⟨_, .bare, by rw [← h.1, ← h.2, List.takeWhile_append_dropWhile]⟩
  · rintro ⟨written, hkey, rfl⟩
    cases hkey with
    | bare =>
      have hstop : rest.takeWhile isBare = [] ∧ rest.dropWhile isBare = rest := by
        cases rest with
        | nil => exact ⟨rfl, rfl⟩
        | cons c more => simp [hrest c rfl]
      have hline : key? (name.chars ++ rest) = some ((name.chars ++ rest).takeWhile isBare,
          (name.chars ++ rest).dropWhile isBare) := by cases name <;> rfl
      rw [hline, List.takeWhile_append_of_pos (isBare_of_mem_chars name),
        List.dropWhile_append_of_pos (isBare_of_mem_chars name), hstop.1, hstop.2,
        List.append_nil]
    | single => exact singleQuoted?_eq_some_iff.2 ⟨isText_of_mem_chars name, by simp⟩
    | double chars hkey => exact doubleQuoted?_eq_some_iff.2 ⟨chars, hkey, by simp⟩

/-! ## Lines -/

/-- The end of a line as it is written: blanks, and perhaps a comment. -/
inductive WrittenRest : List Char → Prop where
  | blanks (blanks : List Char) (h : ∀ c ∈ blanks, isBlank c = true) : WrittenRest blanks
  | comment (blanks comment : List Char) (h : ∀ c ∈ blanks, isBlank c = true)
    (hcomment : ∀ c ∈ comment, isText c = true) : WrittenRest (blanks ++ '#' :: comment)

/-- The settings of a line and the line as it is written. -/
inductive WrittenLine : List (OptionName × Bool) → List Char → Prop where
  | empty (line : List Char) (h : WrittenRest line) : WrittenLine [] line
  | setting (name : OptionName) (value : Bool) (before key beforeSign afterSign rest : List Char)
    (hbefore : ∀ c ∈ before, isBlank c = true) (hkey : WrittenKey name.chars key)
    (hbeforeSign : ∀ c ∈ beforeSign, isBlank c = true)
    (hafterSign : ∀ c ∈ afterSign, isBlank c = true) (hrest : WrittenRest rest) :
    WrittenLine [(name, value)]
      (before ++ (key ++ (beforeSign ++ '=' :: (afterSign ++ (valueChars value ++ rest)))))

theorem isFinished_iff {line : List Char} : isFinished line = true ↔ WrittenRest line := by
  constructor
  · intro h
    obtain ⟨blanks, hblanks, hline⟩ := exists_blanks line
    unfold isFinished at h
    split at h
    next hskip =>
      rw [hskip, List.append_nil] at hline
      exact hline ▸ .blanks blanks hblanks
    next comment hskip =>
      rw [hskip] at hline
      exact hline ▸ .comment blanks comment hblanks (List.all_eq_true.1 h)
    next => cases h
  · intro h
    cases h with
    | blanks _ h =>
      have hskip := skipBlanks_append h []
      rw [List.append_nil] at hskip
      rw [isFinished, hskip]
      rfl
    | comment blanks comment h hcomment =>
      rw [isFinished, skipBlanks_append h]
      exact List.all_eq_true.2 hcomment

theorem not_isBare_of_sign {beforeSign : List Char} (h : ∀ c ∈ beforeSign, isBlank c = true)
    (rest : List Char) :
    ∀ c ∈ (beforeSign ++ '=' :: rest).head?, isBare c = false := by
  cases beforeSign with
  | nil => simp; decide
  | cons b more =>
    have hblank := h b List.mem_cons_self
    rw [isBlank, Bool.or_eq_true, beq_iff_eq, beq_iff_eq] at hblank
    rcases hblank with rfl | rfl <;> simp <;> decide

/-- A key starts a line visibly, and not like a comment. -/
theorem WrittenKey.head {name : OptionName} {key : List Char} (h : WrittenKey name.chars key) :
    ∃ c more, key = c :: more ∧ isBlank c = false ∧ c ≠ '#' := by
  cases h with
  | bare => cases name <;> exact ⟨_, _, rfl, by decide, by decide⟩
  | single => exact ⟨_, _, rfl, by decide, by decide⟩
  | double chars _ => exact ⟨_, _, rfl, by decide, by decide⟩

theorem skipBlanks_key {name : OptionName} {before key : List Char}
    (hbefore : ∀ c ∈ before, isBlank c = true) (hkey : WrittenKey name.chars key)
    (rest : List Char) :
    skipBlanks (before ++ (key ++ rest)) = key ++ rest := by
  obtain ⟨c, more, rfl, hc, -⟩ := hkey.head
  rw [skipBlanks_append hbefore, List.cons_append, skipBlanks, List.dropWhile_cons, hc]
  rfl

theorem setting?_eq_some_iff {line : List Char} {name : OptionName} {value : Bool} :
    setting? line = some (name, value) ↔ WrittenLine [(name, value)] line := by
  constructor
  · intro h
    simp only [setting?, Option.bind_eq_bind, Option.bind_eq_some_iff, Prod.exists] at h
    obtain ⟨key, afterKey, hkey, name', hname, h⟩ := h
    split at h
    next afterSign hsign =>
      simp only [Option.bind_eq_some_iff, Prod.exists] at h
      obtain ⟨value', rest, hvalue, h⟩ := h
      split at h
      next hrest =>
        simp only [Option.some.injEq, Prod.mk.injEq] at h
        obtain ⟨rfl, rfl⟩ := h
        obtain rfl := OptionName.ofText?_eq_some_iff.1 hname
        obtain ⟨before, hbefore, hline⟩ := exists_blanks line
        obtain ⟨beforeSign, hbeforeSign, hafterKey⟩ := exists_blanks afterKey
        obtain ⟨blanks, hblanks, hafterSign⟩ := exists_blanks afterSign
        rw [hsign] at hafterKey
        have hhead := not_isBare_of_sign hbeforeSign afterSign
        rw [← hafterKey] at hhead
        -- A bare key is as long as it can be, which is where its blanks and its sign begin.
        obtain ⟨written, hwritten, hskip⟩ := (key?_eq_some_iff hhead).1 hkey
        rw [hline, hskip, hafterKey, hafterSign, value?_eq_some_iff.1 hvalue]
        exact .setting name' value' before written beforeSign blanks rest hbefore hwritten
          hbeforeSign hblanks (isFinished_iff.1 hrest)
      next => cases h
    next => cases h
  · intro h
    cases h with
    | setting _ _ before key beforeSign afterSign rest hbefore hkey hbeforeSign hafterSign hrest =>
      have hname := OptionName.ofText?_eq_some_iff.2 (rfl : name.chars = name.chars)
      have hsign : ∀ more, skipBlanks (beforeSign ++ '=' :: more) = '=' :: more :=
        fun more => skipBlanks_append hbeforeSign ('=' :: more)
      have hvalue : skipBlanks (afterSign ++ (valueChars value ++ rest)) =
          valueChars value ++ rest := by
        rw [skipBlanks_append hafterSign]
        cases value <;> rfl
      simp only [setting?, skipBlanks_key hbefore hkey,
        (key?_eq_some_iff (not_isBare_of_sign hbeforeSign _)).2 ⟨key, hkey, rfl⟩, hname, hsign,
        hvalue, value?_eq_some_iff.2 rfl, isFinished_iff.2 hrest, Option.bind_eq_bind,
        Option.bind_some, if_true]

theorem not_isFinished_key {name : OptionName} {before key : List Char}
    (hbefore : ∀ c ∈ before, isBlank c = true) (hkey : WrittenKey name.chars key)
    (rest : List Char) : isFinished (before ++ (key ++ rest)) = false := by
  rw [isFinished, skipBlanks_key hbefore hkey]
  obtain ⟨c, more, rfl, -, hc⟩ := hkey.head
  simp [hc]

theorem settingsOfLine?_eq_some_iff {line : List Char} {settings : List (OptionName × Bool)} :
    settingsOfLine? line = some settings ↔ WrittenLine settings line := by
  constructor
  · intro h
    unfold settingsOfLine? at h
    split at h
    next hfinished =>
      cases h
      exact .empty line (isFinished_iff.1 hfinished)
    next =>
      obtain ⟨⟨name, value⟩, hsetting, rfl⟩ := Option.map_eq_some_iff.1 h
      exact setting?_eq_some_iff.1 hsetting
  · intro h
    have hline := h
    cases h with
    | empty _ h => rw [settingsOfLine?, if_pos (isFinished_iff.2 h)]
    | setting name value before key _ _ _ hbefore hkey =>
      have hsetting := setting?_eq_some_iff.2 hline
      rw [settingsOfLine?, not_isFinished_key hbefore hkey, hsetting]
      rfl

/-! ## Texts -/

/-- The settings of a text and the text as it is written: lines, each but the last with its end. -/
inductive WrittenText : List (OptionName × Bool) → List Char → Prop where
  | last (settings : List (OptionName × Bool)) (line : List Char)
    (hline : WrittenLine settings line) : WrittenText settings line
  | lineFeed (settings more : List (OptionName × Bool)) (line text : List Char)
    (hline : WrittenLine settings line) (htext : WrittenText more text) :
    WrittenText (settings ++ more) (line ++ '\n' :: text)
  | carriageReturn (settings more : List (OptionName × Bool)) (line text : List Char)
    (hline : WrittenLine settings line) (htext : WrittenText more text) :
    WrittenText (settings ++ more) (line ++ '\r' :: '\n' :: text)

theorem lines_append {line : List Char} (h : ∀ c ∈ line, c ≠ '\n' ∧ c ≠ '\r') (text : List Char) :
    lines line = [line] ∧ lines (line ++ '\n' :: text) = line :: lines text ∧
      lines (line ++ '\r' :: '\n' :: text) = line :: lines text := by
  induction line with
  | nil => simp [lines]
  | cons c line ih =>
    rw [List.forall_mem_cons] at h
    obtain ⟨hlast, hfeed, hreturn⟩ := ih h.2
    simp [lines, h.1.1, h.1.2, hlast, hfeed, hreturn]

theorem lines_cons {c : Char} {text line : List Char} {more : List (List Char)} (hfeed : c ≠ '\n')
    (hreturn : ¬(c = '\r' ∧ text.head? = some '\n')) (h : lines text = line :: more) :
    lines (c :: text) = (c :: line) :: more := by
  simp only [lines, if_neg hfeed, if_neg hreturn, h]

/-- The first line of a text, if another follows. -/
theorem lines_cases (text : List Char) :
    lines text = [text] ∨ ∃ line rest, lines text = line :: lines rest ∧
      (text = line ++ '\n' :: rest ∨ text = line ++ '\r' :: '\n' :: rest) := by
  induction text with
  | nil => exact .inl rfl
  | cons c text ih =>
    by_cases hfeed : c = '\n'
    · exact .inr ⟨[], text, by simp [lines, hfeed], .inl (by rw [hfeed]; rfl)⟩
    · by_cases hreturn : c = '\r' ∧ text.head? = some '\n'
      · obtain ⟨rfl, hhead⟩ := hreturn
        obtain ⟨rest, rfl⟩ := List.head?_eq_some_iff.1 hhead
        exact .inr ⟨[], rest, by simp [lines], .inr rfl⟩
      · rcases ih with hlast | ⟨line, rest, hmore, htext⟩
        · exact .inl (lines_cons hfeed hreturn hlast)
        · refine .inr ⟨c :: line, rest, lines_cons hfeed hreturn hmore, ?_⟩
          rcases htext with rfl | rfl
          · exact .inl rfl
          · exact .inr rfl

theorem not_end_of_isBlank {c : Char} (h : isBlank c = true) : c ≠ '\n' ∧ c ≠ '\r' := by
  constructor <;> rintro rfl <;> cases h

theorem not_end_of_isText {c : Char} (h : isText c = true) : c ≠ '\n' ∧ c ≠ '\r' := by
  constructor <;> rintro rfl <;> revert h <;> decide

theorem not_end_of_charOfHex? {digits : List Char} {char : Char}
    (h : charOfHex? digits = some char) : ∀ c ∈ digits, c ≠ '\n' ∧ c ≠ '\r' := by
  obtain ⟨values, hvalues, -⟩ := Option.bind_eq_some_iff.1 h
  clear h
  induction digits generalizing values with
  | nil => simp
  | cons digit rest ih =>
    rw [List.mapM_cons] at hvalues
    obtain ⟨value, hvalue, hvalues⟩ := Option.bind_eq_some_iff.1 hvalues
    obtain ⟨more, hmore, -⟩ := Option.bind_eq_some_iff.1 hvalues
    refine List.forall_mem_cons.2 ⟨?_, ih more hmore⟩
    constructor
    · rintro rfl
      have hnone : none = some value := hvalue
      cases hnone
    · rintro rfl
      have hnone : none = some value := hvalue
      cases hnone

theorem Spelled.not_end {c : Char} {written : List Char} (h : Spelled c written) :
    ∀ c ∈ written, c ≠ '\n' ∧ c ≠ '\r' := by
  cases h with
  | plain _ htext => simpa using not_end_of_isText htext
  | letter letter _ h =>
    have hletter : letter ≠ '\n' ∧ letter ≠ '\r' := by
      constructor <;> rintro rfl <;> cases h
    simp [hletter]
  | short a b c d _ h => simpa using not_end_of_charOfHex? h
  | long a b c d e f g h _ hchar => simpa using not_end_of_charOfHex? hchar

theorem SpelledKey.not_end {key chars : List Char} (h : SpelledKey key chars) :
    ∀ c ∈ chars, c ≠ '\n' ∧ c ≠ '\r' := by
  induction h with
  | nil => simp
  | cons hc _ ih => exact List.forall_mem_append.2 ⟨hc.not_end, ih⟩

theorem WrittenKey.not_end {name : OptionName} {key : List Char}
    (h : WrittenKey name.chars key) : ∀ c ∈ key, c ≠ '\n' ∧ c ≠ '\r' := by
  have hname : ∀ c ∈ name.chars, c ≠ '\n' ∧ c ≠ '\r' := fun c hc =>
    not_end_of_isText (isText_of_mem_chars name c hc).1
  cases h with
  | bare => exact hname
  | single => simpa [List.forall_mem_append, or_imp, forall_and] using hname
  | double chars hkey => simpa [List.forall_mem_append, or_imp, forall_and] using hkey.not_end

theorem WrittenRest.not_end {rest : List Char} (h : WrittenRest rest) :
    ∀ c ∈ rest, c ≠ '\n' ∧ c ≠ '\r' := by
  cases h with
  | blanks _ h => exact fun c hc => not_end_of_isBlank (h c hc)
  | comment blanks comment h hcomment =>
    refine List.forall_mem_append.2 ⟨fun c hc => not_end_of_isBlank (h c hc), ?_⟩
    exact List.forall_mem_cons.2 ⟨by decide, fun c hc => not_end_of_isText (hcomment c hc)⟩

theorem WrittenLine.not_end {settings : List (OptionName × Bool)} {line : List Char}
    (h : WrittenLine settings line) : ∀ c ∈ line, c ≠ '\n' ∧ c ≠ '\r' := by
  have hblanks : ∀ {blanks : List Char}, (∀ c ∈ blanks, isBlank c = true) →
      ∀ c ∈ blanks, c ≠ '\n' ∧ c ≠ '\r' := fun h c hc => not_end_of_isBlank (h c hc)
  have hvalue : ∀ value, ∀ c ∈ valueChars value, isText c = true := fun value =>
    List.all_eq_true.1 (by cases value <;> rfl)
  cases h with
  | empty _ h => exact h.not_end
  | setting name value before key beforeSign afterSign rest hbefore hkey hbeforeSign hafterSign
      hrest =>
    simp only [List.forall_mem_append, List.forall_mem_cons]
    exact ⟨hblanks hbefore, hkey.not_end, hblanks hbeforeSign, by decide, hblanks hafterSign,
      fun c hc => not_end_of_isText (hvalue value c hc), hrest.not_end⟩

theorem settings?_of_last {text : List Char} (h : lines text = [text]) :
    settings? text = settingsOfLine? text := by
  cases hline : settingsOfLine? text <;> simp [settings?, h, hline]

theorem settings?_of_first {text line rest : List Char} (h : lines text = line :: lines rest) :
    settings? text = do
      let first ← settingsOfLine? line
      let more ← settings? rest
      return first ++ more := by
  simp [settings?, h, Option.bind_assoc]

/-- A text is read line by line. -/
theorem settings?_eq_some_iff {text : List Char} {settings : List (OptionName × Bool)} :
    settings? text = some settings ↔ WrittenText settings text := by
  constructor
  · intro h
    -- What follows the first line is found by its lines, of which there is one fewer.
    generalize hfound : lines text = found
    induction found generalizing text settings with
    | nil => rcases lines_cases text with hlines | ⟨line, rest, hlines, -⟩ <;> simp_all
    | cons line found ih =>
      rcases lines_cases text with hlines | ⟨line, rest, hlines, htext⟩
      · rw [settings?_of_last hlines, settingsOfLine?_eq_some_iff] at h
        exact .last settings text h
      · rw [settings?_of_first hlines] at h
        simp only [Option.bind_eq_bind, Option.bind_eq_some_iff, pure, Option.some.injEq] at h
        obtain ⟨first, hfirst, more, hmore, rfl⟩ := h
        rw [settingsOfLine?_eq_some_iff] at hfirst
        rw [hfound, List.cons.injEq] at hlines
        have hrest := ih hmore hlines.2.symm
        rcases htext with rfl | rfl
        · exact .lineFeed first more line rest hfirst hrest
        · exact .carriageReturn first more line rest hfirst hrest
  · intro h
    induction h with
    | last settings line hline =>
      obtain ⟨hlast, -⟩ := lines_append hline.not_end []
      rw [settings?_of_last hlast, settingsOfLine?_eq_some_iff]
      exact hline
    | lineFeed settings more line text hline _ ih =>
      obtain ⟨-, hfeed, -⟩ := lines_append hline.not_end text
      rw [settings?_of_first hfeed, settingsOfLine?_eq_some_iff.2 hline, ih]
      rfl
    | carriageReturn settings more line text hline _ ih =>
      obtain ⟨-, -, hreturn⟩ := lines_append hline.not_end text
      rw [settings?_of_first hreturn, settingsOfLine?_eq_some_iff.2 hline, ih]
      rfl

theorem settings?_mark (text : List Char) : settings? ('\ufeff' :: text) = none := by
  have hnone : ∀ line, settingsOfLine? ('\ufeff' :: line) = none := fun _ => rfl
  rcases lines_cases ('\ufeff' :: text) with hlines | ⟨line, rest, hlines, htext⟩
  · rw [settings?_of_last hlines, hnone]
  · obtain ⟨line, rfl⟩ : ∃ more, line = '\ufeff' :: more := by
      cases line with
      | nil => simp at htext
      | cons c more =>
        simp only [List.cons_append, List.cons.injEq] at htext
        exact ⟨more, by rcases htext with htext | htext <;> rw [htext.1]⟩
    rw [settings?_of_first hlines, hnone]
    rfl

/-- What a text is made of leaves a mark at its start to be told apart. -/
theorem WrittenText.head_ne {settings : List (OptionName × Bool)} {text : List Char}
    (h : WrittenText settings text) : text.head? ≠ some '\ufeff' := by
  intro hhead
  obtain ⟨rest, rfl⟩ := List.head?_eq_some_iff.1 hhead
  have hnone := settings?_mark rest
  rw [settings?_eq_some_iff.2 h] at hnone
  cases hnone

end OptionsText

/-! ## Options -/

/-- What an option is if nothing sets it. -/
def OptionName.default : OptionName → Bool
  | .cacheLayouts => true
  | .validateTables => false

/-- The option of a name. -/
def Options.value (o : Options) : OptionName → Bool
  | .cacheLayouts => o.cacheLayouts
  | .validateTables => o.validateTables

theorem Options.value_ofSettings (settings : List (OptionName × Bool)) (name : OptionName) :
    (ofSettings settings).value name = (settings.lookup name).getD name.default := by
  cases name <;> rfl

theorem Options.eq_of_value {o o' : Options} (h : ∀ name, o.value name = o'.value name) :
    o = o' := by
  rw [mk.injEq]
  exact ⟨h .cacheLayouts, h .validateTables⟩

theorem lookup_eq_some_of_mem {settings : List (OptionName × Bool)} {name : OptionName}
    {value : Bool} (hnodup : (settings.map Prod.fst).Nodup) (h : (name, value) ∈ settings) :
    settings.lookup name = some value := by
  induction settings with
  | nil => cases h
  | cons setting rest ih =>
    rw [List.map_cons, List.nodup_cons] at hnodup
    rcases List.mem_cons.1 h with rfl | hrest
    · exact List.lookup_cons_self
    · have hne : (name == setting.1) = false := by
        rw [beq_eq_false_iff_ne]
        rintro rfl
        exact hnodup.1 (List.mem_map.2 ⟨_, hrest, rfl⟩)
      rw [List.lookup_cons, hne]
      exact ih hnodup.2 hrest

theorem Options.ofSettings_eq_iff {settings : List (OptionName × Bool)} {o : Options}
    (hnodup : (settings.map Prod.fst).Nodup) :
    ofSettings settings = o ↔ (∀ name value, (name, value) ∈ settings → o.value name = value) ∧
      ∀ name, name ∉ settings.map Prod.fst → o.value name = name.default := by
  have hnone : ∀ name, name ∉ settings.map Prod.fst → settings.lookup name = none := by
    intro name hname
    rw [List.lookup_eq_none_iff]
    intro setting hsetting
    rw [bne_iff_ne]
    rintro rfl
    exact hname (List.mem_map_of_mem hsetting)
  constructor
  · rintro rfl
    constructor
    · intro name value h
      rw [value_ofSettings, lookup_eq_some_of_mem hnodup h]
      rfl
    · intro name h
      rw [value_ofSettings, hnone name h]
      rfl
  · rintro ⟨hset, hdefault⟩
    refine eq_of_value fun name => ?_
    rw [value_ofSettings]
    by_cases h : name ∈ settings.map Prod.fst
    · obtain ⟨⟨_, value⟩, hmem, rfl⟩ := List.mem_map.1 h
      rw [lookup_eq_some_of_mem hnodup hmem, hset _ _ hmem]
      rfl
    · rw [hnone name h, hdefault name h]
      rfl

/-- The characters of a text after a byte order mark. -/
theorem Options.ofText?_eq (text : String) :
    ∃ chars, (text.toList = chars ∧ chars.head? ≠ some '\ufeff' ∨ text.toList = '\ufeff' :: chars) ∧
      ofText? text = (OptionsText.settings? chars).bind fun settings =>
        if (settings.map Prod.fst).Nodup then some (ofSettings settings) else none := by
  unfold ofText?
  split
  next rest hrest => exact ⟨rest, .inr hrest, rfl⟩
  next hother =>
    refine ⟨text.toList, .inl ⟨rfl, fun hhead => ?_⟩, rfl⟩
    obtain ⟨rest, hrest⟩ := List.head?_eq_some_iff.1 hhead
    exact hother rest hrest

/-- A text is one of options exactly if it is written as settings, perhaps after a byte order mark,
and sets no option twice. Its options are those that it sets, and the others are the defaults. -/
theorem Options.ofText?_eq_some_iff {text : String} {o : Options} :
    ofText? text = some o ↔ ∃ settings chars,
      (text.toList = chars ∨ text.toList = '\ufeff' :: chars) ∧
      OptionsText.WrittenText settings chars ∧ (settings.map Prod.fst).Nodup ∧
      (∀ name value, (name, value) ∈ settings → o.value name = value) ∧
      ∀ name, name ∉ settings.map Prod.fst → o.value name = name.default := by
  obtain ⟨chars, hchars, hread⟩ := ofText?_eq text
  simp only [hread, Option.bind_eq_some_iff, OptionsText.settings?_eq_some_iff,
    Option.ite_none_right_eq_some, Option.some.injEq]
  constructor
  · rintro ⟨settings, htext, hnodup, ho⟩
    exact ⟨settings, chars, hchars.imp And.left id, htext, hnodup, (ofSettings_eq_iff hnodup).1 ho⟩
  · rintro ⟨settings, chars', hchars', htext, hnodup, ho⟩
    have heq : chars' = chars := by
      have hhead' := htext.head_ne
      rcases hchars with ⟨rfl, hhead⟩ | hrest
      · rcases hchars' with rfl | hrest'
        · rfl
        · rw [hrest'] at hhead
          exact absurd rfl hhead
      · rcases hchars' with rfl | hrest'
        · rw [hrest] at hhead'
          exact absurd rfl hhead'
        · exact (List.cons.inj (hrest'.symm.trans hrest)).2
    exact ⟨settings, heq ▸ htext, hnodup, (ofSettings_eq_iff hnodup).2 ho⟩

end PinNumbering
