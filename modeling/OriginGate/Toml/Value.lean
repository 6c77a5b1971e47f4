import OriginGate.Hex
import OriginGate.Toml.Date
import OriginGate.Toml.Table

/-!
# Keys and values of a TOML text

* `Toml.readPath?` : a key with dots, each part bare or quoted;
* `Toml.readString?` : the four kinds of strings, after their first quote;
* `Toml.readScalar?` : booleans, numbers, dates and times;
* `Toml.readValue?` : any value, arrays and inline tables included;
* `Toml.depthLimit` : so many arrays and inline tables may enclose a value, and so many parts a key
  may have.

Values are given as documents. A date or time is a table of one field, its text; infinities and
not-a-numbers are unreadable.
-/

namespace OriginGate.Toml

/-! ## Blanks and line ends -/

def isBlank (c : Char) : Bool := c = ' ' || c = '\t'

def skipBlanks (cs : List Char) : List Char := cs.dropWhile isBlank

/-- Control characters other than the tab may not stand in comments and strings. -/
def isControl (c : Char) : Bool := (c.toNat < 0x20 && c ≠ '\t') || c.toNat = 0x7F

/-- What follows a line end, if one stands first. -/
def afterNewline? : List Char → Option (List Char)
  | '\n' :: rest => some rest
  | '\r' :: '\n' :: rest => some rest
  | _ => none

/-- What follows a comment, up to the line end; a comment may hold no control characters. -/
def skipComment? : List Char → Option (List Char)
  | [] => some []
  | '\n' :: rest => some ('\n' :: rest)
  | '\r' :: '\n' :: rest => some ('\r' :: '\n' :: rest)
  | c :: rest => if isControl c then none else skipComment? rest

/-- What follows blanks and a comment, up to the line end. -/
def skipToLineEnd? (cs : List Char) : Option (List Char) :=
  match skipBlanks cs with
  | '#' :: rest => skipComment? rest
  | rest => some rest

/-- What follows blanks, comments and line ends. -/
def skipLines? : (fuel : Nat) → List Char → Option (List Char)
  | 0, cs => some cs
  | fuel + 1, cs =>
    match skipToLineEnd? cs with
    | none => none
    | some rest =>
      match afterNewline? rest with
      | some rest => skipLines? fuel rest
      | none => some rest

/-! ## Strings -/

/-- The character of a number in an escape, unless it is a surrogate or too large. -/
def scalar? (n : Nat) : Option Char :=
  if n < 0xD800 ∨ (0xE000 ≤ n ∧ n < 0x110000) then some (Char.ofNat n) else none

/-- The character that hex digits of an escape name. -/
def hexEscape? (digits : List Char) : Option Char := (Hex.decode? digits).bind scalar?

/-- The character that an escape names by a letter. -/
def escape? : Char → Option Char
  | 'b' => some '\x08'
  | 'e' => some '\x1b'
  | 't' => some '\t'
  | 'n' => some '\n'
  | 'f' => some '\x0c'
  | 'r' => some '\r'
  | '"' => some '"'
  | '\\' => some '\\'
  | _ => none

/-- Puts a character in front of what was read. -/
def consed (c : Char) : Option (List Char × List Char) → Option (List Char × List Char)
  | some (cs, rest) => some (c :: cs, rest)
  | none => none

/-- Puts characters in front of what was read. -/
def appended (cs : List Char) : Option (List Char × List Char) → Option (List Char × List Char)
  | some (ds, rest) => some (cs ++ ds, rest)
  | none => none

/-- A string in double quotes on one line. -/
def readBasic? : List Char → Option (List Char × List Char)
  | '"' :: rest => some ([], rest)
  | '\\' :: 'x' :: a :: b :: rest => do
    let char ← hexEscape? [a, b]
    consed char (readBasic? rest)
  | '\\' :: 'u' :: a :: b :: c :: d :: rest => do
    let char ← hexEscape? [a, b, c, d]
    consed char (readBasic? rest)
  | '\\' :: 'U' :: a :: b :: c :: d :: e :: f :: g :: h :: rest => do
    let char ← hexEscape? [a, b, c, d, e, f, g, h]
    consed char (readBasic? rest)
  | '\\' :: c :: rest => do
    let char ← escape? c
    consed char (readBasic? rest)
  | c :: rest => if isControl c then none else consed c (readBasic? rest)
  | [] => none

/-- A string in single quotes on one line. -/
def readLiteral? : List Char → Option (List Char × List Char)
  | '\'' :: rest => some ([], rest)
  | c :: rest => if isControl c then none else consed c (readLiteral? rest)
  | [] => none

/--
The end of a string over several lines: three quotes, before which one or two more belong to the
string.
-/
def closing? (quote : Char) : List Char → Option (List Char × List Char)
  | a :: b :: c :: d :: e :: rest =>
    if a = quote ∧ b = quote ∧ c = quote then
      if d = quote ∧ e = quote then some ([quote, quote], rest)
      else if d = quote then some ([quote], e :: rest)
      else some ([], d :: e :: rest)
    else none
  | [a, b, c, d] =>
    if a = quote ∧ b = quote ∧ c = quote then
      if d = quote then some ([quote], []) else some ([], [d])
    else none
  | [a, b, c] => if a = quote ∧ b = quote ∧ c = quote then some ([], []) else none
  | _ => none

/-- What follows blanks and line ends. -/
def skipBlankLines : List Char → List Char
  | '\r' :: '\n' :: rest => skipBlankLines rest
  | c :: rest => if isBlank c || c = '\n' then skipBlankLines rest else c :: rest
  | [] => []

/-- A character, or a whole line end, that stands for itself in a string over several lines. -/
def readPlain? : List Char → Option (List Char × List Char)
  | '\n' :: rest => some (['\n'], rest)
  | '\r' :: '\n' :: rest => some (['\r', '\n'], rest)
  | c :: rest => if isControl c then none else some ([c], rest)
  | [] => none

/-- A string in three double quotes; a backslash at a line end drops the blanks that follow. -/
def readBasicLines? : (fuel : Nat) → List Char → Option (List Char × List Char)
  | 0, _ => none
  | fuel + 1, cs =>
    match closing? '"' cs with
    | some found => some found
    | none =>
      match cs with
      | '\\' :: 'x' :: a :: b :: rest => do
        let char ← hexEscape? [a, b]
        consed char (readBasicLines? fuel rest)
      | '\\' :: 'u' :: a :: b :: c :: d :: rest => do
        let char ← hexEscape? [a, b, c, d]
        consed char (readBasicLines? fuel rest)
      | '\\' :: 'U' :: a :: b :: c :: d :: e :: f :: g :: h :: rest => do
        let char ← hexEscape? [a, b, c, d, e, f, g, h]
        consed char (readBasicLines? fuel rest)
      | '\\' :: c :: rest =>
        match escape? c with
        | some char => consed char (readBasicLines? fuel rest)
        | none => do
          let rest ← afterNewline? (skipBlanks (c :: rest))
          readBasicLines? fuel (skipBlankLines rest)
      | cs => do
        let (plain, rest) ← readPlain? cs
        appended plain (readBasicLines? fuel rest)

/-- A string in three single quotes. -/
def readLiteralLines? : (fuel : Nat) → List Char → Option (List Char × List Char)
  | 0, _ => none
  | fuel + 1, cs =>
    match closing? '\'' cs with
    | some found => some found
    | none => do
      let (plain, rest) ← readPlain? cs
      appended plain (readLiteralLines? fuel rest)

/-- What follows a line end at the start of a string over several lines. -/
def dropFirstNewline (cs : List Char) : List Char := (afterNewline? cs).getD cs

/-- A string of any kind, from its first quote. -/
def readString? : List Char → Option (List Char × List Char)
  | '"' :: '"' :: '"' :: rest => readBasicLines? (rest.length + 1) (dropFirstNewline rest)
  | '\'' :: '\'' :: '\'' :: rest => readLiteralLines? (rest.length + 1) (dropFirstNewline rest)
  | '"' :: rest => readBasic? rest
  | '\'' :: rest => readLiteral? rest
  | _ => none

/-! ## Keys -/

/-- The characters of a bare key. -/
def isBare (c : Char) : Bool := c.isAlphanum || c = '_' || c = '-'

/-- One part of a key. -/
def readKey? (cs : List Char) : Option (String × List Char) :=
  match cs with
  | '"' :: rest => (readBasic? rest).map fun (key, rest) => (String.ofList key, rest)
  | '\'' :: rest => (readLiteral? rest).map fun (key, rest) => (String.ofList key, rest)
  | cs =>
    match cs.takeWhile isBare with
    | [] => none
    | key => some (String.ofList key, cs.dropWhile isBare)

/-- The parts of a key, up to the blanks after it. -/
def readParts? : (fuel : Nat) → List Char → Option (List String × List Char)
  | 0, _ => none
  | fuel + 1, cs => do
    let (key, rest) ← readKey? (skipBlanks cs)
    match skipBlanks rest with
    | '.' :: rest =>
      let (path, rest) ← readParts? fuel rest
      pure (key :: path, rest)
    | rest => pure ([key], rest)

/-- How many arrays and inline tables may enclose a value, and how many parts a key may have. -/
def depthLimit : Nat := 80

/-- A key as the list of its parts, up to the blanks after it. -/
def readPath? (cs : List Char) : Option (List String × List Char) :=
  match readParts? cs.length cs with
  | some (path, rest) => if path.length ≤ depthLimit then some (path, rest) else none
  | none => none

/-! ## Booleans and numbers -/

/-- The digits of a number with single underscores between digits. -/
def plainDigits? (isDigit : Char → Bool) (cs : List Char) : Option (List Char) :=
  match cs with
  | [] => none
  | [c] => if isDigit c then some [c] else none
  | c :: '_' :: d :: rest =>
    if isDigit c then (plainDigits? isDigit (d :: rest)).map (c :: ·) else none
  | c :: d :: rest =>
    if isDigit c then (plainDigits? isDigit (d :: rest)).map (c :: ·) else none

/-- Digits in a base up to sixteen. -/
def inBase? (base : Nat) (cs : List Char) : Option Nat := do
  let digits ← plainDigits? (fun c => (Hex.digit? c).any (· < base)) cs
  pure (digits.foldl (fun n c => base * n + (Hex.digit? c).getD 0) 0)

/-- Decimal digits without a leading zero. -/
def decimalDigits? (cs : List Char) : Option (List Char) :=
  match plainDigits? Char.isDigit cs with
  | some ('0' :: _ :: _) => none
  | digits => digits

/-- An integer that fits 128 bits, signed or not. -/
def ofInt? (n : Int) : Option Document :=
  if -Int.pow 2 127 ≤ n ∧ n < Int.pow 2 128 then some (.int n) else none

/-- The exponent that all characters write; zero when there are none. -/
def exponent? (cs : List Char) : Option Int :=
  let after (c : Char) (negative : Bool) (digits : List Char) : Option Int := do
    if c ≠ 'e' ∧ c ≠ 'E' then none
    let n : Int := digitsValue (← plainDigits? Char.isDigit digits)
    pure (if negative then -n else n)
  match cs with
  | [] => some 0
  | c :: '+' :: digits => after c false digits
  | c :: '-' :: digits => after c true digits
  | c :: digits => after c false digits

/-- The characters of digits with underscores. -/
def isPart (c : Char) : Bool := c.isDigit || c = '_'

/-- A number with a fraction, an exponent or both after its whole digits, unless it is infinite. -/
def ofFraction? (negative : Bool) (whole rest : List Char) : Option Document := do
  let (places, rest) ← match rest with
    | '.' :: rest =>
      (plainDigits? Char.isDigit (rest.takeWhile isPart)).map (·, rest.dropWhile isPart)
    | rest => some ([], rest)
  let exponent ← exponent? rest
  let x : Json.Decimal := ⟨digitsValue (whole ++ places), exponent - places.length⟩
  (Json.Double.nearest? negative x).map .double

/-- A number after its sign. -/
def ofUnsigned? (negative : Bool) (cs : List Char) : Option Document :=
  let rest := cs.dropWhile isPart
  match decimalDigits? (cs.takeWhile isPart) with
  | none => if cs = "inf".toList ∨ cs = "nan".toList then some .unreadable else none
  | some whole =>
    if rest.isEmpty then
      let n : Int := digitsValue whole
      ofInt? (if negative then -n else n)
    else ofFraction? negative whole rest

/-- A boolean or a number. -/
def ofWord? : List Char → Option Document
  | '0' :: 'x' :: digits => (inBase? 16 digits).bind fun n => ofInt? n
  | '0' :: 'o' :: digits => (inBase? 8 digits).bind fun n => ofInt? n
  | '0' :: 'b' :: digits => (inBase? 2 digits).bind fun n => ofInt? n
  | '+' :: cs => ofUnsigned? false cs
  | '-' :: cs => ofUnsigned? true cs
  | cs =>
    if cs = "true".toList then some (.bool true)
    else if cs = "false".toList then some (.bool false)
    else ofUnsigned? false cs

/-- The key under which a date or time holds its text. -/
def momentKey : String := "$__toml_private_datetime"

/-- A boolean, a number, a date or a time. -/
def ofScalar? (cs : List Char) : Option Document :=
  match Moment.read? cs with
  | some m => some (.obj [(momentKey, .str m.text)])
  | none => ofWord? cs

/-- The characters of scalars. -/
def isScalar (c : Char) : Bool :=
  c.isAlphanum || c = '_' || c = '-' || c = '+' || c = '.' || c = ':'

/-- The characters of a scalar, and the rest. One space may stand between a day and a time. -/
def spanScalar (cs : List Char) : List Char × List Char :=
  let word := cs.takeWhile isScalar
  match Date.read? word, cs.dropWhile isScalar with
  | some (_, []), ' ' :: rest =>
    if rest.head?.any Char.isDigit then
      (word ++ ' ' :: rest.takeWhile isScalar, rest.dropWhile isScalar)
    else (word, ' ' :: rest)
  | _, rest => (word, rest)

def readScalar? (cs : List Char) : Option (Document × List Char) :=
  let (word, rest) := spanScalar cs
  (ofScalar? word).map (·, rest)

/-! ## Values -/

mutual

/-- A value from its first character, with `room` levels of nesting left. -/
def readValue? : (fuel room : Nat) → List Char → Option (Document × List Char)
  | 0, _, _ => none
  | fuel + 1, room, cs =>
    match cs with
    | '"' :: _ | '\'' :: _ => (readString? cs).map fun (s, rest) => (.str (String.ofList s), rest)
    | '[' :: rest => do
      if room = 0 then none
      let (items, rest) ← readItems? fuel (room - 1) rest
      pure (.arr items, rest)
    | '\x7b' :: rest => do
      if room = 0 then none
      let (fields, rest) ← readPairs? fuel (room - 1) [] rest
      pure (.obj (fieldsDocument fields), rest)
    | cs => readScalar? cs

/-- The items of an array up to its closing bracket; a comma may stand after the last one. -/
def readItems? : (fuel room : Nat) → List Char → Option (List Document × List Char)
  | 0, _, _ => none
  | fuel + 1, room, cs => do
    match ← skipLines? cs.length cs with
    | ']' :: rest => pure ([], rest)
    | cs =>
      let (item, rest) ← readValue? fuel room cs
      match ← skipLines? rest.length rest with
      | ']' :: rest => pure ([item], rest)
      | ',' :: rest =>
        let (items, rest) ← readItems? fuel room rest
        pure (item :: items, rest)
      | _ => none

/--
The pairs of an inline table up to its closing brace, added to those before. Line ends and comments
may stand wherever blanks may, except within a key; a comma may stand after the last pair.
-/
def readPairs? : (fuel room : Nat) → Fields → List Char → Option (Fields × List Char)
  | 0, _, _, _ => none
  | fuel + 1, room, fields, cs => do
    match ← skipLines? cs.length cs with
    | '\x7d' :: rest => pure (fields, rest)
    | cs =>
      let (path, rest) ← readPath? cs
      match ← skipLines? rest.length rest with
      | '=' :: rest =>
        let (value, rest) ← readValue? fuel room (← skipLines? rest.length rest)
        let fields ← addPair? value path fields
        match ← skipLines? rest.length rest with
        | '\x7d' :: rest => pure (fields, rest)
        | ',' :: rest => readPairs? fuel room fields rest
        | _ => none
      | _ => none

end

end OriginGate.Toml
